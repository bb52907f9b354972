import CodeAtlas.Block.Question
import Mathlib.Data.List.Perm.Subperm
import Mathlib.Data.List.Nodup

/-!
# Paths as addresses

The path of a block is read upwards, along the blocks around it, and followed downwards, along the
children of each name.  In a tree whose blocks have names, different ones among siblings, the two
are inverse to each other: the path of a block leads back to it, and what a path leads to has that
path.

The way up is measured first.  In a tree there is one way from the root to a block, so no block
stands twice on it, and the climb, which has as many steps as there are blocks, comes to the root.
After that the path of a block is the path of its parent and its own name, and both directions are
inductions on the way.

Main results:
  * `Outline.Leads.nodup`: no block of a tree lies around itself;
  * `Outline.Leads.path_eq`: the path of a block is that of the way to it;
  * `Outline.follow_texts`: following a path is a descent by numbers;
  * `Outline.paths_address`: paths and blocks of a tree correspond.
-/

namespace CodeAtlas

namespace Outline

variable {o : Outline} {root i j b : Nat} {above : List Nat} {p q : Path}

/-! ## §1. Trees in an outline. -/

/-- The block is on the way from the root: the root itself, or a child of a block on the way.  The
blocks around it are listed, nearest first. -/
inductive Leads (o : Outline) (root : Nat) : List Nat → Nat → Prop
  | here : Leads o root [] root
  | down {above : List Nat} {i j : Nat} (way : Leads o root above i) (child : j ∈ o.childrenOf i) :
      Leads o root (i :: above) j

/-- The block is one of the tree below the root. -/
def Within (o : Outline) (root b : Nat) : Prop :=
  ∃ above, o.Leads root above b

theorem within_self : o.Within root root :=
  ⟨[], .here⟩

theorem Within.child (h : o.Within root i) (child : j ∈ o.childrenOf i) : o.Within root j := by
  obtain ⟨above, way⟩ := h
  exact ⟨i :: above, .down way child⟩

/-- What hangs below the root is a tree of blocks: nothing is around the root, and each child knows
the block that it hangs at. -/
structure IsTree (o : Outline) (root : Nat) : Prop where
  top : o.parent? root = none
  parent_child : ∀ i j, o.Within root i → j ∈ o.childrenOf i → o.parent? j = some i
  isBlock : ∀ i, o.Within root i → o.thing? i = none

/-- Below the root, which has no name, every block has one, and siblings have different ones. -/
structure IsNamed (o : Outline) (root : Nat) : Prop where
  top : (o.data root).namePath = []
  named : ∀ i j, o.Within root i → j ∈ o.childrenOf i → ∃ n, (o.data j).name = some n ∧ n ≠ ""
  siblings : ∀ i, o.Within root i → ((o.childrenOf i).map fun j => (o.data j).name).Nodup

/-! ## §2. One way to each block. -/

theorem Leads.within (way : o.Leads root above b) : o.Within root b :=
  ⟨above, way⟩

/-- A block on the way has a shorter way. -/
theorem Leads.shorter (way : o.Leads root above b) {a : Nat} (ha : a ∈ above) :
    ∃ higher, o.Leads root higher a ∧ higher.length < above.length := by
  induction way with
  | here => cases ha
  | down way _ ih =>
    obtain rfl | ha := List.mem_cons.1 ha
    · exact ⟨_, way, Nat.lt_succ_self _⟩
    · obtain ⟨higher, hway, hlt⟩ := ih ha
      exact ⟨higher, hway, Nat.lt_succ_of_lt hlt⟩

/-- Only the blocks of the outline have children. -/
theorem lt_size_of_child (child : j ∈ o.childrenOf i) : i < o.entries.size := by
  by_contra hout
  rw [childrenOf, Array.getElem?_eq_none (Nat.le_of_not_lt hout)] at child
  cases child

theorem Leads.lt_size (way : o.Leads root above b) {a : Nat} (ha : a ∈ above) :
    a < o.entries.size := by
  induction way with
  | here => cases ha
  | down _ child ih =>
    obtain rfl | ha := List.mem_cons.1 ha
    · exact lt_size_of_child child
    · exact ih ha

/-- There is one way to each block of a tree. -/
theorem Leads.unique (tree : o.IsTree root) (way : o.Leads root above b) :
    ∀ {other : List Nat}, o.Leads root other b → other = above := by
  induction way with
  | here =>
    intro other hother
    cases hother with
    | here => rfl
    | down way child =>
      -- a step down to the root would make it a child, and it has no parent
      have hparent := tree.parent_child _ _ way.within child
      rw [tree.top] at hparent
      cases hparent
  | down way child ih =>
    intro other hother
    have hparent := tree.parent_child _ _ way.within child
    cases hother with
    | here =>
      rw [tree.top] at hparent
      cases hparent
    | down way' child' =>
      -- both ways come from the one parent of the block
      rw [tree.parent_child _ _ way'.within child'] at hparent
      cases hparent
      rw [ih way']

/-- No block of a tree lies around itself. -/
theorem Leads.not_mem (tree : o.IsTree root) (way : o.Leads root above b) : b ∉ above := by
  intro hmem
  obtain ⟨higher, hway, hlt⟩ := way.shorter hmem
  rw [way.unique tree hway] at hlt
  exact Nat.lt_irrefl _ hlt

theorem Leads.nodup (tree : o.IsTree root) (way : o.Leads root above b) : above.Nodup := by
  induction way with
  | here => exact List.nodup_nil
  | down way _ ih => exact List.nodup_cons.2 ⟨way.not_mem tree, ih⟩

/-! ## §3. The climb. -/

/-- A climb with enough steps finds the blocks of the way. -/
theorem Leads.climb (tree : o.IsTree root) (way : o.Leads root above b) :
    ∀ {fuel : Nat} {seen : List Nat}, above.length < fuel → (∀ a ∈ above, a ∉ seen) →
      around.go o fuel seen b = (above, false) := by
  induction way with
  | here =>
    intro fuel seen hfuel _
    obtain ⟨fuel, rfl⟩ := Nat.exists_eq_add_of_lt hfuel
    simp [around.go, tree.top]
  | @down above i j way child ih =>
    intro fuel seen hfuel hseen
    obtain _ | fuel := fuel
    · cases hfuel
    · have hi : i ∉ seen := hseen i List.mem_cons_self
      -- the parent is now among those seen, and the way does not come back to it
      have hfurther : around.go o fuel (i :: seen) i = (above, false) := by
        refine ih (Nat.lt_of_succ_lt_succ hfuel) fun a ha hmem => ?_
        obtain rfl | hmem := List.mem_cons.1 hmem
        · exact way.not_mem tree ha
        · exact hseen a (List.mem_cons_of_mem _ ha) hmem
      simp [around.go, tree.parent_child i j way.within child, hi, hfurther]

theorem Leads.ancestors_eq (tree : o.IsTree root) (way : o.Leads root above b) :
    o.ancestors b = .ok above := by
  have hlength : above.length ≤ o.entries.size := by
    have hsub : above ⊆ List.range o.entries.size := fun a ha => List.mem_range.2 (way.lt_size ha)
    simpa using (List.subperm_of_subset (way.nodup tree) hsub).length_le
  have haround : o.around b = (above, false) :=
    way.climb tree (Nat.lt_succ_of_le hlength) fun _ _ hmem => by cases hmem
  simp [ancestors, haround]

/-- The path of a block is that of the way to it. -/
theorem Leads.path_eq (tree : o.IsTree root) (way : o.Leads root above b) :
    o.path b = .ok ((b :: above).reverse.flatMap fun j => (o.data j).namePath) := by
  rw [path, way.ancestors_eq tree]
  rfl

theorem path_root (tree : o.IsTree root) (names : o.IsNamed root) : o.path root = .ok [] := by
  rw [Leads.here.path_eq tree]
  simp [names.top]

/-- The path of a child is that of its parent and its own name. -/
theorem path_child (tree : o.IsTree root) (hi : o.Within root i) (hp : o.path i = .ok p)
    (child : j ∈ o.childrenOf i) {n : String} (hname : (o.data j).name = some n) (hn : n ≠ "") :
    o.path j = .ok (p ++ [n]) := by
  obtain ⟨above, way⟩ := hi
  rw [way.path_eq tree] at hp
  cases hp
  have hown : (o.data j).namePath = [n] := by
    unfold BlockData.namePath
    rw [hname]
    split
    · rename_i heq
      exact absurd (Option.some.inj heq) hn
    · cases ‹_ = none›
    · rename_i heq
      rw [Option.some.inj heq]
  rw [(Leads.down way child).path_eq tree, List.reverse_cons, List.flatMap_append]
  simp [hown]

/-! ## §4. The descent. -/

/-- The number of the block that a path leads to. -/
def descend (o : Outline) : Path → Nat → Option Nat
  | [], i => some i
  | name :: rest, i =>
    ((o.childrenOf i).find? fun j => (o.data j).name = some name).bind (o.descend rest)

theorem descend_append (i : Nat) :
    o.descend (p ++ q) i = (o.descend p i).bind (o.descend q) := by
  induction p generalizing i with
  | nil => rfl
  | cons name rest ih =>
    simp only [List.cons_append, descend, Option.bind_assoc]
    congr 1
    exact funext ih

@[simp] theorem info_glimpse (depth i : Nat) : (o.glimpse depth i).info = o.infoOf i := by
  cases depth <;> rfl

theorem toBlockData_infoOf (i : Nat) : (o.infoOf i).toBlockData = o.data i := by
  unfold infoOf data
  cases o.entries[i]? <;> rfl

theorem hurdle_infoOf (h : o.thing? i = none) : (o.infoOf i).hurdle = none := by
  unfold thing? at h
  unfold infoOf
  cases hentry : o.entries[i]? with
  | none => rfl
  | some entry =>
    rw [hentry] at h
    simpa using h

theorem value_glimpse (depth i : Nat) :
    (o.glimpse depth i).value = .block i (o.data i).isModule := by
  rw [Block.value, info_glimpse, toBlockData_infoOf]
  rfl

/-- Names found among what hangs below a block are found by number. -/
theorem followNames_glimpse (i : Nat) :
    (o.glimpse p.length i).followNames (p.map some) = (o.descend p i).map (o.glimpse 0) := by
  induction p generalizing i with
  | nil => rfl
  | cons name rest ih =>
    have hfind : ((o.childrenOf i).map (o.glimpse rest.length)).find?
          (fun c => c.info.name = some name)
        = ((o.childrenOf i).find? fun j => (o.data j).name = some name).map
          (o.glimpse rest.length) := by
      simp only [List.find?_map, Function.comp_def, info_glimpse, toBlockData_infoOf]
    rw [List.map_cons, List.length_cons, glimpse, Block.followNames, hfind, descend]
    cases (o.childrenOf i).find? fun j => (o.data j).name = some name with
    | none => rfl
    | some j => exact ih j

/-- What hangs in a tree can be asked for everything that blocks have. -/
theorem touch_glimpse (tree : o.IsTree root) (hi : o.Within root i) (depth : Nat) (member : String) :
    (o.glimpse depth i).touch member = .ok () := by
  rw [Block.touch, info_glimpse, hurdle_infoOf (tree.isBlock i hi)]

/-- In a tree there is a block at every step of a way. -/
theorem checkWay_glimpse (tree : o.IsTree root) (hi : o.Within root i) :
    Question.checkWay (p.map some) (o.glimpse p.length i) = .ok () := by
  induction p generalizing i with
  | nil => rfl
  | cons name rest ih =>
    rw [List.map_cons, List.length_cons, glimpse, Question.checkWay]
    simp only
    split
    · rfl
    · rename_i c _ hdrop
      have hc : c ∈ (o.childrenOf i).map (o.glimpse rest.length) :=
        List.mem_of_mem_drop (hdrop ▸ List.mem_cons_self)
      obtain ⟨j, hchild, rfl⟩ := List.mem_map.1 hc
      have hj := hi.child hchild
      rw [touch_glimpse tree hj]
      exact ih hj

theorem path?_texts (p : Path) : (Value.texts p).path? = .ok (some (p.map some)) := by
  rw [Value.texts, Value.path?, List.mapM_map]
  exact congrArg Except.ok List.mapM_pure

theorem followNames_eq (tree : o.IsTree root) (p : Path) :
    Question.followNames o root (p.map some) = .ok ((o.descend p root).map (o.glimpse 0)) := by
  rw [Question.followNames, List.length_map, followNames_glimpse, checkWay_glimpse tree within_self]
  rfl

/-- Following a path is a descent by numbers. -/
theorem follow_texts (tree : o.IsTree root) (p : Path) :
    Question.follow o root (.texts p)
      = .ok (Value.ofOption (fun j => .block j (o.data j).isModule) (o.descend p root)) := by
  cases p with
  | nil =>
    have hroot : o.valueOf root = .block root (o.data root).isModule := by
      rw [valueOf, tree.isBlock root within_self, Option.getD_none]
    exact congrArg Except.ok hroot
  | cons name rest =>
    have hlist : Value.texts (name :: rest) = .list (.text name :: rest.map .text) := rfl
    have hnames := path?_texts (name :: rest)
    rw [hlist] at hnames ⊢
    cases hchildren : o.childrenOf root with
    | nil =>
      simp [Question.follow, hchildren, Value.isTruthy, descend, Value.ofOption, pure, Except.pure]
    | cons first others =>
      have hfirst : (o.glimpse 0 first).touch "identifier" = .ok () :=
        touch_glimpse tree (within_self.child (hchildren ▸ List.mem_cons_self)) 0 "identifier"
      simp only [Question.follow, hchildren, hfirst, hnames, Value.isTruthy]
      change (do return Question.ofBlock? (← Question.followNames o root ((name :: rest).map some)))
        = _
      rw [followNames_eq tree]
      cases o.descend (name :: rest) root with
      | none => rfl
      | some j => exact congrArg Except.ok (value_glimpse 0 j)

/-- What a path leads to has the path. -/
theorem path_of_descend (tree : o.IsTree root) (names : o.IsNamed root) (hi : o.Within root i)
    (hp : o.path i = .ok p) (h : o.descend q i = some b) :
    o.Within root b ∧ o.path b = .ok (p ++ q) := by
  induction q generalizing i p with
  | nil =>
    cases h
    exact ⟨hi, by rw [hp, List.append_nil]⟩
  | cons name rest ih =>
    obtain ⟨j, hfound, hrest⟩ := Option.bind_eq_some_iff.1 h
    have hchild : j ∈ o.childrenOf i := List.mem_of_find?_eq_some hfound
    have hname : (o.data j).name = some name := by simpa using List.find?_some hfound
    obtain ⟨n, hn, hne⟩ := names.named i j hi hchild
    cases hname.symm.trans hn
    have hpath := path_child tree hi hp hchild hname hne
    simpa using ih (hi.child hchild) hpath hrest

/-- The path of a block leads to it. -/
theorem descend_path (tree : o.IsTree root) (names : o.IsNamed root)
    (way : o.Leads root above b) : ∃ p, o.path b = .ok p ∧ o.descend p root = some b := by
  induction way with
  | here => exact ⟨[], path_root tree names, rfl⟩
  | @down above i j way child ih =>
    obtain ⟨p, hp, hdescend⟩ := ih
    obtain ⟨n, hname, hne⟩ := names.named i j way.within child
    -- no sibling in front has the name, so the search stops at the child itself
    have hfind : (o.childrenOf i).find? (fun k => (o.data k).name = some n) = some j := by
      cases hfound : (o.childrenOf i).find? fun k => (o.data k).name = some n with
      | none => exact absurd hname (by simpa using List.find?_eq_none.1 hfound j child)
      | some k =>
        have hk : (o.data k).name = (o.data j).name := by
          rw [hname]
          simpa using List.find?_some hfound
        rw [List.inj_on_of_nodup_map (names.siblings i way.within)
          (List.mem_of_find?_eq_some hfound) child hk]
    refine ⟨p ++ [n], path_child tree way.within hp child hname hne, ?_⟩
    simp [descend_append, hdescend, descend, hfind]

/-! ## §5. Paths and blocks. -/

/-- In a tree of named blocks, whose siblings have different names, the path of each block leads to
it, and each path either leads to the block whose path it is or, if no block has it, to nothing. -/
theorem paths_address (tree : o.IsTree root) (names : o.IsNamed root) :
    (∀ b, o.Within root b → ∃ p, o.path b = .ok p ∧
      Question.follow o root (.texts p) = .ok (.block b (o.data b).isModule)) ∧
    ∀ p, (∃ b, o.Within root b ∧ o.path b = .ok p ∧
        Question.follow o root (.texts p) = .ok (.block b (o.data b).isModule)) ∨
      (Question.follow o root (.texts p) = .ok .nothing ∧
        ∀ b, o.Within root b → o.path b ≠ .ok p) := by
  refine ⟨fun b ⟨_, way⟩ => ?_, fun p => ?_⟩
  · obtain ⟨p, hp, hdescend⟩ := descend_path tree names way
    refine ⟨p, hp, ?_⟩
    rw [follow_texts tree, hdescend]
    rfl
  · rw [follow_texts tree]
    cases hdescend : o.descend p root with
    | some b =>
      obtain ⟨hb, hpath⟩ :=
        path_of_descend tree names within_self (path_root tree names) hdescend
      exact .inl ⟨b, hb, hpath, rfl⟩
    | none =>
      -- a block with the path would have been found
      refine .inr ⟨rfl, fun b ⟨_, way⟩ hpath => ?_⟩
      obtain ⟨p', hp', hback⟩ := descend_path tree names way
      cases hpath.symm.trans hp'
      rw [hdescend] at hback
      cases hback

/-- Two classes with a method `run` each; a class inside the second one has the name of the first. -/
def namesakes : Outline where
  entries := #[
    { data := { kind := .moduleDef, content := "", isModule := true }, children := [1, 2] },
    { data := { kind := .classDef, content := "class Task:", name := some "Task" }
      parent := some 0, children := [3, 4] },
    { data := { kind := .classDef, content := "class Pool:", name := some "Pool" }
      parent := some 0, children := [5] },
    { data := { kind := .functionDef, content := "def run():", name := some "run" }
      parent := some 1 },
    { data := { kind := .functionDef, content := "def stop():", name := some "stop" }
      parent := some 1 },
    { data := { kind := .functionDef, content := "def run():", name := some "run" }
      parent := some 2, children := [6] },
    { data := { kind := .classDef, content := "class Task:", name := some "Task" }
      parent := some 5 }]

theorem namesakes_past {i : Nat} (h : ¬i < 7) : namesakes.entries[i]? = none :=
  Array.getElem?_eq_none (Nat.le_of_not_lt h)

theorem isTree_namesakes : namesakes.IsTree 0 where
  top := rfl
  parent_child i j _ child := by
    have hall : ∀ i < 7, ∀ j ∈ namesakes.childrenOf i, namesakes.parent? j = some i := by decide
    exact hall i (lt_size_of_child child) j child
  isBlock i _ := by
    by_cases h : i < 7
    · have hall : ∀ i < 7, (namesakes.thing? i).isNone := by decide
      exact Option.isNone_iff_eq_none.1 (hall i h)
    · rw [thing?, namesakes_past h]
      rfl

theorem isNamed_namesakes : namesakes.IsNamed 0 where
  top := rfl
  named i j _ child := by
    have hall : ∀ i < 7, ∀ j ∈ namesakes.childrenOf i,
        ∃ n ∈ (namesakes.data j).name, n ≠ "" := by decide
    exact hall i (lt_size_of_child child) j child
  siblings i _ := by
    by_cases h : i < 7
    · have hall : ∀ i < 7,
          ((namesakes.childrenOf i).map fun j => (namesakes.data j).name).Nodup := by decide
      exact hall i h
    · rw [childrenOf, namesakes_past h]
      exact List.nodup_nil

theorem within_namesakes : namesakes.Within 0 6 :=
  ((within_self.child (j := 2) (by decide)).child (j := 5) (by decide)).child (by decide)

/-- The inner class is found below the method of the second class, and not below that of the first
one, which has the same name. -/
theorem paths_address_namesakes :
    namesakes.IsTree 0 ∧ namesakes.IsNamed 0 ∧ namesakes.Within 0 6 ∧
      namesakes.path 6 = .ok ["Pool", "run", "Task"] ∧
      Question.follow namesakes 0 (.texts ["Pool", "run", "Task"]) = .ok (.block 6 false) ∧
      Question.follow namesakes 0 (.texts ["Task", "run", "Task"]) = .ok .nothing := by
  obtain ⟨hback, hpaths⟩ := paths_address isTree_namesakes isNamed_namesakes
  have hpath : namesakes.path 6 = .ok ["Pool", "run", "Task"] := by decide
  have hinner : Question.follow namesakes 0 (.texts ["Pool", "run", "Task"])
      = .ok (.block 6 false) := by
    obtain ⟨p, hp, hfollow⟩ := hback 6 within_namesakes
    cases hpath.symm.trans hp
    exact hfollow
  refine ⟨isTree_namesakes, isNamed_namesakes, within_namesakes, hpath, hinner, ?_⟩
  obtain ⟨b, ⟨above, way⟩, htask, -⟩ | ⟨hnothing, -⟩ := hpaths ["Task", "run", "Task"]
  · have hall : ∀ i < 7, ∀ j ∈ namesakes.childrenOf i,
        namesakes.path j ≠ .ok ["Task", "run", "Task"] := by decide
    cases way with
    | here => exact absurd htask (by decide)
    | @down _ i _ _ child => exact absurd htask (hall i (lt_size_of_child child) b child)
  · exact hnothing

end Outline

end CodeAtlas
