import CodeAtlas.Proofs.Outcome
import CodeAtlas.Proofs.Scope.Traversals
import CodeAtlas.Repo.Export

/-!
# What a file exports

The exports of a file are the classes and functions that are attached to a scope right below the
whole source.  To find them, the sort of every definition attached to such a scope is asked for, and
one whose sort was not written down makes the search fail.  Definitions that stay in place have
their sort written down; hoisted and global ones do not.  A global definition is attached to the
whole source itself, and so is one that is hoisted out of a scope right below it: neither is asked.
What is left are the definitions that are hoisted out of a scope two below the whole source.  One of
them is enough, whatever comes before or after it, and without one the search lists the exports.

Main results:
  * `ScopeMap.exports_of_untold`, `ScopeMap.exports_of_told`: the search in a map;
  * `ScopeMap.untold_insert`: what one insertion does to the definitions that are asked;
  * `ScopeMap.untold_foldl`: what a row of insertions does;
  * `ScopeMap.exports_after_insertions`: the search after any row of insertions.
-/

namespace CodeAtlas

namespace ScopeMap

/-! ## §1. The definitions that are asked. -/

/-- Definition `i` is attached to scope `c`, which is right below the whole source. -/
def OuterDefinition (g : ScopeMap) (c i : Nat) : Prop :=
  ⟨root, .scopeToScope⟩ ∈ g.links c ∧ ⟨c, .defToScope⟩ ∈ g.links i

/-- Definition `i` is a class or a function of scope `c`, which is right below the whole source. -/
def Exports (g : ScopeMap) (c i : Nat) : Prop :=
  g.OuterDefinition c i ∧ ∃ sort, g.item? i = some (.definition (.recorded (some sort))) ∧
    (sort = "class" ∨ sort = "function")

/-- The sort of a definition was not written down, and will be asked for. -/
def Untold (g : ScopeMap) : Prop :=
  ∃ c i, g.OuterDefinition c i ∧ g.item? i = some (.definition .unrecorded)

/-- The row lists what is exported: scope by scope, and the scopes and what is in them from the
oldest on. -/
structure ListsExports (g : ScopeMap) (row : List (Nat × Nat)) : Prop where
  complete : ∀ c i, (c, i) ∈ row ↔ g.Exports c i
  sorted : row.Pairwise fun a b => a.1 < b.1 ∨ a.1 = b.1 ∧ a.2 < b.2

section Asking

variable {g : ScopeMap} (wired : g.Wired) {c i : Nat}

include wired in
/-- Only definitions have a link to the scope they are defined in. -/
theorem Wired.item?_of_defLink (h : ⟨c, .defToScope⟩ ∈ g.links i) :
    ∃ sort, g.item? i = some (.definition sort) := by
  obtain ⟨item, hitem, hattached⟩ := wired.attached_of_link h
  obtain ⟨sort, rfl⟩ : ∃ sort, item = .definition sort := hattached.item_of_link h
  exact ⟨sort, hitem⟩

theorem isClassOrFunction_recorded {sort : Option String}
    (h : g.item? i = some (.definition (.recorded sort))) :
    g.isClassOrFunction i = .ok (sort = some "class" || sort = some "function") := by
  unfold isClassOrFunction sortOf
  rw [h]
  rfl

theorem isClassOrFunction_unrecorded (h : g.item? i = some (.definition .unrecorded)) :
    g.isClassOrFunction i = .error (.noEntry "'def_type'") := by
  unfold isClassOrFunction sortOf
  rw [h]
  rfl

include wired in
/-- The one way in which asking for a sort fails is that it was not written down. -/
theorem Wired.failsOnly_isClassOrFunction (h : ⟨c, .defToScope⟩ ∈ g.links i) :
    Outcome.FailsOnly (.noEntry "'def_type'") (g.isClassOrFunction i) := by
  obtain ⟨sort, hitem⟩ := wired.item?_of_defLink h
  cases sort with
  | unrecorded =>
    rw [isClassOrFunction_unrecorded hitem]
    exact Outcome.FailsOnly.error _
  | recorded sort =>
    rw [isClassOrFunction_recorded hitem]
    exact Outcome.FailsOnly.ok _ _

theorem outerDefinition_iff :
    g.OuterDefinition c i ↔ c ∈ g.scopesBelow root ∧ i ∈ g.sources .defToScope c := by
  unfold scopesBelow
  rw [mem_sources, mem_sources]
  constructor
  · intro h
    exact ⟨⟨lt_size_of_link h.1, h.1⟩, lt_size_of_link h.2, h.2⟩
  · intro h
    exact ⟨h.1.2, h.2.2⟩

end Asking

/-! ## §2. The search in a map. -/

/-- Is the node known to be a class or a function? -/
def isExported (g : ScopeMap) (i : Nat) : Bool :=
  g.item? i = some (.definition (.recorded (some "class"))) ||
    g.item? i = some (.definition (.recorded (some "function")))

/-- The exports with their scopes: one scope after the other. -/
def exportRow (g : ScopeMap) : List (Nat × Nat) :=
  (g.scopesBelow root).flatMap fun c =>
    ((g.sources .defToScope c).filter g.isExported).map fun i => (c, i)

/-- The exports of one of the scopes. -/
def exportsOf (g : ScopeMap) (c : Nat) : Outcome (List (String × Nat)) := do
  return (← g.classesAndFunctions (g.sources .defToScope c)).map fun i => (g.nameOf i, c)

theorem exports_eq (g : ScopeMap) :
    g.exports = do return (← (g.scopesBelow root).mapM g.exportsOf).flatten := rfl

section Search

variable {g : ScopeMap}

theorem isExported_iff {i : Nat} :
    g.isExported i = true ↔ ∃ sort, g.item? i = some (.definition (.recorded (some sort))) ∧
      (sort = "class" ∨ sort = "function") := by
  unfold isExported
  rw [Bool.or_eq_true, decide_eq_true_eq, decide_eq_true_eq]
  constructor
  · rintro (h | h)
    · exact ⟨_, h, Or.inl rfl⟩
    · exact ⟨_, h, Or.inr rfl⟩
  · rintro ⟨sort, h, rfl | rfl⟩
    · exact Or.inl h
    · exact Or.inr h

theorem listsExports_exportRow : g.ListsExports g.exportRow where
  complete := by
    intro c i
    unfold exportRow Exports
    rw [outerDefinition_iff, ← isExported_iff]
    simp only [List.mem_flatMap, List.mem_map, List.mem_filter, Prod.mk.injEq]
    constructor
    · rintro ⟨c, hc, i, ⟨hi, hexported⟩, rfl, rfl⟩
      exact ⟨⟨hc, hi⟩, hexported⟩
    · rintro ⟨⟨hc, hi⟩, hexported⟩
      exact ⟨c, hc, i, ⟨hi, hexported⟩, rfl, rfl⟩
  sorted := by
    unfold exportRow
    rw [List.pairwise_flatMap]
    constructor
    · -- within a scope, by the numbers of the definitions
      intro c _
      rw [List.pairwise_map]
      exact ((sources_sorted g .defToScope c).filter _).imp fun h => Or.inr ⟨rfl, h⟩
    · -- and else by the numbers of the scopes
      refine (sources_sorted g .scopeToScope root).imp fun {c d} hcd => ?_
      intro a ha b hb
      obtain ⟨i, -, rfl⟩ := List.mem_map.1 ha
      obtain ⟨j, -, rfl⟩ := List.mem_map.1 hb
      exact Or.inl hcd

variable (wired : g.Wired)
include wired

/-- If all sorts that are asked for were written down, the exports are listed. -/
theorem exports_of_told (h : ¬ g.Untold) :
    g.exports = .ok (g.exportRow.map fun (c, i) => (g.nameOf i, c)) := by
  -- whatever is asked has an answer, since nothing that is asked is untold
  have hanswer : ∀ c ∈ g.scopesBelow root, ∀ i ∈ g.sources .defToScope c,
      g.isClassOrFunction i = .ok (g.isExported i) := by
    intro c hc i hi
    obtain ⟨sort, hitem⟩ := wired.item?_of_defLink (mem_sources.1 hi).2
    cases sort with
    | unrecorded => exact absurd ⟨c, i, outerDefinition_iff.2 ⟨hc, hi⟩, hitem⟩ h
    | recorded sort =>
      rw [isClassOrFunction_recorded hitem]
      unfold isExported
      simp [hitem]
  have hscope : ∀ c ∈ g.scopesBelow root, g.exportsOf c = .ok (((g.sources .defToScope c).filter
      g.isExported).map fun i => (g.nameOf i, c)) := by
    intro c hc
    unfold exportsOf classesAndFunctions
    rw [Outcome.filterM_eq_ok (hanswer c hc)]
    rfl
  rw [exports_eq, Outcome.mapM_eq_ok hscope]
  show Except.ok _ = _
  unfold exportRow
  rw [← List.flatMap_def, List.map_flatMap]
  simp only [List.map_map]
  rfl

/-- If one of them was not, the search fails. -/
theorem exports_of_untold (h : g.Untold) : g.exports = .error (.noEntry "'def_type'") := by
  -- there is but one way to fail, so it does not matter which definition is asked first
  have hasked : ∀ c, ∀ i ∈ g.sources .defToScope c,
      Outcome.FailsOnly (.noEntry "'def_type'") (g.isClassOrFunction i) :=
    fun c i hi => wired.failsOnly_isClassOrFunction (mem_sources.1 hi).2
  have hscope : ∀ c ∈ g.scopesBelow root,
      Outcome.FailsOnly (.noEntry "'def_type'") (g.exportsOf c) := by
    intro c _
    apply Outcome.FailsOnly.bind
    · intro other hother
      exact Outcome.FailsOnly.mapM (hasked c) other (Outcome.filterM_eq_error_iff.1 hother)
    · intro row
      exact Outcome.FailsOnly.ok _ _
  obtain ⟨c, i, houter, hitem⟩ := h
  obtain ⟨hc, hi⟩ := outerDefinition_iff.1 houter
  have hfail : g.exportsOf c = .error (.noEntry "'def_type'") := by
    unfold exportsOf classesAndFunctions
    rw [Outcome.filterM_eq_error_iff.2
      (Outcome.mapM_eq_error (hasked c) hi (isClassOrFunction_unrecorded hitem))]
    rfl
  rw [exports_eq, Outcome.mapM_eq_error hscope hc hfail]
  rfl

end Search

/-! ## §3. What an insertion does. -/

end ScopeMap

/-- The insertion hoists a definition out of a scope two below the whole source. -/
def Insertion.HoistsOut (g : ScopeMap) : Insertion → Prop
  | .definition .hoisted range _ _ =>
    range.rows.isMeasurable = true ∧ (g.around? (g.scopeAt range)).bind g.around? = some ScopeMap.root
  | _ => False

instance (g : ScopeMap) : (new : Insertion) → Decidable (new.HoistsOut g)
  | .definition .hoisted _ _ _ => inferInstanceAs (Decidable (_ ∧ _))
  | .definition .global _ _ _ | .definition .inPlace _ _ _ => isFalse id
  | .scope _ | .importStmt _ _ | .reference _ _ => isFalse id

namespace ScopeMap

section Insert

variable {g grown : ScopeMap}

/-- A new node is asked for its sort only if it is attached to an old scope right below the whole
source, and nothing that is old is asked because of it. -/
theorem untold_push {node : ScopeEntry} (hnodes : grown.nodes = g.nodes.push node)
    (hgrown : grown.Wired) :
    grown.Untold ↔ g.Untold ∨ node.item = .definition .unrecorded ∧
      ∃ c, ⟨root, .scopeToScope⟩ ∈ g.links c ∧ ⟨c, .defToScope⟩ ∈ node.links := by
  have hlinks := links_push hnodes
  have hitem := item?_push hnodes
  have hold : ∀ {i : Nat} {l : Link}, l ∈ g.links i → i ≠ g.nodes.size := by
    intro i l hl
    have := lt_size_of_link hl
    omega
  constructor
  · rintro ⟨c, i, ⟨hc, hi⟩, huntold⟩
    -- the scope is older than what is attached to it, so it is not the new node
    have hci : c < i := hgrown.target_lt hi
    have hsize := lt_size_of_link hi
    rw [hnodes, Array.size_push] at hsize
    rw [hlinks, if_neg (by omega)] at hc
    rw [hlinks] at hi
    rw [hitem] at huntold
    by_cases hnew : i = g.nodes.size
    · rw [if_pos hnew] at hi huntold
      exact Or.inr ⟨Option.some.inj huntold, c, hc, hi⟩
    · rw [if_neg hnew] at hi huntold
      exact Or.inl ⟨c, i, ⟨hc, hi⟩, huntold⟩
  · rintro (⟨c, i, ⟨hc, hi⟩, huntold⟩ | ⟨hnode, c, hc, hi⟩)
    · refine ⟨c, i, ⟨?_, ?_⟩, item?_kept hnodes huntold⟩
      · rw [hlinks, if_neg (hold hc)]
        exact hc
      · rw [hlinks, if_neg (hold hi)]
        exact hi
    · refine ⟨c, g.nodes.size, ⟨?_, ?_⟩, ?_⟩
      · rw [hlinks, if_neg (hold hc)]
        exact hc
      · rw [hlinks, if_pos rfl]
        exact hi
      · rw [hitem, if_pos rfl, hnode]

/-- What is inserted otherwise has its sort written down, or is no definition, or is attached to the
whole source. -/
theorem links_nodeOf {new : Insertion}
    (h : ∀ range name sort, new ≠ .definition .hoisted range name sort)
    (hitem : (g.nodeOf new).item = .definition .unrecorded) :
    (g.nodeOf new).links = [⟨root, .defToScope⟩] := by
  cases new with
  | scope range => cases hitem
  | importStmt range statement => cases hitem
  | definition scoping range name sort =>
    cases scoping with
    | global => rfl
    | hoisted => exact absurd rfl (h range name sort)
    | inPlace => cases hitem
  | reference range name => cases hitem

variable (wired : g.Wired)
include wired

theorem Wired.around?_eq_some_iff {v p : Nat} :
    g.around? v = some p ↔ ⟨p, .scopeToScope⟩ ∈ g.links v := by
  rw [← wired.above?_eq_some_iff]
  unfold around?
  constructor
  · intro h
    split at h
    · exact h
    · cases h
  · intro h
    rw [if_pos (wired.above?_older h).1, h]

/-- The scope that a definition is hoisted into is right below the whole source if the one that it
comes from is two below. -/
theorem Wired.hoisted_below_root (range : SourceRange) :
    ⟨root, .scopeToScope⟩ ∈ g.links ((g.around? (g.scopeAt range)).getD (g.scopeAt range)) ↔
      (g.around? (g.scopeAt range)).bind g.around? = some root := by
  rw [← wired.around?_eq_some_iff]
  cases haround : g.around? (g.scopeAt range) with
  | some d => rfl
  | none =>
    -- with no scope around it, it is the whole source itself that the definition stays in
    show g.around? (g.scopeAt range) = some root ↔ none = some root
    rw [haround]

theorem untold_insert_of_not_hoisted {new : Insertion}
    (h : ∀ range name sort, new ≠ .definition .hoisted range name sort) :
    (g.insert new).2.Untold ↔ g.Untold := by
  obtain hsame | hnodes := insert_nodes g new
  · rw [hsame]
  · rw [untold_push hnodes (wired.insert new)]
    constructor
    · rintro (hold | ⟨hitem, c, hc, hlink⟩)
      · exact hold
      · -- the whole source is not right below itself
        rw [links_nodeOf h hitem, List.mem_singleton] at hlink
        rw [(Link.mk.inj hlink).1, wired.rootLinks] at hc
        cases hc
    · exact Or.inl

theorem untold_insert_hoisted (range : SourceRange) (name : String) (sort : Option String) :
    (g.insert (.definition .hoisted range name sort)).2.Untold ↔
      g.Untold ∨ Insertion.HoistsOut g (.definition .hoisted range name sort) := by
  show _ ↔ g.Untold ∨ range.rows.isMeasurable = true ∧ _
  have hgrown := wired.insert (.definition .hoisted range name sort)
  rw [insert_of_sought rfl] at hgrown ⊢
  unfold RowSpan.measure at hgrown ⊢
  -- rows that cannot be measured leave the map as it is
  cases hrows : range.rows.isMeasurable with
  | false => simp
  | true =>
    rw [hrows] at hgrown
    change (g.defineHoisted range name).Wired at hgrown
    show (g.defineHoisted range name).Untold ↔ _
    rw [untold_push rfl hgrown, ← wired.hoisted_below_root]
    simp

/-- **What an insertion does** to the definitions that are asked for their sort: only one that is
hoisted out of a scope two below the whole source becomes one without an answer. -/
theorem untold_insert (new : Insertion) :
    (g.insert new).2.Untold ↔ g.Untold ∨ new.HoistsOut g := by
  by_cases hhoisted : ∃ range name sort, new = .definition .hoisted range name sort
  · obtain ⟨range, name, sort, rfl⟩ := hhoisted
    exact untold_insert_hoisted wired range name sort
  · have hother : ∀ range name sort, new ≠ .definition .hoisted range name sort :=
      fun range name sort hnew => hhoisted ⟨range, name, sort, hnew⟩
    have hnot : ¬ new.HoistsOut g := by
      intro hout
      unfold Insertion.HoistsOut at hout
      split at hout
      · exact hother _ _ _ rfl
      · exact hout
    rw [untold_insert_of_not_hoisted wired hother]
    simp [hnot]

end Insert

/-! ## §4. Rows of insertions. -/

/-- One of the insertions hoists a definition out of a scope that is two below the whole source when
its turn comes. -/
def HoistsOut (g : ScopeMap) (news : List Insertion) : Prop :=
  ∃ before new after, news = before ++ new :: after ∧
    new.HoistsOut (before.foldl (fun g new => (g.insert new).2) g)

theorem hoistsOut_nil (g : ScopeMap) : ¬ g.HoistsOut [] := by
  rintro ⟨before, new, after, hnews, -⟩
  simp at hnews

theorem hoistsOut_cons (g : ScopeMap) (new : Insertion) (rest : List Insertion) :
    g.HoistsOut (new :: rest) ↔ new.HoistsOut g ∨ (g.insert new).2.HoistsOut rest := by
  constructor
  · rintro ⟨before, x, after, hnews, hx⟩
    cases before with
    | nil =>
      obtain ⟨rfl, -⟩ := List.cons.inj hnews
      exact Or.inl hx
    | cons first before =>
      obtain ⟨rfl, hrest⟩ := List.cons.inj hnews
      exact Or.inr ⟨before, x, after, hrest, hx⟩
  · rintro (hnew | ⟨before, x, after, rfl, hx⟩)
    · exact ⟨[], new, rest, rfl, hnew⟩
    · exact ⟨new :: before, x, after, rfl, hx⟩

/-- **What a row of insertions does**, by what each of them does. -/
theorem untold_foldl {start : ScopeMap} (wired : start.Wired) (news : List Insertion) :
    (news.foldl (fun g new => (g.insert new).2) start).Untold ↔
      start.Untold ∨ start.HoistsOut news := by
  induction news generalizing start with
  | nil => simp [hoistsOut_nil]
  | cons new rest ih =>
    rw [List.foldl_cons, ih (wired.insert new), untold_insert wired new, hoistsOut_cons, or_assoc]

theorem not_untold_empty {source : SourceRange} {start : ScopeMap}
    (hstart : empty source = .ok start) : ¬ start.Untold := by
  obtain ⟨-, rfl⟩ := empty_ok hstart
  rintro ⟨c, i, ⟨-, hlink⟩, -⟩
  -- the one node there is has no links
  have hi := lt_size_of_link hlink
  have hzero : i = 0 := Nat.lt_one_iff.1 hi
  rw [hzero] at hlink
  cases hlink

/-- **The exports after any row of insertions**, of which some may fail and leave something behind.
If a definition was hoisted out of a scope two below the whole source, there is no answer.
Otherwise the answer lists the classes and functions of the scopes right below the whole source,
each with its scope: the scopes from the oldest on, and in each of them the definitions from the
oldest on. -/
theorem exports_after_insertions {source : SourceRange} {start : ScopeMap}
    (hstart : empty source = .ok start) (news : List Insertion) :
    let g := news.foldl (fun g new => (g.insert new).2) start
    (start.HoistsOut news → g.exports = .error (.noEntry "'def_type'")) ∧
      (¬ start.HoistsOut news → ∃ row, g.ListsExports row ∧
        g.exports = .ok (row.map fun (c, i) => (g.nameOf i, c))) := by
  intro g
  have hreach : Reachable (fun _ => True) source g :=
    (Reachable.start hstart).insertAll news fun _ _ => trivial
  have wired : g.Wired := wired_of_reachable hreach
  have huntold : g.Untold ↔ start.HoistsOut news := by
    rw [untold_foldl (wired_empty hstart) news]
    simp [not_untold_empty hstart]
  constructor
  · intro hout
    exact exports_of_untold wired (huntold.2 hout)
  · intro hnot
    exact ⟨g.exportRow, listsExports_exportRow, exports_of_told wired (mt huntold.1 hnot)⟩

/-- A class with a method, out of which a variable is hoisted in the end. -/
def methodInsertions : List Insertion :=
  [.scope (.ofRows 0 8), .definition .inPlace (.ofRows 0 0) "A" (some "class"),
    .scope (.ofRows 1 5), .definition .hoisted (.ofRows 2 2) "x" (some "variable")]

theorem exports_after_insertions_method :
    let start : ScopeMap :=
      { nodes := #[{ range := .ofRows 0 9, item := .scope }], placed := [(.ofRows 0 9, root)] }
    let run := fun (news : List Insertion) => news.foldl (fun g new => (g.insert new).2) start
    empty (.ofRows 0 9) = .ok start ∧
      start.HoistsOut methodInsertions ∧ ¬ start.HoistsOut (methodInsertions.take 3) ∧
      (run methodInsertions).exports = .error (.noEntry "'def_type'") ∧
      ∃ row, (run (methodInsertions.take 3)).ListsExports row ∧
        (run (methodInsertions.take 3)).exports =
          .ok (row.map fun (c, i) => ((run (methodInsertions.take 3)).nameOf i, c)) := by
  intro start run
  have hstart : empty (.ofRows 0 9) = .ok start := rfl
  have hout : start.HoistsOut methodInsertions :=
    ⟨methodInsertions.take 3, _, [], rfl, by decide +kernel⟩
  have hnot : ¬ start.HoistsOut (methodInsertions.take 3) := by
    unfold methodInsertions
    simp [hoistsOut_cons, hoistsOut_nil, Insertion.HoistsOut]
  exact ⟨hstart, hout, hnot, (exports_after_insertions hstart methodInsertions).1 hout,
    (exports_after_insertions hstart (methodInsertions.take 3)).2 hnot⟩

end ScopeMap

end CodeAtlas
