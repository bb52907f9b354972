import CodeAtlas.Proofs.Block.NameTrees

/-!
# Name trees as sets of paths

A name tree is a set of paths: the paths in it are those that were put into it, and the other nodes
are there to lead to them.  The union of two trees is the tree that the paths of the second make when
they are put into the first, down to the order of the names.

What carries the proof of the second statement is that a path may be put into the second tree before
the union as well as into the union (`merge_add`).  That needs the names below each node of the second
tree to differ, which putting paths into a tree keeps.

Main results:
  * `NameTree.contains_add`: one more path is one more member;
  * `NameTree.merge_add`: the union and one more path;
  * `NameTree.ofPaths_faithful`: nodes, members and unions of trees of paths.
-/

namespace CodeAtlas

/-! ## §1. Two values set one after the other. -/

namespace Assoc

variable {κ α : Type} [BEq κ] [LawfulBEq κ]

/-- Of two values set for a key the second one stays. -/
theorem put_put (key : κ) (first second : α) (entries : List (κ × α)) :
    put key second (put key first entries) = put key second entries := by
  induction entries with
  | nil => simp [put]
  | cons e rest ih =>
    obtain ⟨k, v⟩ := e
    by_cases heq : (k == key) = true
    · simp [put, heq]
    · simp [put, heq, ih]

/-- Values of different keys may be set in either order if one of the keys has a place already. -/
theorem put_comm {key other : κ} (hne : key ≠ other) (value more : α) {entries : List (κ × α)}
    (hthere : other ∈ entries.map (·.1)) :
    put key value (put other more entries) = put other more (put key value entries) := by
  induction entries with
  | nil => cases hthere
  | cons e rest ih =>
    obtain ⟨k, v⟩ := e
    by_cases hother : k = other
    · -- the entry is the one of the present key, and the rest is left to the other one
      subst hother
      simp [put, Ne.symm hne]
    · have hrest : other ∈ rest.map (·.1) :=
        (List.mem_cons.1 hthere).resolve_left fun h => hother h.symm
      by_cases hkey : k = key
      · subst hkey
        simp [put, hother]
      · simp [put, hother, hkey, ih hrest]

end Assoc

namespace NameTree

/-! ## §2. Members. -/

/-- Is the path in the set? -/
def contains (q : Path) (t : NameTree) : Bool :=
  (t.find? q).any (·.shown)

theorem contains_cons (name : String) (rest : Path) (t : NameTree) :
    t.contains (name :: rest) = (t.child? name).any (contains rest) := by
  show ((t.child? name).bind (find? rest)).any (·.shown) = _
  cases t.child? name with
  | none => rfl
  | some below => rfl

theorem contains_empty (q : Path) : empty.contains q = false := by
  cases q with
  | nil => rfl
  | cons name rest => rfl

/-- **One more path is one more member.** -/
theorem contains_add (p : Path) (t : NameTree) (q : Path) :
    (add p t).contains q = true ↔ q = p ∨ t.contains q = true := by
  induction p generalizing t q with
  | nil =>
    cases q with
    | nil => exact iff_of_true rfl (Or.inl rfl)
    | cons name rest =>
      show t.contains (name :: rest) = true ↔ _
      simp
  | cons name rest ih =>
    cases q with
    | nil =>
      show t.contains [] = true ↔ _
      simp
    | cons other others =>
      rw [contains_cons, contains_cons, child?_add]
      by_cases hsame : name = other
      · subst hsame
        rw [if_pos (beq_self_eq_true name), Option.any_some, ih]
        cases t.child? name with
        | none =>
          -- below a new node there is nothing but the rest of the path
          rw [Option.getD_none, contains_empty]
          simp
        | some below => simp
      · rw [if_neg (by simpa using hsame)]
        simp [Ne.symm hsame]

theorem contains_extend (paths : List (Option Path)) (t : NameTree) (q : Path) :
    (t.extend paths).contains q = true ↔ t.contains q = true ∨ some q ∈ paths := by
  unfold extend
  induction paths generalizing t with
  | nil => simp
  | cons p? rest ih =>
    rw [List.foldl_cons, ih]
    cases p? with
    | none => simp
    | some p =>
      rw [contains_add, List.mem_cons, Option.some.injEq, or_comm (a := q = p), or_assoc]

/-- The members of the tree of some paths are these paths. -/
theorem contains_ofPaths (paths : List (Option Path)) (q : Path) :
    (ofPaths paths).contains q = true ↔ some q ∈ paths := by
  rw [ofPaths, contains_extend, contains_empty]
  simp

/-! ## §3. Trees whose names differ. -/

/-- Below each node of the tree all names differ. -/
def Distinct (t : NameTree) : Prop :=
  ∀ path node, t.find? path = some node → (node.branches.map (·.1)).Nodup

theorem Distinct.here {t : NameTree} (h : t.Distinct) : (t.branches.map (·.1)).Nodup :=
  h [] t rfl

theorem distinct_empty : empty.Distinct := by
  intro path node hnode
  have hroot : path = [] := (find?_empty path).1 (by rw [hnode]; rfl)
  subst hroot
  cases hnode
  exact List.nodup_nil

/-- What lies one name down has different names, also where nothing does. -/
theorem Distinct.below {t : NameTree} (h : t.Distinct) (name : String) :
    ((t.child? name).getD empty).Distinct := by
  cases hchild : t.child? name with
  | none => exact distinct_empty
  | some below =>
    intro path node hnode
    apply h (name :: path) node
    show (t.child? name).bind (find? path) = some node
    rw [hchild]
    exact hnode

theorem Distinct.add {t : NameTree} (h : t.Distinct) (p : Path) : (add p t).Distinct := by
  induction p generalizing t with
  | nil =>
    intro path node hnode
    cases path with
    | nil =>
      cases hnode
      exact h.here
    | cons name path => exact h (name :: path) node hnode
  | cons name rest ih =>
    intro path node hnode
    cases path with
    | nil =>
      cases hnode
      exact Assoc.nodup_keys_put name _ h.here
    | cons other path =>
      have hbelow : ((NameTree.add (name :: rest) t).child? other).bind (find? path) = some node :=
        hnode
      rw [child?_add] at hbelow
      by_cases hsame : name = other
      · rw [if_pos (beq_iff_eq.2 hsame)] at hbelow
        exact ih (h.below name) path node hbelow
      · rw [if_neg (by simpa using hsame)] at hbelow
        exact h (other :: path) node hbelow

/-! ## §4. Unions. -/

theorem merge_eq (t u : NameTree) :
    t.merge u = ⟨t.shown || u.shown, mergeBranches t.branches u.branches⟩ := by
  cases u
  rw [merge]

/-- The union with the empty tree. -/
theorem merge_empty (t : NameTree) : t.merge empty = t := by
  obtain ⟨shown, branches⟩ := t
  show (⟨shown || false, mergeBranches branches []⟩ : NameTree) = ⟨shown, branches⟩
  rw [Bool.or_false, mergeBranches]

section Branches

variable {name : String} {theirs : List (String × NameTree)}

/-- A name that the second tree does not have keeps what it stood for. -/
theorem get?_mergeBranches_of_absent (h : name ∉ theirs.map (·.1))
    (mine : List (String × NameTree)) :
    Assoc.get? name (mergeBranches mine theirs) = Assoc.get? name mine := by
  induction theirs generalizing mine with
  | nil => rw [mergeBranches]
  | cons e rest ih =>
    obtain ⟨k, t⟩ := e
    rw [List.map_cons, List.mem_cons, not_or] at h
    rw [mergeBranches, ih h.2, Assoc.get?_put, if_neg (by simpa using Ne.symm h.1)]

/-- Such a name may be set before or after the union if the first tree has it. -/
theorem mergeBranches_put_of_absent (h : name ∉ theirs.map (·.1)) (value : NameTree)
    {mine : List (String × NameTree)} (hthere : name ∈ mine.map (·.1)) :
    mergeBranches (Assoc.put name value mine) theirs
      = Assoc.put name value (mergeBranches mine theirs) := by
  induction theirs generalizing mine with
  | nil => rw [mergeBranches, mergeBranches]
  | cons e rest ih =>
    obtain ⟨k, t⟩ := e
    rw [List.map_cons, List.mem_cons, not_or] at h
    have hne : k ≠ name := Ne.symm h.1
    -- the entry is taken over first; that does not touch the name, and leaves it there
    rw [mergeBranches, mergeBranches, Assoc.get?_put, if_neg (by simpa using h.1),
      Assoc.put_comm hne _ value hthere]
    apply ih h.2
    rw [Assoc.mem_keys_put fun _ _ hk => eq_of_beq hk]
    exact Or.inr hthere

/-- The union with a tree in which one name stands for something else.  `change` is what becomes of
the tree below that name; it may be made after the union as well. -/
theorem mergeBranches_put {change : NameTree → NameTree} (hdistinct : (theirs.map (·.1)).Nodup)
    (hchange : ∀ t : NameTree, t.merge (change ((Assoc.get? name theirs).getD empty))
      = change (t.merge ((Assoc.get? name theirs).getD empty)))
    (mine : List (String × NameTree)) :
    mergeBranches mine (Assoc.put name (change ((Assoc.get? name theirs).getD empty)) theirs)
      = Assoc.put name (change ((Assoc.get? name (mergeBranches mine theirs)).getD empty))
          (mergeBranches mine theirs) := by
  induction theirs generalizing mine with
  | nil =>
    -- the name is new to the second tree
    have hnew := hchange ((Assoc.get? name mine).getD empty)
    simp only [Assoc.get?, Option.getD_none, merge_empty] at hnew
    simp only [Assoc.get?, Assoc.put, mergeBranches, Option.getD_none, hnew]
  | cons e rest ih =>
    obtain ⟨k, t⟩ := e
    rw [List.map_cons, List.nodup_cons] at hdistinct
    by_cases hk : k = name
    · -- the name comes here, and not again in the rest
      subst hk
      simp only [Assoc.get?, BEq.rfl, if_true, Option.getD_some] at hchange ⊢
      have hthere : k ∈ (Assoc.put k (merge ((Assoc.get? k mine).getD empty) t) mine).map (·.1) := by
        rw [Assoc.mem_keys_put fun _ _ hk => eq_of_beq hk]
        exact Or.inl rfl
      rw [Assoc.put, if_pos BEq.rfl, mergeBranches, mergeBranches, hchange,
        get?_mergeBranches_of_absent hdistinct.1, Assoc.get?_put, if_pos BEq.rfl, Option.getD_some,
        ← mergeBranches_put_of_absent hdistinct.1 _ hthere, Assoc.put_put]
    · have hget : Assoc.get? name ((k, t) :: rest) = Assoc.get? name rest := by
        rw [Assoc.get?, if_neg (by simpa using hk)]
      rw [hget] at hchange ⊢
      rw [Assoc.put, if_neg (by simpa using hk), mergeBranches, mergeBranches]
      exact ih hdistinct.2 hchange _

end Branches

/-- **The union and one more path.**  A path is put into the union by being put into the second
tree. -/
theorem merge_add (t : NameTree) {u : NameTree} (hu : u.Distinct) (p : Path) :
    t.merge (add p u) = add p (t.merge u) := by
  induction p generalizing t u with
  | nil =>
    rw [merge_eq, merge_eq]
    show (⟨t.shown || true, mergeBranches t.branches u.branches⟩ : NameTree) = ⟨true, _⟩
    rw [Bool.or_true]
  | cons name rest ih =>
    rw [merge_eq, merge_eq]
    show (⟨t.shown || u.shown, mergeBranches t.branches
        (Assoc.put name (add rest ((Assoc.get? name u.branches).getD empty)) u.branches)⟩ : NameTree)
      = ⟨t.shown || u.shown, Assoc.put name (add rest
          ((Assoc.get? name (mergeBranches t.branches u.branches)).getD empty))
          (mergeBranches t.branches u.branches)⟩
    rw [mergeBranches_put hu.here fun other => ih other (hu.below name)]

/-- The union and any number of paths. -/
theorem merge_extend (t : NameTree) {u : NameTree} (hu : u.Distinct) (paths : List (Option Path)) :
    t.merge (u.extend paths) = (t.merge u).extend paths := by
  unfold extend
  induction paths generalizing u with
  | nil => rfl
  | cons p? rest ih =>
    rw [List.foldl_cons, List.foldl_cons]
    cases p? with
    | none => exact ih hu
    | some p =>
      have hadd := ih (hu.add p)
      rw [merge_add t hu p] at hadd
      exact hadd

/-- **Trees of paths are sets of paths.**  A path leads to a node of the tree of some paths if one of
them begins with it, and is in the set if it is one of them; and the union of two such trees is the
tree of the paths of the first followed by those of the second. -/
theorem ofPaths_faithful (ps qs : List (Option Path)) :
    (∀ q, ((ofPaths ps).find? q).isSome = true ↔ q = [] ∨ ∃ p, some p ∈ ps ∧ q <+: p)
    ∧ (∀ q, (ofPaths ps).contains q = true ↔ some q ∈ ps)
    ∧ (ofPaths ps).merge (ofPaths qs) = ofPaths (ps ++ qs) := by
  refine ⟨find?_ofPaths ps, contains_ofPaths ps, ?_⟩
  calc (ofPaths ps).merge (ofPaths qs)
      = ((ofPaths ps).merge empty).extend qs := merge_extend _ distinct_empty qs
    _ = (empty.extend ps).extend qs := by rw [merge_empty, ofPaths]
    _ = ofPaths (ps ++ qs) := (List.foldl_append ..).symm

/-- The second tree brings a name of its own below a shared one, and shows a node that only led on in
the first. -/
example : (ofPaths [some ["a", "x"], some ["b"]]).merge (ofPaths [some ["c"], none, some ["a", "y"],
      some ["a"]])
    = ⟨false, [("a", ⟨true, [("x", ⟨true, []⟩), ("y", ⟨true, []⟩)]⟩), ("b", ⟨true, []⟩),
        ("c", ⟨true, []⟩)]⟩ := by
  rfl

end NameTree

end CodeAtlas
