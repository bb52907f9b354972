import CodeAtlas.Block.NameTree
import CodeAtlas.Proofs.Graphs

/-!
# The nodes of a name tree

A path that is put into a name tree makes the nodes along it, and changes no others.  So a path leads
to a node of the tree of some paths if and only if one of them begins with it.

Main results:
  * `NameTree.find?_append`: paths lead on from where other paths have led;
  * `NameTree.find?_add`: the nodes that one more path makes;
  * `NameTree.find?_ofPaths`: the nodes of the tree of some paths.
-/

namespace CodeAtlas.NameTree

theorem find?_append (p q : Path) (t : NameTree) : t.find? (p ++ q) = (t.find? p).bind (find? q) := by
  induction p generalizing t with
  | nil => rfl
  | cons name rest ih =>
    show (t.child? name).bind (find? (rest ++ q)) = ((t.child? name).bind (find? rest)).bind (find? q)
    cases t.child? name with
    | none => rfl
    | some below => exact ih below

/-- One more name is one node further down. -/
theorem find?_concat {p : Path} {t below : NameTree} (h : t.find? p = some below) (name : String) :
    t.find? (p ++ [name]) = below.child? name := by
  rw [find?_append, h]
  show (below.child? name).bind (find? []) = below.child? name
  cases below.child? name <;> rfl

theorem child?_add (name : String) (rest : Path) (t : NameTree) (other : String) :
    (add (name :: rest) t).child? other
      = if name == other then some (add rest ((t.child? name).getD empty)) else t.child? other :=
  Assoc.get?_put name _ t.branches other

/-- The empty tree has no node but its root. -/
theorem find?_empty (q : Path) : (empty.find? q).isSome = true ↔ q = [] := by
  cases q with
  | nil => exact iff_of_true rfl rfl
  | cons name rest => exact iff_of_false (fun h => by cases h) (fun h => by cases h)

/-- **One more path.**  It makes the nodes along it, and changes no others. -/
theorem find?_add (p : Path) (t : NameTree) (q : Path) :
    ((add p t).find? q).isSome = true ↔ (t.find? q).isSome = true ∨ q <+: p := by
  induction p generalizing t q with
  | nil =>
    cases q with
    | nil => exact iff_of_true rfl (Or.inl rfl)
    | cons name rest =>
      show (t.find? (name :: rest)).isSome = true ↔ _
      simp
  | cons name rest ih =>
    cases q with
    | nil => exact iff_of_true rfl (Or.inl rfl)
    | cons other others =>
      show (((add (name :: rest) t).child? other).bind (find? others)).isSome = true ↔
        ((t.child? other).bind (find? others)).isSome = true ∨ _
      rw [child?_add, List.cons_prefix_cons]
      by_cases hsame : name = other
      · subst hsame
        rw [if_pos (beq_self_eq_true name), Option.bind_some, ih]
        cases t.child? name with
        | none =>
          -- the node is new, with nothing below it but the rest of the path
          rw [Option.getD_none, find?_empty]
          simp only [Option.bind_none, Option.isSome_none, Bool.false_eq_true, false_or, true_and]
          refine or_iff_right_of_imp ?_
          rintro rfl
          exact List.nil_prefix
        | some below => simp
      · rw [if_neg (by simpa using hsame)]
        simp [Ne.symm hsame]

theorem find?_extend (paths : List (Option Path)) (t : NameTree) (q : Path) :
    ((t.extend paths).find? q).isSome = true ↔
      (t.find? q).isSome = true ∨ ∃ p, some p ∈ paths ∧ q <+: p := by
  unfold extend
  induction paths generalizing t with
  | nil => simp
  | cons p? rest ih =>
    rw [List.foldl_cons, ih]
    cases p? with
    | none => simp
    | some p =>
      rw [find?_add, or_assoc]
      simp [or_and_right, exists_or]

/-- **The nodes of a tree of paths.** -/
theorem find?_ofPaths (paths : List (Option Path)) (q : Path) :
    ((ofPaths paths).find? q).isSome = true ↔ q = [] ∨ ∃ p, some p ∈ paths ∧ q <+: p := by
  rw [ofPaths, find?_extend, find?_empty]

end CodeAtlas.NameTree
