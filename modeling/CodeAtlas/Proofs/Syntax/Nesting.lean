import CodeAtlas.Parse.Module
import Mathlib.Data.List.Sort

/-!
# How the nodes of a syntax tree lie in its source

`SyntaxTree.Below` is the relation "lies below", and `SyntaxTree.Tiled` says how the byte ranges of
nodes lie to each other: siblings follow each other, the root holds its children, and any other
node reaches exactly from its first to its last child.

Reading a module climbs along such a tree.  Where the climbing functions lead is said here once:

* `Tiled.endBefore_bounds`: what lies before a node ends between the start of the origin and the
  start of the node.
* `Parse.following_some` / `_none`: the next node begins behind the end of the present one, and
  where there is no next node the origin ends with the present one.
-/

namespace CodeAtlas.SyntaxTree

variable {t : SyntaxTree} {i j p top origin : Nat}

/-! ## §1. Children and siblings. -/

theorem lt_size_of_parent? (h : t.parent? i = some p) : i < t.nodes.size := by
  by_contra hge
  have hnone : t.nodes[i]? = none := Array.getElem?_eq_none (by omega)
  unfold parent? at h
  rw [hnone] at h
  exact absurd h (by simp)

theorem mem_children : j ∈ t.children i ↔ t.parent? j = some i := by
  unfold children
  rw [List.mem_filter, List.mem_range, decide_eq_true_eq]
  constructor
  · intro h
    exact h.2
  · intro h
    exact ⟨lt_size_of_parent? h, h⟩

/-- Children are listed by their numbers. -/
theorem children_sorted (t : SyntaxTree) (i : Nat) : (t.children i).Pairwise (· < ·) :=
  List.Pairwise.filter _ List.pairwise_lt_range

/-- The first child has the least number, -/
theorem head?_le {c : Nat} (hc : (t.children p).head? = some c) (hi : t.parent? i = some p) :
    c ≤ i := by
  obtain ⟨cs, hcs⟩ := List.head?_eq_some_iff.mp hc
  have hmem := mem_children.mpr hi
  have hsorted := children_sorted t p
  rw [hcs] at hmem hsorted
  rcases List.mem_cons.mp hmem with heq | hmem
  · exact Nat.le_of_eq heq.symm
  · exact Nat.le_of_lt ((List.pairwise_cons.mp hsorted).1 i hmem)

/-- and the last child the greatest. -/
theorem le_getLast? {c : Nat} (hc : (t.children p).getLast? = some c)
    (hi : t.parent? i = some p) : i ≤ c := by
  obtain ⟨cs, hcs⟩ := List.getLast?_eq_some_iff.mp hc
  have hmem := mem_children.mpr hi
  have hsorted := children_sorted t p
  rw [hcs] at hmem hsorted
  rcases List.mem_append.mp hmem with hmem | hmem
  · exact Nat.le_of_lt ((List.pairwise_append.mp hsorted).2.2 i hmem c (by simp))
  · exact Nat.le_of_eq (List.mem_singleton.mp hmem)

theorem exists_head? (hi : t.parent? i = some p) :
    ∃ c, (t.children p).head? = some c ∧ t.parent? c = some p := by
  have hne : (t.children p).head?.isSome := by
    simpa using List.ne_nil_of_mem (mem_children.mpr hi)
  obtain ⟨c, hc⟩ := Option.isSome_iff_exists.mp hne
  exact ⟨c, hc, mem_children.mp (List.mem_of_head? hc)⟩

theorem exists_getLast? (hi : t.parent? i = some p) :
    ∃ c, (t.children p).getLast? = some c ∧ t.parent? c = some p := by
  have hne : (t.children p).getLast?.isSome := by
    simpa using List.ne_nil_of_mem (mem_children.mpr hi)
  obtain ⟨c, hc⟩ := Option.isSome_iff_exists.mp hne
  exact ⟨c, hc, mem_children.mp (List.mem_of_getLast? hc)⟩

theorem nextSibling?_some (h : t.nextSibling? i = some j) :
    ∃ p, t.parent? i = some p ∧ t.parent? j = some p ∧ i < j := by
  unfold nextSibling? at h
  cases hp : t.parent? i with
  | none =>
    rw [hp] at h
    exact absurd h (by simp)
  | some p =>
    rw [hp] at h
    have hlt := List.find?_some h
    have hmem := List.mem_of_find?_eq_some h
    exact ⟨p, rfl, mem_children.mp hmem, by simpa using hlt⟩

/-- A node without a right neighbour is the last child of its parent. -/
theorem nextSibling?_none (hp : t.parent? i = some p) (h : t.nextSibling? i = none) :
    (t.children p).getLast? = some i := by
  unfold nextSibling? at h
  rw [hp] at h
  obtain ⟨c, hc, hcp⟩ := exists_getLast? hp
  have hle : c ≤ i := by
    have hnot := List.find?_eq_none.mp h c (mem_children.mpr hcp)
    simpa using hnot
  rw [hc, Nat.le_antisymm hle (le_getLast? hc hp)]

theorem previousSibling?_some (h : t.previousSibling? i = some j) :
    ∃ p, t.parent? i = some p ∧ t.parent? j = some p ∧ j < i := by
  unfold previousSibling? at h
  cases hp : t.parent? i with
  | none =>
    rw [hp] at h
    exact absurd h (by simp)
  | some p =>
    rw [hp] at h
    have hmem := List.mem_filter.mp (List.mem_of_getLast? h)
    exact ⟨p, rfl, mem_children.mp hmem.1, by simpa using hmem.2⟩

/-! ## §2. Lying below. -/

/-- Node `i` lies somewhere below node `top`. -/
inductive Below (t : SyntaxTree) (top : Nat) : Nat → Prop where
  | child {i : Nat} : t.parent? i = some top → Below t top i
  | deeper {i p : Nat} : t.parent? i = some p → Below t top p → Below t top i

theorem Below.trans (hi : t.Below top p) (hj : t.Below p i) : t.Below top i := by
  induction hj with
  | child hp => exact .deeper hp hi
  | deeper hp _ ih => exact .deeper hp ih

/-- The parent of a node below `top` is `top` or lies below it. -/
theorem Below.parent (h : t.Below top i) (hp : t.parent? i = some p) : p = top ∨ t.Below top p := by
  cases h with
  | child hq =>
    rw [hp] at hq
    exact .inl (Option.some.inj hq)
  | deeper hq hbelow =>
    rw [hp] at hq
    exact .inr (Option.some.inj hq ▸ hbelow)

/-- A child of `top`, or of a node below `top`, lies below `top`. -/
theorem Below.of_parent (hp : t.parent? i = some p) (h : p = top ∨ t.Below top p) :
    t.Below top i := by
  rcases h with rfl | h
  · exact .child hp
  · exact .deeper hp h

/-- Climbing from a node to `top` shows that it lies below. -/
theorem below_of_isWithin (h : t.isWithin top i = true) (hne : i ≠ top) : t.Below top i := by
  induction i using Nat.strongRecOn with
  | ind i ih =>
    rw [isWithin, if_neg hne] at h
    cases hp : t.parent? i with
    | none =>
      rw [hp] at h
      exact absurd h (by simp)
    | some p =>
      rw [hp] at h
      dsimp only at h
      by_cases hlt : p < i
      · rw [dif_pos hlt] at h
        by_cases hpt : p = top
        · rw [hpt] at hp
          exact .child hp
        · exact .deeper hp (ih p hlt h hpt)
      · rw [dif_neg hlt] at h
        exact absurd h (by simp)

/-! ## §3. Byte ranges. -/

/-- The byte ranges of the nodes lie to each other as in the tree of a source. -/
structure Tiled (t : SyntaxTree) : Prop where
  /-- A parent comes before its children, -/
  parent_lt : ∀ {i p}, t.parent? i = some p → p < i
  /-- and the first node has none. -/
  root : t.parent? 0 = none
  start_nonneg : 0 ≤ t.start 0
  forward : ∀ i, t.start i ≤ t.stop i
  /-- Siblings are in order and do not overlap. -/
  ordered : ∀ {i j p}, t.parent? i = some p → t.parent? j = some p → i < j → t.stop i ≤ t.start j
  /-- The root holds its children. -/
  rootHolds : ∀ {i}, t.parent? i = some 0 → t.start 0 ≤ t.start i ∧ t.stop i ≤ t.stop 0
  /-- Any other node starts where its first child starts, -/
  start_eq : ∀ {i c}, i ≠ 0 → (t.children i).head? = some c → t.start i = t.start c
  /-- and stops where its last child stops. -/
  stop_eq : ∀ {i c}, i ≠ 0 → (t.children i).getLast? = some c → t.stop i = t.stop c

/-- Is a tree tiled?  Looks at the nodes one by one. -/
def isTiled (t : SyntaxTree) : Bool :=
  (t.parent? 0).isNone && decide (0 ≤ t.start 0) && (List.range t.nodes.size).all fun i =>
    decide (t.start i ≤ t.stop i)
    && (t.parent? i).all (fun p => decide (p < i)
      && (t.children p).all (fun j => decide (i < j → t.stop i ≤ t.start j))
      && decide (p = 0 → t.start 0 ≤ t.start i ∧ t.stop i ≤ t.stop 0))
    && (decide (i = 0) || (t.children i).head?.all (fun c => decide (t.start i = t.start c))
      && (t.children i).getLast?.all (fun c => decide (t.stop i = t.stop c)))

theorem tiled_of_isTiled (h : t.isTiled = true) : t.Tiled := by
  unfold isTiled at h
  simp only [Bool.and_eq_true, Option.isNone_iff_eq_none, decide_eq_true_eq, List.all_eq_true,
    List.mem_range, Bool.or_eq_true] at h
  obtain ⟨⟨hroot, hnonneg⟩, hnodes⟩ := h
  have hparent : ∀ {i p}, t.parent? i = some p → p < i
      ∧ (∀ j ∈ t.children p, i < j → t.stop i ≤ t.start j)
      ∧ (p = 0 → t.start 0 ≤ t.start i ∧ t.stop i ≤ t.stop 0) := by
    intro i p hp
    have hi := (hnodes i (lt_size_of_parent? hp)).1.2
    rw [hp] at hi
    simp only [Option.all_some, Bool.and_eq_true, decide_eq_true_eq, List.all_eq_true] at hi
    exact ⟨hi.1.1, hi.1.2, hi.2⟩
  have hinner : ∀ {i c}, c ∈ t.children i → i < t.nodes.size := by
    intro i c hc
    have hlt := (hparent (mem_children.mp hc)).1
    have hsize := lt_size_of_parent? (mem_children.mp hc)
    omega
  refine ⟨fun hp => (hparent hp).1, hroot, hnonneg, ?_, ?_, ?_, ?_, ?_⟩
  · intro i
    by_cases hi : i < t.nodes.size
    · exact (hnodes i hi).1.1
    · unfold start stop
      rw [Array.getElem?_eq_none (by omega)]
      exact Int.le_refl _
  · intro i j p hi hj hlt
    exact (hparent hi).2.1 j (mem_children.mpr hj) hlt
  · intro i hi
    exact (hparent hi).2.2 rfl
  · intro i c hzero hc
    have hi := (hnodes i (hinner (List.mem_of_head? hc))).2.resolve_left hzero
    rw [hc] at hi
    simpa using hi.1
  · intro i c hzero hc
    have hi := (hnodes i (hinner (List.mem_of_getLast? hc))).2.resolve_left hzero
    rw [hc] at hi
    simpa using hi.2

namespace Tiled

theorem ne_zero_of_parent? (ht : t.Tiled) (hp : t.parent? i = some p) : i ≠ 0 := by
  intro hzero
  rw [hzero, ht.root] at hp
  exact absurd hp (by simp)

theorem ne_zero_of_below (ht : t.Tiled) (h : t.Below top i) : i ≠ 0 := by
  cases h with
  | child hp => exact ht.ne_zero_of_parent? hp
  | deeper hp _ => exact ht.ne_zero_of_parent? hp

/-- A node holds its children. -/
theorem child_bounds (ht : t.Tiled) (hp : t.parent? i = some p) :
    t.start p ≤ t.start i ∧ t.stop i ≤ t.stop p := by
  by_cases hzero : p = 0
  · subst hzero
    exact ht.rootHolds hp
  · obtain ⟨first, hfirst, hfp⟩ := exists_head? hp
    obtain ⟨last, hlast, hlp⟩ := exists_getLast? hp
    rw [ht.start_eq hzero hfirst, ht.stop_eq hzero hlast]
    constructor
    · rcases Nat.lt_or_eq_of_le (head?_le hfirst hp) with hlt | heq
      · exact Int.le_trans (ht.forward first) (ht.ordered hfp hp hlt)
      · rw [heq]
    · rcases Nat.lt_or_eq_of_le (le_getLast? hlast hp) with hlt | heq
      · exact Int.le_trans (ht.ordered hp hlp hlt) (ht.forward last)
      · rw [heq]

/-- A node holds everything below it. -/
theorem below_bounds (ht : t.Tiled) (h : t.Below top i) :
    t.start top ≤ t.start i ∧ t.stop i ≤ t.stop top := by
  induction h with
  | child hp => exact ht.child_bounds hp
  | deeper hp _ ih =>
    have hbounds := ht.child_bounds hp
    omega

/-! ## §4. Climbing. -/

/-- What lies before a node ends between the start of the origin and the start of the node. -/
theorem endBefore_bounds (ht : t.Tiled) (h : i = origin ∨ t.Below origin i) :
    t.start origin ≤ t.endBefore origin i ∧ t.endBefore origin i ≤ t.start i := by
  induction i using Nat.strongRecOn with
  | ind i ih =>
    rw [endBefore]
    by_cases heq : i = origin
    · rw [if_pos heq, heq]
      exact ⟨Int.le_refl _, Int.le_refl _⟩
    · have hbelow : t.Below origin i := h.resolve_left heq
      rw [if_neg heq]
      cases hl : t.previousSibling? i with
      | some l =>
        obtain ⟨p, hp, hlp, hlt⟩ := previousSibling?_some hl
        have hlbelow : t.Below origin l := .of_parent hlp (hbelow.parent hp)
        have hbounds := ht.below_bounds hlbelow
        have hforward := ht.forward l
        have hordered := ht.ordered hlp hp hlt
        dsimp only
        omega
      | none =>
        cases hp : t.parent? i with
        | none =>
          dsimp only
          exact ⟨(ht.below_bounds hbelow).1, Int.le_refl _⟩
        | some p =>
          have hlt := ht.parent_lt hp
          have hrec := ih p hlt (hbelow.parent hp)
          have hbounds := ht.child_bounds hp
          dsimp only
          rw [dif_pos hlt]
          omega

/-- Nothing lies before the first child of the origin. -/
theorem endBefore_head? (ht : t.Tiled) (h : (t.children origin).head? = some i) :
    t.endBefore origin i = t.start origin := by
  have hp : t.parent? i = some origin := mem_children.mp (List.mem_of_head? h)
  have hlt := ht.parent_lt hp
  have hnone : t.previousSibling? i = none := by
    cases hl : t.previousSibling? i with
    | none => rfl
    | some l =>
      obtain ⟨p, hip, hlp, hlt⟩ := previousSibling?_some hl
      have hpo : p = origin := Option.some.inj (hip.symm.trans hp)
      rw [hpo] at hlp
      have hle := head?_le h hlp
      omega
  rw [endBefore, if_neg (by omega), hnone, hp]
  dsimp only
  rw [dif_pos hlt, endBefore, if_pos rfl]

/-- The next node within the origin begins behind the end of the present one. -/
theorem nextWithin_some (ht : t.Tiled) (h : i = origin ∨ t.Below origin i)
    (hnext : t.nextWithin origin i = .ok (some j)) : t.Below origin j ∧ t.stop i ≤ t.start j := by
  induction i using Nat.strongRecOn with
  | ind i ih =>
    rw [nextWithin] at hnext
    by_cases heq : i = origin
    · rw [if_pos heq] at hnext
      exact absurd hnext (by simp)
    · have hbelow : t.Below origin i := h.resolve_left heq
      rw [if_neg heq] at hnext
      cases hr : t.nextSibling? i with
      | some r =>
        rw [hr] at hnext
        have hrj : r = j := by simpa using hnext
        subst hrj
        obtain ⟨p, hp, hrp, hlt⟩ := nextSibling?_some hr
        exact ⟨.of_parent hrp (hbelow.parent hp), ht.ordered hp hrp hlt⟩
      | none =>
        rw [hr] at hnext
        cases hp : t.parent? i with
        | none =>
          rw [hp] at hnext
          exact absurd hnext (by simp)
        | some p =>
          have hlt := ht.parent_lt hp
          rw [hp] at hnext
          dsimp only at hnext
          rw [dif_pos hlt] at hnext
          obtain ⟨hj, hle⟩ := ih p hlt (hbelow.parent hp) hnext
          have hbounds := ht.child_bounds hp
          exact ⟨hj, by omega⟩

/-- Where there is no next node within the origin, nothing of the origin is left: only the root
may go on behind its last child. -/
theorem nextWithin_none (ht : t.Tiled) (h : i = origin ∨ t.Below origin i)
    (hnext : t.nextWithin origin i = .ok none) :
    t.stop i ≤ t.stop origin ∧ (origin ≠ 0 → t.stop i = t.stop origin) := by
  induction i using Nat.strongRecOn with
  | ind i ih =>
    rw [nextWithin] at hnext
    by_cases heq : i = origin
    · rw [heq]
      exact ⟨Int.le_refl _, fun _ => rfl⟩
    · have hbelow : t.Below origin i := h.resolve_left heq
      refine ⟨(ht.below_bounds hbelow).2, ?_⟩
      intro hzero
      rw [if_neg heq] at hnext
      cases hr : t.nextSibling? i with
      | some r =>
        rw [hr] at hnext
        exact absurd hnext (by simp)
      | none =>
        rw [hr] at hnext
        cases hp : t.parent? i with
        | none =>
          rw [hp] at hnext
          exact absurd hnext (by simp)
        | some p =>
          have hlt := ht.parent_lt hp
          rw [hp] at hnext
          dsimp only at hnext
          rw [dif_pos hlt] at hnext
          have hrec := (ih p hlt (hbelow.parent hp) hnext).2 hzero
          -- the parent is not the root: it is the origin or lies below it
          have hpzero : p ≠ 0 := by
            rcases hbelow.parent hp with rfl | hpb
            · exact hzero
            · exact ht.ne_zero_of_below hpb
          rw [← hrec, ht.stop_eq hpzero (nextSibling?_none hp hr)]

end Tiled

end CodeAtlas.SyntaxTree

namespace CodeAtlas.Parse

open SyntaxTree

variable {t : SyntaxTree} {i j origin : Nat}

/-- Reading goes on at a node within the origin that begins behind the present one. -/
theorem following_some (ht : t.Tiled) (h : t.Below origin i)
    (hnext : following t origin i = .ok (some j)) : t.Below origin j ∧ t.stop i ≤ t.start j := by
  unfold following at hnext
  cases hr : t.nextSibling? i with
  | some r =>
    rw [hr] at hnext
    have hrj : r = j := by simpa using hnext
    subst hrj
    obtain ⟨p, hp, hrp, hlt⟩ := nextSibling?_some hr
    exact ⟨.of_parent hrp (h.parent hp), ht.ordered hp hrp hlt⟩
  | none =>
    rw [hr] at hnext
    exact ht.nextWithin_some (.inr h) hnext

/-- Reading ends where nothing of the origin is left, but for blanks at the end of the root. -/
theorem following_none (ht : t.Tiled) (h : t.Below origin i)
    (hnext : following t origin i = .ok none) :
    t.stop i ≤ t.stop origin ∧ (origin ≠ 0 → t.stop i = t.stop origin) := by
  unfold following at hnext
  cases hr : t.nextSibling? i with
  | some r =>
    rw [hr] at hnext
    exact absurd hnext (by simp)
  | none =>
    rw [hr] at hnext
    exact ht.nextWithin_none (.inr h) hnext

/-- Entering a block of statements skips no byte. -/
theorem enterBody_spec (ht : t.Tiled) (h : t.Below origin i) :
    t.Below origin (enterBody t i) ∧ t.start (enterBody t i) = t.start i := by
  unfold enterBody
  by_cases hkind : t.kind i = "block"
  · rw [if_pos hkind]
    cases hcs : t.children i with
    | nil => exact ⟨h, rfl⟩
    | cons c cs =>
      have hc : (t.children i).head? = some c := by rw [hcs, List.head?_cons]
      have hci : t.parent? c = some i := mem_children.mp (List.mem_of_head? hc)
      exact ⟨.deeper hci h, (ht.start_eq (ht.ne_zero_of_below h) hc).symm⟩
  · rw [if_neg hkind]
    exact ⟨h, rfl⟩

end CodeAtlas.Parse
