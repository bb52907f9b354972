import CodeAtlas.Proofs.Syntax.Nesting

/-!
# Syntax trees in preorder

A row of nodes with the numbers of their parents is a tree in preorder if each node hangs below the
node before it or below one around that.  Then the nodes below a node are numbered in one stretch
right behind it, and whatever comes next after a node, on the way out of it, lies behind all of them.

Main results:
  * `Preordered.below_of_between`: the nodes below a node form one stretch;
  * `Preordered.lt_of_sibling`: a right neighbour comes behind all that is below its left one;
  * `Parse.following_preordered`: reading goes on behind everything that was passed.
-/

namespace CodeAtlas.SyntaxTree

variable {t : SyntaxTree} {i j p top origin v : Nat}

/-! ## §1. Trees in preorder. -/

/-- The nodes of a tree are listed in preorder. -/
structure Preordered (t : SyntaxTree) : Prop where
  /-- The first node is the root, -/
  root : t.parent? 0 = none
  /-- and each further node hangs below the node before it, or below a node around that one. -/
  hangs : ∀ i, i + 1 < t.nodes.size → ∃ p, t.parent? (i + 1) = some p ∧ (p = i ∨ t.Below p i)

/-- Is a tree in preorder?  Looks at the nodes one by one. -/
def isPreordered (t : SyntaxTree) : Bool :=
  (t.parent? 0).isNone && (List.range t.nodes.size).all fun i =>
    decide (t.nodes.size ≤ i + 1) || (t.parent? (i + 1)).any fun p => t.isWithin p i

theorem preordered_of_isPreordered (h : t.isPreordered = true) : t.Preordered := by
  unfold isPreordered at h
  simp only [Bool.and_eq_true, Option.isNone_iff_eq_none, List.all_eq_true, List.mem_range,
    Bool.or_eq_true, decide_eq_true_eq, Option.any_eq_true] at h
  refine ⟨h.1, ?_⟩
  intro i hi
  have hsome := (h.2 i (by omega)).resolve_left (by omega)
  obtain ⟨p, hp, hwithin⟩ := hsome
  refine ⟨p, hp, ?_⟩
  by_cases heq : i = p
  · exact .inl heq.symm
  · exact .inr (below_of_isWithin hwithin heq)

/-- Where parents come first up to a node, so does everything around that node. -/
theorem Below.lt_of_parents (hparents : ∀ k ≤ i, ∀ q, t.parent? k = some q → q < k)
    (h : t.Below top i) : top < i := by
  induction h with
  | @child k hp => exact hparents k (Nat.le_refl k) top hp
  | @deeper k q hp _ ih =>
    have hlt : q < k := hparents k (Nat.le_refl k) q hp
    have hle : top < q := ih fun k' hk' => hparents k' (by omega)
    omega

namespace Preordered

/-- A parent comes before its children. -/
theorem parent_lt (ht : t.Preordered) (hp : t.parent? i = some p) : p < i := by
  induction i using Nat.strongRecOn generalizing p with
  | ind i ih =>
    cases i with
    | zero =>
      rw [ht.root] at hp
      exact absurd hp (by simp)
    | succ i =>
      obtain ⟨q, hq, hplace⟩ := ht.hangs i (lt_size_of_parent? hp)
      rw [hp] at hq
      obtain rfl : p = q := Option.some.inj hq
      rcases hplace with rfl | hbelow
      · omega
      · have hlt := hbelow.lt_of_parents fun k hk r hr => ih k (by omega) hr
        omega

theorem lt_of_below (ht : t.Preordered) (h : t.Below top i) : top < i :=
  h.lt_of_parents fun _ _ _ hq => ht.parent_lt hq

theorem lt_size_of_below (h : t.Below top i) : i < t.nodes.size := by
  cases h with
  | child hp => exact lt_size_of_parent? hp
  | deeper hp _ => exact lt_size_of_parent? hp

/-! ## §2. The nodes below a node. -/

/-- In front of a node below `top` stands `top` or another node below it. -/
theorem below_pred (ht : t.Preordered) (h : t.Below top (v + 1)) : v = top ∨ t.Below top v := by
  obtain ⟨p, hp, hplace⟩ := ht.hangs v (lt_size_of_below h)
  rcases hplace with rfl | hbelow
  · exact h.parent hp
  · rcases h.parent hp with rfl | habove
    · exact .inr hbelow
    · exact .inr (habove.trans hbelow)

/-- **The nodes below a node form one stretch** right behind it. -/
theorem below_of_between (ht : t.Preordered) (h : t.Below top v) (hlow : top < i) (hhigh : i ≤ v) :
    t.Below top i := by
  induction v with
  | zero => omega
  | succ v ih =>
    rcases Nat.lt_or_eq_of_le hhigh with hlt | rfl
    · rcases ht.below_pred h with rfl | hbelow
      · omega
      · exact ih hbelow (by omega)
    · exact h

/-- A right neighbour comes behind all that is below its left one. -/
theorem lt_of_sibling (ht : t.Preordered) (hi : t.parent? i = some p) (hj : t.parent? j = some p)
    (hlt : i < j) (h : t.Below i v) : v < j := by
  by_contra hge
  -- otherwise the neighbour lies below the node itself, and their parent comes behind the node
  have hbelow : t.Below i j := ht.below_of_between h hlt (by omega)
  have hparent := ht.parent_lt hi
  rcases hbelow.parent hj with rfl | hp
  · omega
  · have := ht.lt_of_below hp
    omega

end Preordered

/-! ## §3. Going on. -/

/-- Node `v` is passed when reading leaves node `i`: it is no later, or lies below. -/
def Passed (t : SyntaxTree) (i v : Nat) : Prop :=
  v ≤ i ∨ t.Below i v

/-- What is passed at a node is passed at its parent. -/
theorem Preordered.passed_parent (ht : t.Preordered) (hp : t.parent? i = some p)
    (h : t.Passed i v) : t.Passed p v := by
  rcases h with hle | hbelow
  · by_cases hv : v ≤ p
    · exact .inl hv
    · exact .inr (ht.below_of_between (.child hp) (by omega) hle)
  · exact .inr (Below.trans (.child hp) hbelow)

/-- Climbing to the next node within the origin never fails, and what it finds lies within the
origin and behind all that was passed. -/
theorem Preordered.nextWithin_spec (ht : t.Preordered) (h : i = origin ∨ t.Below origin i) :
    t.nextWithin origin i = .ok none
    ∨ ∃ j, t.nextWithin origin i = .ok (some j) ∧ t.Below origin j ∧ ∀ v, t.Passed i v → v < j := by
  induction i using Nat.strongRecOn with
  | ind i ih =>
    rw [nextWithin]
    by_cases heq : i = origin
    · exact .inl (if_pos heq)
    · have hbelow : t.Below origin i := h.resolve_left heq
      rw [if_neg heq]
      obtain ⟨p, hp⟩ : ∃ p, t.parent? i = some p := by
        cases hbelow with
        | child hp => exact ⟨origin, hp⟩
        | deeper hp _ => exact ⟨_, hp⟩
      cases hr : t.nextSibling? i with
      | some r =>
        obtain ⟨q, hq, hrq, hlt⟩ := nextSibling?_some hr
        refine .inr ⟨r, rfl, .of_parent hrq (hbelow.parent hq), ?_⟩
        intro v hv
        rcases hv with hle | hv
        · omega
        · exact ht.lt_of_sibling hq hrq hlt hv
      | none =>
        have hlt := ht.parent_lt hp
        rw [hp]
        dsimp only
        rw [dif_pos hlt]
        rcases ih p hlt (hbelow.parent hp) with hnone | ⟨j, hj, hjb, hpassed⟩
        · exact .inl hnone
        · exact .inr ⟨j, hj, hjb, fun v hv => hpassed v (ht.passed_parent hp hv)⟩

end CodeAtlas.SyntaxTree

namespace CodeAtlas.Parse

open SyntaxTree

variable {t : SyntaxTree} {i origin : Nat}

/-- **Reading goes on behind everything that was passed**, within the origin, or ends there. -/
theorem following_preordered (ht : t.Preordered) (h : t.Below origin i) :
    following t origin i = .ok none
    ∨ ∃ j, following t origin i = .ok (some j) ∧ t.Below origin j ∧ ∀ v, t.Passed i v → v < j := by
  have hne : i ≠ origin := Nat.ne_of_gt (ht.lt_of_below h)
  have hsame : following t origin i = t.nextWithin origin i := by
    unfold following
    cases hr : t.nextSibling? i with
    | some right =>
      rw [nextWithin, if_neg hne, hr]
    | none => rfl
  rw [hsame]
  exact ht.nextWithin_spec (.inr h)

/-- Entering a block of statements leads to the node itself or to its first child. -/
theorem enterBody_preordered (ht : t.Preordered) (h : t.Below origin i) :
    t.Below origin (enterBody t i) ∧ i ≤ enterBody t i := by
  unfold enterBody
  by_cases hkind : t.kind i = "block"
  · rw [if_pos hkind]
    cases hcs : t.children i with
    | nil => exact ⟨h, Nat.le_refl i⟩
    | cons c cs =>
      have hc : t.parent? c = some i := by
        apply mem_children.mp
        rw [hcs]
        exact List.mem_cons_self
      exact ⟨.deeper hc h, Nat.le_of_lt (ht.parent_lt hc)⟩
  · rw [if_neg hkind]
    exact ⟨h, Nat.le_refl i⟩

end CodeAtlas.Parse
