import CodeAtlas.Proofs.Parse.Linking
import Mathlib.Data.List.Chain

/-!
# Walks towards a line

From a block a line is looked for along the links: onwards from a block that ends before the line,
otherwise back.  Each block decides anew, by its own last line, and the budget of tokens need not get
smaller.  That such a walk ends rests on the blocks it lies between: it only leaves a block onwards
that ends before the line, and only goes back over two blocks that do not.  So a block that was left
onwards is not gone back to from its neighbour, and one that was left backwards is not gone on to.

`Goes` is the walk by the links, without a limit to its steps.  The chain that an outline makes of its
row allows as many steps as there are blocks, and that is enough.

Main results:
  * `Outline.inverse_iff_nodup`: links are inverse to each other if no block stands twice in the row;
  * `Outline.Sided.ends`: a walk by the links ends and keeps its direction;
  * `Outline.Goes.walk`: within the steps of the chain it is the walk along the chain;
  * `Outline.walks_never_turn`: both walks towards a line.
-/

namespace CodeAtlas

namespace Chain.Move

variable {α β : Type}

/-- The same move with another result. -/
def map (g : α → β) : Move α → Move β
  | .stop result => .stop (g result)
  | .forward => .forward
  | .back => .back

theorem map_eq_stop {g : α → β} {m : Move α} {result : β} :
    m.map g = .stop result ↔ ∃ r, m = .stop r ∧ g r = result := by
  cases m <;> simp [map]

theorem map_eq_forward {g : α → β} {m : Move α} : m.map g = .forward ↔ m = .forward := by
  cases m <;> simp [map]

theorem map_eq_back {g : α → β} {m : Move α} : m.map g = .back ↔ m = .back := by
  cases m <;> simp [map]

end Chain.Move

namespace Outline

open Chain (Move)

variable {o : Outline} {α β : Type} {line : Int} {move : Nat → Int → Move α}

/-! ## §1. The row of a block. -/

/-- The row that a block is linked into. -/
def row (o : Outline) (i : Nat) : List Nat :=
  if o.links.contains i then o.links else [i]

/-- What a walk looks at in a block. -/
def stopAt (o : Outline) (i : Nat) : Stop :=
  { startLine := (o.data i).startLine, endLine := (o.data i).endLine, tokens := (o.data i).tokens }

theorem chainAt_eq (i : Nat) :
    o.chainAt i = ((o.row i).map o.stopAt, o.row i, (o.row i).idxOf i) := rfl

theorem row_linked {i : Nat} (h : i ∈ o.links) : o.row i = o.links := by
  simp [row, h]

theorem row_unlinked {i : Nat} (h : i ∉ o.links) : o.row i = [i] := by
  simp [row, h]

theorem row_nodup (hnodup : o.links.Nodup) (i : Nat) : (o.row i).Nodup := by
  by_cases hi : i ∈ o.links
  · rwa [row_linked hi]
  · rw [row_unlinked hi]
    exact List.nodup_singleton i

theorem row_at_place (i : Nat) : (o.row i)[(o.row i).idxOf i]? = some i := by
  have hmem : i ∈ o.row i := by
    by_cases hi : i ∈ o.links
    · rwa [row_linked hi]
    · rw [row_unlinked hi]
      exact List.mem_singleton_self i
  exact List.getElem?_idxOf hmem

/-- The link onwards leads to the next place of the row. -/
theorem next?_row (hnodup : o.links.Nodup) {s p i : Nat} (h : (o.row s)[p]? = some i) :
    o.next? i = (o.row s)[p + 1]? := by
  by_cases hs : s ∈ o.links
  · rw [row_linked hs] at h ⊢
    obtain ⟨hp, rfl⟩ := List.getElem?_eq_some_iff.1 h
    exact next?_links hnodup hp
  · rw [row_unlinked hs] at h ⊢
    obtain ⟨rfl, rfl⟩ : p = 0 ∧ s = i := by simpa [List.getElem?_singleton] using h
    exact (unlinked hs).1

/-- The link back leads to the place before. -/
theorem previous?_row (hnodup : o.links.Nodup) {s p i : Nat} (h : (o.row s)[p]? = some i) :
    o.previous? i = if p = 0 then none else (o.row s)[p - 1]? := by
  by_cases hs : s ∈ o.links
  · rw [row_linked hs] at h ⊢
    obtain ⟨hp, rfl⟩ := List.getElem?_eq_some_iff.1 h
    simp [previous?, chainAt, hnodup.idxOf_getElem]
  · rw [row_unlinked hs] at h ⊢
    obtain ⟨rfl, rfl⟩ : p = 0 ∧ s = i := by simpa [List.getElem?_singleton] using h
    exact (unlinked hs).2

/-! ## §2. Inverse links. -/

/-- The links onwards and back are inverse to each other. -/
def Inverse (o : Outline) : Prop :=
  ∀ a b, o.next? a = some b ↔ o.previous? b = some a

theorem idxOf_le_place {links : List Nat} {p i : Nat} (h : links[p]? = some i) :
    links.idxOf i ≤ p := by
  obtain ⟨hp, rfl⟩ := List.getElem?_eq_some_iff.1 h
  refine Nat.not_lt.1 fun hlate => ?_
  have hdiffers := List.not_of_lt_findIdx hlate
  rw [beq_self_eq_true] at hdiffers
  cases hdiffers

/-- With inverse links each place of the row is the first one of its block: the block linked to it
stands right before it, and there for the first time. -/
theorem Inverse.idxOf_links (h : o.Inverse) :
    ∀ {k : Nat} (hk : k < o.links.length), o.links.idxOf o.links[k] = k := by
  intro k
  induction k with
  | zero =>
    intro hk
    exact Nat.le_zero.1 (idxOf_le_place (List.getElem?_eq_getElem hk))
  | succ k ih =>
    intro hk
    have hplace := idxOf_le_place (List.getElem?_eq_getElem hk)
    have hbefore := ih (Nat.lt_of_succ_lt hk)
    have hnext : o.next? o.links[k] = some o.links[k + 1] := by
      simp [next?, chainAt, hbefore]
    -- the link back to this place comes from the first place of the block, so that one is no earlier
    have hback := (h _ _).1 hnext
    simp only [previous?, chainAt, List.contains_iff_mem, List.getElem_mem, if_true] at hback
    split at hback
    · cases hback
    · have hfirst := idxOf_le_place hback
      omega

/-- The links are inverse to each other exactly if no block stands twice in the row. -/
theorem inverse_iff_nodup : o.Inverse ↔ o.links.Nodup := by
  constructor
  · intro h
    rw [List.nodup_iff_injective_getElem]
    intro a b hsame
    have hplaces := h.idxOf_links a.isLt
    simp only at hsame
    rw [hsame, h.idxOf_links b.isLt] at hplaces
    exact Fin.ext hplaces.symm
  · -- both links are steps between places of one row
    intro hnodup a b
    constructor
    · intro hnext
      rw [next?_row hnodup (row_at_place a)] at hnext
      rw [previous?_row hnodup hnext]
      exact row_at_place a
    · intro hback
      rw [previous?_row hnodup (row_at_place b)] at hback
      split at hback
      · cases hback
      · rename_i hfirst
        rw [next?_row hnodup hback, Nat.sub_add_cancel (Nat.pos_of_ne_zero hfirst)]
        exact row_at_place b

/-- Blocks that are linked in document order have inverse links. -/
theorem inverse_linked (o : Outline) : o.linked.Inverse :=
  inverse_iff_nodup.2 List.nodup_range

/-! ## §3. Links that lead to an end. -/

/-- From a block the links lead along the given blocks, to one that is not linked further. -/
inductive Strand (link : Nat → Option Nat) : Nat → List Nat → Prop
  | last {i : Nat} (h : link i = none) : Strand link i []
  | step {i j : Nat} {rest : List Nat} (h : link i = some j) (hrest : Strand link j rest) :
      Strand link i (j :: rest)

theorem Strand.isChain {link : Nat → Option Nat} {i : Nat} {rest : List Nat}
    (h : Strand link i rest) : (i :: rest).IsChain fun a b => link a = some b := by
  induction h with
  | last h => exact List.isChain_singleton _
  | step h hrest ih => exact List.isChain_cons_cons.2 ⟨h, ih⟩

/-- Onwards the links lead along the part of the row behind the block. -/
theorem strand_next (hnodup : o.links.Nodup) {s p i : Nat} (h : (o.row s)[p]? = some i) :
    Strand o.next? i ((o.row s).drop (p + 1)) := by
  induction hrest : (o.row s).drop (p + 1) generalizing p i with
  | nil =>
    refine .last ?_
    rw [next?_row hnodup h, List.getElem?_eq_none (List.drop_eq_nil_iff.1 hrest)]
  | cons j rest ih =>
    have hj : (o.row s)[p + 1]? = some j := by
      rw [← List.head?_drop, hrest, List.head?_cons]
    refine .step ((next?_row hnodup h).trans hj) (ih hj ?_)
    rw [← List.tail_drop, hrest, List.tail_cons]

/-- Back they lead along the part in front of it, from its end. -/
theorem strand_previous (hnodup : o.links.Nodup) {s p i : Nat} (h : (o.row s)[p]? = some i) :
    Strand o.previous? i ((o.row s).take p).reverse := by
  induction p generalizing i with
  | zero =>
    refine .last ?_
    rw [previous?_row hnodup h, if_pos rfl]
  | succ p ih =>
    obtain ⟨hp, -⟩ := List.getElem?_eq_some_iff.1 h
    have hj : (o.row s)[p]? = some (o.row s)[p] := List.getElem?_eq_getElem (Nat.lt_of_succ_lt hp)
    rw [List.take_succ_eq_append_getElem (Nat.lt_of_succ_lt hp), List.reverse_concat]
    exact .step ((previous?_row hnodup h).trans hj) (ih hj)

/-! ## §4. Walks by the links. -/

/-- A walk by the links from a block with a budget: its result, and the blocks it comes to.  Each
block that is left takes its tokens from the budget. -/
inductive Goes (o : Outline) (move : Nat → Int → Move α) : Nat → Int → α → List Nat → Prop
  | stop {i : Nat} {budget : Int} {result : α} (h : move i budget = .stop result) :
      Goes o move i budget result [i]
  | forward {i j : Nat} {budget : Int} {result : α} {visited : List Nat}
      (h : move i budget = .forward) (hlink : o.next? i = some j)
      (hrest : Goes o move j (budget - (o.data i).tokens) result visited) :
      Goes o move i budget result (i :: visited)
  | back {i j : Nat} {budget : Int} {result : α} {visited : List Nat}
      (h : move i budget = .back) (hlink : o.previous? i = some j)
      (hrest : Goes o move j (budget - (o.data i).tokens) result visited) :
      Goes o move i budget result (i :: visited)

/-- There is one walk from a block. -/
theorem Goes.unique {i : Nat} {budget : Int} {r s : α} {v w : List Nat}
    (h : o.Goes move i budget r v) (h' : o.Goes move i budget s w) : r = s ∧ v = w := by
  induction h generalizing w with
  | stop h => cases h' <;> simp_all
  | forward h hlink hrest ih =>
    cases h' with
    | stop h' => simp [h] at h'
    | back h' => simp [h] at h'
    | forward h' hlink' hrest' =>
      obtain rfl := Option.some.inj (hlink.symm.trans hlink')
      obtain ⟨rfl, rfl⟩ := ih hrest'
      exact ⟨rfl, rfl⟩
  | back h hlink hrest ih =>
    cases h' with
    | stop h' => simp [h] at h'
    | forward h' => simp [h] at h'
    | back h' hlink' hrest' =>
      obtain rfl := Option.some.inj (hlink.symm.trans hlink')
      obtain ⟨rfl, rfl⟩ := ih hrest'
      exact ⟨rfl, rfl⟩

theorem Goes.iff_eq {i : Nat} {budget : Int} {result : α} {visited : List Nat}
    (h : o.Goes move i budget result visited) (r : α) (v : List Nat) :
    o.Goes move i budget r v ↔ r = result ∧ v = visited := by
  constructor
  · exact fun h' => h'.unique h
  · rintro ⟨rfl, rfl⟩
    exact h

/-- What moves towards a line have in common: only a block that ends before the line is left onwards;
only a block that does not end before it is left backwards, and for one that does not either. -/
structure Sided (o : Outline) (line : Int) (move : Nat → Int → Move α) : Prop where
  forward : ∀ {i budget}, move i budget = .forward →
    (o.data i).endLine < line ∧ ∃ j, o.next? i = some j
  back : ∀ {i budget}, move i budget = .back →
    line ≤ (o.data i).endLine ∧ ∃ j, o.previous? i = some j ∧ line ≤ (o.data j).endLine

/-- A block that was left onwards is not gone back to. -/
theorem Sided.not_back (h : o.Sided line move) (hinverse : o.Inverse)
    {i j : Nat} {budget : Int} (hmove : move i budget = .forward) (hlink : o.next? i = some j) :
    ∀ rest, move j rest ≠ .back := by
  intro rest hback
  obtain ⟨-, k, hk, hend⟩ := h.back hback
  obtain rfl := Option.some.inj (((hinverse i j).1 hlink).symm.trans hk)
  exact Int.not_lt.2 hend (h.forward hmove).1

/-- A block that was left backwards is not gone on to. -/
theorem Sided.not_forward (h : o.Sided line move)
    {i j : Nat} {budget : Int} (hmove : move i budget = .back) (hlink : o.previous? i = some j) :
    ∀ rest, move j rest ≠ .forward := by
  intro rest hforward
  obtain ⟨-, k, hk, hend⟩ := h.back hmove
  obtain rfl := Option.some.inj (hlink.symm.trans hk)
  exact Int.not_lt.2 hend (h.forward hforward).1

/-- At a block the walk stops, or it takes the link to a block with the same property. -/
def Passes (o : Outline) (move : Nat → Int → Move α) (link : Nat → Option Nat) (P : Nat → Prop)
    (i : Nat) : Prop :=
  ∀ budget, (∃ result, move i budget = .stop result) ∨
    ∃ j, link i = some j ∧ P j ∧ ∀ result visited,
      o.Goes move j (budget - (o.data i).tokens) result visited →
        o.Goes move i budget result (i :: visited)

theorem Sided.passes_forward (h : o.Sided line move)
    (hinverse : o.Inverse) {i : Nat} (hi : ∀ budget, move i budget ≠ .back) :
    o.Passes move o.next? (fun j => ∀ budget, move j budget ≠ .back) i := by
  intro budget
  cases hmove : move i budget with
  | stop result => exact .inl ⟨result, rfl⟩
  | forward =>
    obtain ⟨-, j, hj⟩ := h.forward hmove
    exact .inr ⟨j, hj, h.not_back hinverse hmove hj, fun _ _ => .forward hmove hj⟩
  | back => exact absurd hmove (hi budget)

theorem Sided.passes_back (h : o.Sided line move) {i : Nat}
    (hi : ∀ budget, move i budget ≠ .forward) :
    o.Passes move o.previous? (fun j => ∀ budget, move j budget ≠ .forward) i := by
  intro budget
  cases hmove : move i budget with
  | stop result => exact .inl ⟨result, rfl⟩
  | forward => exact absurd hmove (hi budget)
  | back =>
    obtain ⟨-, j, hj, -⟩ := h.back hmove
    exact .inr ⟨j, hj, h.not_forward hmove hj, fun _ _ => .back hmove hj⟩

/-- A walk that takes the same link at every block ends with the links at the latest. -/
theorem Strand.ends {link : Nat → Option Nat} {P : Nat → Prop}
    (hpasses : ∀ i, P i → o.Passes move link P i) {i : Nat} {rest : List Nat}
    (hstrand : Strand link i rest) (hi : P i) (budget : Int) :
    ∃ result visited, o.Goes move i budget result visited ∧ visited <+: i :: rest := by
  -- along the links, for every budget: what is left of it at the next block can be anything
  induction hstrand generalizing budget with
  | @last i hnone =>
    obtain ⟨result, hstop⟩ | ⟨j, hj, -⟩ := hpasses i hi budget
    · exact ⟨result, [i], .stop hstop, List.prefix_rfl⟩
    · cases hnone.symm.trans hj
  | @step i j rest hlink _ ih =>
    obtain ⟨result, hstop⟩ | ⟨k, hk, hpass, hgoes⟩ := hpasses i hi budget
    · exact ⟨result, [i], .stop hstop, List.prefix_append [i] (j :: rest)⟩
    · obtain rfl := Option.some.inj (hlink.symm.trans hk)
      obtain ⟨result, visited, hrest, hbegins⟩ := ih hpass (budget - (o.data i).tokens)
      exact ⟨result, i :: visited, hgoes _ _ hrest, List.cons_prefix_cons.2 ⟨rfl, hbegins⟩⟩

/-- A walk towards a line ends, and the blocks it comes to are the first ones on one side. -/
theorem Sided.ends (h : o.Sided line move) (hinverse : o.Inverse)
    {i : Nat} {after before : List Nat} (hafter : Strand o.next? i after)
    (hbefore : Strand o.previous? i before) (budget : Int) :
    ∃ result visited, o.Goes move i budget result visited
      ∧ (visited <+: i :: after ∨ visited <+: i :: before) := by
  -- the last line of the first block decides about the direction for good
  by_cases hend : (o.data i).endLine < line
  · have hi : ∀ budget, move i budget ≠ .back := fun _ hback =>
      Int.not_lt.2 (h.back hback).1 hend
    obtain ⟨result, visited, hgoes, hbegins⟩ :=
      hafter.ends (fun _ => h.passes_forward hinverse) hi budget
    exact ⟨result, visited, hgoes, .inl hbegins⟩
  · have hi : ∀ budget, move i budget ≠ .forward := fun _ hforward => hend (h.forward hforward).1
    obtain ⟨result, visited, hgoes, hbegins⟩ :=
      hbefore.ends (fun _ => h.passes_back) hi budget
    exact ⟨result, visited, hgoes, .inr hbegins⟩

/-! ## §5. Walks in one direction. -/

/-- Blocks in one direction from a block: from each a link leads to the next one, onwards from all of
them or back from all of them, and none of them comes twice. -/
structure OneWay (o : Outline) (i : Nat) (visited : List Nat) : Prop where
  starts : visited.head? = some i
  direction : (visited.IsChain fun a b => o.next? a = some b) ∨
    visited.IsChain fun a b => o.previous? a = some b
  once : visited.Nodup

theorem Goes.head?_visited {i : Nat} {budget : Int} {result : α} {visited : List Nat}
    (h : o.Goes move i budget result visited) : visited.head? = some i := by
  cases h <;> rfl

/-- Where links are inverse, a walk towards a line ends; it keeps its direction and comes to no more
blocks than stand in the row. -/
theorem Sided.oneWay (h : o.Sided line move) (hinverse : o.Inverse)
    (i : Nat) (budget : Int) :
    ∃ result visited, o.Goes move i budget result visited ∧ o.OneWay i visited
      ∧ visited.length ≤ (o.row i).length := by
  have hnodup := inverse_iff_nodup.1 hinverse
  have hrow := row_nodup hnodup i
  have hplace := row_at_place (o := o) i
  generalize (o.row i).idxOf i = p at hplace
  obtain ⟨hp, hi⟩ := List.getElem?_eq_some_iff.1 hplace
  have hafter := strand_next hnodup hplace
  have hbefore := strand_previous hnodup hplace
  obtain ⟨result, visited, hgoes, hside⟩ := h.ends hinverse hafter hbefore budget
  have hstarts := hgoes.head?_visited
  refine ⟨result, visited, hgoes, ?_⟩
  -- the row from the block on, or up to the block and reversed, has the visited blocks in front
  rcases hside with hbegins | hbegins
  · have hforward := List.IsChain.prefix hafter.isChain hbegins
    have hrest : i :: (o.row i).drop (p + 1) = (o.row i).drop p := by
      rw [List.drop_eq_getElem_cons hp, hi]
    rw [hrest] at hbegins
    have hpart := hbegins.sublist.trans (List.drop_sublist p (o.row i))
    exact ⟨⟨hstarts, .inl hforward, hrow.sublist hpart⟩, hpart.length_le⟩
  · have hback := List.IsChain.prefix hbefore.isChain hbegins
    have hrest : i :: ((o.row i).take p).reverse = ((o.row i).take (p + 1)).reverse := by
      rw [List.take_succ_eq_append_getElem hp, List.reverse_concat, hi]
    rw [hrest] at hbegins
    have hpart := hbegins.sublist.trans (List.take_sublist (p + 1) (o.row i)).reverse
    refine ⟨⟨hstarts, .inr hback, (List.nodup_reverse.2 hrow).sublist hpart⟩, ?_⟩
    simpa using hpart.length_le

/-! ## §6. Walks along the chain. -/

/-- The blocks of a row that a walk along its chain has come to. -/
def visitedBy (o : Outline) (walk : Chain → Nat → Option (α × List Nat)) (i : Nat) :
    Option (List Nat) :=
  let (chain, row, place) := o.chainAt i
  (walk chain place).map fun walked => walked.2.filterMap fun p => row[p]?

/-- A walk by the links is the walk along the chain of the row, if the chain allows as many steps as
blocks are come to and both decide alike. -/
theorem Goes.walk (hnodup : o.links.Nodup) {s : Nat} {move : Nat → Int → Move β}
    {decide : Nat → Stop → Int → Move α} {g : α → β}
    (hdecide : ∀ p i, (o.row s)[p]? = some i → ∀ budget,
      (decide p (o.stopAt i) budget).map g = move i budget)
    {i : Nat} {budget : Int} {result : β} {visited : List Nat}
    (h : o.Goes move i budget result visited) :
    ∀ {p steps : Nat}, (o.row s)[p]? = some i → visited.length ≤ steps →
      ∃ found places,
        Chain.walk ((o.row s).map o.stopAt) decide steps p budget = some (found, places)
          ∧ g found = result ∧ (places.filterMap fun p => (o.row s)[p]?) = visited := by
  induction h with
  | @stop i budget result hmove =>
    intro p steps hp hsteps
    obtain _ | steps := steps
    · cases hsteps
    obtain ⟨found, hfound, hresult⟩ := Move.map_eq_stop.1 ((hdecide p i hp budget).trans hmove)
    exact ⟨found, [p], by simp [Chain.walk, hp, hfound], hresult, by simp [hp]⟩
  | @forward i j budget result visited hmove hlink _ ih =>
    -- where the block stands at place `p`, the one it is linked to stands at `p + 1`
    intro p steps hp hsteps
    obtain _ | steps := steps
    · cases hsteps
    have hforward := Move.map_eq_forward.1 ((hdecide p i hp budget).trans hmove)
    have hj : (o.row s)[p + 1]? = some j := (next?_row hnodup hp).symm.trans hlink
    obtain ⟨found, places, hwalk, hresult, hplaces⟩ := ih hj (Nat.le_of_succ_le_succ hsteps)
    have hhere : (o.stopAt i).tokens = (o.data i).tokens := rfl
    refine ⟨found, p :: places, ?_, hresult, ?_⟩
    · simp [Chain.walk, hp, hforward, hhere, hwalk]
    · simp [hp, hplaces]
  | @back i j budget result visited hmove hlink _ ih =>
    intro p steps hp hsteps
    obtain _ | steps := steps
    · cases hsteps
    have hback := Move.map_eq_back.1 ((hdecide p i hp budget).trans hmove)
    have hj : (o.row s)[p - 1]? = some j := by
      rw [previous?_row hnodup hp] at hlink
      split at hlink
      · cases hlink
      · exact hlink
    obtain ⟨found, places, hwalk, hresult, hplaces⟩ := ih hj (Nat.le_of_succ_le_succ hsteps)
    have hhere : (o.stopAt i).tokens = (o.data i).tokens := rfl
    refine ⟨found, p :: places, ?_, hresult, ?_⟩
    · simp [Chain.walk, hp, hback, hhere, hwalk]
    · simp [hp, hplaces]

/-- The neighbours of a place in the chain are those that the block there is linked to. -/
theorem after?_row (hnodup : o.links.Nodup) {s p i : Nat} (h : (o.row s)[p]? = some i) :
    Chain.after? ((o.row s).map o.stopAt) p = (o.next? i).map o.stopAt := by
  rw [next?_row hnodup h, Chain.after?, List.getElem?_map]

theorem before?_row (hnodup : o.links.Nodup) {s p i : Nat} (h : (o.row s)[p]? = some i) :
    Chain.before? ((o.row s).map o.stopAt) p = (o.previous? i).map o.stopAt := by
  rw [previous?_row hnodup h, Chain.before?, List.getElem?_map]
  split <;> rfl

/-! ## §7. The two walks towards a line. -/

/-- At a block: is the line between this block and the one it is linked to on the line's side? -/
def reachMove (o : Outline) (line : Int) (i : Nat) (budget : Int) : Move Bool :=
  if budget ≤ 0 then .stop false
  else if (o.data i).endLine < line then
    match o.next? i with
    | none => .stop false
    | some j => if line < (o.data j).startLine then .stop true else .forward
  else
    match o.previous? i with
    | none => .stop false
    | some j => if (o.data j).endLine < line then .stop true else .back

/-- At a block: is this the last block on the way to the line that the budget allows?  Also on the way
back it is the block onwards whose tokens the budget has to hold. -/
def lastMove (o : Outline) (line : Int) (i : Nat) (budget : Int) : Move (Outcome Nat) :=
  if (o.data i).endLine < line then
    match o.next? i with
    | none => .stop (.ok i)
    | some j =>
      if line < (o.data j).startLine ∨ budget < (o.data j).tokens then .stop (.ok i) else .forward
  else
    match o.previous? i with
    | none => .stop (.ok i)
    | some j =>
      if (o.data j).endLine < line then .stop (.ok i)
      else
        -- not `j`, to which the walk would go back
        match o.next? i with
        | none => .stop (.error (.absent "tokens"))
        | some k => if budget < (o.data k).tokens then .stop (.ok i) else .back

theorem reachMove_sided (o : Outline) (line : Int) : o.Sided line (o.reachMove line) where
  forward := by
    intro i budget h
    grind [reachMove]
  back := by
    intro i budget h
    grind [reachMove]

theorem lastMove_sided (o : Outline) (line : Int) : o.Sided line (o.lastMove line) where
  forward := by
    intro i budget h
    grind [lastMove]
  back := by
    intro i budget h
    grind [lastMove]

/-- Along the chain of a row the decisions are those by the links. -/
theorem reachDecision_row (hnodup : o.links.Nodup) {s p i : Nat} (h : (o.row s)[p]? = some i)
    (budget : Int) :
    (Chain.reachDecision ((o.row s).map o.stopAt) line p (o.stopAt i) budget).map id
      = o.reachMove line i budget := by
  rw [Chain.reachDecision, reachMove, after?_row hnodup h, before?_row hnodup h]
  grind [Move.map, stopAt]

theorem lastDecision_row (hnodup : o.links.Nodup) {s p i : Nat} (h : (o.row s)[p]? = some i)
    (budget : Int) :
    (Chain.lastDecision ((o.row s).map o.stopAt) line p (o.stopAt i) budget).map
        (fun found => found.map fun place => (o.row s)[place]?.getD s)
      = o.lastMove line i budget := by
  rw [Chain.lastDecision, lastMove, after?_row hnodup h, before?_row hnodup h]
  grind [Move.map, stopAt, Except.map]

/-- Within the steps of the chain the walks by the links come to the answers of the outline, and to
the blocks that are recorded along the chain. -/
theorem Goes.reachesLine_eq (hinverse : o.Inverse) {i : Nat} {budget : Int} {found : Bool}
    {visited : List Nat} (h : o.Goes (o.reachMove line) i budget found visited)
    (hlength : visited.length ≤ (o.row i).length) :
    o.reachesLine i line budget = .ok found
      ∧ o.visitedBy (fun chain place => chain.reachWalk place line budget) i = some visited := by
  have hnodup := inverse_iff_nodup.1 hinverse
  obtain ⟨answer, places, hwalk, rfl, rfl⟩ :=
    h.walk hnodup (fun _ _ => reachDecision_row hnodup) (row_at_place i) hlength
  have hwalked : Chain.reachWalk ((o.row i).map o.stopAt) ((o.row i).idxOf i) line budget
      = some (answer, places) := by
    rw [Chain.reachWalk, List.length_map, hwalk]
  constructor
  · simp [reachesLine, chainAt_eq, Chain.reachesLine, hwalked]
  · simp [visitedBy, chainAt_eq, hwalked]

theorem Goes.lastUntilLine_eq (hinverse : o.Inverse) {i : Nat} {budget : Int} {found : Outcome Nat}
    {visited : List Nat} (h : o.Goes (o.lastMove line) i budget found visited)
    (hlength : visited.length ≤ (o.row i).length) :
    o.lastUntilLine i line budget = found
      ∧ o.visitedBy (fun chain place => chain.lastWalk place line budget) i = some visited := by
  have hnodup := inverse_iff_nodup.1 hinverse
  obtain ⟨answer, places, hwalk, rfl, rfl⟩ :=
    h.walk hnodup (fun _ _ => lastDecision_row hnodup) (row_at_place i) hlength
  have hwalked : Chain.lastWalk ((o.row i).map o.stopAt) ((o.row i).idxOf i) line budget
      = some (answer, places) := by
    rw [Chain.lastWalk, List.length_map, hwalk]
  constructor
  · simp [lastUntilLine, chainAt_eq, Chain.lastUntilLine, hwalked]
  · simp [visitedBy, chainAt_eq, hwalked]

/-! ## §8. Walks that never turn. -/

/-- The block is the last of its row, and neither it nor the one in front ends before the line. -/
def Overruns (o : Outline) (line : Int) (i : Nat) : Prop :=
  o.next? i = none ∧ line ≤ (o.data i).endLine ∧
    ∃ j, o.previous? i = some j ∧ line ≤ (o.data j).endLine

theorem lastMove_eq_error {i : Nat} {budget : Int} {e : Failure} :
    o.lastMove line i budget = .stop (.error e) ↔ e = .absent "tokens" ∧ o.Overruns line i := by
  grind [lastMove, Overruns]

/-- The walk to the last block fails at the block it starts from or not at all: a block that was left
onwards ends before the line, and one that was left backwards comes after its neighbour. -/
theorem Goes.overruns (hinverse : o.Inverse) {i : Nat} {budget : Int} {found : Outcome Nat}
    {visited : List Nat} (h : o.Goes (o.lastMove line) i budget found visited) {e : Failure}
    (he : found = .error e) : e = .absent "tokens" ∧ o.Overruns line i := by
  induction h with
  | stop hmove =>
    rw [he] at hmove
    exact lastMove_eq_error.1 hmove
  | @forward i j _ _ _ hmove hlink _ ih =>
    -- the neighbour that would have to reach the line is the block that was left
    obtain ⟨-, -, -, k, hk, hend⟩ := ih he
    obtain rfl := Option.some.inj (((hinverse i j).1 hlink).symm.trans hk)
    exact absurd ((o.lastMove_sided line).forward hmove).1 (Int.not_lt.2 hend)
  | @back i j _ _ _ hmove hlink _ ih =>
    -- a block that was gone back to is not the last one
    obtain ⟨-, hlast, -⟩ := ih he
    cases hlast.symm.trans ((hinverse j i).2 hlink)

/-- **Walks towards a line never turn round.**  In every outline whose links are inverse to each other,
from every block and for every line and budget, the walk by the links ends, and all blocks it comes
to lie in one direction from the block.  The outline answers what the walk comes to.  The walk to the
last block ends with a failure exactly if it starts from the last block of the row and both that block
and its neighbour reach the line. -/
theorem walks_never_turn (o : Outline) (hinverse : o.Inverse) (i : Nat) (line budget : Int) :
    (∃ found visited, (∀ r v, o.Goes (o.reachMove line) i budget r v ↔ r = found ∧ v = visited)
      ∧ o.OneWay i visited
      ∧ o.reachesLine i line budget = .ok found
      ∧ o.visitedBy (fun chain place => chain.reachWalk place line budget) i = some visited)
    ∧ (∃ found visited, (∀ r v, o.Goes (o.lastMove line) i budget r v ↔ r = found ∧ v = visited)
      ∧ o.OneWay i visited
      ∧ o.lastUntilLine i line budget = found
      ∧ o.visitedBy (fun chain place => chain.lastWalk place line budget) i = some visited
      ∧ ∀ e, found = .error e ↔ e = .absent "tokens" ∧ o.Overruns line i) := by
  obtain ⟨found, visited, hreach, honeWay, hlength⟩ :=
    (o.reachMove_sided line).oneWay hinverse i budget
  obtain ⟨last, way, hlast, hlastWay, hlastLength⟩ :=
    (o.lastMove_sided line).oneWay hinverse i budget
  refine ⟨⟨found, visited, hreach.iff_eq, honeWay, hreach.reachesLine_eq hinverse hlength⟩,
    ⟨last, way, hlast.iff_eq, hlastWay, ?_⟩⟩
  obtain ⟨hanswer, hrecord⟩ := hlast.lastUntilLine_eq hinverse hlastLength
  refine ⟨hanswer, hrecord, fun e => ⟨fun he => hlast.overruns hinverse he, fun hover => ?_⟩⟩
  have hstop : o.lastMove line i budget = .stop (.error e) := lastMove_eq_error.2 hover
  exact ((hlast.iff_eq _ _).1 (.stop hstop)).1.symm

/-- A block on the given lines. -/
def entryOnLines (first last tokens : Int) : OutlineEntry :=
  { data := { kind := .code, content := "", startLine := first, endLine := last, tokens } }

/-- Three blocks in a row, with lines in no order and less than no tokens. -/
def unordered : Outline :=
  { entries := #[entryOnLines 9 4 (-3), entryOnLines 7 6 0, entryOnLines 1 5 (-8)] : Outline }.linked

/-- From the first block a far line is looked for onwards over all three blocks, from the last one a
near line back over all three; there the walk to the last block fails at once. -/
theorem walks_never_turn_unordered :
    unordered.Inverse
    ∧ unordered.lastUntilLine 0 10 1 = .ok 2 ∧ unordered.OneWay 0 [0, 1, 2]
    ∧ unordered.reachesLine 2 3 1 = .ok false ∧ unordered.OneWay 2 [2, 1, 0]
    ∧ unordered.lastUntilLine 2 3 1 = .error (.absent "tokens") := by
  have hinverse : unordered.Inverse := inverse_linked _
  have honwards : unordered.Goes (unordered.lastMove 10) 0 1 (.ok 2) [0, 1, 2] :=
    .forward rfl rfl (.forward rfl rfl (.stop rfl))
  have hback : unordered.Goes (unordered.reachMove 3) 2 1 false [2, 1, 0] :=
    .back rfl rfl (.back rfl rfl (.stop rfl))
  obtain ⟨-, last, way, hlast, hway, hanswer, -⟩ := walks_never_turn unordered hinverse 0 10 1
  obtain ⟨⟨found, visited, hreach, hvisited, hfound, -⟩, -, -, -, -, rfl, -, hfails⟩ :=
    walks_never_turn unordered hinverse 2 3 1
  obtain ⟨rfl, rfl⟩ := (hlast _ _).1 honwards
  obtain ⟨rfl, rfl⟩ := (hreach _ _).1 hback
  refine ⟨hinverse, hanswer, hway, hfound, hvisited, ?_⟩
  exact (hfails _).2 ⟨rfl, rfl, by decide, 1, rfl, by decide⟩

end Outline

end CodeAtlas
