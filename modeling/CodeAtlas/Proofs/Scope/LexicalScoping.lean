import CodeAtlas.Proofs.Scope.Growth
import Mathlib

/-!
# Lexical scoping

Scopes that are nested or apart, and that come from the outside in, make a map in which the way
outward from any range passes through all scopes around the range, from the narrowest to the whole
source, and through no others.  The scope around a scope is chosen when the scope comes and never
revised; this is enough, since all scopes around it are there by then.

All this is said of half-open intervals of rows, where a range within one row is widened by some
part `ε` of the row.  It holds as long as the ranges within one row lie in the near rows, as all rows
of a syntax tree do, which are counted in words of 32 bits.  Each row that is not near would be the
place of scopes for which it fails.

Main results:
  * `ScopeMap.Holds.insertAll`: the map that a list of scopes makes;
  * `ScopeMap.Holds.chain`: the way outward from each scope;
  * `ScopeMap.outward_of_near`: the way outward from any near range;
  * `ScopeMap.losesScopes_of_far`: the rows where it fails;
  * `ScopeMap.outward_exact`: the way outward from any range of a syntax tree.
-/

namespace CodeAtlas

namespace SourceRange

/-! ## §1. Intervals of rows. -/

/-- The rows of a range as a half-open interval, widened by `ε` within one row. -/
def interval (ε : ℚ) (range : SourceRange) : Set ℚ :=
  Set.Ico (range.startRow : ℚ)
    (if range.startRow = range.stopRow then range.startRow + ε else range.stopRow)

/-- Does the range end before the other begins? -/
def isBefore (a b : SourceRange) : Bool :=
  a.stopRow ≤ b.startRow && a.startRow < b.startRow

section Interval

variable {ε : ℚ} (hpos : 0 < ε) (hone : ε < 1)
include hpos

theorem start_lt_end {range : SourceRange} (h : range.startRow ≤ range.stopRow) :
    (range.startRow : ℚ) <
      if range.startRow = range.stopRow then range.startRow + ε else (range.stopRow : ℚ) := by
  split
  · linarith
  · exact Int.cast_lt.2 (by omega)

theorem interval_nonempty {range : SourceRange} (h : range.startRow ≤ range.stopRow) :
    (range.interval ε).Nonempty :=
  Set.nonempty_Ico.2 (start_lt_end hpos h)

include hone

theorem widened_le_iff (a b : Int) : (a : ℚ) + ε ≤ b ↔ a < b := by
  constructor
  · intro h
    exact Int.cast_lt.1 (show (a : ℚ) < b by linarith)
  · intro h
    have : (a : ℚ) + 1 ≤ b := by exact_mod_cast h
    linarith

theorem le_widened_iff (a b : Int) : (a : ℚ) ≤ b + ε ↔ a ≤ b := by
  constructor
  · intro h
    have : (a : ℚ) < (b + 1 : Int) := by push_cast; linarith
    exact Int.lt_add_one_iff.1 (Int.cast_lt.1 this)
  · intro h
    have : (a : ℚ) ≤ b := Int.cast_le.2 h
    linarith

/-- An interval lies in another if the rows do and the last row is not the one that is cut off,
whatever part of a row the widening adds. -/
theorem interval_subset_iff {outer inner : SourceRange} (ho : outer.startRow ≤ outer.stopRow)
    (hi : inner.startRow ≤ inner.stopRow) :
    inner.interval ε ⊆ outer.interval ε ↔ outer.isAround inner = true := by
  unfold interval
  rw [Set.Ico_subset_Ico_iff (start_lt_end hpos hi), Int.cast_le, isAround_iff]
  by_cases hrow : inner.startRow = inner.stopRow
  · rw [if_pos hrow]
    by_cases hrow' : outer.startRow = outer.stopRow
    · rw [if_pos hrow', add_le_add_iff_right, Int.cast_le]
      omega
    · rw [if_neg hrow', widened_le_iff hpos hone]
      omega
  · rw [if_neg hrow]
    by_cases hrow' : outer.startRow = outer.stopRow
    · rw [if_pos hrow', le_widened_iff hpos hone]
      omega
    · rw [if_neg hrow', Int.cast_le]
      omega

/-- A range within a source whose rows are those of a syntax tree is near. -/
theorem near_of_inside {source range : SourceRange} (hsource : source.startRow ≤ source.stopRow)
    (hfirst : 0 ≤ source.startRow) (hlast : source.stopRow < 2 ^ 32)
    (hrange : range.startRow ≤ range.stopRow) (hinside : range.interval ε ⊆ source.interval ε) :
    range.Near := by
  rw [interval_subset_iff hpos hone hsource hrange, isAround_iff] at hinside
  obtain ⟨⟨hstart, hstop⟩, -⟩ := hinside
  exact ⟨hrange, fun _ => ⟨by omega, by omega⟩⟩

/-- In the near rows, enclosing is holding the interval. -/
theorem encloses_iff_subset {outer inner : SourceRange} (ho : outer.Near) (hi : inner.Near) :
    outer.rows.encloses inner.rows = true ↔ inner.interval ε ⊆ outer.interval ε := by
  rw [encloses_eq_isAround ho hi, interval_subset_iff hpos hone ho.forward hi.forward]

/-- An interval that lies strictly in another has fewer rows. -/
theorem height_lt_of_ssubset {outer inner : SourceRange} (ho : outer.startRow ≤ outer.stopRow)
    (hi : inner.startRow ≤ inner.stopRow) (h : inner.interval ε ⊂ outer.interval ε) :
    inner.height < outer.height := by
  obtain ⟨hsub, hnot⟩ := h
  rw [interval_subset_iff hpos hone ho hi, isAround_iff] at hsub
  rw [interval_subset_iff hpos hone hi ho, isAround_iff] at hnot
  unfold height
  omega

/-- A range that ends where the other begins, or before, is apart from it. -/
theorem disjoint_of_isBefore {a b : SourceRange} (h : a.isBefore b = true) :
    Disjoint (a.interval ε) (b.interval ε) := by
  unfold isBefore at h
  rw [Bool.and_eq_true, decide_eq_true_eq, decide_eq_true_eq] at h
  have hend : (if a.startRow = a.stopRow then a.startRow + ε else (a.stopRow : ℚ)) ≤
      b.startRow := by
    split
    · exact (widened_le_iff hpos hone _ _).2 h.2
    · exact Int.cast_le.2 h.1
  refine Set.disjoint_left.2 fun x hx hy => ?_
  exact absurd (hx.2.trans_le (hend.trans hy.1)) (lt_irrefl x)

end Interval

end SourceRange

/-! ## §2. Scopes from the outside in. -/

/-- The scopes of a source in the order in which they come.  Any two intervals, that of the source
included, are distinct, and apart or nested; all lie in the source; none comes before one that it
lies in. -/
structure OutsideIn (ε : ℚ) (source : SourceRange) (scopes : List SourceRange) : Prop where
  forward : ∀ r ∈ source :: scopes, r.startRow ≤ r.stopRow
  distinct : (source :: scopes).Pairwise fun a b => a.interval ε ≠ b.interval ε
  nested : (source :: scopes).Pairwise fun a b =>
    Disjoint (a.interval ε) (b.interval ε) ∨
      a.interval ε ⊆ b.interval ε ∨ b.interval ε ⊆ a.interval ε
  inside : ∀ r ∈ scopes, r.interval ε ⊆ source.interval ε
  outerFirst : (source :: scopes).Pairwise fun a b => ¬ a.interval ε ⊂ b.interval ε

/-- The same by rows: each range is forward, lies in the source, and is apart from each earlier one
or lies in it and not the other way round. -/
def isOutsideIn (source : SourceRange) (scopes : List SourceRange) : Bool :=
  (source :: scopes).all (fun r => r.startRow ≤ r.stopRow) && scopes.all (source.isAround ·)
    && decide ((source :: scopes).Pairwise fun a b =>
      a.isBefore b || b.isBefore a || (a.isAround b && !b.isAround a))

theorem outsideIn_of_isOutsideIn {ε : ℚ} (hpos : 0 < ε) (hone : ε < 1) {source : SourceRange}
    {scopes : List SourceRange} (h : isOutsideIn source scopes = true) :
    OutsideIn ε source scopes := by
  simp only [isOutsideIn, Bool.and_eq_true, List.all_eq_true, decide_eq_true_eq] at h
  obtain ⟨⟨hforward, hinside⟩, hpairs⟩ := h
  have hsub : ∀ {a b : SourceRange}, a ∈ source :: scopes → b ∈ source :: scopes →
      (b.interval ε ⊆ a.interval ε ↔ a.isAround b = true) := fun ha hb =>
    SourceRange.interval_subset_iff hpos hone (hforward _ ha) (hforward _ hb)
  -- each pair is apart, or the later range lies strictly in the earlier one
  have hcases : (source :: scopes).Pairwise fun a b =>
      Disjoint (a.interval ε) (b.interval ε) ∨
        b.interval ε ⊆ a.interval ε ∧ ¬ a.interval ε ⊆ b.interval ε := by
    refine hpairs.imp_of_mem fun {a b} ha hb hab => ?_
    rw [Bool.or_eq_true, Bool.or_eq_true, Bool.and_eq_true, Bool.not_eq_true'] at hab
    obtain (hab | hab) | ⟨hin, hnot⟩ := hab
    · exact Or.inl (SourceRange.disjoint_of_isBefore hpos hone hab)
    · exact Or.inl (SourceRange.disjoint_of_isBefore hpos hone hab).symm
    · rw [← Bool.not_eq_true] at hnot
      exact Or.inr ⟨(hsub ha hb).2 hin, mt (hsub hb ha).1 hnot⟩
  have hnot : (source :: scopes).Pairwise fun a b => ¬ a.interval ε ⊆ b.interval ε := by
    refine hcases.imp_of_mem fun {a b} ha _ hab hle => ?_
    obtain hapart | ⟨-, hno⟩ := hab
    · have hempty := disjoint_self.1 (hapart.mono_right hle)
      exact (SourceRange.interval_nonempty hpos (hforward a ha)).ne_empty hempty
    · exact hno hle
  exact {
    forward := hforward
    distinct := hnot.imp fun hno heq => hno heq.subset
    nested := hcases.imp fun hab => hab.imp_right fun hin => Or.inr hin.1
    inside := fun r hr => (hsub List.mem_cons_self (List.mem_cons_of_mem _ hr)).2 (hinside r hr)
    outerFirst := hnot.imp fun hno hlt => hno hlt.subset }

/-- The numbers are those of all ranges around `x`, from the narrowest to the first range. -/
structure ScopeChain (ε : ℚ) (ranges : List SourceRange) (x : Set ℚ) (chain : List Nat) : Prop where
  mem_iff : ∀ i, i ∈ chain ↔ ∃ r, ranges[i]? = some r ∧ x ⊆ r.interval ε
  narrowestFirst : chain.Pairwise fun i j =>
    ∃ a b, ranges[i]? = some a ∧ ranges[j]? = some b ∧ a.interval ε ⊂ b.interval ε
  endsAtFirst : chain.getLast? = some 0

/-- Intervals with the same ranges around them have the same chain. -/
theorem ScopeChain.congr {ε : ℚ} {ranges : List SourceRange} {x y : Set ℚ} {chain : List Nat}
    (h : ScopeChain ε ranges x chain)
    (hiff : ∀ (i : Nat) (r : SourceRange), ranges[i]? = some r →
      (x ⊆ r.interval ε ↔ y ⊆ r.interval ε)) :
    ScopeChain ε ranges y chain where
  mem_iff := by
    intro i
    rw [h.mem_iff i]
    exact exists_congr fun r => and_congr_right fun hr => hiff i r hr
  narrowestFirst := h.narrowestFirst
  endsAtFirst := h.endsAtFirst

namespace OutsideIn

variable {ε : ℚ} {source : SourceRange} {scopes : List SourceRange}

theorem inside_source (h : OutsideIn ε source scopes) {i : Nat} {r : SourceRange}
    (hr : (source :: scopes)[i]? = some r) : r.interval ε ⊆ source.interval ε := by
  obtain rfl | hmem := List.mem_cons.1 (List.mem_of_getElem? hr)
  · exact subset_rfl
  · exact h.inside r hmem

/-- What holds of each two ranges in their order. -/
theorem pairwise_get {P : SourceRange → SourceRange → Prop} {ranges : List SourceRange}
    (h : ranges.Pairwise P) {i j : Nat} {a b : SourceRange} (ha : ranges[i]? = some a)
    (hb : ranges[j]? = some b) (hlt : i < j) : P a b := by
  obtain ⟨hi, rfl⟩ := List.getElem?_eq_some_iff.1 ha
  obtain ⟨hj, rfl⟩ := List.getElem?_eq_some_iff.1 hb
  exact List.pairwise_iff_getElem.1 h i j hi hj hlt

theorem ne_of_ne (h : OutsideIn ε source scopes) {i j : Nat} {a b : SourceRange}
    (ha : (source :: scopes)[i]? = some a) (hb : (source :: scopes)[j]? = some b) (hne : i ≠ j) :
    a.interval ε ≠ b.interval ε := by
  obtain hlt | hlt := Nat.lt_or_gt_of_ne hne
  · exact pairwise_get h.distinct ha hb hlt
  · exact (pairwise_get h.distinct hb ha hlt).symm

/-- Two ranges around the same interval are nested. -/
theorem nested_around (h : OutsideIn ε source scopes) {i j : Nat} {a b : SourceRange}
    (ha : (source :: scopes)[i]? = some a) (hb : (source :: scopes)[j]? = some b)
    {x : Set ℚ} (hx : x.Nonempty) (hxa : x ⊆ a.interval ε) (hxb : x ⊆ b.interval ε) :
    a.interval ε ⊆ b.interval ε ∨ b.interval ε ⊆ a.interval ε := by
  have hmeet : ¬ Disjoint (a.interval ε) (b.interval ε) :=
    Set.not_disjoint_iff_nonempty_inter.2 (hx.mono (Set.subset_inter hxa hxb))
  obtain hlt | rfl | hlt := Nat.lt_trichotomy i j
  · exact (pairwise_get h.nested ha hb hlt).resolve_left hmeet
  · rw [ha] at hb
    cases hb
    exact Or.inl subset_rfl
  · obtain hdisjoint | hnested := pairwise_get h.nested hb ha hlt
    · exact absurd hdisjoint.symm hmeet
    · exact hnested.symm

/-- A range around another one came earlier. -/
theorem lt_of_subset (h : OutsideIn ε source scopes) {i j : Nat} {a b : SourceRange}
    (ha : (source :: scopes)[i]? = some a) (hb : (source :: scopes)[j]? = some b) (hne : i ≠ j)
    (hsub : a.interval ε ⊆ b.interval ε) : j < i := by
  have hssub : a.interval ε ⊂ b.interval ε := hsub.ssubset_of_ne (h.ne_of_ne ha hb hne)
  obtain hlt | hlt := Nat.lt_or_gt_of_ne hne
  · exact absurd hssub (pairwise_get h.outerFirst ha hb hlt)
  · exact hlt

/-- **The narrowest range.**  Among the first `k` ranges, the store finds the one around the given
range that lies in all others around it. -/
theorem enclosing?_narrowest (h : OutsideIn ε source scopes) (hpos : 0 < ε) (hone : ε < 1)
    (hnear : ∀ r ∈ source :: scopes, r.Near) {k : Nat} (hk : 0 < k) {q : SourceRange}
    (hq : q.Near) (hinside : q.interval ε ⊆ source.interval ε) :
    ∃ p found, RowStore.enclosing? ((source :: scopes).take k).zipIdx q = some p ∧
      p < k ∧ (source :: scopes)[p]? = some found ∧ q.interval ε ⊆ found.interval ε ∧
      ∀ j r, j < k → (source :: scopes)[j]? = some r → q.interval ε ⊆ r.interval ε →
        found.interval ε ⊆ r.interval ε := by
  have hstore : ∀ {e : SourceRange × Nat}, e ∈ ((source :: scopes).take k).zipIdx ↔
      e.2 < k ∧ (source :: scopes)[e.2]? = some e.1 := by
    intro e
    rw [List.mem_zipIdx_iff_getElem?, List.getElem?_take]
    split <;> simp_all
  have hencloses : ∀ {i : Nat} {r : SourceRange}, (source :: scopes)[i]? = some r →
      (r.rows.encloses q.rows = true ↔ q.interval ε ⊆ r.interval ε) := fun hr =>
    SourceRange.encloses_iff_subset hpos hone (hnear _ (List.mem_of_getElem? hr)) hq
  cases hfind : RowStore.enclosing? ((source :: scopes).take k).zipIdx q with
  | none =>
    -- the source itself is around the range
    have hnone := RowStore.enclosing?_none hq.not_isEmpty hfind (source, 0) (hstore.2 ⟨hk, rfl⟩)
    rw [(hencloses (i := 0) rfl).2 hinside] at hnone
    cases hnone
  | some p =>
    obtain ⟨found, hmem, hfound, hshortest⟩ := RowStore.enclosing?_some hfind
    obtain ⟨hp, hget⟩ := hstore.1 hmem
    refine ⟨p, found, rfl, hp, hget, (hencloses hget).1 hfound, ?_⟩
    intro j r hj hr hsub
    -- the two are nested; the other way round, the range found would not be the shortest
    obtain hgood | hbad := h.nested_around hget hr (SourceRange.interval_nonempty hpos hq.forward)
      ((hencloses hget).1 hfound) hsub
    · exact hgood
    · by_contra hnot
      have hshort := hshortest (r, j) (hstore.2 ⟨hj, hr⟩) ((hencloses hr).2 hsub)
      have hrnear := hnear r (List.mem_of_getElem? hr)
      have hfnear := hnear found (List.mem_of_getElem? hget)
      have hle := SourceRange.height_le_of_length_le hrnear hshort
      have hlt := SourceRange.height_lt_of_ssubset hpos hone hfnear.forward hrnear.forward
        ⟨hbad, hnot⟩
      omega

end OutsideIn

namespace ScopeMap

/-! ## §3. The map that scopes make. -/

/-- The map of a source with the given scopes, one after the other. -/
def ofScopes (source : SourceRange) (scopes : List SourceRange) : Outcome ScopeMap := do
  (← empty source).insertAll (scopes.map .scope)

/-- The map has the given ranges as its scopes and nothing else, and each scope hangs below the
shortest of the earlier ones around it. -/
structure Holds (g : ScopeMap) (ranges : List SourceRange) : Prop where
  size : g.nodes.size = ranges.length
  placed : g.placed = ranges.zipIdx
  rootLinks : g.links root = []
  links : ∀ i r, i ≠ root → ranges[i]? = some r → g.links i =
    [⟨(RowStore.enclosing? (ranges.take i).zipIdx r).getD root, .scopeToScope⟩]

theorem holds_empty {source : SourceRange} {g : ScopeMap} (h : empty source = .ok g) :
    g.Holds [source] := by
  obtain ⟨-, rfl⟩ := empty_ok h
  refine ⟨rfl, rfl, rfl, ?_⟩
  intro i r hi hr
  have hlt := (List.getElem?_eq_some_iff.1 hr).1
  rw [List.length_singleton] at hlt
  exact absurd (show i = root by unfold root; omega) hi

/-- A scope more. -/
theorem Holds.insert {g : ScopeMap} {ranges : List SourceRange} (holds : g.Holds ranges)
    (hne : ranges ≠ []) {r : SourceRange} (hmeasure : r.rows.measure = .ok ())
    (hempty : r.rows.isEmpty = false) :
    ∃ grown, g.insert (.scope r) = (.ok (), grown) ∧ grown.Holds (ranges ++ [r]) := by
  refine ⟨_, insert_scope hmeasure hempty, ?_⟩
  have hlength := List.length_pos_iff.2 hne
  have hlinks := @links_push g
    { g.pushScope r with placed := g.placed ++ [(r, g.nodes.size)] } _ rfl
  refine ⟨?_, ?_, ?_, ?_⟩
  · show (g.nodes.push _).size = _
    rw [Array.size_push, holds.size, List.length_append, List.length_singleton]
  · show g.placed ++ [(r, g.nodes.size)] = _
    rw [holds.placed, holds.size, List.zipIdx_append]
    simp
  · rw [hlinks, if_neg (by rw [holds.size]; unfold root; omega), holds.rootLinks]
  · intro i s hi hs
    rw [hlinks, holds.size]
    -- when the new scope came, the store held just the earlier ones
    by_cases hnew : i = ranges.length
    · rw [if_pos hnew]
      rw [hnew, List.getElem?_concat_length] at hs
      cases hs
      rw [hnew, List.take_left]
      unfold scopeAt
      rw [holds.placed]
    · rw [if_neg hnew]
      have hlt : i < ranges.length := by
        have := (List.getElem?_eq_some_iff.1 hs).1
        rw [List.length_append, List.length_singleton] at this
        omega
      rw [List.getElem?_append_left hlt] at hs
      rw [holds.links i s hi hs, List.take_append_of_le_length (by omega)]

/-- Any number of scopes more. -/
theorem Holds.insertAll {g : ScopeMap} {ranges : List SourceRange} (holds : g.Holds ranges)
    (hne : ranges ≠ []) {scopes : List SourceRange}
    (hscopes : ∀ r ∈ scopes, r.rows.measure = .ok () ∧ r.rows.isEmpty = false) :
    ∃ grown, g.insertAll (scopes.map .scope) = .ok grown ∧ grown.Holds (ranges ++ scopes) := by
  induction scopes generalizing g ranges with
  | nil =>
    rw [List.append_nil]
    exact ⟨g, rfl, holds⟩
  | cons r rest ih =>
    obtain ⟨hmeasure, hempty⟩ := hscopes r List.mem_cons_self
    obtain ⟨grown, hinsert, hgrown⟩ := holds.insert hne hmeasure hempty
    obtain ⟨whole, hall, hwhole⟩ := ih hgrown (by simp) fun s hs =>
      hscopes s (List.mem_cons_of_mem _ hs)
    refine ⟨whole, ?_, ?_⟩
    · rw [List.map_cons, ScopeMap.insertAll, hinsert]
      exact hall
    · rw [List.append_assoc] at hwhole
      exact hwhole

/-- The map of a source and scopes whose rows are there. -/
theorem ofScopes_holds {source : SourceRange} {scopes : List SourceRange}
    (h : ∀ r ∈ source :: scopes, r.rows.measure = .ok () ∧ r.rows.isEmpty = false) :
    ∃ g, ofScopes source scopes = .ok g ∧ g.Holds (source :: scopes) := by
  obtain ⟨hmeasure, hempty⟩ := h source List.mem_cons_self
  have hfirst := empty_of_rows hmeasure hempty
  obtain ⟨g, hall, hg⟩ := (holds_empty hfirst).insertAll (List.cons_ne_nil _ _) fun r hr =>
    h r (List.mem_cons_of_mem _ hr)
  refine ⟨g, ?_, hg⟩
  unfold ofScopes
  rw [hfirst]
  exact hall

/-- A map comes out only if the rows of all scopes are there. -/
theorem insertAll_scopes_ok {g grown : ScopeMap} {scopes : List SourceRange}
    (h : g.insertAll (scopes.map .scope) = .ok grown) :
    ∀ r ∈ scopes, r.rows.measure = .ok () ∧ r.rows.isEmpty = false := by
  induction scopes generalizing g with
  | nil =>
    intro r hr
    cases hr
  | cons first rest ih =>
    rw [List.map_cons, insertAll, insert_of_sought rfl] at h
    cases hmeasure : first.rows.measure with
    | error e =>
      rw [hmeasure] at h
      cases h
    | ok _ =>
      cases hempty : first.rows.isEmpty with
      | true =>
        have hadd : g.placed.add first g.nodes.size = .error .emptyInterval := by
          unfold RowStore.add
          rw [hmeasure, hempty]
          rfl
        rw [hmeasure, show g.insertMeasured (.scope first) = g.addScope first from rfl, addScope,
          hadd] at h
        cases h
      | false =>
        intro r hr
        obtain rfl | hr := List.mem_cons.1 hr
        · exact ⟨hmeasure, hempty⟩
        · rw [← insert_of_sought (show (Insertion.scope first).sought = some first from rfl),
            insert_scope hmeasure hempty] at h
          exact ih h r hr

theorem holds_of_ofScopes {source : SourceRange} {scopes : List SourceRange} {g : ScopeMap}
    (h : ofScopes source scopes = .ok g) : g.Holds (source :: scopes) := by
  unfold ofScopes at h
  cases hfirst : empty source with
  | error e =>
    rw [hfirst] at h
    cases h
  | ok first =>
    rw [hfirst] at h
    obtain ⟨grown, hall, hgrown⟩ := (holds_empty hfirst).insertAll (List.cons_ne_nil _ _)
      (insertAll_scopes_ok h)
    cases Except.ok.inj (hall.symm.trans h)
    exact hgrown

theorem Holds.rangeOf? {g : ScopeMap} {ranges : List SourceRange} (holds : g.Holds ranges)
    (i : Nat) : g.rangeOf? i = ranges[i]? := by
  have hplaced : ∀ {e : SourceRange × Nat}, e ∈ g.placed ↔ ranges[e.2]? = some e.1 := by
    intro e
    rw [holds.placed, List.mem_zipIdx_iff_getElem?]
  refine Option.ext fun r => ?_
  rw [rangeOf?_eq_some_iff, hplaced]
  intro a ha b hb hab
  have hsame : some a.1 = some b.1 := by rw [← hplaced.1 ha, ← hplaced.1 hb, hab]
  exact Prod.ext (Option.some.inj hsame) hab

theorem Holds.outward_root {g : ScopeMap} {ranges : List SourceRange} (holds : g.Holds ranges) :
    g.outward root = [root] := by
  apply outward_of_none
  unfold above?
  rw [holds.rootLinks]
  rfl

/-! ## §4. The way outward. -/

section Chain

variable {ε : ℚ} {source : SourceRange} {scopes : List SourceRange} {g : ScopeMap}

/-- **The way outward from a scope** passes through all scopes around it.  The scope right above it
is the narrowest one around it, so the others are those around the one above. -/
theorem Holds.chain (holds : g.Holds (source :: scopes)) (h : OutsideIn ε source scopes)
    (hpos : 0 < ε) (hone : ε < 1) (hnear : ∀ r ∈ source :: scopes, r.Near) (i : Nat)
    (r : SourceRange) (hr : (source :: scopes)[i]? = some r) :
    ScopeChain ε (source :: scopes) (r.interval ε) (g.outward i) := by
  induction i using Nat.strongRecOn generalizing r with
  | ind i ih =>
    by_cases hi : i = root
    · subst hi
      cases hr
      rw [holds.outward_root]
      refine ⟨fun j => ?_, List.pairwise_singleton _ _, rfl⟩
      constructor
      · intro hj
        rw [List.mem_singleton.1 hj]
        exact ⟨source, rfl, subset_rfl⟩
      · rintro ⟨s, hs, hsub⟩
        by_contra hj
        rw [List.mem_singleton] at hj
        have hlt := h.lt_of_subset (i := root) rfl hs (Ne.symm hj) hsub
        exact absurd hlt (Nat.not_lt_zero j)
    · obtain ⟨p, above, hfind, hlt, hp, hsub, hnarrow⟩ := h.enclosing?_narrowest hpos hone hnear
        (Nat.pos_of_ne_zero hi) (hnear r (List.mem_of_getElem? hr)) (h.inside_source hr)
      have habove : g.above? i = some p := by
        unfold above?
        rw [holds.links i r hi hr, hfind]
        rfl
      have hchain := ih p hlt above hp
      -- every other scope around this one came before it, so it is around the scope above
      have hssub : r.interval ε ⊂ above.interval ε :=
        hsub.ssubset_of_ne (h.ne_of_ne hr hp (by omega))
      rw [outward_of_some habove, if_pos hlt]
      refine ⟨fun j => ?_, List.pairwise_cons.2 ⟨fun j hj => ?_, hchain.narrowestFirst⟩, ?_⟩
      · rw [List.mem_cons, hchain.mem_iff j]
        constructor
        · rintro (rfl | ⟨s, hs, hsub'⟩)
          · exact ⟨r, hr, subset_rfl⟩
          · exact ⟨s, hs, hsub.trans hsub'⟩
        · rintro ⟨s, hs, hsub'⟩
          by_cases hj : j = i
          · exact Or.inl hj
          · have hji := h.lt_of_subset hr hs (Ne.symm hj) hsub'
            exact Or.inr ⟨s, hs, hnarrow j s hji hs hsub'⟩
      · obtain ⟨s, hs, hsub'⟩ := (hchain.mem_iff j).1 hj
        exact ⟨r, s, hr, hs, hssub.trans_subset hsub'⟩
      · rw [List.getLast?_cons, hchain.endsAtFirst]
        rfl

/-- The way outward from the scope found for a range passes through all scopes around it. -/
theorem Holds.chain_scopeAt (holds : g.Holds (source :: scopes)) (h : OutsideIn ε source scopes)
    (hpos : 0 < ε) (hone : ε < 1) (hnear : ∀ r ∈ source :: scopes, r.Near) {q : SourceRange}
    (hq : q.Near) (hinside : q.interval ε ⊆ source.interval ε) :
    ∃ s : Nat, g.smallestAround q none = .ok s ∧
      ScopeChain ε (source :: scopes) (q.interval ε) (g.outward s) := by
  have hk : 0 < (source :: scopes).length := Nat.zero_lt_succ _
  obtain ⟨s, found, hfind, -, hs, hsub, hnarrow⟩ :=
    h.enclosing?_narrowest hpos hone hnear hk hq hinside
  rw [List.take_length, ← holds.placed] at hfind
  refine ⟨s, ?_, ?_⟩
  · rw [smallestAround_of_measure g hq.measure_ok, scopeAt, hfind]
    rfl
  · refine (holds.chain h hpos hone hnear s found hs).congr fun j r hr => ?_
    constructor
    · exact fun hfound => hsub.trans hfound
    · exact fun hr' => hnarrow j r (List.getElem?_eq_some_iff.1 hr).1 hr hr'

end Chain

/-! ## §5. The rows where scopes are lost. -/

/-- The scope found for the range has all scopes around the range on its way outward. -/
def FindsChain (ε : ℚ) (source : SourceRange) (scopes : List SourceRange) (q : SourceRange) :
    Prop :=
  ∃ g, ∃ s : Nat, ofScopes source scopes = .ok g ∧ g.smallestAround q none = .ok s ∧
    ScopeChain ε (source :: scopes) (q.interval ε) (g.outward s)

/-- There are scopes from the outside in, and a range in their source, for which the way outward is
not the right one, and no range among them lies within one row but in the given row. -/
def LosesScopes (ε : ℚ) (row : Int) : Prop :=
  ∃ source scopes q, OutsideIn ε source scopes ∧ q.startRow ≤ q.stopRow ∧
    q.interval ε ⊆ source.interval ε ∧
    (∀ r ∈ q :: source :: scopes, r.startRow = r.stopRow → r.startRow = row) ∧
    ¬ FindsChain ε source scopes q

/-- Where the tenth of a row is lost downward, only the whole source is found for a range within
the row. -/
theorem not_findsChain_of_lost {ε : ℚ} (hpos : 0 < ε) (hone : ε < 1) {row : Int}
    (h : RowSpan.widenedEnd row ≤ row * RowSpan.grains) :
    ¬ FindsChain ε (.ofRows (row - 1) (row + 1)) [.ofRows row (row + 1)] (.ofRows row row) := by
  rintro ⟨g, s, hg, hs, hchain⟩
  have hroot : s = root := by
    have hat := smallestAround_ok hs
    rw [scopeAt, RowStore.enclosing?_of_lost h] at hat
    exact Int.ofNat.inj hat
  have haround : (SourceRange.ofRows row (row + 1)).isAround (.ofRows row row) = true := by
    simp [SourceRange.isAround_iff, SourceRange.ofRows]
  have hmem := (hchain.mem_iff 1).2 ⟨_, rfl, (SourceRange.interval_subset_iff hpos hone
    (SourceRange.near_ofRows (by omega)).forward (Int.le_refl row)).2 haround⟩
  rw [hroot, (holds_of_ofScopes hg).outward_root] at hmem
  cases List.mem_singleton.1 hmem

/-- Where it is lost upward, a scope within the row is found for two rows. -/
theorem not_findsChain_of_moved {ε : ℚ} (hpos : 0 < ε) (hone : ε < 1) {row : Int}
    (hend : RowSpan.widenedEnd row = keepDigits (row * RowSpan.grains))
    (h : (row + 1) * RowSpan.grains ≤ RowSpan.widenedEnd row) :
    ¬ FindsChain ε (.ofRows (row - 1) (row + 2)) [.ofRows row row] (.ofRows row (row + 1)) := by
  rintro ⟨g, s, hg, hs, hchain⟩
  have hplaced : g.placed = [(.ofRows (row - 1) (row + 2), 0), (.ofRows row row, 1)] :=
    (holds_of_ofScopes hg).placed
  have hscope : s = 1 := by
    have hat := smallestAround_ok hs
    rw [scopeAt, hplaced, RowStore.enclosing?_of_moved hend h] at hat
    exact Int.ofNat.inj hat
  obtain ⟨r, hr, hsub⟩ := (hchain.mem_iff s).1 (by unfold outward; exact List.mem_cons_self)
  rw [hscope] at hr
  cases hr
  rw [SourceRange.interval_subset_iff hpos hone (Int.le_refl row)
    (SourceRange.near_ofRows (by omega)).forward, SourceRange.isAround_iff] at hsub
  simp [SourceRange.ofRows] at hsub

/-- In each of the far rows a tenth of a row is lost, one way or the other, and scopes with it. -/
theorem losesScopes_of_far {ε : ℚ} (hpos : 0 < ε) (hone : ε < 1) {row : Int}
    (h : row < -2 ^ 50 ∨ 2 ^ 50 ≤ row) : LosesScopes ε row := by
  obtain hlost | ⟨hend, hmoved⟩ := RowSpan.widenedEnd_far_cases h
  · refine ⟨.ofRows (row - 1) (row + 1), [.ofRows row (row + 1)], .ofRows row row,
      outsideIn_of_isOutsideIn hpos hone ?_, Int.le_refl row,
      (SourceRange.interval_subset_iff hpos hone ?_ (Int.le_refl row)).2 ?_, ?_,
      not_findsChain_of_lost hpos hone hlost⟩
    · simp [isOutsideIn, SourceRange.isAround, SourceRange.containsRows, SourceRange.cutsOff,
        SourceRange.ofRows]
      omega
    · exact (SourceRange.near_ofRows (by omega)).forward
    · simp [SourceRange.isAround_iff, SourceRange.ofRows]
    · simp [SourceRange.ofRows]
      omega
  · refine ⟨.ofRows (row - 1) (row + 2), [.ofRows row row], .ofRows row (row + 1),
      outsideIn_of_isOutsideIn hpos hone ?_, (SourceRange.near_ofRows (by omega)).forward,
      (SourceRange.interval_subset_iff hpos hone ?_ ?_).2 ?_, ?_,
      not_findsChain_of_moved hpos hone hend hmoved⟩
    · simp [isOutsideIn, SourceRange.isAround, SourceRange.containsRows, SourceRange.cutsOff,
        SourceRange.ofRows]
      omega
    · exact (SourceRange.near_ofRows (by omega)).forward
    · exact (SourceRange.near_ofRows (by omega)).forward
    · simp [SourceRange.isAround_iff, SourceRange.ofRows]
    · simp [SourceRange.ofRows]
      omega

/-! ## §6. The rows of a syntax tree. -/

/-- If all ranges within one row lie in the near rows, the map has all the scopes under their numbers,
and the ways outward are those of the nesting. -/
theorem outward_of_near {ε : ℚ} (hpos : 0 < ε) (hone : ε < 1) {source : SourceRange}
    {scopes : List SourceRange} (h : OutsideIn ε source scopes)
    (hnear : ∀ r ∈ source :: scopes, r.Near) :
    ∃ g, ofScopes source scopes = .ok g ∧ (∀ i, g.rangeOf? i = (source :: scopes)[i]?) ∧
      (∀ q : SourceRange, q.Near → q.interval ε ⊆ source.interval ε →
        ∃ s : Nat, g.smallestAround q none = .ok s ∧
          ScopeChain ε (source :: scopes) (q.interval ε) (g.outward s)) ∧
      ∀ i r, (source :: scopes)[i]? = some r →
        ScopeChain ε (source :: scopes) (r.interval ε) (g.outward i) := by
  obtain ⟨g, hg, holds⟩ := ofScopes_holds fun r hr =>
    ⟨(hnear r hr).measure_ok, (hnear r hr).not_isEmpty⟩
  exact ⟨g, hg, holds.rangeOf?, fun q hq hin => holds.chain_scopeAt h hpos hone hnear hq hin,
    holds.chain h hpos hone hnear⟩

/-- **Lexical scoping.**  For scopes from the outside in, within a source whose rows are those of a
syntax tree, the map has all the scopes under their numbers, the way outward from the scope found for
a range passes exactly through the scopes around the range, from the narrowest to the whole source,
and the way outward from a scope exactly through those around the scope. -/
theorem outward_exact {ε : ℚ} (hpos : 0 < ε) (hone : ε < 1) {source : SourceRange}
    {scopes : List SourceRange} (h : OutsideIn ε source scopes) (hfirst : 0 ≤ source.startRow)
    (hlast : source.stopRow < 2 ^ 32) :
    ∃ g, ofScopes source scopes = .ok g ∧ (∀ i, g.rangeOf? i = (source :: scopes)[i]?) ∧
      (∀ q : SourceRange, q.startRow ≤ q.stopRow → q.interval ε ⊆ source.interval ε →
        ∃ s : Nat, g.smallestAround q none = .ok s ∧
          ScopeChain ε (source :: scopes) (q.interval ε) (g.outward s)) ∧
      ∀ i r, (source :: scopes)[i]? = some r →
        ScopeChain ε (source :: scopes) (r.interval ε) (g.outward i) := by
  have hsource : source.startRow ≤ source.stopRow := h.forward source List.mem_cons_self
  have hnear : ∀ r ∈ source :: scopes, r.Near := by
    intro r hr
    obtain ⟨i, hi⟩ := List.mem_iff_getElem?.1 hr
    exact SourceRange.near_of_inside hpos hone hsource hfirst hlast (h.forward r hr)
      (h.inside_source hi)
  obtain ⟨g, hg, hranges, hqueries, hscopes⟩ := outward_of_near hpos hone h hnear
  refine ⟨g, hg, hranges, ?_, hscopes⟩
  intro q hq hinside
  exact hqueries q (SourceRange.near_of_inside hpos hone hsource hfirst hlast hq hinside) hinside

/-- A scope within one row that begins where the scope before it ends, and a range in the last row of
a scope that ends there, in the last rows that there are. -/
theorem outward_exact_touching :
    ∃ g, ofScopes (.ofRows 0 4294967295)
        [.ofRows 1 4294967294, .ofRows 2 4, .ofRows 4 4] = .ok g ∧
      ScopeChain (1 / 10)
        [.ofRows 0 4294967295, .ofRows 1 4294967294, .ofRows 2 4, .ofRows 4 4]
        ((SourceRange.ofRows 4 4).interval (1 / 10)) (g.outward 3) ∧
      ∃ s : Nat, g.smallestAround (.ofRows 4294967294 4294967294) none = .ok s ∧
        ScopeChain (1 / 10)
          [.ofRows 0 4294967295, .ofRows 1 4294967294, .ofRows 2 4, .ofRows 4 4]
          ((SourceRange.ofRows 4294967294 4294967294).interval (1 / 10)) (g.outward s) := by
  have hpos : (0 : ℚ) < 1 / 10 := by norm_num
  have hone : (1 / 10 : ℚ) < 1 := by norm_num
  have houter : OutsideIn (1 / 10) (.ofRows 0 4294967295)
      [.ofRows 1 4294967294, .ofRows 2 4, .ofRows 4 4] :=
    outsideIn_of_isOutsideIn hpos hone (by decide)
  obtain ⟨g, hg, -, hqueries, hscopes⟩ := outward_exact hpos hone houter (by decide) (by decide)
  refine ⟨g, hg, hscopes 3 _ rfl, hqueries _ (Int.le_refl _) ?_⟩
  rw [SourceRange.interval_subset_iff hpos hone (by decide) (Int.le_refl _)]
  decide

end ScopeMap

end CodeAtlas
