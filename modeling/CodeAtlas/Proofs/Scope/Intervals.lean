import CodeAtlas.Proofs.Scope.Rounding

/-!
# Which range a store of rows finds

A store answers with the shortest of its ranges around a given one.  Around a range in the near
rows these are the ranges that hold its rows, except the ones that it ends: a range of several rows
is half-open, so that its last row is cut off from it and a range within that row is not found in
it.  Of two ranges the shorter one, as it is measured, never has more rows.

Main results:
  * `SourceRange.encloses_eq_isAround`: enclosing is holding the rows, without the row that is cut off;
  * `SourceRange.height_le_of_length_le`: lengths are in the order of the numbers of rows;
  * `RowStore.enclosing?_some`, `RowStore.enclosing?_none`: what the store answers;
  * `RowStore.enclosing?_of_lost`, `RowStore.enclosing?_of_moved`: what it answers in far rows.
-/

namespace CodeAtlas

namespace SourceRange

/-! ## §1. Near ranges. -/

/-- The range goes forward, and if it lies within one row, this row is near enough for the tenth of
a row by which the range is widened. -/
structure Near (range : SourceRange) : Prop where
  forward : range.startRow ≤ range.stopRow
  oneRow : range.startRow = range.stopRow →
    -2 ^ 50 ≤ range.startRow ∧ range.startRow < 2 ^ 50

instance (range : SourceRange) : Decidable range.Near :=
  decidable_of_iff
    (range.startRow ≤ range.stopRow ∧ (range.startRow = range.stopRow →
      -2 ^ 50 ≤ range.startRow ∧ range.startRow < 2 ^ 50))
    ⟨fun h => ⟨h.1, h.2⟩, fun h => ⟨h.forward, h.oneRow⟩⟩

/-- A range of several rows is near wherever it is. -/
theorem near_ofRows {first last : Int} (h : first < last) : (ofRows first last).Near :=
  ⟨Int.le_of_lt h, fun heq => absurd heq (Int.ne_of_lt h)⟩

/-- How far the last row is from the first. -/
def height (range : SourceRange) : Int :=
  range.stopRow - range.startRow

/-- Is the other range within the last row of this one, which has further rows? -/
def cutsOff (outer inner : SourceRange) : Bool :=
  outer.startRow < outer.stopRow && inner.startRow = outer.stopRow && inner.stopRow = outer.stopRow

/-- Does the range hold the rows of the other, not counting a last row that is cut off? -/
def isAround (outer inner : SourceRange) : Bool :=
  outer.containsRows inner && !outer.cutsOff inner

theorem isAround_iff {outer inner : SourceRange} :
    outer.isAround inner = true ↔
      (outer.startRow ≤ inner.startRow ∧ inner.stopRow ≤ outer.stopRow) ∧
        ¬ (outer.startRow < outer.stopRow ∧ inner.startRow = outer.stopRow ∧
          inner.stopRow = outer.stopRow) := by
  unfold isAround containsRows cutsOff
  simp only [Bool.and_eq_true, decide_eq_true_eq, Bool.not_eq_true', Bool.and_eq_false_iff,
    decide_eq_false_iff_not]
  tauto

theorem low_rows (range : SourceRange) :
    range.rows.low = range.startRow * RowSpan.grains := rfl

/-- Where a range of several rows ends, and how long it is. -/
theorem high_of_rows {range : SourceRange} (h : range.startRow ≠ range.stopRow) :
    range.rows.high = range.stopRow * RowSpan.grains ∧
      range.rows.length = range.height * RowSpan.grains := by
  have hhigh : range.rows.high = range.stopRow * RowSpan.grains := by
    unfold RowSpan.high
    exact if_neg h
  have hlength : range.rows.length = range.rows.high - range.rows.low := by
    unfold RowSpan.length
    exact if_neg h
  refine ⟨hhigh, ?_⟩
  rw [hlength, hhigh, low_rows, height, Int.sub_mul]

/-- Where a range within one row ends, and how long it is. -/
theorem Near.high_of_row {range : SourceRange} (near : range.Near)
    (h : range.startRow = range.stopRow) :
    range.startRow * RowSpan.grains < range.rows.high ∧
      range.rows.high < (range.startRow + 1) * RowSpan.grains ∧
      0 < range.rows.length ∧ range.rows.length < RowSpan.grains := by
  obtain ⟨hlow, hhigh⟩ := near.oneRow h
  have hrows : range.rows = ⟨range.startRow, range.startRow⟩ := by
    unfold rows
    rw [← h]
  have hend : range.rows.high = RowSpan.widenedEnd range.startRow := by
    unfold RowSpan.high
    exact if_pos h
  rw [hend, hrows]
  exact RowSpan.widenedEnd_near hlow hhigh

theorem Near.not_isEmpty {range : SourceRange} (near : range.Near) :
    range.rows.isEmpty = false := by
  have hforward := near.forward
  unfold RowSpan.isEmpty
  rw [decide_eq_false_iff_not, low_rows]
  by_cases h : range.startRow = range.stopRow
  · have := near.high_of_row h
    omega
  · rw [(high_of_rows h).1, RowSpan.grains_eq]
    omega

theorem Near.measure_ok {range : SourceRange} (near : range.Near) :
    range.rows.measure = .ok () := by
  have hmeasurable : range.rows.isMeasurable = true := by
    unfold RowSpan.isMeasurable
    rw [Bool.or_eq_true, decide_eq_true_iff, decide_eq_true_iff]
    by_cases h : range.startRow = range.stopRow
    · right
      have := near.oneRow h
      have hsize : range.startRow.natAbs < 2 ^ 53 := by omega
      have hkept : keepDigits range.startRow = range.startRow :=
        keepDigits_of_dvd (Int.one_dvd _) (show range.startRow.natAbs < 2 ^ (53 + 0) from hsize)
      have hbound : ∀ k, 53 ≤ k → range.startRow.natAbs < Nat.pow 2 k := fun k hk =>
        Nat.lt_of_lt_of_le hsize (Nat.pow_le_pow_right (by decide) hk)
      rw [show range.rows.first = range.startRow from rfl, hkept]
      exact hbound 1024 (by decide)
    · exact Or.inl h
  unfold RowSpan.measure
  rw [if_pos hmeasurable]

/-! ## §2. Enclosing and lengths. -/

/-- **Enclosing.**  A range encloses another if it holds its rows and does not cut it off. -/
theorem encloses_eq_isAround {outer inner : SourceRange} (ho : outer.Near) (hi : inner.Near) :
    outer.rows.encloses inner.rows = outer.isAround inner := by
  have hof := ho.forward
  have hif := hi.forward
  rw [Bool.eq_iff_iff, isAround_iff]
  unfold RowSpan.encloses
  rw [low_rows, low_rows, Bool.and_eq_true, decide_eq_true_eq, decide_eq_true_eq]
  by_cases hrow : outer.startRow = outer.stopRow
  · have houter := ho.high_of_row hrow
    by_cases hrow' : inner.startRow = inner.stopRow
    · have hinner := hi.high_of_row hrow'
      -- within one row each: they are in the same row or in different ones
      by_cases hsame : inner.startRow = outer.startRow
      · have hrows : inner.rows = outer.rows := by
          unfold rows
          rw [← hrow, ← hrow', hsame]
        rw [hrows, hsame]
        omega
      · rw [RowSpan.grains_eq] at *
        omega
    · rw [(high_of_rows hrow').1]
      rw [RowSpan.grains_eq] at *
      omega
  · rw [(high_of_rows hrow).1]
    by_cases hrow' : inner.startRow = inner.stopRow
    · have hinner := hi.high_of_row hrow'
      rw [RowSpan.grains_eq] at *
      omega
    · rw [(high_of_rows hrow').1]
      rw [RowSpan.grains_eq] at *
      omega

/-- A range that is no longer than another, as it is measured, has no more rows. -/
theorem height_le_of_length_le {a b : SourceRange} (hb : b.Near)
    (h : a.rows.length ≤ b.rows.length) : a.height ≤ b.height := by
  have hb' : 0 ≤ b.height := Int.sub_nonneg_of_le hb.forward
  by_cases hrow : a.startRow = a.stopRow
  · have : a.height = 0 := by
      unfold height
      omega
    omega
  · -- a range within one row is shorter than a row, one of several rows has at least a row
    rw [(high_of_rows hrow).2] at h
    by_cases hrow' : b.startRow = b.stopRow
    · have := hb.high_of_row hrow'
      rw [RowSpan.grains_eq] at *
      omega
    · rw [(high_of_rows hrow').2] at h
      rw [RowSpan.grains_eq] at h
      omega

end SourceRange

/-! ## §3. The shortest range of a store. -/

namespace RowStore

variable {α : Type}

theorem shortest_none {l : List (SourceRange × α)} (h : shortest l = none) : l = [] := by
  cases l with
  | nil => rfl
  | cons e rest =>
    unfold shortest at h
    split at h
    · cases h
    · split at h <;> cases h

/-- The shortest entry is one of the entries, and none is shorter. -/
theorem shortest_some {l : List (SourceRange × α)} {e : SourceRange × α}
    (h : shortest l = some e) : e ∈ l ∧ ∀ f ∈ l, e.1.rows.length ≤ f.1.rows.length := by
  induction l generalizing e with
  | nil => cases h
  | cons first rest ih =>
    unfold shortest at h
    split at h
    case h_1 hnone =>
      cases h
      rw [shortest_none hnone]
      exact ⟨List.mem_singleton_self _, fun f hf => by rw [List.mem_singleton.1 hf]⟩
    case h_2 best hbest =>
      obtain ⟨hmem, hle⟩ := ih hbest
      by_cases hless : best.1.rows.length < first.1.rows.length
      · rw [if_pos hless] at h
        cases h
        refine ⟨List.mem_cons_of_mem _ hmem, ?_⟩
        intro f hf
        obtain rfl | hf := List.mem_cons.1 hf
        · omega
        · exact hle f hf
      · rw [if_neg hless] at h
        cases h
        refine ⟨List.mem_cons_self, ?_⟩
        intro f hf
        obtain rfl | hf := List.mem_cons.1 hf
        · exact Int.le_refl _
        · have := hle f hf
          omega

/-- What is found stands for a range around the given one, and no range around it is shorter. -/
theorem enclosing?_some {store : RowStore α} {range : SourceRange} {value : α}
    (h : store.enclosing? range = some value) :
    ∃ found, (found, value) ∈ store ∧ found.rows.encloses range.rows = true ∧
      ∀ e ∈ store, e.1.rows.encloses range.rows = true → found.rows.length ≤ e.1.rows.length := by
  unfold enclosing? at h
  split at h
  · cases h
  · obtain ⟨⟨found, v⟩, hshort, rfl⟩ := Option.map_eq_some_iff.1 h
    obtain ⟨hmem, hle⟩ := shortest_some hshort
    obtain ⟨hstore, hencl⟩ := List.mem_filter.1 hmem
    exact ⟨found, hstore, hencl, fun e he hr => hle e (List.mem_filter.2 ⟨he, hr⟩)⟩

/-- Nothing is found only if no range is around the given one. -/
theorem enclosing?_none {store : RowStore α} {range : SourceRange}
    (hempty : range.rows.isEmpty = false) (h : store.enclosing? range = none) :
    ∀ e ∈ store, e.1.rows.encloses range.rows = false := by
  intro e he
  unfold enclosing? at h
  rw [hempty] at h
  have hnil := shortest_none (Option.map_eq_none_iff.1 h)
  have := List.filter_eq_nil_iff.1 hnil e he
  exact Bool.eq_false_iff.2 this

/-! ## §4. Far rows. -/

/-- Where the tenth of a row is lost downward, a range within the row is empty, and nothing is
found around it. -/
theorem enclosing?_of_lost {row : Int} (h : RowSpan.widenedEnd row ≤ row * RowSpan.grains)
    (store : RowStore α) : store.enclosing? (.ofRows row row) = none := by
  have hempty : (SourceRange.ofRows row row).rows.isEmpty = true := by
    have hhigh : (SourceRange.ofRows row row).rows.high = RowSpan.widenedEnd row := if_pos rfl
    unfold RowSpan.isEmpty
    rw [hhigh]
    exact decide_eq_true h
  unfold enclosing?
  rw [hempty]
  rfl

/-- A range within one row that reaches to the next one is around both rows, and is measured as
nothing at all. -/
theorem encloses_next_row {row : Int}
    (hend : RowSpan.widenedEnd row = keepDigits (row * RowSpan.grains))
    (h : (row + 1) * RowSpan.grains ≤ RowSpan.widenedEnd row) :
    (SourceRange.ofRows row row).rows.encloses (SourceRange.ofRows row (row + 1)).rows = true ∧
      (SourceRange.ofRows row row).rows.length = 0 := by
  have hhigh : (SourceRange.ofRows row row).rows.high = RowSpan.widenedEnd row := if_pos rfl
  have hnext : (SourceRange.ofRows row (row + 1)).rows.high = (row + 1) * RowSpan.grains :=
    if_neg (show ¬ row = row + 1 by omega)
  have hlength : (SourceRange.ofRows row row).rows.length =
    keepDigits ((SourceRange.ofRows row row).rows.high - keepDigits (row * RowSpan.grains)) :=
    if_pos rfl
  constructor
  · unfold RowSpan.encloses
    rw [hhigh, hnext, Bool.and_eq_true]
    exact ⟨decide_eq_true (Int.le_refl _), decide_eq_true h⟩
  · rw [hlength, hhigh, hend, Int.sub_self]
    decide

/-- Where the tenth is lost upward, a range within the row is found around two rows, although
another range is around them too. -/
theorem enclosing?_of_moved {row : Int}
    (hend : RowSpan.widenedEnd row = keepDigits (row * RowSpan.grains))
    (h : (row + 1) * RowSpan.grains ≤ RowSpan.widenedEnd row) (v w : α) :
    enclosing? [(.ofRows (row - 1) (row + 2), v), (.ofRows row row, w)] (.ofRows row (row + 1))
      = some w := by
  obtain ⟨hencloses, hlength⟩ := encloses_next_row hend h
  have hq : (SourceRange.ofRows row (row + 1)).Near := SourceRange.near_ofRows (by omega)
  have hmem : (SourceRange.ofRows row row, w) ∈
      [(SourceRange.ofRows (row - 1) (row + 2), v), (.ofRows row row, w)] := by simp
  cases hfind : enclosing? [(.ofRows (row - 1) (row + 2), v), (.ofRows row row, w)]
      (.ofRows row (row + 1)) with
  | none =>
    have hnone := enclosing?_none hq.not_isEmpty hfind _ hmem
    rw [hencloses] at hnone
    cases hnone
  | some value =>
    obtain ⟨found, hfound, -, hshortest⟩ := enclosing?_some hfind
    rw [List.mem_cons, List.mem_singleton] at hfound
    obtain hfound | hfound := hfound
    · -- the other range has several rows, but this one is measured as nothing at all
      cases hfound
      have hshort := hshortest _ hmem hencloses
      rw [hlength, (SourceRange.high_of_rows (show row - 1 ≠ row + 2 by omega)).2,
        RowSpan.grains_eq] at hshort
      simp [SourceRange.height, SourceRange.ofRows] at hshort
    · cases hfound
      rfl

end RowStore

end CodeAtlas
