import CodeAtlas.Proofs.Scope.Growth
import Mathlib.Data.List.Nodup

/-!
# The smallest scope that holds the rows of a range

By rows, the last row belongs to a range.  By its interval, the last of several rows does not: it
is cut off.  So the scope that is found for a range always holds its rows, but it need not be the
smallest one that does: a scope that ends in the row of the range is passed over, and the answer is
the smallest of the others, or the whole source.

Main results:
  * `ScopeMap.placed_of_reachable`: what is placed in a map;
  * `ScopeMap.scopeAt_cases`: the scope that is found, by rows;
  * `ScopeMap.findsSmallest_exactly`: when it is the smallest one, and the rows where this fails
    for want of digits.
-/

namespace CodeAtlas.ScopeMap

/-! ## §1. What is placed. -/

/-- The whole source is placed, and besides it only scopes that were allowed. -/
theorem placed_of_reachable {allowed : Insertion → Prop} {source : SourceRange} {g : ScopeMap}
    (h : Reachable allowed source g) :
    (source, root) ∈ g.placed ∧ ∀ e ∈ g.placed, e.1 = source ∨ allowed (.scope e.1) := by
  induction h with
  | start h =>
    obtain ⟨-, rfl⟩ := empty_ok h
    refine ⟨List.mem_singleton_self _, fun e he => Or.inl ?_⟩
    rw [List.mem_singleton.1 he]
  | insert new hreach hallowed ih =>
    obtain ⟨hroot, hplaced⟩ := ih
    obtain hsame | ⟨node, -, -, hkept | ⟨⟨hnew, -⟩, -, hmore⟩⟩ :=
      insert_step (wired_of_reachable hreach) new
    · rw [hsame]
      exact ⟨hroot, hplaced⟩
    · rw [hkept]
      exact ⟨hroot, hplaced⟩
    · rw [hmore]
      refine ⟨List.mem_append_left _ hroot, fun e he => ?_⟩
      obtain hold | hlast := List.mem_append.1 he
      · exact hplaced e hold
      · rw [List.mem_singleton.1 hlast, ← hnew]
        exact Or.inr hallowed

/-- The recorded ranges are those that were placed. -/
theorem Wired.rangeOf?_iff {g : ScopeMap} (wired : g.Wired) {i : Nat} {range : SourceRange} :
    g.rangeOf? i = some range ↔ (range, i) ∈ g.placed := by
  have hdistinct : (g.placed.map (·.2)).Nodup :=
    List.pairwise_map.2 (wired.placedInOrder.imp fun hlt => Nat.ne_of_lt hlt)
  exact rangeOf?_eq_some_iff fun a ha b hb => List.inj_on_of_nodup_map hdistinct ha hb

/-! ## §2. What is found. -/

/-- Scopes that go forward, those within one row in the near rows; anything else is free. -/
def NearScope : Insertion → Prop
  | .scope range => range.Near
  | _ => True

/-- The scope found for a range holds it and has the fewest rows of all that are around it, or no
scope is around it and the whole source is found. -/
theorem scopeAt_cases {source : SourceRange} {g : ScopeMap} (h : Reachable NearScope source g)
    (hsource : source.Near) {q : SourceRange} (hq : q.Near)
    (hin : source.containsRows q = true) :
    ∃ found, g.rangeOf? (g.scopeAt q) = some found ∧ found.containsRows q = true ∧
      ((found.isAround q = true ∧
          ∀ i r, g.rangeOf? i = some r → r.isAround q = true → found.height ≤ r.height) ∨
        (found = source ∧ ∀ i r, g.rangeOf? i = some r → r.isAround q = false)) := by
  have wired := wired_of_reachable h
  obtain ⟨hroot, hplaced⟩ := placed_of_reachable h
  have hnear : ∀ e ∈ g.placed, e.1.Near := by
    intro e he
    obtain heq | hallowed := hplaced e he
    · rw [heq]
      exact hsource
    · exact hallowed
  have haround : ∀ {i r}, g.rangeOf? i = some r →
      (r, i) ∈ g.placed ∧ r.rows.encloses q.rows = r.isAround q := by
    intro i r hr
    have hmem := wired.rangeOf?_iff.1 hr
    exact ⟨hmem, SourceRange.encloses_eq_isAround (hnear _ hmem) hq⟩
  unfold scopeAt
  -- an answer of the store is around the range; no answer means the whole source
  cases hfind : g.placed.enclosing? q with
  | none =>
    refine ⟨source, wired.rangeOf?_iff.2 hroot, hin, Or.inr ⟨rfl, fun i r hr => ?_⟩⟩
    obtain ⟨hmem, heq⟩ := haround hr
    rw [← heq]
    exact RowStore.enclosing?_none hq.not_isEmpty hfind _ hmem
  | some p =>
    obtain ⟨found, hmem, hencloses, hshortest⟩ := RowStore.enclosing?_some hfind
    have hrange : g.rangeOf? p = some found := wired.rangeOf?_iff.2 hmem
    have hfound : found.isAround q = true := (haround hrange).2 ▸ hencloses
    refine ⟨found, hrange, (Bool.and_eq_true_iff.1 hfound).1,
      Or.inl ⟨hfound, fun i r hr hr' => ?_⟩⟩
    obtain ⟨hrmem, heq⟩ := haround hr
    rw [← heq] at hr'
    exact SourceRange.height_le_of_length_le (hnear _ hrmem) (hshortest _ hrmem hr')

/-! ## §3. When it is the smallest. -/

/-- The question for the range is answered with a scope that holds its rows, and no scope that does
has fewer. -/
def FindsSmallest (g : ScopeMap) (q : SourceRange) : Prop :=
  ∃ (s : Nat) (found : SourceRange), g.smallestAround q none = .ok s ∧
    g.rangeOf? s = some found ∧ found.containsRows q = true ∧
    ∀ i r, g.rangeOf? i = some r → r.containsRows q = true → found.height ≤ r.height

/-- Each scope that cuts off the range has no fewer rows than some scope around the range, or than
the whole source if there is none. -/
def CutOffLarger (g : ScopeMap) (source q : SourceRange) : Prop :=
  ∀ i r, g.rangeOf? i = some r → r.cutsOff q = true →
    (∃ j t, g.rangeOf? j = some t ∧ t.isAround q = true ∧ t.height ≤ r.height) ∨
      (∀ j t, g.rangeOf? j = some t → t.isAround q = false) ∧ source.height ≤ r.height

theorem containsRows_of_cutsOff {outer inner : SourceRange} (h : outer.cutsOff inner = true) :
    outer.containsRows inner = true := by
  unfold SourceRange.cutsOff at h
  unfold SourceRange.containsRows
  simp only [Bool.and_eq_true, decide_eq_true_eq] at h ⊢
  omega

/-- In the near rows, the scope that is found is the smallest one exactly if no smaller scope cuts
off the range. -/
theorem findsSmallest_iff {source : SourceRange} {g : ScopeMap} (h : Reachable NearScope source g)
    (hsource : source.Near) {q : SourceRange} (hq : q.Near)
    (hin : source.containsRows q = true) : g.FindsSmallest q ↔ g.CutOffLarger source q := by
  obtain ⟨found, hrange, hfound, hcases⟩ := scopeAt_cases h hsource hq hin
  constructor
  · rintro ⟨s, found', hs, hrange', -, hleast⟩ i r hr hcut
    have hle := hleast i r hr (containsRows_of_cutsOff hcut)
    rw [Int.ofNat.inj (smallestAround_ok hs), hrange] at hrange'
    cases hrange'
    obtain ⟨haround, -⟩ | ⟨rfl, hnone⟩ := hcases
    · exact Or.inl ⟨_, found, hrange, haround, hle⟩
    · exact Or.inr ⟨hnone, hle⟩
  · intro hcut
    refine ⟨g.scopeAt q, found, smallestAround_of_measure g hq.measure_ok, hrange, hfound, ?_⟩
    intro i r hr hcontains
    -- a scope that holds the rows is around the range or cuts it off
    cases hoff : r.cutsOff q with
    | false =>
      have haround : r.isAround q = true := by
        unfold SourceRange.isAround
        rw [hcontains, hoff]
        rfl
      obtain ⟨-, hmin⟩ | ⟨-, hnone⟩ := hcases
      · exact hmin i r hr haround
      · rw [hnone i r hr] at haround
        cases haround
    | true =>
      obtain ⟨j, t, ht, haround, hle⟩ | ⟨hnone, hle⟩ := hcut i r hr hoff
      · obtain ⟨-, hmin⟩ | ⟨-, hnone⟩ := hcases
        · exact Int.le_trans (hmin j t ht haround) hle
        · rw [hnone j t ht] at haround
          cases haround
      · obtain ⟨haround, -⟩ | ⟨rfl, -⟩ := hcases
        · rw [hnone _ found hrange] at haround
          cases haround
        · exact hle

/-! ## §4. Far rows. -/

/-- The range goes forward, and if it lies within one row, this is the given row. -/
def SingleRowIn (row : Int) (range : SourceRange) : Prop :=
  range.startRow ≤ range.stopRow ∧ (range.startRow = range.stopRow → range.startRow = row)

/-- Scopes that go forward, those within one row in the given row, and nothing else. -/
def ScopeIn (row : Int) : Insertion → Prop
  | .scope range => SingleRowIn row range
  | _ => False

/-- There are such scopes, and such a range in the rows of their source, for which the smallest
scope is not found. -/
def MissesSmallest (row : Int) : Prop :=
  ∃ source g q, Reachable (ScopeIn row) source g ∧ SingleRowIn row source ∧ SingleRowIn row q ∧
    source.containsRows q = true ∧ ¬ g.FindsSmallest q

theorem singleRowIn_ofRows {first last : Int} (h : first < last) (row : Int) :
    SingleRowIn row (.ofRows first last) :=
  ⟨Int.le_of_lt h, fun heq => absurd heq (Int.ne_of_lt h)⟩

theorem singleRowIn_self (row : Int) : SingleRowIn row (.ofRows row row) :=
  ⟨Int.le_refl row, fun _ => rfl⟩

/-- A source and one scope in it. -/
theorem exists_reachable_pair {row : Int} {source r : SourceRange} (hsource : source.Near)
    (hr : SingleRowIn row r) (hmeasure : r.rows.measure = .ok ())
    (hempty : r.rows.isEmpty = false) :
    ∃ g, Reachable (ScopeIn row) source g ∧ g.placed = [(source, 0), (r, 1)] := by
  have hstart := empty_of_rows hsource.measure_ok hsource.not_isEmpty
  refine ⟨_, (Reachable.start hstart).insert (.scope r) hr, ?_⟩
  rw [insert_scope hmeasure hempty]
  rfl

/-- Where the tenth of a row is lost downward, the whole source is found for a range within the row
instead of a scope of two rows. -/
theorem missesSmallest_of_lost {row : Int}
    (h : RowSpan.widenedEnd row ≤ row * RowSpan.grains) : MissesSmallest row := by
  have hscope : (SourceRange.ofRows row (row + 1)).Near := SourceRange.near_ofRows (by omega)
  obtain ⟨g, hreach, hplaced⟩ := exists_reachable_pair
    (SourceRange.near_ofRows (show row - 1 < row + 1 by omega))
    (singleRowIn_ofRows (show row < row + 1 by omega) row) hscope.measure_ok hscope.not_isEmpty
  refine ⟨_, g, .ofRows row row, hreach, singleRowIn_ofRows (by omega) row, singleRowIn_self row,
    by simp [SourceRange.containsRows, SourceRange.ofRows], ?_⟩
  rintro ⟨s, found, hs, hrange, -, hleast⟩
  have hat := smallestAround_ok hs
  rw [scopeAt, RowStore.enclosing?_of_lost h] at hat
  rw [Int.ofNat.inj hat, rangeOf?, hplaced] at hrange
  cases hrange
  have hle := hleast 1 (.ofRows row (row + 1)) (by rw [rangeOf?, hplaced]; rfl)
    (by simp [SourceRange.containsRows, SourceRange.ofRows])
  simp [SourceRange.height, SourceRange.ofRows] at hle

/-- Where it is lost upward, a scope of one row is found for two rows; a row that cannot be measured
at all is no question. -/
theorem missesSmallest_of_moved {row : Int}
    (hend : RowSpan.widenedEnd row = keepDigits (row * RowSpan.grains))
    (h : (row + 1) * RowSpan.grains ≤ RowSpan.widenedEnd row) : MissesSmallest row := by
  have hsource : (SourceRange.ofRows (row - 1) (row + 2)).Near :=
    SourceRange.near_ofRows (by omega)
  -- beyond what floating point can reach, the source alone and a range within the row will do
  cases hmeasure : (SourceRange.ofRows row row).rows.measure with
  | error e =>
    refine ⟨_, _, .ofRows row row, .start (empty_of_rows hsource.measure_ok hsource.not_isEmpty),
      singleRowIn_ofRows (by omega) row, singleRowIn_self row, ?_, ?_⟩
    · simp [SourceRange.containsRows, SourceRange.ofRows]
    · rintro ⟨s, found, hs, -⟩
      unfold smallestAround at hs
      rw [hmeasure] at hs
      cases hs
  | ok _ =>
    have hempty : (SourceRange.ofRows row row).rows.isEmpty = false := by
      have hhigh : (SourceRange.ofRows row row).rows.high = RowSpan.widenedEnd row := if_pos rfl
      unfold RowSpan.isEmpty
      rw [decide_eq_false_iff_not, hhigh, SourceRange.low_rows]
      rw [RowSpan.grains_eq] at *
      simp only [SourceRange.ofRows]
      omega
    obtain ⟨g, hreach, hplaced⟩ := exists_reachable_pair hsource (singleRowIn_self row) hmeasure
      hempty
    refine ⟨_, g, .ofRows row (row + 1), hreach, singleRowIn_ofRows (by omega) row,
      singleRowIn_ofRows (by omega) row, ?_, ?_⟩
    · simp [SourceRange.containsRows, SourceRange.ofRows]
    · rintro ⟨s, found, hs, hrange, hcontains, -⟩
      have hat := smallestAround_ok hs
      rw [scopeAt, hplaced, RowStore.enclosing?_of_moved hend h] at hat
      rw [Int.ofNat.inj hat, rangeOf?, hplaced] at hrange
      cases hrange
      simp [SourceRange.containsRows, SourceRange.ofRows] at hcontains

/-- **The smallest scope.**  If the scopes and the range within one row lie in the near rows, a
question about a range in the rows of the source is answered with a scope that holds its rows, and
this is the smallest such scope exactly if no smaller one cuts off the range.  In each other row
there are scopes of which the smallest is missed. -/
theorem findsSmallest_exactly {source : SourceRange} {g : ScopeMap}
    (h : Reachable NearScope source g) (hsource : source.Near) {q : SourceRange} (hq : q.Near)
    (hin : source.containsRows q = true) :
    (∃ (s : Nat) (found : SourceRange), g.smallestAround q none = .ok s ∧
      g.rangeOf? s = some found ∧ found.containsRows q = true) ∧
    (g.FindsSmallest q ↔ g.CutOffLarger source q) ∧
    ∀ row : Int, row < -2 ^ 50 ∨ 2 ^ 50 ≤ row → MissesSmallest row := by
  refine ⟨?_, findsSmallest_iff h hsource hq hin, ?_⟩
  · obtain ⟨found, hrange, hfound, -⟩ := scopeAt_cases h hsource hq hin
    exact ⟨g.scopeAt q, found, smallestAround_of_measure g hq.measure_ok, hrange, hfound⟩
  · intro row hrow
    obtain hlost | ⟨hend, hmoved⟩ := RowSpan.widenedEnd_far_cases hrow
    · exact missesSmallest_of_lost hlost
    · exact missesSmallest_of_moved hend hmoved

/-- A source of six rows with a scope in its second to fourth row. -/
def oneScope : ScopeMap :=
  [Insertion.scope (.ofRows 1 3)].foldl (fun g new => (g.insert new).2)
    { nodes := #[{ range := .ofRows 0 5, item := .scope }], placed := [(.ofRows 0 5, root)] }

/-- In the second row of the scope the smallest scope is found, in its last row it is not. -/
theorem findsSmallest_exactly_lastRow :
    oneScope.FindsSmallest (.ofRows 2 2) ∧ ¬ oneScope.FindsSmallest (.ofRows 3 3) := by
  have hreachable : Reachable NearScope (.ofRows 0 5) oneScope := by
    refine (Reachable.start (by rfl)).insertAll _ fun new hnew => ?_
    rw [List.mem_singleton.1 hnew]
    exact SourceRange.near_ofRows (by decide)
  have hplaced : oneScope.placed = [(.ofRows 0 5, 0), (.ofRows 1 3, 1)] := by decide +kernel
  have hranges : ∀ i r, oneScope.rangeOf? i = some r → r = .ofRows 0 5 ∨ r = .ofRows 1 3 := by
    intro i r hr
    have hmem := (wired_of_reachable hreachable).rangeOf?_iff.1 hr
    rw [hplaced, List.mem_cons, List.mem_singleton] at hmem
    exact hmem.imp (congrArg Prod.fst) (congrArg Prod.fst)
  have hsource : (SourceRange.ofRows 0 5).Near := SourceRange.near_ofRows (by decide)
  constructor
  · refine (findsSmallest_exactly hreachable hsource (by decide) (by decide)).2.1.2 ?_
    intro i r hr hcut
    obtain rfl | rfl := hranges i r hr <;> cases hcut
  · intro hfinds
    obtain ⟨-, hexact, -⟩ := findsSmallest_exactly hreachable hsource
      (show (SourceRange.ofRows 3 3).Near by decide) (by decide)
    obtain ⟨j, t, ht, haround, hle⟩ | ⟨hnone, -⟩ :=
      hexact.1 hfinds 1 (.ofRows 1 3) (by decide +kernel) (by decide)
    · obtain rfl | rfl := hranges j t ht
      · exact absurd hle (by decide)
      · cases haround
    · exact absurd (hnone 0 (.ofRows 0 5) (by decide +kernel)) (by decide)

end CodeAtlas.ScopeMap
