import CodeAtlas.Scope.RowSpan
import Mathlib.Algebra.Order.Ring.Int
import Mathlib.Data.Int.Order.Basic
import Mathlib.Tactic.Ring

/-!
# What the widened rows look like

The end of a range within one row is a tenth of a row further on, as far as 53 binary digits can
say.  Between rows `-2 ^ 50` and `2 ^ 50` they can: the end lies strictly between the row and the
next one.  In all other rows the tenth is lost, and the end falls on a border between rows, the
row's own or another one.

Main results:
  * `RowSpan.widenedEnd_near`: in the near rows, the end lies within the row;
  * `RowSpan.widenedEnd_far`: in all others, the end is the row itself as floating point keeps it,
    and lies on a border between rows.
-/

namespace CodeAtlas

/-! ## §1. The nearest multiple. -/

/-- Rounding moves a number by half a unit at most. -/
theorem roundToMultiple_near {unit : Nat} (hunit : 0 < unit) (n : Int) :
    2 * (roundToMultiple unit n - n) ≤ unit ∧ -(unit : Int) ≤ 2 * (roundToMultiple unit n - n) := by
  have hsplit : (unit : Int) * (n / unit) + n % unit = n := Int.mul_ediv_add_emod n unit
  have hrest : n % (unit : Int) < unit := Int.emod_lt_of_pos n (by omega)
  have hnonneg : 0 ≤ n % (unit : Int) := Int.emod_nonneg n (by omega)
  unfold roundToMultiple
  dsimp only
  by_cases hlow : 2 * (n % (unit : Int)) < unit
  · rw [if_pos hlow]
    omega
  · rw [if_neg hlow]
    by_cases hhigh : (unit : Int) < 2 * (n % unit)
    · rw [if_pos hhigh, Int.mul_add]
      omega
    · rw [if_neg hhigh, Int.mul_add]
      -- a tie goes down or up by half a unit, whichever quotient is even
      obtain heven | hodd := Int.emod_two_eq_zero_or_one (n / unit)
      · rw [heven]
        omega
      · rw [hodd]
        omega

theorem dvd_roundToMultiple (unit : Nat) (n : Int) : (unit : Int) ∣ roundToMultiple unit n := by
  unfold roundToMultiple
  dsimp only
  split
  · exact Int.dvd_mul_right _ _
  · split <;> exact Int.dvd_mul_right _ _

/-- A multiple that is less than half a unit away is the nearest one. -/
theorem roundToMultiple_eq {unit : Nat} {n m : Int} (hm : (unit : Int) ∣ m)
    (hlow : -(unit : Int) < 2 * (n - m)) (hhigh : 2 * (n - m) < unit) :
    roundToMultiple unit n = m := by
  have hunit : 0 < unit := by omega
  have hnear := roundToMultiple_near hunit n
  have hdvd : (unit : Int) ∣ roundToMultiple unit n - m :=
    Int.dvd_sub (dvd_roundToMultiple unit n) hm
  have hzero : roundToMultiple unit n - m = 0 :=
    Int.eq_zero_of_abs_lt_dvd hdvd (abs_lt.2 ⟨by omega, by omega⟩)
  omega

/-! ## §2. Keeping 53 digits. -/

theorem keepDigits_def (n : Int) :
    keepDigits n = roundToMultiple (2 ^ (n.natAbs.log2 + 1 - 53)) n := rfl

/-- The unit in which a number of `53 + k` digits is kept. -/
theorem keepDigits_eq {n : Int} {k : Nat} (hlow : 2 ^ (52 + k) ≤ n.natAbs)
    (hhigh : n.natAbs < 2 ^ (53 + k)) : keepDigits n = roundToMultiple (2 ^ k) n := by
  have hne : n.natAbs ≠ 0 := by
    have := Nat.two_pow_pos (52 + k)
    omega
  have hlog : n.natAbs.log2 = 52 + k := by
    have := (Nat.log2_lt hne).2 hhigh
    have := (Nat.le_log2 hne).2 hlow
    omega
  rw [keepDigits_def, hlog, show 52 + k + 1 - 53 = k by omega]

theorem log2_unit_le {n : Int} {k : Nat} (h : n.natAbs < 2 ^ (53 + k)) :
    n.natAbs.log2 + 1 - 53 ≤ k := by
  by_cases hzero : n.natAbs = 0
  · rw [hzero, Nat.log2_zero]
    omega
  · have := (Nat.log2_lt hzero).2 h
    omega

/-- A number of `53 + k` digits moves by half of `2 ^ k` at most. -/
theorem keepDigits_near {n : Int} {k : Nat} (h : n.natAbs < 2 ^ (53 + k)) :
    2 * (keepDigits n - n) ≤ (2 ^ k : Nat) ∧ -((2 ^ k : Nat) : Int) ≤ 2 * (keepDigits n - n) := by
  have hnear := roundToMultiple_near (Nat.two_pow_pos (n.natAbs.log2 + 1 - 53)) n
  have hunit : 2 ^ (n.natAbs.log2 + 1 - 53) ≤ 2 ^ k :=
    Nat.pow_le_pow_right (by decide) (log2_unit_le h)
  rw [keepDigits_def]
  omega

/-- Nothing is lost of a number whose last `k` digits are zero and that has 53 others. -/
theorem keepDigits_of_dvd {n : Int} {k : Nat} (hdvd : ((2 ^ k : Nat) : Int) ∣ n)
    (h : n.natAbs < 2 ^ (53 + k)) : keepDigits n = n := by
  have hunit : ((2 ^ (n.natAbs.log2 + 1 - 53) : Nat) : Int) ∣ n :=
    Int.dvd_trans (Int.natCast_dvd_natCast.2 (Nat.pow_dvd_pow 2 (log2_unit_le h))) hdvd
  have hpos := Nat.two_pow_pos (n.natAbs.log2 + 1 - 53)
  rw [keepDigits_def]
  exact roundToMultiple_eq hunit (by omega) (by omega)

/-- What is left of a number of `53 + k` digits: a multiple of `2 ^ k` of the same size. -/
theorem keepDigits_kept {n : Int} {k : Nat} (hlow : 2 ^ (52 + k) ≤ n.natAbs)
    (hhigh : n.natAbs < 2 ^ (53 + k)) :
    2 ^ k ∣ (keepDigits n).natAbs ∧ 2 ^ (52 + k) ≤ (keepDigits n).natAbs ∧
      (keepDigits n).natAbs ≤ 2 ^ (53 + k) := by
  have hnear := keepDigits_near hhigh
  have hdvd : 2 ^ k ∣ (keepDigits n).natAbs := by
    rw [keepDigits_eq hlow hhigh]
    exact Int.natCast_dvd.1 (dvd_roundToMultiple (2 ^ k) n)
  have hpos := Nat.two_pow_pos k
  refine ⟨hdvd, ?_⟩
  obtain ⟨c, hc⟩ := hdvd
  rw [Nat.pow_add] at hlow hhigh ⊢
  rw [Nat.pow_add 2 53]
  -- a multiple beyond one of the two ends would be a whole unit beyond it
  have hmin : 2 ^ 52 ≤ c := by
    by_contra hless
    have := Nat.mul_le_mul_left (2 ^ k) (show c + 1 ≤ 2 ^ 52 by omega)
    rw [Nat.mul_add] at this
    omega
  have hmax : c ≤ 2 ^ 53 := by
    by_contra hmore
    have := Nat.mul_le_mul_left (2 ^ k) (show 2 ^ 53 + 1 ≤ c by omega)
    rw [Nat.mul_add] at this
    omega
  rw [hc, Nat.mul_comm (2 ^ k)]
  exact ⟨Nat.mul_le_mul_right _ hmin, Nat.mul_le_mul_right _ hmax⟩

/-- What is added to a kept number is lost if it is less than half a unit. -/
theorem keepDigits_add {m d : Int} {k : Nat} (hdvd : 2 ^ k ∣ m.natAbs)
    (hle : m.natAbs ≤ 2 ^ (53 + k)) (hk : 54 ≤ k) (hd : 0 ≤ d) (hsmall : d < 2 ^ 53)
    (hlow : 2 ^ 106 ≤ (m + d).natAbs) : keepDigits (m + d) = m := by
  have hne : (m + d).natAbs ≠ 0 := by omega
  obtain ⟨e, he⟩ : ∃ e, (m + d).natAbs.log2 = 52 + e := by
    have := (Nat.le_log2 hne).2 hlow
    exact ⟨(m + d).natAbs.log2 - 52, by omega⟩
  have hmin : 2 ^ (52 + e) ≤ (m + d).natAbs := (Nat.le_log2 hne).1 (by omega)
  have hmax : (m + d).natAbs < 2 ^ (53 + e) := (Nat.log2_lt hne).1 (by omega)
  have hfar : 54 ≤ e := by
    have := (Nat.le_log2 hne).2 hlow
    omega
  have hunit : 2 ^ 54 ≤ 2 ^ e := Nat.pow_le_pow_right (by decide) hfar
  have hunits : 2 ^ 54 ≤ 2 ^ k := Nat.pow_le_pow_right (by decide) hk
  have hkept : 2 ^ e ∣ m.natAbs := by
    by_cases hek : e ≤ k
    · exact Nat.dvd_trans (Nat.pow_dvd_pow 2 hek) hdvd
    · -- the sum has a digit more than the number, which is then a power of two
      have hgrown : 2 ^ (53 + k) ≤ 2 ^ (52 + e) := Nat.pow_le_pow_right (by decide) (by omega)
      have hpower : m.natAbs = 2 ^ (53 + k) := by
        obtain ⟨c, hc⟩ := hdvd
        rw [Nat.pow_add] at hle hgrown ⊢
        by_contra hother
        have hc' : c + 1 ≤ 2 ^ 53 := by
          by_contra hmore
          have := Nat.mul_le_mul_left (2 ^ k) (show 2 ^ 53 ≤ c by omega)
          omega
        have := Nat.mul_le_mul_left (2 ^ k) hc'
        rw [Nat.mul_add] at this
        omega
      have hclose : e ≤ 53 + k := by
        by_contra hmore
        have h54 : 2 ^ (54 + k) ≤ 2 ^ (52 + e) := Nat.pow_le_pow_right (by decide) (by omega)
        rw [Nat.pow_add] at h54 hpower
        omega
      rw [hpower]
      exact Nat.pow_dvd_pow 2 hclose
  rw [keepDigits_eq hmin hmax]
  exact roundToMultiple_eq (Int.natCast_dvd.2 hkept) (by omega) (by omega)

namespace RowSpan

/-! ## §3. Near rows. -/

theorem grains_eq : (grains : Int) = 2 ^ 56 := by
  decide

/-- The border before a row of fewer than 53 digits is kept as it is. -/
theorem keepDigits_border {row : Int} (h : row.natAbs < 2 ^ 53) :
    keepDigits (row * grains) = row * grains := by
  have hdvd : ((2 ^ 56 : Nat) : Int) ∣ row * grains := by
    rw [grains_eq]
    exact Int.dvd_mul_left _ _
  refine keepDigits_of_dvd hdvd ?_
  rw [grains_eq]
  omega

/-- **The near rows.**  A range within one of the rows from `-2 ^ 50` up to `2 ^ 50` ends strictly
within that row, and its length is a part of the row. -/
theorem widenedEnd_near {row : Int} (hlow : -2 ^ 50 ≤ row) (hhigh : row < 2 ^ 50) :
    row * grains < widenedEnd row ∧ widenedEnd row < (row + 1) * grains ∧
      0 < length ⟨row, row⟩ ∧ length ⟨row, row⟩ < grains := by
  have hborder := keepDigits_border (show row.natAbs < 2 ^ 53 by omega)
  have hend : widenedEnd row = keepDigits (row * grains + tenth) := by
    unfold widenedEnd
    rw [hborder]
  have hlength : length ⟨row, row⟩ = keepDigits (widenedEnd row - row * grains) := by
    unfold length high low
    rw [if_pos rfl, if_pos rfl, hborder]
  -- in the near rows the unit of the sum is an eighth of a row at most
  have hnear := keepDigits_near (show (row * grains + tenth).natAbs < 2 ^ (53 + 53) by
    rw [grains_eq, tenth]; omega)
  have hpart := keepDigits_near (show (widenedEnd row - row * grains).natAbs < 2 ^ (53 + 1) by
    rw [hend]
    rw [tenth] at hnear ⊢
    omega)
  rw [hlength]
  rw [← hend, tenth] at hnear
  rw [grains_eq] at *
  omega

/-! ## §4. Far rows. -/

/-- The border before a far row, as it is kept: a multiple of a unit of at least a quarter of a
row. -/
theorem border_kept {row : Int} (h : 2 ^ 50 ≤ row.natAbs) :
    ∃ k, 54 ≤ k ∧ 2 ^ k ∣ (keepDigits (row * grains)).natAbs ∧
      2 ^ (52 + k) ≤ (keepDigits (row * grains)).natAbs ∧
      (keepDigits (row * grains)).natAbs ≤ 2 ^ (53 + k) ∧
      (row * grains).natAbs < 2 ^ (53 + k) := by
  have hsize : 2 ^ 106 ≤ (row * grains).natAbs := by
    rw [grains_eq]
    omega
  have hne : (row * grains).natAbs ≠ 0 := by omega
  have hlog : 106 ≤ (row * grains).natAbs.log2 := (Nat.le_log2 hne).2 hsize
  obtain ⟨k, hk⟩ : ∃ k, (row * grains).natAbs.log2 = 52 + k :=
    ⟨(row * grains).natAbs.log2 - 52, by omega⟩
  have hmin : 2 ^ (52 + k) ≤ (row * grains).natAbs := (Nat.le_log2 hne).1 (by omega)
  have hmax : (row * grains).natAbs < 2 ^ (53 + k) := (Nat.log2_lt hne).1 (by omega)
  obtain ⟨hdvd, hleast, hmost⟩ := keepDigits_kept hmin hmax
  exact ⟨k, by omega, hdvd, hleast, hmost, hmax⟩

/-- **The far rows.**  A range within any other row ends where floating point keeps the row
itself, on a border between rows: the tenth is lost. -/
theorem widenedEnd_far {row : Int} (h : row < -2 ^ 50 ∨ 2 ^ 50 ≤ row) :
    widenedEnd row = keepDigits (row * grains) ∧ (grains : Int) ∣ widenedEnd row := by
  obtain ⟨k, hk, hdvd, hleast, hmost, hmax⟩ := border_kept (show 2 ^ 50 ≤ row.natAbs by omega)
  have hwide : ¬ row.natAbs < 2 ^ 53 → 57 ≤ k := by
    intro hexact
    by_contra hless
    have := Nat.pow_le_pow_right (show 0 < 2 by decide) (show 53 + k ≤ 109 by omega)
    rw [grains_eq] at hmax
    omega
  -- the sum keeps its size also where the tenth brings it nearer to zero
  have hsum : 2 ^ 106 ≤ (keepDigits (row * grains) + tenth).natAbs := by
    by_cases hexact : row.natAbs < 2 ^ 53
    · rw [keepDigits_border hexact, grains_eq, tenth]
      omega
    · have := hwide hexact
      have : 2 ^ 109 ≤ 2 ^ (52 + k) := Nat.pow_le_pow_right (by decide) (by omega)
      rw [tenth]
      omega
  have hend : widenedEnd row = keepDigits (row * grains) := by
    unfold widenedEnd
    exact keepDigits_add hdvd hmost hk (by decide) (by decide) hsum
  refine ⟨hend, ?_⟩
  rw [hend]
  by_cases hexact : row.natAbs < 2 ^ 53
  · rw [keepDigits_border hexact]
    exact Int.dvd_mul_left _ _
  · have hunit : 2 ^ 56 ∣ 2 ^ k := Nat.pow_dvd_pow 2 (by have := hwide hexact; omega)
    exact Int.natCast_dvd.2 (Nat.dvd_trans hunit hdvd)

/-- The border is that of the row or one before it, or that of the next row or one after it. -/
theorem widenedEnd_far_cases {row : Int} (h : row < -2 ^ 50 ∨ 2 ^ 50 ≤ row) :
    widenedEnd row ≤ row * grains ∨
      widenedEnd row = keepDigits (row * grains) ∧ (row + 1) * grains ≤ widenedEnd row := by
  obtain ⟨hend, c, hc⟩ := widenedEnd_far h
  by_cases hlost : c ≤ row
  · left
    rw [hc, grains_eq]
    omega
  · refine Or.inr ⟨hend, ?_⟩
    rw [hc, grains_eq]
    omega

end RowSpan

end CodeAtlas
