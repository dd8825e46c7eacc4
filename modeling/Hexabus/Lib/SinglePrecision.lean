import Mathlib.Data.Int.Log
import Mathlib.Data.Rat.Floor
import Mathlib.Tactic.FieldSimp
import Mathlib.Tactic.Linarith
import Mathlib.Tactic.Positivity

/-!
# Single precision

Numbers of 24 binary digits, as the products and quotients of a 32-bit `float` are rounded to
them: to the nearest one, and to the even one of two. The exponent is not bounded here, so this is
about results in the range of the normal numbers, and about zero.
-/

namespace Hexabus.Lib.Single

/-- The nearest integer, the even one of two. -/
def nearest (q : ℚ) : ℤ :=
  if q - ⌊q⌋ < 1 / 2 ∨ q - ⌊q⌋ = 1 / 2 ∧ ⌊q⌋ % 2 = 0 then ⌊q⌋ else ⌊q⌋ + 1

/-- What the last of the 24 digits of a number counts. -/
def place (x : ℚ) : ℚ := 2 ^ (Int.log 2 |x| - 23)

/-- A result rounded to single precision. -/
def single (x : ℚ) : ℚ := nearest (x / place x) * place x

/-- The conversion to an integer: towards zero. -/
def truncate (x : ℚ) : ℤ := if 0 ≤ x then ⌊x⌋ else ⌈x⌉

/-! ## Rounding -/

theorem le_nearest {q : ℚ} {n : ℤ} (h : (n : ℚ) ≤ q) : n ≤ nearest q := by
  have hfloor : n ≤ ⌊q⌋ := Int.le_floor.mpr h
  unfold nearest
  split
  · exact hfloor
  · exact hfloor.trans (Int.le_add_one le_rfl)

theorem abs_nearest_sub_le (q : ℚ) : |(nearest q : ℚ) - q| ≤ 1 / 2 := by
  have hle := Int.floor_le q
  have hlt := Int.lt_floor_add_one q
  unfold nearest
  split
  · next h =>
    rw [abs_le]
    rcases h with h | ⟨h, -⟩
    · constructor <;> linarith
    · constructor <;> linarith
  · next h =>
    rw [not_or, not_lt] at h
    rw [Int.cast_add, Int.cast_one, abs_le]
    constructor <;> linarith [h.1]

theorem place_pos (x : ℚ) : 0 < place x := zpow_pos two_pos _

/-- A number counts at least 2^23 of its last places. -/
theorem place_le (x : ℚ) (hx : x ≠ 0) : place x * 2 ^ 23 ≤ |x| := by
  have hlog := Int.zpow_log_le_self (b := 2) one_lt_two (abs_pos.mpr hx)
  rw [place, zpow_sub₀ two_ne_zero]
  have hcast : ((2 : ℕ) : ℚ) ^ Int.log 2 |x| = 2 ^ Int.log 2 |x| := by rw [Nat.cast_two]
  rw [hcast] at hlog
  rw [zpow_ofNat, div_mul_cancel₀ _ (by positivity)]
  exact hlog

@[simp] theorem single_zero : single 0 = 0 := by
  have hnearest : nearest 0 = 0 := by decide +kernel
  rw [single, zero_div, hnearest, Int.cast_zero, zero_mul]

/-- **Rounding** changes a number by 2^-24 of it at most. -/
theorem abs_single_sub_le (x : ℚ) : |single x - x| ≤ |x| / 2 ^ 24 := by
  by_cases hx : x = 0
  · rw [hx, single_zero, sub_zero, abs_zero, zero_div]
  have hpos := place_pos x
  have hplace := place_le x hx
  have heq : single x - x = ((nearest (x / place x) : ℚ) - x / place x) * place x := by
    rw [sub_mul, div_mul_cancel₀ _ hpos.ne', single]
  rw [heq, abs_mul, abs_of_pos hpos]
  calc |(nearest (x / place x) : ℚ) - x / place x| * place x
      ≤ 1 / 2 * place x := by gcongr; exact abs_nearest_sub_le _
    _ ≤ |x| / 2 ^ 24 := by rw [le_div_iff₀ (by positivity)]; linarith

theorem le_single {x : ℚ} (hx : 0 ≤ x) : x * (1 - 1 / 2 ^ 24) ≤ single x := by
  have h := (abs_le.mp (abs_single_sub_le x)).1
  rw [abs_of_nonneg hx] at h
  linarith

theorem single_le {x : ℚ} (hx : 0 ≤ x) : single x ≤ x * (1 + 1 / 2 ^ 24) := by
  have h := (abs_le.mp (abs_single_sub_le x)).2
  rw [abs_of_nonneg hx] at h
  linarith

theorem single_neg_of_neg {x : ℚ} (hx : x < 0) : single x < 0 := by
  have h := (abs_le.mp (abs_single_sub_le x)).2
  rw [abs_of_neg hx] at h
  linarith

/-- A number that is not below an integer is not rounded below it. -/
theorem intCast_le_single {x : ℚ} {n : ℤ} (hlt : |x| < 2 ^ 24) (h : (n : ℚ) ≤ x) :
    (n : ℚ) ≤ single x := by
  by_cases hx : x = 0
  · rwa [hx, single_zero, ← hx]
  have hlog : Int.log 2 |x| ≤ 23 := by
    by_contra hcon
    have hle := Int.zpow_log_le_self (b := 2) one_lt_two (abs_pos.mpr hx)
    have hmono : ((2 : ℕ) : ℚ) ^ (24 : ℤ) ≤ ((2 : ℕ) : ℚ) ^ Int.log 2 |x| :=
      zpow_le_zpow_right₀ (by norm_num) (by omega)
    have hcast : ((2 : ℕ) : ℚ) ^ (24 : ℤ) = 2 ^ 24 := by norm_num
    rw [hcast] at hmono
    linarith
  -- the integer counts a whole number of the last places
  obtain ⟨k, hk⟩ := Int.eq_ofNat_of_zero_le (sub_nonneg.mpr hlog)
  have hplace : place x * 2 ^ k = 1 := by
    rw [place, ← zpow_natCast, ← zpow_add₀ two_ne_zero, ← hk, sub_add_sub_cancel', sub_self,
      zpow_zero]
  have hpos := place_pos x
  have hn : ((n * 2 ^ k : ℤ) : ℚ) ≤ x / place x := by
    rw [le_div_iff₀ hpos, Int.cast_mul, Int.cast_pow, Int.cast_ofNat, mul_assoc,
      mul_comm (2 ^ k : ℚ), hplace, mul_one]
    exact h
  calc (n : ℚ) = ((n * 2 ^ k : ℤ) : ℚ) * place x := by
        rw [Int.cast_mul, Int.cast_pow, Int.cast_ofNat, mul_assoc, mul_comm (2 ^ k : ℚ), hplace,
          mul_one]
    _ ≤ single x := by
        rw [single]
        gcongr
        exact le_nearest hn

/-! ## Truncation -/

theorem truncate_of_nonneg {x : ℚ} (hx : 0 ≤ x) : truncate x = ⌊x⌋ := if_pos hx

theorem le_truncate {x : ℚ} {n : ℤ} (hn : 0 ≤ n) (h : (n : ℚ) ≤ x) : n ≤ truncate x := by
  have hx : 0 ≤ x := (Int.cast_nonneg hn).trans h
  rw [truncate_of_nonneg hx]
  exact Int.le_floor.mpr h

theorem truncate_eq {x : ℚ} {n : ℤ} (hn : 0 ≤ n) (h : (n : ℚ) ≤ x) (hlt : x < n + 1) :
    truncate x = n := by
  have hx : 0 ≤ x := (Int.cast_nonneg hn).trans h
  rw [truncate_of_nonneg hx]
  exact Int.floor_eq_iff.mpr ⟨h, hlt⟩

theorem abs_truncate_le {x : ℚ} {n : ℤ} (h : |x| ≤ n) : |truncate x| ≤ n := by
  rw [abs_le] at h ⊢
  unfold truncate
  split
  · next hx =>
    refine ⟨?_, Int.cast_le.mp ((Int.floor_le x).trans h.2)⟩
    have hfloor : 0 ≤ ⌊x⌋ := Int.floor_nonneg.mpr hx
    have hn : (0 : ℚ) ≤ n := hx.trans h.2
    have hn' : 0 ≤ n := Int.cast_nonneg_iff.mp hn
    omega
  · next hx =>
    rw [not_le] at hx
    have hceil : ⌈x⌉ ≤ 0 := Int.ceil_le.mpr (by rw [Int.cast_zero]; exact hx.le)
    have hn : (0 : ℚ) ≤ n := by linarith [h.1]
    have hn' : 0 ≤ n := Int.cast_nonneg_iff.mp hn
    refine ⟨?_, by omega⟩
    have hle : -n ≤ ⌈x⌉ := by
      have := h.1.trans (Int.le_ceil x)
      rw [← Int.cast_neg] at this
      exact Int.cast_le.mp this
    exact hle

end Hexabus.Lib.Single
