import Mathlib.Algebra.Order.Ring.Abs
import Mathlib.Algebra.Order.Ring.Int
import Mathlib.Tactic.Linarith

/-!
# The pressure sensor

`pressure.c`: the compensation of a reading, operation by operation. An operation gives no value
when it divides by zero or when its result is out of the range of its type. The sensor's formula
is the same computation with unbounded integers.
-/

namespace Hexabus.Firmware.Pressure

/-! ## Operations -/

/-- A result of the type `int32_t`. -/
def int32 (n : Int) : Option Int := if -2 ^ 31 ≤ n ∧ n < 2 ^ 31 then some n else none

/-- A result of the type `uint32_t`. -/
def uint32 (n : Int) : Option Int := if 0 ≤ n ∧ n < 2 ^ 32 then some n else none

/-- A quotient: it is rounded towards zero. -/
def quotient (n d : Int) : Option Int := if d = 0 then none else some (n.tdiv d)

/-! ## Readings -/

/-- `pressure_read16`, with the bytes that the bus gave if it did not fail. -/
def pressureRead16 : Option (UInt8 × UInt8) → UInt16
  | none => 0
  | some val => (val.1.toUInt16 <<< 8) ||| val.2.toUInt16

/-- `pressure_read8`. -/
def pressureRead8 : Option UInt8 → UInt8
  | none => 0
  | some val => val

/-- The coefficients. -/
structure Calibration where
  ac1 : Int16
  ac2 : Int16
  ac3 : Int16
  ac4 : UInt16
  ac5 : UInt16
  ac6 : UInt16
  b1 : Int16
  b2 : Int16
  mc : Int16
  md : Int16

/-- `pressure_init`: the coefficients, in the order in which they are read; `mb` is not used. -/
def pressureInit (ac1 ac2 ac3 ac4 ac5 ac6 b1 b2 mc md : Option (UInt8 × UInt8)) : Calibration :=
  ⟨(pressureRead16 ac1).toInt16, (pressureRead16 ac2).toInt16, (pressureRead16 ac3).toInt16,
    pressureRead16 ac4, pressureRead16 ac5, pressureRead16 ac6, (pressureRead16 b1).toInt16,
    (pressureRead16 b2).toInt16, (pressureRead16 mc).toInt16, (pressureRead16 md).toInt16⟩

/-- `PRESSURE_OVERSAMPLING`. -/
def pressureOversampling : Nat := 2

/-- The raw pressure. -/
def rawPressure (value : Option (UInt8 × UInt8)) (xlsb : Option UInt8) : UInt32 :=
  (((pressureRead16 value).toUInt32 <<< 8) ||| (pressureRead8 xlsb).toUInt32) >>>
    UInt32.ofNat (8 - pressureOversampling)

/-! ## The process -/

variable (c : Calibration)

/-- `x1 + x2` of the temperature. -/
def temperature (ut : UInt16) : Option Int := do
  let d ← int32 (ut.toNat - c.ac6.toNat)
  let m ← int32 (d * c.ac5.toNat)
  let x1 ← quotient m 32768
  let n ← int32 (c.mc.toInt * 2048)
  let s ← int32 (x1 + c.md.toInt)
  let x2 ← quotient n s
  int32 (x1 + x2)

/-- `(b6*b6)/4096`, which is computed twice. -/
def square (b6 : Int) : Option Int := do
  let m ← int32 (b6 * b6)
  quotient m 4096

/-- `b3`. -/
def offset (b6 : Int) : Option Int := do
  let q ← square b6
  let m ← int32 (c.b2.toInt * q)
  let x1 ← quotient m 2048
  let n ← int32 (c.ac2.toInt * b6)
  let x2 ← quotient n 2048
  let x3 ← int32 (x1 + x2)
  let a ← int32 (c.ac1.toInt * 4)
  let s ← int32 (a + x3)
  let t ← int32 (s * 2 ^ pressureOversampling)
  let v ← int32 (t + 2)
  quotient v 4

/-- `b4`. -/
def sensitivity (b6 : Int) : Option Int := do
  let m ← int32 (c.ac3.toInt * b6)
  let x1 ← quotient m 8192
  let q ← square b6
  let n ← int32 (c.b1.toInt * q)
  let x2 ← quotient n 65536
  let s ← int32 (x1 + x2)
  let t ← int32 (s + 2)
  let x3 ← quotient t 4
  let v ← int32 (x3 + 32768)
  let w ← uint32 v
  let z ← uint32 (c.ac4.toNat * w)
  quotient z 32768

/-- `p`, from `b7` and `b4`. -/
def divided (b7 b4 : Int) : Option Int :=
  if b7 < 0x80000000 then do
    let m ← uint32 (b7 * 2)
    let q ← quotient m b4
    int32 q
  else do
    let q ← quotient b7 b4
    let m ← uint32 (q * 2)
    int32 m

/-- `p`. -/
def uncorrected (up b3 b4 : Int) : Option Int := do
  let d ← uint32 (up - b3)
  let b7 ← uint32 (d * (50000 / 2 ^ pressureOversampling))
  divided b7 b4

/-- What `pressure` is set to. -/
def corrected (p : Int) : Option Int := do
  let q ← quotient p 256
  let m ← int32 (q * q)
  let n ← int32 (m * 3038)
  let x1 ← quotient n 65536
  let t ← int32 (-7357 * p)
  let x2 ← quotient t 65536
  let s ← int32 (x1 + x2)
  let v ← int32 (s + 3791)
  let w ← quotient v 16
  int32 (p + w)

/-- `pressure_process`: the pressure. -/
def compensate (ut : UInt16) (up : UInt32) : Option Int := do
  let b5 ← temperature c ut
  let b6 ← int32 (b5 - 4000)
  let b3 ← offset c b6
  let b4 ← sensitivity c b6
  let p ← uncorrected up.toNat b3 b4
  corrected p

/-! ## The formula -/

namespace Formula

/-- X1 of the temperature. -/
def x1 (ut : UInt16) : Int := (((ut.toNat : Int) - c.ac6.toNat) * c.ac5.toNat).tdiv 32768

def b5 (ut : UInt16) : Int := x1 c ut + (c.mc.toInt * 2048).tdiv (x1 c ut + c.md.toInt)

def b6 (ut : UInt16) : Int := b5 c ut - 4000

/-- The square of B6, scaled. -/
def square (b6 : Int) : Int := (b6 * b6).tdiv 4096

def b3 (b6 : Int) : Int :=
  ((c.ac1.toInt * 4 + ((c.b2.toInt * square b6).tdiv 2048 + (c.ac2.toInt * b6).tdiv 2048)) *
    2 ^ pressureOversampling + 2).tdiv 4

/-- X3 of the sensitivity. -/
def x3 (b6 : Int) : Int :=
  ((c.ac3.toInt * b6).tdiv 8192 + (c.b1.toInt * square b6).tdiv 65536 + 2).tdiv 4

def b4 (b6 : Int) : Int := (c.ac4.toNat * (x3 c b6 + 32768)).tdiv 32768

def b7 (up : UInt32) (b6 : Int) : Int :=
  (up.toNat - b3 c b6) * (50000 / 2 ^ pressureOversampling)

/-- The pressure before its correction. -/
def p (b7 b4 : Int) : Int :=
  if b7 < 0x80000000 then (b7 * 2).tdiv b4 else b7.tdiv b4 * 2

/-- The correction. -/
def correct (p : Int) : Int :=
  p + ((p.tdiv 256 * p.tdiv 256 * 3038).tdiv 65536 + (-7357 * p).tdiv 65536 + 3791).tdiv 16

/-- The pressure. -/
def pressure (ut : UInt16) (up : UInt32) : Int :=
  correct (p (b7 c up (b6 c ut)) (b4 c (b6 c ut)))

end Formula

/-- The readings at which the computation is the formula's: what the formula multiplies and
divides is bounded. -/
structure Domain (ut : UInt16) (up : UInt32) : Prop where
  heat : ((ut.toNat : Int) - c.ac6.toNat) * c.ac5.toNat < 2 ^ 31
  heat' : -2 ^ 31 ≤ ((ut.toNat : Int) - c.ac6.toNat) * c.ac5.toNat
  divisor : Formula.x1 c ut + c.md.toInt ≠ 0
  b6 : |Formula.b6 c ut| ≤ 46340
  b2 : c.b2.toInt * Formula.square (Formula.b6 c ut) < 2 ^ 31
  b2' : -2 ^ 31 ≤ c.b2.toInt * Formula.square (Formula.b6 c ut)
  b1 : c.b1.toInt * Formula.square (Formula.b6 c ut) < 2 ^ 31
  b1' : -2 ^ 31 ≤ c.b1.toInt * Formula.square (Formula.b6 c ut)
  ac4 : c.ac4.toNat * (Formula.x3 c (Formula.b6 c ut) + 32768) < 2 ^ 32
  ac4' : 32768 ≤ c.ac4.toNat * (Formula.x3 c (Formula.b6 c ut) + 32768)
  b7 : Formula.b7 c up (Formula.b6 c ut) < 2 ^ 32
  b7' : 0 ≤ Formula.b7 c up (Formula.b6 c ut)
  p : 2 * Formula.b7 c up (Formula.b6 c ut) < 215296 * Formula.b4 c (Formula.b6 c ut)

/-! ## One operation -/

theorem int32_bind {α : Type} {n : Int} {f : Int → Option α} {r : α} :
    (int32 n >>= f) = some r ↔ (-2 ^ 31 ≤ n ∧ n < 2 ^ 31) ∧ f n = some r := by
  unfold int32
  split
  · next h => exact ⟨fun hf => ⟨h, hf⟩, And.right⟩
  · next h => exact ⟨fun hf => absurd hf (by simp), fun hf => absurd hf.1 h⟩

theorem int32_eq_some {n v : Int} :
    int32 n = some v ↔ (-2 ^ 31 ≤ n ∧ n < 2 ^ 31) ∧ n = v := by
  unfold int32
  split
  · next h => exact ⟨fun hv => ⟨h, Option.some.inj hv⟩, fun hv => congrArg some hv.2⟩
  · next h => exact ⟨fun hv => absurd hv (by simp), fun hv => absurd hv.1 h⟩

theorem uint32_bind {α : Type} {n : Int} {f : Int → Option α} {r : α} :
    (uint32 n >>= f) = some r ↔ (0 ≤ n ∧ n < 2 ^ 32) ∧ f n = some r := by
  unfold uint32
  split
  · next h => exact ⟨fun hf => ⟨h, hf⟩, And.right⟩
  · next h => exact ⟨fun hf => absurd hf (by simp), fun hf => absurd hf.1 h⟩

theorem quotient_bind {α : Type} {n d : Int} {f : Int → Option α} {r : α} :
    (quotient n d >>= f) = some r ↔ d ≠ 0 ∧ f (n.tdiv d) = some r := by
  unfold quotient
  split
  · next h => exact ⟨fun hf => absurd hf (by simp), fun hf => absurd h hf.1⟩
  · next h => exact ⟨fun hf => ⟨h, hf⟩, And.right⟩

/-! ## Bounds -/

/-- A number that is bounded fits into 32 bits. -/
theorem int32_of_abs_le {n k : Int} (h : |n| ≤ k) (hk : k < 2 ^ 31) : -2 ^ 31 ≤ n ∧ n < 2 ^ 31 := by
  rw [abs_le] at h
  omega

theorem abs_tdiv_le {n d k : Int} (hd : 0 < d) (h : |n| ≤ d * k) : |n.tdiv d| ≤ k := by
  have hediv : |n| / d ≤ k := Int.ediv_le_of_le_mul hd (h.trans_eq (Int.mul_comm d k))
  have habs : |n.tdiv d| = |n| / d := by
    rcases abs_choice n with hn | hn
    · have h0 : 0 ≤ n := hn ▸ abs_nonneg n
      rw [hn, Int.tdiv_eq_ediv_of_nonneg h0, abs_of_nonneg (Int.ediv_nonneg h0 hd.le)]
    · have h0 : 0 ≤ -n := hn ▸ abs_nonneg n
      rw [hn, ← abs_neg, ← Int.neg_tdiv, Int.tdiv_eq_ediv_of_nonneg h0,
        abs_of_nonneg (Int.ediv_nonneg h0 hd.le)]
  rwa [habs]

theorem abs_mul_le {a b j k : Int} (ha : |a| ≤ j) (hb : |b| ≤ k) : |a * b| ≤ j * k := by
  rw [abs_mul]
  exact mul_le_mul ha hb (abs_nonneg b) ((abs_nonneg a).trans ha)

theorem abs_add_le_of {a b j k : Int} (ha : |a| ≤ j) (hb : |b| ≤ k) : |a + b| ≤ j + k :=
  (abs_add_le a b).trans (Int.add_le_add ha hb)

theorem abs_int16_le (a : Int16) : |a.toInt| ≤ 32768 := by
  have hlow := a.le_toInt
  have hhigh := a.toInt_lt
  rw [abs_le]
  omega

theorem abs_uint16_le (a : UInt16) : |(a.toNat : Int)| ≤ 65535 := by
  have hlt := a.toNat_lt
  rw [abs_le]
  omega

/-! ## The stages -/

theorem abs_x1_le {ut : UInt16} (h : -2 ^ 31 ≤ ((ut.toNat : Int) - c.ac6.toNat) * c.ac5.toNat)
    (h' : ((ut.toNat : Int) - c.ac6.toNat) * c.ac5.toNat < 2 ^ 31) :
    |Formula.x1 c ut| ≤ 65536 := by
  refine abs_tdiv_le (by decide) ?_
  rw [abs_le]
  omega

/-- A dividend of 32 bits has a quotient that is no greater. -/
theorem abs_tdiv_le_abs (n d : Int) : |n.tdiv d| ≤ |n| := by
  rw [Int.abs_eq_natAbs, Int.abs_eq_natAbs]
  exact Int.ofNat_le.mpr (Int.natAbs_tdiv_le_natAbs n d)

theorem abs_mc_le : |c.mc.toInt * 2048| ≤ 32768 * 2048 :=
  abs_mul_le (abs_int16_le c.mc) (by decide)

theorem abs_b5_le {ut : UInt16} (h : |Formula.x1 c ut| ≤ 65536) :
    |Formula.b5 c ut| ≤ 65536 + 32768 * 2048 :=
  abs_add_le_of h ((abs_tdiv_le_abs _ _).trans (abs_mc_le c))

theorem temperature_eq_some {ut : UInt16} {v : Int} :
    temperature c ut = some v ↔
      ((-2 ^ 31 ≤ ((ut.toNat : Int) - c.ac6.toNat) * c.ac5.toNat ∧
        ((ut.toNat : Int) - c.ac6.toNat) * c.ac5.toNat < 2 ^ 31) ∧
        Formula.x1 c ut + c.md.toInt ≠ 0) ∧ Formula.b5 c ut = v := by
  simp only [temperature, int32_bind, quotient_bind, int32_eq_some]
  constructor
  · rintro ⟨-, hheat, -, -, -, hdiv, -, hv⟩
    exact ⟨⟨hheat, hdiv⟩, hv⟩
  · rintro ⟨⟨hheat, hdiv⟩, hv⟩
    have hx1 := abs_x1_le c hheat.1 hheat.2
    have hut := abs_uint16_le ut
    have hac6 := abs_uint16_le c.ac6
    rw [abs_le] at hut hac6
    exact ⟨by omega, hheat, by decide, int32_of_abs_le (abs_mc_le c) (by decide),
      int32_of_abs_le (abs_add_le_of hx1 (abs_int16_le c.md)) (by decide), hdiv,
      int32_of_abs_le (abs_b5_le c hx1) (by decide), hv⟩

/-- The square of a number fits when the number is 46340 at most. -/
theorem square_bind {α : Type} {b6 : Int} {f : Int → Option α} {r : α} :
    (square b6 >>= f) = some r ↔ |b6| ≤ 46340 ∧ f (Formula.square b6) = some r := by
  have hrange : (-2 ^ 31 ≤ b6 * b6 ∧ b6 * b6 < 2 ^ 31) ↔ |b6| ≤ 46340 := by
    constructor
    · rintro ⟨-, hlt⟩
      by_contra hcon
      have hge : 46341 ≤ |b6| := by omega
      have hsq : 46341 * 46341 ≤ |b6| * |b6| := mul_le_mul hge hge (by decide) (abs_nonneg b6)
      rw [abs_mul_abs_self] at hsq
      omega
    · intro h
      exact int32_of_abs_le (abs_mul_le h h) (by decide)
  have hsquare : (square b6 >>= f) = (int32 (b6 * b6) >>= fun m => quotient m 4096 >>= f) := by
    rw [square]
    simp only [bind_assoc]
  rw [hsquare, int32_bind, quotient_bind, hrange]
  constructor
  · exact fun h => ⟨h.1, h.2.2⟩
  · exact fun h => ⟨h.1, by decide, h.2⟩

/-- The products with B6 fit with it. -/
theorem abs_mul_b6_le {b6 : Int} (h : |b6| ≤ 46340) (a : Int16) :
    |a.toInt * b6| ≤ 32768 * 46340 := abs_mul_le (abs_int16_le a) h

theorem abs_le_of_int32 {n : Int} (h : -2 ^ 31 ≤ n ∧ n < 2 ^ 31) : |n| ≤ 2 ^ 31 := by
  rw [abs_le]
  omega

theorem offset_bind {α : Type} {b6 : Int} {f : Int → Option α} {r : α} (h : |b6| ≤ 46340) :
    (offset c b6 >>= f) = some r ↔
      (-2 ^ 31 ≤ c.b2.toInt * Formula.square b6 ∧ c.b2.toInt * Formula.square b6 < 2 ^ 31) ∧
        f (Formula.b3 c b6) = some r := by
  simp only [offset, bind_assoc, int32_bind, quotient_bind, square_bind]
  constructor
  · rintro ⟨-, hb2, -, -, -, -, -, -, -, -, -, hf⟩
    exact ⟨hb2, hf⟩
  · rintro ⟨hb2, hf⟩
    have hx1 : |(c.b2.toInt * Formula.square b6).tdiv 2048| ≤ 2 ^ 20 :=
      abs_tdiv_le (by decide) (abs_le_of_int32 hb2)
    have hx2 : |(c.ac2.toInt * b6).tdiv 2048| ≤ 741440 :=
      abs_tdiv_le (by decide) (abs_mul_b6_le h c.ac2)
    have hx3 := abs_add_le_of hx1 hx2
    have hac1 : |c.ac1.toInt * 4| ≤ 32768 * 4 := abs_mul_le (abs_int16_le c.ac1) (by decide)
    have hsum := abs_add_le_of hac1 hx3
    have hshift := abs_mul_le (b := 2 ^ pressureOversampling) (k := 4) hsum (by decide)
    have htwo := abs_add_le_of (b := 2) (k := 2) hshift (by decide)
    exact ⟨h, hb2, by decide, int32_of_abs_le (abs_mul_b6_le h c.ac2) (by decide), by decide,
      int32_of_abs_le hx3 (by decide), int32_of_abs_le hac1 (by decide),
      int32_of_abs_le hsum (by decide), int32_of_abs_le hshift (by decide),
      int32_of_abs_le htwo (by decide), by decide, hf⟩

theorem sensitivity_bind {α : Type} {b6 : Int} {f : Int → Option α} {r : α} (h : |b6| ≤ 46340) :
    (sensitivity c b6 >>= f) = some r ↔
      ((-2 ^ 31 ≤ c.b1.toInt * Formula.square b6 ∧ c.b1.toInt * Formula.square b6 < 2 ^ 31) ∧
        0 ≤ Formula.x3 c b6 + 32768 ∧ c.ac4.toNat * (Formula.x3 c b6 + 32768) < 2 ^ 32) ∧
        f (Formula.b4 c b6) = some r := by
  simp only [sensitivity, bind_assoc, int32_bind, uint32_bind, quotient_bind, square_bind]
  constructor
  · rintro ⟨-, -, -, hb1, -, -, -, -, -, hw, hz, -, hf⟩
    exact ⟨⟨hb1, hw.1, hz.2⟩, hf⟩
  · rintro ⟨⟨hb1, hw, hz⟩, hf⟩
    have hx1 : |(c.ac3.toInt * b6).tdiv 8192| ≤ 185360 :=
      abs_tdiv_le (by decide) (abs_mul_b6_le h c.ac3)
    have hx2 : |(c.b1.toInt * Formula.square b6).tdiv 65536| ≤ 32768 :=
      abs_tdiv_le (by decide) (abs_le_of_int32 hb1)
    have hsum := abs_add_le_of hx1 hx2
    have htwo := abs_add_le_of (b := 2) (k := 2) hsum (by decide)
    have hx3 : |Formula.x3 c b6| ≤ 218130 := abs_tdiv_le (by decide) (htwo.trans (by decide))
    have hv := abs_add_le_of (b := 32768) (k := 32768) hx3 (by decide)
    have hac4 : (0 : Int) ≤ c.ac4.toNat := Int.natCast_nonneg _
    exact ⟨int32_of_abs_le (abs_mul_b6_le h c.ac3) (by decide), by decide, h, hb1, by decide,
      int32_of_abs_le hsum (by decide), int32_of_abs_le htwo (by decide), by decide,
      int32_of_abs_le hv (by decide), ⟨hw, (abs_le.mp hv).2.trans_lt (by decide)⟩,
      ⟨Int.mul_nonneg hac4 hw, hz⟩, by decide, hf⟩

/-- The correction fits for a pressure of 215295 at most. -/
theorem corrected_eq_some {p v : Int} (hp : 0 ≤ p) :
    corrected p = some v ↔ p < 215296 ∧ Formula.correct p = v := by
  simp only [corrected, int32_bind, quotient_bind, int32_eq_some]
  have hq : p.tdiv 256 = p / 256 := Int.tdiv_eq_ediv_of_nonneg hp
  constructor
  · rintro ⟨-, -, hm, -, -, -, -, -, -, -, hv⟩
    refine ⟨?_, hv⟩
    by_contra hcon
    have hge : 841 ≤ p.tdiv 256 := by omega
    have hsq : 841 * 841 ≤ p.tdiv 256 * p.tdiv 256 :=
      mul_le_mul hge hge (by decide) (by omega)
    omega
  · rintro ⟨hlt, hv⟩
    have hquot : |p.tdiv 256| ≤ 840 := by
      rw [abs_le]
      omega
    have hpabs : |p| ≤ 215295 := by
      rw [abs_le]
      omega
    have hm := abs_mul_le hquot hquot
    have hn := abs_mul_le (b := 3038) (k := 3038) hm (by decide)
    have hx1 : |(p.tdiv 256 * p.tdiv 256 * 3038).tdiv 65536| ≤ 32768 :=
      abs_tdiv_le (by decide) (hn.trans (by decide))
    have ht : |-7357 * p| ≤ 7357 * 215295 := abs_mul_le (by decide) hpabs
    have hx2 : |(-7357 * p).tdiv 65536| ≤ 32768 := abs_tdiv_le (by decide) (ht.trans (by decide))
    have hs := abs_add_le_of hx1 hx2
    have hv' := abs_add_le_of (b := 3791) (k := 3791) hs (by decide)
    have hw : |((p.tdiv 256 * p.tdiv 256 * 3038).tdiv 65536 + (-7357 * p).tdiv 65536 +
        3791).tdiv 16| ≤ 4333 := abs_tdiv_le (by decide) (hv'.trans (by decide))
    exact ⟨by decide, int32_of_abs_le hm (by decide), int32_of_abs_le hn (by decide), by decide,
      int32_of_abs_le ht (by decide), by decide, int32_of_abs_le hs (by decide),
      int32_of_abs_le hv' (by decide), by decide,
      int32_of_abs_le (abs_add_le_of hpabs hw) (by decide), hv⟩

/-- Both ways to divide give 215295 at most under one condition. -/
theorem p_lt_iff {b7 b4 : Int} (hb7 : 0 ≤ b7) (hb4 : 0 < b4) :
    Formula.p b7 b4 < 215296 ↔ 2 * b7 < 215296 * b4 := by
  unfold Formula.p
  split
  · rw [Int.tdiv_eq_ediv_of_nonneg (by omega), Int.ediv_lt_iff_lt_mul hb4]
    omega
  · rw [Int.tdiv_eq_ediv_of_nonneg hb7]
    have hdiv : b7 / b4 < 107648 ↔ b7 < 107648 * b4 := Int.ediv_lt_iff_lt_mul hb4
    omega

theorem p_nonneg {b7 b4 : Int} (hb7 : 0 ≤ b7) (hb4 : 0 < b4) : 0 ≤ Formula.p b7 b4 := by
  unfold Formula.p
  split
  · exact Int.tdiv_nonneg (by omega) hb4.le
  · exact Int.mul_nonneg (Int.tdiv_nonneg hb7 hb4.le) (by decide)

theorem divided_bind {b7 b4 v : Int} (hb7 : 0 ≤ b7) (hlt : b7 < 2 ^ 32) (hb4 : 0 ≤ b4) :
    (divided b7 b4 >>= corrected) = some v ↔
      2 * b7 < 215296 * b4 ∧ Formula.correct (Formula.p b7 b4) = v := by
  rcases hb4.eq_or_lt with hzero | hpos
  · -- a division by zero
    rw [← hzero]
    refine iff_of_false ?_ fun h => absurd h.1 (by omega)
    unfold divided
    split
    · simp only [bind_assoc, uint32_bind, quotient_bind]
      exact fun h => h.2.1 rfl
    · simp only [bind_assoc, quotient_bind]
      exact fun h => h.1 rfl
  have hp := p_nonneg hb7 hpos
  rw [← p_lt_iff hb7 hpos, ← corrected_eq_some hp]
  unfold Formula.p at hp ⊢
  unfold divided
  split
  · next hsmall =>
    rw [if_pos hsmall] at hp
    simp only [bind_assoc, uint32_bind, quotient_bind, int32_bind]
    constructor
    · exact fun h => h.2.2.2
    · intro h
      have hle := ((corrected_eq_some hp).mp h).1
      exact ⟨by omega, hpos.ne', by omega, h⟩
  · next hlarge =>
    rw [if_neg hlarge] at hp
    simp only [bind_assoc, uint32_bind, quotient_bind, int32_bind]
    constructor
    · exact fun h => h.2.2.2
    · intro h
      have hle := ((corrected_eq_some hp).mp h).1
      exact ⟨hpos.ne', by omega, by omega, h⟩

theorem uncorrected_bind {up b3 b4 v : Int} (hb4 : 0 ≤ b4) :
    (uncorrected up b3 b4 >>= corrected) = some v ↔
      (0 ≤ (up - b3) * (50000 / 2 ^ pressureOversampling) ∧
        (up - b3) * (50000 / 2 ^ pressureOversampling) < 2 ^ 32 ∧
        2 * ((up - b3) * (50000 / 2 ^ pressureOversampling)) < 215296 * b4) ∧
        Formula.correct (Formula.p ((up - b3) * (50000 / 2 ^ pressureOversampling)) b4) = v := by
  have hfactor : (50000 : Int) / 2 ^ pressureOversampling = 12500 := by decide
  simp only [uncorrected, bind_assoc, uint32_bind]
  rw [hfactor]
  constructor
  · rintro ⟨-, ⟨hb7, hlt⟩, h⟩
    obtain ⟨hp, hv⟩ := (divided_bind hb7 hlt hb4).mp h
    exact ⟨⟨hb7, hlt, hp⟩, hv⟩
  · rintro ⟨⟨hb7, hlt, hp⟩, hv⟩
    exact ⟨by omega, ⟨hb7, hlt⟩, (divided_bind hb7 hlt hb4).mpr ⟨hp, hv⟩⟩

theorem b4_nonneg {b6 : Int} (h : 0 ≤ Formula.x3 c b6 + 32768) : 0 ≤ Formula.b4 c b6 :=
  Int.tdiv_nonneg (Int.mul_nonneg (Int.natCast_nonneg _) h) (by decide)

/-- A sensitivity that is not zero. -/
theorem b4_pos_iff {b6 : Int} :
    0 < Formula.b4 c b6 ↔ 32768 ≤ c.ac4.toNat * (Formula.x3 c b6 + 32768) := by
  rw [Formula.b4]
  generalize (c.ac4.toNat : Int) * (Formula.x3 c b6 + 32768) = n
  rcases le_or_gt 0 n with h | h
  · rw [Int.tdiv_eq_ediv_of_nonneg h]
    omega
  · have hneg : 0 ≤ (-n).tdiv 32768 := Int.tdiv_nonneg (by omega) (by decide)
    rw [Int.neg_tdiv] at hneg
    omega

theorem abs_le_of_offset {α : Type} {b6 : Int} {f : Int → Option α} {r : α}
    (h : (offset c b6 >>= f) = some r) : |b6| ≤ 46340 := by
  simp only [offset, bind_assoc, square_bind] at h
  exact h.1

/-- Where the computation gives a value, and that it is the formula's. -/
theorem compensate_eq_some {ut : UInt16} {up : UInt32} {v : Int} :
    compensate c ut up = some v ↔ Domain c ut up ∧ Formula.pressure c ut up = v := by
  constructor
  · intro h
    obtain ⟨b5, htemp, h⟩ := Option.bind_eq_some_iff.mp h
    obtain ⟨⟨⟨hlow, hhigh⟩, hdiv⟩, rfl⟩ := (temperature_eq_some c).mp htemp
    obtain ⟨-, h⟩ := int32_bind.mp h
    have hb6 := abs_le_of_offset c h
    obtain ⟨hb2, h⟩ := (offset_bind c hb6).mp h
    obtain ⟨⟨hb1, hx3, hac4⟩, h⟩ := (sensitivity_bind c hb6).mp h
    obtain ⟨⟨hb7, hlt, hp⟩, hv⟩ := (uncorrected_bind (b4_nonneg c hx3)).mp h
    have hpos : 0 < Formula.b4 c (Formula.b6 c ut) := by
      rw [Formula.b6]
      omega
    exact ⟨⟨hhigh, hlow, hdiv, hb6, hb2.2, hb2.1, hb1.2, hb1.1, hac4, (b4_pos_iff c).mp hpos,
      hlt, hb7, hp⟩, hv⟩
  · rintro ⟨h, hv⟩
    have hb5 := abs_b5_le c (abs_x1_le c h.heat' h.heat)
    have hx3 : 0 ≤ Formula.x3 c (Formula.b6 c ut) + 32768 := by
      by_contra hcon
      have hac4 := mul_nonpos_of_nonneg_of_nonpos (Int.natCast_nonneg c.ac4.toNat)
        (not_le.mp hcon).le
      have := h.ac4'
      omega
    refine Option.bind_eq_some_iff.mpr ⟨Formula.b5 c ut,
      (temperature_eq_some c).mpr ⟨⟨⟨h.heat', h.heat⟩, h.divisor⟩, rfl⟩, ?_⟩
    refine int32_bind.mpr ⟨?_, ?_⟩
    · rw [abs_le] at hb5
      omega
    refine (offset_bind c h.b6).mpr ⟨⟨h.b2', h.b2⟩, ?_⟩
    refine (sensitivity_bind c h.b6).mpr ⟨⟨⟨h.b1', h.b1⟩, hx3, h.ac4⟩, ?_⟩
    exact (uncorrected_bind (b4_nonneg c hx3)).mpr ⟨⟨h.b7', h.b7, h.p⟩, hv⟩

/-- **Where the computation is the formula's.** -/
theorem compensate_iff (ut : UInt16) (up : UInt32) :
    compensate c ut up = some (Formula.pressure c ut up) ↔ Domain c ut up := by
  rw [compensate_eq_some, and_iff_left rfl]

/-- The coefficients of a sensor. -/
def sheet : Calibration := ⟨408, -72, -14383, 32741, 32757, 23153, 6190, 4, -8711, 2868⟩

example : compensate sheet 27898 (rawPressure (some (0x5d, 0x23)) (some 0)) = some 69964 := by
  decide +kernel

/-- A failed reading of the pressure is below `b3`; and when every reading fails, the temperature
is divided by zero. -/
theorem compensate_failed :
    (rawPressure none none = 0 ∧ compensate sheet 27898 0 = none) ∧
      ((pressureRead16 none).toInt16 = 0 ∧
        compensate (pressureInit none none none none none none none none none none) 0 0 = none) ∧
      ¬ ∀ c ut up, compensate c ut up = some (Formula.pressure c ut up) := by
  have hzero : compensate sheet 27898 0 = none := by decide +kernel
  refine ⟨⟨by decide, hzero⟩, ⟨by decide, by decide +kernel⟩, fun h => ?_⟩
  rw [h sheet 27898 0] at hzero
  cases hzero

end Hexabus.Firmware.Pressure
