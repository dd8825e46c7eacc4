import Mathlib.Data.List.DropRight
import Mathlib.Data.Nat.Log
import Mathlib.Tactic

/-!
# Natural numbers as floats and as text

A single precision float that stands for a natural number, the text an output stream makes of
it with the default precision of six digits, and what an input stream reads from that text
into an unsigned number. From a million on the text has an exponent, and the input stream
stops in front of it.
-/

namespace Hexabus.Lib.FloatText

/-! ## Single precision -/

/-- The natural number that a bit pattern stands for, if it stands for one. -/
def natValue (bits : UInt32) : Option Nat :=
  let exponent := bits.toNat / 2 ^ 23
  let mantissa := bits.toNat % 2 ^ 23
  -- infinities, NaNs and negative numbers
  if 255 ≤ exponent then none
  else if exponent = 0 then
    if mantissa = 0 then some 0 else none
  else if 150 ≤ exponent then some ((2 ^ 23 + mantissa) * 2 ^ (exponent - 150))
  else if (2 ^ 23 + mantissa) % 2 ^ (150 - exponent) = 0 then
    some ((2 ^ 23 + mantissa) / 2 ^ (150 - exponent))
  else none

/-- The pattern of a natural number, cut off to 24 bits. -/
def ofNat (n : Nat) : UInt32 :=
  if n = 0 then 0
  else if n < 2 ^ 24 then
    UInt32.ofNat ((Nat.log 2 n + 127) * 2 ^ 23 + (n * 2 ^ (23 - Nat.log 2 n) - 2 ^ 23))
  else UInt32.ofNat ((Nat.log 2 n + 127) * 2 ^ 23 + (n / 2 ^ (Nat.log 2 n - 23) - 2 ^ 23))

theorem natValue_of_fields {bits : UInt32} {exponent mantissa : Nat} (he : 0 < exponent)
    (he' : exponent < 255) (hm : mantissa < 2 ^ 23)
    (hbits : bits.toNat = exponent * 2 ^ 23 + mantissa) :
    natValue bits =
      if 150 ≤ exponent then some ((2 ^ 23 + mantissa) * 2 ^ (exponent - 150))
      else if (2 ^ 23 + mantissa) % 2 ^ (150 - exponent) = 0 then
        some ((2 ^ 23 + mantissa) / 2 ^ (150 - exponent))
      else none := by
  have hdiv : bits.toNat / 2 ^ 23 = exponent := by omega
  have hmod : bits.toNat % 2 ^ 23 = mantissa := by omega
  unfold natValue
  simp only [hdiv, hmod]
  rw [if_neg (by omega), if_neg (by omega)]

/-- A number below 2^24 is exact. -/
theorem natValue_ofNat {n : Nat} (h : n < 2 ^ 24) : natValue (ofNat n) = some n := by
  unfold ofNat
  by_cases h0 : n = 0
  · subst h0
    decide
  rw [if_neg h0, if_pos h]
  generalize hk : Nat.log 2 n = k
  have hlow : 2 ^ k ≤ n := hk ▸ Nat.pow_log_le_self 2 h0
  have hhigh : n < 2 ^ (k + 1) := hk ▸ Nat.lt_pow_succ_log_self (by omega) n
  have hk23 : k ≤ 23 := by
    by_contra hlt
    have hpow : 2 ^ 24 ≤ 2 ^ k := Nat.pow_le_pow_right (by omega) (by omega)
    omega
  have hsplit : 2 ^ k * 2 ^ (23 - k) = 2 ^ 23 := by
    rw [← Nat.pow_add]
    congr 1
    omega
  have hlow' : 2 ^ 23 ≤ n * 2 ^ (23 - k) := by
    rw [← hsplit]
    exact Nat.mul_le_mul_right _ hlow
  have hhigh' : n * 2 ^ (23 - k) < 2 ^ 24 := by
    have hmul := Nat.mul_lt_mul_of_pos_right hhigh (Nat.pow_pos (n := 23 - k) (show 0 < 2 by omega))
    have hnext : 2 ^ (k + 1) * 2 ^ (23 - k) = 2 ^ 24 := by
      rw [← Nat.pow_add]
      congr 1
      omega
    omega
  rw [@natValue_of_fields _ (k + 127) (n * 2 ^ (23 - k) - 2 ^ 23) (by omega) (by omega) (by omega)
    (by rw [UInt32.toNat_ofNat_of_lt' (by simp [UInt32.size]; omega)])]
  have hmantissa : 2 ^ 23 + (n * 2 ^ (23 - k) - 2 ^ 23) = n * 2 ^ (23 - k) := by omega
  rw [hmantissa]
  by_cases hk' : 150 ≤ k + 127
  · obtain rfl : k = 23 := by omega
    simp
  · have hexp : 150 - (k + 127) = 23 - k := by omega
    rw [if_neg hk', hexp, Nat.mul_mod_left, if_pos rfl, Nat.mul_div_cancel _ (Nat.pow_pos (by omega))]

/-- A larger number is at least that large and keeps its order of magnitude. -/
theorem natValue_ofNat_large {n : Nat} (h : 2 ^ 24 ≤ n) (h' : n < 2 ^ 64) :
    ∃ w, natValue (ofNat n) = some w ∧ 2 ^ 24 ≤ w ∧ w ≤ n := by
  unfold ofNat
  rw [if_neg (by omega), if_neg (by omega)]
  generalize hk : Nat.log 2 n = k
  have hlow : 2 ^ k ≤ n := hk ▸ Nat.pow_log_le_self 2 (by omega)
  have hhigh : n < 2 ^ (k + 1) := hk ▸ Nat.lt_pow_succ_log_self (by omega) n
  have hk24 : 24 ≤ k := by
    by_contra hlt
    have hpow : 2 ^ (k + 1) ≤ 2 ^ 24 := Nat.pow_le_pow_right (by omega) (by omega)
    omega
  have hk64 : k < 64 := by
    by_contra hge
    have hpow : 2 ^ 64 ≤ 2 ^ k := Nat.pow_le_pow_right (by omega) (by omega)
    omega
  have hpos : 0 < 2 ^ (k - 23) := Nat.pow_pos (by omega)
  have hlow' : 2 ^ 23 ≤ n / 2 ^ (k - 23) := by
    rw [Nat.le_div_iff_mul_le hpos, ← Nat.pow_add]
    have heq : 23 + (k - 23) = k := by omega
    rw [heq]
    exact hlow
  have hhigh' : n / 2 ^ (k - 23) < 2 ^ 24 := by
    rw [Nat.div_lt_iff_lt_mul hpos, ← Nat.pow_add]
    have heq : 24 + (k - 23) = k + 1 := by omega
    rw [heq]
    exact hhigh
  rw [@natValue_of_fields _ (k + 127) (n / 2 ^ (k - 23) - 2 ^ 23) (by omega) (by omega) (by omega)
    (by rw [UInt32.toNat_ofNat_of_lt' (by simp [UInt32.size]; omega)])]
  have hmantissa : 2 ^ 23 + (n / 2 ^ (k - 23) - 2 ^ 23) = n / 2 ^ (k - 23) := by omega
  have hexp : k + 127 - 150 = k - 23 := by omega
  rw [hmantissa, if_pos (by omega), hexp]
  refine ⟨_, rfl, ?_, Nat.div_mul_le_self _ _⟩
  have hmul : 2 ^ 23 * 2 ^ 1 ≤ n / 2 ^ (k - 23) * 2 ^ (k - 23) :=
    Nat.mul_le_mul hlow' (Nat.pow_le_pow_right (by omega) (by omega))
  omega

/-! ## Printing -/

/-- A quotient, rounded to the nearest number and halfway cases to the even one. -/
def roundDiv (n d : Nat) : Nat :=
  if 2 * (n % d) < d ∨ (2 * (n % d) = d ∧ n / d % 2 = 0) then n / d else n / d + 1

/-- Six significant digits, and the power of ten of the last of them. -/
def sixDigits (n : Nat) : Nat × Nat :=
  let scale := Nat.log 10 n - 5
  let digits := roundDiv n (10 ^ scale)
  if digits = 10 ^ 6 then (10 ^ 5, scale + 1) else (digits, scale)

/-- The digits of an exponent, at least two of them. -/
def exponentDigits (e : Nat) : List Char :=
  if e < 10 then '0' :: Nat.toDigits 10 e else Nat.toDigits 10 e

/-- The digits behind the point, without zeros at the end. -/
def fraction (digits : List Char) : List Char := digits.rdropWhile fun c => c = '0'

/-- A mantissa and an exponent. -/
def scientific (digits exponent : Nat) : List Char :=
  let text := Nat.toDigits 10 digits
  text.take 1 ++ (if fraction (text.drop 1) = [] then [] else '.' :: fraction (text.drop 1))
    ++ 'e' :: '+' :: exponentDigits exponent

/-- The text of a natural number: from a million on it has an exponent. -/
def general (n : Nat) : List Char :=
  if n < 10 ^ 6 then Nat.toDigits 10 n
  else scientific (sixDigits n).1 ((sixDigits n).2 + 5)

/-! ## Reading -/

/-- The value of a digit string. -/
def value (digits : List Char) : Nat := Nat.ofDigitChars 10 digits 0

/-- What is extracted into a `uint32_t`: the digits up to the first other character; a number
that does not fit is read as the largest one. -/
def scanUnsigned : List Char → UInt32
  | '-' :: text =>
    let n := value (text.takeWhile Char.isDigit)
    if n < 2 ^ 32 then 0 - UInt32.ofNat n else UInt32.ofNat (2 ^ 32 - 1)
  | text =>
    let n := value (text.takeWhile Char.isDigit)
    if n < 2 ^ 32 then UInt32.ofNat n else UInt32.ofNat (2 ^ 32 - 1)

/-- The end of a numeral whose digits, `places` of them behind the point, are known. -/
def scaled (digits : List Char) (places : Nat) : List Char → Option Nat
  | 'e' :: '+' :: exponent =>
    if exponent.all Char.isDigit ∧ exponent ≠ [] ∧ places ≤ value exponent then
      some (value digits * 10 ^ (value exponent - places))
    else none
  | _ => none

/-- The natural number that a numeral means, where this can be seen from its exponent. -/
def numeral (text : List Char) : Option Nat :=
  let whole := text.takeWhile Char.isDigit
  if whole = [] then none
  else match text.dropWhile Char.isDigit with
    | [] => some (value whole)
    | '.' :: rest => scaled (whole ++ rest.takeWhile Char.isDigit)
        (rest.takeWhile Char.isDigit).length (rest.dropWhile Char.isDigit)
    | rest => scaled whole 0 rest

/-! ## What is read back -/

theorem value_toDigits (n : Nat) : value (Nat.toDigits 10 n) = n :=
  Nat.ofDigitChars_toDigits (by omega) (by omega)

theorem isDigit_toDigits {n : Nat} {c : Char} (h : c ∈ Nat.toDigits 10 n) : c.isDigit = true :=
  Nat.isDigit_of_mem_toDigits (by omega) (by omega) h

theorem takeWhile_digits {ds rest : List Char} (h : ∀ c ∈ ds, c.isDigit = true)
    (hrest : ∀ c, rest.head? = some c → c.isDigit = false) :
    (ds ++ rest).takeWhile Char.isDigit = ds ∧ (ds ++ rest).dropWhile Char.isDigit = rest := by
  have htake : rest.takeWhile Char.isDigit = [] := by
    cases rest with
    | nil => rfl
    | cons c rest => rw [List.takeWhile_cons_of_neg (by simpa using hrest c rfl)]
  have hdrop : rest.dropWhile Char.isDigit = rest := by
    cases rest with
    | nil => rfl
    | cons c rest => rw [List.dropWhile_cons_of_neg (by simpa using hrest c rfl)]
  rw [List.takeWhile_append_of_pos h, List.dropWhile_append_of_pos h, htake, hdrop, List.append_nil]
  exact ⟨rfl, rfl⟩

theorem takeWhile_all_digits {ds : List Char} (h : ∀ c ∈ ds, c.isDigit = true) :
    ds.takeWhile Char.isDigit = ds ∧ ds.dropWhile Char.isDigit = [] := by
  have happend := @takeWhile_digits ds [] h (fun c hc => by cases hc)
  rwa [List.append_nil] at happend

theorem scanUnsigned_digits {d : Char} {ds rest : List Char} (h : ∀ c ∈ d :: ds, c.isDigit = true)
    (hrest : ∀ c, rest.head? = some c → c.isDigit = false) (hvalue : value (d :: ds) < 2 ^ 32) :
    scanUnsigned (d :: ds ++ rest) = UInt32.ofNat (value (d :: ds)) := by
  have hd : d ≠ '-' := by
    rintro rfl
    exact absurd (h '-' List.mem_cons_self) (by decide)
  have htake := (takeWhile_digits h hrest).1
  have hscan : scanUnsigned (d :: ds ++ rest) =
      let n := value ((d :: ds ++ rest).takeWhile Char.isDigit)
      if n < 2 ^ 32 then UInt32.ofNat n else UInt32.ofNat (2 ^ 32 - 1) := by
    rw [List.cons_append]
    unfold scanUnsigned
    split
    · rename_i heq
      exact absurd (List.cons.inj heq).1 hd
    · rfl
  rw [hscan, htake]
  exact if_pos hvalue

/-- A number below a million is read back. -/
theorem scanUnsigned_general {n : Nat} (h : n < 10 ^ 6) :
    scanUnsigned (general n) = UInt32.ofNat n := by
  rw [general, if_pos h]
  cases htext : Nat.toDigits 10 n with
  | nil => exact absurd htext Nat.toDigits_ne_nil
  | cons d ds =>
    have hvalue : value (d :: ds) = n := by rw [← htext, value_toDigits]
    have hdigits : ∀ c ∈ d :: ds, c.isDigit = true := by
      intro c hc
      rw [← htext] at hc
      exact isDigit_toDigits hc
    have hscan := @scanUnsigned_digits d ds [] hdigits (fun c hc => by cases hc) (by omega)
    rw [List.append_nil] at hscan
    rw [hscan, hvalue]

theorem value_lt_ten {d : Char} (h : d.isDigit = true) : value [d] < 10 := by
  have hd : d.val.toNat ≤ 57 := by
    simp only [Char.isDigit, Bool.and_eq_true, decide_eq_true_eq] at h
    exact UInt32.le_iff_toNat_le.mp h.2
  simp only [value, Nat.ofDigitChars_cons, Nat.ofDigitChars_nil]
  have hzero : '0'.toNat = 48 := rfl
  have hnat : d.toNat = d.val.toNat := rfl
  omega

/-- From a million on only the first digit is read. -/
theorem scanUnsigned_general_large {n : Nat} (h : 10 ^ 6 ≤ n) :
    (scanUnsigned (general n)).toNat < 10 := by
  rw [general, if_neg (by omega), scientific]
  generalize (sixDigits n).1 = digits
  generalize exponentDigits ((sixDigits n).2 + 5) = exponent
  cases htext : Nat.toDigits 10 digits with
  | nil => exact absurd htext Nat.toDigits_ne_nil
  | cons d ds =>
    have hd : d.isDigit = true := isDigit_toDigits (htext ▸ List.mem_cons_self)
    have hvalue := value_lt_ten hd
    have hscan : ∀ rest : List Char, (∀ c, rest.head? = some c → c.isDigit = false) →
        (scanUnsigned ([d] ++ rest)).toNat < 10 := by
      intro rest hrest
      have hdigits : ∀ c ∈ [d], c.isDigit = true := by
        intro c hc
        rw [List.mem_singleton.mp hc]
        exact hd
      rw [scanUnsigned_digits hdigits hrest (by omega),
        UInt32.toNat_ofNat_of_lt' (by simp [UInt32.size]; omega)]
      exact hvalue
    simp only [List.take_succ_cons, List.take_zero, List.drop_succ_cons, List.drop_zero,
      List.append_assoc]
    apply hscan
    intro c hc
    split at hc
    · cases hc
      decide
    · cases hc
      decide

/-! ## The number that the text means -/

theorem roundDiv_bounds (n d : Nat) : n / d ≤ roundDiv n d ∧ roundDiv n d ≤ n / d + 1 := by
  unfold roundDiv
  split <;> omega

/-- The number that the text means: `n` up to rounding. -/
def rounded (n : Nat) : Nat :=
  if n < 10 ^ 6 then n else (sixDigits n).1 * 10 ^ (sixDigits n).2

theorem scale_bounds {n : Nat} (h : 10 ^ 6 ≤ n) :
    1 ≤ Nat.log 10 n - 5 ∧ 10 ^ 5 ≤ n / 10 ^ (Nat.log 10 n - 5) ∧
      n / 10 ^ (Nat.log 10 n - 5) < 10 ^ 6 := by
  generalize hk : Nat.log 10 n = k
  have hlow : 10 ^ k ≤ n := hk ▸ Nat.pow_log_le_self 10 (by omega)
  have hhigh : n < 10 ^ (k + 1) := hk ▸ Nat.lt_pow_succ_log_self (by omega) n
  have hk6 : 6 ≤ k := by
    by_contra hlt
    have hpow : 10 ^ (k + 1) ≤ 10 ^ 6 := Nat.pow_le_pow_right (by omega) (by omega)
    omega
  have hpos : 0 < 10 ^ (k - 5) := Nat.pow_pos (by omega)
  refine ⟨by omega, ?_, ?_⟩
  · rw [Nat.le_div_iff_mul_le hpos, ← Nat.pow_add]
    have heq : 5 + (k - 5) = k := by omega
    rw [heq]
    exact hlow
  · rw [Nat.div_lt_iff_lt_mul hpos, ← Nat.pow_add]
    have heq : 6 + (k - 5) = k + 1 := by omega
    rw [heq]
    exact hhigh

/-- Six digits are six digits, and the first rounding decides what they mean. -/
theorem sixDigits_spec {n : Nat} (h : 10 ^ 6 ≤ n) :
    10 ^ 5 ≤ (sixDigits n).1 ∧ (sixDigits n).1 < 10 ^ 6 ∧ 1 ≤ (sixDigits n).2 ∧
      (sixDigits n).1 * 10 ^ (sixDigits n).2 =
        roundDiv n (10 ^ (Nat.log 10 n - 5)) * 10 ^ (Nat.log 10 n - 5) := by
  obtain ⟨hscale, hlow, hhigh⟩ := scale_bounds h
  obtain ⟨hround, hround'⟩ := roundDiv_bounds n (10 ^ (Nat.log 10 n - 5))
  unfold sixDigits
  dsimp only
  split
  · rename_i hcarry
    refine ⟨Nat.le_refl _, (by decide : (10 ^ 5 : Nat) < 10 ^ 6), by simp, ?_⟩
    rw [hcarry]
    show 10 ^ 5 * 10 ^ (Nat.log 10 n - 5 + 1) = _
    rw [Nat.pow_succ]
    ring
  · exact ⟨by omega, by omega, hscale, rfl⟩

theorem rounded_of_lt {n : Nat} (h : n < 10 ^ 6) : rounded n = n := if_pos h

theorem rounded_bounds {n : Nat} (h : 10 ^ 6 ≤ n) : 10 ^ 6 ≤ rounded n ∧ rounded n ≤ 2 * n := by
  obtain ⟨hlow, -, hscale, hvalue⟩ := sixDigits_spec h
  obtain ⟨hlog, hquot, -⟩ := scale_bounds h
  obtain ⟨-, hround⟩ := roundDiv_bounds n (10 ^ (Nat.log 10 n - 5))
  rw [rounded, if_neg (by omega)]
  constructor
  · have hmul : 10 ^ 5 * 10 ^ 1 ≤ (sixDigits n).1 * 10 ^ (sixDigits n).2 :=
      Nat.mul_le_mul hlow (Nat.pow_le_pow_right (by omega) hscale)
    omega
  · rw [hvalue]
    generalize 10 ^ (Nat.log 10 n - 5) = d at *
    have hmul : roundDiv n d * d ≤ (n / d + 1) * d := Nat.mul_le_mul_right d hround
    have hdiv : n / d * d ≤ n := Nat.div_mul_le_self n d
    have hone : 1 * d ≤ n / d * d := Nat.mul_le_mul_right d (by omega)
    rw [Nat.add_mul] at hmul
    omega

theorem value_append (xs ys : List Char) :
    value (xs ++ ys) = 10 ^ ys.length * value xs + value ys := by
  unfold value
  rw [Nat.ofDigitChars_append, Nat.ofDigitChars_eq_ofDigitChars_zero]

theorem value_replicate_zero (k : Nat) : value (List.replicate k '0') = 0 := by
  simp [value, Nat.ofDigitChars_replicate_zero]

/-- The zeros that are left out. -/
theorem fraction_append (digits : List Char) :
    ∃ k, digits = fraction digits ++ List.replicate k '0' := by
  refine ⟨(digits.rtakeWhile fun c => c = '0').length, ?_⟩
  have hzeros : digits.rtakeWhile (fun c => c = '0') =
      List.replicate (digits.rtakeWhile fun c => c = '0').length '0' := by
    refine List.eq_replicate_iff.mpr ⟨rfl, fun c hc => ?_⟩
    simpa using List.mem_rtakeWhile_imp hc
  rw [← hzeros, fraction, List.rdropWhile_append_rtakeWhile]

theorem exponentDigits_spec (e : Nat) : (∀ c ∈ exponentDigits e, c.isDigit = true) ∧
    exponentDigits e ≠ [] ∧ value (exponentDigits e) = e := by
  unfold exponentDigits
  split
  · refine ⟨?_, List.cons_ne_nil _ _, ?_⟩
    · intro c hc
      rcases List.mem_cons.mp hc with rfl | hc
      · decide
      · exact isDigit_toDigits hc
    · have hcons : value ('0' :: Nat.toDigits 10 e) = value (['0'] ++ Nat.toDigits 10 e) := rfl
      have hzero : value ['0'] = 0 := by decide
      rw [hcons, value_append, hzero, value_toDigits]
      omega
  · exact ⟨fun c hc => isDigit_toDigits hc, Nat.toDigits_ne_nil, value_toDigits e⟩

theorem scaled_exponent (digits : List Char) {places e : Nat} (h : places ≤ e) :
    scaled digits places ('e' :: '+' :: exponentDigits e) =
      some (value digits * 10 ^ (e - places)) := by
  obtain ⟨hdigits, hne, hvalue⟩ := exponentDigits_spec e
  have hcond : (exponentDigits e).all Char.isDigit = true ∧ exponentDigits e ≠ [] ∧
      places ≤ value (exponentDigits e) :=
    ⟨List.all_eq_true.mpr hdigits, hne, by rw [hvalue]; exact h⟩
  rw [scaled, if_pos hcond, hvalue]

theorem numeral_digits {ds : List Char} (hne : ds ≠ []) (h : ∀ c ∈ ds, c.isDigit = true) :
    numeral ds = some (value ds) := by
  obtain ⟨htake, hdrop⟩ := takeWhile_all_digits h
  unfold numeral
  simp only [htake, hdrop]
  rw [if_neg hne]

/-- The text of a number with an exponent, as a numeral. -/
theorem numeral_scientific {digits scale : Nat} (hlow : 10 ^ 5 ≤ digits) (hhigh : digits < 10 ^ 6) :
    numeral (scientific digits (scale + 5)) = some (digits * 10 ^ scale) := by
  have hvalue := value_toDigits digits
  have hlen : (Nat.toDigits 10 digits).length = 6 := by
    have hle := (Nat.length_toDigits_le_iff (n := digits) (k := 6) (by omega) (by omega)).mpr hhigh
    have hgt : ¬ (Nat.toDigits 10 digits).length ≤ 5 := by
      rw [Nat.length_toDigits_le_iff (by omega) (by omega)]
      omega
    omega
  unfold scientific
  cases htext : Nat.toDigits 10 digits with
  | nil => exact absurd htext Nat.toDigits_ne_nil
  | cons d ds =>
    rw [htext] at hvalue hlen
    have hdigits : ∀ c ∈ d :: ds, c.isDigit = true := fun c hc =>
      isDigit_toDigits (htext ▸ hc)
    have hd : ∀ c ∈ [d], c.isDigit = true := fun c hc =>
      hdigits c (List.mem_singleton.mp hc ▸ List.mem_cons_self)
    obtain ⟨k, hfraction⟩ := fraction_append ds
    have hdslen : (fraction ds).length + k = 5 := by
      have hds := congrArg List.length hfraction
      rw [List.length_append, List.length_replicate] at hds
      rw [List.length_cons] at hlen
      omega
    have hsix : value ([d] ++ fraction ds) * 10 ^ (scale + 5 - (fraction ds).length)
        = digits * 10 ^ scale := by
      have hcons : d :: ds = ([d] ++ fraction ds) ++ List.replicate k '0' := by
        rw [List.append_assoc, ← hfraction]
        rfl
      have hexp : scale + 5 - (fraction ds).length = k + scale := by omega
      have hzeros : value (([d] ++ fraction ds) ++ List.replicate k '0')
          = 10 ^ k * value ([d] ++ fraction ds) := by
        rw [value_append, value_replicate_zero, List.length_replicate, Nat.add_zero]
      rw [← hvalue, hcons, hzeros, hexp, Nat.pow_add]
      ring
    simp only [List.take_succ_cons, List.take_zero, List.drop_succ_cons, List.drop_zero]
    unfold numeral
    by_cases hnil : fraction ds = []
    · rw [hnil, List.append_nil, List.length_nil] at hsix
      obtain ⟨htake, hdrop⟩ := @takeWhile_digits [d] ('e' :: '+' :: exponentDigits (scale + 5)) hd
        (fun c hc => by cases hc; decide)
      rw [if_pos hnil, List.append_nil]
      simp only [htake, hdrop]
      rw [if_neg (List.cons_ne_nil _ _)]
      refine (scaled_exponent [d] (Nat.zero_le (scale + 5))).trans (congrArg some ?_)
      exact hsix
    · obtain ⟨htake, hdrop⟩ := @takeWhile_digits [d] ('.' :: (fraction ds ++
        'e' :: '+' :: exponentDigits (scale + 5))) hd (fun c hc => by cases hc; decide)
      have hfrac : ∀ c ∈ fraction ds, c.isDigit = true := fun c hc =>
        hdigits c (List.mem_cons_of_mem _ (hfraction ▸ List.mem_append_left _ hc))
      obtain ⟨htake', hdrop'⟩ := @takeWhile_digits (fraction ds)
        ('e' :: '+' :: exponentDigits (scale + 5)) hfrac (fun c hc => by cases hc; decide)
      have hshape : [d] ++ '.' :: fraction ds ++ 'e' :: '+' :: exponentDigits (scale + 5)
          = [d] ++ '.' :: (fraction ds ++ 'e' :: '+' :: exponentDigits (scale + 5)) :=
        List.append_assoc [d] ('.' :: fraction ds) _
      rw [if_neg hnil, hshape]
      simp only [htake, hdrop]
      rw [if_neg (List.cons_ne_nil _ _), htake', hdrop']
      refine (scaled_exponent _ (by omega)).trans (congrArg some ?_)
      exact hsix

/-- **What the text of a number means.** -/
theorem numeral_general (n : Nat) : numeral (general n) = some (rounded n) := by
  by_cases h : n < 10 ^ 6
  · rw [general, if_pos h, rounded_of_lt h,
      numeral_digits Nat.toDigits_ne_nil fun c hc => isDigit_toDigits hc, value_toDigits]
  · obtain ⟨hlow, hhigh, -, -⟩ := @sixDigits_spec n (by omega)
    rw [general, if_neg h, rounded, if_neg h, numeral_scientific hlow hhigh]

end Hexabus.Lib.FloatText
