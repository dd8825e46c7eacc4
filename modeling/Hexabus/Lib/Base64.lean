import Mathlib.Tactic

/-!
# Base64

Three bytes as four digits of six bits each, the end of a text filled up with `=`, and the
decoder that takes such a text apart again, group by group. A text that is folded into lines is
unfolded first.
-/

namespace Hexabus.Lib.Base64

/-! ## Digits -/

/-- The 64 characters, each at the place of the digit it stands for. -/
def alphabet : List UInt8 :=
  "ABCDEFGHIJKLMNOPQRSTUVWXYZabcdefghijklmnopqrstuvwxyz0123456789+/".toList.map
    fun c => UInt8.ofNat c.toNat

/-- `=`. -/
def fill : UInt8 := 0x3d

def digit (v : Nat) : UInt8 := alphabet.getD v 0

/-- The digit that a character stands for. -/
def value? (c : UInt8) : Option Nat :=
  let v := alphabet.idxOf c
  if v < 64 then some v else none

theorem value?_digit {v : Nat} (hv : v < 64) : value? (digit v) = some v := by
  have hall : ∀ v < 64, value? (digit v) = some v := by decide +kernel
  exact hall v hv

theorem digit_ne_fill {v : Nat} (hv : v < 64) : digit v ≠ fill := by
  have hall : ∀ v < 64, digit v ≠ fill := by decide +kernel
  exact hall v hv

/-! ## Groups -/

/-- Three bytes. -/
def group (x y z : UInt8) : List UInt8 :=
  [digit (x.toNat / 4), digit (x.toNat % 4 * 16 + y.toNat / 16),
    digit (y.toNat % 16 * 4 + z.toNat / 64), digit (z.toNat % 64)]

/-- Two bytes at the end. -/
def group₂ (x y : UInt8) : List UInt8 :=
  [digit (x.toNat / 4), digit (x.toNat % 4 * 16 + y.toNat / 16), digit (y.toNat % 16 * 4), fill]

/-- One byte at the end. -/
def group₁ (x : UInt8) : List UInt8 :=
  [digit (x.toNat / 4), digit (x.toNat % 4 * 16), fill, fill]

def encode : List UInt8 → List UInt8
  | [] => []
  | [x] => group₁ x
  | [x, y] => group₂ x y
  | x :: y :: z :: rest => group x y z ++ encode rest

def ungroup (a b c d : UInt8) : Option (List UInt8) := do
  let a ← value? a
  let b ← value? b
  let c ← value? c
  let d ← value? d
  return [UInt8.ofNat (a * 4 + b / 16), UInt8.ofNat (b % 16 * 16 + c / 4),
    UInt8.ofNat (c % 4 * 64 + d)]

/-- The last group may be filled up. -/
def ungroupLast (a b c d : UInt8) : Option (List UInt8) :=
  if d = fill then
    if c = fill then do
      let a ← value? a
      let b ← value? b
      return [UInt8.ofNat (a * 4 + b / 16)]
    else do
      let a ← value? a
      let b ← value? b
      let c ← value? c
      return [UInt8.ofNat (a * 4 + b / 16), UInt8.ofNat (b % 16 * 16 + c / 4)]
  else ungroup a b c d

/-- The decoder; the bits behind the last byte do not matter to it. -/
def decode : List UInt8 → Option (List UInt8)
  | [] => some []
  | a :: b :: c :: d :: rest =>
    if rest = [] then ungroupLast a b c d
    else do
      let bytes ← ungroup a b c d
      return bytes ++ (← decode rest)
  | _ => none

/-- The text without its line breaks. -/
def unfolded (text : List UInt8) : List UInt8 := text.filter fun c => c ≠ 13 ∧ c ≠ 10

@[simp] theorem unfolded_append (s t : List UInt8) :
    unfolded (s ++ t) = unfolded s ++ unfolded t := List.filter_append ..

/-- Digits are no line breaks. -/
theorem unfolded_digits {vs : List Nat} (h : ∀ v ∈ vs, v < 64) :
    unfolded (vs.map digit) = vs.map digit := by
  have hall : ∀ v < 64, digit v ≠ 13 ∧ digit v ≠ 10 := by decide +kernel
  refine List.filter_eq_self.mpr fun c hc => ?_
  obtain ⟨v, hv, rfl⟩ := List.mem_map.mp hc
  exact decide_eq_true (hall v (h v hv))

theorem unfolded_group (x y z : UInt8) : unfolded (group x y z) = group x y z := by
  have hx : x.toNat < 256 := x.toNat_lt
  have hy : y.toNat < 256 := y.toNat_lt
  have hz : z.toNat < 256 := z.toNat_lt
  refine @unfolded_digits [x.toNat / 4, x.toNat % 4 * 16 + y.toNat / 16,
    y.toNat % 16 * 4 + z.toNat / 64, z.toNat % 64] fun v hv => ?_
  simp only [List.mem_cons, List.not_mem_nil, or_false] at hv
  omega

theorem unfolded_group₂ (x y : UInt8) : unfolded (group₂ x y) = group₂ x y := by
  have hx : x.toNat < 256 := x.toNat_lt
  have hy : y.toNat < 256 := y.toNat_lt
  have hdigits := @unfolded_digits [x.toNat / 4, x.toNat % 4 * 16 + y.toNat / 16,
    y.toNat % 16 * 4] fun v hv => by
      simp only [List.mem_cons, List.not_mem_nil, or_false] at hv
      omega
  have hsplit : group₂ x y = [x.toNat / 4, x.toNat % 4 * 16 + y.toNat / 16,
    y.toNat % 16 * 4].map digit ++ [fill] := rfl
  rw [hsplit, unfolded_append, hdigits]
  rfl

theorem unfolded_group₁ (x : UInt8) : unfolded (group₁ x) = group₁ x := by
  have hx : x.toNat < 256 := x.toNat_lt
  have hdigits := @unfolded_digits [x.toNat / 4, x.toNat % 4 * 16] fun v hv => by
    simp only [List.mem_cons, List.not_mem_nil, or_false] at hv
    omega
  have hsplit : group₁ x = [x.toNat / 4, x.toNat % 4 * 16].map digit ++ [fill, fill] := rfl
  rw [hsplit, unfolded_append, hdigits]
  rfl

/-! ## Round trip -/

theorem ofNat_eq {x : UInt8} {n : Nat} (h : n = x.toNat) : UInt8.ofNat n = x := by
  rw [h, UInt8.ofNat_toNat]

theorem ungroup_group (x y z : UInt8) :
    ∃ a b c d, group x y z = [a, b, c, d] ∧ d ≠ fill ∧ ungroup a b c d = some [x, y, z] := by
  have hx : x.toNat < 256 := x.toNat_lt
  have hy : y.toNat < 256 := y.toNat_lt
  have hz : z.toNat < 256 := z.toNat_lt
  refine ⟨_, _, _, _, rfl, digit_ne_fill (by omega), ?_⟩
  unfold ungroup
  rw [value?_digit (by omega), value?_digit (by omega), value?_digit (by omega),
    value?_digit (by omega)]
  show some [_, _, _] = _
  rw [@ofNat_eq x _ (by omega), @ofNat_eq y _ (by omega), @ofNat_eq z _ (by omega)]

theorem decode_group (x y z : UInt8) (text : List UInt8) :
    decode (group x y z ++ text) = (decode text).map ([x, y, z] ++ ·) := by
  obtain ⟨a, b, c, d, hgroup, hd, hungroup⟩ := ungroup_group x y z
  rw [hgroup, List.cons_append, List.cons_append, List.cons_append, List.cons_append,
    List.nil_append, decode]
  by_cases htext : text = []
  · subst htext
    rw [if_pos rfl, ungroupLast, if_neg hd, hungroup]
    rfl
  · rw [if_neg htext, hungroup]
    cases hdecode : decode text with
    | none => rfl
    | some bytes => rfl

theorem decode_group₂ (x y : UInt8) : decode (group₂ x y) = some [x, y] := by
  have hx : x.toNat < 256 := x.toNat_lt
  have hy : y.toNat < 256 := y.toNat_lt
  rw [group₂, decode, if_pos rfl, ungroupLast, if_pos rfl, if_neg (digit_ne_fill (by omega)), value?_digit (by omega),
    value?_digit (by omega), value?_digit (by omega)]
  show some [_, _] = _
  rw [@ofNat_eq x _ (by omega), @ofNat_eq y _ (by omega)]

theorem decode_group₁ (x : UInt8) : decode (group₁ x) = some [x] := by
  have hx : x.toNat < 256 := x.toNat_lt
  rw [group₁, decode, if_pos rfl, ungroupLast, if_pos rfl, if_pos rfl, value?_digit (by omega), value?_digit (by omega)]
  show some [_] = _
  rw [@ofNat_eq x _ (by omega)]

/-- **Round trip**: the text of some bytes is decoded to them. -/
theorem decode_encode (data : List UInt8) : decode (encode data) = some data := by
  fun_induction encode data with
  | case1 => rfl
  | case2 x => exact decode_group₁ x
  | case3 x y => exact decode_group₂ x y
  | case4 x y z rest ih =>
    rw [decode_group, ih]
    rfl

/-- A text that is decoded consists of whole groups. -/
theorem length_of_decode {text bytes : List UInt8} (h : decode text = some bytes) :
    text.length % 4 = 0 := by
  fun_induction decode text generalizing bytes with
  | case1 => rfl
  | case2 => exact Nat.mod_self 4
  | case3 a b c d rest hrest ih =>
    obtain ⟨bytes₁, hungroup, h⟩ := Option.bind_eq_some_iff.mp h
    obtain ⟨bytes₂, hdecode, -⟩ := Option.bind_eq_some_iff.mp h
    have hlen := ih hdecode
    simp only [List.length_cons]
    omega
  | case4 => cases h

end Hexabus.Lib.Base64
