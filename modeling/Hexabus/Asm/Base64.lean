import Hexabus.Lib.Base64

/-!
# Base64 output

`to_base64` of `base64.cpp`: the data is filled up with zeros, every three bytes become four
characters, a line ends after 48 of them, and in the last round of the loop the characters of
the zeros become `=`. The loop counts in 32 bits.
-/

namespace Hexabus.Asm

open Lib

/-! ## The source -/

/-- `base64codes`. -/
def base64codes : List UInt8 :=
  ['A', 'B', 'C', 'D', 'E', 'F', 'G', 'H', 'I', 'J', 'K', 'L', 'M', 'N', 'O', 'P',
    'Q', 'R', 'S', 'T', 'U', 'V', 'W', 'X', 'Y', 'Z', 'a', 'b', 'c', 'd', 'e', 'f',
    'g', 'h', 'i', 'j', 'k', 'l', 'm', 'n', 'o', 'p', 'q', 'r', 's', 't', 'u', 'v',
    'w', 'x', 'y', 'z', '0', '1', '2', '3', '4', '5', '6', '7', '8', '9', '+', '/'].map
    fun c => UInt8.ofNat c.toNat

/-- The first loop, for at most `n` more zeros; the remainder modulo 3 takes two. -/
def padData : Nat → List UInt8 → Nat → List UInt8 × Nat
  | 0, data, pad => (data, pad)
  | n + 1, data, pad =>
    if data.length % 3 ≠ 0 then padData n (data ++ [0]) (pad + 1) else (data, pad)

def code (sextet : UInt8) : UInt8 := base64codes.getD sextet.toNat 0

/-- The four characters that are pushed for three bytes. -/
def codes (x y z : UInt8) : List UInt8 :=
  [code (x >>> 2), code (((x <<< 4) &&& (0x3f : UInt8)) ||| (y >>> 4)),
    code (((y <<< 2) &&& (0x3f : UInt8)) ||| (z >>> 6)), code (z &&& (0x3f : UInt8))]

def lineBreak : List UInt8 := [0x0d, 0x0a]

/-- What happens in the last round: the last characters of the result become `=`. -/
def patchPadding (pad : Nat) (result : List UInt8) : List UInt8 :=
  if pad = 2 then
    (result.set (result.length - 1) Base64.fill).set (result.length - 2) Base64.fill
  else if pad = 1 then result.set (result.length - 1) Base64.fill
  else result

/-- The body of the loop. -/
def encodeRound (data : List UInt8) (pad : Nat) (i : UInt32) (result : List UInt8) : List UInt8 :=
  let result := result ++
    codes (data.getD i.toNat 0) (data.getD (i + 1).toNat 0) (data.getD (i + 2).toNat 0)
  let result := if (i + 3) % 36 = 0 then result ++ lineBreak else result
  if i.toNat = data.length - 3 then patchPadding pad result else result

/-- The loop, for at most `n` tests of its condition. -/
def encodeLoop (data : List UInt8) (pad : Nat) : Nat → UInt32 → List UInt8 → Option (List UInt8)
  | 0, _, _ => none
  | n + 1, i, result =>
    if i.toNat < data.length then
      encodeLoop data pad n (i + 3) (encodeRound data pad i result)
    else some result

/-- `to_base64`, if its loop ends within `n` tests. -/
def toBase64 (n : Nat) (data : List UInt8) : Option (List UInt8) :=
  let (data, pad) := padData 2 data 0
  (encodeLoop data pad n 0 []).map (· ++ lineBreak ++ lineBreak)

/-- The text comes, and is decoded to the data. -/
def RoundTrips (data : List UInt8) : Prop :=
  ∃ n text, toBase64 n data = some text ∧ Base64.decode (Base64.unfolded text) = some data

/-! ## Characters -/

theorem base64codes_eq : base64codes = Base64.alphabet := by decide

theorem code_eq (sextet : UInt8) : code sextet = Base64.digit sextet.toNat := by
  rw [code, Base64.digit, base64codes_eq]

/-- A byte shifted up, and the part of the next one that comes behind it. -/
theorem toNat_sextet (x low : UInt8) (k : Nat) (hk : k < 6) (hlow : low.toNat < 2 ^ k) :
    (((x <<< UInt8.ofNat k) &&& (0x3f : UInt8)) ||| low).toNat = x.toNat * 2 ^ k % 64 + low.toNat := by
  have hshift : (UInt8.ofNat k).toNat % 8 = k := by
    rw [UInt8.toNat_ofNat_of_lt' (by show k < 256; omega)]
    omega
  have hsix : 2 ^ 6 = 2 ^ k * 2 ^ (6 - k) := by
    rw [← Nat.pow_add, Nat.add_sub_of_le (Nat.le_of_lt hk)]
  have hhigh : ((x <<< UInt8.ofNat k) &&& (0x3f : UInt8)).toNat = 2 ^ k * (x.toNat % 2 ^ (6 - k)) := by
    rw [UInt8.toNat_and, UInt8.toNat_shiftLeft, hshift, Nat.shiftLeft_eq]
    show x.toNat * 2 ^ k % 2 ^ 8 &&& (2 ^ 6 - 1) = _
    rw [Nat.and_two_pow_sub_one_eq_mod, Nat.mod_mod_of_dvd _ (by decide), Nat.mul_comm, hsix,
      Nat.mul_mod_mul_left]
  rw [UInt8.toNat_or, hhigh, ← Nat.two_pow_add_eq_or_of_lt hlow, ← Nat.mul_mod_mul_left, ← hsix,
    Nat.mul_comm x.toNat]
  rfl

/-- The characters are those of the standard. -/
theorem codes_eq (x y z : UInt8) : codes x y z = Base64.group x y z := by
  have hx : x.toNat < 256 := x.toNat_lt
  have hy : y.toNat < 256 := y.toNat_lt
  have hz : z.toNat < 256 := z.toNat_lt
  have hy4 : (y >>> 4).toNat = y.toNat / 16 := by
    rw [UInt8.toNat_shiftRight, Nat.shiftRight_eq_div_pow]
    rfl
  have hz6 : (z >>> 6).toNat = z.toNat / 64 := by
    rw [UInt8.toNat_shiftRight, Nat.shiftRight_eq_div_pow]
    rfl
  have h1 : (x >>> 2).toNat = x.toNat / 4 := by
    rw [UInt8.toNat_shiftRight, Nat.shiftRight_eq_div_pow]
    rfl
  have h2 : (((x <<< 4) &&& (0x3f : UInt8)) ||| (y >>> 4)).toNat = x.toNat % 4 * 16 + y.toNat / 16 := by
    rw [← hy4, show x.toNat % 4 * 16 = x.toNat * 2 ^ 4 % 64 by omega]
    exact toNat_sextet x (y >>> 4) 4 (by omega) (by omega)
  have h3 : (((y <<< 2) &&& (0x3f : UInt8)) ||| (z >>> 6)).toNat = y.toNat % 16 * 4 + z.toNat / 64 := by
    rw [← hz6, show y.toNat % 16 * 4 = y.toNat * 2 ^ 2 % 64 by omega]
    exact toNat_sextet y (z >>> 6) 2 (by omega) (by omega)
  have h4 : (z &&& (0x3f : UInt8)).toNat = z.toNat % 64 := by
    rw [UInt8.toNat_and]
    exact Nat.and_two_pow_sub_one_eq_mod _ 6
  simp only [codes, code_eq, Base64.group, h1, h2, h3, h4]

/-! ## The loop -/

/-- How many zeros are missing behind `n` bytes. -/
def padding (n : Nat) : Nat := (3 - n % 3) % 3

theorem padData_eq (data : List UInt8) : padData 2 data 0 =
    (data ++ List.replicate (padding data.length) 0, padding data.length) := by
  have hcases : data.length % 3 = 0 ∨ data.length % 3 = 1 ∨ data.length % 3 = 2 := by omega
  rcases hcases with h | h | h
  · simp [padData, padding, h]
  · simp [padData, padding, h, Nat.add_mod]
  · simp [padData, padding, h, Nat.add_mod]

/-- The break behind group `k`. -/
def breakAt (k : Nat) : List UInt8 := if (k + 1) % 12 = 0 then lineBreak else []

/-- The text for the data from group `k` on. -/
def body : Nat → List UInt8 → List UInt8
  | _, [] => []
  | k, [x] => patchPadding 2 (Base64.group x 0 0 ++ breakAt k)
  | k, [x, y] => patchPadding 1 (Base64.group x y 0 ++ breakAt k)
  | k, x :: y :: z :: rest => Base64.group x y z ++ breakAt k ++ body (k + 1) rest

theorem patchPadding_append (pad : Nat) (result : List UInt8) {text : List UInt8}
    (h : 2 ≤ text.length) :
    patchPadding pad (result ++ text) = result ++ patchPadding pad text := by
  have hback : (result ++ text).length - 1 = result.length + (text.length - 1) := by
    rw [List.length_append]
    omega
  have hbefore : (result ++ text).length - 2 = result.length + (text.length - 2) := by
    rw [List.length_append]
    omega
  unfold patchPadding
  rw [hback, hbefore]
  split
  · rw [List.set_append_right _ _ (by omega), List.set_append_right _ _ (by omega)]
    simp only [Nat.add_sub_cancel_left]
  · split
    · rw [List.set_append_right _ _ (by omega)]
      simp only [Nat.add_sub_cancel_left]
    · rfl

/-- The round for group `k`, before the data `rest`. -/
theorem encodeRound_eq {data before rest : List UInt8} {x y z : UInt8} {k : Nat} (pad : Nat)
    (result : List UInt8) (hdata : data = before ++ x :: y :: z :: rest)
    (hbefore : before.length = 3 * k) (hsize : data.length < 2 ^ 32) :
    encodeRound data pad (UInt32.ofNat (3 * k)) result =
      if rest = [] then result ++ patchPadding pad (Base64.group x y z ++ breakAt k)
      else result ++ (Base64.group x y z ++ breakAt k) := by
  have hlen : data.length = 3 * k + (rest.length + 3) := by
    rw [hdata, List.length_append, hbefore]
    rfl
  have hnat : ∀ j ≤ 3, (UInt32.ofNat (3 * k) + UInt32.ofNat j).toNat = 3 * k + j := by
    intro j hj
    rw [← UInt32.ofNat_add, UInt32.toNat_ofNat_of_lt' (by show _ < 2 ^ 32; omega)]
  have hget : ∀ j, data.getD (3 * k + j) 0 = (x :: y :: z :: rest).getD j 0 := by
    intro j
    rw [hdata, List.getD_eq_getElem?_getD, List.getElem?_append_right (by omega), hbefore,
      Nat.add_sub_cancel_left, ← List.getD_eq_getElem?_getD]
  have hbreak : ((UInt32.ofNat (3 * k) + 3) % 36 = 0) ↔ (k + 1) % 12 = 0 := by
    rw [← UInt32.toNat_inj, UInt32.toNat_mod, show (3 : UInt32) = UInt32.ofNat 3 from rfl,
      hnat 3 le_rfl]
    show (3 * k + 3) % 36 = 0 ↔ _
    omega
  have hlast : 3 * k = data.length - 3 ↔ rest = [] := by
    rw [hlen, ← List.length_eq_zero_iff]
    omega
  have hx : data.getD (UInt32.ofNat (3 * k)).toNat 0 = x := by
    rw [show UInt32.ofNat (3 * k) = UInt32.ofNat (3 * k) + UInt32.ofNat 0 by simp,
      hnat 0 (by omega)]
    exact hget 0
  have hy : data.getD (UInt32.ofNat (3 * k) + 1).toNat 0 = y := by
    rw [show (1 : UInt32) = UInt32.ofNat 1 from rfl, hnat 1 (by omega)]
    exact hget 1
  have hz : data.getD (UInt32.ofNat (3 * k) + 2).toNat 0 = z := by
    rw [show (2 : UInt32) = UInt32.ofNat 2 from rfl, hnat 2 (by omega)]
    exact hget 2
  have htext : (if (UInt32.ofNat (3 * k) + 3) % 36 = 0 then
      result ++ Base64.group x y z ++ lineBreak else result ++ Base64.group x y z) =
        result ++ (Base64.group x y z ++ breakAt k) := by
    unfold breakAt
    by_cases h : (k + 1) % 12 = 0
    · rw [if_pos (hbreak.mpr h), if_pos h, List.append_assoc]
    · rw [if_neg (fun h' => h (hbreak.mp h')), if_neg h, List.append_nil]
  unfold encodeRound
  simp only [hx, hy, hz, codes_eq, htext]
  have hi : (UInt32.ofNat (3 * k)).toNat = 3 * k :=
    UInt32.toNat_ofNat_of_lt' (by show _ < 2 ^ 32; omega)
  rw [hi]
  by_cases hrest : rest = []
  · rw [if_pos (hlast.mpr hrest), if_pos hrest]
    exact patchPadding_append pad result (by simp [Base64.group])
  · rw [if_neg (fun h => hrest (hlast.mp h)), if_neg hrest]

/-- A round, and the loop goes on. -/
theorem encodeLoop_round {data before rest : List UInt8} {x y z : UInt8} {k n : Nat} (pad : Nat)
    (result : List UInt8) (hdata : data = before ++ x :: y :: z :: rest)
    (hbefore : before.length = 3 * k) (hsize : data.length < 2 ^ 32) :
    encodeLoop data pad (n + 1) (UInt32.ofNat (3 * k)) result =
      encodeLoop data pad n (UInt32.ofNat (3 * (k + 1)))
        (if rest = [] then result ++ patchPadding pad (Base64.group x y z ++ breakAt k)
        else result ++ (Base64.group x y z ++ breakAt k)) := by
  have hlt : (UInt32.ofNat (3 * k)).toNat < data.length := by
    have hlen : data.length = 3 * k + (rest.length + 3) := by
      rw [hdata, List.length_append, hbefore]
      rfl
    rw [UInt32.toNat_ofNat_of_lt' (by show _ < 2 ^ 32; omega)]
    omega
  rw [encodeLoop, if_pos hlt, encodeRound_eq pad result hdata hbefore hsize,
    show (3 : UInt32) = UInt32.ofNat 3 from rfl, ← UInt32.ofNat_add]
  rfl

/-- Behind the last group. -/
theorem encodeLoop_end {data : List UInt8} {k n : Nat} (pad : Nat) (result : List UInt8)
    (hlen : data.length = 3 * k) (hsize : data.length < 2 ^ 32) :
    encodeLoop data pad (n + 1) (UInt32.ofNat (3 * k)) result = some result := by
  rw [encodeLoop, UInt32.toNat_ofNat_of_lt' (by show _ < 2 ^ 32; omega), if_neg (by omega)]

/-- **The loop** writes the text group by group. -/
theorem encodeLoop_eq {data rest : List UInt8} {k n : Nat} (result : List UInt8) :
    ∀ before, data = before ++ (rest ++ List.replicate (padding rest.length) 0) →
      before.length = 3 * k → data.length < 2 ^ 32 → rest.length < n →
      encodeLoop data (padding rest.length) n (UInt32.ofNat (3 * k)) result =
        some (result ++ body k rest) := by
  fun_induction body k rest generalizing n result with
  | case1 k =>
    intro before hdata hbefore hsize hn
    obtain ⟨n, rfl⟩ := Nat.exists_eq_succ_of_ne_zero (by omega : n ≠ 0)
    have hlen : data.length = 3 * k := by
      rw [hdata, List.length_append, hbefore]
      rfl
    rw [List.append_nil]
    exact encodeLoop_end _ result hlen hsize
  | case2 k x =>
    intro before hdata hbefore hsize hn
    obtain ⟨n, rfl⟩ := Nat.exists_eq_add_of_le (by simp at hn; omega : 2 ≤ n)
    have hgroup : data = before ++ x :: 0 :: 0 :: [] := hdata
    have hlen : data.length = 3 * (k + 1) := by
      rw [hdata, List.length_append, hbefore]
      rfl
    rw [Nat.add_comm, encodeLoop_round _ result hgroup hbefore hsize, if_pos rfl]
    exact encodeLoop_end _ _ hlen hsize
  | case3 k x y =>
    intro before hdata hbefore hsize hn
    obtain ⟨n, rfl⟩ := Nat.exists_eq_add_of_le (by simp at hn; omega : 2 ≤ n)
    have hgroup : data = before ++ x :: y :: 0 :: [] := hdata
    have hlen : data.length = 3 * (k + 1) := by
      rw [hdata, List.length_append, hbefore]
      rfl
    rw [Nat.add_comm, encodeLoop_round _ result hgroup hbefore hsize, if_pos rfl]
    exact encodeLoop_end _ _ hlen hsize
  | case4 k x y z rest ih =>
    intro before hdata hbefore hsize hn
    have hpad : padding (x :: y :: z :: rest).length = padding rest.length := by
      show (3 - (rest.length + 3) % 3) % 3 = (3 - rest.length % 3) % 3
      omega
    rw [hpad] at hdata ⊢
    obtain ⟨n, rfl⟩ := Nat.exists_eq_succ_of_ne_zero (by omega : n ≠ 0)
    have hgroup : data =
        before ++ x :: y :: z :: (rest ++ List.replicate (padding rest.length) 0) := hdata
    rw [encodeLoop_round _ result hgroup hbefore hsize]
    -- nothing is filled up behind whole groups
    have hround : (if rest ++ List.replicate (padding rest.length) 0 = [] then
        result ++ patchPadding (padding rest.length) (Base64.group x y z ++ breakAt k)
        else result ++ (Base64.group x y z ++ breakAt k)) =
          result ++ (Base64.group x y z ++ breakAt k) := by
      split
      · rename_i hnil
        rw [(List.append_eq_nil_iff.mp hnil).1]
        rfl
      · rfl
    rw [hround, ← List.append_assoc result (_ ++ _)]
    refine ih (result ++ (Base64.group x y z ++ breakAt k)) (before ++ [x, y, z]) ?_ ?_ hsize ?_
    · rw [hdata, List.append_assoc]
      rfl
    · rw [List.length_append, hbefore]
      rfl
    · simp only [List.length_cons] at hn
      omega

/-- The loop counter never reaches the end of data that is longer than it can count. -/
theorem encodeLoop_long {data : List UInt8} (hlong : 2 ^ 32 ≤ data.length) (pad n : Nat)
    (i : UInt32) (result : List UInt8) : encodeLoop data pad n i result = none := by
  induction n generalizing i result with
  | zero => rfl
  | succ n ih =>
    have hi : i.toNat < 2 ^ 32 := i.toNat_lt
    rw [encodeLoop, if_pos (by omega)]
    exact ih ..

/-! ## The text -/

theorem toBase64_short {data : List UInt8} (hsize : data.length < 2 ^ 32) {n : Nat}
    (hn : data.length < n) :
    toBase64 n data = some (body 0 data ++ lineBreak ++ lineBreak) := by
  have hpadded : (data ++ List.replicate (padding data.length) 0).length < 2 ^ 32 := by
    rw [List.length_append, List.length_replicate]
    unfold padding
    omega
  unfold toBase64
  rw [padData_eq]
  simp only
  have hloop := @encodeLoop_eq (data ++ List.replicate (padding data.length) 0) data 0 n [] []
    rfl rfl hpadded hn
  rw [show (0 : UInt32) = UInt32.ofNat (3 * 0) from rfl, hloop]
  rfl

theorem toBase64_long {data : List UInt8} (hlong : 2 ^ 32 ≤ data.length) (n : Nat) :
    toBase64 n data = none := by
  unfold toBase64
  rw [padData_eq]
  simp only
  rw [encodeLoop_long]
  · rfl
  · rw [List.length_append]
    omega

/-- A loop that has ended stays so. -/
theorem encodeLoop_mono {data : List UInt8} {pad n m : Nat} {i : UInt32}
    {result text : List UInt8} (h : encodeLoop data pad n i result = some text) (hnm : n ≤ m) :
    encodeLoop data pad m i result = some text := by
  induction n generalizing m i result with
  | zero => cases h
  | succ n ih =>
    obtain ⟨m, rfl⟩ := Nat.exists_eq_succ_of_ne_zero (by omega : m ≠ 0)
    rw [encodeLoop] at h ⊢
    split at h
    · rename_i hlt
      rw [if_pos hlt]
      exact ih h (by omega)
    · rename_i hlt
      rw [if_neg hlt]
      exact h

/-- The text does not depend on the bound. -/
theorem toBase64_eq {data text : List UInt8} (hsize : data.length < 2 ^ 32) {n : Nat}
    (h : toBase64 n data = some text) : text = body 0 data ++ lineBreak ++ lineBreak := by
  have hmore : toBase64 (n + (data.length + 1)) data = some text := by
    obtain ⟨result, hresult, htext⟩ := Option.map_eq_some_iff.mp h
    exact Option.map_eq_some_iff.mpr
      ⟨result, encodeLoop_mono hresult (Nat.le_add_right _ _), htext⟩
  rw [toBase64_short hsize (by omega)] at hmore
  exact (Option.some.inj hmore).symm

/-! ## Lines and padding -/

theorem unfolded_breakAt (k : Nat) : Base64.unfolded (breakAt k) = [] := by
  unfold breakAt
  split <;> rfl

/-- What is left of the padding, where a line ends behind it and where none does. -/
theorem patchPadding_one (k : Nat) (x : UInt8) :
    patchPadding 2 (Base64.group x 0 0 ++ breakAt k) =
      if (k + 1) % 12 = 0 then Base64.group x 0 0 ++ [Base64.fill, Base64.fill]
      else Base64.group₁ x := by
  unfold breakAt
  split <;> rfl

theorem patchPadding_two (k : Nat) (x y : UInt8) :
    patchPadding 1 (Base64.group x y 0 ++ breakAt k) =
      if (k + 1) % 12 = 0 then Base64.group x y 0 ++ [0x0d, Base64.fill]
      else Base64.group₂ x y := by
  unfold breakAt
  split <;> rfl

/-- The padding meets a line break exactly if the last line would be full. -/
def MeetsBreak (n : Nat) : Prop := n % 36 = 34 ∨ n % 36 = 35

/-- Otherwise the text is the standard's, in lines. -/
theorem unfolded_body {k : Nat} {data : List UInt8} (h : ¬ MeetsBreak (3 * k + data.length)) :
    Base64.unfolded (body k data) = Base64.encode data := by
  unfold MeetsBreak at h
  fun_induction body k data with
  | case1 => rfl
  | case2 k x =>
    simp only [List.length_singleton] at h
    rw [patchPadding_one, if_neg (by omega)]
    exact Base64.unfolded_group₁ x
  | case3 k x y =>
    simp only [List.length_cons, List.length_nil] at h
    rw [patchPadding_two, if_neg (by omega)]
    exact Base64.unfolded_group₂ x y
  | case4 k x y z rest ih =>
    simp only [List.length_cons] at h
    rw [Base64.unfolded_append, Base64.unfolded_append, Base64.unfolded_group, unfolded_breakAt,
      List.append_nil, ih (by omega)]
    rfl

/-- Where it does, the `=` come behind a whole group. -/
theorem length_unfolded_body {k : Nat} {data : List UInt8}
    (h : MeetsBreak (3 * k + data.length)) :
    (Base64.unfolded (body k data)).length % 4 ≠ 0 := by
  unfold MeetsBreak at h
  fun_induction body k data with
  | case1 k =>
    simp only [List.length_nil] at h
    omega
  | case2 k x =>
    simp only [List.length_singleton] at h
    rw [patchPadding_one, if_pos (by omega), Base64.unfolded_append, Base64.unfolded_group]
    show 6 % 4 ≠ 0
    decide
  | case3 k x y =>
    simp only [List.length_cons, List.length_nil] at h
    rw [patchPadding_two, if_pos (by omega), Base64.unfolded_append, Base64.unfolded_group]
    show 5 % 4 ≠ 0
    decide
  | case4 k x y z rest ih =>
    simp only [List.length_cons] at h
    have hrest := ih (by omega)
    rw [Base64.unfolded_append, Base64.unfolded_append, Base64.unfolded_group, unfolded_breakAt,
      List.append_nil, List.length_append]
    show (4 + _) % 4 ≠ 0
    omega

/-- The breaks at the end do not matter. -/
theorem unfolded_end (text : List UInt8) :
    Base64.unfolded (text ++ lineBreak ++ lineBreak) = Base64.unfolded text := by
  rw [Base64.unfolded_append, Base64.unfolded_append]
  exact (List.append_nil _).trans (List.append_nil _)

theorem RoundTrips.size {data : List UInt8} (h : RoundTrips data) : data.length < 2 ^ 32 := by
  obtain ⟨n, text, htext, -⟩ := h
  by_contra hlong
  rw [toBase64_long (Nat.le_of_not_lt hlong)] at htext
  cases htext

theorem not_roundTrips {data : List UInt8} (hmeets : MeetsBreak data.length) :
    ¬ RoundTrips data := by
  intro h
  obtain ⟨n, text, htext, hdecode⟩ := h
  rw [toBase64_eq (RoundTrips.size ⟨n, text, htext, hdecode⟩) htext, unfolded_end] at hdecode
  rw [← Nat.zero_add data.length] at hmeets
  exact @length_unfolded_body 0 data hmeets (Base64.length_of_decode hdecode)

/-- **When the text can be read back**: if the padding meets no line break and the loop can
count to the end of the data. -/
theorem roundTrips_iff (data : List UInt8) :
    RoundTrips data ↔ ¬ MeetsBreak data.length ∧ data.length < 2 ^ 32 := by
  constructor
  · intro h
    exact ⟨fun hmeets => not_roundTrips hmeets h, h.size⟩
  · rintro ⟨hmeets, hsize⟩
    rw [← Nat.zero_add data.length] at hmeets
    refine ⟨data.length + 1, _, toBase64_short hsize (Nat.lt_succ_self _), ?_⟩
    rw [unfolded_end, @unfolded_body 0 data hmeets, Base64.decode_encode]

/-- The text of 34 zeros. -/
theorem zeros_not_roundTrip : ¬ RoundTrips (List.replicate 34 0) := not_roundTrips (.inl rfl)

end Hexabus.Asm
