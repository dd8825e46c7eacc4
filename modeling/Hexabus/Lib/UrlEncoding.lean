import Mathlib.Tactic

/-!
# Form encoding

How a browser writes the value of a form field into a request, and how it is read back: a blank is
`+`, and a byte that could be taken for something else is `%` with its two hexadecimal digits. A `%`
without two digits behind it stands for itself.
-/

namespace Hexabus.Lib.UrlEncoding

def plus : UInt8 := 0x2B
def space : UInt8 := 0x20
def percent : UInt8 := 0x25

/-- The value of a hexadecimal digit. -/
def hexValue (b : UInt8) : Option UInt8 :=
  if 0x30 ≤ b ∧ b ≤ 0x39 then some (b - 0x30)
  else if 0x41 ≤ b ∧ b ≤ 0x46 then some (b - 0x41 + 10)
  else if 0x61 ≤ b ∧ b ≤ 0x66 then some (b - 0x61 + 10)
  else none

/-- The byte that three bytes stand for, if they are an escape. -/
def escape (b high low : UInt8) : Option UInt8 :=
  if b = percent then
    (hexValue high).bind fun x => (hexValue low).map fun y => 16 * x + y
  else none

/-- What a byte stands for alone. -/
def plain (b : UInt8) : UInt8 := if b = plus then space else b

def decode : List UInt8 → List UInt8
  | b :: high :: low :: rest =>
    match escape b high low with
    | some c => c :: decode rest
    | none => plain b :: decode (high :: low :: rest)
  | b :: rest => plain b :: decode rest
  | [] => []

/-! ## What decoding does with one byte -/

@[simp] theorem decode_nil : decode [] = [] := rfl

theorem decode_escape {b high low c : UInt8} (rest : List UInt8)
    (h : escape b high low = some c) : decode (b :: high :: low :: rest) = c :: decode rest := by
  rw [decode, h]

theorem escape_of_ne {b : UInt8} (high low : UInt8) (h : b ≠ percent) :
    escape b high low = none := if_neg h

theorem decode_cons_of_ne {b : UInt8} (rest : List UInt8) (h : b ≠ percent) :
    decode (b :: rest) = plain b :: decode rest := by
  match rest with
  | [] => rfl
  | [_] => rfl
  | high :: low :: rest => rw [decode, escape_of_ne high low h]

theorem escape_eq_none_or (b high low : UInt8) :
    escape b high low = none ∨ ∃ c, escape b high low = some c := by
  cases h : escape b high low with
  | none => exact .inl rfl
  | some c => exact .inr ⟨c, rfl⟩

/-- An escape is a percent sign with two digits. -/
theorem escape_isSome_iff {b high low : UInt8} :
    (escape b high low).isSome ↔
      b = percent ∧ (hexValue high).isSome ∧ (hexValue low).isSome := by
  unfold escape
  by_cases h : b = percent
  · cases hexValue high <;> cases hexValue low <;> simp [h]
  · simp [h]

theorem plain_eq_self_iff {b : UInt8} : plain b = b ↔ b ≠ plus := by
  unfold plain
  by_cases h : b = plus
  · subst h
    decide
  · simp [h]

/-- Decoding never makes a value longer. -/
theorem length_decode_le (bs : List UInt8) : (decode bs).length ≤ bs.length := by
  fun_induction decode bs with
  | case1 b high low rest c h ih =>
    simp only [List.length_cons]
    omega
  | case2 b high low rest h ih =>
    simp only [List.length_cons] at ih ⊢
    omega
  | case3 b rest h ih =>
    simp only [List.length_cons]
    omega
  | case4 => simp

/-! ## Values that decoding leaves alone -/

/-- Without a `+`, and without a `%` that has two hexadecimal digits behind it. -/
def Unencoded (bs : List UInt8) : Prop :=
  plus ∉ bs ∧
    ∀ high low, (hexValue high).isSome → (hexValue low).isSome → ¬ [percent, high, low] <:+: bs

theorem unencoded_nil : Unencoded [] := by
  constructor
  · simp
  · intro high low _ _ h
    simp at h

theorem unencoded_cons {b : UInt8} {bs : List UInt8} :
    Unencoded (b :: bs) ↔
      b ≠ plus ∧ (∀ high low rest, bs = high :: low :: rest → escape b high low = none) ∧
        Unencoded bs := by
  constructor
  · intro h
    have hplus : plus ≠ b ∧ plus ∉ bs := by simpa using h.1
    refine ⟨fun hb => hplus.1 hb.symm, ?_, hplus.2, ?_⟩
    · intro high low rest hbs
      rcases escape_eq_none_or b high low with hnone | ⟨c, hc⟩
      · exact hnone
      · have hsome := escape_isSome_iff.mp (Option.isSome_of_mem hc)
        refine absurd ?_ (h.2 high low hsome.2.1 hsome.2.2)
        rw [hbs, hsome.1]
        exact ⟨[], rest, rfl⟩
    · intro high low hhigh hlow hin
      exact h.2 high low hhigh hlow (hin.trans (List.suffix_cons b bs).isInfix)
  · intro ⟨hb, hescape, hbs⟩
    have hplus : plus ∉ b :: bs := by
      simpa using ⟨fun h => hb h.symm, hbs.1⟩
    refine ⟨hplus, ?_⟩
    intro high low hhigh hlow hin
    rcases List.infix_cons_iff.mp hin with ⟨rest, hrest⟩ | hin
    · simp only [List.cons_append, List.nil_append, List.cons.injEq] at hrest
      have hnone := hescape high low rest hrest.2.symm
      have hsome := escape_isSome_iff.mpr ⟨hrest.1.symm, hhigh, hlow⟩
      rw [hnone] at hsome
      exact absurd hsome (by simp)
    · exact hbs.2 high low hhigh hlow hin

/-- **Decoding leaves a value alone** if and only if nothing in it is encoded. -/
theorem decode_eq_self_iff (bs : List UInt8) : decode bs = bs ↔ Unencoded bs := by
  fun_induction decode bs with
  | case1 b high low rest c h ih =>
    constructor
    · intro heq
      -- the escape is gone, and nothing makes up for its length
      have hlen := congrArg List.length heq
      have hle := length_decode_le rest
      simp only [List.length_cons] at hlen
      omega
    · intro hun
      have hnone := (unencoded_cons.mp hun).2.1 high low rest rfl
      rw [h] at hnone
      exact absurd hnone (by simp)
  | case2 b high low rest h ih =>
    rw [List.cons.injEq, plain_eq_self_iff, ih, unencoded_cons (b := b)]
    constructor
    · intro ⟨hb, hrest⟩
      refine ⟨hb, ?_, hrest⟩
      intro x y zs heq
      simp only [List.cons.injEq] at heq
      rw [← heq.1, ← heq.2.1]
      exact h
    · intro ⟨hb, _, hrest⟩
      exact ⟨hb, hrest⟩
  | case3 b rest h ih =>
    rw [List.cons.injEq, plain_eq_self_iff, ih, unencoded_cons (b := b)]
    constructor
    · intro ⟨hb, hrest⟩
      exact ⟨hb, fun x y zs heq => absurd heq (h x y zs), hrest⟩
    · intro ⟨hb, _, hrest⟩
      exact ⟨hb, hrest⟩
  | case4 => simp [unencoded_nil]

/-! ## What a browser writes -/

def hexDigit (n : UInt8) : UInt8 := if n < 10 then 0x30 + n else 0x41 + (n - 10)

/-- Letters, digits and `*`, `-`, `.`, `_` are written as they are. -/
def Unreserved (b : UInt8) : Prop :=
  (0x30 ≤ b ∧ b ≤ 0x39) ∨ (0x41 ≤ b ∧ b ≤ 0x5A) ∨ (0x61 ≤ b ∧ b ≤ 0x7A) ∨
    b ∈ ([0x2A, 0x2D, 0x2E, 0x5F] : List UInt8)

instance (b : UInt8) : Decidable (Unreserved b) :=
  inferInstanceAs (Decidable (_ ∨ _))

def encodeByte (b : UInt8) : List UInt8 :=
  if Unreserved b then [b]
  else if b = space then [plus]
  else [percent, hexDigit (b / 16), hexDigit (b % 16)]

def encode (bs : List UInt8) : List UInt8 := bs.flatMap encodeByte

theorem hexValue_hexDigit {n : UInt8} (h : n < 16) : hexValue (hexDigit n) = some n := by
  have hall : ∀ k < 16, hexValue (hexDigit (UInt8.ofNat k)) = some (UInt8.ofNat k) := by decide
  simpa using hall n.toNat (UInt8.lt_iff_toNat_lt.mp h)

theorem unreserved_hexDigit {n : UInt8} (h : n < 16) : Unreserved (hexDigit n) := by
  have hall : ∀ k < 16, Unreserved (hexDigit (UInt8.ofNat k)) := by decide
  simpa using hall n.toNat (UInt8.lt_iff_toNat_lt.mp h)

theorem highDigit_lt (b : UInt8) : b / 16 < 16 := by
  rw [UInt8.lt_iff_toNat_lt, UInt8.toNat_div]
  show b.toNat / 16 < 16
  have hb := b.toNat_lt
  omega

theorem lowDigit_lt (b : UInt8) : b % 16 < 16 := by
  rw [UInt8.lt_iff_toNat_lt, UInt8.toNat_mod]
  exact Nat.mod_lt _ (by decide)

theorem escape_hexDigits (b : UInt8) :
    escape percent (hexDigit (b / 16)) (hexDigit (b % 16)) = some b := by
  have hsum : 16 * (b / 16) + b % 16 = b := by
    apply UInt8.toNat_inj.mp
    have hb := b.toNat_lt
    rw [UInt8.toNat_add, UInt8.toNat_mul, UInt8.toNat_div, UInt8.toNat_mod]
    show (16 * (b.toNat / 16) % 256 + b.toNat % 16) % 256 = b.toNat
    omega
  simp [escape, hexValue_hexDigit (highDigit_lt b), hexValue_hexDigit (lowDigit_lt b), hsum]

theorem Unreserved.ne_of {b c : UInt8} (h : Unreserved b) (hc : ¬ Unreserved c) : b ≠ c :=
  fun heq => hc (heq ▸ h)

theorem decode_encodeByte (b : UInt8) (rest : List UInt8) :
    decode (encodeByte b ++ rest) = b :: decode rest := by
  unfold encodeByte
  split
  next h =>
    have hpercent : b ≠ percent := h.ne_of (by decide)
    have hplus : b ≠ plus := h.ne_of (by decide)
    show decode (b :: rest) = b :: decode rest
    rw [decode_cons_of_ne rest hpercent, plain_eq_self_iff.mpr hplus]
  next h =>
    split
    next hspace =>
      show decode (plus :: rest) = b :: decode rest
      rw [decode_cons_of_ne rest (by decide), hspace]
      rfl
    next => exact decode_escape rest (escape_hexDigits b)

/-- **What a browser writes is read back.** -/
theorem decode_encode (bs : List UInt8) : decode (encode bs) = bs := by
  induction bs with
  | nil => rfl
  | cons b bs ih =>
    show decode (encodeByte b ++ encode bs) = b :: bs
    rw [decode_encodeByte, ih]

/-- A byte that delimits fields is not in what a browser writes. -/
theorem not_mem_encode {d : UInt8} (hd : ¬ Unreserved d) (hplus : d ≠ plus)
    (hpercent : d ≠ percent) (bs : List UInt8) : d ∉ encode bs := by
  intro hmem
  obtain ⟨b, _, hb⟩ := List.mem_flatMap.mp hmem
  unfold encodeByte at hb
  split at hb
  next h => exact hd (by simpa using (List.mem_singleton.mp hb) ▸ h)
  next h =>
    split at hb
    next => exact hplus (List.mem_singleton.mp hb)
    next =>
      have hhigh : Unreserved (hexDigit (b / 16)) := unreserved_hexDigit (highDigit_lt b)
      have hlow : Unreserved (hexDigit (b % 16)) := unreserved_hexDigit (lowDigit_lt b)
      simp only [List.mem_cons, List.not_mem_nil, or_false] at hb
      rcases hb with hb | hb | hb
      · exact hpercent hb
      · exact hd (hb ▸ hhigh)
      · exact hd (hb ▸ hlow)

theorem length_le_encode (bs : List UInt8) : bs.length ≤ (encode bs).length := by
  have h := length_decode_le (encode bs)
  rw [decode_encode] at h
  exact h

/-- A value is written as it is if and only if all its bytes are. -/
theorem encode_eq_self_iff (bs : List UInt8) : encode bs = bs ↔ ∀ b ∈ bs, Unreserved b := by
  induction bs with
  | nil => simp [encode]
  | cons b bs ih =>
    have hcons : encode (b :: bs) = encodeByte b ++ encode bs := rfl
    rw [hcons, List.forall_mem_cons]
    unfold encodeByte
    split
    next h => simp [h, ih]
    next h =>
      split
      next hspace =>
        simp [hspace, show plus ≠ space by decide, show ¬ Unreserved space by decide]
      next =>
        constructor
        · intro heq
          -- three bytes for one, and none of the others gets shorter
          have hlen := congrArg List.length heq
          have hle := length_le_encode bs
          simp at hlen
          omega
        · intro hall
          exact absurd hall.1 h

/-- What a browser writes is free of encoding if and only if it is what was entered. -/
theorem unencoded_encode_iff (bs : List UInt8) :
    Unencoded (encode bs) ↔ ∀ b ∈ bs, Unreserved b := by
  rw [← decode_eq_self_iff, decode_encode, eq_comm, encode_eq_self_iff]

/-! ## Values filled up with zeros -/

theorem hexValue_zero : hexValue 0 = none := by decide

theorem decode_append_zero (bs : List UInt8) : decode (bs ++ [0]) = decode bs ++ [0] := by
  fun_induction decode bs with
  | case1 b high low rest c h ih =>
    simp only [List.cons_append, decode_escape _ h, ih]
  | case2 b high low rest h ih =>
    simp only [List.cons_append] at ih ⊢
    rw [decode, h]
    simp [ih]
  | case3 b rest h ih =>
    match rest with
    | [] => rfl
    | [high] =>
      have hnone : escape b high 0 = none := by
        simp [escape, hexValue_zero]
      simp [decode, hnone, show plain 0 = 0 from rfl]
    | high :: low :: rest => exact absurd rfl (h high low rest)
  | case4 => rfl

/-- Zeros behind a value do not make up for what decoding takes away. -/
theorem decode_eq_of_zeros {bs : List UInt8} {i j : Nat}
    (h : decode bs ++ List.replicate i 0 = bs ++ List.replicate j 0) : decode bs = bs := by
  induction bs using List.reverseRecOn generalizing i j with
  | nil => rfl
  | append_singleton bs b ih =>
    by_cases hb : b = 0
    · subst hb
      rw [decode_append_zero] at h ⊢
      have hshift : decode bs ++ List.replicate (i + 1) 0 = bs ++ List.replicate (j + 1) 0 := by
        simpa [List.replicate_succ, List.append_assoc] using h
      rw [ih hshift]
    · -- the last byte is not zero, so nothing is filled up before it
      have hle := length_decode_le (bs ++ [b])
      have hlen : ¬ (decode (bs ++ [b])).length < (bs ++ [b]).length := by
        intro hlt
        have hget := congrArg (·[bs.length]?) h
        simp only [List.length_append, List.length_singleton] at hlt
        simp only [List.append_assoc] at hget
        rw [List.getElem?_append_right (by omega), List.getElem?_append_right le_rfl] at hget
        simp [List.getElem?_replicate] at hget
        exact hb hget.2.symm
      exact (List.append_inj h (by omega)).1

end Hexabus.Lib.UrlEncoding
