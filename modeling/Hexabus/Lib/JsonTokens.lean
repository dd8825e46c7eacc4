import Mathlib.Data.List.TakeWhile
import Mathlib.Tactic

/-!
# The tokens of a JSON text

A JSON text is a sequence of tokens: the structural characters, strings, numbers and three
literal names. The text is read byte by byte. Outside of strings only ASCII occurs; inside,
the bytes are UTF-8, and a backslash starts an escape sequence.
-/

namespace Hexabus.Lib.Json

/-- A text of ASCII characters. -/
def ascii (text : String) : List UInt8 := text.toList.map fun c => UInt8.ofNat c.toNat

/-! ## UTF-8 -/

/-- Between two bytes: at the boundary of two characters, or within one. `tails n` waits for
`n + 1` more bytes; after four of the first bytes the second one has closer bounds. -/
inductive Utf8 where
  | boundary
  | tails (n : Nat)
  | afterE0
  | afterED
  | afterF0
  | afterF4
  deriving DecidableEq

/-- The next byte, `none` where it belongs to no character. -/
def Utf8.step : Utf8 → UInt8 → Option Utf8
  | .boundary, b =>
    if b < 0x80 then some .boundary
    else if 0xC2 ≤ b ∧ b ≤ 0xDF then some (.tails 0)
    else if b = 0xE0 then some .afterE0
    else if b = 0xED then some .afterED
    else if 0xE1 ≤ b ∧ b ≤ 0xEF then some (.tails 1)
    else if b = 0xF0 then some .afterF0
    else if b = 0xF4 then some .afterF4
    else if 0xF1 ≤ b ∧ b ≤ 0xF3 then some (.tails 2)
    else none
  | .tails 0, b => if 0x80 ≤ b ∧ b ≤ 0xBF then some .boundary else none
  | .tails (n + 1), b => if 0x80 ≤ b ∧ b ≤ 0xBF then some (.tails n) else none
  | .afterE0, b => if 0xA0 ≤ b ∧ b ≤ 0xBF then some (.tails 0) else none
  | .afterED, b => if 0x80 ≤ b ∧ b ≤ 0x9F then some (.tails 0) else none
  | .afterF0, b => if 0x90 ≤ b ∧ b ≤ 0xBF then some (.tails 1) else none
  | .afterF4, b => if 0x80 ≤ b ∧ b ≤ 0x8F then some (.tails 1) else none

/-- The bytes are whole characters. -/
def IsUtf8 (bytes : List UInt8) : Prop := bytes.foldlM Utf8.step .boundary = some .boundary

instance (bytes : List UInt8) : Decidable (IsUtf8 bytes) :=
  inferInstanceAs (Decidable (_ = _))

/-- A character of ASCII stands between the others. -/
theorem Utf8.step_ascii (u : Utf8) {b : UInt8} (hb : b < 0x80) :
    u.step b = if u = .boundary then some .boundary else none := by
  have hlow : ∀ low : UInt8, 0x80 ≤ low → ¬ low ≤ b := by
    intro low hlow h
    exact absurd (UInt8.lt_of_lt_of_le hb hlow) (UInt8.not_lt.mpr h)
  cases u with
  | boundary => exact if_pos hb
  | tails n =>
    cases n with
    | zero => exact if_neg fun h => hlow _ (by decide) h.1
    | succ n => exact if_neg fun h => hlow _ (by decide) h.1
  | _ => exact if_neg fun h => hlow _ (by decide) h.1

/-- The bytes of a code point. -/
def utf8Bytes (n : Nat) : List UInt8 :=
  if n < 0x80 then [UInt8.ofNat n]
  else if n < 0x800 then [UInt8.ofNat (0xC0 + n / 0x40), UInt8.ofNat (0x80 + n % 0x40)]
  else if n < 0x10000 then
    [UInt8.ofNat (0xE0 + n / 0x1000), UInt8.ofNat (0x80 + n / 0x40 % 0x40),
      UInt8.ofNat (0x80 + n % 0x40)]
  else
    [UInt8.ofNat (0xF0 + n / 0x40000), UInt8.ofNat (0x80 + n / 0x1000 % 0x40),
      UInt8.ofNat (0x80 + n / 0x40 % 0x40), UInt8.ofNat (0x80 + n % 0x40)]

/-! ## Strings -/

/-- An element of a string: a byte, or a code unit that is written with four digits. -/
inductive Element where
  | octet (b : UInt8)
  | codeUnit (n : Nat)

/-- The bytes of a string. Two surrogates are one code point; one without the other is kept. -/
def octets : List Element → List UInt8
  | [] => []
  | .octet b :: elements => b :: octets elements
  | .codeUnit high :: .codeUnit low :: elements =>
    if 0xD800 ≤ high ∧ high < 0xDC00 ∧ 0xDC00 ≤ low ∧ low < 0xE000 then
      utf8Bytes (0x10000 + (high - 0xD800) * 0x400 + (low - 0xDC00)) ++ octets elements
    else utf8Bytes high ++ octets (.codeUnit low :: elements)
  | .codeUnit n :: elements => utf8Bytes n ++ octets elements

theorem length_utf8Bytes (n : Nat) : (utf8Bytes n).length ≤ 4 := by
  unfold utf8Bytes
  split_ifs <;> simp

theorem octets_map_octet (bytes : List UInt8) : octets (bytes.map .octet) = bytes := by
  induction bytes with
  | nil => rfl
  | cons b bytes ih => exact congrArg (b :: ·) ih

/-- A code unit that is not the first of two surrogates stands by itself. -/
theorem octets_codeUnit {n : Nat} (h : ¬ (0xD800 ≤ n ∧ n < 0xDC00)) (elements : List Element) :
    octets (.codeUnit n :: elements) = utf8Bytes n ++ octets elements := by
  match elements with
  | [] => rfl
  | .octet b :: elements => rfl
  | .codeUnit low :: elements => exact if_neg fun hpair => h ⟨hpair.1, hpair.2.1⟩

theorem length_octets_codeUnit (n : Nat) (elements : List Element) :
    (octets (.codeUnit n :: elements)).length ≤ 4 + (octets elements).length := by
  match elements with
  | [] => exact (List.length_append ..).trans_le (Nat.add_le_add_right (length_utf8Bytes n) _)
  | .octet b :: elements =>
    exact (List.length_append ..).trans_le (Nat.add_le_add_right (length_utf8Bytes n) _)
  | .codeUnit low :: elements =>
    rw [octets]
    split
    · rename_i hpair
      rw [@octets_codeUnit low (by omega), List.length_append, List.length_append]
      have hlength := length_utf8Bytes
        (0x10000 + (n - 0xD800) * 0x400 + (low - 0xDC00))
      omega
    · rw [List.length_append]
      exact Nat.add_le_add_right (length_utf8Bytes n) _

/-- The characters that a backslash and one more character stand for. -/
def escaped (b : UInt8) : Option UInt8 :=
  if b = 0x22 then some 0x22
  else if b = 0x5C then some 0x5C
  else if b = 0x2F then some 0x2F
  else if b = 0x62 then some 0x08
  else if b = 0x66 then some 0x0C
  else if b = 0x6E then some 0x0A
  else if b = 0x72 then some 0x0D
  else if b = 0x74 then some 0x09
  else none

/-- The value of a hexadecimal digit. -/
def hexDigit (b : UInt8) : Option Nat :=
  if 0x30 ≤ b ∧ b ≤ 0x39 then some (b.toNat - 0x30)
  else if 0x41 ≤ b ∧ b ≤ 0x46 then some (b.toNat - 0x41 + 10)
  else if 0x61 ≤ b ∧ b ≤ 0x66 then some (b.toNat - 0x61 + 10)
  else none

/-! ## Numbers -/

def isDigit (b : UInt8) : Bool := decide (0x30 ≤ b ∧ b ≤ 0x39)

/-- What follows at least one digit. -/
def afterDigits : List UInt8 → Option (List UInt8)
  | [] => none
  | b :: text => if isDigit b then some (text.dropWhile isDigit) else none

/-- `-`. -/
def afterMinus : List UInt8 → List UInt8
  | [] => []
  | b :: text => if b = 0x2D then text else b :: text

/-- `0`, or digits of which the first is not `0`. -/
def afterInteger : List UInt8 → Option (List UInt8)
  | [] => none
  | b :: text => if b = 0x30 then some text else afterDigits (b :: text)

/-- A point and digits, or nothing. -/
def afterFraction : List UInt8 → Option (List UInt8)
  | [] => some []
  | b :: text => if b = 0x2E then afterDigits text else some (b :: text)

/-- `e` or `E`, a sign or none and digits, or nothing. -/
def afterExponent : List UInt8 → Option (List UInt8)
  | [] => some []
  | b :: text =>
    if b = 0x65 ∨ b = 0x45 then
      match text with
      | [] => none
      | sign :: text' =>
        if sign = 0x2B ∨ sign = 0x2D then afterDigits text' else afterDigits (sign :: text')
    else some (b :: text)

/-- The text is a number. -/
def isNumber (text : List UInt8) : Bool :=
  ((afterInteger (afterMinus text)).bind afterFraction).bind afterExponent == some []

/-! ## Tokens -/

inductive Token where
  | beginArray
  | beginObject
  | endArray
  | endObject
  | nameSeparator
  | valueSeparator
  | null
  | bool (b : Bool)
  | number (text : List UInt8)
  | string (value : List UInt8)

/-- The structural characters. -/
def structural (b : UInt8) : Option Token :=
  if b = 0x5B then some .beginArray
  else if b = 0x7B then some .beginObject
  else if b = 0x5D then some .endArray
  else if b = 0x7D then some .endObject
  else if b = 0x3A then some .nameSeparator
  else if b = 0x2C then some .valueSeparator
  else none

/-- A number or a literal name. -/
def wordToken (word : List UInt8) : Option Token :=
  if word = ascii "null" then some .null
  else if word = ascii "true" then some (.bool true)
  else if word = ascii "false" then some (.bool false)
  else if isNumber word then some (.number word)
  else none

/-- Digits, letters, and the other characters of numbers. -/
def isWord (b : UInt8) : Bool :=
  decide (isDigit b ∨ (0x41 ≤ b ∧ b ≤ 0x5A) ∨ (0x61 ≤ b ∧ b ≤ 0x7A) ∨ b = 0x2B ∨ b = 0x2D ∨
    b = 0x2E)

def isSpace (b : UInt8) : Bool := decide (b = 0x20 ∨ b = 0x09 ∨ b = 0x0A ∨ b = 0x0D)

/-- Where the reader is. What it has read of a token is in reverse. -/
inductive Mode where
  | between
  | word (bytes : List UInt8)
  | string (u : Utf8) (elements : List Element)
  | escape (elements : List Element)
  | unicode (digits : List Nat) (elements : List Element)

/-- The tokens before, in reverse, and where the reader is. -/
structure Reader where
  tokens : List Token
  mode : Mode

/-- The tokens up to here, if no string is open. -/
def Reader.closed (r : Reader) : Option (List Token) :=
  match r.mode with
  | .between => some r.tokens
  | .word bytes => (wordToken bytes.reverse).map (· :: r.tokens)
  | _ => none

/-- A byte outside of strings. -/
def Reader.outside (r : Reader) (b : UInt8) : Option Reader :=
  r.closed.bind fun tokens =>
    if isSpace b then some ⟨tokens, .between⟩
    else if b = 0x22 then some ⟨tokens, .string .boundary []⟩
    else (structural b).map fun token => ⟨token :: tokens, .between⟩

/-- The next byte. -/
def Reader.step (r : Reader) (b : UInt8) : Option Reader :=
  match r.mode with
  | .between => if isWord b then some ⟨r.tokens, .word [b]⟩ else r.outside b
  | .word bytes => if isWord b then some ⟨r.tokens, .word (b :: bytes)⟩ else r.outside b
  | .string u elements =>
    if b < 0x20 then none
    else if u = .boundary ∧ b = 0x22 then
      some ⟨.string (octets elements.reverse) :: r.tokens, .between⟩
    else if u = .boundary ∧ b = 0x5C then some ⟨r.tokens, .escape elements⟩
    else (u.step b).map fun u => ⟨r.tokens, .string u (.octet b :: elements)⟩
  | .escape elements =>
    if b = 0x75 then some ⟨r.tokens, .unicode [] elements⟩
    else (escaped b).map fun c => ⟨r.tokens, .string .boundary (.octet c :: elements)⟩
  | .unicode digits elements =>
    (hexDigit b).map fun digit =>
      if digits.length = 3 then
        ⟨r.tokens, .string .boundary (.codeUnit (Nat.ofDigits 16 (digit :: digits)) :: elements)⟩
      else ⟨r.tokens, .unicode (digit :: digits) elements⟩

/-- The reader after some bytes. -/
def Reader.run (r : Reader) (text : List UInt8) : Option Reader := text.foldlM Reader.step r

/-- The tokens of a text. -/
def tokens (text : List UInt8) : Option (List Token) :=
  ((Reader.run ⟨[], .between⟩ text).bind Reader.closed).map List.reverse

@[simp] theorem Reader.run_nil (r : Reader) : r.run [] = some r := rfl

@[simp] theorem Reader.run_cons (r : Reader) (b : UInt8) (text : List UInt8) :
    r.run (b :: text) = (r.step b).bind fun r => r.run text := rfl

theorem Reader.run_append (r : Reader) (text more : List UInt8) :
    r.run (text ++ more) = (r.run text).bind fun r => r.run more :=
  List.foldlM_append

/-! ## Decimal numbers -/

/-- The digits of a number. -/
def decimal (n : Nat) : List UInt8 := (Nat.toDigits 10 n).map fun c => UInt8.ofNat c.toNat

/-- The number that some digits denote. -/
def natural? (text : List UInt8) : Option Nat :=
  if text.all isDigit then some (text.foldl (fun n b => 10 * n + (b.toNat - 0x30)) 0) else none

theorem toNat_of_isDigit {c : Char} (h : c.isDigit = true) :
    (UInt8.ofNat c.toNat).toNat = c.toNat := by
  have hle : c.toNat ≤ 57 := (Char.isDigit_iff_toNat.mp h).2
  rw [UInt8.toNat_ofNat']
  omega

theorem isDigit_of_mem_decimal {n : Nat} {b : UInt8} (h : b ∈ decimal n) : isDigit b = true := by
  obtain ⟨c, hc, rfl⟩ := List.mem_map.mp h
  have hdigit := Nat.isDigit_of_mem_toDigits (by decide) (by decide) hc
  have hbounds := Char.isDigit_iff_toNat.mp hdigit
  unfold isDigit
  rw [decide_eq_true_iff, UInt8.le_iff_toNat_le, UInt8.le_iff_toNat_le, toNat_of_isDigit hdigit]
  exact hbounds

theorem natural?_decimal (n : Nat) : natural? (decimal n) = some n := by
  have hall : (decimal n).all isDigit = true :=
    List.all_eq_true.mpr fun _ hb => isDigit_of_mem_decimal hb
  unfold natural?
  rw [if_pos hall]
  unfold decimal
  rw [List.foldl_map]
  have hfold : ∀ (digits : List Char) (m : Nat), (∀ c ∈ digits, c.isDigit = true) →
      digits.foldl (fun m c => 10 * m + ((UInt8.ofNat c.toNat).toNat - 0x30)) m =
        Nat.ofDigitChars 10 digits m := by
    intro digits
    induction digits with
    | nil => exact fun _ _ => rfl
    | cons c digits ih =>
      intro m hdigits
      rw [List.foldl_cons, Nat.ofDigitChars_cons, toNat_of_isDigit (hdigits c List.mem_cons_self)]
      exact ih _ fun c hc => hdigits c (List.mem_cons_of_mem _ hc)
  rw [hfold _ 0 fun c hc => Nat.isDigit_of_mem_toDigits (by decide) (by decide) hc,
    Nat.ofDigitChars_ten_toDigits]

/-- The number at the end of a text, after something that is not a digit. -/
theorem decimal_append_inj {b : UInt8} (hb : isDigit b = false) {text text' : List UInt8} {n m : Nat}
    (h : text ++ b :: decimal n = text' ++ b :: decimal m) : n = m := by
  have key : ∀ (text : List UInt8) (n : Nat),
      ((text ++ b :: decimal n).reverse.takeWhile isDigit).reverse = decimal n := by
    intro text n
    rw [List.reverse_append, List.reverse_cons, List.append_assoc,
      List.takeWhile_append_of_pos fun b hb => isDigit_of_mem_decimal (List.mem_reverse.mp hb),
      List.singleton_append, List.takeWhile_cons_of_neg (by rw [hb]; exact Bool.false_ne_true),
      List.append_nil, List.reverse_reverse]
  have hdecimal : decimal n = decimal m := by rw [← key text n, h, key]
  have hnatural := congrArg natural? hdecimal
  rw [natural?_decimal, natural?_decimal] at hnatural
  exact Option.some.inj hnatural

/-- Only the number zero begins with the digit zero. -/
theorem decimal_eq_cons (n : Nat) :
    ∃ b digits, decimal n = b :: digits ∧ (b = 0x30 → digits = []) := by
  induction n using Nat.strong_induction_on with
  | _ n ih =>
    unfold decimal
    rw [Nat.toDigits_eq_if (by decide)]
    split
    · exact ⟨_, [], rfl, fun _ => rfl⟩
    · rename_i hge
      obtain ⟨b, digits, heq, hzero⟩ := ih (n / 10) (by omega)
      unfold decimal at heq
      rw [List.map_append, heq]
      refine ⟨b, digits ++ _, rfl, fun hb => ?_⟩
      -- a leading zero would make the other digits the number zero
      have hvalue := natural?_decimal (n / 10)
      unfold decimal at hvalue
      rw [heq, hb, hzero hb] at hvalue
      have hnone : (0 : Nat) = n / 10 := Option.some.inj hvalue
      omega

theorem isNumber_decimal (n : Nat) : isNumber (decimal n) = true := by
  obtain ⟨b, digits, heq, hzero⟩ := decimal_eq_cons n
  have hdigit : ∀ d ∈ b :: digits, isDigit d = true := by
    rw [← heq]
    exact fun d hd => isDigit_of_mem_decimal hd
  have hminus : b ≠ 0x2D := by
    rintro rfl
    exact absurd (hdigit _ List.mem_cons_self) (by decide)
  have hrest : digits.dropWhile isDigit = [] :=
    List.dropWhile_eq_nil_iff.mpr fun d hd => hdigit d (List.mem_cons_of_mem b hd)
  have hinteger : afterInteger (b :: digits) = some [] := by
    show (if b = 0x30 then some digits else afterDigits (b :: digits)) = some []
    split
    · rename_i hb
      rw [hzero hb]
    · show (if isDigit b then some (digits.dropWhile isDigit) else none) = some []
      rw [if_pos (hdigit b List.mem_cons_self), hrest]
  unfold isNumber
  rw [heq, show afterMinus (b :: digits) = b :: digits from if_neg hminus, hinteger]
  rfl

theorem wordToken_decimal (n : Nat) : wordToken (decimal n) = some (.number (decimal n)) := by
  have hname : ∀ name : String, (ascii name).all isDigit = false → decimal n ≠ ascii name := by
    intro name hletter heq
    rw [← heq, List.all_eq_true.mpr fun _ hb => isDigit_of_mem_decimal hb] at hletter
    cases hletter
  unfold wordToken
  rw [if_neg (hname _ rfl), if_neg (hname _ rfl), if_neg (hname _ rfl),
    if_pos (isNumber_decimal n)]

/-! ## Reading words -/

theorem isWord_of_isDigit {b : UInt8} (h : isDigit b = true) : isWord b = true := by
  unfold isWord
  rw [decide_eq_true_iff]
  exact .inl h

theorem Reader.run_word (ts : List Token) (bytes text : List UInt8)
    (h : ∀ b ∈ text, isWord b = true) :
    Reader.run ⟨ts, .word bytes⟩ text = some ⟨ts, .word (text.reverse ++ bytes)⟩ := by
  induction text generalizing bytes with
  | nil => rfl
  | cons b text ih =>
    have hstep : Reader.step ⟨ts, .word bytes⟩ b = some ⟨ts, .word (b :: bytes)⟩ :=
      if_pos (h b List.mem_cons_self)
    rw [Reader.run_cons, hstep, Option.bind_some, ih _ fun b hb => h b (List.mem_cons_of_mem _ hb),
      List.reverse_cons, List.append_assoc, List.singleton_append]

/-- A number is read up to the byte after it. -/
theorem Reader.run_decimal (ts : List Token) (n : Nat) :
    Reader.run ⟨ts, .between⟩ (decimal n) = some ⟨ts, .word (decimal n).reverse⟩ := by
  have hword : ∀ b ∈ decimal n, isWord b = true := fun b hb =>
    isWord_of_isDigit (isDigit_of_mem_decimal hb)
  obtain ⟨b, digits, heq, -⟩ := decimal_eq_cons n
  rw [heq] at hword ⊢
  have hstep : Reader.step ⟨ts, .between⟩ b = some ⟨ts, .word [b]⟩ :=
    if_pos (hword b List.mem_cons_self)
  rw [Reader.run_cons, hstep, Option.bind_some,
    Reader.run_word ts [b] digits fun b hb => hword b (List.mem_cons_of_mem _ hb),
    List.reverse_cons]

/-! ## Pieces of a text -/

/-- Between two tokens, a piece of a text is read as `new` if the condition holds, and refused
otherwise. -/
structure Reads (text : List UInt8) (ok : Prop) (new : List Token) : Prop where
  accepted : ok → ∀ ts, Reader.run ⟨ts, .between⟩ text = some ⟨new.reverse ++ ts, .between⟩
  refused : ¬ ok → ∀ ts, Reader.run ⟨ts, .between⟩ text = none

/-- A piece that is always read. -/
theorem Reads.of_run {text : List UInt8} {new : List Token}
    (h : ∀ ts, Reader.run ⟨ts, .between⟩ text = some ⟨new.reverse ++ ts, .between⟩) :
    Reads text True new :=
  ⟨fun _ => h, fun hfalse => absurd trivial hfalse⟩

theorem Reads.append {text more : List UInt8} {ok ok' : Prop} {new new' : List Token}
    (h : Reads text ok new) (h' : Reads more ok' new') :
    Reads (text ++ more) (ok ∧ ok') (new ++ new') := by
  refine ⟨fun ⟨hok, hok'⟩ ts => ?_, fun hnot ts => ?_⟩
  · rw [Reader.run_append, h.accepted hok, Option.bind_some, h'.accepted hok',
      List.reverse_append, List.append_assoc]
  · rw [Reader.run_append]
    by_cases hok : ok
    · rw [h.accepted hok, Option.bind_some, h'.refused fun hok' => hnot ⟨hok, hok'⟩]
    · rw [h.refused hok, Option.bind_none]

theorem Reads.congr {text : List UInt8} {ok ok' : Prop} {new : List Token}
    (h : Reads text ok new) (hiff : ok ↔ ok') : Reads text ok' new :=
  ⟨fun hok => h.accepted (hiff.mpr hok), fun hnot => h.refused fun hok => hnot (hiff.mp hok)⟩

theorem Reads.tokens_eq_some_iff {text : List UInt8} {ok : Prop} {new ts : List Token}
    (h : Reads text ok new) : tokens text = some ts ↔ ok ∧ ts = new := by
  unfold tokens
  by_cases hok : ok
  · rw [h.accepted hok, Option.bind_some]
    show some (new.reverse ++ []).reverse = some ts ↔ _
    rw [List.append_nil, List.reverse_reverse, Option.some.injEq]
    exact ⟨fun heq => ⟨hok, heq.symm⟩, fun heq => heq.2.symm⟩
  · rw [h.refused hok]
    exact ⟨nofun, fun heq => absurd heq.1 hok⟩

end Hexabus.Lib.Json
