import Hexabus.Lib.SinglePrecision
import Hexabus.Web.Strings
import Mathlib.Data.List.DropRight

/-!
# Numbers of the web interface

A number of JavaScript is a double, or no number at all. The texts of numbers are read by
`Number`, `parseFloat` and `parseInt`, which accept different ones.
-/

namespace Hexabus.Web

/-- A number. The two zeros compare equal and are one here. -/
inductive Number where
  | finite (q : ℚ)
  | infinite (negative : Bool)
  | nan
  deriving DecidableEq

/-- The double nearest to a number, the even one of two. -/
def double (q : ℚ) : Number :=
  let place : ℚ := 2 ^ (max (Int.log 2 |q|) (-1022) - 52)
  let r := Lib.Single.nearest (q / place) * place
  if |r| < 2 ^ 1024 then .finite r else .infinite (decide (q < 0))

/-! ## Characters -/

/-- White space and the ends of lines. -/
def isSpace (c : UInt16) : Bool :=
  decide (c ∈ [0x09, 0x0A, 0x0B, 0x0C, 0x0D, 0x20, 0xA0, 0x1680, 0x180E, 0x2028, 0x2029, 0x202F,
    0x205F, 0x3000, 0xFEFF] ∨ 0x2000 ≤ c ∧ c ≤ 0x200A)

/-- The value of a digit, of at most 36; no digit counts as 36. -/
def digitValue (c : UInt16) : Nat :=
  if 0x30 ≤ c ∧ c ≤ 0x39 then c.toNat - 0x30
  else if 0x61 ≤ c ∧ c ≤ 0x7A then c.toNat - 0x61 + 10
  else if 0x41 ≤ c ∧ c ≤ 0x5A then c.toNat - 0x41 + 10
  else 36

def isDigitOf (radix : Nat) (c : UInt16) : Bool := decide (digitValue c < radix)

/-- What digits spell. -/
def spelledBy (radix : Nat) (digits : Text) : Nat :=
  digits.foldl (fun n c => radix * n + digitValue c) 0

/-- A sign, and the rest. -/
def signed : Text → Bool × Text
  | 0x2D :: s => (true, s)
  | 0x2B :: s => (false, s)
  | s => (false, s)

/-- The text after `0x`. -/
def afterHexPrefix : Text → Option Text
  | 0x30 :: c :: s => if c = 0x78 ∨ c = 0x58 then some s else none
  | _ => none

def negated (negative : Bool) (q : ℚ) : ℚ := if negative then -q else q

/-! ## Texts to numbers -/

/-- The exponent that a text begins with, and the rest; a text without an exponent is the rest
itself. -/
def exponentOf : Text → ℤ × Text
  | [] => (0, [])
  | c :: s =>
    let (negative, digits) := signed s
    let ds := digits.takeWhile (isDigitOf 10)
    if (c = 0x65 ∨ c = 0x45) ∧ ds ≠ [] then
      (if negative then -(spelledBy 10 ds : ℤ) else spelledBy 10 ds,
        digits.dropWhile (isDigitOf 10))
    else (0, c :: s)

/-- The digits after a point, and the rest. -/
def fractionOf (whole : Text) : Text → Text × Text
  | 0x2E :: s =>
    if whole = [] ∧ s.takeWhile (isDigitOf 10) = [] then ([], 0x2E :: s)
    else (s.takeWhile (isDigitOf 10), s.dropWhile (isDigitOf 10))
  | s => ([], s)

/-- The number that a text begins with, and the rest. -/
def decimalOf (s : Text) : Option (Number × Text) :=
  let (negative, s) := signed s
  if (literal "Infinity").isPrefixOf s then some (.infinite negative, s.drop 8)
  else
    let whole := s.takeWhile (isDigitOf 10)
    let (fraction, s) := fractionOf whole (s.dropWhile (isDigitOf 10))
    if whole = [] ∧ fraction = [] then none
    else
      let (exponent, s) := exponentOf s
      let q : ℚ := spelledBy 10 (whole ++ fraction) * 10 ^ (exponent - fraction.length)
      some (double (negated negative q), s)

/-- `parseFloat` of a string: what follows the number does not matter. -/
def parseFloat (s : Text) : Number :=
  match decimalOf (s.dropWhile isSpace) with
  | some (n, _) => n
  | none => .nan

/-- `parseInt` of a string: so it is here, and a fraction or an exponent is not part of it. -/
def parseInt (s : Text) : Number :=
  let (negative, s) := signed (s.dropWhile isSpace)
  let (radix, s) := match afterHexPrefix s with
    | some s => (16, s)
    | none => (10, s)
  match s.takeWhile (isDigitOf radix) with
  | [] => .nan
  | c :: ds => double (negated negative (spelledBy radix (c :: ds)))

/-- The number that a string is compared as: all of it is the number. -/
def toNumber (s : Text) : Number :=
  let s := (s.dropWhile isSpace).rdropWhile isSpace
  if s = [] then .finite 0
  else match afterHexPrefix s with
    | some s => if s ≠ [] ∧ s.all (isDigitOf 16) then double (spelledBy 16 s) else .nan
    | none =>
      match decimalOf s with
      | some (n, []) => n
      | _ => .nan

/-! ## Numbers to texts -/

/-- The digits of a natural number. -/
def decimalDigits (n : Nat) : Text := (Nat.toDigits 10 n).map fun c => UInt16.ofNat c.toNat

/-- The integers next to a number, the nearest one first. -/
def neighbours (q : ℚ) : List ℤ :=
  if Lib.Single.nearest q = ⌊q⌋ then [⌊q⌋, ⌊q⌋ + 1] else [⌊q⌋ + 1, ⌊q⌋]

/-- The fewest digits that are read as a positive double, and the number of digits before the
point. -/
def shortest (q : ℚ) : Option (Text × ℤ) :=
  let point := Int.log 10 q + 1
  (List.range 17).findSome? fun k =>
    let unit : ℚ := 10 ^ (point - (k + 1 : Nat))
    ((neighbours (q / unit)).find? fun s : ℤ => double (s * unit) = .finite q).map fun s =>
      -- the next power of ten has one digit, further to the left
      if s = 10 ^ (k + 1) then (literal "1", point + 1) else (decimalDigits s.toNat, point)

/-- The digits with the point and the exponent: very large and very small numbers have one. -/
def written (digits : Text) (point : ℤ) : Text :=
  let k : ℤ := digits.length
  if k ≤ point ∧ point ≤ 21 then digits ++ List.replicate (point - k).toNat 0x30
  else if 0 < point ∧ point ≤ 21 then
    digits.take point.toNat ++ 0x2E :: digits.drop point.toNat
  else if -6 < point ∧ point ≤ 0 then
    literal "0." ++ List.replicate (-point).toNat 0x30 ++ digits
  else
    let exponent := literal (if 0 < point then "e+" else "e-") ++ decimalDigits (point - 1).natAbs
    if k = 1 then digits ++ exponent else digits.take 1 ++ 0x2E :: digits.drop 1 ++ exponent

/-- The text of a number. -/
def numberText : Number → Text
  | .nan => literal "NaN"
  | .infinite negative => literal (if negative then "-Infinity" else "Infinity")
  | .finite q =>
    if q = 0 then literal "0"
    else
      match shortest |q| with
      | some (digits, point) => (if q < 0 then [0x2D] else []) ++ written digits point
      | none => []

end Hexabus.Web
