import Hexabus.Lib.Properties
import Hexabus.Web.Numbers

/-!
# Values of the web interface

What arrives in the body of a request or in a message of a socket is a JSON value.
-/

namespace Hexabus.Web

/-- A value that can be written in JSON. A number in the text of a value may be too large for a
double; it is infinite then. -/
inductive Value where
  | null
  | bool (b : Bool)
  | number (n : Number)
  | string (s : Text)
  | array (items : List Value)
  | object (members : List (Text × Value))

/-- A property that is not there is undefined, and compares equal to null. -/
def isMissing : Option Value → Bool
  | none => true
  | some .null => true
  | some _ => false

/-! ## Values as texts -/

/-- The texts of the items of an array, with commas. -/
def commaSeparated : List Text → Text
  | [] => []
  | [t] => t
  | t :: u :: ts => t ++ 0x2C :: commaSeparated (u :: ts)

mutual

/-- The text that a value is converted to, where one is needed. An object is converted by its
`toString`: a property of this name cannot be called. -/
def Value.text : Value → Option Text
  | .null => some (literal "null")
  | .bool b => some (literal (if b then "true" else "false"))
  | .number n => some (numberText n)
  | .string s => some s
  | .array items => (itemTexts items).map commaSeparated
  | .object members =>
    if literal "toString" ∈ Lib.Properties.keys members then none
    else some (literal "[object Object]")

/-- The texts of items: that of null is empty. -/
def itemTexts : List Value → Option (List Text)
  | [] => some []
  | .null :: vs => (itemTexts vs).map ([] :: ·)
  | v :: vs => v.text.bind fun t => (itemTexts vs).map (t :: ·)

end

/-- `parseFloat` of a property. -/
def parseFloatOf (v : Option Value) : Option Number :=
  match v with
  | none => some .nan
  | some v => v.text.map parseFloat

/-! ## Values in a file -/

mutual

/-- What a value is once it has been written to a file as JSON and read again: no infinite number
has a text, and the text is encoded. -/
def Value.throughFile : Value → Value
  | .null => .null
  | .bool b => .bool b
  | .number n => match n with
    | .finite q => .number (.finite q)
    | .infinite _ => .null
    | .nan => .null
  | .string s => .string (throughUtf8 s)
  | .array items => .array (itemsThroughFile items)
  | .object members => .object (Lib.Properties.putAll [] (membersThroughFile members))

def itemsThroughFile : List Value → List Value
  | [] => []
  | v :: vs => v.throughFile :: itemsThroughFile vs

def membersThroughFile : List (Text × Value) → List (Text × Value)
  | [] => []
  | (k, v) :: ms => (throughUtf8 k, v.throughFile) :: membersThroughFile ms

end

mutual

/-- The numbers are finite, and the strings are well formed. -/
def Value.isStorable : Value → Bool
  | .null => true
  | .bool _ => true
  | .number n => match n with
    | .finite _ => true
    | .infinite _ => false
    | .nan => false
  | .string s => decide (WellFormed s)
  | .array items => itemsStorable items
  | .object members => decide (Lib.Properties.keys members).Nodup && membersStorable members

def itemsStorable : List Value → Bool
  | [] => true
  | v :: vs => v.isStorable && itemsStorable vs

def membersStorable : List (Text × Value) → Bool
  | [] => true
  | (k, v) :: ms => decide (WellFormed k) && v.isStorable && membersStorable ms

end

mutual

/-- **Storable values** are read as they were written. -/
theorem Value.throughFile_of_isStorable (v : Value) (h : v.isStorable = true) :
    v.throughFile = v := by
  match v with
  | .null => rfl
  | .bool b => rfl
  | .number (.finite q) => rfl
  | .number (.infinite b) => simp [Value.isStorable] at h
  | .number .nan => simp [Value.isStorable] at h
  | .string s =>
    rw [Value.isStorable, decide_eq_true_iff] at h
    rw [Value.throughFile, h]
  | .array items =>
    rw [Value.isStorable] at h
    rw [Value.throughFile, itemsThroughFile_of_storable items h]
  | .object members =>
    rw [Value.isStorable, Bool.and_eq_true, decide_eq_true_iff] at h
    rw [Value.throughFile, membersThroughFile_of_storable members h.2,
      Lib.Properties.putAll_nil h.1]

theorem itemsThroughFile_of_storable (vs : List Value) (h : itemsStorable vs = true) :
    itemsThroughFile vs = vs := by
  match vs with
  | [] => rfl
  | v :: vs =>
    rw [itemsStorable, Bool.and_eq_true] at h
    rw [itemsThroughFile, v.throughFile_of_isStorable h.1, itemsThroughFile_of_storable vs h.2]

theorem membersThroughFile_of_storable (ms : List (Text × Value))
    (h : membersStorable ms = true) : membersThroughFile ms = ms := by
  match ms with
  | [] => rfl
  | (k, v) :: ms =>
    rw [membersStorable, Bool.and_eq_true, Bool.and_eq_true, decide_eq_true_iff] at h
    rw [membersThroughFile, h.1.1, v.throughFile_of_isStorable h.1.2,
      membersThroughFile_of_storable ms h.2]

end

end Hexabus.Web
