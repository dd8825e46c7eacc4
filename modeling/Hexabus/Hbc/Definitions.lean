import Hexabus.Hbc.Printer
import Hexabus.Hbc.TableBuilder
import Hexabus.Host.Hexinfo
import Hexabus.Lib.JsonTokens

/-!
# Definitions of devices and endpoints

`hexinfo.cpp`: the files for the compiler, as they are written where there were none. A file is a
text of one character for each byte. What `address_v6::to_string` writes is a parameter.
-/

namespace Hexabus.Hbc.Definitions

open Host.Hexinfo Lib.Json

/-! ## Names -/

/-- `"abcdefghijklmnopqrstuvwxyzABCDEFGHIJKLMNOPQRSTUVWXYZ0123456789_"`. -/
def isNameByte (b : UInt8) : Bool :=
  (0x61 ≤ b && b ≤ 0x7A) || (0x41 ≤ b && b ≤ 0x5A) || isDigit b || b = 0x5F

/-- The first loop of `remove_specialchars`, with at most `n` rounds. -/
def eraseSpecialchars (n : Nat) (s : List UInt8) : List UInt8 :=
  match n with
  | 0 => s
  | n + 1 =>
    match s.findIdx? (!isNameByte ·) with
    | some space => eraseSpecialchars n (s.eraseIdx space)
    | none => s

/-- `remove_specialchars`. An empty string has no first character that is a digit. -/
def removeSpecialchars (s : List UInt8) : List UInt8 :=
  let s := eraseSpecialchars s.length s
  let s := s.dropWhile isDigit
  if s.length = 0 then ascii "_empty_" else s

/-! ## Files -/

/-- The characters of a file. -/
def chars (bytes : List UInt8) : Text := bytes.map fun b => Char.ofNat b.toNat

/-- The loop over `dev.endpoint_ids`. -/
def writeIds : List UInt32 → Text
  | [] => []
  | id :: ids => printUint id.toNat ++ ((if ids.isEmpty then [] else ", ".toList) ++ writeIds ids)

section
variable (addressText : Address → Text)

/-- `write_dev_desc`. -/
def writeDevDesc (dev : DeviceDescriptor) : Text :=
  "# Auto-generated by hexinfo.\n".toList ++
  ("device ".toList ++ (chars (removeSpecialchars dev.name) ++ " \x7b\n".toList)) ++
  ("\tip ".toList ++ (addressText dev.ipv6Address ++ ";\n".toList)) ++
  ("\teids \x7b ".toList ++ (writeIds dev.endpointIds ++ " \x7d\n".toList)) ++
  "\x7d\n\n".toList

/-- The file of the devices. -/
def deviceFile (devices : List DeviceDescriptor) : Text :=
  devices.flatMap (writeDevDesc addressText)

end

/-- The data types that are written. -/
def writtenDtype (datatype : UInt8) : Option Dtype :=
  if datatype = DataType.bool.code then some .bool
  else if datatype = DataType.uint8.code then some .uint8
  else if datatype = DataType.uint32.code then some .uint32
  else if datatype = DataType.float.code then some .float
  else none

/-- `write_ep_desc`. -/
def writeEpDesc (ep : EndpointDescriptor) : Text :=
  match writtenDtype ep.datatype with
  | some dtype =>
    "# Auto-generated by hexinfo.\n".toList ++
    ("endpoint ".toList ++ (chars (removeSpecialchars ep.name) ++ " \x7b\n".toList)) ++
    ("\teid ".toList ++ (printUint ep.eid.toNat ++ ";\n".toList)) ++
    ("\tdatatype ".toList ++ (dtype.word ++ ";\n".toList)) ++
    ("\taccess \x7b broadcast, write \x7d" ++
      " #TODO auto-generated template. Please edit!\n").toList ++
    "\x7d\n\n".toList
  | none => []

/-- The file of the endpoints. -/
def endpointFile (endpoints : List EndpointDescriptor) : Text := endpoints.flatMap writeEpDesc

/-! ## Names that are left -/

theorem eraseIdx_filter {s : List UInt8} {i : Nat} (h : s.findIdx? (!isNameByte ·) = some i) :
    (s.eraseIdx i).filter isNameByte = s.filter isNameByte ∧ (s.eraseIdx i).length < s.length := by
  obtain ⟨hlt, hi, -⟩ := List.findIdx?_eq_some_iff_getElem.mp h
  have hsplit : s = s.take i ++ s[i] :: s.drop (i + 1) := by
    rw [← List.drop_eq_getElem_cons hlt, List.take_append_drop]
  have hno : ¬ isNameByte s[i] = true := by simpa using hi
  refine ⟨?_, ?_⟩
  · rw [List.eraseIdx_eq_take_drop_succ, List.filter_append]
    conv_rhs => rw [hsplit, List.filter_append, List.filter_cons_of_neg hno]
  · rw [List.length_eraseIdx_of_lt hlt]
    omega

/-- The loop leaves the characters that may stand in a name. -/
theorem eraseSpecialchars_eq {n : Nat} {s : List UInt8} (h : s.length ≤ n) :
    eraseSpecialchars n s = s.filter isNameByte := by
  induction n generalizing s with
  | zero => rw [List.length_eq_zero_iff.mp (Nat.le_zero.mp h)]; rfl
  | succ n ih =>
    unfold eraseSpecialchars
    split
    next i hi =>
      obtain ⟨hfilter, hlength⟩ := eraseIdx_filter hi
      rw [ih (by omega), hfilter]
    next hnone =>
      refine (List.filter_eq_self.mpr fun b hb => ?_).symm
      simpa using List.findIdx?_eq_none_iff.mp hnone b hb

theorem identifierRest_of_isNameByte : ∀ b : UInt8, isNameByte b = true →
    identifierRest (Char.ofNat b.toNat) = true ∧
      (isDigit b = false → identifierStart (Char.ofNat b.toNat) = true) := by
  have hall : ∀ n < 256, isNameByte (UInt8.ofNat n) = true →
      identifierRest (Char.ofNat n) = true ∧
        (isDigit (UInt8.ofNat n) = false → identifierStart (Char.ofNat n) = true) := by
    decide +kernel
  intro b hb
  have h := hall b.toNat b.toNat_lt
  rw [UInt8.ofNat_toNat] at h
  exact h hb

/-- **What is left of a name** is an identifier. -/
theorem isIdentifier_removeSpecialchars (s : List UInt8) :
    isIdentifier (chars (removeSpecialchars s)) = true := by
  unfold removeSpecialchars
  rw [eraseSpecialchars_eq (Nat.le_refl _)]
  dsimp only
  split
  · decide
  next hne =>
    cases hs : (s.filter isNameByte).dropWhile isDigit with
    | nil => exact absurd (congrArg List.length hs) hne
    | cons b bs =>
      have hmem : ∀ c ∈ b :: bs, isNameByte c = true := fun c hc =>
        (List.mem_filter.mp ((List.dropWhile_suffix _).mem (hs ▸ hc))).2
      have hdigit : isDigit b = false := by
        have hhead := List.head?_dropWhile_not isDigit (s.filter isNameByte)
        rw [hs] at hhead
        simpa using hhead
      have hb := identifierRest_of_isNameByte b (hmem b List.mem_cons_self)
      refine (Bool.and_eq_true _ _).mpr ⟨hb.2 hdigit, List.all_eq_true.mpr fun c hc => ?_⟩
      obtain ⟨d, hd, rfl⟩ := List.mem_map.mp hc
      exact (identifierRest_of_isNameByte d (hmem d (List.mem_cons_of_mem b hd))).1

/-- The name of a definition. -/
def definedName (s : List UInt8) : Identifier :=
  ⟨chars (removeSpecialchars s), isIdentifier_removeSpecialchars s⟩

end Hexabus.Hbc.Definitions
