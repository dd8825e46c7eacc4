import Hexabus.Asm.Generator
import Hexabus.Hbc.HbaOutput

/-!
# The generated data type file

`dtype_file_generator.cpp`: a line for every endpoint of the program, with its id and the name of
its data type. The assembler reads the id as an `int`, so it finds the ids of the table that are
one.
-/

/-! ## Reading, `hba_datatypes.cpp` -/

namespace Hexabus.Asm

/-- What `std::getline` returns until the stream ends; the last line is what stands behind
the last newline. -/
def linesOf : List Char → List (List Char)
  | [] => [[]]
  | c :: cs =>
    if c = '\n' then [] :: linesOf cs
    else match linesOf cs with
      | [] => [[c]]
      | line :: lines => (c :: line) :: lines

/-- A word that names no data type stands for `HXB_DTYPE_UNDEFINED`. -/
def datatypeOfWord (word : List Char) : DataType :=
  if word = "UNDEFINED".toList then .undefined
  else if word = "BOOL".toList then .bool
  else if word = "UINT8".toList then .uint8
  else if word = "UINT32".toList then .uint32
  else if word = "DATETIME".toList then .datetime
  else if word = "FLOAT".toList then .float
  else if word = "128STRING".toList then .string128
  else if word = "TIMESTAMP".toList then .timestamp
  else .undefined

/-- `INT_MAX`. -/
def intMax : Nat := 2147483647

/-- `s >> eid` and `s >> dtype`, on a line that begins with a digit. A number that is no
`int` is read as the largest one, and then the stream reads no word. -/
def readDatatype (line : List Char) : UInt32 × DataType :=
  let number := Nat.ofDigitChars 10 (line.takeWhile Char.isDigit) 0
  if number ≤ intMax then
    (UInt32.ofNat number, datatypeOfWord (((line.dropWhile Char.isDigit).dropWhile
      Char.isWhitespace).takeWhile fun c => !c.isWhitespace))
  else (UInt32.ofNat intMax, .undefined)

/-- `Datatypes::Datatypes`, as the lookup in the map that it fills. -/
def readDatatypes (file : List Char) (eid : UInt32) : Option DataType :=
  ((((linesOf file).filter fun line => line ≠ []).map readDatatype).reverse.find? fun entry =>
    entry.1 = eid).map Prod.snd

/-- The assembler with a data type file. -/
def Environment.withDatatypes (env : Environment) (file : List Char) : Environment :=
  { env with datatypes := readDatatypes file }

theorem linesOf_append {line rest : List Char} (h : '\n' ∉ line) :
    linesOf (line ++ '\n' :: rest) = line :: linesOf rest := by
  induction line with
  | nil =>
    show (if '\n' = '\n' then [] :: linesOf rest else _) = _
    rw [if_pos rfl]
  | cons c line ih =>
    rw [List.mem_cons, not_or] at h
    rw [List.cons_append, linesOf, if_neg (Ne.symm h.1), ih h.2]

theorem isSome_readDatatypes {file : List Char} {eid : UInt32} :
    (readDatatypes file eid).isSome = true ↔
      ∃ line ∈ linesOf file, line ≠ [] ∧ (readDatatype line).1 = eid := by
  unfold readDatatypes
  rw [Option.isSome_map, List.find?_isSome]
  simp only [List.mem_reverse, List.mem_map, List.mem_filter, decide_eq_true_eq]
  constructor
  · rintro ⟨entry, ⟨line, ⟨hline, hne⟩, rfl⟩, heid⟩
    exact ⟨line, hline, hne, heid⟩
  · rintro ⟨line, hline, hne, heid⟩
    exact ⟨_, ⟨line, ⟨hline, hne⟩, rfl⟩, heid⟩

end Hexabus.Asm

namespace Hexabus.Hbc

open Asm

/-- `datatype`. -/
inductive Dtype
  | undefined | bool | uint8 | uint32 | float
  deriving DecidableEq

/-- An entry of the `endpoint_table`. -/
structure EndpointEntry where
  name : Text
  endpoint : Endpoint
  dtype : Dtype

/-- `_e->find`. -/
def findEndpoint (table : List EndpointEntry) (name : Text) : Option Endpoint :=
  (table.find? fun entry => entry.name = name).map EndpointEntry.endpoint

/-- The tables with these endpoints. -/
def Tables.withEndpoints (tables : Tables) (table : List EndpointEntry) : Tables :=
  { tables with endpoints := findEndpoint table }

def Dtype.word : Dtype → Text
  | .undefined => "UNDEFINED".toList
  | .bool => "BOOL".toList
  | .uint8 => "UINT8".toList
  | .uint32 => "UINT32".toList
  | .float => "FLOAT".toList

/-- The line of an endpoint. -/
def dtypeLine (entry : EndpointEntry) : Text :=
  printUint entry.endpoint.eid.toNat ++ ' ' :: entry.dtype.word

/-- `DTypeFileGenerator::operator()`. -/
def dtypeFile (table : List EndpointEntry) : Text :=
  table.flatMap fun entry => dtypeLine entry ++ ['\n']

theorem notMem_dtypeLine (entry : EndpointEntry) : '\n' ∉ dtypeLine entry := by
  unfold dtypeLine
  rw [List.mem_append, not_or]
  constructor
  · intro h
    exact absurd (isDigit_of_mem_printUint h) (by decide)
  · cases entry.dtype <;> decide

theorem linesOf_dtypeFile (table : List EndpointEntry) :
    linesOf (dtypeFile table) = table.map dtypeLine ++ [[]] := by
  induction table with
  | nil => rfl
  | cons entry table ih =>
    have hfile : dtypeFile (entry :: table) = dtypeLine entry ++ '\n' :: dtypeFile table := by
      unfold dtypeFile
      rw [List.flatMap_cons, List.append_assoc]
      rfl
    rw [hfile, linesOf_append (notMem_dtypeLine entry), ih, List.map_cons, List.cons_append]

/-- The id that the assembler reads on the line of an endpoint. -/
theorem readDatatype_dtypeLine (entry : EndpointEntry) : (readDatatype (dtypeLine entry)).1 =
    if entry.endpoint.eid.toNat ≤ intMax then entry.endpoint.eid else UInt32.ofNat intMax := by
  have hdigits : (dtypeLine entry).takeWhile Char.isDigit = printUint entry.endpoint.eid.toNat := by
    unfold dtypeLine
    rw [List.takeWhile_append_of_pos fun c hc => isDigit_of_mem_printUint hc,
      List.takeWhile_cons_of_neg (by decide), List.append_nil]
  have hnumber : Nat.ofDigitChars 10 (printUint entry.endpoint.eid.toNat) 0
      = entry.endpoint.eid.toNat := by
    simp [printUint]
  unfold readDatatype
  simp only [hdigits, hnumber]
  split
  · exact UInt32.ofNat_toNat
  · rfl

/-- The endpoint ids that have a data type. -/
theorem isSome_dtypeFile {table : List EndpointEntry} {eid : UInt32} :
    (readDatatypes (dtypeFile table) eid).isSome = true ↔ ∃ entry ∈ table,
      (if entry.endpoint.eid.toNat ≤ intMax then entry.endpoint.eid else UInt32.ofNat intMax)
        = eid := by
  rw [isSome_readDatatypes, linesOf_dtypeFile]
  constructor
  · rintro ⟨line, hline, hne, heid⟩
    rcases List.mem_append.mp hline with hline | hline
    · obtain ⟨entry, hentry, rfl⟩ := List.mem_map.mp hline
      rw [readDatatype_dtypeLine] at heid
      exact ⟨entry, hentry, heid⟩
    · exact absurd (List.mem_singleton.mp hline) hne
  · rintro ⟨entry, hentry, heid⟩
    refine ⟨dtypeLine entry, List.mem_append_left _ (List.mem_map_of_mem hentry), ?_, ?_⟩
    · unfold dtypeLine
      exact List.append_ne_nil_of_right_ne_nil _ (List.cons_ne_nil _ _)
    · rw [readDatatype_dtypeLine]
      exact heid

/-- An endpoint of the table has a data type if its id is an `int`. -/
theorem isSome_of_findEndpoint {table : List EndpointEntry} {name : Text} {endpoint : Endpoint}
    (h : findEndpoint table name = some endpoint) :
    (readDatatypes (dtypeFile table) endpoint.eid).isSome = true ↔
      endpoint.eid.toNat ≤ intMax := by
  rw [isSome_dtypeFile]
  constructor
  · rintro ⟨entry, -, heid⟩
    split at heid
    · rw [← heid]
      assumption
    · rw [← heid]
      decide
  · intro hle
    obtain ⟨entry, hfind, rfl⟩ := Option.map_eq_some_iff.mp h
    exact ⟨entry, List.mem_of_find?_eq_some hfind, if_pos hle⟩

/-- The id of the `set` line without a write has one if an endpoint of the program has it. -/
theorem isSome_zero {table : List EndpointEntry} :
    (readDatatypes (dtypeFile table) 0).isSome = true ↔
      ∃ entry ∈ table, entry.endpoint.eid = 0 := by
  rw [isSome_dtypeFile]
  constructor
  · rintro ⟨entry, hentry, heid⟩
    split at heid
    · exact ⟨entry, hentry, heid⟩
    · exact absurd heid (by decide)
  · rintro ⟨entry, hentry, heid⟩
    refine ⟨entry, hentry, ?_⟩
    rw [heid]
    rfl

/-! ## What is read -/

/-- What a word of the file stands for. -/
def Dtype.datatype : Dtype → DataType
  | .undefined => .undefined
  | .bool => .bool
  | .uint8 => .uint8
  | .uint32 => .uint32
  | .float => .float

theorem datatypeOfWord_word (dtype : Dtype) : datatypeOfWord dtype.word = dtype.datatype := by
  cases dtype <;> rfl

/-- The data type that the assembler reads on the line of an endpoint. -/
theorem datatype_dtypeLine (entry : EndpointEntry) : (readDatatype (dtypeLine entry)).2 =
    if entry.endpoint.eid.toNat ≤ intMax then entry.dtype.datatype else .undefined := by
  have hdigits : (dtypeLine entry).takeWhile Char.isDigit = printUint entry.endpoint.eid.toNat := by
    unfold dtypeLine
    rw [List.takeWhile_append_of_pos fun c hc => isDigit_of_mem_printUint hc,
      List.takeWhile_cons_of_neg (by decide), List.append_nil]
  have hnumber : Nat.ofDigitChars 10 (printUint entry.endpoint.eid.toNat) 0
      = entry.endpoint.eid.toNat := by
    simp [printUint]
  have hword : (((dtypeLine entry).dropWhile Char.isDigit).dropWhile Char.isWhitespace).takeWhile
      (fun c => !c.isWhitespace) = entry.dtype.word := by
    unfold dtypeLine
    rw [List.dropWhile_append_of_pos fun c hc => isDigit_of_mem_printUint hc,
      List.dropWhile_cons_of_neg (by decide), List.dropWhile_cons_of_pos (by decide)]
    cases entry.dtype <;> rfl
  unfold readDatatype
  simp only [hdigits, hnumber, hword, datatypeOfWord_word]
  split <;> rfl

/-- Where a data type comes from. -/
theorem entry_of_readDatatypes {table : List EndpointEntry} {eid : UInt32} {datatype : DataType}
    (h : readDatatypes (dtypeFile table) eid = some datatype) :
    ∃ entry ∈ table, readDatatype (dtypeLine entry) = (eid, datatype) := by
  unfold readDatatypes at h
  obtain ⟨read, hfind, rfl⟩ := Option.map_eq_some_iff.mp h
  have heid : read.1 = eid := by simpa using List.find?_some hfind
  obtain ⟨line, hline, rfl⟩ := List.mem_map.mp (List.mem_reverse.mp (List.mem_of_find?_eq_some hfind))
  obtain ⟨hline, hne⟩ := List.mem_filter.mp hline
  rw [linesOf_dtypeFile] at hline
  rcases List.mem_append.mp hline with hline | hline
  · obtain ⟨entry, hentry, rfl⟩ := List.mem_map.mp hline
    exact ⟨entry, hentry, Prod.ext heid rfl⟩
  · rw [List.mem_singleton.mp hline] at hne
    cases hne

/-- No endpoint is a date or a time. -/
theorem not_time_of_readDatatypes (table : List EndpointEntry) (eid : UInt32) :
    readDatatypes (dtypeFile table) eid ≠ some .datetime ∧
      readDatatypes (dtypeFile table) eid ≠ some .timestamp := by
  have hread : ∀ datatype, readDatatypes (dtypeFile table) eid = some datatype →
      datatype = .undefined ∨ ∃ dtype : Dtype, datatype = dtype.datatype := by
    intro datatype h
    obtain ⟨entry, -, hentry⟩ := entry_of_readDatatypes h
    have hline := datatype_dtypeLine entry
    rw [hentry] at hline
    split at hline
    · exact .inr ⟨entry.dtype, hline⟩
    · exact .inl hline
  constructor
  · intro h
    rcases hread _ h with h | ⟨dtype, h⟩
    · cases h
    · cases dtype <;> cases h
  · intro h
    rcases hread _ h with h | ⟨dtype, h⟩
    · cases h
    · cases dtype <;> cases h

/-- Endpoint zero has a data type of the table. -/
theorem typed_of_readDatatypes {table : List EndpointEntry}
    (h : ∀ entry ∈ table, entry.dtype ≠ .undefined) :
    readDatatypes (dtypeFile table) 0 ≠ some .undefined := by
  intro hread
  obtain ⟨entry, hmem, hentry⟩ := entry_of_readDatatypes hread
  have heid := readDatatype_dtypeLine entry
  have hdatatype := datatype_dtypeLine entry
  rw [hentry] at heid hdatatype
  split at heid
  · rename_i hle
    rw [if_pos hle] at hdatatype
    have hundefined : ∀ dtype : Dtype, DataType.undefined = dtype.datatype → dtype = .undefined := by
      intro dtype hdtype
      cases dtype with
      | undefined => rfl
      | _ => cases hdtype
    exact h entry hmem (hundefined _ hdatatype)
  · cases heid

end Hexabus.Hbc
