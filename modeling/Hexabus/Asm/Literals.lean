import Hexabus.Asm.Completeness
import Hexabus.Lib.FloatText

/-!
# What becomes of a number

A number in a program is read as a `float`, printed into a string stream and read from it
again, as an unsigned number for every data type but `float`.
-/

namespace Hexabus.Asm

open Lib.Bytes Lib.FloatText

/-- What the number parser and the output stream do, as far as natural numbers are concerned:
the parser is exact up to 24 bits and keeps the order of magnitude beyond, and the stream
prints six significant digits. -/
structure Streams where
  parse : List Char → UInt32
  print : UInt32 → List Char
  parse_exact : ∀ text n, numeral text = some n → n < 2 ^ 24 → natValue (parse text) = some n
  parse_large : ∀ text n, numeral text = some n → 2 ^ 24 ≤ n → n < 2 ^ 64 →
    ∃ w, natValue (parse text) = some w ∧ 2 ^ 24 ≤ w ∧ w ≤ 2 * n
  print_general : ∀ bits n, natValue bits = some n → print bits = general n

/-- The assembler with these streams. -/
def Environment.withStreams (env : Environment) (s : Streams) : Environment :=
  { env with readUint := fun bits => scanUnsigned (s.print bits) }

/-- The pattern is what the grammar makes of the integer literal `n`. -/
def Literal (s : Streams) (bits : UInt32) (n : Nat) : Prop :=
  ∃ text, text ≠ [] ∧ (∀ c ∈ text, c.isDigit = true) ∧ value text = n ∧ bits = s.parse text

/-- The literal fits the data type. -/
def Fits (datatype : DataType) (n : Nat) : Prop :=
  (datatype = .uint8 ∧ n < 2 ^ 8) ∨ ((datatype = .uint32 ∨ datatype = .timestamp) ∧ n < 2 ^ 32)

/-- The constant that is stored for an endpoint of the data type. -/
def storedConstant (datatype : DataType) (raw : Block 8) : Nat :=
  let v : HxbValue := { datatype := datatype.code, raw := raw }
  if datatype = .uint8 then v.v_u8.toNat else v.v_u32.toNat

/-! ## Through the streams -/

/-- The pattern stands for the number as far as the text of the number shows it. -/
def Carries (bits : UInt32) (n : Nat) : Prop :=
  ∃ w, natValue bits = some w ∧ (n < 10 ^ 6 → w = n) ∧ (10 ^ 6 ≤ n → 10 ^ 6 ≤ w)

variable {s : Streams} {bits : UInt32} {n : Nat}

theorem carries_parse {text : List Char} {v : Nat} (h : numeral text = some v) (hv : v < 2 ^ 64) :
    ∃ w, natValue (s.parse text) = some w ∧ (v < 10 ^ 6 → w = v) ∧
      (10 ^ 6 ≤ v → 10 ^ 6 ≤ w) ∧ w ≤ 2 * v := by
  by_cases hexact : v < 2 ^ 24
  · exact ⟨v, s.parse_exact text v h hexact, fun _ => rfl, fun hv => hv, by omega⟩
  · obtain ⟨w, hw, hlow, hhigh⟩ := s.parse_large text v h (by omega) hv
    exact ⟨w, hw, fun hlt => absurd hlt (by omega), fun _ => by omega, hhigh⟩

theorem Literal.carries (h : Literal s bits n) (hn : n < 2 ^ 32) :
    ∃ w, natValue bits = some w ∧ (n < 10 ^ 6 → w = n) ∧ (10 ^ 6 ≤ n → 10 ^ 6 ≤ w) ∧
      w ≤ 2 * n := by
  obtain ⟨text, hne, hdigits, rfl, rfl⟩ := h
  exact carries_parse (numeral_digits hne hdigits) (by omega)

/-- What a compiler prints and the assembler reads carries the same literal. -/
theorem Literal.carries_reread (h : Literal s bits n) (hn : n < 2 ^ 32) :
    Carries (s.parse (s.print bits)) n := by
  obtain ⟨w, hw, hsmall, hlarge, hbound⟩ := h.carries hn
  rw [s.print_general bits w hw]
  by_cases hlt : n < 10 ^ 6
  · obtain rfl := hsmall hlt
    have hnumeral : numeral (general w) = some w := by rw [numeral_general, rounded_of_lt hlt]
    obtain ⟨w', hw', hsmall', hlarge', -⟩ := @carries_parse s _ w hnumeral (by omega)
    exact ⟨w', hw', hsmall', hlarge'⟩
  · have hw6 : 10 ^ 6 ≤ w := hlarge (by omega)
    obtain ⟨hlow, hhigh⟩ := rounded_bounds hw6
    obtain ⟨w', hw', -, hlarge', -⟩ := @carries_parse s _ _ (numeral_general w) (by omega)
    exact ⟨w', hw', fun h => absurd h hlt, fun _ => hlarge' hlow⟩

theorem readUint_withStreams_iff (env : Environment) (h : Carries bits n) (hn : n < 2 ^ 32) :
    ((env.withStreams s).readUint bits).toNat = n ↔ n < 10 ^ 6 := by
  obtain ⟨w, hw, hsmall, hlarge⟩ := h
  show (scanUnsigned (s.print bits)).toNat = n ↔ _
  rw [s.print_general bits w hw]
  by_cases hlt : n < 10 ^ 6
  · refine iff_of_true ?_ hlt
    obtain rfl := hsmall hlt
    rw [scanUnsigned_general hlt, UInt32.toNat_ofNat_of_lt' hn]
  · refine iff_of_false (fun heq => ?_) hlt
    have hdigit := scanUnsigned_general_large (hlarge (by omega))
    omega

/-! ## In a record -/

theorem storedConstant_unionOf_u32 {datatype : DataType} (h : datatype ≠ .uint8) (v : UInt32)
    (rest : Block 4) : storedConstant datatype (unionOf v rest) = v.toNat := by
  unfold storedConstant
  rw [if_neg h]
  show (UInt32.ofNat (ofLe ((leBytes 4 v.toNat ++ rest.val).take 4))).toNat = _
  have htake : (leBytes 4 v.toNat ++ rest.val).take 4 = leBytes 4 v.toNat := by
    rw [List.take_append_of_le_length (by simp), List.take_of_length_le (by simp)]
  rw [htake, uint32_ofLe_leBytes]

theorem storedConstant_unionOf_u8 (v : UInt32) (rest : Block 4) :
    storedConstant .uint8 (unionOf v rest) = v.toNat % 256 := by
  unfold storedConstant
  rw [if_pos rfl]
  show (UInt8.ofNat (v.toNat % 256)).toNat = _
  exact toNat_ofNat_mod _

/-- **A literal in a record**: it is stored as it is exactly if it is below a million. -/
theorem storedConstant_iff (env : Environment) {datatype : DataType} (rest : Block 4)
    (h : Carries bits n) (hfits : Fits datatype n) :
    storedConstant datatype (unionOf ((env.withStreams s).readValue datatype bits) rest) = n ↔
      n < 10 ^ 6 := by
  have hn : n < 2 ^ 32 := by
    rcases hfits with ⟨-, hn⟩ | ⟨-, hn⟩ <;> omega
  have hread := @readUint_withStreams_iff s bits n env h hn
  have hfloat : datatype ≠ .float := by
    rintro rfl
    rcases hfits with ⟨h, -⟩ | ⟨h | h, -⟩ <;> cases h
  rw [Environment.readValue, if_neg hfloat]
  rcases hfits with ⟨rfl, hn⟩ | ⟨hdatatype, -⟩
  · refine iff_of_true ?_ (by omega)
    rw [storedConstant_unionOf_u8, hread.mpr (by omega), Nat.mod_eq_of_lt (by omega)]
  · have hne : datatype ≠ .uint8 := by
      rcases hdatatype with rfl | rfl <;> decide
    rw [storedConstant_unionOf_u32 hne, hread]

/-! ## In an image -/

/-- The records of an image, each with its clause or condition block: the constant of a clause
whose value comes from an integer literal is that literal exactly if it is below a million, and
the same goes for the conditions; a timeout is always stored as it is. -/
structure StoresLiterals (s : Streams) (env : Environment) (ast : HbaDoc) (file : List UInt8)
    (From : UInt32 → UInt32 → Prop) : Prop where
  transition : ∀ datetime, ∀ t ∈ imageTransitions file datetime, ∃ event ∈ events ast.blocks,
    t = recordOf env ast.blocks event ∧ ∀ bits n datatype, From event.clause.value bits →
      Literal s bits n → env.datatypes event.clause.eid = some datatype → Fits datatype n →
      (storedConstant datatype t.raw = n ↔ n < 10 ^ 6)
  condition : ∀ c ∈ imageConditions file, ∃ k doc, (conditionDocs ast.blocks)[k]? = some doc ∧
    c = conditionOf env k doc ∧
    (∀ ip eid op value bits n datatype, doc.cond = .eidvalue ip eid op value → From value bits →
      Literal s bits n → env.datatypes eid = some datatype → Fits datatype n →
      (storedConstant datatype c.raw = n ↔ n < 10 ^ 6)) ∧
    ∀ value, doc.cond = .timeout value → storedConstant .timestamp c.raw = value.toNat

theorem mem_conditionEntries {env : Environment} {id : Nat} {docs : List ConditionDoc}
    {c : Condition} (h : c ∈ (conditionEntries env id docs).map Prod.snd) :
    ∃ k doc, docs[k]? = some doc ∧ c = conditionOf env (id + k) doc := by
  induction docs generalizing id with
  | nil => exact absurd h List.not_mem_nil
  | cons doc docs ih =>
    rcases List.mem_cons.mp h with rfl | h
    · exact ⟨0, doc, rfl, rfl⟩
    · obtain ⟨k, doc', hdoc, rfl⟩ := ih h
      refine ⟨k + 1, doc', hdoc, ?_⟩
      have hid : id + 1 + k = id + (k + 1) := by omega
      rw [hid]

theorem storesLiterals_of_hbasm {env : Environment} {ast : HbaDoc} {file : List UInt8}
    {From : UInt32 → UInt32 → Prop} (h : hbasm (env.withStreams s) ast = .ok file)
    (hcarries : ∀ value bits n, From value bits → Literal s bits n → n < 2 ^ 32 →
      Carries value n) :
    StoresLiterals s (env.withStreams s) ast file From := by
  obtain ⟨hconditions, htransitions⟩ := image_of_hbasm h
  have hlt : ∀ {datatype n}, Fits datatype n → n < 2 ^ 32 := by
    rintro datatype n (⟨-, hn⟩ | ⟨-, hn⟩) <;> omega
  refine ⟨fun datetime t ht => ?_, fun c hc => ?_⟩
  · rw [htransitions datetime] at ht
    obtain ⟨event, hevent, rfl⟩ := List.mem_map.mp (List.mem_of_mem_take ht)
    refine ⟨event, (List.mem_filter.mp hevent).1, rfl, ?_⟩
    intro bits n datatype hfrom hliteral hdatatype hfits
    show storedConstant datatype (unionOf ((env.withStreams s).readValue
      (((env.withStreams s).datatypes event.clause.eid).getD .undefined) event.clause.value)
      (Block.zero 4)) = n ↔ _
    rw [hdatatype]
    exact storedConstant_iff env _ (hcarries _ _ _ hfrom hliteral (hlt hfits)) hfits
  · rw [hconditions] at hc
    obtain ⟨k, doc, hdoc, rfl⟩ := mem_conditionEntries (List.mem_of_mem_take hc)
    rw [Nat.zero_add]
    refine ⟨k, doc, hdoc, rfl, ?_, ?_⟩
    · intro ip eid op value bits n datatype hcond hfrom hliteral hdatatype hfits
      have hraw : (conditionOf (env.withStreams s) k doc).raw =
          unionOf ((env.withStreams s).readValue datatype value) (env.residue k) := by
        rw [conditionOf, hcond]
        show unionOf ((env.withStreams s).readValue
          (((env.withStreams s).datatypes eid).getD .undefined) value) _ = _
        rw [hdatatype]
        rfl
      rw [hraw]
      exact storedConstant_iff env _ (hcarries _ _ _ hfrom hliteral (hlt hfits)) hfits
    · intro value hcond
      have hraw : (conditionOf (env.withStreams s) k doc).raw = unionOf value (env.residue k) := by
        rw [conditionOf, hcond]
        rfl
      rw [hraw]
      exact storedConstant_unionOf_u32 (by decide) _ _

/-- The literals of an assembler program. -/
theorem storesLiterals_hba {env : Environment} {ast : HbaDoc} {file : List UInt8}
    (h : hbasm (env.withStreams s) ast = .ok file) :
    StoresLiterals s (env.withStreams s) ast file fun value bits => value = bits := by
  refine storesLiterals_of_hbasm h ?_
  rintro value bits n rfl hliteral hn
  obtain ⟨w, hw, hsmall, hlarge, -⟩ := hliteral.carries hn
  exact ⟨w, hw, hsmall, hlarge⟩

/-! ## A million -/

/-- A parser that cuts off what does not fit, and a stream that prints natural numbers. -/
def plainStreams : Streams where
  parse text := Lib.FloatText.ofNat ((numeral text).getD 0)
  print bits := ((natValue bits).map general).getD "nan".toList
  parse_exact text n h hn := by
    rw [h]
    exact natValue_ofNat hn
  parse_large text n h hn hn' := by
    rw [h]
    obtain ⟨w, hw, hlow, hhigh⟩ := natValue_ofNat_large hn hn'
    exact ⟨w, hw, hlow, by omega⟩
  print_general bits n h := by
    rw [h]
    rfl

/-- An assembler for endpoints of type `UINT32`. -/
def uint32Assembler : Environment := ⟨fun _ => some .uint32, id, id, fun _ => Block.zero 4⟩

/-- One state that writes a million. -/
def millionProgram : HbaDoc where
  targetIp := ⟨List.replicate 32 0, length_zeroDigits⟩
  deviceName := []
  machineId := []
  startState := "idle"
  blocks := [.state ⟨1, "idle",
    [⟨2, "true", 1, plainStreams.parse "1000000".toList, "idle", "idle"⟩], 0⟩]

theorem million_literal : Literal plainStreams (plainStreams.parse "1000000".toList) (10 ^ 6) :=
  ⟨"1000000".toList, by decide, List.all_eq_true.mp rfl, by decide, rfl⟩

/-- The constant in the image is another one. -/
theorem million_not_stored :
    ∃ file, hbasm (uint32Assembler.withStreams plainStreams) millionProgram = .ok file ∧
      ∃ t ∈ imageTransitions file false, ∃ event ∈ events millionProgram.blocks,
        t = recordOf (uint32Assembler.withStreams plainStreams) millionProgram.blocks event ∧
        Literal plainStreams event.clause.value (10 ^ 6) ∧
        storedConstant .uint32 t.raw ≠ 10 ^ 6 := by
  obtain ⟨file, hfile⟩ : ∃ file,
      hbasm (uint32Assembler.withStreams plainStreams) millionProgram = .ok file := ⟨_, rfl⟩
  have htransitions := (image_of_hbasm hfile).2 false
  refine ⟨file, hfile, _, ?_, _, List.mem_cons_self, rfl, million_literal, ?_⟩
  · rw [htransitions]
    exact List.mem_cons_self
  · have hcarries : Carries (plainStreams.parse "1000000".toList) (10 ^ 6) := by
      obtain ⟨w, hw, hsmall, hlarge, -⟩ := million_literal.carries (by decide)
      exact ⟨w, hw, hsmall, hlarge⟩
    have hiff := @storedConstant_iff plainStreams _ _ uint32Assembler .uint32 (Block.zero 4)
      hcarries (.inr ⟨.inl rfl, by decide⟩)
    intro hstored
    exact absurd (hiff.mp hstored) (by decide)

end Hexabus.Asm
