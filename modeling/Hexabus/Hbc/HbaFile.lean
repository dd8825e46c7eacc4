import Hexabus.Asm.Reading
import Hexabus.Hbc.Assembling
import Hexabus.Hbc.GeneratedDefinitions

/-!
# The assembler's files

The text that `hba_output.cpp` writes, and what the grammar of the assembler reads of its parts. A
stream prints the constants, so that the assembler has what it makes of the printed text.
-/

namespace Hexabus.Asm

/-! ## Constants -/

section
variable (f : UInt32 → UInt32)

def IfClauseDoc.reread (clause : IfClauseDoc) : IfClauseDoc := { clause with value := f clause.value }

def StateDoc.reread (doc : StateDoc) : StateDoc :=
  { doc with ifClauses := doc.ifClauses.map (IfClauseDoc.reread f) }

def HbaCond.reread : HbaCond → HbaCond
  | .eidvalue ipv6Address eid op value => .eidvalue ipv6Address eid op (f value)
  | .timeout value => .timeout value
  | .datetime field op value => .datetime field op value

def HbaDocBlock.reread : HbaDocBlock → HbaDocBlock
  | .state doc => .state (doc.reread f)
  | .condition doc => .condition { doc with cond := doc.cond.reread f }

end

/-! ## Lines -/

def IfClauseDoc.unnumbered (clause : IfClauseDoc) : IfClauseDoc := { clause with lineno := 0 }

def StateDoc.unnumbered (doc : StateDoc) : StateDoc :=
  { doc with lineno := 0, ifClauses := doc.ifClauses.map IfClauseDoc.unnumbered }

def HbaDocBlock.unnumbered : HbaDocBlock → HbaDocBlock
  | .state doc => .state doc.unnumbered
  | .condition doc => .condition { doc with lineno := 0 }

/-- A program, but for the lines of its blocks and clauses. -/
def HbaDoc.unnumbered (doc : HbaDoc) : HbaDoc :=
  { doc with blocks := doc.blocks.map HbaDocBlock.unnumbered }

end Hexabus.Asm

namespace Hexabus.Hbc

open Lib.Expectation Asm

def HbaText.reread (f : UInt32 → UInt32) (text : HbaText) : HbaText :=
  { text with blocks := text.blocks.map (HbaDocBlock.reread f) }

/-! ## The text -/

def hexChar (digit : HexDigit) : Char := Nat.digitChar digit.val

/-- `print_ipv6address`, digit by digit. -/
def writeDigits : Nat → List HexDigit → Text
  | _, [] => []
  | i, digit :: digits =>
    (if i % 4 = 0 ∧ i ≠ 0 then [':'] else []) ++ hexChar digit :: writeDigits (i + 1) digits

/-- The sign of a comparison. -/
def signOf (op : UInt8) : Text :=
  if op = CompOperator.eq.code then "==".toList
  else if op = CompOperator.leq.code then "<=".toList
  else if op = CompOperator.geq.code then ">=".toList
  else if op = CompOperator.lt.code then "<".toList
  else if op = CompOperator.gt.code then ">".toList
  else "!=".toList

/-- The word for a field of a date-time. -/
def fieldWord (field : UInt8) : Text :=
  if field = TimeFields.hour.code then "hour".toList
  else if field = TimeFields.minute.code then "minute".toList
  else if field = TimeFields.second.code then "second".toList
  else if field = TimeFields.day.code then "day".toList
  else if field = TimeFields.month.code then "month".toList
  else if field = TimeFields.year.code then "year".toList
  else "weekday".toList

def directionWord (op : UInt8) : Text :=
  if op = TimeOperator.lt.code then " before ".toList else " after ".toList

section
variable (print : UInt32 → Text)

/-- The lines of an atomic condition. -/
def writeAtomic (address : Ipv6Address) (eid : UInt32) (op : UInt8) (value : UInt32) : Text :=
  "  ip := ".toList ++ (writeDigits 0 address.val ++ (";\n".toList ++
    ("  eid := ".toList ++ (printUint eid.toNat ++ (";\n".toList ++
    ("  value ".toList ++ (signOf op ++ (" ".toList ++ (print value ++ ";\n".toList)))))))))

def writeTimeout (value : UInt32) : Text :=
  "  timeout := ".toList ++ (printUint value.toNat ++ ";\n".toList)

def writeTimer (field op : UInt8) (value : UInt32) : Text :=
  "  ".toList ++ (fieldWord field ++ (directionWord op ++ (printUint value.toNat ++ ";\n".toList)))

/-- What stands in the block of a condition. -/
def writeCond : HbaCond → Text
  | .eidvalue address eid op value => writeAtomic print address eid op value
  | .timeout value => writeTimeout value
  | .datetime field op value => writeTimer field op value

/-- A clause, from its blanks to the line end behind it. -/
def writeClause (clause : Asm.IfClauseDoc) : Text :=
  "  if ".toList ++ (clause.name.toList ++ (" \x7b\n".toList ++
    ("    set ".toList ++ (printUint clause.eid.toNat ++ (" := ".toList ++ (print clause.value ++
    (";\n".toList ++ ("    goodstate ".toList ++ (clause.goodstate.toList ++ (";\n".toList ++
    ("    badstate ".toList ++ (clause.badstate.toList ++ (";\n".toList ++
      "  \x7d\n".toList)))))))))))))

/-- The block of a condition. -/
def writeCondition (doc : Asm.ConditionDoc) : Text :=
  "condition ".toList ++ (doc.name.toList ++ (" \x7b\n".toList ++ (writeCond print doc.cond ++
    "\x7d\n\n".toList)))

/-- The block of a state. -/
def writeState (doc : StateDoc) : Text :=
  "state ".toList ++ (doc.name.toList ++ (" \x7b\n".toList ++
    (doc.ifClauses.flatMap (writeClause print) ++ "\x7d\n\n".toList)))

def writeBlock : HbaDocBlock → Text
  | .condition doc => writeCondition print doc
  | .state doc => writeState print doc

/-- The lines for a vertex whose name ends in `.init`. -/
def writeStart (start : List HexDigit × String) : Text :=
  "machine ".toList ++ (start.1.map hexChar ++ (";\n\n".toList ++
    ("startstate ".toList ++ (start.2.toList ++ ";\n\n".toList))))

/-- The file. -/
def HbaText.write (version : Text) (text : HbaText) : Text :=
  "# Auto-generated by Hexabus Compiler version ".toList ++ (version ++ (".\n\n".toList ++
    ("target ".toList ++ (writeDigits 0 text.target.val ++ (";\n".toList ++
    ("device_name ".toList ++ (text.deviceName.val ++ (";\n".toList ++
    (text.starts.flatMap writeStart ++ text.blocks.flatMap (writeBlock print))))))))))

end

/-! ## Tokens -/

section
variable {g : Text}

theorem hexChar_spec : ∀ digit : HexDigit, isHex (hexChar digit) = true ∧
    hexValue (hexChar digit) = digit := by decide

theorem spells_hexDigit (hg : Gap g) (digit : HexDigit) :
    Spells (Grammar.spelled id) Asm.Written.hexDigit (g ++ [hexChar digit]) (· = digit) :=
  (spells_token hg (hexChar_spec digit).1).map fun c hc => by
    rw [hc]
    exact (hexChar_spec digit).2

/-- A block, as it is written. -/
def blockText (block : Ipv6AddressBlock) : Text := block.digits.map hexChar

theorem spells_ipv6AddressBlock (hg : Gap g) (block : Ipv6AddressBlock) :
    Spells (Grammar.spelled id) Asm.Written.ipv6AddressBlock (g ++ blockText block) (· = block) := by
  have h : Spells (Grammar.spelled id) Asm.Written.ipv6AddressBlock
      (g ++ [hexChar block.a] ++ ([] ++ [hexChar block.b] ++ ([] ++ [hexChar block.c] ++
        ([] ++ [hexChar block.d] ++ [])))) (· = block) :=
    (spells_hexDigit hg block.a).bind fun _ ha => (spells_hexDigit .nil block.b).bind fun _ hb =>
      (spells_hexDigit .nil block.c).bind fun _ hc => (spells_hexDigit .nil block.d).bind fun _ hd =>
        spells_pure (by rw [ha, hb, hc, hd])
  simpa [blockText, Ipv6AddressBlock.digits] using h

theorem spells_nextBlock (block : Ipv6AddressBlock) :
    Spells (Grammar.spelled id) Asm.Written.nextBlock (':' :: blockText block) (· = block) :=
  (spells_ipv6AddressBlock .nil block).word ":".toList .nil

/-- The first block of some digits. -/
theorem exists_block {n : Nat} {digits : List HexDigit} (h : digits.length = n + 4) :
    ∃ (block : Ipv6AddressBlock) (rest : List HexDigit),
      digits = block.digits ++ rest ∧ rest.length = n := by
  match digits, h with
  | a :: b :: c :: d :: rest, h => exact ⟨⟨a, b, c, d⟩, rest, rfl, by simpa using h⟩

theorem exists_blocks (address : Ipv6Address) :
    ∃ a b c d e f g h, address = .ofBlocks a b c d e f g h := by
  obtain ⟨digits, hdigits⟩ := address
  obtain ⟨a, digits, rfl, h28⟩ := exists_block (n := 28) hdigits
  obtain ⟨b, digits, rfl, h24⟩ := exists_block (n := 24) h28
  obtain ⟨c, digits, rfl, h20⟩ := exists_block (n := 20) h24
  obtain ⟨d, digits, rfl, h16⟩ := exists_block (n := 16) h20
  obtain ⟨e, digits, rfl, h12⟩ := exists_block (n := 12) h16
  obtain ⟨f, digits, rfl, h8⟩ := exists_block (n := 8) h12
  obtain ⟨g, digits, rfl, h4⟩ := exists_block (n := 4) h8
  obtain ⟨h, digits, rfl, h0⟩ := exists_block (n := 0) h4
  obtain rfl := List.length_eq_zero_iff.mp h0
  exact ⟨a, b, c, d, e, f, g, h, Subtype.ext rfl⟩

theorem writeDigits_ofBlocks (a b c d e f g h : Ipv6AddressBlock) :
    writeDigits 0 (Ipv6Address.ofBlocks a b c d e f g h).val =
      blockText a ++ (':' :: blockText b ++ (':' :: blockText c ++ (':' :: blockText d ++
        (':' :: blockText e ++ (':' :: blockText f ++ (':' :: blockText g ++
          (':' :: blockText h ++ []))))))) := rfl

theorem spells_ipv6Address (hg : Gap g) (address : Ipv6Address) :
    Spells (Grammar.spelled id) Asm.Written.ipv6Address (g ++ writeDigits 0 address.val)
      (· = address) := by
  obtain ⟨a, b, c, d, e, f, g, h, rfl⟩ := exists_blocks address
  rw [writeDigits_ofBlocks, ← List.append_assoc]
  exact (spells_ipv6AddressBlock hg a).bind fun _ ha => (spells_nextBlock b).bind fun _ hb =>
    (spells_nextBlock c).bind fun _ hc => (spells_nextBlock d).bind fun _ hd =>
      (spells_nextBlock e).bind fun _ he => (spells_nextBlock f).bind fun _ hf =>
        (spells_nextBlock g).bind fun _ hg => (spells_nextBlock h).bind fun _ hh =>
          spells_pure (by rw [ha, hb, hc, hd, he, hf, hg, hh])

/-- A name right behind a line position. -/
theorem spells_bareIdentifier {name : String} (h : isIdentifier name.toList = true) :
    Spells (Grammar.spelled id) Asm.Written.bareIdentifier name.toList (· = name) := by
  cases hname : name.toList with
  | nil =>
    rw [hname] at h
    cases h
  | cons c cs =>
    rw [hname] at h
    obtain ⟨hc, hcs⟩ := (Bool.and_eq_true _ _).mp h
    have hspells := (@spells_oneOf _ (Grammar.spelled id) identifierStart c hc).bind (u := cs ++ [])
      (N := fun c => do
        let cs ← Language.Star (Language.token identifierRest)
        return String.ofList (c :: cs)) (Q := (· = name)) fun d hd =>
      (spells_tokens hcs).bind fun ds hds => spells_pure (by
        rw [hd, hds, ← hname, String.ofList_toList])
    rwa [List.append_nil] at hspells

theorem spells_identifier (hg : Gap g) {name : String} (h : isIdentifier name.toList = true) :
    Spells (Grammar.spelled id) Asm.Written.identifier (g ++ name.toList) (· = name) :=
  (spells_gap hg).bind fun _ _ => spells_bareIdentifier h

theorem spells_operator (hg : Gap g) (op : CompOperator) :
    Spells (Grammar.spelled id) Asm.Written.operator (g ++ signOf op.code) (· = op.code) := by
  cases op with
  | eq => exact (Definitions.spells_token _ _ hg).left
  | leq => exact (Definitions.spells_token _ _ hg).left.right
  | geq => exact (Definitions.spells_token _ _ hg).left.right.right
  | lt => exact (Definitions.spells_token _ _ hg).left.right.right.right
  | gt => exact (Definitions.spells_token _ _ hg).left.right.right.right.right
  | neq => exact (Definitions.spells_token _ _ hg).right.right.right.right.right

theorem spells_field (hg : Gap g) (field : TimeFields) :
    Spells (Grammar.spelled id) Asm.Written.field (g ++ fieldWord field.code) (· = field.code) := by
  cases field with
  | hour => exact (Definitions.spells_token _ _ hg).left
  | minute => exact (Definitions.spells_token _ _ hg).left.right
  | second => exact (Definitions.spells_token _ _ hg).left.right.right
  | day => exact (Definitions.spells_token _ _ hg).left.right.right.right
  | month => exact (Definitions.spells_token _ _ hg).left.right.right.right.right
  | year => exact (Definitions.spells_token _ _ hg).left.right.right.right.right.right
  | weekday => exact (Definitions.spells_token _ _ hg).right.right.right.right.right.right

theorem spells_direction (op : TimeOperator) : Spells (Grammar.spelled id) Asm.Written.direction
    (directionWord op.code).dropLast (· = op.code) := by
  cases op with
  | lt => exact (Definitions.spells_token "before".toList _ Definitions.gap_space).left
  | gt => exact (Definitions.spells_token "after".toList _ Definitions.gap_space).right

section
variable {floatValue : Text → UInt32} {print : UInt32 → Text}

theorem spells_float (hprint : ∀ bits, Written.IsFloat (print bits)) (hg : Gap g) (bits : UInt32) :
    Spells (Grammar.spelled id) (Written.float floatValue) (g ++ print bits)
      (· = floatValue (print bits)) :=
  (spells_gap hg).bind fun _ _ _ =>
    ⟨[.word (print bits)], _, ⟨print bits, hprint bits, rfl, rfl⟩, textOf_singleton _ _, rfl⟩

/-! ## Conditions -/

/-- The codes of a condition are those of an operator and of a field. -/
def Coded : HbaCond → Prop
  | .eidvalue _ _ op _ => ∃ compOp : CompOperator, op = compOp.code
  | .timeout _ => True
  | .datetime field op _ => ∃ (fields : TimeFields) (timeOp : TimeOperator),
      field = fields.code ∧ op = timeOp.code

theorem gap_twoSpaces : Gap "  ".toList := .blank rfl (.blank rfl .nil)

theorem gap_indented : Gap "\n  ".toList := .blank rfl gap_twoSpaces

/-- A number, and the semicolon behind it. -/
theorem spells_uintSemicolon {α : Type} {N : UInt32 → Language Identifier α} {u : Text}
    {Q : α → Prop} (hg : Gap g) (value : UInt32)
    (hN : Spells (Grammar.spelled id) (N value) u Q) :
    Spells (Grammar.spelled id) (do let value ← Written.uint; Written.word ";"; N value)
      (g ++ printUint value.toNat ++ (';' :: u)) Q :=
  (Definitions.spells_uint hg value).bind fun _ hvalue => by
    rw [hvalue]
    exact hN.word ";".toList .nil

/-- A condition behind a bracket, up to the line end behind it. -/
theorem writeAtomic_eq (address : Ipv6Address) (eid : UInt32) (op : UInt8) (value : UInt32) :
    " \x7b\n".toList ++ writeAtomic print address eid op value = " \x7b".toList ++
      (("\n  ".toList ++ "ip".toList ++ ([' '] ++ ":=".toList ++ ([' '] ++ writeDigits 0 address.val ++
        ([] ++ ";".toList ++ ("\n  ".toList ++ "eid".toList ++ ([' '] ++ ":=".toList ++
        ([' '] ++ printUint eid.toNat ++ (';' :: ("\n  ".toList ++ "value".toList ++
        ([' '] ++ signOf op ++ ([' '] ++ print value ++ ([] ++ ";".toList ++ [])))))))))))) ++
        ['\n']) := by
  unfold writeAtomic
  generalize writeDigits 0 address.val = digits
  generalize printUint eid.toNat = number
  generalize signOf op = sign
  simp

theorem writeTimeout_eq (value : UInt32) :
    " \x7b\n".toList ++ writeTimeout value = " \x7b".toList ++
      (("\n  ".toList ++ "timeout".toList ++ ([' '] ++ ":=".toList ++
        ([' '] ++ printUint value.toNat ++ (';' :: [])))) ++ ['\n']) := by
  unfold writeTimeout
  generalize printUint value.toNat = number
  simp

theorem writeTimer_eq (field op : UInt8) (value : UInt32) :
    " \x7b\n".toList ++ writeTimer field op value = " \x7b".toList ++
      (("\n  ".toList ++ fieldWord field ++ ((directionWord op).dropLast ++
        ([' '] ++ printUint value.toNat ++ (';' :: [])))) ++ ['\n']) := by
  have hdirection : directionWord op = (directionWord op).dropLast ++ [' '] := by
    unfold directionWord
    split <;> rfl
  unfold writeTimer
  generalize printUint value.toNat = number
  generalize fieldWord field = word
  rw [hdirection]
  generalize (directionWord op).dropLast = direction
  simp

variable (floatValue)

/-- **A condition.** -/
theorem spells_cond (hprint : ∀ bits, Written.IsFloat (print bits)) {cond : HbaCond}
    (hcoded : Coded cond) :
    ∃ text, " \x7b\n".toList ++ writeCond print cond = " \x7b".toList ++ (text ++ ['\n']) ∧
      Spells (Grammar.spelled id)
        ((Asm.Written.condEidvalue floatValue).or (Asm.Written.condTimeout.or Asm.Written.condDatetime))
        text (· = cond.reread (floatValue ∘ print)) := by
  cases cond with
  | eidvalue address eid op value =>
    obtain ⟨compOp, rfl⟩ := hcoded
    refine ⟨_, writeAtomic_eq address eid compOp.code value, Spells.left (.word "ip".toList gap_indented
      (.word ":=".toList Definitions.gap_space ?_))⟩
    refine (spells_ipv6Address Definitions.gap_space address).bind fun _ haddress => ?_
    refine .word ";".toList .nil (.word "eid".toList gap_indented
      (.word ":=".toList Definitions.gap_space ?_))
    refine spells_uintSemicolon Definitions.gap_space eid (.word "value".toList gap_indented ?_)
    refine (spells_operator Definitions.gap_space compOp).bind fun _ hop => ?_
    refine (spells_float hprint Definitions.gap_space value).bind fun _ hvalue => ?_
    exact .word ";".toList .nil (spells_pure (by rw [haddress, hop, hvalue]; rfl))
  | timeout value =>
    refine ⟨_, writeTimeout_eq value, Spells.right (Spells.left (.word "timeout".toList gap_indented
      (.word ":=".toList Definitions.gap_space ?_)))⟩
    exact spells_uintSemicolon Definitions.gap_space value (spells_pure rfl)
  | datetime field op value =>
    obtain ⟨fields, timeOp, rfl, rfl⟩ := hcoded
    refine ⟨_, writeTimer_eq fields.code timeOp.code value, Spells.right (Spells.right ?_)⟩
    refine (spells_field gap_indented fields).bind fun _ hfield => ?_
    refine (spells_direction timeOp).bind fun _ hop => ?_
    exact spells_uintSemicolon Definitions.gap_space value (spells_pure (by rw [hfield, hop]; rfl))

/-! ## Clauses -/

/-- What is called by a clause has a name that can be read. -/
def Spelled (clause : Asm.IfClauseDoc) : Prop :=
  clause.lineno = 0 ∧ isIdentifier clause.name.toList = true ∧
    isIdentifier clause.goodstate.toList = true ∧ isIdentifier clause.badstate.toList = true

theorem gap_clause : Gap "\n    ".toList := .blank rfl (gap_twoSpaces.append gap_twoSpaces)

theorem writeClause_eq (clause : Asm.IfClauseDoc) :
    writeClause print clause = ("  ".toList ++ "if".toList ++ ([' '] ++ (clause.name.toList ++
      ([' '] ++ "\x7b".toList ++ ("\n    ".toList ++ "set".toList ++
      ([' '] ++ printUint clause.eid.toNat ++ ([' '] ++ ":=".toList ++
      ([' '] ++ print clause.value ++ ([] ++ ";".toList ++ ("\n    ".toList ++ "goodstate".toList ++
      ([' '] ++ clause.goodstate.toList ++ ([] ++ ";".toList ++ ("\n    ".toList ++ "badstate".toList ++
      ([' '] ++ clause.badstate.toList ++ ([] ++ ";".toList ++
      ("\n  ".toList ++ "\x7d".toList ++ [])))))))))))))))) ++ ['\n'] := by
  unfold writeClause
  generalize clause.name.toList = name
  generalize clause.goodstate.toList = goodstate
  generalize clause.badstate.toList = badstate
  generalize printUint clause.eid.toNat = number
  simp

/-- **A clause.** -/
theorem spells_clause (hprint : ∀ bits, Written.IsFloat (print bits)) {clause : Asm.IfClauseDoc}
    (h : Spelled clause) :
    ∃ body tail, writeClause print clause = body ++ tail ∧ Gap tail ∧ ∀ g, Gap g →
      Spells (Grammar.spelled id) (Asm.Written.ifClause floatValue) (g ++ body)
        fun doc => doc.unnumbered = clause.reread (floatValue ∘ print) := by
  obtain ⟨hlineno, hclause, hgoodstate, hbadstate⟩ := h
  refine ⟨_, _, writeClause_eq clause, .blank rfl .nil, fun g hg => ?_⟩
  rw [← List.append_assoc g, ← List.append_assoc g]
  refine .word "if".toList (hg.append gap_twoSpaces) ?_
  refine (spells_linePos Definitions.gap_space).bind fun _ _ => ?_
  refine (spells_bareIdentifier hclause).bind fun _ hname => ?_
  refine .word "\x7b".toList Definitions.gap_space (.word "set".toList gap_clause ?_)
  refine (Definitions.spells_uint Definitions.gap_space clause.eid).bind fun _ heid => ?_
  refine .word ":=".toList Definitions.gap_space ?_
  refine (spells_float hprint Definitions.gap_space clause.value).bind fun _ hvalue => ?_
  refine .word ";".toList .nil (.word "goodstate".toList gap_clause ?_)
  refine (spells_identifier Definitions.gap_space hgoodstate).bind fun _ hgood => ?_
  refine .word ";".toList .nil (.word "badstate".toList gap_clause ?_)
  refine (spells_identifier Definitions.gap_space hbadstate).bind fun _ hbad => ?_
  refine .word ";".toList .nil (.word "\x7d".toList gap_indented (spells_pure ?_))
  simp only [IfClauseDoc.unnumbered, IfClauseDoc.reread, hname, heid, hvalue, hgood, hbad, hlineno,
    Function.comp_apply]

/-! ## Blocks -/

/-- A block whose names can be read, and whose conditions have codes. -/
def Writable : HbaDocBlock → Prop
  | .state doc => isIdentifier doc.name.toList = true ∧ doc.id = 0 ∧ doc.lineno = 0 ∧
      ∀ clause ∈ doc.ifClauses, Spelled clause
  | .condition doc => isIdentifier doc.name.toList = true ∧ doc.id = 0 ∧ doc.lineno = 0 ∧
      Coded doc.cond

/-- What is read of a list, where it is known of every element. -/
theorem map_eq_map {α β γ : Type} {p : β → γ} {q : α → γ} {as : List α} {bs : List β}
    (h : List.Forall₂ (fun a b => p b = q a) as bs) : bs.map p = as.map q := by
  induction h with
  | nil => rfl
  | cons hab _ ih => rw [List.map_cons, List.map_cons, hab, ih]

theorem gap_blankLine : Gap "\n\n".toList := .blank rfl (.blank rfl .nil)

theorem writeState_eq {doc : StateDoc} {clauses gap : Text}
    (h : ['\n'] ++ doc.ifClauses.flatMap (writeClause print) = clauses ++ gap) :
    writeState print doc = ("state".toList ++ ([' '] ++ (doc.name.toList ++ ([' '] ++ "\x7b".toList ++
      (clauses ++ (gap ++ "\x7d".toList ++ [])))))) ++ "\n\n".toList := by
  unfold writeState
  generalize doc.name.toList = name
  generalize doc.ifClauses.flatMap (writeClause print) = written at h ⊢
  have htext : clauses ++ (gap ++ "\x7d\n\n".toList) = ['\n'] ++ written ++ "\x7d\n\n".toList := by
    rw [h, List.append_assoc]
  simp at htext ⊢
  rw [htext]

theorem writeCondition_eq {doc : Asm.ConditionDoc} {text : Text}
    (h : " \x7b\n".toList ++ writeCond print doc.cond = " \x7b".toList ++ (text ++ ['\n'])) :
    writeCondition print doc = ("condition".toList ++ ([' '] ++ (doc.name.toList ++
      ([' '] ++ "\x7b".toList ++ (text ++ (['\n'] ++ "\x7d".toList ++ [])))))) ++ "\n\n".toList := by
  unfold writeCondition
  generalize doc.name.toList = name
  generalize writeCond print doc.cond = written at h ⊢
  simp at h ⊢
  rw [← List.cons_append, h]
  simp

/-- **A block.** -/
theorem spells_block (hprint : ∀ bits, Written.IsFloat (print bits)) {block : HbaDocBlock}
    (h : Writable block) :
    ∃ body tail, writeBlock print block = body ++ tail ∧ Gap tail ∧ ∀ g, Gap g →
      Spells (Grammar.spelled id) (Asm.Written.block floatValue) (g ++ body)
        fun doc => doc.unnumbered = block.reread (floatValue ∘ print) := by
  cases block with
  | state doc =>
    obtain ⟨hname, hid, hlineno, hclauses⟩ := h
    obtain ⟨clauses, gap, htext, hgap, hspells⟩ := spells_items (g := ['\n'])
      (fun clause hclause => spells_clause floatValue hprint (hclauses clause hclause))
      (.blank rfl .nil)
    refine ⟨_, _, writeState_eq htext, gap_blankLine, fun g hg => ?_⟩
    rw [← List.append_assoc g]
    refine Spells.left (Spells.map (P := fun doc' => doc'.unnumbered =
      doc.reread (floatValue ∘ print)) ?_ fun doc' h => congrArg HbaDocBlock.state h)
    refine .word "state".toList hg ((spells_linePos Definitions.gap_space).bind fun _ _ => ?_)
    refine (spells_bareIdentifier hname).bind fun _ hread => ?_
    refine .word "\x7b".toList Definitions.gap_space (hspells.bind fun docs hdocs => ?_)
    refine .word "\x7d".toList hgap (spells_pure ?_)
    simp only [StateDoc.unnumbered, StateDoc.reread, hread, hid, hlineno, map_eq_map hdocs]
  | condition doc =>
    obtain ⟨hname, hid, hlineno, hcoded⟩ := h
    obtain ⟨text, htext, hspells⟩ := spells_cond floatValue hprint hcoded
    refine ⟨_, _, writeCondition_eq htext, gap_blankLine, fun g hg => ?_⟩
    rw [← List.append_assoc g]
    refine Spells.right (Spells.map (P := fun doc' => { doc' with lineno := 0 } =
      { doc with cond := doc.cond.reread (floatValue ∘ print) }) ?_
      fun doc' h => congrArg HbaDocBlock.condition h)
    refine .word "condition".toList hg ((spells_linePos Definitions.gap_space).bind fun _ _ => ?_)
    refine (spells_bareIdentifier hname).bind fun _ hread => ?_
    refine .word "\x7b".toList Definitions.gap_space (hspells.bind fun cond hcond => ?_)
    refine .word "\x7d".toList (.blank rfl .nil) (spells_pure ?_)
    rw [hread, hcond, hid, hlineno]

end

end

end Hexabus.Hbc
