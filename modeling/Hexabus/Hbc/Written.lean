import Hexabus.Hbc.Grammar

/-!
# Programs as they are written

The language that the grammar describes: every rule with the texts that it stands for, where a
name is a name wherever one may stand. Between two tokens anything that is skipped may stand,
also nothing. The names are pieces of their own, so that a program can be written with others.
-/

namespace Hexabus.Hbc

open Lib.Expectation

namespace Written

/-! ## Tokens -/

def word (w : String) : Language Identifier Unit := Language.word w.toList

/-- A word right behind a line position. -/
def bare (w : String) : Language Identifier Unit := Language.bare w.toList

def more {α : Type} (L : Language Identifier α) : Language Identifier (List α) :=
  .Star do
    word ","
    L

def name : Language Identifier Identifier := fun _ ps x => ps = [.name x]

def identifier : Language Identifier Identifier := do
  Language.gap
  name

def barePlaceholder : Language Identifier Text := fun _ ps t =>
  ∃ w : Text, w.all identifierRest = true ∧ t = '$' :: w ∧ ps = [.word t]

def placeholder : Language Identifier Text := do
  Language.gap
  barePlaceholder

def bareFilename : Language Identifier Text := fun _ ps t =>
  ∃ c cs, Grammar.filenameStart c = true ∧ cs.all Grammar.filenameRest = true ∧ t = c :: cs ∧
    ps = [.word t]

def addressChar : Language Identifier Char := do
  Language.gap
  fun _ ps c => Grammar.addressChar c = true ∧ ps = [.word [c]]

def ipv6Address : Language Identifier Text := do
  let c ← addressChar
  let cs ← Language.Star addressChar
  return c :: cs

/-- Digits that spell the number. -/
def uint : Language Identifier UInt32 := do
  Language.gap
  fun _ ps value => ∃ w, w ≠ [] ∧ w.all Char.isDigit = true ∧ Grammar.decimal w < 2 ^ 32 ∧
    value = UInt32.ofNat (Grammar.decimal w) ∧ ps = [.word w]

/-- What stands behind a number is not part of it. -/
def Ends (s : Text) : Prop :=
  (s.head?.all fun c => !(identifierRest c || c = '.' || c = '(')) = true

/-- `float_` takes the text, and nothing of what stands behind it. -/
def IsFloat (w : Text) : Prop :=
  solid w = true ∧ w.head? ≠ some '$' ∧ ∀ s, Ends s → Grammar.floatText (w ++ s) = some w

section
variable (floatValue : Text → UInt32)

def float : Language Identifier UInt32 := do
  Language.gap
  fun _ ps bits => ∃ w, IsFloat w ∧ bits = floatValue w ∧ ps = [.word w]

/-- The constants. -/
def constant : Language Identifier ConstantDoc :=
  .or (do let name ← placeholder; return .placeholder name) <|
  .or (do let bits ← float floatValue; return .float bits) <|
  .or (do word "i"; let value ← uint; return .uint value) <|
  .or (do word "true"; return .placeholder [])
  (do word "false"; return .placeholder [])

end

def geidPlaceholder : Language Identifier GeidElement := do
  let name ← barePlaceholder
  return .placeholder name

def geidLiteral : Language Identifier GeidElement := do
  let name ← name
  return .literal name

def here : Language Identifier Nat := fun n ps l => ps = [] ∧ l = n

/-- `device_name.endpoint_name`, right behind a line position. -/
def bareGlobalEndpointId : Language Identifier GlobalEndpointIdDoc := do
  let deviceAlias ← geidPlaceholder.or geidLiteral
  bare "."
  let lineno ← here
  let endpointName ← geidLiteral.or geidPlaceholder
  return ⟨deviceAlias, lineno, endpointName⟩

def globalEndpointId : Language Identifier GlobalEndpointIdDoc := do
  Language.gap
  bareGlobalEndpointId

def datatype : Language Identifier Dtype :=
  .or (do word "BOOL"; return .bool) <|
  .or (do word "UINT8"; return .uint8) <|
  .or (do word "UINT32"; return .uint32)
  (do word "FLOAT"; return .float)

def accessLv : Language Identifier AccessLevel :=
  .or (do word "read"; return .read) <|
  .or (do word "write"; return .write)
  (do word "broadcast"; return .broadcast)

/-! ## Includes, endpoints and devices -/

def includeRule : Language Identifier IncludeDoc := do
  word "include"
  let lineno ← Language.linePos
  let filename ← bareFilename
  word ";"
  return ⟨lineno, filename, []⟩

def epEid : Language Identifier EndpointCmdDoc := do
  word "eid"
  let eid ← uint
  word ";"
  return .eid eid

def epDatatype : Language Identifier EndpointCmdDoc := do
  word "datatype"
  let dtype ← datatype
  word ";"
  return .datatype dtype

def epAccess : Language Identifier EndpointCmdDoc := do
  word "access"
  word "\x7b"
  let accessLevel ← accessLv
  let accessLevels ← more accessLv
  word "\x7d"
  return .access (accessLevel :: accessLevels)

def endpointCmd : Language Identifier EndpointCmdDoc := epEid.or (epDatatype.or epAccess)

def endpoint : Language Identifier EndpointDoc := do
  word "endpoint"
  let lineno ← Language.linePos
  let name ← name
  word "\x7b"
  let cmds ← Language.Star endpointCmd
  word "\x7d"
  return ⟨lineno, name, cmds, []⟩

def eidList : Language Identifier (List UInt32) := do
  let eid ← uint
  let eids ← more uint
  return eid :: eids

def aliasIp : Language Identifier AliasCmdDoc := do
  word "ip"
  let ipv6Address ← ipv6Address
  word ";"
  return .ip ipv6Address

def aliasEids : Language Identifier AliasCmdDoc := do
  word "eids"
  word "\x7b"
  let eids ← Language.opt eidList
  word "\x7d"
  return .eids (eids.getD [])

def aliasCmd : Language Identifier AliasCmdDoc := aliasIp.or aliasEids

def aliasRule : Language Identifier AliasDoc := do
  word "device"
  let lineno ← Language.linePos
  let deviceName ← name
  word "\x7b"
  let cmds ← Language.Star aliasCmd
  word "\x7d"
  return ⟨lineno, deviceName, cmds, []⟩

/-! ## State machines -/

def compOp : Language Identifier CompOperator :=
  .or (do word "=="; return .eq) <|
  .or (do word "<="; return .leq) <|
  .or (do word ">="; return .geq) <|
  .or (do word "<"; return .lt) <|
  .or (do word ">"; return .gt)
  (do word "!="; return .neq)

def boolOp : Language Identifier BoolOperator :=
  .or (do word "||"; return .or)
  (do word "&&"; return .and)

def timeF : Language Identifier TimeFields :=
  .or (do word "hour"; return .hour) <|
  .or (do word "minute"; return .minute) <|
  .or (do word "second"; return .second) <|
  .or (do word "day"; return .day) <|
  .or (do word "month"; return .month) <|
  .or (do word "year"; return .year)
  (do word "weekday"; return .weekday)

def timeCompOp : Language Identifier TimeOperator :=
  .or (do word ">"; return .gt)
  (do word "<"; return .lt)

def stateset : Language Identifier (List Identifier) := do
  word "states"
  let _ ← Language.linePos
  bare "\x7b"
  let state ← identifier
  let states ← more identifier
  word "\x7d"
  return state :: states

def gotoCommand : Language Identifier GotoCommandDoc := do
  word "goto"
  let lineno ← Language.linePos
  let targetState ← name
  return ⟨lineno, targetState⟩

def tautology : Language Identifier ConditionDoc := do
  word "true"
  return .tautology 1

section
variable (floatValue : Text → UInt32)

def atomicCondition : Language Identifier ConditionDoc := do
  word "ep"
  let geid ← globalEndpointId
  let compOp ← compOp
  let constant ← constant floatValue
  return .atomic geid compOp constant

def timeoutCondition : Language Identifier ConditionDoc := do
  word "timeout"
  let seconds ← constant floatValue
  return .timeout seconds

def timerCondition : Language Identifier ConditionDoc := do
  word "time"
  let fields ← timeF
  let op ← timeCompOp
  let value ← constant floatValue
  return .timer fields op value

def compoundCondition (condition : Language Identifier ConditionDoc) :
    Language Identifier ConditionDoc := do
  word "("
  let conditionA ← condition
  word ")"
  let boolOp ← boolOp
  word "("
  let conditionB ← condition
  word ")"
  return .compound conditionA boolOp conditionB

/-- Conditions, at most `k` deep. -/
def conditionUpTo : Nat → Language Identifier ConditionDoc
  | 0 => fun _ _ _ => False
  | k + 1 =>
    .or tautology <|
    .or (atomicCondition floatValue) <|
    .or (timeoutCondition floatValue) <|
    .or (timerCondition floatValue)
    (compoundCondition (conditionUpTo k))

def condition : Language Identifier ConditionDoc := fun n ps c =>
  ∃ k, conditionUpTo floatValue k n ps c

def writeCommand : Language Identifier CommandDoc := do
  word "write"
  let lineno ← Language.linePos
  let geid ← bareGlobalEndpointId
  word ":="
  let constant ← constant floatValue
  return ⟨lineno, geid, constant⟩

def command : Language Identifier CommandDoc := do
  let command ← writeCommand floatValue
  word ";"
  return command

def commandBlock : Language Identifier CommandBlockDoc := do
  let commands ← Language.Star (command floatValue)
  let goto ← gotoCommand
  word ";"
  return ⟨commands, goto⟩

/-- `guarded_command_block`, behind its opening bracket. -/
def guardedRest : Language Identifier GuardedCommandBlockDoc := do
  let condition ← condition floatValue
  word ")"
  word "\x7b"
  let commandBlock ← commandBlock floatValue
  word "\x7d"
  return ⟨condition, commandBlock⟩

def alwaysClause : Language Identifier IfClauseDoc := do
  let _ ← Language.linePos
  bare "always"
  word "\x7b"
  let commandBlock ← commandBlock floatValue
  word "\x7d"
  return ⟨⟨.tautology 1, commandBlock⟩, []⟩

def elseIfBlock : Language Identifier GuardedCommandBlockDoc := do
  word "else"
  word "if"
  word "("
  guardedRest floatValue

def ifClause : Language Identifier IfClauseDoc := do
  word "if"
  let _ ← Language.linePos
  bare "("
  let ifBlock ← guardedRest floatValue
  let elseIfBlocks ← Language.Star (elseIfBlock floatValue)
  return ⟨ifBlock, elseIfBlocks⟩

def inClause : Language Identifier InClauseDoc := do
  word "in"
  let lineno ← Language.linePos
  bare "("
  let name ← identifier
  word ")"
  word "\x7b"
  let ifClauses ← Language.or (do let clause ← alwaysClause floatValue; return [clause])
    (Language.Star (ifClause floatValue))
  word "\x7d"
  return ⟨lineno, name, ifClauses⟩

def statemachine : Language Identifier StatemachineDoc := do
  word "machine"
  let lineno ← Language.linePos
  let name ← name
  word "\x7b"
  let stateset ← stateset
  let inClauses ← Language.Star (inClause floatValue)
  word "\x7d"
  return { lineno, name := name.val, stateset, inClauses, readFromFile := [] }

/-! ## Modules -/

def placeholderList : Language Identifier (List Text) := do
  let name ← placeholder
  let names ← more placeholder
  return name :: names

def moduleRule : Language Identifier ModuleDoc := do
  word "module"
  let lineno ← Language.linePos
  let name ← name
  word "("
  let placeholders ← Language.opt placeholderList
  word ")"
  word "\x7b"
  let stateset ← stateset
  let inClauses ← Language.Star (inClause floatValue)
  word "\x7d"
  return { lineno, name, placeholderlist := placeholders.getD [], stateset, inClauses,
           readFromFile := [] }

/-- A name that may stand in the place of a constant. -/
def argument (allowed : Identifier → Prop) : Language Identifier Identifier := fun n ps x =>
  identifier n ps x ∧ allowed x

section
variable (allowed : Identifier → Prop)

/-- An argument of an instance: a constant, or a name. -/
def instParameter : Language Identifier InstParameterDoc :=
  .or (do let value ← constant floatValue; return .constant value)
  (do let name ← argument allowed; return .identifier name)

def instParameters : Language Identifier (List InstParameterDoc) := do
  let parameter ← instParameter floatValue allowed
  let parameters ← more (instParameter floatValue allowed)
  return parameter :: parameters

def instantiation : Language Identifier InstantiationDoc := do
  word "instance"
  let lineno ← Language.linePos
  let name ← name
  word ":"
  let moduleclass ← identifier
  word "("
  let parameters ← Language.opt (instParameters floatValue allowed)
  word ")"
  word ";"
  return { lineno, name, moduleclass, parameters := parameters.getD [], readFromFile := [] }

/-! ## Programs -/

def block : Language Identifier ParsedBlock :=
  .or (do let doc ← includeRule; return .includeDoc doc) <|
  .or (do let doc ← endpoint; return .endpointDoc doc) <|
  .or (do let doc ← aliasRule; return .aliasDoc doc) <|
  .or (do let doc ← statemachine floatValue; return .statemachineDoc doc) <|
  .or (do let doc ← moduleRule floatValue; return .moduleDoc doc)
  (do let doc ← instantiation floatValue allowed; return .instantiationDoc doc)

/-- A program, with what is skipped behind its last block. -/
def program : Language Identifier (List ParsedBlock) := do
  let blocks ← Language.Star (block floatValue allowed)
  Language.gap
  return blocks

end

end

end Written

end Hexabus.Hbc
