import Hexabus.Hbc.DtypeFile
import Hexabus.Hbc.IncludeHandling
import Hexabus.Hbc.ModuleInstantiation
import Hexabus.Lib.Expectation

/-!
# The grammar

`hbcomp_grammar.hpp`, rule by rule, with `skipper.hpp`. In front of a rule that has no skipper
the text is skipped once, and within it nothing is. The line numbers that no later pass looks at
are left out; a line ends with a line feed. What a number stands for as a `float` is a
parameter.
-/

namespace Hexabus.Hbc

open Lib.Expectation

/-! ## Blocks -/

/-- `access_level`. -/
inductive AccessLevel
  | read | write | broadcast
  deriving DecidableEq

/-- `endpoint_cmd_doc`, with its alternatives `ep_eid_doc`, `ep_datatype_doc` and
`ep_access_doc`. -/
inductive EndpointCmdDoc
  | eid (eid : UInt32)
  | datatype (dtype : Dtype)
  | access (accessLevels : List AccessLevel)
  deriving DecidableEq

/-- `endpoint_doc`. -/
structure EndpointDoc where
  lineno : Nat
  name : Identifier
  cmds : List EndpointCmdDoc
  readFromFile : Text
  deriving DecidableEq

/-- `alias_cmd_doc`, with its alternatives `alias_ip_doc` and `alias_eids_doc`. -/
inductive AliasCmdDoc
  | ip (ipv6Address : Text)
  | eids (eids : List UInt32)
  deriving DecidableEq

/-- `alias_doc`. -/
structure AliasDoc where
  lineno : Nat
  deviceName : Identifier
  cmds : List AliasCmdDoc
  readFromFile : Text
  deriving DecidableEq

/-- `hbc_block`. -/
inductive ParsedBlock
  | includeDoc (doc : IncludeDoc)
  | endpointDoc (doc : EndpointDoc)
  | aliasDoc (doc : AliasDoc)
  | statemachineDoc (doc : StatemachineDoc)
  | moduleDoc (doc : ModuleDoc)
  | instantiationDoc (doc : InstantiationDoc)

namespace Grammar

open Parser

/-! ## Tokens -/

/-- A keyword or a sign. -/
def word (w : String) : Parser Unit := lit w.toList

/-- Behind a list's first element. -/
def more {α : Type} (p : Parser α) : Parser (List α) := star do
  word ","
  expect p

theorem isIdentifier_read {c : Char} {cs : Text} (h : identifierStart c = true) :
    isIdentifier (c :: cs.takeWhile identifierRest) = true := by
  rw [isIdentifier, h, Bool.true_and, List.all_eq_true]
  exact fun d hd => List.mem_takeWhile_imp hd

/-- `identifier`, with nothing skipped. -/
def bareIdentifier : Parser Identifier := fun s =>
  match s.rest with
  | [] => .fail
  | c :: cs =>
    if h : identifierStart c = true then
      .ok ⟨c :: cs.takeWhile identifierRest, isIdentifier_read h⟩
        (s.advance (cs.dropWhile identifierRest))
    else .fail

def identifier : Parser Identifier := do
  skipped
  bareIdentifier

/-- `placeholder`, with nothing skipped. The sign is part of the name. -/
def barePlaceholder : Parser Text := do
  bare ['$']
  let name ← run identifierRest
  return '$' :: name

def placeholder : Parser Text := do
  skipped
  barePlaceholder

/-- `char_("a-zA-Z0-9_/")`. -/
def filenameStart (c : Char) : Bool := identifierRest c || c = '/'

/-- `char_("a-zA-Z0-9_./")`. -/
def filenameRest (c : Char) : Bool := filenameStart c || c = '.'

def filename : Parser Text := do
  skipped
  let c ← expect (oneOf filenameStart)
  let cs ← run filenameRest
  return c :: cs

/-- `char_("a-fA-F0-9:")`. -/
def addressChar (c : Char) : Bool :=
  c.isDigit || ('a' ≤ c && c ≤ 'f') || ('A' ≤ c && c ≤ 'F') || c = ':'

def ipv6Address : Parser Text := plus do
  skipped
  oneOf addressChar

/-- The number that digits spell. -/
def decimal (w : Text) : Nat := Nat.ofDigitChars 10 w 0

/-- `uint_`. A number that does not fit does not match. -/
def uint : Parser UInt32 := do
  skipped
  let w ← run Char.isDigit
  holds (w ≠ [] && decimal w < 2 ^ 32)
  return UInt32.ofNat (decimal w)

/-- The text begins with the word, in letters of any case. -/
def beginsWith (w s : Text) : Bool := (s.take w.length).map Char.toLower = w

/-- `nan`, which something in brackets may follow, and `inf` or `infinity`. -/
def specialText (s : Text) : Option Text :=
  if beginsWith "nan".toList s then
    match s.drop 3 with
    | '(' :: t =>
      let inner := t.takeWhile (· ≠ ')')
      if inner.length < t.length then some (s.take (inner.length + 5)) else none
    | _ => some (s.take 3)
  else if beginsWith "inf".toList s then
    some (s.take (if beginsWith "inity".toList (s.drop 3) then 8 else 3))
  else none

def signText : Text → Text
  | '+' :: _ => ['+']
  | '-' :: _ => ['-']
  | _ => []

/-- The exponent; an `e` without one is a mismatch. -/
def exponentText : Text → Option Text
  | c :: s =>
    if c = 'e' || c = 'E' then
      let digits := (s.drop (signText s).length).takeWhile Char.isDigit
      if digits = [] then none else some (c :: (signText s ++ digits))
    else some []
  | [] => some []

/-- What `float_` takes behind the sign. -/
def unsignedText (s : Text) : Option Text :=
  let whole := s.takeWhile Char.isDigit
  let special := if whole = [] then specialText s else none
  if special.isSome then special
  else
    let t := s.drop whole.length
    let fraction := match t with
      | '.' :: u => '.' :: u.takeWhile Char.isDigit
      | _ => []
    if whole = [] && fraction.length < 2 then none
    else (exponentText (t.drop fraction.length)).map fun e => whole ++ (fraction ++ e)

/-- What `float_` takes. -/
def floatText (s : Text) : Option Text :=
  (unsignedText (s.drop (signText s).length)).map (signText s ++ ·)

/-- `float_`, with nothing skipped. -/
def bareFloat : Parser Text := fun s =>
  match floatText s.rest with
  | some w => .ok w (s.advance (s.rest.drop w.length))
  | none => .fail

section
variable (floatValue : Text → UInt32)

/-- `constant`. The words `true` and `false` leave a placeholder without a name. -/
def constant : Parser ConstantDoc :=
  (do let name ← placeholder; return .placeholder name)
  <|> (do skipped; let w ← bareFloat; return .float (floatValue w))
  <|> (do word "i"; let value ← expect uint; return .uint value)
  <|> (do word "true"; return .placeholder [])
  <|> (do word "false"; return .placeholder [])

end

/-- A placeholder in the place of a name. -/
def geidPlaceholder : Parser GeidElement := do
  let name ← barePlaceholder
  return .placeholder name

def geidLiteral : Parser GeidElement := do
  let name ← bareIdentifier
  return .literal name

/-- `device_name.endpoint_name`; there is nothing to skip within. -/
def globalEndpointId : Parser GlobalEndpointIdDoc := do
  skipped
  let deviceAlias ← geidPlaceholder <|> geidLiteral
  expect (bare ['.'])
  let lineno ← here
  let endpointName ← expect (geidLiteral <|> geidPlaceholder)
  return ⟨deviceAlias, lineno, endpointName⟩

def datatype : Parser Dtype :=
  (do word "BOOL"; return .bool)
  <|> (do word "UINT8"; return .uint8)
  <|> (do word "UINT32"; return .uint32)
  <|> (do word "FLOAT"; return .float)

def accessLv : Parser AccessLevel :=
  (do word "read"; return .read)
  <|> (do word "write"; return .write)
  <|> (do word "broadcast"; return .broadcast)

/-! ## Includes, endpoints and devices -/

def includeRule : Parser IncludeDoc := do
  word "include"
  let lineno ← linePos
  let filename ← expect filename
  expect (word ";")
  return ⟨lineno, filename, []⟩

def epEid : Parser EndpointCmdDoc := do
  word "eid"
  let eid ← expect uint
  expect (word ";")
  return .eid eid

def epDatatype : Parser EndpointCmdDoc := do
  word "datatype"
  let dtype ← expect datatype
  expect (word ";")
  return .datatype dtype

def epAccess : Parser EndpointCmdDoc := do
  word "access"
  expect (word "\x7b")
  let accessLevel ← expect accessLv
  let accessLevels ← more accessLv
  expect (word "\x7d")
  return .access (accessLevel :: accessLevels)

def endpointCmd : Parser EndpointCmdDoc := epEid <|> epDatatype <|> epAccess

def endpoint : Parser EndpointDoc := do
  word "endpoint"
  let lineno ← linePos
  let name ← expect identifier
  expect (word "\x7b")
  let cmds ← star endpointCmd
  expect (word "\x7d")
  return ⟨lineno, name, cmds, []⟩

def eidList : Parser (List UInt32) := do
  let eid ← uint
  let eids ← more uint
  return eid :: eids

def aliasIp : Parser AliasCmdDoc := do
  word "ip"
  let ipv6Address ← expect ipv6Address
  expect (word ";")
  return .ip ipv6Address

def aliasEids : Parser AliasCmdDoc := do
  word "eids"
  expect (word "\x7b")
  let eids ← opt eidList
  expect (word "\x7d")
  return .eids (eids.getD [])

def aliasCmd : Parser AliasCmdDoc := aliasIp <|> aliasEids

def aliasRule : Parser AliasDoc := do
  word "device"
  let lineno ← linePos
  let deviceName ← expect identifier
  expect (word "\x7b")
  let cmds ← star aliasCmd
  expect (word "\x7d")
  return ⟨lineno, deviceName, cmds, []⟩

/-! ## State machines -/

def compOp : Parser CompOperator :=
  (do word "=="; return .eq)
  <|> (do word "<="; return .leq)
  <|> (do word ">="; return .geq)
  <|> (do word "<"; return .lt)
  <|> (do word ">"; return .gt)
  <|> (do word "!="; return .neq)

def boolOp : Parser BoolOperator :=
  (do word "||"; return .or)
  <|> (do word "&&"; return .and)

def timeF : Parser TimeFields :=
  (do word "hour"; return .hour)
  <|> (do word "minute"; return .minute)
  <|> (do word "second"; return .second)
  <|> (do word "day"; return .day)
  <|> (do word "month"; return .month)
  <|> (do word "year"; return .year)
  <|> (do word "weekday"; return .weekday)

def timeCompOp : Parser TimeOperator :=
  (do word ">"; return .gt)
  <|> (do word "<"; return .lt)

def stateset : Parser (List Identifier) := do
  word "states"
  let _ ← linePos
  expect (word "\x7b")
  let state ← expect identifier
  let states ← more identifier
  expect (word "\x7d")
  return state :: states

def gotoCommand : Parser GotoCommandDoc := do
  word "goto"
  let lineno ← linePos
  let targetState ← expect identifier
  return ⟨lineno, targetState⟩

def tautology : Parser ConditionDoc := do
  word "true"
  return .tautology 1

section
variable (floatValue : Text → UInt32)

def atomicCondition : Parser ConditionDoc := do
  word "ep"
  let geid ← expect globalEndpointId
  let compOp ← expect compOp
  let constant ← expect (constant floatValue)
  return .atomic geid compOp constant

def timeoutCondition : Parser ConditionDoc := do
  word "timeout"
  let seconds ← expect (constant floatValue)
  return .timeout seconds

def timerCondition : Parser ConditionDoc := do
  word "time"
  let fields ← expect timeF
  let op ← expect timeCompOp
  let value ← expect (constant floatValue)
  return .timer fields op value

/-- `compound_condition`, over the conditions in it. -/
def compoundCondition (condition : Parser ConditionDoc) : Parser ConditionDoc := do
  word "("
  let conditionA ← expect condition
  expect (word ")")
  let boolOp ← expect boolOp
  expect (word "(")
  let conditionB ← expect condition
  expect (word ")")
  return .compound conditionA boolOp conditionB

/-- `condition`, with as many conditions in one another as there is text for. -/
def conditionFrom : Nat → Parser ConditionDoc
  | 0 => fun _ => .fail
  | n + 1 => tautology <|> atomicCondition floatValue <|> timeoutCondition floatValue
      <|> timerCondition floatValue <|> compoundCondition (conditionFrom n)

def condition : Parser ConditionDoc := fun s => conditionFrom floatValue (s.rest.length + 1) s

def writeCommand : Parser CommandDoc := do
  word "write"
  let lineno ← linePos
  let geid ← expect globalEndpointId
  expect (word ":=")
  let constant ← expect (constant floatValue)
  return ⟨lineno, geid, constant⟩

def command : Parser CommandDoc := do
  let command ← writeCommand floatValue
  expect (word ";")
  return command

def commandBlock : Parser CommandBlockDoc := do
  let commands ← star (command floatValue)
  let goto ← expect gotoCommand
  expect (word ";")
  return ⟨commands, goto⟩

def guardedCommandBlock : Parser GuardedCommandBlockDoc := do
  word "("
  let condition ← expect (condition floatValue)
  expect (word ")")
  expect (word "\x7b")
  let commandBlock ← expect (commandBlock floatValue)
  expect (word "\x7d")
  return ⟨condition, commandBlock⟩

/-- `always_clause`, with `always_command_block`. -/
def alwaysClause : Parser IfClauseDoc := do
  let _ ← linePos
  word "always"
  expect (word "\x7b")
  let commandBlock ← expect (commandBlock floatValue)
  expect (word "\x7d")
  return ⟨⟨.tautology 1, commandBlock⟩, []⟩

def elseIfBlock : Parser GuardedCommandBlockDoc := do
  word "else"
  expect (word "if")
  expect (guardedCommandBlock floatValue)

def ifClause : Parser IfClauseDoc := do
  word "if"
  let _ ← linePos
  let ifBlock ← expect (guardedCommandBlock floatValue)
  let elseIfBlocks ← star (elseIfBlock floatValue)
  return ⟨ifBlock, elseIfBlocks⟩

def inClause : Parser InClauseDoc := do
  word "in"
  let lineno ← linePos
  expect (word "(")
  let name ← expect identifier
  expect (word ")")
  expect (word "\x7b")
  let ifClauses ← (do let clause ← alwaysClause floatValue; return [clause])
    <|> star (ifClause floatValue)
  expect (word "\x7d")
  return ⟨lineno, name, ifClauses⟩

def statemachine : Parser StatemachineDoc := do
  word "machine"
  let lineno ← linePos
  let name ← expect identifier
  expect (word "\x7b")
  let stateset ← expect stateset
  let inClauses ← star (inClause floatValue)
  expect (word "\x7d")
  return { lineno, name := name.val, stateset, inClauses, readFromFile := [] }

/-! ## Modules -/

def placeholderList : Parser (List Text) := do
  let name ← placeholder
  let names ← more placeholder
  return name :: names

def moduleRule : Parser ModuleDoc := do
  word "module"
  let lineno ← linePos
  let name ← expect identifier
  expect (word "(")
  let placeholders ← opt placeholderList
  expect (word ")")
  expect (word "\x7b")
  let stateset ← expect stateset
  let inClauses ← star (inClause floatValue)
  expect (word "\x7d")
  return { lineno, name, placeholderlist := placeholders.getD [], stateset, inClauses,
           readFromFile := [] }

def instParameter : Parser InstParameterDoc :=
  (do let value ← constant floatValue; return .constant value)
  <|> (do let name ← identifier; return .identifier name)

/-- What stands between the brackets of an instance. -/
def instParameters : Parser (List InstParameterDoc) := do
  let parameter ← instParameter floatValue
  let parameters ← more (instParameter floatValue)
  return parameter :: parameters

def instantiation : Parser InstantiationDoc := do
  word "instance"
  let lineno ← linePos
  let name ← expect identifier
  expect (word ":")
  let moduleclass ← expect identifier
  expect (word "(")
  let parameters ← opt (instParameters floatValue)
  expect (word ")")
  expect (word ";")
  return { lineno, name, moduleclass, parameters := parameters.getD [], readFromFile := [] }

/-! ## Programs -/

def block : Parser ParsedBlock :=
  (do let doc ← includeRule; return .includeDoc doc)
  <|> (do let doc ← endpoint; return .endpointDoc doc)
  <|> (do let doc ← aliasRule; return .aliasDoc doc)
  <|> (do let doc ← statemachine floatValue; return .statemachineDoc doc)
  <|> (do let doc ← moduleRule floatValue; return .moduleDoc doc)
  <|> (do let doc ← instantiation floatValue; return .instantiationDoc doc)

/-- `start`. -/
def start : Parser (List ParsedBlock) := do
  let blocks ← star (block floatValue)
  expect eoi
  return blocks

/-- `phrase_parse`: the blocks of a file that is accepted. -/
def parse (text : Text) : Option (List ParsedBlock) :=
  match start floatValue ⟨1, text⟩ with
  | .ok blocks _ => some blocks
  | _ => none

end

end Grammar

end Hexabus.Hbc
