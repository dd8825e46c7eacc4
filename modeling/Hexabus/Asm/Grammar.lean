import Hexabus.Hbc.Grammar
import Hexabus.Hbc.Written
import Hexabus.Lib.Texts

/-!
# The grammar of the assembler

`hbasm_grammar.hpp`, rule by rule, with `skipper.hpp`. The rules skip in front of every
character, so that blanks may stand within a name, too. Numbers are read as by the grammar of the
compiler. The lines that no later pass looks at are left out.
-/

namespace Hexabus.Asm

open Lib.Expectation
open Hbc (Text identifierStart identifierRest)

/-- `char_("0-9a-fA-F")`. -/
def isHex (c : Char) : Bool :=
  c.isDigit || ('a' ≤ c && c ≤ 'f') || ('A' ≤ c && c ≤ 'F')

/-- What a digit stands for. -/
def hexValue (c : Char) : HexDigit :=
  if c.isDigit then Fin.ofNat 16 (c.toNat - 48)
  else if 'a' ≤ c then Fin.ofNat 16 (c.toNat - 87)
  else Fin.ofNat 16 (c.toNat - 55)

/-- `ipv6_address_block`. -/
structure Ipv6AddressBlock where
  a : HexDigit
  b : HexDigit
  c : HexDigit
  d : HexDigit

def Ipv6AddressBlock.digits (block : Ipv6AddressBlock) : List HexDigit :=
  [block.a, block.b, block.c, block.d]

/-- The blocks of an address, without the colons. -/
def Ipv6Address.ofBlocks (a b c d e f g h : Ipv6AddressBlock) : Ipv6Address :=
  ⟨a.digits ++ (b.digits ++ (c.digits ++ (d.digits ++ (e.digits ++ (f.digits ++
    (g.digits ++ h.digits)))))), rfl⟩

namespace Grammar

open Parser
open Hbc.Grammar (word uint bareFloat)

/-! ## Tokens -/

def hexDigit : Parser HexDigit := do
  let c ← token isHex
  return hexValue c

/-- `identifier`; nothing else may stand in its place. -/
def identifier : Parser String := do
  let c ← expect (token identifierStart)
  let cs ← star (token identifierRest)
  return String.ofList (c :: cs)

def ipv6AddressBlock : Parser Ipv6AddressBlock := do
  let a ← hexDigit
  let b ← expect hexDigit
  let c ← expect hexDigit
  let d ← expect hexDigit
  return ⟨a, b, c, d⟩

/-- A block behind the first one. -/
def nextBlock : Parser Ipv6AddressBlock := do
  expect (word ":")
  expect ipv6AddressBlock

def ipv6Address : Parser Ipv6Address := do
  let a ← ipv6AddressBlock
  let b ← nextBlock
  let c ← nextBlock
  let d ← nextBlock
  let e ← nextBlock
  let f ← nextBlock
  let g ← nextBlock
  let h ← nextBlock
  return .ofBlocks a b c d e f g h

/-- `is`. -/
def is : Parser Unit := expect (word ":=")

/-- `STM_EQ` and the others. -/
def operator : Parser UInt8 :=
  (do word "=="; return 0)
  <|> (do word "<="; return 1)
  <|> (do word ">="; return 2)
  <|> (do word "<"; return 3)
  <|> (do word ">"; return 4)
  <|> (do word "!="; return 5)

/-- `HXB_SM_HOUR` and the others. -/
def field : Parser UInt8 :=
  (do word "hour"; return 0x01)
  <|> (do word "minute"; return 0x02)
  <|> (do word "second"; return 0x04)
  <|> (do word "day"; return 0x08)
  <|> (do word "month"; return 0x10)
  <|> (do word "year"; return 0x20)
  <|> (do word "weekday"; return 0x40)

/-- `before` and `after`. -/
def direction : Parser UInt8 :=
  (do word "before"; return 0)
  <|> (do word "after"; return 0x80)

section
variable (floatValue : Text → UInt32)

/-- `float_`. -/
def float : Parser UInt32 := do
  skipped
  let w ← bareFloat
  return floatValue w

/-! ## Conditions -/

def condEidvalue : Parser HbaCond := do
  word "ip"
  is
  let ipv6Address ← expect ipv6Address
  expect (word ";")
  expect (word "eid")
  is
  let eid ← expect uint
  expect (word ";")
  expect (word "value")
  let op ← expect operator
  let value ← expect (float floatValue)
  expect (word ";")
  return .eidvalue ipv6Address eid op value

def condTimeout : Parser HbaCond := do
  word "timeout"
  is
  let value ← expect uint
  expect (word ";")
  return .timeout value

def condDatetime : Parser HbaCond := do
  let field ← field
  let op ← expect direction
  let value ← expect uint
  expect (word ";")
  return .datetime field op value

def condition : Parser ConditionDoc := do
  word "condition"
  let lineno ← linePos
  let name ← identifier
  expect (word "\x7b")
  let cond ← expect (condEidvalue floatValue <|> condTimeout <|> condDatetime)
  expect (word "\x7d")
  return ⟨lineno, name, cond, 0⟩

/-! ## States -/

def ifClause : Parser IfClauseDoc := do
  word "if"
  let lineno ← linePos
  let name ← identifier
  expect (word "\x7b")
  expect (word "set")
  let eid ← expect uint
  is
  let value ← expect (float floatValue)
  expect (word ";")
  expect (word "goodstate")
  let goodstate ← identifier
  expect (word ";")
  expect (word "badstate")
  let badstate ← identifier
  expect (word ";")
  expect (word "\x7d")
  return ⟨lineno, name, eid, value, goodstate, badstate⟩

def state : Parser StateDoc := do
  word "state"
  let lineno ← linePos
  let name ← identifier
  expect (word "\x7b")
  let ifClauses ← star (ifClause floatValue)
  expect (word "\x7d")
  return ⟨lineno, name, ifClauses, 0⟩

/-! ## Programs -/

def targetIp : Parser Ipv6Address := do
  word "target"
  let ipv6Address ← ipv6Address
  expect (word ";")
  return ipv6Address

/-- The bytes of a name. -/
def nameBytes (name : String) : List UInt8 := name.toList.map fun c => UInt8.ofNat c.toNat

/-- `device_name`; a `0` stands for no name. -/
def deviceName : Parser (List UInt8) := do
  word "device_name"
  let name ← (do word "0"; return []) <|> (do let name ← identifier; return nameBytes name)
  expect (word ";")
  return name

def machineId : Parser (List HexDigit) := do
  word "machine"
  let digits ← star hexDigit
  expect (word ";")
  return digits

def startstate : Parser String := do
  word "startstate"
  let name ← identifier
  expect (word ";")
  return name

def block : Parser HbaDocBlock :=
  (do let doc ← state floatValue; return .state doc)
  <|> (do let doc ← condition floatValue; return .condition doc)

/-- `start`. -/
def start : Parser HbaDoc := do
  let targetIp ← targetIp
  let deviceName ← deviceName
  let machineId ← machineId
  let startState ← opt startstate
  let blocks ← star (block floatValue)
  expect eoi
  return ⟨targetIp, deviceName, machineId, startState.getD "", blocks⟩

/-- `phrase_parse`: the program of a file that is accepted. -/
def parse (text : Text) : Option HbaDoc :=
  match start floatValue ⟨1, text⟩ with
  | .ok doc _ => some doc
  | _ => none

end

end Grammar

end Hexabus.Asm

/-!
## Assembler programs as they are written

The language that the grammar of the assembler describes. Between two characters of a name or of
an address anything that is skipped may stand.
-/

namespace Hexabus.Asm

open Lib.Expectation
open Hbc (Text Identifier identifierStart identifierRest)

namespace Written

open Hbc.Written (word uint)

/-! ## Tokens -/

def hexDigit : Language Identifier HexDigit := do
  let c ← Language.token isHex
  return hexValue c

/-- A name right behind a line position. -/
def bareIdentifier : Language Identifier String := do
  let c ← Language.oneOf identifierStart
  let cs ← Language.Star (Language.token identifierRest)
  return String.ofList (c :: cs)

def identifier : Language Identifier String := do
  Language.gap
  bareIdentifier

def ipv6AddressBlock : Language Identifier Ipv6AddressBlock := do
  let a ← hexDigit
  let b ← hexDigit
  let c ← hexDigit
  let d ← hexDigit
  return ⟨a, b, c, d⟩

def nextBlock : Language Identifier Ipv6AddressBlock := do
  word ":"
  ipv6AddressBlock

def ipv6Address : Language Identifier Ipv6Address := do
  let a ← ipv6AddressBlock
  let b ← nextBlock
  let c ← nextBlock
  let d ← nextBlock
  let e ← nextBlock
  let f ← nextBlock
  let g ← nextBlock
  let h ← nextBlock
  return .ofBlocks a b c d e f g h

def operator : Language Identifier UInt8 :=
  .or (do word "=="; return 0) <|
  .or (do word "<="; return 1) <|
  .or (do word ">="; return 2) <|
  .or (do word "<"; return 3) <|
  .or (do word ">"; return 4)
  (do word "!="; return 5)

def field : Language Identifier UInt8 :=
  .or (do word "hour"; return 0x01) <|
  .or (do word "minute"; return 0x02) <|
  .or (do word "second"; return 0x04) <|
  .or (do word "day"; return 0x08) <|
  .or (do word "month"; return 0x10) <|
  .or (do word "year"; return 0x20)
  (do word "weekday"; return 0x40)

def direction : Language Identifier UInt8 :=
  .or (do word "before"; return 0)
  (do word "after"; return 0x80)

section
variable (floatValue : Text → UInt32)

/-! ## Conditions -/

def condEidvalue : Language Identifier HbaCond := do
  word "ip"
  word ":="
  let ipv6Address ← ipv6Address
  word ";"
  word "eid"
  word ":="
  let eid ← uint
  word ";"
  word "value"
  let op ← operator
  let value ← Hbc.Written.float floatValue
  word ";"
  return .eidvalue ipv6Address eid op value

def condTimeout : Language Identifier HbaCond := do
  word "timeout"
  word ":="
  let value ← uint
  word ";"
  return .timeout value

def condDatetime : Language Identifier HbaCond := do
  let field ← field
  let op ← direction
  let value ← uint
  word ";"
  return .datetime field op value

def condition : Language Identifier ConditionDoc := do
  word "condition"
  let lineno ← Language.linePos
  let name ← bareIdentifier
  word "\x7b"
  let cond ← (condEidvalue floatValue).or (condTimeout.or condDatetime)
  word "\x7d"
  return ⟨lineno, name, cond, 0⟩

/-! ## States -/

def ifClause : Language Identifier IfClauseDoc := do
  word "if"
  let lineno ← Language.linePos
  let name ← bareIdentifier
  word "\x7b"
  word "set"
  let eid ← uint
  word ":="
  let value ← Hbc.Written.float floatValue
  word ";"
  word "goodstate"
  let goodstate ← identifier
  word ";"
  word "badstate"
  let badstate ← identifier
  word ";"
  word "\x7d"
  return ⟨lineno, name, eid, value, goodstate, badstate⟩

def state : Language Identifier StateDoc := do
  word "state"
  let lineno ← Language.linePos
  let name ← bareIdentifier
  word "\x7b"
  let ifClauses ← Language.Star (ifClause floatValue)
  word "\x7d"
  return ⟨lineno, name, ifClauses, 0⟩

/-! ## Programs -/

def targetIp : Language Identifier Ipv6Address := do
  word "target"
  let ipv6Address ← ipv6Address
  word ";"
  return ipv6Address

def deviceName : Language Identifier (List UInt8) := do
  word "device_name"
  let name ← .or (do word "0"; return [])
    (do let name ← identifier; return Grammar.nameBytes name)
  word ";"
  return name

def machineId : Language Identifier (List HexDigit) := do
  word "machine"
  let digits ← Language.Star hexDigit
  word ";"
  return digits

def startstate : Language Identifier String := do
  word "startstate"
  let name ← identifier
  word ";"
  return name

def block : Language Identifier HbaDocBlock :=
  .or (do let doc ← state floatValue; return .state doc)
    (do let doc ← condition floatValue; return .condition doc)

/-- A program, and what is skipped at its end. -/
def program : Language Identifier HbaDoc := do
  let targetIp ← targetIp
  let deviceName ← deviceName
  let machineId ← machineId
  let startState ← Language.opt startstate
  let blocks ← Language.Star (block floatValue)
  Language.gap
  return ⟨targetIp, deviceName, machineId, startState.getD "", blocks⟩

end

end Written

end Hexabus.Asm
