import Hexabus.Shared.Tables

/-!
# Parsed assembler programs

`ast_datatypes.hpp`: what the grammar of the assembler hands on. A string of
hexadecimal digits is the list of the digits' values, and a number of type `float`
is its bit pattern.
-/

namespace Hexabus.Asm

open Lib.Bytes

/-- A hexadecimal digit, by its value. -/
abbrev HexDigit := Fin 16

instance hexDigit_neZero : NeZero 16 := ⟨by decide⟩

/-- `if_clause_doc`. -/
structure IfClauseDoc where
  lineno : Nat
  name : String
  eid : UInt32
  value : UInt32
  goodstate : String
  badstate : String

/-- `state_doc`; `id` is set by the first pass. -/
structure StateDoc where
  lineno : Nat
  name : String
  ifClauses : List IfClauseDoc
  id : Nat

/-- `ipv6_address`: eight blocks of four digits, without the colons. -/
abbrev Ipv6Address := { digits : List HexDigit // digits.length = 32 }

theorem length_zeroDigits : (List.replicate 32 0 : List HexDigit).length = 32 := rfl

/-- `hba_cond`: `cond_eidvalue_doc`, `cond_timeout_doc` and `cond_datetime_doc`. -/
inductive HbaCond
  | eidvalue (ipv6Address : Ipv6Address) (eid : UInt32) (op : UInt8) (value : UInt32)
  | timeout (value : UInt32)
  | datetime (field op : UInt8) (value : UInt32)

/-- `condition_doc`; `id` is set by the first pass. -/
structure ConditionDoc where
  lineno : Nat
  name : String
  cond : HbaCond
  id : Nat

/-- `hba_doc_block`. -/
inductive HbaDocBlock
  | state (doc : StateDoc)
  | condition (doc : ConditionDoc)

/-- `hba_doc`. A program without a start state has the empty name there. -/
structure HbaDoc where
  targetIp : Ipv6Address
  deviceName : List UInt8
  machineId : List HexDigit
  startState : String
  blocks : List HbaDocBlock

/-- The state blocks of a program, in the order of the file. -/
def stateDocs (blocks : List HbaDocBlock) : List StateDoc :=
  blocks.filterMap fun
    | .state doc => some doc
    | .condition _ => none

/-- The condition blocks of a program, in the order of the file. -/
def conditionDocs (blocks : List HbaDocBlock) : List ConditionDoc :=
  blocks.filterMap fun
    | .state _ => none
    | .condition doc => some doc

@[simp] theorem stateDocs_nil : stateDocs [] = [] := rfl

@[simp] theorem stateDocs_state (doc : StateDoc) (blocks : List HbaDocBlock) :
    stateDocs (.state doc :: blocks) = doc :: stateDocs blocks := rfl

@[simp] theorem stateDocs_condition (doc : ConditionDoc) (blocks : List HbaDocBlock) :
    stateDocs (.condition doc :: blocks) = stateDocs blocks := rfl

@[simp] theorem conditionDocs_nil : conditionDocs [] = [] := rfl

@[simp] theorem conditionDocs_state (doc : StateDoc) (blocks : List HbaDocBlock) :
    conditionDocs (.state doc :: blocks) = conditionDocs blocks := rfl

@[simp] theorem conditionDocs_condition (doc : ConditionDoc) (blocks : List HbaDocBlock) :
    conditionDocs (.condition doc :: blocks) = doc :: conditionDocs blocks := rfl

/-- Why the assembler stops: a clause names a block that does not exist, or no data
type is defined for an endpoint. -/
inductive AsmError
  | vertexNotFound (name : String)
  | datatypeNotFound (eid : UInt32)

end Hexabus.Asm
