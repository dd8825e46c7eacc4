import Mathlib.Tactic

/-!
# Parsed compiler programs

`ast_datatypes.hpp` of the compiler: the state machines of a program as the module
instantiation leaves them. Texts are lists of characters, and a number of type
`float` is its bit pattern.
-/

namespace Hexabus.Hbc

abbrev Text := List Char

/-- `char_("a-zA-Z_")`. -/
def identifierStart (c : Char) : Bool := c.isAlpha || c = '_'

/-- `char_("a-zA-Z0-9_")`. -/
def identifierRest (c : Char) : Bool := c.isAlphanum || c = '_'

/-- The grammar's rule `identifier`. -/
def isIdentifier : Text → Bool
  | [] => false
  | c :: cs => identifierStart c && cs.all identifierRest

/-- The names of states, devices and endpoints. -/
abbrev Identifier := { s : Text // isIdentifier s = true }

theorem identifierRest_of_start {c : Char} (h : identifierStart c = true) :
    identifierRest c = true := by
  unfold identifierStart at h
  unfold identifierRest Char.isAlphanum
  rcases Bool.or_eq_true _ _ ▸ h with h | h
  · rw [h]
    rfl
  · rw [h, Bool.or_true]

/-- An identifier has no other characters. -/
theorem Identifier.mem {s : Identifier} {c : Char} (h : c ∈ s.val) : identifierRest c = true := by
  obtain ⟨s, hs⟩ := s
  cases s with
  | nil => exact absurd h List.not_mem_nil
  | cons d ds =>
    obtain ⟨hd, hds⟩ := (Bool.and_eq_true _ _).mp hs
    rcases List.mem_cons.mp h with rfl | h
    · exact identifierRest_of_start hd
    · exact List.all_eq_true.mp hds c h

/-- `constant_doc`. -/
inductive ConstantDoc
  | placeholder (name : Text)
  | uint (value : UInt32)
  | float (bits : UInt32)
  deriving DecidableEq

/-- `global_endpoint_id_element`. -/
inductive GeidElement
  | literal (name : Identifier)
  | placeholder (name : Text)
  deriving DecidableEq

/-- `global_endpoint_id_doc`. -/
structure GlobalEndpointIdDoc where
  deviceAlias : GeidElement
  lineno : Nat
  endpointName : GeidElement
  deriving DecidableEq

/-- `comp_operator`. -/
inductive CompOperator
  | eq | leq | geq | lt | gt | neq
  deriving DecidableEq

/-- The operators of a timer condition. -/
inductive TimeOperator
  | lt | gt
  deriving DecidableEq

/-- `bool_operator`. -/
inductive BoolOperator
  | and | or
  deriving DecidableEq

/-- `time_fields`. -/
inductive TimeFields
  | hour | minute | second | day | month | year | weekday
  deriving DecidableEq

/-- `condition_doc`, with its alternatives `unsigned int`, `atomic_condition_doc`,
`timeout_condition_doc`, `timer_condition_doc` and `compound_condition_doc`. -/
inductive ConditionDoc
  | tautology (value : UInt32)
  | atomic (geid : GlobalEndpointIdDoc) (compOp : CompOperator) (constant : ConstantDoc)
  | timeout (seconds : ConstantDoc)
  | timer (fields : TimeFields) (op : TimeOperator) (value : ConstantDoc)
  | compound (conditionA : ConditionDoc) (boolOp : BoolOperator) (conditionB : ConditionDoc)
  deriving DecidableEq

/-- `write_command_doc`, which is all a `command_doc` holds. -/
structure CommandDoc where
  lineno : Nat
  geid : GlobalEndpointIdDoc
  constant : ConstantDoc
  deriving DecidableEq

/-- `goto_command_doc`. -/
structure GotoCommandDoc where
  lineno : Nat
  targetState : Identifier
  deriving DecidableEq

/-- `command_block_doc`. -/
structure CommandBlockDoc where
  commands : List CommandDoc
  gotoCommand : GotoCommandDoc
  deriving DecidableEq

/-- `guarded_command_block_doc`. -/
structure GuardedCommandBlockDoc where
  condition : ConditionDoc
  commandBlock : CommandBlockDoc

/-- `if_clause_doc`. -/
structure IfClauseDoc where
  ifBlock : GuardedCommandBlockDoc
  elseIfBlocks : List GuardedCommandBlockDoc

/-- `in_clause_doc`. -/
structure InClauseDoc where
  lineno : Nat
  name : Identifier
  ifClauses : List IfClauseDoc

/-- `statemachine_doc`; `stateset` is the list in its `stateset_doc`. The name of a
module instance is not an identifier. -/
structure StatemachineDoc where
  lineno : Nat
  name : Text
  stateset : List Identifier
  inClauses : List InClauseDoc
  readFromFile : Text

/-- A program: its state machines, in the order of the files. -/
abbrev HbcDoc := List StatemachineDoc

/-- Why the compiler stops. A position is a file and a line. -/
inductive HbcError
  | duplicateEntry (machine : Text)
  | missingInit (file : Text) (lineno : Nat)
  | nonexistentOrigin (file : Text) (lineno : Nat) (machine state : Text)
  | nonexistentTarget (file : Text) (lineno : Nat) (machine state : Text)
  | vertexNotFound (machineId vertexId : Nat)
  | placeholderInMachine (position : Option (Text × Nat))
  | multipleStateMachines (device : Text)
  | invalidPlaceholder
  | emptyCommandBlockHead
  | emptyCommandBlockTail
  | multipleOutgoingEdges
  | danglingEdge
  | deviceNotInTable (device : Text)
  | deviceNameNotFound (position : Option (Text × Nat)) (device : Text)
  | placeholderForDevice
  | endpointNameNotFound (position : Option (Text × Nat)) (endpoint : Text)
  | endpointNotWriteable (position : Option (Text × Nat)) (endpoint : Text)
  | endpointNotBroadcast (position : Option (Text × Nat)) (endpoint : Text)
  | placeholderForEndpoint (position : Option (Text × Nat))
  | constantNotFloat (position : Option (Text × Nat))
  | constantNotUint
  | otherVertexExpected
  deriving DecidableEq

end Hexabus.Hbc
