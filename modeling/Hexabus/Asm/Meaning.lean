import Hexabus.Asm.Completeness
import Hexabus.Firmware.Process

/-!
# What a program means

A program for a device, read by its names. When something happens, the clauses of the file are
tried from top to bottom; the first one of the current state whose condition holds is taken. It
sets an endpoint and leads to its good state or, if that fails, to its bad state. A clause that
sets nothing only leads on, and the clauses behind it are tried in the new state. Nothing here
knows of tables, numbers or the kernel of the firmware.
-/

namespace Hexabus.Asm

open Lib.Bytes Firmware

/-- A device that has a program. -/
structure Machine (δ : Type) where
  dev : δ
  eeprom : Mem
  timestamp : UInt32
  currentDt : HxbDatetime
  timeValid : Bool
  running : Bool
  state : String
  /-- When the last clause was taken. -/
  since : UInt32

/-- Why the clauses are tried: a value has come in, the clock has gone on, or the network has
come up. -/
inductive Occasion
  | input (envelope : HxbEnvelope)
  | tick
  | up

/-! ## Conditions -/

/-- A value against a constant, as values of the data type. -/
def compareValue (datatype : DataType) (op : UInt8) (v : HxbValue) (constant : UInt32) : Bool :=
  match datatype with
  | .bool | .uint8 =>
    let c := constant.toUInt8
    stmOp op (v.v_u8 == c) (v.v_u8 < c) (c < v.v_u8)
  | .uint32 => stmOp op (v.v_u32 == constant) (v.v_u32 < constant) (constant < v.v_u32)
  | .float => stmOpFloat op v.v_float constant
  | _ => false

section

variable {δ : Type} (env : Environment)

/-- A condition. Values are compared when they come in, and so is the time that has passed since
the last clause was taken; dates and times of day are compared when the clock goes on. -/
def HbaCond.holds (m : Machine δ) : Occasion → HbaCond → Bool
  | .input envelope, .eidvalue address eid op value =>
    match env.datatypes eid with
    | some datatype =>
      (ipBytes address = Block.zero 16 || ipBytes address = envelope.src_ip) &&
        eid = envelope.eid && envelope.value.datatype = datatype.code &&
        compareValue datatype op envelope.value (env.readValue datatype value)
    | none => false
  | .input _, .timeout seconds => seconds ≤ m.timestamp - m.since
  | .tick, .datetime field op value =>
    m.timeValid && match datetimeField field m.currentDt with
      | some n => if op = 0x80 then value.toNat ≤ n else n < value.toNat
      | none => false
  | _, _ => false

variable (ast : HbaDoc)

/-- The condition of a clause. Nothing but the clock is looked at when the clock goes on, not
even `true`. -/
def Machine.holds (m : Machine δ) (occasion : Occasion) (clause : IfClauseDoc) : Bool :=
  if clause.name = "true" then
    match occasion with
    | .tick => false
    | _ => true
  else match (conditionDocs ast.blocks).find? fun doc => doc.name = clause.name with
    | some doc => doc.cond.holds env m occasion
    | none => false

/-! ## Clauses -/

/-- The clauses of a program, each with the name of its state. -/
def clausesOf (blocks : List HbaDocBlock) : List (String × IfClauseDoc) :=
  (stateDocs blocks).flatMap fun doc => doc.ifClauses.map fun clause => (doc.name, clause)

/-- The state that comes first in the file. -/
def firstState (blocks : List HbaDocBlock) : String :=
  match stateDocs blocks with
  | doc :: _ => doc.name
  | [] => ""

/-- The data type of the endpoint of a clause. -/
def Environment.setType (clause : IfClauseDoc) : DataType :=
  (env.datatypes clause.eid).getD .undefined

/-- The clause sets nothing: `set 0`, where endpoint 0 has no data type. -/
def Environment.setsNothing (clause : IfClauseDoc) : Bool :=
  clause.eid = 0 && env.setType clause = .undefined

variable (chain : EndpointChain (Dev δ)) (loc : Locals)

/-- The value that a clause sets, with a sender of which the first four bytes are set. -/
def setEnvelope (clause : IfClauseDoc) : HxbEnvelope where
  src_ip := ⟨[0, 0, 0, 1] ++ loc.eidEnv.src_ip.val.drop 4, by
    rw [List.length_append, List.length_drop, loc.eidEnv.src_ip.property]
    rfl⟩
  src_port := 0
  eid := clause.eid
  value := ⟨(env.setType clause).code,
    unionOf (env.readValue (env.setType clause) clause.value) (Block.zero 4), []⟩

/-- A clause is taken that sets an endpoint. -/
def Machine.set (clause : IfClauseDoc) (m : Machine δ) : Machine δ :=
  let (err, d) := chain.endpointWrite clause.eid (setEnvelope env loc clause) ⟨m.dev, m.eeprom, []⟩
  { m with
    dev := d.dev
    eeprom := d.eeprom
    state := if err = .success then clause.goodstate else clause.badstate
    since := m.timestamp }

/-- The clauses are tried. -/
def Machine.tryAll (occasion : Occasion) : List (String × IfClauseDoc) → Machine δ → Machine δ
  | [], m => m
  | (state, clause) :: clauses, m =>
    if state = m.state && m.holds env ast occasion clause then
      if env.setsNothing clause then
        tryAll occasion clauses { m with state := clause.goodstate, since := m.timestamp }
      else m.set env chain loc clause
    else tryAll occasion clauses m

/-- Something happens to the device. -/
def Machine.on (occasion : Occasion) (m : Machine δ) : Machine δ :=
  if m.running then m.tryAll env ast chain loc occasion (clausesOf ast.blocks) else m

/-! ## Steps -/

def Machine.stop (m : Machine δ) : Machine δ := { m with running := false }

/-- The program begins in its first state. -/
def Machine.start (m : Machine δ) : Machine δ :=
  if m.running then m else { m with running := true, state := firstState ast.blocks }

/-- One step of the firmware, as the program sees it. The network that comes up leads back to
the first state, unless the program has no machine id. -/
def Machine.step : Step δ → Machine δ → Machine δ
  | .info envelope, m => m.on env ast chain loc (.input envelope)
  | .broadcast eid, m =>
    let (err, value) := chain.endpointRead eid { loc.value with blob := [] } ⟨m.dev, m.eeprom, []⟩
    if err ≠ .success then m else m.on env ast chain loc (.input ⟨localhost, 0, eid, value⟩)
  | .smStop, m => m.stop
  | .smStart, m => m.start ast
  | .smRestart, m => m.stop.start ast
  | .device dev eeprom, m => { m with dev := dev, eeprom := eeprom }
  | .clock timestamp currentDt timeValid, m =>
    { m with timestamp := timestamp, currentDt := currentDt, timeValid := timeValid }
  | .tick, m => m.on env ast chain loc .tick
  | .udp up, m =>
    if m.running && up && machineIdBytes ast.machineId ≠ Block.zero 16 then
      { m with state := firstState ast.blocks }.on env ast chain loc .up
    else m

end

end Hexabus.Asm
