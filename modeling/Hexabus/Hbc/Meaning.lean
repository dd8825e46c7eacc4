import Hexabus.Asm.Meaning
import Hexabus.Hbc.DeviceWrites
import Hexabus.Hbc.ClausePriority

/-!
# What a program means

A machine of a program on one device, in the words of the program. When something happens, the
guarded blocks of the current state are tried, in the order in which the compiler leaves them;
the first one whose condition holds is taken. Of its writes the device makes its own, one at a
time: the first at once, and each of the others when something happens again. Only then is it in
the target of the block. Nothing here knows of graphs, assembler files or tables of transitions.
-/

namespace Hexabus.Hbc

open Lib.Bytes Firmware

/-- A device that has a machine of a program. -/
structure Controller (δ : Type) where
  dev : δ
  eeprom : Mem
  timestamp : UInt32
  currentDt : HxbDatetime
  timeValid : Bool
  running : Bool
  /-- The number of the state; the machine is in it when nothing is left to write. -/
  state : Nat
  /-- What is left to write. -/
  left : List CommandDoc
  /-- When the last block was taken, or the last write made. -/
  since : UInt32

/-! ## Conditions -/

/-- A comparison, from how its two sides stand to each other. -/
def CompOperator.decides (eq lt gt : Bool) : CompOperator → Bool
  | .eq => eq
  | .leq => lt || eq
  | .geq => gt || eq
  | .lt => lt
  | .gt => gt
  | .neq => !eq

/-- A value against a constant, as values of the data type. -/
def CompOperator.compares (op : CompOperator) (datatype : DataType) (v : HxbValue)
    (constant : UInt32) : Bool :=
  match datatype with
  | .bool | .uint8 =>
    let c := constant.toUInt8
    op.decides (v.v_u8 == c) (v.v_u8 < c) (c < v.v_u8)
  | .uint32 => op.decides (v.v_u32 == constant) (v.v_u32 < constant) (constant < v.v_u32)
  | .float =>
    let ordered := !floatIsNan v.v_float && !floatIsNan constant
    op.decides (ordered && floatKey v.v_float == floatKey constant)
      (ordered && decide (floatKey v.v_float < floatKey constant))
      (ordered && decide (floatKey constant < floatKey v.v_float))
  | _ => false

/-- A field of a date and time. -/
def TimeFields.read (dt : HxbDatetime) : TimeFields → Nat
  | .hour => dt.hour.toNat
  | .minute => dt.minute.toNat
  | .second => dt.second.toNat
  | .day => dt.day.toNat
  | .month => dt.month.toNat
  | .year => dt.year.toNat
  | .weekday => dt.weekday.toNat

/-- `before` and `after`, which includes the moment itself. -/
def TimeOperator.compares (n value : Nat) : TimeOperator → Bool
  | .lt => n < value
  | .gt => value ≤ n

section

variable {δ : Type} (env : Asm.Environment) (tables : Tables) (device : Identifier)

/-- The address of a device by its name. The device itself is `::1`. -/
def Tables.addressOf (name : Identifier) : Option (Block 16) :=
  if device = name then some localhost else tables.findDevice name

/-- The id of an endpoint by its name, with its data type. -/
def Tables.typedEndpoint (name : Identifier) : Option (UInt32 × DataType) := do
  let endpoint ← tables.endpoints name.val
  let datatype ← env.datatypes endpoint.eid
  return (endpoint.eid, datatype)

/-- A value that has come in, against an endpoint of a device. The address of zeros is that of
every device. -/
def GlobalEndpointIdDoc.receives (geid : GlobalEndpointIdDoc) (op : CompOperator) (bits : UInt32)
    (envelope : HxbEnvelope) : Bool :=
  match geid.deviceAlias, geid.endpointName with
  | .literal name, .literal endpoint =>
    match tables.addressOf device name, tables.typedEndpoint env endpoint with
    | some address, some (eid, datatype) =>
      (address = Block.zero 16 || address = envelope.src_ip) &&
        eid = envelope.eid && envelope.value.datatype = datatype.code &&
        op.compares datatype envelope.value (env.readValue datatype (tables.rereadFloat bits))
    | _, _ => false
  | _, _ => false

/-- A condition that is not compound. Values are compared when they come in, and so is the time
that has passed; dates and times of day are compared when the clock goes on, and then nothing
else is, not even `true`. -/
def Controller.holds (c : Controller δ) : Asm.Occasion → ConditionDoc → Bool
  | .input envelope, .atomic geid op (.float bits) =>
    geid.receives env tables device op bits envelope
  | .input _, .timeout (.uint seconds) => seconds ≤ c.timestamp - c.since
  | .tick, .timer field op (.uint value) =>
    c.timeValid && op.compares (field.read c.currentDt) value.toNat
  | .input _, .tautology _ => true
  | .up, .tautology _ => true
  | _, _ => false

/-! ## Blocks -/

/-- The endpoint of a write, and its value. A block without a write of the device writes zero to
endpoint zero. -/
def Tables.written : List CommandDoc → UInt32 × UInt32
  | [] => (0, 0)
  | command :: _ =>
    match command.geid.endpointName, command.constant with
    | .literal name, .float bits =>
      (((tables.endpoints name.val).map Endpoint.eid).getD 0, tables.rereadFloat bits)
    | _, _ => (0, 0)

variable (chain : EndpointChain (Dev δ)) (loc : Locals)

/-- A sender of which the first four bytes are set. -/
def firstBytesSet (address : Block 16) : Block 16 :=
  ⟨[0, 0, 0, 1] ++ address.val.drop 4, by
    rw [List.length_append, List.length_drop, address.property]
    rfl⟩

/-- The value as it is handed to an endpoint. -/
def writeEnvelope (eid value : UInt32) : HxbEnvelope :=
  let datatype := (env.datatypes eid).getD .undefined
  { src_ip := firstBytesSet loc.eidEnv.src_ip
    src_port := 0
    eid := eid
    value := ⟨datatype.code, Asm.unionOf (env.readValue datatype value) (Block.zero 4), []⟩ }

/-- The first of the writes is made, whether the endpoint takes it or not. -/
def Controller.write (commands : List CommandDoc) (target : Nat) (c : Controller δ) : Controller δ :=
  let (eid, value) := tables.written commands
  let (_, d) := chain.endpointWrite eid (writeEnvelope env loc eid value) ⟨c.dev, c.eeprom, []⟩
  { c with dev := d.dev, eeprom := d.eeprom, state := target, left := commands.tail,
           since := c.timestamp }

variable (sm : StatemachineDoc)

/-- The guarded blocks of a state, in the order in which they are tried. -/
def StatemachineDoc.tried (k : Nat) : List NumberedClause :=
  secondPartsLast (sourceClauses sm.resolved k)

/-- The commands of a block that write the device. -/
def ResolvedBlock.commandsFor (b : ResolvedBlock) : List CommandDoc :=
  b.block.commandBlock.commands.filter fun command => command.device? = some device

/-- The machine sets the endpoint on the device. -/
def StatemachineDoc.Sets (eid : UInt32) : Prop :=
  ∃ b ∈ sm.resolved, (b.commandsFor device = [] ∧ eid = 0) ∨
    ∃ command ∈ b.commandsFor device, eid = (tables.written [command]).1

/-- Something happens: a block is taken, or the next write of one is made. -/
def Controller.react (occasion : Asm.Occasion) (c : Controller δ) : Controller δ :=
  match c.left with
  | [] =>
    match firstClause (c.holds env tables device) occasion (sm.tried c.state) with
    | some j =>
      match sm.resolved[j]? with
      | some b => c.write env tables chain loc (b.commandsFor device) b.target
      | none => c
    | none => c
  | command :: rest =>
    match occasion with
    | .tick => c
    | _ => c.write env tables chain loc (command :: rest) c.state

def Controller.on (occasion : Asm.Occasion) (c : Controller δ) : Controller δ :=
  if c.running then c.react env tables device chain loc sm occasion else c

/-! ## Steps -/

def Controller.stop (c : Controller δ) : Controller δ := { c with running := false }

/-- The machine begins in the state that its list of states begins with. -/
def Controller.start (c : Controller δ) : Controller δ :=
  if c.running then c else { c with running := true, state := 0, left := [] }

/-- One step of the firmware, as the program sees it. -/
def Controller.step : Step δ → Controller δ → Controller δ
  | .info envelope, c => c.on env tables device chain loc sm (.input envelope)
  | .broadcast eid, c =>
    let (err, value) := chain.endpointRead eid { loc.value with blob := [] } ⟨c.dev, c.eeprom, []⟩
    if err ≠ .success then c
    else c.on env tables device chain loc sm (.input ⟨localhost, 0, eid, value⟩)
  | .smStop, c => c.stop
  | .smStart, c => c.start
  | .smRestart, c => c.stop.start
  | .device dev eeprom, c => { c with dev := dev, eeprom := eeprom }
  | .clock timestamp currentDt timeValid, c =>
    { c with timestamp := timestamp, currentDt := currentDt, timeValid := timeValid }
  | .tick, c => c.on env tables device chain loc sm .tick
  | .udp up, c =>
    if c.running && up && Asm.machineIdBytes (tables.machineId sm.name) ≠ Block.zero 16 then
      { c with state := 0, left := [] }.on env tables device chain loc sm .up
    else c

end

end Hexabus.Hbc
