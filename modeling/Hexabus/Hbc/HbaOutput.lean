import Hexabus.Hbc.GraphBuilder
import Hexabus.Asm.Syntax

/-!
# The assembler program

`hba_output.cpp`, and the grammar of the assembler as far as it reads this output back.
The lines of the output are not numbered here.
-/

namespace Hexabus.Hbc

open Lib.Bytes Asm

/-- `endpoint`. -/
structure Endpoint where
  eid : UInt32
  write : Bool
  broadcast : Bool

/-- What the program does not say: the device and endpoint tables, the digest that
becomes a machine's id, and what a number becomes that is printed and read back as a
`float`. -/
structure Tables where
  devices : List (Identifier × Block 16)
  endpoints : Text → Option Endpoint
  machineId : Text → List HexDigit
  rereadFloat : UInt32 → UInt32

/-- The digits of a byte. -/
def hexDigits (byte : UInt8) : List HexDigit :=
  [⟨byte.toNat / 16, by have := byte.toNat_lt; omega⟩, ⟨byte.toNat % 16, by omega⟩]

/-- `print_ipv6address`. -/
def printIpv6Address (address : Block 16) : Ipv6Address :=
  ⟨address.val.flatMap hexDigits, by
    have hlen : ∀ bytes : List UInt8, (bytes.flatMap hexDigits).length = 2 * bytes.length := by
      intro bytes
      induction bytes with
      | nil => rfl
      | cons b bytes ih =>
        rw [List.flatMap_cons, List.length_append, ih, List.length_cons]
        simp only [hexDigits, List.length_cons, List.length_nil]
        omega
    rw [hlen, address.property]⟩

/-- The text of an assembler file; each start is the machine's id and the start state's
name. -/
structure HbaText where
  target : Ipv6Address
  deviceName : Identifier
  starts : List (List HexDigit × String)
  blocks : List HbaDocBlock

def stateName (machineId vertexId : Nat) : String :=
  String.ofList ("state_".toList ++ printUint machineId ++ '_' :: printUint vertexId)

def condName (machineId vertexId : Nat) : String :=
  String.ofList ("cond_".toList ++ printUint machineId ++ '_' :: printUint vertexId)

/-- Two numbers with a line between them. -/
theorem printUint_pair_inj {m v m' v' : Nat}
    (h : printUint m ++ '_' :: printUint v = printUint m' ++ '_' :: printUint v') :
    m = m' ∧ v = v' := by
  have hdigits : ∀ n c, c ∈ printUint n → c ≠ '_' := by
    rintro n c hc rfl
    exact absurd (isDigit_of_mem_printUint hc) (by decide)
  have htake : ∀ n rest, (printUint n ++ '_' :: rest).takeWhile (fun c => c ≠ '_')
      = printUint n := by
    intro n rest
    rw [List.takeWhile_append_of_pos fun c hc => by simpa using hdigits n c hc,
      List.takeWhile_cons_of_neg (by decide), List.append_nil]
  have hm : printUint m = printUint m' := by
    rw [← htake m (printUint v), h, htake]
  rw [hm] at h
  exact ⟨printUint_injective hm, printUint_injective (List.cons.inj (List.append_cancel_left h)).2⟩

theorem condName_inj {m v m' v' : Nat} (h : condName m v = condName m' v') :
    m = m' ∧ v = v' := by
  have htext := String.ofList_injective h
  simp only [List.append_assoc] at htext
  exact printUint_pair_inj (List.append_cancel_left htext)

theorem stateName_inj {m v m' v' : Nat} (h : stateName m v = stateName m' v') :
    m = m' ∧ v = v' := by
  have htext := String.ofList_injective h
  simp only [List.append_assoc] at htext
  exact printUint_pair_inj (List.append_cancel_left htext)

/-- `STM_EQ` and the others, as the assembler reads the operator back. -/
def CompOperator.code : CompOperator → UInt8
  | .eq => 0
  | .leq => 1
  | .geq => 2
  | .lt => 3
  | .gt => 4
  | .neq => 5

/-- `HXB_SM_HOUR` and the others. -/
def TimeFields.code : TimeFields → UInt8
  | .hour => 0x01
  | .minute => 0x02
  | .second => 0x04
  | .day => 0x08
  | .month => 0x10
  | .year => 0x20
  | .weekday => 0x40

/-- `before` and `after`. -/
def TimeOperator.code : TimeOperator → UInt8
  | .lt => 0
  | .gt => 0x80

variable (tables : Tables) (machines : List MachineDescriptor)

def Tables.findDevice (name : Identifier) : Option (Block 16) :=
  (tables.devices.find? fun entry => entry.1 = name).map Prod.snd

/-- Where an error is reported. -/
def position (machineId lineno : Nat) : Option (Text × Nat) :=
  (machines[machineId]?).map fun m => (m.file, lineno)

/-! ## Conditions -/

/-- `print_condition` for an atomic condition. -/
def printAtomic (device : Identifier) (machineId : Nat) (geid : GlobalEndpointIdDoc)
    (compOp : CompOperator) (constant : ConstantDoc) : Except HbcError HbaCond := do
  let pos := position machines machineId geid.lineno
  let address ← match geid.deviceAlias with
    | .placeholder _ => .error .placeholderForDevice
    | .literal name =>
      if device = name then .ok (printIpv6Address ⟨List.replicate 15 0 ++ [1], length_localhost⟩)
      else match tables.findDevice name with
        | some address => .ok (printIpv6Address address)
        | none => .error (.deviceNameNotFound pos name.val)
  let endpoint ← match geid.endpointName with
    | .placeholder _ => .error (.placeholderForEndpoint pos)
    | .literal name =>
      match tables.endpoints name.val with
      | none => .error (.endpointNameNotFound pos name.val)
      | some endpoint =>
        if endpoint.broadcast then .ok endpoint
        else .error (.endpointNotBroadcast pos name.val)
  match constant with
  | .float bits => .ok (.eidvalue address endpoint.eid compOp.code (tables.rereadFloat bits))
  | _ => .error (.constantNotFloat none)

/-- The block of a condition; `true` has none, and neither has a condition that is
still compound. -/
def printCondition (device : Identifier) (vertex : Vertex) :
    ConditionDoc → Except HbcError (List HbaDocBlock)
  | .tautology _ => .ok []
  | .compound _ _ _ => .ok []
  | .atomic geid compOp constant => do
    let cond ← printAtomic tables machines device vertex.machineId geid compOp constant
    return [.condition ⟨0, condName vertex.machineId vertex.vertexId, cond, 0⟩]
  | .timeout seconds =>
    match seconds with
    | .uint value =>
      .ok [.condition ⟨0, condName vertex.machineId vertex.vertexId, .timeout value, 0⟩]
    | _ => .error .constantNotUint
  | .timer fields op value =>
    match value with
    | .uint value => .ok [.condition ⟨0, condName vertex.machineId vertex.vertexId,
        .datetime fields.code op.code value, 0⟩]
    | _ => .error .constantNotUint

def printConditions (device : Identifier) (vertex : Vertex) :
    Except HbcError (List HbaDocBlock) :=
  match vertex.contents with
  | .cond condition => printCondition tables machines device vertex condition
  | _ => .ok []

/-! ## States -/

/-- The endpoint and the value of a clause's `set` line. -/
def printSet (machineId : Nat) : List CommandDoc → Except HbcError (UInt32 × UInt32)
  | [command] => do
    let pos := position machines machineId command.lineno
    match command.geid.endpointName with
    | .placeholder _ => .error (.placeholderForEndpoint pos)
    | .literal name =>
      match tables.endpoints name.val with
      | none => .error (.endpointNameNotFound pos name.val)
      | some endpoint =>
        if endpoint.write = false then .error (.endpointNotWriteable pos name.val)
        else match command.constant with
          | .float bits => .ok (endpoint.eid, tables.rereadFloat bits)
          | _ => .error (.constantNotFloat pos)
  | _ => .ok (0, 0)

/-- A clause, from its condition vertex. -/
def printClause (g : Graph) (c : Nat) : Except HbcError Asm.IfClauseDoc := do
  let (name, m) ← match g.vertices[c]?, g.adjacent c with
    | some ⟨_, machineId, vertexId, .cond condition⟩, m :: _ =>
      match condition with
      | .tautology _ => .ok ("true", m)
      | _ => .ok (condName machineId vertexId, m)
    | some ⟨_, _, _, .cond _⟩, [] => .error .danglingEdge
    | _, _ => .error .otherVertexExpected
  let (machineId, block, target) ← match g.vertices[m]?, g.adjacent m with
    | some ⟨_, machineId, _, .command block⟩, target :: _ => .ok (machineId, block, target)
    | some ⟨_, _, _, .command _⟩, [] => .error .danglingEdge
    | _, _ => .error .otherVertexExpected
  let (eid, value) ← printSet tables machines machineId block.commands
  match g.vertices[target]? with
  | some ⟨_, machineId, vertexId, .state⟩ =>
    let name' := stateName machineId vertexId
    return ⟨0, name, eid, value, name', name'⟩
  | _ => .error .otherVertexExpected

/-- The block of a state, from the number of its vertex. -/
def printState (g : Graph) (v : Nat) : Except HbcError (List HbaDocBlock) :=
  match g.vertices[v]? with
  | some ⟨_, machineId, vertexId, .state⟩ => do
    let clauses ← (g.adjacent v).mapM (printClause tables machines g)
    return [.state ⟨0, stateName machineId vertexId, clauses, 0⟩]
  | _ => .ok []

/-! ## The file -/

/-- The lines `machine` and `startstate`, for every vertex whose name ends in `.init`. -/
def printStarts (g : Graph) : List (List HexDigit × String) :=
  (g.vertices.filter fun v => namesInit v.name).map fun v =>
    (tables.machineId (((machines[v.machineId]?).map MachineDescriptor.name).getD []),
      stateName v.machineId v.vertexId)

/-- `HBAOutput::operator()`. -/
def hbaOutput (device : Identifier) (g : Graph) : Except HbcError HbaText :=
  match tables.findDevice device with
  | none => .error (.deviceNotInTable device.val)
  | some address => do
    let conditions ← g.vertices.mapM (printConditions tables machines device)
    let states ← (List.range g.size).mapM (printState tables machines g)
    return ⟨printIpv6Address address, device, printStarts tables machines g,
      conditions.flatten ++ states.flatten⟩

/-- What the grammar of the assembler makes of the text: it reads one `machine` line
and at most one `startstate` line, and nothing when there are more. -/
def HbaText.parse (text : HbaText) : Option HbaDoc :=
  match text.starts with
  | [(machineId, startState)] => some ⟨text.target,
      text.deviceName.val.map fun c => UInt8.ofNat c.toNat, machineId, startState, text.blocks⟩
  | _ => none

/-! ## The compiler -/

variable (fp : FloatPrinter)

/-- A pass over the graphs of all devices. -/
def onGraphs (pass : Identifier → Graph → Except HbcError Graph)
    (graphs : List (Identifier × Graph)) : Except HbcError (List (Identifier × Graph)) :=
  graphs.mapM fun entry => do return (entry.1, ← pass entry.1 entry.2)

/-- The graphs that the multiple writes are expanded in. -/
def simplifiedGraphs (hbc : HbcDoc) :
    Except HbcError (List MachineDescriptor × List (Identifier × Graph)) := do
  let (g, machines) ← graphBuilder fp hbc
  let graphs ← graphTransformation g machines
  let graphs ← onGraphs (deleteOthersWrites fp) graphs
  let graphs ← onGraphs (fun _ => expandComplexConditions fp) graphs
  return (machines, graphs)

/-- `hbcomp`, from the instantiated program to the files of the devices that have a
machine. -/
def hbcomp (hbc : HbcDoc) : Except HbcError (List (Identifier × HbaText)) := do
  let (machines, graphs) ← simplifiedGraphs fp hbc
  let graphs ← onGraphs (fun _ => expandMultipleWrites fp) graphs
  graphs.mapM fun entry => do return (entry.1, ← hbaOutput tables machines entry.1 entry.2)

end Hexabus.Hbc
