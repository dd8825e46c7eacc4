import Hexabus.Hbc.GraphSimplification

/-!
# Building the graphs

`graph_builder.cpp` of the compiler: the machines are numbered, the states of a machine
become vertices first, and every guarded block of its `in` clauses becomes a condition
vertex and a command vertex. `graph_transformation.cpp` gives every device a copy of the machine
that writes to it; a device that two machines write to stops the compiler. The maps of the source
are lists in the order of their keys.
-/

namespace Hexabus.Hbc

variable (fp : FloatPrinter)

/-- `machine_descriptor`; its place in the list is the machine's id. -/
structure MachineDescriptor where
  name : Text
  file : Text

/-- `find_state_vertex_id`. -/
def StatemachineDoc.findState (statemachine : StatemachineDoc) (name : Identifier) : Option Nat :=
  statemachine.stateset.findIdx? (· = name)

/-- The name of a state's vertex. -/
def stateVertexName (machineId stateId : Nat) (machine : Text) (state : Identifier) : Text :=
  '(' :: printUint machineId ++ '.' :: printUint stateId ++ ") \\n".toList ++ machine ++
    '.' :: state.val

def ifLabel (machineId conditionId : Nat) : Text :=
  '(' :: printUint machineId ++ '.' :: printUint conditionId ++ ") if (".toList

def elseIfLabel (conditionId : Nat) : Text :=
  '(' :: printUint conditionId ++ ") else if (".toList

def initName : Identifier := ⟨"init".toList, rfl⟩

/-- The vertices of a machine's states. -/
def addStates (g : Graph) (machineId : Nat) (machine : Text) (states : List Identifier) : Graph :=
  states.zipIdx.foldl (fun g state =>
    g.addVertex (stateVertexName machineId state.2 machine state.1) machineId state.2 .state) g

/-- The visitor on one guarded block; the number counts the blocks of the machine: it
is `condition_id` and `command_id`. -/
def addGuardedBlock (statemachine : StatemachineDoc) (machineId originating : Nat)
    (label : Nat → Text) (state : Graph × Nat) (block : GuardedCommandBlockDoc) :
    Except HbcError (Graph × Nat) := do
  let (g, count) := state
  let goto := block.commandBlock.gotoCommand
  match statemachine.findState goto.targetState with
  | none => .error (.nonexistentTarget statemachine.readFromFile goto.lineno statemachine.name
      goto.targetState.val)
  | some target =>
    let newCond := g.size
    let g := g.addVertex (label count ++ block.condition.print fp ++ [')']) machineId count
      (.cond block.condition)
    let fromState ← g.findVertex machineId originating
    let g := g.addEdge fromState newCond
    let newCommand := g.size
    let g := g.addVertex (block.commandBlock.print fp) machineId count (.command block.commandBlock)
    let g := g.addEdge newCond newCommand
    let toState ← g.findVertex machineId target
    return (g.addEdge newCommand toState, count + 1)

/-- The visitor on an `if` with its `else if`s. -/
def addIfClause (statemachine : StatemachineDoc) (machineId originating : Nat)
    (state : Graph × Nat) (clause : IfClauseDoc) : Except HbcError (Graph × Nat) := do
  let state ← addGuardedBlock fp statemachine machineId originating (ifLabel machineId) state
    clause.ifBlock
  clause.elseIfBlocks.foldlM
    (addGuardedBlock fp statemachine machineId originating elseIfLabel) state

/-- The visitor on an `in` clause. -/
def addInClause (statemachine : StatemachineDoc) (machineId : Nat) (state : Graph × Nat)
    (clause : InClauseDoc) : Except HbcError (Graph × Nat) :=
  match statemachine.findState clause.name with
  | none => .error (.nonexistentOrigin statemachine.readFromFile clause.lineno statemachine.name
      clause.name.val)
  | some originating =>
    clause.ifClauses.foldlM (addIfClause fp statemachine machineId originating) state

/-- `first_pass` on a state machine. -/
def firstPass (state : Graph × List MachineDescriptor) (statemachine : StatemachineDoc) :
    Except HbcError (Graph × List MachineDescriptor) :=
  let (g, machines) := state
  let machineId := machines.length
  if machines.any fun m => m.name = statemachine.name then
    .error (.duplicateEntry statemachine.name)
  else
    let machines := machines ++ [⟨statemachine.name, statemachine.readFromFile⟩]
    let g := addStates g machineId statemachine.name statemachine.stateset
    match statemachine.findState initName with
    | none => .error (.missingInit statemachine.readFromFile statemachine.lineno)
    | some _ => do
      let (g, _) ← statemachine.inClauses.foldlM (addInClause fp statemachine machineId) (g, 0)
      return (g, machines)

/-- `GraphBuilder::operator()`. -/
def graphBuilder (hbc : HbcDoc) : Except HbcError (Graph × List MachineDescriptor) :=
  hbc.foldlM (firstPass fp) (Graph.empty, [])

/-! ## One graph for each device -/

variable (g : Graph)

/-- The vertices of a machine: an entry of `generateMachineMap`. -/
def machineVertices (machineId : Nat) : List Nat :=
  (List.range g.size).filter fun v => (g.vertices[v]?).map Vertex.machineId = some machineId

/-- The keys of `generateMachineMap`. -/
def machineIds : List Nat :=
  (List.range (g.vertices.foldl (fun m v => max m (v.machineId + 1)) 0)).filter
    fun machineId => machineVertices g machineId ≠ []

/-- The device of a write command joins the list, if it is not there. -/
def addDevice (machines : List MachineDescriptor) (machineId : Nat) (devices : List Identifier)
    (command : CommandDoc) : Except HbcError (List Identifier) :=
  match command.geid.deviceAlias with
  | .literal name => .ok (if name ∈ devices then devices else devices ++ [name])
  | .placeholder _ => .error (.placeholderInMachine
      ((machines[machineId]?).map fun m => (m.file, command.lineno)))

/-- `findDevices`. -/
def findDevices (machines : List MachineDescriptor) (vertices : List Nat) :
    Except HbcError (List Identifier) :=
  vertices.foldlM (fun devices v =>
    match g.contents v with
    | some (.command block) => block.commands.foldlM (addDevice machines (g.machineOf v)) devices
    | _ => .ok devices) []

/-- The edges of the copy; `vertices` lists the vertices that are copied. -/
def copyEdge (vertices : List Nat) (source : Nat) (out : Graph) (target : Nat) :
    Except HbcError Graph :=
  match vertices.findIdx? (· = source), vertices.findIdx? (· = target) with
  | some s, some t => .ok (out.addEdge s t)
  | _, _ => .error .danglingEdge

/-- `reconstructGraph`. -/
def reconstructGraph (vertices : List Nat) : Except HbcError Graph :=
  let out := (vertices.filterMap (g.vertices[·]?)).foldl
    (fun out v => out.addVertex v.name v.machineId v.vertexId v.contents) Graph.empty
  vertices.foldlM (fun out v => (g.adjacent v).foldlM (copyEdge vertices v) out) out

/-- `std::map::insert` for a key that is not taken. -/
def insertDevice (device : Identifier) (graph : Graph) :
    List (Identifier × Graph) → List (Identifier × Graph)
  | [] => [(device, graph)]
  | entry :: rest =>
    if device.val < entry.1.val then (device, graph) :: entry :: rest
    else entry :: insertDevice device graph rest

/-- One device of one machine. -/
def addDeviceGraph (vertices : List Nat) (deviceGraphs : List (Identifier × Graph))
    (device : Identifier) : Except HbcError (List (Identifier × Graph)) := do
  let graph ← reconstructGraph g vertices
  if deviceGraphs.any fun entry => entry.1 = device then
    .error (.multipleStateMachines device.val)
  else return insertDevice device graph deviceGraphs

/-- `GraphTransformation::operator()`. -/
def graphTransformation (machines : List MachineDescriptor) :
    Except HbcError (List (Identifier × Graph)) :=
  (machineIds g).foldlM (fun deviceGraphs machineId => do
    let vertices := machineVertices g machineId
    let devices ← findDevices g machines vertices
    devices.foldlM (addDeviceGraph g vertices) deviceGraphs) []

end Hexabus.Hbc
