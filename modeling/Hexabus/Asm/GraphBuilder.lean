import Hexabus.Asm.Syntax

/-!
# The graph of a program

`graph_builder.cpp` and `graph.cpp`: states and conditions become the vertices of
one graph, in the order of the file, and are numbered separately. The clauses become
edges; a clause that names a vertex which does not exist stops the assembler.
-/

namespace Hexabus.Asm

/-- `vertex_type`. -/
inductive VertexType
  | condition | state | startstate
  deriving DecidableEq

/-- `vertex_t`. -/
structure Vertex where
  name : String
  lineno : Nat
  id : Nat
  type : VertexType

/-- `edge_type`. -/
inductive EdgeType
  | goodState | badState | fromState
  deriving DecidableEq

/-- An edge, with the numbers of its vertices. -/
structure Edge where
  source : Nat
  target : Nat
  name : String
  type : EdgeType

/-- `graph_t`. -/
structure Graph where
  vertices : List Vertex
  edges : List Edge

/-! ## Looking up a vertex -/

/-- `find_vertex`: the number of the first vertex with this name, of whatever type. -/
def findVertex (vertices : List Vertex) (name : String) : Except AsmError Nat :=
  match vertices.findIdx? fun v => v.name = name with
  | some i => .ok i
  | none => .error (.vertexNotFound name)

/-- `find_vertex_id`: the id of that vertex. -/
def findVertexId (vertices : List Vertex) (name : String) : Except AsmError Nat :=
  match vertices.find? fun v => v.name = name with
  | some v => .ok v.id
  | none => .error (.vertexNotFound name)

/-! ## The passes -/

/-- `first_pass` on the blocks, with the two counters `_state_id` and
`_condition_id`: the blocks with their ids, and a vertex for each. -/
def firstPass (stateId conditionId : Nat) : List HbaDocBlock → List HbaDocBlock × List Vertex
  | [] => ([], [])
  | .state doc :: blocks =>
    let (blocks, vertices) := firstPass (stateId + 1) conditionId blocks
    (.state { doc with id := stateId } :: blocks,
      ⟨doc.name, doc.lineno, stateId, .state⟩ :: vertices)
  | .condition doc :: blocks =>
    let (blocks, vertices) := firstPass stateId (conditionId + 1) blocks
    (.condition { doc with id := conditionId } :: blocks,
      ⟨doc.name, doc.lineno, conditionId, .condition⟩ :: vertices)

/-- `second_pass` on a clause: its edges. -/
def clauseEdges (vertices : List Vertex) (fromStateName : String) (clause : IfClauseDoc) :
    Except AsmError (List Edge) := do
  let fromState ← findVertex vertices fromStateName
  let goodState ← findVertex vertices clause.goodstate
  let badState ← findVertex vertices clause.badstate
  if clause.name ≠ "true" then
    let condition ← findVertex vertices clause.name
    return [⟨fromState, condition, "", .fromState⟩, ⟨condition, goodState, "G", .goodState⟩,
      ⟨condition, badState, "B", .badState⟩]
  else
    return [⟨fromState, goodState, "T", .goodState⟩]

/-- `second_pass` on the blocks. -/
def secondPass (vertices : List Vertex) : List HbaDocBlock → Except AsmError (List Edge)
  | [] => .ok []
  | .state doc :: blocks => do
    let edges ← doc.ifClauses.mapM (clauseEdges vertices doc.name)
    return edges.flatten ++ (← secondPass vertices blocks)
  | .condition _ :: blocks => secondPass vertices blocks

/-- `mark_start_state`: the first vertex with this name becomes the start state. If
there is none, the caller prints a message and goes on. -/
def markStartState (name : String) : List Vertex → List Vertex
  | [] => []
  | v :: vertices =>
    if v.name = name then { v with type := .startstate } :: vertices
    else v :: markStartState name vertices

/-- `GraphBuilder::operator()`: the graph, and the blocks with their ids. -/
def graphBuilder (hba : HbaDoc) : Except AsmError (Graph × List HbaDocBlock) := do
  let (blocks, vertices) := firstPass 0 0 hba.blocks
  let vertices := markStartState hba.startState vertices
  let edges ← secondPass vertices blocks
  return (⟨vertices, edges⟩, blocks)

/-! ## What the passes keep -/

theorem length_firstPass (stateId conditionId : Nat) (blocks : List HbaDocBlock) :
    (firstPass stateId conditionId blocks).1.length = blocks.length := by
  induction blocks generalizing stateId conditionId with
  | nil => rfl
  | cons block blocks ih =>
    cases block with
    | state doc => exact congrArg (· + 1) (ih (stateId + 1) conditionId)
    | condition doc => exact congrArg (· + 1) (ih stateId (conditionId + 1))

/-- The parts of a graph that has been built. -/
theorem graphBuilder_ok {hba : HbaDoc} {g : Graph} {blocks : List HbaDocBlock}
    (h : graphBuilder hba = .ok (g, blocks)) :
    blocks = (firstPass 0 0 hba.blocks).1 ∧
      g.vertices = markStartState hba.startState (firstPass 0 0 hba.blocks).2 ∧
      secondPass g.vertices blocks = .ok g.edges := by
  unfold graphBuilder at h
  simp only [bind, Except.bind] at h
  cases hedges : secondPass (markStartState hba.startState (firstPass 0 0 hba.blocks).2)
      (firstPass 0 0 hba.blocks).1 with
  | error e =>
    rw [hedges] at h
    cases h
  | ok edges =>
    rw [hedges] at h
    obtain ⟨rfl, rfl⟩ := Prod.mk.inj (Except.ok.inj h)
    exact ⟨rfl, rfl, hedges⟩

theorem graphBuilder_length {hba : HbaDoc} {g : Graph} {blocks : List HbaDocBlock}
    (h : graphBuilder hba = .ok (g, blocks)) : blocks.length = hba.blocks.length := by
  rw [(graphBuilder_ok h).1, length_firstPass]

end Hexabus.Asm
