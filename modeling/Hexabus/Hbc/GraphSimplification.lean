import Hexabus.Hbc.Graph

/-!
# The passes over a device's graph

`graph_simplification.cpp`: the writes of other devices are deleted, conditions with
`or` are split, and command blocks with several writes are drawn out into a chain of
intermediate states. A pass visits the vertices the graph has when it begins.
-/

namespace Hexabus.Hbc

variable (fp : FloatPrinter)

/-- The name of a command vertex. -/
def commandName (block : CommandBlockDoc) : Text := replaceNewline (block.print fp)

/-- The largest vertex id. -/
def maxVertexId (g : Graph) : Nat := g.vertices.foldl (fun m v => max m v.vertexId) 0

/-! ## Writes of other devices -/

/-- The commands that write an endpoint of the device. -/
def ownCommands (device : Identifier) : List CommandDoc → Except HbcError (List CommandDoc)
  | [] => .ok []
  | command :: commands =>
    match command.geid.deviceAlias with
    | .literal name => do
      let own ← ownCommands device commands
      return if name = device then command :: own else own
    | .placeholder _ => .error .invalidPlaceholder

/-- `deleteOthersWrites` at one vertex. -/
def deleteAt (device : Identifier) (g : Graph) (v : Nat) : Except HbcError Graph :=
  match g.contents v with
  | some (.command block) => do
    let own ← ownCommands device block.commands
    let block := { block with commands := own }
    return g.setVertex v (commandName fp block) (.command block)
  | _ => .ok g

def deleteOthersWrites (device : Identifier) (g : Graph) : Except HbcError Graph :=
  (List.range g.size).foldlM (deleteAt fp device) g

/-! ## Complex conditions -/

/-- `expandComplexConditions` at one vertex: the second part of an `or` gets a vertex
and a copy of the command vertex of its own. An `and` stays as it is. -/
def expandConditionAt (state : Graph × Nat) (v : Nat) : Except HbcError (Graph × Nat) :=
  let (g, maxId) := state
  match g.contents v with
  | some (.cond (.compound conditionA .or conditionB)) =>
    match g.adjacent v, g.invAdjacent v with
    | command :: _, origin :: _ =>
      match g.vertices[command]?, g.adjacent command with
      | some commandVertex, target :: _ =>
        let g := g.setVertex v (conditionA.print fp) (.cond conditionA)
        let machine := g.machineOf origin
        let newCond := g.size
        let g := g.addVertex (conditionB.print fp) machine (maxId + 1) (.cond conditionB)
        let newCmd := g.size
        let g := g.addVertex commandVertex.name machine (maxId + 2) commandVertex.contents
        let g := g.addEdge origin newCond
        let g := g.addEdge newCond newCmd
        .ok (g.addEdge newCmd target, maxId + 2)
      | _, _ => .error .danglingEdge
    | _, _ => .error .danglingEdge
  | _ => .ok (g, maxId)

def expandComplexConditions (g : Graph) : Except HbcError Graph := do
  let (g, _) ← (List.range g.size).foldlM (expandConditionAt fp) (g, maxVertexId g)
  return g

/-! ## Multiple writes -/

def commandBlockTail (block : CommandBlockDoc) : Except HbcError CommandBlockDoc :=
  if block.commands.length < 2 then .error .emptyCommandBlockTail
  else .ok { block with commands := block.commands.tail }

def commandBlockHead (block : CommandBlockDoc) : Except HbcError CommandBlockDoc :=
  if block.commands.length < 1 then .error .emptyCommandBlockHead
  else .ok { block with commands := block.commands.take 1 }

def intermediateName : Text := "intermediate\\nstate".toList

def ifTrueName : Text := "[I] if(true)".toList

/-- `splitTransition`: the command vertex keeps the first command and leads to a new
state, from which a new `if true` leads to a new command vertex with the others. The
result also tells the new largest vertex id and the new command vertex. -/
def splitTransition (g : Graph) (maxId source target : Nat) (commands : CommandBlockDoc) :
    Except HbcError (Graph × Nat × Nat) := do
  let head ← commandBlockHead commands
  let g := g.setVertex source (commandName fp head) (.command head)
  let machine := g.machineOf source
  let g := g.removeEdge source target
  let newState := g.size
  let g := g.addVertex intermediateName machine (maxId + 1) .state
  let g := g.addEdge source newState
  let newIf := g.size
  let g := g.addVertex ifTrueName machine (maxId + 2) (.cond (.tautology 1))
  let g := g.addEdge newState newIf
  let tail ← commandBlockTail commands
  let newCommand := g.size
  let g := g.addVertex (commandName fp tail) machine (maxId + 3) (.command tail)
  let g := g.addEdge newIf newCommand
  return (g.addEdge newCommand target, maxId + 3, newCommand)

/-- `expandMultipleWriteNode`, on a vertex whose block has these commands. The
recursion is on the commands: the new command vertex holds their tail. -/
def expandMultipleWriteNode (goto : GotoCommandDoc) : List CommandDoc → Graph → Nat → Nat →
    Except HbcError (Graph × Nat)
  | [], _, _, _ => .error .emptyCommandBlockHead
  | command :: tail, g, maxId, v =>
    match g.adjacent v with
    | [target] => do
      let (g, maxId, new) ← splitTransition fp g maxId v target ⟨command :: tail, goto⟩
      if tail.length > 1 then expandMultipleWriteNode goto tail g maxId new
      else return (g, maxId)
    | _ => .error .multipleOutgoingEdges

/-- `expandMultipleWrites` at one vertex. -/
def expandWritesAt (state : Graph × Nat) (v : Nat) : Except HbcError (Graph × Nat) :=
  match state.1.contents v with
  | some (.command block) =>
    if block.commands.length > 1 then
      expandMultipleWriteNode fp block.gotoCommand block.commands state.1 state.2 v
    else .ok state
  | _ => .ok state

def expandMultipleWrites (g : Graph) : Except HbcError Graph := do
  let (g, _) ← (List.range g.size).foldlM (expandWritesAt fp) (g, maxVertexId g)
  return g

/-- `GraphSimplification::operator()` on the graph of one device. -/
def simplify (device : Identifier) (g : Graph) : Except HbcError Graph := do
  let g ← deleteOthersWrites fp device g
  let g ← expandComplexConditions fp g
  expandMultipleWrites fp g

end Hexabus.Hbc
