import Hexabus.Asm.Generator

/-!
# Names and numbers

What a lookup by name finds, in terms of the program: states and conditions are
numbered separately, but a name is looked up among both, and the first block that
bears it is the one found.
-/

namespace Hexabus.Asm

def HbaDocBlock.name : HbaDocBlock → String
  | .state doc => doc.name
  | .condition doc => doc.name

/-- Some block bears the name. -/
def Bears (blocks : List HbaDocBlock) (name : String) : Prop :=
  ∃ block ∈ blocks, block.name = name

/-- The number, within its kind, of the first block that bears the name, if `stateId`
states and `conditionId` conditions stand before. -/
def numberFrom (name : String) : Nat → Nat → List HbaDocBlock → Option Nat
  | _, _, [] => none
  | stateId, conditionId, .state doc :: blocks =>
    if doc.name = name then some stateId else numberFrom name (stateId + 1) conditionId blocks
  | stateId, conditionId, .condition doc :: blocks =>
    if doc.name = name then some conditionId else numberFrom name stateId (conditionId + 1) blocks

def numberOf (blocks : List HbaDocBlock) (name : String) : Option Nat := numberFrom name 0 0 blocks

theorem numberFrom_eq_none {name : String} {stateId conditionId : Nat}
    {blocks : List HbaDocBlock} (h : numberFrom name stateId conditionId blocks = none) :
    ¬ Bears blocks name := by
  induction blocks generalizing stateId conditionId with
  | nil =>
    rintro ⟨block, hmem, -⟩
    exact absurd hmem List.not_mem_nil
  | cons block blocks ih =>
    rintro ⟨b, hmem, hname⟩
    cases block with
    | state doc =>
      by_cases hdoc : doc.name = name
      · rw [numberFrom, if_pos hdoc] at h
        cases h
      · rw [numberFrom, if_neg hdoc] at h
        rcases List.mem_cons.mp hmem with rfl | hmem
        · exact hdoc hname
        · exact ih h ⟨b, hmem, hname⟩
    | condition doc =>
      by_cases hdoc : doc.name = name
      · rw [numberFrom, if_pos hdoc] at h
        cases h
      · rw [numberFrom, if_neg hdoc] at h
        rcases List.mem_cons.mp hmem with rfl | hmem
        · exact hdoc hname
        · exact ih h ⟨b, hmem, hname⟩

theorem bears_of_numberFrom {name : String} {stateId conditionId k : Nat}
    {blocks : List HbaDocBlock} (h : numberFrom name stateId conditionId blocks = some k) :
    Bears blocks name := by
  induction blocks generalizing stateId conditionId with
  | nil => cases h
  | cons block blocks ih =>
    by_cases hname : block.name = name
    · exact ⟨block, List.mem_cons_self, hname⟩
    · have hrest : Bears blocks name := by
        cases block with
        | state doc =>
          have hdoc : ¬ doc.name = name := hname
          rw [numberFrom, if_neg hdoc] at h
          exact ih h
        | condition doc =>
          have hdoc : ¬ doc.name = name := hname
          rw [numberFrom, if_neg hdoc] at h
          exact ih h
      obtain ⟨b, hmem, hb⟩ := hrest
      exact ⟨b, List.mem_cons_of_mem _ hmem, hb⟩

/-- A name that is borne has a number. -/
theorem Bears.number {blocks : List HbaDocBlock} {name : String} (h : Bears blocks name) :
    ∃ k, numberOf blocks name = some k := by
  cases hk : numberOf blocks name with
  | none => exact absurd h (numberFrom_eq_none hk)
  | some k => exact ⟨k, rfl⟩

/-! ## The graph agrees -/

theorem findVertexId_cons (v : Vertex) (vertices : List Vertex) (name : String) :
    findVertexId (v :: vertices) name
      = if v.name = name then .ok v.id else findVertexId vertices name := by
  unfold findVertexId
  by_cases h : v.name = name
  · rw [if_pos h, List.find?_cons_of_pos (by simpa using h)]
  · rw [if_neg h, List.find?_cons_of_neg (by simpa using h)]

/-- Marking the start state changes neither names nor numbers. -/
theorem findVertexId_markStartState (start : String) (vertices : List Vertex) (name : String) :
    findVertexId (markStartState start vertices) name = findVertexId vertices name := by
  induction vertices with
  | nil => rfl
  | cons v vertices ih =>
    by_cases h : v.name = start
    · rw [markStartState, if_pos h, findVertexId_cons, findVertexId_cons]
    · rw [markStartState, if_neg h, findVertexId_cons, findVertexId_cons, ih]

theorem findVertexId_firstPass (stateId conditionId : Nat) (blocks : List HbaDocBlock)
    (name : String) :
    findVertexId (firstPass stateId conditionId blocks).2 name =
      match numberFrom name stateId conditionId blocks with
      | some k => .ok k
      | none => .error (.vertexNotFound name) := by
  induction blocks generalizing stateId conditionId with
  | nil => rfl
  | cons block blocks ih =>
    cases block with
    | state doc =>
      have hcons := findVertexId_cons ⟨doc.name, doc.lineno, stateId, .state⟩
        (firstPass (stateId + 1) conditionId blocks).2 name
      rw [numberFrom]
      refine hcons.trans ?_
      by_cases h : doc.name = name
      · rw [if_pos h, if_pos h]
      · rw [if_neg h, if_neg h]
        exact ih (stateId + 1) conditionId
    | condition doc =>
      have hcons := findVertexId_cons ⟨doc.name, doc.lineno, conditionId, .condition⟩
        (firstPass stateId (conditionId + 1) blocks).2 name
      rw [numberFrom]
      refine hcons.trans ?_
      by_cases h : doc.name = name
      · rw [if_pos h, if_pos h]
      · rw [if_neg h, if_neg h]
        exact ih stateId (conditionId + 1)

/-- The vertices of a program's graph. -/
def verticesOf (ast : HbaDoc) : List Vertex :=
  markStartState ast.startState (firstPass 0 0 ast.blocks).2

/-- A lookup in the graph is a lookup in the program. -/
theorem findVertexId_ok_iff {ast : HbaDoc} {name : String} {k : Nat} :
    findVertexId (verticesOf ast) name = .ok k ↔ numberOf ast.blocks name = some k := by
  unfold verticesOf numberOf
  rw [findVertexId_markStartState, findVertexId_firstPass]
  cases numberFrom name 0 0 ast.blocks with
  | none =>
    constructor
    · intro h
      cases h
    · intro h
      cases h
  | some k' =>
    constructor
    · intro h
      exact congrArg some (Except.ok.inj h)
    · intro h
      exact congrArg Except.ok (Option.some.inj h)

theorem names_markStartState (start : String) (vertices : List Vertex) :
    (markStartState start vertices).map Vertex.name = vertices.map Vertex.name := by
  induction vertices with
  | nil => rfl
  | cons v vertices ih =>
    by_cases h : v.name = start
    · rw [markStartState, if_pos h]
      rfl
    · rw [markStartState, if_neg h, List.map_cons, List.map_cons, ih]

theorem names_firstPass (stateId conditionId : Nat) (blocks : List HbaDocBlock) :
    (firstPass stateId conditionId blocks).2.map Vertex.name = blocks.map HbaDocBlock.name := by
  induction blocks generalizing stateId conditionId with
  | nil => rfl
  | cons block blocks ih =>
    cases block with
    | state doc => exact congrArg (doc.name :: ·) (ih (stateId + 1) conditionId)
    | condition doc => exact congrArg (doc.name :: ·) (ih stateId (conditionId + 1))

/-- A vertex is found for exactly the names that are borne. -/
theorem findVertex_ok_iff {ast : HbaDoc} {name : String} :
    (∃ i, findVertex (verticesOf ast) name = .ok i) ↔ Bears ast.blocks name := by
  have hnames : (verticesOf ast).map Vertex.name = ast.blocks.map HbaDocBlock.name := by
    rw [verticesOf, names_markStartState, names_firstPass]
  have hbears : Bears ast.blocks name ↔ name ∈ (verticesOf ast).map Vertex.name := by
    rw [hnames]
    exact List.mem_map.symm
  rw [hbears, List.mem_map]
  unfold findVertex
  cases hfind : (verticesOf ast).findIdx? fun v => v.name = name with
  | none =>
    have hno := List.findIdx?_eq_none_iff.mp hfind
    constructor
    · rintro ⟨i, h⟩
      cases h
    · rintro ⟨v, hmem, hv⟩
      exact absurd hv (by simpa using hno v hmem)
  | some i =>
    obtain ⟨hlt, hi, -⟩ := List.findIdx?_eq_some_iff_getElem.mp hfind
    exact ⟨fun _ => ⟨_, List.getElem_mem hlt, by simpa using hi⟩, fun _ => ⟨i, rfl⟩⟩

end Hexabus.Asm
