import Hexabus.Hbc.Printer

/-!
# The graph of a program

`graph.hpp` and `graph.cpp`. A vertex is known by its number in the list of vertices,
and the edges are kept in the order in which they were added. What a vertex holds
decides its type, so the two cannot disagree.
-/

namespace Hexabus.Hbc

/-- `vertex_type`, with the contents that go with it. -/
inductive Contents
  | state
  | cond (condition : ConditionDoc)
  | command (block : CommandBlockDoc)
  deriving DecidableEq

/-- `vertex_t`. -/
structure Vertex where
  name : Text
  machineId : Nat
  vertexId : Nat
  contents : Contents
  deriving DecidableEq

/-- `graph_t`. -/
structure Graph where
  vertices : List Vertex
  edges : List (Nat × Nat)
  deriving DecidableEq

namespace Graph

def empty : Graph := ⟨[], []⟩

/-- The number of vertices, and the number of the next one. -/
def size (g : Graph) : Nat := g.vertices.length

/-- What the vertex with this number holds. -/
def contents (g : Graph) (v : Nat) : Option Contents := (g.vertices[v]?).map Vertex.contents

def machineOf (g : Graph) (v : Nat) : Nat := ((g.vertices[v]?).map Vertex.machineId).getD 0

/-- `adjacent_vertices`. -/
def adjacent (g : Graph) (v : Nat) : List Nat :=
  g.edges.filterMap fun e => if e.1 = v then some e.2 else none

/-- `inv_adjacent_vertices`. -/
def invAdjacent (g : Graph) (v : Nat) : List Nat :=
  g.edges.filterMap fun e => if e.2 = v then some e.1 else none

/-- `add_vertex`; the vertex gets the number `g.size`. -/
def addVertex (g : Graph) (name : Text) (machineId vertexId : Nat) (contents : Contents) : Graph :=
  { g with vertices := g.vertices ++ [⟨replaceNewline name, machineId, vertexId, contents⟩] }

/-- `add_edge`. -/
def addEdge (g : Graph) (source target : Nat) : Graph :=
  { g with edges := g.edges ++ [(source, target)] }

/-- `boost::remove_edge`: all edges between the two. -/
def removeEdge (g : Graph) (source target : Nat) : Graph :=
  { g with edges := g.edges.filter (· ≠ (source, target)) }

/-- A vertex is given a name and contents. -/
def setVertex (g : Graph) (v : Nat) (name : Text) (contents : Contents) : Graph :=
  { g with vertices := g.vertices.modify v fun w => { w with name := name, contents := contents } }

/-- `find_vertex`. -/
def findVertex (g : Graph) (machineId vertexId : Nat) : Except HbcError Nat :=
  match g.vertices.findIdx? fun v => v.machineId = machineId ∧ v.vertexId = vertexId with
  | some v => .ok v
  | none => .error (.vertexNotFound machineId vertexId)

/-- Edges join vertices of the graph. -/
def Bounded (g : Graph) : Prop := ∀ e ∈ g.edges, e.1 < g.size ∧ e.2 < g.size

/-! ## Vertices -/

@[simp] theorem size_addVertex (g : Graph) (name : Text) (m i : Nat) (c : Contents) :
    (g.addVertex name m i c).size = g.size + 1 := by
  simp [size, addVertex]

@[simp] theorem size_addEdge (g : Graph) (s t : Nat) : (g.addEdge s t).size = g.size := rfl

@[simp] theorem size_removeEdge (g : Graph) (s t : Nat) : (g.removeEdge s t).size = g.size := rfl

@[simp] theorem size_setVertex (g : Graph) (v : Nat) (name : Text) (c : Contents) :
    (g.setVertex v name c).size = g.size := by
  simp [size, setVertex]

@[simp] theorem contents_addEdge (g : Graph) (s t v : Nat) :
    (g.addEdge s t).contents v = g.contents v := rfl

@[simp] theorem contents_removeEdge (g : Graph) (s t v : Nat) :
    (g.removeEdge s t).contents v = g.contents v := rfl

theorem contents_lt {g : Graph} {v : Nat} {c : Contents} (h : g.contents v = some c) :
    v < g.size := by
  obtain ⟨w, hw, -⟩ := Option.map_eq_some_iff.mp h
  exact (List.getElem?_eq_some_iff.mp hw).1

theorem contents_addVertex (g : Graph) (name : Text) (m i : Nat) (c : Contents) (v : Nat) :
    (g.addVertex name m i c).contents v = if v = g.size then some c else g.contents v := by
  unfold contents addVertex size
  by_cases hv : v = g.vertices.length
  · subst hv
    simp
  · rw [if_neg hv]
    rcases Nat.lt_or_gt_of_ne hv with hlt | hgt
    · rw [List.getElem?_append_left hlt]
    · rw [List.getElem?_eq_none (by simp; omega), List.getElem?_eq_none (by omega)]

theorem contents_setVertex (g : Graph) (v : Nat) (name : Text) (c : Contents) (w : Nat) :
    (g.setVertex v name c).contents w
      = if w = v ∧ v < g.size then some c else g.contents w := by
  unfold contents setVertex size
  rw [List.getElem?_modify]
  by_cases hw : w = v
  · subst hw
    by_cases hlt : w < g.vertices.length
    · rw [if_pos ⟨rfl, hlt⟩, List.getElem?_eq_getElem hlt]
      simp
    · rw [if_neg fun h => hlt h.2, List.getElem?_eq_none (by omega)]
      rfl
  · rw [if_neg fun h => hw h.1]
    simp [Ne.symm hw]

/-! ## Edges -/

@[simp] theorem adjacent_addVertex (g : Graph) (name : Text) (m i : Nat) (c : Contents) (v : Nat) :
    (g.addVertex name m i c).adjacent v = g.adjacent v := rfl

@[simp] theorem adjacent_setVertex (g : Graph) (w : Nat) (name : Text) (c : Contents) (v : Nat) :
    (g.setVertex w name c).adjacent v = g.adjacent v := rfl

theorem adjacent_addEdge (g : Graph) (s t v : Nat) :
    (g.addEdge s t).adjacent v = g.adjacent v ++ if v = s then [t] else [] := by
  unfold adjacent addEdge
  rw [List.filterMap_append]
  by_cases hv : v = s
  · subst hv
    simp
  · simp [hv, Ne.symm hv]

theorem adjacent_removeEdge (g : Graph) (s t v : Nat) :
    (g.removeEdge s t).adjacent v
      = if v = s then (g.adjacent v).filter (· ≠ t) else g.adjacent v := by
  unfold adjacent removeEdge
  generalize g.edges = edges
  induction edges with
  | nil => simp
  | cons e edges ih =>
    obtain ⟨a, b⟩ := e
    by_cases hv : v = s
    · subst hv
      by_cases ha : a = v
      · subst ha
        by_cases hb : b = t
        · subst hb
          simpa using ih
        · simpa [hb] using ih
      · simpa [ha] using ih
    · rw [if_neg hv] at ih ⊢
      by_cases ha : a = v
      · subst ha
        simpa [hv] using ih
      · by_cases hab : (a, b) = (s, t)
        · simpa [hab, ha, Ne.symm hv] using ih
        · simpa [hab, ha] using ih

theorem mem_adjacent {g : Graph} {s t : Nat} : t ∈ g.adjacent s ↔ (s, t) ∈ g.edges := by
  unfold adjacent
  rw [List.mem_filterMap]
  constructor
  · rintro ⟨⟨a, b⟩, hmem, he⟩
    by_cases ha : a = s
    · subst ha
      rw [if_pos rfl] at he
      rwa [← Option.some.inj he]
    · rw [if_neg ha] at he
      cases he
  · intro hmem
    exact ⟨(s, t), hmem, if_pos rfl⟩

namespace Bounded

variable {g : Graph}

/-- A vertex that does not exist has no edges. -/
theorem adjacent_eq_nil (h : g.Bounded) {v : Nat} (hv : g.size ≤ v) : g.adjacent v = [] := by
  refine List.eq_nil_iff_forall_not_mem.mpr fun t ht => ?_
  have := (h _ (mem_adjacent.mp ht)).1
  omega

theorem adjacent_lt (h : g.Bounded) {s t : Nat} (ht : t ∈ g.adjacent s) : t < g.size :=
  (h _ (mem_adjacent.mp ht)).2

theorem addVertex (h : g.Bounded) (name : Text) (m i : Nat) (c : Contents) :
    (g.addVertex name m i c).Bounded := by
  intro e he
  obtain ⟨h1, h2⟩ := h e he
  rw [size_addVertex]
  omega

theorem addEdge (h : g.Bounded) {s t : Nat} (hs : s < g.size) (ht : t < g.size) :
    (g.addEdge s t).Bounded := by
  intro e he
  rcases List.mem_append.mp he with he | he
  · exact h e he
  · rw [List.mem_singleton.mp he]
    exact ⟨hs, ht⟩

theorem removeEdge (h : g.Bounded) (s t : Nat) : (g.removeEdge s t).Bounded := by
  intro e he
  exact h e (List.mem_of_mem_filter he)

theorem setVertex (h : g.Bounded) (v : Nat) (name : Text) (c : Contents) :
    (g.setVertex v name c).Bounded := by
  intro e he
  rw [size_setVertex]
  exact h e he

end Bounded

end Graph

end Hexabus.Hbc
