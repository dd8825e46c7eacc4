import Hexabus.Hbc.GraphBuilder
import Hexabus.Lib.Folds

/-!
# The graph of a machine

How the compiler numbers the vertices of a machine: first its states, in the order of the
state set, then for every guarded block, in the order of the source, its condition and its
command vertex. A state leads to the conditions of its own blocks, in the order of the
source. The builder makes this graph, the slice of a device copies it, and deleting the
writes of other devices leaves it as it is.
-/

namespace Hexabus.Hbc

open Lib.Folds

/-! ## Guarded blocks -/

/-- A guarded block with the numbers of the state it is for and the state it leads to. -/
structure ResolvedBlock where
  origin : Nat
  target : Nat
  block : GuardedCommandBlockDoc

namespace StatemachineDoc

variable (sm : StatemachineDoc)

/-- The guarded blocks in the order of the source, with the names of their states. -/
def guardedBlocks : List (Identifier × GuardedCommandBlockDoc) :=
  sm.inClauses.flatMap fun clause => clause.ifClauses.flatMap fun ifClause =>
    (ifClause.ifBlock :: ifClause.elseIfBlocks).map fun block => (clause.name, block)

/-- A guarded block with its states looked up. -/
def resolve (entry : Identifier × GuardedCommandBlockDoc) : Option ResolvedBlock :=
  match sm.findState entry.1, sm.findState entry.2.commandBlock.gotoCommand.targetState with
  | some origin, some target => some ⟨origin, target, entry.2⟩
  | _, _ => none

/-- The guarded blocks with their states looked up. -/
def resolved : List ResolvedBlock := sm.guardedBlocks.filterMap sm.resolve

end StatemachineDoc

/-- The numbers of the blocks of a state. -/
def clauseNumbers (blocks : List ResolvedBlock) (k : Nat) : List Nat :=
  (List.range blocks.length).filter fun j => (blocks[j]?).map ResolvedBlock.origin = some k

theorem clauseNumbers_append (blocks : List ResolvedBlock) (b : ResolvedBlock) (k : Nat) :
    clauseNumbers (blocks ++ [b]) k
      = clauseNumbers blocks k ++ if b.origin = k then [blocks.length] else [] := by
  unfold clauseNumbers
  rw [List.length_append, List.length_singleton, List.range_succ, List.filter_append]
  congr 1
  · refine List.filter_congr fun j hj => ?_
    rw [List.getElem?_append_left (List.mem_range.mp hj)]
  · by_cases hk : b.origin = k
    · simp [hk]
    · simp [hk]

theorem mem_clauseNumbers {blocks : List ResolvedBlock} {k j : Nat} :
    j ∈ clauseNumbers blocks k ↔ ∃ b, blocks[j]? = some b ∧ b.origin = k := by
  unfold clauseNumbers
  rw [List.mem_filter, List.mem_range, decide_eq_true_eq, Option.map_eq_some_iff]
  constructor
  · exact fun h => h.2
  · rintro ⟨b, hb, hk⟩
    exact ⟨(List.getElem?_eq_some_iff.mp hb).1, b, hb, hk⟩

theorem pairwise_clauseNumbers (blocks : List ResolvedBlock) (k : Nat) :
    (clauseNumbers blocks k).Pairwise (· < ·) :=
  List.pairwise_lt_range.filter _

/-! ## The shape -/

theorem replaceNewline_eq_self {s : Text} (h : '\n' ∉ s) : replaceNewline s = s := by
  induction s with
  | nil => rfl
  | cons c s ih =>
    have hc : c ≠ '\n' := fun hc => h (hc ▸ List.mem_cons_self)
    have hs := ih fun hmem => h (List.mem_cons_of_mem _ hmem)
    unfold replaceNewline at hs ⊢
    rw [List.flatMap_cons, hs, if_neg hc]
    rfl

theorem replaceNewline_idem (s : Text) : replaceNewline (replaceNewline s) = replaceNewline s := by
  refine replaceNewline_eq_self fun hmem => ?_
  obtain ⟨c, -, hc⟩ := List.mem_flatMap.mp hmem
  by_cases hn : c = '\n'
  · rw [if_pos hn] at hc
    revert hc
    decide
  · rw [if_neg hn] at hc
    exact hn (List.mem_singleton.mp hc).symm

/-- A name without line breaks that is not an initial state's. -/
structure PlainName (name : Text) : Prop where
  notInit : namesInit name = false
  noNewline : replaceNewline name = name

/-- A condition vertex's name ends in a bracket. -/
theorem plainName_label (label condition : Text) :
    PlainName (replaceNewline (label ++ condition ++ [')'])) :=
  ⟨namesInit_eq_false (getLast?_replaceNewline (getLast?_append_of (c := ')') rfl)) (by decide),
    replaceNewline_idem _⟩

theorem plainName_block (fp : FloatPrinter) (block : CommandBlockDoc) :
    PlainName (replaceNewline (block.print fp)) :=
  ⟨namesInit_block fp block, replaceNewline_idem _⟩

/-- From the vertex `offset` on the graph is that of a machine. -/
structure Shape (g : Graph) (offset machineId : Nat) (machine : Text) (states : List Identifier)
    (blocks : List ResolvedBlock) : Prop where
  state : ∀ k s, states[k]? = some s → g.vertices[offset + k]? =
    some ⟨replaceNewline (stateVertexName machineId k machine s), machineId, k, .state⟩
  cond : ∀ j b, blocks[j]? = some b → ∃ name, PlainName name ∧
    g.vertices[offset + states.length + 2 * j]? =
      some ⟨name, machineId, j, .cond b.block.condition⟩
  command : ∀ j b, blocks[j]? = some b → ∃ name, PlainName name ∧
    g.vertices[offset + states.length + 2 * j + 1]? =
      some ⟨name, machineId, j, .command b.block.commandBlock⟩
  ofState : ∀ k, k < states.length → g.adjacent (offset + k) =
    (clauseNumbers blocks k).map fun j => offset + states.length + 2 * j
  ofCond : ∀ j b, blocks[j]? = some b →
    g.adjacent (offset + states.length + 2 * j) = [offset + states.length + 2 * j + 1]
  ofCommand : ∀ j b, blocks[j]? = some b →
    g.adjacent (offset + states.length + 2 * j + 1) = [offset + b.target]
  inRange : ∀ b ∈ blocks, b.origin < states.length ∧ b.target < states.length

/-- The number of vertices of a machine. -/
def machineSize (states : List Identifier) (blocks : List ResolvedBlock) : Nat :=
  states.length + 2 * blocks.length

/-- A machine is not changed by what happens elsewhere in the graph. -/
theorem Shape.frame {g g' : Graph} {offset machineId : Nat} {machine : Text}
    {states : List Identifier} {blocks : List ResolvedBlock}
    (h : Shape g offset machineId machine states blocks)
    (hsame : ∀ v, offset ≤ v → v < offset + machineSize states blocks →
      g'.vertices[v]? = g.vertices[v]? ∧ g'.adjacent v = g.adjacent v) :
    Shape g' offset machineId machine states blocks := by
  have hsize : machineSize states blocks = states.length + 2 * blocks.length := rfl
  have hstate : ∀ k s, states[k]? = some s → k < states.length :=
    fun k s hs => (List.getElem?_eq_some_iff.mp hs).1
  have hblock : ∀ j b, blocks[j]? = some b → j < blocks.length :=
    fun j b hb => (List.getElem?_eq_some_iff.mp hb).1
  constructor
  case state =>
    intro k s hs
    have := hstate k s hs
    rw [(hsame _ (by omega) (by omega)).1]
    exact h.state k s hs
  case cond =>
    intro j b hb
    have := hblock j b hb
    rw [(hsame _ (by omega) (by omega)).1]
    exact h.cond j b hb
  case command =>
    intro j b hb
    have := hblock j b hb
    rw [(hsame _ (by omega) (by omega)).1]
    exact h.command j b hb
  case ofState =>
    intro k hk
    rw [(hsame _ (by omega) (by omega)).2]
    exact h.ofState k hk
  case ofCond =>
    intro j b hb
    have := hblock j b hb
    rw [(hsame _ (by omega) (by omega)).2]
    exact h.ofCond j b hb
  case ofCommand =>
    intro j b hb
    have := hblock j b hb
    rw [(hsame _ (by omega) (by omega)).2]
    exact h.ofCommand j b hb
  case inRange => exact h.inRange

namespace Graph

theorem vertices_addVertex (g : Graph) (name : Text) (m i : Nat) (c : Contents) (v : Nat) :
    (g.addVertex name m i c).vertices[v]?
      = if v = g.size then some ⟨replaceNewline name, m, i, c⟩ else g.vertices[v]? := by
  unfold addVertex size
  by_cases hv : v = g.vertices.length
  · subst hv
    simp
  · rw [if_neg hv]
    rcases Nat.lt_or_gt_of_ne hv with hlt | hgt
    · rw [List.getElem?_append_left hlt]
    · rw [List.getElem?_eq_none (by simp; omega), List.getElem?_eq_none (by omega)]

@[simp] theorem vertices_addEdge (g : Graph) (s t : Nat) : (g.addEdge s t).vertices = g.vertices :=
  rfl

theorem contents_of_vertex {g : Graph} {v : Nat} {w : Vertex} (h : g.vertices[v]? = some w) :
    g.contents v = some w.contents := by
  unfold contents
  rw [h]
  rfl

/-- The first vertex with these ids. -/
theorem findVertex_eq {g : Graph} {machineId vertexId v : Nat} {w : Vertex}
    (hv : g.vertices[v]? = some w) (hm : w.machineId = machineId) (hi : w.vertexId = vertexId)
    (hfirst : ∀ v' w', v' < v → g.vertices[v']? = some w' →
      ¬ (w'.machineId = machineId ∧ w'.vertexId = vertexId)) :
    g.findVertex machineId vertexId = .ok v := by
  obtain ⟨hlt, hget⟩ := List.getElem?_eq_some_iff.mp hv
  have hfind : g.vertices.findIdx? (fun v => v.machineId = machineId ∧ v.vertexId = vertexId)
      = some v := by
    refine List.findIdx?_eq_some_iff_getElem.mpr ⟨hlt, ?_, fun j hj => ?_⟩
    · rw [hget]
      exact decide_eq_true ⟨hm, hi⟩
    · have hnot := hfirst j _ hj (List.getElem?_eq_getElem (by omega))
      simpa using hnot
  unfold findVertex
  rw [hfind]

end Graph

/-! ## The builder -/

/-- The graph while the machine at its end is built, behind the vertices of `g₀`. -/
structure Building (g₀ g : Graph) (offset machineId : Nat) (machine : Text)
    (states : List Identifier) (blocks : List ResolvedBlock) : Prop where
  shape : Shape g offset machineId machine states blocks
  size : g.size = offset + machineSize states blocks
  earlier : ∀ v w, v < offset → g.vertices[v]? = some w → w.machineId < machineId
  below : ∀ v, v < offset → g.vertices[v]? = g₀.vertices[v]? ∧ g.adjacent v = g₀.adjacent v
  bounded : g.Bounded

/-- The second graph has the first one in it, below its number of vertices. -/
structure Extends (g g' : Graph) : Prop where
  size : g.size ≤ g'.size
  vertices : ∀ v, v < g.size → g'.vertices[v]? = g.vertices[v]?

theorem Extends.refl (g : Graph) : Extends g g := ⟨Nat.le_refl _, fun _ _ => rfl⟩

theorem Extends.trans {g g' g'' : Graph} (h : Extends g g') (h' : Extends g' g'') :
    Extends g g'' :=
  ⟨h.size.trans h'.size, fun v hv =>
    (h'.vertices v (Nat.lt_of_lt_of_le hv h.size)).trans (h.vertices v hv)⟩

theorem extends_addVertex (g : Graph) (name : Text) (m i : Nat) (c : Contents) :
    Extends g (g.addVertex name m i c) := by
  refine ⟨by rw [Graph.size_addVertex]; omega, fun v hv => ?_⟩
  rw [Graph.vertices_addVertex, if_neg (by omega)]

theorem extends_addEdge (g : Graph) (s t : Nat) : Extends g (g.addEdge s t) :=
  ⟨Nat.le_refl _, fun _ _ => rfl⟩

theorem Extends.machineId_lt {g g' : Graph} (h : Extends g g') {m : Nat}
    (hlt : ∀ v w, v < g.size → g.vertices[v]? = some w → w.machineId < m) :
    ∀ v w, v < g.size → g'.vertices[v]? = some w → w.machineId < m := by
  intro v w hv hw
  rw [h.vertices v hv] at hw
  exact hlt v w hv hw

/-- The states of a machine. -/
theorem addStates_spec (g : Graph) (machineId : Nat) (machine : Text)
    (states : List Identifier) :
    Extends g (addStates g machineId machine states) ∧
      (addStates g machineId machine states).size = g.size + states.length ∧
      (addStates g machineId machine states).edges = g.edges ∧
      (∀ k s, states[k]? = some s →
        (addStates g machineId machine states).vertices[g.size + k]? =
          some ⟨replaceNewline (stateVertexName machineId k machine s), machineId, k, .state⟩) := by
  induction states using List.reverseRecOn with
  | nil => exact ⟨Extends.refl g, rfl, rfl, fun k s hs => by simp at hs⟩
  | append_singleton states s ih =>
    obtain ⟨hext, hsize, hedges, hstates⟩ := ih
    have hstep : addStates g machineId machine (states ++ [s]) =
        (addStates g machineId machine states).addVertex
          (stateVertexName machineId states.length machine s) machineId states.length .state := by
      unfold addStates
      rw [List.zipIdx_append, List.foldl_append]
      simp
    rw [hstep]
    refine ⟨hext.trans (extends_addVertex ..), ?_, hedges, ?_⟩
    · rw [Graph.size_addVertex, hsize, List.length_append, List.length_singleton]
      omega
    · intro k t ht
      rw [Graph.vertices_addVertex, hsize]
      rcases Nat.lt_trichotomy k states.length with hk | rfl | hk
      · rw [List.getElem?_append_left hk] at ht
        rw [if_neg (by omega), hstates k t ht]
      · rw [List.getElem?_concat_length] at ht
        rw [if_pos rfl, Option.some.inj ht]
      · rw [List.getElem?_eq_none (by simp; omega)] at ht
        cases ht

theorem building_addStates {g : Graph} {machineId : Nat} (machine : Text)
    (states : List Identifier) (hb : g.Bounded)
    (hearlier : ∀ v w, v < g.size → g.vertices[v]? = some w → w.machineId < machineId) :
    Building g (addStates g machineId machine states) g.size machineId machine states [] := by
  obtain ⟨hext, hsize, hedges, hstates⟩ := addStates_spec g machineId machine states
  refine ⟨⟨hstates, ?_, ?_, ?_, ?_, ?_, ?_⟩, hsize, hext.machineId_lt hearlier, ?_, ?_⟩
  · exact fun j b hb => by simp at hb
  · exact fun j b hb => by simp at hb
  · intro k _
    have hnew : g.adjacent (g.size + k) = [] := hb.adjacent_eq_nil (by omega)
    unfold Graph.adjacent at hnew ⊢
    rw [hedges, hnew]
    rfl
  · exact fun j b hb => by simp at hb
  · exact fun j b hb => by simp at hb
  · exact fun b hb => by simp at hb
  · refine fun v hv => ⟨hext.vertices v hv, ?_⟩
    unfold Graph.adjacent
    rw [hedges]
  · intro e he
    rw [hedges] at he
    obtain ⟨h1, h2⟩ := hb e he
    omega

/-- The vertex that `find_vertex` finds for a state. -/
theorem Building.findVertex_state {g₀ g g' : Graph} {offset machineId : Nat} {machine : Text}
    {states : List Identifier} {blocks : List ResolvedBlock}
    (h : Building g₀ g offset machineId machine states blocks) (hext : Extends g g') {k : Nat}
    (hk : k < states.length) : g'.findVertex machineId k = .ok (offset + k) := by
  have hsize := h.size
  unfold machineSize at hsize
  have hstate : ∀ i (hi : i < states.length), g'.vertices[offset + i]? =
      some ⟨replaceNewline (stateVertexName machineId i machine states[i]), machineId, i,
        .state⟩ := by
    intro i hi
    rw [hext.vertices _ (by omega)]
    exact h.shape.state i _ (List.getElem?_eq_getElem hi)
  refine Graph.findVertex_eq (hstate k hk) rfl rfl fun v w hv hw => ?_
  rintro ⟨hm, hi⟩
  rcases Nat.lt_or_ge v offset with hlt | hge
  · rw [hext.vertices v (by omega)] at hw
    have := h.earlier v w hlt hw
    omega
  · obtain ⟨i, rfl⟩ := Nat.exists_eq_add_of_le hge
    rw [hstate i (by omega)] at hw
    rw [← Option.some.inj hw] at hi
    simp only at hi
    omega

variable (fp : FloatPrinter)

/-- The graph that a guarded block leaves. -/
def blockGraph (g : Graph) (machineId count source target : Nat) (label : Text)
    (block : GuardedCommandBlockDoc) : Graph :=
  ((((g.addVertex (label ++ block.condition.print fp ++ [')']) machineId count
    (.cond block.condition)).addEdge source g.size).addVertex (block.commandBlock.print fp)
    machineId count (.command block.commandBlock)).addEdge g.size (g.size + 1)).addEdge
    (g.size + 1) target

theorem size_blockGraph (g : Graph) (machineId count source target : Nat) (label : Text)
    (block : GuardedCommandBlockDoc) :
    (blockGraph fp g machineId count source target label block).size = g.size + 2 := by
  unfold blockGraph
  simp only [Graph.size_addEdge, Graph.size_addVertex]

theorem vertices_blockGraph (g : Graph) (machineId count source target : Nat) (label : Text)
    (block : GuardedCommandBlockDoc) (v : Nat) :
    (blockGraph fp g machineId count source target label block).vertices[v]?
      = if v = g.size + 1 then some ⟨replaceNewline (block.commandBlock.print fp), machineId, count,
          .command block.commandBlock⟩
        else if v = g.size then some ⟨replaceNewline (label ++ block.condition.print fp ++ [')']),
          machineId, count, .cond block.condition⟩
        else g.vertices[v]? := by
  unfold blockGraph
  simp only [Graph.vertices_addEdge, Graph.vertices_addVertex, Graph.size_addEdge,
    Graph.size_addVertex]

theorem adjacent_blockGraph (g : Graph) (machineId count source target : Nat) (label : Text)
    (block : GuardedCommandBlockDoc) (v : Nat) :
    (blockGraph fp g machineId count source target label block).adjacent v
      = g.adjacent v ++ (if v = source then [g.size] else [])
        ++ (if v = g.size then [g.size + 1] else [])
        ++ (if v = g.size + 1 then [target] else []) := by
  unfold blockGraph
  simp only [Graph.adjacent_addEdge, Graph.adjacent_addVertex]

theorem bounded_blockGraph {g : Graph} (hb : g.Bounded) (machineId count : Nat)
    {source target : Nat} (hs : source < g.size) (ht : target < g.size) (label : Text)
    (block : GuardedCommandBlockDoc) :
    (blockGraph fp g machineId count source target label block).Bounded := by
  unfold blockGraph
  refine ((((hb.addVertex _ _ _ _).addEdge ?_ ?_).addVertex _ _ _ _).addEdge ?_ ?_).addEdge ?_ ?_
  all_goals
    simp only [Graph.size_addEdge, Graph.size_addVertex]
    omega

theorem extends_blockGraph (g : Graph) (machineId count source target : Nat) (label : Text)
    (block : GuardedCommandBlockDoc) :
    Extends g (blockGraph fp g machineId count source target label block) :=
  ((((extends_addVertex ..).trans (extends_addEdge ..)).trans (extends_addVertex ..)).trans
    (extends_addEdge ..)).trans (extends_addEdge ..)

/-- **A guarded block** joins the machine at the end of the graph. -/
theorem Building.blockGraph {g₀ g : Graph} {offset machineId : Nat} {machine : Text}
    {states : List Identifier} {blocks : List ResolvedBlock}
    (h : Building g₀ g offset machineId machine states blocks) {b : ResolvedBlock}
    (horigin : b.origin < states.length) (htarget : b.target < states.length) (label : Text) :
    Building g₀ (blockGraph fp g machineId blocks.length (offset + b.origin) (offset + b.target)
      label b.block) offset machineId machine states (blocks ++ [b]) := by
  have hsize := h.size
  unfold machineSize at hsize
  have hext := extends_blockGraph fp g machineId blocks.length (offset + b.origin)
    (offset + b.target) label b.block
  have hnew : ∀ v, g.size ≤ v → g.adjacent v = [] := fun v hv => h.bounded.adjacent_eq_nil hv
  have hlast : ∀ j c, (blocks ++ [b])[j]? = some c →
      (j < blocks.length ∧ blocks[j]? = some c) ∨ (j = blocks.length ∧ c = b) := by
    intro j c hc
    rcases Nat.lt_trichotomy j blocks.length with hj | rfl | hj
    · rw [List.getElem?_append_left hj] at hc
      exact .inl ⟨hj, hc⟩
    · rw [List.getElem?_concat_length] at hc
      exact .inr ⟨rfl, (Option.some.inj hc).symm⟩
    · rw [List.getElem?_eq_none (by simp; omega)] at hc
      cases hc
  constructor
  case size =>
    rw [size_blockGraph, hsize]
    unfold machineSize
    rw [List.length_append, List.length_singleton]
    omega
  case earlier =>
    intro v w hv hw
    rw [hext.vertices v (by omega)] at hw
    exact h.earlier v w hv hw
  case below =>
    intro v hv
    obtain ⟨hvertex, hadjacent⟩ := h.below v hv
    refine ⟨(hext.vertices v (by omega)).trans hvertex, ?_⟩
    rw [adjacent_blockGraph, if_neg (by omega), if_neg (by omega), if_neg (by omega),
      List.append_nil, List.append_nil, List.append_nil]
    exact hadjacent
  case bounded => exact bounded_blockGraph fp h.bounded _ _ (by omega) (by omega) _ _
  case shape =>
    constructor
    case state =>
      intro k s hs
      have hk := (List.getElem?_eq_some_iff.mp hs).1
      rw [hext.vertices _ (by omega)]
      exact h.shape.state k s hs
    case cond =>
      intro j c hc
      rcases hlast j c hc with ⟨hj, hc⟩ | ⟨rfl, rfl⟩
      · rw [hext.vertices _ (by omega)]
        exact h.shape.cond j c hc
      · refine ⟨_, plainName_label label (c.block.condition.print fp), ?_⟩
        rw [vertices_blockGraph, if_neg (by omega), if_pos (by omega)]
    case command =>
      intro j c hc
      rcases hlast j c hc with ⟨hj, hc⟩ | ⟨rfl, rfl⟩
      · rw [hext.vertices _ (by omega)]
        exact h.shape.command j c hc
      · refine ⟨_, plainName_block fp c.block.commandBlock, ?_⟩
        rw [vertices_blockGraph, if_pos (by omega)]
    case ofState =>
      intro k hk
      rw [adjacent_blockGraph, h.shape.ofState k hk, clauseNumbers_append, List.map_append,
        if_neg (by omega : ¬ offset + k = g.size), if_neg (by omega : ¬ offset + k = g.size + 1),
        List.append_nil, List.append_nil]
      congr 1
      by_cases hkb : b.origin = k
      · rw [if_pos (by omega), if_pos hkb, List.map_singleton, hsize, Nat.add_assoc]
      · rw [if_neg (by omega), if_neg hkb]
        rfl
    case ofCond =>
      intro j c hc
      rw [adjacent_blockGraph, if_neg (by omega : ¬ _ = offset + b.origin)]
      rcases hlast j c hc with ⟨hj, hc⟩ | ⟨rfl, rfl⟩
      · rw [h.shape.ofCond j c hc, if_neg (by omega), if_neg (by omega)]
        rfl
      · rw [hnew _ (by omega), if_pos (by omega), if_neg (by omega)]
        show [g.size + 1] = _
        rw [hsize, Nat.add_assoc offset states.length]
    case ofCommand =>
      intro j c hc
      rw [adjacent_blockGraph, if_neg (by omega : ¬ _ = offset + b.origin)]
      rcases hlast j c hc with ⟨hj, hc⟩ | ⟨rfl, rfl⟩
      · rw [h.shape.ofCommand j c hc, if_neg (by omega), if_neg (by omega)]
        rfl
      · rw [hnew _ (by omega), if_neg (by omega), if_pos (by omega)]
        rfl
    case inRange =>
      intro c hc
      rcases List.mem_append.mp hc with hc | hc
      · exact h.shape.inRange c hc
      · rw [List.mem_singleton.mp hc]
        exact ⟨horigin, htarget⟩

theorem findState_lt {sm : StatemachineDoc} {name : Identifier} {k : Nat}
    (h : sm.findState name = some k) : k < sm.stateset.length :=
  (List.findIdx?_eq_some_iff_getElem.mp h).1

/-- The blocks that the builder has been over, all with their states found. -/
structure Progress (g₀ : Graph) (sm : StatemachineDoc) (offset machineId : Nat)
    (entries : List (Identifier × GuardedCommandBlockDoc)) (state : Graph × Nat) : Prop where
  found : (entries.filterMap sm.resolve).length = entries.length
  count : state.2 = entries.length
  building : Building g₀ state.1 offset machineId sm.name sm.stateset (entries.filterMap sm.resolve)

variable {fp} {g₀ : Graph} {sm : StatemachineDoc} {offset machineId originating : Nat} {name : Identifier}
  {entries : List (Identifier × GuardedCommandBlockDoc)} {state state' : Graph × Nat}

/-- The visitor on one guarded block. -/
theorem Progress.addGuardedBlock {label : Nat → Text} {block : GuardedCommandBlockDoc}
    (h : Progress g₀ sm offset machineId entries state)
    (horigin : sm.findState name = some originating)
    (hrun : addGuardedBlock fp sm machineId originating label state block = .ok state') :
    Progress g₀ sm offset machineId (entries ++ [(name, block)]) state' := by
  obtain ⟨g, count⟩ := state
  obtain ⟨hfound, hcount, hbuilding⟩ := h
  simp only at hcount
  subst hcount
  unfold Hbc.addGuardedBlock at hrun
  cases htarget : sm.findState block.commandBlock.gotoCommand.targetState with
  | none =>
    simp only [htarget] at hrun
    cases hrun
  | some target =>
    have hcond := extends_addVertex g (label entries.length ++ block.condition.print fp ++ [')'])
      machineId entries.length (.cond block.condition)
    have hcommand := (hcond.trans (extends_addEdge _ (offset + originating) g.size)).trans
      (extends_addVertex _ (block.commandBlock.print fp) machineId entries.length
        (.command block.commandBlock))
    have hfrom := hbuilding.findVertex_state hcond (findState_lt horigin)
    have hto := hbuilding.findVertex_state
      (hcommand.trans (extends_addEdge _ g.size (g.size + 1))) (findState_lt htarget)
    simp only [htarget, hfrom, bind, Except.bind, Graph.size_addEdge, Graph.size_addVertex,
      hto, pure, Except.pure] at hrun
    have hresolve : sm.resolve (name, block) = some ⟨originating, target, block⟩ := by
      unfold StatemachineDoc.resolve
      simp only [horigin, htarget]
    have hentries : (entries ++ [(name, block)]).filterMap sm.resolve =
        entries.filterMap sm.resolve ++ [⟨originating, target, block⟩] := by
      rw [List.filterMap_append]
      simp [hresolve]
    rw [← Except.ok.inj hrun]
    constructor
    case found => rw [hentries, List.length_append, hfound, List.length_append]; rfl
    case count => rw [List.length_append]; rfl
    case building =>
      rw [hentries, ← hfound]
      exact hbuilding.blockGraph fp (b := ⟨originating, target, block⟩) (findState_lt horigin)
        (findState_lt htarget) (label _)

/-- The visitor on blocks of one state. -/
theorem Progress.addGuardedBlocks {label : Nat → Text} {blocks : List GuardedCommandBlockDoc}
    (h : Progress g₀ sm offset machineId entries state)
    (horigin : sm.findState name = some originating)
    (hrun : blocks.foldlM (Hbc.addGuardedBlock fp sm machineId originating label) state
      = .ok state') :
    Progress g₀ sm offset machineId (entries ++ blocks.map fun block => (name, block)) state' := by
  induction blocks generalizing entries state with
  | nil =>
    cases hrun
    rwa [List.map_nil, List.append_nil]
  | cons block blocks ih =>
    rw [List.foldlM_cons] at hrun
    obtain ⟨state₁, hfirst, hrest⟩ := bind_ok_iff.mp hrun
    have hall := ih (h.addGuardedBlock horigin hfirst) hrest
    rwa [List.append_assoc] at hall

/-- The visitor on an `if` with its `else if`s. -/
theorem Progress.addIfClause {clause : IfClauseDoc}
    (h : Progress g₀ sm offset machineId entries state)
    (horigin : sm.findState name = some originating)
    (hrun : addIfClause fp sm machineId originating state clause = .ok state') :
    Progress g₀ sm offset machineId (entries ++ (clause.ifBlock :: clause.elseIfBlocks).map
      fun block => (name, block)) state' := by
  unfold Hbc.addIfClause at hrun
  obtain ⟨state₁, hfirst, hrest⟩ := bind_ok_iff.mp hrun
  have hall := (h.addGuardedBlock horigin hfirst).addGuardedBlocks horigin hrest
  rwa [List.append_assoc] at hall

/-- The visitor on an `in` clause. -/
theorem Progress.addInClause {clause : InClauseDoc}
    (h : Progress g₀ sm offset machineId entries state)
    (hrun : addInClause fp sm machineId state clause = .ok state') :
    Progress g₀ sm offset machineId (entries ++ clause.ifClauses.flatMap fun ifClause =>
      (ifClause.ifBlock :: ifClause.elseIfBlocks).map fun block => (clause.name, block))
      state' := by
  unfold Hbc.addInClause at hrun
  cases horigin : sm.findState clause.name with
  | none =>
    simp only [horigin] at hrun
    cases hrun
  | some originating =>
    simp only [horigin] at hrun
    generalize clause.ifClauses = ifClauses at hrun
    induction ifClauses generalizing entries state with
    | nil =>
      cases hrun
      rwa [List.flatMap_nil, List.append_nil]
    | cons ifClause ifClauses ih =>
      rw [List.foldlM_cons] at hrun
      obtain ⟨state₁, hfirst, hrest⟩ := bind_ok_iff.mp hrun
      have hall := ih (h.addIfClause horigin hfirst) hrest
      rwa [List.append_assoc] at hall

/-- The visitor on the `in` clauses of a machine. -/
theorem Progress.addInClauses {clauses : List InClauseDoc}
    (h : Progress g₀ sm offset machineId entries state)
    (hrun : clauses.foldlM (Hbc.addInClause fp sm machineId) state = .ok state') :
    Progress g₀ sm offset machineId (entries ++ clauses.flatMap fun clause =>
      clause.ifClauses.flatMap fun ifClause =>
        (ifClause.ifBlock :: ifClause.elseIfBlocks).map fun block => (clause.name, block))
      state' := by
  induction clauses generalizing entries state with
  | nil =>
    cases hrun
    rwa [List.flatMap_nil, List.append_nil]
  | cons clause clauses ih =>
    rw [List.foldlM_cons] at hrun
    obtain ⟨state₁, hfirst, hrest⟩ := bind_ok_iff.mp hrun
    have hall := ih (h.addInClause hfirst) hrest
    rwa [List.append_assoc] at hall

/-! ## All machines -/

/-- The machine of a vertex of a machine. -/
theorem Shape.machineId_eq {g : Graph} {machine : Text} {states : List Identifier}
    {blocks : List ResolvedBlock} (h : Shape g offset machineId machine states blocks) {v : Nat}
    {w : Vertex} (hge : offset ≤ v) (hlt : v < offset + machineSize states blocks)
    (hw : g.vertices[v]? = some w) : w.machineId = machineId := by
  unfold machineSize at hlt
  obtain ⟨i, rfl⟩ := Nat.exists_eq_add_of_le hge
  rcases Nat.lt_or_ge i states.length with hi | hi
  · rw [h.state i _ (List.getElem?_eq_getElem hi)] at hw
    rw [← Option.some.inj hw]
  · obtain ⟨j, hj⟩ : ∃ j, i = states.length + 2 * j ∨ i = states.length + 2 * j + 1 :=
      ⟨(i - states.length) / 2, by omega⟩
    have hjlt : j < blocks.length := by omega
    rcases hj with rfl | rfl
    · obtain ⟨name, -, hvertex⟩ := h.cond j _ (List.getElem?_eq_getElem hjlt)
      rw [← Nat.add_assoc, hvertex] at hw
      rw [← Option.some.inj hw]
    · obtain ⟨name, -, hvertex⟩ := h.command j _ (List.getElem?_eq_getElem hjlt)
      rw [← Nat.add_assoc, ← Nat.add_assoc, hvertex] at hw
      rw [← Option.some.inj hw]

/-- A machine of the graph: its shape, and that the vertices of its id are its own. -/
structure MachineAt (g : Graph) (offset machineId : Nat) (sm : StatemachineDoc) : Prop where
  found : sm.resolved.length = sm.guardedBlocks.length
  shape : Shape g offset machineId sm.name sm.stateset sm.resolved
  size : offset + machineSize sm.stateset sm.resolved ≤ g.size
  own : ∀ v w, g.vertices[v]? = some w →
    (w.machineId = machineId ↔ offset ≤ v ∧ v < offset + machineSize sm.stateset sm.resolved)

/-- The machines that the builder has been over. -/
structure Built (done : HbcDoc) (state : Graph × List MachineDescriptor) : Prop where
  descriptors : state.2 = done.map fun sm => ⟨sm.name, sm.readFromFile⟩
  bounded : state.1.Bounded
  known : ∀ (v : Nat) (w : Vertex), state.1.vertices[v]? = some w → w.machineId < done.length
  machine : ∀ m sm, done[m]? = some sm → ∃ offset, MachineAt state.1 offset m sm

theorem Built.firstPass {done : HbcDoc} {state state' : Graph × List MachineDescriptor}
    (h : Built done state) (hrun : firstPass fp state sm = .ok state') :
    Built (done ++ [sm]) state' := by
  obtain ⟨g, machines⟩ := state
  obtain ⟨hdescriptors, hbounded, hknown, hmachine⟩ := h
  simp only at hdescriptors hbounded hknown hmachine
  have hlen : machines.length = done.length := by rw [hdescriptors, List.length_map]
  unfold Hbc.firstPass at hrun
  simp only at hrun
  split at hrun
  · cases hrun
  · split at hrun
    · cases hrun
    · obtain ⟨state₁, hclauses, hend⟩ := bind_ok_iff.mp hrun
      have hstart : Progress g sm g.size machines.length [] (addStates g machines.length sm.name
          sm.stateset, 0) := by
        refine ⟨rfl, rfl, building_addStates sm.name sm.stateset hbounded fun v w _ hw => ?_⟩
        rw [hlen]
        exact hknown v w hw
      obtain ⟨g₁, n⟩ := state₁
      cases hend
      have hprogress : Progress g sm g.size machines.length sm.guardedBlocks (g₁, n) :=
        hstart.addInClauses hclauses
      have hfound := hprogress.found
      have hbuilding : Building g g₁ g.size machines.length sm.name sm.stateset sm.resolved :=
        hprogress.building
      have hsize : g₁.size = g.size + machineSize sm.stateset sm.resolved := hbuilding.size
      constructor
      case descriptors =>
        rw [List.map_append, ← hdescriptors]
        rfl
      case bounded => exact hbuilding.bounded
      case known =>
        intro v w hw
        rw [List.length_append, List.length_singleton]
        rcases Nat.lt_or_ge v g.size with hv | hv
        · have := hbuilding.earlier v w hv hw
          omega
        · have hlt : v < g₁.size := (List.getElem?_eq_some_iff.mp hw).1
          have := hbuilding.shape.machineId_eq hv (by omega) hw
          omega
      case machine =>
        intro m sm' hm
        rcases Nat.lt_trichotomy m done.length with hlt | rfl | hgt
        · rw [List.getElem?_append_left hlt] at hm
          obtain ⟨offset, hat⟩ := hmachine m sm' hm
          have hin := hat.size
          refine ⟨offset, hat.found, ?_, ?_, ?_⟩
          · exact hat.shape.frame fun v _ hv => hbuilding.below v (by omega)
          · show _ ≤ g₁.size
            omega
          · intro v w hw
            rcases Nat.lt_or_ge v g.size with hv | hv
            · rw [(hbuilding.below v hv).1] at hw
              exact hat.own v w hw
            · have hv' : v < g₁.size := (List.getElem?_eq_some_iff.mp hw).1
              have := hbuilding.shape.machineId_eq hv (by omega) hw
              omega
        · rw [List.getElem?_concat_length] at hm
          obtain rfl := Option.some.inj hm
          refine ⟨g.size, hfound, ?_, ?_, ?_⟩
          · rw [← hlen]
            exact hbuilding.shape
          · exact Nat.le_of_eq hsize.symm
          · intro v w hw
            have hv' : v < g₁.size := (List.getElem?_eq_some_iff.mp hw).1
            rw [← hlen]
            constructor
            · intro hm
              rcases Nat.lt_or_ge v g.size with hv | hv
              · have := hbuilding.earlier v w hv hw
                omega
              · exact ⟨hv, hsize ▸ hv'⟩
            · rintro ⟨hv, hv'⟩
              exact hbuilding.shape.machineId_eq hv hv' hw
        · rw [List.getElem?_eq_none (by simp; omega)] at hm
          cases hm

/-- **The graph of a program**: every machine, in its place. -/
theorem built_graphBuilder {hbc : HbcDoc} {state : Graph × List MachineDescriptor}
    (hrun : graphBuilder fp hbc = .ok state) : Built hbc state := by
  have hinv := @foldlM_invariant _ _ _ (firstPass fp) (fun done state => Built done state)
    (fun done sm state state' h hstep => h.firstPass hstep) [] hbc _ _ ?_ hrun
  · exact hinv
  · exact ⟨rfl, fun e he => absurd he List.not_mem_nil, fun v w hw => by simp [Graph.empty] at hw,
      fun m sm hm => by simp at hm⟩

end Hexabus.Hbc
