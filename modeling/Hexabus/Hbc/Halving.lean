import Hexabus.Hbc.Preservation
import Hexabus.Hbc.Slices

/-!
# Conditions with `or`

What `expandComplexConditions` makes of the graph of a machine: a condition vertex with an
`or` keeps the first part, and the second part gets a condition vertex and a command vertex
at the end of the graph, and an edge behind all other edges of its state. Every other
vertex stays as it is, also where its condition is an `and` or the part of an `or` is
compound itself.
-/

namespace Hexabus.Hbc

open Lib.Folds

/-! ## The graphs the pass runs on -/

/-- The graph of one machine, with the vertices numbered in the order of the source. -/
structure MachineGraph (g : Graph) : Prop where
  wellFormed : WellFormed g
  origin : ∀ c condition, g.contents c = some (.cond condition) →
    ∃ u, g.invAdjacent c = [u] ∧ g.contents u = some .state ∧ g.machineOf u = g.machineOf c
  ordered : ∀ u, (g.adjacent u).Pairwise (· < ·)
  distinct : ∀ (c c' : Nat) (w w' : Vertex) condition condition', g.vertices[c]? = some w →
    g.vertices[c']? = some w' → w.contents = .cond condition → w'.contents = .cond condition' →
    w.machineId = w'.machineId → w.vertexId = w'.vertexId → c = c'

theorem Graph.count_invAdjacent (g : Graph) (s t : Nat) :
    (g.invAdjacent t).count s = (g.adjacent s).count t := by
  unfold invAdjacent adjacent
  generalize g.edges = edges
  induction edges with
  | nil => rfl
  | cons e edges ih =>
    obtain ⟨a, b⟩ := e
    rw [List.filterMap_cons, List.filterMap_cons]
    by_cases ha : a = s <;> by_cases hb : b = t <;> simp [ha, hb, ih]

theorem Graph.mem_invAdjacent {g : Graph} {s t : Nat} :
    s ∈ g.invAdjacent t ↔ t ∈ g.adjacent s := by
  rw [← List.count_pos_iff, ← List.count_pos_iff, count_invAdjacent]

/-- A list in which only one element comes, and once. -/
theorem eq_singleton_of_count {l : List Nat} {u : Nat}
    (h : ∀ v, l.count v = if v = u then 1 else 0) : l = [u] := by
  have hperm : l.Perm [u] := by
    rw [List.perm_iff_count]
    intro v
    rw [h v, List.count_singleton]
    by_cases hv : v = u
    · rw [if_pos hv, hv, beq_self_eq_true, if_pos rfl]
    · rw [if_neg hv, beq_eq_false_iff_ne.mpr (Ne.symm hv), if_neg Bool.false_ne_true]
  exact List.perm_singleton.mp hperm

/-- **The slice of a machine** is a machine graph. -/
theorem Slice.machineGraph {g : Graph} {machineId : Nat} {sm : StatemachineDoc}
    {blocks : List ResolvedBlock} (h : Slice g machineId sm blocks) : MachineGraph g := by
  obtain ⟨hshape, hsize, hbounded⟩ := h
  have hin : machineSize sm.stateset blocks = sm.stateset.length + 2 * blocks.length := rfl
  have hcases : ∀ v, v < g.size → (v < sm.stateset.length) ∨ ∃ j b, blocks[j]? = some b ∧
      (v = 0 + sm.stateset.length + 2 * j ∨ v = 0 + sm.stateset.length + 2 * j + 1) := by
    intro v hv
    rcases @vertex_cases 0 sm.stateset blocks v (Nat.zero_le v) (by omega) with ⟨k, hk, rfl⟩ | h
    · exact .inl (by omega)
    · exact .inr h
  have hstate : ∀ k, k < sm.stateset.length → g.contents k = some .state ∧
      g.machineOf k = machineId := by
    intro k hk
    have hw := hshape.state k _ (List.getElem?_eq_getElem hk)
    rw [Nat.zero_add] at hw
    unfold Graph.machineOf
    rw [hw]
    exact ⟨Graph.contents_of_vertex hw, rfl⟩
  have hcond : ∀ j b, blocks[j]? = some b →
      g.contents (0 + sm.stateset.length + 2 * j) = some (.cond b.block.condition) ∧
      g.machineOf (0 + sm.stateset.length + 2 * j) = machineId := by
    intro j b hb
    obtain ⟨name, -, hw⟩ := hshape.cond j b hb
    unfold Graph.machineOf
    rw [hw]
    exact ⟨Graph.contents_of_vertex hw, rfl⟩
  have hcommand : ∀ j b, blocks[j]? = some b →
      g.contents (0 + sm.stateset.length + 2 * j + 1) = some (.command b.block.commandBlock) := by
    intro j b hb
    obtain ⟨name, -, hw⟩ := hshape.command j b hb
    exact Graph.contents_of_vertex hw
  have hadjacent : ∀ k, k < sm.stateset.length → g.adjacent k =
      (clauseNumbers blocks k).map fun j => 0 + sm.stateset.length + 2 * j := by
    intro k hk
    have h := hshape.ofState k hk
    rwa [Nat.zero_add k] at h
  -- a condition vertex is that of a block
  have hofCond : ∀ c condition, g.contents c = some (.cond condition) → ∃ j b,
      blocks[j]? = some b ∧ c = 0 + sm.stateset.length + 2 * j ∧ condition = b.block.condition := by
    intro c condition hc
    rcases hcases c (Graph.contents_lt hc) with hk | ⟨j, b, hb, rfl | rfl⟩
    · rw [(hstate c hk).1] at hc
      cases hc
    · rw [(hcond j b hb).1] at hc
      cases hc
      exact ⟨j, b, hb, rfl, rfl⟩
    · rw [hcommand j b hb] at hc
      cases hc
  constructor
  case wellFormed =>
    constructor
    case bounded => exact hbounded
    case ofState =>
      intro v hv c hc
      rcases hcases v (Graph.contents_lt hv) with hk | ⟨j, b, hb, rfl | rfl⟩
      · rw [hadjacent v hk] at hc
        obtain ⟨j, hj, rfl⟩ := List.mem_map.mp hc
        obtain ⟨b, hb, -⟩ := mem_clauseNumbers.mp hj
        exact ⟨_, (hcond j b hb).1⟩
      · rw [(hcond j b hb).1] at hv
        cases hv
      · rw [hcommand j b hb] at hv
        cases hv
    case ofCond =>
      intro c condition hc
      obtain ⟨j, b, hb, rfl, rfl⟩ := hofCond c condition hc
      exact ⟨_, _, hshape.ofCond j b hb, hcommand j b hb⟩
    case ofCommand =>
      intro v block hv
      rcases hcases v (Graph.contents_lt hv) with hk | ⟨j, b, hb, rfl | rfl⟩
      · rw [(hstate v hk).1] at hv
        cases hv
      · rw [(hcond j b hb).1] at hv
        cases hv
      · refine ⟨_, hshape.ofCommand j b hb, ?_⟩
        rw [Nat.zero_add]
        exact (hstate _ (hshape.inRange b (List.mem_of_getElem? hb)).2).1
  case origin =>
    intro c condition hc
    obtain ⟨j, b, hb, rfl, rfl⟩ := hofCond c condition hc
    have horigin := (hshape.inRange b (List.mem_of_getElem? hb)).1
    have hj := (List.getElem?_eq_some_iff.mp hb).1
    refine ⟨b.origin, eq_singleton_of_count fun v => ?_, (hstate _ horigin).1, ?_⟩
    · rw [Graph.count_invAdjacent]
      rcases Nat.lt_or_ge v g.size with hv | hv
      · rcases hcases v hv with hk | ⟨j', b', hb', rfl | rfl⟩
        · -- the condition comes once, in the list of its own state
          rw [hadjacent v hk]
          have hinj : Function.Injective fun j => 0 + sm.stateset.length + 2 * j := by
            intro a b hab
            simp only at hab
            omega
          have hcount := List.count_map_of_injective (clauseNumbers blocks v)
            (fun j => 0 + sm.stateset.length + 2 * j) hinj j
          rw [hcount]
          have hnodup := (pairwise_clauseNumbers blocks v).imp fun h => Nat.ne_of_lt h
          by_cases hvo : v = b.origin
          · rw [if_pos hvo]
            exact List.count_eq_one_of_mem hnodup (mem_clauseNumbers.mpr ⟨b, hb, hvo.symm⟩)
          · rw [if_neg hvo]
            refine List.count_eq_zero.mpr fun hmem => hvo ?_
            obtain ⟨b', hb', ho⟩ := mem_clauseNumbers.mp hmem
            rw [hb] at hb'
            rw [Option.some.inj hb', ho]
        · rw [hshape.ofCond j' b' hb', if_neg (by omega)]
          exact List.count_eq_zero.mpr fun hmem => by
            have := List.mem_singleton.mp hmem
            omega
        · rw [hshape.ofCommand j' b' hb', if_neg (by omega)]
          have := (hshape.inRange b' (List.mem_of_getElem? hb')).2
          exact List.count_eq_zero.mpr fun hmem => by
            have := List.mem_singleton.mp hmem
            omega
      · rw [hbounded.adjacent_eq_nil hv, if_neg (by omega)]
        rfl
    · rw [(hstate _ horigin).2, (hcond j b hb).2]
  case ordered =>
    intro u
    rcases Nat.lt_or_ge u g.size with hu | hu
    · rcases hcases u hu with hk | ⟨j, b, hb, rfl | rfl⟩
      · rw [hadjacent u hk]
        refine List.pairwise_map.mpr ((pairwise_clauseNumbers blocks u).imp fun h => ?_)
        omega
      · rw [hshape.ofCond j b hb]
        exact List.pairwise_singleton _ _
      · rw [hshape.ofCommand j b hb]
        exact List.pairwise_singleton _ _
    · rw [hbounded.adjacent_eq_nil hu]
      exact List.Pairwise.nil
  case distinct =>
    intro c c' w w' condition condition' hw hw' hc hc' _ hid
    have hcontents : g.contents c = some (.cond condition) := by
      rw [Graph.contents_of_vertex hw, hc]
    have hcontents' : g.contents c' = some (.cond condition') := by
      rw [Graph.contents_of_vertex hw', hc']
    obtain ⟨j, b, hb, rfl, -⟩ := hofCond c condition hcontents
    obtain ⟨j', b', hb', rfl, -⟩ := hofCond c' condition' hcontents'
    obtain ⟨name, -, hv⟩ := hshape.cond j b hb
    obtain ⟨name', -, hv'⟩ := hshape.cond j' b' hb'
    rw [hv] at hw
    rw [hv'] at hw'
    rw [← Option.some.inj hw, ← Option.some.inj hw'] at hid
    simp only at hid
    rw [hid]

/-! ## The parts of an `or` -/

/-- What a condition vertex keeps. -/
def ConditionDoc.firstPart : ConditionDoc → ConditionDoc
  | .compound conditionA .or _ => conditionA
  | condition => condition

/-- What gets a vertex of its own. -/
def ConditionDoc.secondPart : ConditionDoc → Option ConditionDoc
  | .compound _ .or conditionB => some conditionB
  | _ => none

/-- The contents that a vertex keeps. -/
def Contents.halve : Contents → Contents
  | .cond condition => .cond condition.firstPart
  | contents => contents

namespace Graph

variable (g : Graph)

/-- The second part of the vertex's condition, if that is an `or`. -/
def splits (v : Nat) : Option ConditionDoc :=
  match g.contents v with
  | some (.cond condition) => condition.secondPart
  | _ => none

/-- How many vertices before this one are split. -/
def splitsBefore (v : Nat) : Nat := (List.range v).countP fun c => (g.splits c).isSome

/-- The vertex of a condition's second part. -/
def newCond (v : Nat) : Nat := g.size + 2 * g.splitsBefore v

theorem splitsBefore_succ (v : Nat) :
    g.splitsBefore (v + 1) = g.splitsBefore v + if (g.splits v).isSome then 1 else 0 := by
  unfold splitsBefore
  rw [List.range_succ, List.countP_append, List.countP_singleton]

theorem splitsBefore_mono {v w : Nat} (h : v ≤ w) : g.splitsBefore v ≤ g.splitsBefore w := by
  induction h with
  | refl => exact Nat.le_refl _
  | step _ ih =>
    rw [splitsBefore_succ]
    omega

variable {g}

/-- The new vertices of different conditions are different. -/
theorem newCond_lt {v w : Nat} (hv : (g.splits v).isSome) (hlt : v < w) :
    g.newCond v + 2 ≤ g.newCond w := by
  have hmono := g.splitsBefore_mono (show v + 1 ≤ w from hlt)
  rw [splitsBefore_succ, if_pos hv] at hmono
  unfold newCond
  omega

theorem splits_eq_some {v : Nat} {b : ConditionDoc} (h : g.splits v = some b) :
    ∃ a, g.contents v = some (.cond (.compound a .or b)) := by
  unfold splits at h
  split at h
  · rename_i condition hc
    cases condition with
    | compound a op b' =>
      cases op with
      | or =>
        cases h
        exact ⟨a, hc⟩
      | and => cases h
    | _ => cases h
  · cases h

theorem splits_of_contents {v : Nat} {condition : ConditionDoc}
    (h : g.contents v = some (.cond condition)) : g.splits v = condition.secondPart := by
  unfold splits
  rw [h]

/-- `inv_adjacent_vertices` after an edge is added. -/
theorem invAdjacent_addEdge (g : Graph) (s t v : Nat) :
    (g.addEdge s t).invAdjacent v = g.invAdjacent v ++ if v = t then [s] else [] := by
  unfold invAdjacent addEdge
  rw [List.filterMap_append]
  by_cases hv : v = t
  · subst hv
    simp
  · simp [hv, Ne.symm hv]

@[simp] theorem invAdjacent_addVertex (g : Graph) (name : Text) (m i : Nat) (c : Contents)
    (v : Nat) : (g.addVertex name m i c).invAdjacent v = g.invAdjacent v := rfl

@[simp] theorem invAdjacent_setVertex (g : Graph) (w : Nat) (name : Text) (c : Contents)
    (v : Nat) : (g.setVertex w name c).invAdjacent v = g.invAdjacent v := rfl

end Graph

/-! ## One vertex -/

variable (fp : FloatPrinter)

/-- The graph that splitting an `or` leaves. -/
def halvedGraph (g : Graph) (maxId v origin target : Nat) (command : Vertex)
    (conditionA conditionB : ConditionDoc) : Graph :=
  let machine := (g.setVertex v (conditionA.print fp) (.cond conditionA)).machineOf origin
  (((((g.setVertex v (conditionA.print fp) (.cond conditionA)).addVertex (conditionB.print fp)
    machine (maxId + 1) (.cond conditionB)).addVertex command.name machine (maxId + 2)
    command.contents).addEdge origin g.size).addEdge g.size (g.size + 1)).addEdge
    (g.size + 1) target

theorem expandConditionAt_or {g : Graph} {maxId v command origin target : Nat} {w : Vertex}
    {conditionA conditionB : ConditionDoc}
    (hv : g.contents v = some (.cond (.compound conditionA .or conditionB)))
    (hcommand : g.adjacent v = [command]) (horigin : g.invAdjacent v = [origin])
    (hw : g.vertices[command]? = some w) (htarget : g.adjacent command = [target]) :
    expandConditionAt fp (g, maxId) v
      = .ok (halvedGraph fp g maxId v origin target w conditionA conditionB, maxId + 2) := by
  unfold expandConditionAt halvedGraph
  simp only [hv, hcommand, horigin, hw, htarget, Graph.size_addVertex, Graph.size_setVertex]

theorem expandConditionAt_other {g : Graph} {maxId v : Nat} (h : g.splits v = none) :
    expandConditionAt fp (g, maxId) v = .ok (g, maxId) := by
  unfold expandConditionAt
  cases hc : g.contents v with
  | none => simp only [hc]
  | some contents =>
    cases contents with
    | state => simp only [hc]
    | command block => simp only [hc]
    | cond condition =>
      rw [Graph.splits_of_contents hc] at h
      cases condition with
      | compound a op b =>
        cases op with
        | and => simp only [hc]
        | or => cases h
      | _ => simp only [hc]

theorem size_halvedGraph (g : Graph) (maxId v origin target : Nat) (w : Vertex)
    (a b : ConditionDoc) : (halvedGraph fp g maxId v origin target w a b).size = g.size + 2 := by
  unfold halvedGraph
  simp only [Graph.size_addEdge, Graph.size_addVertex, Graph.size_setVertex]

theorem vertices_halvedGraph (g : Graph) (maxId v origin target : Nat) (w : Vertex)
    (a b : ConditionDoc) (u : Nat) :
    (halvedGraph fp g maxId v origin target w a b).vertices[u]?
      = if u = g.size + 1 then some ⟨replaceNewline w.name,
          (g.setVertex v (a.print fp) (.cond a)).machineOf origin, maxId + 2, w.contents⟩
        else if u = g.size then some ⟨replaceNewline (b.print fp),
          (g.setVertex v (a.print fp) (.cond a)).machineOf origin, maxId + 1, .cond b⟩
        else if u = v then
          (g.vertices[u]?).map fun w => { w with name := a.print fp, contents := .cond a }
        else g.vertices[u]? := by
  unfold halvedGraph
  simp only [Graph.vertices_addEdge, Graph.vertices_addVertex, Graph.size_addVertex,
    Graph.size_setVertex, vertices_setVertex]

theorem adjacent_halvedGraph (g : Graph) (maxId v origin target : Nat) (w : Vertex)
    (a b : ConditionDoc) (u : Nat) :
    (halvedGraph fp g maxId v origin target w a b).adjacent u
      = g.adjacent u ++ (if u = origin then [g.size] else [])
        ++ (if u = g.size then [g.size + 1] else [])
        ++ (if u = g.size + 1 then [target] else []) := by
  unfold halvedGraph
  simp only [Graph.adjacent_addEdge, Graph.adjacent_addVertex, Graph.adjacent_setVertex]

theorem invAdjacent_halvedGraph (g : Graph) (maxId v origin target : Nat) (w : Vertex)
    (a b : ConditionDoc) (u : Nat) :
    (halvedGraph fp g maxId v origin target w a b).invAdjacent u
      = g.invAdjacent u ++ (if u = g.size then [origin] else [])
        ++ (if u = g.size + 1 then [g.size] else [])
        ++ (if u = target then [g.size + 1] else []) := by
  unfold halvedGraph
  simp only [Graph.invAdjacent_addEdge, Graph.invAdjacent_addVertex, Graph.invAdjacent_setVertex]

theorem bounded_halvedGraph {g : Graph} (hb : g.Bounded) (maxId v : Nat) {origin target : Nat}
    (ho : origin < g.size) (ht : target < g.size) (w : Vertex) (a b : ConditionDoc) :
    (halvedGraph fp g maxId v origin target w a b).Bounded := by
  unfold halvedGraph
  refine (((((hb.setVertex _ _ _).addVertex _ _ _ _).addVertex _ _ _ _).addEdge ?_ ?_).addEdge
    ?_ ?_).addEdge ?_ ?_
  all_goals
    simp only [Graph.size_addEdge, Graph.size_addVertex, Graph.size_setVertex]
    omega

/-! ## All vertices -/

/-- The new clauses of a state, for the conditions below number `k`. -/
def newClauses (g : Graph) (k u : Nat) : List Nat :=
  ((g.adjacent u).filter fun c => decide (c < k) && (g.splits c).isSome).map g.newCond

/-- The pass has been over the vertices before number `k`. -/
structure HalvedUpto (g g' : Graph) (maxId k : Nat) : Prop where
  size : g'.size = g.size + 2 * g.splitsBefore k
  maxId : maxId = maxVertexId g + 2 * g.splitsBefore k
  bounded : g'.Bounded
  old : ∀ (v : Nat) (w : Vertex), g.vertices[v]? = some w → ∃ name, g'.vertices[v]? =
    some ⟨name, w.machineId, w.vertexId, if v < k then w.contents.halve else w.contents⟩
  adjacent : ∀ v, v < g.size → g'.adjacent v = g.adjacent v ++ newClauses g k v
  inv : ∀ c condition, g.contents c = some (.cond condition) →
    g'.invAdjacent c = g.invAdjacent c
  newCond : ∀ c conditionB, c < k → g.splits c = some conditionB →
    (∃ name, g'.vertices[g.newCond c]? = some ⟨name, g.machineOf c,
      maxVertexId g + 2 * g.splitsBefore c + 1, .cond conditionB⟩) ∧
    g'.adjacent (g.newCond c) = [g.newCond c + 1]
  newCommand : ∀ c m block target, c < k → (g.splits c).isSome → g.adjacent c = [m] →
    g.contents m = some (.command block) → g.adjacent m = [target] →
    g'.contents (g.newCond c + 1) = some (.command block) ∧
    g'.adjacent (g.newCond c + 1) = [target]
  others : ∀ v, g.size ≤ v → v < g'.size →
    ∃ c, c < k ∧ (g.splits c).isSome ∧ (v = g.newCond c ∨ v = g.newCond c + 1)

theorem newClauses_of_notMem {g : Graph} {k u : Nat} (h : k ∉ g.adjacent u ∨ g.splits k = none) :
    newClauses g (k + 1) u = newClauses g k u := by
  unfold newClauses
  congr 1
  refine List.filter_congr fun c hc => ?_
  by_cases hck : c = k
  · subst hck
    rcases h with h | h
    · exact absurd hc h
    · rw [h]
      simp
  · have hiff : c < k + 1 ↔ c < k := by omega
    rw [decide_eq_decide.mpr hiff]

/-- In a list that rises, the next element that is taken is the last one. -/
theorem filter_lt_succ {l : List Nat} {p : Nat → Bool} {k : Nat} (h : l.Pairwise (· < ·))
    (hk : k ∈ l) (hp : p k = true) :
    (l.filter fun c => decide (c < k + 1) && p c)
      = (l.filter fun c => decide (c < k) && p c) ++ [k] := by
  obtain ⟨front, rest, rfl⟩ := List.append_of_mem hk
  have hfront : ∀ c ∈ front, c < k := fun c hc =>
    (List.pairwise_append.mp h).2.2 c hc k List.mem_cons_self
  have hrest : ∀ c ∈ rest, k < c := fun c hc =>
    (List.pairwise_cons.mp (List.pairwise_append.mp h).2.1).1 c hc
  have hnone : ∀ n, n ≤ k + 1 → (rest.filter fun c => decide (c < n) && p c) = [] := by
    intro n hn
    refine List.filter_eq_nil_iff.mpr fun c hc => ?_
    have := hrest c hc
    rw [decide_eq_false (by omega)]
    simp
  have hsame : (front.filter fun c => decide (c < k + 1) && p c)
      = front.filter fun c => decide (c < k) && p c := by
    refine List.filter_congr fun c hc => ?_
    have := hfront c hc
    rw [decide_eq_true (by omega), decide_eq_true this]
  rw [List.filter_append, List.filter_append, List.filter_cons_of_pos (by simp [hp]),
    List.filter_cons_of_neg (by simp), hnone (k + 1) (Nat.le_refl _), hnone k (by omega), hsame,
    List.append_nil]

theorem newClauses_of_mem {g : Graph} {k u : Nat} (h : (g.adjacent u).Pairwise (· < ·))
    (hk : k ∈ g.adjacent u) (hs : (g.splits k).isSome) :
    newClauses g (k + 1) u = newClauses g k u ++ [g.newCond k] := by
  unfold newClauses
  rw [filter_lt_succ h hk hs, List.map_append, List.map_singleton]

theorem newClauses_zero (g : Graph) (u : Nat) : newClauses g 0 u = [] := by
  unfold newClauses
  rw [List.filter_eq_nil_iff.mpr fun c _ => by simp, List.map_nil]

/-- Only states have new clauses. -/
theorem newClauses_of_not_state {g : Graph} (hwf : WellFormed g) {v k : Nat} {contents : Contents}
    (hv : g.contents v = some contents) (hn : contents ≠ .state) : newClauses g k v = [] := by
  unfold newClauses
  rw [List.filter_eq_nil_iff.mpr, List.map_nil]
  intro c hc hsplit
  obtain ⟨b, hb⟩ := Option.isSome_iff_exists.mp (Bool.and_eq_true _ _ ▸ hsplit).2
  obtain ⟨a, ha⟩ := Graph.splits_eq_some hb
  cases contents with
  | state => exact hn rfl
  | cond condition =>
    obtain ⟨m, block, hm, hblock⟩ := hwf.ofCond v condition hv
    rw [hm, List.mem_singleton] at hc
    rw [hc, hblock] at ha
    cases ha
  | command block =>
    obtain ⟨t, ht, hstate⟩ := hwf.ofCommand v block hv
    rw [ht, List.mem_singleton] at hc
    rw [hc, hstate] at ha
    cases ha

/-- A vertex that is not split. -/
theorem HalvedUpto.skip {g g' : Graph} {maxId k : Nat} (h : HalvedUpto g g' maxId k)
    (hs : g.splits k = none) : HalvedUpto g g' maxId (k + 1) := by
  have hcount : g.splitsBefore (k + 1) = g.splitsBefore k := by
    rw [Graph.splitsBefore_succ, hs]
    rfl
  have hlt : ∀ c, c < k + 1 → (g.splits c).isSome → c < k := by
    intro c hc hsome
    refine Nat.lt_of_le_of_ne (by omega) ?_
    rintro rfl
    rw [hs] at hsome
    cases hsome
  constructor
  case size => rw [hcount]; exact h.size
  case maxId => rw [hcount]; exact h.maxId
  case bounded => exact h.bounded
  case old =>
    intro v w hw
    obtain ⟨name, hv⟩ := h.old v w hw
    refine ⟨name, ?_⟩
    by_cases hvk : v = k
    · -- the contents are their own half
      subst hvk
      have hhalf : w.contents.halve = w.contents := by
        unfold Graph.splits at hs
        rw [Graph.contents_of_vertex hw] at hs
        cases hc : w.contents with
        | state => rfl
        | command block => rfl
        | cond condition =>
          rw [hc] at hs
          cases condition with
          | compound a op b =>
            cases op with
            | or => cases hs
            | and => rfl
          | _ => rfl
      rw [if_neg (Nat.lt_irrefl v)] at hv
      rw [if_pos (Nat.lt_succ_self v), hhalf]
      exact hv
    · rw [hv]
      have hiff : v < k + 1 ↔ v < k := by omega
      simp only [hiff]
  case adjacent =>
    intro v hv
    rw [newClauses_of_notMem (.inr hs)]
    exact h.adjacent v hv
  case inv => exact h.inv
  case newCond => exact fun c b hc hb => h.newCond c b (hlt c hc (by rw [hb]; rfl)) hb
  case newCommand => exact fun c m block t hc hb => h.newCommand c m block t (hlt c hc hb) hb
  case others =>
    intro v hv hlt'
    obtain ⟨c, hck, hcs, hvc⟩ := h.others v hv hlt'
    exact ⟨c, Nat.lt_succ_of_lt hck, hcs, hvc⟩

theorem machineOf_setVertex (g : Graph) (v : Nat) (name : Text) (c : Contents) (u : Nat) :
    (g.setVertex v name c).machineOf u = g.machineOf u := by
  unfold Graph.machineOf
  rw [vertices_setVertex]
  by_cases hu : u = v
  · rw [if_pos hu]
    cases g.vertices[u]? <;> rfl
  · rw [if_neg hu]

theorem machineOf_of_vertex {g : Graph} {v : Nat} {w : Vertex} (h : g.vertices[v]? = some w) :
    g.machineOf v = w.machineId := by
  unfold Graph.machineOf
  rw [h]
  rfl

theorem exists_vertex {g : Graph} {v : Nat} {c : Contents} (h : g.contents v = some c) :
    ∃ w, g.vertices[v]? = some w ∧ w.contents = c :=
  Option.map_eq_some_iff.mp h

/-- A vertex whose `or` is split. -/
theorem HalvedUpto.split {g g₁ : Graph} {maxId k : Nat} (h : HalvedUpto g g₁ maxId k)
    (hg : MachineGraph g) {a b : ConditionDoc}
    (hk : g.contents k = some (.cond (.compound a .or b))) :
    ∃ g₂, expandConditionAt fp (g₁, maxId) k = .ok (g₂, maxId + 2) ∧
      HalvedUpto g g₂ (maxId + 2) (k + 1) := by
  have hwf := hg.wellFormed
  have hsplits : g.splits k = some b := Graph.splits_of_contents hk
  have hsome : (g.splits k).isSome = true := by rw [hsplits]; rfl
  have hcount : g.splitsBefore (k + 1) = g.splitsBefore k + 1 := by
    rw [Graph.splitsBefore_succ, if_pos hsome]
  have hklt := Graph.contents_lt hk
  obtain ⟨u, hu, hstate, hmachine⟩ := hg.origin k _ hk
  obtain ⟨m, block, hm, hblock⟩ := hwf.ofCond k _ hk
  obtain ⟨target, htarget, htstate⟩ := hwf.ofCommand m block hblock
  have hult := Graph.contents_lt hstate
  have hmlt := Graph.contents_lt hblock
  have htlt := Graph.contents_lt htstate
  have hsize := h.size
  have hnew : g₁.size = g.newCond k := hsize
  have hku : k ∈ g.adjacent u := Graph.mem_invAdjacent.mp (by rw [hu]; exact List.mem_singleton_self u)
  -- what the pass finds at the vertex
  obtain ⟨wk, hwk, hwkc⟩ := exists_vertex hk
  obtain ⟨namek, hk₁⟩ := h.old k wk hwk
  rw [if_neg (Nat.lt_irrefl k), hwkc] at hk₁
  obtain ⟨wm, hwm, hwmc⟩ := exists_vertex hblock
  obtain ⟨namem, hm₁⟩ := h.old m wm hwm
  rw [hwmc] at hm₁
  have hm₂ : g₁.vertices[m]? = some ⟨namem, wm.machineId, wm.vertexId, .command block⟩ := by
    rw [hm₁]
    by_cases hmk : m < k <;> simp [hmk, Contents.halve]
  obtain ⟨wu, hwu, -⟩ := exists_vertex hstate
  obtain ⟨nameu, hu₁⟩ := h.old u wu hwu
  have hadjk : g₁.adjacent k = [m] := by
    rw [h.adjacent k hklt, hm, newClauses_of_not_state hwf hk nofun, List.append_nil]
  have hadjm : g₁.adjacent m = [target] := by
    rw [h.adjacent m hmlt, htarget, newClauses_of_not_state hwf hblock nofun, List.append_nil]
  have hinvk : g₁.invAdjacent k = [u] := by rw [h.inv k _ hk, hu]
  have hmach : (g₁.setVertex k (a.print fp) (.cond a)).machineOf u = g.machineOf k := by
    rw [machineOf_setVertex, machineOf_of_vertex hu₁, ← machineOf_of_vertex hwu, hmachine]
  refine ⟨_, expandConditionAt_or fp (Graph.contents_of_vertex hk₁) hadjk hinvk hm₂ hadjm, ?_⟩
  have hsmall : ∀ c, c < k → (g.splits c).isSome = true → g.newCond c + 2 ≤ g₁.size :=
    fun c hc hcs => hnew ▸ Graph.newCond_lt hcs hc
  have hge : ∀ c, g.size ≤ g.newCond c := fun c => Nat.le_add_right _ _
  constructor
  case size =>
    rw [size_halvedGraph, hsize, hcount]
    omega
  case maxId =>
    rw [h.maxId, hcount]
    omega
  case bounded => exact bounded_halvedGraph fp h.bounded _ _ (by omega) (by omega) _ _ _
  case old =>
    intro v w hw
    have hvlt : v < g.size := (List.getElem?_eq_some_iff.mp hw).1
    obtain ⟨name, hv⟩ := h.old v w hw
    rw [vertices_halvedGraph, if_neg (by omega), if_neg (by omega)]
    by_cases hvk : v = k
    · subst hvk
      rw [if_pos rfl, hv, if_pos (Nat.lt_succ_self v)]
      rw [hwk] at hw
      obtain rfl := Option.some.inj hw
      exact ⟨a.print fp, by rw [hwkc]; rfl⟩
    · rw [if_neg hvk, hv]
      have hiff : v < k + 1 ↔ v < k := by omega
      exact ⟨name, by simp only [hiff]⟩
  case adjacent =>
    intro v hv
    rw [adjacent_halvedGraph, h.adjacent v hv, if_neg (by omega : ¬ v = g₁.size),
      if_neg (by omega : ¬ v = g₁.size + 1), List.append_nil, List.append_nil, List.append_assoc]
    congr 1
    by_cases hvu : v = u
    · rw [if_pos hvu, hvu, newClauses_of_mem (hg.ordered u) hku hsome, hnew]
    · rw [if_neg hvu, List.append_nil, newClauses_of_notMem (.inl ?_)]
      intro hmem
      have := Graph.mem_invAdjacent.mpr hmem
      rw [hu] at this
      exact hvu (List.mem_singleton.mp this)
  case inv =>
    intro c condition hc
    have hclt := Graph.contents_lt hc
    have hct : c ≠ target := by
      rintro rfl
      rw [htstate] at hc
      cases hc
    rw [invAdjacent_halvedGraph, if_neg (by omega), if_neg (by omega), if_neg hct,
      List.append_nil, List.append_nil, List.append_nil]
    exact h.inv c condition hc
  case newCond =>
    intro c conditionB hc hcb
    rcases Nat.lt_succ_iff_lt_or_eq.mp hc with hlt | rfl
    · have hs := hsmall c hlt (by rw [hcb]; rfl)
      have := hge c
      obtain ⟨⟨name, hv⟩, hadj⟩ := h.newCond c conditionB hlt hcb
      refine ⟨⟨name, ?_⟩, ?_⟩
      · rw [vertices_halvedGraph, if_neg (by omega), if_neg (by omega), if_neg (by omega), hv]
      · rw [adjacent_halvedGraph, hadj, if_neg (by omega), if_neg (by omega), if_neg (by omega)]
        rfl
    · rw [hsplits] at hcb
      obtain rfl := Option.some.inj hcb
      rw [← hnew]
      refine ⟨⟨replaceNewline (b.print fp), ?_⟩, ?_⟩
      · rw [vertices_halvedGraph, if_neg (by omega), if_pos rfl, hmach, h.maxId]
      · rw [adjacent_halvedGraph, h.bounded.adjacent_eq_nil (Nat.le_refl _),
          if_neg (by omega), if_pos rfl, if_neg (by omega)]
        rfl
  case newCommand =>
    intro c m' block' target' hc hcs hm' hblock' htarget'
    rcases Nat.lt_succ_iff_lt_or_eq.mp hc with hlt | rfl
    · have hs := hsmall c hlt hcs
      have := hge c
      obtain ⟨hcontents, hadj⟩ := h.newCommand c m' block' target' hlt hcs hm' hblock' htarget'
      refine ⟨?_, ?_⟩
      · obtain ⟨w, hw, hwc⟩ := exists_vertex hcontents
        rw [← hwc]
        refine Graph.contents_of_vertex ?_
        rw [vertices_halvedGraph, if_neg (by omega), if_neg (by omega), if_neg (by omega), hw]
      · rw [adjacent_halvedGraph, hadj, if_neg (by omega), if_neg (by omega), if_neg (by omega)]
        rfl
    · obtain rfl : m = m' := List.singleton_inj.mp (hm.symm.trans hm')
      rw [hblock] at hblock'
      cases hblock'
      obtain rfl : target = target' := List.singleton_inj.mp (htarget.symm.trans htarget')
      rw [← hnew]
      have hv := vertices_halvedGraph fp g₁ maxId c u target
        ⟨namem, wm.machineId, wm.vertexId, .command block⟩ a b (g₁.size + 1)
      rw [if_pos rfl] at hv
      refine ⟨Graph.contents_of_vertex hv, ?_⟩
      · rw [adjacent_halvedGraph, h.bounded.adjacent_eq_nil (Nat.le_succ _), if_neg (by omega),
          if_neg (by omega), if_pos rfl]
        rfl
  case others =>
    intro v hv hlt
    rw [size_halvedGraph] at hlt
    rcases Nat.lt_or_ge v g₁.size with hlt' | hge'
    · obtain ⟨c, hck, hcs, hvc⟩ := h.others v hv hlt'
      exact ⟨c, Nat.lt_succ_of_lt hck, hcs, hvc⟩
    · exact ⟨k, Nat.lt_succ_self k, hsome, by omega⟩

/-- One step of the pass. -/
theorem HalvedUpto.step {g g₁ : Graph} {maxId k : Nat} (h : HalvedUpto g g₁ maxId k)
    (hg : MachineGraph g) (hk : k < g.size) :
    ∃ s, expandConditionAt fp (g₁, maxId) k = .ok s ∧ HalvedUpto g s.1 s.2 (k + 1) := by
  cases hs : g.splits k with
  | some b =>
    obtain ⟨a, ha⟩ := Graph.splits_eq_some hs
    obtain ⟨g₂, hrun, hup⟩ := h.split fp hg ha
    exact ⟨_, hrun, hup⟩
  | none =>
    refine ⟨(g₁, maxId), expandConditionAt_other fp ?_, h.skip hs⟩
    -- the vertex has the contents it had
    unfold Graph.splits at hs ⊢
    have hw := List.getElem?_eq_getElem (l := g.vertices) hk
    obtain ⟨name, hv⟩ := h.old k _ hw
    rw [if_neg (Nat.lt_irrefl k)] at hv
    rw [Graph.contents_of_vertex hv]
    rwa [Graph.contents_of_vertex hw] at hs

theorem HalvedUpto.start {g : Graph} (hg : MachineGraph g) :
    HalvedUpto g g (maxVertexId g) 0 := by
  constructor
  case size => rfl
  case maxId => rfl
  case bounded => exact hg.wellFormed.bounded
  case old => exact fun v w hw => ⟨w.name, by rw [if_neg (Nat.not_lt_zero v)]; exact hw⟩
  case adjacent => exact fun v _ => by rw [newClauses_zero, List.append_nil]
  case inv => exact fun _ _ _ => rfl
  case newCond => exact fun c _ hc => absurd hc (Nat.not_lt_zero c)
  case newCommand => exact fun c _ _ _ hc => absurd hc (Nat.not_lt_zero c)
  case others =>
    intro v hv hlt
    omega

/-- **The halved graph**: `expandComplexConditions` succeeds on every machine graph. -/
theorem expandComplexConditions_spec {g : Graph} (hg : MachineGraph g) :
    ∃ g' maxId, expandComplexConditions fp g = .ok g' ∧ HalvedUpto g g' maxId g.size := by
  have hstep : ∀ (k : Nat) (s : Graph × Nat), k < g.size → HalvedUpto g s.1 s.2 k →
      ∃ s', expandConditionAt fp s k = .ok s' ∧ HalvedUpto g s'.1 s'.2 (k + 1) :=
    fun k s hk h => h.step fp hg hk
  obtain ⟨s', hrun, hup⟩ := foldlM_range hstep (HalvedUpto.start hg) (s := (g, maxVertexId g))
  refine ⟨s'.1, s'.2, ?_, hup⟩
  unfold expandComplexConditions
  exact bind_ok_iff.mpr ⟨s', hrun, rfl⟩

/-! ## The halved graph -/

namespace HalvedUpto

variable {fp} {g g' : Graph} {maxId : Nat}

/-- What an old vertex holds. -/
theorem contents_old (h : HalvedUpto g g' maxId g.size) {v : Nat} {c : Contents}
    (hv : g.contents v = some c) : g'.contents v = some c.halve := by
  obtain ⟨w, hw, rfl⟩ := exists_vertex hv
  obtain ⟨name, hv'⟩ := h.old v w hw
  rw [if_pos (Graph.contents_lt hv)] at hv'
  exact Graph.contents_of_vertex hv'

theorem contents_newCond (h : HalvedUpto g g' maxId g.size) {c : Nat} {b : ConditionDoc}
    (hc : g.splits c = some b) : g'.contents (g.newCond c) = some (.cond b) := by
  obtain ⟨a, ha⟩ := Graph.splits_eq_some hc
  obtain ⟨⟨name, hv⟩, -⟩ := h.newCond c b (Graph.contents_lt ha) hc
  exact Graph.contents_of_vertex hv

/-- A vertex of the halved graph is an old one or comes from an `or`. -/
theorem cases (h : HalvedUpto g g' maxId g.size) {v : Nat} (hv : v < g'.size) :
    (∃ c, g.contents v = some c) ∨ ∃ c b, g.splits c = some b ∧
      (v = g.newCond c ∨ v = g.newCond c + 1) := by
  rcases Nat.lt_or_ge v g.size with hlt | hge
  · exact .inl ⟨_, Graph.contents_of_vertex (List.getElem?_eq_getElem hlt)⟩
  · obtain ⟨c, -, hcs, hvc⟩ := h.others v hge hv
    obtain ⟨b, hb⟩ := Option.isSome_iff_exists.mp hcs
    exact .inr ⟨c, b, hb, hvc⟩

/-- The clause of a condition's second part. -/
theorem newClause (h : HalvedUpto g g' maxId g.size) (hg : MachineGraph g) {c : Nat}
    {b : ConditionDoc} (hc : g.splits c = some b) : ∃ block target,
    g.clause c = some (block.commands, target) ∧ g.contents target = some .state ∧
    g'.adjacent (g.newCond c) = [g.newCond c + 1] ∧
    g'.contents (g.newCond c + 1) = some (.command block) ∧
    g'.adjacent (g.newCond c + 1) = [target] := by
  obtain ⟨a, ha⟩ := Graph.splits_eq_some hc
  obtain ⟨m, block, hm, hblock⟩ := hg.wellFormed.ofCond c _ ha
  obtain ⟨target, htarget, hstate⟩ := hg.wellFormed.ofCommand m block hblock
  have hlt := Graph.contents_lt ha
  obtain ⟨hcommand, hadj⟩ := h.newCommand c m block target hlt (by rw [hc]; rfl) hm hblock htarget
  refine ⟨block, target, ?_, hstate, (h.newCond c b hlt hc).2, hcommand, hadj⟩
  unfold Graph.clause
  rw [hm]
  simp only [hblock, htarget]

/-- A condition of the halved graph is the first or the second part of an old one. -/
theorem cond_cases (h : HalvedUpto g g' maxId g.size) (hg : MachineGraph g) {v : Nat}
    {condition : ConditionDoc} (hv : g'.contents v = some (.cond condition)) :
    (∃ condition₀, g.contents v = some (.cond condition₀) ∧ condition = condition₀.firstPart) ∨
    ∃ c, g.splits c = some condition ∧ v = g.newCond c := by
  rcases h.cases (Graph.contents_lt hv) with ⟨c, hc⟩ | ⟨c, b, hb, rfl | rfl⟩
  · have hv' := h.contents_old hc
    rw [hv] at hv'
    cases c with
    | cond condition₀ =>
      cases hv'
      exact .inl ⟨condition₀, hc, rfl⟩
    | state => cases hv'
    | command block => cases hv'
  · rw [h.contents_newCond hb] at hv
    cases hv
    exact .inr ⟨c, hb, rfl⟩
  · obtain ⟨block, target, -, -, -, hcommand, -⟩ := h.newClause hg hb
    rw [hcommand] at hv
    cases hv

/-- The halved graph is well formed. -/
theorem wellFormed (h : HalvedUpto g g' maxId g.size) (hg : MachineGraph g) : WellFormed g' := by
  have hwf := hg.wellFormed
  have hold : ∀ v c, g.contents v = some c → c ≠ .state → g'.adjacent v = g.adjacent v := by
    intro v c hv hn
    rw [h.adjacent v (Graph.contents_lt hv), newClauses_of_not_state hwf hv hn, List.append_nil]
  constructor
  case bounded => exact h.bounded
  case ofState =>
    intro v hv c hc
    rcases h.cases (Graph.contents_lt hv) with ⟨contents, hcontents⟩ | ⟨c₀, b, hb, rfl | rfl⟩
    · have hstate : contents = .state := by
        have hv' := h.contents_old hcontents
        rw [hv] at hv'
        cases contents with
        | state => rfl
        | cond condition => cases hv'
        | command block => cases hv'
      subst hstate
      rw [h.adjacent v (Graph.contents_lt hcontents)] at hc
      rcases List.mem_append.mp hc with hc | hc
      · obtain ⟨condition, hcond⟩ := hwf.ofState v hcontents c hc
        exact ⟨_, h.contents_old hcond⟩
      · obtain ⟨c₀, hc₀, rfl⟩ := List.mem_map.mp hc
        obtain ⟨b, hb⟩ := Option.isSome_iff_exists.mp
          (Bool.and_eq_true _ _ ▸ (List.mem_filter.mp hc₀).2).2
        exact ⟨b, h.contents_newCond hb⟩
    · rw [h.contents_newCond hb] at hv
      cases hv
    · obtain ⟨block, target, -, -, -, hcommand, -⟩ := h.newClause hg hb
      rw [hcommand] at hv
      cases hv
  case ofCond =>
    intro v condition hv
    rcases h.cond_cases hg hv with ⟨condition₀, hv₀, -⟩ | ⟨c, hc, rfl⟩
    · obtain ⟨m, block, hm, hblock⟩ := hwf.ofCond v condition₀ hv₀
      exact ⟨m, block, (hold v _ hv₀ nofun).trans hm, h.contents_old hblock⟩
    · obtain ⟨block, target, -, -, hadj, hcommand, -⟩ := h.newClause hg hc
      exact ⟨_, block, hadj, hcommand⟩
  case ofCommand =>
    intro v block hv
    rcases h.cases (Graph.contents_lt hv) with ⟨contents, hcontents⟩ | ⟨c₀, b, hb, rfl | rfl⟩
    · have hv' := h.contents_old hcontents
      rw [hv] at hv'
      cases contents with
      | state => cases hv'
      | cond condition => cases hv'
      | command block₀ =>
        obtain ⟨t, ht, hstate⟩ := hwf.ofCommand v block₀ hcontents
        exact ⟨t, (hold v _ hcontents nofun).trans ht, h.contents_old hstate⟩
    · rw [h.contents_newCond hb] at hv
      cases hv
    · obtain ⟨block', target, -, hstate, -, -, hadj⟩ := h.newClause hg hb
      exact ⟨target, hadj, h.contents_old hstate⟩

end HalvedUpto

end Hexabus.Hbc
