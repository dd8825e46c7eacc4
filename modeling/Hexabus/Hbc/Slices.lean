import Hexabus.Hbc.Shape

/-!
# The slices of a program

A device gets a copy of one machine of the program, with the vertices in their order and
the edges of a vertex in theirs, and then loses the commands that write other devices.
Both leave the shape of the machine.
-/

namespace Hexabus.Hbc

open Lib.Folds

/-! ## Segments -/

/-- The numbers from `offset` on. -/
def segment (offset n : Nat) : List Nat := (List.range n).map (offset + ·)

theorem segment_succ (offset n : Nat) : segment offset (n + 1) = segment offset n ++ [offset + n] := by
  unfold segment
  rw [List.range_succ, List.map_append, List.map_singleton]

theorem mem_segment {offset n v : Nat} : v ∈ segment offset n ↔ offset ≤ v ∧ v < offset + n := by
  unfold segment
  rw [List.mem_map]
  constructor
  · rintro ⟨i, hi, rfl⟩
    have := List.mem_range.mp hi
    omega
  · rintro ⟨hge, hlt⟩
    exact ⟨v - offset, List.mem_range.mpr (by omega), by omega⟩

theorem findIdx?_segment {offset n v : Nat} (hge : offset ≤ v) (hlt : v < offset + n) :
    (segment offset n).findIdx? (· = v) = some (v - offset) := by
  unfold segment
  refine List.findIdx?_eq_some_iff_getElem.mpr ⟨?_, ?_, fun j hj => ?_⟩
  · rw [List.length_map, List.length_range]
    omega
  · simp only [List.getElem_map, List.getElem_range, decide_eq_true_eq]
    omega
  · simp only [List.getElem_map, List.getElem_range, decide_eq_true_eq]
    omega

theorem filterMap_segment {α : Type} (l : List α) (offset n : Nat) (h : offset + n ≤ l.length) :
    (segment offset n).filterMap (l[·]?) = (l.drop offset).take n := by
  induction n with
  | zero => rfl
  | succ n ih =>
    have hget : (l.drop offset)[n]? = l[offset + n]? := List.getElem?_drop
    have hin := List.getElem?_eq_getElem (l := l) (i := offset + n) (by omega)
    rw [segment_succ, List.filterMap_append, ih (by omega), List.take_add_one, hget, hin,
      List.filterMap_cons_some hin]
    rfl

theorem filter_range_segment {offset n size : Nat} (p : Nat → Bool) (h : offset + n ≤ size)
    (hp : ∀ v, v < size → (p v = true ↔ offset ≤ v ∧ v < offset + n)) :
    (List.range size).filter p = segment offset n := by
  obtain ⟨rest, rfl⟩ := Nat.exists_eq_add_of_le h
  rw [List.range_add, List.range_add, List.filter_append, List.filter_append]
  have hfront : (List.range offset).filter p = [] := by
    refine List.filter_eq_nil_iff.mpr fun v hv hpv => ?_
    have hlt := List.mem_range.mp hv
    have := (hp v (by omega)).mp hpv
    omega
  have hmid : (segment offset n).filter p = segment offset n := by
    refine List.filter_eq_self.mpr fun v hv => ?_
    obtain ⟨hge, hlt⟩ := mem_segment.mp hv
    exact (hp v (by omega)).mpr ⟨hge, hlt⟩
  have hrest : ((List.range rest).map (offset + n + ·)).filter p = [] := by
    refine List.filter_eq_nil_iff.mpr fun v hv hpv => ?_
    obtain ⟨i, hi, rfl⟩ := List.mem_map.mp hv
    have hlt := List.mem_range.mp hi
    have := (hp _ (by omega)).mp hpv
    omega
  unfold segment at hmid ⊢
  rw [hfront, hmid, hrest, List.nil_append, List.append_nil]

/-! ## The copy -/

theorem foldl_addVertex (ws : List Vertex) (g : Graph) :
    (ws.foldl (fun out v => out.addVertex v.name v.machineId v.vertexId v.contents) g) =
      { g with vertices := g.vertices ++ ws.map fun w => { w with name := replaceNewline w.name } } := by
  induction ws generalizing g with
  | nil => simp
  | cons w ws ih =>
    rw [List.foldl_cons, ih]
    simp [Graph.addVertex]

theorem foldl_addEdge (s : Nat) (ts : List Nat) (f : Nat → Nat) (g : Graph) :
    ts.foldl (fun out t => out.addEdge s (f t)) g =
      { g with edges := g.edges ++ ts.map fun t => (s, f t) } := by
  induction ts generalizing g with
  | nil => simp
  | cons t ts ih =>
    rw [List.foldl_cons, ih]
    simp [Graph.addEdge]

/-- The edges of a copy of the vertices from `offset` on. -/
def copiedEdges (g : Graph) (offset : Nat) (vs : List Nat) : List (Nat × Nat) :=
  vs.flatMap fun v => (g.adjacent v).map fun t => (v - offset, t - offset)

theorem foldl_copyEdges (g : Graph) (offset : Nat) (vs : List Nat) (out : Graph) :
    vs.foldl (fun out v => (g.adjacent v).foldl
        (fun out t => out.addEdge (v - offset) (t - offset)) out) out
      = { out with edges := out.edges ++ copiedEdges g offset vs } := by
  induction vs generalizing out with
  | nil => simp [copiedEdges]
  | cons v vs ih =>
    rw [List.foldl_cons, ih, foldl_addEdge]
    simp [copiedEdges]

/-- The copy of a part of the graph that no edge leads out of. -/
def copiedGraph (g : Graph) (offset n : Nat) : Graph where
  vertices := ((g.vertices.drop offset).take n).map fun w => { w with name := replaceNewline w.name }
  edges := copiedEdges g offset (segment offset n)

theorem reconstructGraph_eq {g : Graph} {offset n : Nat} (hsize : offset + n ≤ g.size)
    (hclosed : ∀ v ∈ segment offset n, ∀ t ∈ g.adjacent v, t ∈ segment offset n) :
    reconstructGraph g (segment offset n) = .ok (copiedGraph g offset n) := by
  have hedge : ∀ v ∈ segment offset n, ∀ out, (g.adjacent v).foldlM
      (copyEdge (segment offset n) v) out = .ok ((g.adjacent v).foldl
        (fun out t => out.addEdge (v - offset) (t - offset)) out) := by
    intro v hv out
    obtain ⟨hge, hlt⟩ := mem_segment.mp hv
    have hcopy : ∀ (out : Graph) (t : Nat), t ∈ segment offset n →
        copyEdge (segment offset n) v out t = .ok (out.addEdge (v - offset) (t - offset)) := by
      intro out t ht
      obtain ⟨hge', hlt'⟩ := mem_segment.mp ht
      unfold copyEdge
      rw [findIdx?_segment hge hlt, findIdx?_segment hge' hlt']
    exact foldlM_eq_foldl hcopy (hclosed v hv)
  unfold reconstructGraph
  rw [foldlM_eq_foldl (fun out v hv => hedge v hv out) fun v hv => hv, foldl_copyEdges,
    filterMap_segment g.vertices offset n hsize, foldl_addVertex]
  simp [copiedGraph, Graph.empty]

theorem vertices_copiedGraph {g : Graph} {offset n i : Nat} (hi : i < n) :
    (copiedGraph g offset n).vertices[i]?
      = (g.vertices[offset + i]?).map fun w => { w with name := replaceNewline w.name } := by
  unfold copiedGraph
  simp only [List.getElem?_map, List.getElem?_take_of_lt hi, List.getElem?_drop]

theorem size_copiedGraph {g : Graph} {offset n : Nat} (hsize : offset + n ≤ g.size) :
    (copiedGraph g offset n).size = n := by
  unfold copiedGraph Graph.size at *
  simp only [List.length_map, List.length_take, List.length_drop]
  omega

theorem flatMap_range_single {α : Type} (f : Nat → List α) {i n : Nat} (hi : i < n) :
    (List.range n).flatMap (fun k => if k = i then f k else []) = f i := by
  induction n with
  | zero => exact absurd hi (Nat.not_lt_zero i)
  | succ n ih =>
    rw [List.range_succ, List.flatMap_append, List.flatMap_singleton]
    rcases Nat.lt_succ_iff_lt_or_eq.mp hi with hlt | rfl
    · rw [ih hlt, if_neg (by omega), List.append_nil]
    · rw [if_pos rfl, List.flatMap_eq_nil_iff.mpr fun k hk => ?_, List.nil_append]
      rw [if_neg (Nat.ne_of_lt (List.mem_range.mp hk))]

theorem adjacent_copiedGraph {g : Graph} {offset n i : Nat} (hi : i < n) :
    (copiedGraph g offset n).adjacent i = (g.adjacent (offset + i)).map (· - offset) := by
  rw [← flatMap_range_single (fun k => (g.adjacent (offset + k)).map (· - offset)) hi]
  show (copiedEdges g offset (segment offset n)).filterMap _ = _
  unfold copiedEdges segment
  rw [List.flatMap_map, List.filterMap_flatMap]
  congr 1
  funext k
  have hk : offset + k - offset = k := by omega
  rw [hk, List.filterMap_map]
  by_cases hki : k = i
  · subst hki
    rw [if_pos rfl, ← List.filterMap_eq_map]
    congr 1
    funext t
    simp
  · rw [if_neg hki]
    refine List.filterMap_eq_nil_iff.mpr fun t _ => ?_
    simp [hki]

/-! ## The slice of a device -/

/-- The graph is that of one machine. -/
structure Slice (g : Graph) (machineId : Nat) (sm : StatemachineDoc)
    (blocks : List ResolvedBlock) : Prop where
  shape : Shape g 0 machineId sm.name sm.stateset blocks
  size : g.size = machineSize sm.stateset blocks
  bounded : g.Bounded

variable {g g' : Graph} {offset machineId : Nat} {sm : StatemachineDoc}
  {blocks : List ResolvedBlock}

/-- A vertex of a machine is a state, a condition or a command vertex. -/
theorem vertex_cases {states : List Identifier} {blocks : List ResolvedBlock} {v : Nat}
    (hge : offset ≤ v) (hlt : v < offset + machineSize states blocks) :
    (∃ k, k < states.length ∧ v = offset + k) ∨
    ∃ j b, blocks[j]? = some b ∧
      (v = offset + states.length + 2 * j ∨ v = offset + states.length + 2 * j + 1) := by
  unfold machineSize at hlt
  rcases Nat.lt_or_ge v (offset + states.length) with h | h
  · exact .inl ⟨v - offset, by omega, by omega⟩
  · have hj : (v - offset - states.length) / 2 < blocks.length := by omega
    exact .inr ⟨_, _, List.getElem?_eq_getElem hj, by omega⟩

/-- No edge leads out of a machine. -/
theorem Shape.closed {machine : Text} {states : List Identifier}
    (h : Shape g offset machineId machine states blocks) :
    ∀ v ∈ segment offset (machineSize states blocks), ∀ t ∈ g.adjacent v,
      t ∈ segment offset (machineSize states blocks) := by
  intro v hv t ht
  obtain ⟨hge, hlt⟩ := mem_segment.mp hv
  rw [mem_segment]
  unfold machineSize
  rcases vertex_cases hge hlt with ⟨k, hk, rfl⟩ | ⟨j, b, hb, rfl | rfl⟩
  · rw [h.ofState k hk] at ht
    obtain ⟨j, hj, rfl⟩ := List.mem_map.mp ht
    obtain ⟨b, hb, -⟩ := mem_clauseNumbers.mp hj
    have := (List.getElem?_eq_some_iff.mp hb).1
    omega
  · rw [h.ofCond j b hb] at ht
    have := (List.getElem?_eq_some_iff.mp hb).1
    have := List.mem_singleton.mp ht
    omega
  · rw [h.ofCommand j b hb] at ht
    have := (h.inRange b (List.mem_of_getElem? hb)).2
    have := List.mem_singleton.mp ht
    omega

theorem bounded_copiedGraph {n : Nat} (hsize : offset + n ≤ g.size)
    (hclosed : ∀ v ∈ segment offset n, ∀ t ∈ g.adjacent v, t ∈ segment offset n) :
    (copiedGraph g offset n).Bounded := by
  intro e he
  obtain ⟨v, hv, hmem⟩ := List.mem_flatMap.mp he
  obtain ⟨t, ht, rfl⟩ := List.mem_map.mp hmem
  have hv' := mem_segment.mp hv
  have ht' := mem_segment.mp (hclosed v hv t ht)
  rw [size_copiedGraph hsize]
  simp only
  omega

/-- **The copy** of a machine. -/
theorem MachineAt.slice (h : MachineAt g offset machineId sm) :
    Slice (copiedGraph g offset (machineSize sm.stateset sm.resolved)) machineId sm
      sm.resolved := by
  have hsize := h.size
  have hshape := h.shape
  refine ⟨?_, size_copiedGraph hsize, bounded_copiedGraph hsize hshape.closed⟩
  have hin : machineSize sm.stateset sm.resolved = sm.stateset.length + 2 * sm.resolved.length :=
    rfl
  have hvertex : ∀ i w, i < machineSize sm.stateset sm.resolved →
      g.vertices[offset + i]? = some w → replaceNewline w.name = w.name →
      (copiedGraph g offset (machineSize sm.stateset sm.resolved)).vertices[i]? = some w := by
    intro i w hi hw hname
    rw [vertices_copiedGraph hi, hw, Option.map_some, hname]
  constructor
  case state =>
    intro k s hs
    have hk := (List.getElem?_eq_some_iff.mp hs).1
    rw [Nat.zero_add]
    exact hvertex k _ (by omega) (hshape.state k s hs) (replaceNewline_idem _)
  case cond =>
    intro j b hb
    have hj := (List.getElem?_eq_some_iff.mp hb).1
    obtain ⟨name, hname, hw⟩ := hshape.cond j b hb
    refine ⟨name, hname, ?_⟩
    rw [Nat.zero_add]
    refine hvertex _ _ (by omega) ?_ hname.noNewline
    rw [← Nat.add_assoc]
    exact hw
  case command =>
    intro j b hb
    have hj := (List.getElem?_eq_some_iff.mp hb).1
    obtain ⟨name, hname, hw⟩ := hshape.command j b hb
    refine ⟨name, hname, ?_⟩
    rw [Nat.zero_add]
    refine hvertex _ _ (by omega) ?_ hname.noNewline
    rw [← Nat.add_assoc, ← Nat.add_assoc]
    exact hw
  case ofState =>
    intro k hk
    rw [Nat.zero_add, adjacent_copiedGraph (by omega), hshape.ofState k hk, List.map_map]
    refine List.map_congr_left fun j _ => ?_
    show offset + sm.stateset.length + 2 * j - offset = _
    omega
  case ofCond =>
    intro j b hb
    have hj := (List.getElem?_eq_some_iff.mp hb).1
    rw [Nat.zero_add, adjacent_copiedGraph (by omega), ← Nat.add_assoc, hshape.ofCond j b hb,
      List.map_singleton]
    congr 1
    omega
  case ofCommand =>
    intro j b hb
    have hj := (List.getElem?_eq_some_iff.mp hb).1
    rw [Nat.zero_add, adjacent_copiedGraph (by omega), ← Nat.add_assoc, ← Nat.add_assoc,
      hshape.ofCommand j b hb, List.map_singleton]
    congr 1
    omega
  case inRange => exact hshape.inRange

theorem MachineAt.machineVertices_eq (h : MachineAt g offset machineId sm) :
    machineVertices g machineId = segment offset (machineSize sm.stateset sm.resolved) := by
  refine filter_range_segment _ h.size fun v hv => ?_
  rw [decide_eq_true_eq]
  have hw := List.getElem?_eq_getElem (l := g.vertices) hv
  rw [hw, Option.map_some, Option.some.injEq]
  exact h.own v _ hw

theorem MachineAt.reconstructGraph_eq (h : MachineAt g offset machineId sm) :
    reconstructGraph g (machineVertices g machineId)
      = .ok (copiedGraph g offset (machineSize sm.stateset sm.resolved)) := by
  rw [h.machineVertices_eq]
  exact Hbc.reconstructGraph_eq h.size h.shape.closed

/-- Every graph of a device is the slice of one machine. -/
def Sliced (hbc : HbcDoc) (graphs : List (Identifier × Graph)) : Prop :=
  ∀ entry ∈ graphs, ∃ machineId sm, hbc[machineId]? = some sm ∧
    sm.resolved.length = sm.guardedBlocks.length ∧ Slice entry.2 machineId sm sm.resolved

theorem mem_insertDevice {device : Identifier} {graph : Graph}
    {graphs : List (Identifier × Graph)} {entry : Identifier × Graph}
    (h : entry ∈ insertDevice device graph graphs) : entry = (device, graph) ∨ entry ∈ graphs := by
  induction graphs with
  | nil => exact .inl (List.mem_singleton.mp h)
  | cons first rest ih =>
    unfold insertDevice at h
    split at h
    · rcases List.mem_cons.mp h with h | h
      · exact .inl h
      · exact .inr h
    · rcases List.mem_cons.mp h with h | h
      · exact .inr (h ▸ List.mem_cons_self)
      · exact (ih h).imp_right fun hmem => List.mem_cons_of_mem _ hmem

/-- A machine that the program does not have has no vertices. -/
theorem Built.machineVertices_eq_nil {hbc : HbcDoc} {state : Graph × List MachineDescriptor}
    (h : Built hbc state) {m : Nat} (hm : hbc[m]? = none) : machineVertices state.1 m = [] := by
  refine List.filter_eq_nil_iff.mpr fun v hv hvm => ?_
  have hw := List.getElem?_eq_getElem (l := state.1.vertices) (List.mem_range.mp hv)
  rw [decide_eq_true_eq, hw, Option.map_some, Option.some.injEq] at hvm
  have hlt := h.known v _ hw
  have hge := List.getElem?_eq_none_iff.mp hm
  omega

/-- **The slices of a program**. -/
theorem sliced_graphTransformation {hbc : HbcDoc} {state : Graph × List MachineDescriptor}
    {graphs : List (Identifier × Graph)} (hbuilt : Built hbc state)
    (hrun : graphTransformation state.1 state.2 = .ok graphs) : Sliced hbc graphs := by
  have hempty : Sliced hbc [] := fun entry he => absurd he List.not_mem_nil
  refine @foldlM_invariant _ _ _ _ (fun _ graphs => Sliced hbc graphs) ?_ [] _ _ _ hempty hrun
  intro _ machineId graphs₁ graphs₂ hgraphs hstep
  obtain ⟨devices, hfind, hdevices⟩ := bind_ok_iff.mp hstep
  cases hm : hbc[machineId]? with
  | none =>
    -- without vertices there are no devices
    rw [hbuilt.machineVertices_eq_nil hm] at hfind
    cases hfind
    cases hdevices
    exact hgraphs
  | some sm =>
    obtain ⟨offset, hat⟩ := hbuilt.machine machineId sm hm
    refine @foldlM_invariant _ _ _ _ (fun _ graphs => Sliced hbc graphs) ?_ [] devices _ _ hgraphs
      hdevices
    intro _ device graphs₃ graphs₄ hgraphs₃ hadd
    obtain ⟨graph, hgraph, hinsert⟩ := bind_ok_iff.mp hadd
    rw [hat.reconstructGraph_eq] at hgraph
    cases hgraph
    split at hinsert
    · cases hinsert
    · cases hinsert
      intro entry hentry
      rcases mem_insertDevice hentry with rfl | hentry
      · exact ⟨machineId, sm, hm, hat.found, hat.slice⟩
      · exact hgraphs₃ entry hentry

/-! ## Deleted writes -/

/-- A block with the commands that write the device. -/
def ownBlock (device : Identifier) (b : ResolvedBlock) : ResolvedBlock :=
  { b with block := { b.block with commandBlock := { b.block.commandBlock with
    commands := ((ownCommands device b.block.commandBlock.commands).toOption).getD [] } } }

variable (fp : FloatPrinter)

/-- What `deleteOthersWrites` makes of a vertex. -/
def ownVertex (device : Identifier) (w : Vertex) : Except HbcError Vertex :=
  match w.contents with
  | .command block => do
    let own ← ownCommands device block.commands
    let block := { block with commands := own }
    return { w with name := commandName fp block, contents := .command block }
  | _ => .ok w

theorem vertices_setVertex (g : Graph) (v : Nat) (name : Text) (c : Contents) (u : Nat) :
    (g.setVertex v name c).vertices[u]? = if u = v then
      (g.vertices[u]?).map fun w => { w with name := name, contents := c } else g.vertices[u]? := by
  unfold Graph.setVertex
  rw [List.getElem?_modify]
  by_cases hu : u = v
  · subst hu
    rw [if_pos rfl]
    cases g.vertices[u]? <;> simp
  · rw [if_neg hu]
    cases g.vertices[u]? <;> simp [Ne.symm hu]

variable {fp} {device : Identifier}

theorem deleteAt_ok {v : Nat} {w : Vertex} (hw : g.vertices[v]? = some w)
    (hrun : deleteAt fp device g v = .ok g') :
    ∃ w', ownVertex fp device w = .ok w' ∧ g'.edges = g.edges ∧ g'.size = g.size ∧
      ∀ u, g'.vertices[u]? = if u = v then some w' else g.vertices[u]? := by
  obtain ⟨name, m, i, contents⟩ := w
  unfold deleteAt at hrun
  rw [Graph.contents_of_vertex hw] at hrun
  have hsame : g' = g → contents = .state ∨ (∃ condition, contents = .cond condition) →
      ∃ w', ownVertex fp device ⟨name, m, i, contents⟩ = .ok w' ∧ g'.edges = g.edges ∧
        g'.size = g.size ∧ ∀ u, g'.vertices[u]? = if u = v then some w' else g.vertices[u]? := by
    rintro rfl hc
    refine ⟨⟨name, m, i, contents⟩, ?_, rfl, rfl, fun u => ?_⟩
    · rcases hc with rfl | ⟨condition, rfl⟩ <;> rfl
    · by_cases hu : u = v
      · rw [if_pos hu, hu, hw]
      · rw [if_neg hu]
  cases contents with
  | state => exact hsame (Except.ok.inj hrun).symm (.inl rfl)
  | cond condition => exact hsame (Except.ok.inj hrun).symm (.inr ⟨condition, rfl⟩)
  | command block =>
    obtain ⟨own, hown, hset⟩ := bind_ok_iff.mp hrun
    cases hset
    refine ⟨⟨commandName fp { block with commands := own }, m, i,
      .command { block with commands := own }⟩, ?_, rfl, Graph.size_setVertex .., fun u => ?_⟩
    · unfold ownVertex
      simp only [hown]
      rfl
    · rw [vertices_setVertex]
      by_cases hu : u = v
      · rw [if_pos hu, if_pos hu, hu, hw, Option.map_some]
      · rw [if_neg hu, if_neg hu]

/-- `deleteOthersWrites` changes every vertex on its own. -/
theorem deleteOthersWrites_ok (hrun : deleteOthersWrites fp device g = .ok g') :
    g'.edges = g.edges ∧ g'.size = g.size ∧
      ∀ (v : Nat) (w : Vertex), g.vertices[v]? = some w →
      ∃ w', ownVertex fp device w = .ok w' ∧ g'.vertices[v]? = some w' := by
  have hinv := @foldlM_invariant _ _ _ (deleteAt fp device)
    (fun done g₁ => done = List.range done.length → done.length ≤ g.size →
      g₁.edges = g.edges ∧ g₁.size = g.size ∧ ∀ (v : Nat) (w : Vertex), g.vertices[v]? = some w →
      (done.length ≤ v → g₁.vertices[v]? = some w) ∧ (v < done.length →
        ∃ w', ownVertex fp device w = .ok w' ∧ g₁.vertices[v]? = some w')) ?_ [] _ _ _ ?_ hrun
  · rw [List.nil_append] at hinv
    obtain ⟨hedges, hsize, hvertices⟩ := hinv (by rw [List.length_range]) (by rw [List.length_range])
    refine ⟨hedges, hsize, fun v w hw => (hvertices v w hw).2 ?_⟩
    rw [List.length_range]
    exact (List.getElem?_eq_some_iff.mp hw).1
  · intro done k g₁ g₂ h hstep hdone hle
    rw [List.length_append, List.length_singleton] at hdone hle
    obtain ⟨hfront, hk⟩ := List.append_inj' (hdone.trans List.range_succ) rfl
    obtain rfl := List.singleton_inj.mp hk
    obtain ⟨hedges, hsize, hvertices⟩ := h hfront (by omega)
    have hk := List.getElem?_eq_getElem (l := g.vertices) (i := done.length) (by
      unfold Graph.size at hle
      omega)
    obtain ⟨w', hw', hedges', hsize', hset⟩ :=
      deleteAt_ok ((hvertices _ _ hk).1 (Nat.le_refl _)) hstep
    refine ⟨hedges'.trans hedges, hsize'.trans hsize, fun v w hw => ⟨fun hv => ?_, fun hv => ?_⟩⟩
    · rw [List.length_append, List.length_singleton] at hv
      rw [hset, if_neg (by omega)]
      exact (hvertices v w hw).1 (by omega)
    · rw [List.length_append, List.length_singleton] at hv
      by_cases hlast : v = done.length
      · subst hlast
        rw [hk] at hw
        cases hw
        exact ⟨w', hw', by rw [hset, if_pos rfl]⟩
      · rw [hset, if_neg hlast]
        exact (hvertices v w hw).2 (by omega)
  · exact fun _ _ => ⟨rfl, rfl, fun v w hw => ⟨fun _ => hw, fun hv => absurd hv (Nat.not_lt_zero v)⟩⟩

theorem ownCommands_ownBlock {b : ResolvedBlock} {own : List CommandDoc}
    (h : ownCommands device b.block.commandBlock.commands = .ok own) :
    (ownBlock device b).block.commandBlock = { b.block.commandBlock with commands := own } := by
  unfold ownBlock
  rw [h]
  rfl

theorem clauseNumbers_ownBlock (device : Identifier) (blocks : List ResolvedBlock) (k : Nat) :
    clauseNumbers (blocks.map (ownBlock device)) k = clauseNumbers blocks k := by
  unfold clauseNumbers
  rw [List.length_map]
  refine List.filter_congr fun j _ => ?_
  rw [List.getElem?_map, Option.map_map]
  rfl

/-- **Deleting the writes** of other devices leaves the slice of a machine. -/
theorem Slice.deleteOthersWrites (h : Slice g machineId sm blocks)
    (hrun : deleteOthersWrites fp device g = .ok g') :
    Slice g' machineId sm (blocks.map (ownBlock device)) ∧
      ∀ b ∈ blocks, ∃ own, ownCommands device b.block.commandBlock.commands = .ok own := by
  obtain ⟨hedges, hsize, hvertices⟩ := deleteOthersWrites_ok hrun
  have hadjacent : ∀ v, g'.adjacent v = g.adjacent v := by
    intro v
    unfold Graph.adjacent
    rw [hedges]
  have hclauses := clauseNumbers_ownBlock device blocks
  have hblock : ∀ (j : Nat) (b : ResolvedBlock), (blocks.map (ownBlock device))[j]? = some b →
      ∃ b₀, blocks[j]? = some b₀ ∧ b = ownBlock device b₀ := by
    intro j b hb
    rw [List.getElem?_map] at hb
    obtain ⟨b₀, hb₀, rfl⟩ := Option.map_eq_some_iff.mp hb
    exact ⟨b₀, hb₀, rfl⟩
  have hown : ∀ (j : Nat) (b : ResolvedBlock), blocks[j]? = some b → ∃ own name,
      ownCommands device b.block.commandBlock.commands = .ok own ∧ PlainName name ∧
      g'.vertices[0 + sm.stateset.length + 2 * j + 1]? = some ⟨name, machineId, j,
        .command { b.block.commandBlock with commands := own }⟩ := by
    intro j b hb
    obtain ⟨name, -, hw⟩ := h.shape.command j b hb
    obtain ⟨w', hw', hvertex⟩ := hvertices _ _ hw
    obtain ⟨own, hown, hret⟩ := bind_ok_iff.mp hw'
    cases hret
    exact ⟨own, _, hown, plainName_block fp _, hvertex⟩
  refine ⟨⟨?_, ?_, ?_⟩, ?_⟩
  · constructor
    case state =>
      intro k s hs
      obtain ⟨w', hw', hvertex⟩ := hvertices _ _ (h.shape.state k s hs)
      cases hw'
      exact hvertex
    case cond =>
      intro j b hb
      obtain ⟨b₀, hb₀, rfl⟩ := hblock j b hb
      obtain ⟨name, hname, hw⟩ := h.shape.cond j b₀ hb₀
      obtain ⟨w', hw', hvertex⟩ := hvertices _ _ hw
      cases hw'
      exact ⟨name, hname, hvertex⟩
    case command =>
      intro j b hb
      obtain ⟨b₀, hb₀, rfl⟩ := hblock j b hb
      obtain ⟨own, name, hcommands, hname, hvertex⟩ := hown j b₀ hb₀
      refine ⟨name, hname, ?_⟩
      rw [ownCommands_ownBlock hcommands]
      exact hvertex
    case ofState =>
      intro k hk
      rw [hadjacent, hclauses]
      exact h.shape.ofState k hk
    case ofCond =>
      intro j b hb
      obtain ⟨b₀, hb₀, rfl⟩ := hblock j b hb
      rw [hadjacent]
      exact h.shape.ofCond j b₀ hb₀
    case ofCommand =>
      intro j b hb
      obtain ⟨b₀, hb₀, rfl⟩ := hblock j b hb
      rw [hadjacent]
      exact h.shape.ofCommand j b₀ hb₀
    case inRange =>
      intro b hb
      obtain ⟨b₀, hb₀, rfl⟩ := List.mem_map.mp hb
      exact h.shape.inRange b₀ hb₀
  · rw [hsize, h.size]
    unfold machineSize
    rw [List.length_map]
  · intro e he
    rw [hedges] at he
    rw [hsize]
    exact h.bounded e he
  · intro b hb
    obtain ⟨j, hj⟩ := List.mem_iff_getElem?.mp hb
    obtain ⟨own, name, hcommands, -⟩ := hown j b hj
    exact ⟨own, hcommands⟩

end Hexabus.Hbc
