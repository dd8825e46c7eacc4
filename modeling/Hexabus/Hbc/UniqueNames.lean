import Hexabus.Hbc.Assembling

/-!
# The numbers of the vertices

A vertex has the number of its machine, its type and a number of its own. The builder takes
these from the place in the state list and from a counter of blocks, the passes from the
largest number they find, and the three together never come twice. The names in a file are
made of them. While the builder runs, the conditions and the commands share the numbers of
the states, but `find_vertex` always comes to the state first.
-/

namespace Hexabus.Hbc

open Lib.Folds

/-! ## Ids -/

/-- `vertex_type`. -/
inductive VertexType
  | state | cond | command
  deriving DecidableEq

def Contents.type : Contents → VertexType
  | .state => .state
  | .cond _ => .cond
  | .command _ => .command

/-- Machine, type and number. -/
def Vertex.ids (w : Vertex) : Nat × VertexType × Nat := (w.machineId, w.contents.type, w.vertexId)

/-- No two vertices have the same ids. -/
def Graph.DistinctIds (g : Graph) : Prop := (g.vertices.map Vertex.ids).Nodup

theorem Graph.DistinctIds.eq {g : Graph} (h : g.DistinctIds) {u v : Nat} {w w' : Vertex}
    (hu : g.vertices[u]? = some w) (hv : g.vertices[v]? = some w') (hids : w.ids = w'.ids) :
    u = v := by
  refine (List.getElem?_inj ?_ h).mp ?_
  · rw [List.length_map]
    exact (List.getElem?_eq_some_iff.mp hu).1
  · rw [List.getElem?_map, List.getElem?_map, hu, hv, Option.map_some, Option.map_some, hids]

theorem distinctIds_of_eq {g : Graph}
    (h : ∀ (u v : Nat) (w w' : Vertex), g.vertices[u]? = some w → g.vertices[v]? = some w' →
      w.ids = w'.ids → u = v) : g.DistinctIds := by
  refine List.pairwise_iff_getElem.mpr fun i j hi hj hij heq => ?_
  rw [List.length_map] at hi hj
  rw [List.getElem_map, List.getElem_map] at heq
  have := h i j _ _ (List.getElem?_eq_getElem hi) (List.getElem?_eq_getElem hj) heq
  omega

/-! ## Machines -/

/-- Where the vertex with these ids is in its machine. -/
def placeOfIds (offset states : Nat) : VertexType → Nat → Nat
  | .state, k => offset + k
  | .cond, j => offset + states + 2 * j
  | .command, j => offset + states + 2 * j + 1

theorem Shape.place_eq {g : Graph} {offset machineId : Nat} {machine : Text}
    {states : List Identifier} {blocks : List ResolvedBlock}
    (h : Shape g offset machineId machine states blocks) {v : Nat} {w : Vertex} (hge : offset ≤ v)
    (hlt : v < offset + machineSize states blocks) (hw : g.vertices[v]? = some w) :
    v = placeOfIds offset states.length w.contents.type w.vertexId := by
  rcases vertex_cases hge hlt with ⟨k, hk, rfl⟩ | ⟨j, b, hb, rfl | rfl⟩
  · rw [h.state k _ (List.getElem?_eq_getElem hk)] at hw
    rw [← Option.some.inj hw]
    rfl
  · obtain ⟨name, -, hcond⟩ := h.cond j b hb
    rw [hcond] at hw
    rw [← Option.some.inj hw]
    rfl
  · obtain ⟨name, -, hcommand⟩ := h.command j b hb
    rw [hcommand] at hw
    rw [← Option.some.inj hw]
    rfl

/-- **The graph of the program**. -/
theorem Built.distinctIds {hbc : HbcDoc} {state : Graph × List MachineDescriptor}
    (h : Built hbc state) : state.1.DistinctIds := by
  refine distinctIds_of_eq fun u v w w' hu hv hids => ?_
  obtain ⟨hmachine, htype, hid⟩ : w.machineId = w'.machineId ∧ w.contents.type = w'.contents.type ∧
      w.vertexId = w'.vertexId := by
    simpa [Vertex.ids, Prod.ext_iff] using hids
  have hm := h.known u w hu
  obtain ⟨offset, hat⟩ := h.machine _ _ (List.getElem?_eq_getElem hm)
  obtain ⟨huge, hult⟩ := (hat.own u w hu).mp rfl
  obtain ⟨hvge, hvlt⟩ := (hat.own v w' hv).mp hmachine.symm
  rw [hat.shape.place_eq huge hult hu, hat.shape.place_eq hvge hvlt hv, htype, hid]

theorem Slice.distinctIds {g : Graph} {machineId : Nat} {sm : StatemachineDoc}
    {blocks : List ResolvedBlock} (h : Slice g machineId sm blocks) : g.DistinctIds := by
  refine distinctIds_of_eq fun u v w w' hu hv hids => ?_
  obtain ⟨-, htype, hid⟩ : w.machineId = w'.machineId ∧ w.contents.type = w'.contents.type ∧
      w.vertexId = w'.vertexId := by
    simpa [Vertex.ids, Prod.ext_iff] using hids
  have hin : ∀ (v : Nat) (w : Vertex), g.vertices[v]? = some w →
      v < 0 + machineSize sm.stateset blocks := by
    intro v w hw
    rw [Nat.zero_add, ← h.size]
    exact (List.getElem?_eq_some_iff.mp hw).1
  rw [h.shape.place_eq (Nat.zero_le u) (hin u w hu) hu,
    h.shape.place_eq (Nat.zero_le v) (hin v w' hv) hv, htype, hid]

/-! ## The passes -/

/-- All ids are different and no vertex has a larger number. -/
structure Numbered (vertices : List Vertex) (maxId : Nat) : Prop where
  distinct : (vertices.map Vertex.ids).Nodup
  le : ∀ w ∈ vertices, w.vertexId ≤ maxId

variable {fp : FloatPrinter} {g g' : Graph} {maxId maxId' : Nat}

theorem Graph.DistinctIds.numbered (h : g.DistinctIds) : Numbered g.vertices (maxVertexId g) :=
  ⟨h, (le_foldl_max Vertex.vertexId g.vertices 0).2⟩

theorem Numbered.addEdge (h : Numbered g.vertices maxId) (s t : Nat) :
    Numbered (g.addEdge s t).vertices maxId := h

theorem Numbered.removeEdge (h : Numbered g.vertices maxId) (s t : Nat) :
    Numbered (g.removeEdge s t).vertices maxId := h

/-- A new vertex with the next number. -/
theorem Numbered.addVertex (h : Numbered g.vertices maxId) (name : Text) (m : Nat) (c : Contents) :
    Numbered (g.addVertex name m (maxId + 1) c).vertices (maxId + 1) := by
  have hnew : (g.addVertex name m (maxId + 1) c).vertices =
      g.vertices ++ [⟨replaceNewline name, m, maxId + 1, c⟩] := rfl
  rw [hnew]
  constructor
  · rw [List.map_append, List.map_singleton, ← List.concat_eq_append]
    refine h.distinct.concat fun hmem => ?_
    obtain ⟨w, hw, hids⟩ := List.mem_map.mp hmem
    have hid : w.vertexId = maxId + 1 := congrArg (fun ids => ids.2.2) hids
    have := h.le w hw
    omega
  · intro w hw
    rcases List.mem_append.mp hw with hw | hw
    · exact Nat.le_succ_of_le (h.le w hw)
    · rw [List.mem_singleton.mp hw]

/-- A vertex that keeps its type keeps its ids. -/
theorem ids_setVertex {v : Nat} {c₀ : Contents} (hv : g.contents v = some c₀) (name : Text)
    {c : Contents} (hc : c.type = c₀.type) :
    (g.setVertex v name c).vertices.map Vertex.ids = g.vertices.map Vertex.ids := by
  obtain ⟨w, hw, hwc⟩ := Option.map_eq_some_iff.mp hv
  refine List.ext_getElem? fun i => ?_
  unfold Graph.setVertex
  rw [List.getElem?_map, List.getElem?_map, List.getElem?_modify]
  by_cases hi : v = i
  · subst hi
    simp [hw, Vertex.ids, hc, hwc]
  · simp [hi]

theorem Numbered.setVertex (h : Numbered g.vertices maxId) {v : Nat} {c₀ : Contents}
    (hv : g.contents v = some c₀) (name : Text) (c : Contents) (hc : c.type = c₀.type) :
    Numbered (g.setVertex v name c).vertices maxId := by
  have hids := ids_setVertex hv name hc
  constructor
  · rw [hids]
    exact h.distinct
  · intro w hw
    have hmem : w.ids ∈ g.vertices.map Vertex.ids := hids ▸ List.mem_map_of_mem hw
    obtain ⟨w', hw', heq⟩ := List.mem_map.mp hmem
    have hid : w'.vertexId = w.vertexId := congrArg (fun ids => ids.2.2) heq
    exact hid ▸ h.le w' hw'

/-- **Deleted writes** leave the ids as they are. -/
theorem distinctIds_deleteOthersWrites {device : Identifier} (h : g.DistinctIds)
    (hrun : deleteOthersWrites fp device g = .ok g') : g'.DistinctIds := by
  refine @foldlM_invariant _ _ _ (deleteAt fp device) (fun _ g => g.DistinctIds) ?_ [] _ g _ h hrun
  intro _ v g₁ g₂ h hstep
  unfold deleteAt at hstep
  split at hstep
  · next block hv =>
    obtain ⟨own, -, hret⟩ := bind_ok_iff.mp hstep
    cases hret
    unfold Graph.DistinctIds
    rw [ids_setVertex (c := .command { block with commands := own }) hv _ rfl]
    exact h
  · cases hstep
    exact h

theorem Numbered.expandConditionAt {v : Nat} (h : Numbered g.vertices maxId)
    (hrun : expandConditionAt fp (g, maxId) v = .ok (g', maxId')) :
    Numbered g'.vertices maxId' := by
  unfold Hbc.expandConditionAt at hrun
  simp only at hrun
  split at hrun
  · next a b hv =>
    split at hrun
    · split at hrun
      · cases hrun
        exact (((((h.setVertex hv _ (.cond a) rfl).addVertex _ _ _).addVertex _ _ _).addEdge _ _).addEdge
          _ _).addEdge _ _
      · cases hrun
    · cases hrun
  · cases hrun
    exact h

/-- **Halved conditions**: the new vertices have new numbers. -/
theorem distinctIds_expandComplexConditions (h : g.DistinctIds)
    (hrun : expandComplexConditions fp g = .ok g') : g'.DistinctIds := by
  unfold expandComplexConditions at hrun
  obtain ⟨⟨g₁, maxId⟩, hfold, hret⟩ := bind_ok_iff.mp hrun
  cases hret
  have hinv := @foldlM_invariant _ _ _ (expandConditionAt fp)
    (fun _ s => Numbered s.1.vertices s.2)
    (fun _ v s s' h hstep => h.expandConditionAt hstep) [] _ (g, maxVertexId g) _ h.numbered hfold
  exact hinv.distinct

theorem Numbered.splitTransition {source target new : Nat} {commands block : CommandBlockDoc}
    (h : Numbered g.vertices maxId) (hv : g.contents source = some (.command block))
    (hrun : splitTransition fp g maxId source target commands = .ok (g', maxId', new)) :
    Numbered g'.vertices maxId' ∧ ∃ tail, g'.contents new = some (.command tail) := by
  unfold Hbc.splitTransition at hrun
  obtain ⟨head, -, hrun⟩ := bind_ok_iff.mp hrun
  obtain ⟨tail, -, hrun⟩ := bind_ok_iff.mp hrun
  cases hrun
  constructor
  · refine Numbered.addEdge (Numbered.addEdge (Numbered.addVertex ?_ _ _ _) _ _) _ _
    refine Numbered.addEdge (Numbered.addVertex ?_ _ _ _) _ _
    refine Numbered.addEdge (Numbered.addVertex ?_ _ _ _) _ _
    exact (h.setVertex hv _ (.command head) rfl).removeEdge _ _
  · refine ⟨tail, ?_⟩
    simp only [Graph.contents_addEdge, Graph.contents_addVertex, if_true]

theorem Numbered.expandMultipleWriteNode {goto : GotoCommandDoc} {commands : List CommandDoc}
    {v : Nat} {block : CommandBlockDoc} (h : Numbered g.vertices maxId)
    (hv : g.contents v = some (.command block))
    (hrun : expandMultipleWriteNode fp goto commands g maxId v = .ok (g', maxId')) :
    Numbered g'.vertices maxId' := by
  induction commands generalizing g maxId v block with
  | nil => cases hrun
  | cons command tail ih =>
    rw [Hbc.expandMultipleWriteNode] at hrun
    split at hrun
    · obtain ⟨⟨g₁, maxId₁, new⟩, hsplit, hrest⟩ := bind_ok_iff.mp hrun
      obtain ⟨hnumbered, tailBlock, hnew⟩ := h.splitTransition hv hsplit
      simp only at hrest
      split at hrest
      · exact ih hnumbered hnew hrest
      · cases hrest
        exact hnumbered
    · cases hrun

/-- **Writes drawn out**: the new vertices have new numbers. -/
theorem distinctIds_expandMultipleWrites (h : g.DistinctIds)
    (hrun : expandMultipleWrites fp g = .ok g') : g'.DistinctIds := by
  unfold expandMultipleWrites at hrun
  obtain ⟨⟨g₁, maxId⟩, hfold, hret⟩ := bind_ok_iff.mp hrun
  cases hret
  have hinv := @foldlM_invariant _ _ _ (expandWritesAt fp)
    (fun _ s => Numbered s.1.vertices s.2) ?_ [] _ (g, maxVertexId g) _ h.numbered hfold
  · exact hinv.distinct
  · rintro _ v ⟨g₁, maxId⟩ ⟨g₂, maxId'⟩ h hstep
    unfold expandWritesAt at hstep
    simp only at hstep h ⊢
    split at hstep
    · next block hv =>
      split at hstep
      · exact h.expandMultipleWriteNode hv hstep
      · cases hstep
        exact h
    · cases hstep
      exact h

/-- The graphs that the compiler comes to: the graph of the program, the slices of the
devices, and what the passes make of a graph, in any order. -/
inductive Stage (fp : FloatPrinter) (hbc : HbcDoc) : Graph → Prop
  | built {g : Graph} {machines : List MachineDescriptor} :
      graphBuilder fp hbc = .ok (g, machines) → Stage fp hbc g
  | sliced {g g' : Graph} {machines : List MachineDescriptor}
      {graphs : List (Identifier × Graph)} {device : Identifier} :
      graphBuilder fp hbc = .ok (g, machines) → graphTransformation g machines = .ok graphs →
      (device, g') ∈ graphs → Stage fp hbc g'
  | deleted {g g' : Graph} {device : Identifier} : Stage fp hbc g →
      deleteOthersWrites fp device g = .ok g' → Stage fp hbc g'
  | halved {g g' : Graph} : Stage fp hbc g → expandComplexConditions fp g = .ok g' →
      Stage fp hbc g'
  | drawnOut {g g' : Graph} : Stage fp hbc g → expandMultipleWrites fp g = .ok g' →
      Stage fp hbc g'

theorem Stage.distinctIds {hbc : HbcDoc} (h : Stage fp hbc g) : g.DistinctIds := by
  induction h with
  | built hrun => exact (built_graphBuilder hrun).distinctIds
  | sliced hrun hslices hmem =>
    obtain ⟨machineId, sm, -, -, hslice⟩ :=
      sliced_graphTransformation (built_graphBuilder hrun) hslices _ hmem
    exact hslice.distinctIds
  | deleted _ hrun ih => exact distinctIds_deleteOthersWrites ih hrun
  | halved _ hrun ih => exact distinctIds_expandComplexConditions ih hrun
  | drawnOut _ hrun ih => exact distinctIds_expandMultipleWrites ih hrun

/-! ## Names in a file -/

/-- Names that are made of the ids of their vertices are all different. -/
theorem Graph.DistinctIds.nodup_names (h : g.DistinctIds) {names : Vertex → List String}
    (hone : ∀ w, (names w).Nodup)
    (hids : ∀ w w' name, name ∈ names w → name ∈ names w' → w.ids = w'.ids) :
    (g.vertices.flatMap names).Nodup := by
  refine List.nodup_flatMap.mpr ⟨fun w _ => hone w, List.pairwise_iff_getElem.mpr ?_⟩
  intro i j hi hj hij name hname hname'
  have := h.eq (List.getElem?_eq_getElem hi) (List.getElem?_eq_getElem hj)
    (hids _ _ name hname hname')
  omega

theorem nodup_stateNames (w : Vertex) : w.stateNames.Nodup := by
  unfold Vertex.stateNames
  split
  · exact List.nodup_singleton _
  · exact List.nodup_nil

theorem nodup_condNames (w : Vertex) : w.condNames.Nodup := by
  unfold Vertex.condNames
  split
  · exact List.nodup_nil
  · exact List.nodup_nil
  · exact List.nodup_nil
  · exact List.nodup_nil
  · exact List.nodup_singleton _

theorem mem_stateNames {w : Vertex} {name : String} (h : name ∈ w.stateNames) :
    w.contents = .state ∧ name = stateName w.machineId w.vertexId := by
  unfold Vertex.stateNames at h
  split at h
  · next hstate => exact ⟨hstate, List.mem_singleton.mp h⟩
  · cases h

theorem ids_of_stateNames (w w' : Vertex) (name : String) (h : name ∈ w.stateNames)
    (h' : name ∈ w'.stateNames) : w.ids = w'.ids := by
  obtain ⟨hstate, hname⟩ := mem_stateNames h
  obtain ⟨hstate', hname'⟩ := mem_stateNames h'
  obtain ⟨hm, hid⟩ := stateName_inj (hname.symm.trans hname')
  unfold Vertex.ids
  rw [hm, hid, hstate, hstate']

theorem ids_of_condNames (w w' : Vertex) (name : String) (h : name ∈ w.condNames)
    (h' : name ∈ w'.condNames) : w.ids = w'.ids := by
  obtain ⟨⟨condition, hcond⟩, hname⟩ := mem_condNames h
  obtain ⟨⟨condition', hcond'⟩, hname'⟩ := mem_condNames h'
  obtain ⟨hm, hid⟩ := condName_inj (hname.symm.trans hname')
  unfold Vertex.ids
  rw [hm, hid, hcond, hcond']
  rfl

theorem flatMap_range_elim {α β : Type} (l : List α) (f : α → List β) :
    (List.range l.length).flatMap (fun i => (l[i]?).elim [] f) = l.flatMap f := by
  induction l using List.reverseRecOn with
  | nil => rfl
  | append_singleton l a ih =>
    rw [List.length_append, List.length_singleton, List.range_succ, List.flatMap_append,
      List.flatMap_append, ← ih]
    congr 1
    · refine List.flatMap_congr fun i hi => ?_
      rw [List.getElem?_append_left (List.mem_range.mp hi)]
    · rw [List.flatMap_singleton, List.getElem?_concat_length, List.flatMap_singleton]
      rfl

theorem conditionDocs_states {tables : Tables} {machines : List MachineDescriptor} {vs : List Nat}
    {blocks : List (List Asm.HbaDocBlock)}
    (h : vs.mapM (printState tables machines g) = .ok blocks) :
    Asm.conditionDocs blocks.flatten = [] := by
  have hall := forall₂_of_mapM_ok h
  clear h
  induction hall with
  | nil => rfl
  | @cons v blocks vs rest hv _ ih =>
    rw [List.flatten_cons, conditionDocs_append, ih, List.append_nil]
    unfold printState at hv
    split at hv
    · obtain ⟨clauses, -, hret⟩ := bind_ok_iff.mp hv
      cases hret
      rfl
    · cases hv
      rfl

/-- The names of the blocks of a file. -/
def blockNames (text : HbaText) : List String :=
  (Asm.stateDocs text.blocks).map Asm.StateDoc.name ++
    (Asm.conditionDocs text.blocks).map Asm.ConditionDoc.name

/-- **The names in a file** are all different. -/
theorem Graph.DistinctIds.nodup_blockNames {tables : Tables} {machines : List MachineDescriptor}
    {device : Identifier} {text : HbaText} (h : g.DistinctIds)
    (ht : hbaOutput tables machines device g = .ok text) : (blockNames text).Nodup := by
  have hstates : (Asm.stateDocs text.blocks).map Asm.StateDoc.name =
      g.vertices.flatMap Vertex.stateNames := by
    rw [stateDocs_hbaOutput ht]
    exact flatMap_range_elim g.vertices Vertex.stateNames
  have hconds : (Asm.conditionDocs text.blocks).map Asm.ConditionDoc.name =
      g.vertices.flatMap Vertex.condNames := by
    unfold hbaOutput at ht
    split at ht
    · cases ht
    · obtain ⟨conditions, hconditions, hrest⟩ := bind_ok_iff.mp ht
      obtain ⟨states, hprinted, hret⟩ := bind_ok_iff.mp hrest
      cases hret
      simp only [conditionDocs_append, conditionDocs_states hprinted, List.append_nil]
      exact (conditions_flatten_spec hconditions).1
  unfold blockNames
  rw [hstates, hconds]
  refine List.nodup_append.mpr ⟨h.nodup_names nodup_stateNames ids_of_stateNames,
    h.nodup_names nodup_condNames ids_of_condNames, fun name hname name' hname' heq => ?_⟩
  obtain ⟨w, -, hw⟩ := List.mem_flatMap.mp hname
  obtain ⟨w', -, hw'⟩ := List.mem_flatMap.mp hname'
  refine condName_ne_stateName w'.machineId w'.vertexId w.machineId w.vertexId ?_
  rw [← (mem_condNames hw').2, ← (mem_stateNames hw).2, heq]

/-! ## Lookups -/

/-- A call of `find_vertex`. -/
structure Lookup where
  graph : Graph
  machineId : Nat
  vertexId : Nat

def Lookup.result (l : Lookup) : Except HbcError Nat := l.graph.findVertex l.machineId l.vertexId

section

variable (fp : FloatPrinter) (sm : StatemachineDoc) (machineId originating : Nat)

/-- The two calls for a guarded block, the second one if the first one returns. -/
def addGuardedBlockLookups (label : Nat → Text) (state : Graph × Nat)
    (block : GuardedCommandBlockDoc) : List Lookup :=
  let (g, count) := state
  match sm.findState block.commandBlock.gotoCommand.targetState with
  | none => []
  | some target =>
    let newCond := g.size
    let g := g.addVertex (label count ++ block.condition.print fp ++ [')']) machineId count
      (.cond block.condition)
    ⟨g, machineId, originating⟩ ::
      match g.findVertex machineId originating with
      | .error _ => []
      | .ok fromState =>
        let g := g.addEdge fromState newCond
        let newCommand := g.size
        let g := g.addVertex (block.commandBlock.print fp) machineId count
          (.command block.commandBlock)
        [⟨g.addEdge newCond newCommand, machineId, target⟩]

def addIfClauseLookups (state : Graph × Nat) (clause : IfClauseDoc) : List Lookup :=
  addGuardedBlockLookups fp sm machineId originating (ifLabel machineId) state clause.ifBlock ++
    match addGuardedBlock fp sm machineId originating (ifLabel machineId) state clause.ifBlock with
    | .error _ => []
    | .ok state => foldTrace (addGuardedBlock fp sm machineId originating elseIfLabel)
        (addGuardedBlockLookups fp sm machineId originating elseIfLabel) state clause.elseIfBlocks

def addInClauseLookups (state : Graph × Nat) (clause : InClauseDoc) : List Lookup :=
  match sm.findState clause.name with
  | none => []
  | some originating => foldTrace (addIfClause fp sm machineId originating)
      (addIfClauseLookups fp sm machineId originating) state clause.ifClauses

def firstPassLookups (state : Graph × List MachineDescriptor) (sm : StatemachineDoc) :
    List Lookup :=
  let (g, machines) := state
  let machineId := machines.length
  if machines.any fun m => m.name = sm.name then []
  else
    match sm.findState initName with
    | none => []
    | some _ => foldTrace (addInClause fp sm machineId) (addInClauseLookups fp sm machineId)
        (addStates g machineId sm.name sm.stateset, 0) sm.inClauses

/-- The calls of `find_vertex` while a program's graph is built, up to an error. -/
def graphBuilderLookups (hbc : HbcDoc) : List Lookup :=
  foldTrace (firstPass fp) (firstPassLookups fp) (Graph.empty, []) hbc

end

/-- The call finds the vertex of the state. -/
def Lookup.FindsState (hbc : HbcDoc) (l : Lookup) : Prop :=
  ∃ sm s v, hbc[l.machineId]? = some sm ∧ sm.stateset[l.vertexId]? = some s ∧
    l.result = .ok v ∧ l.graph.vertices[v]? = some ⟨replaceNewline
      (stateVertexName l.machineId l.vertexId sm.name s), l.machineId, l.vertexId, .state⟩

section

variable {hbc : HbcDoc} {g₀ : Graph} {sm : StatemachineDoc} {offset machineId originating : Nat}

theorem Building.findsState {blocks : List ResolvedBlock} {k : Nat}
    (h : Building g₀ g offset machineId sm.name sm.stateset blocks) (hext : Extends g g')
    (hsm : hbc[machineId]? = some sm) (hk : k < sm.stateset.length) :
    Lookup.FindsState hbc ⟨g', machineId, k⟩ := by
  have hsize := h.size
  unfold machineSize at hsize
  refine ⟨sm, sm.stateset[k], offset + k, hsm, List.getElem?_eq_getElem hk,
    h.findVertex_state hext hk, ?_⟩
  rw [hext.vertices _ (by omega)]
  exact h.shape.state k _ (List.getElem?_eq_getElem hk)

/-- Some blocks have been added. -/
def InProgress (g₀ : Graph) (sm : StatemachineDoc) (offset machineId : Nat)
    (state : Graph × Nat) : Prop :=
  ∃ entries, Progress g₀ sm offset machineId entries state

theorem InProgress.guardedBlock {label : Nat → Text} {name : Identifier} {state : Graph × Nat}
    {block : GuardedCommandBlockDoc} (h : InProgress g₀ sm offset machineId state)
    (hsm : hbc[machineId]? = some sm) (horigin : sm.findState name = some originating) :
    ∀ l ∈ addGuardedBlockLookups fp sm machineId originating label state block,
      l.FindsState hbc := by
  obtain ⟨g, count⟩ := state
  obtain ⟨entries, -, -, hbuilding⟩ := h
  unfold addGuardedBlockLookups
  cases htarget : sm.findState block.commandBlock.gotoCommand.targetState with
  | none => exact fun l hl => absurd hl List.not_mem_nil
  | some target =>
    have hcond := extends_addVertex g (label count ++ block.condition.print fp ++ [')']) machineId
      count (.cond block.condition)
    simp only [hbuilding.findVertex_state hcond (findState_lt horigin)]
    intro l hl
    rcases List.mem_cons.mp hl with rfl | hl
    · exact hbuilding.findsState hcond hsm (findState_lt horigin)
    · rw [List.mem_singleton.mp hl]
      refine hbuilding.findsState ?_ hsm (findState_lt htarget)
      exact ((hcond.trans (extends_addEdge ..)).trans (extends_addVertex ..)).trans
        (extends_addEdge ..)

theorem InProgress.ifClause {name : Identifier} {state : Graph × Nat} {clause : IfClauseDoc}
    (h : InProgress g₀ sm offset machineId state) (hsm : hbc[machineId]? = some sm)
    (horigin : sm.findState name = some originating) :
    ∀ l ∈ addIfClauseLookups fp sm machineId originating state clause, l.FindsState hbc := by
  intro l hl
  unfold addIfClauseLookups at hl
  rcases List.mem_append.mp hl with hl | hl
  · exact h.guardedBlock hsm horigin l hl
  · cases hrun : addGuardedBlock fp sm machineId originating (ifLabel machineId) state
        clause.ifBlock with
    | error e =>
      rw [hrun] at hl
      exact absurd hl List.not_mem_nil
    | ok state₁ =>
      rw [hrun] at hl
      obtain ⟨entries, hprogress⟩ := h
      have hstart : InProgress g₀ sm offset machineId state₁ :=
        ⟨_, hprogress.addGuardedBlock horigin hrun⟩
      refine forall_foldTrace_of_step ?_ (fun block state h => ?_) hstart l hl
      · rintro block state state' ⟨entries, h⟩ hstep
        exact ⟨_, h.addGuardedBlock horigin hstep⟩
      · exact InProgress.guardedBlock h hsm horigin

theorem InProgress.inClause {state : Graph × Nat} {clause : InClauseDoc}
    (h : InProgress g₀ sm offset machineId state) (hsm : hbc[machineId]? = some sm) :
    ∀ l ∈ addInClauseLookups fp sm machineId state clause, l.FindsState hbc := by
  intro l hl
  unfold addInClauseLookups at hl
  cases horigin : sm.findState clause.name with
  | none =>
    rw [horigin] at hl
    exact absurd hl List.not_mem_nil
  | some originating =>
    rw [horigin] at hl
    refine forall_foldTrace_of_step ?_ (fun ifClause state h => ?_) h l hl
    · rintro ifClause state state' ⟨entries, h⟩ hstep
      exact ⟨_, h.addIfClause horigin hstep⟩
    · exact InProgress.ifClause h hsm horigin

/-- **Every lookup** finds the vertex of the state that it is for. -/
theorem findsState_graphBuilder (fp : FloatPrinter) (hbc : HbcDoc) :
    ∀ l ∈ graphBuilderLookups fp hbc, l.FindsState hbc := by
  refine @forall_foldTrace _ _ _ _ _ _ Built _ hbc
    (fun done sm state state' h hstep => h.firstPass hstep) ?_ [] hbc _ rfl ?_
  · rintro done sm rest ⟨g, machines⟩ hwhole h l hl
    have hdescriptors : machines = done.map fun sm => ⟨sm.name, sm.readFromFile⟩ := h.descriptors
    have hlen : machines.length = done.length := by
      rw [hdescriptors, List.length_map]
    have hsm : hbc[machines.length]? = some sm := by
      rw [hwhole, hlen]
      simp
    unfold firstPassLookups at hl
    simp only at hl
    split at hl
    · exact absurd hl List.not_mem_nil
    · split at hl
      · exact absurd hl List.not_mem_nil
      · have hstart : InProgress g sm g.size machines.length
            (addStates g machines.length sm.name sm.stateset, 0) := by
          refine ⟨[], rfl, rfl, building_addStates sm.name sm.stateset h.bounded fun v w _ hw => ?_⟩
          rw [hlen]
          exact h.known v w hw
        refine forall_foldTrace_of_step ?_ (fun clause state h => ?_) hstart l hl
        · rintro clause state state' ⟨entries, h⟩ hstep
          exact ⟨_, h.addInClause hstep⟩
        · exact InProgress.inClause h hsm
  · exact ⟨rfl, fun e he => absurd he List.not_mem_nil, fun v w hw => by simp [Graph.empty] at hw,
      fun m sm hm => by simp at hm⟩

end

/-! ## Every program -/

/-- **The ids are unique** in every graph that the compiler comes to, so the names in a file
are, and every lookup while the graph is built finds the state it is for. -/
theorem unique_names (fp : FloatPrinter) (tables : Tables) (hbc : HbcDoc) :
    (∀ g, Stage fp hbc g → g.DistinctIds) ∧
    (∀ files, hbcomp tables fp hbc = .ok files →
      ∀ device text, (device, text) ∈ files → (blockNames text).Nodup) ∧
    ∀ l ∈ graphBuilderLookups fp hbc, l.FindsState hbc := by
  refine ⟨fun g h => h.distinctIds, fun files hrun device text hmem => ?_,
    findsState_graphBuilder fp hbc⟩
  obtain ⟨machines, machineId, sm, g, g', g'', hgraph, hhalved, hexpanded, hprinted⟩ :=
    hbcomp_ok hrun hmem
  have hdistinct := hgraph.2.2.2.distinctIds
  exact (distinctIds_expandMultipleWrites
    (distinctIds_expandComplexConditions hdistinct hhalved) hexpanded).nodup_blockNames hprinted

/-- The theorem at a program with two states. -/
theorem initSecond_unique_names :
    (∃ g machines, graphBuilder bitPrinter initSecond = .ok (g, machines) ∧ g.DistinctIds) ∧
    (∃ text, hbcomp lampTables bitPrinter initSecond = .ok [(lampName, text)] ∧
      (blockNames text).Nodup) ∧
    (graphBuilderLookups bitPrinter initSecond).length = 4 ∧
    ∀ l ∈ graphBuilderLookups bitPrinter initSecond, l.FindsState initSecond := by
  obtain ⟨hstages, hfiles, hlookups⟩ := unique_names bitPrinter lampTables initSecond
  have hbuilt : ∃ g machines, graphBuilder bitPrinter initSecond = .ok (g, machines) :=
    ⟨_, _, rfl⟩
  have hcompiled : ∃ text, hbcomp lampTables bitPrinter initSecond = .ok [(lampName, text)] :=
    ⟨_, rfl⟩
  obtain ⟨g, machines, hg⟩ := hbuilt
  obtain ⟨text, htext⟩ := hcompiled
  exact ⟨⟨g, machines, hg, hstages g (.built hg)⟩,
    ⟨text, htext, hfiles _ htext lampName text (List.mem_singleton_self _)⟩, rfl, hlookups⟩

end Hexabus.Hbc
