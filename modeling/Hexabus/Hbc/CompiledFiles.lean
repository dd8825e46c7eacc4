import Hexabus.Hbc.CompiledMachines
import Hexabus.Hbc.GeneratedFiles
import Hexabus.Hbc.HbaRoundTrip

/-!
# From a file to the machine

What the assembler reads of a device's file is the program that is printed from the graph of the
one machine that writes the device. The lines that it numbers play no part in what it means.
-/

namespace Hexabus.Asm

open Lib.Bytes Firmware

/-! ## Lines -/

section

variable {blocks : List HbaDocBlock}

@[simp] theorem name_unnumbered (block : HbaDocBlock) : block.unnumbered.name = block.name := by
  cases block <;> rfl

@[simp] theorem isState_unnumbered (block : HbaDocBlock) :
    block.unnumbered.isState = block.isState := by
  cases block <;> rfl

theorem stateDocs_unnumbered (blocks : List HbaDocBlock) :
    stateDocs (blocks.map HbaDocBlock.unnumbered) = (stateDocs blocks).map StateDoc.unnumbered := by
  induction blocks with
  | nil => rfl
  | cons block blocks ih =>
    cases block with
    | state doc => exact congrArg (doc.unnumbered :: ·) ih
    | condition doc => exact ih

theorem conditionDocs_unnumbered (blocks : List HbaDocBlock) :
    conditionDocs (blocks.map HbaDocBlock.unnumbered) =
      (conditionDocs blocks).map fun doc => { doc with lineno := 0 } := by
  induction blocks with
  | nil => rfl
  | cons block blocks ih =>
    cases block with
    | state doc => exact ih
    | condition doc => exact congrArg ({ doc with lineno := 0 } :: ·) ih

theorem clausesOf_unnumbered (blocks : List HbaDocBlock) :
    clausesOf (blocks.map HbaDocBlock.unnumbered) =
      (clausesOf blocks).map fun entry => (entry.1, entry.2.unnumbered) := by
  unfold clausesOf
  rw [stateDocs_unnumbered, List.flatMap_map, List.map_flatMap]
  refine List.flatMap_congr fun doc _ => ?_
  rw [StateDoc.unnumbered, List.map_map, List.map_map]
  rfl

theorem firstState_unnumbered (blocks : List HbaDocBlock) :
    firstState (blocks.map HbaDocBlock.unnumbered) = firstState blocks := by
  unfold firstState
  rw [stateDocs_unnumbered]
  cases stateDocs blocks <;> rfl

/-- A program is tidy if it is without its lines. -/
theorem tidy_of_unnumbered (h : Tidy (blocks.map HbaDocBlock.unnumbered)) : Tidy blocks where
  ordered := by
    have hordered := List.pairwise_map.mp h.ordered
    simpa only [isState_unnumbered] using hordered
  names := by
    have hnames := h.names
    rw [List.map_map] at hnames
    have heq : HbaDocBlock.name ∘ HbaDocBlock.unnumbered = HbaDocBlock.name :=
      funext name_unnumbered
    rwa [heq] at hnames
  condition := by
    intro doc hdoc clause hclause hname
    have hstate := List.mem_map_of_mem (f := StateDoc.unnumbered) hdoc
    rw [← stateDocs_unnumbered] at hstate
    obtain ⟨c, hc, heq⟩ := h.condition _ hstate clause.unnumbered (List.mem_map_of_mem hclause) hname
    rw [conditionDocs_unnumbered] at hc
    obtain ⟨c', hc', rfl⟩ := List.mem_map.mp hc
    exact ⟨c', hc', heq⟩
  good := by
    intro doc hdoc clause hclause
    have hstate := List.mem_map_of_mem (f := StateDoc.unnumbered) hdoc
    rw [← stateDocs_unnumbered] at hstate
    obtain ⟨s, hs, heq⟩ := h.good _ hstate clause.unnumbered (List.mem_map_of_mem hclause)
    rw [stateDocs_unnumbered] at hs
    obtain ⟨s', hs', rfl⟩ := List.mem_map.mp hs
    exact ⟨s', hs', heq⟩
  bad := by
    intro doc hdoc clause hclause
    have hstate := List.mem_map_of_mem (f := StateDoc.unnumbered) hdoc
    rw [← stateDocs_unnumbered] at hstate
    obtain ⟨s, hs, heq⟩ := h.bad _ hstate clause.unnumbered (List.mem_map_of_mem hclause)
    rw [stateDocs_unnumbered] at hs
    obtain ⟨s', hs', rfl⟩ := List.mem_map.mp hs
    exact ⟨s', hs', heq⟩

theorem bears_unnumbered {name : String} (h : Bears blocks name) :
    Bears (blocks.map HbaDocBlock.unnumbered) name := by
  obtain ⟨block, hmem, hname⟩ := h
  exact ⟨_, List.mem_map_of_mem hmem, (name_unnumbered block).trans hname⟩

/-- What is accepted is accepted without its lines. -/
theorem resolves_unnumbered {env : Environment} (h : Resolves env blocks) :
    Resolves env (blocks.map HbaDocBlock.unnumbered) := by
  intro block hblock
  obtain ⟨block', hmem, rfl⟩ := List.mem_map.mp hblock
  have hresolves := h block' hmem
  cases block' with
  | condition doc => exact hresolves
  | state doc =>
    intro clause hclause
    obtain ⟨clause', hclause', rfl⟩ := List.mem_map.mp hclause
    obtain ⟨hgood, hbad, hcond, hdatatype⟩ := hresolves clause' hclause'
    exact ⟨bears_unnumbered hgood, bears_unnumbered hbad, fun hname => bears_unnumbered (hcond hname),
      hdatatype⟩

end

section

variable {δ : Type} (env : Environment) (ast : HbaDoc) (chain : EndpointChain (Dev δ)) (loc : Locals)

theorem holds_unnumbered (m : Machine δ) (occasion : Occasion) (clause : IfClauseDoc) :
    m.holds env ast.unnumbered occasion clause.unnumbered = m.holds env ast occasion clause := by
  have hname : clause.unnumbered.name = clause.name := rfl
  have hfind : (conditionDocs ast.unnumbered.blocks).find? (fun doc => doc.name = clause.name) =
      ((conditionDocs ast.blocks).find? fun doc => doc.name = clause.name).map
        fun doc => { doc with lineno := 0 } := by
    show (conditionDocs (ast.blocks.map HbaDocBlock.unnumbered)).find? _ = _
    rw [conditionDocs_unnumbered, List.find?_map]
    rfl
  unfold Machine.holds
  rw [hname, hfind]
  cases (conditionDocs ast.blocks).find? fun doc => doc.name = clause.name <;> rfl

theorem tryAll_unnumbered (occasion : Occasion) (clauses : List (String × IfClauseDoc))
    (m : Machine δ) :
    m.tryAll env ast.unnumbered chain loc occasion
        (clauses.map fun entry => (entry.1, entry.2.unnumbered)) =
      m.tryAll env ast chain loc occasion clauses := by
  induction clauses generalizing m with
  | nil => rfl
  | cons entry clauses ih =>
    obtain ⟨state, clause⟩ := entry
    rw [List.map_cons, Machine.tryAll, Machine.tryAll, holds_unnumbered, ih, ih]
    rfl

theorem on_unnumbered (occasion : Occasion) (m : Machine δ) :
    m.on env ast.unnumbered chain loc occasion = m.on env ast chain loc occasion := by
  unfold Machine.on
  show (if m.running then m.tryAll env ast.unnumbered chain loc occasion
    (clausesOf (ast.blocks.map HbaDocBlock.unnumbered)) else m) = _
  rw [clausesOf_unnumbered, tryAll_unnumbered]

/-- **Lines mean nothing.** -/
theorem step_unnumbered : Machine.step env ast.unnumbered chain loc = Machine.step env ast chain loc := by
  have hfirst : firstState ast.unnumbered.blocks = firstState ast.blocks :=
    firstState_unnumbered ast.blocks
  have hstart : ∀ m : Machine δ, m.start ast.unnumbered = m.start ast := by
    intro m
    unfold Machine.start
    rw [hfirst]
  funext a m
  cases a with
  | info envelope => exact on_unnumbered env ast chain loc _ m
  | broadcast eid =>
    unfold Machine.step
    simp only [on_unnumbered]
  | smStop => rfl
  | smStart => exact hstart m
  | smRestart => exact hstart m.stop
  | device dev eeprom => rfl
  | clock timestamp currentDt timeValid => rfl
  | tick => exact on_unnumbered env ast chain loc _ m
  | udp up =>
    unfold Machine.step
    simp only [on_unnumbered, hfirst]
    rfl

end

end Hexabus.Asm

namespace Hexabus.Hbc

open Lib.Expectation Lib.Folds

/-! ## The graph of a device -/

section

variable {fp : FloatPrinter} {hbc : HbcDoc} {device : Identifier} {machineId : Nat}
  {sm : StatemachineDoc} {g g' g'' : Graph}

/-- The names and files of the machines of a program. -/
def descriptors (hbc : HbcDoc) : List MachineDescriptor :=
  hbc.map fun sm => ⟨sm.name, sm.readFromFile⟩

/-- **Where the graph of a device comes from**: it is that of the machine that writes the device,
and no other machine does. -/
theorem deviceGraph_of_writes {machines : List MachineDescriptor}
    {graphs : List (Identifier × Graph)} (h : simplifiedGraphs fp hbc = .ok (machines, graphs))
    (hmem : (device, g') ∈ graphs) (hsm : sm ∈ hbc) (hwrites : sm.Writes device) :
    machines = descriptors hbc ∧ ∃ machineId g, DeviceGraph hbc device machineId sm g ∧
      expandComplexConditions fp g = .ok g' := by
  unfold simplifiedGraphs at h
  obtain ⟨state, hbuild, h⟩ := bind_ok_iff.mp h
  obtain ⟨slices, hslices, h⟩ := bind_ok_iff.mp h
  obtain ⟨owns, howns, h⟩ := bind_ok_iff.mp h
  obtain ⟨halves, hhalves, hret⟩ := bind_ok_iff.mp h
  cases hret
  have hbuilt := built_graphBuilder hbuild
  obtain ⟨hiff, hwell⟩ := sliceDevices_spec fp hbuilt.machineClosed state.2
  have hrun : sliceDevices fp state.1 state.2 = .ok owns :=
    bind_ok_iff.mpr ⟨slices, hslices, howns⟩
  have hseparate := (hiff.mp ⟨owns, hrun⟩).2
  obtain ⟨g, hg, hhalve⟩ := mem_onGraphs hhalves hmem
  obtain ⟨m, hm, hcopy⟩ := (hwell owns hrun).origin _ g hg
  obtain ⟨sm', hgraph⟩ := deviceGraph_of_ownCopy hbuild hslices howns hg hm hcopy
  -- the machine of the graph and the one that writes are the same
  obtain ⟨m', hm'⟩ := List.mem_iff_getElem?.mp hsm
  obtain ⟨offset, hat⟩ := hbuilt.machine m' sm hm'
  obtain rfl := hseparate m m' device hm (hat.writesDevice_iff.mpr hwrites)
  cases hgraph.1.symm.trans hm'
  exact ⟨hbuilt.descriptors, m, g, hgraph, hhalve⟩

variable (h : DeviceGraph hbc device machineId sm g) (hhalve : expandComplexConditions fp g = .ok g')
  (hexpand : expandMultipleWrites fp g' = .ok g'')
include h hhalve hexpand

theorem DeviceGraph.distinctIds : g''.DistinctIds :=
  distinctIds_expandMultipleWrites
    (distinctIds_expandComplexConditions h.2.2.2.distinctIds hhalve) hexpand

theorem DeviceGraph.keepsStates : KeepsStates g g'' :=
  (keepsStates_expandComplexConditions h.machineGraph h.2.2.2.quiet hhalve).trans
    (keepsStates_expandMultipleWrites hexpand)

/-- The states of the machine are the first vertices. -/
theorem DeviceGraph.stateVertex {k : Nat} (hk : k < sm.stateset.length) :
    ∃ w, g''.vertices[k]? = some w ∧ w.contents = .state ∧ w.machineId = machineId ∧
      w.vertexId = k := by
  have hstate := h.2.2.2.shape.state k _ (List.getElem?_eq_getElem hk)
  rw [Nat.zero_add] at hstate
  exact ⟨_, (h.keepsStates hhalve hexpand).states _ _ hstate rfl, rfl, rfl, rfl⟩

/-- A vertex that is called like an initial state is one of the machine. -/
theorem DeviceGraph.machineId_of_init {w : Vertex} (hw : w ∈ g''.vertices)
    (hname : namesInit w.name = true) : w.machineId = machineId := by
  obtain ⟨v, hv⟩ := List.mem_iff_getElem?.mp hw
  rcases (h.keepsStates hhalve hexpand).inits v w hv with hold | hquiet
  · have hlt : v < g.size := (List.getElem?_eq_some_iff.mp hold).1
    have hsize := h.2.2.2.size
    exact h.2.2.2.shape.machineId_eq (Nat.zero_le v) (by omega) hold
  · rw [hquiet.notInit] at hname
    cases hname

end

/-! ## The program of a file -/

section

variable {tables : Tables} {machines : List MachineDescriptor} {device : Identifier} {g : Graph}
  {text : HbaText} {ast : Asm.HbaDoc}

/-- The id of the program is that of its machine. -/
theorem parse_machineId {m : Nat} (h : hbaOutput tables machines device g = .ok text)
    (hparse : text.parse = some ast)
    (hinit : ∀ w ∈ g.vertices, namesInit w.name = true → w.machineId = m) :
    ast.machineId =
      tables.machineId (((machines[m]?).map MachineDescriptor.name).getD []) := by
  obtain ⟨-, w, hone, -, hid⟩ := parse_start h hparse
  obtain ⟨hmem, hname⟩ := List.mem_filter.mp (hone ▸ List.mem_singleton_self w)
  rw [hid, hinit w hmem hname]

variable {fp : FloatPrinter} {floatValue : Text → UInt32} {version : Text} {hbc : HbcDoc}
  {files : List (Identifier × Text)} {file : Text} {sm : StatemachineDoc} {env : Asm.Environment}

/-- **The program of a file** is printed from the graph of the machine that writes the device. -/
theorem compiledDoc_of_file (hprint : ∀ bits, Written.IsFloat (fp.print bits))
    (hzero : floatValue (fp.print 0) = 0) (hversion : version.all (!isLineEnd ·) = true)
    (h : hbcompFiles fp version tables hbc = .ok files) (hmem : (device, file) ∈ files)
    (hparse : Asm.Grammar.parse floatValue file = some ast) (hsm : sm ∈ hbc)
    (hwrites : sm.Writes device) (hresolves : Asm.Resolves env ast.blocks)
    (htyped : env.datatypes 0 ≠ some .undefined) :
    ∃ machineId g n, CompiledDoc env (tables.rereading (floatValue ∘ fp.print)) (descriptors hbc)
      device machineId sm g n ast.unnumbered := by
  obtain ⟨⟨machines, graphs⟩, hgraphs, h⟩ := bind_ok_iff.mp h
  obtain ⟨expanded, hexpanded, hwritten⟩ := bind_ok_iff.mp h
  obtain ⟨⟨device₀, g''⟩, hg'', hfile⟩ := exists_of_mapM_ok hwritten hmem
  obtain ⟨text₀, htext₀, hret⟩ := bind_ok_iff.mp hfile
  cases hret
  obtain ⟨g', hg', hexpand⟩ := mem_onGraphs hexpanded hg''
  obtain ⟨rfl, machineId, g, hgraph, hhalve⟩ := deviceGraph_of_writes hgraphs hg' hsm hwrites
  obtain ⟨maxId, hsimplified⟩ := simplified_of_passes hgraph.2.2.2 hhalve hexpand
  -- what the assembler reads of the text
  obtain ⟨text, hprinted, hread⟩ :=
    parse_hbaFile fp floatValue version tables _ _ g'' file hprint hzero hversion htext₀
  rw [hparse, Option.map_some] at hread
  have hname : (descriptors hbc)[machineId]? = some ⟨sm.name, sm.readFromFile⟩ := by
    unfold descriptors
    rw [List.getElem?_map, hgraph.1]
    rfl
  have hid := parse_machineId hprinted hread.symm fun w => hgraph.machineId_of_init hhalve hexpand
  rw [hname] at hid
  obtain ⟨b, hb, -⟩ := hwrites
  exact ⟨machineId, g'', g'.size, {
    printed := ⟨text, hprinted, (parse_start hprinted hread.symm).1⟩
    distinct := hgraph.distinctIds hhalve hexpand
    tried := fun k hk => hsimplified.tried hgraph.2.2.1 hk
    state := fun k hk => hgraph.stateVertex hhalve hexpand hk
    sets := fun m block hm => hsimplified.sets hgraph.2.2.1 _ hm
    resolves := Asm.resolves_unnumbered hresolves
    typed := htyped
    pos := Nat.zero_lt_of_lt
      (hgraph.2.2.2.shape.inRange _ (List.mem_map_of_mem hb)).1
    id := hid }⟩

end

end Hexabus.Hbc
