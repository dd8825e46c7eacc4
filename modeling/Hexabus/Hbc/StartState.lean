import Hexabus.Hbc.ClausePriority
import Hexabus.Asm.Generator
import Hexabus.Firmware.Process
import Hexabus.Firmware.SingleFiring

/-!
# The start state

`sm_start` enters state number 0. The assembler numbers the states in the order of the file
and only marks the vertex of the start state; the compiler prints the states in the order of
the machine's `states` and prints `init` as the start state, wherever it stands.
-/

namespace Hexabus.Hbc

open Lib.Folds Firmware

variable {δ : Type}

/-- A machine that is started is in the state with this name: the assembler has given the
machine's number to the block of that state. -/
def StartsIn (s : Fw δ) (blocks : List Asm.HbaDocBlock) (name : String) : Prop :=
  ∃ doc, (Asm.stateDocs (Asm.firstPass 0 0 blocks).1).find?
    (fun doc => doc.id = (smStart s).curState.toNat) = some doc ∧ doc.name = name

/-! ## The numbers of the assembler -/

/-- The states are numbered from the first one on. -/
theorem find?_firstPass (stateId conditionId : Nat) (blocks : List Asm.HbaDocBlock) :
    ((Asm.stateDocs (Asm.firstPass stateId conditionId blocks).1).find?
        fun doc => doc.id = stateId).map Asm.StateDoc.name =
      (Asm.stateDocs blocks).head?.map Asm.StateDoc.name := by
  induction blocks generalizing conditionId with
  | nil => rfl
  | cons block blocks ih =>
    cases block with
    | condition doc => exact ih (conditionId + 1)
    | state doc =>
      rw [Asm.firstPass]
      simp only [Asm.stateDocs_state, List.find?_cons, decide_true, List.head?_cons,
        Option.map_some]

/-- The first state bears the name. -/
theorem findIdx?_eq_zero_iff (docs : List Asm.StateDoc) (name : String) :
    docs.findIdx? (fun doc => doc.name = name) = some 0 ↔
      docs.head?.map Asm.StateDoc.name = some name := by
  cases docs with
  | nil => simp
  | cons doc docs =>
    by_cases hname : doc.name = name
    · simp [List.findIdx?_cons, hname]
    · simp [List.findIdx?_cons, hname]

/-- **When the firmware starts in a state of a file**. -/
theorem startsIn_iff {s : Fw δ} (hs : smIsRunning s = false) (blocks : List Asm.HbaDocBlock)
    (name : String) : StartsIn s blocks name ↔
      (Asm.stateDocs blocks).findIdx? (fun doc => doc.name = name) = some 0 := by
  have hcur : (smStart s).curState = 0 := by
    unfold smStart
    rw [hs]
    rfl
  unfold StartsIn
  rw [hcur, findIdx?_eq_zero_iff, ← find?_firstPass 0 0 blocks, Option.map_eq_some_iff]
  rfl

/-! ## The names of states -/

/-- What stands behind the last dot. -/
theorem afterDot_inj {p p' s s' : Text} (hs : '.' ∉ s) (hs' : '.' ∉ s')
    (h : p ++ '.' :: s = p' ++ '.' :: s') : s = s' := by
  have hback : ∀ p s : Text, '.' ∉ s →
      ((p ++ '.' :: s).reverse.takeWhile fun c => c ≠ '.').reverse = s := by
    intro p s hs
    rw [List.reverse_append, List.reverse_cons, List.append_assoc,
      List.takeWhile_append_of_pos fun c hc => ?_]
    · rw [List.singleton_append, List.takeWhile_cons_of_neg (by simp), List.append_nil,
        List.reverse_reverse]
    · have : c ∈ s := List.mem_reverse.mp hc
      simp only [ne_eq, decide_eq_true_eq]
      rintro rfl
      exact hs this
  rw [← hback p s hs, h, hback p' s' hs']

theorem Identifier.notMem (s : Identifier) {c : Char} (hc : identifierRest c = false) :
    c ∉ s.val := by
  intro hmem
  rw [Identifier.mem hmem] at hc
  cases hc

/-- A state's vertex is called like an initial state exactly if the state is `init`. -/
theorem namesInit_stateVertexName (machineId k : Nat) (machine : Text) (s : Identifier) :
    namesInit (replaceNewline (stateVertexName machineId k machine s)) = true ↔ s = initName := by
  have hdot : '.' ∉ s.val := s.notMem (by decide)
  have hline : '\n' ∉ s.val := s.notMem (by decide)
  -- the name of the state is what stands behind the last dot
  have hname : ∃ front, front ≠ [] ∧
      replaceNewline (stateVertexName machineId k machine s) = front ++ '.' :: s.val := by
    refine ⟨replaceNewline ('(' :: printUint machineId ++ '.' :: printUint k ++ ") \\n".toList ++
      machine), ?_, ?_⟩
    · rw [List.cons_append, List.cons_append, List.cons_append]
      exact List.cons_ne_nil _ _
    · unfold stateVertexName
      rw [replaceNewline_append]
      congr 1
      refine replaceNewline_eq_self fun hmem => ?_
      rcases List.mem_cons.mp hmem with h | h
      · exact absurd h (by decide)
      · exact hline h
  obtain ⟨front, hne, hname⟩ := hname
  rw [hname]
  unfold namesInit
  rw [Bool.and_eq_true, List.isSuffixOf_iff_suffix, decide_eq_true_eq]
  constructor
  · rintro ⟨-, rest, hrest⟩
    exact Subtype.ext (afterDot_inj (by decide : '.' ∉ initName.val) hdot hrest).symm
  · rintro rfl
    refine ⟨?_, front, rfl⟩
    have hpos := List.length_pos_of_ne_nil hne
    rw [List.length_append]
    have : ('.' :: initName.val).length = 5 := rfl
    omega

/-! ## The states of the output -/

variable {tables : Tables} {machines : List MachineDescriptor} {device : Identifier}
  {fp : FloatPrinter}

/-- The name of the state block of a vertex. -/
def Vertex.stateNames (w : Vertex) : List String :=
  match w.contents with
  | .state => [stateName w.machineId w.vertexId]
  | _ => []

theorem stateDocs_printState {g : Graph} {v : Nat} {w : Vertex} (hw : g.vertices[v]? = some w)
    {blocks : List Asm.HbaDocBlock} (h : printState tables machines g v = .ok blocks) :
    (Asm.stateDocs blocks).map Asm.StateDoc.name = w.stateNames := by
  obtain ⟨name, machineId, vertexId, contents⟩ := w
  unfold printState at h
  rw [hw] at h
  cases contents with
  | state =>
    obtain ⟨clauses, -, hret⟩ := bind_ok_iff.mp h
    cases hret
    rfl
  | cond condition => cases h; rfl
  | command block => cases h; rfl

theorem stateDocs_flatten {g : Graph} {vs : List Nat} (hvs : ∀ v ∈ vs, v < g.size)
    {blocks : List (List Asm.HbaDocBlock)}
    (h : vs.mapM (printState tables machines g) = .ok blocks) :
    (Asm.stateDocs blocks.flatten).map Asm.StateDoc.name =
      vs.flatMap fun v => (g.vertices[v]?).elim [] Vertex.stateNames := by
  have hall := forall₂_of_mapM_ok h
  clear h
  induction hall with
  | nil => rfl
  | @cons v blocks vs rest hv _ ih =>
    have hw := List.getElem?_eq_getElem (hvs v List.mem_cons_self : v < g.vertices.length)
    rw [List.flatten_cons, stateDocs_append, List.map_append, stateDocs_printState hw hv,
      List.flatMap_cons, ih fun v hv => hvs v (List.mem_cons_of_mem _ hv), hw]
    rfl

/-- **The state blocks** come in the order of the vertices. -/
theorem stateDocs_hbaOutput {g : Graph} {text : HbaText}
    (h : hbaOutput tables machines device g = .ok text) :
    (Asm.stateDocs text.blocks).map Asm.StateDoc.name =
      (List.range g.size).flatMap fun v => (g.vertices[v]?).elim [] Vertex.stateNames := by
  unfold hbaOutput at h
  split at h
  · cases h
  · obtain ⟨conditions, hconditions, hrest⟩ := bind_ok_iff.mp h
    obtain ⟨states, hstates, hret⟩ := bind_ok_iff.mp hrest
    cases hret
    simp only
    rw [stateDocs_append, (conditions_flatten_spec hconditions).2, List.nil_append]
    exact stateDocs_flatten (fun v hv => List.mem_range.mp hv) hstates

/-- The first state blocks are those of the machine's states. -/
theorem findIdx?_stateDocs {g : Graph} {text : HbaText} {machineId n : Nat}
    (h : hbaOutput tables machines device g = .ok text)
    (hstates : ∀ k, k < n → ∃ w, g.vertices[k]? = some w ∧ w.contents = .state ∧
      w.machineId = machineId ∧ w.vertexId = k) {k : Nat} (hk : k < n) :
    (Asm.stateDocs text.blocks).findIdx? (fun doc => doc.name = stateName machineId k) =
      some k := by
  have hnames := stateDocs_hbaOutput h
  have hsize : n ≤ g.size := by
    by_contra hlt
    obtain ⟨w, hw, -⟩ := hstates (n - 1) (by omega)
    have : n - 1 < g.size := (List.getElem?_eq_some_iff.mp hw).1
    omega
  obtain ⟨d, hd⟩ := Nat.exists_eq_add_of_le hsize
  have hfront : (List.range n).flatMap (fun v => (g.vertices[v]?).elim [] Vertex.stateNames) =
      (List.range n).map (stateName machineId) := by
    rw [← List.flatMap_singleton' ((List.range n).map _), List.flatMap_map]
    refine List.flatMap_congr fun v hv => ?_
    obtain ⟨w, hw, hc, hm, hid⟩ := hstates v (List.mem_range.mp hv)
    rw [hw, Option.elim_some, Vertex.stateNames, hc, hm, hid]
  rw [hd, List.range_add, List.flatMap_append, hfront] at hnames
  have hidx : ((Asm.stateDocs text.blocks).map Asm.StateDoc.name).findIdx?
      (fun name => name = stateName machineId k) = some k := by
    rw [hnames, List.findIdx?_append]
    have hin : ((List.range n).map (stateName machineId)).findIdx?
        (fun name => name = stateName machineId k) = some k := by
      refine List.findIdx?_eq_some_iff_getElem.mpr ⟨by simpa using hk, ?_, fun j hj => ?_⟩
      · simp
      · simp only [List.getElem_map, List.getElem_range, decide_eq_true_eq]
        intro heq
        have := (stateName_inj heq).2
        omega
    rw [hin]
    rfl
  rwa [List.findIdx?_map] at hidx

/-- A vertex of a machine that is called like an initial state is a state `init`. -/
theorem Slice.init_of_namesInit {g : Graph} {machineId : Nat} {sm : StatemachineDoc}
    {blocks : List ResolvedBlock} (h : Slice g machineId sm blocks) {v : Nat} {w : Vertex}
    (hw : g.vertices[v]? = some w) (hname : namesInit w.name = true) :
    ∃ k : Nat, sm.stateset[k]? = some initName := by
  have hlt : v < g.size := (List.getElem?_eq_some_iff.mp hw).1
  have hsize := h.size
  rcases @vertex_cases 0 sm.stateset blocks v (Nat.zero_le v) (by omega) with
    ⟨k, hk, rfl⟩ | ⟨j, b, hb, rfl | rfl⟩
  · have hstate := h.shape.state k _ (List.getElem?_eq_getElem hk)
    rw [hw] at hstate
    rw [Option.some.inj hstate] at hname
    have hinit := (namesInit_stateVertexName machineId k sm.name _).mp hname
    exact ⟨k, List.getElem?_eq_some_iff.mpr ⟨hk, hinit⟩⟩
  · obtain ⟨name, hplain, hcond⟩ := h.shape.cond j b hb
    rw [hw] at hcond
    rw [Option.some.inj hcond, hplain.notInit] at hname
    cases hname
  · obtain ⟨name, hplain, hcommand⟩ := h.shape.command j b hb
    rw [hw] at hcommand
    rw [Option.some.inj hcommand, hplain.notInit] at hname
    cases hname

/-- The one vertex that the start state is printed from. -/
theorem parse_start {g : Graph} {text : HbaText} {ast : Asm.HbaDoc}
    (h : hbaOutput tables machines device g = .ok text) (hparse : text.parse = some ast) :
    ast.blocks = text.blocks ∧ ∃ w, g.vertices.filter (fun v => namesInit v.name) = [w] ∧
      ast.startState = stateName w.machineId w.vertexId ∧
      ast.machineId =
        tables.machineId (((machines[w.machineId]?).map MachineDescriptor.name).getD []) := by
  have hstarts : text.starts = printStarts tables machines g := by
    unfold hbaOutput at h
    split at h
    · cases h
    · obtain ⟨conditions, -, hrest⟩ := bind_ok_iff.mp h
      obtain ⟨states, -, hret⟩ := bind_ok_iff.mp hrest
      cases hret
      rfl
  unfold HbaText.parse at hparse
  split at hparse
  · rename_i machineId startState hone
    cases hparse
    rw [hstarts] at hone
    unfold printStarts at hone
    obtain ⟨w, hw, heq⟩ := List.map_eq_singleton_iff.mp hone
    exact ⟨rfl, w, hw, (Prod.mk.inj heq).2.symm, (Prod.mk.inj heq).1.symm⟩
  · cases hparse

/-- **The start state of a compiled file**: the first `init` of the machine, and its block
stands where the state stands in the machine. -/
theorem hbcomp_startState {hbc : HbcDoc} {files : List (Identifier × HbaText)}
    (h : hbcomp tables fp hbc = .ok files) {text : HbaText} (hmem : (device, text) ∈ files)
    {ast : Asm.HbaDoc} (hparse : text.parse = some ast) :
    ∃ machineId sm k, hbc[machineId]? = some sm ∧ sm.findState initName = some k ∧
      ast.startState = stateName machineId k ∧
      (Asm.stateDocs ast.blocks).findIdx? (fun doc => doc.name = stateName machineId k) =
        some k := by
  obtain ⟨machines, machineId, sm, g, g', g'', hgraph, hrun, hwrites, houtput⟩ := hbcomp_ok h hmem
  have hslice := hgraph.2.2.2
  have hkeeps := (keepsStates_expandComplexConditions hslice.machineGraph hslice.quiet hrun).trans
    (keepsStates_expandMultipleWrites hwrites)
  obtain ⟨hblocks, w, hone, hstart, -⟩ := parse_start houtput hparse
  have hstate : ∀ (k : Nat) (s : Identifier), sm.stateset[k]? = some s → g''.vertices[k]? =
      some ⟨replaceNewline (stateVertexName machineId k sm.name s), machineId, k, .state⟩ := by
    intro k s hs
    have hv := hslice.shape.state k s hs
    rw [Nat.zero_add] at hv
    exact hkeeps.states k _ hv rfl
  -- every `init` of the machine is the vertex that is printed
  have hinit : ∀ k : Nat, sm.stateset[k]? = some initName →
      w.machineId = machineId ∧ w.vertexId = k := by
    intro k hk
    obtain ⟨w₀, hw₀, hname, hm, hid⟩ : ∃ w₀ : Vertex, g''.vertices[k]? = some w₀ ∧
        namesInit w₀.name = true ∧ w₀.machineId = machineId ∧ w₀.vertexId = k :=
      ⟨_, hstate k initName hk, (namesInit_stateVertexName machineId k sm.name initName).mpr rfl,
        rfl, rfl⟩
    have hin : w₀ ∈ g''.vertices.filter fun v => namesInit v.name :=
      List.mem_filter.mpr ⟨List.mem_of_getElem? hw₀, hname⟩
    rw [hone] at hin
    obtain rfl := List.mem_singleton.mp hin
    exact ⟨hm, hid⟩
  have hexists : ∃ k : Nat, sm.stateset[k]? = some initName := by
    have hw : w ∈ g''.vertices.filter fun v => namesInit v.name := by
      rw [hone]
      exact List.mem_singleton_self w
    obtain ⟨hmem, hname⟩ := List.mem_filter.mp hw
    obtain ⟨v, hv⟩ := List.getElem?_of_mem hmem
    rcases hkeeps.inits v w hv with hv | hquiet
    · exact hslice.init_of_namesInit hv hname
    · rw [hquiet.notInit] at hname
      cases hname
  obtain ⟨k₀, hk₀⟩ := hexists
  have hfound : ∃ k, sm.findState initName = some k := by
    refine Option.ne_none_iff_exists'.mp fun hnone => ?_
    have := List.findIdx?_eq_none_iff.mp hnone initName (List.mem_of_getElem? hk₀)
    simp at this
  obtain ⟨k, hk⟩ := hfound
  obtain ⟨hlt, hname, -⟩ := List.findIdx?_eq_some_iff_getElem.mp hk
  obtain ⟨hm, hid⟩ := hinit k (List.getElem?_eq_some_iff.mpr ⟨hlt, by simpa using hname⟩)
  refine ⟨machineId, sm, k, hgraph.1, hk, by rw [hstart, hm, hid], ?_⟩
  rw [hblocks]
  refine findIdx?_stateDocs houtput (fun j hj => ?_) hlt
  exact ⟨_, hstate j _ (List.getElem?_eq_getElem hj), rfl, rfl, rfl⟩

/-! ## The start state -/

/-- **The start state**: a file starts in the state that it names exactly if the block of
that state is the first; and a compiled file, which names the first `init` of its machine,
exactly if that is the machine's first state. -/
theorem startState_iff (s : Fw δ) (hs : smIsRunning s = false) :
    (∀ ast : Asm.HbaDoc, StartsIn s ast.blocks ast.startState ↔
      (Asm.stateDocs ast.blocks).findIdx? (fun doc => doc.name = ast.startState) = some 0) ∧
    ∀ (tables : Tables) (fp : FloatPrinter) (hbc : HbcDoc) (files : List (Identifier × HbaText)),
      hbcomp tables fp hbc = .ok files → ∀ (device : Identifier) (text : HbaText)
        (ast : Asm.HbaDoc), (device, text) ∈ files → text.parse = some ast →
      ∃ machineId sm k, hbc[machineId]? = some sm ∧ sm.findState initName = some k ∧
        ast.startState = stateName machineId k ∧
        (StartsIn s ast.blocks (stateName machineId k) ↔ k = 0) := by
  refine ⟨fun ast => startsIn_iff hs ast.blocks ast.startState, ?_⟩
  intro tables fp hbc files h device text ast hmem hparse
  obtain ⟨machineId, sm, k, hsm, hk, hstart, hblock⟩ := hbcomp_startState h hmem hparse
  refine ⟨machineId, sm, k, hsm, hk, hstart, ?_⟩
  rw [startsIn_iff hs, hblock]
  exact Option.some_inj

/-- A machine that has not been started. -/
def stoppedMachine : Fw Unit := smStop chainMachine

/-- Two states; the second is the start state. -/
def startsSecond : Asm.HbaDoc where
  targetIp := ⟨List.replicate 32 0, Asm.length_zeroDigits⟩
  deviceName := []
  machineId := []
  startState := "on"
  blocks := [
    .state ⟨1, "off", [⟨2, "true", 1, 0, "on", "on"⟩], 0⟩,
    .state ⟨3, "on", [⟨4, "true", 1, 1, "off", "off"⟩], 0⟩]

theorem isIdentifier_on : isIdentifier "on".toList = true := rfl

def onName : Identifier := ⟨"on".toList, isIdentifier_on⟩

/-- The same in a machine, whose states are `on` and `init`. -/
def initSecond : HbcDoc :=
  [⟨1, "lamps".toList, [onName, initName], [
    ⟨1, initName, [⟨⟨buttonIs 0x3f800000,
      ⟨[lampWrite lampEndpoint 0x3f800000], ⟨1, onName⟩⟩⟩, []⟩]⟩,
    ⟨2, onName, [⟨⟨buttonIs 0,
      ⟨[lampWrite lampEndpoint 0], ⟨2, initName⟩⟩⟩, []⟩]⟩],
    "lamps.hbc".toList⟩]

/-- The theorem at a stopped machine. -/
theorem stoppedMachine_startState :
    (∀ ast : Asm.HbaDoc, StartsIn stoppedMachine ast.blocks ast.startState ↔
      (Asm.stateDocs ast.blocks).findIdx? (fun doc => doc.name = ast.startState) = some 0) ∧
    ∀ (tables : Tables) (fp : FloatPrinter) (hbc : HbcDoc) (files : List (Identifier × HbaText)),
      hbcomp tables fp hbc = .ok files → ∀ (device : Identifier) (text : HbaText)
        (ast : Asm.HbaDoc), (device, text) ∈ files → text.parse = some ast →
      ∃ machineId sm k, hbc[machineId]? = some sm ∧ sm.findState initName = some k ∧
        ast.startState = stateName machineId k ∧
        (StartsIn stoppedMachine ast.blocks (stateName machineId k) ↔ k = 0) :=
  startState_iff stoppedMachine rfl

/-- **Another state is entered**: both files are translated, and both machines start in the
state that is not their start state. -/
theorem startsSecond_not_entered :
    smIsRunning stoppedMachine = false ∧
    (∃ image, Asm.hbasm ⟨fun _ => some .uint32, id, id, fun _ => Lib.Bytes.Block.zero 4⟩
      startsSecond = .ok image) ∧
    ¬ StartsIn stoppedMachine startsSecond.blocks startsSecond.startState ∧
    ∃ text ast, hbcomp lampTables bitPrinter initSecond =
        .ok [(lampName, text)] ∧ text.parse = some ast ∧
      ¬ StartsIn stoppedMachine ast.blocks ast.startState := by
  refine ⟨rfl, ⟨_, rfl⟩, ?_, ?_⟩
  · intro h
    have hidx : (Asm.stateDocs startsSecond.blocks).findIdx?
        (fun doc => doc.name = startsSecond.startState) = some 1 := by decide
    rw [startsIn_iff rfl, hidx] at h
    cases h
  · have hcompiled : ∃ text ast, hbcomp lampTables bitPrinter initSecond =
        .ok [(lampName, text)] ∧ text.parse = some ast := ⟨_, _, rfl, rfl⟩
    obtain ⟨text, ast, h, hparse⟩ := hcompiled
    refine ⟨text, ast, h, hparse, ?_⟩
    obtain ⟨machineId, sm, k, hsm, hk, hstart, hblock⟩ :=
      hbcomp_startState h (List.mem_singleton_self _) hparse
    rw [startsIn_iff rfl, hstart, hblock]
    cases machineId with
    | succ m => cases hsm
    | zero =>
      cases hsm
      cases hk
      intro h
      cases h

end Hexabus.Hbc
