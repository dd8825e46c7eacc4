import Hexabus.Hbc.CompiledFiles
import Hexabus.Upload.Execution

/-!
# From the source to the device

The compiler writes a file for the device, the assembler makes an image of it, the image is stored
chunk by chunk, and the firmware runs it. What the device then does is what the machine of the
source does.
-/

namespace Hexabus.Upload

open Lib.Bytes Lib.Expectation Lib.Runs Asm Firmware
open Hbc (Tables Identifier HbcDoc StatemachineDoc MachineDescriptor EndpointEntry FloatPrinter Controller
  CompiledDoc Alongside Text)

/-! ## The way to the image -/

/-- What the compiler and the assembler work with. -/
structure Toolchain where
  printer : FloatPrinter
  floatValue : Text → UInt32
  version : Text
  tables : Tables
  table : List EndpointEntry
  env : Environment

namespace Toolchain

variable (tools : Toolchain)

/-- The tables of the compiler. -/
def compiler : Tables := tools.tables.withEndpoints tools.table

/-- The assembler, with the data types that the compiler has written. -/
def assembler : Environment := tools.env.withDatatypes (Hbc.dtypeFile tools.table)

/-- What a constant of the program is for the assembler. -/
def meant : Tables := tools.compiler.rereading (tools.floatValue ∘ tools.printer.print)

end Toolchain

/-- The tools are in order: a printed number is one for the assembler, and zero stays zero; the
version is one line; and every endpoint has a data type. -/
structure InOrder (tools : Toolchain) : Prop where
  print : ∀ bits, Hbc.Written.IsFloat (tools.printer.print bits)
  zero : tools.floatValue (tools.printer.print 0) = 0
  version : tools.version.all (!isLineEnd ·) = true
  typed : ∀ entry ∈ tools.table, entry.dtype ≠ .undefined

/-- The image of a device that a machine of the program writes: the assembler makes it of the file
that the compiler writes for the device, and the device has room for it. -/
structure ImageOf (tools : Toolchain) (hbc : HbcDoc) (device : Identifier) (sm : StatemachineDoc)
    (ast : HbaDoc) (image : List UInt8) : Prop where
  file : ∃ files file, Hbc.hbcompFiles tools.printer tools.version tools.compiler hbc = .ok files ∧
    (device, file) ∈ files ∧ Asm.Grammar.parse tools.floatValue file = some ast
  machine : sm ∈ hbc
  writes : sm.Writes device
  assembled : hbasm tools.assembler ast = .ok image
  room : HasRoom tools.assembler ast

/-! ## A compiled program -/

section

variable {env : Environment} {tables : Tables} {machines : List MachineDescriptor}
  {device : Identifier} {machineId : Nat} {sm : StatemachineDoc} {g : Hbc.Graph} {n : Nat}
  {ast : HbaDoc}

/-- A printed condition means what it says. -/
theorem plain_printed (htimes : ∀ eid, env.datatypes eid ≠ some .datetime ∧
      env.datatypes eid ≠ some .timestamp) {w : Hbc.Vertex} {blocks : List HbaDocBlock}
    {doc : ConditionDoc} (h : Hbc.printConditions tables machines device w = .ok blocks)
    (hmem : .condition doc ∈ blocks) : Plain env doc.cond := by
  obtain ⟨condition, cond, -, hprinted, heq⟩ := Hbc.mem_printConditions h hmem
  cases heq
  cases hprinted with
  | atomic => exact htimes _
  | timeout => trivial
  | @timer field op =>
    exact ⟨by cases field <;> decide, by cases op <;> simp [Hbc.TimeOperator.code]⟩

/-- **The device can run it**, if it has room for it. -/
theorem runnable_compiled
    (h : CompiledDoc env tables machines device machineId sm g n ast.unnumbered)
    (hroom : HasRoom env ast) (htimes : ∀ eid, env.datatypes eid ≠ some .datetime ∧
      env.datatypes eid ≠ some .timestamp) : Runnable env ast := by
  have htidy : Tidy ast.blocks := tidy_of_unnumbered h.tidy
  refine ⟨htidy.assemblable hroom, htidy.wellNamed, hroom.conditions, ?_, ?_⟩
  · intro doc hdoc
    have hmem : { doc with lineno := 0 } ∈ conditionDocs ast.unnumbered.blocks := by
      show _ ∈ conditionDocs (ast.blocks.map HbaDocBlock.unnumbered)
      rw [conditionDocs_unnumbered]
      exact List.mem_map_of_mem hdoc
    obtain ⟨w, -, -, blocks, hprinted, hblock⟩ := h.conditionDoc hmem
    have hplain := plain_printed htimes hprinted hblock
    exact hplain
  · intro hnil
    obtain ⟨w, hw, hstate, -⟩ := h.state 0 h.pos
    obtain ⟨clauses, -, hmem⟩ := h.stateDoc hw hstate
    have hnone : stateDocs ast.unnumbered.blocks = [] := by
      show stateDocs (ast.blocks.map HbaDocBlock.unnumbered) = []
      rw [stateDocs_unnumbered, hnil, List.map_nil]
    rw [hnone] at hmem
    exact absurd hmem List.not_mem_nil

theorem stateNamed_unnumbered {i : Nat} {name : String} :
    StateNamed ast.unnumbered i name ↔ StateNamed ast i name := by
  have hstates : stateDocs ast.unnumbered.blocks = (stateDocs ast.blocks).map StateDoc.unnumbered :=
    stateDocs_unnumbered ast.blocks
  unfold StateNamed
  rw [hstates, List.getElem?_map, Option.map_map]
  rfl

variable {δ : Type} {c : Controller δ} {m : Machine δ}

/-- Where nothing is left to write, the number of the firmware's state is that of the machine's. -/
theorem state_eq_of_alongside
    (h : CompiledDoc env tables machines device machineId sm g n ast.unnumbered)
    (ha : Alongside g n sm c m) (hrunning : c.running = true) (hleft : c.left = []) {i : Nat}
    (hnamed : StateNamed ast i m.state) : i = c.state := by
  obtain ⟨u, w, hw, -, hname, hchain⟩ := ha.place hrunning
  rw [hleft] at hchain
  rw [hchain.eq_of_nil] at hw
  obtain ⟨w', hw', -, hmachine, hid⟩ := h.state c.state (ha.inside hrunning)
  rw [Option.some.inj (hw.symm.trans hw'), hmachine, hid] at hname
  obtain ⟨text, hprint, hblocks⟩ := h.printed
  have hfirst := Hbc.findIdx?_stateDocs hprint h.state (ha.inside hrunning)
  obtain ⟨hlt, hdoc, -⟩ := List.findIdx?_eq_some_iff_getElem.mp hfirst
  have hstate : StateNamed ast.unnumbered c.state m.state := by
    unfold StateNamed
    rw [hblocks, List.getElem?_eq_getElem hlt, hname]
    exact congrArg some (of_decide_eq_true hdoc)
  have hnames := (tidy_of_unnumbered h.tidy).wellNamed
  exact (stateNamed_inj hnames hnamed (stateNamed_unnumbered.mp hstate)).mp rfl

end

/-! ## The device -/

/-- The machine of the source on a device whose machine is stopped. -/
def stoppedController {δ : Type} (s : Fw δ) : Controller δ :=
  ⟨s.dev, s.eeprom, s.timestamp, s.currentDt, s.timeValid, false, 0, [], s.inStateSince⟩

section

variable {δ : Type} {tools : Toolchain} {hbc : HbcDoc} {device : Identifier} {sm : StatemachineDoc}
  {ast : HbaDoc} {image : List UInt8}

theorem ImageOf.compiledDoc (h : ImageOf tools hbc device sm ast image) (htools : InOrder tools) :
    ∃ machineId g n, CompiledDoc tools.assembler tools.meant (Hbc.descriptors hbc) device machineId
      sm g n ast.unnumbered := by
  obtain ⟨files, file, hfiles, hmem, hparse⟩ := h.file
  exact Hbc.compiledDoc_of_file htools.print htools.zero htools.version hfiles hmem hparse h.machine
    h.writes (hbasm_ok_iff.mp ⟨image, h.assembled⟩) (Hbc.typed_of_readDatatypes htools.typed)

/-- **The device does what the source says.** A machine of a program is compiled for a device,
assembled, and stored chunk by chunk, in whatever order and however often. Then in every run the
firmware writes the device as the machine does, its machine is running when that is, and where
nothing is left to write it is in the state of that number. -/
theorem run_follows_source (tools : Toolchain) (hbc : HbcDoc) (device : Identifier)
    (sm : StatemachineDoc) (ast : HbaDoc) (image : List UInt8) (eeprom : Mem) (order : List Nat)
    (chain : EndpointChain (Dev δ)) (loc : Locals) (n : Nat) (s : Fw δ) (steps : List (Step δ))
    (htools : InOrder tools) (h : ImageOf tools hbc device sm ast image)
    (horder : ∀ k ∈ order, k < (chunks image).length) (hall : ∀ k < (chunks image).length, k ∈ order)
    (hleaves : ∀ eid, sm.Sets tools.meant device eid → LeavesMachine chain eid)
    (heeprom : s.eeprom = storeChunks image eeprom order) (hstopped : s.pstate = .none)
    (hudp : processEventTimer < s.udpHandlerEvent) (hfree : s.udpHandlerEvent < s.lastevent)
    (hordinary : ∀ a ∈ steps, Ordinary ast s.eeprom a)
    (hnumber : s.lastevent.toNat + steps.countP starts ≤ 255) :
    let s' := Lib.Runs.run (step chain loc (n + 1)) s steps
    let c' := Lib.Runs.run (Controller.step tools.assembler tools.meant device chain loc sm)
      (stoppedController s) steps
    s'.dev = c'.dev ∧ s'.eeprom = c'.eeprom ∧ smIsRunning s' = c'.running ∧
      (c'.running = true → c'.left = [] → s'.curState.toNat = c'.state) := by
  intro s' c'
  obtain ⟨machineId, g, size, hdoc⟩ := h.compiledDoc htools
  -- the program that is stored
  have hrunnable := runnable_compiled hdoc h.room (Hbc.not_time_of_readDatatypes tools.table)
  have hclauses : ∀ event ∈ events ast.blocks, LeavesMachine chain event.clause.eid := by
    intro event hevent
    obtain ⟨doc, hmem, hclause⟩ := event_clause hevent
    have hstate : doc.unnumbered ∈ stateDocs ast.unnumbered.blocks := by
      show _ ∈ stateDocs (ast.blocks.map HbaDocBlock.unnumbered)
      rw [stateDocs_unnumbered]
      exact List.mem_map_of_mem hmem
    have hwritten : event.clause.unnumbered ∈ doc.unnumbered.ifClauses :=
      List.mem_map_of_mem hclause
    have hsets := hdoc.clause_sets hstate hwritten
    exact hleaves _ hsets
  have hloaded : Loaded tools.assembler ast s.eeprom chain := by
    rw [heeprom]
    exact loaded_storeChunks h.assembled hrunnable horder hall hclauses
  -- the firmware beside the program, and the program beside the machine
  have hfirmware := follows_atRest loc (n := n) hloaded hstopped hudp hfree hordinary hnumber
  have hrest : Alongside g size sm (stoppedController s) (atRest s) :=
    ⟨⟨rfl, rfl, rfl, rfl, rfl, rfl, rfl⟩, fun hrunning => (by cases hrunning),
      fun hrunning => (by cases hrunning)⟩
  have hmachine : Alongside g size sm c'
      (Lib.Runs.run (Machine.step tools.assembler ast chain loc) (atRest s) steps) := by
    rw [← step_unnumbered]
    exact hdoc.run hrest steps
  refine ⟨hfirmware.dev.trans hmachine.dev, hfirmware.eeprom.trans hmachine.eeprom,
    hfirmware.smIsRunning_eq.trans hmachine.running, fun hrunning hleft => ?_⟩
  have hnamed := hfirmware.state (hmachine.running.trans hrunning)
  exact state_eq_of_alongside hdoc hmachine hrunning hleft hnamed

end

/-! ## A lamp and a button -/

/-- One state: the lamp is switched on when the button is pressed. -/
def switchMachine : StatemachineDoc where
  lineno := 1
  name := "lamps".toList
  stateset := [Hbc.initName]
  inClauses := [⟨1, Hbc.initName, [⟨⟨Hbc.buttonIs 0x3f800000,
    ⟨[Hbc.lampWrite Hbc.lampEndpoint 0x3f800000], ⟨1, Hbc.initName⟩⟩⟩, []⟩]⟩]
  readFromFile := "lamps.hbc".toList

def switchTools : Toolchain where
  printer := Hbc.bitPrinter
  floatValue := Hbc.bitValue
  version := "0.9".toList
  tables := Hbc.lampTables
  table := Hbc.lampEndpoints
  env := Hbc.plainAssembler

theorem length_lampAddress : (List.replicate 16 (1 : UInt8)).length = 16 := rfl

theorem length_buttonAddress : (List.replicate 16 (2 : UInt8)).length = 16 := rfl

/-- What the assembler reads of the file of the lamp. -/
def switchDoc : HbaDoc where
  targetIp := Hbc.printIpv6Address ⟨List.replicate 16 1, length_lampAddress⟩
  deviceName := [108, 97, 109, 112]
  machineId := []
  startState := "state_0_0"
  blocks := [
    .condition ⟨9, "cond_0_0",
      .eidvalue (Hbc.printIpv6Address ⟨List.replicate 16 2, length_buttonAddress⟩) 2 0 0x3f800000, 0⟩,
    .state ⟨15, "state_0_0", [⟨16, "cond_0_0", 1, 0x3f800000, "state_0_0", "state_0_0"⟩], 0⟩]

def switchImage : List UInt8 := (hbasm switchTools.assembler switchDoc).toOption.getD []

set_option maxRecDepth 20000 in
theorem switchDoc_file : ∃ file,
    Hbc.hbcompFiles Hbc.bitPrinter "0.9".toList switchTools.compiler [switchMachine] =
      .ok [(Hbc.lampName, file)] ∧
    Asm.Grammar.parse Hbc.bitValue file = some switchDoc :=
  ⟨_, rfl, rfl⟩

theorem switchTools_inOrder : InOrder switchTools where
  print := Hbc.isFloat_bitPrinter
  zero := rfl
  version := by decide
  typed := by
    intro entry hentry
    rcases List.mem_pair.mp hentry with rfl | rfl <;> exact Hbc.Dtype.noConfusion

theorem switchImage_imageOf :
    ImageOf switchTools [switchMachine] Hbc.lampName switchMachine switchDoc switchImage where
  file := by
    obtain ⟨file, hfile, hparse⟩ := switchDoc_file
    exact ⟨_, file, hfile, List.mem_singleton_self _, hparse⟩
  machine := List.mem_singleton_self _
  writes := ⟨_, List.mem_cons_self, _, List.mem_cons_self, rfl⟩
  assembled := rfl
  room := ⟨by decide, by decide, by decide⟩

/-- A lamp, on or off. -/
def lampDescriptor : EndpointDescriptor (Dev Bool) where
  datatype := DataType.float.code
  eid := 1
  name := []
  read value _ := (.success, value)
  write := some fun envelope d => (.success, { d with dev := envelope.value.v_u32 ≠ 0, calls := [] })

/-- The lamp is off and the machine is stopped. -/
def lampDevice : Fw Bool :=
  { sampleDevice with eeprom := storeChunks switchImage (fun _ => 0xff) (List.range 25) }

/-- The machine is started, and the button is pressed. -/
def pressSteps : List (Step Bool) :=
  [.smStart, .info ⟨⟨List.replicate 16 2, length_buttonAddress⟩, 0, 2,
    ⟨DataType.float.code, unionOf 0x3f800000 (Block.zero 4), []⟩⟩]

theorem leavesMachine_lamp (eid : UInt32) : LeavesMachine [lampDescriptor] eid := by
  intro envelope dev eeprom
  have hwrite : ∃ err dev', EndpointChain.endpointWrite [lampDescriptor] eid envelope
      ⟨dev, eeprom, []⟩ = (err, ⟨dev', eeprom, []⟩) := by
    unfold EndpointChain.endpointWrite EndpointChain.findDescriptor
    rw [List.find?_singleton]
    by_cases hmod : eid % 32 = 0
    · exact ⟨_, _, if_pos hmod⟩
    · rw [if_neg hmod]
      by_cases heid : lampDescriptor.eid = eid
      · rw [decide_eq_true heid]
        by_cases htype : lampDescriptor.datatype ≠ envelope.value.datatype
        · exact ⟨_, _, if_pos htype⟩
        · exact ⟨_, _, if_neg htype⟩
      · rw [decide_eq_false heid]
        exact ⟨_, _, rfl⟩
  obtain ⟨err, dev', hwrite⟩ := hwrite
  rw [hwrite]
  exact ⟨fun _ _ => rfl, fun call hcall => absurd hcall List.not_mem_nil⟩

/-- The lamp goes on. -/
theorem switchProgram_runs :
    (Lib.Runs.run (step [lampDescriptor] sampleLocals 1) lampDevice pressSteps).dev = true := by
  have hcount : (chunks switchImage).length = 25 := by decide +kernel
  have hordinary : ∀ a ∈ pressSteps, Ordinary switchDoc lampDevice.eeprom a := by
    intro a ha
    rcases List.mem_pair.mp ha with rfl | rfl
    · trivial
    · exact fun h => absurd h.1 (by decide)
  have heeprom : lampDevice.eeprom =
      storeChunks switchImage (fun _ => 0xff) (List.range 25) := by
    simp only [lampDevice]
  have hrun := run_follows_source switchTools [switchMachine] Hbc.lampName switchMachine switchDoc
    switchImage (fun _ => 0xff) (List.range 25) [lampDescriptor] sampleLocals 0 lampDevice pressSteps
    switchTools_inOrder switchImage_imageOf (fun k hk => hcount ▸ List.mem_range.mp hk)
    (fun k hk => List.mem_range.mpr (hcount ▸ hk)) (fun eid _ => leavesMachine_lamp eid) heeprom
    rfl (by decide) (by decide) hordinary (by decide)
  exact hrun.1.trans (by decide)

end Hexabus.Upload
