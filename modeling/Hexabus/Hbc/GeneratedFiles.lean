import Hexabus.Hbc.Acceptance

/-!
# The generated files

`hbcomp` writes a file for every device: for one that a machine writes, the file of the
machine, and for every other one a file without a machine.
-/

namespace Hexabus.Hbc

open Lib.Folds

variable {fp : FloatPrinter} {tables : Tables} {table : List EndpointEntry} {hbc : HbcDoc}
  {files : List (Identifier × HbaText)} {device : Identifier}

/-- A guarded block of the machine writes the device. -/
def StatemachineDoc.Writes (sm : StatemachineDoc) (device : Identifier) : Prop :=
  ∃ b ∈ sm.resolved, ∃ command ∈ b.block.commandBlock.commands, command.device? = some device

/-! ## Where a file comes from -/

/-- A machine of the graph writes what the machine of the program writes. -/
theorem MachineAt.writesDevice_iff {g : Graph} {offset machineId : Nat} {sm : StatemachineDoc}
    (h : MachineAt g offset machineId sm) : WritesDevice g machineId device ↔ sm.Writes device := by
  unfold WritesDevice
  rw [h.machineVertices_eq]
  constructor
  · rintro ⟨v, hv, command, hcommand, hdevice⟩
    obtain ⟨hge, hlt⟩ := mem_segment.mp hv
    rcases vertex_cases hge hlt with ⟨k, hk, rfl⟩ | ⟨j, b, hb, rfl | rfl⟩
    · rw [writesAt_of_vertex (h.shape.state k _ (List.getElem?_eq_getElem hk))] at hcommand
      exact absurd hcommand List.not_mem_nil
    · obtain ⟨name, -, hw⟩ := h.shape.cond j b hb
      rw [writesAt_of_vertex hw] at hcommand
      exact absurd hcommand List.not_mem_nil
    · obtain ⟨name, -, hw⟩ := h.shape.command j b hb
      rw [writesAt_of_vertex hw] at hcommand
      exact ⟨b, List.mem_of_getElem? hb, command, hcommand, hdevice⟩
  · rintro ⟨b, hb, command, hcommand, hdevice⟩
    obtain ⟨j, hj⟩ := List.mem_iff_getElem?.mp hb
    have hlt := (List.getElem?_eq_some_iff.mp hj).1
    obtain ⟨name, -, hw⟩ := h.shape.command j b hj
    refine ⟨offset + sm.stateset.length + 2 * j + 1, mem_segment.mpr ?_, command, ?_, hdevice⟩
    · unfold machineSize
      omega
    · rw [writesAt_of_vertex hw]
      exact hcommand

/-- The file is compiled from the machine. -/
def CompiledFor (tables : Tables) (fp : FloatPrinter) (hbc : HbcDoc) (device : Identifier)
    (text : HbaText) (machineId : Nat) (sm : StatemachineDoc) : Prop :=
  ∃ machines g g' g'', DeviceGraph hbc device machineId sm g ∧
    expandComplexConditions fp g = .ok g' ∧ expandMultipleWrites fp g' = .ok g'' ∧
    hbaOutput tables machines device g'' = .ok text

/-- The copy of a machine is a device's graph of that machine. -/
theorem deviceGraph_of_ownCopy {state : Graph × List MachineDescriptor}
    {slices owns : List (Identifier × Graph)} (hbuild : graphBuilder fp hbc = .ok state)
    (hslices : graphTransformation state.1 state.2 = .ok slices)
    (howns : onGraphs (deleteOthersWrites fp) slices = .ok owns) {own : Graph}
    (hmem : (device, own) ∈ owns) {m : Nat} (hwrites : WritesDevice state.1 m device)
    (hcopy : OwnCopy state.1 (machineVertices state.1 m) device own) :
    ∃ sm, DeviceGraph hbc device m sm own := by
  obtain ⟨g₀, hg₀, hown⟩ := mem_onGraphs howns hmem
  obtain ⟨machineId, sm, hsm, hfound, hslice⟩ :=
    sliced_graphTransformation (built_graphBuilder hbuild) hslices _ hg₀
  obtain ⟨hslice', hcommands⟩ := hslice.deleteOthersWrites hown
  -- the first vertex tells which machine it is
  obtain ⟨v, hv, -⟩ := hwrites
  have hpos := List.length_pos_of_mem hv
  have hfirst := List.getElem?_eq_getElem hpos
  obtain ⟨w, w', hw, hw', hmachine, -⟩ := hcopy.vertex 0 _ hfirst
  obtain ⟨w₀, hw₀, hm⟩ := mem_machineVertices.mp (List.mem_of_getElem? hfirst)
  rw [hw] at hw₀
  cases hw₀
  have hlt : 0 < own.size := (List.getElem?_eq_some_iff.mp hw').1
  have hid := hslice'.shape.machineId_eq (Nat.le_refl 0)
    (by have hsize := hslice'.size; omega) hw'
  have hsame : machineId = m := by rw [← hid, hmachine, hm]
  subst hsame
  exact ⟨sm, hsm, hfound, hcommands, hslice'⟩

/-- **The files of the machines**: a file comes from a machine that writes the device, no
other machine does, and every device that is written has a file. -/
theorem hbcomp_files (h : hbcomp tables fp hbc = .ok files) :
    (∀ device text, (device, text) ∈ files →
      ∃ (m : Nat) (sm : StatemachineDoc), hbc[m]? = some sm ∧ sm.Writes device ∧ CompiledFor tables fp hbc device text m sm) ∧
    (∀ (m : Nat) (sm : StatemachineDoc) (device : Identifier), hbc[m]? = some sm →
      sm.Writes device → ∃ text, (device, text) ∈ files) ∧
    ∀ (m : Nat) (sm : StatemachineDoc) (m' : Nat) (sm' : StatemachineDoc) (device : Identifier),
      hbc[m]? = some sm → sm.Writes device → hbc[m']? = some sm' → sm'.Writes device → m = m' := by
  unfold hbcomp at h
  obtain ⟨⟨machines, halves⟩, hsimplified, h⟩ := bind_ok_iff.mp h
  obtain ⟨expanded, hexpanded, hprinted⟩ := bind_ok_iff.mp h
  unfold simplifiedGraphs at hsimplified
  obtain ⟨state, hbuild, hsimplified⟩ := bind_ok_iff.mp hsimplified
  obtain ⟨slices, hslices, hsimplified⟩ := bind_ok_iff.mp hsimplified
  obtain ⟨owns, howns, hsimplified⟩ := bind_ok_iff.mp hsimplified
  obtain ⟨halves', hhalves, hret⟩ := bind_ok_iff.mp hsimplified
  cases hret
  have hbuilt := built_graphBuilder hbuild
  obtain ⟨hiff, hwell⟩ := sliceDevices_spec fp hbuilt.machineClosed state.2
  have hrun : sliceDevices fp state.1 state.2 = .ok owns :=
    bind_ok_iff.mpr ⟨slices, hslices, howns⟩
  have hseparate := (hiff.mp ⟨owns, hrun⟩).2
  have hwell := hwell owns hrun
  have hwrites : ∀ (m : Nat) (sm : StatemachineDoc) (device : Identifier), hbc[m]? = some sm →
      (WritesDevice state.1 m device ↔ sm.Writes device) := by
    intro m sm device hsm
    obtain ⟨offset, hat⟩ := hbuilt.machine m sm hsm
    exact hat.writesDevice_iff
  refine ⟨fun device text hmem => ?_, fun m sm device hsm hdevice => ?_, ?_⟩
  · obtain ⟨⟨device₀, g''⟩, hg'', hprint⟩ := exists_of_mapM_ok hprinted hmem
    obtain ⟨text₀, houtput, hret⟩ := bind_ok_iff.mp hprint
    cases hret
    obtain ⟨g', hg', hexpand⟩ := mem_onGraphs hexpanded hg''
    obtain ⟨g, hg, hhalve⟩ := mem_onGraphs hhalves hg'
    obtain ⟨m, hm, hcopy⟩ := hwell.origin _ g hg
    obtain ⟨sm, hgraph⟩ := deviceGraph_of_ownCopy hbuild hslices howns hg hm hcopy
    exact ⟨m, sm, hgraph.1, (hwrites m sm _ hgraph.1).mp hm, _, g, g', g'', hgraph, hhalve,
      hexpand, houtput⟩
  · obtain ⟨g, hg, -⟩ := hwell.slice m device ((hwrites m sm device hsm).mpr hdevice)
    obtain ⟨⟨device₁, g'⟩, hg', hhalve⟩ := mem_of_mapM_ok hhalves hg
    obtain ⟨g₁, -, hret⟩ := bind_ok_iff.mp hhalve
    cases hret
    obtain ⟨⟨device₂, g''⟩, hg'', hexpand⟩ := mem_of_mapM_ok hexpanded hg'
    obtain ⟨g₂, -, hret⟩ := bind_ok_iff.mp hexpand
    cases hret
    obtain ⟨⟨device₃, text⟩, htext, hprint⟩ := mem_of_mapM_ok hprinted hg''
    obtain ⟨text₀, -, hret⟩ := bind_ok_iff.mp hprint
    cases hret
    exact ⟨text, htext⟩
  · intro m sm m' sm' device hsm hdevice hsm' hdevice'
    exact hseparate m m' device ((hwrites m sm device hsm).mpr hdevice)
      ((hwrites m' sm' device hsm').mpr hdevice')

/-! ## All files -/

/-- What the assembler reads from the file of a device without a machine, `machine 0`. -/
def minimalDoc (address : Lib.Bytes.Block 16) (device : Identifier) : Asm.HbaDoc where
  targetIp := printIpv6Address address
  deviceName := device.val.map fun c => UInt8.ofNat c.toNat
  machineId := [0]
  startState := ""
  blocks := []

/-- The files that `hbcomp` leaves, as the assembler reads them. -/
def generatedFiles (tables : Tables) (files : List (Identifier × HbaText)) :
    List (Identifier × Option Asm.HbaDoc) :=
  (files.map fun entry => (entry.1, entry.2.parse)) ++
    (tables.devices.filter fun entry => !(files.any fun file => file.1 = entry.1)).map fun entry =>
      (entry.1, some (minimalDoc entry.2 entry.1))

/-- **When the compiler's output assembles**: all its files are accepted exactly if every
machine is ready for every device that it writes. -/
theorem output_assembles_iff (fp : FloatPrinter) (tables : Tables) (table : List EndpointEntry)
    (env : Asm.Environment) (hbc : HbcDoc) (files : List (Identifier × HbaText))
    (h : hbcomp (tables.withEndpoints table) fp hbc = .ok files) :
    (∀ entry ∈ generatedFiles (tables.withEndpoints table) files,
      Accepted (env.withDatatypes (dtypeFile table)) entry.2) ↔
    ∀ sm ∈ hbc, ∀ device, sm.Writes device → FileReady table device sm := by
  obtain ⟨horigin, hfile, hone⟩ := hbcomp_files h
  constructor
  · intro haccepted sm hsm device hdevice
    obtain ⟨m, hm⟩ := List.mem_iff_getElem?.mp hsm
    obtain ⟨text, htext⟩ := hfile m sm device hm hdevice
    obtain ⟨m', sm', hm', hdevice', machines, g, g', g'', hgraph, hhalve, hexpand, hprint⟩ :=
      horigin device text htext
    obtain rfl := hone m sm m' sm' device hm hdevice hm' hdevice'
    rw [hm] at hm'
    cases hm'
    exact (accepted_iff hgraph hhalve hexpand hprint).mp
      (haccepted (device, text.parse) (List.mem_append_left _ (List.mem_map.mpr ⟨_, htext, rfl⟩)))
  · intro hready entry hentry
    rcases List.mem_append.mp hentry with hentry | hentry
    · obtain ⟨⟨device, text⟩, htext, rfl⟩ := List.mem_map.mp hentry
      obtain ⟨m, sm, hm, hdevice, machines, g, g', g'', hgraph, hhalve, hexpand, hprint⟩ :=
        horigin device text htext
      exact (accepted_iff hgraph hhalve hexpand hprint).mpr
        (hready sm (List.mem_of_getElem? hm) device hdevice)
    · obtain ⟨other, -, rfl⟩ := List.mem_map.mp hentry
      exact ⟨_, _, rfl, Asm.hbasm_nil rfl⟩

/-! ## A block without a write -/

/-- The endpoints of the lamp and of the button. -/
def lampEndpoints : List EndpointEntry :=
  [⟨['a'], ⟨1, true, false⟩, .float⟩, ⟨"pressed".toList, ⟨2, false, true⟩, .float⟩]

/-- An assembler that reads numbers as they are. -/
def plainAssembler : Asm.Environment := ⟨fun _ => none, id, id, fun _ => Lib.Bytes.Block.zero 4⟩

/-- One state: the lamp is switched on when the button is pressed, and when it is released
nothing is written. -/
def idleProgram : HbcDoc :=
  [⟨1, "lamps".toList, [initName], [⟨1, initName, [
    ⟨⟨buttonIs 0x3f800000, ⟨[lampWrite lampEndpoint 0x3f800000], ⟨1, initName⟩⟩⟩,
      [⟨buttonIs 0, ⟨[], ⟨1, initName⟩⟩⟩]⟩]⟩], "lamps.hbc".toList⟩]

/-- The theorem at this program. -/
theorem idleProgram_assembles_iff : ∃ files,
    hbcomp (lampTables.withEndpoints lampEndpoints) bitPrinter idleProgram = .ok files ∧
    ((∀ entry ∈ generatedFiles (lampTables.withEndpoints lampEndpoints) files,
      Accepted (plainAssembler.withDatatypes (dtypeFile lampEndpoints)) entry.2) ↔
    ∀ sm ∈ idleProgram, ∀ device, sm.Writes device → FileReady lampEndpoints device sm) := by
  have hcompiled : ∃ files, hbcomp (lampTables.withEndpoints lampEndpoints) bitPrinter idleProgram =
      .ok files := ⟨_, rfl⟩
  obtain ⟨files, h⟩ := hcompiled
  exact ⟨files, h, output_assembles_iff bitPrinter lampTables lampEndpoints plainAssembler idleProgram
    files h⟩

/-- **No data type for the id zero**: the program is compiled, and the assembler stops at the
clause that writes nothing. -/
theorem idleProgram_not_accepted : ∃ text ast,
    hbcomp (lampTables.withEndpoints lampEndpoints) bitPrinter idleProgram = .ok [(lampName, text)] ∧
    text.parse = some ast ∧
    Asm.hbasm (plainAssembler.withDatatypes (dtypeFile lampEndpoints)) ast =
      .error (.datatypeNotFound 0) :=
  ⟨_, _, rfl, rfl, rfl⟩

end Hexabus.Hbc
