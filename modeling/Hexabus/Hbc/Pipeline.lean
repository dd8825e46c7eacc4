import Hexabus.Hbc.Halving
import Hexabus.Hbc.HbaOutput

/-!
# The passes of the compiler

What `hbcomp` writes a file from: the slice of one machine, with the writes of the device,
halved, and with one write in each clause.
-/

namespace Hexabus.Hbc

open Lib.Folds

variable {fp : FloatPrinter}

theorem mem_onGraphs {pass : Identifier → Graph → Except HbcError Graph}
    {graphs graphs' : List (Identifier × Graph)} (h : onGraphs pass graphs = .ok graphs')
    {device : Identifier} {g' : Graph} (hmem : (device, g') ∈ graphs') :
    ∃ g, (device, g) ∈ graphs ∧ pass device g = .ok g' := by
  obtain ⟨⟨device₀, g⟩, hentry, hrun⟩ := exists_of_mapM_ok h hmem
  obtain ⟨g₀, hpass, hret⟩ := bind_ok_iff.mp hrun
  cases hret
  exact ⟨g, hentry, hpass⟩

/-- The graph of a machine on a device, as the simplification finds it. -/
def DeviceGraph (hbc : HbcDoc) (device : Identifier) (machineId : Nat) (sm : StatemachineDoc)
    (g : Graph) : Prop :=
  hbc[machineId]? = some sm ∧ sm.resolved.length = sm.guardedBlocks.length ∧
    (∀ b ∈ sm.resolved, ∃ own, ownCommands device b.block.commandBlock.commands = .ok own) ∧
    Slice g machineId sm (sm.resolved.map (ownBlock device))

theorem DeviceGraph.machineGraph {hbc : HbcDoc} {device : Identifier} {machineId : Nat}
    {sm : StatemachineDoc} {g : Graph} (h : DeviceGraph hbc device machineId sm g) :
    MachineGraph g :=
  h.2.2.2.machineGraph

/-- **Where a simplified graph comes from**. -/
theorem simplifiedGraphs_ok {hbc : HbcDoc} {machines : List MachineDescriptor}
    {graphs : List (Identifier × Graph)} (h : simplifiedGraphs fp hbc = .ok (machines, graphs))
    {device : Identifier} {g' : Graph} (hmem : (device, g') ∈ graphs) :
    ∃ machineId sm g, DeviceGraph hbc device machineId sm g ∧
      expandComplexConditions fp g = .ok g' := by
  unfold simplifiedGraphs at h
  obtain ⟨state, hbuild, h⟩ := bind_ok_iff.mp h
  obtain ⟨slices, hslices, h⟩ := bind_ok_iff.mp h
  obtain ⟨owns, howns, h⟩ := bind_ok_iff.mp h
  obtain ⟨halved, hhalved, h⟩ := bind_ok_iff.mp h
  cases h
  obtain ⟨g, hg, hrun⟩ := mem_onGraphs hhalved hmem
  obtain ⟨g₀, hg₀, hown⟩ := mem_onGraphs howns hg
  obtain ⟨machineId, sm, hsm, hfound, hslice⟩ :=
    sliced_graphTransformation (built_graphBuilder hbuild) hslices _ hg₀
  obtain ⟨hslice', hcommands⟩ := hslice.deleteOthersWrites hown
  exact ⟨machineId, sm, g, ⟨hsm, hfound, hcommands, hslice'⟩, hrun⟩

/-- **Where a file comes from**. -/
theorem hbcomp_ok {tables : Tables} {hbc : HbcDoc} {files : List (Identifier × HbaText)}
    (h : hbcomp tables fp hbc = .ok files) {device : Identifier} {text : HbaText}
    (hmem : (device, text) ∈ files) :
    ∃ machines machineId sm g g' g'', DeviceGraph hbc device machineId sm g ∧
      expandComplexConditions fp g = .ok g' ∧ expandMultipleWrites fp g' = .ok g'' ∧
      hbaOutput tables machines device g'' = .ok text := by
  unfold hbcomp at h
  obtain ⟨⟨machines, graphs⟩, hsimplified, h⟩ := bind_ok_iff.mp h
  obtain ⟨expanded, hexpanded, h⟩ := bind_ok_iff.mp h
  obtain ⟨⟨device₀, g''⟩, hg'', hprint⟩ := exists_of_mapM_ok h hmem
  obtain ⟨text₀, houtput, hret⟩ := bind_ok_iff.mp hprint
  cases hret
  obtain ⟨g', hg', hwrites⟩ := mem_onGraphs hexpanded hg''
  obtain ⟨machineId, sm, g, hgraph, hrun⟩ := simplifiedGraphs_ok hsimplified hg'
  exact ⟨machines, machineId, sm, g, g', g'', hgraph, hrun, hwrites, houtput⟩

end Hexabus.Hbc
