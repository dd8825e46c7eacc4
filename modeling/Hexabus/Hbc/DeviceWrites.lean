import Hexabus.Hbc.ClausePriority
import Hexabus.Hbc.DeviceSlices

/-!
# Where the writes of a graph go

The copies of a machine lose the writes of other devices, each copy on its own. So what a
device keeps are the writes of the whole graph that are its own, and the devices have all
the writes between them.
-/

namespace Hexabus.Hbc

open Lib.Folds

variable {fp : FloatPrinter} {g h : Graph} {device : Identifier} {vs : List Nat}

/-! ## One copy -/

theorem ownCommands_ok {commands own : List CommandDoc} :
    ownCommands device commands = .ok own ↔ (∀ command ∈ commands, command.device? ≠ none) ∧
      own = commands.filter fun command => command.device? = some device := by
  induction commands generalizing own with
  | nil =>
    constructor
    · intro hrun
      cases hrun
      exact ⟨fun _ hmem => absurd hmem List.not_mem_nil, rfl⟩
    · rintro ⟨-, rfl⟩
      rfl
  | cons command commands ih =>
    rw [List.forall_mem_cons]
    unfold ownCommands
    cases halias : command.geid.deviceAlias with
    | placeholder index =>
      have hnone : command.device? = none := by
        unfold CommandDoc.device?
        rw [halias]
      constructor
      · intro hrun
        cases hrun
      · exact fun hall => absurd hnone hall.1.1
    | literal name =>
      have hsome : command.device? = some name := by
        unfold CommandDoc.device?
        rw [halias]
      have hfilter : ((command :: commands).filter fun c => decide (c.device? = some device))
          = if name = device then
              command :: commands.filter fun c => decide (c.device? = some device)
            else commands.filter fun c => decide (c.device? = some device) := by
        rw [List.filter_cons, hsome]
        simp only [Option.some.injEq, decide_eq_true_eq]
      rw [hfilter]
      simp only [bind_ok_iff]
      constructor
      · rintro ⟨rest, hrest, hret⟩
        obtain ⟨hall, rfl⟩ := ih.mp hrest
        cases hret
        exact ⟨⟨by rw [hsome]; exact Option.some_ne_none name, hall⟩, rfl⟩
      · rintro ⟨⟨-, hall⟩, rfl⟩
        exact ⟨_, ih.mpr ⟨hall, rfl⟩, rfl⟩

theorem writesAt_of_vertex {v : Nat} {w : Vertex} (hw : g.vertices[v]? = some w) :
    g.writesAt v = w.contents.writes := by
  unfold Graph.writesAt
  rw [Graph.contents_of_vertex hw]
  rfl

theorem writes_ownContents (device : Identifier) (contents : Contents) :
    (ownContents device contents).writes
      = contents.writes.filter fun command => command.device? = some device := by
  cases contents <;> rfl

/-- What is left of a vertex on the device. -/
theorem ownVertex_ok {w w' : Vertex} (hrun : ownVertex fp device w = .ok w') :
    w'.machineId = w.machineId ∧ w'.vertexId = w.vertexId ∧
      w'.contents = ownContents device w.contents ∧
      ((∀ block, w.contents ≠ .command block) → w'.name = w.name) := by
  obtain ⟨name, m, i, contents⟩ := w
  cases contents with
  | state =>
    cases hrun
    exact ⟨rfl, rfl, rfl, fun _ => rfl⟩
  | cond condition =>
    cases hrun
    exact ⟨rfl, rfl, rfl, fun _ => rfl⟩
  | command block =>
    obtain ⟨own, hown, hret⟩ := bind_ok_iff.mp hrun
    cases hret
    obtain ⟨-, rfl⟩ := ownCommands_ok.mp hown
    exact ⟨rfl, rfl, rfl, fun hne => absurd rfl (hne block)⟩

theorem deleteAt_run (fp : FloatPrinter) (device : Identifier) (hg : Resolved g) {v : Nat}
    (hv : v < g.size) : ∃ g', deleteAt fp device g v = .ok g' ∧ g'.size = g.size ∧ Resolved g' := by
  obtain ⟨w, hw⟩ : ∃ w : Vertex, g.vertices[v]? = some w := ⟨_, List.getElem?_eq_getElem hv⟩
  have hwrites := hg v
  rw [writesAt_of_vertex hw] at hwrites
  have hrun : ∃ g', deleteAt fp device g v = .ok g' := by
    unfold deleteAt
    rw [Graph.contents_of_vertex hw]
    cases hc : w.contents with
    | state => exact ⟨_, rfl⟩
    | cond condition => exact ⟨_, rfl⟩
    | command block =>
      rw [hc] at hwrites
      exact ⟨_, bind_ok_iff.mpr ⟨_, ownCommands_ok.mpr ⟨hwrites, rfl⟩, rfl⟩⟩
  obtain ⟨g', hrun⟩ := hrun
  obtain ⟨w', hw', -, hsize, hset⟩ := deleteAt_ok hw hrun
  refine ⟨g', hrun, hsize, fun u command hcommand => ?_⟩
  by_cases hu : u = v
  · subst hu
    obtain ⟨-, -, hcontents, -⟩ := ownVertex_ok hw'
    rw [writesAt_of_vertex ((hset u).trans (if_pos rfl)), hcontents, writes_ownContents] at hcommand
    exact hwrites command (List.mem_of_mem_filter hcommand)
  · have hsame : g'.writesAt u = g.writesAt u := by
      unfold Graph.writesAt Graph.contents
      rw [hset, if_neg hu]
    exact hg u command (hsame ▸ hcommand)

/-- Without a placeholder the writes of other devices can be deleted. -/
theorem deleteOthersWrites_run (fp : FloatPrinter) (device : Identifier) (hg : Resolved g) :
    ∃ g', deleteOthersWrites fp device g = .ok g' := by
  have hstep : ∀ v g', v < g.size → g'.size = g.size ∧ Resolved g' →
      ∃ g'', deleteAt fp device g' v = .ok g'' ∧ g''.size = g.size ∧ Resolved g'' := by
    rintro v g' hv ⟨hsize, hresolved⟩
    obtain ⟨g'', hrun, hsize', hresolved'⟩ := deleteAt_run fp device hresolved (hsize.symm ▸ hv)
    exact ⟨g'', hrun, hsize'.trans hsize, hresolved'⟩
  obtain ⟨g', hrun, -⟩ := @foldlM_range _ _ (deleteAt fp device)
    (fun _ g' => g'.size = g.size ∧ Resolved g') g.size hstep g ⟨rfl, hg⟩
  exact ⟨g', hrun⟩

theorem writesAt_copyOf (hnodup : vs.Nodup) (hin : ∀ v ∈ vs, v < g.size) {i v : Nat}
    (hi : vs[i]? = some v) : (copyOf g vs).writesAt i = g.writesAt v := by
  obtain ⟨-, hcopy⟩ := copyOf_spec hnodup hin
  unfold Graph.writesAt Graph.contents
  rw [(hcopy i v hi).1, Option.map_map]
  cases g.vertices[v]? <;> rfl

/-- **The copy for a device**. -/
theorem ownCopy_of_deleteOthersWrites (hnodup : vs.Nodup) (hin : ∀ v ∈ vs, v < g.size)
    (hclosed : ∀ v ∈ vs, ∀ t ∈ g.adjacent v, t ∈ vs)
    (hrun : deleteOthersWrites fp device (copyOf g vs) = .ok h) : OwnCopy g vs device h := by
  obtain ⟨hsize, hcopy⟩ := copyOf_spec hnodup hin
  obtain ⟨hedges, hsize', hvertices⟩ := deleteOthersWrites_ok hrun
  refine ⟨hsize'.trans hsize, fun i v hi => ?_, fun i v hi => ?_⟩
  · have hw := List.getElem?_eq_getElem (hin v (List.mem_of_getElem? hi))
    obtain ⟨hvertex, -⟩ := hcopy i v hi
    rw [hw, Option.map_some] at hvertex
    obtain ⟨w', hw', hvertex'⟩ := hvertices i _ hvertex
    obtain ⟨hmachine, hid, hcontents, hname⟩ := ownVertex_ok hw'
    exact ⟨_, w', hw, hvertex', hmachine, hid, hcontents, hname⟩
  · have hadjacent : h.adjacent i = (copyOf g vs).adjacent i := by
      unfold Graph.adjacent
      rw [hedges]
    rw [hadjacent, (hcopy i v hi).2, List.map_map]
    refine List.map_congr_left fun t ht => ?_
    exact getElem?_place (hclosed v (List.mem_of_getElem? hi) t ht)

/-- The writes of a copy are the own ones of the vertices that are copied. -/
theorem OwnCopy.writes_eq (hcopy : OwnCopy g vs device h) :
    h.writes = (vs.flatMap g.writesAt).filter fun command => command.device? = some device := by
  have hmap : (List.range h.size).map h.writesAt = vs.map fun v =>
      (g.writesAt v).filter fun command => command.device? = some device := by
    refine List.ext_getElem? fun i => ?_
    rw [List.getElem?_map, List.getElem?_map, hcopy.size]
    cases hi : vs[i]? with
    | none =>
      have hge := List.getElem?_eq_none_iff.mp hi
      rw [List.getElem?_eq_none (by rw [List.length_range]; exact hge)]
      rfl
    | some v =>
      have hlt := (List.getElem?_eq_some_iff.mp hi).1
      obtain ⟨w, w', hw, hw', -, -, hcontents, -⟩ := hcopy.vertex i v hi
      rw [List.getElem?_range hlt, Option.map_some, Option.map_some, writesAt_of_vertex hw',
        hcontents, writes_ownContents, writesAt_of_vertex hw]
  unfold Graph.writes
  rw [List.flatMap_def, hmap, List.filter_flatMap, List.flatMap_def]

/-! ## All copies -/

/-- The writes that are left of the vertices outside a machine. -/
theorem flatMap_filter_of_nil {α β : Type} {p : α → Bool} {f : α → List β} {l : List α}
    (hl : ∀ a ∈ l, p a = false → f a = []) : (l.filter p).flatMap f = l.flatMap f := by
  induction l with
  | nil => rfl
  | cons a l ih =>
    rw [List.forall_mem_cons] at hl
    rw [List.filter_cons, List.flatMap_cons, ← ih hl.2]
    cases hp : p a with
    | true => rfl
    | false =>
      rw [hl.1 hp]
      rfl

/-- A list in parts, one for each value of a function that the elements have. -/
theorem flatMap_filter_perm {α β : Type} [DecidableEq β] (f : α → Option β) {keys : List β}
    (hkeys : keys.Nodup) {l : List α} (hl : ∀ a ∈ l, ∃ b ∈ keys, f a = some b) :
    (keys.flatMap fun b => l.filter fun a => f a = some b).Perm l := by
  induction keys generalizing l with
  | nil =>
    cases l with
    | nil => exact List.Perm.refl _
    | cons a l =>
      obtain ⟨b, hb, -⟩ := hl a List.mem_cons_self
      exact absurd hb List.not_mem_nil
  | cons b keys ih =>
    obtain ⟨hb, hkeys⟩ := List.nodup_cons.mp hkeys
    rw [List.flatMap_cons]
    refine List.Perm.trans ?_ (List.filter_append_perm (fun a => decide (f a = some b)) l)
    refine List.Perm.append_left _ ?_
    have hrest : ∀ a ∈ l.filter (fun a => !decide (f a = some b)), ∃ c ∈ keys, f a = some c := by
      intro a ha
      obtain ⟨hmem, hne⟩ := List.mem_filter.mp ha
      obtain ⟨c, hc, hac⟩ := hl a hmem
      rcases List.mem_cons.mp hc with rfl | hc
      · rw [hac] at hne
        simp at hne
      · exact ⟨c, hc, hac⟩
    refine List.Perm.trans (List.Perm.of_eq ?_) (ih hkeys hrest)
    refine List.flatMap_congr fun c hc => ?_
    rw [List.filter_filter]
    refine List.filter_congr fun a _ => ?_
    by_cases hac : f a = some c
    · have hne : f a ≠ some b := fun hab => hb (Option.some.inj (hac.symm.trans hab) ▸ hc)
      simp [hac, Ne.symm (fun h => hb (h ▸ hc : b ∈ keys) : ¬ b = c)]
    · simp [hac]

theorem machineVertices_inside (g : Graph) (m : Nat) : ∀ v ∈ machineVertices g m, v < g.size := by
  intro v hv
  obtain ⟨w, hw, -⟩ := mem_machineVertices.mp hv
  exact (List.getElem?_eq_some_iff.mp hw).1

theorem resolved_copyOf (hresolved : Resolved g) (m : Nat) :
    Resolved (copyOf g (machineVertices g m)) := by
  have hnodup := nodup_machineVertices g m
  have hin := machineVertices_inside g m
  intro i command hcommand
  obtain ⟨w, hw, -⟩ := mem_of_writesAt hcommand
  have hlt : i < (machineVertices g m).length := by
    rw [← (copyOf_spec hnodup hin).1]
    exact (List.getElem?_eq_some_iff.mp hw).1
  rw [writesAt_copyOf hnodup hin (List.getElem?_eq_getElem hlt)] at hcommand
  exact hresolved _ command hcommand

theorem mem_additions {c : Graph} : (device, c) ∈ (machineIds g).flatMap (additions g) ↔
    ∃ m, WritesDevice g m device ∧ c = copyOf g (machineVertices g m) := by
  unfold additions
  simp only [List.mem_flatMap, List.mem_map, Prod.mk.injEq]
  constructor
  · rintro ⟨m, -, d, hd, rfl, rfl⟩
    exact ⟨m, mem_devicesOf.mp hd, rfl⟩
  · rintro ⟨m, hwrites, rfl⟩
    obtain ⟨v, hv, -⟩ := id hwrites
    exact ⟨m, mem_machineIds hv, device, mem_devicesOf.mpr hwrites, rfl, rfl⟩

theorem map_fst_onGraphs {pass : Identifier → Graph → Except HbcError Graph}
    {graphs graphs' : List (Identifier × Graph)} (hrun : onGraphs pass graphs = .ok graphs') :
    graphs'.map Prod.fst = graphs.map Prod.fst := by
  have hall := forall₂_of_mapM_ok hrun
  clear hrun
  induction hall with
  | nil => rfl
  | cons hentry _ ih =>
    obtain ⟨g₀, -, hret⟩ := bind_ok_iff.mp hentry
    cases hret
    rw [List.map_cons, List.map_cons, ih]

/-- If only one machine writes the device, the writes of the machine are all there are. -/
theorem writes_machine (hseparate : Separate g) {m : Nat} (hm : WritesDevice g m device) :
    ((machineVertices g m).flatMap g.writesAt).filter (fun c => decide (c.device? = some device))
      = g.writes.filter fun c => decide (c.device? = some device) := by
  unfold Graph.writes
  rw [List.filter_flatMap, List.filter_flatMap]
  refine flatMap_filter_of_nil fun v _ hother => ?_
  refine List.filter_eq_nil_iff.mpr fun command hcommand hdevice => ?_
  obtain ⟨w, hw, hv⟩ := mem_of_writesAt hcommand
  have hsame := hseparate m w.machineId device hm
    ⟨v, hv, command, hcommand, of_decide_eq_true hdevice⟩
  rw [hw, Option.map_some, ← hsame, decide_eq_true rfl] at hother
  cases hother

/-- **All copies**. -/
theorem sliceDevices_spec (fp : FloatPrinter) (hg : MachineClosed g)
    (machines : List MachineDescriptor) :
    ((∃ graphs, sliceDevices fp g machines = .ok graphs) ↔ Resolved g ∧ Separate g) ∧
    ∀ graphs, sliceDevices fp g machines = .ok graphs → SlicesWell g graphs := by
  obtain ⟨hiff, hperm⟩ := graphTransformation_spec hg machines
  have hcopy : ∀ m, ∀ {device h}, deleteOthersWrites fp device (copyOf g (machineVertices g m))
      = .ok h → OwnCopy g (machineVertices g m) device h := fun m _ _ hrun =>
    ownCopy_of_deleteOthersWrites (nodup_machineVertices g m) (machineVertices_inside g m)
      (hg.closed m) hrun
  constructor
  · constructor
    · rintro ⟨graphs, hrun⟩
      obtain ⟨copies, htransform, -⟩ := bind_ok_iff.mp hrun
      exact hiff.mp ⟨copies, htransform⟩
    · intro hwell
      obtain ⟨copies, htransform⟩ := hiff.mpr hwell
      have hdelete : ∃ graphs, onGraphs (deleteOthersWrites fp) copies = .ok graphs := by
        refine mapM_ok ?_
        rintro ⟨device, c⟩ hentry
        obtain ⟨m, -, rfl⟩ := mem_additions.mp ((hperm copies htransform).mem_iff.mp hentry)
        obtain ⟨h, hrun⟩ := deleteOthersWrites_run fp device (resolved_copyOf hwell.1 m)
        exact ⟨(device, h), bind_ok_iff.mpr ⟨h, hrun, rfl⟩⟩
      obtain ⟨graphs, hdelete⟩ := hdelete
      exact ⟨graphs, bind_ok_iff.mpr ⟨copies, htransform, hdelete⟩⟩
  · intro graphs hrun
    obtain ⟨copies, htransform, hdelete⟩ := bind_ok_iff.mp hrun
    obtain ⟨hresolved, hseparate⟩ := hiff.mp ⟨copies, htransform⟩
    have hcopies := hperm copies htransform
    have hnodup : (graphs.map Prod.fst).Nodup := by
      rw [map_fst_onGraphs hdelete, (hcopies.map Prod.fst).nodup_iff]
      exact separate_iff.mp hseparate
    have hslice : ∀ m device, WritesDevice g m device →
        ∃ h, (device, h) ∈ graphs ∧ OwnCopy g (machineVertices g m) device h := by
      intro m device hwrites
      have hentry := hcopies.mem_iff.mpr (mem_additions.mpr ⟨m, hwrites, rfl⟩)
      obtain ⟨⟨device', h⟩, hmem, hpass⟩ := mem_of_mapM_ok hdelete hentry
      obtain ⟨h', hrun', hret⟩ := bind_ok_iff.mp hpass
      cases hret
      exact ⟨h, hmem, hcopy m hrun'⟩
    have horigin : ∀ device h, (device, h) ∈ graphs →
        ∃ m, WritesDevice g m device ∧ OwnCopy g (machineVertices g m) device h := by
      intro device h hmem
      obtain ⟨c, hentry, hpass⟩ := mem_onGraphs hdelete hmem
      obtain ⟨m, hwrites, rfl⟩ := mem_additions.mp (hcopies.mem_iff.mp hentry)
      exact ⟨m, hwrites, hcopy m hpass⟩
    have hown : ∀ device h, (device, h) ∈ graphs →
        h.writes = g.writes.filter fun command => command.device? = some device := by
      intro device h hmem
      obtain ⟨m, hwrites, hcopy'⟩ := horigin device h hmem
      rw [hcopy'.writes_eq, writes_machine hseparate hwrites]
    refine ⟨hnodup, hslice, horigin, hown, ?_⟩
    have hall : ∀ command ∈ g.writes, ∃ device ∈ graphs.map Prod.fst,
        command.device? = some device := by
      intro command hmem
      obtain ⟨v, -, hcommand⟩ := List.mem_flatMap.mp hmem
      obtain ⟨device, hdevice⟩ := Option.ne_none_iff_exists'.mp (hresolved v command hcommand)
      obtain ⟨w, -, hv⟩ := mem_of_writesAt hcommand
      obtain ⟨h, hentry, -⟩ := hslice w.machineId device ⟨v, hv, command, hcommand, hdevice⟩
      exact ⟨device, List.mem_map.mpr ⟨_, hentry, rfl⟩, hdevice⟩
    refine List.Perm.trans (List.Perm.of_eq ?_) (flatMap_filter_perm _ hnodup hall)
    rw [List.flatMap_map]
    exact List.flatMap_congr fun entry hentry => hown entry.1 entry.2 hentry

/-! ## The graphs of programs -/

/-- The builder joins no two machines. -/
theorem Built.machineClosed {hbc : HbcDoc} {state : Graph × List MachineDescriptor}
    (hbuilt : Built hbc state) : MachineClosed state.1 := by
  rintro ⟨s, t⟩ he
  obtain ⟨hs, ht⟩ := hbuilt.bounded _ he
  refine ⟨hs, ht, ?_⟩
  have hws := List.getElem?_eq_getElem (l := state.1.vertices) hs
  have hwt := List.getElem?_eq_getElem (l := state.1.vertices) ht
  have hlt := hbuilt.known _ _ hws
  obtain ⟨offset, hat⟩ := hbuilt.machine _ _ (List.getElem?_eq_getElem hlt)
  have hin := mem_segment.mpr ((hat.own _ _ hws).mp rfl)
  have hout := hat.shape.closed _ hin t (Graph.mem_adjacent.mpr he)
  have hsame := (hat.own _ _ hwt).mpr (mem_segment.mp hout)
  unfold Graph.machineOf
  simp only [hws, hwt, Option.map_some, Option.getD_some, hsame]

/-- **Slicing a program**: there are slices unless a placeholder is left or two machines
write a device, and they are well. -/
theorem slices_of_program (fp : FloatPrinter) (hbc : HbcDoc) (g : Graph)
    (machines : List MachineDescriptor) (hbuild : graphBuilder fp hbc = .ok (g, machines)) :
    ((∃ graphs, sliceDevices fp g machines = .ok graphs) ↔ Resolved g ∧ Separate g) ∧
    ∀ graphs, sliceDevices fp g machines = .ok graphs → SlicesWell g graphs :=
  sliceDevices_spec fp (built_graphBuilder hbuild).machineClosed machines

theorem isIdentifier_fan : isIdentifier "fan".toList = true := rfl

def fanName : Identifier := ⟨"fan".toList, isIdentifier_fan⟩

/-- A write of the device. -/
def deviceWrite (device : Identifier) (bits : UInt32) : CommandDoc :=
  ⟨1, ⟨.literal device, 1, .literal lampEndpoint⟩, .float bits⟩

/-- Two machines: one writes the lamp and the fan in one block, and the other the button. -/
def threeDevices : HbcDoc :=
  [⟨1, "lamps".toList, [initName], [⟨1, initName, [⟨⟨buttonIs 0,
      ⟨[deviceWrite lampName 0, deviceWrite fanName 1, deviceWrite lampName 2],
        ⟨1, initName⟩⟩⟩, []⟩]⟩], "lamps.hbc".toList⟩,
    ⟨2, "buttons".toList, [initName], [⟨2, initName, [⟨⟨buttonIs 0,
      ⟨[deviceWrite buttonName 3], ⟨2, initName⟩⟩⟩, []⟩]⟩], "lamps.hbc".toList⟩]

/-- The theorem at this program. -/
theorem threeDevices_slices : ∃ g machines graphs,
    graphBuilder bitPrinter threeDevices = .ok (g, machines) ∧
    sliceDevices bitPrinter g machines = .ok graphs ∧
    graphs.map Prod.fst = [buttonName, fanName, lampName] ∧ SlicesWell g graphs := by
  have hbuild : ∃ g machines, graphBuilder bitPrinter threeDevices = .ok (g, machines) ∧
      ∃ graphs, sliceDevices bitPrinter g machines = .ok graphs ∧
        graphs.map Prod.fst = [buttonName, fanName, lampName] := ⟨_, _, rfl, _, rfl, rfl⟩
  obtain ⟨g, machines, hbuild, graphs, hslices, hnames⟩ := hbuild
  exact ⟨g, machines, graphs, hbuild, hslices, hnames,
    (slices_of_program bitPrinter threeDevices g machines hbuild).2 graphs hslices⟩

end Hexabus.Hbc
