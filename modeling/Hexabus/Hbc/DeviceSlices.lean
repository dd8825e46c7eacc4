import Hexabus.Hbc.HbaOutput
import Hexabus.Hbc.Slices

/-!
# The slices of a graph

The slices of any graph whose machines are not joined by an edge: which devices get one, what
is copied, and where every write of the graph has gone. The copy of a machine lists its
vertices in their order, and the edges of a vertex in theirs.
-/

namespace Hexabus.Hbc

open Lib.Folds

/-! ## What a graph writes -/

/-- The device that a command writes, if it is no placeholder. -/
def CommandDoc.device? (command : CommandDoc) : Option Identifier :=
  match command.geid.deviceAlias with
  | .literal name => some name
  | .placeholder _ => none

/-- The commands of a vertex with these contents. -/
def Contents.writes : Contents → List CommandDoc
  | .command block => block.commands
  | _ => []

/-- The commands of a vertex. -/
def Graph.writesAt (g : Graph) (v : Nat) : List CommandDoc :=
  ((g.contents v).map Contents.writes).getD []

/-- A machine of the graph writes the device. -/
def WritesDevice (g : Graph) (machineId : Nat) (device : Identifier) : Prop :=
  ∃ v ∈ machineVertices g machineId, ∃ command ∈ g.writesAt v, command.device? = some device

/-- Edges join vertices of one machine. -/
def MachineClosed (g : Graph) : Prop :=
  ∀ e ∈ g.edges, e.1 < g.size ∧ e.2 < g.size ∧ g.machineOf e.1 = g.machineOf e.2

/-- No command has a placeholder for its device. -/
def Resolved (g : Graph) : Prop := ∀ v, ∀ command ∈ g.writesAt v, command.device? ≠ none

/-- No device is written by two machines. -/
def Separate (g : Graph) : Prop :=
  ∀ m m' device, WritesDevice g m device → WritesDevice g m' device → m = m'

/-- What is left of a vertex on a device: of a command block, the writes of the device. -/
def ownContents (device : Identifier) : Contents → Contents
  | .command block => .command { block with
      commands := block.commands.filter fun command => command.device? = some device }
  | contents => contents

/-- `h` is the copy of the vertices `vs` of `g` for the device. -/
structure OwnCopy (g : Graph) (vs : List Nat) (device : Identifier) (h : Graph) : Prop where
  size : h.size = vs.length
  vertex : ∀ i v : Nat, vs[i]? = some v → ∃ w w' : Vertex, g.vertices[v]? = some w ∧
    h.vertices[i]? = some w' ∧ w'.machineId = w.machineId ∧ w'.vertexId = w.vertexId ∧
    w'.contents = ownContents device w.contents ∧
    ((∀ block, w.contents ≠ .command block) → w'.name = replaceNewline w.name)
  adjacent : ∀ i v : Nat, vs[i]? = some v → (h.adjacent i).map (vs[·]?) = (g.adjacent v).map some

/-- All the writes of a graph. -/
def Graph.writes (g : Graph) : List CommandDoc := (List.range g.size).flatMap g.writesAt

/-- The slices of a graph: a device that a machine writes gets the copy of the machine and
its own writes, in their places. No write is lost, and none is there twice. -/
structure SlicesWell (g : Graph) (graphs : List (Identifier × Graph)) : Prop where
  nodup : (graphs.map Prod.fst).Nodup
  slice : ∀ m device, WritesDevice g m device →
    ∃ h, (device, h) ∈ graphs ∧ OwnCopy g (machineVertices g m) device h
  origin : ∀ device h, (device, h) ∈ graphs →
    ∃ m, WritesDevice g m device ∧ OwnCopy g (machineVertices g m) device h
  own : ∀ device h, (device, h) ∈ graphs →
    h.writes = g.writes.filter fun command => command.device? = some device
  once : (graphs.flatMap fun entry => entry.2.writes).Perm g.writes

/-- `GraphTransformation`, and the first pass of `GraphSimplification` over what it makes. -/
def sliceDevices (fp : FloatPrinter) (g : Graph) (machines : List MachineDescriptor) :
    Except HbcError (List (Identifier × Graph)) := do
  let graphs ← graphTransformation g machines
  onGraphs (deleteOthersWrites fp) graphs

variable {g : Graph} {device : Identifier}

/-! ## The devices of a machine -/

/-- An element joins a list that does not have it. -/
def addNew {α : Type} [DecidableEq α] (ds : List α) (d : α) : List α :=
  if d ∈ ds then ds else ds ++ [d]

theorem mem_addNew {α : Type} [DecidableEq α] {ds : List α} {a d : α} :
    d ∈ addNew ds a ↔ d ∈ ds ∨ d = a := by
  unfold addNew
  split
  · rename_i ha
    exact ⟨.inl, fun h => h.elim id fun heq => heq ▸ ha⟩
  · rw [List.mem_append, List.mem_singleton]

theorem nodup_addNew {α : Type} [DecidableEq α] {ds : List α} (hds : ds.Nodup) (a : α) :
    (addNew ds a).Nodup := by
  unfold addNew
  split
  · exact hds
  · rename_i ha
    rw [List.nodup_append]
    refine ⟨hds, List.nodup_singleton a, ?_⟩
    rintro b hb c hc rfl
    exact ha (List.mem_singleton.mp hc ▸ hb)

theorem foldl_addNew {α : Type} [DecidableEq α] (l ds : List α) (hds : ds.Nodup) :
    (l.foldl addNew ds).Nodup ∧ ∀ d, d ∈ l.foldl addNew ds ↔ d ∈ ds ∨ d ∈ l := by
  induction l generalizing ds with
  | nil => exact ⟨hds, fun d => by simp⟩
  | cons a l ih =>
    obtain ⟨hnodup, hmem⟩ := ih (addNew ds a) (nodup_addNew hds a)
    refine ⟨hnodup, fun d => ?_⟩
    rw [List.foldl_cons, hmem, mem_addNew, List.mem_cons, or_assoc]

/-- The devices of some vertices, in the order in which they are found. -/
def devicesOf (g : Graph) (vs : List Nat) : List Identifier :=
  ((vs.flatMap g.writesAt).filterMap CommandDoc.device?).foldl addNew []

theorem nodup_devicesOf (g : Graph) (vs : List Nat) : (devicesOf g vs).Nodup :=
  (foldl_addNew _ [] List.nodup_nil).1

theorem mem_devicesOf {vs : List Nat} : device ∈ devicesOf g vs ↔
    ∃ v ∈ vs, ∃ command ∈ g.writesAt v, command.device? = some device := by
  unfold devicesOf
  rw [(foldl_addNew _ [] List.nodup_nil).2, List.mem_filterMap]
  simp only [List.not_mem_nil, false_or, List.mem_flatMap]
  constructor
  · rintro ⟨command, ⟨v, hv, hcommand⟩, hdevice⟩
    exact ⟨v, hv, command, hcommand, hdevice⟩
  · rintro ⟨v, hv, command, hcommand, hdevice⟩
    exact ⟨command, ⟨v, hv, hcommand⟩, hdevice⟩

theorem addDevice_ok {machines : List MachineDescriptor} {m : Nat} {devices ds : List Identifier}
    {command : CommandDoc} : addDevice machines m devices command = .ok ds ↔
      ∃ d, command.device? = some d ∧ ds = addNew devices d := by
  unfold addDevice CommandDoc.device? addNew
  cases command.geid.deviceAlias with
  | literal name =>
    simp only [Option.some.injEq, exists_eq_left']
    by_cases hname : name ∈ devices
    · rw [if_pos hname, if_pos hname]
      exact ⟨fun h => (Except.ok.inj h).symm, fun h => h ▸ rfl⟩
    · rw [if_neg hname, if_neg hname]
      exact ⟨fun h => (Except.ok.inj h).symm, fun h => h ▸ rfl⟩
  | placeholder index =>
    constructor
    · intro h
      cases h
    · rintro ⟨d, h, -⟩
      cases h

theorem foldlM_addDevice {machines : List MachineDescriptor} {m : Nat}
    {commands : List CommandDoc} {devices ds : List Identifier} :
    commands.foldlM (addDevice machines m) devices = .ok ds ↔
      (∀ command ∈ commands, command.device? ≠ none) ∧
        ds = (commands.filterMap CommandDoc.device?).foldl addNew devices := by
  induction commands generalizing devices with
  | nil =>
    constructor
    · intro h
      cases h
      exact ⟨fun _ h => absurd h List.not_mem_nil, rfl⟩
    · rintro ⟨-, rfl⟩
      rfl
  | cons command commands ih =>
    rw [List.foldlM_cons, bind_ok_iff]
    constructor
    · rintro ⟨ds', hstep, hrest⟩
      obtain ⟨d, hd, rfl⟩ := addDevice_ok.mp hstep
      obtain ⟨hall, rfl⟩ := ih.mp hrest
      refine ⟨?_, ?_⟩
      · rw [List.forall_mem_cons]
        exact ⟨by rw [hd]; exact Option.some_ne_none d, hall⟩
      · rw [List.filterMap_cons_some hd, List.foldl_cons]
    · rintro ⟨hall, rfl⟩
      rw [List.forall_mem_cons] at hall
      obtain ⟨d, hd⟩ := Option.ne_none_iff_exists'.mp hall.1
      refine ⟨_, addDevice_ok.mpr ⟨d, hd, rfl⟩, ih.mpr ⟨hall.2, ?_⟩⟩
      rw [List.filterMap_cons_some hd, List.foldl_cons]

theorem findDevices_eq (machines : List MachineDescriptor) (vs : List Nat) :
    findDevices g machines vs = vs.foldlM (fun devices v =>
      (g.writesAt v).foldlM (addDevice machines (g.machineOf v)) devices) [] := by
  unfold findDevices
  congr 1
  funext devices v
  unfold Graph.writesAt
  cases g.contents v with
  | none => rfl
  | some contents => cases contents <;> rfl

/-- **The devices of a machine** are found if no command has a placeholder. -/
theorem findDevices_ok {machines : List MachineDescriptor} {vs : List Nat}
    {ds : List Identifier} : findDevices g machines vs = .ok ds ↔
      (∀ v ∈ vs, ∀ command ∈ g.writesAt v, command.device? ≠ none) ∧ ds = devicesOf g vs := by
  rw [findDevices_eq]
  unfold devicesOf
  generalize ([] : List Identifier) = devices
  induction vs generalizing devices with
  | nil =>
    constructor
    · intro h
      cases h
      exact ⟨fun _ h => absurd h List.not_mem_nil, rfl⟩
    · rintro ⟨-, rfl⟩
      rfl
  | cons v vs ih =>
    rw [List.foldlM_cons, bind_ok_iff, List.flatMap_cons, List.filterMap_append, List.foldl_append,
      List.forall_mem_cons]
    constructor
    · rintro ⟨ds', hstep, hrest⟩
      obtain ⟨hall, rfl⟩ := foldlM_addDevice.mp hstep
      obtain ⟨halls, rfl⟩ := (ih _).mp hrest
      exact ⟨⟨hall, halls⟩, rfl⟩
    · rintro ⟨⟨hall, halls⟩, rfl⟩
      exact ⟨_, foldlM_addDevice.mpr ⟨hall, rfl⟩, (ih _).mpr ⟨halls, rfl⟩⟩

/-! ## The copy of any vertices -/

/-- The place of a vertex in the copy. -/
def place (vs : List Nat) (v : Nat) : Nat := vs.findIdx (· = v)

/-- What `reconstructGraph` makes of vertices that no edge leads out of. -/
def copyOf (g : Graph) (vs : List Nat) : Graph where
  vertices := (vs.filterMap (g.vertices[·]?)).map fun w => { w with name := replaceNewline w.name }
  edges := vs.flatMap fun v => (g.adjacent v).map fun t => (place vs v, place vs t)

variable {vs : List Nat}

theorem findIdx?_place {v : Nat} (hv : v ∈ vs) : vs.findIdx? (· = v) = some (place vs v) :=
  List.findIdx?_eq_some_of_exists ⟨v, hv, decide_eq_true rfl⟩

theorem getElem?_place {v : Nat} (hv : v ∈ vs) : vs[place vs v]? = some v := by
  obtain ⟨h, hfound, -⟩ := List.findIdx?_eq_some_iff_getElem.mp (findIdx?_place hv)
  rw [List.getElem?_eq_getElem h, of_decide_eq_true hfound]

theorem place_eq_iff {v i : Nat} (hnodup : vs.Nodup) (hv : v ∈ vs) :
    place vs v = i ↔ vs[i]? = some v := by
  constructor
  · rintro rfl
    exact getElem?_place hv
  · intro hi
    have hplace := getElem?_place hv
    obtain ⟨hlt, -⟩ := List.getElem?_eq_some_iff.mp hplace
    exact (List.getElem?_inj hlt hnodup).mp (hplace.trans hi.symm)

theorem reconstructGraph_eq_copyOf (hclosed : ∀ v ∈ vs, ∀ t ∈ g.adjacent v, t ∈ vs) :
    reconstructGraph g vs = .ok (copyOf g vs) := by
  have hedges : ∀ (out : Graph) (v : Nat), v ∈ vs → (g.adjacent v).foldlM (copyEdge vs v) out
      = .ok ((g.adjacent v).foldl (fun out t => out.addEdge (place vs v) (place vs t)) out) := by
    intro out v hv
    refine foldlM_eq_foldl (fun out t ht => ?_) (hclosed v hv)
    unfold copyEdge
    rw [findIdx?_place hv, findIdx?_place ht]
  have hall : ∀ (us : List Nat) (out : Graph), us.foldl (fun out v => (g.adjacent v).foldl
      (fun out t => out.addEdge (place vs v) (place vs t)) out) out
        = { out with edges := out.edges ++ us.flatMap fun v =>
            (g.adjacent v).map fun t => (place vs v, place vs t) } := by
    intro us
    induction us with
    | nil => simp
    | cons u us ih =>
      intro out
      rw [List.foldl_cons, ih, foldl_addEdge]
      simp
  unfold reconstructGraph
  rw [foldlM_eq_foldl hedges fun v hv => hv, hall, foldl_addVertex]
  simp [copyOf, Graph.empty]

theorem filterMap_getElem? {α β : Type} {f : α → Option β} {l : List α}
    (h : ∀ a ∈ l, f a ≠ none) :
    (l.filterMap f).length = l.length ∧ ∀ i : Nat, (l.filterMap f)[i]? = l[i]?.bind f := by
  induction l with
  | nil => exact ⟨rfl, fun i => rfl⟩
  | cons a l ih =>
    rw [List.forall_mem_cons] at h
    obtain ⟨b, hb⟩ := Option.ne_none_iff_exists'.mp h.1
    obtain ⟨hlength, hget⟩ := ih h.2
    rw [List.filterMap_cons_some hb]
    refine ⟨by rw [List.length_cons, List.length_cons, hlength], fun i => ?_⟩
    cases i with
    | zero => exact hb.symm
    | succ i =>
      rw [List.getElem?_cons_succ, List.getElem?_cons_succ]
      exact hget i

theorem flatMap_eq_single {α β : Type} [DecidableEq α] {l : List α} (hnodup : l.Nodup) {a : α}
    (ha : a ∈ l) (f : α → List β) : l.flatMap (fun x => if x = a then f x else []) = f a := by
  induction l with
  | nil => exact absurd ha List.not_mem_nil
  | cons b l ih =>
    obtain ⟨hb, hl⟩ := List.nodup_cons.mp hnodup
    rw [List.flatMap_cons]
    by_cases hba : b = a
    · subst hba
      have hrest : l.flatMap (fun x => if x = b then f x else []) = [] := by
        refine List.flatMap_eq_nil_iff.mpr fun x hx => if_neg ?_
        rintro rfl
        exact hb hx
      rw [if_pos rfl, hrest, List.append_nil]
    · rw [if_neg hba, List.nil_append]
      exact ih hl ((List.mem_cons.mp ha).resolve_left (Ne.symm hba))

/-- **The copy** has the vertices in their order, and their edges. -/
theorem copyOf_spec (hnodup : vs.Nodup) (hin : ∀ v ∈ vs, v < g.size) :
    (copyOf g vs).size = vs.length ∧ ∀ i v : Nat, vs[i]? = some v →
      (copyOf g vs).vertices[i]?
        = (g.vertices[v]?).map (fun w => { w with name := replaceNewline w.name }) ∧
      (copyOf g vs).adjacent i = (g.adjacent v).map (place vs) := by
  have hsome : ∀ v ∈ vs, (g.vertices[v]?) ≠ none := by
    intro v hv
    rw [List.getElem?_eq_getElem (hin v hv)]
    exact Option.some_ne_none _
  obtain ⟨hlength, hget⟩ := filterMap_getElem? hsome
  refine ⟨?_, fun i v hi => ⟨?_, ?_⟩⟩
  · unfold Graph.size copyOf
    rw [List.length_map, hlength]
  · unfold copyOf
    rw [List.getElem?_map, hget, hi, Option.bind_some]
  · have hv := List.mem_of_getElem? hi
    rw [← flatMap_eq_single hnodup hv fun u => (g.adjacent u).map (place vs)]
    show ((vs.flatMap fun v => (g.adjacent v).map fun t => (place vs v, place vs t))).filterMap _ = _
    rw [List.filterMap_flatMap]
    refine List.flatMap_congr fun u hu => ?_
    rw [List.filterMap_map]
    by_cases huv : u = v
    · subst huv
      rw [if_pos rfl, ← List.filterMap_eq_map]
      congr 1
      funext t
      exact if_pos ((place_eq_iff hnodup hu).mpr hi)
    · rw [if_neg huv]
      refine List.filterMap_eq_nil_iff.mpr fun t _ => if_neg fun hplace => huv ?_
      have hui := (place_eq_iff hnodup hu).mp hplace
      rw [hi] at hui
      exact (Option.some.inj hui).symm

/-! ## The transformation -/

/-- A graph joins the graphs of the devices, if its device has none. -/
def insertOnce (graphs : List (Identifier × Graph)) (entry : Identifier × Graph) :
    Except HbcError (List (Identifier × Graph)) :=
  if graphs.any fun other => other.1 = entry.1 then
    .error (.multipleStateMachines entry.1.val)
  else .ok (insertDevice entry.1 entry.2 graphs)

theorem insertDevice_perm (device : Identifier) (graph : Graph)
    (graphs : List (Identifier × Graph)) :
    (insertDevice device graph graphs).Perm (graphs ++ [(device, graph)]) := by
  induction graphs with
  | nil => exact List.Perm.refl _
  | cons entry rest ih =>
    unfold insertDevice
    split
    · exact (List.perm_append_singleton (device, graph) (entry :: rest)).symm
    · exact ih.cons entry

theorem insertOnce_ok {graphs graphs' : List (Identifier × Graph)} {entry : Identifier × Graph} :
    insertOnce graphs entry = .ok graphs' ↔
      entry.1 ∉ graphs.map Prod.fst ∧ graphs' = insertDevice entry.1 entry.2 graphs := by
  have hany : (graphs.any fun other => decide (other.1 = entry.1)) = true
      ↔ entry.1 ∈ graphs.map Prod.fst := by
    rw [List.any_eq_true, List.mem_map]
    simp only [decide_eq_true_eq]
  unfold insertOnce
  split
  · rename_i htaken
    constructor
    · intro h
      cases h
    · rintro ⟨hnew, -⟩
      exact absurd (hany.mp htaken) hnew
  · rename_i hfree
    constructor
    · intro h
      cases h
      exact ⟨fun hmem => hfree (hany.mpr hmem), rfl⟩
    · rintro ⟨-, rfl⟩
      rfl

/-- Graphs are inserted if no two of them are for one device, and all of them are then
there. -/
theorem foldlM_insertOnce (entries graphs : List (Identifier × Graph))
    (hgraphs : (graphs.map Prod.fst).Nodup) :
    ((∃ graphs', entries.foldlM insertOnce graphs = .ok graphs') ↔
      ((graphs ++ entries).map Prod.fst).Nodup) ∧
    ∀ graphs', entries.foldlM insertOnce graphs = .ok graphs' →
      graphs'.Perm (graphs ++ entries) := by
  induction entries generalizing graphs with
  | nil =>
    rw [List.append_nil]
    refine ⟨⟨fun _ => hgraphs, fun _ => ⟨graphs, rfl⟩⟩, fun graphs' h => ?_⟩
    cases h
    exact List.Perm.refl _
  | cons entry entries ih =>
    have hperm := insertDevice_perm entry.1 entry.2 graphs
    have hmove : (graphs ++ entry :: entries).Perm
        (insertDevice entry.1 entry.2 graphs ++ entries) := by
      rw [List.append_cons]
      exact (hperm.symm.append_right entries)
    have hstep : entry.1 ∉ graphs.map Prod.fst →
        ((insertDevice entry.1 entry.2 graphs).map Prod.fst).Nodup := by
      intro hnew
      rw [(hperm.map Prod.fst).nodup_iff, List.map_append, List.map_singleton, List.nodup_append]
      refine ⟨hgraphs, List.nodup_singleton _, ?_⟩
      rintro d hd d' hd' rfl
      exact hnew (List.mem_singleton.mp hd' ▸ hd)
    rw [List.foldlM_cons, (hmove.map Prod.fst).nodup_iff]
    simp only [bind_ok_iff]
    constructor
    · constructor
      · rintro ⟨graphs', graphs₁, hinsert, hrest⟩
        obtain ⟨hnew, rfl⟩ := insertOnce_ok.mp hinsert
        exact (ih _ (hstep hnew)).1.mp ⟨graphs', hrest⟩
      · intro hnodup
        have hnew : entry.1 ∉ graphs.map Prod.fst := by
          rw [← (hmove.map Prod.fst).nodup_iff, List.map_append, List.map_cons,
            List.nodup_append] at hnodup
          exact fun hmem => hnodup.2.2 _ hmem _ List.mem_cons_self rfl
        obtain ⟨graphs', hrest⟩ := (ih _ (hstep hnew)).1.mpr hnodup
        exact ⟨graphs', _, insertOnce_ok.mpr ⟨hnew, rfl⟩, hrest⟩
    · rintro graphs' ⟨graphs₁, hinsert, hrest⟩
      obtain ⟨hnew, rfl⟩ := insertOnce_ok.mp hinsert
      exact ((ih _ (hstep hnew)).2 graphs' hrest).trans hmove.symm

/-- What a machine adds to the graphs. -/
def additions (g : Graph) (machineId : Nat) : List (Identifier × Graph) :=
  (devicesOf g (machineVertices g machineId)).map fun device =>
    (device, copyOf g (machineVertices g machineId))

theorem mem_machineVertices {m v : Nat} :
    v ∈ machineVertices g m ↔ ∃ w : Vertex, g.vertices[v]? = some w ∧ w.machineId = m := by
  unfold machineVertices
  rw [List.mem_filter, List.mem_range, decide_eq_true_eq, Option.map_eq_some_iff]
  constructor
  · exact fun h => h.2
  · rintro ⟨w, hw, hm⟩
    exact ⟨(List.getElem?_eq_some_iff.mp hw).1, w, hw, hm⟩

theorem nodup_machineVertices (g : Graph) (m : Nat) : (machineVertices g m).Nodup :=
  List.nodup_range.filter _

theorem MachineClosed.closed (h : MachineClosed g) (m : Nat) :
    ∀ v ∈ machineVertices g m, ∀ t ∈ g.adjacent v, t ∈ machineVertices g m := by
  intro v hv t ht
  obtain ⟨w, hw, rfl⟩ := mem_machineVertices.mp hv
  obtain ⟨-, hlt, hsame⟩ := h _ (Graph.mem_adjacent.mp ht)
  have hw' := List.getElem?_eq_getElem (l := g.vertices) hlt
  refine mem_machineVertices.mpr ⟨_, hw', ?_⟩
  unfold Graph.machineOf at hsame
  simp only [hw, hw', Option.map_some, Option.getD_some] at hsame
  exact hsame.symm

theorem addDeviceGraph_eq (h : MachineClosed g) (m : Nat) (graphs : List (Identifier × Graph))
    (device : Identifier) : addDeviceGraph g (machineVertices g m) graphs device
      = insertOnce graphs (device, copyOf g (machineVertices g m)) := by
  unfold addDeviceGraph
  rw [reconstructGraph_eq_copyOf (h.closed m)]
  rfl

/-- No command of the machine has a placeholder. -/
def ResolvedIn (g : Graph) (vs : List Nat) : Prop :=
  ∀ v ∈ vs, ∀ command ∈ g.writesAt v, command.device? ≠ none

theorem transformation_ok (h : MachineClosed g) {machines : List MachineDescriptor}
    {ms : List Nat} {graphs graphs' : List (Identifier × Graph)} :
    ms.foldlM (fun deviceGraphs machineId => do
      let vertices := machineVertices g machineId
      let devices ← findDevices g machines vertices
      devices.foldlM (addDeviceGraph g vertices) deviceGraphs) graphs = .ok graphs' ↔
      (∀ m ∈ ms, ResolvedIn g (machineVertices g m)) ∧
        (ms.flatMap (additions g)).foldlM insertOnce graphs = .ok graphs' := by
  induction ms generalizing graphs with
  | nil => exact ⟨fun hrun => ⟨fun _ hm => absurd hm List.not_mem_nil, hrun⟩, fun hrun => hrun.2⟩
  | cons m ms ih =>
    have hinsert : ∀ graphs, (devicesOf g (machineVertices g m)).foldlM
        (addDeviceGraph g (machineVertices g m)) graphs
          = (additions g m).foldlM insertOnce graphs := by
      intro graphs
      unfold additions
      rw [List.foldlM_map]
      congr 1
      funext graphs device
      exact addDeviceGraph_eq h m graphs device
    rw [List.foldlM_cons, bind_ok_iff, List.flatMap_cons, List.foldlM_append, bind_ok_iff,
      List.forall_mem_cons]
    constructor
    · rintro ⟨graphs₁, hstep, hrest⟩
      obtain ⟨devices, hfind, hdevices⟩ := bind_ok_iff.mp hstep
      obtain ⟨hresolved, rfl⟩ := findDevices_ok.mp hfind
      obtain ⟨hall, hrest⟩ := ih.mp hrest
      exact ⟨⟨hresolved, hall⟩, graphs₁, (hinsert graphs).symm.trans hdevices, hrest⟩
    · rintro ⟨⟨hresolved, hall⟩, graphs₁, hstep, hrest⟩
      refine ⟨graphs₁, ?_, ih.mpr ⟨hall, hrest⟩⟩
      exact bind_ok_iff.mpr ⟨_, findDevices_ok.mpr ⟨hresolved, rfl⟩, (hinsert graphs).trans hstep⟩

theorem mem_machineIds {m v : Nat} (hv : v ∈ machineVertices g m) : m ∈ machineIds g := by
  obtain ⟨w, hw, rfl⟩ := mem_machineVertices.mp hv
  unfold machineIds
  rw [List.mem_filter, List.mem_range, decide_eq_true_eq]
  refine ⟨?_, List.ne_nil_of_mem hv⟩
  exact (le_foldl_max (fun w : Vertex => w.machineId + 1) g.vertices 0).2 w
    (List.mem_of_getElem? hw)

theorem nodup_machineIds (g : Graph) : (machineIds g).Nodup := List.nodup_range.filter _

/-- A vertex that writes is one of a machine. -/
theorem mem_of_writesAt {v : Nat} {command : CommandDoc} (h : command ∈ g.writesAt v) :
    ∃ w : Vertex, g.vertices[v]? = some w ∧ v ∈ machineVertices g w.machineId := by
  unfold Graph.writesAt Graph.contents at h
  cases hw : g.vertices[v]? with
  | some w => exact ⟨w, rfl, mem_machineVertices.mpr ⟨w, hw, rfl⟩⟩
  | none =>
    rw [hw] at h
    exact absurd h List.not_mem_nil

theorem resolved_iff :
    Resolved g ↔ ∀ m ∈ machineIds g, ResolvedIn g (machineVertices g m) := by
  constructor
  · exact fun h m _ v _ => h v
  · intro h v command hcommand
    obtain ⟨w, -, hv⟩ := mem_of_writesAt hcommand
    exact h _ (mem_machineIds hv) v hv command hcommand

theorem map_fst_additions (g : Graph) (m : Nat) :
    (additions g m).map Prod.fst = devicesOf g (machineVertices g m) := by
  unfold additions
  rw [List.map_map]
  exact List.map_id _

/-- No device is added twice if no two machines write one. -/
theorem separate_iff :
    Separate g ↔ (((machineIds g).flatMap (additions g)).map Prod.fst).Nodup := by
  rw [List.map_flatMap, List.nodup_flatMap]
  simp only [map_fst_additions]
  have hids : ∀ {m : Nat} {d : Identifier}, WritesDevice g m d → m ∈ machineIds g := by
    rintro m d ⟨v, hv, -⟩
    exact mem_machineIds hv
  constructor
  · intro h
    refine ⟨fun m _ => nodup_devicesOf g _, ?_⟩
    refine (nodup_machineIds g).pairwise_of_forall_ne fun m _ m' _ hne d hd hd' => ?_
    exact hne (h m m' d (mem_devicesOf.mp hd) (mem_devicesOf.mp hd'))
  · rintro ⟨-, hpair⟩ m m' d hd hd'
    by_contra hne
    have hsymm : Std.Symm (Function.onFun List.Disjoint fun m =>
        devicesOf g (machineVertices g m)) := ⟨fun _ _ hdisjoint => hdisjoint.symm⟩
    exact hpair.forall (hids hd) (hids hd') hne (mem_devicesOf.mpr hd) (mem_devicesOf.mpr hd')

/-- **The transformation** makes the copies of the machines for their devices, unless a
device has two. -/
theorem graphTransformation_spec (h : MachineClosed g) (machines : List MachineDescriptor) :
    ((∃ graphs, graphTransformation g machines = .ok graphs) ↔ Resolved g ∧ Separate g) ∧
    ∀ graphs, graphTransformation g machines = .ok graphs →
      graphs.Perm ((machineIds g).flatMap (additions g)) := by
  have hfold := foldlM_insertOnce ((machineIds g).flatMap (additions g)) [] List.nodup_nil
  rw [List.nil_append, ← separate_iff] at hfold
  unfold graphTransformation
  simp only [transformation_ok h, ← resolved_iff]
  refine ⟨?_, fun graphs hrun => hfold.2 graphs hrun.2⟩
  rw [← hfold.1]
  exact ⟨fun ⟨graphs, hresolved, hrun⟩ => ⟨hresolved, graphs, hrun⟩,
    fun ⟨hresolved, graphs, hrun⟩ => ⟨graphs, hresolved, hrun⟩⟩

end Hexabus.Hbc
