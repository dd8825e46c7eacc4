import Hexabus.Hbc.Grammar
import Hexabus.Lib.Folds

/-!
# The tables of a program

`table_builder.cpp`: the endpoints, devices and modules that the blocks of a program define.
-/

namespace Hexabus.Hbc

open Lib.Bytes Lib.Folds

local instance : LawfulBEq Identifier := inferInstance

/-! ## Tables -/

/-- `endpoint`. -/
structure EndpointRow where
  eid : UInt32
  dtype : Dtype
  read : Bool
  write : Bool
  broadcast : Bool
  deriving DecidableEq

/-- `device_alias`. -/
structure DeviceAlias where
  ipv6Address : Block 16
  eids : List UInt32
  deriving DecidableEq

/-- `endpoint_table`, `device_table` and `module_table`. -/
structure BuiltTables where
  endpoints : List (Identifier × EndpointRow)
  devices : List (Identifier × DeviceAlias)
  modules : List (Identifier × ModuleDoc)

/-- `DuplicateEntryException` and `MissingEntryException`, with the position, and the exception of
`from_string`. -/
inductive TableError
  | duplicateEntry (file : Text) (lineno : Nat) (what : String)
  | missingEntry (file : Text) (lineno : Nat) (what : String)
  | invalidAddress
  deriving DecidableEq

/-! ## Endpoints -/

/-- What has been read of an endpoint. -/
structure EndpointEntries where
  eid : Option UInt32
  dtype : Option Dtype
  access : Option (List AccessLevel)

def endpointEntry (ep : EndpointDoc) (e : EndpointEntries) :
    EndpointCmdDoc → Except TableError EndpointEntries
  | .eid eid =>
    if e.eid.isNone then .ok { e with eid := some eid }
    else .error (.duplicateEntry ep.readFromFile ep.lineno "Endpoint has multiple EID entries.")
  | .datatype dtype =>
    if e.dtype.isNone then .ok { e with dtype := some dtype }
    else .error (.duplicateEntry ep.readFromFile ep.lineno "Endpoint has multiple datatype entries.")
  | .access accessLevels =>
    if e.access.isNone then .ok { e with access := some accessLevels }
    else .error
      (.duplicateEntry ep.readFromFile ep.lineno "Endpoint has multiple access level entries.")

/-- An entry that has to be there. -/
def needed {α : Type} (file : Text) (lineno : Nat) (what : String) :
    Option α → Except TableError α
  | some entry => .ok entry
  | none => .error (.missingEntry file lineno what)

def visitEndpoint (ep : EndpointDoc) (tables : BuiltTables) : Except TableError BuiltTables := do
  let e ← ep.cmds.foldlM (endpointEntry ep) ⟨none, none, none⟩
  let eid ← needed ep.readFromFile ep.lineno "Endpoint definition has no endpoint ID." e.eid
  let dtype ← needed ep.readFromFile ep.lineno "Endpoint definition has no datatype." e.dtype
  let access ← needed ep.readFromFile ep.lineno "Endpoint definition has no access level." e.access
  if ep.name ∈ tables.endpoints.map Prod.fst then
    .error (.duplicateEntry ep.readFromFile ep.lineno
      "Duplicate endpoint name in endpoint definition.")
  else
    let row : EndpointRow :=
      ⟨eid, dtype, access.contains .read, access.contains .write, access.contains .broadcast⟩
    .ok { tables with endpoints := tables.endpoints ++ [(ep.name, row)] }

/-! ## Devices -/

/-- `address_v6::from_string`. -/
abbrev FromString := Text → Option (Block 16)

section
variable (fromString : FromString)

/-- What has been read of a device. -/
structure AliasEntries where
  ipv6Address : Option (Block 16)
  eids : Option (List UInt32)

def aliasEntry (doc : AliasDoc) (dev : AliasEntries) : AliasCmdDoc → Except TableError AliasEntries
  | .ip ipv6Address =>
    if dev.ipv6Address.isNone then
      match fromString ipv6Address with
      | some address => .ok { dev with ipv6Address := some address }
      | none => .error .invalidAddress
    else .error
      (.duplicateEntry doc.readFromFile doc.lineno "Duplicate IP address in alias definition.")
  | .eids eids =>
    if dev.eids.isNone then .ok { dev with eids := some eids }
    else .error
      (.duplicateEntry doc.readFromFile doc.lineno "Duplicate endpoint list in alias definition.")

def visitAlias (doc : AliasDoc) (tables : BuiltTables) : Except TableError BuiltTables := do
  let dev ← doc.cmds.foldlM (aliasEntry fromString doc) ⟨none, none⟩
  let ipv6Address ← needed doc.readFromFile doc.lineno "Missing IP address in alias definition."
    dev.ipv6Address
  let eids ← needed doc.readFromFile doc.lineno "Missing endpoint list in alias definition." dev.eids
  if eids.any fun eid => eids.count eid > 1 then
    .error (.duplicateEntry doc.readFromFile doc.lineno
      "Duplicate entry in endpoint list in alias definition.")
  else if doc.deviceName ∈ tables.devices.map Prod.fst then
    .error (.duplicateEntry doc.readFromFile doc.lineno "Duplicate alias name in alias definition.")
  else .ok { tables with devices := tables.devices ++ [(doc.deviceName, ⟨ipv6Address, eids⟩)] }

/-! ## Programs -/

def visitModule (doc : ModuleDoc) (tables : BuiltTables) : Except TableError BuiltTables :=
  if doc.name ∈ tables.modules.map Prod.fst then
    .error (.duplicateEntry doc.readFromFile doc.lineno "Duplicate module name.")
  else .ok { tables with modules := tables.modules ++ [(doc.name, doc)] }

def visitBlock (tables : BuiltTables) : ParsedBlock → Except TableError BuiltTables
  | .endpointDoc ep => visitEndpoint ep tables
  | .aliasDoc doc => visitAlias fromString doc tables
  | .moduleDoc doc => visitModule doc tables
  | .statemachineDoc _ => .ok tables
  | .includeDoc _ => .ok tables
  | .instantiationDoc _ => .ok tables

/-- `TableBuilder::operator()`. -/
def tableBuilder (blocks : List ParsedBlock) : Except TableError BuiltTables :=
  blocks.foldlM (visitBlock fromString) ⟨[], [], []⟩

end

/-! ## Names -/

/-- The endpoints that are defined. -/
def endpointNames (blocks : List ParsedBlock) : List Identifier :=
  blocks.filterMap fun block => match block with
    | .endpointDoc ep => some ep.name
    | _ => none

/-- The devices that are defined. -/
def deviceNames (blocks : List ParsedBlock) : List Identifier :=
  blocks.filterMap fun block => match block with
    | .aliasDoc doc => some doc.deviceName
    | _ => none

/-- The names in the tables are those of the blocks so far, and all different. -/
structure Named (blocks : List ParsedBlock) (tables : BuiltTables) : Prop where
  endpoints : tables.endpoints.map Prod.fst = endpointNames blocks
  devices : tables.devices.map Prod.fst = deviceNames blocks
  endpointsNodup : (endpointNames blocks).Nodup
  devicesNodup : (deviceNames blocks).Nodup

section
variable {fromString : FromString} {blocks : List ParsedBlock} {tables tables' : BuiltTables}

theorem visitEndpoint_ok {ep : EndpointDoc} (h : visitEndpoint ep tables = .ok tables') :
    ep.name ∉ tables.endpoints.map Prod.fst ∧
      ∃ row, tables' = { tables with endpoints := tables.endpoints ++ [(ep.name, row)] } := by
  unfold visitEndpoint at h
  obtain ⟨e, -, h⟩ := bind_ok_iff.mp h
  obtain ⟨eid, -, h⟩ := bind_ok_iff.mp h
  obtain ⟨dtype, -, h⟩ := bind_ok_iff.mp h
  obtain ⟨access, -, h⟩ := bind_ok_iff.mp h
  split at h
  · cases h
  · next hname => exact ⟨hname, _, (Except.ok.inj h).symm⟩

theorem visitAlias_ok {doc : AliasDoc} (h : visitAlias fromString doc tables = .ok tables') :
    doc.deviceName ∉ tables.devices.map Prod.fst ∧
      ∃ dev, tables' = { tables with devices := tables.devices ++ [(doc.deviceName, dev)] } := by
  unfold visitAlias at h
  obtain ⟨dev, -, h⟩ := bind_ok_iff.mp h
  obtain ⟨ipv6Address, -, h⟩ := bind_ok_iff.mp h
  obtain ⟨eids, -, h⟩ := bind_ok_iff.mp h
  split at h
  · cases h
  · split at h
    · cases h
    · next hname => exact ⟨hname, _, (Except.ok.inj h).symm⟩

theorem endpointNames_concat (blocks : List ParsedBlock) (block : ParsedBlock) :
    endpointNames (blocks ++ [block]) = endpointNames blocks ++ endpointNames [block] :=
  List.filterMap_append

theorem deviceNames_concat (blocks : List ParsedBlock) (block : ParsedBlock) :
    deviceNames (blocks ++ [block]) = deviceNames blocks ++ deviceNames [block] :=
  List.filterMap_append

/-- **A block** that is accepted defines a new name, if it defines an endpoint or a device. -/
theorem Named.step (h : Named blocks tables) {block : ParsedBlock}
    (hvisit : visitBlock fromString tables block = .ok tables') :
    Named (blocks ++ [block]) tables' := by
  have hother : endpointNames [block] = [] → deviceNames [block] = [] →
      tables'.endpoints = tables.endpoints → tables'.devices = tables.devices →
      Named (blocks ++ [block]) tables' := by
    intro he hd hendpoints hdevices
    have hendpointNames := endpointNames_concat blocks block
    have hdeviceNames := deviceNames_concat blocks block
    rw [he, List.append_nil] at hendpointNames
    rw [hd, List.append_nil] at hdeviceNames
    refine ⟨?_, ?_, hendpointNames ▸ h.endpointsNodup, hdeviceNames ▸ h.devicesNodup⟩
    · rw [hendpointNames, hendpoints, h.endpoints]
    · rw [hdeviceNames, hdevices, h.devices]
  cases block with
  | endpointDoc ep =>
    obtain ⟨hname, row, rfl⟩ := visitEndpoint_ok hvisit
    have hendpointNames : endpointNames (blocks ++ [.endpointDoc ep]) =
      endpointNames blocks ++ [ep.name] := endpointNames_concat blocks _
    have hdeviceNames : deviceNames (blocks ++ [.endpointDoc ep]) = deviceNames blocks :=
      (deviceNames_concat blocks _).trans (List.append_nil _)
    rw [h.endpoints] at hname
    refine ⟨?_, hdeviceNames ▸ h.devices, ?_, hdeviceNames ▸ h.devicesNodup⟩
    · rw [List.map_append, h.endpoints, hendpointNames]
      rfl
    · rw [hendpointNames]
      exact List.nodup_append.mpr ⟨h.endpointsNodup, List.nodup_singleton _, by
        rintro a ha b hb rfl
        exact hname (List.mem_singleton.mp hb ▸ ha)⟩
  | aliasDoc doc =>
    obtain ⟨hname, dev, rfl⟩ := visitAlias_ok hvisit
    have hdeviceNames : deviceNames (blocks ++ [.aliasDoc doc]) =
      deviceNames blocks ++ [doc.deviceName] := deviceNames_concat blocks _
    have hendpointNames : endpointNames (blocks ++ [.aliasDoc doc]) = endpointNames blocks :=
      (endpointNames_concat blocks _).trans (List.append_nil _)
    rw [h.devices] at hname
    refine ⟨hendpointNames ▸ h.endpoints, ?_, hendpointNames ▸ h.endpointsNodup, ?_⟩
    · rw [List.map_append, h.devices, hdeviceNames]
      rfl
    · rw [hdeviceNames]
      exact List.nodup_append.mpr ⟨h.devicesNodup, List.nodup_singleton _, by
        rintro a ha b hb rfl
        exact hname (List.mem_singleton.mp hb ▸ ha)⟩
  | moduleDoc doc =>
    change visitModule doc tables = _ at hvisit
    unfold visitModule at hvisit
    split at hvisit
    · cases hvisit
    · cases hvisit
      exact hother rfl rfl rfl rfl
  | statemachineDoc doc =>
    cases hvisit
    exact hother rfl rfl rfl rfl
  | includeDoc doc =>
    cases hvisit
    exact hother rfl rfl rfl rfl
  | instantiationDoc doc =>
    cases hvisit
    exact hother rfl rfl rfl rfl

/-- **What the table builder accepts** has no two definitions of an endpoint, or of a device, with
one name. -/
theorem named_of_tableBuilder (h : tableBuilder fromString blocks = .ok tables) :
    Named blocks tables := by
  have hempty : Named [] ⟨[], [], []⟩ := ⟨rfl, rfl, List.nodup_nil, List.nodup_nil⟩
  have hstep : ∀ done tables block tables', Named done tables →
      visitBlock fromString tables block = .ok tables' → Named (done ++ [block]) tables' :=
    fun _ _ _ _ hnamed hvisit => hnamed.step hvisit
  exact foldlM_invariant (fun done block tables tables' => hstep done tables block tables') hempty h

/-- A complete definition of an endpoint. -/
theorem visitEndpoint_complete {ep : EndpointDoc} {eid : UInt32} {dtype : Dtype}
    {levels : List AccessLevel} (hcmds : ep.cmds = [.eid eid, .datatype dtype, .access levels])
    (hname : ep.name ∉ tables.endpoints.map Prod.fst) :
    ∃ tables', visitEndpoint ep tables = .ok tables' := by
  unfold visitEndpoint
  rw [hcmds]
  exact ⟨_, if_neg hname⟩

/-- A complete definition of a device. -/
theorem visitAlias_complete {doc : AliasDoc} {address : Block 16} {text : Text} {eids : List UInt32}
    (hcmds : doc.cmds = [.ip text, .eids eids]) (haddress : fromString text = some address)
    (heids : eids.Nodup) (hname : doc.deviceName ∉ tables.devices.map Prod.fst) :
    ∃ tables', visitAlias fromString doc tables = .ok tables' := by
  have hcount : (eids.any fun eid => decide (eids.count eid > 1)) = false := by
    rw [List.any_eq_false]
    intro eid _
    have hle := List.nodup_iff_count_le_one.mp heids eid
    simpa using hle
  unfold visitAlias
  rw [hcmds]
  simp only [List.foldlM_cons, List.foldlM_nil, aliasEntry, haddress, Option.isNone_none, if_true,
    needed, bind, Except.bind, pure, Except.pure, hcount, Bool.false_eq_true, if_false]
  exact ⟨_, if_neg hname⟩

/-- A definition of an endpoint or a device with all of its entries. -/
def Complete (fromString : FromString) : ParsedBlock → Prop
  | .endpointDoc ep => ∃ eid dtype levels, ep.cmds = [.eid eid, .datatype dtype, .access levels]
  | .aliasDoc doc => ∃ text address eids, doc.cmds = [.ip text, .eids eids] ∧
    fromString text = some address ∧ eids.Nodup
  | _ => False

theorem Named.visit (h : Named blocks tables) {block : ParsedBlock}
    (hblock : Complete fromString block) (he : (endpointNames (blocks ++ [block])).Nodup)
    (hd : (deviceNames (blocks ++ [block])).Nodup) :
    ∃ tables', visitBlock fromString tables block = .ok tables' := by
  rw [endpointNames_concat] at he
  rw [deviceNames_concat] at hd
  cases block with
  | endpointDoc ep =>
    obtain ⟨eid, dtype, levels, hcmds⟩ := hblock
    refine visitEndpoint_complete hcmds fun hmem => ?_
    rw [h.endpoints] at hmem
    exact (List.nodup_append.mp he).2.2 _ hmem ep.name List.mem_cons_self rfl
  | aliasDoc doc =>
    obtain ⟨text, address, eids, hcmds, haddress, hnodup⟩ := hblock
    refine visitAlias_complete hcmds haddress hnodup fun hmem => ?_
    rw [h.devices] at hmem
    exact (List.nodup_append.mp hd).2.2 _ hmem doc.deviceName List.mem_cons_self rfl
  | includeDoc doc => exact absurd hblock id
  | statemachineDoc doc => exact absurd hblock id
  | moduleDoc doc => exact absurd hblock id
  | instantiationDoc doc => exact absurd hblock id

/-- **Complete definitions** are accepted, where all names of a kind are different. -/
theorem tableBuilder_complete (h : ∀ block ∈ blocks, Complete fromString block)
    (he : (endpointNames blocks).Nodup) (hd : (deviceNames blocks).Nodup) :
    ∃ tables, tableBuilder fromString blocks = .ok tables := by
  have hrun : ∀ rest done tables, Named done tables → done ++ rest = blocks →
      ∃ tables', rest.foldlM (visitBlock fromString) tables = .ok tables' := by
    intro rest
    induction rest with
    | nil => exact fun done tables _ _ => ⟨tables, rfl⟩
    | cons block rest ih =>
      intro done tables hnamed hdone
      have hsplit : blocks = done ++ [block] ++ rest := by rw [← hdone, List.append_cons]
      rw [hsplit, endpointNames, List.filterMap_append] at he
      rw [hsplit, deviceNames, List.filterMap_append] at hd
      have hmem : block ∈ blocks := by simp [hsplit]
      obtain ⟨tables', hvisit⟩ := hnamed.visit (h block hmem) (List.nodup_append.mp he).1
        (List.nodup_append.mp hd).1
      obtain ⟨tables'', hrest⟩ := ih (done ++ [block]) tables' (hnamed.step hvisit) hsplit.symm
      refine ⟨tables'', ?_⟩
      rw [List.foldlM_cons, hvisit]
      exact hrest
  exact hrun blocks [] ⟨[], [], []⟩ ⟨rfl, rfl, List.nodup_nil, List.nodup_nil⟩ rfl

end

end Hexabus.Hbc
