import Hexabus.Hbc.GeneratedDefinitions
import Hexabus.Host.Found
import Mathlib.Data.Bool.AllAny

/-!
# Definitions that compile

The compiler reads the definitions that `hexinfo` writes, and its table builder takes all of them,
exactly if the names of a kind are different in what the compiler can spell, and every address is
written with hexadecimal digits and colons alone.
-/

namespace Hexabus.Hbc.Definitions

open Lib.Expectation Lib.Json Grammar Host.Hexinfo

/-! ## Names that the compiler can spell -/

/-- What is left of a name: the characters of an identifier, from the first on that is not a digit.
A name that is left as `_empty_` counts as nothing, as that is what is written for nothing. -/
def leftover (s : List UInt8) : List UInt8 :=
  let rest := (s.filter isNameByte).dropWhile isDigit
  if rest = ascii "_empty_" then [] else rest

theorem chars_injective : Function.Injective chars := by
  refine List.map_injective_iff.mpr fun a b h => ?_
  have hall : ∀ n < 256, (Char.ofNat n).toNat = n := by decide +kernel
  have hn := congrArg Char.toNat h
  rw [hall _ a.toNat_lt, hall _ b.toNat_lt] at hn
  exact UInt8.toNat_inj.mp hn

theorem removeSpecialchars_eq (s : List UInt8) :
    removeSpecialchars s = if leftover s = [] then ascii "_empty_" else leftover s := by
  unfold removeSpecialchars leftover
  rw [eraseSpecialchars_eq (Nat.le_refl _)]
  dsimp only
  by_cases hempty : (s.filter isNameByte).dropWhile isDigit = ascii "_empty_"
  · rw [hempty]
    rfl
  · rw [if_neg hempty]
    by_cases hnil : (s.filter isNameByte).dropWhile isDigit = []
    · rw [hnil]
      rfl
    · rw [if_neg hnil, if_neg fun h => hnil (List.length_eq_zero_iff.mp h)]

theorem leftover_ne (s : List UInt8) : leftover s ≠ ascii "_empty_" := by
  unfold leftover
  dsimp only
  split
  · decide
  next h => exact h

/-- **Two names are written alike** exactly if the same is left of them. -/
theorem definedName_eq_iff {s t : List UInt8} :
    definedName s = definedName t ↔ leftover s = leftover t := by
  have hnames : definedName s = definedName t ↔ removeSpecialchars s = removeSpecialchars t :=
    Subtype.ext_iff.trans chars_injective.eq_iff
  rw [hnames, removeSpecialchars_eq, removeSpecialchars_eq]
  by_cases hs : leftover s = [] <;> by_cases ht : leftover t = []
  · rw [if_pos hs, if_pos ht, hs, ht]
    exact iff_of_true rfl rfl
  · rw [if_pos hs, if_neg ht, hs]
    exact iff_of_false (fun h => leftover_ne t h.symm) fun h => ht h.symm
  · rw [if_neg hs, if_pos ht, ht]
    exact iff_of_false (leftover_ne s) hs
  · rw [if_neg hs, if_neg ht]

theorem nodup_definedName {ι : Type} {xs : List ι} {name : ι → List UInt8} :
    (xs.map fun x => definedName (name x)).Nodup ↔ (xs.map fun x => leftover (name x)).Nodup := by
  simp only [List.Nodup, List.pairwise_map, ne_eq, definedName_eq_iff]

/-! ## The files -/

section
variable {floatValue : Text → UInt32} {addressText : Address → Text}

/-- The blocks of a file, one for each item. -/
theorem rename_eq {ι : Type} {R : ι → ParsedBlock → Prop} {xs : List ι}
    {blocks : List ParsedBlock} (h : List.Forall₂ R xs blocks)
    (hR : ∀ x block, R x block → block.rename id = block) :
    blocks.map (ParsedBlock.rename id) = blocks := by
  induction h with
  | nil => rfl
  | cons hx _ ih => rw [List.map_cons, hR _ _ hx, ih]

theorem parse_file {ι : Type} {write : ι → Text} {R : ι → ParsedBlock → Prop} {xs : List ι}
    (hwrite : ∀ x ∈ xs, ∃ body tail, write x = body ++ tail ∧ Gap tail ∧ ∀ g, Gap g →
      Spells (spelled id) (Written.block floatValue (Allowed id)) (g ++ body) (R x))
    (hR : ∀ x block, R x block → block.rename id = block) :
    ∃ blocks, List.Forall₂ R xs blocks ∧ parse floatValue (xs.flatMap write) = some blocks := by
  obtain ⟨t, g, ht, hg, hspells⟩ := spells_items hwrite .nil
  obtain ⟨blocks, hblocks, hparse⟩ := parse_blocks hspells hg
  rw [rename_eq hblocks hR, ← ht, List.nil_append] at hparse
  exact ⟨blocks, hblocks, hparse⟩

/-- **The file of the devices**, where every address is one for the compiler. -/
theorem parse_deviceFile {devices : List DeviceDescriptor}
    (hne : ∀ dev ∈ devices, addressText dev.ipv6Address ≠ [])
    (h : ∀ dev ∈ devices, (addressText dev.ipv6Address).all addressChar = true) :
    ∃ blocks, List.Forall₂ (DefinesDevice addressText) devices blocks ∧
      parse floatValue (deviceFile addressText devices) = some blocks :=
  parse_file (fun dev hdev => spells_devDesc (hne dev hdev) (h dev hdev)) fun _ block h => by
    obtain ⟨doc, rfl, -⟩ := h
    rfl

/-- The endpoints that are written. -/
def writtenEndpoints (endpoints : List EndpointDescriptor) : List EndpointDescriptor :=
  endpoints.filter fun ep => (writtenDtype ep.datatype).isSome

theorem endpointFile_eq (endpoints : List EndpointDescriptor) :
    endpointFile endpoints = endpointFile (writtenEndpoints endpoints) := by
  induction endpoints with
  | nil => rfl
  | cons ep endpoints ih =>
    unfold writtenEndpoints endpointFile at *
    by_cases h : (writtenDtype ep.datatype).isSome = true
    · rw [List.filter_cons, if_pos h, List.flatMap_cons, List.flatMap_cons, ih]
    · have hnone : writeEpDesc ep = [] := by
        rw [writeEpDesc, Option.not_isSome_iff_eq_none.mp h]
      rw [List.filter_cons, if_neg h, List.flatMap_cons, hnone, List.nil_append, ih]

/-- **The file of the endpoints.** -/
theorem parse_endpointFile (endpoints : List EndpointDescriptor) :
    ∃ blocks, List.Forall₂ DefinesEndpoint (writtenEndpoints endpoints) blocks ∧
      parse floatValue (endpointFile endpoints) = some blocks := by
  rw [endpointFile_eq]
  refine parse_file (fun ep hep => ?_) fun _ block h => by
    obtain ⟨doc, dtype, rfl, -⟩ := h
    rfl
  obtain ⟨dtype, hdtype⟩ := Option.isSome_iff_exists.mp (List.mem_filter.mp hep).2
  exact spells_epDesc hdtype

/-- A text that stands for an address, as far as the compiler can tell where it ends. -/
def Delimited (text : Text) : Prop := text ≠ [] ∧ ∀ c ∈ text, c ∉ gapChars ∧ c ≠ ';'

/-- The first character that is not one of an address. -/
theorem exists_first {text : Text} (h : text.all addressChar ≠ true) :
    ∃ w c s, text = w ++ c :: s ∧ w.all addressChar = true ∧ addressChar c = false := by
  induction text with
  | nil => exact absurd rfl h
  | cons c text ih =>
    by_cases hc : addressChar c = true
    · rw [List.all_cons, hc, Bool.true_and] at h
      obtain ⟨w, d, s, rfl, hw, hd⟩ := ih h
      exact ⟨c :: w, d, s, rfl, by rw [List.all_cons, hc, hw]; rfl, hd⟩
    · exact ⟨[], c, text, rfl, rfl, Bool.eq_false_iff.mpr hc⟩

/-- **A device whose address has another character** ends the parse. -/
theorem errors_devDesc {dev : DeviceDescriptor} (hdelimited : Delimited (addressText dev.ipv6Address))
    (h : (addressText dev.ipv6Address).all addressChar ≠ true) {g : Text} (hg : Gap g) (s : Text) :
    Errors (block floatValue) (g ++ (writeDevDesc addressText dev ++ s)) := by
  obtain ⟨w, c, t, htext, hw, hc⟩ := exists_first h
  obtain ⟨hgap, hsemicolon⟩ := hdelimited.2 c (by rw [htext]; simp)
  have hname : Spells (spelled id) Written.name (chars (removeSpecialchars dev.name))
    (· = definedName dev.name) := spells_name dev.name
  obtain ⟨rest, hrest⟩ : ∃ rest, g ++ (writeDevDesc addressText dev ++ s) =
      (g ++ "# Auto-generated by hexinfo.\n".toList) ++ "device".toList ++ ([' '] ++
        (chars (removeSpecialchars dev.name) ++ ([' '] ++ "\x7b".toList ++
          ("\n\t".toList ++ "ip".toList ++ ([' '] ++ w ++ c :: rest))))) := by
    rw [writeDevDesc_eq, htext]
    generalize chars (removeSpecialchars dev.name) = name
    generalize writeIds dev.endpointIds = ids
    exact ⟨t ++ ([';'] ++ ("\n\teids \x7b ".toList ++ (ids ++ (" \x7d".toList ++ ("\n\x7d".toList ++
      ("\n\n".toList ++ s)))))), by simp⟩
  have hled : Led "device".toList (g ++ (writeDevDesc addressText dev ++ s)) :=
    ⟨_, _, gap_header hg, by rw [hrest, List.append_assoc]⟩
  refine Errors.right (Errors.right (Errors.left (errors_bind ?_)) ?_) ?_
  · rw [hrest]
    refine errors_lit (by decide) (gap_header hg) ?_
    refine (@reads_linePos _ (spelled id) _).errors (spells_linePos gap_space)
      (solid_append (Identifier.solid (definedName dev.name)) _) fun lineno => ?_
    refine (reads_name (r := id)).expect.errors hname rfl fun name => ?_
    refine (@reads_lit _ (spelled id) _ _ (by decide)).expect.errors
      (spells_word "\x7b".toList gap_space) trivial fun _ => ?_
    exact errors_bind (errors_star (errors_aliasIp hw hc hgap hsemicolon gap_lineTab
      gap_space).left)
  · exact fails_bind ((choice_endpoint (r := id) (m := 0) (F := fun _ => True)).fails _ _ (by decide) (by decide) hled)
  · exact fails_bind ((choice_includeRule (r := id) (m := 0) (F := fun _ => True)).fails _ _ (by decide) (by decide) hled)

/-- **The file of the devices** is rejected where an address is not one for the compiler. -/
theorem parse_deviceFile_eq_none {devices : List DeviceDescriptor}
    (hdelimited : ∀ dev ∈ devices, Delimited (addressText dev.ipv6Address))
    (h : ¬ ∀ dev ∈ devices, (addressText dev.ipv6Address).all addressChar = true) :
    parse floatValue (deviceFile addressText devices) = none := by
  obtain ⟨good, bad, rest, rfl, hgood, hbad⟩ : ∃ good bad rest, devices = good ++ bad :: rest ∧
      (∀ dev ∈ good, (addressText dev.ipv6Address).all addressChar = true) ∧
      (addressText bad.ipv6Address).all addressChar ≠ true := by
    clear hdelimited
    induction devices with
    | nil => exact absurd (fun dev hdev => absurd hdev List.not_mem_nil) h
    | cons dev devices ih =>
      by_cases hdev : (addressText dev.ipv6Address).all addressChar = true
      · obtain ⟨good, bad, rest, rfl, hgood, hbad⟩ := ih fun hall =>
          h (List.forall_mem_cons.mpr ⟨hdev, hall⟩)
        exact ⟨dev :: good, bad, rest, rfl, List.forall_mem_cons.mpr ⟨hdev, hgood⟩, hbad⟩
      · exact ⟨[], dev, devices, rfl, fun _ h => absurd h List.not_mem_nil, hdev⟩
  obtain ⟨t, g, ht, hg, hspells⟩ := spells_items
    (fun dev hdev => spells_devDesc (hdelimited dev (List.mem_append_left _ hdev)).1
      (hgood dev hdev)) .nil
  have hfile : deviceFile addressText (good ++ bad :: rest) =
      t ++ (g ++ (writeDevDesc addressText bad ++ deviceFile addressText rest)) := by
    rw [List.nil_append] at ht
    rw [deviceFile, List.flatMap_append, List.flatMap_cons, ht, List.append_assoc]
    rfl
  rw [hfile]
  exact parse_eq_none (hspells.mono fun _ _ => trivial)
    (errors_devDesc (hdelimited bad (by simp)) hbad hg _)

end

/-! ## The tables -/

section
variable {addressText : Address → Text} {fromString : FromString}

theorem defined_devices {devices : List DeviceDescriptor} {blocks : List ParsedBlock}
    (h : List.Forall₂ (DefinesDevice addressText) devices blocks) :
    deviceNames blocks = devices.map (fun dev => definedName dev.name) ∧
      endpointNames blocks = [] := by
  induction h with
  | nil => exact ⟨rfl, rfl⟩
  | cons hdev _ ih =>
    obtain ⟨doc, rfl, hname, -⟩ := hdev
    exact ⟨congrArg₂ List.cons hname ih.1, ih.2⟩

theorem defined_endpoints {endpoints : List EndpointDescriptor} {blocks : List ParsedBlock}
    (h : List.Forall₂ DefinesEndpoint endpoints blocks) :
    endpointNames blocks = endpoints.map (fun ep => definedName ep.name) ∧
      deviceNames blocks = [] := by
  induction h with
  | nil => exact ⟨rfl, rfl⟩
  | cons hep _ ih =>
    obtain ⟨doc, dtype, rfl, -, hname, -⟩ := hep
    exact ⟨congrArg₂ List.cons hname ih.1, ih.2⟩

theorem complete_devices {devices : List DeviceDescriptor} {blocks : List ParsedBlock}
    (h : List.Forall₂ (DefinesDevice addressText) devices blocks)
    (hread : ∀ dev ∈ devices, fromString (addressText dev.ipv6Address) = some dev.ipv6Address)
    (hids : ∀ dev ∈ devices, dev.endpointIds.Nodup) : ∀ block ∈ blocks, Complete fromString block := by
  induction h with
  | nil => exact fun _ h => absurd h List.not_mem_nil
  | cons hdev _ ih =>
    rw [List.forall_mem_cons] at hread hids
    obtain ⟨doc, rfl, -, hcmds⟩ := hdev
    exact List.forall_mem_cons.mpr ⟨⟨_, _, _, hcmds, hread.1, hids.1⟩, ih hread.2 hids.2⟩

theorem complete_endpoints {endpoints : List EndpointDescriptor} {blocks : List ParsedBlock}
    (h : List.Forall₂ DefinesEndpoint endpoints blocks) :
    ∀ block ∈ blocks, Complete fromString block := by
  induction h with
  | nil => exact fun _ h => absurd h List.not_mem_nil
  | cons hep _ ih =>
    obtain ⟨doc, dtype, rfl, -, -, hcmds⟩ := hep
    exact List.forall_mem_cons.mpr ⟨⟨_, _, _, hcmds⟩, ih⟩

end

/-- The compiler reads both files, and has all that is in them in its tables. -/
def Compile (found : Found) (floatValue : Text → UInt32) (addressText : Address → Text)
    (fromString : FromString) : Prop :=
  ∃ endpointBlocks deviceBlocks tables,
    parse floatValue (endpointFile found.endpoints) = some endpointBlocks ∧
    parse floatValue (deviceFile addressText found.devices) = some deviceBlocks ∧
    tableBuilder fromString (endpointBlocks ++ deviceBlocks) = .ok tables ∧
    tables.endpoints.map Prod.fst =
      (writtenEndpoints found.endpoints).map (fun ep => definedName ep.name) ∧
    tables.devices.map Prod.fst = found.devices.map fun dev => definedName dev.name

/-- The compiler reads both files, every definition as that of the device or the endpoint it is
written for; no two definitions of one kind have the same name, and the table builder takes all. -/
def AllDefined (found : Found) (floatValue : Text → UInt32) (addressText : Address → Text)
    (fromString : FromString) : Prop :=
  ∃ endpointBlocks deviceBlocks,
    parse floatValue (endpointFile found.endpoints) = some endpointBlocks ∧
    parse floatValue (deviceFile addressText found.devices) = some deviceBlocks ∧
    List.Forall₂ DefinesEndpoint (writtenEndpoints found.endpoints) endpointBlocks ∧
    List.Forall₂ (DefinesDevice addressText) found.devices deviceBlocks ∧
    (endpointNames endpointBlocks).Nodup ∧ (deviceNames deviceBlocks).Nodup ∧
    ∃ tables, tableBuilder fromString (endpointBlocks ++ deviceBlocks) = .ok tables

section
variable {addressText : Address → Text} {fromString : FromString} {found : Found}
  {endpointBlocks deviceBlocks : List ParsedBlock}

/-- The names that the table builder meets. -/
theorem defined_names
    (hendpoints : List.Forall₂ DefinesEndpoint (writtenEndpoints found.endpoints) endpointBlocks)
    (hdevices : List.Forall₂ (DefinesDevice addressText) found.devices deviceBlocks) :
    endpointNames (endpointBlocks ++ deviceBlocks) =
        (writtenEndpoints found.endpoints).map (fun ep => definedName ep.name) ∧
      deviceNames (endpointBlocks ++ deviceBlocks) =
        found.devices.map fun dev => definedName dev.name := by
  have hendpointNames := defined_endpoints hendpoints
  have hdeviceNames := defined_devices hdevices
  constructor
  · rw [endpointNames, List.filterMap_append]
    exact (congrArg₂ _ hendpointNames.1 hdeviceNames.2).trans (List.append_nil _)
  · rw [deviceNames, List.filterMap_append]
    exact (congrArg₂ _ hendpointNames.2 hdeviceNames.1).trans (List.nil_append _)

/-- **The table builder takes the definitions** where all names of a kind are different. -/
theorem tableBuilder_defined
    (hendpoints : List.Forall₂ DefinesEndpoint (writtenEndpoints found.endpoints) endpointBlocks)
    (hdevices : List.Forall₂ (DefinesDevice addressText) found.devices deviceBlocks)
    (hread : ∀ dev ∈ found.devices,
      fromString (addressText dev.ipv6Address) = some dev.ipv6Address)
    (hdistinct : (found.devices.map fun dev => leftover dev.name).Nodup ∧
      ((writtenEndpoints found.endpoints).map fun ep => leftover ep.name).Nodup) :
    ∃ tables, tableBuilder fromString (endpointBlocks ++ deviceBlocks) = .ok tables := by
  obtain ⟨hendpointNames, hdeviceNames⟩ := defined_names hendpoints hdevices
  have hcomplete : ∀ block ∈ endpointBlocks ++ deviceBlocks, Complete fromString block :=
    fun block hblock => (List.mem_append.mp hblock).elim (complete_endpoints hendpoints block)
      (complete_devices hdevices hread (fun dev hdev => (found.idsOrdered dev hdev).nodup) block)
  rw [← nodup_definedName, ← nodup_definedName, ← hendpointNames, ← hdeviceNames] at hdistinct
  exact tableBuilder_complete hcomplete hdistinct.2 hdistinct.1

/-- Where no two definitions of a kind have one name, something different is left of each. -/
theorem AllDefined.distinct {floatValue : Text → UInt32}
    (h : AllDefined found floatValue addressText fromString) :
    (found.devices.map fun dev => leftover dev.name).Nodup ∧
      ((writtenEndpoints found.endpoints).map fun ep => leftover ep.name).Nodup := by
  obtain ⟨_, _, -, -, hendpoints, hdevices, hnodup, hnodup', -⟩ := h
  rw [(defined_endpoints hendpoints).1, nodup_definedName] at hnodup
  rw [(defined_devices hdevices).1, nodup_definedName] at hnodup'
  exact ⟨hnodup', hnodup⟩

end

section
variable (floatValue : Text → UInt32) (addressText : Address → Text) (fromString : FromString)
  (found : Found)

/-- **Generated definitions compile** exactly if no two devices and no two endpoints have names
of which the same is left, and every address is one for the compiler. -/
theorem compile_iff (h : ∀ dev ∈ found.devices, Delimited (addressText dev.ipv6Address) ∧
      fromString (addressText dev.ipv6Address) = some dev.ipv6Address) :
    Compile found floatValue addressText fromString ↔
      (found.devices.map fun dev => leftover dev.name).Nodup ∧
      ((writtenEndpoints found.endpoints).map fun ep => leftover ep.name).Nodup ∧
      ∀ dev ∈ found.devices, (addressText dev.ipv6Address).all addressChar = true := by
  obtain ⟨endpointBlocks, hendpoints, hparse⟩ :=
    @parse_endpointFile floatValue found.endpoints
  by_cases haddress : ∀ dev ∈ found.devices, (addressText dev.ipv6Address).all addressChar = true
  swap
  · -- the file of the devices is not read
    refine iff_of_false ?_ fun hall => haddress hall.2.2
    rintro ⟨_, deviceBlocks, _, -, hparse', -⟩
    rw [parse_deviceFile_eq_none (fun dev hdev => (h dev hdev).1) haddress] at hparse'
    cases hparse'
  obtain ⟨deviceBlocks, hdevices, hparse'⟩ :=
    @parse_deviceFile floatValue _ _ (fun dev hdev => (h dev hdev).1.1) haddress
  obtain ⟨hendpointNames, hdeviceNames⟩ := defined_names hendpoints hdevices
  constructor
  · rintro ⟨_, _, tables, hread, hread', htables, -⟩
    cases hparse.symm.trans hread
    cases hparse'.symm.trans hread'
    have hnamed := named_of_tableBuilder htables
    rw [← nodup_definedName, ← nodup_definedName, ← hendpointNames, ← hdeviceNames]
    exact ⟨hnamed.devicesNodup, hnamed.endpointsNodup, haddress⟩
  · rintro ⟨hnodupDevices, hnodupEndpoints, -⟩
    obtain ⟨tables, htables⟩ := tableBuilder_defined hendpoints hdevices
      (fun dev hdev => (h dev hdev).2) ⟨hnodupDevices, hnodupEndpoints⟩
    have hnamed := named_of_tableBuilder htables
    exact ⟨_, _, tables, hparse, hparse', htables, hnamed.endpoints.trans hendpointNames,
      hnamed.devices.trans hdeviceNames⟩

/-- **Generated definitions are read as what they are written for**, with distinct names that the
table builder takes, exactly under the same condition. -/
theorem allDefined_iff (h : ∀ dev ∈ found.devices, Delimited (addressText dev.ipv6Address) ∧
      fromString (addressText dev.ipv6Address) = some dev.ipv6Address) :
    AllDefined found floatValue addressText fromString ↔
      (found.devices.map fun dev => leftover dev.name).Nodup ∧
      ((writtenEndpoints found.endpoints).map fun ep => leftover ep.name).Nodup ∧
      ∀ dev ∈ found.devices, (addressText dev.ipv6Address).all addressChar = true := by
  constructor
  · intro hdefined
    refine ⟨hdefined.distinct.1, hdefined.distinct.2, ?_⟩
    obtain ⟨_, _, -, hparse, -⟩ := hdefined
    by_contra haddress
    rw [parse_deviceFile_eq_none (fun dev hdev => (h dev hdev).1) haddress] at hparse
    cases hparse
  · rintro ⟨hnodupDevices, hnodupEndpoints, haddress⟩
    obtain ⟨endpointBlocks, hendpoints, hparse⟩ :=
      @parse_endpointFile floatValue found.endpoints
    obtain ⟨deviceBlocks, hdevices, hparse'⟩ :=
      @parse_deviceFile floatValue _ _ (fun dev hdev => (h dev hdev).1.1) haddress
    refine ⟨endpointBlocks, deviceBlocks, hparse, hparse', hendpoints, hdevices, ?_, ?_, ?_⟩
    · rw [(defined_endpoints hendpoints).1, nodup_definedName]
      exact hnodupEndpoints
    · rw [(defined_devices hdevices).1, nodup_definedName]
      exact hnodupDevices
    · exact tableBuilder_defined hendpoints hdevices (fun dev hdev => (h dev hdev).2)
        ⟨hnodupDevices, hnodupEndpoints⟩

end

/-- The text of an address without two zeros in a row: its eight groups. -/
def groupText (address : Address) : Text :=
  let group (i : Nat) : Text :=
    Nat.toDigits 16 ((address.val.getD (2 * i) 0).toNat * 256 + (address.val.getD (2 * i + 1) 0).toNat)
  group 0 ++ [1, 2, 3, 4, 5, 6, 7].flatMap fun i => ':' :: group i

/-- A lamp and a fan, with a switch. -/
def sampleFound : Found where
  devices := [⟨⟨[0xFD, 0, 0, 1, 0, 2, 0, 3, 0, 4, 0, 5, 0, 6, 0, 7], rfl⟩, ascii "lamp-1", [1, 2]⟩,
    ⟨⟨[0xFD, 0, 0, 1, 0, 2, 0, 3, 0, 4, 0, 5, 0, 6, 0, 8], rfl⟩, ascii "2nd fan", []⟩]
  endpoints := [⟨1, 1, ascii "Main switch"⟩]
  devicesOrdered := by decide
  endpointsOrdered := by decide
  idsOrdered := by decide

/-- `from_string`, for their addresses. -/
def sampleFromString : FromString := fun text =>
  if text = "fd00:1:2:3:4:5:6:7".toList then
    some ⟨[0xFD, 0, 0, 1, 0, 2, 0, 3, 0, 4, 0, 5, 0, 6, 0, 7], rfl⟩
  else some ⟨[0xFD, 0, 0, 1, 0, 2, 0, 3, 0, 4, 0, 5, 0, 6, 0, 8], rfl⟩

theorem sampleAddress {address : Address}
    (h : address = ⟨[0xFD, 0, 0, 1, 0, 2, 0, 3, 0, 4, 0, 5, 0, 6, 0, 7], rfl⟩ ∨
      address = ⟨[0xFD, 0, 0, 1, 0, 2, 0, 3, 0, 4, 0, 5, 0, 6, 0, 8], rfl⟩) :
    Delimited (groupText address) ∧ sampleFromString (groupText address) = some address := by
  have hlamp : groupText ⟨[0xFD, 0, 0, 1, 0, 2, 0, 3, 0, 4, 0, 5, 0, 6, 0, 7], rfl⟩ =
      "fd00:1:2:3:4:5:6:7".toList := by decide
  have hfan : groupText ⟨[0xFD, 0, 0, 1, 0, 2, 0, 3, 0, 4, 0, 5, 0, 6, 0, 8], rfl⟩ =
      "fd00:1:2:3:4:5:6:8".toList := by decide
  rcases h with rfl | rfl
  · rw [hlamp]
    exact ⟨⟨by decide, List.all_iff_forall_prop.mp (by decide)⟩, if_pos rfl⟩
  · rw [hfan]
    exact ⟨⟨by decide, List.all_iff_forall_prop.mp (by decide)⟩, if_neg (by decide)⟩

theorem sampleFound_compile : Compile sampleFound (fun _ => 0) groupText fun text =>
    if text = "fd00:1:2:3:4:5:6:7".toList then
      some ⟨[0xFD, 0, 0, 1, 0, 2, 0, 3, 0, 4, 0, 5, 0, 6, 0, 7], rfl⟩
    else some ⟨[0xFD, 0, 0, 1, 0, 2, 0, 3, 0, 4, 0, 5, 0, 6, 0, 8], rfl⟩ :=
  (compile_iff _ _ _ sampleFound fun _ hdev =>
    sampleAddress ((List.mem_pair.mp hdev).imp (congrArg _) (congrArg _))).mpr
    ⟨by decide, by decide, by decide⟩

theorem sampleFound_allDefined : AllDefined sampleFound (fun _ => 0) groupText sampleFromString :=
  (allDefined_iff _ _ _ sampleFound fun _ hdev =>
    sampleAddress ((List.mem_pair.mp hdev).imp (congrArg _) (congrArg _))).mpr
    ⟨by decide, by decide, by decide⟩

/-- Two lamps whose names differ in a special character. -/
def twoLamps : Found where
  devices := [⟨⟨[0xFD, 0, 0, 1, 0, 2, 0, 3, 0, 4, 0, 5, 0, 6, 0, 7], rfl⟩, ascii "lamp-1", [1]⟩,
    ⟨⟨[0xFD, 0, 0, 1, 0, 2, 0, 3, 0, 4, 0, 5, 0, 6, 0, 8], rfl⟩, ascii "lamp 1", [1]⟩]
  endpoints := [⟨1, 1, ascii "Main switch"⟩]
  devicesOrdered := by decide
  endpointsOrdered := by decide
  idsOrdered := by decide

/-- Both are written with one name. -/
theorem twoLamps_not_allDefined :
    (∀ dev ∈ twoLamps.devices, Delimited (groupText dev.ipv6Address) ∧
      sampleFromString (groupText dev.ipv6Address) = some dev.ipv6Address) ∧
    ¬ AllDefined twoLamps (fun _ => 0) groupText sampleFromString :=
  ⟨fun _ hdev => sampleAddress ((List.mem_pair.mp hdev).imp (congrArg _) (congrArg _)),
    fun h => absurd h.distinct.1 (by decide)⟩

end Hexabus.Hbc.Definitions
