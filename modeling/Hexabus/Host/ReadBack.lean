import Hexabus.Host.Attribution
import Hexabus.Host.ListingTokens

/-!
# Reading the listing back

The text that `hexinfo --json` writes is a JSON text from which the devices can be read back,
unless an endpoint of a written device is missing in the registry or a string has characters
that `json_string_writer` does not escape.
-/

namespace Hexabus.Host.Hexinfo

open Lib.Json

/-! ## Devices in a value -/

def readEndpoint (v : Lib.Json.Value) : Option UInt32 :=
  ((v.member (ascii "eid")).bind Lib.Json.Value.natural?).bind fun n =>
    if n < 2 ^ 32 then some (UInt32.ofNat n) else none

variable (fromString : List UInt8 → Option Address)

def readDevice (v : Lib.Json.Value) : Option DeviceDescriptor :=
  ((v.member (ascii "ip")).bind Lib.Json.Value.string?).bind fun ip =>
    (fromString ip).bind fun address =>
      ((v.member (ascii "name")).bind Lib.Json.Value.string?).bind fun name =>
        ((v.member (ascii "endpoints")).bind Lib.Json.Value.elements?).bind fun endpoints =>
          (endpoints.mapM readEndpoint).map fun eids => ⟨address, name, eids⟩

/-- The devices in the value of a listing. -/
def readDevices (v : Lib.Json.Value) : Option (List DeviceDescriptor) :=
  ((v.member (ascii "devices")).bind Lib.Json.Value.elements?).bind fun devices =>
    devices.mapM (readDevice fromString)

/-- The text is a JSON text, and these devices can be read back from it. -/
def Decodes (text : List UInt8) (devices : List DeviceDescriptor) : Prop :=
  ∃ v, decode text = some v ∧ readDevices fromString v = some devices

/-! ## What is read back -/

theorem readEndpoint_endpointValue (epRegistry : EndpointRegistry) (eid : UInt32) :
    readEndpoint (endpointValue epRegistry eid) = some eid := by
  have hmember : (endpointValue epRegistry eid).member (ascii "eid") =
      some (.number (decimal eid.toNat)) := rfl
  have hnatural : (Lib.Json.Value.number (decimal eid.toNat)).natural? = some eid.toNat :=
    natural?_decimal eid.toNat
  unfold readEndpoint
  rw [hmember, Option.bind_some, hnatural, Option.bind_some, if_pos eid.toNat_lt,
    UInt32.ofNat_toNat]

theorem mapM_map_eq_some {α β γ : Type} {f : β → Option γ} {g : α → β} {k : α → γ} {l : List α}
    (h : ∀ a ∈ l, f (g a) = some (k a)) : (l.map g).mapM f = some (l.map k) := by
  induction l with
  | nil => rfl
  | cons a l ih =>
    rw [List.map_cons, List.mapM_cons, h a List.mem_cons_self,
      ih fun a ha => h a (List.mem_cons_of_mem _ ha)]
    rfl

variable {fromString} {addressText : Address → List UInt8}

theorem readDevice_deviceValue (hread : ∀ address, fromString (addressText address) = some address)
    (epRegistry : EndpointRegistry) (dev : DeviceDescriptor) :
    readDevice fromString (deviceValue epRegistry addressText dev) =
      some { dev with name := denoted dev.name } := by
  have hip : (deviceValue epRegistry addressText dev).member (ascii "ip") =
      some (.string (addressText dev.ipv6Address)) := rfl
  have hname : (deviceValue epRegistry addressText dev).member (ascii "name") =
      some (.string (denoted dev.name)) := rfl
  have hendpoints : (deviceValue epRegistry addressText dev).member (ascii "endpoints") =
      some (.array (dev.endpointIds.map (endpointValue epRegistry))) := rfl
  have heids : (dev.endpointIds.map (endpointValue epRegistry)).mapM readEndpoint =
      some (dev.endpointIds.map id) :=
    mapM_map_eq_some fun eid _ => readEndpoint_endpointValue epRegistry eid
  unfold readDevice
  rw [hip, hname, hendpoints]
  show ((fromString (addressText dev.ipv6Address)).bind _) = _
  rw [hread]
  show ((dev.endpointIds.map (endpointValue epRegistry)).mapM readEndpoint).map _ = _
  rw [heids, List.map_id]
  rfl

theorem readDevices_listingValue
    (hread : ∀ address, fromString (addressText address) = some address)
    (epRegistry : EndpointRegistry) (devices : List DeviceDescriptor) :
    readDevices fromString (listingValue epRegistry addressText devices) =
      some ((named devices).map fun dev => { dev with name := denoted dev.name }) := by
  have hdevices : (listingValue epRegistry addressText devices).member (ascii "devices") =
      some (.array ((named devices).map (deviceValue epRegistry addressText))) := rfl
  unfold readDevices
  rw [hdevices]
  exact mapM_map_eq_some fun dev _ => readDevice_deviceValue hread epRegistry dev

/-! ## When the devices are read back -/

/-- The device is written so that it can be read back. -/
structure Faithful (epRegistry : EndpointRegistry) (dev : DeviceDescriptor) : Prop where
  name : Plain dev.name
  registered : ∀ eid ∈ dev.endpointIds, ∃ entry, epRegistry eid = some entry ∧ entry.Readable

theorem decodes_iff_of_ids (htext : IsAddressText addressText)
    (hread : ∀ address, fromString (addressText address) = some address)
    (epRegistry : EndpointRegistry) {devices : List DeviceDescriptor}
    (hids : ∀ dev ∈ devices, ∀ eid ∈ dev.endpointIds, eid % 32 ≠ 0) :
    Decodes fromString (writeJson epRegistry addressText devices) (named devices) ↔
      ∀ dev ∈ named devices, Faithful epRegistry dev := by
  have hlisting := reads_listing epRegistry htext hids
  constructor
  · rintro ⟨v, hdecode, hdevices⟩
    obtain ⟨hreadable, htokens⟩ :=
      hlisting.tokens_eq_some_iff.mp ((decode_eq_some_iff _ v).mp hdecode)
    have hchain := v.isChain_tokens [] .nil
    rw [List.append_nil, htokens] at hchain
    have hregistered := isSome_of_isChain epRegistry hchain
    have hvalue : decode (writeJson epRegistry addressText devices) =
        some (listingValue epRegistry addressText devices) := by
      rw [decode_eq_some_iff, hlisting.tokens_eq_some_iff]
      exact ⟨hreadable, (listingTokens_eq epRegistry hregistered).symm⟩
    -- the value is that of the listing, so its names are the names of the devices
    cases hvalue.symm.trans hdecode
    rw [readDevices_listingValue hread, Option.some.injEq] at hdevices
    intro dev hdev
    have hself : { dev with name := denoted dev.name } = dev :=
      List.map_inj_left.mp (hdevices.trans (List.map_id _).symm) dev hdev
    have hname : denoted dev.name = dev.name := congrArg DeviceDescriptor.name hself
    refine ⟨(denoted_eq_self_iff _).mp ⟨(hreadable dev hdev).name, hname⟩, fun eid heid => ?_⟩
    obtain ⟨entry, hentry⟩ := Option.isSome_iff_exists.mp (hregistered dev hdev eid heid)
    exact ⟨entry, hentry, (hreadable dev hdev).endpoints eid heid entry hentry⟩
  · intro h
    have hregistered : ∀ dev ∈ named devices, ∀ eid ∈ dev.endpointIds, (epRegistry eid).isSome := by
      intro dev hdev eid heid
      obtain ⟨entry, hentry, -⟩ := (h dev hdev).registered eid heid
      exact Option.isSome_iff_exists.mpr ⟨entry, hentry⟩
    have hreadable : ∀ dev ∈ named devices, DeviceReadable epRegistry dev := by
      intro dev hdev
      refine ⟨((denoted_eq_self_iff _).mpr (h dev hdev).name).1, fun eid heid entry hentry => ?_⟩
      obtain ⟨entry', hentry', hstrings⟩ := (h dev hdev).registered eid heid
      cases hentry.symm.trans hentry'
      exact hstrings
    refine ⟨listingValue epRegistry addressText devices, ?_, ?_⟩
    · rw [decode_eq_some_iff, hlisting.tokens_eq_some_iff]
      exact ⟨hreadable, (listingTokens_eq epRegistry hregistered).symm⟩
    · rw [readDevices_listingValue hread, Option.some.injEq]
      refine (List.map_inj_left.mpr fun dev hdev => ?_).trans (List.map_id _)
      rw [((denoted_eq_self_iff _).mpr (h dev hdev).name).2]
      rfl

/-! ## Discovered devices -/

theorem tells_ne_group {p : Packet} {eid : UInt32} (h : Tells p eid) : eid % 32 ≠ 0 := by
  obtain ⟨group, value, flags, i, -, hgroup, hpos, hi, -, rfl⟩ := h
  intro hmod
  have hgroup' : group.toNat % 32 = 0 := congrArg UInt32.toNat hgroup
  have hmod' : (group + UInt32.ofNat i).toNat % 32 = 0 := congrArg UInt32.toNat hmod
  rw [UInt32.toNat_add, UInt32.toNat_ofNat'] at hmod'
  omega

/-- No device that has been found has an endpoint that only describes the others. -/
theorem eid_ne_group {schedule : Schedule} {endpoints : List EndpointDescriptor} {waits : Nat}
    {sent : List (Address × Packet)} {addresses : List Address} {dev : DeviceDescriptor}
    (h : dev ∈ devices (queryDevices schedule endpoints waits sent addresses)) :
    ∀ eid ∈ dev.endpointIds, eid % 32 ≠ 0 := by
  intro eid heid
  obtain ⟨turn, hturn, rfl⟩ := mem_devices h
  obtain ⟨address, hears⟩ := queryDevices_hears hturn
  rcases (hears.ids eid).mp heid with hnone | ⟨packet, -, htells⟩
  · exact absurd hnone List.not_mem_nil
  · exact tells_ne_group htells

/-- **Reading back**. The devices with a name are read back from the listing of what has been
found just when their endpoints are in the registry and the strings are such that no escape is
missing. -/
theorem decodes_iff (htext : IsAddressText addressText)
    (hread : ∀ address, fromString (addressText address) = some address)
    (epRegistry : EndpointRegistry) (schedule : Schedule) (endpoints : List EndpointDescriptor)
    (waits : Nat) (sent : List (Address × Packet)) (addresses : List Address) :
    let found := devices (queryDevices schedule endpoints waits sent addresses)
    Decodes fromString (writeJson epRegistry addressText found) (named found) ↔
      ∀ dev ∈ named found, Faithful epRegistry dev :=
  decodes_iff_of_ids htext hread epRegistry fun _ hdev => eid_ne_group hdev

/-! ## Addresses in groups of four digits -/

/-- A digit, in small letters. -/
def hexCharacter (n : Nat) : UInt8 := UInt8.ofNat (if n < 10 then 0x30 + n else 0x57 + n)

/-- Groups of two bytes: what is written for an address all of whose groups have four digits. -/
def groupsText : List UInt8 → List UInt8
  | a :: b :: bytes =>
    hexCharacter (a.toNat / 16) :: hexCharacter (a.toNat % 16) ::
      hexCharacter (b.toNat / 16) :: hexCharacter (b.toNat % 16) ::
        ((if bytes.isEmpty then [] else [0x3A]) ++ groupsText bytes)
  | _ => []

def readBytes : List UInt8 → Option (List UInt8)
  | [] => some []
  | [_] => none
  | h :: l :: text =>
    (hexDigit h).bind fun high => (hexDigit l).bind fun low =>
      (readBytes text).map fun bytes => UInt8.ofNat (16 * high + low) :: bytes

def readGroups (text : List UInt8) : Option Address :=
  (readBytes (text.filter (· ≠ 0x3A))).bind fun bytes =>
    if h : bytes.length = 16 then some ⟨bytes, h⟩ else none

theorem hexCharacter_digit {n : Nat} (h : n < 16) :
    hexDigit (hexCharacter n) = some n ∧ hexCharacter n ≠ 0x3A ∧
      (0x20 ≤ hexCharacter n ∧ hexCharacter n < 0x80 ∧ hexCharacter n ≠ 0x22 ∧
        hexCharacter n ≠ 0x5C) := by
  revert n
  decide

theorem readBytes_groupsText (bytes : List UInt8) (h : bytes.length % 2 = 0) :
    readBytes ((groupsText bytes).filter (· ≠ 0x3A)) = some bytes := by
  fun_induction groupsText bytes with
  | case1 a b bytes ih =>
    have hkept : ∀ (n : Nat) (text : List UInt8), n < 16 →
        (hexCharacter n :: text).filter (· ≠ 0x3A) = hexCharacter n :: text.filter (· ≠ 0x3A) :=
      fun n text hn => List.filter_cons_of_pos (decide_eq_true (hexCharacter_digit hn).2.1)
    have hvalue : ∀ c : UInt8, UInt8.ofNat (16 * (c.toNat / 16) + c.toNat % 16) = c := by
      intro c
      rw [Nat.div_add_mod, UInt8.ofNat_toNat]
    have ha := a.toNat_lt
    have hb := b.toNat_lt
    have hcolon : (if bytes.isEmpty then [] else [(0x3A : UInt8)]).filter (· ≠ 0x3A) = [] := by
      split <;> rfl
    rw [hkept _ _ (by omega), hkept _ _ (by omega), hkept _ _ (by omega), hkept _ _ (by omega),
      List.filter_append, hcolon, List.nil_append, readBytes, (hexCharacter_digit (by omega)).1,
      Option.bind_some, (hexCharacter_digit (by omega)).1, Option.bind_some, readBytes,
      (hexCharacter_digit (by omega)).1, Option.bind_some, (hexCharacter_digit (by omega)).1,
      Option.bind_some, ih (by simp only [List.length_cons] at h; omega), Option.map_some,
      Option.map_some, hvalue, hvalue]
  | case2 bytes hne =>
    match bytes, h, hne with
    | [], _, _ => rfl
    | [_], h, _ => exact absurd h (by simp)
    | a :: b :: bytes, _, hne => exact absurd rfl (hne a b bytes)

theorem readGroups_groupsText (address : Address) :
    readGroups (groupsText address.val) = some address := by
  have heven : address.val.length % 2 = 0 := by rw [address.property]
  unfold readGroups
  rw [readBytes_groupsText _ heven, Option.bind_some]
  exact dif_pos address.property

theorem isAddressText_groupsText : IsAddressText fun address => groupsText address.val := by
  intro address
  have hall : ∀ bytes : List UInt8, ∀ c ∈ groupsText bytes,
      0x20 ≤ c ∧ c < 0x80 ∧ c ≠ 0x22 ∧ c ≠ 0x5C := by
    intro bytes
    fun_induction groupsText bytes with
    | case1 a b bytes ih =>
      have ha := a.toNat_lt
      have hb := b.toNat_lt
      intro c hc
      simp only [List.mem_cons, List.mem_append] at hc
      rcases hc with rfl | rfl | rfl | rfl | hc | hc
      · exact (hexCharacter_digit (by omega)).2.2
      · exact (hexCharacter_digit (by omega)).2.2
      · exact (hexCharacter_digit (by omega)).2.2
      · exact (hexCharacter_digit (by omega)).2.2
      · split at hc
        · exact absurd hc List.not_mem_nil
        · rw [List.mem_singleton.mp hc]
          decide
      · exact ih c hc
    | case2 => exact fun _ hc => absurd hc List.not_mem_nil
  exact hall address.val

/-! ## A device that is found -/

theorem plugBytes_length : (List.replicate 8 [(0x20 : UInt8), 0x01]).flatten.length = 16 := rfl

def plugAddress : Address := ⟨(List.replicate 8 [(0x20 : UInt8), 0x01]).flatten, plugBytes_length⟩

theorem plugName_length : (ascii "Plug").length ≤ maxLength := by decide

/-- A device called `Plug` tells of the endpoints in `value`. -/
def plugSchedule (value : UInt32) : Schedule
  | 0 => [(plugAddress, .endpointInfo 0 3 ⟨ascii "Plug", plugName_length⟩ 0)]
  | 1 => [(plugAddress, .info 0 (.uint32 value) 0)]
  | _ => []

/-- A registry that knows of the relay. -/
def relayRegistry : EndpointRegistry
  | 1 => some ⟨ascii "HexabusPlug relay", none, .bool, .actor⟩
  | _ => none

theorem plug_decodes_iff :
    let found := devices (queryDevices (plugSchedule 2) [] 0 [] [plugAddress])
    Decodes readGroups (writeJson relayRegistry (fun address => groupsText address.val) found)
        (named found) ↔
      ∀ dev ∈ named found, Faithful relayRegistry dev :=
  decodes_iff isAddressText_groupsText readGroups_groupsText relayRegistry (plugSchedule 2) [] 0 []
    [plugAddress]

/-- The device tells of endpoint 13, which is not in the registry. -/
def unregisteredFound : List DeviceDescriptor :=
  devices (queryDevices (plugSchedule 0x2000) [] 0 [] [plugAddress])

theorem unregistered_not_decoded :
    decode (writeJson relayRegistry (fun address => groupsText address.val) unregisteredFound) =
        none ∧
      ¬ Decodes readGroups
        (writeJson relayRegistry (fun address => groupsText address.val) unregisteredFound)
        (named unregisteredFound) := by
  have hnone : decode (writeJson relayRegistry (fun address => groupsText address.val)
      unregisteredFound) = none := by
    rw [← Option.isNone_iff_eq_none]
    decide +kernel
  refine ⟨hnone, ?_⟩
  rintro ⟨v, hdecode, -⟩
  rw [hnone] at hdecode
  cases hdecode

end Hexabus.Host.Hexinfo
