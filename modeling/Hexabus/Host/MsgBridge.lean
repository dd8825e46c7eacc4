import Hexabus.Host.ReadBack

/-!
# Sensors of the message bridge

`hexabus_msg_bridge.cpp`: the id under which a sensor is in the store, and the address that is
asked for its name from time to time. A sensor that is found in the store by its id gets the
address that is read out of the id. The store and the sensors in it are not part of the program;
a time is a number of seconds.
-/

namespace Hexabus.Host.MsgBridge

open Lib.Json Lib.Bytes Hexinfo

abbrev Text := List UInt8

/-! ## Ids -/

/-- `std::setw(2) << (0xFF & bytes[i])`, with `std::hex` and `std::setfill('0')`. -/
def hexByte (b : UInt8) : Text := [hexCharacter (b.toNat / 16), hexCharacter (b.toNat % 16)]

/-- The loop over the bytes. -/
def writeBytes : List UInt8 → Text
  | [] => []
  | b :: bs => hexByte b ++ (if bs.isEmpty then [] else [0x3A]) ++ writeBytes bs

/-- `get_sensor_id`. -/
def getSensorId (source : Address) (eid : UInt32) : Text :=
  writeBytes (source.val.drop 8) ++ 0x2D :: decimal eid.toNat

/-! ## The sensors -/

structure SensorInfo where
  lastValueReceivedAt : Int
  lastNameCheckedAt : Int
  address : Address

/-- `address_v6::from_string`; where there is none, it throws. -/
abbrev FromString := Text → Option Address

/-- `lookup_sensor`, for an id that the store has. -/
def lookupSensor (fromString : FromString) (id : Text) (now : Int) : Option SensorInfo :=
  (fromString (id.takeWhile (· ≠ 0x2D))).map fun address => ⟨now, now, address⟩

/-- `new_sensor_found`. -/
def newSensorFound (unitKnown : Bool) (address : Address) (now : Int) : Option SensorInfo :=
  if unitKnown then some ⟨now, now, address⟩ else none

variable {σ : Type} [DecidableEq σ]

/-- `std::map<klio::Sensor::Ptr, SensorInfo>`. -/
abbrev SensorInfos (σ : Type) := List (σ × SensorInfo)

/-- `sensor_infos[sensor]` is changed, for a sensor that is in the map. -/
def change (sensor : σ) (f : SensorInfo → SensorInfo) (infos : SensorInfos σ) : SensorInfos σ :=
  infos.map fun e => if e.1 = sensor then (e.1, f e.2) else e

/-- `record_reading`. -/
def recordReading (sensor : σ) (now : Int) (infos : SensorInfos σ) : SensorInfos σ :=
  change sensor (fun info => { info with lastValueReceivedAt := now }) infos

/-- One pass of the loop in `timer_expired`. -/
def older (item : Option (σ × SensorInfo)) (e : σ × SensorInfo) : Option (σ × SensorInfo) :=
  match item with
  | none => some e
  | some i => if e.2.lastNameCheckedAt < i.2.lastNameCheckedAt then some e else some i

/-- The first sensor whose name was checked the longest ago. -/
def oldest (infos : SensorInfos σ) : Option (σ × SensorInfo) := infos.foldl older none

/-- `timer_expired`: the address that is asked, and for which sensor. -/
def timerExpired (now : Int) (infos : SensorInfos σ) : SensorInfos σ × Option (Address × σ) :=
  match oldest infos with
  | none => (infos, none)
  | some i =>
    if now - i.2.lastNameCheckedAt ≥ 3600 then
      (change i.1 (fun info => { info with lastNameCheckedAt := now }) infos,
        some (i.2.address, i.1))
    else (infos, none)

/-! ## Addresses stay -/

def addresses (infos : SensorInfos σ) : List (σ × Address) := infos.map fun e => (e.1, e.2.address)

theorem addresses_change {f : SensorInfo → SensorInfo} (hf : ∀ info, (f info).address = info.address)
    (sensor : σ) (infos : SensorInfos σ) : addresses (change sensor f infos) = addresses infos := by
  unfold addresses change
  rw [List.map_map]
  refine List.map_congr_left fun e _ => ?_
  by_cases h : e.1 = sensor
  · simp only [Function.comp_apply, if_pos h, hf]
  · simp only [Function.comp_apply, if_neg h]

theorem addresses_recordReading (sensor : σ) (now : Int) (infos : SensorInfos σ) :
    addresses (recordReading sensor now infos) = addresses infos :=
  addresses_change (f := fun info => { info with lastValueReceivedAt := now }) (fun _ => rfl) _ _

theorem addresses_timerExpired (now : Int) (infos : SensorInfos σ) :
    addresses (timerExpired now infos).1 = addresses infos := by
  unfold timerExpired
  split
  · rfl
  · split
    · exact addresses_change (f := fun info => { info with lastNameCheckedAt := now })
        (fun _ => rfl) _ _
    · rfl

omit [DecidableEq σ] in
theorem older_eq {item : Option (σ × SensorInfo)} {e i : σ × SensorInfo}
    (h : older item e = some i) : item = some i ∨ i = e := by
  unfold older at h
  split at h
  · exact .inr (Option.some.inj h).symm
  · split at h
    · exact .inr (Option.some.inj h).symm
    · exact .inl h

omit [DecidableEq σ] in
theorem oldest_mem {infos : SensorInfos σ} {i : σ × SensorInfo} (h : oldest infos = some i) :
    i ∈ infos := by
  have key : ∀ (item : Option (σ × SensorInfo)) (l : SensorInfos σ),
      l.foldl older item = some i → item = some i ∨ i ∈ l := by
    intro item l
    induction l generalizing item with
    | nil => exact fun h => .inl h
    | cons e l ih =>
      intro h
      rcases ih _ h with h | h
      · rcases older_eq h with h | rfl
        · exact .inl h
        · exact .inr List.mem_cons_self
      · exact .inr (List.mem_cons_of_mem e h)
  exact (key none infos h).resolve_left (by simp)

/-- A query goes to the address that is in the map. -/
theorem mem_addresses_of_query {now : Int} {infos : SensorInfos σ} {address : Address} {sensor : σ}
    (h : (timerExpired now infos).2 = some (address, sensor)) :
    (sensor, address) ∈ addresses infos := by
  unfold timerExpired at h
  split at h
  · cases h
  · next i hi =>
    split at h
    · cases h
      exact List.mem_map.mpr ⟨i, oldest_mem hi, rfl⟩
    · cases h

/-! ## Runs -/

variable (fromString : FromString)

/-- What happens to the bridge: a sensor is created for a device, or found in the store by the
id of one, a reading of it is recorded, and the timer expires. -/
inductive Event (σ : Type)
  | created (sensor : σ) (source : Address) (unitKnown : Bool) (now : Int)
  | restored (sensor : σ) (source : Address) (eid : UInt32) (now : Int)
  | recorded (sensor : σ) (now : Int)
  | timer (now : Int)

structure Bridge (σ : Type) where
  infos : SensorInfos σ
  asked : List (Address × σ)

/-- `sensor_infos.insert`: a sensor that is in the map stays. -/
def insertInfo (sensor : σ) (info : Option SensorInfo) (infos : SensorInfos σ) : SensorInfos σ :=
  match info with
  | some info => if sensor ∈ infos.map Prod.fst then infos else infos ++ [(sensor, info)]
  | none => infos

def step (b : Bridge σ) : Event σ → Bridge σ
  | .created sensor source unitKnown now =>
    { b with infos := insertInfo sensor (newSensorFound unitKnown source now) b.infos }
  | .restored sensor source eid now =>
    let info := lookupSensor fromString (getSensorId source eid) now
    { b with infos := insertInfo sensor info b.infos }
  | .recorded sensor now => { b with infos := recordReading sensor now b.infos }
  | .timer now =>
    let t := timerExpired now b.infos
    ⟨t.1, b.asked ++ t.2.toList⟩

def run (events : List (Event σ)) : Bridge σ := events.foldl (step fromString) ⟨[], []⟩

/-- The address that an event gives to a sensor. -/
def Event.gives : Event σ → Option (σ × Address)
  | .created sensor source _ _ => some (sensor, source)
  | .restored sensor source eid _ =>
    (fromString ((getSensorId source eid).takeWhile (· ≠ 0x2D))).map fun address =>
      (sensor, address)
  | _ => none

theorem mem_addresses_insertInfo {sensor : σ} {info : Option SensorInfo} {infos : SensorInfos σ}
    {e : σ × Address} (h : e ∈ addresses (insertInfo sensor info infos)) :
    e ∈ addresses infos ∨ info.map (fun i => (sensor, i.address)) = some e := by
  unfold insertInfo at h
  split at h
  · next i =>
    split at h
    · exact .inl h
    · rw [addresses, List.map_append, List.mem_append] at h
      rcases h with h | h
      · exact .inl h
      · exact .inr (congrArg some (List.mem_singleton.mp h).symm)
  · exact .inl h

/-- In a run an address is in the map, and is asked, only for a sensor that an event gave it
to. -/
theorem run_given (events : List (Event σ)) :
    (∀ e ∈ addresses (run fromString events).infos,
      ∃ event ∈ events, event.gives fromString = some e) ∧
    ∀ q ∈ (run fromString events).asked,
      ∃ event ∈ events, event.gives fromString = some (q.2, q.1) := by
  induction events using List.reverseRecOn with
  | nil => exact ⟨fun _ h => absurd h List.not_mem_nil, fun _ h => absurd h List.not_mem_nil⟩
  | append_singleton events event ih =>
    have hrun : run fromString (events ++ [event]) = step fromString (run fromString events) event := by
      rw [run, List.foldl_append]
      rfl
    have hmono : ∀ e : σ × Address, (∃ event ∈ events, event.gives fromString = some e) →
        ∃ event' ∈ events ++ [event], event'.gives fromString = some e :=
      fun e ⟨ev, hev, hg⟩ => ⟨ev, List.mem_append_left _ hev, hg⟩
    have hlast : ∀ e : σ × Address, event.gives fromString = some e →
        ∃ event' ∈ events ++ [event], event'.gives fromString = some e :=
      fun e hg => ⟨event, List.mem_append_right _ List.mem_cons_self, hg⟩
    rw [hrun]
    cases event with
    | created sensor source unitKnown now =>
      refine ⟨fun e he => ?_, fun q hq => hmono _ (ih.2 q hq)⟩
      rcases mem_addresses_insertInfo he with he | he
      · exact hmono e (ih.1 e he)
      · refine hlast e ?_
        cases unitKnown with
        | false => cases he
        | true => exact he
    | restored sensor source eid now =>
      refine ⟨fun e he => ?_, fun q hq => hmono _ (ih.2 q hq)⟩
      rcases mem_addresses_insertInfo he with he | he
      · exact hmono e (ih.1 e he)
      · refine hlast e ?_
        rw [lookupSensor, Option.map_map] at he
        exact he
    | recorded sensor now =>
      refine ⟨fun e he => hmono e (ih.1 e ?_), fun q hq => hmono _ (ih.2 q hq)⟩
      rw [← addresses_recordReading sensor now (run fromString events).infos]
      exact he
    | timer now =>
      refine ⟨fun e he => hmono e (ih.1 e ?_), fun q hq => ?_⟩
      · rw [← addresses_timerExpired now (run fromString events).infos]
        exact he
      · rcases List.mem_append.mp hq with hq | hq
        · exact hmono _ (ih.2 q hq)
        · have hasked := mem_addresses_of_query (Option.mem_toList.mp hq : (timerExpired now
            (run fromString events).infos).2 = some q)
          exact hmono _ (ih.1 _ hasked)

/-! ## Ids and addresses -/

/-- Between two colons: one to four hexadecimal digits. -/
def IsGroup (g : Text) : Prop := 1 ≤ g.length ∧ g.length ≤ 4 ∧ ∀ c ∈ g, (hexDigit c).isSome = true

/-- The number of a group. -/
def groupValue (g : Text) : Nat := g.foldl (fun n c => 16 * n + (hexDigit c).getD 0) 0

/-- Groups with colons between them. -/
def joined : List Text → Text
  | [] => []
  | g :: gs => g ++ (if gs.isEmpty then [] else [0x3A]) ++ joined gs

/-- What is documented of `from_string`: eight groups with colons between them are the address
whose 16-bit words they are. -/
def ReadsGroups (fromString : FromString) : Prop :=
  ∀ (groups : List Text) (address : Address), (∀ g ∈ groups, IsGroup g) →
    address.val = (groups.flatMap fun g => [UInt8.ofNat (groupValue g / 256),
      UInt8.ofNat (groupValue g % 256)]) →
    fromString (joined groups) = some address

theorem hexDigit_hexCharacter {n : Nat} (h : n < 16) :
    hexDigit (hexCharacter n) = some n ∧ hexCharacter n ≠ 0x2D := by
  revert n
  decide

theorem isGroup_hexByte (b : UInt8) : IsGroup (hexByte b) := by
  have hb := b.toNat_lt
  have hlen : (hexByte b).length = 2 := rfl
  refine ⟨by omega, by omega, fun c hc => ?_⟩
  rcases List.mem_cons.mp hc with rfl | hc
  · rw [(hexDigit_hexCharacter (by omega)).1]
    rfl
  · rw [List.mem_singleton.mp hc, (hexDigit_hexCharacter (by omega)).1]
    rfl

theorem groupValue_hexByte (b : UInt8) : groupValue (hexByte b) = b.toNat := by
  have hb := b.toNat_lt
  show 16 * (16 * 0 + (hexDigit (hexCharacter (b.toNat / 16))).getD 0) +
    (hexDigit (hexCharacter (b.toNat % 16))).getD 0 = b.toNat
  rw [(hexDigit_hexCharacter (by omega)).1, (hexDigit_hexCharacter (by omega)).1, Option.getD_some,
    Option.getD_some]
  omega

theorem hexByte_injective {b c : UInt8} (h : hexByte b = hexByte c) : b = c :=
  UInt8.toNat_inj.mp (by rw [← groupValue_hexByte b, h, groupValue_hexByte])

theorem writeBytes_eq_joined (bs : List UInt8) : writeBytes bs = joined (bs.map hexByte) := by
  induction bs with
  | nil => rfl
  | cons b bs ih =>
    rw [writeBytes, List.map_cons, joined, ih, List.isEmpty_map]

theorem length_writeBytes (bs : List UInt8) : (writeBytes bs).length = 3 * bs.length - 1 := by
  induction bs with
  | nil => rfl
  | cons b bs ih =>
    rw [writeBytes, List.length_append, List.length_append, ih]
    cases bs with
    | nil => rfl
    | cons c bs =>
      show 2 + 1 + (3 * (bs.length + 1) - 1) = 3 * (bs.length + 1 + 1) - 1
      omega

theorem writeBytes_injective {bs cs : List UInt8} (hlen : bs.length = cs.length)
    (h : writeBytes bs = writeBytes cs) : bs = cs := by
  induction bs generalizing cs with
  | nil => exact (List.length_eq_zero_iff.mp hlen.symm).symm
  | cons b bs ih =>
    cases cs with
    | nil => cases hlen
    | cons c cs =>
      have hrest : bs.length = cs.length := Nat.succ.inj hlen
      have hempty : bs.isEmpty = cs.isEmpty := by
        cases bs <;> cases cs <;> first | rfl | cases hrest
      rw [writeBytes, writeBytes, List.append_assoc, List.append_assoc, hempty] at h
      obtain ⟨hbyte, htail⟩ := List.append_inj h rfl
      rw [hexByte_injective hbyte, ih hrest (List.append_cancel_left htail)]

theorem notMem_writeBytes (bs : List UInt8) : 0x2D ∉ writeBytes bs := by
  induction bs with
  | nil => exact List.not_mem_nil
  | cons b bs ih =>
    have hb := b.toNat_lt
    intro h
    rw [writeBytes, List.mem_append, List.mem_append] at h
    rcases h with (h | h) | h
    · rcases List.mem_cons.mp h with h | h
      · exact (hexDigit_hexCharacter (by omega)).2 h.symm
      · exact (hexDigit_hexCharacter (by omega)).2 (List.mem_singleton.mp h).symm
    · split at h
      · exact List.not_mem_nil h
      · exact absurd (List.mem_singleton.mp h) (by decide)
    · exact ih h

/-- **Ids are equal** where the endpoints and the lower halves of the addresses are. -/
theorem getSensorId_eq_iff (source source' : Address) (eid eid' : UInt32) :
    getSensorId source eid = getSensorId source' eid' ↔
      source.val.drop 8 = source'.val.drop 8 ∧ eid = eid' := by
  constructor
  · intro h
    have hlen : (source.val.drop 8).length = (source'.val.drop 8).length := by
      rw [List.length_drop, List.length_drop, source.property, source'.property]
    obtain ⟨hbytes, htail⟩ := List.append_inj h (by rw [length_writeBytes, length_writeBytes, hlen])
    have hnumber : decimal eid.toNat = decimal eid'.toNat := (List.cons_eq_cons.mp htail).2
    have hnat := congrArg natural? hnumber
    rw [natural?_decimal, natural?_decimal] at hnat
    exact ⟨writeBytes_injective hlen hbytes, UInt32.toNat_inj.mp (Option.some.inj hnat)⟩
  · rintro ⟨hbytes, rfl⟩
    rw [getSensorId, hbytes]
    rfl

theorem takeWhile_getSensorId (source : Address) (eid : UInt32) :
    (getSensorId source eid).takeWhile (· ≠ 0x2D) = writeBytes (source.val.drop 8) := by
  have hall : ∀ c ∈ writeBytes (source.val.drop 8), decide (c ≠ 0x2D) = true := fun c hc =>
    decide_eq_true fun h => notMem_writeBytes _ (h ▸ hc)
  rw [getSensorId, List.takeWhile_append_of_pos hall, List.takeWhile_cons_of_neg (by decide),
    List.append_nil]

theorem length_restored (source : Address) :
    ((source.val.drop 8).flatMap fun b => [0, b]).length = 16 := by
  simp [source.property]

/-- The address that an id is read as: the lower half, a byte in each word. -/
def restoredAddress (source : Address) : Address :=
  ⟨(source.val.drop 8).flatMap fun b => [0, b], length_restored source⟩

theorem fromString_getSensorId {fromString : FromString} (h : ReadsGroups fromString)
    (source : Address) (eid : UInt32) :
    fromString ((getSensorId source eid).takeWhile (· ≠ 0x2D)) = some (restoredAddress source) := by
  rw [takeWhile_getSensorId, writeBytes_eq_joined]
  refine h _ _ (fun g hg => ?_) ?_
  · obtain ⟨b, -, rfl⟩ := List.mem_map.mp hg
    exact isGroup_hexByte b
  · rw [List.flatMap_map]
    refine List.flatMap_congr fun b _ => ?_
    have hb := b.toNat_lt
    rw [groupValue_hexByte, Nat.div_eq_of_lt hb, Nat.mod_eq_of_lt hb, UInt8.ofNat_toNat]
    rfl

/-- All bytes but the last one are zero. -/
def IsLast (source : Address) : Prop := source.val.take 15 = List.replicate 15 0

theorem restoredAddress_eq_iff (source : Address) : restoredAddress source = source ↔ IsLast source := by
  rw [Subtype.ext_iff]
  obtain ⟨bytes, hlen⟩ := source
  match bytes, hlen with
  | [b₀, b₁, b₂, b₃, b₄, b₅, b₆, b₇, b₈, b₉, b₁₀, b₁₁, b₁₂, b₁₃, b₁₄, b₁₅], _ =>
    show [0, b₈, 0, b₉, 0, b₁₀, 0, b₁₁, 0, b₁₂, 0, b₁₃, 0, b₁₄, 0, b₁₅] =
        [b₀, b₁, b₂, b₃, b₄, b₅, b₆, b₇, b₈, b₉, b₁₀, b₁₁, b₁₂, b₁₃, b₁₄, b₁₅] ↔
      [b₀, b₁, b₂, b₃, b₄, b₅, b₆, b₇, b₈, b₉, b₁₀, b₁₁, b₁₂, b₁₃, b₁₄] =
        [0, 0, 0, 0, 0, 0, 0, 0, 0, 0, 0, 0, 0, 0, 0]
    simp only [List.cons.injEq, and_true]
    grind

/-! ## A reader of addresses with eight groups -/

theorem splitOn_joined {groups : List Text} (hne : groups ≠ []) (h : ∀ g ∈ groups, IsGroup g) :
    (joined groups).splitOn 0x3A = groups := by
  have hcolon : ∀ g, IsGroup g → 0x3A ∉ g := fun g hg hmem => by
    have hdigit := hg.2.2 _ hmem
    exact absurd hdigit (by decide)
  induction groups with
  | nil => exact absurd rfl hne
  | cons g gs ih =>
    have hg := hcolon g (h g List.mem_cons_self)
    cases gs with
    | nil =>
      rw [joined, joined, List.append_nil]
      exact (congrArg _ (List.append_nil g)).trans (List.splitOn_eq_singleton hg)
    | cons g' gs =>
      have hrest := ih (List.cons_ne_nil _ _) fun g hg => h g (List.mem_cons_of_mem _ hg)
      rw [joined, List.append_assoc]
      exact (List.splitOn_append_cons_self_of_not_mem hg _).trans (congrArg (g :: ·) hrest)

/-- The bytes of the groups between the colons. -/
def groupBytes (text : Text) : List UInt8 :=
  (text.splitOn 0x3A).flatMap fun g => [UInt8.ofNat (groupValue g / 256),
    UInt8.ofNat (groupValue g % 256)]

def readFull : FromString := fun text =>
  if h : (groupBytes text).length = 16 then some ⟨groupBytes text, h⟩ else none

theorem readsGroups_readFull : ReadsGroups readFull := by
  intro groups address hgroups haddress
  have hne : groups ≠ [] := by
    rintro rfl
    have hlen := address.property
    rw [haddress] at hlen
    cases hlen
  have hbytes : groupBytes (joined groups) = address.val := by
    rw [groupBytes, splitOn_joined hne hgroups, haddress]
  unfold readFull
  rw [dif_pos (by rw [hbytes, address.property])]
  exact congrArg some (Subtype.ext hbytes)

theorem length_lampAddress : ([0xfd, 0, 0, 0, 0, 0, 0, 1, 2, 0x50, 0xc4, 0xff, 0xfe, 4, 0x80, 1] :
    List UInt8).length = 16 := rfl

/-- `fd00::1:250:c4ff:fe04:8001`. -/
def lampAddress : Address :=
  ⟨[0xfd, 0, 0, 0, 0, 0, 0, 1, 2, 0x50, 0xc4, 0xff, 0xfe, 4, 0x80, 1], length_lampAddress⟩

theorem length_lampLocal : ([0xfe, 0x80, 0, 0, 0, 0, 0, 0, 2, 0x50, 0xc4, 0xff, 0xfe, 4, 0x80, 1] :
    List UInt8).length = 16 := rfl

/-- `fe80::250:c4ff:fe04:8001`. -/
def lampLocal : Address :=
  ⟨[0xfe, 0x80, 0, 0, 0, 0, 0, 0, 2, 0x50, 0xc4, 0xff, 0xfe, 4, 0x80, 1], length_lampLocal⟩

/-! ## Results -/

/-- The sensor of a device's endpoint: only what comes from that device creates it, and it is
only restored by the id of that endpoint. -/
def Event.IsOf (sensor : σ) (source : Address) (eid : UInt32) : Event σ → Prop
  | .created s a _ _ => s = sensor → a = source
  | .restored s a e _ => s = sensor → a = source ∧ e = eid
  | _ => True

/-- In every run all queries for the sensor of an endpoint go to the address that its readings
come from. -/
def AskedAtSource (fromString : FromString) (source : Address) (eid : UInt32) : Prop :=
  ∀ (events : List (Event Nat)) (sensor : Nat), (∀ event ∈ events, event.IsOf sensor source eid) →
    ∀ address, (address, sensor) ∈ (run fromString events).asked → address = source

/-- **Queries go where the readings come from** exactly for the addresses of one byte. -/
theorem askedAtSource_iff {fromString : FromString} (h : ReadsGroups fromString) (source : Address)
    (eid : UInt32) : AskedAtSource fromString source eid ↔ IsLast source := by
  rw [← restoredAddress_eq_iff]
  constructor
  · intro hasked
    -- a sensor is restored, and its name is asked for after an hour
    have hinfo : lookupSensor fromString (getSensorId source eid) 0 =
        some ⟨0, 0, restoredAddress source⟩ := by
      rw [lookupSensor, fromString_getSensorId h]
      rfl
    refine hasked [.restored 0 source eid 0, .timer 3600] 0 ?_ _ ?_
    · intro event hevent
      rcases List.mem_cons.mp hevent with rfl | hevent
      · exact fun _ => ⟨rfl, rfl⟩
      · rw [List.mem_singleton.mp hevent]
        trivial
    · show (restoredAddress source, 0) ∈ (step fromString (step fromString ⟨[], []⟩
        (.restored 0 source eid 0)) (.timer 3600)).asked
      have hstep : step fromString ⟨[], []⟩ (.restored 0 source eid 0) =
          ⟨[(0, ⟨0, 0, restoredAddress source⟩)], []⟩ := by
        simp only [step, hinfo]
        rfl
      rw [hstep]
      exact List.mem_cons_self
  · intro hsource events sensor hevents address hasked
    obtain ⟨event, hevent, hgives⟩ := (run_given fromString events).2 _ hasked
    have hof := hevents event hevent
    cases event with
    | created s a unitKnown now =>
      cases hgives
      exact hof rfl
    | restored s a e now =>
      rw [Event.gives, fromString_getSensorId h, Option.map_some] at hgives
      cases hgives
      obtain ⟨rfl, -⟩ := hof rfl
      exact hsource
    | recorded => cases hgives
    | timer => cases hgives

/-- **Sensors and their addresses**: the queries for the sensor of an endpoint all go to the
address of its readings exactly where that has no byte but the last one, and two endpoints have
two ids exactly where they are not told apart by the upper half of the address alone. -/
theorem sensor_addresses {fromString : FromString} (h : ReadsGroups fromString) :
    (∀ source eid, AskedAtSource fromString source eid ↔ IsLast source) ∧
      ∀ source source' eid eid', ((source, eid) ≠ (source', eid') →
        getSensorId source eid ≠ getSensorId source' eid') ↔
        (source.val.drop 8 = source'.val.drop 8 → eid = eid' →
          source.val.take 8 = source'.val.take 8) := by
  refine ⟨askedAtSource_iff h, fun source source' eid eid' => ?_⟩
  rw [Ne, Ne, getSensorId_eq_iff, not_imp_not]
  constructor
  · intro hall hlow heid
    exact congrArg (fun p : Address × UInt32 => p.1.val.take 8) (hall ⟨hlow, heid⟩)
  · rintro hall ⟨hlow, heid⟩
    have hval : source.val = source'.val := by
      rw [← List.take_append_drop 8 source.val, hall hlow heid, hlow, List.take_append_drop]
    rw [Subtype.ext hval, heid]

/-- The theorem at a reader of such addresses. -/
theorem sensor_addresses_readFull :
    (∀ source eid, AskedAtSource readFull source eid ↔ IsLast source) ∧
      ∀ source source' eid eid', ((source, eid) ≠ (source', eid') →
        getSensorId source eid ≠ getSensorId source' eid') ↔
        (source.val.drop 8 = source'.val.drop 8 → eid = eid' →
          source.val.take 8 = source'.val.take 8) :=
  sensor_addresses readsGroups_readFull

/-- The sensor of a lamp that is restored from the store is asked for at another address, and
has the id of another lamp. -/
theorem lamp_elsewhere :
    (run readFull [.restored 0 lampAddress 1 0, .timer 3600]).asked =
        [(restoredAddress lampAddress, 0)] ∧
      restoredAddress lampAddress ≠ lampAddress ∧ lampAddress ≠ lampLocal ∧
      getSensorId lampAddress 1 = getSensorId lampLocal 1 := by
  have hinfo : lookupSensor readFull (getSensorId lampAddress 1) 0 =
      some ⟨0, 0, restoredAddress lampAddress⟩ := by
    rw [lookupSensor, fromString_getSensorId readsGroups_readFull]
    rfl
  refine ⟨?_, by decide, by decide, rfl⟩
  show (step readFull (step readFull ⟨[], []⟩ (.restored 0 lampAddress 1 0)) (.timer 3600)).asked = _
  simp only [step, hinfo]
  rfl

end Hexabus.Host.MsgBridge
