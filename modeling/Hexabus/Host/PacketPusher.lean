import Hexabus.Host.Asking
import Hexabus.Host.DeviceListing

/-!
# The packet pusher

`packet_pusher.cpp`: readings that are pushed to a web server. A sensor that is not known yet
is put there when its device has told its name; until then its readings are kept with the
unidentified devices. The web server, the texts of addresses and of readings, and the endpoint
registry are not part of the program.
-/

namespace Hexabus.Host.Hexanode

open Filtering Hexinfo

/-- `hexanode::Sensor`. -/
structure Sensor where
  sensorIp : Address
  eid : UInt32
  epInfo : RegistryEntry
  sensorName : List UInt8
  minValue : Int
  maxValue : Int
  type : DataType

/-- `Sensor::put` and `Sensor::post_value`: a request to the web server. -/
inductive Call
  | put (sensor : Sensor) (reading : List UInt8)
  | postValue (sensor : Sensor) (reading : List UInt8)

/-- What comes of a request: the status 200, a `CommunicationException` on another status, or
another exception. -/
inductive Reply
  | ok
  | communication
  | other
deriving DecidableEq

structure Environment where
  epRegistry : EndpointRegistry
  addressText : Address → List UInt8
  /-- A number with one digit after the point. -/
  valueText : Value → List UInt8
  /-- What comes of each request, in turn. -/
  reply : Nat → Reply

/-- The maps of a `PacketPusher`, and the requests it has made. -/
structure PacketPusher where
  sensors : List UInt8 → Option Sensor
  /-- The readings of each device that is not identified, in the order of their endpoints. -/
  unidentifiedDevices : Address → Option (List (UInt32 × List UInt8))
  calls : List Call

variable (env : Environment)

def sensorID (addr : Address) (eid : UInt32) : List UInt8 :=
  env.addressText addr ++ Lib.Json.ascii "(" ++ Lib.Json.decimal eid.toNat ++ Lib.Json.ascii ")"

namespace PacketPusher

/-- `_sensors.insert`: a sensor that is there stays. -/
def insertSensor (id : List UInt8) (sensor : Sensor) (s : PacketPusher) : PacketPusher :=
  { s with sensors := fun k => if k = id then some ((s.sensors k).getD sensor) else s.sensors k }

def eraseSensor (id : List UInt8) (s : PacketPusher) : PacketPusher :=
  { s with sensors := fun k => if k = id then none else s.sensors k }

/-- `_unidentified_devices.erase`. -/
def eraseDevice (device : Address) (s : PacketPusher) : PacketPusher :=
  { s with unidentifiedDevices := Function.update s.unidentifiedDevices device none }

/-- A request to the web server, with what comes of it. -/
def request (call : Call) (s : PacketPusher) : PacketPusher × Reply :=
  ({ s with calls := s.calls ++ [call] }, env.reply s.calls.length)

/-! ## The callbacks -/

/-- The range of a sensor. -/
def range (eid : UInt32) : Int × Int :=
  if eid = 2 then (0, 3200)
  else if eid = 3 then (15, 30)
  else if eid = 5 then (0, 100)
  else if eid = 6 then (900, 1050)
  else (0, 100)

/-- The name in an `EndpointInfoPacket`; the filter lets no other packets through. -/
def infoName : Packet → List UInt8
  | .endpointInfo _ _ value _ => value.bytes
  | _ => []

/-- One turn of the loop in `deviceInfoReceived`; exceptions are caught. -/
def createSensor (device : Address) (info : Packet) (s : PacketPusher)
    (reading : UInt32 × List UInt8) : PacketPusher :=
  let desc := (env.epRegistry reading.1).getD ⟨[], none, .float, .sensor⟩
  let newSensor : Sensor :=
    ⟨device, reading.1, desc, infoName info, (range reading.1).1, (range reading.1).2, desc.type⟩
  ((s.insertSensor (sensorID env device reading.1) newSensor).request env
    (.put newSensor reading.2)).1

def deviceInfoReceived (device : Address) (info : Packet) (s : PacketPusher) : PacketPusher :=
  match s.unidentifiedDevices device with
  | none => s
  | some eids => (eids.foldl (createSensor env device info) s).eraseDevice device

def deviceInfoError (device : Address) (s : PacketPusher) : PacketPusher := s.eraseDevice device

end PacketPusher

open PacketPusher

/-- The callbacks of a query are bound to its device. -/
def callbacks : Callbacks Packet Address PacketPusher where
  response := deviceInfoReceived env
  failure := deviceInfoError

/-- The pusher with its interrogator. -/
abbrev Pusher := Asking Packet Address Address Address PacketPusher

/-! ## Pushing -/

/-- `isEndpointInfo() && eid() == EP_DEVICE_DESCRIPTOR`, from the device. -/
def identifies (device : Address) (packet : Packet) (sender : Address) : Bool :=
  sender = device && passes (Filtering.and isEndpointInfo
    (binary (fun a b => decide (a = b)) eid (constant epDeviceDescriptor))) packet

def identification (device : Address) : Request Packet Address Address where
  device := device
  packet := .endpointQuery epDeviceDescriptor 0
  filter := identifies device
  maxTries := 5

/-- `_unidentified_devices[addr][eid] = value`: the entry of the endpoint. -/
def assign (eid : UInt32) (value : List UInt8) :
    List (UInt32 × List UInt8) → List (UInt32 × List UInt8)
  | [] => [(eid, value)]
  | reading :: readings =>
    if eid < reading.1 then (eid, value) :: reading :: readings
    else if reading.1 < eid then reading :: assign eid value readings
    else (eid, value) :: readings

/-- The name and the range of a sensor that no device tells about. -/
def boilerplate (eid : UInt32) : Option (List UInt8 × Int × Int) :=
  if eid = 41 then some (Lib.Json.ascii "PV Production", 0, 5000)
  else if eid = 42 then some (Lib.Json.ascii "Power Balance", -10000, 10000)
  else if eid = 43 then some (Lib.Json.ascii "Battery", -5000, 5000)
  else none

/-- How `_info.send_request` goes: the time, whether `socket.send` returns, and how much room a
vector that grows gets. -/
structure Sending where
  now : Int
  sendOk : Bool
  spare : Nat

/-- `defineSensor`, where the device has to be asked. -/
def identify (addr : Address) (eid : UInt32) (value : List UInt8) (sending : Sending)
    (p : Pusher) : Pusher :=
  let p :=
    match p.user.unidentifiedDevices addr with
    | some _ => p
    | none =>
      let p := p.ask (callbacks env) addr (identification addr) sending.now sending.sendOk
        sending.spare
      { p with user := { p.user with
          unidentifiedDevices := Function.update p.user.unidentifiedDevices addr
            (some ((p.user.unidentifiedDevices addr).getD [])) } }
  { p with user := { p.user with
      unidentifiedDevices := Function.update p.user.unidentifiedDevices addr
        (some (assign eid value ((p.user.unidentifiedDevices addr).getD []))) } }

/-- `defineSensor`, and what comes of its request to the web server, if it makes one. -/
def defineSensor (addr : Address) (eid : UInt32) (value : List UInt8) (sending : Sending)
    (p : Pusher) : Pusher × Reply :=
  match boilerplate eid with
  | some (name, minValue, maxValue) =>
    let newSensor : Sensor := ⟨addr, eid, ⟨name, some (Lib.Json.ascii "W"), .float, .sensor⟩, name,
      minValue, maxValue, .float⟩
    let (user, reply) := (p.user.insertSensor (sensorID env addr eid) newSensor).request env
      (.put newSensor value)
    ({ p with user := user }, reply)
  | none => (identify env addr eid value sending p, .ok)

/-- The block of `push_value` that is tried. -/
def tryPush (addr : Address) (eid : UInt32) (value : List UInt8) (sending : Sending)
    (p : Pusher) : Pusher × Reply :=
  match p.user.sensors (sensorID env addr eid) with
  | some sensor =>
    let (user, reply) := p.user.request env (.postValue sensor value)
    ({ p with user := user }, reply)
  | none => defineSensor env addr eid value sending p

/-- `push_value`. An exception from the handler of a `CommunicationException` leaves it. -/
def pushValue (addr : Address) (eid : UInt32) (value : List UInt8) (sending : Sending)
    (p : Pusher) : Pusher × Reply :=
  let (p, reply) := tryPush env addr eid value sending p
  if reply = .communication then
    defineSensor env addr eid value sending
      { p with user := p.user.eraseSensor (sensorID env addr eid) }
  else (p, .ok)

/-- The readings of `pushFromPacket`; other packets are rejected. -/
def reading : Packet → Option (UInt32 × Value)
  | .info eid (.bool v) _ => some (eid, .bool v)
  | .info eid (.uint8 v) _ => some (eid, .uint8 v)
  | .info eid (.uint32 v) _ => some (eid, .uint32 v)
  | .info eid (.float v) _ => some (eid, .float v)
  | _ => none

/-- `push`; the caller takes any exception. -/
def push (sender : Address) (packet : Packet) (sending : Sending) (p : Pusher) : Pusher :=
  match reading packet with
  | some (eid, value) => (pushValue env sender eid (env.valueText value) sending p).1
  | none => p

/-! ## Runs -/

/-- A packet is pushed, or the interrogator takes a step. -/
inductive Step
  | push (sender : Address) (packet : Packet) (sending : Sending)
  | io (a : DeviceInterrogator.Step Packet Address Address)

/-- One thing at a time, and nobody else asks the interrogator for anything. -/
def step (a : Step) (p : Pusher) : Pusher :=
  match a with
  | .push sender packet sending => if p.info.Idle then push env sender packet sending p else p
  | .io a => if a.passive then p.io (callbacks env) a else p

def init : Pusher where
  info := .init
  bound := []
  user := ⟨fun _ => none, fun _ => none, []⟩

/-- The endpoint of the device is recorded as unidentified. -/
def Recorded (p : Pusher) (device : Address) (eid : UInt32) : Prop :=
  ∃ eids value, p.user.unidentifiedDevices device = some eids ∧ (eid, value) ∈ eids

/-- An identification query for the device is outstanding. -/
def Outstanding (p : Pusher) (device : Address) : Prop := ∃ n, p.Pending n device

/-- For everything that is recorded a query is outstanding, and a device that has none is asked
when the next reading of a sensor comes that it should tell about. -/
structure NotStuck (p : Pusher) : Prop where
  outstanding : ∀ device eid, Recorded p device eid → Outstanding p device
  again : ∀ device packet eid value sending, p.info.Idle → ¬ Outstanding p device →
    reading packet = some (eid, value) → boilerplate eid = none →
    p.user.sensors (sensorID env device eid) = none →
    (step env (.push device packet sending) p).info.requests =
      p.info.requests ++ [identification device]

variable {env} {p q : Pusher} {addr : Address} {eid : UInt32} {value : List UInt8}
  {sending : Sending}

/-! ## Which pushes ask -/

/-- What a push does to the known sensors and to the web server leaves the devices alone. -/
structure SameDevices (p q : Pusher) : Prop where
  info : q.info = p.info
  bound : q.bound = p.bound
  devices : q.user.unidentifiedDevices = p.user.unidentifiedDevices

/-- The push comes to the part of `defineSensor` where the device may have to be asked. -/
def Identifies (env : Environment) (p : Pusher) (addr : Address) (eid : UInt32) : Prop :=
  boilerplate eid = none ∧ (p.user.sensors (sensorID env addr eid) = none ∨
    env.reply p.user.calls.length = .communication)

/-- The push comes to `send_request`. -/
def Asks (env : Environment) (p : Pusher) (sender : Address) (packet : Packet) : Prop :=
  ∃ eid value, reading packet = some (eid, value) ∧ Identifies env p sender eid ∧
    p.user.unidentifiedDevices sender = none

/-- The condition on a step: where a push comes to `send_request`, the socket takes the query. -/
def Sends (env : Environment) (p : Pusher) : Step → Prop
  | .push sender packet sending => p.info.Idle → Asks env p sender packet → sending.sendOk = true
  | .io _ => True

theorem pushValue_identify (value : List UInt8) (sending : Sending) (h : Identifies env p addr eid) :
    ∃ q, SameDevices p q ∧ (pushValue env addr eid value sending p).1 =
      identify env addr eid value sending q := by
  obtain ⟨hboilerplate, hreached⟩ := h
  have hdefine : ∀ q, defineSensor env addr eid value sending q =
      (identify env addr eid value sending q, .ok) := by
    intro q
    unfold defineSensor
    rw [hboilerplate]
  cases hsensor : p.user.sensors (sensorID env addr eid) with
  | none =>
    refine ⟨p, ⟨rfl, rfl, rfl⟩, ?_⟩
    unfold pushValue tryPush
    rw [hsensor, hdefine]
    rfl
  | some sensor =>
    have hreply := hreached.resolve_left (by rw [hsensor]; exact Option.some_ne_none sensor)
    refine ⟨{ p with user :=
      (p.user.request env (.postValue sensor value)).1.eraseSensor (sensorID env addr eid) },
      ⟨rfl, rfl, rfl⟩, ?_⟩
    unfold pushValue tryPush
    rw [hsensor]
    show (if env.reply p.user.calls.length = .communication then _ else _ : Pusher × Reply).1 = _
    rw [if_pos hreply, hdefine]
    rfl

theorem defineSensor_same (h : boilerplate eid ≠ none) (p : Pusher) :
    SameDevices p (defineSensor env addr eid value sending p).1 := by
  unfold defineSensor
  cases hboilerplate : boilerplate eid with
  | none => exact absurd hboilerplate h
  | some b => exact ⟨rfl, rfl, rfl⟩

theorem pushValue_same (h : ¬ Identifies env p addr eid) :
    SameDevices p (pushValue env addr eid value sending p).1 := by
  unfold pushValue tryPush
  by_cases hboilerplate : boilerplate eid = none
  · cases hsensor : p.user.sensors (sensorID env addr eid) with
    | none => exact absurd ⟨hboilerplate, .inl hsensor⟩ h
    | some sensor =>
      show SameDevices p (if env.reply p.user.calls.length = .communication then _ else _ :
        Pusher × Reply).1
      rw [if_neg fun hreply => h ⟨hboilerplate, .inr hreply⟩]
      exact ⟨rfl, rfl, rfl⟩
  · have hboth : ∀ q : Pusher × Reply, SameDevices p q.1 →
        SameDevices p (if q.2 = .communication then defineSensor env addr eid value sending
          { q.1 with user := q.1.user.eraseSensor (sensorID env addr eid) } else (q.1, .ok)).1 := by
      rintro q ⟨hinfo, hbound, hdevices⟩
      split
      · obtain ⟨hinfo', hbound', hdevices'⟩ := @defineSensor_same env addr eid value sending
          hboilerplate { q.1 with user := q.1.user.eraseSensor (sensorID env addr eid) }
        exact ⟨hinfo'.trans hinfo, hbound'.trans hbound, hdevices'.trans hdevices⟩
      · exact ⟨hinfo, hbound, hdevices⟩
    cases hsensor : p.user.sensors (sensorID env addr eid) with
    | none => exact hboth _ (defineSensor_same hboilerplate p)
    | some sensor => exact hboth (_, env.reply p.user.calls.length) ⟨rfl, rfl, rfl⟩

/-! ## Devices and queries -/

/-- A device is unidentified exactly while its one query is outstanding. -/
structure Linked (p : Pusher) : Prop where
  sound : p.Sound
  pending : ∀ device, p.user.unidentifiedDevices device ≠ none ↔ ∃ n, p.Pending n device
  unique : ∀ device n m, p.Pending n device → p.Pending m device → n = m

theorem linked_iff : Linked p ↔ Asking.Keyed (fun device => device)
    (fun device => p.user.unidentifiedDevices device ≠ none) p := by
  constructor
  · intro h
    refine ⟨h.sound, fun device => ?_, ?_⟩
    · rw [h.pending]
      exact exists_congr fun n => ⟨fun hn => ⟨device, hn, rfl⟩, by rintro ⟨_, hn, rfl⟩; exact hn⟩
    · rintro n m device _ hn hm rfl
      exact h.unique device n m hn hm
  · intro h
    refine ⟨h.sound, fun device => ?_, fun device n m hn hm => h.unique n m device device hn hm rfl⟩
    rw [h.pending]
    exact exists_congr fun n => ⟨by rintro ⟨_, hn, rfl⟩; exact hn, fun hn => ⟨device, hn, rfl⟩⟩

theorem Linked.same (h : Linked p) (hsame : SameDevices p q) : Linked q := by
  obtain ⟨info, bound, user⟩ := q
  obtain ⟨hinfo, hbound, hdevices⟩ := hsame
  dsimp only at hinfo hbound hdevices
  subst hinfo hbound
  refine linked_iff.mpr (((linked_iff.mp h).user user).congr fun device => ?_)
  rw [hdevices]

/-- A reading more of a device that is unidentified already. -/
theorem Linked.note (h : Linked p) {eids : List (UInt32 × List UInt8)}
    (hdevice : p.user.unidentifiedDevices addr = some eids) (readings : List (UInt32 × List UInt8)) :
    Linked { p with user := { p.user with
      unidentifiedDevices := Function.update p.user.unidentifiedDevices addr (some readings) } } := by
  refine linked_iff.mpr (((linked_iff.mp h).user _).congr fun device => ?_)
  refine (Asking.set_ne_none readings device).trans ⟨fun hor => hor.elim id ?_, .inl⟩
  rintro rfl
  rw [hdevice]
  exact Option.some_ne_none eids

/-! ## Identifying -/

theorem identify_known {eids : List (UInt32 × List UInt8)}
    (h : p.user.unidentifiedDevices addr = some eids) : identify env addr eid value sending p =
      { p with user := { p.user with
        unidentifiedDevices := Function.update p.user.unidentifiedDevices addr
          (some (assign eid value eids)) } } := by
  unfold identify
  simp only [h, Option.getD_some]

/-- The query is sent: the device is unidentified and its query is outstanding. -/
theorem identify_sent (env : Environment) (eid : UInt32) (value : List UInt8) (h : p.user.unidentifiedDevices addr = none) (hsend : sending.sendOk = true) :
    (identify env addr eid value sending p).info =
        p.info.queueQuery (identification addr) sending.now true sending.spare ∧
      (identify env addr eid value sending p).bound = p.bound ++ [addr] ∧
      (identify env addr eid value sending p).user.unidentifiedDevices =
        Function.update p.user.unidentifiedDevices addr (some [(eid, value)]) := by
  unfold identify
  rw [h]
  simp only [Asking.ask, hsend, if_true]
  refine ⟨trivial, trivial, ?_⟩
  rw [h, Function.update_self, Function.update_idem]
  rfl

/-- The query is refused: the device is unidentified all the same. -/
theorem identify_refused (env : Environment) (eid : UInt32) (value : List UInt8) (h : p.user.unidentifiedDevices addr = none)
    (hsend : sending.sendOk = false) : ∃ q : Pusher,
      q = p.ask (callbacks env) addr (identification addr) sending.now false sending.spare ∧
      (identify env addr eid value sending p).info = q.info ∧
      (identify env addr eid value sending p).bound = q.bound ∧
      (identify env addr eid value sending p).user.unidentifiedDevices =
        Function.update p.user.unidentifiedDevices addr (some [(eid, value)]) := by
  refine ⟨_, rfl, ?_⟩
  unfold identify
  rw [h]
  simp only [hsend]
  refine ⟨trivial, trivial, ?_⟩
  have herased : (p.ask (callbacks env) addr (identification addr) sending.now false
      sending.spare).user.unidentifiedDevices =
        Function.update p.user.unidentifiedDevices addr none := rfl
  rw [herased, Function.update_self, Function.update_idem, Function.update_self,
    Function.update_idem]
  rfl

theorem Linked.identify_sent (h : Linked p) (hidle : p.info.Idle)
    (hdevice : p.user.unidentifiedDevices addr = none) (hsend : sending.sendOk = true) :
    Linked (identify env addr eid value sending p) := by
  obtain ⟨hinfo, hbound, hdevices⟩ := Hexanode.identify_sent env eid value hdevice hsend
  have hkeyed := (linked_iff.mp h).ask_sent (callbacks env) hidle addr (fun hne => hne hdevice)
    (identification addr) (show (1 : Int) ≤ 5 by decide) sending.now sending.spare
  generalize identify env addr eid value sending p = q at hinfo hbound hdevices ⊢
  obtain ⟨info, bound, user⟩ := q
  dsimp only at hinfo hbound hdevices
  subst hinfo hbound
  refine linked_iff.mpr ((hkeyed.user user).congr fun device => ?_)
  rw [hdevices]
  exact Asking.set_ne_none _ device

/-- **A push** whose query is taken keeps devices and queries together. -/
theorem Linked.push (h : Linked p) (hidle : p.info.Idle) {sender : Address} {packet : Packet}
    (hsends : Asks env p sender packet → sending.sendOk = true) :
    Linked (push env sender packet sending p) := by
  unfold Hexanode.push
  cases hreading : reading packet with
  | none => exact h
  | some r =>
    obtain ⟨eid, value⟩ := r
    by_cases hidentifies : Identifies env p sender eid
    · obtain ⟨q, hsame, hpush⟩ := pushValue_identify (env.valueText value)
        sending hidentifies
      show Linked (pushValue env sender eid (env.valueText value) sending p).1
      rw [hpush]
      cases hdevice : p.user.unidentifiedDevices sender with
      | some eids =>
        have hq : q.user.unidentifiedDevices sender = some eids := by rw [hsame.devices, hdevice]
        rw [identify_known hq]
        exact (h.same hsame).note hq _
      | none =>
        have hq : q.user.unidentifiedDevices sender = none := by rw [hsame.devices, hdevice]
        exact (h.same hsame).identify_sent (hsame.info ▸ hidle) hq
          (hsends ⟨eid, value, hreading, hidentifies, hdevice⟩)
    · exact h.same (pushValue_same hidentifies)

/-! ## The callbacks -/

/-- Whatever comes back from a device, it is no longer unidentified. -/
theorem unidentifiedDevices_received (env : Environment) (device : Address) (info : Packet)
    (s : PacketPusher) :
    (deviceInfoReceived env device info s).unidentifiedDevices =
      Function.update s.unidentifiedDevices device none := by
  unfold deviceInfoReceived
  cases hdevice : s.unidentifiedDevices device with
  | none =>
    have hsame : Function.update s.unidentifiedDevices device none = s.unidentifiedDevices := by
      rw [← hdevice, Function.update_eq_self]
    rw [hsame]
  | some eids =>
    have hloop : (eids.foldl (createSensor env device info) s).unidentifiedDevices =
        s.unidentifiedDevices := by
      clear hdevice
      induction eids generalizing s with
      | nil => rfl
      | cons r eids ih => exact ih (createSensor env device info s r)
    show Function.update (eids.foldl (createSensor env device info) s).unidentifiedDevices _ _ = _
    rw [hloop]

/-- **A step of the interrogator** keeps devices and queries together. -/
theorem Linked.io (h : Linked p) {a : DeviceInterrogator.Step Packet Address Address}
    (ha : a.passive = true) : Linked (p.io (callbacks env) a) := by
  refine linked_iff.mpr ?_
  cases (linked_iff.mp h).io (callbacks env) ha with
  | quiet huser hkeyed =>
    rw [huser]
    exact hkeyed
  | response device packet hdevice huser hkeyed =>
    refine hkeyed.congr fun other => ?_
    have hdevices := unidentifiedDevices_received env device packet p.user
    rw [huser]
    show (deviceInfoReceived env device packet p.user).unidentifiedDevices other ≠ none ↔ _
    rw [hdevices]
    exact Asking.erased_ne_none other
  | failure device hdevice huser hkeyed =>
    refine hkeyed.congr fun other => ?_
    rw [huser]
    exact Asking.erased_ne_none other

theorem Linked.step (h : Linked p) {a : Step} (ha : Sends env p a) : Linked (step env a p) := by
  cases a with
  | push sender packet sending =>
    show Linked (if p.info.Idle then Hexanode.push env sender packet sending p else p)
    split
    next hidle => exact h.push hidle (ha hidle)
    next => exact h
  | io a =>
    show Linked (if a.passive then p.io (callbacks env) a else p)
    split
    next hpassive => exact h.io hpassive
    next => exact h

theorem linked_init : Linked init where
  sound := ⟨DeviceInterrogator.sound_init, rfl⟩
  pending device := iff_of_false (fun h => h rfl) (by rintro ⟨n, hn, -⟩; cases hn)
  unique device n m hn := by cases hn.1

/-- The interrogator in a push: nothing, or a query. -/
theorem info_push (env : Environment) (sender : Address) (packet : Packet) (sending : Sending) (p : Pusher) :
    (Asks env p sender packet ∧ ∃ eid value q, SameDevices p q ∧
      q.user.unidentifiedDevices sender = none ∧
      push env sender packet sending p = identify env sender eid value sending q ∧
      ∃ v, reading packet = some (eid, v)) ∨
    (¬ Asks env p sender packet ∧ (push env sender packet sending p).info = p.info) := by
  unfold push
  cases hreading : reading packet with
  | none =>
    refine .inr ⟨?_, rfl⟩
    rintro ⟨eid, value, hsome, -⟩
    exact absurd (hreading.symm.trans hsome) (Option.some_ne_none _).symm
  | some r =>
    obtain ⟨eid, value⟩ := r
    have hreader : ∀ eid' value', reading packet = some (eid', value') → eid' = eid := by
      intro eid' value' hsome
      exact (Prod.ext_iff.mp (Option.some.inj (hsome.symm.trans hreading))).1
    by_cases hidentifies : Identifies env p sender eid
    · obtain ⟨q, hsame, hpush⟩ := pushValue_identify (env.valueText value)
        sending hidentifies
      cases hdevice : p.user.unidentifiedDevices sender with
      | none =>
        have hq : q.user.unidentifiedDevices sender = none := by rw [hsame.devices, hdevice]
        exact .inl ⟨⟨eid, value, hreading, hidentifies, hdevice⟩, eid, _, q, hsame, hq, hpush,
          value, rfl⟩
      | some eids =>
        refine .inr ⟨?_, ?_⟩
        · rintro ⟨eid', value', -, -, hnone⟩
          exact absurd (hdevice.symm.trans hnone) (Option.some_ne_none _)
        · have hq : q.user.unidentifiedDevices sender = some eids := by rw [hsame.devices, hdevice]
          show (pushValue env sender eid (env.valueText value) sending p).1.info = _
          rw [hpush, identify_known hq]
          exact hsame.info
    · refine .inr ⟨?_, (pushValue_same hidentifies).info⟩
      rintro ⟨eid', value', hsome, hyes, -⟩
      exact hidentifies (hreader eid' value' hsome ▸ hyes)

theorem requests_identify (h : p.user.unidentifiedDevices addr = none) :
    (identify env addr eid value sending p).info.requests =
      p.info.requests ++ [identification addr] := by
  cases hsend : sending.sendOk with
  | true =>
    rw [(identify_sent env eid value h hsend).1, DeviceInterrogator.requests_queueQuery]
  | false =>
    obtain ⟨q, rfl, hinfo, -⟩ := identify_refused env eid value h hsend
    rw [hinfo]
    show (p.info.queueQuery _ _ _ _).callbackReturns.requests = _
    rw [DeviceInterrogator.requests_callbackReturns, DeviceInterrogator.requests_queueQuery]

theorem Linked.notStuck (h : Linked p) : NotStuck env p where
  outstanding := by
    rintro device eid ⟨eids, value, hdevice, -⟩
    refine (h.pending device).mp ?_
    rw [hdevice]
    exact Option.some_ne_none eids
  again := by
    intro device packet eid value sending hidle hnot hreading hboilerplate hsensor
    have hnone : p.user.unidentifiedDevices device = none := by
      by_contra hne
      exact hnot ((h.pending device).mp hne)
    have hasks : Asks env p device packet :=
      ⟨eid, value, hreading, ⟨hboilerplate, .inl hsensor⟩, hnone⟩
    show (if p.info.Idle then Hexanode.push env device packet sending p else p).info.requests = _
    rw [if_pos hidle]
    rcases info_push env device packet sending p with
      ⟨-, eid', value', q, hsame, hq, hpush, -⟩ | ⟨hno, -⟩
    · rw [hpush, requests_identify hq, hsame.info]
    · exact absurd hasks hno

/-- **A query that the socket refuses** leaves its device stuck. -/
theorem stuck_of_refused (h : Linked p) (hidle : p.info.Idle) {sender : Address} {packet : Packet}
    (hasks : Asks env p sender packet) (hsend : sending.sendOk = false) :
    ¬ NotStuck env (step env (.push sender packet sending) p) := by
  intro hnot
  have hstep : step env (.push sender packet sending) p = push env sender packet sending p :=
    if_pos hidle
  rw [hstep] at hnot
  rcases info_push env sender packet sending p with
    ⟨-, eid, value, q, hsame, hq, hpush, -⟩ | ⟨hno, -⟩
  · obtain ⟨q', rfl, hinfo, hbound, hdevices⟩ := identify_refused env eid value hq hsend
    have hlinked := h.same hsame
    obtain ⟨n, hn⟩ := hnot.outstanding sender eid ⟨[(eid, value)], value, by
      rw [hpush, hdevices, Function.update_self], List.mem_singleton_self _⟩
    have hpending : q.Pending n sender := by
      rw [← Asking.pending_ask_refused (callbacks env) hlinked.sound sender
        (identification sender) sending.now sending.spare n sender]
      unfold Asking.Pending at hn ⊢
      rw [hpush, hinfo, hbound] at hn
      exact hn
    exact (hlinked.pending sender).mpr ⟨n, hpending⟩ hq
  · exact hno hasks

end Hexabus.Host.Hexanode
