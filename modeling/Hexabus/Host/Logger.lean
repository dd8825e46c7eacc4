import Hexabus.Host.Asking
import Hexabus.Host.DeviceListing

/-!
# The logger

`logger.cpp`: readings that are added to a store. A sensor that the store does not have yet is
put there when its device has told its name; until then its readings are kept in a backlog. What
the logger leaves open is done as in `hexalog.cpp`. The store, the clocks, the texts of addresses
and the endpoint registry are not part of the program.
-/

namespace Hexabus.Host.Hexalog

open Lib.Json Filtering Hexinfo

/-- `klio::Sensor`, with what `createSensor` is given. -/
structure Sensor where
  externalId : List UInt8
  name : List UInt8
  unit : List UInt8
  timezone : List UInt8
deriving DecidableEq

/-- What the values of packets are as a `double`; none of these conversions rounds. -/
inductive Double
  | whole (n : Int)
  /-- A number of single precision, by its bits. -/
  | single (bits : UInt32)
deriving DecidableEq

/-- A value with its `klio::timestamp_t`. -/
abbrev Reading := Nat × Double

/-- `klio::readings_t`: a map, in the order of the time stamps. -/
abbrev Readings := List Reading

structure Environment where
  registry : EndpointRegistry
  addressText : Address → List UInt8
  sensorTimezone : List UInt8

/-- The maps of a `Logger`, and what it has given to the store. -/
structure Logger where
  newSensorBacklog : List UInt8 → Option (UInt32 × Readings)
  sensorCache : List UInt8 → Option Sensor
  /-- The sensors in the store. -/
  sensors : List Sensor
  /-- The readings that were added to it. -/
  readings : List (Sensor × Reading)
  /-- What was written to `std::cerr`: of which sensor how many readings are dropped. -/
  cerr : List (List UInt8 × Nat)
  /-- The readings that came, of all sensors. They are not part of the program. -/
  accepted : List (List UInt8 × Reading)

variable (env : Environment)

/-- `eid_to_unit`. -/
def eidToUnit (eid : UInt32) : List UInt8 :=
  match env.registry eid with
  | none => ascii "unknown"
  | some it => it.unit.getD (ascii "unknown")

/-- `get_sensor_id`. -/
def getSensorId (source : Address) (eid : UInt32) : List UInt8 :=
  env.addressText source ++ 0x2D :: decimal eid.toNat

namespace Logger

/-! ## The store -/

/-- `lookup_sensor`: the first one of `get_sensors_by_external_id`. -/
def lookupSensor (id : List UInt8) (s : Logger) : Option Sensor :=
  s.sensors.find? fun sensor => sensor.externalId = id

/-- `new_sensor_found`. -/
def newSensorFound (sensor : Sensor) (s : Logger) : Logger :=
  { s with sensors := s.sensors ++ [sensor] }

/-- `record_reading`. -/
def recordReading (sensor : Sensor) (s : Logger) (reading : Reading) : Logger :=
  { s with readings := s.readings ++ [(sensor, reading)] }

/-- A reading comes. -/
def accept (sensorId : List UInt8) (reading : Reading) (s : Logger) : Logger :=
  { s with accepted := s.accepted ++ [(sensorId, reading)] }

/-! ## The maps -/

/-- `new_sensor_backlog[sensor_id]`. -/
def backlog (sensorId : List UInt8) (s : Logger) : UInt32 × Readings :=
  (s.newSensorBacklog sensorId).getD (0, [])

def setBacklog (sensorId : List UInt8) (backlog : UInt32 × Readings) (s : Logger) : Logger :=
  { s with newSensorBacklog := Function.update s.newSensorBacklog sensorId (some backlog) }

/-- `new_sensor_backlog.erase`. -/
def eraseBacklog (sensorId : List UInt8) (s : Logger) : Logger :=
  { s with newSensorBacklog := Function.update s.newSensorBacklog sensorId none }

/-- `sensor_cache.insert`: a sensor that is there stays. -/
def insertSensor (sensorId : List UInt8) (sensor : Sensor) (s : Logger) : Logger :=
  { s with
    sensorCache :=
      Function.update s.sensorCache sensorId (some ((s.sensorCache sensorId).getD sensor)) }

/-- The sensor that `accept_packet` finds, in the cache or in the store. -/
def find (sensorId : List UInt8) (s : Logger) : Option Sensor :=
  (s.sensorCache sensorId).or (s.lookupSensor sensorId)

/-! ## The callbacks -/

/-- The name in an `EndpointInfoPacket`; the filter lets no other packets through. -/
def infoName : Packet → List UInt8
  | .endpointInfo _ _ value _ => value.bytes
  | _ => []

/-- `sensor_factory.createSensor`, as it is called below. -/
def createSensor (sensorId : List UInt8) (epInfo : Packet) (s : Logger) : Sensor where
  externalId := sensorId
  name := infoName epInfo
  unit := eidToUnit env (s.backlog sensorId).1
  timezone := env.sensorTimezone

def onSensorNameReceived (sensorId : List UInt8) (epInfo : Packet) (s : Logger) : Logger :=
  let sensor := createSensor env sensorId epInfo s
  let s := (s.newSensorFound sensor).insertSensor sensorId sensor
  ((s.backlog sensorId).2.foldl (recordReading sensor) s).eraseBacklog sensorId

def onSensorError (sensorId : List UInt8) (s : Logger) : Logger :=
  { s with cerr := s.cerr ++ [(sensorId, (s.backlog sensorId).2.length)] }.eraseBacklog sensorId

end Logger

open Logger

/-- What is bound to the callbacks of a query; `new_sensor_found` makes nothing of the address. -/
structure Bound where
  sensorId : List UInt8
  address : Address
deriving DecidableEq

def callbacks : Callbacks Packet Bound Logger where
  response b := onSensorNameReceived env b.sensorId
  failure b := onSensorError b.sensorId

/-- The logger with its interrogator. -/
abbrev Logging := Asking Packet Address Address Bound Logger

/-! ## Accepting packets -/

/-- `IsEndpointInfo()`, from the device. -/
def identifies (device : Address) (packet : Packet) (sender : Address) : Bool :=
  sender = device && passes isEndpointInfo packet

def nameQuery (device : Address) : Request Packet Address Address where
  device := device
  packet := .endpointQuery epDeviceDescriptor 0
  filter := identifies device
  maxTries := 5

/-- `readings_t::insert`: a reading with the same time stamp stays. -/
def insertReading (reading : Reading) (readings : Readings) : Readings :=
  if reading.1 ∈ readings.map Prod.fst then readings
  else readings.orderedInsert (fun a b => a.1 ≤ b.1) reading

/-- The time stamp of a reading, and how `interrogator.send_request` goes: the time, whether
`socket.send` returns, and how much room a vector that grows gets. -/
structure Arrival where
  timestamp : Nat
  now : Int
  sendOk : Bool
  spare : Nat

/-- `accept_packet`, where there is no sensor. -/
def keep (source : Address) (eid : UInt32) (value : Double) (arrival : Arrival) (p : Logging) :
    Logging :=
  let sensorId := getSensorId env source eid
  let p :=
    match p.user.newSensorBacklog sensorId with
    | some _ => p
    | none =>
      let p := { p with user := p.user.setBacklog sensorId (eid, (p.user.backlog sensorId).2) }
      p.ask (callbacks env) ⟨sensorId, source⟩ (nameQuery source) arrival.now arrival.sendOk
        arrival.spare
  let (eid, readings) := p.user.backlog sensorId
  let readings := insertReading (arrival.timestamp, value) readings
  { p with user := p.user.setBacklog sensorId (eid, readings) }

def acceptPacket (source : Address) (value : Double) (eid : UInt32) (arrival : Arrival)
    (p : Logging) : Logging :=
  let sensorId := getSensorId env source eid
  let reading := (arrival.timestamp, value)
  let p := { p with user := p.user.accept sensorId reading }
  match p.user.find sensorId with
  | some sensor => { p with user := p.user.recordReading sensor reading }
  | none => keep env source eid value arrival p

/-- The packets that `visit` makes something of. -/
def reading : Packet → Option (UInt32 × Double)
  | .info eid (.bool v) _ => some (eid, .whole v.toNat)
  | .info eid (.uint8 v) _ => some (eid, .whole v.toNat)
  | .info eid (.uint32 v) _ => some (eid, .whole v.toNat)
  | .info eid (.float v) _ => some (eid, .single v)
  | .info eid (.timestamp v) _ => some (eid, .whole v.totalSeconds)
  | _ => none

/-- `operator()`. -/
def onPacket (source : Address) (packet : Packet) (arrival : Arrival) (p : Logging) : Logging :=
  match reading packet with
  | some (eid, value) => acceptPacket env source value eid arrival p
  | none => p

/-! ## Runs -/

/-- A packet comes, or the interrogator takes a step. -/
inductive Step
  | packet (source : Address) (packet : Packet) (arrival : Arrival)
  | io (a : DeviceInterrogator.Step Packet Address Address)

/-- One thing at a time, and nobody else asks the interrogator for anything. -/
def step (a : Step) (p : Logging) : Logging :=
  match a with
  | .packet source packet arrival =>
    if p.info.Idle then onPacket env source packet arrival p else p
  | .io a => if a.passive then p.io (callbacks env) a else p

/-- Before the first packet, with the sensors in the store. -/
def init (sensors : List Sensor) : Logging where
  info := .init
  bound := []
  user := ⟨fun _ => none, fun _ => none, sensors, [], [], []⟩

/-! ## What becomes of the readings -/

namespace Logger

variable (s : Logger) (id : List UInt8)

def acceptedOf : List Reading := (s.accepted.filter fun r => r.1 = id).map Prod.snd

def recordedOf : List Reading := (s.readings.filter fun r => r.1.externalId = id).map Prod.snd

/-- How many readings of a sensor were reported as dropped. -/
def reportedOf : Nat := ((s.cerr.filter fun r => r.1 = id).map Prod.snd).sum

/-- Every reading that was accepted is recorded, in the backlog, or one of those reported. -/
def Accounted : Prop := ∃ dropped : List Reading, dropped.length = s.reportedOf id ∧
  (s.acceptedOf id).Perm (s.recordedOf id ++ (s.backlog id).2 ++ dropped)

/-- Every reading that was accepted is recorded, with that unit, or one of those reported. -/
def Recorded (unit : List UInt8) : Prop :=
  (∃ dropped : List Reading, dropped.length = s.reportedOf id ∧
    (s.acceptedOf id).Perm (s.recordedOf id ++ dropped)) ∧
  ∀ r ∈ s.readings, r.1.externalId = id → r.1.unit = unit

end Logger

/-- A query for the name of a sensor is outstanding. -/
def Outstanding (p : Logging) (sensorId : List UInt8) : Prop :=
  ∃ n source eid, p.Pending n ⟨sensorId, source⟩ ∧
    p.info.requests[n]? = some (nameQuery source) ∧ sensorId = getSensorId env source eid

/-- Where there is a backlog, the name is asked for; when it has been received, the readings are
recorded with the unit of their endpoint; none is ever lost. -/
structure Keeps (p : Logging) : Prop where
  asked : ∀ id, p.user.newSensorBacklog id ≠ none → Outstanding env p id
  recorded : ∀ source eid sensor, p.user.sensorCache (getSensorId env source eid) = some sensor →
    p.user.Recorded (getSensorId env source eid) (eidToUnit env eid)
  accounted : ∀ id, p.user.Accounted id

/-- The condition on a step: a reading of a sensor that is not found comes to a backlog that has no
reading with its time stamp, or the socket takes the query. -/
def Taken (p : Logging) : Step → Prop
  | .packet source packet arrival => p.info.Idle → ∀ eid value, reading packet = some (eid, value) →
    p.user.find (getSensorId env source eid) = none →
    match p.user.newSensorBacklog (getSensorId env source eid) with
    | some backlog => arrival.timestamp ∉ backlog.2.map Prod.fst
    | none => arrival.sendOk = true
  | .io _ => True

end Hexabus.Host.Hexalog
