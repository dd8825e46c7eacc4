import Hexabus.Firmware.Registry
import Hexabus.Lib.Chain

/-!
# Registering endpoints

`_endpoint_register` and the loops of `endpoint_registry.c` over the links in memory.
Every `ENDPOINT_REGISTER` of the source has a static link of its own, which is linked
again on every call. Only a firmware built with `ENDPOINT_REGISTRY_DEBUG` looks for the
endpoint first.
-/

namespace Hexabus.Firmware

open Lib.Bytes Lib.Store Lib.Chain

/-! ## The modules and their endpoints -/

/-- The places of the source with an `ENDPOINT_REGISTER`. Each stands for the descriptor
that is registered there and for the static link of that place. -/
inductive Site
  | power | energyTotal | energy | relay | shutter | humidity | presenceDetector
  | hexapushPressed | hexapushClicked | temperature | hexonoffSet | hexonoffToggle
  | analogread | lightsensor | pressure | irReceiver
  | smUploadControl | smUploadReceiver | smUploadAcknack | smReset
  | heaterHot | heaterCold | sysbutton | hexasenseState
  deriving DecidableEq, Repr

namespace Site

def eid : Site → UInt32
  | power => 2
  | energyTotal => 7
  | energy => 8
  | relay => 1
  | shutter => 23
  | humidity => 5
  | presenceDetector => 26
  | hexapushPressed => 24
  | hexapushClicked => 25
  | temperature => 3
  | hexonoffSet => 27
  | hexonoffToggle => 28
  | analogread => 22
  | lightsensor => 29
  | pressure => 6
  | irReceiver => 30
  | smUploadControl => 9
  | smUploadReceiver => 10
  | smUploadAcknack => 11
  | smReset => 12
  | heaterHot => 44
  | heaterCold => 45
  | sysbutton => 4
  | hexasenseState => 46

def datatype : Site → DataType
  | power | irReceiver => .uint32
  | energyTotal | energy | humidity | temperature | analogread | lightsensor | pressure
  | heaterHot | heaterCold => .float
  | relay | smUploadAcknack | sysbutton => .bool
  | shutter | presenceDetector | hexapushPressed | hexapushClicked | hexonoffSet
  | hexonoffToggle | smUploadControl | hexasenseState => .uint8
  | smUploadReceiver => .bytes65
  | smReset => .bytes16

def name : Site → String
  | power => "Power Meter"
  | energyTotal => "Energy Meter Total"
  | energy => "Energy Meter"
  | relay => "Main Switch"
  | shutter => "Window Shutter"
  | humidity => "Humidity sensor"
  | presenceDetector => "Presence Detector"
  | hexapushPressed => "Pressed Hexapush buttons"
  | hexapushClicked => "Clicked Hexapush buttons"
  | temperature => "Temperature Sensor"
  | hexonoffSet => "Hexonoff, your friendly output setter."
  | hexonoffToggle => "Hexonoff, your friendly output toggler."
  | analogread => "Analog reader"
  | lightsensor => "Lightsensor"
  | pressure => "Barometric pressure sensor"
  | irReceiver => "IR remote control receiver"
  | smUploadControl => "Statemachine Control"
  | smUploadReceiver => "Statemachine Upload Receiver"
  | smUploadAcknack => "Statemachine Upload ACK/NAK"
  | smReset => "Statemachine emergency-reset endpoint."
  | heaterHot => "Heater inflow temperature"
  | heaterCold => "Heater outflow temperature"
  | sysbutton => "Hexabus Socket Pushbutton"
  | hexasenseState => "HexaSense button state"

/-- Whether the descriptor has a write handler. -/
def writable : Site → Bool
  | energy | relay | shutter | presenceDetector | hexonoffSet | hexonoffToggle
  | smUploadControl | smUploadReceiver => true
  | _ => false

/-- No two descriptors have the same endpoint id. -/
theorem eid_injective {s t : Site} (h : s.eid = t.eid) : s = t := by
  cases s <;> cases t <;> first | rfl | exact absurd h (by decide)

/-- Every descriptor passes the checks of the debug build. -/
theorem registrable (s : Site) : s.eid % 32 ≠ 0 ∧ s.datatype ≠ .undefined := by
  cases s <;> decide

end Site

/-- The handlers of the endpoints, on the state `σ` of the device. -/
structure Handlers (σ : Type) where
  read : Site → HxbValue → σ → ErrorCode × HxbValue
  write : Site → HxbEnvelope → σ → ErrorCode × σ

def Site.descriptor {σ : Type} (handlers : Handlers σ) (s : Site) : EndpointDescriptor σ where
  datatype := s.datatype.code
  eid := s.eid
  name := s.name.toUTF8.toList
  read := handlers.read s
  write := if s.writable then some (handlers.write s) else none

/-- What the preprocessor decides: `ENDPOINT_REGISTRY_DEBUG`, and which of the
`ENDPOINT_REGISTER`s are compiled. -/
structure Config where
  debug : Bool
  enabled : Site → Bool

/-- The modules with an init function that registers endpoints. -/
inductive Module
  | relay | metering | shutter | humidity | presenceDetector | hexapush | temperature
  | hexonoff | analogread | pressure | irReceiver | smUpload | pt100 | buttonHandlers
  | hexasense
  deriving DecidableEq, Repr

/-- The registrations of an init function, in its order. -/
def Module.sites : Module → List Site
  | relay => [.relay]
  | metering => [.power, .energyTotal, .energy]
  | shutter => [.shutter]
  | humidity => [.humidity]
  | presenceDetector => [.presenceDetector]
  | hexapush => [.hexapushPressed, .hexapushClicked]
  | temperature => [.temperature]
  | hexonoff => [.hexonoffSet, .hexonoffToggle]
  | analogread => [.analogread, .lightsensor]
  | pressure => [.pressure]
  | irReceiver => [.irReceiver]
  | smUpload => [.smUploadControl, .smUploadReceiver, .smUploadAcknack, .smReset]
  | pt100 => [.heaterHot, .heaterCold]
  | buttonHandlers => [.sysbutton]
  | hexasense => [.hexasenseState]

/-- What the firmware does with the registry: it calls a module's init function (so does
`metering_set_s0_calibration`), or registers a single endpoint. -/
inductive Call
  | init (m : Module)
  | register (s : Site)

def Call.sites (config : Config) : Call → List Site
  | init m => m.sites.filter config.enabled
  | register s => [s].filter config.enabled

/-! ## The registry -/

/-- `struct endpoint_registry_entry`. Links and descriptors are both named by the place
in the source. -/
structure RegistryEntry where
  descriptor : Option Site
  next : Option Site

/-- `_endpoint_chain` and the static links. -/
structure LinkedRegistry where
  endpointChain : Option Site
  entries : Site → RegistryEntry

namespace LinkedRegistry

/-- `static struct endpoint_registry_entry _endpoint_entry = { 0 }` everywhere. -/
def empty : LinkedRegistry := ⟨none, fun _ => ⟨none, none⟩⟩

def next (r : LinkedRegistry) (link : Site) : Option Site := (r.entries link).next

/-- `descriptor_eid(entry) == eid`. -/
def hasEid (r : LinkedRegistry) (eid : UInt32) (link : Site) : Bool :=
  (r.entries link).descriptor.map Site.eid == some eid

/-- The last three statements of `_endpoint_register`. -/
def push (r : LinkedRegistry) (ep link : Site) : LinkedRegistry where
  endpointChain := some link
  entries := Function.update r.entries link ⟨some ep, r.endpointChain⟩

/-- `_endpoint_register`, `none` while the loop over the links is still going on after
`fuel` of them. Every descriptor has a name and a read handler. -/
def endpointRegister (config : Config) (fuel : Nat) (ep link : Site) (r : LinkedRegistry) :
    Option LinkedRegistry :=
  if config.debug then
    if ep.eid % 32 = 0 then some r
    else match searchChain r.next (r.hasEid ep.eid) fuel r.endpointChain with
      | none => none
      | some (some _) => some r
      | some none => if ep.datatype = .undefined then some r else some (r.push ep link)
  else some (r.push ep link)

/-- `ENDPOINT_REGISTER`, one after the other. -/
def registerAll (config : Config) (fuel : Nat) (sites : List Site) (r : LinkedRegistry) :
    Option LinkedRegistry :=
  sites.foldlM (fun r s => r.endpointRegister config fuel s s) r

/-! ## The lookups, in memory -/

section Lookups

variable {σ : Type} (handlers : Handlers σ) (r : LinkedRegistry) (fuel : Nat)

/-- `find_descriptor`. -/
def findDescriptor (eid : UInt32) : Option (Option (EndpointDescriptor σ)) :=
  (searchChain r.next (r.hasEid eid) fuel r.endpointChain).map fun found =>
    (found.bind fun link => (r.entries link).descriptor).map (Site.descriptor handlers)

/-- One round of the loop of `synthesize_read_m32`. -/
def synthesizeBit (eid mask : UInt32) (link : Site) : UInt32 :=
  match (r.entries link).descriptor with
  | some ep => if eid ≤ ep.eid ∧ ep.eid < eid + 32 then mask ||| (1 <<< (ep.eid - eid)) else mask
  | none => mask

/-- `synthesize_read_m32`. -/
def synthesizeReadM32 (eid : UInt32) (value : HxbValue) : Option HxbValue :=
  (foldChain r.next (r.synthesizeBit eid) fuel 1 r.endpointChain).map fun mask =>
    { value with datatype := DataType.uint32.code }.setU32 mask

/-- `endpoint_get_datatype`. -/
def endpointGetDatatype (eid : UInt32) : Option UInt8 :=
  if eid % 32 = 0 then some DataType.uint32.code
  else (r.findDescriptor handlers fuel eid).map fun
    | some ep => ep.datatype
    | none => DataType.undefined.code

/-- `endpoint_write`. -/
def endpointWrite (eid : UInt32) (env : HxbEnvelope) (s : σ) : Option (ErrorCode × σ) :=
  if eid % 32 = 0 then some (.writeReadonly, s)
  else (r.findDescriptor handlers fuel eid).map fun
    | some ep =>
      match ep.write with
      | none => (.writeReadonly, s)
      | some write => if ep.datatype ≠ env.value.datatype then (.datatype, s) else write env s
    | none => (.unknownEid, s)

/-- `endpoint_read`. -/
def endpointRead (eid : UInt32) (value : HxbValue) (s : σ) : Option (ErrorCode × HxbValue) :=
  if eid % 32 = 0 then (r.synthesizeReadM32 fuel eid value).map fun value => (.success, value)
  else (r.findDescriptor handlers fuel eid).map fun
    | some ep => ep.read { value with datatype := ep.datatype } s
    | none => (.unknownEid, value)

/-- `endpoint_get_name`. -/
def endpointGetName (eeprom : Mem) (eid : UInt32) (m : Mem) (buffer len : Nat) :
    Option (ErrorCode × Mem) :=
  if eid % 32 = 0 then
    let len := if len ≥ EE.domainNameSize then EE.domainNameSize - 1 else len
    let m := writeBlock m buffer (readBlock eeprom EE.domainName len)
    some (.success, setU8 m (buffer + EE.domainNameSize) 0)
  else (r.findDescriptor handlers fuel eid).map fun
    | some ep => (.success, writeBlock m buffer (EndpointChain.strncpy ep.name len))
    | none => (.unknownEid, m)

end Lookups

end LinkedRegistry

end Hexabus.Firmware
