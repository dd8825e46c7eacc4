import Hexabus.Host.Filtering

/-!
# A device of the host library

`device.cpp` and the endpoint classes of `device.hpp`: what a device does with a packet from
one of its unicast sockets. The handlers of the application return, and may change its state;
handlers of reads do not. The network takes every packet that is sent. The loops of
`_handle_descquery` look at a map entry before they ask for the end of the map; what they
find there does not matter.
-/

namespace Hexabus.Host

open Lib.Bytes Filtering

/-! ## Turns -/

/-- What a device does on a packet. -/
inductive Action
  /-- `socket->send(p, from)`. -/
  | sent (p : Packet)
  /-- A handler of an endpoint's write signal is called. -/
  | wrote (eid : UInt32) (slot : Nat) (value : Value)
  /-- `_handle_smupload` is called. -/
  | smUpload
  /-- The handlers of the device name are called. -/
  | named (name : List UInt8)

/-- What has been done on a packet; an exception, or a read out of bounds, ends it. -/
structure Turn (σ : Type) where
  state : σ
  log : List Action
  stopped : Option Thrown

namespace Turn

variable {σ : Type}

def start (s : σ) : Turn σ := ⟨s, [], none⟩

/-- `send`. -/
def send (p : Packet) (s : σ) : Turn σ := ⟨s, [.sent p], none⟩

/-- A packet is constructed and sent. -/
def sendOf (p : Except Thrown Packet) (s : σ) : Turn σ :=
  match p with
  | .ok p => send p s
  | .error e => ⟨s, [], some e⟩

/-- The next statement or slot. -/
def next (t : Turn σ) (f : σ → Turn σ) : Turn σ :=
  match t.stopped with
  | some _ => t
  | none => { f t.state with log := t.log ++ (f t.state).log }

/-- The packets sent. -/
def sent (t : Turn σ) : List Packet :=
  t.log.filterMap fun
    | .sent p => some p
    | _ => none

/-- The calls of write handlers. -/
def wrote (t : Turn σ) : List (UInt32 × Nat × Value) :=
  t.log.filterMap fun
    | .wrote eid slot value => some (eid, slot, value)
    | _ => none

/-- Whether the upload handler is called. -/
def uploads (t : Turn σ) : Bool :=
  t.log.any fun
    | .smUpload => true
    | _ => false

end Turn

/-! ## Endpoints -/

/-- What a read handler returns: a string, of any length, or a value of another type. -/
inductive Readout
  | text (bytes : List UInt8)
  | value (v : Value)

def Readout.datatype : Readout → DataType
  | .text _ => .string128
  | .value v => v.datatype

/-- The constructor of `InfoPacket<T>` on a value that was read. -/
def Readout.info (eid : UInt32) : Readout → Except Thrown Packet
  | .text bytes => do
    let s ← ValueString.make bytes
    return .info eid (.string s) 0
  | .value v => .ok (.info eid v 0)

/-- `TypedEndpointFunctions<T>`, with the handlers connected to its signals. -/
structure EndpointFunctions (σ : Type) where
  eid : UInt32
  name : List UInt8
  datatype : DataType
  reads : List (σ → Readout)
  writes : List (Value → σ → Bool × σ)
  reads_datatype : ∀ read ∈ reads, ∀ s, (read s).datatype = datatype

namespace EndpointFunctions

variable {σ : Type} (ep : EndpointFunctions σ)

/-- `handle_query`: a signal returns what its last handler returns. -/
def handleQuery (s : σ) : Except Thrown Packet :=
  match ep.reads.getLast? with
  | none => .ok (.error ErrorCode.unknownEid.code 0)
  | some read => (read s).info ep.eid

/-- `_write(value)` from slot number `i` on, with what the slot before has returned; the signal
returns an optional, which is set when it has a slot. -/
def runWrites (eid : UInt32) (value : Value) :
    Nat → Option Bool → List (Value → σ → Bool × σ) → σ → Option Bool × Turn σ
  | _, last, [], s => (last, Turn.start s)
  | i, _, write :: writes, s =>
    let (result, s) := write value s
    let (last, t) := runWrites eid value (i + 1) (some result) writes s
    (last, { t with log := .wrote eid i value :: t.log })

/-- `HXB_ERR_INTERNAL`. -/
def errInternal : UInt8 := 0x80

/-- `handle_write`. An optional that is set is true as a condition, whatever it holds. -/
def handleWrite (p : Packet) (s : σ) : UInt8 × Turn σ :=
  match p with
  | .write _ value _ =>
    if value.datatype = ep.datatype then
      match ep.writes with
      | [] => (ErrorCode.writeReadonly.code, Turn.start s)
      | writes =>
        let (result, t) := runWrites ep.eid value 0 none writes s
        (if result.isSome then ErrorCode.success.code else errInternal, t)
    else (errInternal, Turn.start s)
  | _ => (errInternal, Turn.start s)

end EndpointFunctions

/-! ## The device -/

/-- The state of the application, and `_sm_state`. -/
structure DeviceState (α : Type) where
  app : α
  smState : UInt8

/-- A device, with the endpoints that the application adds in turn and the handlers of its
name. -/
structure Device (α : Type) where
  endpoints : List (EndpointFunctions (DeviceState α))
  readName : List (DeviceState α → List UInt8)
  writeName : List (List UInt8 → DeviceState α → DeviceState α)

def epSmControl : UInt32 := 9
def epSmUpReceiver : UInt32 := 10
def epSmUpAcknak : UInt32 := 11

namespace Device

variable {α : Type}

/-- The endpoint `Statemachine control`. -/
def smControl : EndpointFunctions (DeviceState α) where
  eid := epSmControl
  name := "Statemachine control".toUTF8.toList
  datatype := .uint8
  reads := [fun s => .value (.uint8 s.smState)]
  writes := [fun value s =>
    match value with
    | .uint8 v => (true, { s with smState := v })
    | _ => (true, s)]
  reads_datatype := fun read hread s => by
    rw [List.mem_singleton.mp hread]
    rfl

/-- The endpoint `Statemachine upload receiver`, with `dummy_write_handler`. -/
def smUpReceiver : EndpointFunctions (DeviceState α) where
  eid := epSmUpReceiver
  name := "Statemachine upload receiver".toUTF8.toList
  datatype := .bytes65
  reads := []
  writes := [fun _ s => (true, s)]
  reads_datatype := fun _ hread => absurd hread List.not_mem_nil

variable (dev : Device α)

/-- `_endpoints.find`: the constructor adds the first two endpoints, and an endpoint whose
EID is taken is not inserted. -/
def find (eid : UInt32) : Option (EndpointFunctions (DeviceState α)) :=
  (smControl :: smUpReceiver :: dev.endpoints).find? fun ep => ep.eid = eid

/-- The keys of `_endpoints`, in their order. -/
def keys : List UInt32 :=
  ((smControl :: smUpReceiver :: dev.endpoints).map EndpointFunctions.eid).mergeSort

/-! ## The handlers -/

/-- `_handle_query`. -/
def handleQuery (p : Packet) (s : DeviceState α) : Turn (DeviceState α) :=
  match p with
  | .query eid _ =>
    match dev.find eid with
    | some ep => Turn.sendOf (ep.handleQuery s) s
    | none => Turn.send (.error ErrorCode.unknownEid.code 0) s
  | _ => Turn.start s

/-- `_handle_write`. -/
def handleWrite (p : Packet) (s : DeviceState α) : Turn (DeviceState α) :=
  match p.eid? with
  | none => Turn.start s
  | some eid =>
    match dev.find eid with
    | some ep =>
      let (res, t) := ep.handleWrite p s
      if res ≠ ErrorCode.success.code ∧ res < EndpointFunctions.errInternal then
        t.next (Turn.send (.error res 0))
      else t
    | none => Turn.send (.error ErrorCode.unknownEid.code 0) s

/-- The constructor of `EndpointInfoPacket`. -/
def endpointInfo (eid : UInt32) (datatype : UInt8) (name : List UInt8) : Except Thrown Packet := do
  let s ← ValueString.make name
  return .endpointInfo eid datatype s 0

/-- `_handle_epquery`. -/
def handleEpquery (p : Packet) (s : DeviceState α) : Turn (DeviceState α) :=
  match p.eid? with
  | none => Turn.start s
  | some eid =>
    match dev.find eid with
    | some ep => Turn.sendOf (endpointInfo eid ep.datatype.code ep.name) s
    | none => Turn.send (.error ErrorCode.unknownEid.code 0) s

/-- The bits of `_handle_descquery`. -/
def descGroup (eid : UInt32) : UInt32 :=
  ((dev.keys.dropWhile (· < eid)).takeWhile (· < eid + 32)).foldl
    (fun group key => group ||| 1 <<< (key - eid)) 1

/-- `_handle_descquery`. -/
def handleDescquery (p : Packet) (s : DeviceState α) : Turn (DeviceState α) :=
  match p.eid? with
  | none => Turn.start s
  | some eid => Turn.send (.info eid (.uint32 (dev.descGroup eid)) 0) s

/-- The name that the device tells. -/
def deviceName (s : DeviceState α) : List UInt8 :=
  match dev.readName.getLast? with
  | none => []
  | some read => read s

/-- `_handle_descepquery`. -/
def handleDescepquery (p : Packet) (s : DeviceState α) : Turn (DeviceState α) :=
  match p.eid? with
  | none => Turn.start s
  | some eid => Turn.sendOf (endpointInfo eid DataType.uint32.code (dev.deviceName s)) s

/-- The name in an upload chunk; without a zero behind it the loop reads `data[65]`. -/
def uploadedName (data : Block 65) : Except Thrown (List UInt8) :=
  let name := (data.val.drop 1).takeWhile (· ≠ 0)
  if name.length = 64 then .error .undefinedRead else .ok name

def acknak (value : Bool) (s : DeviceState α) : Turn (DeviceState α) :=
  Turn.send (.info epSmUpAcknak (.bool value) 0) s

/-- `_write(name)`. -/
def nameWritten (name : List UInt8) (s : DeviceState α) : Turn (DeviceState α) :=
  if name = [] then Turn.start s
  else ⟨dev.writeName.foldl (fun s write => write name s) s, [.named name], none⟩

/-- `_handle_smupload`. -/
def handleSmupload (p : Packet) (s : DeviceState α) : Turn (DeviceState α) :=
  let entered : Turn (DeviceState α) := ⟨s, [.smUpload], none⟩
  match p with
  | .write _ (.bytes65 data) _ =>
    if data.val.head? = some 0 then
      match uploadedName data with
      | .error e => { entered with stopped := some e }
      | .ok name => (entered.next (dev.nameWritten name)).next (acknak true)
    else entered.next (acknak true)
  | _ => entered.next (acknak false)

/-! ## The slots -/

/-- `::isWrite`, a function. -/
def isWrite : Predicate
  | .write .. => true
  | _ => false

/-- `filtering::eid() % 32 > 0`. -/
def eidInGroup : PacketFilter Bool :=
  binary (fun a b => decide (a > b)) (binary (· % ·) eid (constant 32)) (constant (0 : UInt32))

/-- `filtering::eid() % 32 == 0`. -/
def eidOfGroup : PacketFilter Bool :=
  binary (fun a b => decide (a = b)) (binary (· % ·) eid (constant 32)) (constant (0 : UInt32))

/-- `filtering::eid() == EP_SM_UP_RECEIVER`. -/
def eidOfUpload : PacketFilter Bool :=
  binary (fun a b => decide (a = b)) eid (constant epSmUpReceiver)

/-- The slots of a unicast socket, in the order in which they are connected. -/
def slots : List (PacketFilter Bool × (Packet → DeviceState α → Turn (DeviceState α))) := [
  (Filtering.and isQuery eidInGroup, dev.handleQuery),
  (constantAnd isWrite eidInGroup, dev.handleWrite),
  (Filtering.and isEndpointQuery eidInGroup, dev.handleEpquery),
  (Filtering.and isQuery eidOfGroup, dev.handleDescquery),
  (Filtering.and isEndpointQuery eidOfGroup, dev.handleDescepquery),
  (constantAnd isWrite eidOfUpload, dev.handleSmupload)]

/-- A packet is received on a unicast socket. -/
def receive (p : Packet) (s : DeviceState α) : Turn (DeviceState α) :=
  dev.slots.foldl (fun t slot => if passes slot.1 p then t.next (slot.2 p) else t) (Turn.start s)

end Device

end Hexabus.Host
