import Hexabus.Firmware.UdpHandler

/-!
# What the firmware does with a datagram

The branch of `udphandler` for new data, with `check_crc`, `handle_write` and
`handle_info`. The handler looks at the network buffer only, and never asks how many
bytes of it the datagram has. What it decides is an action; carrying it out is a
function of the device.
-/

namespace Hexabus.Firmware

open Lib.Bytes Lib.Store

/-- What the network stack knows of a datagram beside its bytes: the sender, and
whether it came to the group. -/
structure Arrival where
  srcIp : Block 16
  srcPort : UInt16
  toGroup : Bool

/-- What `udphandler` does. -/
inductive Action
  | ignore
  /-- `udp_handler_send_error` -/
  | reply (code : ErrorCode)
  /-- `endpoint_write` -/
  | write (envelope : HxbEnvelope)
  /-- `udp_handler_send_generated` with `generate_query_response` -/
  | query (eid : UInt32)
  /-- `udp_handler_send_generated` with `generate_epquery_response` -/
  | epquery (eid : UInt32)
  /-- `sm_handle_input` -/
  | input (envelope : HxbEnvelope)
  /-- `updateDatetime` -/
  | datetime (envelope : HxbEnvelope)
  deriving DecidableEq

/-- `HXB_ERR_INTERNAL`. -/
def hxbErrInternal : UInt8 := 0x80

/-- `if(!is_broadcast && !(err & HXB_ERR_INTERNAL))`: the error is sent back. -/
def replyError (isBroadcast : Bool) (err : ErrorCode) : Action :=
  if isBroadcast = false ∧ err.code &&& hxbErrInternal = 0 then .reply err else .ignore

def isBroadcast (arrival : Arrival) (packet : Mem) : Bool :=
  packet HxbPacket.type = PacketType.info.code && arrival.toGroup

/-- The envelope of `handle_write` and `handle_info`. -/
def envelopeOf (arrival : Arrival) (packet : Mem) (value : HxbValue) : HxbEnvelope :=
  ⟨arrival.srcIp, arrival.srcPort, packetEid packet, value⟩

/-- `udphandler` on new data; `value` is the uninitialised local record. -/
def udphandler (arrival : Arrival) (value : HxbValue) (packet : Mem) : Action :=
  if isHexabusPacket packet = false then .ignore
  else if checkCrc packet ≠ .success then
    replyError (isBroadcast arrival packet) (checkCrc packet)
  else
    let (err, value) := extractValue packet value
    match PacketType.ofCode (packet HxbPacket.type) with
    | some .write =>
      if err ≠ .success then replyError (isBroadcast arrival packet) err
      else .write (envelopeOf arrival packet value)
    | some .query => .query (packetEid packet)
    | some .epquery => .epquery (packetEid packet)
    | some .info =>
      if err ≠ .success then .ignore
      else if packet HxbPacket.datatype ≠ DataType.datetime.code then
        .input (envelopeOf arrival packet value)
      else .datetime (envelopeOf arrival packet value)
    | some .error | some .epinfo | none =>
      replyError (isBroadcast arrival packet) .unexpectedPacket

/-- What an action leaves behind: the packet that is sent, the device, and what the
state machine and the clock are handed. -/
structure Effect (σ : Type) where
  reply : Option Mem
  device : σ
  inputs : List HxbEnvelope
  datetimes : List HxbEnvelope

/-- The errors of a carried out action go to the sender. -/
def sentBack (err : ErrorCode) : Option Mem :=
  if err.code &&& hxbErrInternal = 0 then some (errorPacket err) else none

/-- Carrying out an action; the send buffer and the value record are uninitialised. -/
def Action.perform {σ : Type} (chain : EndpointChain σ) (eeprom : Mem) (buffer : Mem)
    (value : HxbValue) (s : σ) : Action → Effect σ
  | .ignore => ⟨none, s, [], []⟩
  | .reply code => ⟨some (errorPacket code), s, [], []⟩
  | .write envelope =>
    let (err, s) := chain.endpointWrite envelope.eid envelope s
    ⟨if err ≠ .success then sentBack err else none, s, [], []⟩
  | .query eid =>
    let (err, packet) := generateQueryResponse chain s buffer value eid
    ⟨if err ≠ .success then sentBack err else some packet, s, [], []⟩
  | .epquery eid =>
    let (err, packet) := generateEpqueryResponse chain eeprom buffer eid
    ⟨if err ≠ .success then sentBack err else some packet, s, [], []⟩
  | .input envelope => ⟨none, s, [envelope], []⟩
  | .datetime envelope => ⟨none, s, [], [envelope]⟩

/-! ## The bytes the handler looks at -/

variable {m m₁ m₂ : Mem}

theorem getU32_congr {off : Nat} (h : ∀ i, off ≤ i → i < off + 4 → m₁ i = m₂ i) :
    getU32 m₁ off = getU32 m₂ off := by
  unfold getU32
  rw [readBlock_congr h]

/-- The header of a value packet ends behind the data type, every other announced
struct behind the type. -/
theorem dataLen_congr (htype : m₁ HxbPacket.type = m₂ HxbPacket.type)
    (hdatatype : m₁ HxbPacket.type = PacketType.info.code ∨
      m₁ HxbPacket.type = PacketType.write.code → m₁ HxbPacket.datatype = m₂ HxbPacket.datatype) :
    dataLen m₁ = dataLen m₂ := by
  unfold dataLen
  rw [← htype]
  cases ht : PacketType.ofCode (m₁ HxbPacket.type) with
  | none => rfl
  | some t =>
    have hcode := PacketType.eq_code_of_ofCode ht
    cases t with
    | info => rw [hdatatype (.inl hcode)]
    | write => rw [hdatatype (.inr hcode)]
    | error => rfl
    | query => rfl
    | epinfo => rfl
    | epquery => rfl

/-- Every struct has room for a header and a checksum. -/
theorem le_dataLen {n : Nat} (h : dataLen m = some n) : 9 ≤ n := by
  unfold dataLen at h
  split at h
  · cases h; decide
  · split at h <;> cases h <;> decide
  · split at h <;> cases h <;> decide
  · cases h; decide
  · cases h; decide
  · cases h; decide
  · cases h

end Hexabus.Firmware
