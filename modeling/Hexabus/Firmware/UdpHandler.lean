import Hexabus.Firmware.Packet
import Hexabus.Firmware.Registry

/-!
# The packets the firmware builds

The generators that fill in a packet buffer before it is sent: replies to
queries and endpoint queries, error packets, the broadcast of a value and the
acknowledgement of an upload. The value record a generator hands to
`endpoint_read` points into the packet, so what a handler stores through the
pointer is already in place. The broadcast also hands its value to the device's
own state machine, which leaves the buffer alone.
-/

namespace Hexabus.Firmware

open Lib.Bytes Lib.Store

variable {σ : Type} (chain : EndpointChain σ) (eeprom : Mem) (s : σ)

/-- The packet of `udp_handler_send_error`: a designated initializer, so the other
bytes are zero. -/
def errorPacket (code : ErrorCode) : Mem :=
  setU8 (setU8 (fun _ => 0) HxbPacket.type PacketType.error.code) HxbPacket.errorCode code.code

/-- The switch of `generate_query_response`. -/
def storeResponse (buffer : Mem) (value : HxbValue) : ErrorCode × Mem :=
  match DataType.ofCode value.datatype with
  | some .bool | some .uint8 => (.success, setU8 buffer HxbPacket.value value.v_u8)
  | some .uint32 | some .timestamp => (.success, setU32 buffer HxbPacket.value value.v_u32)
  | some .datetime => (.success, writeBlock buffer HxbPacket.value value.v_datetime.toBytes)
  | some .float => (.success, setU32 buffer HxbPacket.value value.v_float)
  | some .string128 => (.success, setU8 buffer (HxbPacket.value + stringPacketBufferLength) 0)
  | some .bytes65 | some .bytes16 => (.success, buffer)
  | some .undefined | none => (.datatype, buffer)

/-- `generate_query_response`; `value` is the uninitialised local record. -/
def generateQueryResponse (buffer : Mem) (value : HxbValue) (eid : UInt32) : ErrorCode × Mem :=
  let buffer := setU8 buffer HxbPacket.type PacketType.info.code
  let buffer := setU32 buffer HxbPacket.eid eid
  let (err, value) := chain.endpointRead eid { value with blob := [] } s
  let buffer := writeBlock buffer HxbPacket.value value.blob
  if err ≠ .success then (err, buffer)
  else storeResponse (setU8 buffer HxbPacket.datatype value.datatype) value

/-- `generate_epquery_response`. -/
def generateEpqueryResponse (buffer : Mem) (eid : UInt32) : ErrorCode × Mem :=
  let buffer := setU8 buffer HxbPacket.type PacketType.epinfo.code
  let buffer := setU32 buffer HxbPacket.eid eid
  let buffer := setU8 buffer HxbPacket.datatype (chain.endpointGetDatatype eid)
  if buffer HxbPacket.datatype = DataType.undefined.code then (.unknownEid, buffer)
  else
    let (err, buffer) := chain.endpointGetName eeprom eid buffer HxbPacket.value
      stringPacketBufferLength
    let buffer := setU8 buffer (HxbPacket.value + stringPacketBufferLength) 0
    if err ≠ .success then (err, buffer) else (.success, buffer)

/-- The switch of `broadcast_generator`: no terminator is forced on a string, and an
unknown data type is only logged. -/
def storeBroadcast (buffer : Mem) (value : HxbValue) : Mem :=
  match DataType.ofCode value.datatype with
  | some .bool | some .uint8 => setU8 buffer HxbPacket.value value.v_u8
  | some .uint32 | some .timestamp => setU32 buffer HxbPacket.value value.v_u32
  | some .float => setU32 buffer HxbPacket.value value.v_float
  | some .bytes16 | some .string128 | some .bytes65 => buffer
  | some .datetime => writeBlock buffer HxbPacket.value value.v_datetime.toBytes
  | some .undefined | none => buffer

/-- `broadcast_generator`. -/
def broadcastGenerator (buffer : Mem) (value : HxbValue) (eid : UInt32) : ErrorCode × Mem :=
  let (err, value) := chain.endpointRead eid { value with blob := [] } s
  let buffer := writeBlock buffer HxbPacket.value value.blob
  if err ≠ .success then (err, buffer)
  else
    let buffer := setU8 buffer HxbPacket.type PacketType.info.code
    let buffer := setU32 buffer HxbPacket.eid eid
    let buffer := setU8 buffer HxbPacket.datatype value.datatype
    (.success, storeBroadcast buffer value)

/-- `EP_SM_UP_ACKNAK`. -/
def epSmUpAcknak : UInt32 := 11

/-- `send_acknack`. -/
def sendAcknack (packet : Mem) (result : Bool) : Mem :=
  let packet := setU8 packet HxbPacket.type PacketType.info.code
  let packet := setU8 packet HxbPacket.datatype DataType.bool.code
  let packet := setU32 packet HxbPacket.eid epSmUpAcknak
  setU8 packet HxbPacket.value (if result then 1 else 0)

/-- The packets handed to `do_udp_send`, over every content of the send buffer. -/
inductive Built : Mem → Prop
  | error (code : ErrorCode) : Built (errorPacket code)
  | queryResponse (buffer : Mem) (value : HxbValue) (eid : UInt32) (packet : Mem)
      (h : generateQueryResponse chain s buffer value eid = (.success, packet)) : Built packet
  | epqueryResponse (buffer : Mem) (eid : UInt32) (packet : Mem)
      (h : generateEpqueryResponse chain eeprom buffer eid = (.success, packet)) : Built packet
  | broadcast (buffer : Mem) (value : HxbValue) (eid : UInt32) (packet : Mem)
      (h : broadcastGenerator chain s buffer value eid = (.success, packet)) : Built packet
  | acknack (buffer : Mem) (result : Bool) : Built (sendAcknack buffer result)

/-! ## The types of the built packets -/

variable {chain} {eeprom} {s}

/-- A store behind the type byte keeps it. -/
theorem writeBlock_type {m : Mem} {a : Nat} {bs : List UInt8} (h : HxbPacket.type < a) :
    writeBlock m a bs HxbPacket.type = m HxbPacket.type :=
  writeBlock_apply_out m a bs HxbPacket.type (.inl h)

theorem setU8_self (m : Mem) (a : Nat) (v : UInt8) : setU8 m a v a = v := by
  have h := writeBlock_apply_in m a [v] 0 (by simp)
  exact h

theorem storeResponse_type (m : Mem) (value : HxbValue) :
    (storeResponse m value).2 HxbPacket.type = m HxbPacket.type := by
  unfold storeResponse
  cases DataType.ofCode value.datatype with
  | none => rfl
  | some d => cases d <;> rfl

theorem storeBroadcast_type (m : Mem) (value : HxbValue) :
    storeBroadcast m value HxbPacket.type = m HxbPacket.type := by
  unfold storeBroadcast
  cases DataType.ofCode value.datatype with
  | none => rfl
  | some d => cases d <;> rfl

/-- Type and endpoint id set, the type is there. -/
theorem setType_setEid (m : Mem) (t : UInt8) (eid : UInt32) :
    setU32 (setU8 m HxbPacket.type t) HxbPacket.eid eid HxbPacket.type = t := by
  rw [setU32, writeBlock_type (by decide), setU8_self]

theorem generateQueryResponse_type {buffer packet : Mem} {value : HxbValue} {eid : UInt32}
    (h : generateQueryResponse chain s buffer value eid = (.success, packet)) :
    packet HxbPacket.type = PacketType.info.code := by
  unfold generateQueryResponse at h
  simp only at h
  split at h
  · rename_i hne
    exact absurd (congrArg Prod.fst h) hne
  · have hpacket : _ = packet := congrArg Prod.snd h
    rw [← hpacket, storeResponse_type, setU8, writeBlock_type (by decide),
      writeBlock_type (by decide), setType_setEid]

theorem broadcastGenerator_type {buffer packet : Mem} {value : HxbValue} {eid : UInt32}
    (h : broadcastGenerator chain s buffer value eid = (.success, packet)) :
    packet HxbPacket.type = PacketType.info.code := by
  unfold broadcastGenerator at h
  simp only at h
  split at h
  · rename_i hne
    exact absurd (congrArg Prod.fst h) hne
  · have hpacket : _ = packet := congrArg Prod.snd h
    rw [← hpacket]
    show storeBroadcast _ _ HxbPacket.type = _
    rw [storeBroadcast_type, setU8, writeBlock_type (by decide), setType_setEid]

/-- The name of an endpoint is stored behind the header. -/
theorem endpointGetName_type (m : Mem) (eid : UInt32) (len : Nat) :
    (chain.endpointGetName eeprom eid m HxbPacket.value len).2 HxbPacket.type
      = m HxbPacket.type := by
  unfold EndpointChain.endpointGetName
  split
  · dsimp only [setU8]
    rw [writeBlock_type (by decide), writeBlock_type (by decide)]
  · split
    · dsimp only
      rw [writeBlock_type (by decide)]
    · rfl

/-- An endpoint info packet carries a terminated name. -/
theorem generateEpqueryResponse_type {buffer packet : Mem} {eid : UInt32}
    (h : generateEpqueryResponse chain eeprom buffer eid = (.success, packet)) :
    packet HxbPacket.type = PacketType.epinfo.code ∧
      packet (HxbPacket.value + stringPacketBufferLength) = 0 := by
  unfold generateEpqueryResponse at h
  simp only at h
  split at h
  · cases congrArg Prod.fst h
  · split at h
    · rename_i hne
      exact absurd (congrArg Prod.fst h) hne
    · have hpacket : _ = packet := congrArg Prod.snd h
      rw [← hpacket]
      dsimp only
      refine ⟨?_, setU8_self _ _ _⟩
      rw [setU8, writeBlock_type (by decide), endpointGetName_type, setU8,
        writeBlock_type (by decide), setType_setEid]

/-- **The built packets**: errors, infos, and endpoint infos with a terminated name. -/
theorem Built.type_cases {packet : Mem} (h : Built chain eeprom s packet) :
    packet HxbPacket.type = PacketType.error.code ∨
      packet HxbPacket.type = PacketType.info.code ∨
      packet HxbPacket.type = PacketType.epinfo.code ∧
        packet (HxbPacket.value + stringPacketBufferLength) = 0 := by
  cases h with
  | error code =>
    left
    rw [errorPacket, setU8, writeBlock_type (by decide), setU8_self]
  | queryResponse buffer value eid _ h => exact .inr (.inl (generateQueryResponse_type h))
  | epqueryResponse buffer eid _ h => exact .inr (.inr (generateEpqueryResponse_type h))
  | broadcast buffer value eid _ h => exact .inr (.inl (broadcastGenerator_type h))
  | acknack buffer result =>
    refine .inr (.inl ?_)
    show setU8 _ _ _ HxbPacket.type = _
    rw [setU8, writeBlock_type (by decide), setU32, writeBlock_type (by decide), setU8,
      writeBlock_type (by decide), setU8_self]

end Hexabus.Firmware
