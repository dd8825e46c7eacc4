import Hexabus.Firmware.Crc16
import Hexabus.Firmware.Memory

/-!
# Packets as the firmware lays them out

`hexabus_packet.h` overlays packed structs on one buffer; a packet is therefore
a memory here, and the fields of `union hxb_packet_any` are offsets into it.
`prepare_for_send` turns a built packet into a datagram in place, `check_crc`
and `extract_value` take a received one apart.
-/

namespace Hexabus.Firmware

open Lib.Bytes Lib.Store

/-! ## `union hxb_packet_any` -/

namespace HxbPacket

/-- `HXB_PACKET_HEADER`: magic, type, flags. -/
def magic : Nat := 0
def type : Nat := 4
def flags : Nat := 5

/-- `struct hxb_packet_error`. -/
def errorCode : Nat := 6

/-- `HXB_EIDPACKET_HEADER` and `HXB_VALUEPACKET_HEADER`. -/
def eid : Nat := 6
def datatype : Nat := 10

/-- The `value` member, at one offset in every value packet. -/
def value : Nat := 11

/-- The size of a packed struct whose checksum follows `front` bytes. -/
def sizeof (front : Nat) : Nat := front + 2

def sizeofError : Nat := sizeof (errorCode + 1)
def sizeofQuery : Nat := sizeof (eid + 4)
def sizeofU8 : Nat := sizeof (value + 1)
def sizeofU32 : Nat := sizeof (value + 4)
def sizeofDatetime : Nat := sizeof (value + 8)
def sizeofFloat : Nat := sizeof (value + 4)
def sizeof128String : Nat := sizeof (value + (stringPacketBufferLength + 1))
def sizeof65Bytes : Nat := sizeof (value + 65)
def sizeof16Bytes : Nat := sizeof (value + 16)

end HxbPacket

/-- `struct hxb_datetime` at an offset: the year is the only field of two bytes. -/
def yearOffset : Nat := 5

/-! ## Sending -/

/-- Close a packet of `len` bytes: checksum over all but its last two, in
network order. -/
def putCrc (m : Mem) (len : Nat) : Nat × Mem :=
  (len, setU16 m (len - 2) (uipHtons (crc16Data (readBlock m 0 (len - 2)) 0)))

/-- The assignments in front of the switch: magic and flags. -/
def setHeader (packet : Mem) : Mem :=
  setU8 (writeBlock packet HxbPacket.magic hxbHeader) HxbPacket.flags 0

/-- `packet->eid_header.eid = uip_htonl(packet->eid_header.eid)`. -/
def swapEid (packet : Mem) : Mem :=
  setU32 packet HxbPacket.eid (uipHtonl (getU32 packet HxbPacket.eid))

/-- The same for a 32-bit value, `htonf` included. -/
def swapValue (packet : Mem) : Mem :=
  setU32 packet HxbPacket.value (uipHtonl (getU32 packet HxbPacket.value))

/-- The same for the year of a date-time. -/
def swapYear (packet : Mem) : Mem :=
  setU16 packet (HxbPacket.value + yearOffset)
    (uipHtons (getU16 packet (HxbPacket.value + yearOffset)))

/-- `prepare_for_send`: the packet with its magic, network byte order and checksum
in place, and its length; the length of a packet of unknown type is 0. -/
def prepareForSend (packet : Mem) : Nat × Mem :=
  let packet := setHeader packet
  match PacketType.ofCode (packet HxbPacket.type) with
  | some .info | some .write =>
    let packet := swapEid packet
    match DataType.ofCode (packet HxbPacket.datatype) with
    | some .timestamp | some .uint32 => putCrc (swapValue packet) HxbPacket.sizeofU32
    | some .datetime => putCrc (swapYear packet) HxbPacket.sizeofDatetime
    | some .float => putCrc (swapValue packet) HxbPacket.sizeofFloat
    | some .bool | some .uint8 => putCrc packet HxbPacket.sizeofU8
    | some .string128 => putCrc packet HxbPacket.sizeof128String
    | some .bytes65 => putCrc packet HxbPacket.sizeof65Bytes
    | some .bytes16 => putCrc packet HxbPacket.sizeof16Bytes
    | some .undefined | none => (0, packet)
  | some .epquery | some .query => putCrc (swapEid packet) HxbPacket.sizeofQuery
  | some .epinfo => putCrc (swapEid packet) HxbPacket.sizeof128String
  | some .error => putCrc packet HxbPacket.sizeofError
  | none => (0, packet)

/-- `do_udp_send`: the datagram that leaves the device, if one does. -/
def doUdpSend (packet : Mem) : Option (List UInt8) :=
  let (len, packet) := prepareForSend packet
  if len = 0 then none else some (readBlock packet 0 len)

/-! ## Receiving -/

/-- `strncmp(packet->header.magic, HXB_HEADER, 4) == 0`. -/
def isHexabusPacket (packet : Mem) : Bool :=
  readBlock packet HxbPacket.magic 4 = hxbHeader

/-- The switch of `check_crc`: the size of the struct the header announces. -/
def dataLen (packet : Mem) : Option Nat :=
  match PacketType.ofCode (packet HxbPacket.type) with
  | some .error => some HxbPacket.sizeofError
  | some .info | some .write =>
    match DataType.ofCode (packet HxbPacket.datatype) with
    | some .bool | some .uint8 => some HxbPacket.sizeofU8
    | some .uint32 | some .timestamp => some HxbPacket.sizeofU32
    | some .float => some HxbPacket.sizeofFloat
    | some .string128 => some HxbPacket.sizeof128String
    | some .datetime => some HxbPacket.sizeofDatetime
    | some .bytes65 => some HxbPacket.sizeof65Bytes
    | some .bytes16 => some HxbPacket.sizeof16Bytes
    | some .undefined | none => none
  | some .epinfo => some HxbPacket.sizeof128String
  | some .query | some .epquery => some HxbPacket.sizeofQuery
  | none => none

/-- `check_crc`. The `crc` member is the last of every struct. -/
def checkCrc (packet : Mem) : ErrorCode :=
  match dataLen packet with
  | none => .malformedPacket
  | some dataLen =>
    let crc := getU16 packet (dataLen - 2)
    if uipHtons crc ≠ crc16Data (readBlock packet 0 (dataLen - 2)) 0 then .crcFailed
    else .success

/-- The packed date-time at an offset. -/
def getDatetime (m : Mem) (off : Nat) : HxbDatetime := HxbDatetime.ofBytes (readBlock m off 8)

/-- `extract_value`: the error code, and the value record it fills in. A pointer
member is set to the packet's own bytes. -/
def extractValue (packet : Mem) (value : HxbValue) : ErrorCode × HxbValue :=
  let value := { value with datatype := packet HxbPacket.datatype }
  match DataType.ofCode value.datatype with
  | some .bool | some .uint8 => (.success, value.setU8 (packet HxbPacket.value))
  | some .uint32 | some .timestamp =>
    (.success, value.setU32 (uipHtonl (getU32 packet HxbPacket.value)))
  | some .datetime =>
    let d := getDatetime packet HxbPacket.value
    (.success, value.setDatetime { d with year := uipHtons d.year })
  | some .float => (.success, value.setU32 (uipHtonl (getU32 packet HxbPacket.value)))
  | some .string128 =>
    (.success, { value with
      blob := readBlock packet HxbPacket.value (stringPacketBufferLength + 1) })
  | some .bytes65 => (.success, { value with blob := readBlock packet HxbPacket.value 65 })
  | some .bytes16 => (.success, { value with blob := readBlock packet HxbPacket.value 16 })
  | some .undefined | none => (.datatype, value)

/-- `uip_ntohl(packet->value_header.eid)`. -/
def packetEid (packet : Mem) : UInt32 := uipHtonl (getU32 packet HxbPacket.eid)

end Hexabus.Firmware
