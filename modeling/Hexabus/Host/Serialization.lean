import Hexabus.Host.Packet
import Hexabus.Lib.Crc

/-!
# Binary serialization

`BinarySerializer`: the visitor that turns a packet object into the bytes of a
datagram. The packets differ only in what stands between the common header and
the checksum, so the body is built first and `appendCRC` closes it.
-/

namespace Hexabus.Host

open Lib.Bytes

/-- `hexabus::crc`: `boost::crc_optimal<16, 0x1021, 0, 0, true, true>`, that is the
reflected register with the bit-reversed polynomial. -/
def crc (bytes : List UInt8) : UInt16 :=
  UInt16.ofBitVec (Lib.Crc.checksum 0x8408#16 0#16 bytes)

namespace BinarySerializer

def appendU16 (v : UInt16) : List UInt8 := beBytes 2 v.toNat

def appendU32 (v : UInt32) : List UInt8 := beBytes 4 v.toNat

def appendHeader (p : Packet) : List UInt8 :=
  hxbHeader ++ [p.type.code, p.flags]

def appendEIDHeader (p : Packet) (eid : UInt32) : List UInt8 :=
  appendHeader p ++ appendU32 eid

def appendValueHeader (p : Packet) (eid : UInt32) (datatype : UInt8) : List UInt8 :=
  appendEIDHeader p eid ++ [datatype]

/-- The seconds of a time stamp as they are stored: 32 bits of them. -/
def timestampSeconds (t : TimeDuration) : UInt32 :=
  UInt32.ofNat (t.totalSeconds % 2 ^ 32).toNat

/-- A string with its padding. -/
def appendString (s : ValueString) : List UInt8 :=
  s.bytes ++ List.replicate (maxLength + 1 - s.bytes.length) 0

/-- `appendValue`, one overload per value type. -/
def appendValue : Value → List UInt8
  | .bool v => [if v then 1 else 0]
  | .uint8 v => [v]
  | .uint32 v => appendU32 v
  | .float v => appendU32 v
  | .datetime t =>
    [UInt8.ofNat t.hours, UInt8.ofNat t.minutes, UInt8.ofNat t.seconds,
      UInt8.ofNat t.date.date.day, UInt8.ofNat t.date.date.month]
      ++ appendU16 (UInt16.ofNat t.date.date.year) ++ [UInt8.ofNat t.date.dayOfWeek]
  | .timestamp t => appendU32 (timestampSeconds t)
  | .string s => appendString s
  | .bytes16 b => b.val
  | .bytes65 b => b.val

/-- Everything in front of the checksum. -/
def body (p : Packet) : List UInt8 :=
  match p with
  | .error code _ => appendHeader p ++ [code]
  | .query eid _ => appendEIDHeader p eid
  | .endpointQuery eid _ => appendEIDHeader p eid
  | .endpointInfo eid datatype value _ =>
    appendValueHeader p eid datatype ++ appendString value
  | .info eid value _ => appendValueHeader p eid value.datatype.code ++ appendValue value
  | .write eid value _ => appendValueHeader p eid value.datatype.code ++ appendValue value

def appendCRC (bytes : List UInt8) : List UInt8 :=
  bytes ++ appendU16 (crc bytes)

end BinarySerializer

/-- `hexabus::serialize`. -/
def serialize (p : Packet) : List UInt8 :=
  BinarySerializer.appendCRC (BinarySerializer.body p)

end Hexabus.Host
