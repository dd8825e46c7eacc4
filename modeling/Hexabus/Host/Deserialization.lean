import Hexabus.Host.Serialization

/-!
# Binary deserialization

`BinaryDeserializer`: a cursor over the received bytes. Every `read_*` checks
the remaining length, except that the subtraction in `checkLength` is unsigned:
once the cursor has passed the end, every check succeeds, and the read that
follows is out of bounds.
-/

namespace Hexabus.Host

open Lib.Bytes

/-- A reader: it moves the cursor `_offset` or throws. -/
abbrev Reader (α : Type) := StateT Nat (Except Thrown) α

namespace BinaryDeserializer

variable (packet : List UInt8)

def throwBad {α : Type} (reason : String) : Reader α := throw (.badPacket reason)

/-- `checkLength`: `_size - _offset` wraps when the cursor is behind the end. -/
def checkLength (min : Nat) : Reader Unit := do
  let offset ← get
  if offset ≤ packet.length ∧ packet.length - offset < min then
    throwBad "Packet too short"

/-- The `n` bytes at the cursor; the cursor stays. -/
def peek (n : Nat) : Reader (List UInt8) := do
  let offset ← get
  if offset + n ≤ packet.length then pure ((packet.drop offset).take n)
  else throw .undefinedRead

def advance (n : Nat) : Reader Unit := modify (· + n)

def readHeader : Reader Unit := do
  checkLength packet 4
  let magic ← peek packet 4
  if magic ≠ hxbHeader then throwBad "Invalid header"
  advance 4

def readU8 : Reader UInt8 := do
  checkLength packet 1
  let raw ← peek packet 1
  advance 1
  return raw.getD 0 0

def readU16 : Reader UInt16 := do
  checkLength packet 2
  let raw ← peek packet 2
  advance 2
  return UInt16.ofNat (ofBe raw)

def readU32 : Reader UInt32 := do
  checkLength packet 4
  let raw ← peek packet 4
  advance 4
  return UInt32.ofNat (ofBe raw)

def readBytes (n : Nat) : Reader (Block n) := do
  checkLength packet n
  let raw ← peek packet n
  advance n
  if h : raw.length = n then return ⟨raw, h⟩ else throw .undefinedRead

/-- `read_string`: the result of `std::find` is a pointer and never null, so the
search for a terminator rejects nothing; the string is what the bytes up to the
next NUL say, wherever that is. -/
def readString : Reader (List UInt8) := do
  checkLength packet maxLength
  let offset ← get
  let rest := packet.drop offset
  if (0 : UInt8) ∈ rest then
    advance (maxLength + 1)
    return cString rest
  else throw .undefinedRead

/-- `check`: the checksum covers everything in front of the cursor. -/
def check (p : Packet) : Reader Packet := do
  let offset ← get
  if offset ≤ packet.length then
    let sum ← readU16 packet
    if crc (packet.take offset) ≠ sum then throwBad "Bad checksum"
    return p
  else throw .undefinedRead

/-- `checkInfo`. -/
def checkInfo (info : Bool) (eid : UInt32) (value : Value) (flags : UInt8) : Reader Packet :=
  check packet (if info then .info eid value flags else .write eid value flags)

/-- The `HXB_DTYPE_DATETIME` case. The year is read as one byte. -/
def readDatetime : Reader PTime := do
  let hour ← readU8 packet
  let minute ← readU8 packet
  let second ← readU8 packet
  let day ← readU8 packet
  let month ← readU8 packet
  let year ← readU8 packet
  let weekday ← readU8 packet
  let date ← liftM (GregorianDate.make year.toNat month.toNat day.toNat)
  let dt ← liftM (PTime.make date
    ((hour.toNat * 3600 + minute.toNat * 60 + second.toNat) * 1000000))
  if dt.date.dayOfWeek ≠ weekday.toNat then throwBad "Invalid datetime format"
  return dt

/-- The value of an info or write packet of the given data type. -/
def readValue (datatype : UInt8) : Reader Value :=
  match DataType.ofCode datatype with
  | some .bool => do return .bool ((← readU8 packet) ≠ 0)
  | some .uint8 => do return .uint8 (← readU8 packet)
  | some .uint32 => do return .uint32 (← readU32 packet)
  | some .float => do return .float (← readU32 packet)
  | some .datetime => do return .datetime (← readDatetime packet)
  | some .timestamp => do return .timestamp (.seconds (← readU32 packet).toNat)
  | some .string128 => do
    let s ← readString packet
    return .string (← liftM (ValueString.make s))
  | some .bytes16 => do return .bytes16 (← readBytes packet 16)
  | some .bytes65 => do return .bytes65 (← readBytes packet 65)
  | some .undefined | none => throwBad "Invalid datatype"

/-- The `switch (type)` of `BinaryDeserializer::deserialize`. -/
def deserializeType (type flags : UInt8) : Reader Packet :=
  match PacketType.ofCode type with
  | some .error => do
    let code ← readU8 packet
    check packet (.error code flags)
  | some .info | some .write => do
    let eid ← readU32 packet
    let datatype ← readU8 packet
    let value ← readValue packet datatype
    checkInfo packet (type = PacketType.info.code) eid value flags
  | some .query => do
    let eid ← readU32 packet
    check packet (.query eid flags)
  | some .epquery => do
    let eid ← readU32 packet
    check packet (.endpointQuery eid flags)
  | some .epinfo => do
    let eid ← readU32 packet
    let datatype ← readU8 packet
    let s ← readString packet
    let value ← liftM (ValueString.make s)
    check packet (.endpointInfo eid datatype value flags)
  | none => throwBad "Unknown packet type"

/-- `BinaryDeserializer::deserialize`. -/
def deserialize : Reader Packet := do
  readHeader packet
  let type ← readU8 packet
  let flags ← readU8 packet
  deserializeType packet type flags

end BinaryDeserializer

/-- `hexabus::deserialize`. -/
def deserialize (packet : List UInt8) : Except Thrown Packet :=
  (BinaryDeserializer.deserialize packet).run' 0

end Hexabus.Host
