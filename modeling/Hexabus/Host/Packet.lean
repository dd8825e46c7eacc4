import Hexabus.Host.DateTime
import Hexabus.Shared.Types

/-!
# Packet objects of the host library

`packet.hpp`: the packet classes, with the value types a `ValuePacket` can be
instantiated with and the data type tag each of them carries. A string value
longer than `max_length` cannot be constructed, so its bound is a field.
-/

namespace Hexabus.Host

open Lib.Bytes

/-- `ValuePacket<std::string>::max_length`. -/
def maxLength : Nat := 127

/-- The value of a string packet. -/
structure ValueString where
  bytes : List UInt8
  length_le : bytes.length ≤ maxLength
  deriving DecidableEq

/-- The constructor of `ValuePacket<std::string>`. -/
def ValueString.make (bytes : List UInt8) : Except Thrown ValueString :=
  if h : bytes.length ≤ maxLength then .ok ⟨bytes, h⟩ else .error .outOfRange

theorem ValueString.make_bytes (s : ValueString) : ValueString.make s.bytes = .ok s :=
  dif_pos s.length_le

/-- The values of `ValuePacket<T>`, one constructor for each `T` the class admits.
A float is its bit pattern. -/
inductive Value
  | bool (v : Bool)
  | uint8 (v : UInt8)
  | uint32 (v : UInt32)
  | float (v : UInt32)
  | datetime (v : PTime)
  | timestamp (v : TimeDuration)
  | string (v : ValueString)
  | bytes16 (v : Block 16)
  | bytes65 (v : Block 65)
  deriving DecidableEq

/-- `ValuePacket<T>::calculateDatatype`. -/
def Value.datatype : Value → DataType
  | .bool _ => .bool
  | .uint8 _ => .uint8
  | .uint32 _ => .uint32
  | .float _ => .float
  | .datetime _ => .datetime
  | .timestamp _ => .timestamp
  | .string _ => .string128
  | .bytes16 _ => .bytes16
  | .bytes65 _ => .bytes65

/-- The values the packet format has room for: time stamps of whole seconds in 32
bits, date-times without fractions of a second, strings without a NUL. -/
def Value.Representable : Value → Prop
  | .timestamp t => ∃ n : UInt32, t = .seconds n.toNat
  | .datetime t => t.micros % 1000000 = 0
  | .string s => ∀ b ∈ s.bytes, b ≠ 0
  | _ => True

/-- The concrete packet classes. -/
inductive Packet
  | error (code flags : UInt8)
  | query (eid : UInt32) (flags : UInt8)
  | endpointQuery (eid : UInt32) (flags : UInt8)
  | endpointInfo (eid : UInt32) (datatype : UInt8) (value : ValueString) (flags : UInt8)
  | info (eid : UInt32) (value : Value) (flags : UInt8)
  | write (eid : UInt32) (value : Value) (flags : UInt8)
  deriving DecidableEq

namespace Packet

def type : Packet → PacketType
  | .error .. => .error
  | .query .. => .query
  | .endpointQuery .. => .epquery
  | .endpointInfo .. => .epinfo
  | .info .. => .info
  | .write .. => .write

/-- The value a packet carries, if its class is a `ValuePacket`. -/
def value? : Packet → Option Value
  | .endpointInfo _ _ value _ => some (.string value)
  | .info _ value _ => some value
  | .write _ value _ => some value
  | _ => none

def flags : Packet → UInt8
  | .error _ f => f
  | .query _ f => f
  | .endpointQuery _ f => f
  | .endpointInfo _ _ _ f => f
  | .info _ _ f => f
  | .write _ _ f => f

end Packet

end Hexabus.Host
