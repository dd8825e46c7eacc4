import Hexabus.Lib.Bytes

/-!
# Definitions shared by host and firmware

`hexabus_types.h` and `hexabus_definitions.h`: packet types, data types, error
codes, the comparison operators of the state machine, and the value record that
travels between them. Enumerations are inductive types with the byte each
constant stands for; `ofCode` is the reading of a received byte, `none` where a
`switch` of the source falls into its default.
-/

namespace Hexabus

open Lib.Bytes

/-- `HXB_HEADER`, the magic in front of every packet: `"HX0C"`. -/
def hxbHeader : List UInt8 := [0x48, 0x58, 0x30, 0x43]

@[simp] theorem length_hxbHeader : hxbHeader.length = 4 := rfl

theorem length_hxbGroup : ([0xff, 0x05, 0, 0, 0, 0, 0, 0, 0, 0, 0, 0, 0, 0, 0x02, 0x05] :
    List UInt8).length = 16 := rfl

/-- `HXB_GROUP`. -/
def hxbGroup : Block 16 :=
  ⟨[0xff, 0x05, 0, 0, 0, 0, 0, 0, 0, 0, 0, 0, 0, 0, 0x02, 0x05], length_hxbGroup⟩

/-- `HXB_PORT`. -/
def hxbPort : UInt16 := 61616

/-- `HXB_STRING_PACKET_BUFFER_LENGTH`. -/
def stringPacketBufferLength : Nat := 127

/-- `enum hxb_packet_type`. -/
inductive PacketType
  | error | info | query | write | epinfo | epquery
  deriving DecidableEq, Repr

namespace PacketType

def code : PacketType → UInt8
  | .error => 0x00
  | .info => 0x01
  | .query => 0x02
  | .write => 0x04
  | .epinfo => 0x09
  | .epquery => 0x0A

/-- The constants in the order of their codes. -/
def all : List PacketType := [.error, .info, .query, .write, .epinfo, .epquery]

def ofCode (c : UInt8) : Option PacketType := all.find? fun t => t.code = c

@[simp] theorem ofCode_code (t : PacketType) : ofCode t.code = some t := by
  cases t <;> rfl

theorem code_injective {t u : PacketType} (h : t.code = u.code) : t = u := by
  have hsome : some t = some u := by rw [← ofCode_code t, ← ofCode_code u, h]
  exact Option.some.inj hsome

theorem eq_code_of_ofCode {c : UInt8} {t : PacketType} (h : ofCode c = some t) : c = t.code := by
  have hcode := List.find?_some h
  exact (of_decide_eq_true hcode).symm

end PacketType

/-- `enum hxb_datatype`. -/
inductive DataType
  | undefined | bool | uint8 | uint32 | datetime | float | string128 | timestamp
  | bytes65 | bytes16
  deriving DecidableEq, Repr

namespace DataType

def code : DataType → UInt8
  | .undefined => 0x00
  | .bool => 0x01
  | .uint8 => 0x02
  | .uint32 => 0x03
  | .datetime => 0x04
  | .float => 0x05
  | .string128 => 0x06
  | .timestamp => 0x07
  | .bytes65 => 0x08
  | .bytes16 => 0x09

/-- The constants in the order of their codes. -/
def all : List DataType :=
  [.undefined, .bool, .uint8, .uint32, .datetime, .float, .string128, .timestamp, .bytes65,
    .bytes16]

def ofCode (c : UInt8) : Option DataType := all.find? fun t => t.code = c

@[simp] theorem ofCode_code (t : DataType) : ofCode t.code = some t := by
  cases t <;> rfl

theorem code_injective {t u : DataType} (h : t.code = u.code) : t = u := by
  have hsome : some t = some u := by rw [← ofCode_code t, ← ofCode_code u, h]
  exact Option.some.inj hsome

theorem eq_code_of_ofCode {c : UInt8} {t : DataType} (h : ofCode c = some t) : c = t.code := by
  have hcode := List.find?_some h
  exact (of_decide_eq_true hcode).symm

end DataType

/-- `enum hxb_error_code`. -/
inductive ErrorCode
  | success | unknownEid | writeReadonly | crcFailed | datatype | invalidValue
  | malformedPacket | unexpectedPacket | noValue
  deriving DecidableEq, Repr

namespace ErrorCode

def code : ErrorCode → UInt8
  | .success => 0x00
  | .unknownEid => 0x01
  | .writeReadonly => 0x02
  | .crcFailed => 0x03
  | .datatype => 0x04
  | .invalidValue => 0x05
  | .malformedPacket => 0x80
  | .unexpectedPacket => 0x81
  | .noValue => 0x82

end ErrorCode

/-- `struct hxb_datetime`: seven fields, packed into eight bytes. -/
structure HxbDatetime where
  hour : UInt8
  minute : UInt8
  second : UInt8
  day : UInt8
  month : UInt8
  year : UInt16
  weekday : UInt8
  deriving DecidableEq, Repr

namespace HxbDatetime

/-- The packed bytes of the record, the year with its low byte first. -/
def toBytes (d : HxbDatetime) : List UInt8 :=
  [d.hour, d.minute, d.second, d.day, d.month] ++ leBytes 2 d.year.toNat ++ [d.weekday]

/-- The record that eight packed bytes hold. -/
def ofBytes (bs : List UInt8) : HxbDatetime where
  hour := bs.getD 0 0
  minute := bs.getD 1 0
  second := bs.getD 2 0
  day := bs.getD 3 0
  month := bs.getD 4 0
  year := UInt16.ofNat (ofLe ((bs.drop 5).take 2))
  weekday := bs.getD 7 0

@[simp] theorem length_toBytes (d : HxbDatetime) : d.toBytes.length = 8 := by
  simp [toBytes]

@[simp] theorem ofBytes_toBytes (d : HxbDatetime) : ofBytes d.toBytes = d := by
  have hyear := uint16_ofLe_leBytes d.year
  cases d
  simpa [ofBytes, toBytes, leBytes] using hyear

end HxbDatetime

/-- `struct hxb_value`: a data type tag and a union of eight bytes, kept as the
raw bytes its members overlay. `blob` is the buffer `v_string` or `v_binary`
points to; the pointer itself is never read as a number. -/
structure HxbValue where
  datatype : UInt8
  raw : Block 8
  blob : List UInt8 := []
  deriving DecidableEq

namespace HxbValue

/-- `v_bool` and `v_u8`: the first byte of the union. -/
def v_u8 (v : HxbValue) : UInt8 := v.raw.val.getD 0 0

/-- `v_u32` and `v_timestamp`: the first four bytes, low byte first. -/
def v_u32 (v : HxbValue) : UInt32 := UInt32.ofNat (ofLe (v.raw.val.take 4))

/-- `v_float`, as its bit pattern. -/
def v_float (v : HxbValue) : UInt32 := v.v_u32

def v_datetime (v : HxbValue) : HxbDatetime := HxbDatetime.ofBytes v.raw.val

/-! Assigning a member keeps the bytes of the union it does not cover. -/

def setU8 (v : HxbValue) (b : UInt8) : HxbValue :=
  { v with raw := ⟨v.raw.val.set 0 b, by rw [List.length_set, v.raw.property]⟩ }

def setU32 (v : HxbValue) (n : UInt32) : HxbValue :=
  { v with raw := ⟨leBytes 4 n.toNat ++ v.raw.val.drop 4, by
      rw [List.length_append, length_leBytes, List.length_drop, v.raw.property]⟩ }

def setDatetime (v : HxbValue) (d : HxbDatetime) : HxbValue :=
  { v with raw := ⟨d.toBytes, d.length_toBytes⟩ }

@[simp] theorem setU8_v_u8 (v : HxbValue) (b : UInt8) : (v.setU8 b).v_u8 = b := by
  have hlen : 0 < v.raw.val.length := by rw [v.raw.property]; omega
  simp [setU8, v_u8, hlen]

@[simp] theorem setU8_datatype (v : HxbValue) (b : UInt8) : (v.setU8 b).datatype = v.datatype := rfl

@[simp] theorem setU32_v_u32 (v : HxbValue) (n : UInt32) : (v.setU32 n).v_u32 = n := by
  have htake : (leBytes 4 n.toNat ++ v.raw.val.drop 4).take 4 = leBytes 4 n.toNat := by
    rw [List.take_append_of_le_length (by rw [length_leBytes]), List.take_of_length_le]
    rw [length_leBytes]
  rw [setU32, v_u32, htake, uint32_ofLe_leBytes]

@[simp] theorem setU32_datatype (v : HxbValue) (n : UInt32) :
    (v.setU32 n).datatype = v.datatype := rfl

@[simp] theorem setDatetime_v_datetime (v : HxbValue) (d : HxbDatetime) :
    (v.setDatetime d).v_datetime = d := HxbDatetime.ofBytes_toBytes d

@[simp] theorem setDatetime_datatype (v : HxbValue) (d : HxbDatetime) :
    (v.setDatetime d).datatype = v.datatype := rfl

end HxbValue

/-- The bytes of `::1`. -/
theorem length_localhost : (List.replicate 15 0 ++ [1] : List UInt8).length = 16 := rfl

end Hexabus
