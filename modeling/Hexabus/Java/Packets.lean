import Hexabus.Java.Checksum

/-!
# The packets of the Java library

`libjhexabus`: a packet is built from an endpoint id and a value, sent with its checksum behind it,
and parsed from the buffer of a datagram.
-/

namespace Hexabus.Java

open Lib.Bytes

/-- `short`. -/
abbrev JShort := BitVec 16

/-- `long`. -/
abbrev JLong := BitVec 64

/-- A string of UTF-16 units. -/
abbrev Text := List UInt16

/-- `HexabusException`, and what the language throws. -/
inductive Thrown where
  | hexabus (message : String)
  | nullPointer
  | indexOutOfBounds
  | illegalArgument
  | bufferUnderflow
  | bufferOverflow
  deriving DecidableEq

/-! ## Types and codes -/

inductive PacketType where
  | error | info | query | write | epinfo | epquery
  deriving DecidableEq

namespace PacketType

def values : List PacketType := [.error, .info, .query, .write, .epinfo, .epquery]

def convert : PacketType → UInt8
  | .error => 0
  | .info => 1
  | .query => 2
  | .write => 4
  | .epinfo => 9
  | .epquery => 0x0A

def baseLength : PacketType → Nat
  | .error | .query | .epquery => 9
  | .info | .write | .epinfo => 10

end PacketType

inductive DataType where
  | bool | uint8 | uint32 | datetime | float | string | timestamp
  deriving DecidableEq

namespace DataType

def values : List DataType := [.bool, .uint8, .uint32, .datetime, .float, .string, .timestamp]

def convert : DataType → UInt8
  | .bool => 1
  | .uint8 => 2
  | .uint32 => 3
  | .datetime => 4
  | .float => 5
  | .string => 6
  | .timestamp => 7

def size : DataType → Nat
  | .bool | .uint8 => 1
  | .uint32 | .float | .timestamp => 4
  | .datetime => 8
  | .string => 128

def name : DataType → String
  | .bool => "BOOL"
  | .uint8 => "UINT8"
  | .uint32 => "UINT32"
  | .datetime => "DATETIME"
  | .float => "FLOAT"
  | .string => "STRING"
  | .timestamp => "TIMESTAMP"

end DataType

inductive ErrorCode where
  | unknowneid | writereadonly | crcfailed | datatype
  deriving DecidableEq

namespace ErrorCode

def values : List ErrorCode := [.unknowneid, .writereadonly, .crcfailed, .datatype]

def convert : ErrorCode → UInt8
  | .unknowneid => 1
  | .writereadonly => 2
  | .crcfailed => 3
  | .datatype => 4

end ErrorCode

/-- `ReverseEnumMap.get`; a code of no constant gives `null`. -/
def getPacketType (type : UInt8) : Option PacketType :=
  PacketType.values.find? (·.convert = type)

def getDataType (type : UInt8) : Option DataType :=
  DataType.values.find? (·.convert = type)

def getErrorCode (code : UInt8) : Option ErrorCode :=
  ErrorCode.values.find? (·.convert = code)

/-! ## Packets -/

/-- `HexabusPacket` with its classes. The data type of `endpointInfo` may be `null`. -/
inductive HexabusPacket where
  | error (errorCode : UInt8)
  | query (eid : UInt8)
  | endpointQuery (eid : UInt8)
  | info (eid : UInt8) (dataType : DataType) (payload : List UInt8)
  | write (eid : UInt8) (dataType : DataType) (payload : List UInt8)
  | endpointInfo (eid : UInt8) (dataType : Option DataType) (payload : List UInt8)
  deriving DecidableEq

def HEADER : List UInt8 := [0x48, 0x58, 0x30, 0x42]

/-- The array of this size behind a `ByteBuffer`, after the puts. -/
def wrap (size : Nat) (puts : List UInt8) : Except Thrown (List UInt8) :=
  if puts.length ≤ size then .ok (puts ++ List.replicate (size - puts.length) 0)
  else .error .bufferOverflow

namespace HexabusPacket

def packetType : HexabusPacket → PacketType
  | error _ => .error
  | query _ => .query
  | endpointQuery _ => .epquery
  | info .. => .info
  | write .. => .write
  | endpointInfo .. => .epinfo

/-- The header, the type and the flags. -/
def head (p : HexabusPacket) : List UInt8 := HEADER ++ [p.packetType.convert, 0]

def buildPacket (p : HexabusPacket) : Except Thrown (List UInt8) :=
  match p with
  | error errorCode => wrap (p.packetType.baseLength - 2) (p.head ++ [errorCode])
  | query eid | endpointQuery eid => wrap (p.packetType.baseLength - 2) (p.head ++ [eid])
  | info eid dataType payload | write eid dataType payload =>
    wrap (p.packetType.baseLength + dataType.size - 2)
      (p.head ++ eid :: dataType.convert :: payload)
  | endpointInfo eid (some dataType) payload =>
    wrap (p.packetType.baseLength + DataType.string.size - 2)
      (p.head ++ eid :: dataType.convert :: payload)
  | endpointInfo _ none _ => .error .nullPointer

/-- What `sendPacket` puts on the wire. -/
def sendPacket (p : HexabusPacket) : Except Thrown (List UInt8) := do
  let data ← p.buildPacket
  .ok (data ++ crc data)

end HexabusPacket

/-- The first check of the constructors with an endpoint id. -/
def checkEid (eid : JInt) : Except Thrown UInt8 :=
  if eid.toInt > 255 then .error (.hexabus "EID too large") else .ok (toByte eid)

def checkPayload (dataType : DataType) (payload : List UInt8) : Except Thrown Unit :=
  if payload.length > dataType.size then .error (.hexabus "Payload too large") else .ok ()

/-! ## Values -/

/-- What `Calendar.get` returns. The first month is 0, the first weekday, Sunday, is 1. -/
structure Calendar where
  hourOfDay : JInt
  minute : JInt
  second : JInt
  dayOfMonth : JInt
  month : JInt
  year : JInt
  dayOfWeek : JInt
  deriving DecidableEq

/-- `java.sql.Timestamp`: `getTime` in milliseconds, and the nanoseconds behind them. -/
structure Timestamp where
  time : JLong
  nanos : Fin 1000000
  deriving DecidableEq

/-- The value a packet is built from. A `float` is given by its bits. -/
inductive Value where
  | bool (value : Bool)
  | uint8 (value : JShort)
  | uint32 (value : JLong)
  | datetime (value : Calendar)
  | float (bits : UInt32)
  | string (value : Text)
  | timestamp (value : Timestamp)
  deriving DecidableEq

/-- The cast of a `long` to `byte`. -/
def longToByte (l : JLong) : UInt8 := UInt8.ofBitVec (l.setWidth 8)

def longBytes (value : JLong) : List UInt8 :=
  [longToByte ((value &&& 0xFF000000).sshiftRight 24),
    longToByte ((value &&& 0x00FF0000).sshiftRight 16),
    longToByte ((value &&& 0x0000FF00).sshiftRight 8),
    longToByte (value &&& 0x000000FF)]

def uint8Bytes (value : JShort) : Except Thrown (List UInt8) :=
  if value.toInt > 255 then .error (.hexabus "Value too large. UINT8 expected.")
  else .ok [toByte (value.signExtend 32 &&& 0xFF)]

def datetimeBytes (value : Calendar) : List UInt8 :=
  [toByte (value.hourOfDay &&& 0xFF), toByte (value.minute &&& 0xFF), toByte (value.second &&& 0xFF),
    toByte (value.dayOfMonth &&& 0xFF), toByte ((value.month + 1) &&& 0xFF),
    toByte ((value.year &&& 0xFF00).sshiftRight 8), toByte (value.year &&& 0x00FF),
    toByte ((value.dayOfWeek - 1) &&& 0xFF)]

/-- The characters in ASCII, and zeros. -/
def stringBytes (value : Text) : Except Thrown (List UInt8) :=
  if value.length > 127 then .error (.hexabus "String too long")
  else if value.all (· < 0x80) then
    .ok (value.map UInt16.toUInt8 ++ List.replicate (128 - value.length) 0)
  else .error (.hexabus "Non-ascii string")

namespace Value

def dataType : Value → DataType
  | bool _ => .bool
  | uint8 _ => .uint8
  | uint32 _ => .uint32
  | datetime _ => .datetime
  | float _ => .float
  | string _ => .string
  | timestamp _ => .timestamp

def payload : Value → Except Thrown (List UInt8)
  | bool value => .ok [if value then 0x01 else 0x00]
  | uint8 value => uint8Bytes value
  | uint32 value => .ok (longBytes value)
  | datetime value => .ok (datetimeBytes value)
  | float bits => .ok (beBytes 4 bits.toNat)
  | string value => stringBytes value
  | timestamp value => .ok (longBytes value.time)

end Value

/-- What a program hands to a constructor. -/
inductive Built where
  | query (eid : JInt)
  | endpointQuery (eid : JInt)
  | error (errorCode : UInt8)
  | errorCode (code : ErrorCode)
  | info (eid : JInt) (value : Value)
  | write (eid : JInt) (value : Value)

/-- The constructors of `HexabusInfoPacket` and `HexabusWritePacket`. -/
def newValued (make : UInt8 → DataType → List UInt8 → HexabusPacket) (eid : JInt) (value : Value) :
    Except Thrown HexabusPacket := do
  let eid ← checkEid eid
  let payload ← value.payload
  .ok (make eid value.dataType payload)

def Built.packet : Built → Except Thrown HexabusPacket
  | .query eid => .query <$> checkEid eid
  | .endpointQuery eid => .endpointQuery <$> checkEid eid
  | .error code => .ok (.error code)
  | .errorCode code => .ok (.error code.convert)
  | .info eid value => newValued .info eid value
  | .write eid value => newValued .write eid value

/-! ## Parsing -/

/-- A parsed packet, after `setCRC`. -/
structure Parsed where
  packet : HexabusPacket
  crc : UInt8 × UInt8
  deriving DecidableEq

def readByte (data : List UInt8) (i : Nat) : Except Thrown UInt8 :=
  match data[i]? with
  | some b => .ok b
  | none => .error .indexOutOfBounds

/-- `ByteBuffer.get` of so many bytes from the position 8 on. -/
def readPayload (data : List UInt8) (size : Nat) : Except Thrown (List UInt8) :=
  if 8 + size ≤ data.length then .ok ((data.drop 8).take size) else .error .bufferUnderflow

def notNull {α : Type} : Option α → Except Thrown α
  | some a => .ok a
  | none => .error .nullPointer

/-- The cases `INFO` and `WRITE`. -/
def parseValued (make : UInt8 → DataType → List UInt8 → HexabusPacket) (data : List UInt8) :
    Except Thrown HexabusPacket := do
  let dataType := getDataType (← readByte data 7)
  let eid ← readByte data 6
  let dataType ← notNull dataType
  let payload ← readPayload data dataType.size
  let eid ← checkEid (byteToInt eid)
  checkPayload dataType payload
  .ok (make eid dataType payload)

/-- The case `EPINFO`. -/
def parseEndpointInfo (data : List UInt8) : Except Thrown HexabusPacket := do
  let dataType := getDataType (← readByte data 7)
  let eid ← readByte data 6
  let payload ← readPayload data DataType.string.size
  let eid ← checkEid (byteToInt eid)
  checkPayload .string payload
  .ok (.endpointInfo eid dataType payload)

/-- The cases `QUERY` and `EPQUERY`. -/
def parseQuery (make : UInt8 → HexabusPacket) (data : List UInt8) :
    Except Thrown HexabusPacket := do
  let eid ← readByte data 6
  make <$> checkEid (byteToInt eid)

def parseBody (data : List UInt8) : PacketType → Except Thrown HexabusPacket
  | .error => .error <$> readByte data 6
  | .info => parseValued .info data
  | .query => parseQuery .query data
  | .write => parseValued .write data
  | .epinfo => parseEndpointInfo data
  | .epquery => parseQuery .endpointQuery data

/-- `ByteBuffer.position`. -/
def checkPosition (data : List UInt8) (position : Nat) : Except Thrown Unit :=
  if data.length < position then .error .illegalArgument else .ok ()

def parsePacket (data : List UInt8) : Except Thrown Parsed := do
  let packetType := getPacketType (← readByte data 4)
  checkPosition data 8
  let parsedPacket ← parseBody data (← notNull packetType)
  let packetLength := parsedPacket.packetType.baseLength
  let crc₁ ← readByte data (packetLength - 2)
  let crc₂ ← readByte data (packetLength - 1)
  .ok ⟨parsedPacket, crc₁, crc₂⟩

/-- The buffer of `receivePacket` and of `HexabusServer`, with a datagram in it. -/
def received (datagram : List UInt8) : List UInt8 :=
  datagram.take 138 ++ List.replicate (138 - datagram.length) 0

def Parsed.checkCRC (parsed : Parsed) : Except Thrown Bool := do
  let data ← parsed.packet.buildPacket
  .ok (Java.crc data = [parsed.crc.1, parsed.crc.2])

/-! ## The values of a packet -/

/-- The machine the library runs on: its default charset, which extends ASCII, and the days of the
default calendar and time zone, each of 86400 seconds. -/
structure Machine where
  decode : List UInt8 → Text
  decode_ascii : ∀ bytes : List UInt8, (∀ b ∈ bytes, b < 0x80) →
    decode bytes = bytes.map UInt8.toUInt16
  Day : Type
  epoch : Day
  addDays : Int → Day → Day
  addMonths : Int → Day → Day
  addYears : Int → Day → Day
  dayOfMonth : Day → JInt
  month : Day → JInt
  year : Day → JInt
  dayOfWeek : Day → JInt

variable {machine : Machine}

structure GregorianCalendar (machine : Machine) where
  day : machine.Day
  second : Fin 86400

namespace GregorianCalendar

/-- `add` of hours, minutes or seconds. -/
def addSeconds (n : Int) (c : GregorianCalendar machine) : GregorianCalendar machine where
  day := machine.addDays ((c.second.val + n) / 86400) c.day
  second := ⟨((c.second.val + n) % 86400).toNat, by omega⟩

def fields (c : GregorianCalendar machine) : Calendar where
  hourOfDay := BitVec.ofNat 32 (c.second.val / 3600)
  minute := BitVec.ofNat 32 (c.second.val / 60 % 60)
  second := BitVec.ofNat 32 (c.second.val % 60)
  dayOfMonth := machine.dayOfMonth c.day
  month := machine.month c.day
  year := machine.year c.day
  dayOfWeek := machine.dayOfWeek c.day

end GregorianCalendar

def parseBool : List UInt8 → Except Thrown Bool
  | [] => .error .indexOutOfBounds
  | b :: _ =>
    if b = 0 then .ok false
    else if b = 1 then .ok true
    else .error (.hexabus "Wrong data type. BOOL expected")

def parseUint8 : List UInt8 → Except Thrown JShort
  | [] => .error .indexOutOfBounds
  | b :: _ => .ok ((byteToInt b &&& 0xFF).setWidth 16)

/-- Each byte is extended by its sign before it is shifted. -/
def wordOf (b₀ b₁ b₂ b₃ : UInt8) : JInt :=
  byteToInt b₀ <<< 24 ||| byteToInt b₁ <<< 16 ||| byteToInt b₂ <<< 8 ||| byteToInt b₃

/-- `parseUint32`, and what `parseTimestamp` gives to its `Timestamp`. -/
def parseUint32 : List UInt8 → Except Thrown JLong
  | b₀ :: b₁ :: b₂ :: b₃ :: _ => .ok ((wordOf b₀ b₁ b₂ b₃).signExtend 64 &&& 0xFFFFFFFF)
  | _ => .error .indexOutOfBounds

def parseFloat (value : List UInt8) : Except Thrown UInt32 :=
  if 4 ≤ value.length then .ok (UInt32.ofNat (ofBe (value.take 4))) else .error .bufferUnderflow

/-- The fields are added to what the clock says. -/
def parseDatetime (now : GregorianCalendar machine) :
    List UInt8 → Except Thrown (GregorianCalendar machine)
  | hour :: minute :: second :: day :: month :: high :: low :: weekday :: _ =>
    let year := byteToInt high <<< 8 ||| byteToInt low
    let calendar := now.addSeconds (3600 * (byteToInt hour).toInt)
    let calendar := calendar.addSeconds (60 * (byteToInt minute).toInt)
    let calendar := calendar.addSeconds (byteToInt second).toInt
    let date := machine.addDays (byteToInt day).toInt calendar.day
    let date := machine.addMonths (byteToInt month - 1).toInt date
    let date := machine.addYears year.toInt date
    .ok { calendar with day := machine.addDays (byteToInt weekday).toInt date }
  | _ => .error .bufferUnderflow

/-- What the getter of a type hands to its parse function. -/
def parseValue (now : GregorianCalendar machine) (payload : List UInt8) :
    DataType → Except Thrown Value
  | .bool => .bool <$> parseBool payload
  | .uint8 => .uint8 <$> parseUint8 payload
  | .uint32 => .uint32 <$> parseUint32 payload
  | .datetime => (fun calendar => .datetime calendar.fields) <$> parseDatetime now payload
  | .float => .float <$> parseFloat payload
  | .string => .ok (.string (machine.decode payload))
  | .timestamp => (fun timestamp => .timestamp ⟨timestamp, 0⟩) <$> parseUint32 payload

/-- `getBool` and the other getters of `HexabusInfoPacket` and `HexabusWritePacket`. -/
def getValue (now : GregorianCalendar machine) (wanted dataType : DataType)
    (payload : List UInt8) : Except Thrown Value :=
  if dataType ≠ wanted then
    .error (.hexabus ("Wrong data type. " ++ dataType.name ++ " expected."))
  else parseValue now payload wanted

/-- The `byte` is extended to an `int`. -/
def getEid (eid : UInt8) : JInt := byteToInt eid

end Hexabus.Java
