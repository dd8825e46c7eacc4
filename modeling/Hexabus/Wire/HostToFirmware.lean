import Hexabus.Firmware.Packet
import Hexabus.Host.RoundTrip

/-!
# From the host to the firmware

The bytes the host's serializer writes, received into the firmware's buffer. The
two sides never share a definition of the format: the visitor appends fields,
the firmware overlays a struct whose size it picks by type and data type. What
the firmware extracts is the packet's value whenever the format has room for it.
-/

namespace Hexabus.Wire

open Lib.Bytes Lib.Store Firmware Host Host.BinarySerializer

/-! ## One value on two machines -/

/-- The fields of a firmware date-time are those of a date-time of the host. -/
def SameInstant (d : HxbDatetime) (t : PTime) : Prop :=
  d.hour.toNat = t.hours ∧ d.minute.toNat = t.minutes ∧ d.second.toNat = t.seconds ∧
    d.day.toNat = t.date.date.day ∧ d.month.toNat = t.date.date.month ∧
    d.year.toNat = t.date.date.year ∧ d.weekday.toNat = t.date.dayOfWeek ∧
    t.micros % 1000000 = 0

/-- A value record of the firmware and a value of the host are the same value. -/
def SameValue (v : HxbValue) : Value → Prop
  | .bool b => decide (v.v_u8 ≠ 0) = b
  | .uint8 n => v.v_u8 = n
  | .uint32 n => v.v_u32 = n
  | .float n => v.v_float = n
  | .datetime t => SameInstant v.v_datetime t
  | .timestamp t => TimeDuration.seconds v.v_u32.toNat = t
  | .string s => (0 : UInt8) ∈ v.blob ∧ cString v.blob = s.bytes
  | .bytes16 b => v.blob = b.val
  | .bytes65 b => v.blob = b.val

/-! ## A received frame -/

/-- A datagram in the receive buffer; what stood behind it stays. -/
def receive (buffer : Mem) (datagram : List UInt8) : Mem := writeBlock buffer 0 datagram

variable {m : Mem} {type flags : UInt8} {payload : List UInt8}

/-- The header fields of a received frame. -/
theorem holds_frame (h : Holds m 0 (appendCRC (frame type flags payload))) :
    Holds m 0 hxbHeader ∧ m HxbPacket.type = type ∧ Holds m 6 payload := by
  unfold appendCRC frame at h
  obtain ⟨h, -⟩ := holds_append.mp h
  obtain ⟨hmagic, h⟩ := holds_append.mp h
  obtain ⟨htype, h⟩ := holds_cons.mp h
  obtain ⟨-, h⟩ := holds_cons.mp h
  exact ⟨hmagic, htype, h⟩

/-- A closed frame passes the check, if its length is the announced one. -/
theorem checkCrc_of_holds {xs : List UInt8} (h : Holds m 0 (appendCRC xs))
    (hlen : dataLen m = some (appendCRC xs).length) : checkCrc m = .success := by
  obtain ⟨hxs, hsum⟩ := holds_append.mp h
  have hlast : (appendCRC xs).length - 2 = xs.length := by
    rw [appendCRC, List.length_append, appendU16, length_beBytes]
    omega
  have hread : readBlock m xs.length 2 = appendU16 (crc xs) := by
    rw [Nat.zero_add] at hsum
    exact hsum.read (length_beBytes 2 _)
  have hfront : readBlock m 0 xs.length = xs := hxs
  have hswap : uipHtons (getU16 m xs.length) = crc xs := by
    have hlen2 : (appendU16 (crc xs)).length = 2 := length_beBytes 2 _
    rw [getU16, hread, uipHtons_ofLe hlen2,
      BinaryDeserializer.appendU16_ofBe]
  unfold checkCrc
  rw [hlen]
  show (if uipHtons (getU16 m ((appendCRC xs).length - 2))
      ≠ crc16Data (readBlock m 0 ((appendCRC xs).length - 2)) 0 then _ else _) = _
  rw [hlast, hswap, hfront, crc16Data_eq_crc, if_neg (by simp)]

/-- The fields of a received value packet. -/
theorem holds_valueDatagram {t : PacketType} {eid : UInt32} {datatype : UInt8}
    {bytes : List UInt8} (h : Holds m 0 (valueDatagram t flags eid datatype bytes)) :
    Holds m 6 (appendU32 eid) ∧ m HxbPacket.datatype = datatype ∧
      Holds m HxbPacket.value bytes := by
  obtain ⟨-, -, h⟩ := holds_frame h
  obtain ⟨heid, h⟩ := holds_append.mp h
  obtain ⟨hdt, h⟩ := holds_cons.mp h
  exact ⟨heid, hdt, h⟩

/-- A 32-bit field in network order, loaded and swapped. -/
theorem uipHtonl_getU32 {off : Nat} {n : UInt32} (h : Holds m off (appendU32 n)) :
    uipHtonl (getU32 m off) = n := by
  have hread : readBlock m off 4 = appendU32 n := h.read (length_beBytes 4 _)
  have hlen4 : (appendU32 n).length = 4 := length_beBytes 4 _
  rw [getU32, hread, uipHtonl_ofLe hlen4,
    BinaryDeserializer.appendU32_ofBe]

/-! ## Values -/

/-- The record of a date-time, as the serializer cuts its fields. -/
def datetimeFields (t : PTime) : HxbDatetime where
  hour := UInt8.ofNat t.hours
  minute := UInt8.ofNat t.minutes
  second := UInt8.ofNat t.seconds
  day := UInt8.ofNat t.date.date.day
  month := UInt8.ofNat t.date.date.month
  year := UInt16.ofNat t.date.date.year
  weekday := UInt8.ofNat t.date.dayOfWeek

/-- No field of a date-time is cut: the record is the date-time, up to the
fraction of a second. -/
theorem sameInstant_datetimeFields (t : PTime) :
    SameInstant (datetimeFields t) t ↔ t.micros % 1000000 = 0 := by
  have hmicros := t.micros_lt
  have hyear := t.date.year_le
  obtain ⟨-, hmonth, -, hday⟩ := t.date.valid
  have hday31 := (Lib.Calendar.daysInMonth_bounds t.date.date.year t.date.date.month).2
  have hdow : t.date.dayOfWeek < 7 := Lib.Calendar.Date.dayOfWeek_lt t.date.date
  have hmin : t.minutes < 256 := by unfold PTime.minutes; omega
  have hsec : t.seconds < 256 := by unfold PTime.seconds; omega
  have hhour : t.hours < 256 := by unfold PTime.hours; unfold dayMicros at hmicros; omega
  have hnarrow : ∀ {n : Nat}, n < 256 → (UInt8.ofNat n).toNat = n := fun h =>
    UInt8.toNat_ofNat_of_lt' h
  have hyear16 : (UInt16.ofNat t.date.date.year).toNat = t.date.date.year :=
    UInt16.toNat_ofNat_of_lt' (by show _ < 65536; omega)
  constructor
  · rintro ⟨-, -, -, -, -, -, -, hfrac⟩
    exact hfrac
  · intro hfrac
    exact ⟨hnarrow hhour, hnarrow hmin, hnarrow hsec, hnarrow (by omega), hnarrow (by omega),
      hyear16, hnarrow (by omega), hfrac⟩

/-- The record `extract_value` reads where the serializer has put a date-time. -/
theorem getDatetime_appendValue {t : PTime}
    (h : Holds m HxbPacket.value (appendValue (.datetime t))) :
    let d := getDatetime m HxbPacket.value
    ({ d with year := uipHtons d.year } : HxbDatetime) = datetimeFields t := by
  have hread : readBlock m HxbPacket.value 8 = appendValue (.datetime t) :=
    h.read (by simp [appendValue, appendU16])
  have hyear : ∃ a b, appendU16 (UInt16.ofNat t.date.date.year) = [a, b] := by
    exact List.length_eq_two.mp (length_beBytes 2 _)
  obtain ⟨a, b, hab⟩ := hyear
  have hswap : uipHtons (UInt16.ofNat (ofLe [a, b])) = UInt16.ofNat t.date.date.year := by
    rw [uipHtons_ofLe rfl, ← hab, BinaryDeserializer.appendU16_ofBe]
  simp [getDatetime, hread, HxbDatetime.ofBytes, appendValue, hab, hswap, datetimeFields]

/-- The whole seconds of a time stamp are the time stamp if it is representable. -/
theorem seconds_timestampSeconds (t : TimeDuration) :
    TimeDuration.seconds (timestampSeconds t).toNat = t ↔ (Value.timestamp t).Representable := by
  constructor
  · intro h
    exact ⟨timestampSeconds t, h.symm⟩
  · rintro ⟨n, rfl⟩
    rw [timestampSeconds_seconds]

/-- What `extract_value` finds where the serializer has put a value: no error, the
value's tag, and the value itself if the format has room for it. -/
theorem extractValue_appendValue {value : Value}
    (hdt : m HxbPacket.datatype = value.datatype.code)
    (h : Holds m HxbPacket.value (appendValue value)) (prev : HxbValue) :
    (extractValue m prev).1 = .success ∧
      (extractValue m prev).2.datatype = value.datatype.code ∧
      (SameValue (extractValue m prev).2 value ↔ value.Representable) := by
  unfold extractValue
  simp only [hdt, DataType.ofCode_code]
  cases value with
  | bool b =>
    obtain ⟨hb, -⟩ := holds_cons.mp h
    simp only [Value.datatype, hb]
    refine ⟨trivial, rfl, ?_⟩
    cases b <;> simp [SameValue, Value.Representable]
  | uint8 n =>
    obtain ⟨hn, -⟩ := holds_cons.mp h
    simp [Value.datatype, hn, SameValue, Value.Representable]
  | uint32 n =>
    simp [Value.datatype, uipHtonl_getU32 h, SameValue, Value.Representable]
  | float n =>
    simp [Value.datatype, uipHtonl_getU32 h, SameValue, Value.Representable, HxbValue.v_float]
  | datetime t =>
    have hd := getDatetime_appendValue h
    simp only at hd
    simp only [Value.datatype, hd, HxbValue.setDatetime_datatype, SameValue,
      HxbValue.setDatetime_v_datetime, sameInstant_datetimeFields, Value.Representable]
    exact ⟨trivial, trivial, trivial⟩
  | timestamp t =>
    simp only [Value.datatype, uipHtonl_getU32 h, SameValue, HxbValue.setU32_v_u32,
      HxbValue.setU32_datatype, seconds_timestampSeconds]
    exact ⟨trivial, trivial, trivial⟩
  | string s =>
    have hread : readBlock m HxbPacket.value (stringPacketBufferLength + 1) = appendString s :=
      h.read (length_appendString s)
    have hnul : (0 : UInt8) ∈ appendString s := by
      rw [appendString_eq]
      simp
    have hc : cString (appendString s) = cString s.bytes := by
      rw [appendString_eq, cString_append]
    simp only [Value.datatype, SameValue, hread, hc, cString_eq_self, Value.Representable]
    exact ⟨trivial, trivial, and_iff_right hnul⟩
  | bytes16 b =>
    have hread : readBlock m HxbPacket.value 16 = b.val := h.read b.property
    simp [Value.datatype, SameValue, hread, Value.Representable]
  | bytes65 b =>
    have hread : readBlock m HxbPacket.value 65 = b.val := h.read b.property
    simp [Value.datatype, SameValue, hread, Value.Representable]

/-! ## Packets -/

/-- What the firmware makes of a value packet of the host: its endpoint id, its
tag, and its value whenever that has a representation in the format. -/
def ExtractedAs (m : Mem) (eid : UInt32) (value : Value) : Prop :=
  packetEid m = eid ∧ ∀ prev, (extractValue m prev).1 = .success ∧
    (extractValue m prev).2.datatype = value.datatype.code ∧
    (SameValue (extractValue m prev).2 value ↔ value.Representable)

/-- The firmware accepts a datagram as the packet it was made from. -/
structure Accepted (m : Mem) (p : Packet) : Prop where
  magic : isHexabusPacket m = true
  length : dataLen m = some (serialize p).length
  crc : checkCrc m = .success
  value : match p with
    | .info eid value _ | .write eid value _ => ExtractedAs m eid value
    | _ => True

/-- The value part of a received value packet. -/
theorem extractedAs_of_holds {t : PacketType} {eid : UInt32} {value : Value}
    (h : Holds m 0 (valueDatagram t flags eid value.datatype.code (appendValue value))) :
    ExtractedAs m eid value := by
  obtain ⟨heid, hdt, hvalue⟩ := holds_valueDatagram h
  exact ⟨uipHtonl_getU32 heid, extractValue_appendValue hdt hvalue⟩

/-- The struct the firmware picks for a value packet has the size of the datagram. -/
theorem dataLen_valueDatagram {t : PacketType} {eid : UInt32} {value : Value}
    (ht : t = .info ∨ t = .write)
    (h : Holds m 0 (valueDatagram t flags eid value.datatype.code (appendValue value))) :
    dataLen m
      = some (valueDatagram t flags eid value.datatype.code (appendValue value)).length := by
  obtain ⟨-, htype, -⟩ := holds_frame h
  obtain ⟨-, hdt, -⟩ := holds_valueDatagram h
  have hlen : (valueDatagram t flags eid value.datatype.code (appendValue value)).length
      = HxbPacket.sizeof (HxbPacket.value + (appendValue value).length) := by
    simp only [valueDatagram, appendCRC, frame, appendU32, appendU16, List.length_append,
      List.length_cons, length_beBytes, length_hxbHeader, HxbPacket.sizeof, HxbPacket.value]
    omega
  have htype' : PacketType.ofCode (m HxbPacket.type) = some t := by
    rw [htype, PacketType.ofCode_code]
  have hdt' : DataType.ofCode (m HxbPacket.datatype) = some value.datatype := by
    rw [hdt, DataType.ofCode_code]
  rw [hlen]
  unfold dataLen
  rcases ht with rfl | rfl
  all_goals
    cases value with
    | string s => simp [htype', hdt', appendValue, Value.datatype, HxbPacket.sizeof128String,
        maxLength, stringPacketBufferLength]
    | bytes16 b =>
      simp [htype', hdt', appendValue, Value.datatype, HxbPacket.sizeof16Bytes, b.property]
    | bytes65 b =>
      simp [htype', hdt', appendValue, Value.datatype, HxbPacket.sizeof65Bytes, b.property]
    | datetime t =>
      simp [htype', hdt', appendValue, Value.datatype, HxbPacket.sizeofDatetime, appendU16]
    | _ =>
      rw [htype']
      simp only [hdt']
      rfl

/-- A closed frame of the announced length is a packet with a good checksum. -/
theorem accepted_frame {t f : UInt8} (h : Holds m 0 (appendCRC (frame t f payload)))
    (hlen : dataLen m = some (appendCRC (frame t f payload)).length) :
    isHexabusPacket m = true ∧ checkCrc m = .success := by
  obtain ⟨hmagic, -, -⟩ := holds_frame h
  refine ⟨?_, checkCrc_of_holds h hlen⟩
  rw [isHexabusPacket, decide_eq_true_eq]
  exact hmagic.read length_hxbHeader

/-- A received value packet, as a whole. -/
theorem accepted_value {p : Packet} {t : PacketType} {eid : UInt32} {value : Value}
    (ht : t = .info ∨ t = .write)
    (hser : serialize p = valueDatagram t flags eid value.datatype.code (appendValue value))
    (h : Holds m 0 (serialize p)) :
    isHexabusPacket m = true ∧ dataLen m = some (serialize p).length ∧ checkCrc m = .success ∧
      ExtractedAs m eid value := by
  rw [hser] at h ⊢
  have hlen := dataLen_valueDatagram ht h
  obtain ⟨hmagic, hcrc⟩ := accepted_frame h hlen
  exact ⟨hmagic, hlen, hcrc, extractedAs_of_holds h⟩

/-- **The firmware accepts every packet of the host**, whatever its buffer held
before, and extracts its value wherever the format can say it. -/
theorem serialize_accepted (p : Packet) (buffer : Mem) :
    Accepted (receive buffer (serialize p)) p := by
  have h : Holds (receive buffer (serialize p)) 0 (serialize p) := holds_write _ _ _
  revert h
  generalize receive buffer (serialize p) = m
  intro h
  cases p with
  | error code flags =>
    rw [serialize_error] at h
    obtain ⟨-, htype, -⟩ := holds_frame h
    have hlen : dataLen m = some (appendCRC (frame PacketType.error.code flags [code])).length := by
      rw [dataLen, htype, PacketType.ofCode_code]
      rfl
    obtain ⟨hmagic, hcrc⟩ := accepted_frame h hlen
    exact ⟨hmagic, serialize_error code flags ▸ hlen, hcrc, trivial⟩
  | query eid flags =>
    rw [serialize_query] at h
    obtain ⟨-, htype, -⟩ := holds_frame h
    have hlen : dataLen m
        = some (appendCRC (frame PacketType.query.code flags (appendU32 eid))).length := by
      rw [dataLen, htype, PacketType.ofCode_code]
      rfl
    obtain ⟨hmagic, hcrc⟩ := accepted_frame h hlen
    exact ⟨hmagic, serialize_query eid flags ▸ hlen, hcrc, trivial⟩
  | endpointQuery eid flags =>
    rw [serialize_endpointQuery] at h
    obtain ⟨-, htype, -⟩ := holds_frame h
    have hlen : dataLen m
        = some (appendCRC (frame PacketType.epquery.code flags (appendU32 eid))).length := by
      rw [dataLen, htype, PacketType.ofCode_code]
      rfl
    obtain ⟨hmagic, hcrc⟩ := accepted_frame h hlen
    exact ⟨hmagic, serialize_endpointQuery eid flags ▸ hlen, hcrc, trivial⟩
  | endpointInfo eid datatype s flags =>
    rw [serialize_endpointInfo] at h
    obtain ⟨-, htype, -⟩ := holds_frame h
    have hlen : dataLen m
        = some (valueDatagram .epinfo flags eid datatype (appendString s)).length := by
      have hsize : (valueDatagram .epinfo flags eid datatype (appendString s)).length
          = HxbPacket.sizeof128String := by
        simp only [valueDatagram, appendCRC, frame, appendU32, appendU16, List.length_append,
          List.length_cons, length_beBytes, length_hxbHeader, length_appendString]
        rfl
      rw [dataLen, htype, PacketType.ofCode_code, hsize]
    obtain ⟨hmagic, hcrc⟩ := accepted_frame h hlen
    exact ⟨hmagic, serialize_endpointInfo eid datatype s flags ▸ hlen, hcrc, trivial⟩
  | info eid value flags =>
    obtain ⟨hmagic, hlen, hcrc, hvalue⟩ :=
      accepted_value (.inl rfl) (serialize_info eid value flags) h
    exact ⟨hmagic, hlen, hcrc, hvalue⟩
  | write eid value flags =>
    obtain ⟨hmagic, hlen, hcrc, hvalue⟩ :=
      accepted_value (.inr rfl) (serialize_write eid value flags) h
    exact ⟨hmagic, hlen, hcrc, hvalue⟩

/-- A second and a half arrives as one second. -/
theorem subsecond_timestamp_cut :
    let p := Packet.info 5 (.timestamp ⟨1500000⟩) 0
    let v := (extractValue (receive (fun _ => 0) (serialize p)) ⟨0, Block.zero 8, []⟩).2
    v.v_u32 = 1 ∧ ¬ SameValue v (.timestamp ⟨1500000⟩) := by
  refine ⟨by decide +kernel, ?_⟩
  show ¬ TimeDuration.seconds _ = _
  decide +kernel

end Hexabus.Wire
