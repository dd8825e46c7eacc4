import Hexabus.Java.Values
import Hexabus.Lib.Folds

/-!
# Round trips of the Java library

A packet that was built is sent, received into a buffer and parsed. The checksum is looked for at
the end of the shortest packet of the type, which is where the payload of an info or write packet
begins.
-/

namespace Hexabus.Java

variable {machine : Machine}

/-! ## What it is to come back -/

/-- A packet of the class has this endpoint id, this data type and, whatever the clock says, this
value. -/
def HasValue (machine : Machine) (make : UInt8 → DataType → List UInt8 → HexabusPacket) (eid : JInt)
    (value : Value) (q : HexabusPacket) : Prop :=
  ∃ eid' dataType payload, q = make eid' dataType payload ∧ getEid eid' = eid ∧
    dataType = value.dataType ∧
    ∀ now : GregorianCalendar machine, getValue now value.dataType dataType payload = .ok value

def Built.ArrivesAs (machine : Machine) : Built → HexabusPacket → Prop
  | .query eid, q => q = .query (toByte eid)
  | .endpointQuery eid, q => q = .endpointQuery (toByte eid)
  | .error code, q => q = .error code
  | .errorCode code, q => ∃ errorCode, q = .error errorCode ∧ getErrorCode errorCode = some code
  | .info eid value, q => HasValue machine .info eid value q
  | .write eid value, q => HasValue machine .write eid value q

/-- What is sent is parsed as what was built, and its checksum is right. -/
def Built.RoundTrips (machine : Machine) (built : Built) (p : HexabusPacket) : Prop :=
  ∃ datagram parsed, p.sendPacket = .ok datagram ∧ parsePacket (received datagram) = .ok parsed ∧
    built.ArrivesAs machine parsed.packet ∧ parsed.checkCRC = .ok true

/-- The checksum of the packet is what stands behind its data type. -/
def Coincides (p : HexabusPacket) : Prop :=
  match p with
  | .info eid dataType payload | .write eid dataType payload =>
    let sum := crc (p.head ++ eid :: dataType.convert :: payload)
    (payload ++ sum).take 2 = sum
  | _ => True

def Built.Fits : Built → HexabusPacket → Prop
  | .info eid value, p | .write eid value, p =>
    -128 ≤ eid.toInt ∧ eid.toInt ≤ 127 ∧ value.Fits ∧ Coincides p
  | _, _ => True

/-! ## Datagrams -/

theorem wrap_exact {n : Nat} {puts : List UInt8} (h : puts.length = n) : wrap n puts = .ok puts := by
  rw [wrap, if_pos h.le, h, Nat.sub_self, List.replicate_zero, List.append_nil]

/-- The six bytes before the body. -/
theorem head_eq (p : HexabusPacket) : p.head = [0x48, 0x58, 0x30, 0x42, p.packetType.convert, 0] := rfl

theorem received_eq {datagram : List UInt8} (h : datagram.length ≤ 138) :
    received datagram = datagram ++ List.replicate (138 - datagram.length) 0 := by
  rw [received, List.take_of_length_le h]

theorem getPacketType_convert (t : PacketType) : getPacketType t.convert = some t := by
  cases t <;> rfl

theorem getDataType_convert (t : DataType) : getDataType t.convert = some t := by
  cases t <;> rfl

theorem getErrorCode_convert (c : ErrorCode) : getErrorCode c.convert = some c := by
  cases c <;> rfl

theorem bind_ok {α β : Type} {x : Except Thrown α} {a : α} {f : α → Except Thrown β}
    (h : x = .ok a) : x >>= f = f a := by
  rw [h]
  rfl

theorem readByte_some {data : List UInt8} {i : Nat} {b : UInt8} (h : data[i]? = some b) :
    readByte data i = .ok b := by
  rw [readByte, h]

theorem parsePacket_ok {p q : HexabusPacket} {body : List UInt8} {crc₁ crc₂ : UInt8}
    (hbody : parseBody (p.head ++ body) p.packetType = .ok q) (hlen : 2 ≤ body.length)
    (h₁ : (p.head ++ body)[q.packetType.baseLength - 2]? = some crc₁)
    (h₂ : (p.head ++ body)[q.packetType.baseLength - 1]? = some crc₂) :
    parsePacket (p.head ++ body) = .ok ⟨q, crc₁, crc₂⟩ := by
  have htype : readByte (p.head ++ body) 4 = .ok p.packetType.convert := rfl
  have hposition : checkPosition (p.head ++ body) 8 = .ok () := by
    rw [checkPosition, if_neg]
    rw [List.length_append, head_eq]
    show ¬ 6 + body.length < 8
    omega
  have hknown : notNull (getPacketType p.packetType.convert) = .ok p.packetType := by
    rw [getPacketType_convert]
    rfl
  unfold parsePacket
  rw [bind_ok htype]
  show (checkPosition (p.head ++ body) 8 >>= fun _ => _) = _
  rw [bind_ok hposition, bind_ok hknown, bind_ok hbody]
  show (readByte (p.head ++ body) _ >>= fun _ => _) = _
  rw [bind_ok (readByte_some h₁), bind_ok (readByte_some h₂)]

theorem parseValued_ok (make : UInt8 → DataType → List UInt8 → HexabusPacket) {p : HexabusPacket}
    {eid : UInt8} {dataType : DataType} {payload rest : List UInt8}
    (h : payload.length = dataType.size) :
    parseValued make (p.head ++ eid :: dataType.convert :: (payload ++ rest)) =
      .ok (make eid dataType payload) := by
  have hpayload : readPayload (p.head ++ eid :: dataType.convert :: (payload ++ rest)) dataType.size =
      .ok payload := by
    have hlen : 8 + dataType.size ≤
        (p.head ++ eid :: dataType.convert :: (payload ++ rest)).length := by
      rw [List.length_append, head_eq]
      simp only [List.length_cons, List.length_append, List.length_nil]
      omega
    rw [readPayload, if_pos hlen]
    show Except.ok ((payload ++ rest).take dataType.size) = _
    rw [← h, List.take_left]
  have htype : readByte (p.head ++ eid :: dataType.convert :: (payload ++ rest)) 7 =
      .ok dataType.convert := rfl
  have heid : readByte (p.head ++ eid :: dataType.convert :: (payload ++ rest)) 6 = .ok eid := rfl
  have hknown : notNull (getDataType dataType.convert) = .ok dataType := by
    rw [getDataType_convert]
    rfl
  have hfits : checkPayload dataType payload = .ok () := by
    rw [checkPayload, if_neg (by omega)]
  unfold parseValued
  rw [bind_ok htype]
  show (readByte _ 6 >>= fun _ => _) = _
  rw [bind_ok heid, bind_ok hknown, bind_ok hpayload, bind_ok (checkEid_byteToInt eid),
    bind_ok hfits]

theorem parseQuery_ok (make : UInt8 → HexabusPacket) {p : HexabusPacket} {eid : UInt8}
    {rest : List UInt8} : parseQuery make (p.head ++ eid :: rest) = .ok (make eid) := by
  unfold parseQuery
  show make <$> checkEid (byteToInt eid) = _
  rw [checkEid_byteToInt]
  rfl

theorem size_le (t : DataType) : 1 ≤ t.size ∧ t.size ≤ 128 := by
  cases t <;> decide

/-- What a parsed packet is checked against. -/
theorem checkCRC_eq {q : HexabusPacket} {frame : List UInt8} (h : q.buildPacket = .ok frame)
    (crc₁ crc₂ : UInt8) :
    Parsed.checkCRC ⟨q, crc₁, crc₂⟩ = .ok (decide (crc frame = [crc₁, crc₂])) := by
  unfold Parsed.checkCRC
  rw [bind_ok h]

theorem sendPacket_eq {p : HexabusPacket} {frame : List UInt8} (h : p.buildPacket = .ok frame) :
    p.sendPacket = .ok (frame ++ crc frame) := by
  unfold HexabusPacket.sendPacket
  rw [bind_ok h]

theorem length_head (p : HexabusPacket) : p.head.length = 6 := rfl

/-- A packet whose body is one byte comes back, with its own checksum. -/
theorem short_comes_back {p : HexabusPacket} {b : UInt8} (hbase : p.packetType.baseLength = 9)
    (hbuild : p.buildPacket = wrap (p.packetType.baseLength - 2) (p.head ++ [b]))
    (hbody : ∀ rest, parseBody (p.head ++ b :: rest) p.packetType = .ok p) :
    ∃ datagram parsed, p.sendPacket = .ok datagram ∧
      parsePacket (received datagram) = .ok parsed ∧ parsed.packet = p ∧
      parsed.checkCRC = .ok true := by
  have hframe : p.buildPacket = .ok (p.head ++ [b]) := by
    rw [hbuild]
    apply wrap_exact
    rw [List.length_append, length_head, hbase]
    rfl
  obtain ⟨crc₁, crc₂, hcrc⟩ : ∃ crc₁ crc₂, crc (p.head ++ [b]) = [crc₁, crc₂] := ⟨_, _, rfl⟩
  have hreceived : received (p.head ++ [b] ++ crc (p.head ++ [b])) =
      p.head ++ b :: crc₁ :: crc₂ :: List.replicate 129 0 := by
    rw [hcrc, received_eq]
    · show p.head ++ [b] ++ [crc₁, crc₂] ++ List.replicate 129 0 = _
      simp only [List.append_assoc, List.cons_append, List.nil_append]
    · show 9 ≤ 138
      omega
  refine ⟨_, ⟨p, crc₁, crc₂⟩, sendPacket_eq hframe, ?_, rfl, ?_⟩
  · rw [hreceived]
    refine parsePacket_ok (hbody _) ?_ ?_ ?_
    · simp only [List.length_cons, List.length_replicate]
      omega
    · rw [hbase]
      rfl
    · rw [hbase]
      rfl
  · rw [checkCRC_eq hframe, hcrc, decide_eq_true rfl]

/-! ## Packets with a value -/

section

variable {make : UInt8 → DataType → List UInt8 → HexabusPacket} {eid : UInt8} {dataType : DataType}
  {payload : List UInt8}

/-- `HexabusInfoPacket` and `HexabusWritePacket` do the same. -/
structure Valued (make : UInt8 → DataType → List UInt8 → HexabusPacket) : Prop where
  base : ∀ eid dataType payload, (make eid dataType payload).packetType.baseLength = 10
  build : ∀ eid dataType payload, (make eid dataType payload).buildPacket =
    wrap (10 + dataType.size - 2)
      ((make eid dataType payload).head ++ eid :: dataType.convert :: payload)
  body : ∀ eid dataType payload data,
    parseBody data (make eid dataType payload).packetType = parseValued make data
  sum : ∀ eid dataType payload, Coincides (make eid dataType payload) ↔
    (payload ++ crc ((make eid dataType payload).head ++ eid :: dataType.convert :: payload)).take 2 =
      crc ((make eid dataType payload).head ++ eid :: dataType.convert :: payload)
  inj : ∀ {eid eid' dataType dataType' payload payload'},
    make eid dataType payload = make eid' dataType' payload' →
      eid = eid' ∧ dataType = dataType' ∧ payload = payload'

theorem valued_info : Valued .info where
  base _ _ _ := rfl
  build _ _ _ := rfl
  body _ _ _ _ := rfl
  sum _ _ _ := .rfl
  inj := HexabusPacket.info.inj

theorem valued_write : Valued .write where
  base _ _ _ := rfl
  build _ _ _ := rfl
  body _ _ _ _ := rfl
  sum _ _ _ := .rfl
  inj := HexabusPacket.write.inj

/-- It comes back, with what stands behind the data type as its checksum. -/
theorem Valued.comes_back (hmake : Valued make) (h : payload.length = dataType.size) :
    ∃ datagram parsed, (make eid dataType payload).sendPacket = .ok datagram ∧
      parsePacket (received datagram) = .ok parsed ∧ parsed.packet = make eid dataType payload ∧
      (parsed.checkCRC = .ok true ↔ Coincides (make eid dataType payload)) := by
  rw [hmake.sum]
  generalize hp : make eid dataType payload = p
  have hbase : p.packetType.baseLength = 10 := hp ▸ hmake.base ..
  have hframe : p.buildPacket = .ok (p.head ++ eid :: dataType.convert :: payload) := by
    rw [← hp, hmake.build]
    apply wrap_exact
    rw [List.length_append, length_head]
    simp only [List.length_cons]
    omega
  obtain ⟨hpos, hle⟩ := size_le dataType
  obtain ⟨c₁, c₂, hcrc⟩ : ∃ c₁ c₂, crc (p.head ++ eid :: dataType.convert :: payload) = [c₁, c₂] :=
    ⟨_, _, rfl⟩
  obtain ⟨crc₁, crc₂, htake⟩ : ∃ crc₁ crc₂, (payload ++ [c₁, c₂]).take 2 = [crc₁, crc₂] := by
    cases payload with
    | nil => exact ⟨c₁, c₂, rfl⟩
    | cons b payload =>
      cases payload with
      | nil => exact ⟨b, c₁, rfl⟩
      | cons b' payload => exact ⟨b, b', rfl⟩
  have hrest : payload ++ [c₁, c₂] = crc₁ :: crc₂ :: (payload ++ [c₁, c₂]).drop 2 := by
    rw [← List.take_append_drop 2 (payload ++ [c₁, c₂]), htake]
    rfl
  refine ⟨_, ⟨p, crc₁, crc₂⟩, sendPacket_eq hframe, ?_, rfl, ?_⟩
  · have hlen : (p.head ++ eid :: dataType.convert :: payload ++ [c₁, c₂]).length ≤ 138 := by
      rw [List.length_append, List.length_append, length_head]
      simp only [List.length_cons, List.length_nil]
      omega
    rw [hcrc, received_eq hlen]
    generalize List.replicate _ (0 : UInt8) = zeros
    have hdata : payload ++ ([c₁, c₂] ++ zeros) =
        crc₁ :: crc₂ :: ((payload ++ [c₁, c₂]).drop 2 ++ zeros) := by
      rw [← List.append_assoc, hrest]
      rfl
    have hshape : p.head ++ eid :: dataType.convert :: payload ++ [c₁, c₂] ++ zeros =
        p.head ++ eid :: dataType.convert :: (payload ++ ([c₁, c₂] ++ zeros)) := by
      simp only [List.append_assoc, List.cons_append]
    rw [hshape]
    refine parsePacket_ok ?_ ?_ ?_ ?_
    · rw [← hp, hmake.body, parseValued_ok make h]
    · simp only [List.length_cons]
      omega
    · rw [hbase, hdata]
      rfl
    · rw [hbase, hdata]
      rfl
  · rw [checkCRC_eq hframe, hcrc, htake]
    constructor
    · intro heq
      exact (of_decide_eq_true (Except.ok.inj heq)).symm
    · intro heq
      rw [heq, decide_eq_true rfl]

theorem Valued.hasValue_iff (hmake : Valued make) {eid : JInt} {value : Value}
    (h : value.payload = .ok payload) :
    HasValue machine make eid value (make (toByte eid) value.dataType payload) ↔
      (-128 ≤ eid.toInt ∧ eid.toInt ≤ 127) ∧ value.Fits := by
  have hvalue : (∀ now : GregorianCalendar machine,
      getValue now value.dataType value.dataType payload = .ok value) ↔ value.Fits := getValue_iff h
  rw [← getEid_iff, ← hvalue]
  constructor
  · rintro ⟨eid', dataType, payload', hq, heid, -, hget⟩
    obtain ⟨rfl, rfl, rfl⟩ := hmake.inj hq
    exact ⟨heid, hget⟩
  · rintro ⟨heid, hget⟩
    exact ⟨_, _, _, rfl, heid, rfl, hget⟩

theorem newValued_ok {eid : JInt} {value : Value} {p : HexabusPacket}
    (h : newValued make eid value = .ok p) :
    ∃ payload, value.payload = .ok payload ∧ p = make (toByte eid) value.dataType payload := by
  obtain ⟨b, hb, h⟩ := Lib.Folds.bind_ok_iff.mp h
  obtain ⟨payload, hpayload, h⟩ := Lib.Folds.bind_ok_iff.mp h
  obtain ⟨-, rfl⟩ := checkEid_ok hb
  exact ⟨payload, hpayload, (Except.ok.inj h).symm⟩

end

/-- What is parsed is determined by what was sent. -/
theorem roundTrips_of {built : Built} {p : HexabusPacket} {P : Prop}
    (h : ∃ datagram parsed, p.sendPacket = .ok datagram ∧
      parsePacket (received datagram) = .ok parsed ∧ parsed.packet = p ∧
      (parsed.checkCRC = .ok true ↔ P)) :
    built.RoundTrips machine p ↔ built.ArrivesAs machine p ∧ P := by
  obtain ⟨datagram, parsed, hsend, hparse, hpacket, hcrc⟩ := h
  constructor
  · rintro ⟨datagram', parsed', hsend', hparse', harrives, hcrc'⟩
    obtain rfl := Except.ok.inj (hsend.symm.trans hsend')
    obtain rfl := Except.ok.inj (hparse.symm.trans hparse')
    exact ⟨hpacket ▸ harrives, hcrc.mp hcrc'⟩
  · rintro ⟨harrives, hP⟩
    exact ⟨datagram, parsed, hsend, hparse, hpacket ▸ harrives, hcrc.mpr hP⟩

theorem map_eq_ok {α β : Type} {f : α → β} {x : Except Thrown α} {b : β} (h : f <$> x = .ok b) :
    ∃ a, x = .ok a ∧ b = f a := by
  cases x with
  | ok a => exact ⟨a, rfl, (Except.ok.inj h).symm⟩
  | error e => cases h

/-- Queries, endpoint queries and errors. -/
theorem short_iff {built : Built} {p : HexabusPacket} {b : UInt8}
    (hbase : p.packetType.baseLength = 9)
    (hbuild : p.buildPacket = wrap (p.packetType.baseLength - 2) (p.head ++ [b]))
    (hbody : ∀ rest, parseBody (p.head ++ b :: rest) p.packetType = .ok p) :
    built.RoundTrips machine p ↔ built.ArrivesAs machine p := by
  obtain ⟨datagram, parsed, hsend, hparse, hpacket, hcrc⟩ := short_comes_back hbase hbuild hbody
  have hiff : built.RoundTrips machine p ↔ built.ArrivesAs machine p ∧ True :=
    roundTrips_of ⟨datagram, parsed, hsend, hparse, hpacket, iff_of_true hcrc trivial⟩
  rw [hiff, and_true]

/-- **Which packets come back**: queries, endpoint queries and errors do. An info or write packet
does exactly if its endpoint id and its value fit and its checksum happens to be what stands behind
the data type. -/
theorem round_trips_iff (machine : Machine) {built : Built} {p : HexabusPacket}
    (h : built.packet = .ok p) : built.RoundTrips machine p ↔ built.Fits p := by
  cases built with
  | query eid =>
    obtain ⟨b, hb, rfl⟩ := map_eq_ok h
    obtain ⟨-, rfl⟩ := checkEid_ok hb
    rw [short_iff (p := .query (toByte eid)) rfl rfl fun _ => parseQuery_ok .query]
    exact iff_of_true rfl trivial
  | endpointQuery eid =>
    obtain ⟨b, hb, rfl⟩ := map_eq_ok h
    obtain ⟨-, rfl⟩ := checkEid_ok hb
    rw [short_iff (p := .endpointQuery (toByte eid)) rfl rfl
      fun _ => parseQuery_ok .endpointQuery]
    exact iff_of_true rfl trivial
  | error code =>
    obtain rfl := Except.ok.inj h
    rw [short_iff (p := .error code) rfl rfl fun _ => rfl]
    exact iff_of_true rfl trivial
  | errorCode code =>
    obtain rfl := Except.ok.inj h
    rw [short_iff (p := .error code.convert) rfl rfl fun _ => rfl]
    exact iff_of_true ⟨code.convert, rfl, getErrorCode_convert code⟩ trivial
  | info eid value =>
    obtain ⟨payload, hpayload, rfl⟩ := newValued_ok h
    rw [roundTrips_of (valued_info.comes_back (length_payload hpayload))]
    show HasValue machine .info eid value _ ∧ _ ↔ _
    rw [valued_info.hasValue_iff hpayload, and_assoc, and_assoc]
    rfl
  | write eid value =>
    obtain ⟨payload, hpayload, rfl⟩ := newValued_ok h
    rw [roundTrips_of (valued_write.comes_back (length_payload hpayload))]
    show HasValue machine .write eid value _ ∧ _ ↔ _
    rw [valued_write.hasValue_iff hpayload, and_assoc, and_assoc]
    rfl

/-- Latin-1, and a calendar of one day. -/
def plain : Machine where
  decode := List.map UInt8.toUInt16
  decode_ascii _ _ := rfl
  Day := Unit
  epoch := ()
  addDays _ d := d
  addMonths _ d := d
  addYears _ d := d
  dayOfMonth _ := 1
  month _ := 0
  year _ := 1970
  dayOfWeek _ := 5

/-- The checksum of this packet is 0x7878. -/
theorem uint8_120_round_trips :
    (Built.info 67 (.uint8 120)).RoundTrips plain (.info 67 .uint8 [120]) :=
  (round_trips_iff plain (by decide)).mpr (by
    refine ⟨by decide, by decide, ?_, ?_⟩
    · show 0 ≤ (120 : JShort).toInt
      decide
    · show ([120] ++ crc _).take 2 = crc _
      decide +kernel)

theorem bool_not_round_trips :
    ¬ (Built.info 5 (.bool true)).RoundTrips plain (.info 5 .bool [1]) := by
  have hlen : [(1 : UInt8)].length = DataType.bool.size := rfl
  rw [roundTrips_of (valued_info.comes_back hlen)]
  rintro ⟨-, hcrc⟩
  exact absurd hcrc (by
    show ¬ ([1] ++ crc _).take 2 = crc _
    decide +kernel)

end Hexabus.Java
