import Hexabus.Host.Reading

/-!
# Serialize, then deserialize

What a packet object becomes on its way through `serialize` and `deserialize`
(`Packet.received`), and from it the exact set of packets that come back
unchanged: all but the date-times, whose year the reader takes for one byte, and
the values the format has no room for.
-/

namespace Hexabus.Host

open Lib.Bytes BinarySerializer BinaryDeserializer

/-! ## Values -/

/-- The value a reader makes of a serialized value; `none` where it throws. -/
def Value.received : Value → Option Value
  | .datetime _ => none
  | .timestamp t => some (.timestamp (.seconds (timestampSeconds t).toNat))
  | .string s => some (.string ⟨cString s.bytes, Nat.le_trans (cString_length_le _) s.length_le⟩)
  | v => some v

/-- The values that come back as they were. -/
def Value.Transmissible (v : Value) : Prop := v.Representable ∧ v.datatype ≠ .datetime

theorem timestampSeconds_seconds (n : UInt32) : timestampSeconds (.seconds n.toNat) = n := by
  unfold timestampSeconds
  rw [TimeDuration.totalSeconds_seconds]
  have hlt := n.toNat_lt
  have hmod : ((n.toNat : Int) % 2 ^ 32).toNat = n.toNat := by omega
  rw [hmod, UInt32.ofNat_toNat]

theorem Value.received_eq_some_self (v : Value) : v.received = some v ↔ v.Transmissible := by
  cases v with
  | timestamp t =>
    constructor
    · intro h
      simp only [received, Option.some.injEq, Value.timestamp.injEq] at h
      exact ⟨⟨timestampSeconds t, h.symm⟩, by simp [datatype]⟩
    · rintro ⟨⟨n, rfl⟩, -⟩
      rw [received, timestampSeconds_seconds]
  | string s =>
    constructor
    · intro h
      simp only [received, Option.some.injEq, Value.string.injEq] at h
      exact ⟨cString_eq_self.mp (congrArg ValueString.bytes h), by simp [datatype]⟩
    · rintro ⟨hs, -⟩
      have hc : cString s.bytes = s.bytes := cString_eq_self.mpr hs
      simp only [received, hc]
  | datetime t => simp [received, Transmissible, datatype]
  | bool b => simp [received, Transmissible, Representable, datatype]
  | uint8 b => simp [received, Transmissible, Representable, datatype]
  | uint32 b => simp [received, Transmissible, Representable, datatype]
  | float b => simp [received, Transmissible, Representable, datatype]
  | bytes16 b => simp [received, Transmissible, Representable, datatype]
  | bytes65 b => simp [received, Transmissible, Representable, datatype]

/-- A padded string is its text, a NUL and more. -/
theorem appendString_eq (s : ValueString) :
    appendString s = s.bytes ++ 0 :: List.replicate (maxLength - s.bytes.length) 0 := by
  have hle := s.length_le
  have hpad : maxLength + 1 - s.bytes.length = maxLength - s.bytes.length + 1 := by omega
  rw [appendString, hpad, List.replicate_succ]

@[simp] theorem length_appendString (s : ValueString) :
    (appendString s).length = maxLength + 1 := by
  have hle := s.length_le
  rw [appendString, List.length_append, List.length_replicate]
  omega

variable {packet rest : List UInt8} {off : Nat}

theorem readString_appendString {s : ValueString} (h : At packet off (appendString s ++ rest)) :
    (readString packet).run off = .ok (cString s.bytes, off + (maxLength + 1)) := by
  have hread := readString_at h (by rw [List.length_append, length_appendString]; omega)
    (by rw [appendString_eq]; simp)
  rw [hread, appendString_eq, List.append_assoc, List.cons_append, cString_append]

/-- Reading a value where the serializer has put it. -/
theorem readValue_appendValue {v w : Value} (hw : v.received = some w)
    (h : At packet off (appendValue v ++ rest)) :
    (readValue packet v.datatype.code).run off = .ok (w, off + (appendValue v).length) := by
  cases v with
  | bool b =>
    obtain rfl : Value.bool b = w := Option.some.inj hw
    show (do return Value.bool ((← readU8 packet) ≠ 0) : Reader Value).run off = _
    rw [run_bind (readU8_at h)]
    cases b <;> rfl
  | uint8 b =>
    obtain rfl : Value.uint8 b = w := Option.some.inj hw
    show (do return Value.uint8 (← readU8 packet) : Reader Value).run off = _
    rw [run_bind (readU8_at h)]
    rfl
  | uint32 b =>
    obtain rfl : Value.uint32 b = w := Option.some.inj hw
    show (do return Value.uint32 (← readU32 packet) : Reader Value).run off = _
    rw [run_bind (readU32_appendU32 h)]
    rfl
  | float b =>
    obtain rfl : Value.float b = w := Option.some.inj hw
    show (do return Value.float (← readU32 packet) : Reader Value).run off = _
    rw [run_bind (readU32_appendU32 h)]
    rfl
  | datetime t => cases hw
  | timestamp t =>
    obtain rfl := Option.some.inj hw
    show (do return Value.timestamp (.seconds (← readU32 packet).toNat) : Reader Value).run off = _
    rw [run_bind (readU32_appendU32 h)]
    rfl
  | string s =>
    obtain rfl := Option.some.inj hw
    show (do
      let s ← readString packet
      return Value.string (← liftM (ValueString.make s)) : Reader Value).run off = _
    have hmake : ValueString.make (cString s.bytes)
        = .ok ⟨cString s.bytes, Nat.le_trans (cString_length_le _) s.length_le⟩ :=
      ValueString.make_bytes ⟨cString s.bytes, _⟩
    rw [run_bind (readString_appendString h), hmake]
    show _ = Except.ok (_, off + (appendString s).length)
    rw [length_appendString]
    rfl
  | bytes16 b =>
    obtain rfl : Value.bytes16 b = w := Option.some.inj hw
    show (do return Value.bytes16 (← readBytes packet 16) : Reader Value).run off = _
    rw [run_bind (readBytes_at b h)]
    show _ = Except.ok (_, off + b.val.length)
    rw [b.property]
    rfl
  | bytes65 b =>
    obtain rfl : Value.bytes65 b = w := Option.some.inj hw
    show (do return Value.bytes65 (← readBytes packet 65) : Reader Value).run off = _
    rw [run_bind (readBytes_at b h)]
    show _ = Except.ok (_, off + b.val.length)
    rw [b.property]
    rfl

/-- Where nothing is received, the reader does not return. -/
theorem readValue_ne_ok {v : Value} (hv : v.received = none) (r : Value × Nat) :
    (readValue packet v.datatype.code).run off ≠ .ok r := by
  cases v with
  | datetime t => exact run_bind_ne_ok (readDatetime_ne_ok packet off) r
  | _ => cases hv

/-! ## Packets -/

/-- The packet a reader makes of a serialized packet; `none` where it throws. -/
def Packet.received : Packet → Option Packet
  | .endpointInfo eid datatype s flags =>
    some (.endpointInfo eid datatype
      ⟨cString s.bytes, Nat.le_trans (cString_length_le _) s.length_le⟩ flags)
  | .info eid value flags => value.received.map fun v => .info eid v flags
  | .write eid value flags => value.received.map fun v => .write eid v flags
  | p => some p

/-- The packets that come back as they were. -/
def Packet.Transmissible (p : Packet) : Prop := ∀ v, p.value? = some v → v.Transmissible

theorem Packet.received_eq_some_self (p : Packet) : p.received = some p ↔ p.Transmissible := by
  cases p with
  | endpointInfo eid datatype s flags =>
    have hs := Value.received_eq_some_self (.string s)
    simpa [received, Transmissible, value?, Value.received] using hs
  | info eid value flags =>
    have hv := Value.received_eq_some_self value
    simpa [received, Transmissible, value?] using hv
  | write eid value flags =>
    have hv := Value.received_eq_some_self value
    simpa [received, Transmissible, value?] using hv
  | error code flags => simp [received, Transmissible, value?]
  | query eid flags => simp [received, Transmissible, value?]
  | endpointQuery eid flags => simp [received, Transmissible, value?]

/-! ### The datagrams of the packet classes -/

theorem serialize_error (code flags : UInt8) :
    serialize (.error code flags) = appendCRC (frame PacketType.error.code flags [code]) := by
  simp [serialize, body, frame, appendHeader, Packet.type, Packet.flags]

theorem serialize_query (eid : UInt32) (flags : UInt8) :
    serialize (.query eid flags)
      = appendCRC (frame PacketType.query.code flags (appendU32 eid)) := by
  simp [serialize, body, frame, appendEIDHeader, appendHeader, Packet.type, Packet.flags]

theorem serialize_endpointQuery (eid : UInt32) (flags : UInt8) :
    serialize (.endpointQuery eid flags)
      = appendCRC (frame PacketType.epquery.code flags (appendU32 eid)) := by
  simp [serialize, body, frame, appendEIDHeader, appendHeader, Packet.type, Packet.flags]

theorem serialize_endpointInfo (eid : UInt32) (datatype : UInt8) (s : ValueString)
    (flags : UInt8) :
    serialize (.endpointInfo eid datatype s flags)
      = valueDatagram .epinfo flags eid datatype (appendString s) := by
  simp [serialize, valueDatagram, body, frame, appendValueHeader, appendEIDHeader, appendHeader,
    Packet.type, Packet.flags]

theorem serialize_info (eid : UInt32) (value : Value) (flags : UInt8) :
    serialize (.info eid value flags)
      = valueDatagram .info flags eid value.datatype.code (appendValue value) := by
  simp [serialize, valueDatagram, body, frame, appendValueHeader, appendEIDHeader, appendHeader,
    Packet.type, Packet.flags]

theorem serialize_write (eid : UInt32) (value : Value) (flags : UInt8) :
    serialize (.write eid value flags)
      = valueDatagram .write flags eid value.datatype.code (appendValue value) := by
  simp [serialize, valueDatagram, body, frame, appendValueHeader, appendEIDHeader, appendHeader,
    Packet.type, Packet.flags]

/-- **What deserialize makes of a serialized packet.** -/
theorem deserialize_serialize {p q : Packet} (hq : p.received = some q) :
    deserialize (serialize p) = .ok q := by
  cases p with
  | error code flags =>
    obtain rfl := Option.some.inj hq
    rw [serialize_error]
    apply deserialize_ok (6 + 1 + 2)
    rw [deserialize_frame]
    show (do
      let code ← readU8 _
      check _ (.error code flags) : Reader Packet).run 6 = _
    rw [run_bind (readU8_at frame_at)]
    exact check_appendCRC (At.tail frame_at)
  | query eid flags =>
    obtain rfl := Option.some.inj hq
    rw [serialize_query]
    apply deserialize_ok (6 + 4 + 2)
    rw [deserialize_frame]
    show (do
      let eid ← readU32 _
      check _ (.query eid flags) : Reader Packet).run 6 = _
    rw [run_bind (readU32_appendU32 frame_at)]
    exact check_appendCRC (At.advance frame_at)
  | endpointQuery eid flags =>
    obtain rfl := Option.some.inj hq
    rw [serialize_endpointQuery]
    apply deserialize_ok (6 + 4 + 2)
    rw [deserialize_frame]
    show (do
      let eid ← readU32 _
      check _ (.endpointQuery eid flags) : Reader Packet).run 6 = _
    rw [run_bind (readU32_appendU32 frame_at)]
    exact check_appendCRC (At.advance frame_at)
  | endpointInfo eid datatype s flags =>
    obtain rfl := Option.some.inj hq
    rw [serialize_endpointInfo]
    apply deserialize_endpointInfo (length_appendString s)
    · rw [appendString_eq]
      simp
    · rw [appendString_eq, cString_append]
  | info eid value flags =>
    obtain ⟨w, hw, rfl⟩ := Option.map_eq_some_iff.mp hq
    rw [serialize_info]
    exact deserialize_value_ok (.inl rfl) (readValue_appendValue hw value_at)
  | write eid value flags =>
    obtain ⟨w, hw, rfl⟩ := Option.map_eq_some_iff.mp hq
    rw [serialize_write]
    exact deserialize_value_ok (.inr rfl) (readValue_appendValue hw value_at)

theorem deserialize_serialize_ne_ok {p : Packet} (hp : p.received = none) (q : Packet) :
    deserialize (serialize p) ≠ .ok q := by
  cases p with
  | info eid value flags =>
    rw [serialize_info]
    exact deserialize_value_ne_ok (.inl rfl) (readValue_ne_ok (Option.map_eq_none_iff.mp hp)) q
  | write eid value flags =>
    rw [serialize_write]
    exact deserialize_value_ne_ok (.inr rfl) (readValue_ne_ok (Option.map_eq_none_iff.mp hp)) q
  | error code flags => cases hp
  | query eid flags => cases hp
  | endpointQuery eid flags => cases hp
  | endpointInfo eid datatype s flags => cases hp

/-- **The packets that survive the round trip**: those without a date-time whose
time stamp is a number of whole seconds in 32 bits and whose strings hold no NUL. -/
theorem deserialize_serialize_self_iff (p : Packet) :
    deserialize (serialize p) = .ok p ↔ p.Transmissible := by
  rw [← Packet.received_eq_some_self]
  constructor
  · intro h
    cases hq : p.received with
    | none => exact absurd h (deserialize_serialize_ne_ok hq p)
    | some q =>
      rw [deserialize_serialize hq] at h
      exact congrArg some (Except.ok.inj h)
  · exact deserialize_serialize

/-- Midday of the first day of 2013, sent as an info packet. -/
def newYearInfo : Packet :=
  .info 5 (.datetime ⟨⟨⟨2013, 1, 1⟩, by decide, by decide, by decide⟩, dayMicros / 2, by decide⟩) 0

/-- Its year arrives as 7, and the date constructor throws. -/
theorem newYearInfo_rejected : deserialize (serialize newYearInfo) = .error .outOfRange := by
  decide +kernel

end Hexabus.Host
