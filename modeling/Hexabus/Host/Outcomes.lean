import Hexabus.Host.RoundTrip

/-!
# How deserialize ends

On any bytes the deserializer returns a packet or throws a `BadPacketException`, but for two
fields: a string reads behind the end of the buffer or is too long for a packet, and a date-time
leaves the range of its class.
-/

namespace Hexabus.Host

open Lib.Bytes

namespace BinaryDeserializer

variable {packet rest : List UInt8} {off : Nat} {α β : Type}

/-! ## Readers that keep to the packet -/

/-- From a cursor within the packet the reader gets to another one, or throws a
`BadPacketException`. -/
def Orderly (packet : List UInt8) (m : Reader α) : Prop :=
  ∀ off, off ≤ packet.length →
    (∃ a off', m.run off = .ok (a, off') ∧ off' ≤ packet.length) ∨
      ∃ reason, m.run off = .error (.badPacket reason)

theorem Orderly.pure (a : α) : Orderly packet (Pure.pure a : Reader α) :=
  fun off hoff => .inl ⟨a, off, rfl, hoff⟩

theorem Orderly.throwBad (reason : String) : Orderly packet (throwBad reason : Reader α) :=
  fun _ _ => .inr ⟨reason, rfl⟩

theorem run_bind_error {m : Reader α} {f : α → Reader β} {e : Thrown}
    (h : m.run off = .error e) : (m >>= f).run off = .error e := by
  rw [StateT.run_bind, h]
  rfl

theorem Orderly.bind {m : Reader α} {f : α → Reader β} (h : Orderly packet m)
    (hf : ∀ a, Orderly packet (f a)) : Orderly packet (m >>= f) := by
  intro off hoff
  rcases h off hoff with ⟨a, off', hrun, hoff'⟩ | ⟨reason, hrun⟩
  · rw [run_bind hrun]
    exact hf a off' hoff'
  · exact .inr ⟨reason, run_bind_error hrun⟩

theorem At.of_le (h : off ≤ packet.length) : At packet off (packet.drop off) := ⟨h, rfl⟩

theorem checkLength_short {n : Nat} (h : At packet off rest) (hn : rest.length < n) :
    (checkLength packet n).run off = .error (.badPacket "Packet too short") := by
  have hlen := h.length_eq
  show (if off ≤ packet.length ∧ packet.length - off < n then
      BinaryDeserializer.throwBad "Packet too short" else Pure.pure () : Reader Unit).run off = _
  rw [if_pos (by omega)]
  rfl

/-- The pattern of every fixed-width read, on any bytes. -/
theorem fixed_cases {n : Nat} (f : List UInt8 → Reader α) (h : At packet off rest) :
    (∃ raw rest', raw.length = n ∧ rest = raw ++ rest' ∧
      (do checkLength packet n
          let raw ← peek packet n
          advance n
          f raw : Reader α).run off = (f raw).run (off + n)) ∨
    (do checkLength packet n
        let raw ← peek packet n
        advance n
        f raw : Reader α).run off = .error (.badPacket "Packet too short") := by
  by_cases hn : n ≤ rest.length
  · left
    have hat : At packet off (rest.take n ++ rest.drop n) := by
      rw [List.take_append_drop]
      exact h
    have htake : (rest.take n).length = n := List.length_take_of_le hn
    exact ⟨rest.take n, rest.drop n, htake, (List.take_append_drop n rest).symm,
      fixed_at hat htake⟩
  · right
    exact run_bind_error (checkLength_short h (Nat.lt_of_not_le hn))

theorem Orderly.fixed {n : Nat} {f : List UInt8 → Reader α}
    (hf : ∀ raw : List UInt8, raw.length = n → Orderly packet (f raw)) :
    Orderly packet (do
      checkLength packet n
      let raw ← peek packet n
      advance n
      f raw) := by
  intro off hoff
  rcases fixed_cases f (At.of_le hoff) with ⟨raw, rest', hraw, hrest, hrun⟩ | hrun
  · have hat : At packet off (raw ++ rest') := hrest ▸ At.of_le hoff
    rw [hrun]
    exact hf raw hraw _ (hat.advance' hraw).1
  · exact .inr ⟨_, hrun⟩

theorem readHeader_cases (h : At packet off rest) :
    (∃ rest', rest = hxbHeader ++ rest' ∧ (readHeader packet).run off = .ok ((), off + 4)) ∨
      ∃ reason, (readHeader packet).run off = .error (.badPacket reason) := by
  by_cases hn : 4 ≤ rest.length
  · have hsplit : rest.take 4 ++ rest.drop 4 = rest := List.take_append_drop 4 rest
    by_cases hmagic : rest.take 4 = hxbHeader
    · left
      rw [hmagic] at hsplit
      exact ⟨rest.drop 4, hsplit.symm, readHeader_at (hsplit.symm ▸ h)⟩
    · right
      have hpeek : (peek packet 4).run off = .ok (rest.take 4, off) :=
        peek_at (hsplit.symm ▸ h) (List.length_take_of_le hn)
      refine ⟨"Invalid header", ?_⟩
      unfold readHeader
      rw [run_bind (checkLength_at h hn), run_bind hpeek, if_pos hmagic]
      rfl
  · right
    exact ⟨_, run_bind_error (checkLength_short h (Nat.lt_of_not_le hn))⟩

theorem readU8_cases (h : At packet off rest) :
    (∃ b rest', rest = b :: rest' ∧ (readU8 packet).run off = .ok (b, off + 1)) ∨
      ∃ reason, (readU8 packet).run off = .error (.badPacket reason) := by
  cases rest with
  | nil => exact .inr ⟨_, run_bind_error (checkLength_short h (Nat.succ_pos 0))⟩
  | cons b rest => exact .inl ⟨b, rest, rfl, readU8_at h⟩

theorem appendU32_ofNat {raw : List UInt8} (hraw : raw.length = 4) :
    BinarySerializer.appendU32 (UInt32.ofNat (ofBe raw)) = raw := by
  have hlt : ofBe raw < 2 ^ 32 := by
    have hraw4 := ofBe_lt raw
    rw [hraw] at hraw4
    exact hraw4
  rw [BinarySerializer.appendU32, UInt32.toNat_ofNat_of_lt' hlt, ← hraw, beBytes_ofBe]

theorem readU32_cases (h : At packet off rest) :
    (∃ v rest', rest = BinarySerializer.appendU32 v ++ rest' ∧
      (readU32 packet).run off = .ok (v, off + 4)) ∨
      ∃ reason, (readU32 packet).run off = .error (.badPacket reason) := by
  rcases fixed_cases _ h with ⟨raw, rest', hraw, hrest, hrun⟩ | hrun
  · left
    refine ⟨UInt32.ofNat (ofBe raw), rest', ?_, hrun⟩
    rw [appendU32_ofNat hraw, hrest]
  · exact .inr ⟨_, hrun⟩

theorem orderly_readU8 : Orderly packet (readU8 packet) :=
  Orderly.fixed fun _ _ => Orderly.pure _

theorem orderly_readU16 : Orderly packet (readU16 packet) :=
  Orderly.fixed fun _ _ => Orderly.pure _

theorem orderly_readU32 : Orderly packet (readU32 packet) :=
  Orderly.fixed fun _ _ => Orderly.pure _

theorem orderly_readBytes (n : Nat) : Orderly packet (readBytes packet n) := by
  refine Orderly.fixed fun raw hraw => ?_
  rw [dif_pos hraw]
  exact Orderly.pure _

/-- The checksum of a packet whose cursor has not left it. -/
theorem orderly_check (p : Packet) : Orderly packet (check packet p) := by
  intro off hoff
  have hcheck : (check packet p).run off = (do
      let sum ← readU16 packet
      if crc (packet.take off) ≠ sum then throwBad "Bad checksum"
      return p : Reader Packet).run off := by
    show (if off ≤ packet.length then _ else _ : Reader Packet).run off = _
    rw [if_pos hoff]
  rw [hcheck]
  refine orderly_readU16.bind (fun sum => ?_) off hoff
  dsimp only
  split
  · exact (Orderly.throwBad _).bind fun _ => Orderly.pure p
  · exact Orderly.pure p

/-- Behind the end of the packet the checksum is computed over bytes that are not there. -/
theorem check_outside (p : Packet) (hoff : packet.length < off) :
    (check packet p).run off = .error .undefinedRead := by
  show (if off ≤ packet.length then _ else _ : Reader Packet).run off = _
  rw [if_neg (by omega)]
  rfl

/-! ## Strings -/

/-- The string field is read within the packet. -/
def StringInBounds (rest : List UInt8) : Prop :=
  rest.length < maxLength ∨ (0 ∈ rest ∧ rest.length ≠ maxLength)

theorem readString_run (h : At packet off rest) (hlen : maxLength ≤ rest.length) :
    (readString packet).run off =
      if (0 : UInt8) ∈ rest then .ok (cString rest, off + (maxLength + 1))
      else .error .undefinedRead := by
  split
  · rename_i hnul
    exact readString_at h hlen hnul
  · rename_i hnul
    unfold readString
    rw [run_bind (checkLength_at h hlen)]
    show (if (0 : UInt8) ∈ packet.drop off then _ else _ : Reader (List UInt8)).run off = _
    rw [h.2, if_neg hnul]
    rfl

/-- A packet whose last field is a string. -/
def readStringPacket (packet : List UInt8) (k : ValueString → Packet) : Reader Packet := do
  let s ← readString packet
  let value ← liftM (ValueString.make s)
  check packet (k value)

theorem run_liftM_ok {x : Except Thrown α} {a : α} (h : x = .ok a) :
    (liftM x : Reader α).run off = .ok (a, off) := by
  rw [run_liftM, h]
  rfl

theorem run_liftM_error {x : Except Thrown α} {e : Thrown} (h : x = .error e) :
    (liftM x : Reader α).run off = .error e := by
  rw [run_liftM, h]
  rfl

variable (k : ValueString → Packet)

theorem readStringPacket_short (h : At packet off rest) (hlen : rest.length < maxLength) :
    (readStringPacket packet k).run off = .error (.badPacket "Packet too short") :=
  run_bind_error (run_bind_error (checkLength_short h hlen))

/-- A string that is not terminated, or whose buffer is cut off before its last byte. -/
theorem readStringPacket_outside (h : At packet off rest) (hlen : ¬ StringInBounds rest) :
    (readStringPacket packet k).run off = .error .undefinedRead := by
  unfold StringInBounds at hlen
  push Not at hlen
  obtain ⟨hlong, hbounds⟩ := hlen
  by_cases hnul : (0 : UInt8) ∈ rest
  · have hexact : rest.length = maxLength := hbounds hnul
    have hshort : (cString rest).length ≤ maxLength := hexact ▸ cString_length_le rest
    have hread : (readString packet).run off = .ok (cString rest, off + (maxLength + 1)) :=
      readString_at h hlong hnul
    have hmake : ValueString.make (cString rest) = .ok ⟨cString rest, hshort⟩ := dif_pos hshort
    have hend := h.length_eq
    unfold readStringPacket
    rw [run_bind hread, run_bind (run_liftM_ok hmake)]
    exact check_outside _ (by omega)
  · refine run_bind_error ?_
    rw [readString_run h hlong, if_neg hnul]

theorem readStringPacket_long (h : At packet off rest) (hlen : maxLength ≤ rest.length)
    (hnul : (0 : UInt8) ∈ rest) (hlong : maxLength < (cString rest).length) :
    (readStringPacket packet k).run off = .error .outOfRange := by
  have hmake : ValueString.make (cString rest) = .error .outOfRange := dif_neg (by omega)
  unfold readStringPacket
  rw [run_bind (readString_at h hlen hnul), run_bind_error (run_liftM_error hmake)]

theorem readStringPacket_fits (h : At packet off rest) (hlen : maxLength < rest.length)
    (hnul : (0 : UInt8) ∈ rest) (hfits : (cString rest).length ≤ maxLength) :
    (∃ p off', (readStringPacket packet k).run off = .ok (p, off')) ∨
      ∃ reason, (readStringPacket packet k).run off = .error (.badPacket reason) := by
  have hmake : ValueString.make (cString rest) = .ok ⟨cString rest, hfits⟩ := dif_pos hfits
  have hend := h.length_eq
  unfold readStringPacket
  rw [run_bind (readString_at h (by omega) hnul), run_bind (run_liftM_ok hmake)]
  have hcheck : Orderly packet (check packet (k ⟨cString rest, hfits⟩)) := orderly_check _
  rcases hcheck (off + (maxLength + 1)) (by omega) with ⟨p, off', hrun, -⟩ | hbad
  · exact .inl ⟨p, off', hrun⟩
  · exact .inr hbad

/-! ## Date-times -/

theorem readU8_then_short {f : UInt8 → Reader β} {n : Nat} (h : At packet off rest)
    (hlen : rest.length < n + 1)
    (hf : ∀ b off' rest', At packet off' rest' → rest'.length < n →
      ∃ reason, (f b).run off' = .error (.badPacket reason)) :
    ∃ reason, (readU8 packet >>= f).run off = .error (.badPacket reason) := by
  cases rest with
  | nil => exact ⟨_, run_bind_error (run_bind_error (checkLength_short h (Nat.succ_pos 0)))⟩
  | cons b rest =>
    rw [run_bind (readU8_at h)]
    exact hf b _ rest h.tail (Nat.lt_of_succ_lt_succ hlen)

theorem readU8_then {f : UInt8 → Reader β} {n : Nat} {r : Except Thrown (β × Nat)}
    (h : At packet off rest) (hlen : n + 1 ≤ rest.length)
    (hf : ∀ b off' rest', At packet off' rest' → n ≤ rest'.length → (f b).run off' = r) :
    (readU8 packet >>= f).run off = r := by
  cases rest with
  | nil => exact absurd hlen (Nat.not_succ_le_zero n)
  | cons b rest =>
    rw [run_bind (readU8_at h)]
    exact hf b _ rest h.tail (Nat.le_of_succ_le_succ hlen)

theorem readDatetime_short (h : At packet off rest) (hlen : rest.length < 7) :
    ∃ reason, (readDatetime packet).run off = .error (.badPacket reason) := by
  unfold readDatetime
  refine readU8_then_short h hlen fun hour _ _ h hlen => ?_
  refine readU8_then_short h hlen fun minute _ _ h hlen => ?_
  refine readU8_then_short h hlen fun second _ _ h hlen => ?_
  refine readU8_then_short h hlen fun day _ _ h hlen => ?_
  refine readU8_then_short h hlen fun month _ _ h hlen => ?_
  refine readU8_then_short h hlen fun year _ _ h hlen => ?_
  refine readU8_then_short h hlen fun weekday _ _ h hlen => ?_
  exact absurd hlen (Nat.not_lt_zero _)

/-- A date-time that is read to its end is out of range: its year is one byte. -/
theorem readDatetime_long (h : At packet off rest) (hlen : 7 ≤ rest.length) :
    (readDatetime packet).run off = .error .outOfRange := by
  unfold readDatetime
  refine readU8_then h hlen fun hour _ _ h hlen => ?_
  refine readU8_then h hlen fun minute _ _ h hlen => ?_
  refine readU8_then h hlen fun second _ _ h hlen => ?_
  refine readU8_then h hlen fun day _ _ h hlen => ?_
  refine readU8_then h hlen fun month _ _ h hlen => ?_
  refine readU8_then h hlen fun year _ _ h hlen => ?_
  refine readU8_then h hlen fun weekday _ _ h hlen => ?_
  have hyear : year.toNat < 1400 := by
    have := year.toNat_lt
    omega
  exact run_bind_error (run_liftM_error (GregorianDate.make_of_year_lt hyear _ _))

/-! ## Whole packets -/

/-- The bytes of a packet from its value on: behind the header, type, flags, endpoint id and
data type. -/
def ValueAhead (packet : List UInt8) (type datatype : UInt8) (rest : List UInt8) : Prop :=
  ∃ flags eid, eid.length = 4 ∧
    packet = hxbHeader ++ type :: flags :: (eid ++ datatype :: rest)

/-- A string is ahead: the name in an endpoint info, or the value of an info or write packet. -/
def StringAhead (packet rest : List UInt8) : Prop :=
  (∃ datatype, ValueAhead packet PacketType.epinfo.code datatype rest) ∨
    ValueAhead packet PacketType.info.code DataType.string128.code rest ∨
    ValueAhead packet PacketType.write.code DataType.string128.code rest

/-- A date-time is ahead. -/
def DatetimeAhead (packet rest : List UInt8) : Prop :=
  ValueAhead packet PacketType.info.code DataType.datetime.code rest ∨
    ValueAhead packet PacketType.write.code DataType.datetime.code rest

theorem valueAhead_inj {type datatype type' datatype' : UInt8} {rest' : List UInt8}
    (h : ValueAhead packet type datatype rest) (h' : ValueAhead packet type' datatype' rest') :
    type = type' ∧ datatype = datatype' ∧ rest = rest' := by
  obtain ⟨flags, eid, hlen, rfl⟩ := h
  obtain ⟨flags', eid', hlen', heq⟩ := h'
  have hcons := List.append_cancel_left heq
  obtain ⟨htype, hcons⟩ := List.cons.inj hcons
  obtain ⟨-, hcons⟩ := List.cons.inj hcons
  obtain ⟨-, hcons⟩ := List.append_inj hcons (hlen.trans hlen'.symm)
  obtain ⟨hdatatype, hrest⟩ := List.cons.inj hcons
  exact ⟨htype, hdatatype, hrest⟩

theorem ValueAhead.at {type datatype : UInt8} (h : ValueAhead packet type datatype rest) :
    At packet 11 rest := by
  obtain ⟨flags, eid, hlen, rfl⟩ := h
  have hat : At (hxbHeader ++ type :: flags :: (eid ++ datatype :: rest)) 0 _ := At.start _
  have h4 : At _ (0 + 4) _ := hat.advance
  have h10 : At _ (0 + 4 + 1 + 1 + 4) _ := h4.tail.tail.advance' hlen
  exact h10.tail

/-- What is left to do behind the flags. -/
theorem deserialize_type {type flags : UInt8} {body : List UInt8}
    (hp : packet = hxbHeader ++ type :: flags :: body) :
    At packet 6 body ∧ (BinaryDeserializer.deserialize packet).run 0 =
      (deserializeType packet type flags).run 6 := by
  have h0 : At packet 0 (hxbHeader ++ type :: flags :: body) := hp ▸ At.start packet
  have h4 : At packet (0 + 4) (type :: flags :: body) := h0.advance
  refine ⟨h4.tail.tail, ?_⟩
  unfold BinaryDeserializer.deserialize
  rw [run_bind (readHeader_at h0), run_bind (readU8_at h4), run_bind (readU8_at h4.tail)]

/-- What is left to do where the value begins. -/
theorem deserialize_valueAhead {t : PacketType} (ht : t = .info ∨ t = .write) {datatype : UInt8}
    (h : ValueAhead packet t.code datatype rest) :
    ∃ eid flags, (BinaryDeserializer.deserialize packet).run 0 =
      (do let value ← readValue packet datatype
          checkInfo packet (t.code = PacketType.info.code) eid value flags : Reader Packet).run 11 := by
  obtain ⟨flags, eid, heid, hp⟩ := h
  obtain ⟨h6, hrun⟩ := deserialize_type hp
  have h10 : At packet (6 + 4) (datatype :: rest) := h6.advance' heid
  refine ⟨UInt32.ofNat (ofBe eid), flags, ?_⟩
  rw [hrun, deserializeType_value ht, run_bind (readU32_at h6 heid), run_bind (readU8_at h10)]

theorem deserialize_epinfoAhead {datatype : UInt8}
    (h : ValueAhead packet PacketType.epinfo.code datatype rest) :
    ∃ k, (BinaryDeserializer.deserialize packet).run 0 = (readStringPacket packet k).run 11 := by
  obtain ⟨flags, eid, heid, hp⟩ := h
  obtain ⟨h6, hrun⟩ := deserialize_type hp
  have h10 : At packet (6 + 4) (datatype :: rest) := h6.advance' heid
  refine ⟨fun value => .endpointInfo (UInt32.ofNat (ofBe eid)) datatype value flags, ?_⟩
  rw [hrun, deserializeType_epinfo, run_bind (readU32_at h6 heid), run_bind (readU8_at h10)]
  rfl

/-- A string value is read as the last field of its packet. -/
theorem readValue_string (p : Prop) [Decidable p] (eid : UInt32) (flags : UInt8) :
    (do let value ← readValue packet DataType.string128.code
        checkInfo packet p eid value flags : Reader Packet) =
      readStringPacket packet fun s =>
        if p then .info eid (.string s) flags else .write eid (.string s) flags := by
  show (do
    let value ← (do
      let s ← readString packet
      return Value.string (← liftM (ValueString.make s)) : Reader Value)
    checkInfo packet p eid value flags) = _
  simp only [readStringPacket, checkInfo, bind_assoc, pure_bind, decide_eq_true_eq]

theorem readValue_datetime (f : Value → Reader β) :
    readValue packet DataType.datetime.code >>= f =
      readDatetime packet >>= fun t => f (.datetime t) := by
  show (do return Value.datetime (← readDatetime packet) : Reader Value) >>= f = _
  simp only [bind_assoc, pure_bind]

/-- The values other than strings and date-times are read in order. -/
theorem orderly_readValue {datatype : UInt8} (hstring : datatype ≠ DataType.string128.code)
    (hdatetime : datatype ≠ DataType.datetime.code) : Orderly packet (readValue packet datatype) := by
  unfold readValue
  split
  case _ => exact orderly_readU8.bind fun _ => .pure _
  case _ => exact orderly_readU8.bind fun _ => .pure _
  case _ => exact orderly_readU32.bind fun _ => .pure _
  case _ => exact orderly_readU32.bind fun _ => .pure _
  case _ h => exact absurd (DataType.eq_code_of_ofCode h) hdatetime
  case _ => exact orderly_readU32.bind fun _ => .pure _
  case _ h => exact absurd (DataType.eq_code_of_ofCode h) hstring
  case _ => exact (orderly_readBytes 16).bind fun _ => .pure _
  case _ => exact (orderly_readBytes 65).bind fun _ => .pure _
  case _ => exact .throwBad _
  case _ => exact .throwBad _

/-- The outcomes the socket handles: a packet or a `BadPacketException`. -/
def Handled (r : Except Thrown β) : Prop :=
  (∃ a, r = .ok a) ∨ ∃ reason, r = .error (.badPacket reason)

theorem Orderly.handled {m : Reader α} (h : Orderly packet m) (hoff : off ≤ packet.length) :
    Handled (m.run off) := by
  rcases h off hoff with ⟨a, off', hrun, -⟩ | hbad
  · exact .inl ⟨_, hrun⟩
  · exact .inr hbad

/-- Up to the value nothing but the length can be wrong with a packet. -/
theorem valueAhead_or_handled {t : PacketType} {flags : UInt8} {body : List UInt8}
    {f : UInt32 → UInt8 → Reader β} (hp : packet = hxbHeader ++ t.code :: flags :: body) :
    (∃ datatype rest, ValueAhead packet t.code datatype rest) ∨
      Handled ((do
        let eid ← readU32 packet
        let datatype ← readU8 packet
        f eid datatype : Reader β).run 6) := by
  obtain ⟨h6, -⟩ := deserialize_type hp
  rcases readU32_cases h6 with ⟨eid, body', rfl, hrun⟩ | ⟨reason, hrun⟩
  · have h10 : At packet (6 + 4) body' := h6.advance' (length_beBytes 4 _)
    rcases readU8_cases h10 with ⟨datatype, rest, rfl, -⟩ | ⟨reason, hrun'⟩
    · exact .inl ⟨datatype, rest, flags, _, length_beBytes 4 _, hp⟩
    · refine .inr (.inr ⟨reason, ?_⟩)
      rw [run_bind hrun]
      exact run_bind_error hrun'
  · exact .inr (.inr ⟨reason, run_bind_error hrun⟩)

theorem deserialize_stringAhead (h : StringAhead packet rest) :
    ∃ k, (BinaryDeserializer.deserialize packet).run 0 = (readStringPacket packet k).run 11 := by
  rcases h with ⟨datatype, h⟩ | h | h
  · exact deserialize_epinfoAhead h
  · obtain ⟨eid, flags, hrun⟩ := deserialize_valueAhead (.inl rfl) h
    exact ⟨_, hrun.trans (by rw [readValue_string])⟩
  · obtain ⟨eid, flags, hrun⟩ := deserialize_valueAhead (.inr rfl) h
    exact ⟨_, hrun.trans (by rw [readValue_string])⟩

theorem deserialize_datetimeAhead (h : DatetimeAhead packet rest) :
    ∃ f : PTime → Reader Packet,
      (BinaryDeserializer.deserialize packet).run 0 = (readDatetime packet >>= f).run 11 := by
  rcases h with h | h
  · obtain ⟨eid, flags, hrun⟩ := deserialize_valueAhead (.inl rfl) h
    exact ⟨_, hrun.trans (by rw [readValue_datetime])⟩
  · obtain ⟨eid, flags, hrun⟩ := deserialize_valueAhead (.inr rfl) h
    exact ⟨_, hrun.trans (by rw [readValue_datetime])⟩

theorem handled_value {t : PacketType} (ht : t = .info ∨ t = .write) {flags : UInt8}
    {body : List UInt8} (hp : packet = hxbHeader ++ t.code :: flags :: body)
    (hstring : ∀ rest, ¬ ValueAhead packet t.code DataType.string128.code rest)
    (hdatetime : ∀ rest, ¬ ValueAhead packet t.code DataType.datetime.code rest) :
    Handled ((BinaryDeserializer.deserialize packet).run 0) := by
  obtain ⟨-, hrun⟩ := deserialize_type hp
  rcases valueAhead_or_handled hp with ⟨datatype, rest, hahead⟩ | hhandled
  · obtain ⟨eid, flags, hvalue⟩ := deserialize_valueAhead ht hahead
    have hread : Orderly packet (readValue packet datatype) :=
      orderly_readValue (fun h => hstring rest (h ▸ hahead)) fun h => hdatetime rest (h ▸ hahead)
    rw [hvalue]
    exact (hread.bind fun value => orderly_check _).handled hahead.at.1
  · rw [hrun, deserializeType_value ht]
    exact hhandled

/-- Without a string or a date-time ahead the reader ends as it should. -/
theorem handled_of_not_ahead (hstring : ∀ rest, ¬ StringAhead packet rest)
    (hdatetime : ∀ rest, ¬ DatetimeAhead packet rest) :
    Handled ((BinaryDeserializer.deserialize packet).run 0) := by
  rcases readHeader_cases (At.start packet) with ⟨rest, hrest, hheader⟩ | ⟨reason, hheader⟩
  swap
  · exact .inr ⟨reason, run_bind_error hheader⟩
  have h0 : At packet 0 (hxbHeader ++ rest) := hrest ▸ At.start packet
  have h4 : At packet (0 + 4) rest := h0.advance
  rcases readU8_cases h4 with ⟨type, rest, rfl, htype⟩ | ⟨reason, htype⟩
  swap
  · refine .inr ⟨reason, ?_⟩
    unfold BinaryDeserializer.deserialize
    rw [run_bind hheader]
    exact run_bind_error htype
  rcases readU8_cases h4.tail with ⟨flags, body, rfl, hflags⟩ | ⟨reason, hflags⟩
  swap
  · refine .inr ⟨reason, ?_⟩
    unfold BinaryDeserializer.deserialize
    rw [run_bind hheader, run_bind htype]
    exact run_bind_error hflags
  obtain ⟨h6, hrun⟩ := deserialize_type hrest
  cases hcode : PacketType.ofCode type with
  | none =>
    rw [hrun, deserializeType, hcode]
    exact (Orderly.throwBad _).handled h6.1
  | some t =>
    obtain rfl := PacketType.eq_code_of_ofCode hcode
    cases t with
    | error =>
      rw [hrun]
      exact (orderly_readU8.bind fun _ => orderly_check _).handled h6.1
    | query =>
      rw [hrun]
      exact (orderly_readU32.bind fun _ => orderly_check _).handled h6.1
    | epquery =>
      rw [hrun]
      exact (orderly_readU32.bind fun _ => orderly_check _).handled h6.1
    | info =>
      exact handled_value (.inl rfl) hrest (fun r h => hstring r (.inr (.inl h)))
        fun r h => hdatetime r (.inl h)
    | write =>
      exact handled_value (.inr rfl) hrest (fun r h => hstring r (.inr (.inr h)))
        fun r h => hdatetime r (.inr h)
    | epinfo =>
      rcases valueAhead_or_handled hrest with ⟨datatype, r, hahead⟩ | hhandled
      · exact absurd (.inl ⟨datatype, hahead⟩) (hstring r)
      · rw [hrun, deserializeType_epinfo]
        exact hhandled

/-! ## What escapes -/

theorem DatetimeAhead.not_stringAhead {rest' : List UInt8} (h : DatetimeAhead packet rest) :
    ¬ StringAhead packet rest' := by
  intro h'
  rcases h with h | h <;> rcases h' with ⟨datatype, h'⟩ | h' | h'
  · exact absurd (valueAhead_inj h h').1 (by decide)
  · exact absurd (valueAhead_inj h h').2.1 (by decide)
  · exact absurd (valueAhead_inj h h').1 (by decide)
  · exact absurd (valueAhead_inj h h').1 (by decide)
  · exact absurd (valueAhead_inj h h').1 (by decide)
  · exact absurd (valueAhead_inj h h').2.1 (by decide)

theorem StringAhead.inj {rest' : List UInt8} (h : StringAhead packet rest)
    (h' : StringAhead packet rest') : rest = rest' := by
  rcases h with ⟨_, h⟩ | h | h <;> rcases h' with ⟨_, h'⟩ | h' | h' <;>
    exact (valueAhead_inj h h').2.2

theorem DatetimeAhead.inj {rest' : List UInt8} (h : DatetimeAhead packet rest)
    (h' : DatetimeAhead packet rest') : rest = rest' := by
  rcases h with h | h <;> rcases h' with h' | h' <;> exact (valueAhead_inj h h').2.2

theorem StringAhead.at (h : StringAhead packet rest) : At packet 11 rest := by
  rcases h with ⟨_, h⟩ | h | h <;> exact h.at

theorem DatetimeAhead.at (h : DatetimeAhead packet rest) : At packet 11 rest := by
  rcases h with h | h <;> exact h.at

/-- The string field is cut off before the check, or it is a string that fits a packet and
lies within the bytes received. -/
def StringFits (rest : List UInt8) : Prop :=
  rest.length < maxLength ∨
    (0 ∈ rest ∧ rest.length ≠ maxLength ∧ (cString rest).length ≤ maxLength)

theorem readStringPacket_handled_iff (h : At packet off rest) :
    Handled ((readStringPacket packet k).run off) ↔ StringFits rest := by
  by_cases hlen : rest.length < maxLength
  · exact iff_of_true (.inr ⟨_, readStringPacket_short k h hlen⟩) (.inl hlen)
  by_cases hbounds : StringInBounds rest
  · obtain ⟨hnul, hexact⟩ := hbounds.resolve_left hlen
    by_cases hfits : (cString rest).length ≤ maxLength
    · refine iff_of_true ?_ (.inr ⟨hnul, hexact, hfits⟩)
      rcases readStringPacket_fits k h (by omega) hnul hfits with ⟨p, off', hrun⟩ | hbad
      · exact .inl ⟨_, hrun⟩
      · exact .inr hbad
    · refine iff_of_false ?_ fun hf => hfits (hf.resolve_left hlen).2.2
      rw [readStringPacket_long k h (by omega) hnul (by omega)]
      rintro (⟨_, hr⟩ | ⟨_, hr⟩) <;> cases hr
  · refine iff_of_false ?_ fun hf => hbounds (.inr ⟨(hf.resolve_left hlen).1, (hf.resolve_left hlen).2.1⟩)
    rw [readStringPacket_outside k h hbounds]
    rintro (⟨_, hr⟩ | ⟨_, hr⟩) <;> cases hr

theorem readDatetime_handled_iff (f : PTime → Reader β) (h : At packet off rest) :
    Handled ((readDatetime packet >>= f).run off) ↔ rest.length < 7 := by
  by_cases hlen : rest.length < 7
  · obtain ⟨reason, hrun⟩ := readDatetime_short h hlen
    exact iff_of_true (.inr ⟨reason, run_bind_error hrun⟩) hlen
  · refine iff_of_false ?_ hlen
    rw [run_bind_error (readDatetime_long h (by omega))]
    rintro (⟨_, hr⟩ | ⟨_, hr⟩) <;> cases hr

end BinaryDeserializer

open BinaryDeserializer

theorem handled_deserialize {b : List UInt8} :
    Handled (deserialize b) ↔ Handled ((BinaryDeserializer.deserialize b).run 0) := by
  show Handled (Prod.fst <$> (BinaryDeserializer.deserialize b).run 0) ↔ _
  cases (BinaryDeserializer.deserialize b).run 0 with
  | ok r => exact iff_of_true (.inl ⟨_, rfl⟩) (.inl ⟨_, rfl⟩)
  | error e =>
    constructor
    · rintro (⟨_, hr⟩ | ⟨reason, hr⟩) <;> cases hr
      exact .inr ⟨reason, rfl⟩
    · rintro (⟨_, hr⟩ | ⟨reason, hr⟩) <;> cases hr
      exact .inr ⟨reason, rfl⟩

/-- **When deserialize ends in a packet or a `BadPacketException`**: a string that is ahead
fits, and a date-time that is ahead is cut off. -/
theorem deserialize_handled_iff (b : List UInt8) :
    Handled (deserialize b) ↔
      (∀ rest, StringAhead b rest → StringFits rest) ∧
        ∀ rest, DatetimeAhead b rest → rest.length < 7 := by
  rw [handled_deserialize]
  by_cases hstring : ∃ rest, StringAhead b rest
  · obtain ⟨rest, hahead⟩ := hstring
    obtain ⟨k, hrun⟩ := deserialize_stringAhead hahead
    rw [hrun, readStringPacket_handled_iff k hahead.at]
    constructor
    · exact fun hfits => ⟨fun rest' h => hahead.inj h ▸ hfits,
        fun rest' h => absurd hahead h.not_stringAhead⟩
    · exact fun h => h.1 rest hahead
  · push Not at hstring
    by_cases hdatetime : ∃ rest, DatetimeAhead b rest
    · obtain ⟨rest, hahead⟩ := hdatetime
      obtain ⟨f, hrun⟩ := deserialize_datetimeAhead hahead
      rw [hrun, readDatetime_handled_iff f hahead.at]
      constructor
      · exact fun hlen => ⟨fun rest' h => absurd h (hstring rest'),
          fun rest' h => hahead.inj h ▸ hlen⟩
      · exact fun h => h.2 rest hahead
    · push Not at hdatetime
      exact iff_of_true (handled_of_not_ahead hstring hdatetime)
        ⟨fun rest h => absurd h (hstring rest), fun rest h => absurd h (hdatetime rest)⟩

/-- A clock that sends its time leaves the reader with a `std::out_of_range`. -/
theorem datetime_escapes : ¬ Handled (deserialize (serialize newYearInfo)) := by
  have hrun : deserialize (serialize newYearInfo) = .error .outOfRange := by decide +kernel
  rw [hrun]
  rintro (⟨_, hr⟩ | ⟨_, hr⟩) <;> cases hr

end Hexabus.Host
