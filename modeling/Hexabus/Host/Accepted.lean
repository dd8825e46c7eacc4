import Hexabus.Host.Outcomes

/-!
# What deserialize accepts

The bytes behind an accepted packet, read backwards from the result: a frame whose payload
spells the packet, its checksum, and anything behind it. The reader takes several spellings
for one packet; the serializer writes one of them.
-/

namespace Hexabus.Host

open Lib.Bytes BinarySerializer

/-! ## Spellings -/

/-- The bytes that are read as a value. -/
inductive Value.Spelling : Value → List UInt8 → Prop
  | bool (b : UInt8) : Spelling (.bool (b ≠ 0)) [b]
  | uint8 (b : UInt8) : Spelling (.uint8 b) [b]
  | uint32 (v : UInt32) : Spelling (.uint32 v) (appendU32 v)
  | float (v : UInt32) : Spelling (.float v) (appendU32 v)
  | timestamp (v : UInt32) : Spelling (.timestamp (.seconds v.toNat)) (appendU32 v)
  | string (s : ValueString) (buf : List UInt8) (hlen : buf.length = maxLength + 1)
      (hnul : 0 ∈ buf) (hs : cString buf = s.bytes) : Spelling (.string s) buf
  | bytes16 (b : Block 16) : Spelling (.bytes16 b) b.val
  | bytes65 (b : Block 65) : Spelling (.bytes65 b) b.val

/-- The bytes behind the flags that are read as a packet. -/
inductive Packet.Spelling : Packet → List UInt8 → Prop
  | error (code flags : UInt8) : Spelling (.error code flags) [code]
  | query (eid : UInt32) (flags : UInt8) : Spelling (.query eid flags) (appendU32 eid)
  | endpointQuery (eid : UInt32) (flags : UInt8) :
      Spelling (.endpointQuery eid flags) (appendU32 eid)
  | endpointInfo (eid : UInt32) (datatype flags : UInt8) {s : ValueString} {buf : List UInt8}
      (hs : Value.Spelling (.string s) buf) :
      Spelling (.endpointInfo eid datatype s flags) (appendU32 eid ++ datatype :: buf)
  | info (eid : UInt32) (flags : UInt8) {value : Value} {bytes : List UInt8}
      (hv : value.Spelling bytes) :
      Spelling (.info eid value flags) (appendU32 eid ++ value.datatype.code :: bytes)
  | write (eid : UInt32) (flags : UInt8) {value : Value} {bytes : List UInt8}
      (hv : value.Spelling bytes) :
      Spelling (.write eid value flags) (appendU32 eid ++ value.datatype.code :: bytes)

namespace BinaryDeserializer

variable {packet rest : List UInt8} {off off' : Nat}

/-! ## Readers that returned -/

theorem run_pure_ok {α : Type} {a a' : α} (h : (pure a : Reader α).run off = .ok (a', off')) :
    a = a' ∧ off = off' := by
  have hpair : (Except.ok (a, off) : Except Thrown (α × Nat)) = .ok (a', off') := h
  exact Prod.mk.inj (Except.ok.inj hpair)

theorem readU8_ok {b : UInt8} (h : At packet off rest)
    (hrun : (readU8 packet).run off = .ok (b, off')) :
    ∃ rest', rest = b :: rest' ∧ off' = off + 1 := by
  rcases readU8_cases h with ⟨b', rest', hrest, hrun'⟩ | ⟨reason, hrun'⟩ <;> rw [hrun'] at hrun
  · obtain ⟨rfl, rfl⟩ := run_pure_ok hrun
    exact ⟨rest', hrest, rfl⟩
  · cases hrun

theorem readU32_ok {v : UInt32} (h : At packet off rest)
    (hrun : (readU32 packet).run off = .ok (v, off')) :
    ∃ rest', rest = appendU32 v ++ rest' ∧ off' = off + 4 := by
  rcases readU32_cases h with ⟨v', rest', hrest, hrun'⟩ | ⟨reason, hrun'⟩ <;> rw [hrun'] at hrun
  · obtain ⟨rfl, rfl⟩ := run_pure_ok hrun
    exact ⟨rest', hrest, rfl⟩
  · cases hrun

theorem readBytes_ok {n : Nat} {b : Block n} (h : At packet off rest)
    (hrun : (readBytes packet n).run off = .ok (b, off')) :
    ∃ rest', rest = b.val ++ rest' ∧ off' = off + n := by
  by_cases hn : n ≤ rest.length
  · have hsplit : rest.take n ++ rest.drop n = rest := List.take_append_drop n rest
    have hat : At packet off (rest.take n ++ rest.drop n) := hsplit.symm ▸ h
    rw [readBytes_at ⟨rest.take n, List.length_take_of_le hn⟩ hat] at hrun
    obtain ⟨rfl, rfl⟩ := run_pure_ok hrun
    exact ⟨rest.drop n, hsplit.symm, rfl⟩
  · have hread : (readBytes packet n).run off = .error (.badPacket "Packet too short") :=
      run_bind_error (checkLength_short h (by omega))
    rw [hread] at hrun
    cases hrun

/-- A string that is read within the packet and fits a value has its terminator in its buffer. -/
theorem readString_ok {s : List UInt8} (h : At packet off rest)
    (hrun : (readString packet).run off = .ok (s, off')) (hend : off' ≤ packet.length)
    (hs : s.length ≤ maxLength) :
    ∃ buf rest', buf.length = maxLength + 1 ∧ (0 : UInt8) ∈ buf ∧ cString buf = s ∧
      rest = buf ++ rest' ∧ off' = off + (maxLength + 1) := by
  by_cases hlen : maxLength ≤ rest.length
  · rw [readString_run h hlen] at hrun
    split at hrun
    · obtain ⟨rfl, rfl⟩ := run_pure_ok hrun
      have hfull := h.length_eq
      have hbuf : (rest.take (maxLength + 1)).length = maxLength + 1 :=
        List.length_take_of_le (by omega)
      have hrest : rest.take (maxLength + 1) ++ rest.drop (maxLength + 1) = rest :=
        List.take_append_drop _ _
      have hat : At packet off (rest.take (maxLength + 1) ++ rest.drop (maxLength + 1)) :=
        hrest.symm ▸ h
      have hread : (readString packet).run off = .ok (cString rest, off + (maxLength + 1)) :=
        readString_at h hlen ‹_›
      by_cases hnul : (0 : UInt8) ∈ rest.take (maxLength + 1)
      · have hread' := readString_buffer hat hbuf hnul
        rw [hread] at hread'
        obtain ⟨hc, -⟩ := run_pure_ok hread'
        exact ⟨_, _, hbuf, hnul, hc.symm, hrest.symm, rfl⟩
      · exact absurd (readString_unterminated hat hbuf hnul hread) (by omega)
    · cases hrun
  · have hread : (readString packet).run off = .error (.badPacket "Packet too short") :=
      run_bind_error (checkLength_short h (by omega))
    rw [hread] at hrun
    cases hrun

theorem readU16_ok {v : UInt16} (h : At packet off rest)
    (hrun : (readU16 packet).run off = .ok (v, off')) :
    ∃ rest', rest = appendU16 v ++ rest' ∧ off' = off + 2 := by
  rcases fixed_cases (fun raw => (return UInt16.ofNat (ofBe raw) : Reader UInt16)) h with
    ⟨raw, rest', hraw, hrest, hrun'⟩ | hrun'
  · have hread : (readU16 packet).run off = .ok (UInt16.ofNat (ofBe raw), off + 2) := hrun'
    rw [hread] at hrun
    obtain ⟨rfl, rfl⟩ := run_pure_ok hrun
    have hlt : ofBe raw < 2 ^ 16 := by
      have hraw2 := ofBe_lt raw
      rw [hraw] at hraw2
      exact hraw2
    refine ⟨rest', ?_, rfl⟩
    rw [appendU16, UInt16.toNat_ofNat_of_lt' hlt, ← hraw, beBytes_ofBe, hrest]
  · have hread : (readU16 packet).run off = .error (.badPacket "Packet too short") := hrun'
    rw [hread] at hrun
    cases hrun

/-- The check lets a packet pass whose next two bytes are the checksum of all before. -/
theorem check_ok {p q : Packet} (hrun : (check packet p).run off = .ok (q, off')) :
    p = q ∧ off ≤ packet.length ∧
      ∃ trailing, packet.drop off = appendU16 (crc (packet.take off)) ++ trailing := by
  by_cases hoff : off ≤ packet.length
  swap
  · rw [check_outside p (by omega)] at hrun
    cases hrun
  have hcheck : (do
      let sum ← readU16 packet
      if crc (packet.take off) ≠ sum then throwBad "Bad checksum"
      return p : Reader Packet).run off = .ok (q, off') := by
    have hrun' : (if off ≤ packet.length then _ else _ : Reader Packet).run off = _ := hrun
    rwa [if_pos hoff] at hrun'
  obtain ⟨sum, off1, hsum, hcheck⟩ := run_bind_ok hcheck
  obtain ⟨trailing, hdrop, -⟩ := readU16_ok (At.of_le hoff) hsum
  dsimp only at hcheck
  split at hcheck
  · cases hcheck
  · rename_i heq
    obtain ⟨rfl, -⟩ := run_pure_ok hcheck
    rw [ne_eq, not_not] at heq
    exact ⟨rfl, hoff, trailing, by rw [hdrop, heq]⟩

theorem make_ok {bytes : List UInt8} {s : ValueString}
    (hrun : (liftM (ValueString.make bytes) : Reader ValueString).run off = .ok (s, off')) :
    s.bytes = bytes ∧ off = off' := by
  rw [run_liftM] at hrun
  by_cases hlen : bytes.length ≤ maxLength
  · have hmake : ValueString.make bytes = .ok ⟨bytes, hlen⟩ := dif_pos hlen
    rw [hmake] at hrun
    cases hrun
    exact ⟨rfl, rfl⟩
  · have hmake : ValueString.make bytes = .error .outOfRange := dif_neg hlen
    rw [hmake] at hrun
    cases hrun

/-- A value that was read is spelled by the bytes it was read from. -/
theorem readValue_ok {datatype : UInt8} {v : Value} (h : At packet off rest)
    (hrun : (readValue packet datatype).run off = .ok (v, off')) (hend : off' ≤ packet.length) :
    ∃ bytes rest', v.Spelling bytes ∧ datatype = v.datatype.code ∧ rest = bytes ++ rest' ∧
      off' = off + bytes.length := by
  unfold readValue at hrun
  split at hrun
  case _ hcode =>
    obtain ⟨b, off1, hread, hrun⟩ := run_bind_ok hrun
    obtain ⟨rest', rfl, rfl⟩ := readU8_ok h hread
    obtain ⟨rfl, rfl⟩ := run_pure_ok hrun
    exact ⟨[b], rest', .bool b, DataType.eq_code_of_ofCode hcode, rfl, rfl⟩
  case _ hcode =>
    obtain ⟨b, off1, hread, hrun⟩ := run_bind_ok hrun
    obtain ⟨rest', rfl, rfl⟩ := readU8_ok h hread
    obtain ⟨rfl, rfl⟩ := run_pure_ok hrun
    exact ⟨[b], rest', .uint8 b, DataType.eq_code_of_ofCode hcode, rfl, rfl⟩
  case _ hcode =>
    obtain ⟨v, off1, hread, hrun⟩ := run_bind_ok hrun
    obtain ⟨rest', rfl, rfl⟩ := readU32_ok h hread
    obtain ⟨rfl, rfl⟩ := run_pure_ok hrun
    exact ⟨_, rest', .uint32 v, DataType.eq_code_of_ofCode hcode, rfl, rfl⟩
  case _ hcode =>
    obtain ⟨v, off1, hread, hrun⟩ := run_bind_ok hrun
    obtain ⟨rest', rfl, rfl⟩ := readU32_ok h hread
    obtain ⟨rfl, rfl⟩ := run_pure_ok hrun
    exact ⟨_, rest', .float v, DataType.eq_code_of_ofCode hcode, rfl, rfl⟩
  case _ hcode =>
    obtain ⟨t, off1, hread, -⟩ := run_bind_ok hrun
    exact absurd hread (readDatetime_ne_ok packet off _)
  case _ hcode =>
    obtain ⟨v, off1, hread, hrun⟩ := run_bind_ok hrun
    obtain ⟨rest', rfl, rfl⟩ := readU32_ok h hread
    obtain ⟨rfl, rfl⟩ := run_pure_ok hrun
    exact ⟨_, rest', .timestamp v, DataType.eq_code_of_ofCode hcode, rfl, rfl⟩
  case _ hcode =>
    obtain ⟨bytes, off1, hread, hrun⟩ := run_bind_ok hrun
    obtain ⟨s, off2, hmake, hrun⟩ := run_bind_ok hrun
    obtain ⟨hs, rfl⟩ := make_ok hmake
    obtain ⟨rfl, rfl⟩ := run_pure_ok hrun
    obtain ⟨buf, rest', hlen, hnul, hc, rfl, rfl⟩ :=
      readString_ok h hread hend (hs ▸ s.length_le)
    exact ⟨buf, rest', .string s buf hlen hnul (hc.trans hs.symm),
      DataType.eq_code_of_ofCode hcode, rfl, by rw [hlen]⟩
  case _ hcode =>
    obtain ⟨b, off1, hread, hrun⟩ := run_bind_ok hrun
    obtain ⟨rest', rfl, rfl⟩ := readBytes_ok h hread
    obtain ⟨rfl, rfl⟩ := run_pure_ok hrun
    exact ⟨_, rest', .bytes16 b, DataType.eq_code_of_ofCode hcode, rfl, by rw [b.property]⟩
  case _ hcode =>
    obtain ⟨b, off1, hread, hrun⟩ := run_bind_ok hrun
    obtain ⟨rest', rfl, rfl⟩ := readBytes_ok h hread
    obtain ⟨rfl, rfl⟩ := run_pure_ok hrun
    exact ⟨_, rest', .bytes65 b, DataType.eq_code_of_ofCode hcode, rfl, by rw [b.property]⟩
  case _ => cases hrun
  case _ => cases hrun

/-- A packet that passes the check behind its payload is a closed frame and a tail. -/
theorem frame_of_check {type flags : UInt8} (payload : List UInt8) {p q : Packet}
    (hp : packet = hxbHeader ++ type :: flags :: (payload ++ rest))
    (hrun : (check packet p).run (6 + payload.length) = .ok (q, off')) :
    p = q ∧ ∃ trailing, packet = appendCRC (frame type flags payload) ++ trailing := by
  obtain ⟨heq, -, trailing, hdrop⟩ := check_ok hrun
  have hsplit : packet = frame type flags payload ++ rest := by
    rw [hp, frame, List.append_assoc]
    rfl
  have hlen : (frame type flags payload).length = 6 + payload.length := by
    simp only [frame, List.length_append, length_hxbHeader, List.length_cons]
    omega
  have htake : packet.take (6 + payload.length) = frame type flags payload := by
    rw [hsplit, ← hlen, List.take_left]
  refine ⟨heq, trailing, ?_⟩
  rw [appendCRC, List.append_assoc, ← htake, ← hdrop, List.take_append_drop]

/-- Behind the header: the type and the flags. -/
theorem deserialize_run_ok {p : Packet}
    (hrun : (BinaryDeserializer.deserialize packet).run 0 = .ok (p, off')) :
    ∃ type flags body, packet = hxbHeader ++ type :: flags :: body ∧
      (deserializeType packet type flags).run 6 = .ok (p, off') := by
  obtain ⟨_, off1, hheader, hrun'⟩ := run_bind_ok hrun
  rcases readHeader_cases (At.start packet) with ⟨body, hp, hheader'⟩ | ⟨reason, hheader'⟩ <;>
    rw [hheader'] at hheader
  swap
  · cases hheader
  cases hheader
  have h0 : At packet 0 (hxbHeader ++ body) := hp ▸ At.start packet
  have h4 : At packet (0 + 4) body := h0.advance
  obtain ⟨type, off1, htype, hrun'⟩ := run_bind_ok hrun'
  obtain ⟨body, rfl, rfl⟩ := readU8_ok h4 htype
  obtain ⟨flags, off1, hflags, hrun'⟩ := run_bind_ok hrun'
  obtain ⟨body, rfl, rfl⟩ := readU8_ok h4.tail hflags
  exact ⟨type, flags, body, hp, hrun'⟩

theorem spelling_value {t : PacketType} (ht : t = .info ∨ t = .write) {flags : UInt8}
    {body : List UInt8} {p : Packet} (hp : packet = hxbHeader ++ t.code :: flags :: body)
    (hrun : (deserializeType packet t.code flags).run 6 = .ok (p, off')) :
    ∃ eid value bytes trailing, value.Spelling bytes ∧
      p = (if t = .info then .info eid value flags else .write eid value flags) ∧
      packet = appendCRC (frame t.code flags (appendU32 eid ++ value.datatype.code :: bytes))
        ++ trailing := by
  obtain ⟨h6, -⟩ := deserialize_type hp
  rw [deserializeType_value ht] at hrun
  obtain ⟨eid, off1, heid, hrun⟩ := run_bind_ok hrun
  obtain ⟨body, rfl, rfl⟩ := readU32_ok h6 heid
  have h10 : At packet (6 + 4) body := h6.advance' (length_beBytes 4 _)
  obtain ⟨datatype, off1, hdatatype, hrun⟩ := run_bind_ok hrun
  obtain ⟨body, rfl, rfl⟩ := readU8_ok h10 hdatatype
  obtain ⟨value, off1, hvalue, hrun⟩ := run_bind_ok hrun
  have hend : off1 ≤ packet.length := (check_ok hrun).2.1
  obtain ⟨bytes, rest, hspell, rfl, rfl, rfl⟩ := readValue_ok h10.tail hvalue hend
  have hp' : packet = hxbHeader ++ t.code :: flags ::
      ((appendU32 eid ++ value.datatype.code :: bytes) ++ rest) := by
    rw [hp, List.append_assoc]
    rfl
  have hoff : 6 + 4 + 1 + bytes.length
      = 6 + (appendU32 eid ++ value.datatype.code :: bytes).length := by
    simp only [List.length_append, List.length_cons, appendU32, length_beBytes]
    omega
  rw [hoff] at hrun
  obtain ⟨hpacket, trailing, hframe⟩ := frame_of_check _ hp' hrun
  refine ⟨eid, value, bytes, trailing, hspell, ?_, hframe⟩
  rcases ht with rfl | rfl <;> exact hpacket.symm

end BinaryDeserializer

open BinaryDeserializer

theorem deserialize_eq_ok {b : List UInt8} {p : Packet} (h : deserialize b = .ok p) :
    ∃ off, (BinaryDeserializer.deserialize b).run 0 = .ok (p, off) := by
  have hmap : Prod.fst <$> (BinaryDeserializer.deserialize b).run 0 = .ok p := h
  cases hrun : (BinaryDeserializer.deserialize b).run 0 with
  | error e =>
    rw [hrun] at hmap
    cases hmap
  | ok r =>
    rw [hrun] at hmap
    cases hmap
    exact ⟨r.2, rfl⟩

/-- **An accepted packet is spelled by its bytes**, up to the checksum; what lies behind is
not looked at. -/
theorem spelling_of_deserialize {b : List UInt8} {p : Packet} (h : deserialize b = .ok p) :
    ∃ payload trailing, p.Spelling payload ∧
      b = appendCRC (frame p.type.code p.flags payload) ++ trailing := by
  obtain ⟨off, hrun⟩ := deserialize_eq_ok h
  obtain ⟨type, flags, body, hp, hrun⟩ := deserialize_run_ok hrun
  obtain ⟨h6, -⟩ := deserialize_type hp
  cases hcode : PacketType.ofCode type with
  | none =>
    rw [deserializeType, hcode] at hrun
    cases hrun
  | some t =>
    obtain rfl := PacketType.eq_code_of_ofCode hcode
    cases t with
    | error =>
      obtain ⟨code, off1, hread, hrun⟩ := run_bind_ok hrun
      obtain ⟨rest, rfl, rfl⟩ := readU8_ok h6 hread
      obtain ⟨rfl, trailing, hframe⟩ := frame_of_check [code] hp hrun
      exact ⟨_, trailing, .error code flags, hframe⟩
    | query =>
      obtain ⟨eid, off1, hread, hrun⟩ := run_bind_ok hrun
      obtain ⟨rest, rfl, rfl⟩ := readU32_ok h6 hread
      obtain ⟨rfl, trailing, hframe⟩ := frame_of_check (appendU32 eid) hp hrun
      exact ⟨_, trailing, .query eid flags, hframe⟩
    | epquery =>
      obtain ⟨eid, off1, hread, hrun⟩ := run_bind_ok hrun
      obtain ⟨rest, rfl, rfl⟩ := readU32_ok h6 hread
      obtain ⟨rfl, trailing, hframe⟩ := frame_of_check (appendU32 eid) hp hrun
      exact ⟨_, trailing, .endpointQuery eid flags, hframe⟩
    | info =>
      obtain ⟨eid, value, bytes, trailing, hspell, rfl, hframe⟩ :=
        spelling_value (.inl rfl) hp hrun
      exact ⟨_, trailing, .info eid flags hspell, hframe⟩
    | write =>
      obtain ⟨eid, value, bytes, trailing, hspell, rfl, hframe⟩ :=
        spelling_value (.inr rfl) hp hrun
      exact ⟨_, trailing, .write eid flags hspell, hframe⟩
    | epinfo =>
      rw [deserializeType_epinfo] at hrun
      obtain ⟨eid, off1, heid, hrun⟩ := run_bind_ok hrun
      obtain ⟨body, rfl, rfl⟩ := readU32_ok h6 heid
      have h10 : At b (6 + 4) body := h6.advance' (length_beBytes 4 _)
      obtain ⟨datatype, off1, hdatatype, hrun⟩ := run_bind_ok hrun
      obtain ⟨body, rfl, rfl⟩ := readU8_ok h10 hdatatype
      obtain ⟨bytes, off1, hname, hrun⟩ := run_bind_ok hrun
      obtain ⟨s, off2, hmake, hrun⟩ := run_bind_ok hrun
      obtain ⟨hs, rfl⟩ := make_ok hmake
      obtain ⟨buf, rest, hlen, hnul, hc, rfl, rfl⟩ :=
        readString_ok h10.tail hname (check_ok hrun).2.1 (hs ▸ s.length_le)
      have hp' : b = hxbHeader ++ PacketType.epinfo.code :: flags ::
          ((appendU32 eid ++ datatype :: buf) ++ rest) := by
        rw [hp, List.append_assoc]
        rfl
      have hoff : 6 + 4 + 1 + (maxLength + 1) = 6 + (appendU32 eid ++ datatype :: buf).length := by
        simp only [List.length_append, List.length_cons, appendU32, length_beBytes, hlen]
        omega
      rw [hoff] at hrun
      obtain ⟨rfl, trailing, hframe⟩ := frame_of_check _ hp' hrun
      exact ⟨_, trailing,
        .endpointInfo eid datatype flags (.string s buf hlen hnul (hc.trans hs.symm)), hframe⟩

/-! ## The spelling of the serializer -/

/-- What the serializer writes behind the flags. -/
def Packet.payload : Packet → List UInt8
  | .error code _ => [code]
  | .query eid _ => appendU32 eid
  | .endpointQuery eid _ => appendU32 eid
  | .endpointInfo eid datatype s _ => appendU32 eid ++ datatype :: appendString s
  | .info eid value _ => appendU32 eid ++ value.datatype.code :: appendValue value
  | .write eid value _ => appendU32 eid ++ value.datatype.code :: appendValue value

theorem serialize_eq_frame (p : Packet) :
    serialize p = appendCRC (frame p.type.code p.flags p.payload) := by
  cases p with
  | error code flags => exact serialize_error code flags
  | query eid flags => exact serialize_query eid flags
  | endpointQuery eid flags => exact serialize_endpointQuery eid flags
  | endpointInfo eid datatype s flags => exact serialize_endpointInfo eid datatype s flags
  | info eid value flags => exact serialize_info eid value flags
  | write eid value flags => exact serialize_write eid value flags

theorem Value.Spelling.length_eq {v : Value} {bytes : List UInt8} (h : v.Spelling bytes) :
    (appendValue v).length = bytes.length := by
  cases h with
  | string s buf hlen hnul hs => rw [hlen, appendValue, length_appendString]
  | timestamp v => rw [appendValue, timestampSeconds_seconds]
  | _ => rfl

theorem Packet.Spelling.length_eq {p : Packet} {payload : List UInt8} (h : p.Spelling payload) :
    p.payload.length = payload.length := by
  cases h with
  | endpointInfo eid datatype flags hs =>
    have hlen := hs.length_eq
    simp only [appendValue] at hlen
    simp only [Packet.payload, List.length_append, List.length_cons, hlen]
  | info eid flags hv => simp only [Packet.payload, List.length_append, List.length_cons, hv.length_eq]
  | write eid flags hv => simp only [Packet.payload, List.length_append, List.length_cons, hv.length_eq]
  | error code flags => rfl
  | query eid flags => rfl
  | endpointQuery eid flags => rfl

theorem length_closed_frame (type flags : UInt8) (payload : List UInt8) :
    (appendCRC (frame type flags payload)).length = 8 + payload.length := by
  simp only [appendCRC, frame, List.length_append, length_hxbHeader, List.length_cons, appendU16,
    length_beBytes]
  omega

variable {b : List UInt8} {p : Packet} {payload trailing : List UInt8}

theorem serialize_eq_iff (h : p.Spelling payload)
    (hb : b = appendCRC (frame p.type.code p.flags payload) ++ trailing) :
    serialize p = b ↔ p.payload = payload ∧ trailing = [] := by
  rw [serialize_eq_frame, hb]
  constructor
  · intro heq
    have hlen := congrArg List.length heq
    rw [List.length_append, length_closed_frame, length_closed_frame, h.length_eq] at hlen
    obtain rfl : trailing = [] := List.eq_nil_of_length_eq_zero (by omega)
    have hframe : (frame p.type.code p.flags p.payload) = frame p.type.code p.flags payload := by
      rw [List.append_nil] at heq
      refine (List.append_inj heq ?_).1
      simp only [frame, List.length_append, List.length_cons, h.length_eq]
    have hcons := List.append_cancel_left hframe
    exact ⟨(List.cons.inj (List.cons.inj hcons).2).2, rfl⟩
  · rintro ⟨hpayload, rfl⟩
    rw [hpayload, List.append_nil]

/-- Every packet that was received is one that can be sent and received again. -/
theorem Value.Spelling.transmissible {v : Value} {bytes : List UInt8} (h : v.Spelling bytes) :
    v.Transmissible := by
  cases h with
  | string s buf hlen hnul hs =>
    refine ⟨fun x hx => ?_, by simp [Value.datatype]⟩
    rw [← hs] at hx
    exact ne_zero_of_mem_cString hx
  | timestamp v => exact ⟨⟨v, rfl⟩, by simp [Value.datatype]⟩
  | _ => exact ⟨trivial, by simp [Value.datatype]⟩

theorem Packet.Spelling.transmissible (h : p.Spelling payload) : p.Transmissible := by
  intro v hv
  cases h with
  | endpointInfo eid datatype flags hs =>
    cases hv
    exact hs.transmissible
  | info eid flags hs =>
    cases hv
    exact hs.transmissible
  | write eid flags hs =>
    cases hv
    exact hs.transmissible
  | _ => cases hv

/-! ## Length, booleans and padding -/

/-- The bytes of a value on the wire. -/
def valueLength : DataType → Nat
  | .undefined => 0
  | .bool | .uint8 => 1
  | .uint32 | .float | .timestamp => 4
  | .datetime => 8
  | .string128 => 128
  | .bytes16 => 16
  | .bytes65 => 65

/-- The length of the packet that the type and, in a value packet, the data type announce. -/
def announcedLength (b : List UInt8) : Nat :=
  match PacketType.ofCode (b.getD 4 0) with
  | none => 6
  | some .error => 9
  | some .query | some .epquery => 12
  | some .info | some .write =>
    13 + ((DataType.ofCode (b.getD 10 0)).map valueLength).getD 0
  | some .epinfo => 13 + valueLength .string128

/-- A boolean value is ahead. -/
def BoolAhead (b : List UInt8) (v : UInt8) : Prop :=
  ∃ rest, ValueAhead b PacketType.info.code DataType.bool.code (v :: rest) ∨
    ValueAhead b PacketType.write.code DataType.bool.code (v :: rest)

/-- The bytes behind the end of a string are zero. -/
def PaddedWithZeros (rest : List UInt8) : Prop :=
  ∀ x ∈ (rest.take (maxLength + 1)).drop (cString rest).length, x = 0

/-- The bytes are spelled as the serializer spells them: nothing behind the packet, a boolean
0 or 1, a string padded with zeros. -/
def Canonical (b : List UInt8) : Prop :=
  b.length = announcedLength b ∧ (∀ v, BoolAhead b v → v = 0 ∨ v = 1) ∧
    ∀ rest, StringAhead b rest → PaddedWithZeros rest

theorem Value.Spelling.valueLength_eq {v : Value} {bytes : List UInt8} (h : v.Spelling bytes) :
    valueLength v.datatype = bytes.length := by
  cases h with
  | string s buf hlen hnul hs => rw [hlen]; rfl
  | bytes16 x => rw [x.property]; rfl
  | bytes65 x => rw [x.property]; rfl
  | _ => rfl

theorem frame_append (type flags : UInt8) (payload trailing : List UInt8) :
    appendCRC (frame type flags payload) ++ trailing = hxbHeader ++ type :: flags ::
      (payload ++ (appendU16 (crc (frame type flags payload)) ++ trailing)) := by
  simp only [appendCRC, frame, List.append_assoc, List.cons_append]

theorem valueAhead_frame {type flags datatype : UInt8} {eid : UInt32} {bytes : List UInt8}
    (hb : b = appendCRC (frame type flags (appendU32 eid ++ datatype :: bytes)) ++ trailing) :
    ∃ tail, ValueAhead b type datatype (bytes ++ tail) := by
  refine ⟨appendU16 (crc (frame type flags (appendU32 eid ++ datatype :: bytes))) ++ trailing,
    flags, appendU32 eid, length_beBytes 4 _, ?_⟩
  rw [hb, frame_append, List.append_assoc, List.cons_append]

theorem getD_type_of_valueAhead {type datatype : UInt8} {rest : List UInt8}
    (h : ValueAhead b type datatype rest) : b.getD 4 0 = type := by
  obtain ⟨flags, eid, -, rfl⟩ := h
  rfl

theorem getD_datatype_of_valueAhead {type datatype : UInt8} {rest : List UInt8}
    (h : ValueAhead b type datatype rest) : b.getD 10 0 = datatype := by
  obtain ⟨flags, eid, heid, rfl⟩ := h
  match eid, heid with
  | [_, _, _, _], _ => rfl

theorem announcedLength_value {t : PacketType} (ht : t = .info ∨ t = .write) {flags : UInt8}
    {eid : UInt32} {v : Value} {bytes : List UInt8} (hv : v.Spelling bytes)
    (hb : b = appendCRC (frame t.code flags (appendU32 eid ++ v.datatype.code :: bytes))
      ++ trailing) :
    announcedLength b = 8 + (appendU32 eid ++ v.datatype.code :: bytes).length := by
  obtain ⟨tail, hahead⟩ := valueAhead_frame hb
  have hlen : announcedLength b = 13 + valueLength v.datatype := by
    unfold announcedLength
    rw [getD_type_of_valueAhead hahead, getD_datatype_of_valueAhead hahead,
      PacketType.ofCode_code, DataType.ofCode_code]
    rcases ht with rfl | rfl <;> rfl
  rw [hlen, hv.valueLength_eq]
  simp only [List.length_append, List.length_cons, appendU32, length_beBytes]
  omega

theorem announcedLength_eq (h : p.Spelling payload)
    (hb : b = appendCRC (frame p.type.code p.flags payload) ++ trailing) :
    announcedLength b = 8 + payload.length := by
  have htype : b.getD 4 0 = p.type.code := by
    rw [hb, frame_append]
    rfl
  cases h with
  | endpointInfo eid datatype flags hs =>
    have hlen : announcedLength b = 13 + valueLength .string128 := by
      unfold announcedLength
      rw [htype]
      rfl
    have hbuf := hs.valueLength_eq
    simp only [Value.datatype] at hbuf
    rw [hlen, hbuf]
    simp only [List.length_append, List.length_cons, appendU32, length_beBytes]
    omega
  | info eid flags hv => exact announcedLength_value (.inl rfl) hv hb
  | write eid flags hv => exact announcedLength_value (.inr rfl) hv hb
  | _ =>
    unfold announcedLength
    rw [htype]
    rfl

theorem not_valueAhead_of_type {type datatype : UInt8} {rest : List UInt8}
    (hb : b = appendCRC (frame p.type.code p.flags payload) ++ trailing)
    (hne : type ≠ p.type.code) : ¬ ValueAhead b type datatype rest := by
  intro h
  have htype : b.getD 4 0 = p.type.code := by
    rw [hb, frame_append]
    rfl
  exact hne ((getD_type_of_valueAhead h).symm.trans htype)

/-- A string is padded with zeros exactly when it is spelled as the serializer does it. -/
theorem paddedWithZeros_iff {s : ValueString} {buf : List UInt8} (h : Value.Spelling (.string s) buf)
    (tail : List UInt8) : PaddedWithZeros (buf ++ tail) ↔ appendString s = buf := by
  cases h with
  | string _ _ hlen hnul hs =>
    obtain ⟨rest, hrest⟩ := cString_split hnul
    have hbuf : buf = s.bytes ++ 0 :: rest := hs ▸ hrest
    have hdrop : buf.drop s.bytes.length = 0 :: rest := by
      rw [hbuf, List.drop_left]
    have hpad : maxLength + 1 - s.bytes.length = (0 :: rest).length := by
      rw [hbuf, List.length_append] at hlen
      omega
    unfold PaddedWithZeros
    rw [cString_append_of_mem hnul, hs, List.take_append_of_le_length (by omega), ← hlen,
      List.take_length, hdrop, appendString, hpad]
    nth_rewrite 1 [hbuf]
    rw [List.append_cancel_left_eq, eq_comm, List.eq_replicate_iff]
    exact ⟨fun h => ⟨rfl, h⟩, fun h => h.2⟩

/-- A boolean is 0 or 1 exactly when it is spelled as the serializer does it. -/
theorem boolean_iff (v : UInt8) :
    appendValue (.bool (v ≠ 0)) = [v] ↔ v = 0 ∨ v = 1 := by
  by_cases h0 : v = 0
  · subst h0
    decide
  · simp only [appendValue, ne_eq, h0, not_false_eq_true, decide_true, if_true,
      List.cons.injEq, and_true, false_or]
    exact eq_comm

theorem boolAhead_iff {t : PacketType} (ht : t = .info ∨ t = .write) {datatype : DataType}
    {x : UInt8} {ahead : List UInt8} (h : ValueAhead b t.code datatype.code ahead) :
    BoolAhead b x ↔ datatype = .bool ∧ ∃ rest, ahead = x :: rest := by
  constructor
  · rintro ⟨rest, h' | h'⟩ <;> obtain ⟨-, hdatatype, hahead⟩ := valueAhead_inj h h'
    · exact ⟨DataType.code_injective hdatatype, rest, hahead⟩
    · exact ⟨DataType.code_injective hdatatype, rest, hahead⟩
  · rintro ⟨rfl, rest, rfl⟩
    rcases ht with rfl | rfl
    · exact ⟨rest, .inl h⟩
    · exact ⟨rest, .inr h⟩

theorem stringAhead_iff {t : PacketType} (ht : t = .info ∨ t = .write) {datatype : DataType}
    {ahead rest : List UInt8} (h : ValueAhead b t.code datatype.code ahead) :
    StringAhead b rest ↔ datatype = .string128 ∧ rest = ahead := by
  constructor
  · rintro (⟨_, h'⟩ | h' | h') <;> obtain ⟨htype, hdatatype, hahead⟩ := valueAhead_inj h h'
    · rcases ht with rfl | rfl <;> exact absurd htype (by decide)
    · exact ⟨DataType.code_injective hdatatype, hahead.symm⟩
    · exact ⟨DataType.code_injective hdatatype, hahead.symm⟩
  · rintro ⟨rfl, rfl⟩
    rcases ht with rfl | rfl
    · exact .inr (.inl h)
    · exact .inr (.inr h)

/-- In a value packet only a boolean and a string have more than one spelling. -/
theorem canonical_value {t : PacketType} (ht : t = .info ∨ t = .write) {flags : UInt8}
    {eid : UInt32} {v : Value} {bytes : List UInt8} (hv : v.Spelling bytes)
    (hb : b = appendCRC (frame t.code flags (appendU32 eid ++ v.datatype.code :: bytes))
      ++ trailing) :
    ((∀ x, BoolAhead b x → x = 0 ∨ x = 1) ∧ ∀ rest, StringAhead b rest → PaddedWithZeros rest) ↔
      appendValue v = bytes := by
  obtain ⟨tail, hahead⟩ := valueAhead_frame hb
  simp only [boolAhead_iff ht hahead, stringAhead_iff ht hahead]
  cases hv with
  | bool x =>
    rw [boolean_iff]
    constructor
    · exact fun h => h.1 x ⟨rfl, tail, rfl⟩
    · intro hx
      refine ⟨?_, by simp [Value.datatype]⟩
      rintro y ⟨-, rest, hy⟩
      obtain rfl : x = y := (List.cons.inj hy).1
      exact hx
  | string s buf hlen hnul hs =>
    rw [appendValue, ← paddedWithZeros_iff (.string s bytes hlen hnul hs) tail]
    constructor
    · exact fun h => h.2 _ ⟨rfl, rfl⟩
    · intro hpad
      refine ⟨by simp [Value.datatype], ?_⟩
      rintro rest ⟨-, rfl⟩
      exact hpad
  | timestamp v =>
    refine iff_of_true ⟨by simp [Value.datatype], by simp [Value.datatype]⟩ ?_
    rw [appendValue, timestampSeconds_seconds]
  | _ => exact iff_of_true ⟨by simp [Value.datatype], by simp [Value.datatype]⟩ rfl

theorem canonical_other (hb : b = appendCRC (frame p.type.code p.flags payload) ++ trailing)
    (hinfo : p.type ≠ .info) (hwrite : p.type ≠ .write) (hepinfo : p.type ≠ .epinfo) :
    (∀ x, BoolAhead b x → x = 0 ∨ x = 1) ∧ ∀ rest, StringAhead b rest → PaddedWithZeros rest := by
  have hne : ∀ {t : PacketType}, p.type ≠ t → t.code ≠ p.type.code :=
    fun h heq => h (PacketType.code_injective heq.symm)
  constructor
  · rintro x ⟨rest, h | h⟩
    · exact absurd h (not_valueAhead_of_type hb (hne hinfo))
    · exact absurd h (not_valueAhead_of_type hb (hne hwrite))
  · rintro rest (⟨_, h⟩ | h | h)
    · exact absurd h (not_valueAhead_of_type hb (hne hepinfo))
    · exact absurd h (not_valueAhead_of_type hb (hne hinfo))
    · exact absurd h (not_valueAhead_of_type hb (hne hwrite))

/-- Booleans and padding decide whether the payload is the serializer's. -/
theorem canonical_payload (h : p.Spelling payload)
    (hb : b = appendCRC (frame p.type.code p.flags payload) ++ trailing) :
    ((∀ x, BoolAhead b x → x = 0 ∨ x = 1) ∧ ∀ rest, StringAhead b rest → PaddedWithZeros rest) ↔
      p.payload = payload := by
  cases h with
  | endpointInfo eid datatype flags hs =>
    obtain ⟨tail, hahead⟩ := valueAhead_frame hb
    simp only [Packet.payload, List.append_cancel_left_eq, List.cons.injEq, true_and]
    rw [← paddedWithZeros_iff hs tail]
    have hinfo : PacketType.epinfo.code ≠ PacketType.info.code := by decide
    have hwrite : PacketType.epinfo.code ≠ PacketType.write.code := by decide
    constructor
    · exact fun h => h.2 _ (.inl ⟨_, hahead⟩)
    · intro hpad
      constructor
      · rintro x ⟨rest, h | h⟩
        · exact absurd (valueAhead_inj hahead h).1 hinfo
        · exact absurd (valueAhead_inj hahead h).1 hwrite
      · rintro rest (⟨_, h⟩ | h | h)
        · rw [← (valueAhead_inj hahead h).2.2]
          exact hpad
        · exact absurd (valueAhead_inj hahead h).1 hinfo
        · exact absurd (valueAhead_inj hahead h).1 hwrite
  | info eid flags hv =>
    simp only [Packet.payload, List.append_cancel_left_eq, List.cons.injEq, true_and]
    exact canonical_value (.inl rfl) hv hb
  | write eid flags hv =>
    simp only [Packet.payload, List.append_cancel_left_eq, List.cons.injEq, true_and]
    exact canonical_value (.inr rfl) hv hb
  | error code flags =>
    exact iff_of_true (canonical_other hb (by simp [Packet.type]) (by simp [Packet.type])
      (by simp [Packet.type])) rfl
  | query eid flags =>
    exact iff_of_true (canonical_other hb (by simp [Packet.type]) (by simp [Packet.type])
      (by simp [Packet.type])) rfl
  | endpointQuery eid flags =>
    exact iff_of_true (canonical_other hb (by simp [Packet.type]) (by simp [Packet.type])
      (by simp [Packet.type])) rfl

/-- **Encode after decode.** What was accepted is written back in the canonical spelling: the
same bytes exactly if they were canonical, and in any case bytes of the same packet. -/
theorem serialize_deserialize (h : deserialize b = .ok p) :
    (serialize p = b ↔ Canonical b) ∧ deserialize (serialize p) = .ok p := by
  obtain ⟨payload, trailing, hspell, hb⟩ := spelling_of_deserialize h
  refine ⟨?_, deserialize_serialize ((Packet.received_eq_some_self p).mpr hspell.transmissible)⟩
  have hlength : b.length = announcedLength b ↔ trailing = [] := by
    rw [announcedLength_eq hspell hb, hb, List.length_append, length_closed_frame]
    rw [← List.length_eq_zero_iff]
    omega
  rw [serialize_eq_iff hspell hb, Canonical, hlength, canonical_payload hspell hb]
  exact and_comm

/-- The query for endpoint 3, with a byte behind it. -/
def trailingQuery : List UInt8 := serialize (.query 3 0) ++ [0]

theorem trailingQuery_deserialize : deserialize trailingQuery = .ok (.query 3 0) := by
  decide +kernel

theorem trailingQuery_serialize_deserialize :
    (serialize (.query 3 0) = trailingQuery ↔ Canonical trailingQuery) ∧
      deserialize (serialize (.query 3 0)) = .ok (.query 3 0) :=
  serialize_deserialize trailingQuery_deserialize

/-- The byte is lost. -/
theorem serialize_deserialize_ne :
    ¬ ∀ b p, deserialize b = .ok p → serialize p = b := by
  intro h
  exact absurd (h _ _ trailingQuery_deserialize) (by decide +kernel)

/-! ## Bounds -/

theorem deserialize_error_of_lt (hlen : b.length < announcedLength b) :
    ∃ e, deserialize b = .error e := by
  cases hrun : deserialize b with
  | error e => exact ⟨e, rfl⟩
  | ok p =>
    obtain ⟨payload, trailing, hspell, hb⟩ := spelling_of_deserialize hrun
    have hneeded := announcedLength_eq hspell hb
    have hlength : b.length = 8 + payload.length + trailing.length := by
      rw [hb, List.length_append, length_closed_frame]
    omega

theorem undefinedRead_iff :
    deserialize b = .error .undefinedRead ↔
      (BinaryDeserializer.deserialize b).run 0 = .error .undefinedRead := by
  show (Prod.fst <$> (BinaryDeserializer.deserialize b).run 0) = _ ↔ _
  cases (BinaryDeserializer.deserialize b).run 0 with
  | ok r => exact iff_of_false (by rintro ⟨⟩) (by rintro ⟨⟩)
  | error e => exact ⟨fun h => by cases h; rfl, fun h => by cases h; rfl⟩

theorem readStringPacket_inBounds_iff {off : Nat} {rest : List UInt8} (k : ValueString → Packet)
    (h : At b off rest) :
    (readStringPacket b k).run off ≠ .error .undefinedRead ↔ StringInBounds rest := by
  by_cases hbounds : StringInBounds rest
  · refine iff_of_true ?_ hbounds
    by_cases hlen : rest.length < maxLength
    · rw [readStringPacket_short k h hlen]
      rintro ⟨⟩
    · obtain ⟨hnul, hexact⟩ := hbounds.resolve_left hlen
      by_cases hfits : (cString rest).length ≤ maxLength
      · rcases readStringPacket_fits k h (by omega) hnul hfits with ⟨p, off', hrun⟩ | ⟨reason, hrun⟩
        · rw [hrun]
          rintro ⟨⟩
        · rw [hrun]
          rintro ⟨⟩
      · rw [readStringPacket_long k h (by omega) hnul (by omega)]
        rintro ⟨⟩
  · exact iff_of_false (not_not.mpr (readStringPacket_outside k h hbounds)) hbounds

/-- **When deserialize stays within the packet**: a string that is ahead is terminated, and
its buffer is not cut off before its last byte. A packet that is too short for what it
announces is rejected in any case. -/
theorem deserialize_inBounds_iff (b : List UInt8) :
    (deserialize b ≠ .error .undefinedRead ∧
      (b.length < announcedLength b → ∃ e, deserialize b = .error e)) ↔
    ∀ rest, StringAhead b rest → StringInBounds rest := by
  rw [and_iff_left deserialize_error_of_lt, ne_eq, undefinedRead_iff]
  by_cases hstring : ∃ rest, StringAhead b rest
  · obtain ⟨rest, hahead⟩ := hstring
    obtain ⟨k, hrun⟩ := deserialize_stringAhead hahead
    rw [hrun, ← ne_eq, readStringPacket_inBounds_iff k hahead.at]
    exact ⟨fun h rest' h' => hahead.inj h' ▸ h, fun h => h rest hahead⟩
  · push Not at hstring
    refine iff_of_true (fun hrun => ?_) fun rest h => absurd h (hstring rest)
    by_cases hdatetime : ∃ rest, DatetimeAhead b rest
    · obtain ⟨rest, hahead⟩ := hdatetime
      obtain ⟨f, hrun'⟩ := deserialize_datetimeAhead hahead
      rw [hrun'] at hrun
      by_cases hlen : rest.length < 7
      · obtain ⟨reason, hshort⟩ := readDatetime_short hahead.at hlen
        rw [run_bind_error hshort] at hrun
        cases hrun
      · rw [run_bind_error (readDatetime_long hahead.at (by omega))] at hrun
        cases hrun
    · push Not at hdatetime
      rcases handled_of_not_ahead hstring hdatetime with ⟨r, hok⟩ | ⟨reason, hbad⟩
      · rw [hok] at hrun
        cases hrun
      · rw [hbad] at hrun
        cases hrun

/-- An endpoint info whose name fills the rest of the datagram. -/
def unterminatedInfo : List UInt8 :=
  frame PacketType.epinfo.code 0 (appendU32 3 ++ DataType.bool.code :: List.replicate 130 0x41)

theorem unterminatedInfo_outside :
    ¬ (deserialize unterminatedInfo ≠ .error .undefinedRead ∧
      (unterminatedInfo.length < announcedLength unterminatedInfo →
        ∃ e, deserialize unterminatedInfo = .error e)) := by
  have hrun : deserialize unterminatedInfo = .error .undefinedRead := by decide +kernel
  exact fun h => h.1 hrun

end Hexabus.Host
