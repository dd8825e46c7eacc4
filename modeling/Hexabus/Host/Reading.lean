import Hexabus.Host.Deserialization

/-!
# What the readers read

One lemma per `read_*` of the deserializer, all in terms of `At`: where the
cursor stands and which bytes lie ahead. The packets of the host's own
serializer and the datagrams of the firmware are both read through them.
-/

namespace Hexabus.Host

open Lib.Bytes

/-- The cursor stands at `off` and `rest` lies ahead. -/
def At (packet : List UInt8) (off : Nat) (rest : List UInt8) : Prop :=
  off ≤ packet.length ∧ packet.drop off = rest

namespace At

variable {packet rest : List UInt8} {off : Nat}

theorem start (packet : List UInt8) : At packet 0 packet := ⟨Nat.zero_le _, rfl⟩

theorem length_eq (h : At packet off rest) : off + rest.length = packet.length := by
  obtain ⟨hle, hdrop⟩ := h
  rw [← hdrop, List.length_drop]
  omega

/-- Past a block, the rest lies ahead. -/
theorem advance {xs : List UInt8} (h : At packet off (xs ++ rest)) :
    At packet (off + xs.length) rest := by
  have hlen := h.length_eq
  rw [List.length_append] at hlen
  refine ⟨by omega, ?_⟩
  rw [← List.drop_drop, h.2, List.drop_left]

theorem advance' {xs : List UInt8} {n : Nat} (h : At packet off (xs ++ rest))
    (hn : xs.length = n) : At packet (off + n) rest := hn ▸ h.advance

/-- Past one byte. -/
theorem tail {b : UInt8} (h : At packet off (b :: rest)) : At packet (off + 1) rest := by
  have h1 : At packet off ([b] ++ rest) := h
  exact h1.advance

/-- The bytes behind the cursor are the packet without the rest. -/
theorem take_eq (h : At packet off rest) {xs : List UInt8} (hp : packet = xs ++ rest) :
    packet.take off = xs := by
  have hlen := h.length_eq
  rw [hp, List.length_append] at hlen
  have hoff : off = xs.length := by omega
  rw [hp, hoff, List.take_left]

end At

namespace BinaryDeserializer

variable {packet rest : List UInt8} {off : Nat}

/-! ## Running a reader -/

theorem run_bind {α β : Type} {m : Reader α} {f : α → Reader β} {a : α} {off' : Nat}
    (h : m.run off = .ok (a, off')) : (m >>= f).run off = (f a).run off' := by
  rw [StateT.run_bind, h]
  rfl

/-- A reader that returns has returned at every step. -/
theorem run_bind_ok {α β : Type} {m : Reader α} {f : α → Reader β} {r : β × Nat}
    (h : (m >>= f).run off = .ok r) :
    ∃ a off', m.run off = .ok (a, off') ∧ (f a).run off' = .ok r := by
  rw [StateT.run_bind] at h
  cases hm : m.run off with
  | error e =>
    rw [hm] at h
    cases h
  | ok a =>
    rw [hm] at h
    exact ⟨a.1, a.2, rfl, h⟩

theorem run_bind_ne_ok {α β : Type} {m : Reader α} {f : α → Reader β}
    (h : ∀ r, m.run off ≠ .ok r) (r : β × Nat) : (m >>= f).run off ≠ .ok r := by
  intro hr
  obtain ⟨a, off', hm, -⟩ := run_bind_ok hr
  exact h _ hm

theorem run_liftM {α : Type} (x : Except Thrown α) :
    (liftM x : Reader α).run off = x.map fun a => (a, off) := by
  cases x <;> rfl

theorem checkLength_at {n : Nat} (h : At packet off rest) (hn : n ≤ rest.length) :
    (checkLength packet n).run off = .ok ((), off) := by
  have hlen := h.length_eq
  have henough : ¬ (off ≤ packet.length ∧ packet.length - off < n) := by omega
  show (if off ≤ packet.length ∧ packet.length - off < n then
      throwBad "Packet too short" else pure ()).run off = _
  rw [if_neg henough]
  rfl

theorem peek_at {xs : List UInt8} {n : Nat} (h : At packet off (xs ++ rest))
    (hn : xs.length = n) : (peek packet n).run off = .ok (xs, off) := by
  have hlen := h.length_eq
  rw [List.length_append] at hlen
  show (if off + n ≤ packet.length then pure ((packet.drop off).take n)
      else throw .undefinedRead : Reader _).run off = _
  rw [if_pos (by omega), h.2, ← hn, List.take_left]
  rfl

/-- The pattern of every fixed-width read: check, look, move on. -/
theorem fixed_at {α : Type} {xs : List UInt8} {n : Nat} {f : List UInt8 → Reader α}
    (h : At packet off (xs ++ rest)) (hn : xs.length = n) :
    (do checkLength packet n
        let raw ← peek packet n
        advance n
        f raw : Reader α).run off = (f xs).run (off + n) := by
  rw [run_bind (checkLength_at h (by rw [List.length_append]; omega)),
    run_bind (peek_at h hn)]
  rfl

theorem readHeader_at (h : At packet off (hxbHeader ++ rest)) :
    (readHeader packet).run off = .ok ((), off + 4) := by
  show (do checkLength packet 4
           let magic ← peek packet 4
           if magic ≠ hxbHeader then throwBad "Invalid header"
           advance 4 : Reader Unit).run off = _
  rw [run_bind (checkLength_at h (by simp)), run_bind (peek_at (n := 4) h rfl)]
  rfl

theorem readU8_at {b : UInt8} (h : At packet off (b :: rest)) :
    (readU8 packet).run off = .ok (b, off + 1) := by
  have h1 : At packet off ([b] ++ rest) := h
  exact fixed_at h1 rfl

theorem readU16_at {xs : List UInt8} (h : At packet off (xs ++ rest)) (hn : xs.length = 2) :
    (readU16 packet).run off = .ok (UInt16.ofNat (ofBe xs), off + 2) :=
  fixed_at h hn

theorem readU32_at {xs : List UInt8} (h : At packet off (xs ++ rest)) (hn : xs.length = 4) :
    (readU32 packet).run off = .ok (UInt32.ofNat (ofBe xs), off + 4) :=
  fixed_at h hn

theorem readBytes_at {n : Nat} (b : Block n) (h : At packet off (b.val ++ rest)) :
    (readBytes packet n).run off = .ok (b, off + n) := by
  unfold readBytes
  rw [fixed_at h b.property, dif_pos b.property]
  rfl

/-- A string is read up to the next NUL, its buffer skipped whole. -/
theorem readString_at (h : At packet off rest) (hlen : maxLength ≤ rest.length)
    (hnul : (0 : UInt8) ∈ rest) :
    (readString packet).run off = .ok (cString rest, off + (maxLength + 1)) := by
  have hread : (do
      let offset ← get
      let rest := packet.drop offset
      if (0 : UInt8) ∈ rest then
        advance (maxLength + 1)
        return cString rest
      else throw Thrown.undefinedRead : Reader (List UInt8)).run off
        = .ok (cString rest, off + (maxLength + 1)) := by
    show (if (0 : UInt8) ∈ packet.drop off then do
        advance (maxLength + 1)
        return cString (packet.drop off)
      else throw Thrown.undefinedRead : Reader (List UInt8)).run off = _
    rw [h.2, if_pos hnul]
    rfl
  unfold readString
  rw [run_bind (checkLength_at h hlen)]
  exact hread

/-- The checksum is accepted exactly when it is that of the bytes in front of it. -/
theorem check_at {p : Packet} {xs sum : List UInt8} (hp : packet = xs ++ (sum ++ rest))
    (h : At packet off (sum ++ rest)) (hn : sum.length = 2)
    (hsum : UInt16.ofNat (ofBe sum) = crc xs) :
    (check packet p).run off = .ok (p, off + 2) := by
  have hle : off ≤ packet.length := h.1
  show (if off ≤ packet.length then do
      let sum ← readU16 packet
      if crc (packet.take off) ≠ sum then throwBad "Bad checksum"
      return p
    else throw Thrown.undefinedRead : Reader Packet).run off = _
  rw [if_pos hle, run_bind (readU16_at h hn), h.take_eq hp, hsum, if_neg (by simp)]
  rfl

/-! ## Fields as the serializer lays them out -/

theorem appendU16_ofBe (v : UInt16) :
    UInt16.ofNat (ofBe (BinarySerializer.appendU16 v)) = v := by
  have hmod : v.toNat % 256 ^ 2 = v.toNat := Nat.mod_eq_of_lt v.toNat_lt
  rw [BinarySerializer.appendU16, ofBe_beBytes, hmod, UInt16.ofNat_toNat]

theorem appendU32_ofBe (v : UInt32) :
    UInt32.ofNat (ofBe (BinarySerializer.appendU32 v)) = v := by
  have hmod : v.toNat % 256 ^ 4 = v.toNat := Nat.mod_eq_of_lt v.toNat_lt
  rw [BinarySerializer.appendU32, ofBe_beBytes, hmod, UInt32.ofNat_toNat]

theorem readU32_appendU32 {v : UInt32} (h : At packet off (BinarySerializer.appendU32 v ++ rest)) :
    (readU32 packet).run off = .ok (v, off + 4) := by
  have hread := readU32_at h (length_beBytes 4 _)
  rw [appendU32_ofBe] at hread
  exact hread

/-- A body closed by `appendCRC` passes the check at its end. -/
theorem check_appendCRC {p : Packet} {xs : List UInt8}
    (h : At (BinarySerializer.appendCRC xs) off (BinarySerializer.appendU16 (crc xs))) :
    (check (BinarySerializer.appendCRC xs) p).run off = .ok (p, off + 2) := by
  have hp : BinarySerializer.appendCRC xs
      = xs ++ (BinarySerializer.appendU16 (crc xs) ++ []) := by
    rw [List.append_nil]
    rfl
  have hat : At (BinarySerializer.appendCRC xs) off
      (BinarySerializer.appendU16 (crc xs) ++ []) := by
    rw [List.append_nil]
    exact h
  exact check_at hp hat (length_beBytes 2 _) (appendU16_ofBe _)

/-- **A date-time is never read**: its year is read as one byte, and no year
below 1400 is a date. -/
theorem readDatetime_ne_ok (packet : List UInt8) (off : Nat) (r : PTime × Nat) :
    (readDatetime packet).run off ≠ .ok r := by
  intro h
  unfold readDatetime at h
  obtain ⟨hour, _, -, h⟩ := run_bind_ok h
  obtain ⟨minute, _, -, h⟩ := run_bind_ok h
  obtain ⟨second, _, -, h⟩ := run_bind_ok h
  obtain ⟨day, _, -, h⟩ := run_bind_ok h
  obtain ⟨month, _, -, h⟩ := run_bind_ok h
  obtain ⟨year, _, -, h⟩ := run_bind_ok h
  obtain ⟨weekday, _, -, h⟩ := run_bind_ok h
  obtain ⟨date, _, hdate, -⟩ := run_bind_ok h
  have hyear : year.toNat < 1400 := by
    have := year.toNat_lt
    omega
  rw [run_liftM, GregorianDate.make_of_year_lt hyear] at hdate
  cases hdate

/-- A buffer that holds a NUL is read as its C string. -/
theorem readString_buffer {buf : List UInt8} (h : At packet off (buf ++ rest))
    (hlen : buf.length = maxLength + 1) (hnul : (0 : UInt8) ∈ buf) :
    (readString packet).run off = .ok (cString buf, off + (maxLength + 1)) := by
  have hread := readString_at h (by rw [List.length_append]; omega)
    (List.mem_append_left _ hnul)
  rw [hread, cString_append_of_mem hnul]

/-- A buffer without a NUL is never a string value: the search runs past it, and
what it finds is too long. -/
theorem readString_unterminated {buf s : List UInt8} {off' : Nat}
    (h : At packet off (buf ++ rest)) (hlen : buf.length = maxLength + 1)
    (hnul : (0 : UInt8) ∉ buf) (hread : (readString packet).run off = .ok (s, off')) :
    maxLength < s.length := by
  unfold readString at hread
  obtain ⟨_, off1, hcheck, hread⟩ := run_bind_ok hread
  rw [checkLength_at h (by rw [List.length_append]; omega)] at hcheck
  cases hcheck
  have hread' : (if (0 : UInt8) ∈ packet.drop off then do
      advance (maxLength + 1)
      return cString (packet.drop off)
    else throw Thrown.undefinedRead : Reader (List UInt8)).run off = .ok (s, off') := hread
  rw [h.2] at hread'
  split at hread'
  · have hbefore : cString (buf ++ rest) = buf ++ cString rest := by
      unfold cString
      rw [List.takeWhile_append_of_pos]
      intro b hb
      have hne : b ≠ 0 := fun h0 => hnul (h0 ▸ hb)
      simpa using hne
    have hs : cString (buf ++ rest) = s := by
      have hpair : (Except.ok (cString (buf ++ rest), off + (maxLength + 1)) :
          Except Thrown (List UInt8 × Nat)) = .ok (s, off') := hread'
      exact congrArg Prod.fst (Except.ok.inj hpair)
    rw [← hs, hbefore, List.length_append]
    omega
  · cases hread'

end BinaryDeserializer

/-! ## Whole datagrams -/

open BinarySerializer BinaryDeserializer

/-- A datagram without its checksum. -/
def frame (type flags : UInt8) (payload : List UInt8) : List UInt8 :=
  hxbHeader ++ type :: flags :: payload

variable {type flags : UInt8} {payload : List UInt8}

theorem deserialize_ok {packet : List UInt8} {p : Packet} (off : Nat)
    (h : (BinaryDeserializer.deserialize packet).run 0 = .ok (p, off)) :
    deserialize packet = .ok p := by
  show (Prod.fst <$> (BinaryDeserializer.deserialize packet).run 0) = _
  rw [h]
  rfl

theorem deserialize_ne_ok {packet : List UInt8}
    (h : ∀ r, (BinaryDeserializer.deserialize packet).run 0 ≠ .ok r) (p : Packet) :
    deserialize packet ≠ .ok p := by
  show (Prod.fst <$> (BinaryDeserializer.deserialize packet).run 0) ≠ _
  cases hrun : (BinaryDeserializer.deserialize packet).run 0 with
  | ok r => exact absurd hrun (h r)
  | error e =>
    intro herr
    cases herr

/-- Where the cursor stands behind the flags of a closed frame. -/
theorem frame_at : At (appendCRC (frame type flags payload)) 6
    (payload ++ appendU16 (crc (frame type flags payload))) := by
  have h0 : At (appendCRC (frame type flags payload)) 0 ((hxbHeader ++ [type, flags]) ++
      (payload ++ appendU16 (crc (frame type flags payload)))) := by
    refine ⟨Nat.zero_le _, ?_⟩
    rw [List.drop_zero]
    simp [appendCRC, frame]
  exact h0.advance

/-- A closed frame is read up to its type and flags. -/
theorem deserialize_frame :
    (BinaryDeserializer.deserialize (appendCRC (frame type flags payload))).run 0
      = (deserializeType (appendCRC (frame type flags payload)) type flags).run 6 := by
  have h0 : At (appendCRC (frame type flags payload)) 0 (hxbHeader ++ type :: flags ::
      (payload ++ appendU16 (crc (frame type flags payload)))) := by
    refine ⟨Nat.zero_le _, ?_⟩
    rw [List.drop_zero]
    simp [appendCRC, frame]
  have h4 : At _ (0 + 4) _ := h0.advance
  unfold BinaryDeserializer.deserialize
  rw [run_bind (readHeader_at h0), run_bind (readU8_at h4), run_bind (readU8_at h4.tail)]

/-! ### Value packets -/

variable {t : PacketType} {eid : UInt32} {datatype : UInt8} {bytes : List UInt8}

/-- The datagram of an info or write packet. -/
def valueDatagram (t : PacketType) (flags : UInt8) (eid : UInt32) (datatype : UInt8)
    (bytes : List UInt8) : List UInt8 :=
  appendCRC (frame t.code flags (appendU32 eid ++ datatype :: bytes))

theorem deserializeType_value {packet : List UInt8} (ht : t = .info ∨ t = .write) :
    deserializeType packet t.code flags = (do
      let eid ← readU32 packet
      let datatype ← readU8 packet
      let value ← readValue packet datatype
      checkInfo packet (t.code = PacketType.info.code) eid value flags) := by
  rcases ht with rfl | rfl <;> rfl

theorem deserializeType_epinfo {packet : List UInt8} :
    deserializeType packet PacketType.epinfo.code flags = (do
      let eid ← readU32 packet
      let datatype ← readU8 packet
      let s ← readString packet
      let value ← liftM (ValueString.make s)
      check packet (.endpointInfo eid datatype value flags)) := rfl

/-- What lies ahead of the cursor where the value begins. -/
theorem value_at : At (valueDatagram t flags eid datatype bytes) 11 (bytes ++
    appendU16 (crc (frame t.code flags (appendU32 eid ++ datatype :: bytes)))) := by
  have h6 : At (valueDatagram t flags eid datatype bytes) 6 _ := frame_at
  rw [List.append_assoc, List.cons_append] at h6
  exact h6.advance.tail

theorem deserialize_valueDatagram (ht : t = .info ∨ t = .write) :
    (BinaryDeserializer.deserialize (valueDatagram t flags eid datatype bytes)).run 0
      = (do let value ← readValue (valueDatagram t flags eid datatype bytes) datatype
            checkInfo (valueDatagram t flags eid datatype bytes)
              (t.code = PacketType.info.code) eid value flags : Reader Packet).run 11 := by
  have h6 : At (valueDatagram t flags eid datatype bytes) 6 _ := frame_at
  rw [List.append_assoc, List.cons_append] at h6
  have h10 : At _ (6 + 4) _ := h6.advance
  have hrun : (BinaryDeserializer.deserialize (valueDatagram t flags eid datatype bytes)).run 0
      = (deserializeType (valueDatagram t flags eid datatype bytes) t.code flags).run 6 :=
    deserialize_frame
  rw [hrun, deserializeType_value ht, run_bind (readU32_appendU32 h6), run_bind (readU8_at h10)]

/-- A value packet whose value is read to its end comes out as that packet. -/
theorem deserialize_value_ok (ht : t = .info ∨ t = .write) {value : Value}
    (hread : (readValue (valueDatagram t flags eid datatype bytes) datatype).run 11
      = .ok (value, 11 + bytes.length)) :
    deserialize (valueDatagram t flags eid datatype bytes)
      = .ok (if t = .info then .info eid value flags else .write eid value flags) := by
  apply deserialize_ok (11 + bytes.length + 2)
  rw [deserialize_valueDatagram ht, run_bind hread]
  have hend : At (valueDatagram t flags eid datatype bytes) (11 + bytes.length) _ :=
    value_at.advance
  rcases ht with rfl | rfl
  · exact check_appendCRC hend
  · exact check_appendCRC hend

/-- A value packet whose value is not read is not read. -/
theorem deserialize_value_ne_ok (ht : t = .info ∨ t = .write)
    (hread : ∀ r, (readValue (valueDatagram t flags eid datatype bytes) datatype).run 11 ≠ .ok r)
    (p : Packet) : deserialize (valueDatagram t flags eid datatype bytes) ≠ .ok p := by
  apply deserialize_ne_ok
  rw [deserialize_valueDatagram ht]
  exact run_bind_ne_ok hread

/-- An endpoint info packet with a terminated name comes out with that name. -/
theorem deserialize_endpointInfo {buf : List UInt8} (hlen : buf.length = maxLength + 1)
    {s : ValueString} (hnul : (0 : UInt8) ∈ buf) (hs : cString buf = s.bytes) :
    deserialize (valueDatagram .epinfo flags eid datatype buf)
      = .ok (.endpointInfo eid datatype s flags) := by
  apply deserialize_ok (11 + (maxLength + 1) + 2)
  have h6 : At (valueDatagram .epinfo flags eid datatype buf) 6 _ := frame_at
  rw [List.append_assoc, List.cons_append] at h6
  have h10 : At _ (6 + 4) _ := h6.advance
  have hend : At _ (11 + (maxLength + 1)) _ := h10.tail.advance' hlen
  have hrun : (BinaryDeserializer.deserialize (valueDatagram .epinfo flags eid datatype buf)).run 0
      = (deserializeType (valueDatagram .epinfo flags eid datatype buf)
          PacketType.epinfo.code flags).run 6 := deserialize_frame
  have hmake : (liftM (ValueString.make s.bytes) : Reader ValueString).run (11 + (maxLength + 1))
      = .ok (s, 11 + (maxLength + 1)) := by
    rw [ValueString.make_bytes]
    rfl
  rw [hrun, deserializeType_epinfo, run_bind (readU32_appendU32 h6), run_bind (readU8_at h10),
    run_bind (readString_buffer h10.tail hlen hnul), hs, run_bind hmake]
  exact check_appendCRC hend

end Hexabus.Host
