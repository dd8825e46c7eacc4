import Hexabus.Firmware.UdpHandler
import Hexabus.Wire.HostToFirmware

/-!
# From the firmware to the host

What `prepare_for_send` makes of a packet, as a list of bytes (`doUdpSend_info`
and its siblings), and what the host's deserializer makes of those bytes. Every
packet the firmware builds arrives as it was built, except an info packet with a
date-time, and one with a string that fills its buffer.
-/

namespace Hexabus.Wire

open Lib.Bytes Lib.Store Firmware Host Host.BinarySerializer Host.BinaryDeserializer

variable {m : Mem}

/-! ## What is sent -/

/-- A packet closed by `putCrc` is closed as the host closes it. -/
theorem readBlock_putCrc {xs : List UInt8} {len : Nat} (h : Holds m 0 xs)
    (hlen : len = HxbPacket.sizeof xs.length) :
    readBlock (putCrc m len).2 0 (putCrc m len).1 = appendCRC xs := by
  subst hlen
  have hlast : HxbPacket.sizeof xs.length - 2 = xs.length := by unfold HxbPacket.sizeof; omega
  show readBlock (setU16 m (HxbPacket.sizeof xs.length - 2) (uipHtons (crc16Data
    (readBlock m 0 (HxbPacket.sizeof xs.length - 2)) 0))) 0 (xs.length + 2) = _
  rw [hlast, show readBlock m 0 xs.length = xs from h, crc16Data_eq_crc, setU16, leBytes_uipHtons,
    readBlock_add]
  have hfront : Holds (writeBlock m xs.length (beBytes 2 (crc xs).toNat)) 0 xs :=
    h.write (.inl (by omega))
  have hsum := holds_write m xs.length (beBytes 2 (crc xs).toNat)
  rw [hfront.read rfl, Nat.zero_add, hsum.read (length_beBytes 2 _)]
  rfl

/-- The header of a packet about to be sent. -/
theorem holds_setHeader (m : Mem) :
    Holds (setHeader m) 0 (hxbHeader ++ [m HxbPacket.type, 0]) := by
  have hmagic : Holds (setHeader m) 0 hxbHeader := by
    have h := holds_write m HxbPacket.magic hxbHeader
    exact h.write (.inl (show 0 + 4 ≤ 5 by omega))
  refine holds_append.mpr ⟨hmagic, ?_⟩
  show Holds (setHeader m) 4 [m HxbPacket.type, 0]
  rw [holds_cons, holds_cons]
  refine ⟨?_, ?_, by rfl⟩
  · show setU8 (writeBlock m HxbPacket.magic hxbHeader) HxbPacket.flags 0 4 = m HxbPacket.type
    rw [setU8, writeBlock_apply_out _ _ _ _ (.inl (by decide)),
      writeBlock_apply_out _ _ _ _ (.inr (by decide))]
    rfl
  · exact writeBlock_apply_in (writeBlock m HxbPacket.magic hxbHeader) HxbPacket.flags [0] 0
      (by decide)

/-- Behind the header nothing changes. -/
theorem setHeader_apply {i : Nat} (hi : 6 ≤ i) : setHeader m i = m i := by
  have hi' : HxbPacket.flags + [(0 : UInt8)].length ≤ i := hi
  have hi'' : HxbPacket.magic + hxbHeader.length ≤ i := by
    show 0 + 4 ≤ i
    omega
  rw [setHeader, setU8, writeBlock_apply_out _ _ _ _ (.inr hi'),
    writeBlock_apply_out _ _ _ _ (.inr hi'')]

theorem swapEid_apply {i : Nat} (hi : 10 ≤ i) : swapEid m i = m i := by
  have hi' : HxbPacket.eid + (leBytes 4 (uipHtonl (getU32 m HxbPacket.eid)).toNat).length ≤ i := by
    rw [length_leBytes]
    exact hi
  rw [swapEid, setU32, writeBlock_apply_out _ _ _ _ (.inr hi')]

/-- The header and the endpoint id of a packet about to be sent. -/
theorem holds_swapEid (m : Mem) :
    Holds (swapEid (setHeader m)) 0
      (hxbHeader ++ m HxbPacket.type :: 0 :: appendU32 (getU32 m HxbPacket.eid)) := by
  have hget : getU32 (setHeader m) HxbPacket.eid = getU32 m HxbPacket.eid := by
    have hread : readBlock (setHeader m) HxbPacket.eid 4 = readBlock m HxbPacket.eid 4 :=
      readBlock_congr fun i hi _ => setHeader_apply (show 6 ≤ i from hi)
    rw [getU32, hread]
    rfl
  have hlist : hxbHeader ++ m HxbPacket.type :: 0 :: appendU32 (getU32 m HxbPacket.eid)
      = (hxbHeader ++ [m HxbPacket.type, 0]) ++ appendU32 (getU32 m HxbPacket.eid) := by simp
  rw [hlist, swapEid, hget]
  refine holds_append.mpr ⟨(holds_setHeader m).write (.inl (by simp [HxbPacket.eid])), ?_⟩
  rw [setU32, leBytes_uipHtonl]
  exact holds_write (setHeader m) HxbPacket.eid (appendU32 (getU32 m HxbPacket.eid))

theorem swapEid_setHeader_apply {i : Nat} (hi : 10 ≤ i) : swapEid (setHeader m) i = m i := by
  rw [swapEid_apply hi, setHeader_apply (by omega)]

/-- A value packet up to its checksum, the value being what stands in memory. -/
theorem holds_valueFrame (m : Mem) (n : Nat) :
    Holds (swapEid (setHeader m)) 0 (frame (m HxbPacket.type) 0
      (appendU32 (getU32 m HxbPacket.eid) ++ m HxbPacket.datatype ::
        readBlock m HxbPacket.value n)) := by
  have hlist : frame (m HxbPacket.type) 0 (appendU32 (getU32 m HxbPacket.eid) ++
      m HxbPacket.datatype :: readBlock m HxbPacket.value n)
      = (hxbHeader ++ m HxbPacket.type :: 0 :: appendU32 (getU32 m HxbPacket.eid)) ++
        m HxbPacket.datatype :: readBlock m HxbPacket.value n := by simp [frame]
  rw [hlist]
  refine holds_append.mpr ⟨holds_swapEid m, ?_⟩
  have hoff : 0 + (hxbHeader ++ m HxbPacket.type :: 0 ::
      appendU32 (getU32 m HxbPacket.eid)).length = HxbPacket.datatype := by
    simp [appendU32, HxbPacket.datatype]
  rw [hoff]
  refine holds_cons.mpr ⟨swapEid_setHeader_apply (Nat.le_refl 10), ?_⟩
  rw [Holds, length_readBlock]
  exact readBlock_congr fun i hi _ =>
    swapEid_setHeader_apply (Nat.le_trans (by decide : 10 ≤ HxbPacket.datatype + 1) hi)

/-- A value packet up to its checksum, a 32-bit value swapped. -/
theorem holds_swapValue (m : Mem) :
    Holds (swapValue (swapEid (setHeader m))) 0 (frame (m HxbPacket.type) 0
      (appendU32 (getU32 m HxbPacket.eid) ++ m HxbPacket.datatype ::
        appendU32 (getU32 m HxbPacket.value))) := by
  have hget : getU32 (swapEid (setHeader m)) HxbPacket.value = getU32 m HxbPacket.value := by
    have hread : readBlock (swapEid (setHeader m)) HxbPacket.value 4
        = readBlock m HxbPacket.value 4 :=
      readBlock_congr fun i hi _ =>
        swapEid_setHeader_apply (Nat.le_trans (by decide : 10 ≤ HxbPacket.value) hi)
    rw [getU32, hread]
    rfl
  have hfront := holds_valueFrame m 0
  rw [readBlock_zero] at hfront
  have hlist : frame (m HxbPacket.type) 0 (appendU32 (getU32 m HxbPacket.eid) ++
      m HxbPacket.datatype :: appendU32 (getU32 m HxbPacket.value))
      = frame (m HxbPacket.type) 0 (appendU32 (getU32 m HxbPacket.eid) ++ [m HxbPacket.datatype])
        ++ appendU32 (getU32 m HxbPacket.value) := by simp [frame]
  have hoff : (frame (m HxbPacket.type) 0
      (appendU32 (getU32 m HxbPacket.eid) ++ [m HxbPacket.datatype])).length
        = HxbPacket.value := by
    simp [frame, appendU32, HxbPacket.value]
  rw [hlist, swapValue, setU32, leBytes_uipHtonl, hget]
  refine holds_append.mpr ⟨hfront.write (.inl (by rw [hoff]; simp)), ?_⟩
  rw [hoff, Nat.zero_add]
  exact holds_write _ HxbPacket.value (appendU32 (getU32 m HxbPacket.value))

/-- A date-time packet up to its checksum, whatever its bytes are. -/
theorem holds_swapYear (m : Mem) :
    ∃ bytes, bytes.length = 8 ∧ Holds (swapYear (swapEid (setHeader m))) 0
      (frame (m HxbPacket.type) 0
        (appendU32 (getU32 m HxbPacket.eid) ++ m HxbPacket.datatype :: bytes)) := by
  have hfront := holds_valueFrame m 0
  rw [readBlock_zero] at hfront
  have hoff : (frame (m HxbPacket.type) 0
      (appendU32 (getU32 m HxbPacket.eid) ++ [m HxbPacket.datatype])).length
        = HxbPacket.value := by
    simp [frame, appendU32, HxbPacket.value]
  refine ⟨readBlock (swapYear (swapEid (setHeader m))) HxbPacket.value 8, by simp, ?_⟩
  have hlist : frame (m HxbPacket.type) 0 (appendU32 (getU32 m HxbPacket.eid) ++
      m HxbPacket.datatype :: readBlock (swapYear (swapEid (setHeader m))) HxbPacket.value 8)
      = frame (m HxbPacket.type) 0 (appendU32 (getU32 m HxbPacket.eid) ++ [m HxbPacket.datatype])
        ++ readBlock (swapYear (swapEid (setHeader m))) HxbPacket.value 8 := by simp [frame]
  rw [hlist]
  refine holds_append.mpr ⟨hfront.write (.inl (by rw [hoff]; decide)), ?_⟩
  rw [hoff, Nat.zero_add, Holds, length_readBlock]

/-- What `do_udp_send` sends of a closed packet. -/
theorem doUdpSend_putCrc {m' : Mem} {len : Nat} {xs : List UInt8}
    (hprep : prepareForSend m = putCrc m' len) (h : Holds m' 0 xs)
    (hlen : len = HxbPacket.sizeof xs.length) : doUdpSend m = some (appendCRC xs) := by
  have hread := readBlock_putCrc h hlen
  have hpos : (putCrc m' len).1 ≠ 0 := by
    show len ≠ 0
    rw [hlen]
    unfold HxbPacket.sizeof
    omega
  unfold doUdpSend
  rw [hprep]
  show (if (putCrc m' len).1 = 0 then none
    else some (readBlock (putCrc m' len).2 0 (putCrc m' len).1)) = _
  rw [if_neg hpos, hread]

/-- The value bytes of a datagram, all data types but the date-time. -/
def sentValue (m : Mem) : DataType → List UInt8
  | .bool | .uint8 => readBlock m HxbPacket.value 1
  | .uint32 | .timestamp | .float => appendU32 (getU32 m HxbPacket.value)
  | .string128 => readBlock m HxbPacket.value (stringPacketBufferLength + 1)
  | .bytes65 => readBlock m HxbPacket.value 65
  | .bytes16 => readBlock m HxbPacket.value 16
  | .datetime | .undefined => []

/-- The switch of `prepare_for_send` for info packets. -/
theorem prepareForSend_info (ht : m HxbPacket.type = PacketType.info.code) :
    prepareForSend m =
      match DataType.ofCode (m HxbPacket.datatype) with
      | some .timestamp | some .uint32 =>
        putCrc (swapValue (swapEid (setHeader m))) HxbPacket.sizeofU32
      | some .datetime => putCrc (swapYear (swapEid (setHeader m))) HxbPacket.sizeofDatetime
      | some .float => putCrc (swapValue (swapEid (setHeader m))) HxbPacket.sizeofFloat
      | some .bool | some .uint8 => putCrc (swapEid (setHeader m)) HxbPacket.sizeofU8
      | some .string128 => putCrc (swapEid (setHeader m)) HxbPacket.sizeof128String
      | some .bytes65 => putCrc (swapEid (setHeader m)) HxbPacket.sizeof65Bytes
      | some .bytes16 => putCrc (swapEid (setHeader m)) HxbPacket.sizeof16Bytes
      | some .undefined | none => (0, swapEid (setHeader m)) := by
  have htype : setHeader m HxbPacket.type = PacketType.info.code := by
    have h := (holds_append.mp (holds_setHeader m)).2
    exact (holds_cons.mp h).1.trans ht
  have hdt : swapEid (setHeader m) HxbPacket.datatype = m HxbPacket.datatype :=
    swapEid_setHeader_apply (Nat.le_refl 10)
  unfold prepareForSend
  cases hd : DataType.ofCode (m HxbPacket.datatype) with
  | none => simp only [htype, PacketType.ofCode_code, hdt, hd]
  | some d => cases d <;> simp only [htype, PacketType.ofCode_code, hdt, hd]

/-- **The datagram of an info packet.** -/
theorem doUdpSend_info (ht : m HxbPacket.type = PacketType.info.code) {d : DataType}
    (hd : DataType.ofCode (m HxbPacket.datatype) = some d) (hne : d ≠ .undefined) :
    ∃ bytes, doUdpSend m = some (valueDatagram .info 0 (getU32 m HxbPacket.eid)
        (m HxbPacket.datatype) bytes) ∧ (d ≠ .datetime → bytes = sentValue m d) := by
  have hprep := prepareForSend_info ht
  rw [hd] at hprep
  have hblock : ∀ n, Holds (swapEid (setHeader m)) 0 (frame PacketType.info.code 0
      (appendU32 (getU32 m HxbPacket.eid) ++ m HxbPacket.datatype ::
        readBlock m HxbPacket.value n)) := fun n => ht ▸ holds_valueFrame m n
  have hswap : Holds (swapValue (swapEid (setHeader m))) 0 (frame PacketType.info.code 0
      (appendU32 (getU32 m HxbPacket.eid) ++ m HxbPacket.datatype ::
        appendU32 (getU32 m HxbPacket.value))) := ht ▸ holds_swapValue m
  have hsize : ∀ bytes : List UInt8, (frame PacketType.info.code 0
      (appendU32 (getU32 m HxbPacket.eid) ++ m HxbPacket.datatype :: bytes)).length
        = HxbPacket.value + bytes.length := by
    intro bytes
    simp [frame, appendU32, HxbPacket.value]
    omega
  cases d with
  | undefined => exact absurd rfl hne
  | datetime =>
    obtain ⟨bytes, hbytes, h⟩ := holds_swapYear m
    rw [ht] at h
    refine ⟨bytes, doUdpSend_putCrc hprep h ?_, fun h => absurd rfl h⟩
    rw [hsize, hbytes]
    rfl
  | bool => exact ⟨_, doUdpSend_putCrc hprep (hblock 1) (by rw [hsize, length_readBlock]; rfl),
      fun _ => rfl⟩
  | uint8 => exact ⟨_, doUdpSend_putCrc hprep (hblock 1) (by rw [hsize, length_readBlock]; rfl),
      fun _ => rfl⟩
  | uint32 => exact ⟨_, doUdpSend_putCrc hprep hswap (by rw [hsize, appendU32, length_beBytes]; rfl),
      fun _ => rfl⟩
  | float => exact ⟨_, doUdpSend_putCrc hprep hswap (by rw [hsize, appendU32, length_beBytes]; rfl),
      fun _ => rfl⟩
  | timestamp => exact ⟨_, doUdpSend_putCrc hprep hswap
      (by rw [hsize, appendU32, length_beBytes]; rfl), fun _ => rfl⟩
  | string128 => exact ⟨_, doUdpSend_putCrc hprep (hblock (stringPacketBufferLength + 1))
      (by rw [hsize, length_readBlock]; rfl), fun _ => rfl⟩
  | bytes65 => exact ⟨_, doUdpSend_putCrc hprep (hblock 65) (by rw [hsize, length_readBlock]; rfl),
      fun _ => rfl⟩
  | bytes16 => exact ⟨_, doUdpSend_putCrc hprep (hblock 16) (by rw [hsize, length_readBlock]; rfl),
      fun _ => rfl⟩

/-- A value packet of unknown data type is not sent. -/
theorem doUdpSend_info_none (ht : m HxbPacket.type = PacketType.info.code)
    (hd : DataType.ofCode (m HxbPacket.datatype) = none
      ∨ DataType.ofCode (m HxbPacket.datatype) = some .undefined) : doUdpSend m = none := by
  have hprep := prepareForSend_info ht
  unfold doUdpSend
  rcases hd with hd | hd <;> rw [hprep, hd] <;> rfl

/-- **The datagram of an endpoint info packet.** -/
theorem doUdpSend_epinfo (ht : m HxbPacket.type = PacketType.epinfo.code) :
    doUdpSend m = some (valueDatagram .epinfo 0 (getU32 m HxbPacket.eid) (m HxbPacket.datatype)
      (readBlock m HxbPacket.value (stringPacketBufferLength + 1))) := by
  have htype : setHeader m HxbPacket.type = PacketType.epinfo.code := by
    have h := (holds_append.mp (holds_setHeader m)).2
    exact (holds_cons.mp h).1.trans ht
  have hprep : prepareForSend m = putCrc (swapEid (setHeader m)) HxbPacket.sizeof128String := by
    simp only [prepareForSend, htype, PacketType.ofCode_code]
  have h := holds_valueFrame m (stringPacketBufferLength + 1)
  rw [ht] at h
  refine doUdpSend_putCrc hprep h ?_
  simp [frame, appendU32, HxbPacket.sizeof128String, HxbPacket.value, stringPacketBufferLength]

/-- **The datagram of an error packet.** -/
theorem doUdpSend_error (ht : m HxbPacket.type = PacketType.error.code) :
    doUdpSend m
      = some (appendCRC (frame PacketType.error.code 0 [m HxbPacket.errorCode])) := by
  have hheader := holds_setHeader m
  have htype : setHeader m HxbPacket.type = PacketType.error.code := by
    have h := (holds_append.mp hheader).2
    exact (holds_cons.mp h).1.trans ht
  have hprep : prepareForSend m = putCrc (setHeader m) HxbPacket.sizeofError := by
    simp only [prepareForSend, htype, PacketType.ofCode_code]
  have hlist : frame PacketType.error.code 0 [m HxbPacket.errorCode]
      = (hxbHeader ++ [m HxbPacket.type, 0]) ++ [m HxbPacket.errorCode] := by simp [frame, ht]
  refine doUdpSend_putCrc hprep ?_ rfl
  rw [hlist]
  exact holds_append.mpr ⟨hheader, holds_cons.mpr ⟨setHeader_apply (Nat.le_refl 6), rfl⟩⟩

/-! ## What arrives -/

/-- The value that stands in a packet, before it is sent. -/
def packetValue (m : Mem) : HxbValue where
  datatype := m HxbPacket.datatype
  raw := ⟨readBlock m HxbPacket.value 8, length_readBlock _ _ _⟩
  blob := match DataType.ofCode (m HxbPacket.datatype) with
    | some .string128 => readBlock m HxbPacket.value (stringPacketBufferLength + 1)
    | some .bytes65 => readBlock m HxbPacket.value 65
    | some .bytes16 => readBlock m HxbPacket.value 16
    | _ => []

theorem packetValue_v_u8 (m : Mem) : (packetValue m).v_u8 = m HxbPacket.value := by
  show (readBlock m HxbPacket.value 8).getD 0 0 = _
  rw [readBlock_succ]
  rfl

theorem packetValue_v_u32 (m : Mem) : (packetValue m).v_u32 = getU32 m HxbPacket.value := by
  show UInt32.ofNat (ofLe ((readBlock m HxbPacket.value 8).take 4)) = _
  rw [take_readBlock _ _ _ _ (by omega)]
  rfl

/-- The name buffer of an endpoint info packet, or the value buffer of a string. -/
def packetString (m : Mem) : List UInt8 :=
  readBlock m HxbPacket.value (stringPacketBufferLength + 1)

/-- A packet of the host says what the firmware's packet says. -/
def Agrees (m : Mem) : Packet → Prop
  | .error code _ => m HxbPacket.type = PacketType.error.code ∧ m HxbPacket.errorCode = code
  | .info eid value _ => m HxbPacket.type = PacketType.info.code ∧ getU32 m HxbPacket.eid = eid ∧
      m HxbPacket.datatype = value.datatype.code ∧ SameValue (packetValue m) value
  | .endpointInfo eid datatype s _ => m HxbPacket.type = PacketType.epinfo.code ∧
      getU32 m HxbPacket.eid = eid ∧ m HxbPacket.datatype = datatype ∧
      (0 : UInt8) ∈ packetString m ∧ cString (packetString m) = s.bytes
  | _ => False

/-- If anything is sent, the host accepts it and reads the packet that was built. -/
def Delivered (m : Mem) : Prop :=
  ∀ datagram, doUdpSend m = some datagram →
    ∃ p, Host.deserialize datagram = .ok p ∧ Agrees m p

/-- The info packets that are lost: date-times, and strings without a terminator
in their buffer. -/
def Lost (m : Mem) : Prop :=
  m HxbPacket.type = PacketType.info.code ∧
    (m HxbPacket.datatype = DataType.datetime.code ∨
      m HxbPacket.datatype = DataType.string128.code ∧ (0 : UInt8) ∉ packetString m)

theorem delivered_of_eq {m : Mem} {datagram : List UInt8} {p : Packet}
    (hsend : doUdpSend m = some datagram) (hread : Host.deserialize datagram = .ok p)
    (hp : Agrees m p) : Delivered m := by
  intro d hd
  rw [hsend] at hd
  cases hd
  exact ⟨p, hread, hp⟩

/-- **Error packets are delivered.** -/
theorem delivered_error (ht : m HxbPacket.type = PacketType.error.code) : Delivered m := by
  refine delivered_of_eq (doUdpSend_error ht) (p := .error (m HxbPacket.errorCode) 0) ?_ ⟨ht, rfl⟩
  rw [← serialize_error]
  exact deserialize_serialize rfl

/-- **Endpoint info packets with a terminated name are delivered.** -/
theorem delivered_epinfo (ht : m HxbPacket.type = PacketType.epinfo.code)
    (hnul : (0 : UInt8) ∈ packetString m) : Delivered m := by
  have hlen : (packetString m).length = maxLength + 1 := length_readBlock _ _ _
  have hbound : (cString (packetString m)).length ≤ maxLength := by
    obtain ⟨tail, htail⟩ := cString_split hnul
    have h := congrArg List.length htail
    rw [List.length_append, List.length_cons, hlen] at h
    omega
  refine delivered_of_eq (doUdpSend_epinfo ht)
    (p := .endpointInfo (getU32 m HxbPacket.eid) (m HxbPacket.datatype)
      ⟨cString (packetString m), hbound⟩ 0) ?_ ⟨ht, rfl, rfl, hnul, rfl⟩
  exact deserialize_endpointInfo hlen hnul rfl

/-- The host reads the value an info packet holds, unless the packet is lost. -/
theorem readValue_sentValue (eid : UInt32) {d : DataType}
    (hd : DataType.ofCode (m HxbPacket.datatype) = some d) (hne : d ≠ .undefined)
    (hdt : d ≠ .datetime) (hnul : d = .string128 → (0 : UInt8) ∈ packetString m) :
    ∃ value, (readValue (valueDatagram .info 0 eid d.code (sentValue m d)) d.code).run 11
        = .ok (value, 11 + (sentValue m d).length) ∧
      value.datatype = d ∧ SameValue (packetValue m) value := by
  have hat : At (valueDatagram .info 0 eid d.code (sentValue m d)) 11 _ := value_at
  cases d with
  | undefined => exact absurd rfl hne
  | datetime => exact absurd rfl hdt
  | bool =>
    have hbyte : sentValue m .bool = [m HxbPacket.value] := by
      rw [sentValue, readBlock_succ]
      rfl
    rw [hbyte] at hat ⊢
    refine ⟨.bool (m HxbPacket.value ≠ 0), ?_, rfl, ?_⟩
    · show (do return Value.bool ((← readU8 _) ≠ 0) : Reader Value).run 11 = _
      rw [run_bind (readU8_at hat)]
      rfl
    · show decide ((packetValue m).v_u8 ≠ 0) = _
      rw [packetValue_v_u8]
  | uint8 =>
    have hbyte : sentValue m .uint8 = [m HxbPacket.value] := by
      rw [sentValue, readBlock_succ]
      rfl
    rw [hbyte] at hat ⊢
    refine ⟨.uint8 (m HxbPacket.value), ?_, rfl, packetValue_v_u8 m⟩
    show (do return Value.uint8 (← readU8 _) : Reader Value).run 11 = _
    rw [run_bind (readU8_at hat)]
    rfl
  | uint32 =>
    refine ⟨.uint32 (getU32 m HxbPacket.value), ?_, rfl, packetValue_v_u32 m⟩
    show (do return Value.uint32 (← readU32 _) : Reader Value).run 11 = _
    rw [run_bind (readU32_appendU32 hat)]
    rfl
  | float =>
    refine ⟨.float (getU32 m HxbPacket.value), ?_, rfl, packetValue_v_u32 m⟩
    show (do return Value.float (← readU32 _) : Reader Value).run 11 = _
    rw [run_bind (readU32_appendU32 hat)]
    rfl
  | timestamp =>
    refine ⟨.timestamp (.seconds (getU32 m HxbPacket.value).toNat), ?_, rfl, ?_⟩
    · show (do return Value.timestamp (.seconds (← readU32 _).toNat) : Reader Value).run 11 = _
      rw [run_bind (readU32_appendU32 hat)]
      rfl
    · show TimeDuration.seconds (packetValue m).v_u32.toNat = _
      rw [packetValue_v_u32]
  | string128 =>
    have hlen : (packetString m).length = maxLength + 1 := length_readBlock _ _ _
    have hbound : (cString (packetString m)).length ≤ maxLength := by
      obtain ⟨tail, htail⟩ := cString_split (hnul rfl)
      have h := congrArg List.length htail
      rw [List.length_append, List.length_cons, hlen] at h
      omega
    refine ⟨.string ⟨cString (packetString m), hbound⟩, ?_, rfl, ?_⟩
    · show (do
        let s ← readString _
        return Value.string (← liftM (ValueString.make s)) : Reader Value).run 11 = _
      have hmake : ValueString.make (cString (packetString m))
          = .ok ⟨cString (packetString m), hbound⟩ :=
        ValueString.make_bytes ⟨cString (packetString m), hbound⟩
      have hbuf : At (valueDatagram .info 0 eid DataType.string128.code (sentValue m .string128))
          11 (packetString m ++ _) := hat
      rw [run_bind (readString_buffer hbuf hlen (hnul rfl)), hmake]
      show _ = Except.ok (_, 11 + (packetString m).length)
      rw [hlen]
      rfl
    · show (0 : UInt8) ∈ (packetValue m).blob ∧ cString (packetValue m).blob = _
      have hblob : (packetValue m).blob = packetString m := by
        simp only [packetValue, hd]
        rfl
      rw [hblob]
      exact ⟨hnul rfl, rfl⟩
  | bytes16 =>
    refine ⟨.bytes16 ⟨readBlock m HxbPacket.value 16, length_readBlock _ _ _⟩, ?_, rfl, ?_⟩
    · show (do return Value.bytes16 (← readBytes _ 16) : Reader Value).run 11 = _
      rw [run_bind (readBytes_at ⟨readBlock m HxbPacket.value 16, length_readBlock _ _ _⟩ hat)]
      show _ = Except.ok (_, 11 + (readBlock m HxbPacket.value 16).length)
      rw [length_readBlock]
      rfl
    · show (packetValue m).blob = readBlock m HxbPacket.value 16
      simp only [packetValue, hd]
  | bytes65 =>
    refine ⟨.bytes65 ⟨readBlock m HxbPacket.value 65, length_readBlock _ _ _⟩, ?_, rfl, ?_⟩
    · show (do return Value.bytes65 (← readBytes _ 65) : Reader Value).run 11 = _
      rw [run_bind (readBytes_at ⟨readBlock m HxbPacket.value 65, length_readBlock _ _ _⟩ hat)]
      show _ = Except.ok (_, 11 + (readBlock m HxbPacket.value 65).length)
      rw [length_readBlock]
      rfl
    · show (packetValue m).blob = readBlock m HxbPacket.value 65
      simp only [packetValue, hd]

/-- A lost packet is not read. -/
theorem not_delivered_of_lost (h : Lost m) : ¬ Delivered m := by
  obtain ⟨ht, hlost⟩ := h
  intro hdelivered
  rcases hlost with hdt | ⟨hstring, hnul⟩
  · have hd : DataType.ofCode (m HxbPacket.datatype) = some .datetime := by
      rw [hdt, DataType.ofCode_code]
    obtain ⟨bytes, hsend, -⟩ := doUdpSend_info ht hd (by decide)
    obtain ⟨p, hread, -⟩ := hdelivered _ hsend
    refine deserialize_value_ne_ok (.inl rfl) ?_ p hread
    rw [hdt]
    exact fun r => run_bind_ne_ok (readDatetime_ne_ok _ 11) r
  · have hd : DataType.ofCode (m HxbPacket.datatype) = some .string128 := by
      rw [hstring, DataType.ofCode_code]
    obtain ⟨bytes, hsend, hbytes⟩ := doUdpSend_info ht hd (by decide)
    have hstr : bytes = packetString m := hbytes (by decide)
    obtain ⟨p, hread, -⟩ := hdelivered _ hsend
    refine deserialize_value_ne_ok (.inl rfl) ?_ p hread
    intro r hr
    rw [hstring] at hr
    -- the string that is read is longer than a string value may be
    obtain ⟨s, off, hs, hmake⟩ := run_bind_ok hr
    have hlong := readString_unterminated value_at (by rw [hstr]; exact length_readBlock _ _ _)
      (by rw [hstr]; exact hnul) hs
    obtain ⟨value, _, hvalue, -⟩ := run_bind_ok hmake
    rw [run_liftM, ValueString.make, dif_neg (by omega)] at hvalue
    cases hvalue

/-- **The info packets that arrive are the ones not lost.** -/
theorem delivered_info_iff (ht : m HxbPacket.type = PacketType.info.code) :
    Delivered m ↔ ¬ Lost m := by
  refine ⟨fun h hlost => not_delivered_of_lost hlost h, ?_⟩
  intro hlost
  have hdt : m HxbPacket.datatype ≠ DataType.datetime.code := fun h => hlost ⟨ht, .inl h⟩
  have hnul : m HxbPacket.datatype = DataType.string128.code → (0 : UInt8) ∈ packetString m := by
    intro h
    by_contra hno
    exact hlost ⟨ht, .inr ⟨h, hno⟩⟩
  cases hd : DataType.ofCode (m HxbPacket.datatype) with
  | none =>
    intro d hsend
    rw [doUdpSend_info_none ht (.inl hd)] at hsend
    cases hsend
  | some d =>
    have hcode := DataType.eq_code_of_ofCode hd
    by_cases hundef : d = .undefined
    · intro d' hsend
      rw [doUdpSend_info_none ht (.inr (hundef ▸ hd))] at hsend
      cases hsend
    · have hdt' : d ≠ .datetime := fun h => hdt (h ▸ hcode)
      obtain ⟨bytes, hsend, hbytes⟩ := doUdpSend_info ht hd hundef
      obtain ⟨value, hread, hval, hsame⟩ := readValue_sentValue (getU32 m HxbPacket.eid) hd
        hundef hdt' (fun h => hnul (h ▸ hcode))
      rw [hbytes hdt', hcode] at hsend
      have hok := deserialize_value_ok (.inl rfl) hread
      refine delivered_of_eq hsend hok ?_
      exact ⟨ht, rfl, hval ▸ hcode, hsame⟩

/-- **Every packet the firmware builds is delivered, unless it is lost.** -/
theorem built_delivered_iff {σ : Type} {chain : EndpointChain σ} {eeprom : Mem} {s : σ}
    (h : Built chain eeprom s m) : Delivered m ↔ ¬ Lost m := by
  rcases h.type_cases with ht | ht | ⟨ht, hzero⟩
  · have hlost : ¬ Lost m := by
      rintro ⟨hinfo, -⟩
      rw [ht] at hinfo
      exact absurd hinfo (by decide)
    exact ⟨fun _ => hlost, fun _ => delivered_error ht⟩
  · exact delivered_info_iff ht
  · have hlost : ¬ Lost m := by
      rintro ⟨hinfo, -⟩
      rw [ht] at hinfo
      exact absurd hinfo (by decide)
    have hnul : (0 : UInt8) ∈ packetString m := by
      rw [packetString, readBlock_add]
      refine List.mem_append_right _ ?_
      rw [readBlock_succ, hzero]
      exact List.mem_cons_self
    exact ⟨fun _ => hlost, fun _ => delivered_epinfo ht hnul⟩

/-- The acknowledgement of a stored chunk arrives. -/
theorem acknack_delivered : Delivered (sendAcknack (fun _ => 0) true) := by
  have hbuilt : Built ([] : EndpointChain Unit) (fun _ => 0) () (sendAcknack (fun _ => 0) true) :=
    .acknack _ _
  refine (built_delivered_iff hbuilt).mpr ?_
  rintro ⟨-, hdt | ⟨hdt, -⟩⟩
  · exact absurd hdt (by decide)
  · exact absurd hdt (by decide)

/-- An endpoint that tells the time: midday of the first day of 2013. -/
def clockEndpoint : EndpointDescriptor Unit where
  datatype := DataType.datetime.code
  eid := 60
  name := []
  read := fun value _ => (.success, value.setDatetime ⟨12, 0, 0, 1, 1, 2013, 2⟩)
  write := none

/-- The reply to a query for the time. -/
def clockReply : Mem :=
  (generateQueryResponse [clockEndpoint] () (fun _ => 0) ⟨0, Block.zero 8, []⟩ 60).2

/-- The time is not told to the host. -/
theorem clockReply_not_delivered :
    Built [clockEndpoint] (fun _ => 0) () clockReply ∧ ¬ Delivered clockReply := by
  constructor
  · exact .queryResponse (fun _ => 0) ⟨0, Block.zero 8, []⟩ 60 clockReply rfl
  · exact not_delivered_of_lost ⟨by decide +kernel, .inl (by decide +kernel)⟩

end Hexabus.Wire
