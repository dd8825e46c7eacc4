import Hexabus.Firmware.Reception

/-!
# What stale bytes can do

The network buffer keeps the bytes of earlier datagrams behind the received one. Which
datagrams are handled the same whatever stands there: those whose own bytes decide,
because they are no packet, because they reach as far as the struct their header
announces, or because they are one byte short with a checksum that is wrong already.
-/

namespace Hexabus.Firmware

open Lib.Bytes Lib.Store

variable {m m₁ m₂ : Mem} {d : List UInt8} {n : Nat}

/-! ## Buffers that agree -/

theorem checkCrc_congr (h₁ : dataLen m₁ = some n) (h₂ : dataLen m₂ = some n)
    (hagree : ∀ i, i < n → m₁ i = m₂ i) : checkCrc m₁ = checkCrc m₂ := by
  have hn := le_dataLen h₁
  have hcrc : getU16 m₁ (n - 2) = getU16 m₂ (n - 2) := by
    unfold getU16
    rw [readBlock_congr fun i _ hi => hagree i (by omega)]
  have hdata : readBlock m₁ 0 (n - 2) = readBlock m₂ 0 (n - 2) :=
    readBlock_congr fun i _ hi => hagree i (by omega)
  unfold checkCrc
  rw [h₁, h₂]
  simp only [hcrc, hdata]

/-- How many bytes the value of a data type takes. -/
def valueWidth : DataType → Option Nat
  | .undefined => none
  | .bool | .uint8 => some 1
  | .uint32 | .timestamp | .float => some 4
  | .datetime => some 8
  | .string128 => some (stringPacketBufferLength + 1)
  | .bytes65 => some 65
  | .bytes16 => some 16

/-- The packets that carry a value. -/
def IsValuePacket (packet : Mem) : Prop :=
  packet HxbPacket.type = PacketType.info.code ∨ packet HxbPacket.type = PacketType.write.code

theorem dataLen_value (h : IsValuePacket m) (hn : dataLen m = some n) :
    ∃ t k, DataType.ofCode (m HxbPacket.datatype) = some t ∧ valueWidth t = some k ∧
      HxbPacket.value + k + 2 = n := by
  unfold dataLen at hn
  rcases h with h | h
  all_goals
    rw [h, PacketType.ofCode_code] at hn
    cases hd : DataType.ofCode (m HxbPacket.datatype) with
    | none =>
      simp only [hd] at hn
      cases hn
    | some t =>
      simp only [hd] at hn
      cases t with
      | undefined => cases hn
      | _ => exact ⟨_, _, rfl, rfl, Option.some.inj hn⟩

/-- A value lies within the struct that its data type announces. -/
theorem extractValue_congr (value : HxbValue) (hvalue : IsValuePacket m₁)
    (hn : dataLen m₁ = some n) (hagree : ∀ i, i < n → m₁ i = m₂ i) :
    extractValue m₁ value = extractValue m₂ value := by
  obtain ⟨t, k, hd, hk, hlen⟩ := dataLen_value hvalue hn
  have hdatatype : m₁ HxbPacket.datatype = m₂ HxbPacket.datatype := by
    apply hagree
    have hoff : HxbPacket.datatype = 10 ∧ HxbPacket.value = 11 := ⟨rfl, rfl⟩
    omega
  have hblock : readBlock m₁ HxbPacket.value k = readBlock m₂ HxbPacket.value k :=
    readBlock_congr fun i _ hi => hagree i (by omega)
  unfold extractValue
  rw [← hdatatype]
  simp only [hd]
  cases t with
  | undefined => cases hk
  | bool | uint8 =>
    cases hk
    rw [readBlock_succ, readBlock_succ] at hblock
    rw [(List.cons.inj hblock).1]
  | uint32 | timestamp | float =>
    cases hk
    simp only [getU32, hblock]
  | datetime =>
    cases hk
    simp only [getDatetime, hblock]
  | string128 | bytes65 | bytes16 =>
    cases hk
    rw [hblock]

/-- The handler looks at the announced struct only. -/
theorem udphandler_congr (arrival : Arrival) (value : HxbValue) (h₁ : dataLen m₁ = some n)
    (hagree : ∀ i, i < n → m₁ i = m₂ i) :
    udphandler arrival value m₁ = udphandler arrival value m₂ := by
  have hn := le_dataLen h₁
  have hmagic : isHexabusPacket m₁ = isHexabusPacket m₂ := by
    unfold isHexabusPacket
    rw [readBlock_congr fun i _ hi => hagree i (by have : HxbPacket.magic = 0 := rfl; omega)]
  have htype : m₁ HxbPacket.type = m₂ HxbPacket.type := hagree 4 (by omega)
  have hdatatype : IsValuePacket m₁ → m₁ HxbPacket.datatype = m₂ HxbPacket.datatype := by
    intro hvalue
    obtain ⟨t, k, -, -, hlen⟩ := dataLen_value hvalue h₁
    have hoff : HxbPacket.value = 11 := rfl
    exact hagree 10 (by omega)
  have h₂ : dataLen m₂ = some n := dataLen_congr htype hdatatype ▸ h₁
  have hcrc := checkCrc_congr h₁ h₂ hagree
  have heid : 12 ≤ n → packetEid m₁ = packetEid m₂ := by
    intro hlong
    unfold packetEid
    rw [getU32_congr fun i _ hi => hagree i (by have : HxbPacket.eid = 6 := rfl; omega)]
  have hbroadcast : isBroadcast arrival m₁ = isBroadcast arrival m₂ := by
    unfold isBroadcast
    rw [htype]
  unfold udphandler
  rw [← hmagic, ← hcrc, ← hbroadcast, ← htype]
  by_cases hh : isHexabusPacket m₁ = false
  · rw [if_pos hh, if_pos hh]
  · rw [if_neg hh, if_neg hh]
    by_cases hc : checkCrc m₁ ≠ .success
    · rw [if_pos hc, if_pos hc]
    · rw [if_neg hc, if_neg hc]
      cases ht : PacketType.ofCode (m₁ HxbPacket.type) with
      | none => rfl
      | some t =>
        have hcode := PacketType.eq_code_of_ofCode ht
        have hquery : t = .query ∨ t = .epquery → 12 ≤ n := by
          unfold dataLen at h₁
          rw [ht] at h₁
          rintro (rfl | rfl)
          · exact le_of_eq (Option.some.inj h₁)
          · exact le_of_eq (Option.some.inj h₁)
        have hval : t = .info ∨ t = .write → IsValuePacket m₁ := by
          rintro (rfl | rfl)
          · exact .inl hcode
          · exact .inr hcode
        have henvelope : IsValuePacket m₁ → ∀ v,
            envelopeOf arrival m₁ v = envelopeOf arrival m₂ v := by
          intro hvalue v
          obtain ⟨_, k, -, -, hlen⟩ := dataLen_value hvalue h₁
          have hoff : HxbPacket.value = 11 := rfl
          unfold envelopeOf
          rw [heid (by omega)]
        cases t with
        | error => rfl
        | epinfo => rfl
        | query => rw [heid (hquery (.inl rfl))]
        | epquery => rw [heid (hquery (.inr rfl))]
        | info =>
          have hvalue := hval (.inl rfl)
          rw [extractValue_congr value hvalue h₁ hagree, ← hdatatype hvalue]
          simp only [henvelope hvalue]
        | write =>
          have hvalue := hval (.inr rfl)
          rw [extractValue_congr value hvalue h₁ hagree]
          simp only [henvelope hvalue]

/-! ## Datagrams that decide -/

/-- The header fields that pick the struct have been received. -/
def HeaderReceived (d : List UInt8) : Prop :=
  HxbPacket.type < d.length ∧
    (d.getD HxbPacket.type 0 = PacketType.info.code ∨
      d.getD HxbPacket.type 0 = PacketType.write.code → HxbPacket.datatype < d.length)

instance (d : List UInt8) : Decidable (HeaderReceived d) := by
  unfold HeaderReceived
  infer_instance

/-- The first byte of the checksum that a struct of `n` bytes has to end with. -/
def checksumByte (d : List UInt8) (n : Nat) : UInt8 :=
  (beBytes 2 (crc16Data (d.take (n - 2)) 0).toNat).getD 0 0

/-- The received bytes alone decide what becomes of the datagram. -/
def Decided (d : List UInt8) : Prop :=
  ¬ d.take 4 <+: hxbHeader ∨
  HeaderReceived d ∧ ∀ n, dataLen (writeBlock (fun _ => 0) 0 d) = some n →
    n ≤ d.length ∨ n = d.length + 1 ∧ d.getD (n - 2) 0 ≠ checksumByte d n

/-- The datagram is handled the same over all contents of the buffer behind it, and is
never accepted when it is shorter than the struct its header announces. -/
def DatagramLocal (arrival : Arrival) (value : HxbValue) (d : List UInt8) : Prop :=
  (∀ m₁ m₂ : Mem, Holds m₁ 0 d → Holds m₂ 0 d →
    udphandler arrival value m₁ = udphandler arrival value m₂) ∧
  ∀ (m : Mem) (n : Nat), Holds m 0 d → isHexabusPacket m = true → dataLen m = some n →
    d.length < n → checkCrc m ≠ .success

theorem checkCrc_success_iff (hn : dataLen m = some n) :
    checkCrc m = .success ↔
      readBlock m (n - 2) 2 = beBytes 2 (crc16Data (readBlock m 0 (n - 2)) 0).toNat := by
  have hlen : (readBlock m (n - 2) 2).length = 2 := length_readBlock m (n - 2) 2
  have hlt : ofBe (readBlock m (n - 2) 2) < 256 ^ 2 := by
    have h := ofBe_lt (readBlock m (n - 2) 2)
    rwa [hlen] at h
  have hswap : uipHtons (getU16 m (n - 2)) = UInt16.ofNat (ofBe (readBlock m (n - 2) 2)) :=
    uipHtons_ofLe hlen
  unfold checkCrc
  rw [hn]
  simp only
  rw [hswap]
  generalize crc16Data (readBlock m 0 (n - 2)) 0 = crc
  constructor
  · intro h
    by_cases hc : UInt16.ofNat (ofBe (readBlock m (n - 2) 2)) = crc
    · have hnat : crc.toNat = ofBe (readBlock m (n - 2) 2) := by
        rw [← hc, UInt16.toNat_ofNat_of_lt' hlt]
      have hback := beBytes_ofBe (readBlock m (n - 2) 2)
      rw [hlen] at hback
      rw [hnat, hback]
    · rw [if_pos hc] at h
      cases h
  · intro h
    have hcrc : UInt16.ofNat (ofBe (readBlock m (n - 2) 2)) = crc := by
      have hmod : crc.toNat % 256 ^ 2 = crc.toNat := Nat.mod_eq_of_lt crc.toNat_lt
      rw [h, ofBe_beBytes, hmod, UInt16.ofNat_toNat]
    rw [if_neg (by simpa using hcrc)]

theorem checkCrc_eq_crcFailed (hn : dataLen m = some n) (h : checkCrc m ≠ .success) :
    checkCrc m = .crcFailed := by
  unfold checkCrc at h ⊢
  rw [hn] at h ⊢
  simp only at h ⊢
  by_cases hc : uipHtons (getU16 m (n - 2)) ≠ crc16Data (readBlock m 0 (n - 2)) 0
  · rw [if_pos hc]
  · rw [if_neg hc] at h
    exact absurd rfl h

/-- Only the bytes of the magic are in question. -/
theorem take_prefix_of_isHexabusPacket (h : Holds m 0 d) (hh : isHexabusPacket m = true) :
    d.take 4 <+: hxbHeader := by
  have hmagic : readBlock m 0 4 = hxbHeader := of_decide_eq_true hh
  rw [← hmagic, ← show readBlock m 0 d.length = d from h]
  rcases Nat.le_total 4 d.length with hle | hle
  · rw [take_readBlock m 0 d.length 4 hle]
  · rw [List.take_of_length_le (by simpa using hle), ← take_readBlock m 0 4 d.length hle]
    exact List.take_prefix _ _

theorem dataLen_eq_of_holds (hr : HeaderReceived d) (h₁ : Holds m₁ 0 d) (h₂ : Holds m₂ 0 d) :
    m₁ HxbPacket.type = m₂ HxbPacket.type ∧ dataLen m₁ = dataLen m₂ := by
  have htype : m₁ HxbPacket.type = m₂ HxbPacket.type := by
    rw [h₁.getD_eq 0 hr.1, h₂.getD_eq 0 hr.1]
  refine ⟨htype, dataLen_congr htype fun hvalue => ?_⟩
  rw [h₁.getD_eq 0 hr.1] at hvalue
  rw [h₁.getD_eq 0 (hr.2 hvalue), h₂.getD_eq 0 (hr.2 hvalue)]

theorem isHexabusPacket_eq_of_holds (hlen : 4 ≤ d.length) (h₁ : Holds m₁ 0 d)
    (h₂ : Holds m₂ 0 d) : isHexabusPacket m₁ = isHexabusPacket m₂ := by
  unfold isHexabusPacket
  have hread : readBlock m₁ HxbPacket.magic 4 = readBlock m₂ HxbPacket.magic 4 := by
    refine readBlock_congr fun i _ hi => ?_
    have hi4 : i < d.length := lt_of_lt_of_le hi hlen
    rw [h₁.getD_eq 0 hi4, h₂.getD_eq 0 hi4]
  rw [hread]

/-- A datagram that lacks its last byte and has a wrong checksum byte is rejected. -/
theorem checkCrc_of_wrong_byte (h : Holds m 0 d) (hn : dataLen m = some n)
    (hlen : n = d.length + 1) (hwrong : d.getD (n - 2) 0 ≠ checksumByte d n) :
    checkCrc m ≠ .success := by
  have h9 := le_dataLen hn
  intro hok
  have hcrc := (checkCrc_success_iff hn).mp hok
  have hdata : readBlock m 0 (n - 2) = d.take (n - 2) := by
    rw [← take_readBlock m 0 d.length (n - 2) (by omega), show readBlock m 0 d.length = d from h]
  rw [hdata] at hcrc
  have hfirst := congrArg (fun l : List UInt8 => l.getD 0 0) hcrc
  rw [readBlock_succ] at hfirst
  apply hwrong
  rw [← h.getD_eq 0 (by omega)]
  exact hfirst

/-- Two packets of one type that fail the check alike are handled alike. -/
theorem udphandler_rejected (arrival : Arrival) (value : HxbValue) {err : ErrorCode}
    (hmagic : isHexabusPacket m₁ = isHexabusPacket m₂)
    (htype : m₁ HxbPacket.type = m₂ HxbPacket.type) (h₁ : checkCrc m₁ = err)
    (h₂ : checkCrc m₂ = err) (herr : err ≠ .success) :
    udphandler arrival value m₁ = udphandler arrival value m₂ := by
  have hbroadcast : isBroadcast arrival m₁ = isBroadcast arrival m₂ := by
    unfold isBroadcast
    rw [htype]
  unfold udphandler
  rw [hmagic, h₁, h₂, hbroadcast, if_pos herr, if_pos herr]

/-- A datagram whose bytes decide is handled the same over every buffer. -/
theorem Decided.datagramLocal (arrival : Arrival) (value : HxbValue) (h : Decided d) :
    DatagramLocal arrival value d := by
  have hzero : Holds (writeBlock (fun _ => 0) 0 d) 0 d := holds_write _ _ _
  rcases h with hmagic | ⟨hr, hdecided⟩
  · -- no buffer makes a packet of it
    have hno : ∀ m : Mem, Holds m 0 d → isHexabusPacket m = false := by
      intro m hm
      rcases Bool.eq_false_or_eq_true (isHexabusPacket m) with ht | hf
      · exact absurd (take_prefix_of_isHexabusPacket hm ht) hmagic
      · exact hf
    constructor
    · intro m₁ m₂ h₁ h₂
      unfold udphandler
      rw [if_pos (hno m₁ h₁), if_pos (hno m₂ h₂)]
    · intro m n hm hh
      rw [hno m hm] at hh
      cases hh
  · have hlong : 4 ≤ d.length := Nat.le_of_lt hr.1
    constructor
    · intro m₁ m₂ h₁ h₂
      obtain ⟨htype, hlen⟩ := dataLen_eq_of_holds hr h₁ h₂
      have hhexabus := isHexabusPacket_eq_of_holds hlong h₁ h₂
      cases hn : dataLen m₁ with
      | none =>
        have hmal₁ : checkCrc m₁ = .malformedPacket := by
          unfold checkCrc
          rw [hn]
        have hmal₂ : checkCrc m₂ = .malformedPacket := by
          unfold checkCrc
          rw [← hlen, hn]
        exact udphandler_rejected arrival value hhexabus htype hmal₁ hmal₂ (by decide)
      | some n =>
        have hn₀ := (dataLen_eq_of_holds hr hzero h₁).2.trans hn
        rcases hdecided n hn₀ with hle | ⟨hshort, hwrong⟩
        · refine udphandler_congr arrival value hn fun i hi => ?_
          have hi' : i < d.length := lt_of_lt_of_le hi hle
          rw [h₁.getD_eq 0 hi', h₂.getD_eq 0 hi']
        · have hn₂ : dataLen m₂ = some n := hlen ▸ hn
          have hbad₁ := checkCrc_of_wrong_byte h₁ hn hshort hwrong
          have hbad₂ := checkCrc_of_wrong_byte h₂ hn₂ hshort hwrong
          exact udphandler_rejected arrival value hhexabus htype (checkCrc_eq_crcFailed hn hbad₁)
            (checkCrc_eq_crcFailed hn₂ hbad₂) (by decide)
    · intro m n hm _ hn hlt
      have hn₀ := (dataLen_eq_of_holds hr hzero hm).2.trans hn
      rcases hdecided n hn₀ with hle | ⟨hshort, hwrong⟩
      · omega
      · exact checkCrc_of_wrong_byte hm hn hshort hwrong

/-! ## Datagrams that do not -/

/-- A packet that begins with the datagram, is longer, and can get a good checksum. -/
structure Completes (d : List UInt8) (m : Mem) (n : Nat) : Prop where
  holds : Holds m 0 d
  hexabus : isHexabusPacket m = true
  announced : dataLen m = some n
  short : d.length < n
  byte : n = d.length + 1 → d.getD (n - 2) 0 = checksumByte d n

/-- What stands behind the datagram: a query, or a packet with a value of one byte. -/
def staleBytes : Mem := fun i =>
  if i < 4 then hxbHeader.getD i 0
  else if i = HxbPacket.type then PacketType.query.code
  else if i = HxbPacket.datatype then DataType.uint8.code
  else 0

theorem isHexabusPacket_of_prefix (h : d.take 4 <+: hxbHeader) :
    isHexabusPacket (writeBlock staleBytes 0 d) = true := by
  refine decide_eq_true ?_
  have hread : ∀ i, i < 4 → writeBlock staleBytes 0 d i = hxbHeader.getD i 0 := by
    intro i hi
    by_cases hd : i < d.length
    · have hin := writeBlock_apply_in staleBytes 0 d i hd
      rw [Nat.zero_add] at hin
      have htake : i < (d.take 4).length := by
        rw [List.length_take]
        omega
      have hget : (d.take 4)[i]? = hxbHeader[i]? := by
        obtain ⟨rest, hrest⟩ := h
        rw [← hrest, List.getElem?_append_left htake]
      rw [List.getElem?_take_of_lt hi, List.getElem?_eq_getElem hd] at hget
      rw [hin, List.getD_eq_getElem?_getD, ← hget]
      rfl
    · rw [writeBlock_apply_out staleBytes 0 d i (.inr (by omega))]
      exact if_pos hi
  apply List.ext_getElem
  · rfl
  · intro i h1 h2
    have hi : i < 4 := by simpa using h1
    rw [getElem_readBlock]
    show writeBlock staleBytes 0 d (0 + i) = _
    rw [Nat.zero_add, hread i hi, List.getD_eq_getElem?_getD, List.getElem?_eq_getElem h2]
    rfl

theorem exists_completes (h : ¬ Decided d) : ∃ m n, Completes d m n := by
  have hbefore : d.take 4 <+: hxbHeader := by
    by_contra hno
    exact h (.inl hno)
  have hrest : HeaderReceived d → ∃ n, dataLen (writeBlock (fun _ => 0) 0 d) = some n ∧
      d.length < n ∧ (n = d.length + 1 → d.getD (n - 2) 0 = checksumByte d n) := by
    intro hr
    by_contra hno
    refine h (.inr ⟨hr, fun n hn => ?_⟩)
    by_contra hn'
    rw [not_or] at hn'
    refine hno ⟨n, hn, by omega, fun hlen => ?_⟩
    by_contra hbyte
    exact hn'.2 ⟨hlen, hbyte⟩
  have hstale : Holds (writeBlock staleBytes 0 d) 0 d := holds_write _ _ _
  have hhexabus := isHexabusPacket_of_prefix hbefore
  have houtside : ∀ i, d.length ≤ i → writeBlock staleBytes 0 d i = staleBytes i := fun i hi =>
    writeBlock_apply_out staleBytes 0 d i (.inr (by omega))
  by_cases htype : HxbPacket.type < d.length
  · by_cases hr : HeaderReceived d
    · obtain ⟨n, hn, hshort, hbyte⟩ := hrest hr
      have hzero : Holds (writeBlock (fun _ => 0) 0 d) 0 d := holds_write _ _ _
      exact ⟨_, n, hstale, hhexabus, (dataLen_eq_of_holds hr hstale hzero).2.trans hn, hshort, hbyte⟩
    · -- a value packet without its data type: one byte of value
      have hvalue : (d.getD HxbPacket.type 0 = PacketType.info.code ∨
          d.getD HxbPacket.type 0 = PacketType.write.code) ∧ d.length ≤ HxbPacket.datatype := by
        by_contra hno
        refine hr ⟨htype, fun hv => ?_⟩
        by_contra hlt
        exact hno ⟨hv, Nat.le_of_not_lt hlt⟩
      have hdt : writeBlock staleBytes 0 d HxbPacket.datatype = DataType.uint8.code :=
        houtside _ hvalue.2
      have hlen : dataLen (writeBlock staleBytes 0 d) = some HxbPacket.sizeofU8 := by
        unfold dataLen
        rw [hstale.getD_eq 0 htype, hdt, DataType.ofCode_code]
        rcases hvalue.1 with hv | hv
        · rw [hv, PacketType.ofCode_code]
        · rw [hv, PacketType.ofCode_code]
      have hoff : HxbPacket.datatype = 10 ∧ HxbPacket.sizeofU8 = 14 := ⟨rfl, rfl⟩
      exact ⟨_, _, hstale, hhexabus, hlen, by omega, fun hbyte => absurd hbyte (by omega)⟩
  · -- not even the type: a query
    have ht : writeBlock staleBytes 0 d HxbPacket.type = PacketType.query.code :=
      houtside _ (Nat.le_of_not_lt htype)
    have hlen : dataLen (writeBlock staleBytes 0 d) = some HxbPacket.sizeofQuery := by
      unfold dataLen
      rw [ht, PacketType.ofCode_code]
    have hoff : HxbPacket.type = 4 ∧ HxbPacket.sizeofQuery = 12 := ⟨rfl, rfl⟩
    exact ⟨_, _, hstale, hhexabus, hlen, by omega, fun hbyte => absurd hbyte (by omega)⟩

/-- With the right checksum behind it the packet is accepted. -/
def repaired (m : Mem) (n : Nat) : Mem :=
  writeBlock m (n - 2) (beBytes 2 (crc16Data (readBlock m 0 (n - 2)) 0).toNat)

/-- With another last byte it is not. -/
def spoiled (m : Mem) (n : Nat) : Mem :=
  writeBlock (repaired m n) (n - 1) [repaired m n (n - 1) + 1]

theorem repaired_front (m : Mem) {n i : Nat} (hi : i < n - 2) : repaired m n i = m i :=
  writeBlock_apply_out m (n - 2) _ i (.inl hi)

theorem spoiled_front (m : Mem) {n i : Nat} (hi : i < n - 1) :
    spoiled m n i = repaired m n i :=
  writeBlock_apply_out (repaired m n) (n - 1) _ i (.inl hi)

/-- The struct is announced in front of the checksum. -/
theorem dataLen_of_front (hn : dataLen m = some n) (hsame : ∀ i, i < n - 2 → m₁ i = m i) :
    m₁ HxbPacket.type = m HxbPacket.type ∧ isHexabusPacket m₁ = isHexabusPacket m ∧
      dataLen m₁ = some n := by
  have h9 := le_dataLen hn
  have htype : m₁ HxbPacket.type = m HxbPacket.type := hsame 4 (by omega)
  refine ⟨htype, ?_, ?_⟩
  · unfold isHexabusPacket
    rw [readBlock_congr fun i _ hi => hsame i (by have : HxbPacket.magic = 0 := rfl; omega)]
  · rw [← hn]
    refine dataLen_congr htype fun hvalue => hsame 10 ?_
    rw [htype] at hvalue
    obtain ⟨t, k, hd, hk, hlen⟩ := dataLen_value hvalue hn
    have hoff : HxbPacket.value = 11 := rfl
    omega

theorem Completes.repaired (h : Completes d m n) :
    Holds (repaired m n) 0 d ∧ checkCrc (Firmware.repaired m n) = .success := by
  have h9 := le_dataLen h.announced
  obtain ⟨-, -, hn⟩ := dataLen_of_front h.announced fun i hi => repaired_front m hi
  have hfront : readBlock (Firmware.repaired m n) 0 (n - 2) = readBlock m 0 (n - 2) :=
    readBlock_congr fun i _ hi => repaired_front m (by omega)
  have hlen2 : (beBytes 2 (crc16Data (readBlock m 0 (n - 2)) 0).toNat).length = 2 :=
    length_beBytes 2 _
  constructor
  · refine holds_of_getD (x := 0) fun i hi => ?_
    by_cases hin : i < n - 2
    · rw [repaired_front m hin, h.holds.getD_eq 0 hi]
    · -- the datagram has the first byte of the checksum already
      have hshort := h.short
      have hlast : n = d.length + 1 := by omega
      obtain rfl : i = n - 2 := by omega
      have hcell := writeBlock_apply_in m (n - 2) _ 0 (by rw [hlen2]; omega)
      have hdata : readBlock m 0 (n - 2) = d.take (n - 2) := by
        rw [← take_readBlock m 0 d.length (n - 2) (by omega),
          show readBlock m 0 d.length = d from h.holds]
      rw [h.byte hlast]
      unfold Firmware.repaired checksumByte
      rw [hdata] at hcell ⊢
      exact hcell
  · rw [checkCrc_success_iff hn, hfront]
    exact (holds_write m (n - 2) _).read hlen2

theorem Completes.spoiled (h : Completes d m n) :
    Holds (spoiled m n) 0 d ∧ checkCrc (Firmware.spoiled m n) = .crcFailed := by
  have h9 := le_dataLen h.announced
  have hshort := h.short
  obtain ⟨hholds, hok⟩ := h.repaired
  obtain ⟨-, -, hn⟩ := dataLen_of_front h.announced fun i hi => repaired_front m hi
  obtain ⟨-, -, hn'⟩ := dataLen_of_front hn fun i hi =>
    spoiled_front m (Nat.lt_of_lt_of_le hi (by omega))
  constructor
  · refine holds_of_getD (x := 0) fun i hi => ?_
    rw [spoiled_front m (by omega), hholds.getD_eq 0 hi]
  · refine checkCrc_eq_crcFailed hn' fun hbad => ?_
    have hfront : readBlock (Firmware.spoiled m n) 0 (n - 2)
        = readBlock (Firmware.repaired m n) 0 (n - 2) :=
      readBlock_congr fun i _ hi => spoiled_front m (by omega)
    have hsame := ((checkCrc_success_iff hn').mp hbad)
    rw [hfront, ← (checkCrc_success_iff hn).mp hok] at hsame
    -- the two checksums differ in their last byte
    have hlast := congrArg (fun l : List UInt8 => l.getD 1 0) hsame
    simp only [readBlock_succ, readBlock_zero] at hlast
    have hplace : n - 2 + 1 = n - 1 := by omega
    have hcell := writeBlock_apply_in (Firmware.repaired m n) (n - 1)
      [Firmware.repaired m n (n - 1) + 1] 0 (by simp)
    have hone : Firmware.repaired m n (n - 1) + 1 = Firmware.repaired m n (n - 1) := by
      rw [hplace] at hlast
      exact hcell.symm.trans hlast
    have hnat := congrArg UInt8.toNat hone
    rw [UInt8.toNat_add] at hnat
    have hlt := (Firmware.repaired m n (n - 1)).toNat_lt
    have h1 : (1 : UInt8).toNat = 1 := rfl
    omega

/-- An accepted packet is not handled like a rejected one. -/
theorem udphandler_accepted_ne (arrival : Arrival) (value : HxbValue)
    (hm₁ : isHexabusPacket m₁ = true) (hm₂ : isHexabusPacket m₂ = true)
    (hn : dataLen m₁ = some n) (htype : m₂ HxbPacket.type = m₁ HxbPacket.type)
    (h₁ : checkCrc m₁ = .success) (h₂ : checkCrc m₂ = .crcFailed) :
    udphandler arrival value m₁ ≠ udphandler arrival value m₂ := by
  have hreject : udphandler arrival value m₂
      = replyError (isBroadcast arrival m₂) .crcFailed := by
    unfold udphandler
    rw [if_neg (by rw [hm₂]; simp), h₂, if_pos (by simp)]
  have hcase : udphandler arrival value m₂ = .reply .crcFailed ∨
      (udphandler arrival value m₂ = .ignore ∧ m₁ HxbPacket.type = PacketType.info.code) := by
    rw [hreject]
    unfold replyError
    by_cases hb : isBroadcast arrival m₂ = false
    · left
      rw [if_pos ⟨hb, by decide⟩]
    · right
      have htrue := Bool.eq_true_of_not_eq_false hb
      unfold isBroadcast at htrue
      rw [Bool.and_eq_true, decide_eq_true_eq, htype] at htrue
      exact ⟨if_neg fun h => hb h.1, htrue.1⟩
  have haccept : udphandler arrival value m₁ ≠ .reply .crcFailed ∧
      (m₁ HxbPacket.type = PacketType.info.code → udphandler arrival value m₁ ≠ .ignore) := by
    unfold udphandler
    rw [if_neg (by rw [hm₁]; simp), if_neg (by rw [h₁]; simp)]
    have hvalue : IsValuePacket m₁ → (extractValue m₁ value).1 = .success := by
      intro hv
      obtain ⟨t, k, hd, hk, -⟩ := dataLen_value hv hn
      unfold extractValue
      simp only [hd]
      cases t with
      | undefined => cases hk
      | _ => rfl
    cases ht : PacketType.ofCode (m₁ HxbPacket.type) with
    | none =>
      unfold dataLen at hn
      rw [ht] at hn
      cases hn
    | some t =>
      have hcode := PacketType.eq_code_of_ofCode ht
      have hno : t ≠ .info → m₁ HxbPacket.type ≠ PacketType.info.code := by
        intro hne h
        exact hne (PacketType.code_injective (hcode.symm.trans h))
      cases t with
      | error =>
        refine ⟨?_, fun h => absurd h (hno (by decide))⟩
        simp only [replyError]
        split <;> simp
      | epinfo =>
        refine ⟨?_, fun h => absurd h (hno (by decide))⟩
        simp only [replyError]
        split <;> simp
      | query => exact ⟨by simp, fun h => absurd h (hno (by decide))⟩
      | epquery => exact ⟨by simp, fun h => absurd h (hno (by decide))⟩
      | info =>
        have hok := hvalue (.inl hcode)
        simp only [hok]
        constructor
        · simp only [ne_eq, not_true_eq_false, if_false]
          split <;> simp
        · intro _
          simp only [ne_eq, not_true_eq_false, if_false]
          split <;> simp
      | write =>
        have hok := hvalue (.inr hcode)
        simp only [hok]
        exact ⟨by simp, fun h => absurd h (hno (by decide))⟩
  rcases hcase with hr | ⟨hi, hinfo⟩
  · rw [hr]
    exact haccept.1
  · rw [hi]
    exact haccept.2 hinfo

/-- **When stale bytes do not matter**: a datagram is handled the same over every
content of the buffer behind it exactly when its own bytes decide. -/
theorem datagramLocal_iff (arrival : Arrival) (value : HxbValue) (d : List UInt8) :
    DatagramLocal arrival value d ↔ Decided d := by
  constructor
  · rintro ⟨hlocal, -⟩
    by_contra hno
    obtain ⟨m, n, h⟩ := exists_completes hno
    obtain ⟨hholds₁, hok⟩ := h.repaired
    obtain ⟨hholds₂, hbad⟩ := h.spoiled
    have hfront₁ := dataLen_of_front h.announced fun i hi => repaired_front m hi
    have hfront₂ := dataLen_of_front hfront₁.2.2 fun i hi =>
      spoiled_front m (Nat.lt_of_lt_of_le hi (by omega))
    refine udphandler_accepted_ne arrival value ?_ ?_ hfront₁.2.2 hfront₂.1 hok hbad
      (hlocal _ _ hholds₁ hholds₂)
    · rw [hfront₁.2.1, h.hexabus]
    · rw [hfront₂.2.1, hfront₁.2.1, h.hexabus]
  · intro h
    exact h.datagramLocal arrival value

/-- The header of a write of one byte to endpoint 1, without the byte and its checksum. -/
def truncatedWrite : List UInt8 := [0x48, 0x58, 0x30, 0x43, 4, 0, 0, 0, 0, 1, 1]

/-- An earlier packet of the same kind, which switches the endpoint on. -/
def earlierWrite : Mem :=
  writeBlock (fun _ => 0) 0 (truncatedWrite ++ [1, 0x57, 0xB6])

/-- **A completed datagram**: over the earlier packet the truncated one is a write, over
an empty buffer it is rejected. -/
theorem truncatedWrite_completed :
    ¬ DatagramLocal ⟨Block.zero 16, 61616, false⟩ ⟨0, Block.zero 8, []⟩ truncatedWrite := by
  rintro ⟨hlocal, -⟩
  have hstale : Holds earlierWrite 0 truncatedWrite :=
    (holds_write (fun _ => 0) 0 (truncatedWrite ++ [1, 0x57, 0xB6])).left
  have hempty : Holds (writeBlock (fun _ => 0) 0 truncatedWrite) 0 truncatedWrite :=
    holds_write (fun _ => 0) 0 truncatedWrite
  have hsame := hlocal _ _ hstale hempty
  have hrejected : udphandler ⟨Block.zero 16, 61616, false⟩ ⟨0, Block.zero 8, []⟩
      (writeBlock (fun _ => 0) 0 truncatedWrite) = .reply .crcFailed := by decide +kernel
  have haccepted : udphandler ⟨Block.zero 16, 61616, false⟩ ⟨0, Block.zero 8, []⟩
      earlierWrite ≠ .reply .crcFailed := by decide +kernel
  exact haccepted (hsame.trans hrejected)

end Hexabus.Firmware
