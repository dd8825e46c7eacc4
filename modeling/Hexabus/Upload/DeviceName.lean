import Hexabus.Firmware.ChunkConfinement
import Hexabus.Wire.FirmwareToHost

/-!
# The name of a device

`hexaupload --rename` sends a name as chunk 0, the device stores it with `sm_write_chunk`, and
`endpoint_get_name` puts it into the reply to an endpoint query for EID 0.
-/

namespace Hexabus.Upload

open Lib.Bytes Lib.Store Firmware Wire

/-! ## The uploader -/

/-- `DEVICE_NAME_MAX_LENGTH`. -/
def deviceNameMaxLength : Nat := 30

/-- An argument of the command line. -/
structure Argument where
  bytes : List UInt8
  noNul : ∀ b ∈ bytes, b ≠ 0

/-- The text, and zeros to the end of the chunk. -/
def padName (newName : List UInt8) : List UInt8 :=
  newName ++ List.replicate (chunkSize - newName.length) 0

theorem length_padName {newName : List UInt8} (h : ¬ newName.length > deviceNameMaxLength) :
    (padName newName).length = 64 := by
  unfold padName
  rw [List.length_append, List.length_replicate]
  unfold chunkSize
  unfold deviceNameMaxLength at h
  omega

/-- The chunk of `--rename`; a name that is too long is refused. -/
def renameChunk (newName : Argument) : Option (Block 64) :=
  if h : newName.bytes.length > deviceNameMaxLength then none
  else some ⟨padName newName.bytes, length_padName h⟩

theorem renameChunk_eq {newName : Argument} {chunk : Block 64}
    (h : renameChunk newName = some chunk) :
    newName.bytes.length ≤ deviceNameMaxLength ∧ chunk.val = padName newName.bytes := by
  unfold renameChunk at h
  split at h
  · cases h
  · rename_i hle
    cases Option.some.inj h
    exact ⟨Nat.le_of_not_gt hle, rfl⟩

/-! ## The reply -/

variable {σ : Type} (chain : EndpointChain σ)

/-- The reply to an endpoint query for EID 0 has the name as a string that ends with a NUL. -/
def Replies (eeprom buffer : Mem) (name : List UInt8) : Prop :=
  (generateEpqueryResponse chain eeprom buffer 0).1 = .success ∧
    0 ∈ packetString (generateEpqueryResponse chain eeprom buffer 0).2 ∧
    cString (packetString (generateEpqueryResponse chain eeprom buffer 0).2) = name

/-- The packet that is built: one terminator is behind the longest name, and another one at the end
of the buffer. -/
def replyPacket (eeprom buffer : Mem) : Mem :=
  let packet := setU8 buffer HxbPacket.type PacketType.epinfo.code
  let packet := setU32 packet HxbPacket.eid 0
  let packet := setU8 packet HxbPacket.datatype DataType.uint32.code
  let packet := writeBlock packet HxbPacket.value
    (readBlock eeprom EE.domainName (EE.domainNameSize - 1))
  let packet := setU8 packet (HxbPacket.value + EE.domainNameSize) 0
  setU8 packet (HxbPacket.value + stringPacketBufferLength) 0

/-- The value of the reply: 29 bytes of the name, one that the buffer has had before, and a NUL. -/
theorem packetString_reply (eeprom buffer : Mem) : ∃ rest,
    (generateEpqueryResponse chain eeprom buffer 0).1 = .success ∧
      packetString (generateEpqueryResponse chain eeprom buffer 0).2 =
        readBlock eeprom EE.domainName (EE.domainNameSize - 1) ++
          buffer (HxbPacket.value + (EE.domainNameSize - 1)) :: 0 :: rest := by
  have hreply : generateEpqueryResponse chain eeprom buffer 0 =
      (.success, replyPacket eeprom buffer) := rfl
  refine ⟨readBlock (replyPacket eeprom buffer) (HxbPacket.value + 31) 97, ?_⟩
  rw [hreply]
  refine ⟨rfl, ?_⟩
  -- the terminators lie behind the part of the name that is read
  have hname : readBlock (replyPacket eeprom buffer) HxbPacket.value 29 =
      readBlock eeprom EE.domainName 29 := by
    unfold replyPacket setU8
    rw [read_write_disjoint _ _ _ _ _ (.inl (by decide)),
      read_write_disjoint _ _ _ _ _ (.inl (by decide))]
    exact (holds_write _ _ _).read (length_readBlock _ _ _)
  have hgap : replyPacket eeprom buffer (HxbPacket.value + 29) = buffer (HxbPacket.value + 29) := by
    unfold replyPacket setU8 setU32
    rw [writeBlock_apply_out _ _ _ _ (.inl (by decide)),
      writeBlock_apply_out _ _ _ _ (.inl (by decide)),
      writeBlock_apply_out _ _ _ _ (.inr (by rw [length_readBlock]; decide)),
      writeBlock_apply_out _ _ _ _ (.inr (by decide)),
      writeBlock_apply_out _ _ _ _ (.inr (by rw [length_leBytes]; decide)),
      writeBlock_apply_out _ _ _ _ (.inr (by decide))]
  have hnul : replyPacket eeprom buffer (HxbPacket.value + 30) = 0 := by
    unfold replyPacket setU8
    rw [writeBlock_apply_out _ _ _ _ (.inl (by decide))]
    exact writeBlock_apply_in _ _ _ 0 (by decide)
  have htail : readBlock (replyPacket eeprom buffer) (HxbPacket.value + 29) 99 =
      buffer (HxbPacket.value + 29) :: 0 ::
        readBlock (replyPacket eeprom buffer) (HxbPacket.value + 31) 97 := by
    rw [readBlock_succ, readBlock_succ, hgap, hnul]
  show readBlock (replyPacket eeprom buffer) HxbPacket.value (29 + 99) = _
  rw [readBlock_add, hname, htail]
  rfl

/-- The reply, when the device has a name and the buffer its byte. -/
theorem replies_iff (eeprom buffer : Mem) (name : List UInt8) : Replies chain eeprom buffer name ↔
    cString (readBlock eeprom EE.domainName (EE.domainNameSize - 1) ++
      [buffer (HxbPacket.value + (EE.domainNameSize - 1))]) = name := by
  obtain ⟨rest, hok, hstring⟩ := packetString_reply chain eeprom buffer
  unfold Replies
  rw [hstring, ← List.singleton_append, ← List.append_assoc, cString_append]
  constructor
  · exact fun h => h.2.2
  · intro h
    exact ⟨hok, List.mem_append_right _ List.mem_cons_self, h⟩

/-! ## The name in the EEPROM -/

/-- A name that is not empty is stored, -/
theorem stored_name {newName : Argument} {chunk : Block 64} (h : renameChunk newName = some chunk)
    (hne : newName.bytes ≠ []) (eeprom : Mem) :
    readBlock (smWriteChunk eeprom 0 chunk).2 EE.domainName (EE.domainNameSize - 1) =
      (padName newName.bytes).take (EE.domainNameSize - 1) := by
  obtain ⟨-, hchunk⟩ := renameChunk_eq h
  obtain ⟨b, bs, hbytes⟩ := List.exists_cons_of_ne_nil hne
  have hfirst : chunk.val.getD 0 0 ≠ 0 := by
    rw [hchunk, hbytes]
    exact newName.noNul b (hbytes ▸ List.mem_cons_self)
  have hlen : (chunk.val.take EE.domainNameSize).length = EE.domainNameSize := by
    rw [List.length_take, chunk.property]
    rfl
  have hread : readBlock (smWriteChunk eeprom 0 chunk).2 EE.domainName EE.domainNameSize =
      chunk.val.take EE.domainNameSize := by
    rw [smWriteChunk, if_pos rfl, if_neg hfirst]
    exact (holds_write _ _ _).read hlen
  rw [← take_readBlock _ _ _ _ (Nat.sub_le EE.domainNameSize 1), hread, List.take_take, ← hchunk]
  rfl

/-- and an empty one leaves the old name. -/
theorem stored_empty {newName : Argument} {chunk : Block 64} (h : renameChunk newName = some chunk)
    (hempty : newName.bytes = []) (eeprom : Mem) : (smWriteChunk eeprom 0 chunk).2 = eeprom := by
  obtain ⟨-, hchunk⟩ := renameChunk_eq h
  have hfirst : chunk.val.getD 0 0 = 0 := by
    rw [hchunk, hempty]
    rfl
  rw [smWriteChunk, if_pos rfl, if_pos hfirst]

/-- What is read of a name. -/
theorem take_padName {newName : List UInt8} {n : Nat} (hn : n ≤ chunkSize) :
    (padName newName).take n = newName.take n ++ List.replicate (n - newName.length) 0 := by
  unfold padName
  rw [List.take_append, List.take_replicate]
  congr 2
  unfold chunkSize at hn ⊢
  omega

/-- A name whose bytes and terminator are read. -/
theorem cString_short {newName : List UInt8} (hnul : ∀ b ∈ newName, b ≠ 0) {n : Nat}
    (hn : n ≤ chunkSize) (hlt : newName.length < n) (rest : List UInt8) :
    cString ((padName newName).take n ++ rest) = newName := by
  rw [take_padName hn, List.take_of_length_le (Nat.le_of_lt hlt), List.append_assoc]
  obtain ⟨k, hk⟩ := Nat.exists_eq_add_of_lt hlt
  rw [show n - newName.length = k + 1 by omega, List.replicate_succ, List.cons_append,
    cString_append]
  exact cString_eq_self.mpr hnul

/-- A name that fills what is read is followed by what the buffer has had. -/
theorem cString_long {newName : List UInt8} (hnul : ∀ b ∈ newName, b ≠ 0) {n : Nat}
    (hn : n ≤ chunkSize) (hle : n ≤ newName.length) (b : UInt8) :
    cString ((padName newName).take n ++ [b]) = newName.take n ++ cString [b] := by
  rw [take_padName hn, Nat.sub_eq_zero_of_le hle, List.replicate_zero, List.append_nil]
  unfold cString
  rw [List.takeWhile_append_of_pos]
  intro c hc
  exact decide_eq_true (hnul c (List.mem_of_mem_take hc))

/-! ## Renaming -/

/-- **The names that are returned**: whatever the EEPROM and the buffer of the reply have held
before, a name that is stored comes back as it is exactly if it has 1 to 28 characters. -/
theorem rename_returned_iff {newName : Argument} {chunk : Block 64}
    (h : renameChunk newName = some chunk) :
    (∀ eeprom buffer : Mem,
        Replies chain (smWriteChunk eeprom 0 chunk).2 buffer newName.bytes) ↔
      1 ≤ newName.bytes.length ∧ newName.bytes.length ≤ 28 := by
  obtain ⟨hmax, -⟩ := renameChunk_eq h
  have h29 : EE.domainNameSize - 1 ≤ chunkSize := by decide
  constructor
  · intro hreplies
    have hne : newName.bytes ≠ [] := by
      intro hempty
      -- the old name stays
      have hold := hreplies (fun _ => 1) (fun _ => 0)
      rw [stored_empty h hempty, replies_iff, hempty] at hold
      cases hold
    refine ⟨List.length_pos_of_ne_nil hne, ?_⟩
    by_contra hlong
    have hle : EE.domainNameSize - 1 ≤ newName.bytes.length := by
      show 29 ≤ _
      omega
    -- with both a NUL and another byte in the buffer
    have hnul := hreplies (fun _ => 0) (fun _ => 0)
    have hone := hreplies (fun _ => 0) (fun _ => 1)
    rw [replies_iff, stored_name h hne, cString_long newName.noNul h29 hle] at hnul hone
    have hboth := congrArg List.length (hnul.trans hone.symm)
    rw [List.length_append, List.length_append] at hboth
    exact absurd (Nat.add_left_cancel hboth) (by decide)
  · rintro ⟨hpos, hle⟩ eeprom buffer
    rw [replies_iff, stored_name h (List.ne_nil_of_length_pos hpos)]
    refine cString_short newName.noNul h29 ?_ _
    show newName.bytes.length < 29
    omega

theorem noNul_lamp : ∀ b ∈ ([0x4c, 0x61, 0x6d, 0x70] : List UInt8), b ≠ 0 := by
  simp

/-- The name `Lamp`. -/
def lamp : Argument := ⟨[0x4c, 0x61, 0x6d, 0x70], noNul_lamp⟩

/-- It comes back, with `0xff` everywhere else in the EEPROM and `!` in the buffer. -/
theorem lamp_returned : Replies ([] : EndpointChain Unit)
    (smWriteChunk (fun _ => 0xff) 0 ⟨padName lamp.bytes, length_padName (by decide)⟩).2
    (fun _ => 0x21) lamp.bytes :=
  (@rename_returned_iff Unit [] lamp _ rfl).mpr (by decide) (fun _ => 0xff) fun _ => 0x21

theorem noNul_longName : ∀ b ∈ List.replicate 30 (0x61 : UInt8), b ≠ 0 := by
  intro b hb
  rw [List.eq_of_mem_replicate hb]
  decide

/-- A name of 30 characters. -/
def longName : Argument := ⟨List.replicate 30 0x61, noNul_longName⟩

/-- Its last character is what the buffer has had there. -/
theorem longName_cut : ∃ chunk, renameChunk longName = some chunk ∧
    ¬ Replies ([] : EndpointChain Unit) (smWriteChunk (fun _ => 0) 0 chunk).2 (fun _ => 0x21)
      longName.bytes := by
  have hchunk : renameChunk longName = some ⟨padName longName.bytes, length_padName (by decide)⟩ :=
    rfl
  refine ⟨_, hchunk, fun h => ?_⟩
  rw [replies_iff, stored_name hchunk (by decide)] at h
  revert h
  decide

end Hexabus.Upload
