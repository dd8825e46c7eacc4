import Hexabus.Host.Dispatch

/-!
# The name in an uploaded chunk

`_handle_smupload` takes the name of a device out of chunk 0 with a loop that reads a byte
before it looks at the bound.
-/

namespace Hexabus.Host

open Lib.Bytes

/-- The names given to the handlers of the device name. -/
def Turn.named {σ : Type} (t : Turn σ) : List (List UInt8) :=
  t.log.filterMap fun
    | .named name => some name
    | _ => none

namespace Device

/-! ## The loop -/

/-- `data[i]`; behind the array lies what lies there. -/
def byteAt (data : Block 65) (behind : Nat → UInt8) (i : Nat) : UInt8 :=
  (data.val[i]?).getD (behind i)

/-- `while ( data[++i] != '\0' && i < 65 )`: the indices read and the characters pushed. -/
def scanName (byte : Nat → UInt8) (i : Nat) : List Nat × List UInt8 :=
  if byte (i + 1) ≠ 0 ∧ i + 1 < 65 then
    ((i + 1) :: (scanName byte (i + 1)).1, byte (i + 1) :: (scanName byte (i + 1)).2)
  else ([i + 1], [])
termination_by 65 - i

/-- The indices at which `_handle_smupload` reads the array. -/
def uploadReads (data : Block 65) (behind : Nat → UInt8) : List Nat :=
  0 :: if byteAt data behind 0 = 0 then (scanName (byteAt data behind) 0).1 else []

/-! ## What is expected -/

/-- The longest prefix of a field without a zero. -/
structure LongestNulFree (name field : List UInt8) : Prop where
  isPrefix : name <+: field
  nulFree : 0 ∉ name
  longest : ∀ other, other <+: field → 0 ∉ other → other.length ≤ name.length

variable {α : Type} (dev : Device α)

/-- The device parses an uploaded chunk: it reads nothing but the chunk, stores the name of
chunk 0, if there is one, and acknowledges once. -/
structure ParsesUpload (data : Block 65) (behind : Nat → UInt8) (flags : UInt8)
    (s : DeviceState α) : Prop where
  inBounds : ∀ i ∈ uploadReads data behind, i < 65
  name : ∀ name, LongestNulFree name (data.val.drop 1) →
    (dev.receive (.write epSmUpReceiver (.bytes65 data) flags) s).named =
      if data.val.head? = some 0 ∧ name ≠ [] then [name] else []
  acknowledged : ∃ value,
    (dev.receive (.write epSmUpReceiver (.bytes65 data) flags) s).sent.filter Packet.isAcknak =
      [.info epSmUpAcknak (.bool value) 0]

/-! ## The loop and the model of the device -/

theorem byteAt_lt {data : Block 65} {behind : Nat → UInt8} {i : Nat}
    (h : i < data.val.length) : byteAt data behind i = data.val[i] := by
  unfold byteAt
  rw [List.getElem?_eq_getElem h]
  rfl

/-- With a zero ahead the loop stops at the first one, in the array. -/
theorem scanName_of_mem (data : Block 65) (behind : Nat → UInt8) (i : Nat)
    (h : 0 ∈ data.val.drop (i + 1)) :
    (∀ j ∈ (scanName (byteAt data behind) i).1, j < 65) ∧
      (scanName (byteAt data behind) i).2 = (data.val.drop (i + 1)).takeWhile (· ≠ 0) := by
  have hlt : i + 1 < data.val.length := by
    by_contra hge
    rw [List.drop_eq_nil_of_le (Nat.le_of_not_lt hge)] at h
    exact List.not_mem_nil h
  have hbyte := @byteAt_lt data behind _ hlt
  have hlt65 : i + 1 < 65 := data.property ▸ hlt
  rw [List.drop_eq_getElem_cons hlt, ← hbyte] at h ⊢
  induction i using scanName.induct (byteAt data behind) with
  | case1 i hgo ih =>
    have hrest : 0 ∈ data.val.drop (i + 1 + 1) := by
      rcases List.mem_cons.mp h with hzero | hrest
      · exact absurd hzero.symm hgo.1
      · exact hrest
    have hnext : i + 1 + 1 < data.val.length := by
      by_contra hge
      rw [List.drop_eq_nil_of_le (Nat.le_of_not_lt hge)] at hrest
      exact List.not_mem_nil hrest
    rw [List.drop_eq_getElem_cons hnext, ← @byteAt_lt data behind _ hnext] at hrest
    obtain ⟨hread, hname⟩ := ih hnext hrest (byteAt_lt hnext) (data.property ▸ hnext)
    have hscan : scanName (byteAt data behind) i = ((i + 1) :: (scanName (byteAt data behind)
        (i + 1)).1, byteAt data behind (i + 1) :: (scanName (byteAt data behind) (i + 1)).2) := by
      rw [scanName, if_pos hgo]
    rw [hscan, List.takeWhile_cons_of_pos (by simpa using hgo.1), hname,
      List.drop_eq_getElem_cons hnext, ← @byteAt_lt data behind _ hnext]
    refine ⟨?_, rfl⟩
    intro j hj
    rcases List.mem_cons.mp hj with rfl | hj
    · exact hlt65
    · exact hread j hj
  | case2 i hstop =>
    have hzero : byteAt data behind (i + 1) = 0 := by
      by_contra hne
      exact hstop ⟨hne, hlt65⟩
    have hscan : scanName (byteAt data behind) i = ([i + 1], []) := by
      rw [scanName, if_neg hstop]
    rw [hscan, List.takeWhile_cons_of_neg (by simp [hzero])]
    refine ⟨?_, rfl⟩
    intro j hj
    rw [List.mem_singleton.mp hj]
    exact hlt65

/-- Without one it reads behind the array. -/
theorem scanName_of_not_mem (data : Block 65) (behind : Nat → UInt8) (i : Nat) (hi : i < 65)
    (h : 0 ∉ data.val.drop (i + 1)) : 65 ∈ (scanName (byteAt data behind) i).1 := by
  induction i using scanName.induct (byteAt data behind) with
  | case1 i hgo ih =>
    have hlt : i + 1 < data.val.length := by
      rw [data.property]
      exact hgo.2
    rw [List.drop_eq_getElem_cons hlt] at h
    rw [scanName, if_pos hgo]
    exact List.mem_cons_of_mem _ (ih hgo.2 fun hmem => h (List.mem_cons_of_mem _ hmem))
  | case2 i hstop =>
    have hlast : i + 1 = 65 := by
      by_contra hne
      have hlt : i + 1 < data.val.length := by
        rw [data.property]
        omega
      refine hstop ⟨fun hzero => h ?_, by omega⟩
      rw [List.drop_eq_getElem_cons hlt, ← @byteAt_lt data behind _ hlt, hzero]
      exact List.mem_cons_self
    rw [scanName, if_neg hstop, hlast]
    exact List.mem_singleton_self _

/-- The bytes pushed are what the model of the device takes for the name. -/
theorem scanName_uploadedName (data : Block 65) (behind : Nat → UInt8) :
    uploadedName data =
      if ∀ i ∈ (scanName (byteAt data behind) 0).1, i < 65 then
        .ok (scanName (byteAt data behind) 0).2
      else .error .undefinedRead := by
  rw [uploadedName_eq]
  by_cases hzero : 0 ∈ data.val.drop 1
  · obtain ⟨hread, hname⟩ := scanName_of_mem data behind 0 hzero
    rw [if_pos hzero, if_pos hread, hname]
  · have hread := scanName_of_not_mem data behind 0 (by decide) hzero
    rw [if_neg hzero, if_neg fun h => absurd (h 65 hread) (by decide)]

/-! ## When a chunk is parsed -/

/-- The longest prefix without a zero ends in front of the first zero. -/
theorem LongestNulFree.eq {name field : List UInt8} (h : LongestNulFree name field) :
    name = field.takeWhile (· ≠ 0) := by
  have hfree : 0 ∉ field.takeWhile (· ≠ 0) := fun hmem => by
    simpa using List.mem_takeWhile_imp hmem
  have hle := h.longest _ (List.takeWhile_prefix _) hfree
  have hname : name <+: field.takeWhile (· ≠ 0) := by
    obtain ⟨rest, hrest⟩ := h.isPrefix
    rw [← hrest, List.takeWhile_append_of_pos]
    · exact List.prefix_append _ _
    · intro byte hbyte
      exact decide_eq_true fun hzero => h.nulFree (hzero ▸ hbyte)
  exact hname.eq_of_length (Nat.le_antisymm hname.length_le hle)

/-- The device calls the upload handler behind the endpoint's own one, which does nothing. -/
theorem receive_upload (data : Block 65) (flags : UInt8) (s : DeviceState α) :
    dev.receive (.write epSmUpReceiver (.bytes65 data) flags) s =
      Turn.next ⟨s, [.wrote epSmUpReceiver 0 (.bytes65 data)], none⟩
        (dev.handleSmupload (.write epSmUpReceiver (.bytes65 data) flags)) := by
  have hwrite : dev.handleWrite (.write epSmUpReceiver (.bytes65 data) flags) s =
      ⟨s, [.wrote epSmUpReceiver 0 (.bytes65 data)], none⟩ := rfl
  rw [receive_eq]
  simp only [upload_inGroup, if_false, if_true, hwrite]

theorem receive_upload_sent (data : Block 65) (flags : UInt8) (s : DeviceState α) :
    (dev.receive (.write epSmUpReceiver (.bytes65 data) flags) s).sent =
      if data.val.head? = some 0 ∧ 0 ∉ data.val.drop 1 then []
      else [.info epSmUpAcknak (.bool true) 0] := by
  rw [receive_upload, Turn.sent_next rfl, (dev.handleSmupload_chunk _ data flags _).2.1]
  rfl

theorem receive_upload_named {data : Block 65} (h : data.val.head? = some 0 → 0 ∈ data.val.drop 1)
    (flags : UInt8) (s : DeviceState α) :
    (dev.receive (.write epSmUpReceiver (.bytes65 data) flags) s).named =
      if data.val.head? = some 0 ∧ (data.val.drop 1).takeWhile (· ≠ 0) ≠ [] then
        [(data.val.drop 1).takeWhile (· ≠ 0)]
      else [] := by
  rw [receive_upload]
  unfold handleSmupload
  by_cases hhead : data.val.head? = some 0
  · simp only [if_pos hhead, uploadedName_eq, if_pos (h hhead)]
    unfold nameWritten
    by_cases hname : (data.val.drop 1).takeWhile (· ≠ 0) = []
    · simp only [hname, if_true, ne_eq, not_true_eq_false, and_false, if_false]
      rfl
    · simp only [hhead, ne_eq, hname, not_false_eq_true, and_self, if_true]
      rfl
  · simp only [if_neg hhead]
    rw [if_neg fun h => hhead h.1]
    rfl

theorem byteAt_zero (data : Block 65) (behind : Nat → UInt8) :
    byteAt data behind 0 = 0 ↔ data.val.head? = some 0 := by
  have hlt : 0 < data.val.length := by
    rw [data.property]
    decide
  rw [byteAt_lt hlt, List.head?_eq_getElem?, List.getElem?_eq_getElem hlt, Option.some.injEq]

/-- **A chunk is parsed exactly when it is not chunk 0, or has a zero behind its first byte**,
for every device, whatever lies behind the array. -/
theorem parsesUpload_iff (data : Block 65) (behind : Nat → UInt8) (flags : UInt8)
    (s : DeviceState α) : dev.ParsesUpload data behind flags s ↔
      (data.val.head? = some 0 → 0 ∈ data.val.drop 1) := by
  constructor
  · intro h hhead
    by_contra hzero
    have hread : 65 ∈ uploadReads data behind := by
      unfold uploadReads
      rw [if_pos ((byteAt_zero data behind).mpr hhead)]
      exact List.mem_cons_of_mem _ (scanName_of_not_mem data behind 0 (by decide) hzero)
    exact absurd (h.inBounds 65 hread) (by decide)
  · intro hzero
    refine ⟨?_, ?_, true, ?_⟩
    · intro i hi
      unfold uploadReads at hi
      rcases List.mem_cons.mp hi with rfl | hi
      · decide
      · by_cases hfirst : byteAt data behind 0 = 0
        · rw [if_pos hfirst] at hi
          exact (scanName_of_mem data behind 0
            (hzero ((byteAt_zero data behind).mp hfirst))).1 i hi
        · rw [if_neg hfirst] at hi
          cases hi
    · intro name hname
      rw [hname.eq]
      exact dev.receive_upload_named hzero flags s
    · rw [receive_upload_sent, if_neg fun h => h.2 (hzero h.1)]
      rfl

theorem length_fullName : ((0 : UInt8) :: List.replicate 64 0x61).length = 65 := by
  rw [List.length_cons, List.length_replicate]

/-- Chunk 0 with a name that fills the field. -/
def fullName : Block 65 := ⟨0 :: List.replicate 64 0x61, length_fullName⟩

/-- The loop reads byte 65. -/
theorem fullName_not_parsed : ¬ bare.ParsesUpload fullName (fun _ => 0) 0 ⟨(), 0⟩ := by
  intro h
  have hread : 65 ∈ uploadReads fullName fun _ => 0 := by
    unfold uploadReads
    rw [if_pos (by decide)]
    exact List.mem_cons_of_mem _ (scanName_of_not_mem _ _ 0 (by decide) (by decide))
  exact absurd (h.inBounds 65 hread) (by decide)

end Device

end Hexabus.Host
