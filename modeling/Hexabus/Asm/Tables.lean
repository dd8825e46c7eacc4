import Hexabus.Asm.Generator

/-!
# What the tables of an image hold

A table of the image is a count, that many records, and zeros. How many records
there are room for follows from the guard in front of every copy; the records that
find no room are the last ones.
-/

namespace Hexabus.Asm

open Lib.Bytes Lib.Store

/-- A table of `size` bytes takes `capacity` records of `n` bytes: the guard in front
of the copy of record `j` lets the first `capacity` ones pass. -/
structure TableSize (size n capacity : Nat) : Prop where
  guard : ∀ j, 1 + j * n < size - n ↔ j < capacity
  room : 1 + capacity * n ≤ size
  counts : capacity < 256

theorem conditions_tableSize : TableSize conditionsBufferSize Condition.size 17 := by
  unfold conditionsBufferSize Condition.size
  exact ⟨fun j => by omega, by decide, by decide⟩

theorem transDt_tableSize : TableSize transDtBufferSize Transition.size 30 := by
  unfold transDtBufferSize Transition.size
  exact ⟨fun j => by omega, by decide, by decide⟩

theorem transitions_tableSize : TableSize transitionsBufferSize Transition.size 29 := by
  unfold transitionsBufferSize Transition.size
  exact ⟨fun j => by omega, by decide, by decide⟩

/-! ## Filling a table -/

/-- The buffer holds the records `done`, counted, and goes on behind them. -/
structure TableBuffer.Contains (buffer : TableBuffer) (n : Nat) (done : List (List UInt8)) :
    Prop where
  lengths : ∀ r ∈ done, r.length = n
  pos_eq : buffer.pos = 1 + done.length * n
  bytes : Holds buffer.bytes 0 (UInt8.ofNat done.length :: done.flatten)

theorem length_flatten_of_lengths {n : Nat} {records : List (List UInt8)}
    (h : ∀ r ∈ records, r.length = n) : records.flatten.length = records.length * n := by
  induction records with
  | nil => simp
  | cons r records ih =>
    rw [List.flatten_cons, List.length_append, h r List.mem_cons_self,
      ih fun x hx => h x (List.mem_cons_of_mem _ hx), List.length_cons, Nat.succ_mul, Nat.add_comm]

/-- A record that finds room is counted and stored behind the others. -/
theorem TableBuffer.Contains.insert {size n capacity : Nat} (hsize : TableSize size n capacity)
    {buffer : TableBuffer} {done : List (List UInt8)} (h : buffer.Contains n done)
    {record : List UInt8} (hrecord : record.length = n) (hroom : done.length < capacity) :
    (TableBuffer.insert size buffer record).Contains n (done ++ [record]) := by
  have hguard : buffer.pos < size - record.length := by
    rw [h.pos_eq, hrecord]
    exact (hsize.guard _).mpr hroom
  have hinsert : TableBuffer.insert size buffer record =
      { bytes := writeBlock (writeBlock buffer.bytes 0 [buffer.bytes 0 + 1]) buffer.pos record
        pos := buffer.pos + record.length } := if_pos hguard
  obtain ⟨hcount, hdone⟩ := holds_cons.mp h.bytes
  have hflatten := length_flatten_of_lengths h.lengths
  rw [hinsert]
  refine ⟨?_, ?_, ?_⟩
  · intro r hr
    rcases List.mem_append.mp hr with hr | hr
    · exact h.lengths r hr
    · exact (List.mem_singleton.mp hr) ▸ hrecord
  · show buffer.pos + record.length = _
    rw [h.pos_eq, hrecord, List.length_append, List.length_singleton, Nat.add_mul]
    omega
  · rw [List.flatten_append, List.flatten_singleton, holds_cons, holds_append]
    refine ⟨?_, ?_, ?_⟩
    · show writeBlock _ buffer.pos record 0 = _
      rw [writeBlock_apply_out _ _ _ _ (by rw [h.pos_eq]; omega)]
      have hcell : writeBlock buffer.bytes 0 [buffer.bytes 0 + 1] 0 = buffer.bytes 0 + 1 := rfl
      rw [hcell, hcount, List.length_append, List.length_singleton, UInt8.ofNat_add]
      rfl
    · have hstay : Holds (writeBlock buffer.bytes 0 [buffer.bytes 0 + 1]) 1 done.flatten :=
        hdone.write (.inr (Nat.le_refl 1))
      refine hstay.write (.inl ?_)
      rw [h.pos_eq, hflatten]
    · have hpos : 1 + done.flatten.length = buffer.pos := by rw [h.pos_eq, hflatten]
      show Holds _ (1 + done.flatten.length) record
      rw [hpos]
      exact holds_write _ _ _

/-- A record that finds no room is passed over. -/
theorem TableBuffer.insert_full {size n capacity : Nat} (hsize : TableSize size n capacity)
    {buffer : TableBuffer} {done : List (List UInt8)} (h : buffer.Contains n done)
    {record : List UInt8} (hrecord : record.length = n) (hfull : capacity ≤ done.length) :
    TableBuffer.insert size buffer record = buffer := by
  apply if_neg
  rw [h.pos_eq, hrecord, hsize.guard]
  omega

/-- The records of a fold are stored as long as there is room. -/
theorem foldl_insert_contains {size n capacity : Nat} (hsize : TableSize size n capacity)
    {records done : List (List UInt8)} {buffer : TableBuffer} (h : buffer.Contains n done)
    (hrecords : ∀ r ∈ records, r.length = n) (hdone : done.length ≤ capacity) :
    (records.foldl (TableBuffer.insert size) buffer).Contains n
      ((done ++ records).take capacity) := by
  induction records generalizing done buffer with
  | nil =>
    rw [List.append_nil, List.take_of_length_le hdone]
    exact h
  | cons record records ih =>
    have hrecord : record.length = n := hrecords record List.mem_cons_self
    have hrest : ∀ r ∈ records, r.length = n := fun r hr =>
      hrecords r (List.mem_cons_of_mem _ hr)
    rw [List.foldl_cons]
    by_cases hroom : done.length < capacity
    · have hnext := ih (h.insert hsize hrecord hroom) hrest (by simp; omega)
      rw [List.append_assoc] at hnext
      exact hnext
    · have hfull : capacity = done.length := by omega
      rw [TableBuffer.insert_full hsize h hrecord (by omega)]
      have hnext := ih h hrest hdone
      rw [List.take_append_of_le_length (by omega)] at hnext ⊢
      exact hnext

/-- **The bytes of a table**: the count of the records that found room, these records,
and the rest of the buffer. -/
theorem tableBytes_eq {size n capacity : Nat} (hsize : TableSize size n capacity)
    {records : List (List UInt8)} (hrecords : ∀ r ∈ records, r.length = n) :
    ∃ rest, tableBytes size records =
      (UInt8.ofNat (records.take capacity).length :: (records.take capacity).flatten) ++ rest := by
  have hempty : TableBuffer.empty.Contains n [] :=
    ⟨fun r hr => absurd hr List.not_mem_nil, by simp [TableBuffer.empty], rfl⟩
  have hfull := foldl_insert_contains hsize hempty hrecords (Nat.zero_le capacity)
  rw [List.nil_append] at hfull
  refine ⟨_, hfull.bytes.readBlock_eq ?_⟩
  have hle : (records.take capacity).length ≤ capacity := List.length_take_le _ _
  have hmul := Nat.mul_le_mul_right n hle
  have hroom := hsize.room
  rw [List.length_cons, length_flatten_of_lengths hfull.lengths]
  omega

@[simp] theorem length_tableBytes (size : Nat) (records : List (List UInt8)) :
    (tableBytes size records).length = size := by
  simp [tableBytes]

/-! ## Reading a table back -/

/-- The records of the table at `base`. -/
def recordsAt {α : Type} (n : Nat) (ofBytes : Block n → α) (m : Nat → UInt8) (base : Nat) :
    List α :=
  (List.range (m base).toNat).map fun i =>
    ofBytes ⟨readBlock m (base + 1 + n * i) n, length_readBlock _ _ _⟩

/-- A table that has been stored whole is read back, up to the records that found no
room. -/
theorem holds_table {α : Type} {size n capacity base : Nat} (hsize : TableSize size n capacity)
    {toBytes : α → List UInt8} {ofBytes : Block n → α} (hlen : ∀ a, (toBytes a).length = n)
    (hround : ∀ a (h : (toBytes a).length = n), ofBytes ⟨toBytes a, h⟩ = a)
    {m : Nat → UInt8} {entries : List α} (h : Holds m base (tableBytes size (entries.map toBytes))) :
    (m base).toNat = (entries.take capacity).length ∧
      ∀ i (hi : i < (entries.take capacity).length),
        ofBytes ⟨readBlock m (base + 1 + n * i) n, length_readBlock _ _ _⟩
          = (entries.take capacity)[i] := by
  have hall : ∀ r ∈ entries.map toBytes, r.length = n := by
    intro r hr
    obtain ⟨a, -, rfl⟩ := List.mem_map.mp hr
    exact hlen a
  obtain ⟨rest, hbytes⟩ := tableBytes_eq hsize hall
  rw [hbytes] at h
  obtain ⟨hcount, hrecords⟩ := holds_cons.mp h.left
  have hle : (entries.take capacity).length ≤ capacity := List.length_take_le _ _
  have hcounts := hsize.counts
  rw [← List.map_take] at hcount hrecords
  refine ⟨?_, ?_⟩
  · rw [hcount, List.length_map, UInt8.toNat_ofNat_of_lt' (by show _ < 256; omega)]
  · intro i hi
    have hi' : i < ((entries.take capacity).map toBytes).length := by
      rw [List.length_map]
      exact hi
    have hrecord : Holds m (base + 1 + n * i) ((entries.take capacity).map toBytes)[i] :=
      hrecords.record (fun r hr => hall r (List.mem_of_mem_take (by rwa [List.map_take] at hr))) hi'
    rw [List.getElem_map] at hrecord
    have hread := hrecord.read (hlen _)
    have hblock : (⟨readBlock m (base + 1 + n * i) n, length_readBlock _ _ _⟩ : Block n)
        = ⟨toBytes (entries.take capacity)[i], hlen _⟩ := Subtype.ext hread
    rw [hblock, hround]

theorem recordsAt_eq {α : Type} {size n capacity base : Nat} (hsize : TableSize size n capacity)
    {toBytes : α → List UInt8} {ofBytes : Block n → α} (hlen : ∀ a, (toBytes a).length = n)
    (hround : ∀ a (h : (toBytes a).length = n), ofBytes ⟨toBytes a, h⟩ = a)
    {m : Nat → UInt8} {entries : List α} (h : Holds m base (tableBytes size (entries.map toBytes))) :
    recordsAt n ofBytes m base = entries.take capacity := by
  obtain ⟨hcount, hrecords⟩ := holds_table hsize hlen hround h
  apply List.ext_getElem
  · rw [recordsAt, List.length_map, List.length_range, hcount]
  · intro i h1 h2
    simp only [recordsAt, List.getElem_map, List.getElem_range]
    exact hrecords i h2

end Hexabus.Asm
