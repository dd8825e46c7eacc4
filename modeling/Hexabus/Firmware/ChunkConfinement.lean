import Hexabus.Firmware.Eeprom

/-!
# What a chunk may change

Every chunk number has its own cells of the EEPROM. `sm_write_chunk` changes no others, so that
chunks can be written in any order, and together they reach the whole area that the functions of
`state_machine_eeprom.c` read.
-/

namespace Hexabus.Firmware

open Lib.Bytes Lib.Store

/-! ## Cells -/

/-- `size` cells from `start` on. -/
def region (start size : Nat) : Finset Nat := Finset.Ico start (start + size)

theorem mem_region {start size a : Nat} :
    a ∈ region start size ↔ start ≤ a ∧ a < start + size := Finset.mem_Ico

theorem card_region (start size : Nat) : (region start size).card = size := by
  unfold region
  rw [Nat.card_Ico, Nat.add_sub_cancel_left]

/-- The cells of a chunk: the name, or a slice of the state machine area. -/
def chunkRange (chunkId : UInt8) : Finset Nat :=
  if chunkId = 0 then region EE.domainName EE.domainNameSize
  else region (EE.statemachineId + (chunkId.toNat - 1) * chunkSize) chunkSize

/-- The first cell of a chunk. -/
def chunkStart (chunkId : UInt8) : Nat :=
  if chunkId = 0 then EE.domainName
  else EE.statemachineId + (chunkId.toNat - 1) * chunkSize

/-- How many bytes of its payload a chunk stores. -/
def chunkLength (chunkId : UInt8) : Nat :=
  if chunkId = 0 then EE.domainNameSize else chunkSize

theorem chunkRange_eq (chunkId : UInt8) :
    chunkRange chunkId = region (chunkStart chunkId) (chunkLength chunkId) := by
  unfold chunkRange chunkStart chunkLength
  by_cases h : chunkId = 0
  · rw [if_pos h, if_pos h, if_pos h]
  · rw [if_neg h, if_neg h, if_neg h]

/-- The regions of the state machine area, in order. -/
def EE.regions : List (Finset Nat) :=
  [region statemachineId statemachineIdSize,
   region statemachineNConditions 1,
   region statemachineConditions statemachineConditionsSize,
   region statemachineNDtTransitions 1,
   region statemachineDatetimeTransitions statemachineDatetimeTransitionsSize,
   region statemachineNTransitions 1,
   region statemachineTransitions statemachineTransitionsSize]

/-- A cell of the area is in one of them. -/
theorem EE.mem_regions (a : Nat) :
    (∃ r ∈ EE.regions, a ∈ r) ↔ a ∈ region statemachineId statemachineSize := by
  simp only [EE.regions, List.mem_cons, List.not_mem_nil, or_false, exists_eq_or_imp,
    exists_eq_left, mem_region]
  simp only [statemachineId, statemachineIdSize, statemachineNConditions, statemachineConditions,
    statemachineConditionsSize, statemachineNDtTransitions, statemachineDatetimeTransitions,
    statemachineDatetimeTransitionsSize, statemachineNTransitions, statemachineTransitions,
    statemachineTransitionsSize, statemachineSize]
  omega

/-! ## One chunk -/

/-- A chunk is stored, whatever the EEPROM and the data are. -/
def Accepted (chunkId : UInt8) : Prop :=
  ∀ (eeprom : Mem) (data : Block 64), (smWriteChunk eeprom chunkId data).1 = true

/-- The cells of a chunk hold its payload, as far as there is room for it. A name that begins
with a zero is no name, and the old one stays. -/
def HoldsChunk (chunkId : UInt8) (data : Block 64) (eeprom eeprom' : Mem) : Prop :=
  if chunkId = 0 ∧ data.val.head? = some 0 then eeprom' = eeprom
  else readBlock eeprom' (chunkStart chunkId) (chunkLength chunkId) =
    data.val.take (chunkLength chunkId)

/-- Nothing is changed, or the chunk is stored and only its own cells are changed. -/
def Confined (chunkId : UInt8) (data : Block 64) (eeprom : Mem) (result : Bool × Mem) : Prop :=
  (result.1 = false ∧ result.2 = eeprom) ∨
    (result.1 = true ∧ HoldsChunk chunkId data eeprom result.2 ∧
      ∀ a, a ∉ chunkRange chunkId → result.2 a = eeprom a)

theorem chunkRange_zero : chunkRange 0 = region EE.domainName EE.domainNameSize := rfl

theorem chunkRange_succ {chunkId : UInt8} (h : chunkId ≠ 0) : chunkRange chunkId =
    region (EE.statemachineId + (chunkId.toNat - 1) * chunkSize) chunkSize := if_neg h

theorem toNat_pos {chunkId : UInt8} (h : chunkId ≠ 0) : 0 < chunkId.toNat := by
  rw [Nat.pos_iff_ne_zero]
  intro hzero
  exact h (UInt8.toNat_inj.mp hzero)

theorem toNat_pred {chunkId : UInt8} (h : chunkId ≠ 0) :
    (chunkId - 1).toNat = chunkId.toNat - 1 := by
  have hle : (1 : UInt8) ≤ chunkId := UInt8.le_iff_toNat_le.mpr (toNat_pos h)
  exact UInt8.toNat_sub_of_le _ _ hle

/-- What a chunk of the area does. -/
theorem smWriteChunk_area {chunkId : UInt8} (h : chunkId ≠ 0) (eeprom : Mem) (data : Block 64) :
    smWriteChunk eeprom chunkId data =
      if chunkId.toNat * chunkSize > EE.statemachineSize then (false, eeprom)
      else (true, writeBlock eeprom
        (EE.statemachineId + (chunkId.toNat - 1) * chunkSize) data.val) := by
  have hpos := toNat_pos h
  rw [smWriteChunk, if_neg h]
  show (if ((chunkId - 1).toNat + 1) * chunkSize > EE.statemachineSize then _ else _) = _
  rw [toNat_pred h, Nat.sub_add_cancel hpos]

/-- What a name does. -/
theorem smWriteChunk_name (eeprom : Mem) (data : Block 64) : smWriteChunk eeprom 0 data =
    if data.val.head? = some 0 then (true, eeprom)
    else (true, writeBlock eeprom EE.domainName (data.val.take EE.domainNameSize)) := by
  have hhead : data.val.getD 0 0 = 0 ↔ data.val.head? = some 0 := by
    have hlen : 0 < data.val.length := by
      rw [data.property]
      decide
    rw [List.getD_eq_getElem?_getD, List.head?_eq_getElem?, List.getElem?_eq_getElem hlen,
      Option.getD_some, Option.some_inj]
  rw [smWriteChunk, if_pos rfl]
  by_cases h : data.val.head? = some 0
  · rw [if_pos h, if_pos (hhead.mpr h)]
  · rw [if_neg h, if_neg fun hzero => h (hhead.mp hzero)]

/-- What is written in the cells of a chunk is stored, and changes no others. -/
theorem confined_writeBlock {chunkId : UInt8} {data : Block 64}
    (hname : ¬ (chunkId = 0 ∧ data.val.head? = some 0)) (eeprom : Mem) :
    Confined chunkId data eeprom
      (true, writeBlock eeprom (chunkStart chunkId) (data.val.take (chunkLength chunkId))) := by
  have hlen : (data.val.take (chunkLength chunkId)).length = chunkLength chunkId := by
    rw [List.length_take, data.property]
    unfold chunkLength
    split <;> rfl
  refine .inr ⟨rfl, ?_, fun a ha => ?_⟩
  · unfold HoldsChunk
    rw [if_neg hname]
    have hsame := read_write_same eeprom (chunkStart chunkId)
      (data.val.take (chunkLength chunkId))
    rwa [hlen] at hsame
  · rw [chunkRange_eq, mem_region] at ha
    apply writeBlock_apply_out
    rw [hlen]
    omega

/-- **One chunk** is confined. -/
theorem smWriteChunk_confined (eeprom : Mem) (chunkId : UInt8) (data : Block 64) :
    Confined chunkId data eeprom (smWriteChunk eeprom chunkId data) := by
  by_cases h : chunkId = 0
  · subst h
    rw [smWriteChunk_name]
    by_cases hzero : data.val.head? = some 0
    · have hkept : HoldsChunk 0 data eeprom eeprom := by
        unfold HoldsChunk
        rw [if_pos ⟨rfl, hzero⟩]
      rw [if_pos hzero]
      exact .inr ⟨rfl, hkept, fun a _ => rfl⟩
    · rw [if_neg hzero]
      exact confined_writeBlock (fun hname => hzero hname.2) eeprom
  · have hstart : chunkStart chunkId = EE.statemachineId + (chunkId.toNat - 1) * chunkSize :=
      if_neg h
    have hwhole : data.val.take (chunkLength chunkId) = data.val := by
      apply List.take_of_length_le
      unfold chunkLength
      rw [if_neg h, data.property]
      exact le_rfl
    rw [smWriteChunk_area h]
    split
    · exact .inl ⟨rfl, rfl⟩
    · have hconfined := @confined_writeBlock chunkId data (fun hname => h hname.1) eeprom
      rwa [hwhole, hstart] at hconfined

/-- The chunks that are stored besides the name. -/
theorem accepted_iff {chunkId : UInt8} (h : chunkId ≠ 0) :
    Accepted chunkId ↔ chunkId.toNat ≤ 24 := by
  have hfits : chunkId.toNat * chunkSize > EE.statemachineSize ↔ ¬ chunkId.toNat ≤ 24 := by
    rw [EE.statemachineSize_eq]
    unfold chunkSize
    omega
  constructor
  · intro haccepted
    by_contra hgt
    have hresult := haccepted (fun _ => 0) ⟨List.replicate 64 0, List.length_replicate⟩
    rw [smWriteChunk_area h, if_pos (hfits.mpr hgt)] at hresult
    cases hresult
  · intro hle eeprom data
    rw [smWriteChunk_area h, if_neg (fun hgt => hfits.mp hgt hle)]

/-- A chunk that is stored lies in the area. -/
theorem chunkRange_subset {chunkId : UInt8} (h : chunkId ≠ 0) (haccepted : Accepted chunkId) :
    (chunkRange chunkId).card = chunkSize ∧
      chunkRange chunkId ⊆ region EE.statemachineId EE.statemachineSize := by
  have hle := (accepted_iff h).mp haccepted
  have hpos := toNat_pos h
  rw [chunkRange_succ h]
  refine ⟨card_region _ _, fun a ha => ?_⟩
  rw [mem_region] at ha ⊢
  rw [EE.statemachineSize_eq]
  unfold chunkSize at ha ⊢
  omega

/-- No cell belongs to two chunks. -/
theorem chunkRange_disjoint {i j : UInt8} (h : i ≠ j) : Disjoint (chunkRange i) (chunkRange j) := by
  have hname : ∀ {k : UInt8}, k ≠ 0 → Disjoint (chunkRange 0) (chunkRange k) := by
    intro k hk
    rw [Finset.disjoint_left]
    intro a hzero ha
    rw [chunkRange_zero, mem_region] at hzero
    rw [chunkRange_succ hk, mem_region] at ha
    -- the name ends before the area begins
    have hend : EE.domainName + EE.domainNameSize ≤ EE.statemachineId := by decide
    omega
  by_cases hi : i = 0
  · subst hi
    exact hname h.symm
  · by_cases hj : j = 0
    · subst hj
      exact (hname hi).symm
    · rw [Finset.disjoint_left]
      intro a ha ha'
      rw [chunkRange_succ hi, mem_region] at ha
      rw [chunkRange_succ hj, mem_region] at ha'
      have hipos := toNat_pos hi
      have hjpos := toNat_pos hj
      have hne : i.toNat ≠ j.toNat := fun heq => h (UInt8.toNat_inj.mp heq)
      unfold chunkSize at ha ha'
      omega

/-- Every cell of the area belongs to a chunk. -/
theorem exists_chunk {a : Nat} (h : a ∈ region EE.statemachineId EE.statemachineSize) :
    ∃ chunkId, chunkId ≠ 0 ∧ Accepted chunkId ∧ a ∈ chunkRange chunkId := by
  rw [mem_region, EE.statemachineSize_eq] at h
  have hk : (a - EE.statemachineId) / 64 < 24 := by
    unfold chunkSize at h
    omega
  have hnat : (UInt8.ofNat ((a - EE.statemachineId) / 64 + 1)).toNat =
      (a - EE.statemachineId) / 64 + 1 := UInt8.toNat_ofNat_of_lt' (by show _ < 256; omega)
  have hne : UInt8.ofNat ((a - EE.statemachineId) / 64 + 1) ≠ 0 := by
    intro hzero
    rw [hzero] at hnat
    exact Nat.succ_ne_zero _ hnat.symm
  refine ⟨_, hne, (accepted_iff hne).mpr (by omega), ?_⟩
  rw [chunkRange_succ hne, mem_region, hnat]
  unfold chunkSize at h ⊢
  omega

/-! ## Sequences of chunks -/

/-- Chunks that are written after each other. -/
def writeChunks (eeprom : Mem) (writes : List (UInt8 × Block 64)) : Mem :=
  writes.foldl (fun eeprom w => (smWriteChunk eeprom w.1 w.2).2) eeprom

/-- What a chunk leaves in a cell depends on nothing but this cell. -/
theorem smWriteChunk_congr {eeprom eeprom' : Mem} {a : Nat} (h : eeprom a = eeprom' a)
    (chunkId : UInt8) (data : Block 64) :
    (smWriteChunk eeprom chunkId data).2 a = (smWriteChunk eeprom' chunkId data).2 a := by
  by_cases hzero : chunkId = 0
  · subst hzero
    rw [smWriteChunk, smWriteChunk, if_pos rfl, if_pos rfl]
    split
    · exact h
    · exact writeBlock_congr h
  · rw [smWriteChunk_area hzero, smWriteChunk_area hzero]
    split
    · exact h
    · exact writeBlock_congr h

theorem writeChunks_congr {eeprom eeprom' : Mem} {a : Nat} (h : eeprom a = eeprom' a)
    (writes : List (UInt8 × Block 64)) :
    writeChunks eeprom writes a = writeChunks eeprom' writes a := by
  induction writes generalizing eeprom eeprom' with
  | nil => exact h
  | cons w writes ih => exact ih (smWriteChunk_congr h w.1 w.2)

theorem smWriteChunk_other {chunkId : UInt8} {a : Nat} (h : a ∉ chunkRange chunkId) (eeprom : Mem)
    (data : Block 64) : (smWriteChunk eeprom chunkId data).2 a = eeprom a := by
  rcases smWriteChunk_confined eeprom chunkId data with ⟨-, hsame⟩ | ⟨-, -, hframe⟩
  · rw [hsame]
  · exact hframe a h

/-- After any sequence of chunks a cell holds what those leave there to which it belongs. -/
theorem writeChunks_filter (eeprom : Mem) (writes : List (UInt8 × Block 64)) (a : Nat) :
    writeChunks eeprom writes a =
      writeChunks eeprom (writes.filter fun w => a ∈ chunkRange w.1) a := by
  induction writes generalizing eeprom with
  | nil => rfl
  | cons w writes ih =>
    rw [List.filter_cons]
    by_cases hw : a ∈ chunkRange w.1
    · rw [if_pos (decide_eq_true hw)]
      exact ih _
    · rw [if_neg (by simpa using hw), ← ih eeprom]
      exact writeChunks_congr (smWriteChunk_other hw eeprom w.2) writes

/-! ## What is read -/

/-- The functions that read the area. -/
inductive Reader
  | id
  | numberOfConditions
  | numberOfTransitions (datetime : Bool)
  | condition (index : UInt8)
  | transition (datetime : Bool) (index : UInt8)

/-- The cells a function reads. -/
def Reader.cells : Reader → Finset Nat
  | id => region EE.statemachineId EE.statemachineIdSize
  | numberOfConditions => region EE.statemachineNConditions 1
  | numberOfTransitions true => region EE.statemachineNDtTransitions 1
  | numberOfTransitions false => region EE.statemachineNTransitions 1
  | condition index =>
    region (EE.statemachineConditions + Condition.size * index.toNat) Condition.size
  | transition true index =>
    region (EE.statemachineDatetimeTransitions + Transition.size * index.toNat) Transition.size
  | transition false index =>
    region (EE.statemachineTransitions + Transition.size * index.toNat) Transition.size

/-- The function returns the same for both. -/
def Reader.Same (eeprom eeprom' : Mem) : Reader → Prop
  | id => smGetId eeprom = smGetId eeprom'
  | numberOfConditions => smGetNumberOfConditions eeprom = smGetNumberOfConditions eeprom'
  | numberOfTransitions datetime =>
    smGetNumberOfTransitions eeprom datetime = smGetNumberOfTransitions eeprom' datetime
  | condition index => smGetCondition eeprom index = smGetCondition eeprom' index
  | transition datetime index =>
    smGetTransition eeprom datetime index = smGetTransition eeprom' datetime index

/-- An entry of a table is inside its region. -/
def Reader.InTable : Reader → Prop
  | condition index => Condition.size * (index.toNat + 1) ≤ EE.statemachineConditionsSize
  | transition true index =>
    Transition.size * (index.toNat + 1) ≤ EE.statemachineDatetimeTransitionsSize
  | transition false index => Transition.size * (index.toNat + 1) ≤ EE.statemachineTransitionsSize
  | _ => True

/-- What a function returns is in the cells it reads. -/
theorem Reader.same_of_cells {eeprom eeprom' : Mem} (r : Reader)
    (h : ∀ a ∈ r.cells, eeprom a = eeprom' a) : r.Same eeprom eeprom' := by
  have hread : ∀ {start size : Nat}, r.cells = region start size →
      readBlock eeprom start size = readBlock eeprom' start size := by
    intro start size hcells
    apply readBlock_congr
    intro a hge hlt
    exact h a (hcells ▸ mem_region.mpr ⟨hge, hlt⟩)
  have hbyte : ∀ {start : Nat}, r.cells = region start 1 → eeprom start = eeprom' start := by
    intro start hcells
    exact h start (hcells ▸ mem_region.mpr ⟨le_rfl, Nat.lt_succ_self start⟩)
  cases r with
  | id => exact Subtype.ext (hread rfl)
  | numberOfConditions => exact hbyte rfl
  | numberOfTransitions datetime =>
    cases datetime with
    | true => exact hbyte rfl
    | false => exact hbyte rfl
  | condition index => exact congrArg Condition.ofBytes (Subtype.ext (hread rfl))
  | transition datetime index =>
    cases datetime with
    | true => exact congrArg Transition.ofBytes (Subtype.ext (hread rfl))
    | false => exact congrArg Transition.ofBytes (Subtype.ext (hread rfl))

theorem region_subset {start size start' size' : Nat} (hstart : start' ≤ start)
    (hend : start + size ≤ start' + size') : region start size ⊆ region start' size' := by
  intro a ha
  rw [mem_region] at ha ⊢
  omega

/-- An entry of a table at `start`. -/
theorem entry_subset {start size index capacity : Nat} (h : size * (index + 1) ≤ capacity) :
    region (start + size * index) size ⊆ region start capacity := by
  rw [Nat.mul_succ] at h
  exact region_subset (Nat.le_add_right _ _) (by omega)

/-- Every function reads one of the regions. -/
theorem Reader.cells_subset (r : Reader) (h : r.InTable) : ∃ s ∈ EE.regions, r.cells ⊆ s := by
  have hmem : ∀ {s : Finset Nat} (k : Nat), EE.regions[k]? = some s → s ∈ EE.regions :=
    fun k hk => List.mem_of_getElem? hk
  cases r with
  | id => exact ⟨_, hmem 0 rfl, Finset.Subset.refl _⟩
  | numberOfConditions => exact ⟨_, hmem 1 rfl, Finset.Subset.refl _⟩
  | numberOfTransitions datetime =>
    cases datetime with
    | true => exact ⟨_, hmem 3 rfl, Finset.Subset.refl _⟩
    | false => exact ⟨_, hmem 5 rfl, Finset.Subset.refl _⟩
  | condition index => exact ⟨_, hmem 2 rfl, entry_subset h⟩
  | transition datetime index =>
    cases datetime with
    | true => exact ⟨_, hmem 4 rfl, entry_subset h⟩
    | false => exact ⟨_, hmem 6 rfl, entry_subset h⟩

/-! ## All chunks -/

/-- **Chunks are confined**: each is refused without a change or its payload is stored in its own
cells with no change outside them, which for the state machine are a slice of its area; no two chunks share a cell; the slices
of the stored ones are the regions that are read; and after any sequence of chunks every cell holds
what the chunks it belongs to leave there. -/
theorem chunks_confined :
    (∀ eeprom chunkId data, Confined chunkId data eeprom (smWriteChunk eeprom chunkId data)) ∧
    (∀ chunkId, chunkRange chunkId = region (chunkStart chunkId) (chunkLength chunkId)) ∧
    (∀ chunkId, chunkId ≠ 0 → (Accepted chunkId ∧ (chunkRange chunkId).card = chunkSize ∧
        chunkRange chunkId ⊆ region EE.statemachineId EE.statemachineSize) ∨
      ∀ eeprom data, smWriteChunk eeprom chunkId data = (false, eeprom)) ∧
    (∀ i j, i ≠ j → Disjoint (chunkRange i) (chunkRange j)) ∧
    (∀ a, (∃ chunkId, chunkId ≠ 0 ∧ Accepted chunkId ∧ a ∈ chunkRange chunkId) ↔
      ∃ r ∈ EE.regions, a ∈ r) ∧
    (∀ r : Reader, r.InTable → ∃ s ∈ EE.regions, r.cells ⊆ s) ∧
    (∀ (r : Reader) eeprom eeprom', (∀ a ∈ r.cells, eeprom a = eeprom' a) →
      r.Same eeprom eeprom') ∧
    ∀ eeprom writes a, writeChunks eeprom writes a =
      writeChunks eeprom (writes.filter fun w => a ∈ chunkRange w.1) a := by
  refine ⟨smWriteChunk_confined, chunkRange_eq, fun chunkId hne => ?_, fun _ _ => chunkRange_disjoint,
    fun a => ?_, Reader.cells_subset, fun r _ _ => r.same_of_cells, writeChunks_filter⟩
  · by_cases haccepted : Accepted chunkId
    · exact .inl ⟨haccepted, chunkRange_subset hne haccepted⟩
    · refine .inr fun eeprom data => ?_
      rw [smWriteChunk_area hne]
      refine if_pos ?_
      rw [accepted_iff hne] at haccepted
      rw [EE.statemachineSize_eq]
      unfold chunkSize
      omega
  · rw [EE.mem_regions]
    constructor
    · rintro ⟨chunkId, hne, haccepted, ha⟩
      exact (chunkRange_subset hne haccepted).2 ha
    · exact exists_chunk

end Hexabus.Firmware
