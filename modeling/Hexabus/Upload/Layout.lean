import Hexabus.Asm.Tables
import Hexabus.Asm.Placement
import Hexabus.Firmware.Eeprom

/-!
# From the image to the EEPROM

The uploader cuts the image behind the address into chunks, the firmware stores each
chunk at its place. When every chunk has been stored at least once, the firmware's
readers find in the EEPROM what the assembler put into its maps.
-/

namespace Hexabus.Upload

open Lib.Bytes Lib.Store Asm Firmware

/-! ## Chunks -/

/-- The loop that reads the program file: one chunk a time, and an incomplete one is
dropped. Every round consumes something, so `fuel` need not exceed the length. -/
def readChunks : Nat → List UInt8 → List (Block 64)
  | 0, _ => []
  | fuel + 1, bytes =>
    if h : 64 ≤ bytes.length then
      ⟨bytes.take 64, by rw [List.length_take]; omega⟩ :: readChunks fuel (bytes.drop 64)
    else []

/-- The chunks of a program file: everything behind the address of the device. -/
def chunks (file : List UInt8) : List (Block 64) := readChunks file.length (file.drop 16)

/-- A chunk is a block of the bytes read. -/
theorem readChunks_eq {fuel : Nat} {bytes : List UInt8} (h : bytes.length ≤ fuel) :
    (readChunks fuel bytes).map Subtype.val
      = (List.range (bytes.length / 64)).map (blockOf 64 bytes) := by
  induction fuel generalizing bytes with
  | zero =>
    have hnil : bytes.length = 0 := Nat.le_zero.mp h
    rw [hnil]
    rfl
  | succ fuel ih =>
    by_cases hfull : 64 ≤ bytes.length
    · have hlen : bytes.length / 64 = (bytes.drop 64).length / 64 + 1 := by
        rw [List.length_drop]
        omega
      have hrest := @ih (bytes.drop 64) (by rw [List.length_drop]; omega)
      rw [readChunks, dif_pos hfull, List.map_cons, hrest, hlen, List.range_succ_eq_map,
        List.map_cons, List.map_map]
      congr 1
      apply List.map_congr_left
      intro k _
      show ((bytes.drop 64).drop (k * 64)).take 64 = (bytes.drop ((k + 1) * 64)).take 64
      rw [List.drop_drop]
      congr 2
      omega
    · have hnone : bytes.length / 64 = 0 := Nat.div_eq_of_lt (by omega)
      rw [readChunks, dif_neg hfull, hnone]
      rfl

/-- The chunks of a file whose rest is a whole number of blocks. -/
theorem chunks_eq {file : List UInt8} {n : Nat} (h : (file.drop 16).length = n * 64) :
    (chunks file).length = n ∧
      ∀ k, k < n → ∃ chunk, (chunks file)[k]? = some chunk ∧
        chunk.val = blockOf 64 (file.drop 16) k := by
  have hfuel : (file.drop 16).length ≤ file.length := by
    rw [List.length_drop]
    omega
  have heq := readChunks_eq hfuel
  rw [h, Nat.mul_div_cancel n (by omega)] at heq
  have hlen : (chunks file).length = n := by
    have hlength := congrArg List.length heq
    rw [List.length_map, List.length_map, List.length_range] at hlength
    exact hlength
  refine ⟨hlen, ?_⟩
  intro k hk
  have hk' : k < (chunks file).length := hlen ▸ hk
  refine ⟨(chunks file)[k], List.getElem?_eq_getElem hk', ?_⟩
  have hget := congrArg (fun l => l[k]?) heq
  simp only [List.getElem?_map, List.getElem?_range hk, Option.map_some] at hget
  have hsome : (readChunks file.length (file.drop 16))[k]? = some (chunks file)[k] :=
    List.getElem?_eq_getElem hk'
  rw [hsome] at hget
  exact Option.some.inj hget

/-- The chunks `order` of a file, stored by the firmware one after the other. -/
def storeChunks (file : List UInt8) (eeprom : Mem) (order : List Nat) : Mem :=
  order.foldl (fun eeprom k =>
    match (chunks file)[k]? with
    | some chunk => (smWriteChunk eeprom (UInt8.ofNat k) chunk).2
    | none => eeprom) eeprom

/-! ## The state machine area -/

/-- The name chunk lies in front of the state machine area. -/
theorem smWriteChunk_zero {eeprom : Mem} {data : Block 64} {i : Nat}
    (h : EE.statemachineId ≤ i) : (smWriteChunk eeprom 0 data).2 i = eeprom i := by
  rw [smWriteChunk, if_pos rfl]
  by_cases hnul : data.val.getD 0 0 = 0
  · rw [if_pos hnul]
  · have hend : EE.domainName + EE.domainNameSize ≤ EE.statemachineId := by decide
    rw [if_neg hnul]
    refine writeBlock_apply_out _ _ _ _ (.inr ?_)
    rw [List.length_take]
    omega

/-- What the chunks of a file store in the area is what a plain run of block writes of
the area's image stores there. -/
theorem storeChunks_eq_writeAll {file area : List UInt8}
    (hfile : (file.drop 16).length = 25 * 64)
    (hchunk : ∀ k, k < 24 → blockOf 64 (file.drop 16) (k + 1) = blockOf 64 area k)
    {order : List Nat} (horder : ∀ k ∈ order, k < 25) {m m' : Mem}
    (hm : ∀ i, EE.statemachineId ≤ i → m i = m' i) (i : Nat) (hi : EE.statemachineId ≤ i) :
    storeChunks file m order i = writeAll 64 EE.statemachineId area m'
      ((order.filter (· ≠ 0)).map (· - 1)) i := by
  induction order generalizing m m' with
  | nil => exact hm i hi
  | cons k order ih =>
    have hk : k < 25 := horder k List.mem_cons_self
    have hrest : ∀ j ∈ order, j < 25 := fun j hj => horder j (List.mem_cons_of_mem _ hj)
    obtain ⟨chunk, hget, hval⟩ := (chunks_eq hfile).2 k hk
    have hstep : storeChunks file m (k :: order)
        = storeChunks file (smWriteChunk m (UInt8.ofNat k) chunk).2 order := by
      unfold storeChunks
      rw [List.foldl_cons, hget]
    rw [hstep]
    cases k with
    | zero =>
      -- the name chunk: nothing changes in the area
      exact ih hrest fun j hj => (smWriteChunk_zero hj).trans (hm j hj)
    | succ k =>
      have hk' : k < 24 := by omega
      have hfilter : (((k + 1) :: order).filter (· ≠ 0)).map (· - 1)
          = k :: (order.filter (· ≠ 0)).map (· - 1) := by
        rw [List.filter_cons_of_pos (by simp), List.map_cons, Nat.add_sub_cancel]
      rw [hfilter]
      apply ih hrest
      intro j hj
      have hwrite : (smWriteChunk m (UInt8.ofNat (k + 1)) chunk).2
          = writeBlock m (EE.statemachineId + k * 64) chunk.val := by
        rw [smWriteChunk_succ m chunk hk']
        rfl
      rw [hwrite, hval, hchunk k hk']
      exact writeBlock_congr (hm j hj)

/-- **The area holds its image** when every chunk has been stored, in whatever order
and however often. -/
theorem holds_area {file area : List UInt8} (harea : area.length = 24 * 64)
    (hfile : (file.drop 16).length = 25 * 64)
    (hchunk : ∀ k, k < 24 → blockOf 64 (file.drop 16) (k + 1) = blockOf 64 area k)
    {order : List Nat} (horder : ∀ k ∈ order, k < 25) (hall : ∀ k < 25, k ∈ order)
    (eeprom : Mem) : Holds (storeChunks file eeprom order) EE.statemachineId area := by
  have hread : readBlock (storeChunks file eeprom order) EE.statemachineId area.length
      = readBlock (writeAll 64 EE.statemachineId area eeprom
          ((order.filter (· ≠ 0)).map (· - 1))) EE.statemachineId area.length :=
    readBlock_congr fun i hi _ =>
      storeChunks_eq_writeAll hfile hchunk horder (fun _ _ => rfl) i hi
  unfold Holds
  rw [hread]
  refine read_writeAll eeprom harea ?_ ?_
  · intro k hk
    obtain ⟨j, hj, rfl⟩ := List.mem_map.mp hk
    have hlt := horder j (List.mem_filter.mp hj).1
    omega
  · intro k hk
    refine List.mem_map.mpr ⟨k + 1, List.mem_filter.mpr ⟨hall (k + 1) (by omega), ?_⟩, rfl⟩
    simp

/-! ## The image of a program -/

theorem length_areaOf (ast : HbaDoc) (maps : Maps) : (areaOf ast maps).length = 24 * 64 := by
  unfold areaOf generatorFlash
  simp only [List.length_append, length_tableBytes, (machineIdBytes ast.machineId).property]
  rfl

/-- The number of records the device's tables have room for. -/
structure Fits (maps : Maps) : Prop where
  conditions : maps.conditionsBin.length ≤ 17
  transDt : maps.transDtBin.length ≤ 30
  transitions : maps.statesBin.length ≤ 29

/-- What the firmware reads is what the assembler emitted. -/
structure Agrees (eeprom : Mem) (ast : HbaDoc) (maps : Maps) : Prop where
  id : smGetId eeprom = machineIdBytes ast.machineId
  conditionCount : (smGetNumberOfConditions eeprom).toNat = maps.conditionsBin.length
  condition : ∀ i (h : i < maps.conditionsBin.length),
    smGetCondition eeprom (UInt8.ofNat i) = maps.conditionsBin[i].2
  transitionCount : ∀ datetime,
    (smGetNumberOfTransitions eeprom datetime).toNat = (maps.bin datetime).length
  transition : ∀ datetime i (h : i < (maps.bin datetime).length),
    smGetTransition eeprom datetime (UInt8.ofNat i) = (maps.bin datetime)[i].2

theorem blockOf_area {ip name area : List UInt8} (hip : ip.length = 16) (hname : name.length = 64)
    (k : Nat) : blockOf 64 ((ip ++ (name ++ area)).drop 16) (k + 1) = blockOf 64 area k := by
  have hfront : (ip ++ (name ++ area)).drop 16 = name ++ area := by
    rw [← hip, List.drop_left]
  have hplace : (k + 1) * 64 = name.length + k * 64 := by omega
  unfold blockOf
  rw [hfront, hplace, ← List.drop_drop, List.drop_left]

/-- A table none of whose records was passed over, read record by record. -/
theorem table_read {α : Type} {size n capacity base : Nat} (hsize : TableSize size n capacity)
    {toBytes : α → List UInt8} {ofBytes : Block n → α} (hlen : ∀ a, (toBytes a).length = n)
    (hround : ∀ a (h : (toBytes a).length = n), ofBytes ⟨toBytes a, h⟩ = a)
    {m : Mem} {bin : List (Nat × α)}
    (h : Holds m base (tableBytes size (bin.map fun entry => toBytes entry.2)))
    (hfits : bin.length ≤ capacity) :
    (m base).toNat = bin.length ∧ ∀ i (hi : i < bin.length),
      ofBytes ⟨readBlock m (base + 1 + n * (UInt8.ofNat i).toNat) n, length_readBlock _ _ _⟩
        = bin[i].2 := by
  have hentries : (bin.map fun entry => toBytes entry.2) = (bin.map Prod.snd).map toBytes := by
    rw [List.map_map]
    rfl
  have hwhole : (bin.map Prod.snd).take capacity = bin.map Prod.snd :=
    List.take_of_length_le (by rw [List.length_map]; exact hfits)
  rw [hentries] at h
  obtain ⟨hcount, hrecords⟩ := holds_table hsize hlen hround h
  rw [hwhole, List.length_map] at hcount
  refine ⟨hcount, ?_⟩
  intro i hi
  have hindex : (UInt8.ofNat i).toNat = i := by
    have hcounts := hsize.counts
    exact UInt8.toNat_ofNat_of_lt' (by show i < 256; omega)
  have hrecord := hrecords i (by rw [hwhole, List.length_map]; exact hi)
  simp only [hwhole, List.getElem_map] at hrecord
  rw [hindex]
  exact hrecord

/-- The area, read by the firmware. -/
theorem agrees_of_holds {eeprom : Mem} {ast : HbaDoc} {maps : Maps}
    (h : Holds eeprom EE.statemachineId (areaOf ast maps)) (hfits : Fits maps) :
    Agrees eeprom ast maps := by
  have hid : (machineIdBytes ast.machineId).val.length = 16 := (machineIdBytes ast.machineId).property
  unfold areaOf generatorFlash at h
  -- the four regions, each behind the one before it
  have htables := h.right (b := EE.statemachineNConditions) (by rw [hid]; rfl)
  rw [List.append_assoc] at htables
  have hrest := htables.right (b := EE.statemachineNDtTransitions) (by rw [length_tableBytes]; rfl)
  have hstates := hrest.right (b := EE.statemachineNTransitions) (by rw [length_tableBytes]; rfl)
  have hconditions := table_read conditions_tableSize Condition.length_toBytes
    Condition.ofBytes_toBytes htables.left hfits.conditions
  have htransDt := table_read transDt_tableSize Transition.length_toBytes
    Transition.ofBytes_toBytes hrest.left hfits.transDt
  have htransitions := table_read transitions_tableSize Transition.length_toBytes
    Transition.ofBytes_toBytes hstates hfits.transitions
  constructor
  · exact Subtype.ext (h.left.read hid)
  · exact hconditions.1
  · exact hconditions.2
  · intro datetime
    cases datetime with
    | true => exact htransDt.1
    | false => exact htransitions.1
  · intro datetime i hi
    cases datetime with
    | true => exact htransDt.2 i hi
    | false => exact htransitions.2 i hi

/-- The image in the EEPROM, in whatever order and however often its chunks were stored. -/
theorem storeChunks_area {env : Environment} {ast : HbaDoc} {file : List UInt8} {eeprom : Mem}
    {order : List Nat} (hfile : hbasm env ast = .ok file) (hblocks : ast.blocks ≠ [])
    (horder : ∀ k ∈ order, k < (chunks file).length) (hall : ∀ k < (chunks file).length, k ∈ order) :
    ∃ maps, emitted env ast = .ok maps ∧
      Holds (storeChunks file eeprom order) EE.statemachineId (areaOf ast maps) := by
  obtain ⟨maps, hmaps, rfl⟩ := hbasm_file hblocks hfile
  have hip := (ipBytes ast.targetIp).property
  have hname := (devName ast.deviceName).property
  have harea := length_areaOf ast maps
  have hdrop : (((ipBytes ast.targetIp).val ++ ((devName ast.deviceName).val
      ++ areaOf ast maps)).drop 16).length = 25 * 64 := by
    rw [List.length_drop, List.length_append, List.length_append, hip, hname, harea]
  rw [(chunks_eq hdrop).1] at horder hall
  exact ⟨maps, hmaps, holds_area harea hdrop (fun k _ => blockOf_area hip hname k) horder hall eeprom⟩

/-- **The layout end to end**: for a program with at least one block whose records fit
the tables, once every chunk of its image has been stored, in whatever order and however
often, the firmware reads what the assembler emitted. -/
theorem storeChunks_agrees (env : Environment) (ast : HbaDoc) (file : List UInt8)
    (eeprom : Mem) (order : List Nat) (hfile : hbasm env ast = .ok file) (hblocks : ast.blocks ≠ [])
    (hfits : ∀ maps, emitted env ast = .ok maps → Fits maps)
    (horder : ∀ k ∈ order, k < (chunks file).length) (hall : ∀ k < (chunks file).length, k ∈ order) :
    ∃ maps, emitted env ast = .ok maps ∧ Agrees (storeChunks file eeprom order) ast maps := by
  obtain ⟨maps, hmaps, hholds⟩ := storeChunks_area hfile hblocks horder hall
  exact ⟨maps, hmaps, agrees_of_holds hholds (hfits maps hmaps)⟩

/-- A definition file with one switch and one meter. -/
def sampleEnvironment : Environment where
  datatypes eid := if eid = 1 then some .bool else if eid = 2 then some .uint32 else none
  readFloat value := value
  readUint _ := 1
  residue _ := Block.zero 4

/-- A program of one condition and one state. -/
def sampleProgram : HbaDoc where
  targetIp := ⟨List.replicate 32 0, length_zeroDigits⟩
  deviceName := [112, 108, 117, 103]
  machineId := [1, 15]
  startState := "idle"
  blocks := [
    .condition ⟨1, "much", .eidvalue ⟨List.replicate 32 0, length_zeroDigits⟩ 2 4 0x3f800000, 0⟩,
    .state ⟨2, "idle", [⟨3, "much", 1, 0x3f800000, "idle", "idle"⟩], 0⟩]

def sampleMaps : Maps where
  statesBin := [(0, ⟨0, 0, 1, 0, 0, DataType.bool.code, unionOf 1 (Block.zero 4)⟩)]
  transDtBin := []
  conditionsBin := [(0, ⟨Block.zero 16, 2, 4, DataType.uint32.code, unionOf 1 (Block.zero 4)⟩)]
  stateIndex := 1

def sampleFile : List UInt8 :=
  (ipBytes sampleProgram.targetIp).val ++ (devName sampleProgram.deviceName).val
    ++ (machineIdBytes sampleProgram.machineId).val ++ generatorFlash sampleMaps

/-- The sample program on a device whose EEPROM has been erased. -/
theorem sampleProgram_agrees :
    ∃ maps, emitted sampleEnvironment sampleProgram = .ok maps ∧
      Agrees (storeChunks sampleFile (fun _ => 0xff) (List.range 25)) sampleProgram maps := by
  have hcount : (chunks sampleFile).length = 25 := by decide +kernel
  refine storeChunks_agrees sampleEnvironment sampleProgram sampleFile _ _ rfl
    (List.cons_ne_nil _ _) ?_ ?_ ?_
  · intro maps hmaps
    obtain rfl : sampleMaps = maps := Except.ok.inj hmaps
    exact ⟨by decide, by decide, by decide⟩
  · intro k hk
    rw [hcount]
    exact List.mem_range.mp hk
  · intro k hk
    rw [hcount] at hk
    exact List.mem_range.mpr hk

/-- The image of a program without any block has no state machine area. -/
def emptyProgram : HbaDoc := { sampleProgram with blocks := [] }

def emptyFile : List UInt8 :=
  (ipBytes emptyProgram.targetIp).val ++ (devName emptyProgram.deviceName).val

/-- All of its chunks stored, the device keeps the machine it had. -/
theorem emptyProgram_keeps_old_machine :
    hbasm sampleEnvironment emptyProgram = .ok emptyFile ∧
      emitted sampleEnvironment emptyProgram = .ok Maps.empty ∧ (chunks emptyFile).length = 1 ∧
      ¬ Agrees (storeChunks emptyFile (fun _ => 5) [0]) emptyProgram Maps.empty := by
  refine ⟨rfl, rfl, by decide +kernel, ?_⟩
  intro h
  have hold : (smGetNumberOfConditions (storeChunks emptyFile (fun _ => 5) [0])).toNat = 5 := by
    decide +kernel
  exact absurd (hold.symm.trans h.conditionCount) (by decide)

end Hexabus.Upload
