import Hexabus.Asm.Tables
import Hexabus.Asm.Placement

/-!
# Whether an image is complete

The tables of the image file against the clauses of the program. A name is looked up
among states and conditions alike, a condition is only found in front of the state that
uses it, and a full table takes no more records; a program that avoids all of this is
translated completely, and no other program is.
-/

namespace Hexabus.Asm

open Lib.Bytes Lib.Store

/-! ## The tables of a file -/

/-- The bytes of a file, by their offset. -/
def bytesOf (file : List UInt8) (i : Nat) : UInt8 := file.getD i 0

/-- The conditions stored in an image file, behind address, name and machine id. -/
def imageConditions (file : List UInt8) : List Condition :=
  recordsAt Condition.size Condition.ofBytes (bytesOf file) 96

/-- The transitions of one of the two tables. -/
def imageTransitions (file : List UInt8) (datetime : Bool) : List Transition :=
  recordsAt Transition.size Transition.ofBytes (bytesOf file) (if datetime then 608 else 1120)

/-- How many transitions a table has room for. -/
def tableCapacity (datetime : Bool) : Nat := if datetime then 30 else 29

/-- How many conditions there is room for. -/
def conditionCapacity : Nat := 17

/-- What stands in the tables of a file: the records emitted, as far as there is room. -/
theorem image_of_hbasm {env : Environment} {ast : HbaDoc} {file : List UInt8}
    (h : hbasm env ast = .ok file) :
    imageConditions file =
        ((conditionEntries env 0 (conditionDocs ast.blocks)).map Prod.snd).take conditionCapacity ∧
      ∀ datetime, imageTransitions file datetime =
        (placedIn env ast.blocks datetime (events ast.blocks)).take (tableCapacity datetime) := by
  by_cases hblocks : ast.blocks = []
  · -- the file ends in front of the tables
    have hfile := Except.ok.inj (h.symm.trans (hbasm_nil hblocks))
    have hip := (ipBytes ast.targetIp).property
    have hname := (devName ast.deviceName).property
    have hout : ∀ i, 80 ≤ i → bytesOf file i = 0 := by
      intro i hi
      have hend : file.length ≤ i := by
        rw [hfile, List.length_append, hip, hname]
        exact hi
      rw [bytesOf, List.getD_eq_getElem?_getD, List.getElem?_eq_none hend]
      rfl
    rw [hblocks]
    refine ⟨?_, ?_⟩
    · rw [imageConditions, recordsAt, hout 96 (by omega)]
      rfl
    · intro datetime
      rw [imageTransitions, recordsAt, hout _ (by split <;> omega)]
      exact List.take_nil.symm
  · obtain ⟨maps, hmaps, hfile⟩ := hbasm_file hblocks h
    obtain ⟨hconditions, hbins⟩ := emitted_records hmaps
    have hip := (ipBytes ast.targetIp).property
    have hname := (devName ast.deviceName).property
    have hid := (machineIdBytes ast.machineId).property
    have hentries : ∀ (α : Type) (toBytes : α → List UInt8) (bin : List (Nat × α)),
        (bin.map fun entry => toBytes entry.2) = (bin.map Prod.snd).map toBytes := by
      intro α toBytes bin
      rw [List.map_map]
      rfl
    have hall : Holds (bytesOf file) 96 (generatorFlash maps) := by
      refine @holds_getD _ _ ((ipBytes ast.targetIp).val ++ ((devName ast.deviceName).val
        ++ (machineIdBytes ast.machineId).val)) _ [] _ _ ?_ ?_
      · rw [hfile, List.append_nil]
        simp only [areaOf, List.append_assoc]
      · rw [List.length_append, List.length_append, hip, hname, hid]
    unfold generatorFlash at hall
    rw [hentries, hentries, hentries, List.append_assoc] at hall
    have hrest := hall.right (b := 608) (by rw [length_tableBytes]; rfl)
    have hstates := hrest.right (b := 1120) (by rw [length_tableBytes]; rfl)
    refine ⟨?_, ?_⟩
    · have htable := recordsAt_eq conditions_tableSize Condition.length_toBytes
        Condition.ofBytes_toBytes hall.left
      rw [hconditions] at htable
      exact htable
    · intro datetime
      rw [← hbins datetime]
      cases datetime with
      | true =>
        exact recordsAt_eq transDt_tableSize Transition.length_toBytes
          Transition.ofBytes_toBytes hrest.left
      | false =>
        exact recordsAt_eq transitions_tableSize Transition.length_toBytes
          Transition.ofBytes_toBytes hstates

/-! ## Completeness -/

/-- A state is called `name`. -/
def StateNamed (ast : HbaDoc) (index : Nat) (name : String) : Prop :=
  ((stateDocs ast.blocks)[index]?).map StateDoc.name = some name

/-- The record `t` says what its clause says: source, good and bad index denote the
states, and the condition index is 255 or denotes a stored condition, the record of the
condition block that the clause names. -/
structure Denotes (env : Environment) (ast : HbaDoc) (conditions : List Condition)
    (event : Event) (t : Transition) : Prop where
  source : t.fromState.toNat = event.source
  eid : t.eid = event.clause.eid
  good : StateNamed ast t.goodState.toNat event.clause.goodstate
  bad : StateNamed ast t.badState.toNat event.clause.badstate
  always : event.clause.name = "true" → t.cond = trueCondIndex
  cond : event.clause.name ≠ "true" → ∃ doc, (conditionDocs ast.blocks)[t.cond.toNat]? = some doc ∧
    doc.name = event.clause.name ∧
    conditions[t.cond.toNat]? = some (conditionOf env t.cond.toNat doc)

/-- The clause belongs into the date-time table. -/
def inDatetimeTable (env : Environment) (ast : HbaDoc) (event : Event) : Bool :=
  event.clause.name != "true" && isDatetime env ast.blocks (conditionNumber ast.blocks event.clause)

/-- Every clause occurs as exactly one transition: each table lists, in the order of the
program, the records of the clauses that belong into it. -/
def Complete (env : Environment) (ast : HbaDoc) (file : List UInt8) : Prop :=
  ∀ datetime, List.Forall₂ (Denotes env ast (imageConditions file))
    ((events ast.blocks).filter fun event => inDatetimeTable env ast event = datetime)
    (imageTransitions file datetime)

/-- The first block that bears the name has a number which, as a byte, is the number of a
state of that name. -/
def StateFound (ast : HbaDoc) (name : String) : Prop :=
  ∃ k, numberOf ast.blocks name = some k ∧ StateNamed ast (k % 256) name

/-- The same for a condition, which has to stand in front of the state and among the
conditions that find room. -/
def ConditionFound (ast : HbaDoc) (event : Event) : Prop :=
  ∃ k, numberOf ast.blocks event.clause.name = some k ∧ k < event.seen ∧
    k % 256 < conditionCapacity ∧
    ((conditionDocs ast.blocks)[k % 256]?).map ConditionDoc.name = some event.clause.name

/-- A clause is translated faithfully. -/
structure Translatable (ast : HbaDoc) (event : Event) : Prop where
  source : event.source < 256
  good : StateFound ast event.clause.goodstate
  bad : StateFound ast event.clause.badstate
  cond : event.clause.name ≠ "true" → ConditionFound ast event

/-- Every clause is, and the tables have room for all of them. -/
structure Assemblable (env : Environment) (ast : HbaDoc) : Prop where
  clauses : ∀ event ∈ events ast.blocks, Translatable ast event
  room : ∀ datetime, ((events ast.blocks).filter fun event =>
    inDatetimeTable env ast event = datetime).length ≤ tableCapacity datetime

/-! ## Clause by clause -/

theorem getElem?_conditionEntries (env : Environment) (id i : Nat) (docs : List ConditionDoc) :
    (conditionEntries env id docs)[i]? = docs[i]?.map fun doc => (id + i, conditionOf env (id + i) doc) := by
  induction docs generalizing id i with
  | nil => rfl
  | cons doc docs ih =>
    cases i with
    | zero => rfl
    | succ i =>
      have hplace : id + (i + 1) = id + 1 + i := by omega
      rw [hplace]
      exact ih (id + 1) i

theorem clauseResolves_of_event {env : Environment} {all blocks : List HbaDocBlock}
    {stateId conditionId : Nat} (h : ∀ block ∈ blocks, BlockResolves env all block) :
    ∀ event ∈ eventsFrom stateId conditionId blocks, ClauseResolves env all event.clause := by
  induction blocks generalizing stateId conditionId with
  | nil => exact fun event hevent => absurd hevent List.not_mem_nil
  | cons block blocks ih =>
    have hrest : ∀ b ∈ blocks, BlockResolves env all b := fun b hb =>
      h b (List.mem_cons_of_mem _ hb)
    intro event hevent
    cases block with
    | state doc =>
      have hclauses : BlockResolves env all (.state doc) := h _ List.mem_cons_self
      rcases List.mem_append.mp hevent with hevent | hevent
      · obtain ⟨clause, hclause, rfl⟩ := List.mem_map.mp hevent
        exact hclauses clause hclause
      · exact ih hrest event hevent
    | condition doc => exact ih hrest event hevent

/-- A state index denotes its state exactly when the lookup finds it. -/
theorem stateNamed_iff {ast : HbaDoc} {name : String} (h : Bears ast.blocks name) :
    StateNamed ast (UInt8.ofNat ((numberOf ast.blocks name).getD 0)).toNat name
      ↔ StateFound ast name := by
  obtain ⟨k, hk⟩ := h.number
  unfold StateFound
  rw [hk, Option.getD_some, UInt8.toNat_ofNat']
  constructor
  · exact fun hname => ⟨k, rfl, hname⟩
  · rintro ⟨k', heq, hname⟩
    obtain rfl := Option.some.inj heq
    exact hname

/-- A clause that goes to some table has a faithful record exactly when it is
translatable. -/
theorem denotes_recordOf_iff {env : Environment} {ast : HbaDoc} {event : Event}
    (hresolves : ClauseResolves env ast.blocks event.clause)
    (hplaced : (tableOf env ast.blocks event).isSome = true) :
    Denotes env ast (((conditionEntries env 0 (conditionDocs ast.blocks)).map Prod.snd).take
        conditionCapacity) event (recordOf env ast.blocks event) ↔ Translatable ast event := by
  have hsource : (recordOf env ast.blocks event).fromState.toNat = event.source % 256 :=
    UInt8.toNat_ofNat'
  constructor
  · intro h
    refine ⟨?_, (stateNamed_iff hresolves.good).mp h.good,
      (stateNamed_iff hresolves.bad).mp h.bad, ?_⟩
    · have heq := hsource.symm.trans h.source
      omega
    · intro hname
      obtain ⟨k, hk⟩ := (hresolves.cond hname).number
      obtain ⟨doc, hdoc, hdocName, hstored⟩ := h.cond hname
      have hnumber : conditionNumber ast.blocks event.clause = k := by
        rw [conditionNumber, if_pos hname, hk, Option.getD_some]
      have hcond : (recordOf env ast.blocks event).cond.toNat = k % 256 := by
        show (UInt8.ofNat (conditionNumber ast.blocks event.clause)).toNat = _
        rw [hnumber, UInt8.toNat_ofNat']
      rw [hcond] at hdoc hstored
      refine ⟨k, hk, ?_, ?_, by rw [hdoc, Option.map_some, hdocName]⟩
      · by_contra hge
        rw [tableOf, if_pos hname, hnumber, if_neg hge] at hplaced
        cases hplaced
      · by_contra hge
        rw [List.getElem?_take_eq_none (by omega)] at hstored
        cases hstored
  · intro h
    refine ⟨?_, rfl, (stateNamed_iff hresolves.good).mpr h.good,
      (stateNamed_iff hresolves.bad).mpr h.bad, ?_, ?_⟩
    · have hlt := h.source
      omega
    · intro hname
      show UInt8.ofNat (conditionNumber ast.blocks event.clause) = _
      rw [conditionNumber, if_neg (not_not.mpr hname)]
      rfl
    · intro hname
      obtain ⟨k, hk, -, hroom, hnamed⟩ := h.cond hname
      have hnumber : conditionNumber ast.blocks event.clause = k := by
        rw [conditionNumber, if_pos hname, hk, Option.getD_some]
      have hcond : (recordOf env ast.blocks event).cond.toNat = k % 256 := by
        show (UInt8.ofNat (conditionNumber ast.blocks event.clause)).toNat = _
        rw [hnumber, UInt8.toNat_ofNat']
      obtain ⟨doc, hdoc, hdocName⟩ := Option.map_eq_some_iff.mp hnamed
      rw [hcond]
      refine ⟨doc, hdoc, hdocName, ?_⟩
      rw [List.getElem?_take_of_lt hroom, List.getElem?_map, getElem?_conditionEntries, hdoc,
        Option.map_some, Option.map_some, Nat.zero_add]

/-! ## The whole program -/

/-- A clause goes to the table it belongs into, or to none. -/
theorem tableOf_eq {env : Environment} {ast : HbaDoc} {event : Event} {datetime : Bool}
    (h : tableOf env ast.blocks event = some datetime) :
    inDatetimeTable env ast event = datetime := by
  unfold tableOf at h
  unfold inDatetimeTable
  by_cases hname : event.clause.name ≠ "true"
  · rw [if_pos hname] at h
    by_cases hseen : conditionNumber ast.blocks event.clause < event.seen
    · have hne : (event.clause.name != "true") = true := bne_iff_ne.mpr hname
      rw [if_pos hseen] at h
      rw [hne, Bool.true_and]
      exact Option.some.inj h
    · rw [if_neg hseen] at h
      cases h
  · rw [if_neg hname] at h
    have hfalse : false = datetime := Option.some.inj h
    simp [not_not.mp hname, ← hfalse]

/-- A translatable clause goes to the table it belongs into. -/
theorem Translatable.tableOf_eq {env : Environment} {ast : HbaDoc} {event : Event}
    (h : Translatable ast event) :
    tableOf env ast.blocks event = some (inDatetimeTable env ast event) := by
  unfold tableOf inDatetimeTable
  by_cases hname : event.clause.name ≠ "true"
  · obtain ⟨k, hk, hseen, -, -⟩ := h.cond hname
    have hnumber : conditionNumber ast.blocks event.clause = k := by
      rw [conditionNumber, if_pos hname, hk, Option.getD_some]
    rw [if_pos hname, hnumber, if_pos hseen]
    simp [hname]
  · rw [if_neg hname]
    simp [not_not.mp hname]

/-- If a table misses none of its clauses, it holds their records. -/
theorem placedIn_eq {env : Environment} {ast : HbaDoc} {datetime : Bool}
    (h : ∀ event ∈ events ast.blocks, inDatetimeTable env ast event = datetime →
      tableOf env ast.blocks event = some datetime) :
    placedIn env ast.blocks datetime (events ast.blocks) =
      ((events ast.blocks).filter fun event => inDatetimeTable env ast event = datetime).map
        (recordOf env ast.blocks) := by
  unfold placedIn
  congr 1
  apply List.filter_congr
  intro event hevent
  by_cases hin : inDatetimeTable env ast event = datetime
  · simp [hin, h event hevent hin]
  · have hno : tableOf env ast.blocks event ≠ some datetime := fun htable => hin (Asm.tableOf_eq htable)
    simp [hin, hno]

/-- The table of the file then holds them too, if it has room. -/
theorem imageTransitions_eq {env : Environment} {ast : HbaDoc} {file : List UInt8}
    {datetime : Bool} (hfile : hbasm env ast = .ok file)
    (hplaced : ∀ event ∈ events ast.blocks, inDatetimeTable env ast event = datetime →
      tableOf env ast.blocks event = some datetime)
    (hroom : ((events ast.blocks).filter fun event =>
      inDatetimeTable env ast event = datetime).length ≤ tableCapacity datetime) :
    imageTransitions file datetime =
      ((events ast.blocks).filter fun event => inDatetimeTable env ast event = datetime).map
        (recordOf env ast.blocks) := by
  rw [(image_of_hbasm hfile).2, placedIn_eq hplaced]
  apply List.take_of_length_le
  rw [List.length_map]
  exact hroom

/-- A complete table misses none of its clauses and had room for all of them. -/
theorem placed_of_complete {env : Environment} {ast : HbaDoc} {file : List UInt8}
    (hfile : hbasm env ast = .ok file) (h : Complete env ast file) (datetime : Bool) :
    (∀ event ∈ events ast.blocks, inDatetimeTable env ast event = datetime →
      tableOf env ast.blocks event = some datetime) ∧
    ((events ast.blocks).filter fun event =>
      inDatetimeTable env ast event = datetime).length ≤ tableCapacity datetime := by
  have hlength := (h datetime).length_eq
  rw [(image_of_hbasm hfile).2 datetime, List.length_take, placedIn, List.length_map] at hlength
  -- the clauses that went to the table are among those that belong into it
  have hsub : (events ast.blocks).filter (fun event => tableOf env ast.blocks event = some datetime)
      = ((events ast.blocks).filter fun event => inDatetimeTable env ast event = datetime).filter
          fun event => tableOf env ast.blocks event = some datetime := by
    rw [List.filter_filter]
    apply List.filter_congr
    intro event _
    by_cases htable : tableOf env ast.blocks event = some datetime
    · simp [htable, Asm.tableOf_eq htable]
    · simp [htable]
  have hle := List.length_filter_le (fun event => tableOf env ast.blocks event = some datetime)
    ((events ast.blocks).filter fun event => inDatetimeTable env ast event = datetime)
  rw [hsub] at hlength
  have hsame := List.filter_sublist.eq_of_length (by omega :
    (((events ast.blocks).filter fun event => inDatetimeTable env ast event = datetime).filter
      fun event => tableOf env ast.blocks event = some datetime).length = _)
  refine ⟨?_, by omega⟩
  intro event hevent hin
  have hall := List.filter_eq_self.mp hsame event
    (List.mem_filter.mpr ⟨hevent, decide_eq_true hin⟩)
  exact of_decide_eq_true hall

/-- **When an image is complete**: a program that the assembler does not reject is
translated completely exactly when every clause is translatable and the tables have room. -/
theorem complete_iff (env : Environment) (ast : HbaDoc) :
    (∀ file, hbasm env ast = .ok file → Complete env ast file)
      ↔ (Resolves env ast.blocks → Assemblable env ast) := by
  constructor
  · intro h hresolves
    obtain ⟨file, hfile⟩ := hbasm_ok_iff.mpr hresolves
    have hcomplete := h file hfile
    refine ⟨?_, fun datetime => (placed_of_complete hfile hcomplete datetime).2⟩
    intro event hevent
    obtain ⟨hplaced, hroom⟩ :=
      placed_of_complete hfile hcomplete (inDatetimeTable env ast event)
    have htable := hplaced event hevent rfl
    have hrecords := hcomplete (inDatetimeTable env ast event)
    rw [(image_of_hbasm hfile).1, imageTransitions_eq hfile hplaced hroom,
      List.forall₂_map_right_iff, List.forall₂_same] at hrecords
    have hdenotes := hrecords event (List.mem_filter.mpr ⟨hevent, decide_eq_true rfl⟩)
    exact (denotes_recordOf_iff (clauseResolves_of_event hresolves event hevent)
      (by rw [htable]; rfl)).mp hdenotes
  · intro h file hfile datetime
    have hresolves := hbasm_ok_iff.mp ⟨file, hfile⟩
    obtain ⟨hclauses, hroom⟩ := h hresolves
    have hplaced : ∀ event ∈ events ast.blocks, inDatetimeTable env ast event = datetime →
        tableOf env ast.blocks event = some datetime :=
      fun event hevent hin => hin ▸ (hclauses event hevent).tableOf_eq
    rw [(image_of_hbasm hfile).1, imageTransitions_eq hfile hplaced (hroom datetime),
      List.forall₂_map_right_iff, List.forall₂_same]
    intro event hevent
    have hmem := (List.mem_filter.mp hevent).1
    exact (denotes_recordOf_iff (clauseResolves_of_event hresolves event hmem)
      (by rw [(hclauses event hmem).tableOf_eq]; rfl)).mpr (hclauses event hmem)

/-- A state whose condition stands behind it. -/
def lateCondition : HbaDoc where
  targetIp := ⟨List.replicate 32 0, length_zeroDigits⟩
  deviceName := []
  machineId := []
  startState := "idle"
  blocks := [
    .state ⟨1, "idle", [⟨2, "late", 1, 0, "idle", "idle"⟩], 0⟩,
    .condition ⟨3, "late", .timeout 5, 0⟩]

def lateMaps : Maps where
  statesBin := []
  transDtBin := []
  conditionsBin := [(0, ⟨localhostIp, 0, hxbSmTimestampOp, DataType.timestamp.code,
    unionOf 5 (Block.zero 4)⟩)]
  stateIndex := 1

/-- The assembler accepts it and drops the clause. -/
theorem lateCondition_incomplete :
    let env : Environment := ⟨fun _ => some .uint32, id, id, fun _ => Block.zero 4⟩
    ∃ file, hbasm env lateCondition = .ok file ∧ (events lateCondition.blocks).length = 1 ∧
      (∀ datetime, imageTransitions file datetime = []) ∧ ¬ Complete env lateCondition file := by
  intro env
  refine ⟨(ipBytes lateCondition.targetIp).val ++ (devName []).val ++ (machineIdBytes []).val
    ++ generatorFlash lateMaps, rfl, rfl, ?_, ?_⟩
  · intro datetime
    cases datetime <;> decide +kernel
  · intro h
    have hlength := (h false).length_eq
    revert hlength
    decide +kernel

end Hexabus.Asm
