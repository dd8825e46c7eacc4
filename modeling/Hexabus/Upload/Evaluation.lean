import Hexabus.Asm.Meaning
import Hexabus.Asm.NameResolution
import Hexabus.Firmware.InputOrder
import Hexabus.Upload.Abort

/-!
# One evaluation

The firmware's search of a transition table, on the records that the assembler has made, is the
trial of the program's clauses: it evaluates each condition as it is meant, takes the clause that
the program takes, and sets the endpoint that the program sets.
-/

namespace Hexabus.Upload

open Lib.Bytes Lib.Store Lib.Runs Asm Firmware

/-! ## Programs the device can run -/

/-- A condition that means what it says: a value is not compared as a date or as a time, and a
date-time condition has the bits that the assembler's language has. -/
def Plain (env : Environment) : HbaCond → Prop
  | .eidvalue _ eid _ _ => env.datatypes eid ≠ some .datetime ∧ env.datatypes eid ≠ some .timestamp
  | .timeout _ => True
  | .datetime field op _ => field &&& 0x80 = 0 ∧ (op = 0 ∨ op = 0x80)

/-- The device has room for the program, and every name denotes one block of its kind. -/
structure Runnable (env : Environment) (ast : HbaDoc) : Prop where
  assemblable : Assemblable env ast
  names : WellNamed ast.blocks
  conditions : (conditionDocs ast.blocks).length ≤ conditionCapacity
  plain : ∀ doc ∈ conditionDocs ast.blocks, Plain env doc.cond
  state : stateDocs ast.blocks ≠ []

/-- Writing the endpoint does not stop or start the machine and leaves its tables alone. -/
def LeavesMachine {δ : Type} (chain : EndpointChain (Dev δ)) (eid : UInt32) : Prop :=
  ∀ envelope dev eeprom, SameArea (chain.endpointWrite eid envelope ⟨dev, eeprom, []⟩).2.eeprom eeprom ∧
    ∀ call ∈ (chain.endpointWrite eid envelope ⟨dev, eeprom, []⟩).2.calls, ∃ e, call = .broadcast e

/-- What happens to the device besides: no other device is reset that runs the same program, and
the tables are not written. -/
def Ordinary {δ : Type} (ast : HbaDoc) (image : Mem) : Step δ → Prop
  | .info envelope => ¬ (envelope.eid = epSmResetId ∧
      envelope.value.datatype = DataType.bytes16.code ∧ envelope.src_ip ≠ localhost ∧
      envelope.value.blob.take 16 = (machineIdBytes ast.machineId).val)
  | .device _ eeprom => SameArea eeprom image
  | _ => True

/-! ## Values -/

@[simp] theorem v_u32_unionOf (datatype : UInt8) (v : UInt32) (rest : Block 4) :
    (HxbValue.mk datatype (unionOf v rest) []).v_u32 = v := by
  have htake : (leBytes 4 v.toNat ++ rest.val).take 4 = leBytes 4 v.toNat := by
    rw [List.take_append_of_le_length (by rw [length_leBytes]), List.take_of_length_le]
    rw [length_leBytes]
  show UInt32.ofNat (ofLe ((leBytes 4 v.toNat ++ rest.val).take 4)) = v
  rw [htake, uint32_ofLe_leBytes]

@[simp] theorem v_u8_unionOf (datatype : UInt8) (v : UInt32) (rest : Block 4) :
    (HxbValue.mk datatype (unionOf v rest) []).v_u8 = v.toUInt8 := by
  apply UInt8.toNat_inj.mp
  show (UInt8.ofNat (v.toNat % 256)).toNat = v.toUInt8.toNat
  rw [UInt8.toNat_ofNat', UInt32.toNat_toUInt8]
  exact Nat.mod_mod _ _

theorem or_and_distrib (a b c : UInt8) : (a ||| b) &&& c = (a &&& c) ||| (b &&& c) :=
  UInt8.toBitVec_inj.mp BitVec.and_or_distrib_right

/-- The operator of a date-time condition is a bit of its own beside the field. -/
theorem datetimeField_or {field op : UInt8} (hfield : field &&& 0x80 = 0) (hop : op = 0 ∨ op = 0x80)
    (dt : HxbDatetime) :
    datetimeField (field ||| op) dt = datetimeField field dt ∧
      ((field ||| op) &&& 0x80 ≠ 0 ↔ op = 0x80) := by
  have hbit : ∀ bit : UInt8, bit &&& 0x80 = 0 → (field ||| op) &&& bit = field &&& bit := by
    intro bit hbit
    rcases hop with rfl | rfl
    · rw [UInt8.or_zero]
    · rw [or_and_distrib, UInt8.and_comm 0x80, hbit, UInt8.or_zero]
  refine ⟨?_, ?_⟩
  · unfold datetimeField
    simp only [hbit 0x01 rfl, hbit 0x02 rfl, hbit 0x04 rfl, hbit 0x08 rfl, hbit 0x10 rfl,
      hbit 0x20 rfl, hbit 0x40 rfl]
  · rcases hop with rfl | rfl
    · rw [UInt8.or_zero, hfield]
      decide
    · rw [or_and_distrib, hfield]
      decide

/-! ## Conditions -/

section

variable {δ : Type} {env : Environment} {ast : HbaDoc} {maps : Maps} {m : Machine δ} {s : Fw δ}

/-- The table that is searched. -/
def isTick : Occasion → Bool
  | .tick => true
  | _ => false

/-- The envelope that the conditions are evaluated on. -/
def Shows (m : Machine δ) (envelope : Option HxbEnvelope) : Occasion → Prop
  | .input e => envelope = some e
  | .tick => ∃ e, envelope = some e ∧ e.value.datatype = DataType.datetime.code ∧
      e.value.v_datetime = m.currentDt
  | .up => envelope = none

/-- The firmware evaluates the record of a condition as the condition is meant. -/
theorem eval_conditionOf {doc : ConditionDoc} {k : UInt8} {envelope : Option HxbEnvelope}
    {occasion : Occasion} (hk : k ≠ trueCondIndex)
    (hrecord : smGetCondition s.eeprom k = conditionOf env k.toNat doc)
    (hresolves : ConditionResolves env doc) (hplain : Plain env doc.cond)
    (hshows : Shows m envelope occasion)
    (htable : ((conditionOf env k.toNat doc).datatype = DataType.datetime.code) =
      (isTick occasion = true))
    (htimestamp : s.timestamp = m.timestamp) (hsince : s.inStateSince = m.since)
    (hvalid : isTick occasion = true → s.dtValid = m.timeValid) :
    eval s k envelope = doc.cond.holds env m occasion := by
  unfold eval
  rw [if_neg hk]
  unfold conditionOf at hrecord htable
  unfold ConditionResolves at hresolves
  cases hcond : doc.cond with
  | eidvalue address eid op value =>
    rw [hcond] at hrecord htable hresolves hplain
    obtain ⟨datatype, hdatatype⟩ := Option.isSome_iff_exists.mp hresolves
    simp only [hdatatype, Option.getD_some] at hrecord htable
    have hne : datatype.code ≠ DataType.datetime.code := fun h =>
      hplain.1 (by rw [hdatatype, DataType.code_injective h])
    have hne' : datatype.code ≠ DataType.timestamp.code := fun h =>
      hplain.2 (by rw [hdatatype, DataType.code_injective h])
    cases occasion with
    | tick => exact absurd (htable.mpr rfl) hne
    | up =>
      rw [show envelope = none from hshows]
      rfl
    | input e =>
      rw [show envelope = some e from hshows]
      simp only [hrecord, hne, hne', or_self, not_false_eq_true, true_and, and_true, HbaCond.holds,
        hdatatype]
      have hvalue : evalValue s (smGetCondition s.eeprom k) e =
          compareValue datatype op e.value (env.readValue datatype value) := by
        unfold evalValue compareValue
        rw [hrecord]
        simp only [DataType.ofCode_code]
        cases datatype <;> simp [Condition.value, HxbValue.v_float] at hne hne' ⊢
      rw [← hvalue, hrecord]
      by_cases haddress : ipBytes address = Block.zero 16 ∨ ipBytes address = e.src_ip
      · have hsender : ¬ (¬ ipBytes address = Block.zero 16 ∧ ipBytes address ≠ e.src_ip) := by
          rintro ⟨hany, hother⟩
          exact haddress.elim hany hother
        have hfrom : (decide (ipBytes address = Block.zero 16) ||
            decide (ipBytes address = e.src_ip)) = true := by simpa using haddress
        rw [if_neg hsender, hfrom, Bool.true_and]
        by_cases heid : eid = e.eid
        · rw [if_neg (not_not.mpr heid), decide_eq_true heid, Bool.true_and]
          by_cases htype : e.value.datatype = datatype.code
          · rw [if_neg fun h => h.1 htype, decide_eq_true htype, Bool.true_and]
          · rw [if_pos ⟨htype, hne'⟩, decide_eq_false htype, Bool.false_and]
        · rw [if_pos heid, decide_eq_false heid, Bool.false_and, Bool.false_and]
      · obtain ⟨hany, hother⟩ := not_or.mp haddress
        rw [if_pos ⟨hany, hother⟩, decide_eq_false hany, decide_eq_false hother]
        rfl
  | timeout seconds =>
    rw [hcond] at hrecord htable
    cases occasion with
    | tick =>
      have htimestamp := htable.mpr rfl
      cases htimestamp
    | up =>
      rw [show envelope = none from hshows]
      rfl
    | input e =>
      rw [show envelope = some e from hshows]
      simp [hrecord, HbaCond.holds, evalValue, Condition.value, DataType.ofCode_code, htimestamp,
        hsince]
  | datetime field op value =>
    rw [hcond] at hrecord htable hplain
    have htick : isTick occasion = true := htable.mp rfl
    cases occasion with
    | input e => cases htick
    | up => cases htick
    | tick =>
      obtain ⟨e, rfl, hdatatype, hdt⟩ := hshows
      obtain ⟨hfield, hafter⟩ := datetimeField_or hplain.1 hplain.2 m.currentDt
      simp only [hrecord, HbaCond.holds, evalValue, Condition.value, DataType.ofCode_code, hdatatype,
        hdt, hfield, hafter, hvalid htick, v_u32_unionOf]
      cases m.timeValid with
      | false => simp
      | true =>
        cases datetimeField field m.currentDt with
        | none => simp
        | some value => simp

/-! ## Clauses -/

/-- The clause of an event, with the name of the state that the event numbers. -/
structure Reads (ast : HbaDoc) (event : Event) (entry : String × IfClauseDoc) : Prop where
  state : StateNamed ast event.source entry.1
  clause : event.clause = entry.2

theorem reads_eventsFrom {blocks : List HbaDocBlock} {stateId conditionId : Nat}
    (h : stateDocs blocks = (stateDocs ast.blocks).drop stateId) :
    List.Forall₂ (Reads ast) (eventsFrom stateId conditionId blocks) (clausesOf blocks) := by
  induction blocks generalizing stateId conditionId with
  | nil => exact .nil
  | cons block blocks ih =>
    cases block with
    | condition doc => exact ih h
    | state doc =>
      have hlt : stateId < (stateDocs ast.blocks).length := by
        by_contra hge
        rw [List.drop_eq_nil_iff.mpr (Nat.le_of_not_lt hge)] at h
        cases h
      rw [stateDocs_state, List.drop_eq_getElem_cons hlt] at h
      obtain ⟨hdoc, hrest⟩ := List.cons.inj h
      have hnamed : StateNamed ast stateId doc.name := by
        unfold StateNamed
        rw [List.getElem?_eq_getElem hlt, ← hdoc]
        rfl
      refine List.rel_append (R := Reads ast) ?_ (ih hrest)
      rw [List.forall₂_map_left_iff, List.forall₂_map_right_iff, List.forall₂_same]
      exact fun clause _ => ⟨hnamed, rfl⟩

theorem reads_events (ast : HbaDoc) :
    List.Forall₂ (Reads ast) (events ast.blocks) (clausesOf ast.blocks) :=
  reads_eventsFrom rfl

/-- A state has one number. -/
theorem stateNamed_inj (hnames : WellNamed ast.blocks) {i j : Nat} {name name' : String}
    (hi : StateNamed ast i name) (hj : StateNamed ast j name') : name = name' ↔ i = j := by
  obtain ⟨doc, hdoc, rfl⟩ := Option.map_eq_some_iff.mp hi
  obtain ⟨doc', hdoc', rfl⟩ := Option.map_eq_some_iff.mp hj
  obtain ⟨hlt, rfl⟩ := List.getElem?_eq_some_iff.mp hdoc
  obtain ⟨hlt', rfl⟩ := List.getElem?_eq_some_iff.mp hdoc'
  have hinj := @List.Nodup.getElem_inj_iff _ _ hnames.stateNames i
    (by rwa [List.length_map]) j (by rwa [List.length_map])
  rw [List.getElem_map, List.getElem_map] at hinj
  exact hinj

/-- A condition is found under its name. -/
theorem find_condition (hnames : WellNamed ast.blocks) {i : Nat} {doc : ConditionDoc}
    {name : String} (hdoc : (conditionDocs ast.blocks)[i]? = some doc) (hname : doc.name = name) :
    (conditionDocs ast.blocks).find? (fun d => d.name = name) = some doc := by
  have hmem := List.mem_of_getElem? hdoc
  cases hfind : (conditionDocs ast.blocks).find? fun d => d.name = name with
  | none => exact absurd hname (by simpa using List.find?_eq_none.mp hfind doc hmem)
  | some d =>
    have hd := List.mem_of_find?_eq_some hfind
    have hdname : d.name = name := by simpa using List.find?_some hfind
    rw [List.inj_on_of_nodup_map hnames.conditionNames hd hmem (hdname.trans hname.symm)]

theorem seen_le {stateId conditionId : Nat} {blocks : List HbaDocBlock} {event : Event}
    (h : event ∈ eventsFrom stateId conditionId blocks) :
    event.seen ≤ conditionId + (conditionDocs blocks).length := by
  induction blocks generalizing stateId conditionId with
  | nil => exact absurd h List.not_mem_nil
  | cons block blocks ih =>
    cases block with
    | condition doc =>
      rw [conditionDocs_condition, List.length_cons]
      have hle := ih h
      omega
    | state doc =>
      rcases List.mem_append.mp h with h | h
      · obtain ⟨clause, -, rfl⟩ := List.mem_map.mp h
        exact Nat.le_add_right _ _
      · exact ih h

/-! ## The records of the clauses -/

variable {event : Event}

/-- What stands in the tables: a clause for every event. -/
theorem Runnable.bin_eq (h : Runnable env ast) (hmaps : emitted env ast = .ok maps)
    (datetime : Bool) : (maps.bin datetime).map Prod.snd =
      ((events ast.blocks).filter fun event => inDatetimeTable env ast event = datetime).map
        (recordOf env ast.blocks) := by
  rw [(emitted_records hmaps).2, placedIn_eq]
  intro event hevent hin
  rw [← hin]
  exact (h.assemblable.clauses event hevent).tableOf_eq

/-- The condition of a clause: it has a number below the capacity of the table. -/
theorem Runnable.condition (h : Runnable env ast) (hevent : event ∈ events ast.blocks)
    (hname : event.clause.name ≠ "true") : ∃ k doc, conditionNumber ast.blocks event.clause = k ∧
      k < conditionCapacity ∧ (conditionDocs ast.blocks)[k]? = some doc ∧
      doc.name = event.clause.name := by
  obtain ⟨k, hk, hseen, -, hnamed⟩ := (h.assemblable.clauses event hevent).cond hname
  have hle := seen_le hevent
  have hcapacity := h.conditions
  have hlt : k < conditionCapacity := by omega
  have hmod : k % 256 = k := Nat.mod_eq_of_lt (Nat.lt_trans hlt (by decide))
  rw [hmod] at hnamed
  obtain ⟨doc, hdoc, hdocName⟩ := Option.map_eq_some_iff.mp hnamed
  refine ⟨k, doc, ?_, hlt, hdoc, hdocName⟩
  rw [conditionNumber, if_pos hname, hk, Option.getD_some]

theorem conditionResolves_of_getElem {k : Nat} {doc : ConditionDoc}
    (h : Resolves env ast.blocks) (hdoc : (conditionDocs ast.blocks)[k]? = some doc) :
    ConditionResolves env doc := by
  obtain ⟨block, hblock, hsome⟩ := List.mem_filterMap.mp (List.mem_of_getElem? hdoc)
  cases block with
  | state doc' => cases hsome
  | condition doc' =>
    cases hsome
    exact h _ hblock

/-- **A clause on its occasion**: the firmware evaluates the condition of the record as that of
the clause. -/
theorem eval_recordOf (h : Runnable env ast) (hmaps : emitted env ast = .ok maps)
    (hagrees : Agrees s.eeprom ast maps) (hevent : event ∈ events ast.blocks)
    {occasion : Occasion} (htable : inDatetimeTable env ast event = isTick occasion)
    {envelope : Option HxbEnvelope} (hshows : Shows m envelope occasion)
    (htimestamp : s.timestamp = m.timestamp) (hsince : s.inStateSince = m.since)
    (hvalid : isTick occasion = true → s.dtValid = m.timeValid) :
    eval s (recordOf env ast.blocks event).cond envelope =
      m.holds env ast occasion event.clause := by
  unfold Machine.holds
  by_cases hname : event.clause.name = "true"
  · have hcond : (recordOf env ast.blocks event).cond = trueCondIndex := by
      show UInt8.ofNat (conditionNumber ast.blocks event.clause) = _
      rw [conditionNumber, if_neg (not_not.mpr hname)]
      rfl
    have hplain : isTick occasion = false := by
      rw [← htable, inDatetimeTable, hname]
      rfl
    unfold eval
    rw [if_pos hcond, if_pos hname]
    cases occasion with
    | input e => rfl
    | up => rfl
    | tick => cases hplain
  · obtain ⟨k, doc, hnumber, hlt, hdoc, hdocName⟩ := h.condition hevent hname
    obtain ⟨hconditions, -⟩ := emitted_records hmaps
    have hnat : (UInt8.ofNat k).toNat = k :=
      UInt8.toNat_ofNat_of_lt' (Nat.lt_trans hlt (by decide))
    have hcond : (recordOf env ast.blocks event).cond = UInt8.ofNat k := by
      show UInt8.ofNat (conditionNumber ast.blocks event.clause) = _
      rw [hnumber]
    have hentry : maps.conditionsBin[k]? = some (k, conditionOf env k doc) := by
      rw [hconditions, getElem?_conditionEntries, hdoc, Nat.zero_add]
      rfl
    obtain ⟨hk, hget⟩ := List.getElem?_eq_some_iff.mp hentry
    have hrecord : smGetCondition s.eeprom (UInt8.ofNat k) =
        conditionOf env (UInt8.ofNat k).toNat doc := by
      rw [hagrees.condition k hk, hget, hnat]
    have hne : UInt8.ofNat k ≠ trueCondIndex := by
      intro heq
      have htrue := congrArg UInt8.toNat heq
      rw [hnat] at htrue
      have hcapacity : conditionCapacity ≤ trueCondIndex.toNat := by decide
      omega
    have hdatetime : ((conditionOf env (UInt8.ofNat k).toNat doc).datatype =
        DataType.datetime.code) = (isTick occasion = true) := by
      rw [← htable, inDatetimeTable, hnumber, isDatetime, hdoc, hnat]
      simp [hname]
    rw [if_neg hname, find_condition h.names hdoc hdocName, hcond]
    exact eval_conditionOf hne hrecord
      (conditionResolves_of_getElem (emitted_ok_iff.mp hmaps).1 hdoc)
      (h.plain doc (List.mem_of_getElem? hdoc)) hshows hdatetime htimestamp hsince hvalid

/-- A clause of the other table does not hold on the occasion. -/
theorem not_holds_of_table (h : Runnable env ast) (hmaps : emitted env ast = .ok maps)
    (hevent : event ∈ events ast.blocks) {occasion : Occasion}
    (htable : inDatetimeTable env ast event ≠ isTick occasion) :
    m.holds env ast occasion event.clause = false := by
  unfold Machine.holds
  by_cases hname : event.clause.name = "true"
  · rw [inDatetimeTable, hname] at htable
    rw [if_pos hname]
    cases occasion with
    | input e => exact absurd rfl htable
    | up => exact absurd rfl htable
    | tick => rfl
  · obtain ⟨k, doc, hnumber, -, hdoc, hdocName⟩ := h.condition hevent hname
    have hresolves := conditionResolves_of_getElem (emitted_ok_iff.mp hmaps).1 hdoc
    have hplain := h.plain doc (List.mem_of_getElem? hdoc)
    have hdatetime : inDatetimeTable env ast event =
        decide ((conditionOf env k doc).datatype = DataType.datetime.code) := by
      rw [inDatetimeTable, hnumber, isDatetime, hdoc]
      simp [hname]
    rw [hdatetime] at htable
    rw [if_neg hname, find_condition h.names hdoc hdocName]
    show doc.cond.holds env m occasion = false
    unfold ConditionResolves at hresolves
    unfold conditionOf at htable
    cases hcond : doc.cond with
    | eidvalue address eid op value =>
      rw [hcond] at htable hresolves hplain
      obtain ⟨datatype, hdatatype⟩ := Option.isSome_iff_exists.mp hresolves
      have hne : datatype.code ≠ DataType.datetime.code := fun h =>
        hplain.1 (by rw [hdatatype, DataType.code_injective h])
      simp only [hdatatype, Option.getD_some, decide_eq_false hne] at htable
      cases occasion with
      | input e => exact absurd rfl htable
      | up => rfl
      | tick => rfl
    | timeout seconds =>
      rw [hcond] at htable
      cases occasion with
      | input e => exact absurd rfl htable
      | up => rfl
      | tick => rfl
    | datetime field op value =>
      rw [hcond] at htable
      cases occasion with
      | input e => rfl
      | up => rfl
      | tick => exact absurd rfl htable

end

/-! ## One evaluation -/

section

variable {δ : Type} {env : Environment} {ast : HbaDoc} {maps : Maps} {image : Mem}
  {chain : EndpointChain (Dev δ)} {loc : Locals} {m : Machine δ} {s : Fw δ}

/-- The loop over a table, on the list of its records. -/
def searchRecords (write : UInt32 → HxbEnvelope → Fw δ → ErrorCode × Fw δ) (eidEnv : HxbEnvelope)
    (envelope : Option HxbEnvelope) : List Transition → Fw δ → Fw δ
  | [], s => s
  | t :: ts, s =>
    if matchesTransition s envelope t then
      if hasAction t then fireAction write eidEnv t s
      else searchRecords write eidEnv envelope ts (enterState s t.goodState)
    else searchRecords write eidEnv envelope ts s

theorem checkTransitions_eq_search (write : UInt32 → HxbEnvelope → Fw δ → ErrorCode × Fw δ)
    (eidEnv : HxbEnvelope) (datetime : Bool) (envelope : Option HxbEnvelope) {ts : List Transition}
    {i : Nat} {s : Fw δ}
    (h : ∀ j t, ts[j]? = some t → smGetTransition s.eeprom datetime (UInt8.ofNat (i + j)) = t) :
    (checkTransitions write eidEnv datetime envelope ts.length i s).1 =
      searchRecords write eidEnv envelope ts s := by
  induction ts generalizing i s with
  | nil => rfl
  | cons t ts ih =>
    have hfirst := h 0 t rfl
    have hrest : ∀ j t', ts[j]? = some t' →
        smGetTransition s.eeprom datetime (UInt8.ofNat (i + 1 + j)) = t' := by
      intro j t' hj
      rw [Nat.add_assoc, Nat.add_comm 1 j]
      exact h (j + 1) t' hj
    rw [Nat.add_zero] at hfirst
    rw [List.length_cons, checkTransitions, hfirst, searchRecords]
    simp only
    split
    · split
      · rfl
      · exact ih hrest
    · exact ih hrest

/-- The device is the one that the program sees, and its tables are the image's. -/
structure SameDevice (image : Mem) (s : Fw δ) (m : Machine δ) : Prop where
  dev : s.dev = m.dev
  eeprom : s.eeprom = m.eeprom
  timestamp : s.timestamp = m.timestamp
  currentDt : s.currentDt = m.currentDt
  timeValid : s.timeValid = m.timeValid
  since : s.inStateSince = m.since
  area : SameArea s.eeprom image

/-- What an evaluation leaves alone. -/
structure KeepsKernel (s s' : Fw δ) : Prop where
  pstate : s'.pstate = s.pstate
  transLength : s'.transLength = s.transLength
  dtTransLength : s'.dtTransLength = s.dtTransLength
  smHandleInputEvent : s'.smHandleInputEvent = s.smHandleInputEvent
  udpHandlerEvent : s'.udpHandlerEvent = s.udpHandlerEvent
  lastevent : s'.lastevent = s.lastevent

theorem KeepsKernel.refl (s : Fw δ) : KeepsKernel s s := ⟨rfl, rfl, rfl, rfl, rfl, rfl⟩

theorem KeepsKernel.trans {s s' s'' : Fw δ} (h : KeepsKernel s s') (h' : KeepsKernel s' s'') :
    KeepsKernel s s'' :=
  ⟨h'.pstate.trans h.pstate, h'.transLength.trans h.transLength,
    h'.dtTransLength.trans h.dtTransLength,
    h'.smHandleInputEvent.trans h.smHandleInputEvent,
    h'.udpHandlerEvent.trans h.udpHandlerEvent, h'.lastevent.trans h.lastevent⟩

/-- While its thread runs, the machine takes no other value. -/
theorem callProcess_called {n : Nat} {ev : UInt8} {data : EventData} (h : s.pstate = .called) :
    ∃ overflow, callProcess chain loc n ev data s = { s with stackOverflow := overflow } := by
  cases n with
  | zero => exact ⟨true, rfl⟩
  | succ n =>
    have hcalled : s.pstate ≠ .running := by
      rw [h]
      decide
    exact ⟨s.stackOverflow, callProcess_refused hcalled⟩

theorem broadcastValue_called {n : Nat} {eid : UInt32} (h : s.pstate = .called) :
    ∃ log overflow, broadcastValue chain loc (callProcess chain loc n) eid s =
      { s with log := log, stackOverflow := overflow } := by
  unfold broadcastValue
  simp only
  split
  · exact ⟨s.log, s.stackOverflow, rfl⟩
  · obtain ⟨overflow, hcall⟩ := @callProcess_called δ chain loc
      (note (.handed ⟨localhost, 0, eid, (chain.endpointRead eid { loc.value with blob := [] }
        ⟨s.dev, s.eeprom, []⟩).2⟩) s) n s.smHandleInputEvent (.input _) h
    exact ⟨_, overflow, hcall⟩

theorem foldl_runCall_called {n : Nat} {calls : List SelfCall} (h : s.pstate = .called)
    (hcalls : ∀ call ∈ calls, ∃ e, call = .broadcast e) :
    ∃ log overflow, calls.foldl (runCall chain loc (callProcess chain loc n)) s =
      { s with log := log, stackOverflow := overflow } := by
  induction calls generalizing s with
  | nil => exact ⟨s.log, s.stackOverflow, rfl⟩
  | cons call calls ih =>
    obtain ⟨e, rfl⟩ := hcalls call List.mem_cons_self
    obtain ⟨log, overflow, hcall⟩ :=
      @broadcastValue_called δ chain loc s n e h
    rw [List.foldl_cons]
    show ∃ log overflow, calls.foldl _ (broadcastValue chain loc (callProcess chain loc n) e s) = _
    rw [hcall]
    obtain ⟨log', overflow', hrest⟩ := @ih { s with log := log, stackOverflow := overflow } h
      fun call hcall => hcalls call (List.mem_cons_of_mem _ hcall)
    exact ⟨log', overflow', hrest⟩

/-- An endpoint is written while the thread runs. -/
theorem writeEndpoint_called {n : Nat} {eid : UInt32} {envelope : HxbEnvelope}
    (hcalled : s.pstate = .called) (hleaves : LeavesMachine chain eid) :
    ∃ log overflow, writeEndpoint chain loc (callProcess chain loc n) eid envelope s =
      ((chain.endpointWrite eid envelope ⟨s.dev, s.eeprom, []⟩).1,
        { s with
          dev := (chain.endpointWrite eid envelope ⟨s.dev, s.eeprom, []⟩).2.dev
          eeprom := (chain.endpointWrite eid envelope ⟨s.dev, s.eeprom, []⟩).2.eeprom
          log := log
          stackOverflow := overflow }) := by
  obtain ⟨log, overflow, hcalls⟩ := @foldl_runCall_called δ chain loc
    { s with
      dev := (chain.endpointWrite eid envelope ⟨s.dev, s.eeprom, []⟩).2.dev
      eeprom := (chain.endpointWrite eid envelope ⟨s.dev, s.eeprom, []⟩).2.eeprom } n _ hcalled
    (hleaves envelope s.dev s.eeprom).2
  refine ⟨log, overflow, ?_⟩
  unfold writeEndpoint
  simp only
  rw [hcalls]

/-- The machine and the program stand in the same state of the same device. -/
structure Mirrors (ast : HbaDoc) (image : Mem) (s : Fw δ) (m : Machine δ) : Prop
    extends SameDevice image s m where
  state : StateNamed ast s.curState.toNat m.state

theorem Mirrors.note (h : Mirrors ast image s m) (entry : Entry) :
    Mirrors ast image (note entry s) m :=
  ⟨⟨h.dev, h.eeprom, h.timestamp, h.currentDt, h.timeValid, h.since, h.area⟩, h.state⟩

theorem KeepsKernel.note {s' : Fw δ} (h : KeepsKernel s s') (entry : Entry) :
    KeepsKernel s (note entry s') :=
  ⟨h.pstate, h.transLength, h.dtTransLength, h.smHandleInputEvent, h.udpHandlerEvent, h.lastevent⟩

/-- A clause that sets an endpoint. -/
theorem fireAction_mirrors {n : Nat} {event : Event} (hmirrors : Mirrors ast image s m)
    (hcalled : s.pstate = .called) (hleaves : LeavesMachine chain event.clause.eid)
    (hgood : StateNamed ast (recordOf env ast.blocks event).goodState.toNat event.clause.goodstate)
    (hbad : StateNamed ast (recordOf env ast.blocks event).badState.toNat event.clause.badstate) :
    Mirrors ast image (fireAction (writeEndpoint chain loc (callProcess chain loc n)) loc.eidEnv
        (recordOf env ast.blocks event) s) (m.set env chain loc event.clause) ∧
      KeepsKernel s (fireAction (writeEndpoint chain loc (callProcess chain loc n)) loc.eidEnv
        (recordOf env ast.blocks event) s) := by
  have henvelope : actionEnvelope loc.eidEnv (recordOf env ast.blocks event) =
      setEnvelope env loc event.clause := rfl
  have heid : (recordOf env ast.blocks event).eid = event.clause.eid := rfl
  obtain ⟨log, overflow, hwrite⟩ := @writeEndpoint_called δ chain loc s n event.clause.eid
    (setEnvelope env loc event.clause) hcalled hleaves
  have harea := (hleaves (setEnvelope env loc event.clause) s.dev s.eeprom).1.trans hmirrors.area
  unfold fireAction Machine.set
  rw [henvelope, heid, hwrite, ← hmirrors.dev, ← hmirrors.eeprom]
  simp only
  split
  · exact ⟨⟨⟨rfl, rfl, hmirrors.timestamp, hmirrors.currentDt, hmirrors.timeValid,
      hmirrors.timestamp, harea⟩, hgood⟩, rfl, rfl, rfl, rfl, rfl, rfl⟩
  · exact ⟨⟨⟨rfl, rfl, hmirrors.timestamp, hmirrors.currentDt, hmirrors.timeValid,
      hmirrors.timestamp, harea⟩, hbad⟩, rfl, rfl, rfl, rfl, rfl, rfl⟩

/-- A clause that sets nothing. -/
theorem hasAction_recordOf (event : Event) :
    hasAction (recordOf env ast.blocks event) = !env.setsNothing event.clause := by
  show (event.clause.eid != 0 || (env.setType event.clause).code != 0) = _
  unfold Environment.setsNothing
  cases env.setType event.clause <;> by_cases heid : event.clause.eid = 0 <;> simp [heid] <;> decide

/-- The search of the table is the trial of the clauses. -/
theorem searchRecords_mirrors {n : Nat} (hrun : Runnable env ast)
    (hmaps : emitted env ast = .ok maps)
    (hagrees : ∀ eeprom, SameArea eeprom image → Agrees eeprom ast maps)
    (hleaves : ∀ event ∈ events ast.blocks, LeavesMachine chain event.clause.eid)
    {occasion : Occasion} {envelope : Option HxbEnvelope} {es : List Event}
    {entries : List (String × IfClauseDoc)} (hreads : List.Forall₂ (Reads ast) es entries)
    (hes : ∀ event ∈ es, event ∈ events ast.blocks) (hmirrors : Mirrors ast image s m)
    (hcalled : s.pstate = .called) (hshows : Shows m envelope occasion)
    (hvalid : isTick occasion = true → s.dtValid = m.timeValid) :
    Mirrors ast image
        (searchRecords (writeEndpoint chain loc (callProcess chain loc n)) loc.eidEnv envelope
          ((es.filter fun event => inDatetimeTable env ast event = isTick occasion).map
            (recordOf env ast.blocks)) s)
        (m.tryAll env ast chain loc occasion entries) ∧
      KeepsKernel s
        (searchRecords (writeEndpoint chain loc (callProcess chain loc n)) loc.eidEnv envelope
          ((es.filter fun event => inDatetimeTable env ast event = isTick occasion).map
            (recordOf env ast.blocks)) s) := by
  induction hreads generalizing s m with
  | nil => exact ⟨hmirrors, KeepsKernel.refl s⟩
  | @cons event entry es entries hread hreads ih =>
    obtain ⟨state, clause⟩ := entry
    obtain ⟨hstate, hclause⟩ := hread
    simp only at hstate hclause
    subst hclause
    have hevent : event ∈ events ast.blocks := hes event List.mem_cons_self
    have hrest : ∀ event ∈ es, event ∈ events ast.blocks := fun e he =>
      hes e (List.mem_cons_of_mem _ he)
    rw [Machine.tryAll]
    by_cases htable : inDatetimeTable env ast event = isTick occasion
    · rw [List.filter_cons_of_pos (by simpa using htable), List.map_cons, searchRecords]
      have htranslatable := hrun.assemblable.clauses event hevent
      have hresolves := clauseResolves_of_event (emitted_ok_iff.mp hmaps).1 event hevent
      have hmatches : matchesTransition s envelope (recordOf env ast.blocks event) =
          (decide (state = m.state) && m.holds env ast occasion event.clause) := by
        unfold matchesTransition
        rw [eval_recordOf hrun hmaps (hagrees _ hmirrors.area) hevent htable hshows
          hmirrors.timestamp hmirrors.since hvalid]
        congr 1
        have hsource : (recordOf env ast.blocks event).fromState.toNat = event.source :=
          UInt8.toNat_ofNat_of_lt' htranslatable.source
        rw [Bool.beq_eq_decide_eq, decide_eq_decide,
          stateNamed_inj hrun.names hstate hmirrors.state, ← hsource, UInt8.toNat_inj]
      have hgood := (stateNamed_iff hresolves.good).mpr htranslatable.good
      have hbad := (stateNamed_iff hresolves.bad).mpr htranslatable.bad
      rw [hmatches]
      split
      · rw [hasAction_recordOf]
        cases hnothing : env.setsNothing event.clause with
        | true =>
          -- the clause leads on
          have hnext : Mirrors ast image
              (enterState s (recordOf env ast.blocks event).goodState)
              { m with state := event.clause.goodstate, since := m.timestamp } :=
            ⟨⟨hmirrors.dev, hmirrors.eeprom, hmirrors.timestamp, hmirrors.currentDt,
              hmirrors.timeValid, hmirrors.timestamp, hmirrors.area⟩, hgood⟩
          obtain ⟨hmirrors', hkernel⟩ := ih hrest hnext hcalled hshows hvalid
          exact ⟨hmirrors', hkernel.pstate, hkernel.transLength, hkernel.dtTransLength,
            hkernel.smHandleInputEvent, hkernel.udpHandlerEvent, hkernel.lastevent⟩
        | false => exact fireAction_mirrors hmirrors hcalled (hleaves event hevent) hgood hbad
      · exact ih hrest hmirrors hcalled hshows hvalid
    · rw [List.filter_cons_of_neg (by simpa using htable),
        not_holds_of_table hrun hmaps hevent htable, Bool.and_false]
      exact ih hrest hmirrors hcalled hshows hvalid

end

end Hexabus.Upload
