import Hexabus.Asm.Emission

/-!
# Where the clauses go

The maps of the generator as lists over the clauses of the program, in the order of
the file: which table each clause goes to, or that it goes to none.
-/

namespace Hexabus.Asm

/-- A clause where it stands: in state number `source`, with `seen` condition blocks
before its state. -/
structure Event where
  source : Nat
  seen : Nat
  clause : IfClauseDoc

/-- The clauses of the blocks, in the order of the file, if `stateId` states and
`conditionId` conditions stand before. -/
def eventsFrom : Nat → Nat → List HbaDocBlock → List Event
  | _, _, [] => []
  | stateId, conditionId, .state doc :: blocks =>
    doc.ifClauses.map (fun clause => ⟨stateId, conditionId, clause⟩)
      ++ eventsFrom (stateId + 1) conditionId blocks
  | stateId, conditionId, .condition _ :: blocks => eventsFrom stateId (conditionId + 1) blocks

/-- All clauses of a program. -/
def events (blocks : List HbaDocBlock) : List Event := eventsFrom 0 0 blocks

/-- The condition blocks, numbered and translated. -/
def conditionEntries (env : Environment) : Nat → List ConditionDoc → List (Nat × Condition)
  | _, [] => []
  | id, doc :: docs => (id, conditionOf env id doc) :: conditionEntries env (id + 1) docs

/-- Condition block number `k` compares a date or a time of day. -/
def isDatetime (env : Environment) (blocks : List HbaDocBlock) (k : Nat) : Bool :=
  match (conditionDocs blocks)[k]? with
  | some doc => (conditionOf env k doc).datatype = DataType.datetime.code
  | none => false

/-- The table a clause goes to: the date-time table (`true`), the plain one (`false`),
or none, if fewer condition blocks stand before its state than its condition's number
asks for. -/
def tableOf (env : Environment) (blocks : List HbaDocBlock) (event : Event) : Option Bool :=
  if event.clause.name ≠ "true" then
    if conditionNumber blocks event.clause < event.seen then
      some (isDatetime env blocks (conditionNumber blocks event.clause))
    else none
  else some false

/-- The record of a clause where it stands. -/
def recordOf (env : Environment) (blocks : List HbaDocBlock) (event : Event) : Transition :=
  transitionOf env blocks event.source event.clause

/-- The records that go to one of the tables. -/
def placedIn (env : Environment) (blocks : List HbaDocBlock) (datetime : Bool)
    (es : List Event) : List Transition :=
  (es.filter fun event => tableOf env blocks event = some datetime).map (recordOf env blocks)

theorem placedIn_append (env : Environment) (blocks : List HbaDocBlock) (datetime : Bool)
    (xs ys : List Event) : placedIn env blocks datetime (xs ++ ys)
      = placedIn env blocks datetime xs ++ placedIn env blocks datetime ys := by
  simp [placedIn]

/-! ## The conditions seen so far -/

theorem conditionEntries_append (env : Environment) (id : Nat) (xs ys : List ConditionDoc) :
    conditionEntries env id (xs ++ ys)
      = conditionEntries env id xs ++ conditionEntries env (id + xs.length) ys := by
  induction xs generalizing id with
  | nil => rfl
  | cons doc xs ih =>
    have hplace : id + (doc :: xs).length = id + 1 + xs.length := by
      rw [List.length_cons]
      omega
    rw [hplace]
    exact congrArg _ (ih (id + 1))

theorem lt_of_mem_conditionEntries {env : Environment} {id : Nat} {docs : List ConditionDoc}
    {entry : Nat × Condition} (h : entry ∈ conditionEntries env id docs) :
    entry.1 < id + docs.length := by
  induction docs generalizing id with
  | nil => exact absurd h List.not_mem_nil
  | cons doc docs ih =>
    rw [List.length_cons]
    rcases List.mem_cons.mp h with rfl | h
    · exact Nat.lt_add_of_pos_right (Nat.succ_pos _)
    · have hlt := ih h
      omega

/-- A condition is found in the map by its number. -/
theorem find_conditionEntries (env : Environment) {id k : Nat} (docs : List ConditionDoc)
    (h : id ≤ k) : (conditionEntries env id docs).find? (fun entry => entry.1 = k)
      = docs[k - id]?.map fun doc => (k, conditionOf env k doc) := by
  induction docs generalizing id with
  | nil => rfl
  | cons doc docs ih =>
    by_cases heq : id = k
    · subst heq
      rw [conditionEntries, List.find?_cons_of_pos (by simp), Nat.sub_self]
      rfl
    · have hk : k - id = (k - (id + 1)) + 1 := by omega
      rw [conditionEntries, List.find?_cons_of_neg (by simpa using heq), ih (by omega), hk]
      rfl

/-! ## One clause -/

/-- The maps when `seen` condition blocks have been visited. -/
structure MapsAt (env : Environment) (blocks : List HbaDocBlock) (seen : Nat) (maps : Maps) :
    Prop where
  seen_le : seen ≤ (conditionDocs blocks).length
  conditions : maps.conditionsBin = conditionEntries env 0 ((conditionDocs blocks).take seen)
  keys : ∀ datetime, ∀ entry ∈ maps.bin datetime, entry.1 < maps.stateIndex

theorem MapsAt.empty (env : Environment) (blocks : List HbaDocBlock) :
    MapsAt env blocks 0 Maps.empty := by
  refine ⟨Nat.zero_le _, rfl, ?_⟩
  intro datetime entry hentry
  cases datetime <;> exact absurd hentry List.not_mem_nil

/-- A record goes to a table under a new largest key. -/
theorem bin_insert {maps : Maps} {t : Transition}
    (hkeys : ∀ datetime, ∀ entry ∈ maps.bin datetime, entry.1 < maps.stateIndex) :
    mapInsert maps.stateIndex t maps.statesBin = maps.statesBin ++ [(maps.stateIndex, t)] ∧
      mapInsert maps.stateIndex t maps.transDtBin = maps.transDtBin ++ [(maps.stateIndex, t)] :=
  ⟨mapInsert_append (hkeys false), mapInsert_append (hkeys true)⟩

/-- The visitor's decision is `tableOf`. -/
theorem place_eq {env : Environment} {blocks : List HbaDocBlock} {event : Event} {maps : Maps}
    (h : MapsAt env blocks event.seen maps) :
    placeClause env blocks event.source maps event.clause =
      match tableOf env blocks event with
      | some true => { maps with
          stateIndex := maps.stateIndex + 1
          transDtBin := maps.transDtBin ++ [(maps.stateIndex, recordOf env blocks event)] }
      | some false => { maps with
          stateIndex := maps.stateIndex + 1
          statesBin := maps.statesBin ++ [(maps.stateIndex, recordOf env blocks event)] }
      | none => { maps with stateIndex := maps.stateIndex + 1 } := by
  obtain ⟨hstates, htransDt⟩ := bin_insert (t := recordOf env blocks event) h.keys
  unfold placeClause Maps.place
  by_cases hname : event.clause.name ≠ "true"
  · have hfind := find_conditionEntries env ((conditionDocs blocks).take event.seen)
      (Nat.zero_le (conditionNumber blocks event.clause))
    rw [Nat.sub_zero] at hfind
    simp only [if_pos hname, h.conditions, hfind, tableOf]
    by_cases hseen : conditionNumber blocks event.clause < event.seen
    · obtain ⟨doc, hdoc⟩ : ∃ doc,
          (conditionDocs blocks)[conditionNumber blocks event.clause]? = some doc :=
        ⟨_, List.getElem?_eq_getElem (Nat.lt_of_lt_of_le hseen h.seen_le)⟩
      simp only [List.getElem?_take_of_lt hseen, if_pos hseen, isDatetime, hdoc, Option.map_some]
      by_cases hdt : (conditionOf env (conditionNumber blocks event.clause) doc).datatype
          = DataType.datetime.code
      · simp only [hdt, decide_true, if_true]
        rw [← h.conditions]
        exact congrArg (fun bin => { maps with stateIndex := maps.stateIndex + 1, transDtBin := bin })
          htransDt
      · simp only [hdt, decide_false, if_false]
        rw [← h.conditions]
        exact congrArg (fun bin => { maps with stateIndex := maps.stateIndex + 1, statesBin := bin })
          hstates
    · rw [if_neg hseen, List.getElem?_eq_none (by simp; omega)]
      rfl
  · simp only [if_neg hname, tableOf]
    exact congrArg (fun bin => { maps with stateIndex := maps.stateIndex + 1, statesBin := bin })
      hstates

/-- **One clause**: its record goes behind the others of its table. -/
theorem placeClause_step {env : Environment} {blocks : List HbaDocBlock} (event : Event)
    {maps : Maps} (h : MapsAt env blocks event.seen maps) :
    MapsAt env blocks event.seen (placeClause env blocks event.source maps event.clause) ∧
      ∀ datetime, ((placeClause env blocks event.source maps event.clause).bin datetime).map Prod.snd
        = (maps.bin datetime).map Prod.snd ++ placedIn env blocks datetime [event] := by
  have hold : ∀ datetime, ∀ entry ∈ maps.bin datetime, entry.1 < maps.stateIndex + 1 :=
    fun datetime entry hentry => Nat.lt_succ_of_lt (h.keys datetime entry hentry)
  have hnew : ∀ datetime, ∀ entry ∈ maps.bin datetime ++
      [(maps.stateIndex, recordOf env blocks event)], entry.1 < maps.stateIndex + 1 := by
    intro datetime entry hentry
    rcases List.mem_append.mp hentry with hentry | hentry
    · exact hold datetime entry hentry
    · rw [List.mem_singleton.mp hentry]
      exact Nat.lt_succ_self _
  rw [place_eq h]
  cases htable : tableOf env blocks event with
  | none =>
    refine ⟨⟨h.seen_le, h.conditions, hold⟩, ?_⟩
    intro datetime
    simp [placedIn, htable]
    rfl
  | some table =>
    cases table with
    | true =>
      refine ⟨⟨h.seen_le, h.conditions, ?_⟩, ?_⟩
      · intro datetime
        cases datetime with
        | true => exact hnew true
        | false => exact hold false
      · intro datetime
        cases datetime <;> simp [placedIn, htable, Maps.bin]
    | false =>
      refine ⟨⟨h.seen_le, h.conditions, ?_⟩, ?_⟩
      · intro datetime
        cases datetime with
        | true => exact hold true
        | false => exact hnew false
      · intro datetime
        cases datetime <;> simp [placedIn, htable, Maps.bin]

/-- The clauses of one state. -/
theorem foldl_placeClause {env : Environment} {blocks : List HbaDocBlock} (source : Nat)
    {seen : Nat} (clauses : List IfClauseDoc) {maps : Maps} (h : MapsAt env blocks seen maps) :
    MapsAt env blocks seen (clauses.foldl (placeClause env blocks source) maps) ∧
      ∀ datetime, ((clauses.foldl (placeClause env blocks source) maps).bin datetime).map Prod.snd
        = (maps.bin datetime).map Prod.snd
          ++ placedIn env blocks datetime (clauses.map fun clause => ⟨source, seen, clause⟩) := by
  induction clauses generalizing maps with
  | nil =>
    refine ⟨h, ?_⟩
    intro datetime
    simp [placedIn]
  | cons clause clauses ih =>
    obtain ⟨hmaps, hbin⟩ := placeClause_step ⟨source, seen, clause⟩ h
    obtain ⟨hrest, hrestBin⟩ := ih hmaps
    refine ⟨hrest, ?_⟩
    intro datetime
    have hcons : (clause :: clauses).map (fun clause => (⟨source, seen, clause⟩ : Event))
        = [⟨source, seen, clause⟩] ++ clauses.map fun clause => ⟨source, seen, clause⟩ := rfl
    rw [hcons, placedIn_append, ← List.append_assoc, ← hbin datetime]
    exact hrestBin datetime

/-- **All blocks**: behind what is in the maps, the conditions and the clauses that
follow, each where it goes. -/
theorem foldl_placeBlock {env : Environment} {all blocks : List HbaDocBlock}
    (stateId : Nat) {conditionId : Nat} {maps : Maps}
    (hblocks : conditionDocs blocks = (conditionDocs all).drop conditionId)
    (h : MapsAt env all conditionId maps) :
    let result := (firstPass stateId conditionId blocks).1.foldl (placeBlock env all) maps
    MapsAt env all (conditionDocs all).length result ∧
      ∀ datetime, (result.bin datetime).map Prod.snd = (maps.bin datetime).map Prod.snd
        ++ placedIn env all datetime (eventsFrom stateId conditionId blocks) := by
  induction blocks generalizing stateId conditionId maps with
  | nil =>
    have hend : (conditionDocs all).length = conditionId := by
      have hle := List.drop_eq_nil_iff.mp hblocks.symm
      have hseen := h.seen_le
      omega
    refine ⟨hend ▸ h, ?_⟩
    intro datetime
    simp [eventsFrom, firstPass, placedIn]
  | cons block blocks ih =>
    cases block with
    | state doc =>
      obtain ⟨hmaps, hbin⟩ := foldl_placeClause stateId doc.ifClauses h
      obtain ⟨hrest, hrestBin⟩ := ih (stateId + 1) hblocks hmaps
      refine ⟨hrest, ?_⟩
      intro datetime
      rw [eventsFrom, placedIn_append, ← List.append_assoc, ← hbin datetime]
      exact hrestBin datetime
    | condition doc =>
      -- the block is condition number `conditionId`
      have hlt : conditionId < (conditionDocs all).length := by
        by_contra hge
        rw [List.drop_eq_nil_iff.mpr (Nat.le_of_not_lt hge)] at hblocks
        cases hblocks
      rw [List.drop_eq_getElem_cons hlt, conditionDocs_condition] at hblocks
      obtain ⟨hdoc, hrestDocs⟩ := List.cons.inj hblocks
      have hkeys : ∀ entry ∈ maps.conditionsBin, entry.1 < conditionId := by
        intro entry hentry
        rw [h.conditions] at hentry
        have hmem := lt_of_mem_conditionEntries hentry
        rw [List.length_take] at hmem
        omega
      have hinsert : mapInsert conditionId (conditionOf env conditionId doc) maps.conditionsBin
          = maps.conditionsBin ++ [(conditionId, conditionOf env conditionId doc)] :=
        mapInsert_append hkeys
      have hmaps : MapsAt env all (conditionId + 1) { maps with
          conditionsBin := maps.conditionsBin ++ [(conditionId, conditionOf env conditionId doc)] } := by
        refine ⟨hlt, ?_, h.keys⟩
        show maps.conditionsBin ++ _ = _
        rw [h.conditions, List.take_succ_eq_append_getElem hlt, conditionEntries_append, ← hdoc,
          List.length_take, Nat.min_eq_left (Nat.le_of_lt hlt), Nat.zero_add]
        rfl
      obtain ⟨hrest, hrestBin⟩ := ih stateId hrestDocs hmaps
      have hstep : placeBlock env all maps (.condition { doc with id := conditionId })
          = { maps with
              conditionsBin := maps.conditionsBin
                ++ [(conditionId, conditionOf env conditionId doc)] } :=
        congrArg (fun bin => { maps with conditionsBin := bin }) hinsert
      simp only [firstPass, List.foldl_cons, hstep, eventsFrom]
      exact ⟨hrest, hrestBin⟩

/-- **What the assembler emits**, over the condition blocks and the clauses of the
program. -/
theorem emitted_records {env : Environment} {ast : HbaDoc} {maps : Maps}
    (h : emitted env ast = .ok maps) :
    maps.conditionsBin = conditionEntries env 0 (conditionDocs ast.blocks) ∧
      ∀ datetime, (maps.bin datetime).map Prod.snd
        = placedIn env ast.blocks datetime (events ast.blocks) := by
  obtain ⟨-, rfl⟩ := emitted_ok_iff.mp h
  obtain ⟨hmaps, hbin⟩ := @foldl_placeBlock env ast.blocks ast.blocks 0 0 _ (List.drop_zero).symm
    (MapsAt.empty env ast.blocks)
  refine ⟨?_, ?_⟩
  · rw [hmaps.conditions, List.take_length]
  · intro datetime
    rw [hbin datetime]
    cases datetime <;> rfl

end Hexabus.Asm
