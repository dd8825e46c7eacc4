import Hexabus.Asm.Meaning
import Hexabus.Asm.NameResolution

/-!
# Tidy programs

A program whose conditions stand before its states, and whose names are all different. In such
a program a name denotes what it is meant to denote, whether it assembles is only a question of
room, and of the clauses only those of the current state count.
-/

namespace Hexabus.Asm

open Lib.Bytes Firmware

variable {env : Environment} {blocks : List HbaDocBlock}

/-- Conditions first, all names different, and every clause names blocks of the kinds that are
meant. -/
structure Tidy (blocks : List HbaDocBlock) : Prop where
  ordered : blocks.Pairwise fun b c => b.isState = true → c.isState = true
  names : (blocks.map HbaDocBlock.name).Nodup
  condition : ∀ doc ∈ stateDocs blocks, ∀ clause ∈ doc.ifClauses, clause.name ≠ "true" →
    ∃ c ∈ conditionDocs blocks, c.name = clause.name
  good : ∀ doc ∈ stateDocs blocks, ∀ clause ∈ doc.ifClauses,
    ∃ s ∈ stateDocs blocks, s.name = clause.goodstate
  bad : ∀ doc ∈ stateDocs blocks, ∀ clause ∈ doc.ifClauses,
    ∃ s ∈ stateDocs blocks, s.name = clause.badstate

/-- What a device has room for. -/
structure HasRoom (env : Environment) (ast : HbaDoc) : Prop where
  states : (stateDocs ast.blocks).length ≤ 256
  conditions : (conditionDocs ast.blocks).length ≤ conditionCapacity
  transitions : ∀ datetime, ((events ast.blocks).filter fun event =>
    inDatetimeTable env ast event = datetime).length ≤ tableCapacity datetime

/-! ## Blocks of one kind -/

theorem mem_stateDocs {doc : StateDoc} : doc ∈ stateDocs blocks ↔ .state doc ∈ blocks := by
  unfold stateDocs
  rw [List.mem_filterMap]
  constructor
  · intro h
    obtain ⟨block, hblock, hdoc⟩ := h
    cases block with
    | state doc' => exact Option.some.inj hdoc ▸ hblock
    | condition doc' => cases hdoc
  · intro h
    exact ⟨_, h, rfl⟩

theorem mem_conditionDocs {doc : ConditionDoc} :
    doc ∈ conditionDocs blocks ↔ .condition doc ∈ blocks := by
  unfold conditionDocs
  rw [List.mem_filterMap]
  constructor
  · intro h
    obtain ⟨block, hblock, hdoc⟩ := h
    cases block with
    | state doc' => cases hdoc
    | condition doc' => exact Option.some.inj hdoc ▸ hblock
  · intro h
    exact ⟨_, h, rfl⟩

/-- The names of a kind are some of the names. -/
theorem names_stateDocs_sublist (blocks : List HbaDocBlock) :
    ((stateDocs blocks).map StateDoc.name).Sublist (blocks.map HbaDocBlock.name) := by
  induction blocks with
  | nil => exact List.Sublist.slnil
  | cons block blocks ih =>
    cases block with
    | state doc => exact ih.cons_cons doc.name
    | condition doc => exact ih.cons doc.name

theorem names_conditionDocs_sublist (blocks : List HbaDocBlock) :
    ((conditionDocs blocks).map ConditionDoc.name).Sublist (blocks.map HbaDocBlock.name) := by
  induction blocks with
  | nil => exact List.Sublist.slnil
  | cons block blocks ih =>
    cases block with
    | state doc => exact ih.cons doc.name
    | condition doc => exact ih.cons_cons doc.name

/-- Every name is that of a state or of a condition. -/
theorem names_perm (blocks : List HbaDocBlock) : (blocks.map HbaDocBlock.name).Perm
    ((stateDocs blocks).map StateDoc.name ++ (conditionDocs blocks).map ConditionDoc.name) := by
  induction blocks with
  | nil => exact List.Perm.refl []
  | cons block blocks ih =>
    cases block with
    | state doc => exact ih.cons doc.name
    | condition doc => exact (ih.cons doc.name).trans List.perm_middle.symm

/-! ## Numbers -/

/-- The lookup finds a state, wherever conditions stand. -/
theorem numberFrom_state {k stateId conditionId : Nat} {doc : StateDoc}
    (hnames : (blocks.map HbaDocBlock.name).Nodup) (hdoc : (stateDocs blocks)[k]? = some doc) :
    numberFrom doc.name stateId conditionId blocks = some (stateId + k) := by
  induction blocks generalizing k stateId conditionId with
  | nil => cases hdoc
  | cons block blocks ih =>
    obtain ⟨hnot, hrest⟩ := List.nodup_cons.mp hnames
    have hne : ∀ {k : Nat}, (stateDocs blocks)[k]? = some doc → block.name ≠ doc.name := by
      intro k hk heq
      have hmem := mem_stateDocs.mp (List.mem_of_getElem? hk)
      exact hnot (heq ▸ List.mem_map_of_mem (f := HbaDocBlock.name) hmem)
    cases block with
    | condition c =>
      have hname : ¬ c.name = doc.name := hne hdoc
      rw [numberFrom, if_neg hname]
      exact ih hrest hdoc
    | state s =>
      cases k with
      | zero =>
        cases hdoc
        rw [numberFrom, if_pos rfl, Nat.add_zero]
      | succ k =>
        rw [stateDocs_state, List.getElem?_cons_succ] at hdoc
        have hname : ¬ s.name = doc.name := hne hdoc
        rw [numberFrom, if_neg hname, ih hrest hdoc]
        congr 1
        omega

/-- The same for a condition. -/
theorem numberFrom_condition {k stateId conditionId : Nat} {doc : ConditionDoc}
    (hnames : (blocks.map HbaDocBlock.name).Nodup) (hdoc : (conditionDocs blocks)[k]? = some doc) :
    numberFrom doc.name stateId conditionId blocks = some (conditionId + k) := by
  induction blocks generalizing k stateId conditionId with
  | nil => cases hdoc
  | cons block blocks ih =>
    obtain ⟨hnot, hrest⟩ := List.nodup_cons.mp hnames
    have hne : ∀ {k : Nat}, (conditionDocs blocks)[k]? = some doc → block.name ≠ doc.name := by
      intro k hk heq
      have hmem := mem_conditionDocs.mp (List.mem_of_getElem? hk)
      exact hnot (heq ▸ List.mem_map_of_mem (f := HbaDocBlock.name) hmem)
    cases block with
    | state s =>
      have hname : ¬ s.name = doc.name := hne hdoc
      rw [numberFrom, if_neg hname]
      exact ih hrest hdoc
    | condition c =>
      cases k with
      | zero =>
        cases hdoc
        rw [numberFrom, if_pos rfl, Nat.add_zero]
      | succ k =>
        rw [conditionDocs_condition, List.getElem?_cons_succ] at hdoc
        have hname : ¬ c.name = doc.name := hne hdoc
        rw [numberFrom, if_neg hname, ih hrest hdoc]
        congr 1
        omega

/-- A block is the first one of its name. -/
theorem firstBlock_of_mem (hnames : (blocks.map HbaDocBlock.name).Nodup) {block : HbaDocBlock}
    (hmem : block ∈ blocks) : FirstBlock blocks block.name block := by
  obtain ⟨pre, post, rfl⟩ := List.append_of_mem hmem
  refine ⟨pre, post, rfl, rfl, fun b hb heq => ?_⟩
  rw [List.map_append, List.map_cons, List.nodup_append] at hnames
  exact hnames.2.2 _ (List.mem_map_of_mem hb) _ List.mem_cons_self heq

/-- All conditions stand before a state. -/
theorem seen_eq {stateId conditionId : Nat} {event : Event}
    (hordered : blocks.Pairwise fun b c => b.isState = true → c.isState = true)
    (h : event ∈ eventsFrom stateId conditionId blocks) :
    event.seen = conditionId + (conditionDocs blocks).length := by
  induction blocks generalizing stateId conditionId with
  | nil => exact absurd h List.not_mem_nil
  | cons block blocks ih =>
    obtain ⟨hafter, hrest⟩ := List.pairwise_cons.mp hordered
    cases block with
    | condition doc =>
      rw [conditionDocs_condition, List.length_cons, ih hrest h]
      omega
    | state doc =>
      rcases List.mem_append.mp h with h | h
      · -- nothing but states stands behind a state
        have hnone : conditionDocs blocks = [] := by
          refine List.eq_nil_iff_forall_not_mem.mpr fun c hc => ?_
          exact absurd (hafter _ (mem_conditionDocs.mp hc) rfl) Bool.false_ne_true
        obtain ⟨clause, -, rfl⟩ := List.mem_map.mp h
        rw [conditionDocs_state, hnone]
        rfl
      · exact ih hrest h

theorem source_lt {stateId conditionId : Nat} {event : Event}
    (h : event ∈ eventsFrom stateId conditionId blocks) :
    event.source < stateId + (stateDocs blocks).length := by
  induction blocks generalizing stateId conditionId with
  | nil => exact absurd h List.not_mem_nil
  | cons block blocks ih =>
    cases block with
    | condition doc => exact ih h
    | state doc =>
      rw [stateDocs_state, List.length_cons]
      rcases List.mem_append.mp h with h | h
      · obtain ⟨clause, -, rfl⟩ := List.mem_map.mp h
        exact Nat.lt_add_of_pos_right (Nat.succ_pos _)
      · have hlt := ih h
        omega

/-- The clause of an event stands in a state. -/
theorem event_clause {stateId conditionId : Nat} {event : Event}
    (h : event ∈ eventsFrom stateId conditionId blocks) :
    ∃ doc ∈ stateDocs blocks, event.clause ∈ doc.ifClauses := by
  induction blocks generalizing stateId conditionId with
  | nil => exact absurd h List.not_mem_nil
  | cons block blocks ih =>
    cases block with
    | condition doc => exact ih h
    | state doc =>
      rcases List.mem_append.mp h with h | h
      · obtain ⟨clause, hclause, rfl⟩ := List.mem_map.mp h
        exact ⟨doc, List.mem_cons_self, hclause⟩
      · obtain ⟨doc', hdoc', hclause⟩ := ih h
        exact ⟨doc', List.mem_cons_of_mem _ hdoc', hclause⟩

/-! ## Tidy programs -/

namespace Tidy

theorem stateNames (h : Tidy blocks) : ((stateDocs blocks).map StateDoc.name).Nodup :=
  (names_stateDocs_sublist blocks).nodup h.names

theorem conditionNames (h : Tidy blocks) : ((conditionDocs blocks).map ConditionDoc.name).Nodup :=
  (names_conditionDocs_sublist blocks).nodup h.names

/-- A condition is found under its name. -/
theorem find?_condition (h : Tidy blocks) {doc : ConditionDoc} (hdoc : doc ∈ conditionDocs blocks) :
    (conditionDocs blocks).find? (fun d => d.name = doc.name) = some doc := by
  cases hfind : (conditionDocs blocks).find? fun d => d.name = doc.name with
  | none =>
    have hne := List.find?_eq_none.mp hfind doc hdoc
    simp at hne
  | some d =>
    have hd := List.mem_of_find?_eq_some hfind
    have hname : d.name = doc.name := by simpa using List.find?_some hfind
    rw [List.inj_on_of_nodup_map h.conditionNames hd hdoc hname]

/-- Names denote what is meant. -/
theorem wellNamed (h : Tidy blocks) : WellNamed blocks where
  condition := by
    intro doc hdoc clause hclause hname
    obtain ⟨c, hc, heq⟩ := h.condition doc hdoc clause hclause hname
    exact ⟨c, heq ▸ firstBlock_of_mem h.names (mem_conditionDocs.mp hc)⟩
  good := by
    intro doc hdoc clause hclause
    obtain ⟨s, hs, heq⟩ := h.good doc hdoc clause hclause
    exact ⟨s, heq ▸ firstBlock_of_mem h.names (mem_stateDocs.mp hs)⟩
  bad := by
    intro doc hdoc clause hclause
    obtain ⟨s, hs, heq⟩ := h.bad doc hdoc clause hclause
    exact ⟨s, heq ▸ firstBlock_of_mem h.names (mem_stateDocs.mp hs)⟩
  stateNames := h.stateNames
  conditionNames := h.conditionNames

variable {ast : HbaDoc}

/-- The number of a state fits into its byte. -/
theorem stateFound (h : Tidy ast.blocks) (hroom : HasRoom env ast) {s : StateDoc}
    (hs : s ∈ stateDocs ast.blocks) : StateFound ast s.name := by
  obtain ⟨k, hk⟩ := List.mem_iff_getElem?.mp hs
  have hlt := (List.getElem?_eq_some_iff.mp hk).1
  have hstates := hroom.states
  have hmod : k % 256 = k := Nat.mod_eq_of_lt (by omega)
  refine ⟨k, (numberFrom_state h.names hk).trans (by rw [Nat.zero_add]), ?_⟩
  unfold StateNamed
  rw [hmod, hk]
  rfl

/-- **What is left is room**: a tidy program is assembled as it is meant if the device has room
for it. -/
theorem assemblable (h : Tidy ast.blocks) (hroom : HasRoom env ast) : Assemblable env ast := by
  refine ⟨fun event hevent => ?_, hroom.transitions⟩
  obtain ⟨doc, hdoc, hclause⟩ := event_clause hevent
  constructor
  case source =>
    have hlt := source_lt hevent
    have hstates := hroom.states
    omega
  case good =>
    obtain ⟨s, hs, heq⟩ := h.good doc hdoc _ hclause
    exact heq ▸ h.stateFound hroom hs
  case bad =>
    obtain ⟨s, hs, heq⟩ := h.bad doc hdoc _ hclause
    exact heq ▸ h.stateFound hroom hs
  case cond =>
    intro hname
    obtain ⟨c, hc, heq⟩ := h.condition doc hdoc _ hclause hname
    obtain ⟨k, hk⟩ := List.mem_iff_getElem?.mp hc
    have hlt := (List.getElem?_eq_some_iff.mp hk).1
    have hseen := seen_eq h.ordered hevent
    have hconditions := hroom.conditions
    have hcapacity : conditionCapacity ≤ 256 := by decide
    have hmod : k % 256 = k := Nat.mod_eq_of_lt (by omega)
    refine ⟨k, ?_, by omega, by omega, by rw [hmod, hk, ← heq]; rfl⟩
    rw [← heq]
    exact (numberFrom_condition h.names hk).trans (by rw [Nat.zero_add])

end Tidy

/-! ## Trials -/

section

variable {δ : Type} {ast : HbaDoc} {chain : EndpointChain (Dev δ)} {loc : Locals}
  {occasion : Occasion} {m : Machine δ}

/-- Where every clause sets something, one clause is taken at most. -/
theorem Machine.tryAll_eq_find {clauses : List (String × IfClauseDoc)}
    (hsets : ∀ entry ∈ clauses, env.setsNothing entry.2 = false) :
    m.tryAll env ast chain loc occasion clauses =
      (clauses.find? fun entry => decide (entry.1 = m.state) && m.holds env ast occasion entry.2).elim
        m fun entry => m.set env chain loc entry.2 := by
  induction clauses with
  | nil => rfl
  | cons entry clauses ih =>
    obtain ⟨state, clause⟩ := entry
    have hset : env.setsNothing clause = false := hsets _ List.mem_cons_self
    have hrest := ih fun entry hentry => hsets entry (List.mem_cons_of_mem _ hentry)
    rw [Machine.tryAll, hset, List.find?_cons]
    cases decide (state = m.state) && m.holds env ast occasion clause with
    | true => rfl
    | false => exact hrest

/-- The clauses of a state are those of its block. -/
theorem find?_clausesOf {p : IfClauseDoc → Bool} {docs : List StateDoc} {doc : StateDoc}
    (hnames : (docs.map StateDoc.name).Nodup) (hdoc : doc ∈ docs) :
    (docs.flatMap fun doc => doc.ifClauses.map fun clause => (doc.name, clause)).find?
        (fun entry => decide (entry.1 = doc.name) && p entry.2) =
      (doc.ifClauses.find? p).map (Prod.mk doc.name) := by
  have hblock : ∀ d : StateDoc, (d.ifClauses.map fun clause => (d.name, clause)).find?
      (fun entry => decide (entry.1 = doc.name) && p entry.2) =
        if d.name = doc.name then (d.ifClauses.find? p).map (Prod.mk d.name) else none := by
    intro d
    rw [List.find?_map]
    by_cases hname : d.name = doc.name
    · rw [if_pos hname]
      congr 2
      funext clause
      simp [hname]
    · rw [if_neg hname, List.find?_eq_none.mpr, Option.map_none]
      intro clause _
      simp [hname]
  -- a block of another name is passed over
  have hother : ∀ docs : List StateDoc, (∀ d ∈ docs, d.name ≠ doc.name) →
      (docs.flatMap fun doc => doc.ifClauses.map fun clause => (doc.name, clause)).find?
        (fun entry => decide (entry.1 = doc.name) && p entry.2) = none := by
    intro docs hne
    refine List.find?_eq_none.mpr fun entry hentry => ?_
    obtain ⟨d, hd, hclause⟩ := List.mem_flatMap.mp hentry
    obtain ⟨clause, -, rfl⟩ := List.mem_map.mp hclause
    simp [hne d hd]
  induction docs with
  | nil => exact absurd hdoc List.not_mem_nil
  | cons d docs ih =>
    rw [List.map_cons, List.nodup_cons] at hnames
    rw [List.flatMap_cons, List.find?_append, hblock]
    rcases List.mem_cons.mp hdoc with rfl | hmem
    · rw [if_pos rfl, hother docs, Option.or_none]
      intro d hd heq
      exact hnames.1 (heq ▸ List.mem_map_of_mem hd)
    · rw [if_neg, Option.none_or]
      · exact ih hnames.2 hmem
      · intro heq
        exact hnames.1 (heq ▸ List.mem_map_of_mem hmem)

/-- **One trial**: the first clause of the current state that holds is taken. -/
theorem Tidy.tryAll_eq (h : Tidy ast.blocks) {doc : StateDoc} (hdoc : doc ∈ stateDocs ast.blocks)
    (hstate : m.state = doc.name)
    (hsets : ∀ doc ∈ stateDocs ast.blocks, ∀ clause ∈ doc.ifClauses, env.setsNothing clause = false) :
    m.tryAll env ast chain loc occasion (clausesOf ast.blocks) =
      (doc.ifClauses.find? (m.holds env ast occasion)).elim m (m.set env chain loc) := by
  rw [Machine.tryAll_eq_find, hstate, clausesOf, find?_clausesOf h.stateNames hdoc]
  · cases doc.ifClauses.find? (m.holds env ast occasion) <;> rfl
  · intro entry hentry
    obtain ⟨d, hd, hclause⟩ := List.mem_flatMap.mp hentry
    obtain ⟨clause, hmem, rfl⟩ := List.mem_map.mp hclause
    exact hsets d hd clause hmem

end

end Hexabus.Asm
