import Hexabus.Hbc.Assembling
import Hexabus.Hbc.DeviceWrites

/-!
# Which files are accepted

From a file back to the program: the conditions that are printed are the parts of those of
the program, and the writes those of the device.
-/

namespace Hexabus.Hbc

open Lib.Folds

variable {fp : FloatPrinter} {g g' g'' : Graph} {maxId machineId : Nat} {sm : StatemachineDoc}
  {blocks : List ResolvedBlock} {device : Identifier} {table : List EndpointEntry}

/-! ## The slice -/

theorem Slice.of_cond (h : Slice g machineId sm blocks) {v : Nat} {condition : ConditionDoc}
    (hv : g.contents v = some (.cond condition)) :
    ∃ b ∈ blocks, condition = b.block.condition := by
  have hlt := Graph.contents_lt hv
  have hsize := h.size
  rcases @vertex_cases 0 sm.stateset blocks v (Nat.zero_le v) (by omega) with
    ⟨k, hk, rfl⟩ | ⟨j, b, hb, rfl | rfl⟩
  · rw [Graph.contents_of_vertex (h.shape.state k _ (List.getElem?_eq_getElem hk))] at hv
    cases hv
  · obtain ⟨name, -, hw⟩ := h.shape.cond j b hb
    rw [Graph.contents_of_vertex hw] at hv
    cases hv
    exact ⟨b, List.mem_of_getElem? hb, rfl⟩
  · obtain ⟨name, -, hw⟩ := h.shape.command j b hb
    rw [Graph.contents_of_vertex hw] at hv
    cases hv

theorem Slice.of_command (h : Slice g machineId sm blocks) {v : Nat} {block : CommandBlockDoc}
    (hv : g.contents v = some (.command block)) :
    ∃ b ∈ blocks, block = b.block.commandBlock := by
  have hlt := Graph.contents_lt hv
  have hsize := h.size
  rcases @vertex_cases 0 sm.stateset blocks v (Nat.zero_le v) (by omega) with
    ⟨k, hk, rfl⟩ | ⟨j, b, hb, rfl | rfl⟩
  · rw [Graph.contents_of_vertex (h.shape.state k _ (List.getElem?_eq_getElem hk))] at hv
    cases hv
  · obtain ⟨name, -, hw⟩ := h.shape.cond j b hb
    rw [Graph.contents_of_vertex hw] at hv
    cases hv
  · obtain ⟨name, -, hw⟩ := h.shape.command j b hb
    rw [Graph.contents_of_vertex hw] at hv
    cases hv
    exact ⟨b, List.mem_of_getElem? hb, rfl⟩

/-- A guarded block has a clause in the graph: from its state over its condition to its
commands. -/
theorem Slice.clause (h : Slice g machineId sm blocks) {b : ResolvedBlock} (hb : b ∈ blocks) :
    ∃ u c m, g.contents u = some .state ∧ c ∈ g.adjacent u ∧
      g.contents c = some (.cond b.block.condition) ∧ g.adjacent c = [m] ∧
      g.contents m = some (.command b.block.commandBlock) := by
  obtain ⟨j, hj⟩ := List.mem_iff_getElem?.mp hb
  have horigin := (h.shape.inRange b hb).1
  obtain ⟨name, -, hcond⟩ := h.shape.cond j b hj
  obtain ⟨name', -, hcommand⟩ := h.shape.command j b hj
  refine ⟨0 + b.origin, 0 + sm.stateset.length + 2 * j, 0 + sm.stateset.length + 2 * j + 1, ?_, ?_,
    Graph.contents_of_vertex hcond, h.shape.ofCond j b hj, Graph.contents_of_vertex hcommand⟩
  · exact Graph.contents_of_vertex (h.shape.state b.origin _ (List.getElem?_eq_getElem horigin))
  · rw [h.shape.ofState b.origin horigin]
    exact List.mem_map.mpr ⟨j, mem_clauseNumbers.mpr ⟨b, hj, rfl⟩, rfl⟩

/-! ## The halved graph -/

/-- The clauses of a guarded block in the halved graph: one with the first part of the
condition, and one with the second part. -/
theorem HalvedUpto.clauses (h : HalvedUpto g g' maxId g.size) (hg : MachineGraph g) {u c m : Nat}
    {condition : ConditionDoc} {block : CommandBlockDoc} (hu : g.contents u = some .state)
    (hc : c ∈ g.adjacent u) (hcond : g.contents c = some (.cond condition))
    (hm : g.adjacent c = [m]) (hblock : g.contents m = some (.command block)) :
    (g'.contents u = some .state ∧ c ∈ g'.adjacent u ∧
      g'.contents c = some (.cond condition.firstPart) ∧ g'.adjacent c = [m] ∧
      g'.contents m = some (.command block)) ∧
    ∀ second, condition.secondPart = some second → ∃ c', c' ∈ g'.adjacent u ∧
      g'.contents c' = some (.cond second) := by
  have hclt := Graph.contents_lt hcond
  have hadjacent := h.adjacent u (Graph.contents_lt hu)
  refine ⟨⟨h.contents_old hu, ?_, h.contents_old hcond, ?_, h.contents_old hblock⟩, ?_⟩
  · rw [hadjacent]
    exact List.mem_append_left _ hc
  · rw [h.adjacent c hclt, newClauses_of_not_state hg.wellFormed hcond (by intro h; cases h), hm,
      List.append_nil]
  · intro second hsecond
    have hsplits : g.splits c = some second := (Graph.splits_of_contents hcond).trans hsecond
    refine ⟨g.newCond c, ?_, h.contents_newCond hsplits⟩
    rw [hadjacent]
    refine List.mem_append_right _ (List.mem_map.mpr ⟨c, List.mem_filter.mpr ⟨hc, ?_⟩, rfl⟩)
    rw [hsplits, decide_eq_true hclt]
    rfl

/-! ## The expanded graph -/

/-- A vertex without commands stays as it is. -/
theorem Upto.other (h : Upto g g' g.size) {v : Nat} {contents : Contents}
    (hv : g.contents v = some contents) (hne : ∀ block, contents ≠ .command block) :
    SameAt g g' v := by
  cases h.expanded v (Graph.contents_lt hv) with
  | same short same => exact same
  | drawn long before toTarget head toChain chain =>
    rw [hv] at before
    exact absurd (Option.some.inj before) (hne _)

/-- Every command of a clause has a clause in the expanded graph, and an empty block keeps
its clause. -/
theorem Upto.clauses (h : Upto g g' g.size) {u c m : Nat} {condition : ConditionDoc}
    {block : CommandBlockDoc} (hu : g.contents u = some .state) (hc : c ∈ g.adjacent u)
    (hcond : g.contents c = some (.cond condition)) (hm : g.adjacent c = [m])
    (hblock : g.contents m = some (.command block)) :
    (∀ command ∈ block.commands, ∃ u c m goto, g'.contents u = some .state ∧ c ∈ g'.adjacent u ∧
      (g'.adjacent c).head? = some m ∧ g'.contents m = some (.command ⟨[command], goto⟩)) ∧
    (block.commands = [] → g'.contents u = some .state ∧ c ∈ g'.adjacent u ∧
      (g'.adjacent c).head? = some m ∧ g'.contents m = some (.command block)) := by
  obtain ⟨hu', hadj'⟩ := h.other hu (by intro block h; cases h)
  obtain ⟨hc', hm'⟩ := h.other hcond (by intro block h; cases h)
  have hstate := hu'.trans hu
  have hclause : c ∈ g'.adjacent u := by
    rw [hadj']
    exact hc
  have hhead : (g'.adjacent c).head? = some m := by
    rw [hm', hm]
    rfl
  obtain ⟨commands, goto⟩ := block
  cases h.expanded m (Graph.contents_lt hblock) with
  | same short same =>
    have hlen := short _ hblock
    have hkept := same.1.trans hblock
    refine ⟨fun command hmem => ?_, fun _ => ⟨hstate, hclause, hhead, hkept⟩⟩
    obtain ⟨only, rfl⟩ := List.length_eq_one_iff.mp
      (Nat.le_antisymm hlen (List.length_pos_of_mem hmem))
    obtain rfl := List.mem_singleton.mp hmem
    exact ⟨u, c, m, goto, hstate, hclause, hhead, hkept⟩
  | @drawn target start command tail goto' long before toTarget head toChain chain =>
    rw [hblock] at before
    cases before
    refine ⟨fun command' hmem => ?_, fun hnil => absurd hnil (List.cons_ne_nil _ _)⟩
    rcases List.mem_cons.mp hmem with rfl | hmem
    · exact ⟨u, c, m, goto, hstate, hclause, hhead, head⟩
    · obtain ⟨u', c', m', goto', hu', hc', hm', hblock'⟩ := chain.commands command' hmem
      exact ⟨u', c', m', goto', hu', hc', by rw [hm']; rfl, hblock'⟩

/-! ## Back to the guarded blocks -/

/-- A flat condition is made of its two parts. -/
theorem mem_leaves_iff {condition leaf : ConditionDoc} (hflat : condition.isFlat = true) :
    leaf ∈ condition.leaves ↔ leaf = condition.firstPart ∨ condition.secondPart = some leaf := by
  have hself : ∀ {a : ConditionDoc}, a.isCompound = false → a.leaves = [a] := by
    intro a ha
    cases a with
    | compound b op c => cases ha
    | _ => rfl
  cases condition with
  | compound a op b =>
    cases op with
    | and => cases hflat
    | or =>
      obtain ⟨ha, hb⟩ := (isFlat_iff _).mp hflat
      have hleaves : (ConditionDoc.compound a .or b).leaves = [a, b] := by
        show a.leaves ++ b.leaves = _
        rw [@hself a ha, @hself b (hb b rfl)]
        rfl
      rw [hleaves, List.mem_cons, List.mem_singleton]
      exact or_congr_right ⟨fun heq => heq ▸ rfl, fun heq => (Option.some.inj heq).symm⟩
  | _ => simp [ConditionDoc.leaves, ConditionDoc.firstPart, ConditionDoc.secondPart]

/-- The graph of a device after the three passes. -/
structure Simplified (fp : FloatPrinter) (machineId : Nat) (sm : StatemachineDoc)
    (blocks : List ResolvedBlock) (g g' g'' : Graph) (maxId : Nat) : Prop where
  slice : Slice g machineId sm blocks
  halved : HalvedUpto g g' maxId g.size
  expanded : Upto g' g'' g'.size
  keeps : KeepsOthers g' g''
  added : ∀ u, g'.size ≤ u → u < g''.size → AddedAt g'' g'.HasCommand u

theorem simplified_of_passes (hslice : Slice g machineId sm blocks)
    (hhalve : expandComplexConditions fp g = .ok g') (hexpand : expandMultipleWrites fp g' = .ok g'') :
    ∃ maxId, Simplified fp machineId sm blocks g g' g'' maxId := by
  obtain ⟨g₁, maxId, hrun, hhalved⟩ := expandComplexConditions_spec fp hslice.machineGraph
  rw [hhalve] at hrun
  cases hrun
  obtain ⟨hup, hkeeps, hadded⟩ :=
    expandMultipleWrites_added (hhalved.wellFormed hslice.machineGraph) hexpand
  exact ⟨maxId, hslice, hhalved, hup, hkeeps, hadded⟩

namespace Simplified

variable (h : Simplified fp machineId sm blocks g g' g'' maxId)
include h

/-- A condition of the expanded graph is `true`, or that of the halved graph. -/
theorem cond_old {v : Nat} {condition : ConditionDoc}
    (hv : g''.contents v = some (.cond condition)) :
    condition = .tautology 1 ∨ g'.contents v = some (.cond condition) := by
  rcases Nat.lt_or_ge v g'.size with hold | hnew
  · cases h.expanded.expanded v hold with
    | same short same => exact .inr (same.1.symm.trans hv)
    | drawn long before toTarget head toChain chain =>
      rw [hv] at head
      cases head
  · rcases h.added v hnew (Graph.contents_lt hv) with hstate | hif | ⟨command, goto, -, hcommand⟩
    · rw [hv] at hstate
      cases hstate
    · rw [hv] at hif
      cases hif
      exact .inl rfl
    · rw [hv] at hcommand
      cases hcommand

/-- A condition of the expanded graph is `true` or a part of a block's condition. -/
theorem of_cond {v : Nat} {condition : ConditionDoc}
    (hv : g''.contents v = some (.cond condition)) :
    condition = .tautology 1 ∨ ∃ b ∈ blocks, condition = b.block.condition.firstPart ∨
      b.block.condition.secondPart = some condition := by
  rcases h.cond_old hv with htrue | hv'
  · exact .inl htrue
  · rcases h.halved.cond_cases h.slice.machineGraph hv' with ⟨condition₀, hv₀, rfl⟩ | ⟨c, hc, -⟩
    · obtain ⟨b, hb, rfl⟩ := h.slice.of_cond hv₀
      exact .inr ⟨b, hb, .inl rfl⟩
    · obtain ⟨a, ha⟩ := Graph.splits_eq_some hc
      obtain ⟨b, hb, hcondition⟩ := h.slice.of_cond ha
      refine .inr ⟨b, hb, .inr ?_⟩
      rw [← hcondition]
      rfl

/-- A block of the halved graph is that of a guarded block. -/
theorem of_halved {m : Nat} {block : CommandBlockDoc} (hm : g'.contents m = some (.command block)) :
    ∃ b ∈ blocks, block = b.block.commandBlock := by
  obtain ⟨w, hw, hblock⟩ := exists_vertex hm
  obtain ⟨w₀, hw₀, hblock₀⟩ :=
    h.halved.command_cases h.slice.machineGraph (List.mem_of_getElem? hw) hblock
  obtain ⟨v, hv⟩ := List.mem_iff_getElem?.mp hw₀
  exact h.slice.of_command (v := v) (by rw [Graph.contents_of_vertex hv, hblock₀])

/-- A block of the expanded graph has one command of a guarded block, or is empty as that
is. -/
theorem of_command {m : Nat} {block : CommandBlockDoc}
    (hm : g''.contents m = some (.command block)) :
    (∃ command, block.commands = [command] ∧
      ∃ b ∈ blocks, command ∈ b.block.commandBlock.commands) ∨
    (block.commands = [] ∧ ∃ b ∈ blocks, b.block.commandBlock.commands = []) := by
  rcases Nat.lt_or_ge m g'.size with hold | hnew
  · cases h.expanded.expanded m hold with
    | same short same =>
      have hm' := same.1.symm.trans hm
      obtain ⟨b, hb, rfl⟩ := h.of_halved hm'
      have hlen := short _ hm'
      cases hcommands : b.block.commandBlock.commands with
      | nil => exact .inr ⟨rfl, b, hb, hcommands⟩
      | cons command rest =>
        rw [hcommands, List.length_cons] at hlen
        obtain rfl := List.length_eq_zero_iff.mp (by omega : rest.length = 0)
        exact .inl ⟨command, rfl, b, hb, hcommands ▸ List.mem_cons_self⟩
    | @drawn target u command tail goto long before toTarget head toChain chain =>
      rw [hm] at head
      cases head
      obtain ⟨b, hb, hblock⟩ := h.of_halved before
      exact .inl ⟨command, rfl, b, hb, hblock ▸ List.mem_cons_self⟩
  · rcases h.added m hnew (Graph.contents_lt hm) with hstate | hif |
      ⟨command, goto, ⟨v, block', hv, hmem⟩, hcommand⟩
    · rw [hm] at hstate
      cases hstate
    · rw [hm] at hif
      cases hif
    · rw [hm] at hcommand
      cases hcommand
      obtain ⟨b, hb, rfl⟩ := h.of_halved hv
      exact .inl ⟨command, rfl, b, hb, hmem⟩

/-- The conditions that are left compound have names of their own. -/
theorem namesApart : NamesApart g'' := by
  -- a condition that is not `true` has the vertex it had in the halved graph
  have hold : ∀ w ∈ g''.vertices, ∀ condition, w.contents = .cond condition →
      condition ≠ .tautology 1 → ∃ v : Nat, g'.vertices[v]? = some w := by
    intro w hw condition hcontents hne
    obtain ⟨v, hv⟩ := List.mem_iff_getElem?.mp hw
    have hcond : g''.contents v = some (.cond condition) := by
      rw [Graph.contents_of_vertex hv, hcontents]
    obtain ⟨w', hw', hcontents'⟩ := exists_vertex ((h.cond_old hcond).resolve_left hne)
    have hkept := h.keeps v w' hw' (by rw [hcontents']; intro block heq; cases heq)
    rw [hv] at hkept
    cases hkept
    exact ⟨v, hw'⟩
  intro w hw w' hw' a op b hcompound hname
  obtain ⟨⟨condition', hcontents'⟩, heq⟩ := mem_condNames hname
  have hne : condition' ≠ .tautology 1 := by
    rintro rfl
    rw [Vertex.condNames, hcontents'] at hname
    exact absurd hname List.not_mem_nil
  obtain ⟨v, hv⟩ := hold w hw _ hcompound (by intro heq; cases heq)
  obtain ⟨v', hv'⟩ := hold w' hw' _ hcontents' hne
  obtain ⟨hm, hid⟩ := condName_inj heq
  obtain rfl := h.halved.distinct h.slice.machineGraph hv hv' hcompound hcontents' hm hid
  rw [hv] at hv'
  cases hv'
  rw [Vertex.condNames, hcompound] at hname
  exact absurd hname List.not_mem_nil

/-- **The clauses of the program**: the graph's clauses are known exactly if its guarded
blocks have flat conditions, and their ids are in the file. -/
theorem clausesKnown_iff : ClausesKnown table g'' ↔
    (∀ b ∈ blocks, b.block.condition.isFlat = true) ∧
    (∀ b ∈ blocks, ∀ geid op constant, .atomic geid op constant ∈ b.block.condition.leaves →
      HasIntId table geid.endpointName) ∧
    (∀ b ∈ blocks, ∀ command ∈ b.block.commandBlock.commands,
      HasIntId table command.geid.endpointName) ∧
    ((∃ b ∈ blocks, b.block.commandBlock.commands = []) → HasZeroId table) := by
  have hwf := h.slice.machineGraph
  constructor
  · intro hknown
    -- both parts of a block's condition have a clause of the block's state
    have hparts : ∀ b ∈ blocks, ∀ part, (part = b.block.condition.firstPart ∨
        b.block.condition.secondPart = some part) → ∃ u c, g''.contents u = some .state ∧
          c ∈ g''.adjacent u ∧ g''.contents c = some (.cond part) := by
      intro b hb part hpart
      obtain ⟨u, c, m, hu, hc, hcond, hm, hblock⟩ := h.slice.clause hb
      obtain ⟨⟨hu', hc', hfirst, -, -⟩, hsecond⟩ := h.halved.clauses hwf hu hc hcond hm hblock
      obtain ⟨hstate, hadj⟩ := h.expanded.other hu' (by intro block heq; cases heq)
      rcases hpart with rfl | hpart
      · refine ⟨u, c, hstate.trans hu', hadj ▸ hc', ?_⟩
        exact (h.expanded.other hfirst (by intro block heq; cases heq)).1.trans hfirst
      · obtain ⟨c', hc', hcond'⟩ := hsecond part hpart
        refine ⟨u, c', hstate.trans hu', hadj ▸ hc', ?_⟩
        exact (h.expanded.other hcond' (by intro block heq; cases heq)).1.trans hcond'
    have hflat : ∀ b ∈ blocks, b.block.condition.isFlat = true := by
      intro b hb
      refine (isFlat_iff _).mpr ⟨?_, fun part hpart => ?_⟩
      · obtain ⟨u, c, hu, hc, hcond⟩ := hparts b hb _ (.inl rfl)
        exact hknown.named u c _ hu hc hcond
      · obtain ⟨u, c, hu, hc, hcond⟩ := hparts b hb part (.inr hpart)
        exact hknown.named u c _ hu hc hcond
    have hcommands : ∀ b ∈ blocks, ∃ u c m, g'.contents u = some .state ∧ c ∈ g'.adjacent u ∧
        (∃ condition, g'.contents c = some (.cond condition)) ∧ g'.adjacent c = [m] ∧
        g'.contents m = some (.command b.block.commandBlock) := by
      intro b hb
      obtain ⟨u, c, m, hu, hc, hcond, hm, hblock⟩ := h.slice.clause hb
      obtain ⟨⟨hu', hc', hfirst, hm', hblock'⟩, -⟩ := h.halved.clauses hwf hu hc hcond hm hblock
      exact ⟨u, c, m, hu', hc', ⟨_, hfirst⟩, hm', hblock'⟩
    refine ⟨hflat, ?_, ?_, ?_⟩
    · intro b hb geid op constant hleaf
      obtain ⟨u, c, -, -, hcond⟩ := hparts b hb _ ((mem_leaves_iff (hflat b hb)).mp hleaf)
      exact hknown.asked c geid op constant hcond
    · intro b hb command hmem
      obtain ⟨u, c, m, hu, hc, ⟨condition, hcond⟩, hm, hblock⟩ := hcommands b hb
      obtain ⟨u', c', m', goto, hu', hc', hm', hblock'⟩ :=
        (h.expanded.clauses hu hc hcond hm hblock).1 command hmem
      exact hknown.written u' c' m' command goto hu' hc' hm' hblock'
    · rintro ⟨b, hb, hnil⟩
      obtain ⟨u, c, m, hu, hc, ⟨condition, hcond⟩, hm, hblock⟩ := hcommands b hb
      obtain ⟨hu', hc', hm', hblock'⟩ := (h.expanded.clauses hu hc hcond hm hblock).2 hnil
      refine hknown.idle u c m _ hu' hc' hm' hblock' fun command heq => ?_
      rw [hnil] at heq
      cases heq
  · rintro ⟨hflat, hasked, hwritten, hidle⟩
    constructor
    case asked =>
      intro v geid op constant hv
      rcases h.of_cond hv with heq | ⟨b, hb, hpart⟩
      · cases heq
      · exact hasked b hb geid op constant ((mem_leaves_iff (hflat b hb)).mpr hpart)
    case named =>
      intro u c condition _ _ hcond
      rcases h.of_cond hcond with rfl | ⟨b, hb, rfl | hpart⟩
      · rfl
      · exact ((isFlat_iff _).mp (hflat b hb)).1
      · exact ((isFlat_iff _).mp (hflat b hb)).2 condition hpart
    case written =>
      intro u c m command goto _ _ _ hm
      rcases h.of_command hm with ⟨command', heq, b, hb, hmem⟩ | ⟨heq, -⟩
      · cases heq
        exact hwritten b hb command hmem
      · cases heq
    case idle =>
      intro u c m block _ _ _ hm hne
      rcases h.of_command hm with ⟨command, heq, -⟩ | ⟨-, b, hb, hnil⟩
      · exact absurd heq (hne command)
      · exact hidle ⟨b, hb, hnil⟩

end Simplified

/-! ## One file -/

/-- The assembler reads the file and translates it. -/
def Accepted (env : Asm.Environment) (file : Option Asm.HbaDoc) : Prop :=
  ∃ ast image, file = some ast ∧ Asm.hbasm env ast = .ok image

/-- The machine's file for the device can be assembled. -/
structure FileReady (table : List EndpointEntry) (device : Identifier) (sm : StatemachineDoc) :
    Prop where
  init : sm.stateset.count initName = 1
  flat : ∀ b ∈ sm.resolved, b.block.condition.isFlat = true
  asked : ∀ b ∈ sm.resolved, ∀ geid op constant,
    .atomic geid op constant ∈ b.block.condition.leaves → HasIntId table geid.endpointName
  written : ∀ b ∈ sm.resolved, ∀ command ∈ b.block.commandBlock.commands,
    command.device? = some device → HasIntId table command.geid.endpointName
  idle : (∃ b ∈ sm.resolved, ∀ command ∈ b.block.commandBlock.commands,
    command.device? ≠ some device) → HasZeroId table

/-- As many vertices are called like an initial state as the machine has states `init`. -/
theorem Slice.count_inits (h : Slice g machineId sm blocks) (hkeeps : KeepsStates g g'') :
    (g''.vertices.filter fun w => namesInit w.name).length = sm.stateset.count initName := by
  have hsize := h.size
  have hstates : ∀ (k : Nat) (s : Identifier), sm.stateset[k]? = some s → g''.vertices[k]? =
      some ⟨replaceNewline (stateVertexName machineId k sm.name s), machineId, k, .state⟩ := by
    intro k s hs
    have hv := h.shape.state k s hs
    rw [Nat.zero_add] at hv
    exact hkeeps.states k _ hv rfl
  have hfront : (g''.vertices.take sm.stateset.length).map (fun w => namesInit w.name)
      = sm.stateset.map fun s => s == initName := by
    refine List.ext_getElem? fun k => ?_
    rw [List.getElem?_map, List.getElem?_map]
    cases hs : sm.stateset[k]? with
    | none =>
      have hge := List.getElem?_eq_none_iff.mp hs
      rw [List.getElem?_eq_none (by rw [List.length_take]; omega)]
      rfl
    | some s =>
      have hlt := (List.getElem?_eq_some_iff.mp hs).1
      rw [List.getElem?_take_of_lt hlt, hstates k s hs, Option.map_some, Option.map_some]
      congr 1
      rw [Bool.eq_iff_iff, namesInit_stateVertexName, beq_iff_eq]
  have hback : (g''.vertices.drop sm.stateset.length).countP (fun w => namesInit w.name) = 0 := by
    refine List.countP_eq_zero.mpr fun w hw hinit => ?_
    obtain ⟨i, hi⟩ := List.mem_iff_getElem?.mp hw
    rw [List.getElem?_drop] at hi
    rcases hkeeps.inits _ w hi with hw | hquiet
    · have hlt : sm.stateset.length + i < g.size := (List.getElem?_eq_some_iff.mp hw).1
      rcases @vertex_cases 0 sm.stateset blocks (sm.stateset.length + i) (Nat.zero_le _) (by omega)
        with ⟨k, hk, heq⟩ | ⟨j, b, hb, heq | heq⟩
      · omega
      · obtain ⟨name, hplain, hcond⟩ := h.shape.cond j b hb
        rw [← heq, hw] at hcond
        rw [Option.some.inj hcond, hplain.notInit] at hinit
        cases hinit
      · obtain ⟨name, hplain, hcommand⟩ := h.shape.command j b hb
        rw [← heq, hw] at hcommand
        rw [Option.some.inj hcommand, hplain.notInit] at hinit
        cases hinit
    · rw [hquiet.notInit] at hinit
      cases hinit
  rw [← List.countP_eq_length_filter, ← List.take_append_drop sm.stateset.length g''.vertices,
    List.countP_append, hback, Nat.add_zero, List.count_eq_countP]
  have hcount := congrArg (List.countP id) hfront
  rwa [List.countP_map, List.countP_map] at hcount

variable {tables : Tables} {machines : List MachineDescriptor} {env : Asm.Environment}
  {hbc : HbcDoc} {text : HbaText}

/-- The file is read if one state is called `init`. -/
theorem parse_iff (h : hbaOutput tables machines device g'' = .ok text) :
    (∃ ast, text.parse = some ast) ↔
      (g''.vertices.filter fun w => namesInit w.name).length = 1 := by
  have hstarts : text.starts = printStarts tables machines g'' := by
    unfold hbaOutput at h
    split at h
    · cases h
    · obtain ⟨conditions, -, hrest⟩ := bind_ok_iff.mp h
      obtain ⟨states, -, hret⟩ := bind_ok_iff.mp hrest
      cases hret
      rfl
  have hlength : (g''.vertices.filter fun w => namesInit w.name).length = text.starts.length := by
    rw [hstarts, printStarts, List.length_map]
  rw [hlength, List.length_eq_one_iff]
  unfold HbaText.parse
  constructor
  · rintro ⟨ast, hparse⟩
    split at hparse
    · exact ⟨_, ‹_›⟩
    · cases hparse
  · rintro ⟨⟨machineId, startState⟩, hone⟩
    rw [hone]
    exact ⟨_, rfl⟩

/-- The commands that are left of a block. -/
theorem commands_ownBlock {b : ResolvedBlock}
    (h : ∃ own, ownCommands device b.block.commandBlock.commands = .ok own) :
    (ownBlock device b).block.commandBlock.commands
      = b.block.commandBlock.commands.filter fun command => command.device? = some device := by
  obtain ⟨own, hown⟩ := h
  rw [ownCommands_ownBlock hown]
  exact (ownCommands_ok.mp hown).2

/-- **One file**: it is accepted exactly if the machine is ready for it. -/
theorem accepted_iff (hgraph : DeviceGraph hbc device machineId sm g)
    (hhalve : expandComplexConditions fp g = .ok g') (hexpand : expandMultipleWrites fp g' = .ok g'')
    (hprint : hbaOutput (tables.withEndpoints table) machines device g'' = .ok text) :
    Accepted (env.withDatatypes (dtypeFile table)) text.parse ↔ FileReady table device sm := by
  obtain ⟨-, -, hown, hslice⟩ := hgraph
  obtain ⟨maxId, hsimplified⟩ := simplified_of_passes hslice hhalve hexpand
  have hkeeps := (keepsStates_expandComplexConditions hslice.machineGraph hslice.quiet hhalve).trans
    (keepsStates_expandMultipleWrites hexpand)
  have hparse := parse_iff hprint
  rw [hslice.count_inits hkeeps] at hparse
  have hresolves := (@resolves_iff tables table machines device env g'' text hprint
    hsimplified.namesApart).trans
    hsimplified.clausesKnown_iff
  simp only [List.forall_mem_map] at hresolves
  have haccepted : Accepted (env.withDatatypes (dtypeFile table)) text.parse ↔
      (∃ ast, text.parse = some ast) ∧
        Asm.Resolves (env.withDatatypes (dtypeFile table)) text.blocks := by
    constructor
    · rintro ⟨ast, image, hast, himage⟩
      refine ⟨⟨ast, hast⟩, ?_⟩
      rw [← (parse_start hprint hast).1]
      exact Asm.hbasm_ok_iff.mp ⟨image, himage⟩
    · rintro ⟨⟨ast, hast⟩, hres⟩
      rw [← (parse_start hprint hast).1] at hres
      obtain ⟨image, himage⟩ := Asm.hbasm_ok_iff.mpr hres
      exact ⟨ast, image, hast, himage⟩
  rw [haccepted, hparse, hresolves]
  constructor
  · rintro ⟨hinit, hflat, hasked, hwritten, hidle⟩
    refine ⟨hinit, hflat, hasked, fun b hb command hmem hdevice => ?_, ?_⟩
    · refine hwritten b hb command ?_
      rw [commands_ownBlock (hown b hb), List.mem_filter]
      exact ⟨hmem, decide_eq_true hdevice⟩
    · rintro ⟨b, hb, hnone⟩
      refine hidle ⟨_, List.mem_map_of_mem hb, ?_⟩
      rw [commands_ownBlock (hown b hb)]
      exact List.filter_eq_nil_iff.mpr fun command hmem hdevice =>
        hnone command hmem (of_decide_eq_true hdevice)
  · rintro ⟨hinit, hflat, hasked, hwritten, hidle⟩
    refine ⟨hinit, hflat, hasked, fun b hb command hmem => ?_, ?_⟩
    · rw [commands_ownBlock (hown b hb), List.mem_filter] at hmem
      exact hwritten b hb command hmem.1 (of_decide_eq_true hmem.2)
    · rintro ⟨b', hb', hnil⟩
      obtain ⟨b, hb, rfl⟩ := List.mem_map.mp hb'
      rw [commands_ownBlock (hown b hb)] at hnil
      refine hidle ⟨b, hb, fun command hmem hdevice => ?_⟩
      exact List.filter_eq_nil_iff.mp hnil command hmem (decide_eq_true hdevice)

end Hexabus.Hbc
