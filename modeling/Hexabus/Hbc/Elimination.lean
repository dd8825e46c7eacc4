import Hexabus.Hbc.CompoundConditions
import Hexabus.Hbc.Pipeline

/-!
# Elimination of compound conditions

The graph that `expandComplexConditions` leaves, and the file that `hba_output.cpp` prints
from it. The case of a compound condition in the output makes an exception and does not
throw it: such a condition gets no block, and the clause names it all the same.
-/

namespace Hexabus.Hbc

open Lib.Folds

variable {tables : Tables} {machines : List MachineDescriptor} {device : Identifier}
variable {Event : Type} {holds : Event → ConditionDoc → Bool} {g g' : Graph} {maxId : Nat}

/-- The names of the condition blocks are all different. -/
theorem HalvedUpto.nodup_condNames (h : HalvedUpto g g' maxId g.size) (hg : MachineGraph g) :
    (g'.vertices.flatMap Vertex.condNames).Nodup := by
  refine List.nodup_flatMap.mpr ⟨fun w _ => ?_, List.pairwise_iff_getElem.mpr ?_⟩
  · unfold Vertex.condNames
    split
    · exact List.nodup_nil
    · exact List.nodup_nil
    · exact List.nodup_nil
    · exact List.nodup_nil
    · exact List.nodup_singleton _
  · intro i j hi hj hij name hname hname'
    obtain ⟨⟨k, hk⟩, heq⟩ := mem_condNames hname
    obtain ⟨⟨k', hk'⟩, heq'⟩ := mem_condNames hname'
    obtain ⟨hm, hid⟩ := condName_inj (heq.symm.trans heq')
    have := h.distinct hg (List.getElem?_eq_getElem hi) (List.getElem?_eq_getElem hj) hk hk' hm hid
    omega

/-- A clause of the output is unconditional or has exactly one condition block. -/
theorem HalvedUpto.count_name (h : HalvedUpto g g' maxId g.size) (hg : MachineGraph g)
    (hatomic : ∀ v condition, g'.contents v = some (.cond condition) →
      condition.isCompound = false) {text : HbaText}
    (ht : hbaOutput tables machines device g' = .ok text) {doc : Asm.StateDoc}
    (hdoc : doc ∈ Asm.stateDocs text.blocks) {clause : Asm.IfClauseDoc}
    (hclause : clause ∈ doc.ifClauses) : clause.name = "true" ∨
      ((Asm.conditionDocs text.blocks).map Asm.ConditionDoc.name).count clause.name = 1 := by
  obtain ⟨hnames, hclauses⟩ := hbaOutput_spec (h.wellFormed hg) ht
  obtain ⟨c, w, condition, hw, hc, hname⟩ := hclauses doc hdoc clause hclause
  have hcompound := hatomic c condition (by rw [Graph.contents_of_vertex hw, hc])
  rw [hnames, hname]
  have hblock : ∀ name, w.condNames = [name] →
      (g'.vertices.flatMap Vertex.condNames).count name = 1 := by
    intro name hn
    refine List.count_eq_one_of_mem (h.nodup_condNames hg) (List.mem_flatMap.mpr ?_)
    exact ⟨w, List.mem_of_getElem? hw, by rw [hn]; exact List.mem_singleton_self name⟩
  cases condition with
  | tautology value => exact .inl rfl
  | compound a op b => cases hcompound
  | atomic geid op constant => exact .inr (hblock _ (by rw [Vertex.condNames, hc]; rfl))
  | timeout seconds => exact .inr (hblock _ (by rw [Vertex.condNames, hc]; rfl))
  | timer fields op value => exact .inr (hblock _ (by rw [Vertex.condNames, hc]; rfl))

/-! ## The output pass -/

variable (tables machines device) in
/-- The tables know the device and everything that the atomic conditions and the commands
of the graph are printed from. -/
structure Covers (g : Graph) : Prop where
  known : (tables.findDevice device).isSome
  conditions : ∀ w ∈ g.vertices, ∀ condition, w.contents = .cond condition →
    ∀ leaf ∈ condition.leaves, ∃ blocks, printCondition tables machines device w leaf = .ok blocks
  commands : ∀ w ∈ g.vertices, ∀ block, w.contents = .command block →
    ∃ set, printSet tables machines w.machineId block.commands = .ok set

/-- Whether a condition is printed does not depend on its vertex, -/
theorem printCondition_vertex {w w' : Vertex} {condition : ConditionDoc}
    {blocks : List Asm.HbaDocBlock}
    (h : printCondition tables machines device w condition = .ok blocks) :
    ∃ blocks', printCondition tables machines device w' condition = .ok blocks' := by
  rcases printCondition_ok_iff.mp h with ⟨-, hnone⟩ | ⟨cond, hprinted, -⟩
  · exact ⟨_, printCondition_ok_iff.mpr (.inl ⟨rfl, hnone⟩)⟩
  · exact ⟨_, printCondition_ok_iff.mpr (.inr ⟨cond, hprinted, rfl⟩)⟩

/-- and whether a command is printed, not on the machine. -/
theorem printSet_machine {m m' : Nat} {commands : List CommandDoc} {set : UInt32 × UInt32}
    (h : printSet tables machines m commands = .ok set) :
    printSet tables machines m' commands = .ok set :=
  printSet_ok_iff.mpr (printSet_ok_iff.mp h)

/-- A command of the halved graph is one of the graph. -/
theorem HalvedUpto.command_cases (h : HalvedUpto g g' maxId g.size) (hg : MachineGraph g)
    {wm : Vertex} {block : CommandBlockDoc} (hmem : wm ∈ g'.vertices)
    (hblock : wm.contents = .command block) :
    ∃ w ∈ g.vertices, w.contents = .command block := by
  have hexists : ∀ v, g.contents v = some (.command block) →
      ∃ w ∈ g.vertices, w.contents = .command block := by
    intro v hv
    obtain ⟨w, hw, hwc⟩ := exists_vertex hv
    exact ⟨w, List.mem_of_getElem? hw, hwc⟩
  obtain ⟨v, hv, hget⟩ := List.getElem_of_mem hmem
  have hcontents : g'.contents v = some (.command block) := by
    rw [Graph.contents_of_vertex (List.getElem?_eq_some_iff.mpr ⟨hv, hget⟩), hblock]
  rcases h.cases hv with ⟨c, hc⟩ | ⟨c, b, hb, rfl | rfl⟩
  · have hv' := h.contents_old hc
    rw [hcontents] at hv'
    cases c with
    | state => cases hv'
    | cond condition => cases hv'
    | command block₀ =>
      cases hv'
      exact hexists v hc
  · rw [h.contents_newCond hb] at hcontents
    cases hcontents
  · obtain ⟨block', target, hclause, -, -, hcommand, -⟩ := h.newClause hg hb
    obtain ⟨a, ha⟩ := Graph.splits_eq_some hb
    obtain ⟨m, block₀, hm, hblock₀⟩ := hg.wellFormed.ofCond c _ ha
    obtain ⟨t, ht, -⟩ := hg.wellFormed.ofCommand m block₀ hblock₀
    obtain ⟨-, hadj⟩ := h.newCommand c m block₀ t (Graph.contents_lt ha) (by rw [hb]; rfl) hm
      hblock₀ ht
    have hnew := (h.newCommand c m block₀ t (Graph.contents_lt ha) (by rw [hb]; rfl) hm
      hblock₀ ht).1
    rw [hcontents] at hnew
    cases hnew
    exact hexists m hblock₀

/-- The condition of an atomic vertex is a leaf of the graph. -/
theorem HalvedUpto.leaf_cases (h : HalvedUpto g g' maxId g.size) (hg : MachineGraph g)
    {v : Nat} {condition : ConditionDoc} (hv : g'.contents v = some (.cond condition))
    (hatomic : condition.isCompound = false) :
    ∃ w ∈ g.vertices, ∃ condition₀, w.contents = .cond condition₀ ∧
      condition ∈ condition₀.leaves := by
  have hself : condition ∈ condition.leaves := by
    cases condition with
    | compound a op b => cases hatomic
    | _ => exact List.mem_singleton_self _
  rcases h.cond_cases hg hv with ⟨condition₀, hv₀, rfl⟩ | ⟨c, hc, -⟩
  · obtain ⟨w, hw, hwc⟩ := exists_vertex hv₀
    refine ⟨w, List.mem_of_getElem? hw, condition₀, hwc, ?_⟩
    cases condition₀ with
    | compound a op b =>
      cases op with
      | and => exact hself
      | or => exact List.mem_append_left _ hself
    | _ => exact hself
  · obtain ⟨a, ha⟩ := Graph.splits_eq_some hc
    obtain ⟨w, hw, hwc⟩ := exists_vertex ha
    exact ⟨w, List.mem_of_getElem? hw, _, hwc, List.mem_append_right _ hself⟩

/-- **The output pass succeeds** on a halved graph with atomic conditions. -/
theorem HalvedUpto.output_ok (h : HalvedUpto g g' maxId g.size) (hg : MachineGraph g)
    (hatomic : ∀ v condition, g'.contents v = some (.cond condition) →
      condition.isCompound = false) (hc : Covers tables machines device g) :
    ∃ text, hbaOutput tables machines device g' = .ok text := by
  obtain ⟨address, haddress⟩ := Option.isSome_iff_exists.mp hc.known
  have hconditions : ∀ w ∈ g'.vertices, ∃ blocks,
      printConditions tables machines device w = .ok blocks := by
    intro w hw
    unfold printConditions
    cases hwc : w.contents with
    | state => exact ⟨_, rfl⟩
    | command block => exact ⟨_, rfl⟩
    | cond condition =>
      obtain ⟨v, hv, hget⟩ := List.getElem_of_mem hw
      have hcontents : g'.contents v = some (.cond condition) := by
        rw [Graph.contents_of_vertex (List.getElem?_eq_some_iff.mpr ⟨hv, hget⟩), hwc]
      obtain ⟨w₀, hw₀, condition₀, hcond, hleaf⟩ :=
        h.leaf_cases hg hcontents (hatomic v condition hcontents)
      obtain ⟨blocks, hblocks⟩ := hc.conditions w₀ hw₀ condition₀ hcond condition hleaf
      exact printCondition_vertex hblocks
  have hstates : ∀ v ∈ List.range g'.size, ∃ blocks,
      printState tables machines g' v = .ok blocks := by
    intro v _
    unfold printState
    split
    · rename_i name machineId vertexId hv
      have hclauses : ∀ c ∈ g'.adjacent v, ∃ clause,
          printClause tables machines g' c = .ok clause := by
        intro c hadj
        obtain ⟨w, wm, condition, block, target, -, -, hwm, hblock, hprint⟩ :=
          (h.wellFormed hg).clauseVertices (Graph.contents_of_vertex hv) hadj
        obtain ⟨w₀, hw₀, hblock₀⟩ := h.command_cases hg hwm hblock
        obtain ⟨set, hset⟩ := hc.commands w₀ hw₀ block hblock₀
        rw [hprint, printSet_machine hset]
        exact ⟨_, rfl⟩
      obtain ⟨clauses, hrun⟩ := mapM_ok hclauses
      exact ⟨_, bind_ok_iff.mpr ⟨clauses, hrun, rfl⟩⟩
    · exact ⟨_, rfl⟩
  obtain ⟨conditions, hrunc⟩ := mapM_ok hconditions
  obtain ⟨states, hruns⟩ := mapM_ok hstates
  unfold hbaOutput
  rw [haddress]
  exact ⟨_, bind_ok_iff.mpr ⟨conditions, hrunc, bind_ok_iff.mpr ⟨states, hruns, rfl⟩⟩⟩

/-! ## Elimination -/

/-- A clause names the condition `true` or a condition with exactly one block. -/
def HbaText.Named (text : HbaText) : Prop :=
  ∀ doc ∈ Asm.stateDocs text.blocks, ∀ clause ∈ doc.ifClauses, clause.name = "true" ∨
    ((Asm.conditionDocs text.blocks).map Asm.ConditionDoc.name).count clause.name = 1

/-- What is expected of the graph that the pass returns: its conditions are atomic, it is
printed wherever its atomic conditions and its commands are, every clause of the output has
its condition, and every state reacts as before. -/
structure Eliminated (holds : Event → ConditionDoc → Bool) (g g' : Graph) : Prop where
  atomic : ∀ v condition, g'.contents v = some (.cond condition) → condition.isCompound = false
  printed : ∀ tables machines device, Covers tables machines device g →
    ∃ text, hbaOutput tables machines device g' = .ok text
  named : ∀ tables machines device text, hbaOutput tables machines device g' = .ok text →
    text.Named
  fired : ∀ event u, g.contents u = some .state → g'.fired holds event u = g.fired holds event u

/-- **When compound conditions are eliminated**: exactly if every condition is atomic or an
`or` of two atomic ones, and no later clause overtakes the second part of an `or`. -/
theorem expandComplexConditions_eliminates_iff (fp : FloatPrinter) (hg : MachineGraph g)
    (hholds : AndOr holds) :
    (∃ g', expandComplexConditions fp g = .ok g' ∧ Eliminated holds g g') ↔
      (∀ v condition, g.contents v = some (.cond condition) → condition.isFlat = true) ∧
        g.NotOvertaken holds := by
  obtain ⟨g', maxId, hrun, h⟩ := expandComplexConditions_spec fp hg
  constructor
  · rintro ⟨g'', hrun', he⟩
    obtain rfl : g' = g'' := Except.ok.inj (hrun.symm.trans hrun')
    exact ⟨(h.atomic_iff hg).mp he.atomic, (h.fired_eq_iff hholds hg).mp he.fired⟩
  · rintro ⟨hflat, hover⟩
    have hatomic := (h.atomic_iff hg).mpr hflat
    exact ⟨g', hrun, hatomic, fun _ _ _ hc => h.output_ok hg hatomic hc,
      fun _ _ _ _ ht _ hdoc _ hclause => h.count_name hg hatomic ht hdoc hclause,
      (h.fired_eq_iff hholds hg).mpr hover⟩

/-! ## Two buttons -/

/-- The value of a condition from those of its atomic parts. -/
def ConditionDoc.eval (atom : ConditionDoc → Bool) : ConditionDoc → Bool
  | .compound a .and b => a.eval atom && b.eval atom
  | .compound a .or b => a.eval atom || b.eval atom
  | condition => atom condition

theorem andOr_eval (atom : Event → ConditionDoc → Bool) :
    AndOr fun event => ConditionDoc.eval (atom event) :=
  ⟨fun _ _ _ => rfl, fun _ _ _ => rfl⟩

theorem isIdentifier_a : isIdentifier ['a'] = true := rfl

/-- An endpoint of the lamp. -/
def lampEndpoint : Identifier := ⟨['a'], isIdentifier_a⟩

/-- One state with one clause, which switches the lamp on. -/
def guardGraph (condition : ConditionDoc) : Graph where
  vertices := [
    ⟨"(0.0) \\nlamps.init".toList, 0, 0, .state⟩,
    ⟨"(0.0) if".toList, 0, 0, .cond condition⟩,
    ⟨"[1] write lamp.a := 1\\n[1] goto init\\n".toList, 0, 0,
      .command ⟨[lampWrite lampEndpoint 0x3f800000], ⟨1, initName⟩⟩⟩]
  edges := [(0, 1), (1, 2), (2, 0)]

theorem machineGraph_guardGraph (condition : ConditionDoc) :
    MachineGraph (guardGraph condition) := by
  have hcond : ∀ (v : Nat) (k : ConditionDoc),
      (guardGraph condition).contents v = some (.cond k) → v = 1 := by
    intro v k hv
    have hlt : v < 3 := Graph.contents_lt hv
    interval_cases v
    case «1» => rfl
    all_goals cases hv
  constructor
  case wellFormed =>
    constructor
    case bounded =>
      intro e he
      change e ∈ [(0, 1), (1, 2), (2, 0)] at he
      change e.1 < 3 ∧ e.2 < 3
      revert e
      decide
    case ofState =>
      intro v hv c hc
      have hlt : v < 3 := Graph.contents_lt hv
      interval_cases v
      case «0» => exact ⟨condition, by rw [List.mem_singleton.mp hc]; rfl⟩
      all_goals cases hv
    case ofCond =>
      intro c k hc
      obtain rfl := hcond c k hc
      exact ⟨2, _, rfl, rfl⟩
    case ofCommand =>
      intro v block hv
      have hlt : v < 3 := Graph.contents_lt hv
      interval_cases v
      case «2» => exact ⟨0, rfl, rfl⟩
      all_goals cases hv
  case origin =>
    intro c k hc
    obtain rfl := hcond c k hc
    exact ⟨0, rfl, rfl, rfl⟩
  case ordered =>
    intro u
    rcases Nat.lt_or_ge u 3 with hu | hu
    · interval_cases u <;> exact List.pairwise_singleton _ _
    · have hnil : (guardGraph condition).adjacent u = [] := by
        unfold Graph.adjacent guardGraph
        simp only [List.filterMap_cons, List.filterMap_nil]
        rw [if_neg (by omega), if_neg (by omega), if_neg (by omega)]
      rw [hnil]
      exact List.Pairwise.nil
  case distinct =>
    intro c c' w w' k k' hw hw' hk hk' _ _
    rw [hcond c k (by rw [Graph.contents_of_vertex hw, hk]),
      hcond c' k' (by rw [Graph.contents_of_vertex hw', hk'])]

/-- The theorem at a clause with `pressed == 0 || pressed == 1`. -/
theorem guardGraph_or_eliminates :
    (∃ g', expandComplexConditions bitPrinter
        (guardGraph (.compound (buttonIs 0) .or (buttonIs 0x3f800000))) = .ok g' ∧
      Eliminated (fun event => ConditionDoc.eval (buttonHolds event))
        (guardGraph (.compound (buttonIs 0) .or (buttonIs 0x3f800000))) g') ↔
      (∀ v condition, (guardGraph (.compound (buttonIs 0) .or (buttonIs 0x3f800000))).contents v =
        some (.cond condition) → condition.isFlat = true) ∧
        (guardGraph (.compound (buttonIs 0) .or (buttonIs 0x3f800000))).NotOvertaken
          fun event => ConditionDoc.eval (buttonHolds event) :=
  expandComplexConditions_eliminates_iff bitPrinter (machineGraph_guardGraph _)
    (andOr_eval buttonHolds)

/-- **An `and` stays**: the pass returns the graph as it was. -/
theorem guardGraph_and_not_eliminated :
    MachineGraph (guardGraph (.compound (buttonIs 0) .and (buttonIs 0))) ∧
    AndOr (fun event => ConditionDoc.eval (buttonHolds event)) ∧
    ¬ ∃ g', expandComplexConditions bitPrinter
        (guardGraph (.compound (buttonIs 0) .and (buttonIs 0))) = .ok g' ∧
      Eliminated (fun event => ConditionDoc.eval (buttonHolds event))
        (guardGraph (.compound (buttonIs 0) .and (buttonIs 0))) g' := by
  refine ⟨machineGraph_guardGraph _, andOr_eval buttonHolds, ?_⟩
  rintro ⟨g', hrun, he⟩
  have hsame : expandComplexConditions bitPrinter
      (guardGraph (.compound (buttonIs 0) .and (buttonIs 0))) =
        .ok (guardGraph (.compound (buttonIs 0) .and (buttonIs 0))) := rfl
  rw [hsame] at hrun
  cases hrun
  have hatomic := he.atomic 1 _ rfl
  cases hatomic

end Hexabus.Hbc
