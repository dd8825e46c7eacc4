import Hexabus.Hbc.Halving
import Hexabus.Hbc.HbaOutput

/-!
# What becomes of compound conditions

The pass takes a condition apart once, and only where it is an `or`. So it leaves atomic
conditions exactly where every compound condition was an `or` of two atomic ones. The
second part of such an `or` is tried behind all clauses of its state: the machine reacts as
before exactly where no later clause, which does something else, holds as well.
-/

namespace Hexabus.Hbc

open Lib.Folds

variable {Event : Type} (holds : Event → ConditionDoc → Bool)

/-! ## The meaning of conditions -/

/-- The usual meaning of `and` and `or`. -/
structure AndOr : Prop where
  and : ∀ event a b, holds event (.compound a .and b) = (holds event a && holds event b)
  or : ∀ event a b, holds event (.compound a .or b) = (holds event a || holds event b)

def ConditionDoc.isCompound : ConditionDoc → Bool
  | .compound _ _ _ => true
  | _ => false

/-- The condition is atomic or an `or` of two atomic conditions. -/
def ConditionDoc.isFlat : ConditionDoc → Bool
  | .compound a .or b => !a.isCompound && !b.isCompound
  | .compound _ .and _ => false
  | _ => true

/-- The atomic conditions that a condition is made of. -/
def ConditionDoc.leaves : ConditionDoc → List ConditionDoc
  | .compound a _ b => a.leaves ++ b.leaves
  | condition => [condition]

theorem isFlat_iff (condition : ConditionDoc) : condition.isFlat = true ↔
    condition.firstPart.isCompound = false ∧
      ∀ b, condition.secondPart = some b → b.isCompound = false := by
  cases condition with
  | compound a op b =>
    cases op with
    | and => simp [ConditionDoc.isFlat, ConditionDoc.firstPart, ConditionDoc.isCompound]
    | or => simp [ConditionDoc.isFlat, ConditionDoc.firstPart, ConditionDoc.secondPart]
  | _ => simp [ConditionDoc.isFlat, ConditionDoc.firstPart, ConditionDoc.secondPart,
      ConditionDoc.isCompound]

namespace Graph

variable (g : Graph)

/-- The first part of a clause's condition holds. -/
def firstHolds (event : Event) (c : Nat) : Bool :=
  match g.contents c with
  | some (.cond condition) => holds event condition.firstPart
  | _ => false

/-- The second part of a clause's condition holds. -/
def secondHolds (event : Event) (c : Nat) : Bool :=
  match g.splits c with
  | some b => holds event b
  | none => false

/-- Whenever the first clause of a state that holds does so with its second part only, the
first of the later clauses whose first part holds does the same. -/
def NotOvertaken : Prop :=
  ∀ event u before c after, g.contents u = some .state → g.adjacent u = before ++ c :: after →
    (∀ c' ∈ before, g.enabled holds event c' = false) →
    g.firstHolds holds event c = false → g.secondHolds holds event c = true →
    ∀ c', after.find? (g.firstHolds holds event) = some c' → g.clause c' = g.clause c

variable {holds g}

theorem enabled_eq_or (hholds : AndOr holds) {c : Nat} {condition : ConditionDoc}
    (hc : g.contents c = some (.cond condition)) (event : Event) :
    g.enabled holds event c = (g.firstHolds holds event c || g.secondHolds holds event c) := by
  unfold enabled firstHolds secondHolds
  rw [splits_of_contents hc, hc]
  cases condition with
  | compound a op b =>
    cases op with
    | and => simp [ConditionDoc.firstPart, ConditionDoc.secondPart]
    | or => simp [ConditionDoc.firstPart, ConditionDoc.secondPart, hholds.or]
  | _ => simp [ConditionDoc.firstPart, ConditionDoc.secondPart]

end Graph

/-! ## Which clause fires -/

/-- The first element with one of two properties, tried together or one after the other. -/
theorem find?_or_split {α : Type} {l before after : List α} {c : α} {p q : α → Bool}
    (hl : l = before ++ c :: after) (hbefore : ∀ a ∈ before, (p a || q a) = false)
    (hp : p c = false) (hq : q c = true) :
    l.find? (fun a => p a || q a) = some c ∧
      (l.find? p).or (l.find? q) = (after.find? p).or (some c) := by
  subst hl
  have hnone : ∀ r : α → Bool, (∀ a ∈ before, r a = false) → before.find? r = none := by
    intro r hr
    refine List.find?_eq_none.mpr fun a ha => ?_
    rw [hr a ha]
    exact Bool.false_ne_true
  have hfirst : ∀ a ∈ before, p a = false := fun a ha => (Bool.or_eq_false_iff.mp (hbefore a ha)).1
  have hsecond : ∀ a ∈ before, q a = false := fun a ha =>
    (Bool.or_eq_false_iff.mp (hbefore a ha)).2
  constructor
  · rw [List.find?_append, hnone _ hbefore, Option.none_or, List.find?_cons_of_pos (by simp [hq])]
  · rw [List.find?_append, hnone p hfirst, Option.none_or, List.find?_cons_of_neg (by simp [hp]),
      List.find?_append, hnone q hsecond, Option.none_or, List.find?_cons_of_pos hq]

namespace HalvedUpto

variable {holds} {g g' : Graph} {maxId : Nat}

/-- An old clause is tried with its first part, -/
theorem enabled_old (h : HalvedUpto g g' maxId g.size) {c : Nat} {condition : ConditionDoc}
    (hc : g.contents c = some (.cond condition)) (event : Event) :
    g'.enabled holds event c = g.firstHolds holds event c := by
  unfold Graph.enabled Graph.firstHolds
  rw [h.contents_old hc, hc]
  rfl

/-- and a new one with the second part. -/
theorem enabled_new (h : HalvedUpto g g' maxId g.size) {c : Nat} {b : ConditionDoc}
    (hc : g.splits c = some b) (event : Event) :
    g'.enabled holds event (g.newCond c) = g.secondHolds holds event c := by
  unfold Graph.enabled Graph.secondHolds
  rw [h.contents_newCond hc, hc]

theorem clause_old (h : HalvedUpto g g' maxId g.size) (hg : MachineGraph g) {c : Nat}
    {condition : ConditionDoc} (hc : g.contents c = some (.cond condition)) :
    g'.clause c = g.clause c := by
  have hwf := hg.wellFormed
  obtain ⟨m, block, hm, hblock⟩ := hwf.ofCond c condition hc
  obtain ⟨t, ht, -⟩ := hwf.ofCommand m block hblock
  have hcond : g'.adjacent c = [m] := by
    rw [h.adjacent c (Graph.contents_lt hc), hm, newClauses_of_not_state hwf hc nofun,
      List.append_nil]
  have hcommand : g'.adjacent m = [t] := by
    rw [h.adjacent m (Graph.contents_lt hblock), ht, newClauses_of_not_state hwf hblock nofun,
      List.append_nil]
  have hblock' : g'.contents m = some (.command block) := h.contents_old hblock
  unfold Graph.clause
  rw [hcond, hm]
  simp only [hblock', hcommand, hblock, ht]

theorem clause_new (h : HalvedUpto g g' maxId g.size) (hg : MachineGraph g) {c : Nat}
    {b : ConditionDoc} (hc : g.splits c = some b) : g'.clause (g.newCond c) = g.clause c := by
  obtain ⟨block, target, hclause, -, hcond, hblock, hcommand⟩ := h.newClause hg hc
  rw [hclause]
  unfold Graph.clause
  rw [hcond]
  simp only [hblock, hcommand]

/-- The new clauses of a state, tried in their order. -/
theorem find?_newClauses (h : HalvedUpto g g' maxId g.size) (hb : g.Bounded) (event : Event)
    (u : Nat) : (newClauses g g.size u).find? (g'.enabled holds event)
      = ((g.adjacent u).find? (g.secondHolds holds event)).map g.newCond := by
  unfold newClauses
  rw [List.find?_map, List.find?_filter]
  congr 1
  refine List.find?_congr fun c hc => ?_
  have hlt := hb.adjacent_lt hc
  cases hs : g.splits c with
  | none => simp [Graph.secondHolds, hs]
  | some b =>
    rw [decide_eq_true hlt]
    simpa using h.enabled_new hs event

/-- **What the halved machine fires**: the first clause whose first part holds, or else the
first one whose second part does. -/
theorem fired (h : HalvedUpto g g' maxId g.size) (hg : MachineGraph g) (event : Event) {u : Nat}
    (hu : g.contents u = some .state) : g'.fired holds event u =
      (((g.adjacent u).find? (g.firstHolds holds event)).or
        ((g.adjacent u).find? (g.secondHolds holds event))).bind g.clause := by
  have hwf := hg.wellFormed
  have hold : (g.adjacent u).find? (g'.enabled holds event) =
      (g.adjacent u).find? (g.firstHolds holds event) := by
    refine List.find?_congr fun c hc => ?_
    obtain ⟨condition, hcond⟩ := hwf.ofState u hu c hc
    exact h.enabled_old hcond event
  unfold Graph.fired
  rw [h.adjacent u (Graph.contents_lt hu), List.find?_append, hold,
    h.find?_newClauses hwf.bounded event u]
  cases hfirst : (g.adjacent u).find? (g.firstHolds holds event) with
  | some c =>
    obtain ⟨condition, hcond⟩ := hwf.ofState u hu c (List.mem_of_find?_eq_some hfirst)
    exact h.clause_old hg hcond
  | none =>
    cases hsecond : (g.adjacent u).find? (g.secondHolds holds event) with
    | none => rfl
    | some c =>
      have hholds := List.find?_some hsecond
      unfold Graph.secondHolds at hholds
      cases hs : g.splits c with
      | none =>
        rw [hs] at hholds
        cases hholds
      | some b => exact h.clause_new hg hs

/-- **When the halved machine reacts as before**. -/
theorem fired_eq_iff (hholds : AndOr holds) (h : HalvedUpto g g' maxId g.size)
    (hg : MachineGraph g) :
    (∀ event u, g.contents u = some .state → g'.fired holds event u = g.fired holds event u) ↔
      g.NotOvertaken holds := by
  have henabled : ∀ event u, g.contents u = some .state → ∀ c ∈ g.adjacent u,
      g.enabled holds event c = (g.firstHolds holds event c || g.secondHolds holds event c) := by
    intro event u hu c hc
    obtain ⟨condition, hcond⟩ := hg.wellFormed.ofState u hu c hc
    exact Graph.enabled_eq_or hholds hcond event
  have hfired : ∀ event u, g.contents u = some .state → g.fired holds event u =
      ((g.adjacent u).find? fun c => g.firstHolds holds event c ||
        g.secondHolds holds event c).bind g.clause := by
    intro event u hu
    unfold Graph.fired
    rw [List.find?_congr (henabled event u hu)]
  constructor
  · intro hsame event u before c after hu hadj hbefore hfirst hsecond c' hc'
    have hbefore' : ∀ a ∈ before,
        (g.firstHolds holds event a || g.secondHolds holds event a) = false := by
      intro a ha
      rw [← henabled event u hu a (hadj ▸ List.mem_append_left _ ha)]
      exact hbefore a ha
    obtain ⟨htogether, hapart⟩ := find?_or_split hadj hbefore' hfirst hsecond
    have heq := hsame event u hu
    rw [h.fired hg event hu, hfired event u hu, htogether, hapart, hc'] at heq
    exact heq
  · intro hover event u hu
    rw [h.fired hg event hu, hfired event u hu]
    cases hfind : (g.adjacent u).find? fun c =>
        g.firstHolds holds event c || g.secondHolds holds event c with
    | none =>
      have hnone := List.find?_eq_none.mp hfind
      have hno : ∀ c ∈ g.adjacent u, g.firstHolds holds event c = false ∧
          g.secondHolds holds event c = false := by
        intro c hc
        exact Bool.or_eq_false_iff.mp (Bool.eq_false_of_not_eq_true (hnone c hc))
      rw [List.find?_eq_none.mpr fun c hc => by rw [(hno c hc).1]; exact Bool.false_ne_true,
        List.find?_eq_none.mpr fun c hc => by rw [(hno c hc).2]; exact Bool.false_ne_true]
      rfl
    | some c =>
      obtain ⟨hc, before, after, hadj, hbefore⟩ := List.find?_eq_some_iff_append.mp hfind
      have hbefore' : ∀ a ∈ before,
          (g.firstHolds holds event a || g.secondHolds holds event a) = false := by
        intro a ha
        simpa using hbefore a ha
      cases hfirst : g.firstHolds holds event c with
      | true =>
        -- the clause holds with its first part and is found at once
        have hfind' : (g.adjacent u).find? (g.firstHolds holds event) = some c := by
          rw [hadj, List.find?_append, List.find?_eq_none.mpr fun a ha => by
            rw [(Bool.or_eq_false_iff.mp (hbefore' a ha)).1]; exact Bool.false_ne_true,
            Option.none_or, List.find?_cons_of_pos hfirst]
        rw [hfind']
        rfl
      | false =>
        rw [hfirst, Bool.false_or] at hc
        obtain ⟨-, hapart⟩ := find?_or_split hadj hbefore' hfirst hc
        rw [hapart]
        cases hafter : after.find? (g.firstHolds holds event) with
        | none => rfl
        | some c' =>
          refine hover event u before c after hu hadj (fun a ha => ?_) hfirst hc c' hafter
          rw [henabled event u hu a (hadj ▸ List.mem_append_left _ ha)]
          exact hbefore' a ha

/-- **When only atomic conditions are left**. -/
theorem atomic_iff (h : HalvedUpto g g' maxId g.size) (hg : MachineGraph g) :
    (∀ v condition, g'.contents v = some (.cond condition) → condition.isCompound = false) ↔
      ∀ v condition, g.contents v = some (.cond condition) → condition.isFlat = true := by
  constructor
  · intro hatomic v condition hv
    refine (isFlat_iff condition).mpr ⟨hatomic v _ (h.contents_old hv), fun b hb => ?_⟩
    exact hatomic _ b (h.contents_newCond ((Graph.splits_of_contents hv).trans hb))
  · intro hflat v condition hv
    rcases h.cond_cases hg hv with ⟨condition₀, hv₀, rfl⟩ | ⟨c, hc, rfl⟩
    · exact ((isFlat_iff condition₀).mp (hflat v condition₀ hv₀)).1
    · obtain ⟨a, ha⟩ := Graph.splits_eq_some hc
      exact ((isFlat_iff _).mp (hflat c _ ha)).2 condition rfl

end HalvedUpto

/-! ## Condition blocks -/

theorem vertexId_le {g : Graph} {v : Nat} {w : Vertex} (h : g.vertices[v]? = some w) :
    w.vertexId ≤ maxVertexId g :=
  (le_foldl_max Vertex.vertexId g.vertices 0).2 w (List.mem_of_getElem? h)

/-- The ids of a condition vertex are its own, also in the halved graph. -/
theorem HalvedUpto.distinct {g g' : Graph} {maxId : Nat} (h : HalvedUpto g g' maxId g.size)
    (hg : MachineGraph g) {v v' : Nat} {w w' : Vertex} {k k' : ConditionDoc}
    (hw : g'.vertices[v]? = some w) (hw' : g'.vertices[v']? = some w') (hk : w.contents = .cond k)
    (hk' : w'.contents = .cond k') (hm : w.machineId = w'.machineId)
    (hid : w.vertexId = w'.vertexId) : v = v' := by
  -- an old vertex has the ids it had, a new one has a number of its own
  have hids : ∀ v w k, g'.vertices[v]? = some w → w.contents = .cond k →
      (∃ w₀ k₀, g.vertices[v]? = some w₀ ∧ w₀.contents = .cond k₀ ∧
        w.machineId = w₀.machineId ∧ w.vertexId = w₀.vertexId) ∨
      ∃ c, (g.splits c).isSome ∧ v = g.newCond c ∧
        w.vertexId = maxVertexId g + 2 * g.splitsBefore c + 1 := by
    intro v w k hw hk
    have hcontents : g'.contents v = some (.cond k) := by rw [Graph.contents_of_vertex hw, hk]
    rcases h.cond_cases hg hcontents with ⟨k₀, hv, -⟩ | ⟨c, hc, rfl⟩
    · obtain ⟨w₀, hw₀, hk₀⟩ := exists_vertex hv
      obtain ⟨name, hold⟩ := h.old v w₀ hw₀
      rw [hw] at hold
      rw [Option.some.inj hold]
      exact .inl ⟨w₀, k₀, hw₀, hk₀, rfl, rfl⟩
    · obtain ⟨a, ha⟩ := Graph.splits_eq_some hc
      obtain ⟨⟨name, hnew⟩, -⟩ := h.newCond c k (Graph.contents_lt ha) hc
      rw [hw] at hnew
      rw [Option.some.inj hnew]
      exact .inr ⟨c, by rw [hc]; rfl, rfl, rfl⟩
  rcases hids v w k hw hk with ⟨w₀, k₀, hw₀, hk₀, hm₀, hid₀⟩ | ⟨c, hc, rfl, hidc⟩ <;>
    rcases hids v' w' k' hw' hk' with ⟨w₁, k₁, hw₁, hk₁, hm₁, hid₁⟩ | ⟨c', hc', rfl, hidc'⟩
  · exact hg.distinct v v' w₀ w₁ k₀ k₁ hw₀ hw₁ hk₀ hk₁ (hm₀ ▸ hm₁ ▸ hm) (hid₀ ▸ hid₁ ▸ hid)
  · have := vertexId_le hw₀
    omega
  · have := vertexId_le hw₁
    omega
  · have hbefore : g.splitsBefore c = g.splitsBefore c' := by omega
    unfold Graph.newCond
    rw [hbefore]

/-- The names of the condition blocks of a vertex. -/
def Vertex.condNames (w : Vertex) : List String :=
  match w.contents with
  | .cond (.tautology _) | .cond (.compound _ _ _) | .state | .command _ => []
  | .cond _ => [condName w.machineId w.vertexId]

theorem mem_condNames {w : Vertex} {name : String} (h : name ∈ w.condNames) :
    (∃ condition, w.contents = .cond condition) ∧ name = condName w.machineId w.vertexId := by
  unfold Vertex.condNames at h
  split at h
  · cases h
  · cases h
  · cases h
  · cases h
  · rename_i condition _ _ hc
    exact ⟨⟨condition, hc⟩, List.mem_singleton.mp h⟩

variable {tables : Tables} {machines : List MachineDescriptor} {device : Identifier}

theorem conditionDocs_append (blocks more : List Asm.HbaDocBlock) :
    Asm.conditionDocs (blocks ++ more) = Asm.conditionDocs blocks ++ Asm.conditionDocs more :=
  List.filterMap_append

theorem stateDocs_append (blocks more : List Asm.HbaDocBlock) :
    Asm.stateDocs (blocks ++ more) = Asm.stateDocs blocks ++ Asm.stateDocs more :=
  List.filterMap_append

/-- What is printed for a condition, that has to be atomic. -/
inductive Printed (tables : Tables) (device : Identifier) : ConditionDoc → Asm.HbaCond → Prop
  | atomic {geid : GlobalEndpointIdDoc} {op : CompOperator} {bits : UInt32} {name : Identifier}
      {endpointName : Identifier} {address : Lib.Bytes.Block 16} {endpoint : Endpoint} :
      geid.deviceAlias = .literal name → geid.endpointName = .literal endpointName →
      (if device = name then some ⟨List.replicate 15 0 ++ [1], length_localhost⟩
        else tables.findDevice name) = some address →
      tables.endpoints endpointName.val = some endpoint → endpoint.broadcast = true →
      Printed tables device (.atomic geid op (.float bits))
        (.eidvalue (printIpv6Address address) endpoint.eid op.code (tables.rereadFloat bits))
  | timeout {value : UInt32} : Printed tables device (.timeout (.uint value)) (.timeout value)
  | timer {field : TimeFields} {op : TimeOperator} {value : UInt32} :
      Printed tables device (.timer field op (.uint value)) (.datetime field.code op.code value)

theorem printAtomic_ok_iff {m : Nat} {geid : GlobalEndpointIdDoc} {op : CompOperator}
    {constant : ConstantDoc} {cond : Asm.HbaCond} :
    printAtomic tables machines device m geid op constant = .ok cond ↔
      Printed tables device (.atomic geid op constant) cond := by
  obtain ⟨deviceAlias, lineno, endpointName⟩ := geid
  constructor
  · intro h
    unfold printAtomic at h
    cases deviceAlias with
    | placeholder name => cases h
    | literal name =>
      cases endpointName with
      | placeholder name' =>
        by_cases hlocal : device = name <;> cases hdevice : tables.findDevice name <;>
          simp only [hlocal, hdevice, if_true, if_false] at h <;> cases h
      | literal name' =>
        cases hfind : tables.endpoints name'.val with
        | none =>
          by_cases hlocal : device = name <;> cases hdevice : tables.findDevice name <;>
            simp only [hlocal, hdevice, hfind, if_true, if_false] at h <;> cases h
        | some endpoint =>
          by_cases hlocal : device = name <;> cases hdevice : tables.findDevice name <;>
            by_cases hbroadcast : endpoint.broadcast = true <;> cases constant <;>
              simp only [hlocal, hdevice, hfind, hbroadcast, if_true, if_false] at h <;>
              cases h <;> exact .atomic rfl rfl (by simp [hlocal, hdevice]) hfind hbroadcast
  · intro h
    cases h with
    | @atomic _ _ _ name name' address endpoint halias hname haddress hfind hbroadcast =>
      obtain rfl : deviceAlias = .literal name := halias
      obtain rfl : endpointName = .literal name' := hname
      unfold printAtomic
      by_cases hlocal : device = name
      · rw [if_pos hlocal] at haddress
        cases haddress
        simp only [hfind, if_pos hlocal, if_pos hbroadcast]
        rfl
      · rw [if_neg hlocal] at haddress
        simp only [hfind, if_neg hlocal, if_pos hbroadcast, haddress]
        rfl

/-- The block of a condition. -/
theorem printCondition_ok_iff {w : Vertex} {condition : ConditionDoc}
    {blocks : List Asm.HbaDocBlock} :
    printCondition tables machines device w condition = .ok blocks ↔
      (blocks = [] ∧ ((∃ value, condition = .tautology value) ∨ condition.isCompound = true)) ∨
        ∃ cond, Printed tables device condition cond ∧
          blocks = [.condition ⟨0, condName w.machineId w.vertexId, cond, 0⟩] := by
  cases condition with
  | tautology value =>
    refine ⟨fun h => ?_, ?_⟩
    · cases h
      exact .inl ⟨rfl, .inl ⟨value, rfl⟩⟩
    · rintro (⟨rfl, -⟩ | ⟨cond, hprinted, -⟩)
      · rfl
      · cases hprinted
  | compound a op b =>
    refine ⟨fun h => ?_, ?_⟩
    · cases h
      exact .inl ⟨rfl, .inr rfl⟩
    · rintro (⟨rfl, -⟩ | ⟨cond, hprinted, -⟩)
      · rfl
      · cases hprinted
  | atomic geid op constant =>
    refine ⟨fun h => ?_, ?_⟩
    · obtain ⟨cond, hcond, hret⟩ := bind_ok_iff.mp h
      cases hret
      exact .inr ⟨cond, printAtomic_ok_iff.mp hcond, rfl⟩
    · rintro (⟨-, ⟨value, h⟩ | h⟩ | ⟨cond, hprinted, rfl⟩)
      · cases h
      · cases h
      · exact bind_ok_iff.mpr ⟨cond, printAtomic_ok_iff.mpr hprinted, rfl⟩
  | timeout seconds =>
    refine ⟨fun h => ?_, ?_⟩
    · cases seconds with
      | uint value =>
        cases h
        exact .inr ⟨_, .timeout, rfl⟩
      | _ => cases h
    · rintro (⟨-, ⟨value, h⟩ | h⟩ | ⟨cond, hprinted, rfl⟩)
      · cases h
      · cases h
      · cases hprinted
        rfl
  | timer field op value =>
    refine ⟨fun h => ?_, ?_⟩
    · cases value with
      | uint value =>
        cases h
        exact .inr ⟨_, .timer, rfl⟩
      | _ => cases h
    · rintro (⟨-, ⟨value, h⟩ | h⟩ | ⟨cond, hprinted, rfl⟩)
      · cases h
      · cases h
      · cases hprinted
        rfl

/-- What a vertex is printed as. -/
theorem mem_printConditions {w : Vertex} {blocks : List Asm.HbaDocBlock}
    (h : printConditions tables machines device w = .ok blocks) {block : Asm.HbaDocBlock}
    (hmem : block ∈ blocks) : ∃ condition cond, w.contents = .cond condition ∧
      Printed tables device condition cond ∧
      block = .condition ⟨0, condName w.machineId w.vertexId, cond, 0⟩ := by
  unfold printConditions at h
  split at h
  · next condition hcontents =>
    rcases printCondition_ok_iff.mp h with ⟨rfl, -⟩ | ⟨cond, hprinted, rfl⟩
    · cases hmem
    · exact ⟨condition, cond, hcontents, hprinted, List.mem_singleton.mp hmem⟩
  · cases h
    cases hmem

/-- The endpoint and the value that are printed for the commands of a block: without a command, or
with several, zeros. -/
inductive PrintedSet (tables : Tables) : List CommandDoc → UInt32 × UInt32 → Prop
  | one {command : CommandDoc} {name : Identifier} {endpoint : Endpoint} {bits : UInt32} :
      command.geid.endpointName = .literal name → tables.endpoints name.val = some endpoint →
      endpoint.write ≠ false → command.constant = .float bits →
      PrintedSet tables [command] (endpoint.eid, tables.rereadFloat bits)
  | other {commands : List CommandDoc} : (∀ command, commands ≠ [command]) →
      PrintedSet tables commands (0, 0)

theorem printSet_ok_iff {m : Nat} {commands : List CommandDoc} {set : UInt32 × UInt32} :
    printSet tables machines m commands = .ok set ↔ PrintedSet tables commands set := by
  constructor
  · intro h
    unfold printSet at h
    split at h
    · next command =>
      split at h
      · cases h
      · next name hname =>
        split at h
        · cases h
        · next endpoint hfind =>
          split at h
          · cases h
          · next hwrite =>
            split at h
            · next bits hbits =>
              cases h
              exact .one hname hfind hwrite hbits
            · cases h
    · next hne =>
      cases h
      exact .other hne
  · intro h
    unfold printSet
    cases h with
    | one hname hfind hwrite hbits => simp only [hname, hfind, if_neg hwrite, hbits]
    | other hne =>
      split
      · next command => exact absurd rfl (hne command)
      · rfl

/-- The blocks of one vertex. -/
theorem printConditions_spec {w : Vertex} {blocks : List Asm.HbaDocBlock}
    (h : printConditions tables machines device w = .ok blocks) :
    (Asm.conditionDocs blocks).map Asm.ConditionDoc.name = w.condNames ∧
      Asm.stateDocs blocks = [] := by
  unfold printConditions at h
  unfold Vertex.condNames
  cases hc : w.contents with
  | state => rw [hc] at h; cases h; exact ⟨rfl, rfl⟩
  | command block => rw [hc] at h; cases h; exact ⟨rfl, rfl⟩
  | cond condition =>
    rw [hc] at h
    rcases printCondition_ok_iff.mp h with ⟨rfl, ⟨value, rfl⟩ | hcompound⟩ | ⟨cond, hprinted, rfl⟩
    · exact ⟨rfl, rfl⟩
    · cases condition with
      | compound a op b => exact ⟨rfl, rfl⟩
      | _ => cases hcompound
    · cases hprinted <;> exact ⟨rfl, rfl⟩

/-- How a clause names its condition. -/
def clauseName (w : Vertex) : ConditionDoc → String
  | .tautology _ => "true"
  | _ => condName w.machineId w.vertexId

/-- The clause of a condition vertex, with its command vertex and its target. -/
theorem printClause_eq {g : Graph} {c m target : Nat} {w wm wt : Vertex}
    {condition : ConditionDoc} {block : CommandBlockDoc} (hw : g.vertices[c]? = some w)
    (hcondition : w.contents = .cond condition) (hm : g.adjacent c = [m])
    (hwm : g.vertices[m]? = some wm) (hblock : wm.contents = .command block)
    (htarget : g.adjacent m = [target]) (hwt : g.vertices[target]? = some wt)
    (hstate : wt.contents = .state) :
    printClause tables machines g c =
      (printSet tables machines wm.machineId block.commands).map fun set =>
        ⟨0, clauseName w condition, set.1, set.2, stateName wt.machineId wt.vertexId,
          stateName wt.machineId wt.vertexId⟩ := by
  obtain ⟨name, machineId, vertexId, contents⟩ := w
  obtain ⟨namem, machinem, vertexm, contentsm⟩ := wm
  obtain ⟨namet, machinet, vertext, contentst⟩ := wt
  simp only at hcondition hblock hstate
  subst hcondition hblock hstate
  unfold printClause
  cases hset : printSet tables machines machinem block.commands with
  | error e =>
    cases condition <;>
      simp only [hw, hm, hwm, htarget, hset, bind, Except.bind, Except.map]
  | ok set =>
    cases condition <;>
      simp only [hw, hm, hwm, htarget, hset, hwt, bind, Except.bind, Except.map, pure,
        Except.pure, clauseName]

/-- The clauses of the output of a graph. -/
def IsClauseOf (g : Graph) (clause : Asm.IfClauseDoc) : Prop :=
  ∃ (c : Nat) (w : Vertex) (condition : ConditionDoc), g.vertices[c]? = some w ∧
    w.contents = .cond condition ∧ clause.name = clauseName w condition

/-- A clause of a state, with the vertices it is printed from. -/
theorem WellFormed.clauseVertices {g : Graph} (hwf : WellFormed g) {u c : Nat}
    (hu : g.contents u = some .state) (hc : c ∈ g.adjacent u) :
    ∃ (w wm : Vertex) (condition : ConditionDoc) (block : CommandBlockDoc) (name : String),
      g.vertices[c]? = some w ∧ w.contents = .cond condition ∧ wm ∈ g.vertices ∧
      wm.contents = .command block ∧ ∀ (tables : Tables) (machines : List MachineDescriptor),
        printClause tables machines g c =
          (printSet tables machines wm.machineId block.commands).map fun set =>
            ⟨0, clauseName w condition, set.1, set.2, name, name⟩ := by
  obtain ⟨condition, hcond⟩ := hwf.ofState u hu c hc
  obtain ⟨m, block, hm, hblock⟩ := hwf.ofCond c condition hcond
  obtain ⟨target, htarget, hstate⟩ := hwf.ofCommand m block hblock
  obtain ⟨w, hw, hwc⟩ := exists_vertex hcond
  obtain ⟨wm, hwm, hwmc⟩ := exists_vertex hblock
  obtain ⟨wt, hwt, hwtc⟩ := exists_vertex hstate
  exact ⟨w, wm, condition, block, _, hw, hwc, List.mem_of_getElem? hwm, hwmc, fun tables machines =>
    printClause_eq hw hwc hm hwm hwmc htarget hwt hwtc⟩

theorem printState_spec {g : Graph} (hwf : WellFormed g) {v : Nat}
    {blocks : List Asm.HbaDocBlock} (h : printState tables machines g v = .ok blocks) :
    Asm.conditionDocs blocks = [] ∧
      ∀ doc ∈ Asm.stateDocs blocks, ∀ clause ∈ doc.ifClauses, IsClauseOf g clause := by
  unfold printState at h
  split at h
  · rename_i name machineId vertexId hv
    obtain ⟨clauses, hclauses, hret⟩ := bind_ok_iff.mp h
    cases hret
    refine ⟨rfl, fun doc hdoc clause hclause => ?_⟩
    obtain rfl := List.mem_singleton.mp hdoc
    obtain ⟨c, hc, hprint⟩ := exists_of_mapM_ok hclauses hclause
    obtain ⟨w, wm, condition, block, target, hw, hwc, -, -, heq⟩ :=
      hwf.clauseVertices (Graph.contents_of_vertex hv) hc
    rw [heq] at hprint
    cases hset : printSet tables machines wm.machineId block.commands with
    | error e => rw [hset] at hprint; cases hprint
    | ok set =>
      rw [hset] at hprint
      cases hprint
      exact ⟨c, w, condition, hw, hwc, rfl⟩
  · cases h
    exact ⟨rfl, fun doc hdoc => absurd hdoc List.not_mem_nil⟩

theorem conditions_flatten_spec {ws : List Vertex} {blocks : List (List Asm.HbaDocBlock)}
    (h : ws.mapM (printConditions tables machines device) = .ok blocks) :
    (Asm.conditionDocs blocks.flatten).map Asm.ConditionDoc.name =
      ws.flatMap Vertex.condNames ∧ Asm.stateDocs blocks.flatten = [] := by
  have hall := forall₂_of_mapM_ok h
  clear h
  induction hall with
  | nil => exact ⟨rfl, rfl⟩
  | @cons w blocks ws rest hw _ ih =>
    obtain ⟨hnames, hnone⟩ := printConditions_spec hw
    rw [List.flatten_cons, conditionDocs_append, stateDocs_append, List.map_append, hnames,
      hnone, ih.1, ih.2, List.flatMap_cons]
    exact ⟨rfl, rfl⟩

theorem states_flatten_spec {g : Graph} (hwf : WellFormed g) {vs : List Nat}
    {blocks : List (List Asm.HbaDocBlock)}
    (h : vs.mapM (printState tables machines g) = .ok blocks) :
    Asm.conditionDocs blocks.flatten = [] ∧
      ∀ doc ∈ Asm.stateDocs blocks.flatten, ∀ clause ∈ doc.ifClauses, IsClauseOf g clause := by
  have hall := forall₂_of_mapM_ok h
  clear h
  induction hall with
  | nil => exact ⟨rfl, fun doc hdoc => absurd hdoc List.not_mem_nil⟩
  | @cons v blocks vs rest hv _ ih =>
    obtain ⟨hnone, hclauses⟩ := printState_spec hwf hv
    rw [List.flatten_cons, conditionDocs_append, stateDocs_append, hnone, ih.1]
    refine ⟨rfl, fun doc hdoc => ?_⟩
    rcases List.mem_append.mp hdoc with hdoc | hdoc
    · exact hclauses doc hdoc
    · exact ih.2 doc hdoc

/-- The blocks of the whole output. -/
theorem hbaOutput_spec {g : Graph} (hwf : WellFormed g) {text : HbaText}
    (h : hbaOutput tables machines device g = .ok text) :
    (Asm.conditionDocs text.blocks).map Asm.ConditionDoc.name =
        g.vertices.flatMap Vertex.condNames ∧
      ∀ doc ∈ Asm.stateDocs text.blocks, ∀ clause ∈ doc.ifClauses, IsClauseOf g clause := by
  unfold hbaOutput at h
  split at h
  · cases h
  · obtain ⟨conditions, hconditions, hrest⟩ := bind_ok_iff.mp h
    obtain ⟨states, hstates, hret⟩ := bind_ok_iff.mp hrest
    cases hret
    have hconds := conditions_flatten_spec hconditions
    have hstate := states_flatten_spec hwf hstates
    simp only [conditionDocs_append, stateDocs_append, hconds.2, hstate.1, List.append_nil,
      List.nil_append]
    exact ⟨hconds.1, hstate.2⟩

end Hexabus.Hbc
