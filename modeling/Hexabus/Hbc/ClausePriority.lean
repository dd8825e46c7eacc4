import Hexabus.Hbc.Elimination
import Hexabus.Hbc.StateVertices

/-!
# The priority of clauses

The firmware takes the first clause of a state that holds, so the order of the clauses
decides. The compiler keeps it, except that the second part of an `or` goes behind all
clauses of its state.
-/

namespace Hexabus.Hbc

open Lib.Folds

variable {Event : Type} (holds : Event → ConditionDoc → Bool)

/-! ## Numbered clauses -/

/-- A clause of a state: the number of its guarded block in the machine, and a condition. -/
abbrev NumberedClause := Nat × ConditionDoc

/-- The clauses of a state in the order of the source. -/
def sourceClauses (blocks : List ResolvedBlock) (k : Nat) : List NumberedClause :=
  (clauseNumbers blocks k).filterMap fun j =>
    (blocks[j]?).map fun b => (j, b.block.condition)

/-- The number of the first clause that holds. -/
def firstClause (event : Event) (clauses : List NumberedClause) : Option Nat :=
  (clauses.find? fun c => holds event c.2).map Prod.fst

/-- Every `or` taken apart where it stands. -/
def inPlace (clauses : List NumberedClause) : List NumberedClause :=
  clauses.flatMap fun c => (c.1, c.2.firstPart) :: (c.2.secondPart.map fun b => (c.1, b)).toList

/-- All first parts, and behind them the second parts. -/
def secondPartsLast (clauses : List NumberedClause) : List NumberedClause :=
  clauses.map (fun c => (c.1, c.2.firstPart)) ++
    clauses.filterMap fun c => c.2.secondPart.map fun b => (c.1, b)

/-- Only the last clause may be an `or`. -/
def OrLast (clauses : List NumberedClause) : Prop :=
  ∀ c ∈ clauses.dropLast, c.2.secondPart = none

/-- Where the first clause that holds does so with its second part only, no first part of a
later clause holds. -/
def FirstPartsWait (event : Event) (clauses : List NumberedClause) : Prop :=
  ∀ c, clauses.find? (fun c => holds event c.2) = some c → holds event c.2.firstPart = false →
    ∀ c' ∈ clauses, c.1 < c'.1 → holds event c'.2.firstPart = false

/-- **When the clauses stay in their places**. -/
theorem secondPartsLast_eq_iff {clauses : List NumberedClause}
    (hordered : clauses.Pairwise fun c c' => c.1 < c'.1) :
    secondPartsLast clauses = inPlace clauses ↔ OrLast clauses := by
  induction clauses with
  | nil => exact ⟨fun _ _ hc => absurd hc List.not_mem_nil, fun _ => rfl⟩
  | cons c clauses ih =>
    obtain ⟨hlt, hrest⟩ := List.pairwise_cons.mp hordered
    unfold secondPartsLast inPlace at ih ⊢
    cases hsecond : c.2.secondPart with
    | none =>
      have hlast : OrLast (c :: clauses) ↔ OrLast clauses := by
        unfold OrLast
        cases clauses with
        | nil => simp
        | cons d rest =>
          rw [List.dropLast_cons_cons]
          exact ⟨fun h c' hc' => h c' (List.mem_cons_of_mem _ hc'), fun h c' hc' =>
            (List.mem_cons.mp hc').elim (fun heq => heq ▸ hsecond) (h c')⟩
      rw [hlast, ← ih hrest, List.map_cons, List.filterMap_cons, List.flatMap_cons, hsecond]
      simp only [Option.map_none, Option.toList_none, List.cons_append, List.nil_append,
        List.cons.injEq, true_and]
    | some b =>
      rw [List.map_cons, List.filterMap_cons, List.flatMap_cons, hsecond]
      simp only [Option.map_some, Option.toList_some, List.cons_append, List.nil_append,
        List.cons.injEq, true_and]
      cases clauses with
      | nil => exact ⟨fun _ _ hc => absurd hc List.not_mem_nil, fun _ => rfl⟩
      | cons d rest =>
        -- the next clause would have to be this one
        constructor
        · intro heq
          rw [List.map_cons, List.cons_append] at heq
          have hd : d.1 = c.1 := (Prod.mk.inj (List.cons.inj heq).1).1
          have := hlt d List.mem_cons_self
          omega
        · intro hlast
          have := hlast c (by rw [List.dropLast_cons_cons]; exact List.mem_cons_self)
          rw [hsecond] at this
          cases this

variable {holds}

theorem holds_eq_or (hholds : AndOr holds) (event : Event) (condition : ConditionDoc) :
    holds event condition = (holds event condition.firstPart ||
      condition.secondPart.any (holds event)) := by
  cases condition with
  | compound a op b =>
    cases op with
    | and => simp [ConditionDoc.firstPart, ConditionDoc.secondPart]
    | or => simp [ConditionDoc.firstPart, ConditionDoc.secondPart, hholds.or]
  | _ => simp [ConditionDoc.firstPart, ConditionDoc.secondPart]

theorem firstClause_secondPartsLast (event : Event) (clauses : List NumberedClause) :
    firstClause holds event (secondPartsLast clauses) =
      ((clauses.find? fun c => holds event c.2.firstPart).or
        (clauses.find? fun c => c.2.secondPart.any (holds event))).map Prod.fst := by
  have hsecond : ((clauses.filterMap fun c => c.2.secondPart.map fun b => (c.1, b)).find?
      fun c => holds event c.2).map Prod.fst =
      (clauses.find? fun c => c.2.secondPart.any (holds event)).map Prod.fst := by
    induction clauses with
    | nil => rfl
    | cons c clauses ih =>
      rw [List.filterMap_cons, List.find?_cons]
      cases hb : c.2.secondPart with
      | none => simpa using ih
      | some b =>
        simp only [Option.map_some, Option.any_some, List.find?_cons]
        cases holds event b with
        | true => rfl
        | false => exact ih
  unfold firstClause secondPartsLast
  rw [List.find?_append, Option.map_or, Option.map_or, hsecond, List.find?_map, Option.map_map]
  rfl

/-- **When the same clause fires**. -/
theorem firstClause_eq_iff (hholds : AndOr holds) {clauses : List NumberedClause}
    (hordered : clauses.Pairwise fun c c' => c.1 < c'.1) (event : Event) :
    firstClause holds event (secondPartsLast clauses) = firstClause holds event clauses ↔
      FirstPartsWait holds event clauses := by
  rw [firstClause_secondPartsLast]
  unfold firstClause FirstPartsWait
  have hor := holds_eq_or hholds event
  cases hfind : clauses.find? fun c => holds event c.2 with
  | none =>
    refine ⟨fun _ c hc => absurd hc (by simp), fun _ => ?_⟩
    have hno := List.find?_eq_none.mp hfind
    have hboth : ∀ c ∈ clauses, holds event c.2.firstPart = false ∧
        c.2.secondPart.any (holds event) = false := by
      intro c hc
      have := Bool.eq_false_of_not_eq_true (hno c hc)
      rw [hor] at this
      exact Bool.or_eq_false_iff.mp this
    rw [List.find?_eq_none.mpr fun c hc => by rw [(hboth c hc).1]; exact Bool.false_ne_true,
      List.find?_eq_none.mpr fun c hc => by rw [(hboth c hc).2]; exact Bool.false_ne_true]
    rfl
  | some c =>
    obtain ⟨hc, before, after, hsplit, hbefore⟩ := List.find?_eq_some_iff_append.mp hfind
    have hbefore' : ∀ a ∈ before, (holds event a.2.firstPart ||
        a.2.secondPart.any (holds event)) = false := by
      intro a ha
      rw [← hor]
      simpa using hbefore a ha
    cases hfirst : holds event c.2.firstPart with
    | true =>
      -- the clause is found with its first part
      have hfind' : clauses.find? (fun c => holds event c.2.firstPart) = some c := by
        rw [hsplit, List.find?_append, List.find?_eq_none.mpr fun a ha => by
          rw [(Bool.or_eq_false_iff.mp (hbefore' a ha)).1]; exact Bool.false_ne_true,
          Option.none_or, List.find?_cons_of_pos (by simpa using hfirst)]
      rw [hfind']
      refine ⟨fun _ c' hc' hno => ?_, fun _ => rfl⟩
      cases hc'
      rw [hfirst] at hno
      cases hno
    | false =>
      have hsecond : c.2.secondPart.any (holds event) = true := by
        rw [hor, hfirst, Bool.false_or] at hc
        exact hc
      obtain ⟨-, hapart⟩ := find?_or_split hsplit hbefore' hfirst hsecond
      rw [hapart]
      have hlater : ∀ c' ∈ after, c.1 < c'.1 := by
        rw [hsplit] at hordered
        exact (List.pairwise_cons.mp (List.pairwise_append.mp hordered).2.1).1
      have hearlier : ∀ c' ∈ before, c'.1 < c.1 := by
        rw [hsplit] at hordered
        exact fun c' hc' => (List.pairwise_append.mp hordered).2.2 c' hc' c List.mem_cons_self
      constructor
      · intro heq c₁ hc₁ _ c' hc' hlt
        obtain rfl := Option.some.inj hc₁
        have hmem : c' ∈ after := by
          rw [hsplit] at hc'
          rcases List.mem_append.mp hc' with hc' | hc'
          · have := hearlier c' hc'
            omega
          · rcases List.mem_cons.mp hc' with rfl | hc'
            · omega
            · exact hc'
        cases hfind' : after.find? fun c => holds event c.2.firstPart with
        | none => simpa using List.find?_eq_none.mp hfind' c' hmem
        | some d =>
          -- a later clause would fire
          rw [hfind'] at heq
          have hd := hlater d (List.mem_of_find?_eq_some hfind')
          have : d.1 = c.1 := Option.some.inj heq
          omega
      · intro hwait
        rw [List.find?_eq_none.mpr fun a ha => by
          rw [hwait c rfl hfirst a (hsplit ▸ List.mem_append_right _ (List.mem_cons_of_mem _ ha))
            (hlater a ha)]
          exact Bool.false_ne_true, Option.none_or]

/-! ## Compiled clauses -/

namespace Graph

variable (g : Graph)

/-- The vertex whose condition a condition vertex of the halved graph is a part of. -/
def wholeOf (v : Nat) : Nat :=
  if v < g.size then v
  else ((List.range g.size).find? fun c => (g.splits c).isSome && decide (g.newCond c = v)).getD v

variable {g}

theorem wholeOf_old {v : Nat} (hv : v < g.size) : g.wholeOf v = v := if_pos hv

theorem wholeOf_newCond {c : Nat} (hc : (g.splits c).isSome = true) :
    g.wholeOf (g.newCond c) = c := by
  have hge : g.size ≤ g.newCond c := Nat.le_add_right _ _
  obtain ⟨b, hb⟩ := Option.isSome_iff_exists.mp hc
  obtain ⟨a, ha⟩ := splits_eq_some hb
  unfold wholeOf
  rw [if_neg (by omega)]
  cases hfind : (List.range g.size).find? fun c' =>
      (g.splits c').isSome && decide (g.newCond c' = g.newCond c) with
  | none =>
    have := List.find?_eq_none.mp hfind c (List.mem_range.mpr (contents_lt ha))
    simp [hc] at this
  | some c' =>
    have hc' := List.find?_some hfind
    rw [Bool.and_eq_true, decide_eq_true_eq] at hc'
    rcases Nat.lt_trichotomy c c' with hlt | rfl | hlt
    · have := newCond_lt hc hlt
      omega
    · rfl
    · have := newCond_lt hc'.1 hlt
      omega

end Graph

/-- The clauses of a state in the graph that a file is printed from; a clause has the number
that its vertex, or the vertex it was a part of, has in the graph of the machine. -/
def compiledClauses (machine g : Graph) (k : Nat) : List NumberedClause :=
  (g.adjacent k).filterMap fun v =>
    match machine.vertices[machine.wholeOf v]?, g.contents v with
    | some w, some (.cond condition) => some (w.vertexId, condition)
    | _, _ => none

/-- **The order that the passes leave**. -/
theorem compiledClauses_eq {machineId : Nat} {sm : StatemachineDoc} {blocks : List ResolvedBlock}
    {g g' g'' : Graph} {maxId k : Nat} (hslice : Slice g machineId sm blocks)
    (hhalved : HalvedUpto g g' maxId g.size) (hup : Upto g' g'' g'.size)
    (hk : k < sm.stateset.length) :
    compiledClauses g g'' k = secondPartsLast (sourceClauses blocks k) := by
  have hg := hslice.machineGraph
  have hstate := Graph.contents_of_vertex (hslice.shape.state k _ (List.getElem?_eq_getElem hk))
  rw [Nat.zero_add] at hstate
  have hadjacent := hslice.shape.ofState k hk
  rw [Nat.zero_add] at hadjacent
  -- the vertices of a block
  have hblock : ∀ j b, blocks[j]? = some b → ∃ w, g.vertices[0 + sm.stateset.length + 2 * j]? =
      some w ∧ w.vertexId = j ∧ w.contents = .cond b.block.condition := by
    intro j b hb
    obtain ⟨name, -, hw⟩ := hslice.shape.cond j b hb
    exact ⟨_, hw, rfl, rfl⟩
  have hsame : ∀ v c, g'.contents v = some (.cond c) → g''.contents v = some (.cond c) := by
    intro v c hv
    refine (hup.same_of_not_command (Graph.contents_lt hv) fun block hb => ?_).1.trans hv
    rw [hv] at hb
    cases hb
  have hadj : g''.adjacent k = g.adjacent k ++ newClauses g g.size k := by
    have hstate' := hhalved.contents_old hstate
    rw [← hhalved.adjacent k (Graph.contents_lt hstate)]
    refine (hup.same_of_not_command (Graph.contents_lt hstate') fun block hb => ?_).2
    rw [hstate'] at hb
    cases hb
  unfold compiledClauses secondPartsLast newClauses at *
  rw [hadj, List.filterMap_append, List.filterMap_map, List.filterMap_filter, hadjacent,
    List.filterMap_map, List.filterMap_map]
  unfold sourceClauses
  rw [List.map_filterMap, List.filterMap_filterMap]
  congr 1
  · refine List.filterMap_congr fun j hj => ?_
    obtain ⟨b, hb, -⟩ := mem_clauseNumbers.mp hj
    obtain ⟨w, hw, hid, hc⟩ := hblock j b hb
    have hcontents : g.contents (0 + sm.stateset.length + 2 * j) =
        some (.cond b.block.condition) := by rw [Graph.contents_of_vertex hw, hc]
    simp only [Function.comp_apply]
    rw [Graph.wholeOf_old (Graph.contents_lt hcontents), hw,
      hsame _ _ (hhalved.contents_old hcontents), hb]
    simp only [hid, Option.map_some]
  · refine List.filterMap_congr fun j hj => ?_
    obtain ⟨b, hb, -⟩ := mem_clauseNumbers.mp hj
    obtain ⟨w, hw, hid, hc⟩ := hblock j b hb
    have hcontents : g.contents (0 + sm.stateset.length + 2 * j) =
        some (.cond b.block.condition) := by rw [Graph.contents_of_vertex hw, hc]
    have hlt := Graph.contents_lt hcontents
    have hsplits := Graph.splits_of_contents hcontents
    simp only [Function.comp_apply]
    rw [hb]
    cases hsecond : b.block.condition.secondPart with
    | none =>
      rw [hsplits, hsecond]
      simp [hsecond]
    | some part =>
      rw [hsecond] at hsplits
      rw [hsplits, Graph.wholeOf_newCond (by rw [hsplits]; rfl), hw,
        hsame _ _ (hhalved.contents_newCond hsplits), decide_eq_true hlt]
      simp [hsecond, hid]

/-! ## The output -/

variable {tables : Tables} {machines : List MachineDescriptor} {device : Identifier}
  {fp : FloatPrinter}

/-- The block of a state has its clauses in the order of the edges. -/
theorem hbaOutput_state {g : Graph} {text : HbaText}
    (h : hbaOutput tables machines device g = .ok text) {v : Nat} {w : Vertex}
    (hw : g.vertices[v]? = some w) (hs : w.contents = .state) :
    ∃ clauses, (g.adjacent v).mapM (printClause tables machines g) = .ok clauses ∧
      .state ⟨0, stateName w.machineId w.vertexId, clauses, 0⟩ ∈ text.blocks := by
  unfold hbaOutput at h
  split at h
  · cases h
  · obtain ⟨conditions, -, hrest⟩ := bind_ok_iff.mp h
    obtain ⟨states, hstates, hret⟩ := bind_ok_iff.mp hrest
    cases hret
    have hlt : v < g.size := (List.getElem?_eq_some_iff.mp hw).1
    obtain ⟨blocks, hblocks, hprint⟩ := mem_of_mapM_ok hstates (List.mem_range.mpr hlt)
    obtain ⟨name, machineId, vertexId, contents⟩ := w
    obtain rfl := hs
    unfold printState at hprint
    rw [hw] at hprint
    obtain ⟨clauses, hclauses, hret⟩ := bind_ok_iff.mp hprint
    cases hret
    refine ⟨clauses, hclauses, List.mem_append_right _ (List.mem_flatten.mpr ⟨_, hblocks, ?_⟩)⟩
    exact List.mem_singleton_self _

variable (tables fp) in
/-- The file of a device, with its machine, the graph of the machine and the graph that the
file is printed from. -/
structure CompiledFrom (hbc : HbcDoc) (device : Identifier) (text : HbaText) (machineId : Nat)
    (sm : StatemachineDoc) (g g'' : Graph) : Prop where
  machine : DeviceGraph hbc device machineId sm g
  passes : (expandComplexConditions fp g >>= expandMultipleWrites fp) = .ok g''
  printed : ∃ machines, hbaOutput tables machines device g'' = .ok text ∧
    ∀ k, k < sm.stateset.length → ∃ clauses,
      (g''.adjacent k).mapM (printClause tables machines g'') = .ok clauses ∧
      .state ⟨0, stateName machineId k, clauses, 0⟩ ∈ text.blocks

theorem hbcomp_compiledFrom {hbc : HbcDoc} {files : List (Identifier × HbaText)}
    (h : hbcomp tables fp hbc = .ok files) {text : HbaText} (hmem : (device, text) ∈ files) :
    ∃ machineId sm g g'', CompiledFrom tables fp hbc device text machineId sm g g'' ∧
      ∀ k, k < sm.stateset.length →
        compiledClauses g g'' k = secondPartsLast (sourceClauses sm.resolved k) := by
  obtain ⟨machines, machineId, sm, g, g', g'', hgraph, hrun, hwrites, houtput⟩ := hbcomp_ok h hmem
  have hslice := hgraph.2.2.2
  have hg := hslice.machineGraph
  obtain ⟨h₁, maxId, hrun₁, hhalved⟩ := expandComplexConditions_spec fp hg
  obtain rfl : g' = h₁ := Except.ok.inj (hrun.symm.trans hrun₁)
  obtain ⟨h₂, hrun₂, hup⟩ := expandMultipleWrites_spec fp (hhalved.wellFormed hg)
  obtain rfl : g'' = h₂ := Except.ok.inj (hwrites.symm.trans hrun₂)
  have hkeeps := (keepsStates_expandComplexConditions hg hslice.quiet hrun).trans
    (keepsStates_expandMultipleWrites hwrites)
  refine ⟨machineId, sm, g, g'', ⟨hgraph, bind_ok_iff.mpr ⟨g', hrun, hwrites⟩, machines, houtput,
    fun k hk => ?_⟩, fun k hk => ?_⟩
  · have hstate := hslice.shape.state k _ (List.getElem?_eq_getElem hk)
    rw [Nat.zero_add] at hstate
    have hvertex := hkeeps.states k _ hstate rfl
    obtain ⟨clauses, hclauses, hblock⟩ := hbaOutput_state houtput hvertex rfl
    exact ⟨clauses, hclauses, hblock⟩
  · rw [compiledClauses_eq hslice hhalved hup hk]
    congr 1
    unfold sourceClauses
    rw [clauseNumbers_ownBlock]
    refine List.filterMap_congr fun j _ => ?_
    rw [List.getElem?_map, Option.map_map]
    rfl

theorem ordered_sourceClauses (blocks : List ResolvedBlock) (k : Nat) :
    (sourceClauses blocks k).Pairwise fun c c' => c.1 < c'.1 := by
  unfold sourceClauses
  refine List.pairwise_filterMap.mpr ((pairwise_clauseNumbers blocks k).imp ?_)
  intro i j hij c hc c' hc'
  obtain ⟨b, -, rfl⟩ := Option.map_eq_some_iff.mp hc
  obtain ⟨b', -, rfl⟩ := Option.map_eq_some_iff.mp hc'
  exact hij

/-- **Clause priority**: the clauses of a state come in the order of the source, every `or`
taken apart in its place, exactly if only the last of them may be an `or`; and an event fires
the first clause of the source that holds exactly if, where that clause holds with its second
part only, no first part of a later clause holds. -/
theorem clausePriority_iff {hbc : HbcDoc} {files : List (Identifier × HbaText)}
    (h : hbcomp tables fp hbc = .ok files) (hholds : AndOr holds) {text : HbaText}
    (hmem : (device, text) ∈ files) :
    ∃ machineId sm g g'', CompiledFrom tables fp hbc device text machineId sm g g'' ∧
      ∀ k, k < sm.stateset.length →
        (compiledClauses g g'' k = inPlace (sourceClauses sm.resolved k) ↔
          OrLast (sourceClauses sm.resolved k)) ∧
        ∀ event, firstClause holds event (compiledClauses g g'' k) =
            firstClause holds event (sourceClauses sm.resolved k) ↔
          FirstPartsWait holds event (sourceClauses sm.resolved k) := by
  obtain ⟨machineId, sm, g, g'', hfrom, hclauses⟩ := hbcomp_compiledFrom h hmem
  refine ⟨machineId, sm, g, g'', hfrom, fun k hk => ?_⟩
  have hordered := ordered_sourceClauses sm.resolved k
  rw [hclauses k hk]
  exact ⟨secondPartsLast_eq_iff hordered, fun event => firstClause_eq_iff hholds hordered event⟩

/-! ## Two clauses -/

theorem isIdentifier_lamp : isIdentifier "lamp".toList = true := rfl

theorem isIdentifier_button : isIdentifier "button".toList = true := rfl

def lampName : Identifier := ⟨"lamp".toList, isIdentifier_lamp⟩

def buttonName : Identifier := ⟨"button".toList, isIdentifier_button⟩

/-- The lamp and the button. -/
def lampTables : Tables where
  devices := [(lampName, ⟨List.replicate 16 1, List.length_replicate⟩),
    (buttonName, ⟨List.replicate 16 2, List.length_replicate⟩)]
  endpoints _ := some ⟨1, true, true⟩
  machineId _ := []
  rereadFloat bits := bits

/-- One state with a clause that switches the lamp on and one that switches it off. -/
def twoClauses (on off : ConditionDoc) : StatemachineDoc where
  lineno := 1
  name := "lamps".toList
  stateset := [initName]
  inClauses := [⟨1, initName, [
    ⟨⟨on, ⟨[lampWrite lampEndpoint 0x3f800000], ⟨1, initName⟩⟩⟩, []⟩,
    ⟨⟨off, ⟨[lampWrite lampEndpoint 0], ⟨1, initName⟩⟩⟩, []⟩]⟩]
  readFromFile := "lamps.hbc".toList

/-- The lamp goes on with `pressed == 0 || pressed == 1`, and off with `pressed == 1`. -/
def overtakenProgram : HbcDoc :=
  [twoClauses (.compound (buttonIs 0) .or (buttonIs 0x3f800000)) (buttonIs 0x3f800000)]

theorem overtakenProgram_compiles : ∃ text, hbcomp lampTables bitPrinter overtakenProgram =
    .ok [(lampName, text)] :=
  ⟨_, rfl⟩

/-- The theorem at this program. -/
theorem overtakenProgram_priority_iff : ∃ text,
    hbcomp lampTables bitPrinter overtakenProgram = .ok [(lampName, text)] ∧
    ∃ machineId sm g g'', CompiledFrom lampTables bitPrinter overtakenProgram
        lampName text machineId sm g g'' ∧
      ∀ k, k < sm.stateset.length →
        (compiledClauses g g'' k = inPlace (sourceClauses sm.resolved k) ↔
          OrLast (sourceClauses sm.resolved k)) ∧
        ∀ event, firstClause (fun event => ConditionDoc.eval (buttonHolds event)) event
            (compiledClauses g g'' k) =
              firstClause (fun event => ConditionDoc.eval (buttonHolds event)) event
                (sourceClauses sm.resolved k) ↔
          FirstPartsWait (fun event => ConditionDoc.eval (buttonHolds event)) event
            (sourceClauses sm.resolved k) := by
  obtain ⟨text, h⟩ := overtakenProgram_compiles
  exact ⟨text, h, clausePriority_iff h (andOr_eval buttonHolds) (List.mem_singleton_self _)⟩

/-- **A clause is overtaken**: when the button is pressed, both clauses hold. The first of
the source switches the lamp on, but in the file the second one comes before the part of the
first that holds. -/
theorem overtakenProgram_fires_second : ∃ text sm g g'',
    hbcomp lampTables bitPrinter overtakenProgram = .ok [(lampName, text)] ∧
    overtakenProgram = [sm] ∧
    CompiledFrom lampTables bitPrinter overtakenProgram lampName text 0 sm g g'' ∧
    firstClause (fun event => ConditionDoc.eval (buttonHolds event)) 0x3f800000
      (sourceClauses sm.resolved 0) = some 0 ∧
    firstClause (fun event => ConditionDoc.eval (buttonHolds event)) 0x3f800000
      (compiledClauses g g'' 0) = some 1 := by
  obtain ⟨text, h⟩ := overtakenProgram_compiles
  obtain ⟨machineId, sm, g, g'', hfrom, hclauses⟩ :=
    hbcomp_compiledFrom h (List.mem_singleton_self _)
  have hsm := hfrom.machine.1
  cases machineId with
  | succ m => cases hsm
  | zero =>
    cases hsm
    refine ⟨text, _, g, g'', h, rfl, hfrom, by decide, ?_⟩
    rw [hclauses 0 (by decide)]
    decide

end Hexabus.Hbc
