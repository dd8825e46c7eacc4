import Hexabus.Asm.Emission
import Hexabus.Hbc.DtypeFile
import Hexabus.Hbc.Elimination
import Hexabus.Hbc.Expanded
import Hexabus.Hbc.StartState

/-!
# What the assembler accepts

A printed file is accepted with the generated data type file if its clauses name conditions
that have a block, and the ids in it are in the file.
-/

namespace Hexabus.Hbc

open Lib.Folds

/-! ## Endpoint ids -/

/-- If the endpoint is in the table, its id is an `int`. -/
def HasIntId (table : List EndpointEntry) (element : GeidElement) : Prop :=
  ∀ (name : Identifier) (endpoint : Endpoint), element = .literal name →
    findEndpoint table name.val = some endpoint → endpoint.eid.toNat ≤ Asm.intMax

/-- Some endpoint has the id of the `set` line without a write. -/
def HasZeroId (table : List EndpointEntry) : Prop := ∃ entry ∈ table, entry.endpoint.eid = 0

/-- The clauses of a graph name conditions with a block, and the ids are in the data type
file. -/
structure ClausesKnown (table : List EndpointEntry) (g : Graph) : Prop where
  asked : ∀ v geid op constant, g.contents v = some (.cond (.atomic geid op constant)) →
    HasIntId table geid.endpointName
  named : ∀ u c condition, g.contents u = some .state → c ∈ g.adjacent u →
    g.contents c = some (.cond condition) → condition.isCompound = false
  written : ∀ u c m command goto, g.contents u = some .state → c ∈ g.adjacent u →
    (g.adjacent c).head? = some m → g.contents m = some (.command ⟨[command], goto⟩) →
    HasIntId table command.geid.endpointName
  idle : ∀ u c m block, g.contents u = some .state → c ∈ g.adjacent u →
    (g.adjacent c).head? = some m → g.contents m = some (.command block) →
    (∀ command, block.commands ≠ [command]) → HasZeroId table

variable {tables : Tables} {table : List EndpointEntry} {machines : List MachineDescriptor}
  {device : Identifier} {env : Asm.Environment} {g : Graph} {text : HbaText}

/-! ## What is printed -/

variable (tables machines) in
/-- The second half of `printClause`, from the command vertex. -/
def clauseFrom (g : Graph) (name : String) (m : Nat) : Except HbcError Asm.IfClauseDoc := do
  let (machineId, block, target) ← match g.vertices[m]?, g.adjacent m with
    | some ⟨_, machineId, _, .command block⟩, target :: _ => .ok (machineId, block, target)
    | some ⟨_, _, _, .command _⟩, [] => .error .danglingEdge
    | _, _ => .error .otherVertexExpected
  let (eid, value) ← printSet tables machines machineId block.commands
  match g.vertices[target]? with
  | some ⟨_, machineId, vertexId, .state⟩ =>
    let name' := stateName machineId vertexId
    return ⟨0, name, eid, value, name', name'⟩
  | _ => .error .otherVertexExpected

theorem printClause_eq_clauseFrom {c m : Nat} {rest : List Nat} {w : Vertex}
    {condition : ConditionDoc} (hw : g.vertices[c]? = some w)
    (hcondition : w.contents = .cond condition) (hadj : g.adjacent c = m :: rest) :
    printClause tables machines g c
      = clauseFrom tables machines g (clauseName w condition) m := by
  obtain ⟨name, machineId, vertexId, contents⟩ := w
  subst hcondition
  unfold printClause
  rw [hw, hadj]
  cases condition <;> rfl

theorem clauseFrom_ok {name : String} {m : Nat} {clause : Asm.IfClauseDoc}
    (h : clauseFrom tables machines g name m = .ok clause) :
    ∃ (wm wt : Vertex) (block : CommandBlockDoc) (target : Nat) (set : UInt32 × UInt32),
      g.vertices[m]? = some wm ∧ wm.contents = .command block ∧
      g.vertices[target]? = some wt ∧ wt.contents = .state ∧
      printSet tables machines wm.machineId block.commands = .ok set ∧
      clause = ⟨0, name, set.1, set.2, stateName wt.machineId wt.vertexId,
        stateName wt.machineId wt.vertexId⟩ := by
  unfold clauseFrom at h
  dsimp only at h
  split at h
  · rename_i namem machinem vertexm block target rest hwm _
    obtain ⟨_, hparts, h⟩ := bind_ok_iff.mp h
    cases hparts
    obtain ⟨set, hset, h⟩ := bind_ok_iff.mp h
    split at h
    · rename_i namet machinet vertext hwt
      cases h
      exact ⟨_, _, block, target, set, hwm, rfl, hwt, rfl, hset, rfl⟩
    · cases h
  · cases h
  · cases h

/-- The vertices that a clause is printed from. -/
theorem printClause_ok {c : Nat} {clause : Asm.IfClauseDoc}
    (h : printClause tables machines g c = .ok clause) :
    ∃ (w : Vertex) (condition : ConditionDoc) (m : Nat), g.vertices[c]? = some w ∧
      w.contents = .cond condition ∧ (g.adjacent c).head? = some m ∧
      clauseFrom tables machines g (clauseName w condition) m = .ok clause := by
  have hcases : ∃ (w : Vertex) (condition : ConditionDoc) (m : Nat) (rest : List Nat),
      g.vertices[c]? = some w ∧ w.contents = .cond condition ∧ g.adjacent c = m :: rest := by
    unfold printClause at h
    dsimp only at h
    split at h
    · rename_i name machineId vertexId condition m rest hw hadj
      exact ⟨_, condition, m, rest, hw, rfl, hadj⟩
    · cases h
    · cases h
  obtain ⟨w, condition, m, rest, hw, hcondition, hadj⟩ := hcases
  rw [printClause_eq_clauseFrom hw hcondition hadj] at h
  exact ⟨w, condition, m, hw, hcondition, by rw [hadj]; rfl, h⟩

/-- The blocks of a printed file are those of its vertices. -/
theorem mem_blocks_iff (h : hbaOutput tables machines device g = .ok text)
    {block : Asm.HbaDocBlock} : block ∈ text.blocks ↔
      (∃ w ∈ g.vertices, ∃ blocks, printConditions tables machines device w = .ok blocks ∧
        block ∈ blocks) ∨
      ∃ v < g.size, ∃ blocks, printState tables machines g v = .ok blocks ∧ block ∈ blocks := by
  unfold hbaOutput at h
  split at h
  · cases h
  · obtain ⟨conditions, hconditions, h⟩ := bind_ok_iff.mp h
    obtain ⟨states, hstates, h⟩ := bind_ok_iff.mp h
    cases h
    simp only [List.mem_append, List.mem_flatten]
    constructor
    · rintro (⟨blocks, hblocks, hmem⟩ | ⟨blocks, hblocks, hmem⟩)
      · obtain ⟨w, hw, hprint⟩ := exists_of_mapM_ok hconditions hblocks
        exact .inl ⟨w, hw, blocks, hprint, hmem⟩
      · obtain ⟨v, hv, hprint⟩ := exists_of_mapM_ok hstates hblocks
        exact .inr ⟨v, List.mem_range.mp hv, blocks, hprint, hmem⟩
    · rintro (⟨w, hw, blocks, hprint, hmem⟩ | ⟨v, hv, blocks, hprint, hmem⟩)
      · obtain ⟨blocks', hblocks', hprint'⟩ := mem_of_mapM_ok hconditions hw
        rw [hprint] at hprint'
        cases hprint'
        exact .inl ⟨blocks, hblocks', hmem⟩
      · obtain ⟨blocks', hblocks', hprint'⟩ := mem_of_mapM_ok hstates (List.mem_range.mpr hv)
        rw [hprint] at hprint'
        cases hprint'
        exact .inr ⟨blocks, hblocks', hmem⟩

/-- Every vertex of a printed file has been printed. -/
theorem printed (h : hbaOutput tables machines device g = .ok text) :
    (∀ w ∈ g.vertices, ∃ blocks, printConditions tables machines device w = .ok blocks) ∧
      ∀ v < g.size, ∃ blocks, printState tables machines g v = .ok blocks := by
  unfold hbaOutput at h
  split at h
  · cases h
  · obtain ⟨conditions, hconditions, h⟩ := bind_ok_iff.mp h
    obtain ⟨states, hstates, h⟩ := bind_ok_iff.mp h
    refine ⟨fun w hw => ?_, fun v hv => ?_⟩
    · obtain ⟨blocks, -, hprint⟩ := mem_of_mapM_ok hconditions hw
      exact ⟨blocks, hprint⟩
    · obtain ⟨blocks, -, hprint⟩ := mem_of_mapM_ok hstates (List.mem_range.mpr hv)
      exact ⟨blocks, hprint⟩

/-- A state's block, and its clauses. -/
theorem printState_ok {u : Nat} {blocks : List Asm.HbaDocBlock}
    (h : printState tables machines g u = .ok blocks) {block : Asm.HbaDocBlock}
    (hmem : block ∈ blocks) : ∃ (w : Vertex) (clauses : List Asm.IfClauseDoc),
      g.vertices[u]? = some w ∧ w.contents = .state ∧
      (g.adjacent u).mapM (printClause tables machines g) = .ok clauses ∧
      block = .state ⟨0, stateName w.machineId w.vertexId, clauses, 0⟩ := by
  unfold printState at h
  split at h
  · rename_i name machineId vertexId hw
    obtain ⟨clauses, hclauses, h⟩ := bind_ok_iff.mp h
    cases h
    exact ⟨_, clauses, hw, rfl, hclauses, List.mem_singleton.mp hmem⟩
  · cases h
    exact absurd hmem List.not_mem_nil

/-! ## Data types of what is printed -/

theorem printSet_datatype {m : Nat} {commands : List CommandDoc} {set : UInt32 × UInt32}
    (h : printSet (tables.withEndpoints table) machines m commands = .ok set) :
    ((env.withDatatypes (dtypeFile table)).datatypes set.1).isSome = true ↔
      (∀ command, commands = [command] → HasIntId table command.geid.endpointName) ∧
        ((∀ command, commands ≠ [command]) → HasZeroId table) := by
  cases printSet_ok_iff.mp h with
  | @one command name endpoint _ hname hfind =>
    refine (isSome_of_findEndpoint hfind).trans ⟨fun hle => ⟨?_, ?_⟩, fun hint => ?_⟩
    · rintro command' heq name' endpoint' hname' hfind'
      cases heq
      cases hname.symm.trans hname'
      cases hfind.symm.trans hfind'
      exact hle
    · exact fun hne => absurd rfl (hne command)
    · exact hint.1 command rfl name endpoint hname hfind
  | other hne =>
    exact isSome_zero.trans ⟨fun h => ⟨fun command heq => absurd heq (hne command), fun _ => h⟩,
      fun h => h.2 hne⟩

/-- The assembler takes the block of a condition if it knows the endpoint. -/
theorem printConditions_resolves {w : Vertex} {blocks : List Asm.HbaDocBlock}
    (h : printConditions (tables.withEndpoints table) machines device w = .ok blocks)
    {block : Asm.HbaDocBlock} (hmem : block ∈ blocks) :
    Asm.BlockResolves (env.withDatatypes (dtypeFile table)) text.blocks block ↔
      ∀ geid op constant, w.contents = .cond (.atomic geid op constant) →
        HasIntId table geid.endpointName := by
  obtain ⟨condition, cond, hcontents, hprinted, rfl⟩ := mem_printConditions h hmem
  rw [hcontents]
  cases hprinted with
  | @atomic geid op bits _ name _ endpoint _ hname _ hfind =>
    refine (isSome_of_findEndpoint hfind).trans ⟨fun hle => ?_, fun hint => ?_⟩
    · rintro geid' op' constant' heq name' endpoint' hname' hfind'
      cases heq
      cases hname.symm.trans hname'
      cases hfind.symm.trans hfind'
      exact hle
    · exact hint geid op (.float bits) rfl name endpoint hname hfind
  | timeout => exact ⟨fun _ _ _ _ heq => (by cases heq), fun _ => trivial⟩
  | timer => exact ⟨fun _ _ _ _ heq => (by cases heq), fun _ => trivial⟩

/-! ## Names -/

theorem condName_cons (m v : Nat) : ∃ rest, (condName m v).toList = 'c' :: rest := by
  unfold condName
  rw [String.toList_ofList]
  exact ⟨_, rfl⟩

theorem stateName_cons (m v : Nat) : ∃ rest, (stateName m v).toList = 's' :: rest := by
  unfold stateName
  rw [String.toList_ofList]
  exact ⟨_, rfl⟩

theorem condName_ne_true (m v : Nat) : condName m v ≠ "true" := by
  intro h
  obtain ⟨rest, hcons⟩ := condName_cons m v
  rw [h] at hcons
  cases hcons

theorem condName_ne_stateName (m v m' v' : Nat) : condName m v ≠ stateName m' v' := by
  intro h
  obtain ⟨rest, hcons⟩ := condName_cons m v
  obtain ⟨rest', hcons'⟩ := stateName_cons m' v'
  rw [h, hcons'] at hcons
  cases hcons

/-- No block has the name of a condition that is still compound. -/
def NamesApart (g : Graph) : Prop :=
  ∀ w ∈ g.vertices, ∀ w' ∈ g.vertices, ∀ a op b, w.contents = .cond (.compound a op b) →
    condName w.machineId w.vertexId ∉ w'.condNames

theorem bears_stateName (h : hbaOutput tables machines device g = .ok text) {u : Nat} {w : Vertex}
    (hw : g.vertices[u]? = some w) (hstate : w.contents = .state) :
    Asm.Bears text.blocks (stateName w.machineId w.vertexId) := by
  have hlt : u < g.size := (List.getElem?_eq_some_iff.mp hw).1
  obtain ⟨blocks, hblocks⟩ := (printed h).2 u hlt
  have hnames := stateDocs_printState hw hblocks
  rw [Vertex.stateNames, hstate] at hnames
  obtain ⟨doc, hdoc, hname⟩ := List.map_eq_singleton_iff.mp hnames
  have hmem : doc ∈ Asm.stateDocs blocks := by
    rw [hdoc]
    exact List.mem_singleton_self doc
  obtain ⟨block, hblock, hsome⟩ := List.mem_filterMap.mp hmem
  cases block with
  | state doc' =>
    cases hsome
    exact ⟨.state doc, (mem_blocks_iff h).mpr (.inr ⟨u, hlt, blocks, hblocks, hblock⟩), hname⟩
  | condition doc' => cases hsome

/-- The name of a condition is that of a block, unless the condition is compound. -/
theorem bears_clauseName (h : hbaOutput tables machines device g = .ok text)
    (hapart : NamesApart g) {c : Nat} {w : Vertex} {condition : ConditionDoc}
    (hw : g.vertices[c]? = some w) (hcondition : w.contents = .cond condition) :
    (clauseName w condition ≠ "true" → Asm.Bears text.blocks (clauseName w condition)) ↔
      condition.isCompound = false := by
  have hmem := List.mem_of_getElem? hw
  have hblock : ∀ name, w.condNames = [name] → Asm.Bears text.blocks name := by
    intro name hname
    obtain ⟨blocks, hblocks⟩ := (printed h).1 w hmem
    obtain ⟨hnames, -⟩ := printConditions_spec hblocks
    rw [hname] at hnames
    obtain ⟨doc, hdoc, rfl⟩ := List.map_eq_singleton_iff.mp hnames
    have hdocs : doc ∈ Asm.conditionDocs blocks := by
      rw [hdoc]
      exact List.mem_singleton_self doc
    obtain ⟨block, hblock, hsome⟩ := List.mem_filterMap.mp hdocs
    cases block with
    | state doc' => cases hsome
    | condition doc' =>
      cases hsome
      exact ⟨.condition doc, (mem_blocks_iff h).mpr (.inl ⟨w, hmem, blocks, hblocks, hblock⟩), rfl⟩
  cases condition with
  | tautology value => exact ⟨fun _ => rfl, fun _ hne => absurd rfl hne⟩
  | atomic geid op constant =>
    exact ⟨fun _ => rfl, fun _ _ => hblock _ (by rw [Vertex.condNames, hcondition]; rfl)⟩
  | timeout seconds =>
    exact ⟨fun _ => rfl, fun _ _ => hblock _ (by rw [Vertex.condNames, hcondition]; rfl)⟩
  | timer fields op value =>
    exact ⟨fun _ => rfl, fun _ _ => hblock _ (by rw [Vertex.condNames, hcondition]; rfl)⟩
  | compound a op b =>
    refine ⟨fun hbears => ?_, fun hcompound => by cases hcompound⟩
    obtain ⟨block, hmem', hname⟩ := hbears (condName_ne_true _ _)
    rcases (mem_blocks_iff h).mp hmem' with ⟨w', hw', blocks, hblocks, hblock'⟩ |
      ⟨v, hv, blocks, hblocks, hblock'⟩
    · obtain ⟨hnames, hnone⟩ := printConditions_spec hblocks
      cases block with
      | state doc =>
        have hdoc : doc ∈ Asm.stateDocs blocks := List.mem_filterMap.mpr ⟨_, hblock', rfl⟩
        rw [hnone] at hdoc
        exact absurd hdoc List.not_mem_nil
      | condition doc =>
        have hdoc : doc ∈ Asm.conditionDocs blocks := List.mem_filterMap.mpr ⟨_, hblock', rfl⟩
        have hin := List.mem_map_of_mem (f := Asm.ConditionDoc.name) hdoc
        rw [hnames] at hin
        have hsame : doc.name = condName w.machineId w.vertexId := hname
        exact absurd (hsame ▸ hin) (hapart w hmem w' hw' a op b hcondition)
    · obtain ⟨w', clauses, -, -, -, rfl⟩ := printState_ok hblocks hblock'
      exact absurd hname.symm (condName_ne_stateName _ _ _ _)

/-! ## A whole file -/

/-- Every clause of a state is printed. -/
theorem clause_printed (h : hbaOutput tables machines device g = .ok text) {u c : Nat}
    (hu : g.contents u = some .state) (hc : c ∈ g.adjacent u) :
    ∃ doc clause, .state doc ∈ text.blocks ∧ clause ∈ doc.ifClauses ∧
      printClause tables machines g c = .ok clause := by
  obtain ⟨w, hw, hstate⟩ := exists_vertex hu
  have hlt := Graph.contents_lt hu
  obtain ⟨blocks, hblocks⟩ := (printed h).2 u hlt
  have hnames := stateDocs_printState hw hblocks
  rw [Vertex.stateNames, hstate] at hnames
  obtain ⟨doc, hdoc, -⟩ := List.map_eq_singleton_iff.mp hnames
  have hmem : doc ∈ Asm.stateDocs blocks := by
    rw [hdoc]
    exact List.mem_singleton_self doc
  obtain ⟨block, hblock, hsome⟩ := List.mem_filterMap.mp hmem
  cases block with
  | condition doc' => cases hsome
  | state doc' =>
    cases hsome
    obtain ⟨w', clauses, -, -, hclauses, heq⟩ := printState_ok hblocks hblock
    cases heq
    obtain ⟨clause, hclause, hprint⟩ := mem_of_mapM_ok hclauses hc
    exact ⟨_, clause, (mem_blocks_iff h).mpr (.inr ⟨u, hlt, blocks, hblocks, hblock⟩), hclause,
      hprint⟩

/-- **What the assembler accepts**: nothing in the printed file stops it exactly if the
clauses of the graph are known. -/
theorem resolves_iff (h : hbaOutput (tables.withEndpoints table) machines device g = .ok text)
    (hapart : NamesApart g) :
    Asm.Resolves (env.withDatatypes (dtypeFile table)) text.blocks ↔ ClausesKnown table g := by
  constructor
  · intro hresolves
    have hclause : ∀ u c, g.contents u = some .state → c ∈ g.adjacent u →
        ∃ (w : Vertex) (condition : ConditionDoc) (wm : Vertex) (block : CommandBlockDoc) (m : Nat)
          (set : UInt32 × UInt32), g.vertices[c]? = some w ∧ w.contents = .cond condition ∧
          (g.adjacent c).head? = some m ∧ g.vertices[m]? = some wm ∧
          wm.contents = .command block ∧
          printSet (tables.withEndpoints table) machines wm.machineId block.commands = .ok set ∧
          ((env.withDatatypes (dtypeFile table)).datatypes set.1).isSome = true ∧
          (clauseName w condition ≠ "true" → Asm.Bears text.blocks (clauseName w condition)) := by
      intro u c hu hc
      obtain ⟨doc, clause, hdoc, hmem, hprint⟩ := clause_printed h hu hc
      obtain ⟨w, condition, m, hw, hcondition, hm, hfrom⟩ := printClause_ok hprint
      obtain ⟨wm, wt, block, target, set, hwm, hblock, -, -, hset, rfl⟩ := clauseFrom_ok hfrom
      have hknown := hresolves _ hdoc _ hmem
      exact ⟨w, condition, wm, block, m, set, hw, hcondition, hm, hwm, hblock, hset, hknown.datatype,
        hknown.cond⟩
    have hset : ∀ u c m block, g.contents u = some .state → c ∈ g.adjacent u →
        (g.adjacent c).head? = some m → g.contents m = some (.command block) →
        (∀ command, block.commands = [command] → HasIntId table command.geid.endpointName) ∧
          ((∀ command, block.commands ≠ [command]) → HasZeroId table) := by
      intro u c m block hu hc hm hblock
      obtain ⟨w, condition, wm, block', m', set, -, -, hm', hwm, hblock', hset, hknown, -⟩ :=
        hclause u c hu hc
      cases hm.symm.trans hm'
      rw [Graph.contents_of_vertex hwm, hblock'] at hblock
      cases hblock
      exact (printSet_datatype hset).mp hknown
    constructor
    case asked =>
      intro v geid op constant hv
      obtain ⟨w, hw, hcontents⟩ := exists_vertex hv
      have hmem := List.mem_of_getElem? hw
      obtain ⟨blocks, hblocks⟩ := (printed h).1 w hmem
      obtain ⟨hnames, -⟩ := printConditions_spec hblocks
      rw [Vertex.condNames, hcontents] at hnames
      obtain ⟨doc, hdoc, -⟩ := List.map_eq_singleton_iff.mp hnames
      have hin : doc ∈ Asm.conditionDocs blocks := by
        rw [hdoc]
        exact List.mem_singleton_self doc
      obtain ⟨block, hblock, -⟩ := List.mem_filterMap.mp hin
      have hresolved := hresolves block ((mem_blocks_iff h).mpr (.inl ⟨w, hmem, blocks, hblocks, hblock⟩))
      exact (printConditions_resolves hblocks hblock).mp hresolved geid op constant hcontents
    case named =>
      intro u c condition hu hc hcondition
      obtain ⟨w, condition', -, -, -, -, hw, hcontents, -, -, -, -, -, hname⟩ := hclause u c hu hc
      rw [Graph.contents_of_vertex hw, hcontents] at hcondition
      cases hcondition
      exact (bears_clauseName h hapart hw hcontents).mp hname
    case written =>
      exact fun u c m command goto hu hc hm hblock => (hset u c m _ hu hc hm hblock).1 command rfl
    case idle =>
      exact fun u c m block hu hc hm hblock => (hset u c m block hu hc hm hblock).2
  · intro hknown block hmem
    rcases (mem_blocks_iff h).mp hmem with ⟨w, hw, blocks, hblocks, hblock⟩ |
      ⟨u, hu, blocks, hblocks, hblock⟩
    · refine (printConditions_resolves hblocks hblock).mpr fun geid op constant hcontents => ?_
      obtain ⟨v, hv⟩ := List.mem_iff_getElem?.mp hw
      exact hknown.asked v geid op constant (by rw [Graph.contents_of_vertex hv, hcontents])
    · obtain ⟨wu, clauses, hwu, hstate, hclauses, rfl⟩ := printState_ok hblocks hblock
      have hcu : g.contents u = some .state := by rw [Graph.contents_of_vertex hwu, hstate]
      intro clause hclause
      obtain ⟨c, hc, hprint⟩ := exists_of_mapM_ok hclauses hclause
      obtain ⟨w, condition, m, hw, hcondition, hm, hfrom⟩ := printClause_ok hprint
      obtain ⟨wm, wt, block, target, set, hwm, hblock, hwt, htarget, hset, rfl⟩ := clauseFrom_ok hfrom
      have hcc : g.contents c = some (.cond condition) := by
        rw [Graph.contents_of_vertex hw, hcondition]
      have hcm : g.contents m = some (.command block) := by
        rw [Graph.contents_of_vertex hwm, hblock]
      constructor
      case good => exact bears_stateName h hwt htarget
      case bad => exact bears_stateName h hwt htarget
      case cond =>
        exact (bears_clauseName h hapart hw hcondition).mpr (hknown.named u c condition hcu hc hcc)
      case datatype =>
        refine (printSet_datatype hset).mpr ⟨?_, hknown.idle u c m block hcu hc hm hcm⟩
        obtain ⟨commands, goto⟩ := block
        rintro command rfl
        exact hknown.written u c m command goto hcu hc hm hcm

end Hexabus.Hbc
