import Hexabus.Asm.Names
import Hexabus.Lib.Folds

/-!
# What the assembler emits

The generator as a function of the program: whether it succeeds, and which records
it then puts into its maps. A program succeeds when every name is borne by some block
and every endpoint has a data type; a clause whose condition is not in the map yet is
passed over without an error.
-/

namespace Hexabus.Asm

open Lib.Bytes Lib.Folds

/-! ## Programs that succeed -/

/-- A clause names blocks that exist and an endpoint whose data type is known. -/
structure ClauseResolves (env : Environment) (blocks : List HbaDocBlock)
    (clause : IfClauseDoc) : Prop where
  good : Bears blocks clause.goodstate
  bad : Bears blocks clause.badstate
  cond : clause.name ≠ "true" → Bears blocks clause.name
  datatype : (env.datatypes clause.eid).isSome = true

/-- A condition block compares an endpoint whose data type is known, or the time. -/
def ConditionResolves (env : Environment) (doc : ConditionDoc) : Prop :=
  match doc.cond with
  | .eidvalue _ eid _ _ => (env.datatypes eid).isSome = true
  | .timeout _ => True
  | .datetime _ _ _ => True

def BlockResolves (env : Environment) (blocks : List HbaDocBlock) : HbaDocBlock → Prop
  | .state doc => ∀ clause ∈ doc.ifClauses, ClauseResolves env blocks clause
  | .condition doc => ConditionResolves env doc

/-- Nothing in the program stops the assembler. -/
def Resolves (env : Environment) (blocks : List HbaDocBlock) : Prop :=
  ∀ block ∈ blocks, BlockResolves env blocks block

/-! ## The records of a program -/

/-- The number the condition of a clause gets. -/
def conditionNumber (blocks : List HbaDocBlock) (clause : IfClauseDoc) : Nat :=
  if clause.name ≠ "true" then (numberOf blocks clause.name).getD 0 else trueCondIndex.toNat

/-- The record of a clause of state number `source`. -/
def transitionOf (env : Environment) (blocks : List HbaDocBlock) (source : Nat)
    (clause : IfClauseDoc) : Transition where
  fromState := UInt8.ofNat source
  cond := UInt8.ofNat (conditionNumber blocks clause)
  eid := clause.eid
  goodState := UInt8.ofNat ((numberOf blocks clause.goodstate).getD 0)
  badState := UInt8.ofNat ((numberOf blocks clause.badstate).getD 0)
  datatype := ((env.datatypes clause.eid).getD .undefined).code
  raw := unionOf (env.readValue ((env.datatypes clause.eid).getD .undefined) clause.value)
    (Block.zero 4)

/-- The record of condition block number `id`. -/
def conditionOf (env : Environment) (id : Nat) (doc : ConditionDoc) : Condition :=
  match doc.cond with
  | .eidvalue ipv6Address eid op value =>
    ⟨ipBytes ipv6Address, eid, op, ((env.datatypes eid).getD .undefined).code,
      unionOf (env.readValue ((env.datatypes eid).getD .undefined) value) (env.residue id)⟩
  | .timeout value => ⟨localhostIp, 0, hxbSmTimestampOp, DataType.timestamp.code,
      unionOf value (env.residue id)⟩
  | .datetime field op value => ⟨localhostIp, 0, field ||| op, DataType.datetime.code,
      unionOf value (env.residue id)⟩

theorem getDatatype_some {env : Environment} {eid : UInt32} {datatype : DataType}
    (h : env.datatypes eid = some datatype) : env.getDatatype eid = .ok datatype := by
  unfold Environment.getDatatype
  rw [h]

theorem isSome_of_getDatatype {env : Environment} {eid : UInt32} {datatype : DataType}
    (h : env.getDatatype eid = .ok datatype) : (env.datatypes eid).isSome = true := by
  unfold Environment.getDatatype at h
  cases hd : env.datatypes eid with
  | none =>
    rw [hd] at h
    cases h
  | some d => rfl

/-- A condition block that resolves has its record. -/
theorem conditionRecord_eq {env : Environment} {doc : ConditionDoc} (id : Nat)
    (h : ConditionResolves env doc) :
    conditionRecord env { doc with id := id } = .ok (conditionOf env id doc) := by
  unfold ConditionResolves at h
  unfold conditionRecord conditionOf
  cases hc : doc.cond with
  | eidvalue ipv6Address eid op value =>
    rw [hc] at h
    obtain ⟨datatype, hd⟩ := Option.isSome_iff_exists.mp h
    simp only [getDatatype_some hd, hd, bind, Except.bind, Option.getD_some]
    rfl
  | timeout value => rfl
  | datetime field op value => rfl

/-- A condition block that has a record resolves. -/
theorem conditionResolves_of_record {env : Environment} {doc : ConditionDoc} (id : Nat)
    {record : Condition} (h : conditionRecord env { doc with id := id } = .ok record) :
    ConditionResolves env doc := by
  unfold conditionRecord at h
  unfold ConditionResolves
  cases hc : doc.cond with
  | eidvalue ipv6Address eid op value =>
    simp only [hc] at h
    obtain ⟨datatype, hd, -⟩ := bind_ok_iff.mp h
    exact isSome_of_getDatatype hd
  | timeout value => trivial
  | datetime field op value => trivial

/-- A clause that resolves has its record. -/
theorem clauseTransition_eq {env : Environment} {ast : HbaDoc} {clause : IfClauseDoc}
    (h : ClauseResolves env ast.blocks clause) (source : Nat) :
    clauseTransition env (verticesOf ast) source clause
      = .ok (conditionNumber ast.blocks clause, transitionOf env ast.blocks source clause) := by
  obtain ⟨good, hgood⟩ := h.good.number
  obtain ⟨bad, hbad⟩ := h.bad.number
  obtain ⟨datatype, hd⟩ := Option.isSome_iff_exists.mp h.datatype
  unfold clauseTransition transitionOf conditionNumber
  by_cases hcond : clause.name ≠ "true"
  · obtain ⟨k, hk⟩ := (h.cond hcond).number
    simp only [if_pos hcond, findVertexId_ok_iff.mpr hk, findVertexId_ok_iff.mpr hgood,
      findVertexId_ok_iff.mpr hbad, getDatatype_some hd, hk, hgood, hbad, hd, bind, Except.bind,
      Option.getD_some]
    rfl
  · simp only [if_neg hcond, findVertexId_ok_iff.mpr hgood, findVertexId_ok_iff.mpr hbad,
      getDatatype_some hd, hgood, hbad, hd, bind, Except.bind, Option.getD_some]
    rfl

theorem bears_of_findVertexId {ast : HbaDoc} {name : String} {k : Nat}
    (h : findVertexId (verticesOf ast) name = .ok k) : Bears ast.blocks name :=
  bears_of_numberFrom (findVertexId_ok_iff.mp h)

/-- A clause that has a record resolves. -/
theorem clauseResolves_of_transition {env : Environment} {ast : HbaDoc} {clause : IfClauseDoc}
    {source : Nat} {r : Nat × Transition}
    (h : clauseTransition env (verticesOf ast) source clause = .ok r) :
    ClauseResolves env ast.blocks clause := by
  unfold clauseTransition at h
  by_cases hname : clause.name ≠ "true"
  · simp only [if_pos hname] at h
    obtain ⟨condId, hcond, h⟩ := bind_ok_iff.mp h
    obtain ⟨good, hgood, h⟩ := bind_ok_iff.mp h
    obtain ⟨bad, hbad, h⟩ := bind_ok_iff.mp h
    obtain ⟨datatype, hd, -⟩ := bind_ok_iff.mp h
    exact ⟨bears_of_findVertexId hgood, bears_of_findVertexId hbad,
      fun _ => bears_of_findVertexId hcond, isSome_of_getDatatype hd⟩
  · simp only [if_neg hname] at h
    obtain ⟨condId, -, h⟩ := bind_ok_iff.mp h
    obtain ⟨good, hgood, h⟩ := bind_ok_iff.mp h
    obtain ⟨bad, hbad, h⟩ := bind_ok_iff.mp h
    obtain ⟨datatype, hd, -⟩ := bind_ok_iff.mp h
    exact ⟨bears_of_findVertexId hgood, bears_of_findVertexId hbad,
      fun hcond => absurd hcond hname, isSome_of_getDatatype hd⟩

/-! ## The visitor without its errors -/

/-- What the visitor does with the record of a clause. -/
def Maps.place (maps : Maps) (clause : IfClauseDoc) (condId : Nat) (t : Transition) : Maps :=
  let index := maps.stateIndex
  let maps := { maps with stateIndex := index + 1 }
  if clause.name ≠ "true" then
    match maps.conditionsBin.find? fun entry => entry.1 = condId with
    | some (_, cond) =>
      if cond.datatype = DataType.datetime.code then
        { maps with transDtBin := mapInsert index t maps.transDtBin }
      else { maps with statesBin := mapInsert index t maps.statesBin }
    | none => maps
  else { maps with statesBin := mapInsert index t maps.statesBin }

theorem visitClause_eq {env : Environment} {vertices : List Vertex} {source : Nat} {maps : Maps}
    {clause : IfClauseDoc} {condId : Nat} {t : Transition}
    (h : clauseTransition env vertices source clause = .ok (condId, t)) :
    visitClause env vertices source maps clause = .ok (maps.place clause condId t) := by
  unfold visitClause Maps.place
  simp only [h, bind, Except.bind]
  by_cases hname : clause.name ≠ "true"
  · simp only [if_pos hname]
    cases maps.conditionsBin.find? fun entry => entry.1 = condId with
    | none => rfl
    | some entry =>
      by_cases hdt : entry.2.datatype = DataType.datetime.code
      · simp only [if_pos hdt]
        rfl
      · simp only [if_neg hdt]
        rfl
  · simp only [if_neg hname]
    rfl

theorem transition_of_visitClause {env : Environment} {vertices : List Vertex} {source : Nat}
    {maps maps' : Maps} {clause : IfClauseDoc}
    (h : visitClause env vertices source maps clause = .ok maps') :
    ∃ r, clauseTransition env vertices source clause = .ok r := by
  unfold visitClause at h
  cases hr : clauseTransition env vertices source clause with
  | error e =>
    simp only [hr, bind, Except.bind] at h
    cases h
  | ok r => exact ⟨r, rfl⟩

def placeClause (env : Environment) (blocks : List HbaDocBlock) (source : Nat) (maps : Maps)
    (clause : IfClauseDoc) : Maps :=
  maps.place clause (conditionNumber blocks clause) (transitionOf env blocks source clause)

def placeBlock (env : Environment) (blocks : List HbaDocBlock) (maps : Maps) : HbaDocBlock → Maps
  | .state doc => doc.ifClauses.foldl (placeClause env blocks doc.id) maps
  | .condition doc =>
    { maps with
      conditionsBin := mapInsert doc.id (conditionOf env doc.id doc) maps.conditionsBin }

/-- A block that resolves is visited without an error. -/
theorem visitBlock_eq {env : Environment} {ast : HbaDoc} (maps : Maps) (block : HbaDocBlock)
    (h : BlockResolves env ast.blocks block) :
    visitBlock env (verticesOf ast) maps block = .ok (placeBlock env ast.blocks maps block) := by
  cases block with
  | state doc =>
    exact @foldlM_eq_foldl _ _ _ _ _ (ClauseResolves env ast.blocks) _ _
      (fun _ _ hclause => visitClause_eq (clauseTransition_eq hclause doc.id)) h
  | condition doc =>
    have hrecord : conditionRecord env doc = .ok (conditionOf env doc.id doc) :=
      conditionRecord_eq doc.id h
    simp only [visitBlock, hrecord, bind, Except.bind]
    rfl

/-- A block that is visited without an error resolves. -/
theorem blockResolves_of_visit {env : Environment} {ast : HbaDoc} (maps : Maps)
    (block : HbaDocBlock) (maps' : Maps)
    (h : visitBlock env (verticesOf ast) maps block = .ok maps') :
    BlockResolves env ast.blocks block := by
  cases block with
  | state doc =>
    refine @forall_of_foldlM_ok _ _ _ _ (ClauseResolves env ast.blocks) _ _ _ ?_ h
    intro b clause b' hvisit
    obtain ⟨r, hr⟩ := transition_of_visitClause hvisit
    exact clauseResolves_of_transition hr
  | condition doc =>
    obtain ⟨record, hrecord, -⟩ := bind_ok_iff.mp h
    exact conditionResolves_of_record doc.id hrecord

/-- Numbering the blocks does not change whether they resolve. -/
theorem forall_firstPass_resolves {env : Environment} {all : List HbaDocBlock}
    {stateId conditionId : Nat} {blocks : List HbaDocBlock} :
    (∀ block ∈ (firstPass stateId conditionId blocks).1, BlockResolves env all block) ↔
      ∀ block ∈ blocks, BlockResolves env all block := by
  induction blocks generalizing stateId conditionId with
  | nil => exact Iff.rfl
  | cons block blocks ih =>
    cases block with
    | state doc =>
      simp only [firstPass, List.forall_mem_cons]
      exact and_congr Iff.rfl ih
    | condition doc =>
      simp only [firstPass, List.forall_mem_cons]
      exact and_congr Iff.rfl ih

/-! ## The second pass asks for no more -/

theorem clauseEdges_ok {ast : HbaDoc} {name : String} {clause : IfClauseDoc} {env : Environment}
    (hname : Bears ast.blocks name) (h : ClauseResolves env ast.blocks clause) :
    ∃ edges, clauseEdges (verticesOf ast) name clause = .ok edges := by
  obtain ⟨source, hsource⟩ := findVertex_ok_iff.mpr hname
  obtain ⟨good, hgood⟩ := findVertex_ok_iff.mpr h.good
  obtain ⟨bad, hbad⟩ := findVertex_ok_iff.mpr h.bad
  unfold clauseEdges
  by_cases hcond : clause.name ≠ "true"
  · obtain ⟨condition, hcondition⟩ := findVertex_ok_iff.mpr (h.cond hcond)
    simp only [hsource, hgood, hbad, if_pos hcond, hcondition, bind, Except.bind]
    exact ⟨_, rfl⟩
  · simp only [hsource, hgood, hbad, if_neg hcond, bind, Except.bind]
    exact ⟨_, rfl⟩

theorem secondPass_ok {env : Environment} {ast : HbaDoc} (stateId conditionId : Nat)
    {blocks : List HbaDocBlock} (hnames : ∀ block ∈ blocks, Bears ast.blocks block.name)
    (h : ∀ block ∈ blocks, BlockResolves env ast.blocks block) :
    ∃ edges, secondPass (verticesOf ast) (firstPass stateId conditionId blocks).1 = .ok edges := by
  induction blocks generalizing stateId conditionId with
  | nil => exact ⟨[], rfl⟩
  | cons block blocks ih =>
    have hrestNames : ∀ b ∈ blocks, Bears ast.blocks b.name := fun b hb =>
      hnames b (List.mem_cons_of_mem _ hb)
    have hrest : ∀ b ∈ blocks, BlockResolves env ast.blocks b := fun b hb =>
      h b (List.mem_cons_of_mem _ hb)
    cases block with
    | state doc =>
      obtain ⟨edges, hedges⟩ := ih (stateId + 1) conditionId hrestNames hrest
      have hname : Bears ast.blocks doc.name := hnames _ List.mem_cons_self
      have hclauses : BlockResolves env ast.blocks (.state doc) := h _ List.mem_cons_self
      obtain ⟨own, hown⟩ := mapM_ok (f := clauseEdges (verticesOf ast) doc.name)
        fun clause hclause => clauseEdges_ok hname (hclauses clause hclause)
      simp only [firstPass, secondPass, hown, hedges, bind, Except.bind]
      exact ⟨_, rfl⟩
    | condition doc => exact ih stateId (conditionId + 1) hrestNames hrest

/-- **When the assembler succeeds**, and what it then emits. -/
theorem emitted_ok_iff {env : Environment} {ast : HbaDoc} {maps : Maps} :
    emitted env ast = .ok maps ↔ Resolves env ast.blocks ∧
      maps = (firstPass 0 0 ast.blocks).1.foldl (placeBlock env ast.blocks) Maps.empty := by
  constructor
  · intro h
    obtain ⟨⟨g, blocks⟩, hbuild, hvisit⟩ := bind_ok_iff.mp h
    obtain ⟨rfl, hvertices, -⟩ := graphBuilder_ok hbuild
    have hvisit' : (firstPass 0 0 ast.blocks).1.foldlM (visitBlock env (verticesOf ast)) Maps.empty
        = .ok maps := by
      unfold verticesOf
      rw [← hvertices]
      exact hvisit
    have hgood := @forall_of_foldlM_ok _ _ _ _ (BlockResolves env ast.blocks) _ _ _
      (fun b a b' => blockResolves_of_visit b a b') hvisit'
    have heq := foldlM_eq_foldl (b := Maps.empty) visitBlock_eq hgood
    exact ⟨forall_firstPass_resolves.mp hgood, Except.ok.inj (hvisit'.symm.trans heq)⟩
  · rintro ⟨hresolves, rfl⟩
    obtain ⟨edges, hedges⟩ := secondPass_ok 0 0
      (fun block hb => ⟨block, hb, rfl⟩) hresolves
    have hbuild : graphBuilder ast
        = .ok (⟨verticesOf ast, edges⟩, (firstPass 0 0 ast.blocks).1) := by
      unfold verticesOf at hedges
      unfold graphBuilder
      simp only [hedges, bind, Except.bind]
      rfl
    refine bind_ok_iff.mpr ⟨_, hbuild, ?_⟩
    exact foldlM_eq_foldl visitBlock_eq (forall_firstPass_resolves.mpr hresolves)

/-! ## The file -/

/-- The state machine area as the assembler lays it out. -/
def areaOf (ast : HbaDoc) (maps : Maps) : List UInt8 :=
  (machineIdBytes ast.machineId).val ++ generatorFlash maps

/-- A program with at least one block: the address, the name chunk and the area. -/
theorem hbasm_file {env : Environment} {ast : HbaDoc} {file : List UInt8}
    (hblocks : ast.blocks ≠ []) (h : hbasm env ast = .ok file) :
    ∃ maps, emitted env ast = .ok maps ∧
      file = (ipBytes ast.targetIp).val ++ ((devName ast.deviceName).val ++ areaOf ast maps) := by
  unfold hbasm at h
  unfold emitted
  cases hbuild : graphBuilder ast with
  | error e =>
    rw [hbuild] at h
    cases h
  | ok built =>
    obtain ⟨g, blocks⟩ := built
    have hlen : blocks.length ≠ 0 := by
      rw [graphBuilder_length hbuild]
      exact fun h0 => hblocks (List.length_eq_zero_iff.mp h0)
    rw [hbuild] at h
    simp only [bind, Except.bind, if_pos hlen] at h ⊢
    cases hvisit : visitBlocks env g.vertices blocks with
    | error e =>
      rw [hvisit] at h
      cases h
    | ok maps =>
      rw [hvisit] at h
      refine ⟨maps, rfl, ?_⟩
      have hfile := (Except.ok.inj h).symm
      rw [hfile]
      simp only [areaOf, List.append_assoc]

/-- A program without blocks. -/
theorem hbasm_nil {env : Environment} {ast : HbaDoc} (h : ast.blocks = []) :
    hbasm env ast = .ok ((ipBytes ast.targetIp).val ++ (devName ast.deviceName).val) := by
  have hbuild : graphBuilder ast = .ok (⟨[], []⟩, []) := by
    unfold graphBuilder
    rw [h]
    rfl
  unfold hbasm
  simp only [hbuild, bind, Except.bind]
  rfl

/-- The assembler succeeds on the programs in which nothing stops it. -/
theorem hbasm_ok_iff {env : Environment} {ast : HbaDoc} :
    (∃ file, hbasm env ast = .ok file) ↔ Resolves env ast.blocks := by
  by_cases hblocks : ast.blocks = []
  · refine ⟨fun _ => ?_, fun _ => ⟨_, hbasm_nil hblocks⟩⟩
    rw [hblocks]
    exact fun block hmem => absurd hmem List.not_mem_nil
  · constructor
    · rintro ⟨file, hfile⟩
      obtain ⟨maps, hmaps, -⟩ := hbasm_file hblocks hfile
      exact (emitted_ok_iff.mp hmaps).1
    · intro hresolves
      have hmaps := emitted_ok_iff.mpr ⟨hresolves, rfl⟩
      obtain ⟨⟨g, blocks⟩, hbuild, hvisit⟩ := bind_ok_iff.mp hmaps
      have hlen : blocks.length ≠ 0 := by
        rw [graphBuilder_length hbuild]
        exact fun h0 => hblocks (List.length_eq_zero_iff.mp h0)
      unfold hbasm
      simp only [hbuild, hvisit, bind, Except.bind, if_pos hlen]
      exact ⟨_, rfl⟩

end Hexabus.Asm
