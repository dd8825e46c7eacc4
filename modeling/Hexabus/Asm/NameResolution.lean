import Hexabus.Asm.Emission

/-!
# What a name denotes

States and conditions stand in one graph and are looked up by name alone. A name in a clause
means a condition or a state by its position; the lookup returns the first block of the file
that bears it, whatever it is.
-/

namespace Hexabus.Asm

open Lib.Bytes

/-- The first block of the file that bears the name. -/
def FirstBlock (blocks : List HbaDocBlock) (name : String) (block : HbaDocBlock) : Prop :=
  ∃ pre post, blocks = pre ++ block :: post ∧ block.name = name ∧ ∀ b ∈ pre, b.name ≠ name

/-- The lookups of the graph builder and of the generator find the vertex and the number of a
condition block of the name. -/
def ResolvesToCondition (ast : HbaDoc) (name : String) : Prop :=
  ∃ i k doc, findVertex (verticesOf ast) name = .ok i ∧
    ast.blocks[i]? = some (.condition doc) ∧ findVertexId (verticesOf ast) name = .ok k ∧
    (conditionDocs ast.blocks)[k]? = some doc ∧ doc.name = name

/-- The same for a state block. -/
def ResolvesToState (ast : HbaDoc) (name : String) : Prop :=
  ∃ i k doc, findVertex (verticesOf ast) name = .ok i ∧
    ast.blocks[i]? = some (.state doc) ∧ findVertexId (verticesOf ast) name = .ok k ∧
    (stateDocs ast.blocks)[k]? = some doc ∧ doc.name = name

def HbaDocBlock.isState : HbaDocBlock → Bool
  | .state _ => true
  | .condition _ => false

/-- Every name in a clause resolves to a block of the kind that is meant, and no two blocks of
one kind share a name. -/
structure NamesResolve (ast : HbaDoc) : Prop where
  condition : ∀ doc ∈ stateDocs ast.blocks, ∀ clause ∈ doc.ifClauses,
    clause.name ≠ "true" → ResolvesToCondition ast clause.name
  good : ∀ doc ∈ stateDocs ast.blocks, ∀ clause ∈ doc.ifClauses,
    ResolvesToState ast clause.goodstate
  bad : ∀ doc ∈ stateDocs ast.blocks, ∀ clause ∈ doc.ifClauses,
    ResolvesToState ast clause.badstate
  unique : ∀ (i j : Nat) (b c : HbaDocBlock), ast.blocks[i]? = some b → ast.blocks[j]? = some c →
    b.isState = c.isState → b.name = c.name → i = j

/-- The first block of each name in a clause is of the kind that is meant, and neither the
states nor the conditions repeat a name. -/
structure WellNamed (blocks : List HbaDocBlock) : Prop where
  condition : ∀ doc ∈ stateDocs blocks, ∀ clause ∈ doc.ifClauses,
    clause.name ≠ "true" → ∃ c, FirstBlock blocks clause.name (.condition c)
  good : ∀ doc ∈ stateDocs blocks, ∀ clause ∈ doc.ifClauses,
    ∃ s, FirstBlock blocks clause.goodstate (.state s)
  bad : ∀ doc ∈ stateDocs blocks, ∀ clause ∈ doc.ifClauses,
    ∃ s, FirstBlock blocks clause.badstate (.state s)
  stateNames : ((stateDocs blocks).map StateDoc.name).Nodup
  conditionNames : ((conditionDocs blocks).map ConditionDoc.name).Nodup

/-! ## Lookups -/

theorem names_verticesOf (ast : HbaDoc) :
    (verticesOf ast).map Vertex.name = ast.blocks.map HbaDocBlock.name := by
  rw [verticesOf, names_markStartState, names_firstPass]

theorem findVertex_eq_ok_iff {ast : HbaDoc} {name : String} {i : Nat} :
    findVertex (verticesOf ast) name = .ok i ↔
      ast.blocks.findIdx? (fun b => b.name = name) = some i := by
  have hvertices : (verticesOf ast).findIdx? (fun v => v.name = name) =
      ((verticesOf ast).map Vertex.name).findIdx? (fun n => n = name) := by
    rw [List.findIdx?_map]
    rfl
  have hblocks : ast.blocks.findIdx? (fun b => b.name = name) =
      (ast.blocks.map HbaDocBlock.name).findIdx? (fun n => n = name) := by
    rw [List.findIdx?_map]
    rfl
  unfold findVertex
  rw [hvertices, names_verticesOf, ← hblocks]
  cases ast.blocks.findIdx? (fun b => b.name = name) with
  | none => exact iff_of_false (by rintro ⟨⟩) (by rintro ⟨⟩)
  | some j => exact ⟨fun h => congrArg some (Except.ok.inj h), fun h => congrArg Except.ok (Option.some.inj h)⟩

/-- The first block of a name is the one the graph builder finds. -/
theorem FirstBlock.findVertex {ast : HbaDoc} {name : String} {block : HbaDocBlock}
    (h : FirstBlock ast.blocks name block) :
    ∃ i, findVertex (verticesOf ast) name = .ok i ∧ ast.blocks[i]? = some block := by
  obtain ⟨pre, post, hblocks, hname, hpre⟩ := h
  refine ⟨pre.length, findVertex_eq_ok_iff.mpr ?_, ?_⟩
  · rw [hblocks, List.findIdx?_append]
    have hnone : pre.findIdx? (fun b => b.name = name) = none :=
      List.findIdx?_eq_none_iff.mpr fun b hb => decide_eq_false (hpre b hb)
    rw [hnone, List.findIdx?_cons, if_pos (decide_eq_true hname)]
    simp
  · rw [hblocks, List.getElem?_append_right (Nat.le_refl _), Nat.sub_self]
    rfl

theorem firstBlock_of_findVertex {ast : HbaDoc} {name : String} {i : Nat} {block : HbaDocBlock}
    (h : findVertex (verticesOf ast) name = .ok i) (hi : ast.blocks[i]? = some block) :
    FirstBlock ast.blocks name block := by
  obtain ⟨hlt, hname, hpre⟩ :=
    List.findIdx?_eq_some_iff_getElem.mp (findVertex_eq_ok_iff.mp h)
  have hblock : ast.blocks[i] = block := by
    rw [List.getElem?_eq_getElem hlt] at hi
    exact Option.some.inj hi
  refine ⟨ast.blocks.take i, ast.blocks.drop (i + 1), ?_, ?_, ?_⟩
  · rw [← hblock, List.cons_getElem_drop_succ, List.take_append_drop]
  · rw [← hblock]
    exact of_decide_eq_true hname
  · intro b hb
    obtain ⟨j, hj, rfl⟩ := List.mem_take_iff_getElem.mp hb
    have hji : j < i := by omega
    have hne := hpre j hji
    simpa using hne

/-- Its number counts the blocks of its kind in front of it. -/
theorem numberFrom_append {name : String} (stateId conditionId : Nat) {pre post : List HbaDocBlock}
    {block : HbaDocBlock} (hname : block.name = name) (hpre : ∀ b ∈ pre, b.name ≠ name) :
    numberFrom name stateId conditionId (pre ++ block :: post) =
      some (if block.isState then stateId + (stateDocs pre).length
        else conditionId + (conditionDocs pre).length) := by
  induction pre generalizing stateId conditionId with
  | nil =>
    cases block with
    | state doc => exact if_pos hname
    | condition doc => exact if_pos hname
  | cons b pre ih =>
    have hb : b.name ≠ name := hpre b List.mem_cons_self
    have hrest : ∀ b ∈ pre, b.name ≠ name := fun c hc => hpre c (List.mem_cons_of_mem _ hc)
    cases b with
    | state doc =>
      have hdoc : ¬ doc.name = name := hb
      rw [List.cons_append, numberFrom, if_neg hdoc, ih _ _ hrest, stateDocs_state,
        conditionDocs_state, List.length_cons]
      congr 2
      omega
    | condition doc =>
      have hdoc : ¬ doc.name = name := hb
      rw [List.cons_append, numberFrom, if_neg hdoc, ih _ _ hrest, stateDocs_condition,
        conditionDocs_condition, List.length_cons]
      congr 2
      omega

theorem stateDocs_append (xs ys : List HbaDocBlock) :
    stateDocs (xs ++ ys) = stateDocs xs ++ stateDocs ys := List.filterMap_append

theorem conditionDocs_append (xs ys : List HbaDocBlock) :
    conditionDocs (xs ++ ys) = conditionDocs xs ++ conditionDocs ys := List.filterMap_append

/-- **A name resolves to a condition** exactly if the first block of the name is one. -/
theorem resolvesToCondition_iff {ast : HbaDoc} {name : String} :
    ResolvesToCondition ast name ↔ ∃ doc, FirstBlock ast.blocks name (.condition doc) := by
  constructor
  · rintro ⟨i, k, doc, hi, hblock, -, -, -⟩
    exact ⟨doc, firstBlock_of_findVertex hi hblock⟩
  · rintro ⟨doc, hfirst⟩
    obtain ⟨i, hi, hblock⟩ := hfirst.findVertex
    obtain ⟨pre, post, hblocks, hname, hpre⟩ := hfirst
    refine ⟨i, (conditionDocs pre).length, doc, hi, hblock, ?_, ?_, hname⟩
    · rw [findVertexId_ok_iff, numberOf, hblocks, numberFrom_append 0 0 hname hpre]
      simp [HbaDocBlock.isState]
    · rw [hblocks, conditionDocs_append, conditionDocs_condition,
        List.getElem?_append_right (Nat.le_refl _), Nat.sub_self]
      rfl

theorem resolvesToState_iff {ast : HbaDoc} {name : String} :
    ResolvesToState ast name ↔ ∃ doc, FirstBlock ast.blocks name (.state doc) := by
  constructor
  · rintro ⟨i, k, doc, hi, hblock, -, -, -⟩
    exact ⟨doc, firstBlock_of_findVertex hi hblock⟩
  · rintro ⟨doc, hfirst⟩
    obtain ⟨i, hi, hblock⟩ := hfirst.findVertex
    obtain ⟨pre, post, hblocks, hname, hpre⟩ := hfirst
    refine ⟨i, (stateDocs pre).length, doc, hi, hblock, ?_, ?_, hname⟩
    · rw [findVertexId_ok_iff, numberOf, hblocks, numberFrom_append 0 0 hname hpre]
      simp [HbaDocBlock.isState]
    · rw [hblocks, stateDocs_append, stateDocs_state,
        List.getElem?_append_right (Nat.le_refl _), Nat.sub_self]
      rfl

/-! ## Names that are declared once -/

theorem unique_iff_pairwise {blocks : List HbaDocBlock} :
    (∀ (i j : Nat) (b c : HbaDocBlock), blocks[i]? = some b → blocks[j]? = some c →
      b.isState = c.isState → b.name = c.name → i = j) ↔
    blocks.Pairwise fun b c => b.isState = c.isState → b.name ≠ c.name := by
  rw [List.pairwise_iff_getElem]
  constructor
  · intro h i j hi hj hlt hkind hname
    have heq := h i j _ _ (List.getElem?_eq_getElem hi) (List.getElem?_eq_getElem hj) hkind hname
    omega
  · intro h i j b c hb hc hkind hname
    obtain ⟨hi, rfl⟩ := List.getElem?_eq_some_iff.mp hb
    obtain ⟨hj, rfl⟩ := List.getElem?_eq_some_iff.mp hc
    rcases Nat.lt_trichotomy i j with hlt | heq | hlt
    · exact absurd hname (h i j hi hj hlt hkind)
    · exact heq
    · exact absurd hname.symm (h j i hj hi hlt hkind.symm)

theorem unique_iff {blocks : List HbaDocBlock} :
    (∀ (i j : Nat) (b c : HbaDocBlock), blocks[i]? = some b → blocks[j]? = some c →
      b.isState = c.isState → b.name = c.name → i = j) ↔
    ((stateDocs blocks).map StateDoc.name).Nodup ∧
      ((conditionDocs blocks).map ConditionDoc.name).Nodup := by
  unfold List.Nodup
  rw [unique_iff_pairwise, stateDocs, conditionDocs, List.pairwise_map, List.pairwise_map,
    List.pairwise_filterMap, List.pairwise_filterMap, ← List.pairwise_and_iff]
  refine List.Pairwise.iff fun b c => ?_
  cases b with
  | state s => cases c <;> simp [HbaDocBlock.isState, HbaDocBlock.name]
  | condition d => cases c <;> simp [HbaDocBlock.isState, HbaDocBlock.name]

/-- **When the names of an accepted program denote what they should**: the lookup by name takes
the first block of the file, and no declaration is rejected for its name. -/
theorem namesResolve_iff (env : Environment) (ast : HbaDoc) :
    ((∃ file, hbasm env ast = .ok file) → NamesResolve ast) ↔
      (Resolves env ast.blocks → WellNamed ast.blocks) := by
  rw [hbasm_ok_iff]
  refine imp_congr_right fun _ => ?_
  constructor
  · rintro ⟨hcondition, hgood, hbad, hunique⟩
    exact {
      condition := fun doc hdoc clause hclause hname =>
        resolvesToCondition_iff.mp (hcondition doc hdoc clause hclause hname)
      good := fun doc hdoc clause hclause =>
        resolvesToState_iff.mp (hgood doc hdoc clause hclause)
      bad := fun doc hdoc clause hclause =>
        resolvesToState_iff.mp (hbad doc hdoc clause hclause)
      stateNames := (unique_iff.mp hunique).1
      conditionNames := (unique_iff.mp hunique).2 }
  · rintro ⟨hcondition, hgood, hbad, hstates, hconditions⟩
    exact {
      condition := fun doc hdoc clause hclause hname =>
        resolvesToCondition_iff.mpr (hcondition doc hdoc clause hclause hname)
      good := fun doc hdoc clause hclause =>
        resolvesToState_iff.mpr (hgood doc hdoc clause hclause)
      bad := fun doc hdoc clause hclause =>
        resolvesToState_iff.mpr (hbad doc hdoc clause hclause)
      unique := unique_iff.mpr ⟨hstates, hconditions⟩ }

/-- A state whose condition bears its name. -/
def sharedName : HbaDoc where
  targetIp := ⟨List.replicate 32 0, length_zeroDigits⟩
  deviceName := []
  machineId := []
  startState := "late"
  blocks := [
    .state ⟨1, "late", [⟨2, "late", 1, 0, "late", "late"⟩], 0⟩,
    .condition ⟨3, "late", .timeout 5, 0⟩]

/-- The assembler takes the state for the condition. -/
theorem sharedName_not_resolved :
    let env : Environment := ⟨fun _ => some .uint32, id, id, fun _ => Block.zero 4⟩
    ¬ ((∃ file, hbasm env sharedName = .ok file) → NamesResolve sharedName) := by
  intro env h
  obtain ⟨i, k, doc, hi, hblock, -⟩ := (h ⟨_, rfl⟩).condition _ List.mem_cons_self _
    List.mem_cons_self (by decide)
  have hzero : i = 0 := Except.ok.inj (hi.symm.trans rfl)
  subst hzero
  cases hblock

end Hexabus.Asm
