import Hexabus.Asm.Literals
import Hexabus.Hbc.GeneratedFiles

/-!
# Literals of a compiled program

The compiler prints the numbers of a program, and the assembler reads, prints and reads them
once more. What is stored is the literal of the program exactly if it is below a million.
-/

namespace Hexabus.Hbc

open Lib.Folds

/-- The compiler and the assembler with these streams. -/
def Tables.withStreams (tables : Tables) (s : Asm.Streams) : Tables :=
  { tables with rereadFloat := fun bits => s.parse (s.print bits) }

/-- The program writes the constant. -/
def WritesConstant (hbc : HbcDoc) (bits : UInt32) : Prop :=
  ∃ sm ∈ hbc, ∃ b ∈ sm.resolved, ∃ command ∈ b.block.commandBlock.commands,
    command.constant = .float bits

/-- The program compares an endpoint with the constant. -/
def ComparesConstant (hbc : HbcDoc) (bits : UInt32) : Prop :=
  ∃ sm ∈ hbc, ∃ b ∈ sm.resolved, ∃ geid op,
    ConditionDoc.atomic geid op (.float bits) ∈ b.block.condition.leaves

/-- The program waits so many seconds. -/
def WaitsFor (hbc : HbcDoc) (seconds : UInt32) : Prop :=
  ∃ sm ∈ hbc, ∃ b ∈ sm.resolved, ConditionDoc.timeout (.uint seconds) ∈ b.block.condition.leaves

/-- The numbers of an assembler program are constants of the compiled program, printed and
read again; a clause that writes nothing has a zero. -/
structure FromProgram (s : Asm.Streams) (hbc : HbcDoc) (ast : Asm.HbaDoc) : Prop where
  clause : ∀ event ∈ Asm.events ast.blocks, (event.clause.eid = 0 ∧ event.clause.value = 0) ∨
    ∃ bits, WritesConstant hbc bits ∧ event.clause.value = s.parse (s.print bits)
  condition : ∀ doc ∈ Asm.conditionDocs ast.blocks, ∀ ip eid op value,
    doc.cond = .eidvalue ip eid op value →
    ∃ bits, ComparesConstant hbc bits ∧ value = s.parse (s.print bits)
  timeout : ∀ doc ∈ Asm.conditionDocs ast.blocks, ∀ value, doc.cond = .timeout value →
    WaitsFor hbc value

variable {tables : Tables} {machines : List MachineDescriptor} {device : Identifier}
  {fp : FloatPrinter} {hbc : HbcDoc} {s : Asm.Streams} {g : Graph} {text : HbaText}

/-! ## What is printed -/

theorem printSet_constant {m : Nat} {commands : List CommandDoc} {set : UInt32 × UInt32}
    (h : printSet tables machines m commands = .ok set) :
    set = (0, 0) ∨ ∃ command bits, commands = [command] ∧ command.constant = .float bits ∧
      set.2 = tables.rereadFloat bits := by
  cases printSet_ok_iff.mp h with
  | @one command _ _ bits _ _ _ hbits => exact .inr ⟨command, bits, rfl, hbits, rfl⟩
  | other => exact .inl rfl

theorem mem_leaves_of_part {condition leaf : ConditionDoc} (hleaf : leaf.leaves = [leaf])
    (h : leaf = condition.firstPart ∨ condition.secondPart = some leaf) :
    leaf ∈ condition.leaves := by
  have hself : leaf = condition → leaf ∈ condition.leaves := by
    rintro rfl
    rw [hleaf]
    exact List.mem_singleton_self leaf
  cases condition with
  | compound a op b =>
    cases op with
    | and =>
      rcases h with h | h
      · exact hself h
      · cases h
    | or =>
      show leaf ∈ a.leaves ++ b.leaves
      rcases h with h | h
      · obtain rfl : leaf = a := h
        rw [hleaf]
        exact List.mem_append_left _ (List.mem_singleton_self _)
      · cases h
        rw [hleaf]
        exact List.mem_append_right _ (List.mem_singleton_self _)
  | _ =>
    rcases h with h | h
    · exact hself h
    · cases h

/-- The block that is printed for a condition. -/
theorem printConditions_ok {w : Vertex} {blocks : List Asm.HbaDocBlock}
    (h : printConditions tables machines device w = .ok blocks) {block : Asm.HbaDocBlock}
    (hmem : block ∈ blocks) : ∃ doc : Asm.ConditionDoc, block = .condition doc ∧
      ((∃ geid op bits address eid, w.contents = .cond (.atomic geid op (.float bits)) ∧
        doc.cond = .eidvalue address eid op.code (tables.rereadFloat bits)) ∨
      (∃ value, w.contents = .cond (.timeout (.uint value)) ∧ doc.cond = .timeout value) ∨
      ∃ field op value, doc.cond = .datetime field op value) := by
  obtain ⟨condition, cond, hcontents, hprinted, rfl⟩ := mem_printConditions h hmem
  refine ⟨_, rfl, ?_⟩
  cases hprinted with
  | @atomic geid op bits => exact .inl ⟨geid, op, bits, _, _, hcontents, rfl⟩
  | @timeout value => exact .inr (.inl ⟨value, hcontents, rfl⟩)
  | timer => exact .inr (.inr ⟨_, _, _, rfl⟩)

/-- The commands that a clause is printed from. -/
theorem printClause_set {c : Nat} {clause : Asm.IfClauseDoc}
    (h : printClause tables machines g c = .ok clause) :
    ∃ (m : Nat) (block : CommandBlockDoc) (machineId : Nat),
      g.contents m = some (.command block) ∧
      printSet tables machines machineId block.commands = .ok (clause.eid, clause.value) := by
  obtain ⟨w, condition, m, -, -, -, hclause⟩ := printClause_ok h
  obtain ⟨wm, wt, block, target, set, hwm, hblock, -, -, hset, rfl⟩ := clauseFrom_ok hclause
  refine ⟨m, block, wm.machineId, ?_, hset⟩
  rw [Graph.contents_of_vertex hwm, hblock]

theorem mem_eventsFrom {stateId conditionId : Nat} {blocks : List Asm.HbaDocBlock}
    {event : Asm.Event} (h : event ∈ Asm.eventsFrom stateId conditionId blocks) :
    ∃ doc, Asm.HbaDocBlock.state doc ∈ blocks ∧ event.clause ∈ doc.ifClauses := by
  induction blocks generalizing stateId conditionId with
  | nil => exact absurd h List.not_mem_nil
  | cons block blocks ih =>
    cases block with
    | state doc =>
      rcases List.mem_append.mp h with h | h
      · obtain ⟨clause, hclause, rfl⟩ := List.mem_map.mp h
        exact ⟨doc, List.mem_cons_self, hclause⟩
      · obtain ⟨doc', hdoc, hclause⟩ := ih h
        exact ⟨doc', List.mem_cons_of_mem _ hdoc, hclause⟩
    | condition doc =>
      obtain ⟨doc', hdoc, hclause⟩ := ih h
      exact ⟨doc', List.mem_cons_of_mem _ hdoc, hclause⟩

theorem mem_conditionDocs {blocks : List Asm.HbaDocBlock} {doc : Asm.ConditionDoc} :
    doc ∈ Asm.conditionDocs blocks ↔ Asm.HbaDocBlock.condition doc ∈ blocks := by
  unfold Asm.conditionDocs
  rw [List.mem_filterMap]
  constructor
  · rintro ⟨block, hblock, hdoc⟩
    cases block with
    | state doc' => cases hdoc
    | condition doc' =>
      cases hdoc
      exact hblock
  · exact fun h => ⟨_, h, rfl⟩

/-- **The numbers of a compiled file** are constants of the program. -/
theorem fromProgram_of_hbcomp {files : List (Identifier × HbaText)} {ast : Asm.HbaDoc}
    (h : hbcomp (tables.withStreams s) fp hbc = .ok files) (hmem : (device, text) ∈ files)
    (hparse : text.parse = some ast) : FromProgram s hbc ast := by
  obtain ⟨m, sm, hsm, -, machines, g, g', g'', ⟨-, -, hown, hslice⟩, hhalve, hexpand, hprint⟩ :=
    (hbcomp_files h).1 device text hmem
  obtain ⟨maxId, hsimplified⟩ := simplified_of_passes hslice hhalve hexpand
  have hblocks := (parse_start hprint hparse).1
  have hin : sm ∈ hbc := List.mem_of_getElem? hsm
  -- a condition that is printed is a part of the condition of a guarded block
  have hleaf : ∀ w ∈ g''.vertices, ∀ leaf, w.contents = .cond leaf → leaf ≠ .tautology 1 →
      leaf.leaves = [leaf] → ∃ b ∈ sm.resolved, leaf ∈ b.block.condition.leaves := by
    intro w hw leaf hcontents hne hself
    obtain ⟨v, hv⟩ := List.mem_iff_getElem?.mp hw
    have hcond : g''.contents v = some (.cond leaf) := by
      rw [Graph.contents_of_vertex hv, hcontents]
    obtain ⟨b', hb', hpart⟩ := (hsimplified.of_cond hcond).resolve_left hne
    obtain ⟨b, hb, rfl⟩ := List.mem_map.mp hb'
    exact ⟨b, hb, mem_leaves_of_part hself hpart⟩
  have hdoc : ∀ doc ∈ Asm.conditionDocs ast.blocks,
      ∃ w ∈ g''.vertices, ∃ blocks, printConditions (tables.withStreams s) machines device w =
        .ok blocks ∧ Asm.HbaDocBlock.condition doc ∈ blocks := by
    intro doc hdoc
    rw [hblocks, mem_conditionDocs] at hdoc
    rcases (mem_blocks_iff hprint).mp hdoc with hcond | ⟨v, hv, blocks, hstate, hin⟩
    · exact hcond
    · obtain ⟨w, clauses, -, -, -, heq⟩ := printState_ok hstate hin
      cases heq
  refine ⟨fun event hevent => ?_, fun doc hdocs ip eid op value hcond => ?_,
    fun doc hdocs value hcond => ?_⟩
  · obtain ⟨doc, hstate, hclause⟩ := mem_eventsFrom hevent
    rw [hblocks] at hstate
    rcases (mem_blocks_iff hprint).mp hstate with ⟨w, hw, blocks, hprinted, hin'⟩ |
      ⟨v, hv, blocks, hprinted, hin'⟩
    · obtain ⟨doc', heq, -⟩ := printConditions_ok hprinted hin'
      cases heq
    · obtain ⟨w, clauses, -, -, hclauses, heq⟩ := printState_ok hprinted hin'
      cases heq
      obtain ⟨c, -, hprintClause⟩ := exists_of_mapM_ok hclauses hclause
      obtain ⟨m', block, machineId, hcommand, hset⟩ := printClause_set hprintClause
      rcases printSet_constant hset with hzero | ⟨command, bits, hone, hconstant, hvalue⟩
      · exact .inl (Prod.mk.inj hzero)
      · refine .inr ⟨bits, ⟨sm, hin, ?_⟩, hvalue⟩
        rcases hsimplified.of_command hcommand with ⟨command', hone', b', hb', hmem'⟩ | ⟨hnil, -⟩
        · rw [hone] at hone'
          cases hone'
          obtain ⟨b, hb, rfl⟩ := List.mem_map.mp hb'
          rw [commands_ownBlock (hown b hb), List.mem_filter] at hmem'
          exact ⟨b, hb, command, hmem'.1, hconstant⟩
        · rw [hone] at hnil
          cases hnil
  · obtain ⟨w, hw, blocks, hprinted, hblock⟩ := hdoc doc hdocs
    obtain ⟨doc', heq, hcases⟩ := printConditions_ok hprinted hblock
    cases heq
    rcases hcases with ⟨geid, op', bits, address, eid', hcontents, hcond'⟩ | ⟨value', -, hcond'⟩ |
      ⟨field, op', value', hcond'⟩
    · rw [hcond] at hcond'
      cases hcond'
      obtain ⟨b, hb, hleaves⟩ := hleaf w hw _ hcontents (by intro heq; cases heq) rfl
      exact ⟨bits, ⟨sm, hin, b, hb, geid, op', hleaves⟩, rfl⟩
    · rw [hcond] at hcond'
      cases hcond'
    · rw [hcond] at hcond'
      cases hcond'
  · obtain ⟨w, hw, blocks, hprinted, hblock⟩ := hdoc doc hdocs
    obtain ⟨doc', heq, hcases⟩ := printConditions_ok hprinted hblock
    cases heq
    rcases hcases with ⟨geid, op', bits, address, eid', -, hcond'⟩ | ⟨value', hcontents, hcond'⟩ |
      ⟨field, op', value', hcond'⟩
    · rw [hcond] at hcond'
      cases hcond'
    · rw [hcond] at hcond'
      cases hcond'
      obtain ⟨b, hb, hleaves⟩ := hleaf w hw _ hcontents (by intro heq; cases heq) rfl
      exact ⟨sm, hin, b, hb, hleaves⟩
    · rw [hcond] at hcond'
      cases hcond'

/-! ## What is stored -/

/-- **Which literals survive**: the constants that an image stores for the integer literals of
an assembler program, and for those of a compiled one, are the literals exactly where these are
below a million; the values of a compiled program all come from its constants. -/
theorem literals_survive_iff (s : Asm.Streams) (env : Asm.Environment) (ast : Asm.HbaDoc)
    (file : List UInt8) (h : Asm.hbasm (env.withStreams s) ast = .ok file) :
    Asm.StoresLiterals s (env.withStreams s) ast file (fun value bits => value = bits) ∧
    ∀ (tables : Tables) (fp : FloatPrinter) (hbc : HbcDoc) (files : List (Identifier × HbaText))
      (device : Identifier) (text : HbaText),
      hbcomp (tables.withStreams s) fp hbc = .ok files → (device, text) ∈ files →
      text.parse = some ast → FromProgram s hbc ast ∧
        Asm.StoresLiterals s (env.withStreams s) ast file
          fun value bits => value = s.parse (s.print bits) := by
  refine ⟨Asm.storesLiterals_hba h, ?_⟩
  intro tables fp hbc files device text hcompiled hmem hparse
  refine ⟨fromProgram_of_hbcomp hcompiled hmem hparse, Asm.storesLiterals_of_hbasm h ?_⟩
  rintro value bits n rfl hliteral hn
  exact hliteral.carries_reread hn

/-- The theorem at a program that switches a lamp. -/
theorem overtakenProgram_literals : ∃ text ast file,
    hbcomp (lampTables.withStreams Asm.plainStreams) bitPrinter overtakenProgram =
      .ok [(lampName, text)] ∧ text.parse = some ast ∧
    Asm.hbasm (Asm.uint32Assembler.withStreams Asm.plainStreams) ast = .ok file ∧
    FromProgram Asm.plainStreams overtakenProgram ast ∧
    Asm.StoresLiterals Asm.plainStreams (Asm.uint32Assembler.withStreams Asm.plainStreams) ast file
      fun value bits => value = Asm.plainStreams.parse (Asm.plainStreams.print bits) := by
  obtain ⟨text, ast, file, hcompiled, hparse, hfile⟩ : ∃ text ast file,
      hbcomp (lampTables.withStreams Asm.plainStreams) bitPrinter overtakenProgram =
        .ok [(lampName, text)] ∧ text.parse = some ast ∧
      Asm.hbasm (Asm.uint32Assembler.withStreams Asm.plainStreams) ast = .ok file :=
    ⟨_, _, _, rfl, rfl, rfl⟩
  obtain ⟨-, hhbc⟩ := literals_survive_iff Asm.plainStreams Asm.uint32Assembler ast file hfile
  obtain ⟨hprogram, hstores⟩ := hhbc lampTables bitPrinter overtakenProgram _ lampName text hcompiled
    List.mem_cons_self hparse
  exact ⟨text, ast, file, hcompiled, hparse, hfile, hprogram, hstores⟩

end Hexabus.Hbc
