import Hexabus.Hbc.HbaFile
import Hexabus.Lib.FloatText

/-!
# The way through a file

What the compiler hands to the assembler is a text. The assembler reads of it the program that the
compiler has printed, with the constants that the stream makes of them, and it takes the text
exactly if there is one start state in it.
-/

namespace Hexabus.Hbc

open Lib.Expectation Lib.Folds Asm

/-- Constants become something else on their way. -/
def Tables.rereading (tables : Tables) (f : UInt32 → UInt32) : Tables :=
  { tables with rereadFloat := f }

section
variable (fp : FloatPrinter) (version : Text) (tables : Tables) (machines : List MachineDescriptor)

/-- `HBAOutput::operator()`, with the text that it writes. -/
def hbaFile (device : Identifier) (g : Graph) : Except HbcError Text := do
  let text ← hbaOutput (tables.rereading id) machines device g
  return text.write fp.print version

/-- The files that `hbcomp` writes. -/
def hbcompFiles (hbc : HbcDoc) : Except HbcError (List (Identifier × Text)) := do
  let (machines, graphs) ← simplifiedGraphs fp hbc
  let graphs ← onGraphs (fun _ => expandMultipleWrites fp) graphs
  graphs.mapM fun entry => do return (entry.1, ← hbaFile fp version tables machines entry.1 entry.2)

end

/-! ## Constants on their way -/

/-- What is done for every element, done in another way. -/
theorem mapM_ok_map {α β γ ε : Type} {p : α → Except ε β} {q : α → Except ε γ} {f : β → γ}
    (h : ∀ a b, p a = .ok b → q a = .ok (f b)) {as : List α} {bs : List β}
    (has : as.mapM p = .ok bs) : as.mapM q = .ok (bs.map f) := by
  induction as generalizing bs with
  | nil =>
    cases has
    rfl
  | cons a as ih =>
    rw [List.mapM_cons] at has ⊢
    obtain ⟨b, hb, has⟩ := bind_ok_iff.mp has
    obtain ⟨bs', hbs, hret⟩ := bind_ok_iff.mp has
    cases hret
    rw [h a b hb, ih hbs]
    rfl

section
variable {tables : Tables} {machines : List MachineDescriptor} {device : Identifier} {g : Graph}
  {f : UInt32 → UInt32}

/-- A condition that is printed can be read again. -/
theorem Printed.rereading {condition : ConditionDoc} {cond : HbaCond}
    (h : Printed (tables.rereading id) device condition cond) :
    Coded cond ∧ Printed (tables.rereading f) device condition (cond.reread f) := by
  cases h with
  | @atomic _ op _ _ _ _ _ halias hname haddress hfind hbroadcast =>
    exact ⟨⟨op, rfl⟩, .atomic halias hname haddress hfind hbroadcast⟩
  | timeout => exact ⟨trivial, .timeout⟩
  | @timer field op => exact ⟨⟨field, op, rfl, rfl⟩, .timer⟩

theorem isIdentifier_numbered {c : Char} {w : Text} (hc : identifierStart c = true)
    (hw : w.all identifierRest = true) (m v : Nat) :
    isIdentifier (c :: (w ++ printUint m ++ '_' :: printUint v)) = true := by
  have hnumber : ∀ n, (printUint n).all identifierRest = true := fun n =>
    List.all_eq_true.mpr fun d hd => by
      simp [identifierRest, Char.isAlphanum, isDigit_of_mem_printUint hd]
  rw [isIdentifier, hc, List.all_append, List.all_append, hw, hnumber, List.all_cons, hnumber]
  rfl

theorem isIdentifier_stateName (m v : Nat) : isIdentifier (stateName m v).toList = true := by
  unfold stateName
  rw [String.toList_ofList]
  exact isIdentifier_numbered (w := "tate_".toList) (by decide) (by decide) m v

theorem isIdentifier_condName (m v : Nat) : isIdentifier (condName m v).toList = true := by
  unfold condName
  rw [String.toList_ofList]
  exact isIdentifier_numbered (w := "ond_".toList) (by decide) (by decide) m v

theorem isIdentifier_clauseName (w : Vertex) (condition : ConditionDoc) :
    isIdentifier (clauseName w condition).toList = true := by
  unfold clauseName
  split
  · rfl
  · exact isIdentifier_condName w.machineId w.vertexId

/-- The block of a condition. -/
theorem printConditions_rereading {w : Vertex} {blocks : List HbaDocBlock}
    (h : printConditions (tables.rereading id) machines device w = .ok blocks) :
    (∀ block ∈ blocks, Writable block) ∧
      printConditions (tables.rereading f) machines device w =
        .ok (blocks.map (HbaDocBlock.reread f)) := by
  have hnone : blocks = [] → (∀ block ∈ blocks, Writable block) := by
    rintro rfl block hmem
    exact absurd hmem List.not_mem_nil
  unfold printConditions at h ⊢
  cases hc : w.contents with
  | state =>
    rw [hc] at h
    cases h
    exact ⟨hnone rfl, rfl⟩
  | command commands =>
    rw [hc] at h
    cases h
    exact ⟨hnone rfl, rfl⟩
  | cond condition =>
    rw [hc] at h
    have hname := isIdentifier_condName w.machineId w.vertexId
    rcases printCondition_ok_iff.mp h with ⟨rfl, hcases⟩ | ⟨cond, hprinted, rfl⟩
    · exact ⟨hnone rfl, printCondition_ok_iff.mpr (.inl ⟨rfl, hcases⟩)⟩
    · obtain ⟨hcoded, hagain⟩ := hprinted.rereading (f := f)
      refine ⟨fun block hmem => ?_, printCondition_ok_iff.mpr (.inr ⟨_, hagain, rfl⟩)⟩
      rw [List.mem_singleton.mp hmem]
      exact ⟨hname, rfl, rfl, hcoded⟩

theorem printSet_rereading (hf : f 0 = 0) {m : Nat} {commands : List CommandDoc}
    {set : UInt32 × UInt32}
    (h : printSet (tables.rereading id) machines m commands = .ok set) :
    printSet (tables.rereading f) machines m commands = .ok (set.1, f set.2) := by
  refine printSet_ok_iff.mpr ?_
  cases printSet_ok_iff.mp h with
  | one hname hfind hwrite hbits =>
    exact @PrintedSet.one (tables.rereading f) _ _ _ _ hname hfind hwrite hbits
  | other hne =>
    rw [hf]
    exact .other hne

theorem clauseFrom_rereading (hf : f 0 = 0) {name : String} {m : Nat} {clause : Asm.IfClauseDoc}
    (hname : isIdentifier name.toList = true)
    (h : clauseFrom (tables.rereading id) machines g name m = .ok clause) :
    Spelled clause ∧
      clauseFrom (tables.rereading f) machines g name m = .ok (clause.reread f) := by
  unfold clauseFrom at h ⊢
  cases hm : g.vertices[m]? with
  | none =>
    rw [hm] at h
    cases h
  | some wm =>
    obtain ⟨namem, machinem, vertexm, contents⟩ := wm
    cases hadj : g.adjacent m with
    | nil =>
      simp only [hm, hadj] at h
      cases contents <;> cases h
    | cons target rest =>
      simp only [hm, hadj] at h ⊢
      cases contents with
      | state => cases h
      | cond condition => cases h
      | command block =>
        obtain ⟨_, hparts, h⟩ := bind_ok_iff.mp h
        cases hparts
        obtain ⟨set, hset, h⟩ := bind_ok_iff.mp h
        have hset' := @printSet_rereading tables machines f hf _ _ _ hset
        show Spelled clause ∧
          (printSet (tables.rereading f) machines machinem block.commands >>= _) = _
        rw [hset']
        cases ht : g.vertices[target]? with
        | none =>
          rw [ht] at h
          cases h
        | some wt =>
          obtain ⟨namet, machinet, vertext, contents⟩ := wt
          rw [ht] at h
          cases contents with
          | command block => cases h
          | cond condition => cases h
          | state =>
            cases h
            have hstate := isIdentifier_stateName machinet vertext
            exact ⟨⟨rfl, hname, hstate, hstate⟩, rfl⟩

theorem printClause_rereading (hf : f 0 = 0) {c : Nat} {clause : Asm.IfClauseDoc}
    (h : printClause (tables.rereading id) machines g c = .ok clause) :
    Spelled clause ∧ printClause (tables.rereading f) machines g c = .ok (clause.reread f) := by
  obtain ⟨w, condition, m, hw, hcondition, hhead, hclause⟩ := printClause_ok h
  obtain ⟨rest, hadj⟩ := List.head?_eq_some_iff.mp hhead
  rw [printClause_eq_clauseFrom hw hcondition hadj]
  exact clauseFrom_rereading hf (isIdentifier_clauseName w condition) hclause

/-- The block of a state. -/
theorem printState_rereading (hf : f 0 = 0) {v : Nat} {blocks : List HbaDocBlock}
    (h : printState (tables.rereading id) machines g v = .ok blocks) :
    (∀ block ∈ blocks, Writable block) ∧
      printState (tables.rereading f) machines g v = .ok (blocks.map (HbaDocBlock.reread f)) := by
  unfold printState at h ⊢
  cases hv : g.vertices[v]? with
  | none =>
    rw [hv] at h
    cases h
    exact ⟨fun _ hmem => absurd hmem List.not_mem_nil, rfl⟩
  | some w =>
    obtain ⟨name, machineId, vertexId, contents⟩ := w
    rw [hv] at h
    cases contents with
    | cond condition =>
      cases h
      exact ⟨fun _ hmem => absurd hmem List.not_mem_nil, rfl⟩
    | command block =>
      cases h
      exact ⟨fun _ hmem => absurd hmem List.not_mem_nil, rfl⟩
    | state =>
      obtain ⟨clauses, hclauses, hret⟩ := bind_ok_iff.mp h
      cases hret
      have hmap := mapM_ok_map (fun c clause hc =>
        (@printClause_rereading tables machines g f hf c clause hc).2) hclauses
      refine ⟨fun block hmem => ?_, ?_⟩
      · rw [List.mem_singleton.mp hmem]
        refine ⟨isIdentifier_stateName machineId vertexId, rfl, rfl, fun clause hclause => ?_⟩
        obtain ⟨c, -, hc⟩ := exists_of_mapM_ok hclauses hclause
        exact (@printClause_rereading tables machines g f hf c clause hc).1
      · show ((g.adjacent v).mapM (printClause (tables.rereading f) machines g) >>= _) = _
        rw [hmap]
        rfl

/-- **The program with other constants.** Its blocks can be written, and so can the names of its
start states. -/
theorem hbaOutput_rereading (hf : f 0 = 0) {text : HbaText}
    (h : hbaOutput (tables.rereading id) machines device g = .ok text) :
    (∀ block ∈ text.blocks, Writable block) ∧
      (∀ start ∈ text.starts, isIdentifier start.2.toList = true) ∧
      hbaOutput (tables.rereading f) machines device g = .ok (text.reread f) := by
  have hfind : ∀ f, (tables.rereading f).findDevice device = tables.findDevice device := fun _ => rfl
  unfold hbaOutput at h ⊢
  simp only [hfind] at h ⊢
  cases hdevice : tables.findDevice device with
  | none =>
    rw [hdevice] at h
    cases h
  | some address =>
    simp only [hdevice] at h ⊢
    obtain ⟨conditions, hconditions, h⟩ := bind_ok_iff.mp h
    obtain ⟨states, hstates, h⟩ := bind_ok_iff.mp h
    cases h
    have hconditions' := mapM_ok_map (fun w blocks hw =>
      (@printConditions_rereading tables machines device f w blocks hw).2) hconditions
    have hstates' := mapM_ok_map (fun v blocks hv =>
      (@printState_rereading tables machines g f hf v blocks hv).2) hstates
    refine ⟨fun block hmem => ?_, fun start hstart => ?_, ?_⟩
    · rcases List.mem_append.mp hmem with hmem | hmem
      · obtain ⟨blocks, hblocks, hblock⟩ := List.mem_flatten.mp hmem
        obtain ⟨w, -, hw⟩ := exists_of_mapM_ok hconditions hblocks
        exact (@printConditions_rereading tables machines device f w blocks hw).1 block hblock
      · obtain ⟨blocks, hblocks, hblock⟩ := List.mem_flatten.mp hmem
        obtain ⟨v, -, hv⟩ := exists_of_mapM_ok hstates hblocks
        exact (@printState_rereading tables machines g f hf v blocks hv).1 block hblock
    · obtain ⟨w, -, rfl⟩ := List.mem_map.mp hstart
      exact isIdentifier_stateName w.machineId w.vertexId
    · rw [hconditions', hstates']
      show Except.ok _ = Except.ok _
      rw [HbaText.reread, List.map_append, List.map_flatten, List.map_flatten]
      rfl

end

/-! ## The text of a program -/

section
variable {floatValue : Text → UInt32} {print : UInt32 → Text} {version g : Text}

theorem gap_version (hversion : version.all (!isLineEnd ·) = true) :
    Gap ("# Auto-generated by Hexabus Compiler version ".toList ++ (version ++ ".\n\n".toList)) := by
  have hbody : (" Auto-generated by Hexabus Compiler version ".toList ++ (version ++ ['.'])).all
      (!isLineEnd ·) = true := by
    rw [List.all_append, List.all_append, hversion]
    rfl
  have hgap : Gap ('#' :: ((" Auto-generated by Hexabus Compiler version ".toList ++
      (version ++ ['.'])) ++ '\n' :: ['\n'])) := .comment hbody rfl (.blank rfl .nil)
  simpa using hgap

/-- The digits of a machine's id, and the semicolon behind them. -/
theorem spells_machineId (hg : Gap g) (digits : List HexDigit) :
    Spells (Grammar.spelled id) Asm.Written.machineId
      (g ++ "machine".toList ++ (' ' :: (digits.map hexChar ++ [';']))) (· = digits) := by
  obtain ⟨t, gap, htext, hgap, hspells⟩ := @spells_items Identifier HexDigit
    (Grammar.spelled id) Asm.Written.hexDigit [' '] HexDigit (fun digit => [hexChar digit])
    (fun digit read => read = digit) digits
    (fun digit _ => ⟨[hexChar digit], [], rfl, .nil, fun g hg => spells_hexDigit hg digit⟩)
    (.blank rfl .nil)
  have hread : Spells (Grammar.spelled id) Asm.Written.machineId
      (g ++ "machine".toList ++ (t ++ (gap ++ ";".toList ++ []))) (· = digits) :=
    .word "machine".toList hg (hspells.bind fun read hread => .word ";".toList hgap
      (spells_pure (List.forall₂_eq_eq_eq ▸ hread.flip)))
  have hdigits : ' ' :: (digits.map hexChar ++ [';']) = t ++ (gap ++ ";".toList ++ []) := by
    rw [List.append_nil, ← List.append_assoc, ← htext, List.map_eq_flatMap]
    rfl
  rw [hdigits]
  exact hread

theorem spells_targetIp (hg : Gap g) (address : Ipv6Address) :
    Spells (Grammar.spelled id) Asm.Written.targetIp
      (g ++ "target".toList ++ ([' '] ++ writeDigits 0 address.val ++ ([] ++ ";".toList ++ [])))
      (· = address) :=
  .word "target".toList hg ((spells_ipv6Address Definitions.gap_space address).bind fun _ hread =>
    .word ";".toList .nil (spells_pure hread))

/-- The name of the device, as bytes. -/
def HbaText.nameBytes (text : HbaText) : List UInt8 :=
  text.deviceName.val.map fun c => UInt8.ofNat c.toNat

theorem spells_deviceName (hg : Gap g) (text : HbaText) :
    Spells (Grammar.spelled id) Asm.Written.deviceName
      (g ++ "device_name".toList ++ ([' '] ++ text.deviceName.val ++ ([] ++ ";".toList ++ [])))
      (· = text.nameBytes) := by
  have hname := @spells_identifier [' '] Definitions.gap_space (String.ofList text.deviceName.val)
    (by rw [String.toList_ofList]; exact text.deviceName.property)
  rw [String.toList_ofList] at hname
  refine .word "device_name".toList hg (Spells.bind (P := (· = text.nameBytes)) (.right (hname.map
    fun name hread => ?_)) fun _ hread => .word ";".toList .nil (spells_pure hread))
  rw [hread, Asm.Grammar.nameBytes, String.toList_ofList]
  rfl

theorem spells_startstate (hg : Gap g) {name : String} (hname : isIdentifier name.toList = true) :
    Spells (Grammar.spelled id) Asm.Written.startstate
      (g ++ "startstate".toList ++ ([' '] ++ name.toList ++ ([] ++ ";".toList ++ []))) (· = name) :=
  .word "startstate".toList hg ((spells_identifier Definitions.gap_space hname).bind fun _ hread =>
    .word ";".toList .nil (spells_pure hread))

variable (floatValue)

/-- The blocks, and what is left at the end. -/
theorem spells_blocks (hprint : ∀ bits, Written.IsFloat (print bits)) {blocks : List HbaDocBlock}
    (h : ∀ block ∈ blocks, Writable block) (hg : Gap g) :
    ∃ t gap, g ++ blocks.flatMap (writeBlock print) = t ++ gap ∧ Gap gap ∧
      Spells (Grammar.spelled id) (Language.Star (Asm.Written.block floatValue)) t fun docs =>
        docs.map HbaDocBlock.unnumbered = blocks.map (HbaDocBlock.reread (floatValue ∘ print)) := by
  obtain ⟨t, gap, htext, hgap, hspells⟩ := spells_items (fun block hblock =>
    spells_block floatValue hprint (h block hblock)) hg
  exact ⟨t, gap, htext, hgap, hspells.mono fun docs hdocs => map_eq_map hdocs⟩

/-! ## Programs -/

variable {text : HbaText}

/-- What stands in front of the lines of the start states. -/
def headText (version : Text) (text : HbaText) : Text :=
  ("# Auto-generated by Hexabus Compiler version ".toList ++ (version ++ ".\n\n".toList)) ++
    "target".toList ++ ([' '] ++ writeDigits 0 text.target.val ++ ([] ++ ";".toList ++ []))

/-- The line of the device's name, behind a line end. -/
def nameText (text : HbaText) : Text :=
  ['\n'] ++ "device_name".toList ++ ([' '] ++ text.deviceName.val ++ ([] ++ ";".toList ++ []))

theorem write_eq (text : HbaText) : text.write print version = headText version text ++
    (nameText text ++ (['\n'] ++ (text.starts.flatMap writeStart ++
      text.blocks.flatMap (writeBlock print)))) := by
  unfold HbaText.write headText nameText
  generalize writeDigits 0 text.target.val = digits
  simp

/-- The lines of a start state, up to the blank line behind them. -/
theorem writeStart_eq (start : List HexDigit × String) (rest : Text) :
    ['\n'] ++ (writeStart start ++ rest) =
      (['\n'] ++ "machine".toList ++ (' ' :: (start.1.map hexChar ++ [';']))) ++
        (("\n\n".toList ++ "startstate".toList ++ ([' '] ++ start.2.toList ++ ([] ++ ";".toList ++ []))) ++
          ("\n\n".toList ++ rest)) := by
  unfold writeStart
  generalize start.1.map hexChar = digits
  generalize start.2.toList = name
  simp

/-- **The text of a program with one start state** is one of the language. -/
theorem spells_program (hprint : ∀ bits, Written.IsFloat (print bits))
    (hversion : version.all (!isLineEnd ·) = true)
    (hblocks : ∀ block ∈ text.blocks, Writable block) {start : List HexDigit × String}
    (hstarts : text.starts = [start]) (hname : isIdentifier start.2.toList = true) :
    Spells (Grammar.spelled id) (Asm.Written.program floatValue) (text.write print version)
      fun doc => doc.unnumbered = ⟨text.target, text.nameBytes, start.1, start.2,
        text.blocks.map (HbaDocBlock.reread (floatValue ∘ print))⟩ := by
  obtain ⟨blocks, gap, htext, hgap, hread⟩ := spells_blocks floatValue hprint hblocks
    gap_blankLine
  rw [write_eq, hstarts, List.flatMap_singleton, writeStart_eq, htext]
  refine (spells_targetIp (gap_version hversion) text.target).bind fun _ htarget => ?_
  refine (spells_deviceName (.blank rfl .nil) text).bind fun _ hdevice => ?_
  refine (spells_machineId (.blank rfl .nil) start.1).bind fun _ hid => ?_
  refine ((spells_startstate gap_blankLine hname).some (Q := (· = some start.2))
    fun _ h => congrArg some h).bind fun _ hstart => ?_
  refine hread.bind fun docs hdocs => ?_
  refine (spells_gap hgap).map fun _ _ => ?_
  rw [htarget, hdevice, hid, hstart]
  exact congrArg _ hdocs

/-- No line of a machine is ahead of the blocks. -/
theorem fails_machineId (hprint : ∀ bits, Written.IsFloat (print bits))
    (hblocks : ∀ block ∈ text.blocks, Writable block) (hg : Gap g) :
    Fails Asm.Grammar.machineId (g ++ text.blocks.flatMap (writeBlock print)) := by
  obtain ⟨t, gap, htext, hgap, hread⟩ := spells_blocks (fun _ => 0) hprint hblocks hg
  obtain ⟨ps, docs, hdocs, rfl, -⟩ := hread 1
  rw [htext]
  have hblock := @Asm.Grammar.choice_block id 0 (fun _ => True) fun _ => 0
  rcases hblock.precedes_star 1 ps docs gap hdocs hgap with ⟨w, hw, hled⟩ | hend
  · rcases List.mem_pair.mp hw with rfl | rfl <;> exact fails_bind (fails_lit rfl rfl hled)
  · exact fails_bind (fails_lit_end rfl hend)

theorem led_writeStart (hg : Gap g) (start : List HexDigit × String) (rest : Text) :
    Led "machine".toList (g ++ (writeStart start ++ rest)) := by
  refine ⟨g, [' '] ++ (start.1.map hexChar ++ (";\n\n".toList ++ ("startstate ".toList ++
    (start.2.toList ++ ";\n\n".toList)))) ++ rest, hg, ?_⟩
  unfold writeStart
  generalize start.1.map hexChar = digits
  generalize start.2.toList = name
  simp

/-- **Another number of start states** than one is not accepted. -/
theorem refuses_program (hprint : ∀ bits, Written.IsFloat (print bits))
    (hversion : version.all (!isLineEnd ·) = true)
    (hblocks : ∀ block ∈ text.blocks, Writable block)
    (hnames : ∀ start ∈ text.starts, isIdentifier start.2.toList = true)
    (hstarts : text.starts.length ≠ 1) :
    Refuses (Asm.Grammar.start floatValue) (text.write print version) := by
  rw [write_eq]
  refine Asm.Grammar.reads_targetIp.refuses (F := fun _ => True)
    (spells_targetIp (gap_version hversion) text.target) trivial fun _ => ?_
  refine Asm.Grammar.reads_deviceName.refuses (F := fun _ => True)
    (spells_deviceName (.blank rfl .nil) text) trivial fun _ => ?_
  match hlist : text.starts with
  | [] => exact refuses_bind (refuses_of_fails (fails_machineId hprint hblocks (.blank rfl .nil)))
  | [start] => exact absurd (congrArg List.length hlist) hstarts
  | start :: next :: rest =>
    have hname := hnames start (hlist ▸ List.mem_cons_self)
    rw [List.flatMap_cons, List.append_assoc, writeStart_eq]
    refine Asm.Grammar.reads_machineId.refuses (F := fun _ => True)
      (spells_machineId (.blank rfl .nil) start.1) trivial fun _ => ?_
    have hahead : Led "machine".toList ("\n\n".toList ++ ((next :: rest).flatMap writeStart ++
        text.blocks.flatMap (writeBlock print))) := by
      rw [List.flatMap_cons, List.append_assoc]
      exact led_writeStart gap_blankLine next _
    refine (reads_opt (Asm.Grammar.choice_startstate (F := fun _ => True)).reads).refuses
      ((spells_startstate gap_blankLine hname).some (Q := fun _ => True) fun _ _ => trivial)
      ⟨trivial, (@Asm.Grammar.choice_startstate id 0 fun _ => True).fails _ _ rfl rfl hahead⟩
      fun _ => ?_
    refine refuses_star_bind
      ((@Asm.Grammar.choice_block id 0 (fun _ => True) floatValue).fails _ _ rfl rfl hahead) ?_
    exact refuses_bind (refuses_of_errors (errors_eoi rfl hahead))

/-! ## The files -/

variable {text : HbaText} {f : UInt32 → UInt32}

/-- The program of the one start state. -/
theorem parse_reread {start : List HexDigit × String} (hstart : text.starts = [start]) :
    (text.reread f).parse = some ⟨text.target, text.nameBytes, start.1, start.2,
      text.blocks.map (HbaDocBlock.reread f)⟩ := by
  have hstarts : (text.reread f).starts = [start] := hstart
  unfold HbaText.parse
  rw [hstarts]
  rfl

/-- Any other number of them is none. -/
theorem parse_reread_none (hstarts : text.starts.length ≠ 1) : (text.reread f).parse = none := by
  unfold HbaText.parse
  split
  · have hone : text.starts = _ := ‹_›
    rw [hone] at hstarts
    exact absurd rfl hstarts
  · rfl

/-- **The way through a file**: of what `hbcomp` writes for a device, the assembler reads the program
that is printed for it, up to the lines, or nothing where there is not one start state. -/
theorem parse_hbaFile (fp : FloatPrinter) (floatValue : Text → UInt32) (version : Text)
    (tables : Tables) (machines : List MachineDescriptor) (device : Identifier) (g : Graph) (file : Text)
    (hprint : ∀ bits, Written.IsFloat (fp.print bits)) (hzero : floatValue (fp.print 0) = 0)
    (hversion : version.all (!isLineEnd ·) = true)
    (h : hbaFile fp version tables machines device g = .ok file) :
    ∃ text, hbaOutput (tables.rereading (floatValue ∘ fp.print)) machines device g = .ok text ∧
      (Asm.Grammar.parse floatValue file).map HbaDoc.unnumbered = text.parse := by
  obtain ⟨text, htext, hret⟩ := bind_ok_iff.mp h
  cases hret
  obtain ⟨hblocks, hnames, hreread⟩ := hbaOutput_rereading (f := floatValue ∘ fp.print) hzero htext
  refine ⟨_, hreread, ?_⟩
  by_cases hstarts : text.starts.length = 1
  · obtain ⟨start, hstart⟩ := List.length_eq_one_iff.mp hstarts
    have hread := spells_program floatValue hprint hversion hblocks hstart
      (hnames start (hstart ▸ List.mem_singleton_self start))
    obtain ⟨ps, doc, hdoc, htext, hunnumbered⟩ := hread 1
    rw [← htext, Asm.Grammar.parse_written hdoc, Option.map_some, hunnumbered,
      parse_reread hstart]
  · have hrefuses := refuses_program floatValue hprint hversion hblocks hnames hstarts
    rw [parse_reread_none hstarts, Asm.Grammar.parse]
    cases hstart : Asm.Grammar.start floatValue ⟨1, text.write fp.print version⟩ with
    | ok doc q => exact absurd hstart (hrefuses 1 doc q)
    | fail => rfl
    | error => rfl

/-- What is done for every element, with a result that belongs to the other one. -/
theorem forall₂_of_mapM_ok {α β γ ε : Type} {p : α → Except ε β} {q : α → Except ε γ}
    {R : β → γ → Prop} (h : ∀ a b, p a = .ok b → ∃ c, q a = .ok c ∧ R b c) {as : List α} {bs : List β}
    (has : as.mapM p = .ok bs) : ∃ cs, as.mapM q = .ok cs ∧ List.Forall₂ R bs cs := by
  induction as generalizing bs with
  | nil =>
    cases has
    exact ⟨[], rfl, .nil⟩
  | cons a as ih =>
    rw [List.mapM_cons] at has ⊢
    obtain ⟨b, hb, has⟩ := bind_ok_iff.mp has
    obtain ⟨bs', hbs, hret⟩ := bind_ok_iff.mp has
    cases hret
    obtain ⟨c, hc, hR⟩ := h a b hb
    obtain ⟨cs, hcs, hall⟩ := ih hbs
    rw [hc, hcs]
    exact ⟨c :: cs, rfl, .cons hR hall⟩

/-- **The files of a program**: the assembler reads of each of them what is printed for its device. -/
theorem hbcompFiles_parse (fp : FloatPrinter) (floatValue : Text → UInt32) (version : Text)
    (tables : Tables) (hbc : HbcDoc) (files : List (Identifier × Text))
    (hprint : ∀ bits, Written.IsFloat (fp.print bits)) (hzero : floatValue (fp.print 0) = 0)
    (hversion : version.all (!isLineEnd ·) = true)
    (h : hbcompFiles fp version tables hbc = .ok files) :
    ∃ texts, hbcomp (tables.rereading (floatValue ∘ fp.print)) fp hbc = .ok texts ∧
      List.Forall₂ (fun file text => file.1 = text.1 ∧
        (Asm.Grammar.parse floatValue file.2).map HbaDoc.unnumbered = text.2.parse) files texts := by
  obtain ⟨⟨machines, graphs⟩, hgraphs, h⟩ := bind_ok_iff.mp h
  obtain ⟨expanded, hexpanded, h⟩ := bind_ok_iff.mp h
  obtain ⟨texts, htexts, hall⟩ := forall₂_of_mapM_ok (q := fun entry => do
      return (entry.1, ← hbaOutput (tables.rereading (floatValue ∘ fp.print)) machines entry.1 entry.2))
    (R := fun file text => file.1 = text.1 ∧
      (Asm.Grammar.parse floatValue file.2).map HbaDoc.unnumbered = text.2.parse)
    (fun entry file hfile => by
      obtain ⟨text, htext, hret⟩ := bind_ok_iff.mp hfile
      cases hret
      obtain ⟨printed, hprinted, hparse⟩ := parse_hbaFile fp floatValue version tables machines entry.1
        entry.2 text hprint hzero hversion htext
      exact ⟨(entry.1, printed), by rw [hprinted]; rfl, rfl, hparse⟩) h
  refine ⟨texts, ?_, hall⟩
  unfold hbcomp
  rw [hgraphs]
  show (onGraphs (fun _ => expandMultipleWrites fp) graphs >>= _) = _
  rw [hexpanded]
  exact htexts

end

/-! ## A file -/

/-- No exponent follows a number that is ended. -/
theorem exponentText_of_ends {s : Text} (hs : Written.Ends s) :
    Grammar.exponentText s = some [] := by
  cases s with
  | nil => rfl
  | cons d s =>
    have hd : (!(identifierRest d || d = '.' || d = '(')) = true := hs
    have hne : (decide (d = 'e') || decide (d = 'E')) = false := by
      rw [Bool.eq_false_iff]
      intro he
      rw [Bool.or_eq_true, decide_eq_true_eq, decide_eq_true_eq] at he
      rcases he with rfl | rfl <;> exact absurd hd (by decide)
    rw [Grammar.exponentText, hne]
    rfl

/-- Digits are a number, whatever ends them. -/
theorem isFloat_of_isDigit {c : Char} {w : Text} (h : (c :: w).all Char.isDigit = true) :
    Written.IsFloat (c :: w) := by
  have hc : c.isDigit = true := List.all_eq_true.mp h c List.mem_cons_self
  have hnot : ∀ d : Char, d.isDigit = false → c ≠ d := by
    rintro d hd rfl
    rw [hc] at hd
    cases hd
  refine ⟨solid_cons (notMem_gapChars (p := Char.isDigit) (by decide) hc) w,
    fun hsign => hnot '$' rfl (Option.some.inj hsign), fun s hs => ?_⟩
  have hends := Grammar.noDigit_of_ends hs
  have hstop : s.takeWhile Char.isDigit = [] := by
    cases s with
    | nil => rfl
    | cons d s =>
      have hd : (!d.isDigit) = true := hends
      exact List.takeWhile_cons_of_neg (by simpa using hd)
  have hwhole : (c :: w ++ s).takeWhile Char.isDigit = c :: w := by
    rw [List.takeWhile_append_of_pos (List.all_eq_true.mp h), hstop, List.append_nil]
  have hsign : Grammar.signText (c :: w ++ s) = [] := by
    rw [List.cons_append, Grammar.signText.eq_3]
    · rintro t ⟨rfl, -⟩
      exact hnot '+' rfl rfl
    · rintro t ⟨rfl, -⟩
      exact hnot '-' rfl rfl
  rw [Grammar.floatText, hsign, List.length_nil, List.drop_zero, Grammar.unsignedText, hwhole]
  simp only [List.drop_left, reduceCtorEq, if_false, Option.isSome_none]
  split
  next u => exact absurd (show false = true from hs) Bool.false_ne_true
  · simp [exponentText_of_ends hs]

/-- What the numbers that `bitPrinter` prints stand for. -/
def bitValue (w : Text) : UInt32 := if w = ['1'] then 0x3f800000 else 0

theorem isFloat_bitPrinter (bits : UInt32) : Written.IsFloat (bitPrinter.print bits) := by
  show Written.IsFloat (if bits = 0x3f800000 then ['1'] else ['0'])
  split <;> exact isFloat_of_isDigit (by decide)

/-- The file of the two lamps. -/
theorem lampFile_parse : ∃ file text,
    hbcompFiles bitPrinter "0.9".toList lampTables initSecond = .ok [(lampName, file)] ∧
    hbcomp (lampTables.rereading (bitValue ∘ bitPrinter.print)) bitPrinter initSecond =
      .ok [(lampName, text)] ∧
    (Asm.Grammar.parse bitValue file).map HbaDoc.unnumbered = text.parse ∧
      text.parse.isSome = true := by
  have hfiles : ∃ file, hbcompFiles bitPrinter "0.9".toList lampTables initSecond =
      .ok [(lampName, file)] := ⟨_, rfl⟩
  have htexts : ∃ text, hbcomp (lampTables.rereading (bitValue ∘ bitPrinter.print)) bitPrinter
      initSecond = .ok [(lampName, text)] ∧ text.parse.isSome = true := ⟨_, rfl, rfl⟩
  obtain ⟨file, hfile⟩ := hfiles
  obtain ⟨text, htext, hsome⟩ := htexts
  obtain ⟨texts, hcomp, hall⟩ := hbcompFiles_parse bitPrinter bitValue "0.9".toList lampTables
    initSecond [(lampName, file)] isFloat_bitPrinter rfl (by decide) hfile
  rw [htext] at hcomp
  cases hcomp
  obtain ⟨⟨-, hparse⟩, -⟩ := List.forall₂_cons.mp hall
  exact ⟨file, text, hfile, htext, hparse, hsome⟩

end Hexabus.Hbc
