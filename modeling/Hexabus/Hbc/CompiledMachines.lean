import Hexabus.Asm.Tidy
import Hexabus.Hbc.Acceptance
import Hexabus.Hbc.Meaning
import Hexabus.Hbc.UniqueNames

/-!
# Compiled machines

What becomes of the guarded blocks of a machine. A state of the program is a state of the graph
that its file is printed from, and its clauses are the blocks in the order in which they are
tried; each makes the first write of its block, and leads to where the others are left to make.
-/

namespace Hexabus.Hbc

open Lib.Bytes Lib.Folds Firmware

/-! ## Two lists side by side -/

section

variable {ι α β γ : Type} {R : α → β → Prop}

theorem forall₂_map_filterMap {f : ι → α} {q : ι → Option β} {l : List ι}
    (h : ∀ i ∈ l, ∃ b, q i = some b ∧ R (f i) b) : List.Forall₂ R (l.map f) (l.filterMap q) := by
  induction l with
  | nil => exact .nil
  | cons i l ih =>
    obtain ⟨b, hb, hR⟩ := h i List.mem_cons_self
    rw [List.map_cons, List.filterMap_cons_some hb]
    exact .cons hR (ih fun j hj => h j (List.mem_cons_of_mem _ hj))

/-- What comes of some of the elements. -/
theorem forall₂_filter_filterMap {f : ι → α} {p : ι → Bool} {q : ι → Option β} {l : List ι}
    (hp : ∀ i ∈ l, p i = (q i).isSome) (h : ∀ i ∈ l, ∀ b, q i = some b → R (f i) b) :
    List.Forall₂ R ((l.filter p).map f) (l.filterMap q) := by
  induction l with
  | nil => exact .nil
  | cons i l ih =>
    have hrest := ih (fun j hj => hp j (List.mem_cons_of_mem _ hj))
      fun j hj => h j (List.mem_cons_of_mem _ hj)
    have hi := hp i List.mem_cons_self
    cases hq : q i with
    | none =>
      rw [hq] at hi
      rw [List.filter_cons_of_neg (by rw [hi]; exact Bool.false_ne_true),
        List.filterMap_cons_none hq]
      exact hrest
    | some b =>
      rw [hq] at hi
      rw [List.filter_cons_of_pos hi, List.filterMap_cons_some hq, List.map_cons]
      exact .cons (h i List.mem_cons_self b hq) hrest

/-- Two lists that belong to a third one. -/
theorem forall₂_join {S : α → γ → Prop} {as : List α} {bs : List β} {cs : List γ}
    (h : List.Forall₂ R as bs) (h' : List.Forall₂ S as cs) :
    List.Forall₂ (fun b c => b ∈ bs ∧ ∃ a, R a b ∧ S a c) bs cs := by
  induction h generalizing cs with
  | nil =>
    cases h'
    exact .nil
  | @cons a b as bs hab _ ih =>
    cases h' with
    | cons hac hrest =>
      refine .cons ⟨List.mem_cons_self, a, hab, hac⟩ ((ih hrest).imp fun b c hbc => ?_)
      exact ⟨List.mem_cons_of_mem _ hbc.1, hbc.2⟩

/-- The first ones that are found belong together. -/
theorem rel_find? {p : α → Bool} {q : β → Bool} {as : List α} {bs : List β}
    (h : List.Forall₂ R as bs) (heq : ∀ a b, R a b → p a = q b) :
    Option.Rel R (as.find? p) (bs.find? q) := by
  induction h with
  | nil => exact .none
  | @cons a b as bs hab _ ih =>
    rw [List.find?_cons, List.find?_cons, heq a b hab]
    cases q b with
    | true => exact .some hab
    | false => exact ih

end

variable {fp : FloatPrinter} {g g' g'' : Graph} {maxId machineId : Nat} {sm : StatemachineDoc}
  {device : Identifier}

/-! ## The clauses of the graph -/

/-- A clause of the graph makes the first write of a block, and the chain behind it the others. -/
def FiresBlock (g : Graph) (n : Nat) (sm : StatemachineDoc) (device : Identifier) (c : Nat)
    (clause : NumberedClause) : Prop :=
  g.contents c = some (.cond clause.2) ∧ ∃ b u, sm.resolved[clause.1]? = some b ∧
    g.clause c = some ((b.commandsFor device).take 1, u) ∧
    Chain g n u (b.commandsFor device).tail b.target ∧ b.target < sm.stateset.length

theorem clause_of {g : Graph} {c m t : Nat} {block : CommandBlockDoc} (hm : g.adjacent c = [m])
    (hblock : g.contents m = some (.command block)) (ht : g.adjacent m = [t]) :
    g.clause c = some (block.commands, t) := by
  unfold Graph.clause
  rw [hm]
  simp only [hblock, ht]

section

variable (h : Simplified fp machineId sm (sm.resolved.map (ownBlock device)) g g' g'' maxId)
include h

/-- A clause of the halved graph in the expanded one. -/
theorem Simplified.fires {c t : Nat} {condition : ConditionDoc} {commands : List CommandDoc}
    (hcond : g'.contents c = some (.cond condition)) (hclause : g'.clause c = some (commands, t)) :
    g''.contents c = some (.cond condition) ∧ ∃ u, g''.clause c = some (commands.take 1, u) ∧
      Chain g'' g'.size u commands.tail t := by
  obtain ⟨commands', t', u, hclause', -, hfirst, hchain⟩ :=
    h.expanded.clause (h.halved.wellFormed h.slice.machineGraph) hcond
  cases hclause.symm.trans hclause'
  have hsame := h.expanded.other hcond fun block heq => by cases heq
  exact ⟨hsame.1.trans hcond, u, hfirst, List.drop_one ▸ hchain⟩

/-- Both parts of a block's condition lead to the block. -/
theorem Simplified.firesBlock (hown : ∀ b ∈ sm.resolved, ∃ own,
      ownCommands device b.block.commandBlock.commands = .ok own) {j : Nat} {b : ResolvedBlock}
    (hb : sm.resolved[j]? = some b) :
    g.contents (sm.stateset.length + 2 * j) = some (.cond b.block.condition) ∧
    FiresBlock g'' g'.size sm device (sm.stateset.length + 2 * j)
      (j, b.block.condition.firstPart) ∧
    ∀ part, b.block.condition.secondPart = some part →
      FiresBlock g'' g'.size sm device (g.newCond (sm.stateset.length + 2 * j)) (j, part) := by
  have hg := h.slice.machineGraph
  have hmem := List.mem_of_getElem? hb
  have hblock : (sm.resolved.map (ownBlock device))[j]? = some (ownBlock device b) := by
    rw [List.getElem?_map, hb]
    rfl
  have hcommands : (ownBlock device b).block.commandBlock.commands = b.commandsFor device :=
    commands_ownBlock (hown b hmem)
  have htarget : b.target < sm.stateset.length :=
    (h.slice.shape.inRange _ (List.mem_of_getElem? hblock)).2
  -- the clause in the graph of the machine
  obtain ⟨name, -, hcond⟩ := h.slice.shape.cond j _ hblock
  obtain ⟨name', -, hcommand⟩ := h.slice.shape.command j _ hblock
  have hadjacent := h.slice.shape.ofCond j _ hblock
  have hleads := h.slice.shape.ofCommand j _ hblock
  rw [Nat.zero_add] at hcond hcommand hadjacent hleads
  rw [Nat.zero_add] at hleads
  have hcontents := Graph.contents_of_vertex hcond
  have hbehind := Graph.contents_of_vertex hcommand
  have hclause := clause_of hadjacent hbehind hleads
  rw [hcommands] at hclause
  have hsame : ∀ {v contents}, g.contents v = some contents → contents ≠ .state →
      g'.adjacent v = g.adjacent v := by
    intro v contents hv hne
    rw [h.halved.adjacent v (Graph.contents_lt hv), newClauses_of_not_state hg.wellFormed hv hne,
      List.append_nil]
  refine ⟨hcontents, ?_, fun part hpart => ?_⟩
  · have hfirst : g'.contents (sm.stateset.length + 2 * j) =
        some (.cond b.block.condition.firstPart) := h.halved.contents_old hcontents
    have hclause' : g'.clause (sm.stateset.length + 2 * j) =
        some (b.commandsFor device, b.target) := by
      rw [← hcommands]
      exact clause_of ((hsame hcontents nofun).trans hadjacent) (h.halved.contents_old hbehind)
        ((hsame hbehind nofun).trans hleads)
    obtain ⟨hkept, u, hfires, hchain⟩ := h.fires hfirst hclause'
    exact ⟨hkept, b, u, hb, hfires, hchain, htarget⟩
  · have hsplits : g.splits (sm.stateset.length + 2 * j) = some part :=
      (Graph.splits_of_contents hcontents).trans hpart
    obtain ⟨block, target, hwhole, -, hadj, hblock', htarget'⟩ := h.halved.newClause hg hsplits
    obtain ⟨hwrites, rfl⟩ := Prod.mk.inj (Option.some.inj (hclause.symm.trans hwhole))
    have hclause' := clause_of hadj hblock' htarget'
    rw [← hwrites] at hclause'
    obtain ⟨hkept, u, hfires, hchain⟩ := h.fires (h.halved.contents_newCond hsplits) hclause'
    exact ⟨hkept, b, u, hb, hfires, hchain, htarget⟩

/-- **The clauses of a state** are the guarded blocks that are tried there. -/
theorem Simplified.tried (hown : ∀ b ∈ sm.resolved, ∃ own,
      ownCommands device b.block.commandBlock.commands = .ok own) {k : Nat}
    (hk : k < sm.stateset.length) :
    List.Forall₂ (FiresBlock g'' g'.size sm device) (g''.adjacent k) (sm.tried k) := by
  have hg := h.slice.machineGraph
  have hstate := Graph.contents_of_vertex (h.slice.shape.state k _ (List.getElem?_eq_getElem hk))
  rw [Nat.zero_add] at hstate
  have hadjacent := h.slice.shape.ofState k hk
  simp only [Nat.zero_add] at hadjacent
  rw [clauseNumbers_ownBlock] at hadjacent
  have hkept := h.expanded.other (h.halved.contents_old hstate) fun block heq => by cases heq
  rw [hkept.2, h.halved.adjacent k (Graph.contents_lt hstate), newClauses, hadjacent,
    List.filter_map, List.map_map]
  have hnumber : ∀ j ∈ clauseNumbers sm.resolved k, ∃ b, sm.resolved[j]? = some b := by
    intro j hj
    obtain ⟨b, hb, -⟩ := mem_clauseNumbers.mp hj
    exact ⟨b, hb⟩
  unfold StatemachineDoc.tried secondPartsLast sourceClauses
  rw [List.map_filterMap, List.filterMap_filterMap]
  refine List.rel_append (forall₂_map_filterMap fun j hj => ?_)
    (forall₂_filter_filterMap (fun j hj => ?_) fun j hj clause hclause => ?_)
  · obtain ⟨b, hb⟩ := hnumber j hj
    refine ⟨_, by rw [hb]; rfl, (h.firesBlock hown hb).2.1⟩
  · obtain ⟨b, hb⟩ := hnumber j hj
    have hcontents := (h.firesBlock hown hb).1
    have hlt := Graph.contents_lt hcontents
    simp only [Function.comp_apply]
    rw [decide_eq_true hlt, Bool.true_and, Graph.splits_of_contents hcontents, hb, Option.map_some,
      Option.bind_some, Option.isSome_map]
  · obtain ⟨b, hb⟩ := hnumber j hj
    rw [hb] at hclause
    obtain ⟨part, hpart, rfl⟩ := Option.map_eq_some_iff.mp hclause
    exact (h.firesBlock hown hb).2.2 part hpart

/-- A command vertex sets what the machine sets. -/
theorem Simplified.sets (hown : ∀ b ∈ sm.resolved, ∃ own,
      ownCommands device b.block.commandBlock.commands = .ok own) (tables : Tables) {m : Nat}
    {block : CommandBlockDoc} (hm : g''.contents m = some (.command block)) :
    block.commands.length ≤ 1 ∧ sm.Sets tables device (tables.written block.commands).1 := by
  rcases h.of_command hm with ⟨command, hcommands, b', hb', hmem⟩ | ⟨hcommands, b', hb', hnone⟩
  · obtain ⟨b, hb, rfl⟩ := List.mem_map.mp hb'
    rw [commands_ownBlock (hown b hb)] at hmem
    rw [hcommands]
    exact ⟨Nat.le_refl 1, b, hb, .inr ⟨command, hmem, rfl⟩⟩
  · obtain ⟨b, hb, rfl⟩ := List.mem_map.mp hb'
    rw [commands_ownBlock (hown b hb)] at hnone
    rw [hcommands]
    exact ⟨Nat.zero_le 1, b, hb, .inl ⟨hnone, rfl⟩⟩

end

/-! ## Printed clauses -/

variable {tables : Tables} {machines : List MachineDescriptor} {text : HbaText}

theorem clause_some {g : Graph} {c t : Nat} {commands : List CommandDoc}
    (h : g.clause c = some (commands, t)) : ∃ m rest block rest', g.adjacent c = m :: rest ∧
      g.contents m = some (.command block) ∧ block.commands = commands ∧
      g.adjacent m = t :: rest' := by
  unfold Graph.clause at h
  split at h
  · cases h
  · rename_i m rest hm
    split at h
    · rename_i block target rest' hblock htarget
      obtain ⟨hcommands, rfl⟩ := Prod.mk.inj (Option.some.inj h)
      exact ⟨m, rest, block, rest', hm, hblock, hcommands, htarget⟩
    · cases h

/-- The second half of a clause, with its command vertex and its target. -/
theorem clauseFrom_eq {g : Graph} {m target : Nat} {rest : List Nat} {wm wt : Vertex}
    {block : CommandBlockDoc} (name : String) (hwm : g.vertices[m]? = some wm)
    (hblock : wm.contents = .command block) (htarget : g.adjacent m = target :: rest)
    (hwt : g.vertices[target]? = some wt) (hstate : wt.contents = .state) :
    clauseFrom tables machines g name m =
      (printSet tables machines wm.machineId block.commands).map fun set =>
        ⟨0, name, set.1, set.2, stateName wt.machineId wt.vertexId,
          stateName wt.machineId wt.vertexId⟩ := by
  obtain ⟨namem, machinem, vertexm, contentsm⟩ := wm
  obtain ⟨namet, machinet, vertext, contentst⟩ := wt
  simp only at hblock hstate
  subst hblock hstate
  unfold clauseFrom
  cases hset : printSet tables machines machinem block.commands with
  | error e => simp only [hwm, htarget, hset, bind, Except.bind, Except.map]
  | ok set => simp only [hwm, htarget, hset, hwt, bind, Except.bind, Except.map, pure, Except.pure]

/-- The `set` line of a block is its first write. -/
theorem printSet_written {m : Nat} {commands : List CommandDoc} {set : UInt32 × UInt32}
    (h : printSet tables machines m (commands.take 1) = .ok set) : set = tables.written commands := by
  unfold Tables.written
  cases commands with
  | nil =>
    cases h
    rfl
  | cons command commands =>
    cases printSet_ok_iff.mp h with
    | one hname hfind hwrite hbits =>
      simp only [hname, hbits, hfind, Option.map_some, Option.getD_some]
    | other hne => exact absurd rfl (hne command)

/-- A state block from which these writes are left to make, up to a state of the program. -/
def Place (g : Graph) (n : Nat) (name : String) (left : List CommandDoc) (target : Nat) : Prop :=
  ∃ (u : Nat) (w : Vertex), g.vertices[u]? = some w ∧ w.contents = .state ∧
    name = stateName w.machineId w.vertexId ∧ Chain g n u left target

/-- A printed clause makes the first of these writes, and leads to where the others are left. -/
structure Does (tables : Tables) (g : Graph) (n : Nat) (commands : List CommandDoc) (target : Nat)
    (clause : Asm.IfClauseDoc) : Prop where
  writes : (clause.eid, clause.value) = tables.written commands
  bad : clause.badstate = clause.goodstate
  place : Place g n clause.goodstate commands.tail target

theorem Chain.isState {g : Graph} {n u t : Nat} {commands : List CommandDoc}
    (h : Chain g n u commands t) (ht : g.contents t = some .state) : g.contents u = some .state := by
  cases h with
  | done => exact ht
  | next hu hc hm state => exact state

/-- **A printed clause**, from the clause of the graph. -/
theorem does_of_clause {g : Graph} {n c t target : Nat} {w : Vertex} {condition : ConditionDoc}
    {commands : List CommandDoc} {clause : Asm.IfClauseDoc} (hw : g.vertices[c]? = some w)
    (hcond : w.contents = .cond condition) (hclause : g.clause c = some (commands.take 1, t))
    (hchain : Chain g n t commands.tail target) (htarget : g.contents target = some .state)
    (h : printClause tables machines g c = .ok clause) :
    clause.name = clauseName w condition ∧ Does tables g n commands target clause := by
  obtain ⟨m, rest, block, rest', hm, hblock, hcommands, ht⟩ := clause_some hclause
  obtain ⟨wm, hwm, hwmc⟩ := exists_vertex hblock
  obtain ⟨wt, hwt, hwtc⟩ := exists_vertex (hchain.isState htarget)
  rw [printClause_eq_clauseFrom hw hcond hm, clauseFrom_eq _ hwm hwmc ht hwt hwtc, hcommands] at h
  cases hset : printSet tables machines wm.machineId (commands.take 1) with
  | error e =>
    rw [hset] at h
    cases h
  | ok set =>
    rw [hset] at h
    cases h
    exact ⟨rfl, printSet_written hset, rfl, t, wt, hwt, hwtc, rfl, hchain⟩

end Hexabus.Hbc

/-!
## What a compiled program does

The assembler program that is printed for a device does what the machine of the source does: in
every step the same endpoints are written, and the two stay side by side.
-/

namespace Hexabus.Hbc

open Lib.Bytes Lib.Folds Firmware

/-! ## Addresses -/

theorem hexBytes_flatMap (bytes : List UInt8) : Asm.hexBytes (bytes.flatMap hexDigits) = bytes := by
  induction bytes with
  | nil => rfl
  | cons b bytes ih =>
    have hbyte : UInt8.ofNat (16 * (b.toNat / 16) + b.toNat % 16) = b := by
      rw [Nat.div_add_mod]
      exact UInt8.ofNat_toNat
    show UInt8.ofNat (16 * (b.toNat / 16) + b.toNat % 16) :: Asm.hexBytes (bytes.flatMap hexDigits) = _
    rw [hbyte, ih]

/-- An address is read back as it is printed. -/
@[simp] theorem ipBytes_printIpv6Address (address : Block 16) :
    Asm.ipBytes (printIpv6Address address) = address :=
  Subtype.ext (hexBytes_flatMap address.val)

/-! ## Conditions -/

section

variable {δ : Type} {env : Asm.Environment} {tables : Tables} {machines : List MachineDescriptor}
  {device : Identifier} {c : Controller δ} {m : Asm.Machine δ}

/-- The same device, at the same time. -/
structure SameDevice (c : Controller δ) (m : Asm.Machine δ) : Prop where
  dev : m.dev = c.dev
  eeprom : m.eeprom = c.eeprom
  timestamp : m.timestamp = c.timestamp
  currentDt : m.currentDt = c.currentDt
  timeValid : m.timeValid = c.timeValid
  running : m.running = c.running
  since : m.since = c.since

theorem stmOp_code (op : CompOperator) (eq lt gt : Bool) :
    stmOp op.code eq lt gt = op.decides eq lt gt := by
  cases op <;> rfl

theorem compareValue_code (op : CompOperator) (datatype : DataType) (v : HxbValue)
    (constant : UInt32) :
    Asm.compareValue datatype op.code v constant = op.compares datatype v constant := by
  cases datatype with
  | bool => exact stmOp_code op _ _ _
  | uint8 => exact stmOp_code op _ _ _
  | uint32 => exact stmOp_code op _ _ _
  | float => exact stmOp_code op _ _ _
  | _ => rfl

theorem datetimeField_code (field : TimeFields) (dt : HxbDatetime) :
    datetimeField field.code dt = some (field.read dt) := by
  cases field <;> rfl

/-- **A printed condition** holds when the condition of the program does. -/
theorem holds_printed (hsame : SameDevice c m) {w : Vertex} {condition : ConditionDoc}
    {blocks : List Asm.HbaDocBlock} {doc : Asm.ConditionDoc} (hcond : w.contents = .cond condition)
    (h : printConditions tables machines device w = .ok blocks) (hmem : .condition doc ∈ blocks)
    (occasion : Asm.Occasion) :
    doc.cond.holds env m occasion = c.holds env tables device occasion condition := by
  obtain ⟨condition', cond, hcontents, hprinted, heq⟩ := mem_printConditions h hmem
  cases hcond.symm.trans hcontents
  cases heq
  cases hprinted with
  | atomic halias hendpoint haddress hfind =>
    cases occasion with
    | tick => rfl
    | up => rfl
    | input envelope =>
      unfold Asm.HbaCond.holds Controller.holds GlobalEndpointIdDoc.receives Tables.typedEndpoint
      have haddress' : tables.addressOf device _ = some _ := haddress
      simp only [halias, hendpoint, haddress', hfind, Option.bind_eq_bind, Option.bind_some,
        ipBytes_printIpv6Address, compareValue_code]
      cases env.datatypes _ with
      | none => rfl
      | some datatype => rfl
  | timeout =>
    cases occasion with
    | tick => rfl
    | up => rfl
    | input envelope =>
      unfold Asm.HbaCond.holds Controller.holds
      simp only [hsame.timestamp, hsame.since]
  | @timer field op value =>
    cases occasion with
    | input envelope => rfl
    | up => rfl
    | tick =>
      unfold Asm.HbaCond.holds Controller.holds
      simp only [hsame.timeValid, hsame.currentDt, datetimeField_code]
      cases op <;> rfl

end

/-! ## The printed program -/

/-- The program that is printed for a device from the graph of a machine, as the assembler takes
it; no endpoint zero is written that has no data type. -/
structure CompiledDoc (env : Asm.Environment) (tables : Tables) (machines : List MachineDescriptor)
    (device : Identifier) (machineId : Nat) (sm : StatemachineDoc) (g : Graph) (n : Nat)
    (ast : Asm.HbaDoc) : Prop where
  printed : ∃ text, hbaOutput tables machines device g = .ok text ∧ ast.blocks = text.blocks
  distinct : g.DistinctIds
  tried : ∀ k, k < sm.stateset.length →
    List.Forall₂ (FiresBlock g n sm device) (g.adjacent k) (sm.tried k)
  state : ∀ k, k < sm.stateset.length → ∃ w, g.vertices[k]? = some w ∧ w.contents = .state ∧
    w.machineId = machineId ∧ w.vertexId = k
  sets : ∀ m block, g.contents m = some (.command block) →
    block.commands.length ≤ 1 ∧ sm.Sets tables device (tables.written block.commands).1
  resolves : Asm.Resolves env ast.blocks
  typed : env.datatypes 0 ≠ some .undefined
  pos : 0 < sm.stateset.length
  id : ast.machineId = tables.machineId sm.name

namespace CompiledDoc

variable {env : Asm.Environment} {tables : Tables} {machines : List MachineDescriptor}
  {device : Identifier} {machineId : Nat} {sm : StatemachineDoc} {g : Graph} {n : Nat}
  {ast : Asm.HbaDoc}

/-- Every state of the graph has its block. -/
theorem stateDoc (h : CompiledDoc env tables machines device machineId sm g n ast) {u : Nat}
    {w : Vertex} (hw : g.vertices[u]? = some w) (hstate : w.contents = .state) :
    ∃ clauses, (g.adjacent u).mapM (printClause tables machines g) = .ok clauses ∧
      ⟨0, stateName w.machineId w.vertexId, clauses, 0⟩ ∈ Asm.stateDocs ast.blocks := by
  obtain ⟨text, hprint, hblocks⟩ := h.printed
  obtain ⟨clauses, hclauses, hmem⟩ := hbaOutput_state hprint hw hstate
  exact ⟨clauses, hclauses, hblocks ▸ Asm.mem_stateDocs.mpr hmem⟩

/-- Where a clause of the program comes from. -/
theorem clause (h : CompiledDoc env tables machines device machineId sm g n ast)
    {doc : Asm.StateDoc} (hdoc : doc ∈ Asm.stateDocs ast.blocks) {clause : Asm.IfClauseDoc}
    (hclause : clause ∈ doc.ifClauses) :
    ∃ (c m t : Nat) (w wm wt : Vertex) (condition : ConditionDoc) (block : CommandBlockDoc)
      (set : UInt32 × UInt32), g.vertices[c]? = some w ∧ w.contents = .cond condition ∧
      g.vertices[m]? = some wm ∧ wm.contents = .command block ∧
      g.vertices[t]? = some wt ∧ wt.contents = .state ∧
      printSet tables machines wm.machineId block.commands = .ok set ∧
      clause = ⟨0, clauseName w condition, set.1, set.2, stateName wt.machineId wt.vertexId,
        stateName wt.machineId wt.vertexId⟩ := by
  obtain ⟨text, hprint, hblocks⟩ := h.printed
  rw [hblocks] at hdoc
  rcases (mem_blocks_iff hprint).mp (Asm.mem_stateDocs.mp hdoc) with ⟨w, hw, blocks, hprinted, hmem⟩ |
    ⟨v, hv, blocks, hprinted, hmem⟩
  · -- a condition's block is no state
    have hnone := (printConditions_spec hprinted).2
    exact absurd (Asm.mem_stateDocs.mpr hmem) (hnone ▸ List.not_mem_nil)
  · obtain ⟨w, clauses, hw, hstate, hclauses, heq⟩ := printState_ok hprinted hmem
    cases heq
    obtain ⟨c, hc, hfrom⟩ := exists_of_mapM_ok hclauses hclause
    obtain ⟨wc, condition, m, hwc, hcond, -, hfrom⟩ := printClause_ok hfrom
    obtain ⟨wm, wt, block, t, set, hwm, hblock, hwt, htarget, hset, rfl⟩ := clauseFrom_ok hfrom
    exact ⟨c, m, t, wc, wm, wt, condition, block, set, hwc, hcond, hwm, hblock, hwt, htarget, hset,
      rfl⟩

/-- A clause sets what the machine sets. -/
theorem clause_sets (h : CompiledDoc env tables machines device machineId sm g n ast)
    {doc : Asm.StateDoc} (hdoc : doc ∈ Asm.stateDocs ast.blocks) {clause : Asm.IfClauseDoc}
    (hclause : clause ∈ doc.ifClauses) : sm.Sets tables device clause.eid := by
  obtain ⟨c, m, t, w, wm, wt, condition, block, set, -, -, hwm, hblock, -, -, hset, rfl⟩ :=
    h.clause hdoc hclause
  have hcontents := (Graph.contents_of_vertex hwm).trans (congrArg some hblock)
  obtain ⟨hlength, hsets⟩ := h.sets m block hcontents
  rw [← List.take_of_length_le hlength] at hset
  rw [← printSet_written hset] at hsets
  exact hsets

/-- Where a condition of the program comes from. -/
theorem conditionDoc (h : CompiledDoc env tables machines device machineId sm g n ast)
    {doc : Asm.ConditionDoc} (hdoc : doc ∈ Asm.conditionDocs ast.blocks) :
    ∃ w ∈ g.vertices, doc.name ∈ w.condNames ∧
      ∃ blocks, printConditions tables machines device w = .ok blocks ∧ .condition doc ∈ blocks := by
  obtain ⟨text, hprint, hblocks⟩ := h.printed
  rw [hblocks] at hdoc
  rcases (mem_blocks_iff hprint).mp (Asm.mem_conditionDocs.mp hdoc) with
    ⟨w, hw, blocks, hprinted, hmem⟩ | ⟨v, hv, blocks, hprinted, hmem⟩
  · have hnames := (printConditions_spec hprinted).1
    refine ⟨w, hw, ?_, blocks, hprinted, hmem⟩
    rw [← hnames]
    exact List.mem_map_of_mem (Asm.mem_conditionDocs.mpr hmem)
  · obtain ⟨w, clauses, -, -, -, heq⟩ := printState_ok hprinted hmem
    cases heq

/-- **The program is tidy.** -/
theorem tidy (h : CompiledDoc env tables machines device machineId sm g n ast) :
    Asm.Tidy ast.blocks where
  ordered := by
    obtain ⟨text, hprint, hblocks⟩ := h.printed
    rw [hblocks]
    unfold hbaOutput at hprint
    split at hprint
    · cases hprint
    · obtain ⟨conditions, hconditions, hprint⟩ := bind_ok_iff.mp hprint
      obtain ⟨states, hstates, hret⟩ := bind_ok_iff.mp hprint
      cases hret
      have hfront : ∀ b ∈ conditions.flatten, b.isState = false := by
        intro b hb
        have hnone := (conditions_flatten_spec hconditions).2
        cases b with
        | condition doc => rfl
        | state doc => exact absurd (Asm.mem_stateDocs.mpr hb) (hnone ▸ List.not_mem_nil)
      have hback : ∀ b ∈ states.flatten, b.isState = true := by
        intro b hb
        have hnone := conditionDocs_states hstates
        cases b with
        | state doc => rfl
        | condition doc => exact absurd (Asm.mem_conditionDocs.mpr hb) (hnone ▸ List.not_mem_nil)
      refine List.pairwise_append.mpr ⟨?_, ?_, fun b hb c hc _ => hback c hc⟩
      · exact List.pairwise_of_forall_mem_list fun b hb c hc hstate =>
          absurd hstate (by rw [hfront b hb]; exact Bool.false_ne_true)
      · exact List.pairwise_of_forall_mem_list fun b hb c hc _ => hback c hc
  names := by
    obtain ⟨text, hprint, hblocks⟩ := h.printed
    rw [hblocks]
    exact (Asm.names_perm text.blocks).nodup_iff.mpr (h.distinct.nodup_blockNames hprint)
  condition := by
    intro doc hdoc clause hclause hname
    obtain ⟨c, m, t, w, wm, wt, condition, block, set, -, -, -, -, -, -, -, heq⟩ :=
      h.clause hdoc hclause
    have hclauseName : clause.name = clauseName w condition := congrArg Asm.IfClauseDoc.name heq
    have hcond : clause.name = condName w.machineId w.vertexId := by
      rw [hclauseName] at hname ⊢
      cases condition with
      | tautology value => exact absurd rfl hname
      | _ => rfl
    obtain ⟨block, hblock, hbears⟩ := (h.resolves _ (Asm.mem_stateDocs.mp hdoc) clause hclause).cond hname
    cases block with
    | condition doc' => exact ⟨doc', Asm.mem_conditionDocs.mpr hblock, hbears⟩
    | state doc' =>
      -- a state's name is no condition's
      obtain ⟨text, hprint, hblocks⟩ := h.printed
      rw [hblocks] at hblock
      rcases (mem_blocks_iff hprint).mp hblock with ⟨w', -, blocks, hprinted, hmem⟩ |
        ⟨v, -, blocks, hprinted, hmem⟩
      · have hnone := (printConditions_spec hprinted).2
        exact absurd (Asm.mem_stateDocs.mpr hmem) (hnone ▸ List.not_mem_nil)
      · obtain ⟨w', clauses, -, -, -, heq⟩ := printState_ok hprinted hmem
        cases heq
        exact absurd (hcond.symm.trans hbears.symm) (condName_ne_stateName _ _ _ _)
  good := by
    intro doc hdoc clause hclause
    obtain ⟨c, m, t, w, wm, wt, condition, block, set, -, -, -, -, hwt, hstate, -, rfl⟩ :=
      h.clause hdoc hclause
    obtain ⟨clauses, -, hmem⟩ := h.stateDoc hwt hstate
    exact ⟨_, hmem, rfl⟩
  bad := by
    intro doc hdoc clause hclause
    obtain ⟨c, m, t, w, wm, wt, condition, block, set, -, -, -, -, hwt, hstate, -, rfl⟩ :=
      h.clause hdoc hclause
    obtain ⟨clauses, -, hmem⟩ := h.stateDoc hwt hstate
    exact ⟨_, hmem, rfl⟩

/-- Every clause sets something. -/
theorem setsNothing (h : CompiledDoc env tables machines device machineId sm g n ast) :
    ∀ doc ∈ Asm.stateDocs ast.blocks, ∀ clause ∈ doc.ifClauses, env.setsNothing clause = false := by
  intro doc hdoc clause hclause
  have hknown := (h.resolves _ (Asm.mem_stateDocs.mp hdoc) clause hclause).datatype
  obtain ⟨datatype, hdatatype⟩ := Option.isSome_iff_exists.mp hknown
  unfold Asm.Environment.setsNothing Asm.Environment.setType
  rw [hdatatype, Option.getD_some, Bool.and_eq_false_iff]
  by_cases heid : clause.eid = 0
  · refine .inr (decide_eq_false fun hundefined => h.typed ?_)
    rw [← heid, hdatatype, hundefined]
  · exact .inl (decide_eq_false heid)

theorem firstState_eq (h : CompiledDoc env tables machines device machineId sm g n ast) :
    Asm.firstState ast.blocks = stateName machineId 0 := by
  obtain ⟨text, hprint, hblocks⟩ := h.printed
  have hfirst := findIdx?_stateDocs hprint h.state h.pos
  obtain ⟨hlt, hname, -⟩ := List.findIdx?_eq_some_iff_getElem.mp hfirst
  rw [hblocks, Asm.firstState]
  cases hdocs : Asm.stateDocs text.blocks with
  | nil =>
    rw [hdocs] at hlt
    exact absurd hlt (Nat.not_lt_zero 0)
  | cons doc docs =>
    simp only [hdocs, List.getElem_cons_zero, decide_eq_true_eq] at hname
    exact hname

/-! ## Side by side -/

variable {δ : Type} {chain : EndpointChain (Dev δ)} {loc : Locals} {c : Controller δ}
  {m : Asm.Machine δ} {occasion : Asm.Occasion}

/-- A clause holds when the condition of its vertex does. -/
theorem holds (h : CompiledDoc env tables machines device machineId sm g n ast)
    (hsame : SameDevice c m) {doc : Asm.StateDoc} (hdoc : doc ∈ Asm.stateDocs ast.blocks)
    {clause : Asm.IfClauseDoc} (hclause : clause ∈ doc.ifClauses) {v : Nat} {w : Vertex}
    {condition : ConditionDoc} (hw : g.vertices[v]? = some w) (hcond : w.contents = .cond condition)
    (hname : clause.name = clauseName w condition) :
    m.holds env ast occasion clause = c.holds env tables device occasion condition := by
  by_cases htrue : clause.name = "true"
  · have htautology : ∃ value, condition = .tautology value := by
      rw [hname] at htrue
      cases condition with
      | tautology value => exact ⟨value, rfl⟩
      | _ => exact absurd htrue (condName_ne_true _ _)
    obtain ⟨value, rfl⟩ := htautology
    unfold Asm.Machine.holds
    rw [if_pos htrue]
    cases occasion <;> rfl
  · have hcondName : clause.name = condName w.machineId w.vertexId := by
      rw [hname] at htrue ⊢
      cases condition with
      | tautology value => exact absurd rfl htrue
      | _ => rfl
    obtain ⟨doc', hdoc', heq⟩ := h.tidy.condition doc hdoc clause hclause htrue
    obtain ⟨w', hw', hmem, blocks, hprinted, hblock⟩ := h.conditionDoc hdoc'
    obtain ⟨⟨condition', hcond'⟩, hname'⟩ := mem_condNames hmem
    obtain ⟨hm, hid⟩ := condName_inj (hcondName.symm.trans (heq.symm.trans hname'))
    -- the block is that of the same vertex
    obtain ⟨v', hv'⟩ := List.mem_iff_getElem?.mp hw'
    have hids : w.ids = w'.ids := by
      unfold Vertex.ids
      rw [hm, hid, hcond, hcond']
      rfl
    obtain rfl := h.distinct.eq hw hv' hids
    cases hw.symm.trans hv'
    have hfind := h.tidy.find?_condition hdoc'
    rw [heq] at hfind
    unfold Asm.Machine.holds
    rw [if_neg htrue, hfind]
    exact holds_printed hsame hcond hprinted hblock occasion

end CompiledDoc

/-- The machine of the source and the program of the device: the program is in a state from which
the same writes are left to make. -/
structure Alongside {δ : Type} (g : Graph) (n : Nat) (sm : StatemachineDoc) (c : Controller δ)
    (m : Asm.Machine δ) : Prop extends SameDevice c m where
  place : c.running = true → Place g n m.state c.left c.state
  inside : c.running = true → c.state < sm.stateset.length

section

variable {δ : Type} {env : Asm.Environment} {tables : Tables} {machines : List MachineDescriptor}
  {device : Identifier} {machineId : Nat} {sm : StatemachineDoc} {g : Graph} {n : Nat}
  {ast : Asm.HbaDoc} {chain : EndpointChain (Dev δ)} {loc : Locals} {c : Controller δ}
  {m : Asm.Machine δ} {occasion : Asm.Occasion}

/-- Both write. -/
theorem Alongside.write (h : SameDevice c m) {commands : List CommandDoc} {target : Nat}
    {clause : Asm.IfClauseDoc} (hdoes : Does tables g n commands target clause)
    (htarget : target < sm.stateset.length) :
    Alongside g n sm (c.write env tables chain loc commands target) (m.set env chain loc clause) := by
  have hstate : ∀ err : ErrorCode,
      (if err = .success then clause.goodstate else clause.badstate) = clause.goodstate := by
    intro err
    rw [hdoes.bad, ite_self]
  unfold Controller.write Asm.Machine.set
  rw [← hdoes.writes]
  simp only [h.dev, h.eeprom, hstate]
  exact ⟨⟨rfl, rfl, h.timestamp, h.currentDt, h.timeValid, h.running, h.timestamp⟩,
    fun _ => hdoes.place, fun _ => htarget⟩

/-- **Both react**: the block that the machine takes is the clause that the program takes. -/
theorem CompiledDoc.react (h : CompiledDoc env tables machines device machineId sm g n ast)
    (ha : Alongside g n sm c m) (hrunning : c.running = true) :
    Alongside g n sm (c.react env tables device chain loc sm occasion)
      (m.tryAll env ast chain loc occasion (Asm.clausesOf ast.blocks)) := by
  obtain ⟨u, w, hw, hstate, hname, hchain⟩ := ha.place hrunning
  have hinside := ha.inside hrunning
  obtain ⟨clauses, hclauses, hdoc⟩ := h.stateDoc hw hstate
  have hprinted := forall₂_of_mapM_ok hclauses
  have htarget : ∀ t, t < sm.stateset.length → g.contents t = some .state := by
    intro t ht
    obtain ⟨wt, hwt, hwtc, -⟩ := h.state t ht
    rw [Graph.contents_of_vertex hwt, hwtc]
  rw [h.tidy.tryAll_eq hdoc hname h.setsNothing]
  unfold Controller.react
  cases hleft : c.left with
  | nil =>
    rw [hleft] at hchain
    obtain rfl := hchain.eq_of_nil
    -- the clauses of the state and the blocks that are tried
    have hrel := rel_find? (p := m.holds env ast occasion)
      (q := fun entry => c.holds env tables device occasion entry.2)
      (forall₂_join hprinted (h.tried c.state hinside)) ?_
    · simp only [firstClause]
      generalize hp : clauses.find? (m.holds env ast occasion) = found at hrel ⊢
      generalize hq : (sm.tried c.state).find? (fun entry => c.holds env tables device occasion entry.2)
        = block at hrel ⊢
      cases hrel with
      | none => exact ha
      | some hfires =>
        obtain ⟨hmem, v, hprint, hcond, b, u, hb, hfires, hchain', hb'⟩ := hfires
        obtain ⟨wv, hwv, hwvc⟩ := exists_vertex hcond
        simp only [Option.map_some, hb]
        exact Alongside.write ha.toSameDevice
          (does_of_clause hwv hwvc hfires hchain' (htarget _ hb') hprint).2 hb'
    · rintro clause entry ⟨hmem, v, hprint, hcond, -⟩
      obtain ⟨wv, hwv, hwvc⟩ := exists_vertex hcond
      obtain ⟨w', condition, m', hw', hcond', -, hfrom⟩ := printClause_ok hprint
      obtain ⟨wm, wt, block, target, set, -, -, -, -, -, rfl⟩ := clauseFrom_ok hfrom
      cases hwv.symm.trans hw'
      cases hwvc.symm.trans hcond'
      exact h.holds ha.toSameDevice hdoc hmem hwv hwvc rfl
  | cons command rest =>
    rw [hleft] at hchain
    cases hchain with
    | @next _ v k u' _ goto _ _ hu hv hk _ hclause htrue hbehind hblock hleads hmore =>
      obtain ⟨wv, hwv, hwvc⟩ := exists_vertex htrue
      have hfirst : g.clause v = some ((command :: rest).take 1, u') :=
        clause_of hbehind hblock hleads
      rw [hclause] at hprinted
      cases hprinted with
      | @cons _ clause _ _ hprint hnil =>
        cases hnil
        obtain ⟨hclauseName, hdoes⟩ :=
          does_of_clause hwv hwvc hfirst hmore (htarget _ hinside) hprint
        have hholds : m.holds env ast occasion clause =
            c.holds env tables device occasion (.tautology 1) :=
          h.holds ha.toSameDevice hdoc List.mem_cons_self hwv hwvc hclauseName
        cases occasion with
        | tick =>
          rw [List.find?_cons_of_neg (by rw [hholds]; exact Bool.false_ne_true), List.find?_nil]
          exact ha
        | input envelope =>
          rw [List.find?_cons_of_pos hholds]
          exact Alongside.write ha.toSameDevice hdoes hinside
        | up =>
          rw [List.find?_cons_of_pos hholds]
          exact Alongside.write ha.toSameDevice hdoes hinside

/-- Both hear of something. -/
theorem CompiledDoc.on (h : CompiledDoc env tables machines device machineId sm g n ast)
    (ha : Alongside g n sm c m) :
    Alongside g n sm (c.on env tables device chain loc sm occasion)
      (m.on env ast chain loc occasion) := by
  unfold Controller.on Asm.Machine.on
  rw [ha.running]
  cases hrunning : c.running with
  | true => exact h.react ha hrunning
  | false => exact ha

/-- Both are in the first state. -/
theorem CompiledDoc.firstPlace (h : CompiledDoc env tables machines device machineId sm g n ast) :
    Place g n (Asm.firstState ast.blocks) [] 0 := by
  obtain ⟨w, hw, hstate, hmachine, hid⟩ := h.state 0 h.pos
  refine ⟨0, w, hw, hstate, ?_, .done⟩
  rw [h.firstState_eq, hmachine, hid]

theorem Alongside.stop (h : Alongside g n sm c m) : Alongside g n sm c.stop m.stop :=
  ⟨⟨h.dev, h.eeprom, h.timestamp, h.currentDt, h.timeValid, rfl, h.since⟩,
    fun hrunning => absurd hrunning Bool.false_ne_true,
    fun hrunning => absurd hrunning Bool.false_ne_true⟩

theorem CompiledDoc.start (h : CompiledDoc env tables machines device machineId sm g n ast)
    (ha : Alongside g n sm c m) : Alongside g n sm c.start (m.start ast) := by
  unfold Controller.start Asm.Machine.start
  rw [ha.running]
  split
  · exact ha
  · exact ⟨⟨ha.dev, ha.eeprom, ha.timestamp, ha.currentDt, ha.timeValid, rfl, ha.since⟩,
      fun _ => h.firstPlace, fun _ => h.pos⟩

/-- **The step lemma.** -/
theorem CompiledDoc.step (h : CompiledDoc env tables machines device machineId sm g n ast)
    (ha : Alongside g n sm c m) (a : Step δ) :
    Alongside g n sm (c.step env tables device chain loc sm a) (m.step env ast chain loc a) := by
  cases a with
  | info envelope => exact h.on ha
  | broadcast eid =>
    unfold Controller.step Asm.Machine.step
    simp only [ha.dev, ha.eeprom]
    split
    · exact ha
    · exact h.on ha
  | smStop => exact ha.stop
  | smStart => exact h.start ha
  | smRestart => exact h.start ha.stop
  | device dev eeprom =>
    exact ⟨⟨rfl, rfl, ha.timestamp, ha.currentDt, ha.timeValid, ha.running, ha.since⟩, ha.place,
      ha.inside⟩
  | clock timestamp currentDt timeValid =>
    exact ⟨⟨ha.dev, ha.eeprom, rfl, rfl, rfl, ha.running, ha.since⟩, ha.place, ha.inside⟩
  | tick => exact h.on ha
  | udp up =>
    unfold Controller.step Asm.Machine.step
    simp only [ha.running, h.id]
    split
    · exact h.on ⟨⟨ha.dev, ha.eeprom, ha.timestamp, ha.currentDt, ha.timeValid, rfl, ha.since⟩,
        fun _ => h.firstPlace, fun _ => h.pos⟩
    · exact ha

/-- **The run lemma.** -/
theorem CompiledDoc.run (h : CompiledDoc env tables machines device machineId sm g n ast)
    (ha : Alongside g n sm c m) (steps : List (Step δ)) :
    Alongside g n sm (Lib.Runs.run (Controller.step env tables device chain loc sm) c steps)
      (Lib.Runs.run (Asm.Machine.step env ast chain loc) m steps) := by
  induction steps generalizing c m with
  | nil => exact ha
  | cons a steps ih => exact ih (h.step ha a)

end

end Hexabus.Hbc
