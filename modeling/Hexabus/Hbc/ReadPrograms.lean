import Hexabus.Hbc.Written

/-!
# What the grammar reads

Every rule reads the texts that are written for it, with the names spelled in any way, but for
the arguments of instances: there a constant is tried before a name.
-/

namespace Hexabus.Hbc

open Lib.Expectation

/-! ## Other names -/

section
variable (r : Identifier → Identifier)

/-- A name that is kept as a text. -/
def renameText (s : Text) : Text := if h : isIdentifier s = true then (r ⟨s, h⟩).val else s

def GeidElement.rename : GeidElement → GeidElement
  | .literal name => .literal (r name)
  | .placeholder name => .placeholder name

def GlobalEndpointIdDoc.rename (geid : GlobalEndpointIdDoc) : GlobalEndpointIdDoc :=
  ⟨geid.deviceAlias.rename r, geid.lineno, geid.endpointName.rename r⟩

def ConditionDoc.rename : ConditionDoc → ConditionDoc
  | .tautology value => .tautology value
  | .atomic geid compOp constant => .atomic (geid.rename r) compOp constant
  | .timeout seconds => .timeout seconds
  | .timer fields op value => .timer fields op value
  | .compound conditionA boolOp conditionB =>
    .compound (conditionA.rename) boolOp (conditionB.rename)

def CommandDoc.rename (command : CommandDoc) : CommandDoc :=
  ⟨command.lineno, command.geid.rename r, command.constant⟩

def GotoCommandDoc.rename (goto : GotoCommandDoc) : GotoCommandDoc :=
  ⟨goto.lineno, r goto.targetState⟩

def CommandBlockDoc.rename (block : CommandBlockDoc) : CommandBlockDoc :=
  ⟨block.commands.map (CommandDoc.rename r), block.gotoCommand.rename r⟩

def GuardedCommandBlockDoc.rename (block : GuardedCommandBlockDoc) : GuardedCommandBlockDoc :=
  ⟨block.condition.rename r, block.commandBlock.rename r⟩

def IfClauseDoc.rename (clause : IfClauseDoc) : IfClauseDoc :=
  ⟨clause.ifBlock.rename r, clause.elseIfBlocks.map (GuardedCommandBlockDoc.rename r)⟩

def InClauseDoc.rename (clause : InClauseDoc) : InClauseDoc :=
  ⟨clause.lineno, r clause.name, clause.ifClauses.map (IfClauseDoc.rename r)⟩

def StatemachineDoc.rename (doc : StatemachineDoc) : StatemachineDoc :=
  { doc with
    name := renameText r doc.name
    stateset := doc.stateset.map r
    inClauses := doc.inClauses.map (InClauseDoc.rename r) }

def ModuleDoc.rename (doc : ModuleDoc) : ModuleDoc :=
  { doc with
    name := r doc.name
    stateset := doc.stateset.map r
    inClauses := doc.inClauses.map (InClauseDoc.rename r) }

def InstParameterDoc.rename : InstParameterDoc → InstParameterDoc
  | .constant value => .constant value
  | .identifier name => .identifier (r name)

def InstantiationDoc.rename (doc : InstantiationDoc) : InstantiationDoc :=
  { doc with
    name := r doc.name
    moduleclass := r doc.moduleclass
    parameters := doc.parameters.map (InstParameterDoc.rename r) }

def EndpointDoc.rename (doc : EndpointDoc) : EndpointDoc := { doc with name := r doc.name }

def AliasDoc.rename (doc : AliasDoc) : AliasDoc := { doc with deviceName := r doc.deviceName }

def ParsedBlock.rename : ParsedBlock → ParsedBlock
  | .includeDoc doc => .includeDoc doc
  | .endpointDoc doc => .endpointDoc (doc.rename r)
  | .aliasDoc doc => .aliasDoc (doc.rename r)
  | .statemachineDoc doc => .statemachineDoc (doc.rename r)
  | .moduleDoc doc => .moduleDoc (doc.rename r)
  | .instantiationDoc doc => .instantiationDoc (doc.rename r)

end

/-! Under its own names, everything is as it is. -/

@[simp] theorem renameText_id (s : Text) : renameText id s = s := by
  rw [renameText]
  split <;> rfl

@[simp] theorem GeidElement.rename_id : GeidElement.rename id = id := by
  funext element
  cases element with
  | _ => rfl

@[simp] theorem GlobalEndpointIdDoc.rename_id : GlobalEndpointIdDoc.rename id = id := by
  funext geid
  simp [GlobalEndpointIdDoc.rename]

@[simp] theorem ConditionDoc.rename_id : ConditionDoc.rename id = id := by
  funext condition
  induction condition with
  | compound conditionA op conditionB ihA ihB =>
    rw [ConditionDoc.rename, ihA, ihB]
    rfl
  | atomic geid op constant => simp [ConditionDoc.rename]
  | _ => rfl

@[simp] theorem CommandDoc.rename_id : CommandDoc.rename id = id := by
  funext command
  simp [CommandDoc.rename]

@[simp] theorem CommandBlockDoc.rename_id : CommandBlockDoc.rename id = id := by
  funext block
  simp [CommandBlockDoc.rename, GotoCommandDoc.rename]

@[simp] theorem IfClauseDoc.rename_id : IfClauseDoc.rename id = id := by
  have hblock : GuardedCommandBlockDoc.rename id = id := by
    funext block
    simp [GuardedCommandBlockDoc.rename]
  funext clause
  simp [IfClauseDoc.rename, hblock]

@[simp] theorem InClauseDoc.rename_id : InClauseDoc.rename id = id := by
  funext clause
  simp [InClauseDoc.rename]

/-- Only the arguments of instances may be read in another way. -/
theorem ParsedBlock.rename_id {block : ParsedBlock} (h : ∀ doc, block ≠ .instantiationDoc doc) :
    block.rename id = block := by
  cases block with
  | instantiationDoc doc => exact absurd rfl (h doc)
  | statemachineDoc doc => simp [ParsedBlock.rename, StatemachineDoc.rename]
  | moduleDoc doc => simp [ParsedBlock.rename, ModuleDoc.rename]
  | _ => rfl

theorem renameText_val (r : Identifier → Identifier) (x : Identifier) :
    renameText r x.val = (r x).val := by
  rw [renameText, dif_pos x.property]

/-! ## What is ahead -/

/-- The character ahead is not one of a name. -/
def Apart (s : Text) : Prop := (s.head?.all fun c => !identifierRest c) = true

theorem Apart.of_ends {s : Text} (h : Written.Ends s) : Apart s := by
  cases s with
  | nil => rfl
  | cons c s =>
    have h : (!(identifierRest c || c = '.' || c = '(')) = true := h
    show (!identifierRest c) = true
    simp only [Bool.not_eq_true', Bool.or_eq_false_iff] at h ⊢
    exact h.1.1

theorem ends_of_gapChars {c : Char} {s : Text} (h : c ∈ gapChars) : Written.Ends (c :: s) :=
  have hall : gapChars.all (fun c => !(identifierRest c || c = '.' || c = '(')) = true := by decide
  List.all_eq_true.mp hall c h

/-- What is skipped ends a number, and so does the word behind it. -/
theorem ends_of_led {c : Char} {w s : Text}
    (hc : (!(identifierRest c || c = '.' || c = '(')) = true) (h : Led (c :: w) s) :
    Written.Ends s := by
  obtain ⟨g, t, hg, rfl⟩ := h
  rcases hg.head with rfl | ⟨d, u, rfl, hd⟩
  · exact hc
  · exact ends_of_gapChars (mem_gapChars.mpr hd)

theorem apart_of_led {c : Char} {w s : Text} (hc : (!identifierRest c) = true)
    (h : Led (c :: w) s) : Apart s := by
  obtain ⟨g, t, hg, rfl⟩ := h
  rcases hg.head with rfl | ⟨d, u, rfl, hd⟩
  · exact hc
  · exact Apart.of_ends (ends_of_gapChars (mem_gapChars.mpr hd))

/-! ## Tokens -/

namespace Grammar

open Parser

/-- The names, spelled in their new way. -/
def spelled (r : Identifier → Identifier) (x : Identifier) : Text := (r x).val

section
variable {r : Identifier → Identifier} {m : Nat}

/-- An identifier in front of a text. -/
theorem Identifier.parts (x : Identifier) : ∃ c cs, x.val = c :: cs ∧ identifierStart c = true ∧
    cs.all identifierRest = true := by
  obtain ⟨s, hs⟩ := x
  cases s with
  | nil => exact absurd hs (by decide)
  | cons c cs =>
    obtain ⟨hc, hcs⟩ := (Bool.and_eq_true _ _).mp hs
    exact ⟨c, cs, rfl, hc, hcs⟩

theorem identifierRest_gapChars : gapChars.all (!identifierRest ·) = true := by decide

theorem Identifier.solid (x : Identifier) : solid x.val = true := by
  obtain ⟨c, cs, hx, hc, -⟩ := Identifier.parts x
  rw [hx]
  exact solid_cons (notMem_gapChars identifierRest_gapChars (identifierRest_of_start hc)) cs

theorem Identifier.feeds (x : Identifier) : feeds x.val = 0 :=
  feeds_of_all identifierRest_gapChars (List.all_eq_true.mpr fun _ h => Identifier.mem h)

theorem dropWhile_append_of_apart {cs s : Text} (hcs : cs.all identifierRest = true)
    (hs : Apart s) : (cs ++ s).takeWhile identifierRest = cs ∧
      (cs ++ s).dropWhile identifierRest = s := by
  have h := Parser.run_append hcs hs 0
  obtain ⟨h₁, h₂⟩ := Outcome.ok.inj h
  exact ⟨h₁, congrArg Position.rest h₂⟩

theorem bareIdentifier_append (x : Identifier) {s : Text} (hs : Apart s) (n : Nat) :
    bareIdentifier ⟨n, x.val ++ s⟩ = .ok x ⟨n, s⟩ := by
  obtain ⟨c, cs, hx, hc, hcs⟩ := Identifier.parts x
  obtain ⟨htake, hdrop⟩ := dropWhile_append_of_apart hcs hs
  have hadvance : Position.advance ⟨n, x.val ++ s⟩ s = ⟨n, s⟩ := by
    rw [Position.advance_append, Identifier.feeds, Nat.add_zero]
  have hval : (⟨c :: (cs ++ s).takeWhile identifierRest, isIdentifier_read hc⟩ : Identifier) = x :=
    Subtype.ext ((congrArg (c :: ·) htake).trans hx.symm)
  rw [← hadvance]
  simp only [bareIdentifier, hx, List.cons_append]
  rw [dif_pos hc, hval, hdrop]

theorem reads_bareIdentifier :
    Reads (spelled r) m bareIdentifier Written.name Apart r := by
  rintro n ps x s rfl hs _
  rw [textOf_singleton, lines_singleton]
  exact bareIdentifier_append (r x) hs n

theorem precedes_name_solid {G : Text → Prop} :
    Precedes (spelled r) Written.name G fun s => solid s = true := by
  rintro n ps x s rfl _
  rw [textOf_singleton]
  exact solid_append (Identifier.solid (r x)) s

theorem reads_identifier : Reads (spelled r) m identifier Written.identifier Apart r :=
  reads_gap.bind (fun _ => precedes_name_solid) fun _ => reads_bareIdentifier

theorem reads_name : Reads (spelled r) m identifier Written.name Apart r :=
  reads_identifier.unskipped

theorem reads_barePlaceholder :
    Reads (spelled r) m barePlaceholder Written.barePlaceholder Apart id := by
  rintro n ps t s ⟨w, hw, rfl, rfl⟩ hs _
  have hfeeds : feeds ('$' :: w) = feeds w := List.count_cons_of_ne (by decide)
  rw [textOf_singleton, lines_singleton]
  show barePlaceholder ⟨n, '$' :: (w ++ s)⟩ = .ok ('$' :: w) ⟨n + feeds ('$' :: w), s⟩
  have hsign : bare ['$'] ⟨n, '$' :: (w ++ s)⟩ = .ok () ⟨n, w ++ s⟩ := by
    have h : Reads (spelled r) (w.length + s.length + 2) (bare ['$']) _ _ _ := reads_bare ['$']
    exact h n [.word ['$']] () (w ++ s) rfl trivial (by simp [textOf_singleton, Piece.text])
  simp only [barePlaceholder, bind_apply, hsign, andThen_ok, Parser.run_append hw hs, hfeeds,
    pure_apply]

theorem precedes_barePlaceholder_solid {G : Text → Prop} :
    Precedes (spelled r) Written.barePlaceholder G fun s => solid s = true := by
  rintro n ps t s ⟨w, hw, rfl, rfl⟩ _
  rw [textOf_singleton]
  rfl

theorem reads_placeholder : Reads (spelled r) m placeholder Written.placeholder Apart id :=
  reads_gap.bind (fun _ => precedes_barePlaceholder_solid) fun _ => reads_barePlaceholder

/-- A text that begins with a character of a set. -/
theorem precedes_solid {L : Language Identifier Text} {G : Text → Prop} {p : Char → Bool}
    (h : gapChars.all (!p ·) = true)
    (hL : ∀ n ps t, L n ps t → ∃ c cs, p c = true ∧ ps = [.word (c :: cs)]) :
    Precedes (spelled r) L G fun s => solid s = true := by
  intro n ps t s hps _
  obtain ⟨c, cs, hc, rfl⟩ := hL n ps t hps
  rw [textOf_singleton]
  exact solid_cons (notMem_gapChars h hc) _

theorem filenameRest_of_start {c : Char} (h : filenameStart c = true) : filenameRest c = true := by
  rw [filenameRest, h, Bool.true_or]

theorem reads_filename :
    Reads (spelled r) m filename Written.bareFilename
      (fun s => (s.head?.all fun c => !filenameRest c) = true) id := by
  refine Reads.unskipped (reads_gap.bind (fun _ => precedes_solid (p := filenameRest)
    (by decide) fun n ps t ⟨c, cs, hc, _, ht, hps⟩ => ⟨c, cs, filenameRest_of_start hc, ht ▸ hps⟩)
    fun _ => ?_)
  rintro n ps t s ⟨c, cs, hc, hcs, rfl, rfl⟩ hs _
  have hfeeds : feeds (c :: cs) = feeds cs :=
    feeds_cons (notMem_gapChars (p := filenameStart) (by decide) hc) cs
  rw [textOf_singleton, lines_singleton]
  show (expect (oneOf filenameStart) >>= _) ⟨n, c :: (cs ++ s)⟩ = .ok (c :: cs) ⟨n + feeds (c :: cs), s⟩
  simp only [bind_apply, expect, oneOf_cons (p := filenameStart) (by decide) hc, andThen_ok,
    run_append hcs hs, pure_apply, hfeeds]

theorem reads_addressChar :
    Reads (spelled r) m (do skipped; oneOf addressChar) Written.addressChar (fun _ => True) id := by
  refine reads_gap.bind (fun _ => ?_) fun _ => ?_
  · rintro n ps c s ⟨hc, rfl⟩ _
    rw [textOf_singleton]
    exact solid_cons (notMem_gapChars (p := addressChar) (by decide) hc) _
  · rintro n ps c s ⟨hc, rfl⟩ _ _
    have hzero : feeds [c] = 0 :=
      feeds_cons (notMem_gapChars (p := addressChar) (by decide) hc) []
    rw [textOf_singleton, lines_singleton]
    show oneOf addressChar ⟨n, c :: s⟩ = .ok c ⟨n + feeds [c], s⟩
    rw [oneOf_cons (by decide) hc, hzero]
    rfl

theorem reads_uint :
    Reads (spelled r) m uint Written.uint (fun s => (s.head?.all fun c => !c.isDigit) = true)
      id := by
  refine reads_gap.bind (fun _ => ?_) fun _ => ?_
  · rintro n ps v s ⟨w, hne, hw, -, -, rfl⟩ _
    obtain ⟨c, cs, rfl⟩ := List.exists_cons_of_ne_nil hne
    rw [textOf_singleton]
    have hc : c.isDigit = true := List.all_eq_true.mp hw c List.mem_cons_self
    exact solid_cons (notMem_gapChars (p := Char.isDigit) (by decide) hc) _
  · rintro n ps v s ⟨w, hne, hw, hlt, rfl, rfl⟩ hs _
    have hholds : (decide (w ≠ []) && decide (decimal w < 2 ^ 32)) = true := by
      rw [decide_eq_true hne, decide_eq_true hlt]
      rfl
    rw [textOf_singleton, lines_singleton]
    show (run Char.isDigit >>= _) ⟨n, w ++ s⟩ = .ok (UInt32.ofNat (decimal w)) ⟨n + feeds w, s⟩
    simp only [bind_apply, run_append hw hs, andThen_ok, holds, hholds, if_true, pure_apply]

section
variable {floatValue : Text → UInt32}

theorem bareFloat_append {w s : Text} (hw : Written.IsFloat w) (hs : Written.Ends s) (n : Nat) :
    bareFloat ⟨n, w ++ s⟩ = .ok w ⟨n + feeds w, s⟩ := by
  simp only [bareFloat, hw.2.2 s hs]
  rw [List.drop_left, Position.advance_append]

theorem reads_float :
    Reads (spelled r) m (do skipped; let w ← bareFloat; return ConstantDoc.float (floatValue w))
      (do let bits ← Written.float floatValue; return ConstantDoc.float bits) Written.Ends id := by
  rintro n ps c s ⟨_, _, bits, rfl, ⟨_, _, _, rfl, ⟨g, hg, rfl⟩, w, hw, rfl, rfl⟩, rfl, rfl⟩ hs _
  rw [List.append_nil, textOf_append, textOf_singleton, textOf_singleton, lines_append,
    lines_singleton, lines_singleton, List.append_assoc, ← Nat.add_assoc]
  refine (skipped_bind hg (solid_append hw.1 s) _ n).trans ?_
  rw [bind_apply, bareFloat_append hw hs, andThen_ok]
  rfl

end

end

end Grammar

end Hexabus.Hbc
