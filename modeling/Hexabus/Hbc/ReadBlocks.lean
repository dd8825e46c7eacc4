import Hexabus.Hbc.ReadMachines
import Hexabus.Lib.Texts

/-!
# Programs

What the grammar reads of whole programs, under any names. Where an instance is given a name, a
constant is tried first: the names that begin like one are told apart here.
-/

namespace Hexabus.Hbc

open Lib.Expectation

/-! ## Arguments -/

section
variable (r : Identifier → Identifier) (f : InstParameterDoc → InstParameterDoc)

/-- Other names, and the arguments in a way of their own. -/
def InstantiationDoc.renameBy (doc : InstantiationDoc) : InstantiationDoc :=
  { doc with
    name := r doc.name
    moduleclass := r doc.moduleclass
    parameters := doc.parameters.map f }

def ParsedBlock.renameBy : ParsedBlock → ParsedBlock
  | .instantiationDoc doc => .instantiationDoc (doc.renameBy r f)
  | block => block.rename r

end

theorem renameBy_rename (r : Identifier → Identifier) :
    ParsedBlock.renameBy r (InstParameterDoc.rename r) = ParsedBlock.rename r := by
  funext block
  cases block with
  | _ => rfl

namespace Grammar

open Parser

section
variable {r : Identifier → Identifier} {m : Nat} {floatValue : Text → UInt32}
  {F : Text → Prop}

/-! ## Machines and modules -/

theorem choice_statemachine : Choice (spelled r) m (statemachine floatValue)
    (Written.statemachine floatValue) F (StatemachineDoc.rename r) ["machine".toList] := by
  refine choice_named (by decide) (fun _ _ => precedes_apart rfl _) fun lineno name => ?_
  refine Reads.expectLit (by decide) (reads_stateset.expect.bind (F := fun _ => True)
    (fun _ => precedes_true) fun states => ?_)
  refine reads_upToBrace choice_inClause (by decide) (by decide) fun clauses => reads_pure ?_
  rw [StatemachineDoc.rename, renameText_val]

theorem reads_placeholderList : Reads (spelled r) m placeholderList Written.placeholderList
    (fun s => Written.Ends s ∧ Fails (do word ","; expect placeholder) s) id :=
  have hplaceholder : Reads (spelled r) m placeholder Written.placeholder Written.Ends id :=
    reads_placeholder.weaken fun _ h => Apart.of_ends h
  reads_list hplaceholder hplaceholder (fun _ _ => precedes_pure _ fun _ h => h)
    fun _ _ => reads_pure (by rw [List.map_id]; rfl)

/-- Nothing of a list is in front of the bracket that closes it. -/
theorem precedes_closing {α β γ : Type} {p : Parser β} {q : Parser γ} {M : Language Identifier α}
    {G : Text → Prop} (hp : ∀ s, Led ")".toList s → Fails p s) :
    Precedes (spelled r) (Written.word ")" >>= fun _ => M) G fun s =>
      (Written.Ends s ∧ Fails (do word ","; expect q) s) ∧ Fails p s :=
  (precedes_word_bind _ _).mono fun s h => ⟨⟨ends_of_led (by decide) h,
    fails_bind (fails_lit (by decide) (by decide) h)⟩, hp s h⟩

theorem choice_moduleRule : Choice (spelled r) m (moduleRule floatValue)
    (Written.moduleRule floatValue) F (ModuleDoc.rename r) ["module".toList] := by
  refine choice_named (by decide) (fun _ _ => precedes_apart rfl _) fun lineno name => ?_
  refine Reads.expectLit (by decide) ((reads_opt reads_placeholderList).bind
    (fun _ => precedes_closing ?_) fun placeholders => Reads.expectLit (by decide) ?_)
  · rintro s ⟨g, t, hg, rfl⟩
    exact fails_bind (fails_placeholder hg rfl (by simp))
  refine Reads.expectLit (by decide) (reads_stateset.expect.bind (F := fun _ => True)
    (fun _ => precedes_true) fun states => ?_)
  refine reads_upToBrace choice_inClause (by decide) (by decide) fun clauses => reads_pure ?_
  rw [Option.map_id]
  rfl

/-! ## Instances -/

/-- A constant is taken where the name stands. -/
def constantLike (x : Text) : Bool :=
  ['i'].isPrefixOf x || "true".toList.isPrefixOf x || "false".toList.isPrefixOf x ||
    beginsWith "nan".toList x || beginsWith "inf".toList x

theorem isPrefixOf_of_apart {w x s : Text} (hw : w.all identifierRest = true) (hs : Apart s)
    (h : w.isPrefixOf x = false) : w.isPrefixOf (x ++ s) = false := by
  induction w generalizing x with
  | nil => exact absurd h (by simp)
  | cons c w ih =>
    rw [List.all_cons, Bool.and_eq_true] at hw
    cases x with
    | nil =>
      cases s with
      | nil => rfl
      | cons d s =>
        have hd : (!identifierRest d) = true := hs
        have hne : c ≠ d := by
          rintro rfl
          rw [hw.1] at hd
          exact absurd hd (by decide)
        show (c == d && w.isPrefixOf s) = false
        rw [beq_false_of_ne hne, Bool.false_and]
    | cons d x =>
      rw [List.isPrefixOf] at h
      rw [List.cons_append, List.isPrefixOf]
      by_cases hcd : (c == d) = true
      · rw [hcd, Bool.true_and] at h ⊢
        exact ih hw.2 h
      · rw [Bool.eq_false_iff.mpr hcd, Bool.false_and]

theorem beginsWith_cons_eq (c d : Char) (w s : Text) :
    beginsWith (c :: w) (d :: s) = (decide (d.toLower = c) && beginsWith w s) := by
  simp [beginsWith]

theorem toLower_of_not_identifierRest {d : Char} (h : identifierRest d = false) :
    identifierRest d.toLower = false := by
  have hupper : ¬ (d.val ≥ 'A'.val ∧ d.val ≤ 'Z'.val) := by
    intro hup
    simp only [identifierRest, Char.isAlphanum, Bool.or_eq_false_iff] at h
    have hupper : d.isUpper = false := (Bool.or_eq_false_iff.mp h.1.1).1
    exact of_decide_eq_false hupper hup
  rw [show d.toLower = d from dif_neg hupper, h]

theorem beginsWith_of_apart {w x s : Text} (hw : w.all identifierRest = true) (hs : Apart s)
    (h : beginsWith w x = false) : beginsWith w (x ++ s) = false := by
  induction w generalizing x with
  | nil => exact absurd h (by simp [beginsWith])
  | cons c w ih =>
    rw [List.all_cons, Bool.and_eq_true] at hw
    cases x with
    | nil =>
      cases s with
      | nil => rfl
      | cons d s =>
        have hd : identifierRest d = false := by
          have hd : (!identifierRest d) = true := hs
          simpa using hd
        have hne : d.toLower ≠ c := by
          rintro rfl
          exact absurd ((toLower_of_not_identifierRest hd).symm.trans hw.1) (by decide)
        rw [List.nil_append, beginsWith_cons_eq, decide_eq_false hne, Bool.false_and]
    | cons d x =>
      rw [beginsWith_cons_eq] at h
      rw [List.cons_append, beginsWith_cons_eq]
      by_cases hcd : d.toLower = c
      · rw [decide_eq_true hcd, Bool.true_and] at h ⊢
        exact ih hw.2 h
      · rw [decide_eq_false hcd, Bool.false_and]

theorem not_isDigit_of_identifierStart {c : Char} (h : identifierStart c = true) :
    c.isDigit = false := by
  by_contra hdigit
  have hdigit : c.val ≤ '9'.val := by
    simp only [Char.isDigit, Bool.not_eq_false, Bool.and_eq_true, decide_eq_true_eq] at hdigit
    exact hdigit.2
  simp only [identifierStart, Bool.or_eq_true, decide_eq_true_eq] at h
  rcases h with h | rfl
  · rcases (Bool.or_eq_true c.isUpper c.isLower).mp h with h | h
    · have hupper : 'A'.val ≤ c.val := (of_decide_eq_true h).1
      exact absurd (UInt32.le_trans hupper hdigit) (by decide)
    · have hlower : 'a'.val ≤ c.val := of_decide_eq_true ((Bool.and_eq_true _ _).mp h).1
      exact absurd (UInt32.le_trans hlower hdigit) (by decide)
  · exact absurd hdigit (by decide)

/-- In front of any other name, a constant does not match. -/
theorem fails_constant_name {x : Identifier} (h : constantLike x.val = false) {g s : Text}
    (hg : Gap g) (hs : Apart s) : Fails (constant floatValue) (g ++ (x.val ++ s)) := by
  simp only [constantLike, Bool.or_eq_false_iff] at h
  obtain ⟨⟨⟨⟨hi, htrue⟩, hfalse⟩, hnan⟩, hinf⟩ := h
  obtain ⟨c, cs, hx, hc, -⟩ := Identifier.parts x
  have hrest := identifierRest_of_start hc
  have hne : ∀ d, identifierStart d = false → c ≠ d := by
    rintro d hd rfl
    rw [hc] at hd
    exact absurd hd (by decide)
  refine fails_constant hg (solid_append (Identifier.solid x) s) ?_ ?_ ?_
  · rw [hx]
    exact fun heq => hne '$' (by decide) (Option.some.inj heq)
  · have hspecial : specialText (x.val ++ s) = none := by
      rw [specialText, beginsWith_of_apart (by decide) hs hnan,
        beginsWith_of_apart (by decide) hs hinf]
      rfl
    rw [hx, List.cons_append] at hspecial ⊢
    refine floatText_eq_none ⟨hne '+' (by decide), hne '-' (by decide), hne '.' (by decide)⟩ ?_
      hspecial
    exact not_isDigit_of_identifierStart hc
  · intro w hw
    simp only [List.mem_cons, List.not_mem_nil, or_false] at hw
    rcases hw with rfl | rfl | rfl
    · exact isPrefixOf_of_apart (by decide) hs hi
    · exact isPrefixOf_of_apart (by decide) hs htrue
    · exact isPrefixOf_of_apart (by decide) hs hfalse

/-- The names that the renaming does not make like a constant. -/
def Allowed (r : Identifier → Identifier) (x : Identifier) : Prop := constantLike (r x).val = false

theorem reads_instParameter : Reads (spelled r) m (instParameter floatValue)
    (Written.instParameter floatValue (Allowed r)) Written.Ends (InstParameterDoc.rename r) := by
  have hconstant : Reads (spelled r) m
      (constant floatValue >>= fun value => pure (InstParameterDoc.constant value))
      (Written.constant floatValue >>= fun value => pure (InstParameterDoc.constant value))
      Written.Ends (InstParameterDoc.rename r) :=
    reads_constant.bind (fun _ => precedes_pure _ fun _ h => h) fun _ => reads_pure rfl
  have hname : Reads (spelled r) m identifier (Written.argument (Allowed r)) Apart r :=
    fun n ps x s hx hs hm => reads_identifier n ps x s hx.1 hs hm
  refine hconstant.alt (hname.bind (fun _ => precedes_pure _ fun _ h => Apart.of_ends h)
    fun _ => reads_pure rfl) ?_
  rintro n ps v s ⟨_, _, x, rfl, ⟨⟨_, _, _, rfl, ⟨g, hg, rfl⟩, rfl⟩, hx⟩, rfl, rfl⟩ hs
  rw [List.append_nil, textOf_append, textOf_singleton, textOf_singleton, List.append_assoc]
  exact fails_bind (fails_constant_name hx hg (Apart.of_ends hs))

theorem fails_identifier {c : Char} {w s : Text} (hsolid : solid [c] = true)
    (hc : identifierStart c = false) (h : Led (c :: w) s) : Fails identifier s := by
  obtain ⟨g, t, hg, rfl⟩ := h
  refine fails_skipped hg hsolid fun n => ?_
  show bareIdentifier ⟨n, c :: (w ++ t)⟩ = .fail
  simp [bareIdentifier, hc]

theorem fails_instParameters {s : Text} (h : Led ")".toList s) :
    Fails (instParameters floatValue) s := by
  refine fails_bind (fails_orElse (fails_bind ?_) (fails_bind (fails_identifier rfl rfl h)))
  obtain ⟨g, t, hg, rfl⟩ := h
  obtain ⟨hsolid, hfloat⟩ := floatText_startsNoFloat (c := ')') (s := t) (by decide)
  exact fails_constant hg hsolid (by simp) hfloat fun w hw => by
    simp only [List.mem_cons, List.not_mem_nil, or_false] at hw
    rcases hw with rfl | rfl | rfl <;> rfl

section
variable {allowed : Identifier → Prop} {f : InstParameterDoc → InstParameterDoc}

theorem reads_instParameters
    (hf : Reads (spelled r) m (instParameter floatValue)
      (Written.instParameter floatValue allowed) Written.Ends f) :
    Reads (spelled r) m (instParameters floatValue) (Written.instParameters floatValue allowed)
      (fun s => Written.Ends s ∧ Fails (do word ","; expect (instParameter floatValue)) s)
      (List.map f) :=
  reads_list hf hf (fun _ _ => precedes_pure _ fun _ h => h) fun _ _ => reads_pure rfl

theorem choice_instantiation
    (hf : Reads (spelled r) m (instParameter floatValue)
      (Written.instParameter floatValue allowed) Written.Ends f) :
    Choice (spelled r) m (instantiation floatValue) (Written.instantiation floatValue allowed) F
      (InstantiationDoc.renameBy r f) ["instance".toList] := by
  refine choice_named (by decide) (fun _ _ => precedes_apart rfl _) fun lineno name => ?_
  refine Reads.expectLit (by decide) (reads_identifier.expect.bind
    (fun _ => precedes_apart rfl _) fun moduleclass => ?_)
  refine Reads.expectLit (by decide) ((reads_opt (reads_instParameters hf)).bind
    (fun _ => precedes_closing fun _ h => fails_instParameters h) fun parameters => ?_)
  refine Reads.expectLit (by decide) (Reads.expectLit (by decide) (reads_pure ?_))
  cases parameters with
  | none => rfl
  | some parameters => rfl

/-! ## Programs -/

/-- Blocks whose arguments are read in any way. -/
theorem choice_blockBy
    (hf : Reads (spelled r) m (instParameter floatValue)
      (Written.instParameter floatValue allowed) Written.Ends f) :
    Choice (spelled r) m (block floatValue) (Written.block floatValue allowed) (fun _ => True)
      (ParsedBlock.renameBy r f) ["include".toList, "endpoint".toList, "device".toList,
        "machine".toList, "module".toList, "instance".toList] := by
  refine .cons (choice_includeRule.map fun _ => rfl) (.cons (choice_endpoint.map fun _ => rfl)
    (.cons (choice_aliasRule.map fun _ => rfl) (.cons (choice_statemachine.map fun _ => rfl)
    (.cons (choice_moduleRule.map fun _ => rfl) ((choice_instantiation hf).map fun _ => rfl)
    (by decide)) (by decide)) (by decide)) (by decide)) (by decide)

/-- Blocks, and what is skipped behind the last one. -/
theorem parse_starBy
    (hf : ∀ m, Reads (spelled r) m (instParameter floatValue)
      (Written.instParameter floatValue allowed) Written.Ends f)
    {ps : List (Piece Identifier)} {blocks : List ParsedBlock} {g : Text}
    (h : Language.Star (Written.block floatValue allowed) 1 ps blocks) (hg : Gap g) :
    parse floatValue (textOf (spelled r) ps ++ g) =
      some (blocks.map (ParsedBlock.renameBy r f)) := by
  have hstar := (choice_blockBy (hf _)).star (by decide) (fun _ _ => trivial) 1 ps blocks g h
    ⟨trivial, (choice_blockBy (hf 0)).failsEnd g hg⟩ (Nat.lt_succ_self _)
  have hend : expect eoi ⟨1 + lines ps, g⟩ =
      .ok () (Position.advance ⟨1 + lines ps, g⟩ []) := by
    rw [expect, eoi, if_pos (skip_gap_end hg)]
  have hstart : start floatValue ⟨1, textOf (spelled r) ps ++ g⟩ =
      .ok (blocks.map (ParsedBlock.renameBy r f)) (Position.advance ⟨1 + lines ps, g⟩ []) := by
    rw [start, bind_apply, hstar, andThen_ok, bind_apply, hend]
    rfl
  rw [parse, hstart]

end

theorem choice_block : Choice (spelled r) m (block floatValue)
    (Written.block floatValue (Allowed r)) (fun _ => True) (ParsedBlock.rename r)
    ["include".toList, "endpoint".toList, "device".toList, "machine".toList, "module".toList,
      "instance".toList] :=
  renameBy_rename r ▸ choice_blockBy reads_instParameter

theorem parse_star {ps : List (Piece Identifier)} {blocks : List ParsedBlock} {g : Text}
    (h : Language.Star (Written.block floatValue (Allowed r)) 1 ps blocks) (hg : Gap g) :
    parse floatValue (textOf (spelled r) ps ++ g) = some (blocks.map (ParsedBlock.rename r)) :=
  renameBy_rename r ▸ parse_starBy (fun _ => reads_instParameter) h hg

/-- **A program is read**, whatever its names are: the blocks are those that it is written for,
with the names that it is written with. -/
theorem parse_program {ps : List (Piece Identifier)} {blocks : List ParsedBlock}
    (h : Written.program floatValue (Allowed r) 1 ps blocks) :
    parse floatValue (textOf (spelled r) ps) = some (blocks.map (ParsedBlock.rename r)) := by
  obtain ⟨qs, _, _, rfl, hblocks, _, _, _, rfl, ⟨g, hg, rfl⟩, rfl, rfl⟩ := h
  rw [textOf_append, List.append_nil, textOf_singleton]
  exact parse_star hblocks hg

/-- A name with a line in front of it. -/
def underscored (x : Identifier) : Identifier :=
  ⟨'_' :: x.val, (Bool.and_eq_true _ _).mpr ⟨rfl, List.all_eq_true.mpr fun _ h => Identifier.mem h⟩⟩

/-- An instance of a module, with a name as its argument. -/
def instanceOf (name moduleclass x : Identifier) : List (Piece Identifier) :=
  [.gap [] .nil, .word "instance".toList, .gap [' '] (.blank rfl .nil), .name name, .gap [] .nil,
    .word ":".toList, .gap [] .nil, .name moduleclass, .gap [] .nil, .word "(".toList,
    .gap [] .nil, .name x, .gap [] .nil, .word ")".toList, .gap [] .nil, .word ";".toList,
    .gap [] .nil]

theorem instanceOf_written {name moduleclass x : Identifier} {allowed : Identifier → Prop}
    (hx : allowed x) :
    Written.program (fun _ => 0) allowed 1 (instanceOf name moduleclass x) [.instantiationDoc
      { lineno := 1
        name := name
        moduleclass := moduleclass
        parameters := [.identifier x]
        readFromFile := [] }] := by
  have hword : ∀ (w : String) (n : Nat), Written.word w n [.gap [] .nil, .word w.toList] () :=
    fun w n => ⟨[.gap [] .nil], [.word w.toList], (), rfl, ⟨[], .nil, rfl⟩, rfl⟩
  have hname : ∀ (x : Identifier) (n : Nat), Written.identifier n [.gap [] .nil, .name x] x :=
    fun x n => ⟨[.gap [] .nil], [.name x], (), rfl, ⟨[], .nil, rfl⟩, rfl⟩
  have harguments : Written.instParameters (fun _ => 0) allowed 1
      [.gap [] .nil, .name x] [.identifier x] :=
    ⟨_, [], _, (List.append_nil _).symm, Or.inr ⟨_, [], _, (List.append_nil _).symm,
      ⟨hname x _, hx⟩, rfl, rfl⟩, [], [], [], rfl, .nil, rfl, rfl⟩
  have hinstance : Written.instantiation (fun _ => 0) allowed 1
      [.gap [] .nil, .word "instance".toList, .gap [' '] (.blank rfl .nil), .name name,
        .gap [] .nil, .word ":".toList, .gap [] .nil, .name moduleclass, .gap [] .nil,
        .word "(".toList, .gap [] .nil, .name x, .gap [] .nil, .word ")".toList, .gap [] .nil,
        .word ";".toList]
      { lineno := 1
        name := name
        moduleclass := moduleclass
        parameters := [.identifier x]
        readFromFile := [] } :=
    ⟨_, _, (), rfl, hword "instance" 1, [.gap [' '] (.blank rfl .nil)], _, 1, rfl,
      ⟨_, _, rfl, rfl⟩, [.name name], _, _, rfl, rfl, _, _, (), rfl, hword ":" _,
      _, _, _, rfl, hname moduleclass _, _, _, (), rfl, hword "(" _, _, _, _, rfl,
      Or.inr ⟨_, rfl, harguments⟩, _, _, (), rfl, hword ")" _, _, [], (), rfl, hword ";" _, rfl, rfl⟩
  exact ⟨_, _, _, rfl, .cons (Or.inr (Or.inr (Or.inr (Or.inr (Or.inr ⟨_, [], _, rfl,
    hinstance, rfl, rfl⟩))))) .nil, _, [], (), rfl, ⟨[], .nil, rfl⟩, rfl, rfl⟩

/-- An instance whose argument is read as a name only with a line in front of it. -/
theorem parse_underscored :
    parse (fun _ => 0) "instance _lamp:_blink(_in);".toList = some [.instantiationDoc
      { lineno := 1
        name := underscored ⟨"lamp".toList, rfl⟩
        moduleclass := underscored ⟨"blink".toList, rfl⟩
        parameters := [.identifier (underscored ⟨"in".toList, rfl⟩)]
        readFromFile := [] }] :=
  @parse_program underscored _ _ _ (@instanceOf_written ⟨"lamp".toList, rfl⟩
    ⟨"blink".toList, rfl⟩ ⟨"in".toList, rfl⟩ (Allowed underscored) rfl)

theorem parse_blocks {t g : Text} {P : List ParsedBlock → Prop}
    (ht : Spells (spelled r) (Language.Star (Written.block floatValue (Allowed r))) t P)
    (hg : Gap g) :
    ∃ blocks, P blocks ∧ parse floatValue (t ++ g) = some (blocks.map (ParsedBlock.rename r)) := by
  obtain ⟨ps, blocks, hblocks, rfl, hP⟩ := ht 1
  exact ⟨blocks, hP, parse_star hblocks hg⟩

/-- A file with an error behind some blocks. -/
theorem parse_eq_none {t s : Text}
    (ht : Spells (spelled r) (Language.Star (Written.block floatValue (Allowed r))) t
      fun _ => True)
    (hs : Errors (block floatValue) s) : parse floatValue (t ++ s) = none := by
  have hproper := (@choice_block r 0 floatValue).led.proper
    (not_ledBy_nil (by decide))
  have herror := choice_block.reads.star_errors hproper precedes_true ht trivial hs
  rw [parse, start, bind_apply, herror]
  rfl

end

end Grammar

end Hexabus.Hbc
