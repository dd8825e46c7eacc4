import Hexabus.Hbc.ReadRules

/-!
# State machines and modules

What the grammar reads of the conditions, the commands and the clauses of state machines and
modules. Every choice in them is between words of its own, but for a timer, in front of which a
timeout is tried.
-/

namespace Hexabus.Hbc

open Lib.Expectation

namespace Grammar

open Parser

section
variable {r : Identifier → Identifier} {m : Nat} {floatValue : Text → UInt32}

/-! ## States -/

theorem reads_expectIdentifier :
    Reads (spelled r) m (expect identifier) Written.identifier Written.Ends r :=
  reads_identifier.expect.weaken fun _ h => Apart.of_ends h

theorem reads_stateset {F : Text → Prop} :
    Reads (spelled r) m stateset Written.stateset F (List.map r) := by
  refine Reads.lit (by decide) (reads_linePos.bind (fun _ => precedes_bare_bind (by decide) _)
    fun _ => ?_)
  refine (reads_expectBare (by decide)).bind (fun _ => precedes_true) fun _ => ?_
  exact reads_list reads_expectIdentifier
    (reads_identifier.weaken fun _ h => Apart.of_ends h)
    (fun _ _ => precedes_stop rfl rfl rfl _)
    fun _ _ => Reads.expectLit (by decide) (reads_pure rfl)

/-! ## Commands -/

theorem choice_gotoCommand : Choice (spelled r) m gotoCommand Written.gotoCommand Written.Ends
    (GotoCommandDoc.rename r) ["goto".toList] :=
  choice_named (by decide) (fun _ _ => precedes_pure _ fun _ h => Apart.of_ends h)
    fun _ _ => reads_pure rfl

theorem choice_writeCommand : Choice (spelled r) m (writeCommand floatValue)
    (Written.writeCommand floatValue) Written.Ends (CommandDoc.rename r) ["write".toList] := by
  refine .single (by decide) (reads_linePos.bind
    (fun _ => precedes_bind (precedes_bareGeid (G := fun _ => True)) fun _ => precedes_true)
    fun lineno => ?_)
  refine reads_bareGeid.expect.bind
    (fun _ => (precedes_ends rfl _).mono fun _ h => Apart.of_ends h) fun geid => ?_
  exact Reads.expectLit (by decide) (reads_constant.expect.bind
    (fun _ => precedes_pure _ fun _ h => h) fun _ => reads_pure rfl)

/-! ## Conditions -/

theorem choice_tautology : Choice (spelled r) m tautology Written.tautology Written.Ends
    (ConditionDoc.rename r) ["true".toList] := .single (by decide) (reads_pure rfl)

theorem choice_atomicCondition : Choice (spelled r) m (atomicCondition floatValue)
    (Written.atomicCondition floatValue) Written.Ends (ConditionDoc.rename r) ["ep".toList] := by
  refine .single (by decide) (reads_globalEndpointId.expect.bind (fun _ => ?_) fun geid => ?_)
  · refine precedes_bind (H := fun _ => True) (precedes_or ?_ (precedes_or ?_ (precedes_or ?_
      (precedes_or ?_ (precedes_or ?_ ?_))))) fun _ => precedes_true
    all_goals exact (precedes_word_bind _ _).mono fun _ h => apart_of_led (by decide) h
  · refine reads_compOp.expect.bind (fun _ => precedes_bind precedes_constant
      fun _ => precedes_pure _ fun _ h => h) fun compOp => ?_
    exact reads_constant.expect.bind (fun _ => precedes_pure _ fun _ h => h) fun _ => reads_pure rfl

theorem choice_timeoutCondition : Choice (spelled r) m (timeoutCondition floatValue)
    (Written.timeoutCondition floatValue) Written.Ends (ConditionDoc.rename r)
    ["timeout".toList] :=
  .single (by decide) (reads_constant.expect.bind (fun _ => precedes_pure _ fun _ h => h)
    fun _ => reads_pure rfl)

theorem choice_timerCondition : Choice (spelled r) m (timerCondition floatValue)
    (Written.timerCondition floatValue) Written.Ends (ConditionDoc.rename r)
    ["time".toList] := by
  refine .single (by decide) (choice_timeF.reads.expect.bind (fun _ => precedes_true)
    fun fields => ?_)
  refine reads_timeCompOp.expect.bind (fun _ => precedes_true) fun op => ?_
  exact reads_constant.expect.bind (fun _ => precedes_pure _ fun _ h => h) fun _ => reads_pure rfl

/-- A timer is not taken for a timeout. -/
theorem precedes_timerCondition : Precedes (spelled r) (Written.timerCondition floatValue)
    Written.Ends (Fails (timeoutCondition floatValue)) := by
  have hgap : gapChars.all (fun c => decide (c ≠ 'o')) = true := by decide
  have hfield : ∀ s, LedBy ["hour".toList, "minute".toList, "second".toList, "day".toList,
      "month".toList, "year".toList, "weekday".toList] s → Ahead (· ≠ 'o') s := by
    rintro s ⟨w, hw, hled⟩
    simp only [List.mem_cons, List.not_mem_nil, or_false] at hw
    rcases hw with rfl | rfl | rfl | rfl | rfl | rfl | rfl <;>
      exact ahead_of_led hgap (by decide) hled
  rintro n ps c s ⟨_, ps', _, rfl, ⟨_, _, _, rfl, ⟨g, hg, rfl⟩, rfl⟩, hrest⟩ hs
  have hahead := precedes_bind ((choice_timeF (r := r) (m := 0) (F := fun _ => True)).led.mono hfield)
    (fun _ => precedes_true) _ ps' c s hrest hs
  rw [textOf_append, textOf_append, textOf_singleton, textOf_singleton, List.append_assoc,
    List.append_assoc]
  refine fails_bind (fails_isPrefixOf hg rfl ?_)
  cases ht : textOf (spelled r) ps' ++ s with
  | nil =>
    rw [ht] at hahead
    exact absurd hahead Bool.false_ne_true
  | cons d t =>
    rw [ht] at hahead
    have hd : d ≠ 'o' := of_decide_eq_true hahead
    show ('o' == d && "ut".toList.isPrefixOf t) = false
    rw [beq_false_of_ne hd.symm, Bool.false_and]

/-- Conditions in one another. -/
theorem choice_compoundCondition {p : Parser ConditionDoc}
    {L : Language Identifier ConditionDoc}
    (h : Reads (spelled r) m p L Written.Ends (ConditionDoc.rename r)) :
    Choice (spelled r) (m + 1) (compoundCondition p) (Written.compoundCondition L) Written.Ends
      (ConditionDoc.rename r) ["(".toList] := by
  refine .singleLess (by decide) (h.expect.bind (fun _ => precedes_ends rfl _) fun _ => ?_)
  refine Reads.expectLit (by decide) (reads_boolOp.expect.bind (fun _ => precedes_true)
    fun _ => Reads.expectLit (by decide) ?_)
  exact h.expect.bind (fun _ => precedes_ends rfl _) fun _ =>
    Reads.expectLit (by decide) (reads_pure rfl)

/-- **A condition is read**, as deep as there is text for. -/
theorem reads_conditionFrom (k n : Nat) :
    Reads (spelled r) n (conditionFrom floatValue n) (Written.conditionUpTo floatValue k)
      Written.Ends (ConditionDoc.rename r) := by
  -- on the text that is ahead: behind an opening bracket there is less
  induction n generalizing k with
  | zero => exact fun _ _ _ _ _ _ h => absurd h (Nat.not_lt_zero _)
  | succ n ih =>
    cases k with
    | zero => exact fun _ _ _ _ h => absurd h id
    | succ k =>
      have hcompound := choice_compoundCondition (ih k)
      have htimer := (@choice_timerCondition r (n + 1) floatValue).cons hcompound (by decide)
      have htimeout := (@choice_timeoutCondition r (n + 1) floatValue).consOf htimer
        (precedes_or precedes_timerCondition ((precedes_word_bind _ _).mono fun _ h =>
          fails_bind (fails_lit (by decide) (by decide) h)))
      have hatomic := (@choice_atomicCondition r (n + 1) floatValue).cons htimeout (by decide)
      exact (choice_tautology.cons hatomic (by decide)).reads

theorem reads_condition : Reads (spelled r) m (condition floatValue) (Written.condition floatValue)
    Written.Ends (ConditionDoc.rename r) := by
  rintro l ps c s ⟨k, hc⟩ hs _
  exact reads_conditionFrom k _ l ps c s hc hs (Nat.lt_succ_self _)

/-! ## Clauses -/

theorem choice_command : Choice (spelled r) m (command floatValue) (Written.command floatValue)
    (fun _ => True) (CommandDoc.rename r) ["write".toList] :=
  choice_writeCommand.bind (fun _ => precedes_ends rfl _)
    fun _ => Reads.expectLit (by decide) (reads_pure rfl)

theorem reads_commandBlock {F : Text → Prop} : Reads (spelled r) m (commandBlock floatValue)
    (Written.commandBlock floatValue) F (CommandBlockDoc.rename r) := by
  refine (choice_command.star (by decide) fun _ _ => trivial).bind (fun commands => ?_)
    fun commands => choice_gotoCommand.reads.expect.bind (fun _ => precedes_ends rfl _)
      fun goto => Reads.expectLit (by decide) (reads_pure rfl)
  refine precedes_bind ((choice_gotoCommand (m := m)).led.mono fun s hs => ⟨trivial, ?_⟩)
    fun _ => precedes_true
  exact (choice_command (r := r) (m := m)).fails_ledBy (by decide) hs

/-- What follows an opening bracket. -/
theorem reads_guarded {F : Text → Prop} {L : Language Identifier Unit}
    (h : Reads (spelled r) m (lit ['(']) L (fun _ => True) id) :
    Reads (spelled r) m (guardedCommandBlock floatValue)
      (L >>= fun _ => Written.guardedRest floatValue) F (GuardedCommandBlockDoc.rename r) := by
  refine h.bind (fun _ => precedes_true) fun _ => ?_
  refine reads_condition.expect.bind (fun _ => precedes_ends rfl _) fun condition => ?_
  refine Reads.expectLit (by decide) (Reads.expectLit (by decide) ?_)
  exact reads_commandBlock.expect.bind (fun _ => precedes_true) fun commandBlock =>
    Reads.expectLit (by decide) (reads_pure rfl)

theorem choice_elseIfBlock : Choice (spelled r) m (elseIfBlock floatValue)
    (Written.elseIfBlock floatValue) (fun _ => True) (GuardedCommandBlockDoc.rename r)
    ["else".toList] :=
  .single (by decide) (Reads.expectLit (by decide) (reads_guarded (reads_lit (by decide))).expect)

theorem choice_ifClause : Choice (spelled r) m (ifClause floatValue)
    (Written.ifClause floatValue) (Fails (elseIfBlock floatValue)) (IfClauseDoc.rename r)
    ["if".toList] := by
  refine .single (by decide) (reads_linePos.bind (fun _ => precedes_bare_bind (by decide) _)
    fun lineno => Reads.assoc ?_)
  refine (reads_guarded (F := fun _ => True) (Reads.unskipped (reads_lit (by decide)))).expect.bind
    (fun _ => precedes_true) fun ifBlock => ?_
  exact (choice_elseIfBlock.star (by decide) fun _ _ => trivial).bind
    (fun _ => precedes_pure _ fun _ h => ⟨trivial, h⟩) fun _ => reads_pure rfl

theorem fails_linePos {α : Type} {w g t : Text} {k : Parser α} (hg : Gap g) (ht : solid t = true)
    (h : Fails (lit w) t) : Fails (linePos >>= fun _ => lit w >>= fun _ => k) (g ++ t) := by
  intro n
  have hskip : (⟨n, g ++ t⟩ : Position).advance (skip (g ++ t)) = ⟨n + feeds g, t⟩ := by
    rw [skip_gap hg ht, Position.advance_append]
  show (lit w >>= fun _ => k) ((⟨n, g ++ t⟩ : Position).advance (skip (g ++ t))) = .fail
  rw [hskip]
  exact fails_bind h _

/-- A clause without a condition; its line is taken in front of its word. -/
theorem reads_alwaysClause {F : Text → Prop} : Reads (spelled r) m (alwaysClause floatValue)
    (Written.alwaysClause floatValue) F (IfClauseDoc.rename r) := by
  refine reads_linePos.bind (fun _ => precedes_bare_bind (by decide) _) fun lineno => ?_
  refine (Reads.unskipped (reads_lit (by decide))).bind (fun _ => precedes_true) fun _ => ?_
  refine Reads.expectLit (by decide) (reads_commandBlock.expect.bind (fun _ => precedes_true)
    fun commandBlock => Reads.expectLit (by decide) (reads_pure rfl))

theorem fails_alwaysClause {v s : Text} (hv : solid v = true)
    (hclash : clash "always".toList v = true) (h : Led v s) :
    Fails (do let clause ← alwaysClause floatValue; return [clause]) s := by
  obtain ⟨g, t, hg, rfl⟩ := h
  exact fails_bind (fails_linePos hg (solid_append hv t)
    (fails_lit hv hclash ⟨[], t, .nil, rfl⟩))

/-- The clauses of a state, up to the bracket that closes it. -/
theorem reads_clauses : Reads (spelled r) m
    ((do let clause ← alwaysClause floatValue; return [clause]) <|> star (ifClause floatValue))
    (Language.or (do let clause ← Written.alwaysClause floatValue; return [clause])
      (Language.Star (Written.ifClause floatValue)))
    (Led "\x7d".toList) (List.map (IfClauseDoc.rename r)) := by
  have hif : ∀ s, LedBy ["if".toList] s → Fails (elseIfBlock floatValue) s := fun s hs =>
    (choice_elseIfBlock (r := r) (m := m)).fails_ledBy (by decide) hs
  have hclose : ∀ s, Led "\x7d".toList s →
      Fails (elseIfBlock floatValue) s ∧ Fails (ifClause floatValue) s := fun s hs =>
    ⟨(choice_elseIfBlock (r := r) (m := m)).fails _ _ (by decide) (by decide) hs,
      (choice_ifClause (r := r) (m := m)).fails _ _ (by decide) (by decide) hs⟩
  have halways : Reads (spelled r) m
      (alwaysClause floatValue >>= fun clause => pure [clause])
      (Written.alwaysClause floatValue >>= fun clause => pure [clause]) (Led "\x7d".toList)
      (List.map (IfClauseDoc.rename r)) :=
    reads_alwaysClause.bind (F := fun _ => True) (fun _ => precedes_true) fun _ => reads_pure rfl
  refine halways.alt ((choice_ifClause.star (by decide) hif).weaken hclose) ?_
  intro n ps clauses s hclauses hs
  rcases (choice_ifClause (m := m)).precedes_star n ps clauses s hclauses hs with ⟨w, hw, hled⟩ | hs
  · exact fails_alwaysClause (by decide) (by decide) (List.mem_singleton.mp hw ▸ hled)
  · exact fails_alwaysClause (by decide) (by decide) hs

theorem choice_inClause : Choice (spelled r) m (inClause floatValue) (Written.inClause floatValue)
    (fun _ => True) (InClauseDoc.rename r) ["in".toList] := by
  refine .single (by decide) (reads_linePos.bind (fun _ => precedes_bare_bind (by decide) _)
    fun lineno => ?_)
  refine (reads_expectBare (by decide)).bind (fun _ => precedes_true) fun _ => ?_
  refine reads_identifier.expect.bind
    (fun _ => (precedes_word_bind _ _).mono fun _ h => apart_of_led (by decide) h) fun name => ?_
  refine Reads.expectLit (by decide) (Reads.expectLit (by decide) ?_)
  exact reads_clauses.bind (fun _ => precedes_word_bind _ _) fun clauses =>
    Reads.expectLit (by decide) (reads_pure rfl)


end

end Grammar

end Hexabus.Hbc
