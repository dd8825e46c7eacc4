import Hexabus.Firmware.StateMachine

/-!
# How many transitions one event fires

The loop over a transition table as a search: it runs to the first matching entry,
and from there it ends if that entry writes an endpoint. A transition without an
action does not leave the loop, so the search goes on in the state just entered.
-/

namespace Hexabus.Firmware

variable {δ : Type} (write : UInt32 → HxbEnvelope → Fw δ → ErrorCode × Fw δ)
  (eidEnv : HxbEnvelope) (datetime : Bool) (env : Option HxbEnvelope)

/-- Entry `i` of a table. -/
def entry (s : Fw δ) (datetime : Bool) (i : Nat) : Transition :=
  smGetTransition s.eeprom datetime (UInt8.ofNat i)

/-- Entry `i` matches the state of the machine and the event. -/
def matchesAt (s : Fw δ) (datetime : Bool) (env : Option HxbEnvelope) (i : Nat) : Prop :=
  matchesTransition s env (entry s datetime i) = true

instance (s : Fw δ) (datetime : Bool) (env : Option HxbEnvelope) :
    DecidablePred (matchesAt s datetime env) :=
  fun _ => inferInstanceAs (Decidable (_ = true))

/-- The first entry below `n` that matches. -/
def firstMatch (s : Fw δ) (datetime : Bool) (env : Option HxbEnvelope) (n : Nat) : Option Nat :=
  (List.range n).find? fun i => matchesAt s datetime env i

/-- The state a transition leads to: its good target, unless it has an action and
the write fails. -/
def target (s : Fw δ) (t : Transition) : UInt8 :=
  if hasAction t ∧ (write t.eid (actionEnvelope eidEnv t) s).1 ≠ .success then t.badState
  else t.goodState

/-- One event fires at most one transition: the first of the `n` entries that matches
on entry. The machine is then in that transition's target and the time in the state
starts over; if nothing fires, nothing changes. -/
def SingleFiring (n : Nat) (s : Fw δ) (result : Fw δ × List Nat) : Prop :=
  match firstMatch s datetime env n with
  | none => result = (s, [])
  | some i => result.2 = [i] ∧ result.1.curState = target write eidEnv s (entry s datetime i) ∧
      result.1.inStateSince = result.1.timestamp

/-- The search ends at the first match: nothing matches, or the first match has an
action, or no later entry matches in the state that the first match enters. -/
def SearchEnds (n : Nat) (s : Fw δ) : Prop :=
  match firstMatch s datetime env n with
  | none => True
  | some i => hasAction (entry s datetime i) = true ∨
      ∀ j, i < j → j < n →
        ¬ matchesAt (enterState s (entry s datetime i).goodState) datetime env j

/-! ## The loop as a search -/

variable {write} {eidEnv} {datetime} {env}

theorem firstMatch_eq_none {s : Fw δ} {n : Nat} :
    firstMatch s datetime env n = none ↔ ∀ j, j < n → ¬ matchesAt s datetime env j := by
  simp [firstMatch, List.find?_eq_none]

theorem firstMatch_eq_some {s : Fw δ} {n i : Nat} (h : firstMatch s datetime env n = some i) :
    i < n ∧ matchesAt s datetime env i ∧ ∀ j, j < i → ¬ matchesAt s datetime env j := by
  obtain ⟨hmatch, hlt, hfirst⟩ := List.find?_range_eq_some.mp h
  refine ⟨List.mem_range.mp hlt, of_decide_eq_true hmatch, ?_⟩
  intro j hj
  simpa using hfirst j hj

/-- Past an entry that does not match. -/
theorem checkTransitions_skip {s : Fw δ} {n i : Nat} (h : ¬ matchesAt s datetime env i) :
    checkTransitions write eidEnv datetime env (n + 1) i s
      = checkTransitions write eidEnv datetime env n (i + 1) s :=
  if_neg h

/-- At a matching entry with an action the loop ends. -/
theorem checkTransitions_action {s : Fw δ} {n i : Nat} (h : matchesAt s datetime env i)
    (ha : hasAction (entry s datetime i) = true) :
    checkTransitions write eidEnv datetime env (n + 1) i s
      = (fireAction write eidEnv (entry s datetime i) s, [i]) :=
  (if_pos h).trans (if_pos ha)

/-- At a matching entry without an action the loop goes on, in the state entered. -/
theorem checkTransitions_noAction {s : Fw δ} {n i : Nat} (h : matchesAt s datetime env i)
    (ha : hasAction (entry s datetime i) = false) :
    checkTransitions write eidEnv datetime env (n + 1) i s
      = ((checkTransitions write eidEnv datetime env n (i + 1)
          (enterState s (entry s datetime i).goodState)).1,
        i :: (checkTransitions write eidEnv datetime env n (i + 1)
          (enterState s (entry s datetime i).goodState)).2) := by
  have hno : ¬ hasAction (entry s datetime i) = true := by
    rw [ha]
    exact Bool.false_ne_true
  exact (if_pos h).trans (if_neg hno)

theorem checkTransitions_none {s : Fw δ} {n i : Nat}
    (h : ∀ j, i ≤ j → j < i + n → ¬ matchesAt s datetime env j) :
    checkTransitions write eidEnv datetime env n i s = (s, []) := by
  induction n generalizing i with
  | zero => rfl
  | succ n ih =>
    rw [checkTransitions_skip (h i (Nat.le_refl i) (by omega))]
    exact ih fun j h1 h2 => h j (by omega) (by omega)

/-- If nothing fires, nothing matched. -/
theorem not_matchesAt_of_fired_nil {s : Fw δ} {n i : Nat}
    (h : (checkTransitions write eidEnv datetime env n i s).2 = []) :
    ∀ j, i ≤ j → j < i + n → ¬ matchesAt s datetime env j := by
  induction n generalizing i with
  | zero => intro j h1 h2; omega
  | succ n ih =>
    by_cases hm : matchesAt s datetime env i
    · cases ha : hasAction (entry s datetime i) with
      | true =>
        rw [checkTransitions_action hm ha] at h
        cases h
      | false =>
        rw [checkTransitions_noAction hm ha] at h
        cases h
    · rw [checkTransitions_skip hm] at h
      intro j h1 h2
      by_cases hj : j = i
      · exact hj ▸ hm
      · exact ih h j (by omega) (by omega)

/-- The loop runs to its first match. -/
theorem checkTransitions_first {s : Fw δ} {n i k : Nat} (hik : i ≤ k) (hk : k < i + n)
    (hfirst : ∀ j, i ≤ j → j < k → ¬ matchesAt s datetime env j) :
    checkTransitions write eidEnv datetime env n i s
      = checkTransitions write eidEnv datetime env (i + n - k) k s := by
  induction n generalizing i with
  | zero => omega
  | succ n ih =>
    by_cases heq : i = k
    · subst heq
      have hsub : i + (n + 1) - i = n + 1 := by omega
      rw [hsub]
    · rw [checkTransitions_skip (hfirst i (Nat.le_refl i) (by omega)),
        ih (by omega) (by omega) fun j h1 h2 => hfirst j (by omega) h2]
      congr 1
      omega

/-! ## One event, one transition -/

/-- A fired action leads to the transition's target. -/
theorem fireAction_target {s : Fw δ} {t : Transition} (ha : hasAction t = true) :
    (fireAction write eidEnv t s).curState = target write eidEnv s t ∧
      (fireAction write eidEnv t s).inStateSince = (fireAction write eidEnv t s).timestamp := by
  unfold fireAction target
  simp only
  by_cases herr : (write t.eid (actionEnvelope eidEnv t) s).1 = .success
  · rw [if_pos herr, if_neg (by simp [herr])]
    exact ⟨rfl, rfl⟩
  · rw [if_neg herr, if_pos ⟨ha, herr⟩]
    exact ⟨rfl, rfl⟩

/-- **The loop fires a single transition exactly when its search ends there.** -/
theorem singleFiring_checkTransitions (s : Fw δ) (n : Nat) :
    SingleFiring write eidEnv datetime env n s
        (checkTransitions write eidEnv datetime env n 0 s)
      ↔ SearchEnds datetime env n s := by
  unfold SingleFiring SearchEnds
  cases hfirst : firstMatch s datetime env n with
  | none =>
    have hnone := firstMatch_eq_none.mp hfirst
    simp only [iff_true]
    exact checkTransitions_none fun j _ h2 => hnone j (by omega)
  | some i =>
    obtain ⟨hi, hmatch, hno⟩ := firstMatch_eq_some hfirst
    have hrest : 0 + n - i = (n - (i + 1)) + 1 := by omega
    simp only
    rw [checkTransitions_first (Nat.zero_le i) (by omega) fun j _ h2 => hno j h2, hrest]
    cases ha : hasAction (entry s datetime i) with
    | true =>
      rw [checkTransitions_action hmatch ha]
      simp only [true_or, iff_true]
      exact ⟨trivial, fireAction_target ha⟩
    | false =>
      rw [checkTransitions_noAction hmatch ha]
      simp only [List.cons.injEq, true_and, Bool.false_eq_true, false_or]
      constructor
      · rintro ⟨hnil, -, -⟩
        intro j h1 h2
        exact not_matchesAt_of_fired_nil hnil j (by omega) (by omega)
      · intro hlater
        rw [checkTransitions_none fun j h1 h2 => hlater j (by omega) (by omega)]
        refine ⟨rfl, ?_, rfl⟩
        simp [target, ha, enterState]

/-- **When one event fires one transition**, for the events of the plain table and
the ticks of the date-time table, whatever writing an endpoint does. -/
theorem singleFiring_iff (write : UInt32 → HxbEnvelope → Fw δ → ErrorCode × Fw δ)
    (eidEnv dtenvelope : HxbEnvelope) (env : Option HxbEnvelope) (s : Fw δ) :
    (SingleFiring write eidEnv false env s.transLength.toNat s
        (checkValueTransitions write eidEnv env s)
      ↔ SearchEnds false env s.transLength.toNat s) ∧
    (SingleFiring write eidEnv true (some (datetimeEnvelope dtenvelope (refreshDtValid s)))
        s.dtTransLength.toNat (refreshDtValid s)
        (checkDatetimeTransitions write eidEnv dtenvelope s)
      ↔ SearchEnds true (some (datetimeEnvelope dtenvelope (refreshDtValid s)))
        s.dtTransLength.toNat (refreshDtValid s)) :=
  ⟨singleFiring_checkTransitions s _, singleFiring_checkTransitions _ _⟩

/-- Two transitions without an action, from state 0 to 1 and from 1 to 2, both under
the condition that is always true. -/
def chainMachine : Fw Unit where
  eeprom := Lib.Store.writeBlock (fun _ => 0) EE.statemachineTransitions
    ((Transition.mk 0 trueCondIndex 0 1 1 0 (Lib.Bytes.Block.zero 8)).toBytes ++
      (Transition.mk 1 trueCondIndex 0 2 2 0 (Lib.Bytes.Block.zero 8)).toBytes)
  transLength := 2
  dtTransLength := 0
  curState := 0
  inStateSince := 0
  dtValid := false
  smHandleInputEvent := 0x8a
  udpHandlerEvent := 0x8b
  lastevent := 0x8c
  pstate := .called
  timestamp := 7
  currentDt := ⟨0, 0, 0, 0, 0, 0, 0⟩
  timeValid := false
  dev := ()
  stackOverflow := false
  log := []

/-- One event takes both. -/
theorem chainMachine_fires_twice :
    let write := fun (_ : UInt32) (_ : HxbEnvelope) (s : Fw Unit) => (ErrorCode.success, s)
    let eidEnv : HxbEnvelope := ⟨Lib.Bytes.Block.zero 16, 0, 0, ⟨0, Lib.Bytes.Block.zero 8, []⟩⟩
    let result := checkValueTransitions write eidEnv none chainMachine
    result.2 = [0, 1] ∧ result.1.curState = 2 ∧
      ¬ SingleFiring write eidEnv false none 2 chainMachine result := by
  refine ⟨by decide +kernel, by decide +kernel, ?_⟩
  intro h
  have hfirst : firstMatch chainMachine false none 2 = some 0 := by decide +kernel
  rw [SingleFiring, hfirst] at h
  exact absurd h.1 (by decide +kernel)

end Hexabus.Firmware
