import Hexabus.Hbc.Expansion
import Hexabus.Hbc.GraphBuilder
import Hexabus.Lib.Runs

/-!
# What the expansion preserves

The machine of a graph: an event fires the first clause of the current state whose
condition holds, the commands of that clause are performed at once, and its target is
entered. An event is consumed by the one state it arrives in. The expanded machine
performs the same commands, but an event that arrives in an intermediate state is
spent on the chain, where the original machine would have reacted to it.
-/

namespace Hexabus.Hbc

open Lib.Runs

/-- Where a machine is, and the commands it has performed. -/
structure Execution where
  state : Nat
  writes : List CommandDoc
  deriving DecidableEq

variable {Event : Type} (holds : Event → ConditionDoc → Bool)

namespace Graph

/-- The condition of a clause holds. -/
def enabled (g : Graph) (event : Event) (c : Nat) : Bool :=
  match g.contents c with
  | some (.cond condition) => holds event condition
  | _ => false

/-- What a clause performs and where it leads. -/
def clause (g : Graph) (c : Nat) : Option (List CommandDoc × Nat) :=
  match g.adjacent c with
  | [] => none
  | m :: _ =>
    match g.contents m, g.adjacent m with
    | some (.command block), target :: _ => some (block.commands, target)
    | _, _ => none

/-- The clause that an event fires. -/
def fired (g : Graph) (event : Event) (u : Nat) : Option (List CommandDoc × Nat) :=
  ((g.adjacent u).find? (g.enabled holds event)).bind g.clause

def step (g : Graph) (event : Event) (x : Execution) : Execution :=
  match g.fired holds event x.state with
  | some (commands, target) => ⟨target, x.writes ++ commands⟩
  | none => x

/-- The events that arrive while the machine is in a vertex below number `n`. -/
def arriving (g : Graph) (n : Nat) : Execution → List Event → List Event
  | _, [] => []
  | x, event :: events =>
    if x.state < n then event :: arriving g n (g.step holds event x) events
    else arriving g n (g.step holds event x) events

end Graph

variable {holds}

/-! ## One event -/

variable {g g' : Graph}

theorem enabled_congr {event : Event} {c : Nat} (h : g'.contents c = g.contents c) :
    g'.enabled holds event c = g.enabled holds event c := by
  unfold Graph.enabled
  rw [h]

/-- A source-level vertex keeps its contents unless it is a command vertex. -/
theorem Upto.same_of_not_command (h : Upto g g' g.size) {v : Nat} (hv : v < g.size)
    (hn : ∀ block, g.contents v ≠ some (.command block)) : SameAt g g' v := by
  cases h.expanded v hv with
  | same _ same => exact same
  | drawn _ before => exact absurd before (hn _)

/-- A clause of the expanded graph performs the first command, and the chain behind it
the others. -/
theorem Upto.clause (hwf : WellFormed g) (h : Upto g g' g.size) {c : Nat}
    {condition : ConditionDoc} (hc : g.contents c = some (.cond condition)) :
    ∃ commands target u, g.clause c = some (commands, target) ∧
      g.contents target = some .state ∧ g'.clause c = some (commands.take 1, u) ∧ Chain g' g.size u (commands.drop 1) target := by
  obtain ⟨m, block, hm, hblock⟩ := hwf.ofCond c condition hc
  obtain ⟨target, htarget, hstate⟩ := hwf.ofCommand m block hblock
  have hsame : SameAt g g' c := by
    refine h.same_of_not_command (Graph.contents_lt hc) fun block' hb => ?_
    rw [hc] at hb
    cases hb
  have hg : g.clause c = some (block.commands, target) := by
    unfold Graph.clause
    rw [hm]
    simp only [hblock, htarget]
  have hm' : g'.adjacent c = [m] := hsame.2.trans hm
  cases h.expanded m (Graph.contents_lt hblock) with
  | same short same =>
    have hshort := short block hblock
    refine ⟨block.commands, target, target, hg, hstate, ?_, ?_⟩
    · unfold Graph.clause
      rw [hm', List.take_of_length_le hshort]
      simp only [same.1, same.2, hblock, htarget]
    · rw [List.drop_of_length_le hshort]
      exact .done
  | @drawn target' u command tail goto long before toTarget head toChain chain =>
    have hb : block = ⟨command :: tail, goto⟩ := by
      rw [hblock] at before
      exact Contents.command.inj (Option.some.inj before)
    have ht : target = target' := List.singleton_inj.mp (htarget.symm.trans toTarget)
    subst hb ht
    refine ⟨_, target, u, hg, hstate, ?_, chain⟩
    unfold Graph.clause
    rw [hm']
    simp only [head, toChain]
    rfl

/-- In a source-level state both machines fire the same clause. -/
theorem Upto.fired (holds : Event → ConditionDoc → Bool) (hwf : WellFormed g) (h : Upto g g' g.size) {v : Nat}
    (hv : g.contents v = some .state) (event : Event) :
    (g.fired holds event v = none ∧ g'.fired holds event v = none) ∨
    ∃ commands target u, g.fired holds event v = some (commands, target) ∧
      g.contents target = some .state ∧ g'.fired holds event v = some (commands.take 1, u) ∧
      Chain g' g.size u (commands.drop 1) target := by
  have hsame : SameAt g g' v := by
    refine h.same_of_not_command (Graph.contents_lt hv) fun block hb => ?_
    rw [hv] at hb
    cases hb
  have henabled : ∀ c ∈ g.adjacent v,
      g'.enabled holds event c = g.enabled holds event c := by
    intro c hc
    obtain ⟨condition, hcond⟩ := hwf.ofState v hv c hc
    refine enabled_congr (h.same_of_not_command (Graph.contents_lt hcond) fun block hb => ?_).1
    rw [hcond] at hb
    cases hb
  have hfind : (g'.adjacent v).find? (g'.enabled holds event)
      = (g.adjacent v).find? (g.enabled holds event) := by
    rw [hsame.2]
    exact List.find?_congr henabled
  unfold Graph.fired
  rw [hfind]
  cases hf : (g.adjacent v).find? (g.enabled holds event) with
  | none => exact .inl ⟨rfl, rfl⟩
  | some c =>
    obtain ⟨condition, hcond⟩ := hwf.ofState v hv c (List.mem_of_find?_eq_some hf)
    obtain ⟨commands, target, u, hg, hstate, hg', hchain⟩ := h.clause hwf hcond
    exact .inr ⟨commands, target, u, hg, hstate, hg', hchain⟩

/-- In an intermediate state only `if true` can fire; it performs the next command. -/
theorem Chain.fired (holds : Event → ConditionDoc → Bool) {n u t : Nat} {command : CommandDoc} {rest : List CommandDoc}
    (h : Chain g n u (command :: rest) t) (event : Event) :
    ∃ u', Chain g n u' rest t ∧ g.fired holds event u
      = if holds event (.tautology 1) then some ([command], u') else none := by
  cases h with
  | @next _ c m u' _ goto _ _ hu hc hm state clauses ifTrue commands block target more =>
    refine ⟨u', more, ?_⟩
    have henabled : g.enabled holds event c = holds event (.tautology 1) := by
      unfold Graph.enabled
      rw [ifTrue]
    unfold Graph.fired
    rw [clauses]
    by_cases hh : holds event (.tautology 1) = true
    · rw [if_pos hh, List.find?_cons_of_pos (by rw [henabled, hh])]
      unfold Graph.clause
      simp only [Option.bind_some, commands, block, target]
    · rw [if_neg hh, List.find?_cons_of_neg (by rw [henabled]; exact hh)]
      rfl

/-! ## Runs -/

/-- The expanded machine follows the original one: it still has to perform `rest`, on a
chain that ends where the original machine is already. -/
def Follows (g g' : Graph) (x x' : Execution) : Prop :=
  g.contents x.state = some .state ∧
    ∃ rest, Chain g' g.size x'.state rest x.state ∧ x.writes = x'.writes ++ rest

/-- Below the new vertices there is nothing left to perform. -/
theorem Follows.eq_of_lt {x x' : Execution} (h : Follows g g' x x') (hlt : x'.state < g.size) :
    x' = x := by
  obtain ⟨-, rest, hchain, hwrites⟩ := h
  cases rest with
  | nil =>
    have hstate : x'.state = x.state := hchain.eq_of_nil
    rw [List.append_nil] at hwrites
    cases x
    cases x'
    simp_all
  | cons command rest =>
    have := hchain.start (List.cons_ne_nil _ _)
    omega

/-- An event that arrives in a source-level state drives both machines. -/
theorem Follows.step_both {x x' : Execution} (hwf : WellFormed g) (hup : Upto g g' g.size)
    (h : Follows g g' x x') (hlt : x'.state < g.size) (event : Event) :
    Follows g g' (g.step holds event x) (g'.step holds event x') := by
  obtain rfl := h.eq_of_lt hlt
  obtain ⟨hstate, -⟩ := h
  unfold Graph.step
  rcases hup.fired holds hwf hstate event with ⟨hg, hg'⟩ |
    ⟨commands, target, u, hg, ht, hg', hchain⟩
  · rw [hg, hg']
    exact ⟨hstate, [], .done, (List.append_nil _).symm⟩
  · rw [hg, hg']
    refine ⟨ht, commands.drop 1, hchain, ?_⟩
    rw [List.append_assoc, List.take_append_drop]

/-- An event that arrives in an intermediate state drives the chain at most. -/
theorem Follows.step_chain {x x' : Execution} (h : Follows g g' x x')
    (hge : g.size ≤ x'.state) (event : Event) : Follows g g' x (g'.step holds event x') := by
  obtain ⟨hstate, rest, hchain, hwrites⟩ := h
  cases rest with
  | nil =>
    -- an empty chain would end in a source-level state
    have heq : x'.state = x.state := hchain.eq_of_nil
    have := Graph.contents_lt hstate
    omega
  | cons command rest =>
    obtain ⟨u', hmore, hfired⟩ := hchain.fired holds event
    unfold Graph.step
    rw [hfired]
    by_cases hh : holds event (.tautology 1) = true
    · rw [if_pos hh]
      refine ⟨hstate, rest, hmore, ?_⟩
      rw [hwrites, List.append_assoc]
      rfl
    · rw [if_neg hh]
      exact ⟨hstate, command :: rest, hchain, hwrites⟩

/-- The expanded machine follows the original one on the events that arrive in
source-level states. -/
theorem Follows.along (holds : Event → ConditionDoc → Bool) {x x' : Execution} (hwf : WellFormed g) (hup : Upto g g' g.size)
    (h : Follows g g' x x') (events : List Event) :
    Follows g g' (run (g.step holds) x (g'.arriving holds g.size x' events))
      (run (g'.step holds) x' events) := by
  induction events generalizing x x' with
  | nil => exact h
  | cons event events ih =>
    by_cases hlt : x'.state < g.size
    · rw [Graph.arriving, if_pos hlt, run_cons, run_cons]
      exact ih (h.step_both hwf hup hlt event)
    · rw [Graph.arriving, if_neg hlt, run_cons]
      exact ih (h.step_chain (Nat.le_of_not_lt hlt) event)

/-- As many events as there are commands left finish a chain. -/
theorem Chain.finish {n t : Nat} {rest : List CommandDoc} {x : Execution}
    (h : Chain g n x.state rest t) {events : List Event} (hlen : events.length = rest.length)
    (htrue : ∀ event ∈ events, holds event (.tautology 1) = true) :
    run (g.step holds) x events = ⟨t, x.writes ++ rest⟩ := by
  induction rest generalizing x events with
  | nil =>
    obtain rfl := List.eq_nil_of_length_eq_zero hlen
    rw [List.append_nil, ← h.eq_of_nil]
    rfl
  | cons command rest ih =>
    obtain ⟨event, events, rfl⟩ := List.exists_cons_of_length_eq_add_one hlen
    obtain ⟨u', hmore, hfired⟩ := h.fired holds event
    have hstep : g.step holds event x = ⟨u', x.writes ++ [command]⟩ := by
      unfold Graph.step
      rw [hfired, if_pos (htrue event List.mem_cons_self)]
    rw [run_cons, hstep]
    have hmore' : Chain g n (Execution.mk u' (x.writes ++ [command])).state rest t := hmore
    rw [ih hmore' (Nat.succ.inj hlen) fun e he => htrue e (List.mem_cons_of_mem _ he),
      List.append_assoc]
    rfl

/-- **Preservation up to the events spent on chains**: the expanded machine performs
what the original one performs on the events that arrive while no chain is in progress.
While none is, the two agree on the state and on the writes; otherwise the expanded
machine lacks the writes that are left in its chain, and as many further events for
which `true` holds bring it to where the original machine is. -/
theorem expandMultipleWrites_performs (fp : FloatPrinter) (holds : Event → ConditionDoc → Bool)
    (g : Graph) (hwf : WellFormed g) (s : Nat) (hs : g.contents s = some .state) :
    ∃ g', expandMultipleWrites fp g = .ok g' ∧ ∀ events : List Event,
      let x := run (g.step holds) ⟨s, []⟩ (g'.arriving holds g.size ⟨s, []⟩ events)
      let x' := run (g'.step holds) ⟨s, []⟩ events
      (x'.state < g.size → x' = x) ∧
      (g.size ≤ x'.state → ∃ rest, rest ≠ [] ∧ x.writes = x'.writes ++ rest ∧
        ∀ more : List Event, more.length = rest.length →
          (∀ event ∈ more, holds event (.tautology 1) = true) →
            run (g'.step holds) x' more = x) := by
  obtain ⟨g', hrun, hup⟩ := expandMultipleWrites_spec fp hwf
  refine ⟨g', hrun, fun events => ?_⟩
  have hfollows : Follows g g' ⟨s, []⟩ ⟨s, []⟩ := ⟨hs, [], .done, rfl⟩
  have h := hfollows.along holds hwf hup events
  refine ⟨fun hlt => h.eq_of_lt hlt, fun hge => ?_⟩
  obtain ⟨hstate, rest, hchain, hwrites⟩ := h
  refine ⟨rest, ?_, hwrites, fun more hlen htrue => ?_⟩
  · rintro rfl
    have heq : (run (g'.step holds) ⟨s, []⟩ events).state
        = (run (g.step holds) ⟨s, []⟩ (g'.arriving holds g.size ⟨s, []⟩ events)).state :=
      hchain.eq_of_nil
    have := Graph.contents_lt hstate
    omega
  · rw [hchain.finish hlen htrue, ← hwrites]

/-! ## A lost event -/

/-- Prints the numbers zero and one as a stream does. -/
def bitPrinter : FloatPrinter where
  print bits := if bits = 0x3f800000 then ['1'] else ['0']
  print_ne_nil bits := by split <;> simp
  getLast_print bits := by split <;> decide

/-- `write lamp.endpoint := bits`. -/
def lampWrite (endpoint : Identifier) (bits : UInt32) : CommandDoc :=
  ⟨1, ⟨.literal ⟨"lamp".toList, rfl⟩, 1, .literal endpoint⟩, .float bits⟩

/-- `ep button.pressed == bits`. -/
def buttonIs (bits : UInt32) : ConditionDoc :=
  .atomic ⟨.literal ⟨"button".toList, rfl⟩, 1, .literal ⟨"pressed".toList, rfl⟩⟩ .eq (.float bits)

/-- Two states: when the button is pressed, two endpoints are switched on, and when it
is released, one is switched off. -/
def lampGraph : Graph where
  vertices := [
    ⟨"(0.0) \\nlamps.init".toList, 0, 0, .state⟩,
    ⟨"(0.1) \\nlamps.on".toList, 0, 1, .state⟩,
    ⟨"(0.0) if (button.pressed == 1)".toList, 0, 0, .cond (buttonIs 0x3f800000)⟩,
    ⟨"[1] write lamp.a := 1\\n[1] write lamp.b := 1\\n[1] goto on\\n".toList, 0, 0,
      .command ⟨[lampWrite ⟨['a'], rfl⟩ 0x3f800000, lampWrite ⟨['b'], rfl⟩ 0x3f800000],
        ⟨1, ⟨"on".toList, rfl⟩⟩⟩⟩,
    ⟨"(0.1) if (button.pressed == 0)".toList, 0, 1, .cond (buttonIs 0)⟩,
    ⟨"[1] write lamp.a := 0\\n[1] goto init\\n".toList, 0, 1,
      .command ⟨[lampWrite ⟨['a'], rfl⟩ 0], ⟨1, initName⟩⟩⟩]
  edges := [(0, 2), (2, 3), (3, 1), (1, 4), (4, 5), (5, 0)]

theorem lampGraph_wellFormed : WellFormed lampGraph where
  bounded := by
    intro e he
    revert e
    decide
  ofState := by
    intro v hv c hc
    have hlt : v < 6 := Graph.contents_lt hv
    interval_cases v
    case «0» => exact ⟨buttonIs 0x3f800000, by rw [List.mem_singleton.mp hc]; rfl⟩
    case «1» => exact ⟨buttonIs 0, by rw [List.mem_singleton.mp hc]; rfl⟩
    all_goals cases hv
  ofCond := by
    intro v condition hv
    have hlt : v < 6 := Graph.contents_lt hv
    interval_cases v
    case «2» => exact ⟨3, _, rfl, rfl⟩
    case «4» => exact ⟨5, _, rfl, rfl⟩
    all_goals cases hv
  ofCommand := by
    intro v block hv
    have hlt : v < 6 := Graph.contents_lt hv
    interval_cases v
    case «3» => exact ⟨1, rfl, rfl⟩
    case «5» => exact ⟨0, rfl, rfl⟩
    all_goals cases hv

/-- An event is the value the button sends. -/
def buttonHolds (event : UInt32) : ConditionDoc → Bool
  | .tautology _ => true
  | .atomic _ .eq (.float bits) => event = bits
  | _ => false

/-- The theorem at the two states above, with the button pressed and released: the
machine without the release, because that arrived on the chain. -/
theorem lampGraph_performs :
    ∃ g', expandMultipleWrites bitPrinter lampGraph = .ok g' ∧ ∀ events : List UInt32,
      let x := run (lampGraph.step buttonHolds) ⟨0, []⟩
        (g'.arriving buttonHolds lampGraph.size ⟨0, []⟩ events)
      let x' := run (g'.step buttonHolds) ⟨0, []⟩ events
      (x'.state < lampGraph.size → x' = x) ∧
      (lampGraph.size ≤ x'.state → ∃ rest, rest ≠ [] ∧ x.writes = x'.writes ++ rest ∧
        ∀ more : List UInt32, more.length = rest.length →
          (∀ event ∈ more, buttonHolds event (.tautology 1) = true) →
            run (g'.step buttonHolds) x' more = x) :=
  expandMultipleWrites_performs bitPrinter buttonHolds lampGraph lampGraph_wellFormed 0 rfl

/-- **An event is lost**: pressed and released, the button leaves the original machine
in `init`, and the expanded one in `on`, with no chain in progress. -/
theorem lampGraph_loses_event :
    WellFormed lampGraph ∧ lampGraph.contents 0 = some .state ∧
    (∀ event value, buttonHolds event (.tautology value) = true) ∧
    ∃ g', expandMultipleWrites bitPrinter lampGraph = .ok g' ∧
      let x := run (lampGraph.step buttonHolds) ⟨0, []⟩ [0x3f800000, 0]
      let x' := run (g'.step buttonHolds) ⟨0, []⟩ [0x3f800000, 0]
      x'.state < lampGraph.size ∧ x'.state ≠ x.state ∧ x'.writes ≠ x.writes := by
  refine ⟨lampGraph_wellFormed, rfl, fun _ _ => rfl, _, rfl, ?_⟩
  decide

end Hexabus.Hbc
