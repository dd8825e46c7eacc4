import Hexabus.Lib.Runs
import Mathlib.Logic.Function.Basic

/-!
# Nodes and messages

A network of nodes that answer the messages they receive and send messages of their own. A
message that has been sent stays in flight until it is lost: it may be received late, out of
order, by several nodes and more than once. An account beside the network keeps what every
message has been answered with.
-/

namespace Hexabus.Lib.Network

open Runs

/-- What a node does with a message, and by itself. The node's state and the message need not
settle the former: `ω` is what else there is. -/
structure Protocol (ν σ μ ω α : Type) where
  receive : ν → ω → μ → σ → σ × List μ
  act : ν → α → σ → σ × List μ

/-- The nodes, the messages in flight, and the account. -/
structure Net (ν σ μ : Type) where
  nodes : ν → σ
  flight : List μ
  answers : List (μ × μ)

/-- What happens next: a node receives the message at a place in the flight, the message at a
place is lost, or a node acts. -/
inductive Event (ν ω α : Type)
  | deliver (node : ν) (place : Nat) (rest : ω)
  | lose (place : Nat)
  | act (node : ν) (action : α)

variable {ν σ μ ω α : Type}

/-- A network in which nothing has been answered yet. -/
def Net.start (nodes : ν → σ) (flight : List μ) : Net ν σ μ := ⟨nodes, flight, []⟩

namespace Protocol

variable [DecidableEq ν] (P : Protocol ν σ μ ω α)

/-- What is sent in an event. -/
def sent (net : Net ν σ μ) : Event ν ω α → List μ
  | .deliver node place rest =>
    match net.flight[place]? with
    | none => []
    | some message => (P.receive node rest message (net.nodes node)).2
  | .lose _ => []
  | .act node action => (P.act node action (net.nodes node)).2

def step (event : Event ν ω α) (net : Net ν σ μ) : Net ν σ μ :=
  match event with
  | .deliver node place rest =>
    match net.flight[place]? with
    | none => net
    | some message =>
      let (state, replies) := P.receive node rest message (net.nodes node)
      ⟨Function.update net.nodes node state, net.flight ++ replies,
        net.answers ++ replies.map fun reply => (message, reply)⟩
  | .lose place => { net with flight := net.flight.eraseIdx place }
  | .act node action =>
    let (state, messages) := P.act node action (net.nodes node)
    { net with nodes := Function.update net.nodes node state, flight := net.flight ++ messages }

/-- What is sent in a run. -/
def sentAlong : Net ν σ μ → List (Event ν ω α) → List μ
  | _, [] => []
  | net, event :: events => P.sent net event ++ sentAlong (P.step event net) events

/-- How many events of a run meet a condition. -/
def eventsAlong (p : Net ν σ μ → Event ν ω α → Bool) : Net ν σ μ → List (Event ν ω α) → Nat
  | _, [] => 0
  | net, event :: events =>
    (if p net event then 1 else 0) + eventsAlong p (P.step event net) events

/-! ## What every run keeps -/

variable {P}

/-- Every answer in the account is one that some node gives. -/
theorem answers_step {R : μ → μ → Prop}
    (hreceive : ∀ node rest message state, ∀ reply ∈ (P.receive node rest message state).2,
      R message reply) {net : Net ν σ μ} (h : ∀ answer ∈ net.answers, R answer.1 answer.2)
    (event : Event ν ω α) : ∀ answer ∈ (P.step event net).answers, R answer.1 answer.2 := by
  cases event with
  | lose place => exact h
  | act node action => exact h
  | deliver node place rest =>
    cases hplace : net.flight[place]? with
    | none =>
      have hsame : P.step (.deliver node place rest) net = net := by
        simp only [step, hplace]
      rwa [hsame]
    | some message =>
      intro answer hanswer
      simp only [step, hplace, List.mem_append, List.mem_map] at hanswer
      rcases hanswer with hold | ⟨reply, hreply, rfl⟩
      · exact h answer hold
      · exact hreceive node rest message _ reply hreply

/-- **The account rule**: what every reply has to do with the message it answers, every answer
in the account of a run has. -/
theorem answers_run {R : μ → μ → Prop}
    (hreceive : ∀ node rest message state, ∀ reply ∈ (P.receive node rest message state).2,
      R message reply) (nodes : ν → σ) (flight : List μ) (events : List (Event ν ω α)) :
    ∀ answer ∈ (run P.step (Net.start nodes flight) events).answers, R answer.1 answer.2 := by
  let Inv : Net ν σ μ → Prop := fun net => ∀ answer ∈ net.answers, R answer.1 answer.2
  have hstart : Inv (Net.start nodes flight) := fun _ h => absurd h List.not_mem_nil
  have hstep : ∀ net event, Inv net → True → Inv (P.step event net) :=
    fun _ event h _ => answers_step hreceive h event
  exact run_invariant hstep hstart (meets_true _ events)

/-- **The counting rule**: where every admissible event that meets a condition sends one message
of a kind, and the others none, a run sends as many as there are such events. -/
theorem length_filter_sentAlong {kind : μ → Bool} {p : Net ν σ μ → Event ν ω α → Bool}
    {Inv : Net ν σ μ → Prop} {ok : Net ν σ μ → Event ν ω α → Prop}
    (hstep : ∀ net event, Inv net → ok net event → Inv (P.step event net))
    (hsent : ∀ net event, Inv net → ok net event →
      ((P.sent net event).filter kind).length = if p net event then 1 else 0)
    {net : Net ν σ μ} {events : List (Event ν ω α)} (hnet : Inv net)
    (h : Meets P.step ok net events) :
    ((P.sentAlong net events).filter kind).length = P.eventsAlong p net events := by
  induction events generalizing net with
  | nil => rfl
  | cons event events ih =>
    show ((P.sent net event ++ _).filter kind).length = _
    rw [List.filter_append, List.length_append, hsent net event hnet h.1,
      ih (hstep net event hnet h.1) h.2]
    rfl

end Protocol

end Hexabus.Lib.Network
