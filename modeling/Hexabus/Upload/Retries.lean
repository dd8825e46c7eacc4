import Hexabus.Lib.Runs
import Hexabus.Upload.Session

/-!
# Bounded retries

The two senders of `hexaupload.cpp` with their timers: what ends a call of `send`, how often
it transmits, and which replies it takes for its own. Both senders listen as long as the
program runs, and a timer that has expired calls its handler in the next run of the
`io_service`, be it in the next call.
-/

namespace Hexabus.Upload.Retries

open Lib.Runs Lib.Fairness

/-! ## The senders -/

/-- A call of `send`. `sent` counts the transmissions of its packet, and `acknowledged` says
that a reply to this very request has been handled that tells its success. -/
structure Call where
  job : Job
  sent : Nat
  acknowledged : Bool
  deriving DecidableEq

/-- The members of a `RetryingPacketSender`. The timer waits if it is `armed`, and has
expired `expired` times without a call of its handler so far. -/
structure Members where
  failCount : Int
  result : SendError
  armed : Bool
  expired : Nat

/-- What `send` works on while it waits. `attempts` counts the calls of `sendPacket` of both
senders, `stopped` says that the `io_service` was told to stop, and `wild` that a sender has
sent a packet that is gone. -/
structure Waiting where
  call : Call
  members : Sender → Members
  attempts : Nat
  stopped : Bool
  wild : Bool

/-- The main function: the calls that have returned, each with what it returned, and the one
that waits. When none waits the program is over, with the last result for its exit code. -/
structure Senders where
  done : List (Call × SendError)
  waiting : Option Waiting

/-- `failCount++`: an `int` wraps. -/
def increment (n : Int) : Int := if n = 2 ^ 31 - 1 then -2 ^ 31 else n + 1

/-- One sender's members change. -/
def Waiting.update (w : Waiting) (who : Sender) (f : Members → Members) : Waiting :=
  { w with members := Function.update w.members who (f (w.members who)) }

/-- `armTimer`: a timer that waits begins anew. -/
def armTimer (who : Sender) (w : Waiting) : Waiting :=
  w.update who fun m => { m with armed := true }

/-- `finish`. -/
def finish (who : Sender) (err : SendError) (w : Waiting) : Waiting :=
  { w.update who fun m => { m with result := err } with stopped := true }

variable (takes : Nat → Bool)

/-- `sendPacket`. The socket may throw a `NetworkException`, and what `packet` of a sender
points to is gone when its `send` has returned. -/
def sendPacket (who : Sender) (w : Waiting) : Except Waiting Waiting :=
  let sent := if who = w.call.job.sender then
      { w with call := { w.call with sent := w.call.sent + 1 }, attempts := w.attempts + 1 }
    else { w with wild := true, attempts := w.attempts + 1 }
  if takes w.attempts then .ok sent else .error sent

variable (retryLimit : Int)

/-- `failOne`. -/
def failOne (who : Sender) (w : Waiting) : Except Waiting Waiting :=
  let w := w.update who fun m => { m with failCount := increment m.failCount }
  if (w.members who).failCount > retryLimit ∨ retryLimit < 0 then
    .ok (finish who .maxretryExceeded w)
  else sendPacket takes who w

/-- `onTimeout`, called without an error. -/
def onTimeout (who : Sender) (w : Waiting) : Except Waiting Waiting := do
  let w ← failOne takes retryLimit who w
  return armTimer who w

/-- `onReply` of the two senders. -/
def onReply (reply : Reply) (w : Waiting) : Except Waiting Waiting :=
  match reply with
  | .state value => .ok (if value = w.call.job.reqState then finish .sm .none w else w)
  | .acknak true => .ok (finish .chunks .none w)
  | .acknak false => failOne takes retryLimit .chunks w

/-- `onError` of the two senders. -/
def onError (w : Waiting) : Waiting := finish .chunks .network (finish .sm .network w)

/-! ## Runs of the program -/

/-- What can happen while a call waits. -/
inductive Event
  /-- A packet that a filter lets through, with the number of the call that it answers. -/
  | reply (call : Nat) (reply : Reply)
  /-- The timer of a sender expires. -/
  | expire (who : Sender)
  /-- The handler of an expired timer is called. -/
  | fire (who : Sender)
  /-- An error of the socket. -/
  | error
  /-- Any other packet. -/
  | other

/-- The reply tells that the request of the job has been carried out. -/
def Acknowledges (job : Job) : Reply → Prop
  | .state value => job.sender = .sm ∧ value = job.reqState
  | .acknak value => job.sender = .chunks ∧ value = true

instance (job : Job) : (reply : Reply) → Decidable (Acknowledges job reply)
  | .state value => inferInstanceAs (Decidable (job.sender = .sm ∧ value = job.reqState))
  | .acknak value => inferInstanceAs (Decidable (job.sender = .chunks ∧ value = true))

/-- A reply to call number `call` is about to be handled in call number `index`. -/
def note (call index : Nat) (reply : Reply) (w : Waiting) : Waiting :=
  { w with call := { w.call with
      acknowledged := w.call.acknowledged ||
        decide (call = index ∧ Acknowledges w.call.job reply) } }

/-- The handler of what happens in call number `index`. -/
def handle (index : Nat) : Event → Waiting → Except Waiting Waiting
  | .reply call reply, w => onReply takes retryLimit reply (note call index reply w)
  | .expire who, w =>
    .ok (if (w.members who).armed then
      w.update who fun m => { m with armed := false, expired := m.expired + 1 } else w)
  | .fire who, w =>
    if (w.members who).expired = 0 then .ok w
    else onTimeout takes retryLimit who
      (w.update who fun m => { m with expired := m.expired - 1 })
  | .error, w => .ok (onError w)
  | .other, w => .ok w

variable (program : Program)

/-- The head of the loop over the chunks. -/
def nextChunk (id : UInt8) : Job := if id.toNat < program.image.length then .chunk id else .start

/-- What the main function does after a success. -/
def nextJob : Job → Option Job
  | .stop => some (nextChunk program 0)
  | .chunk id => some (nextChunk program (id + 1))
  | .start => none

/-- `send`, up to its wait. -/
def begin (job : Job) (done : List (Call × SendError)) (w : Waiting) : Senders :=
  match sendPacket takes job.sender { w with call := ⟨job, 0, false⟩ } with
  | .error w => ⟨done ++ [(w.call, .network)], none⟩
  | .ok w => ⟨done, some { (armTimer job.sender w).update job.sender
      fun m => { m with failCount := 0 } with stopped := false }⟩

/-- The wait is over, and `send` returns. -/
def returned (done : List (Call × SendError)) (w : Waiting) : Senders :=
  let sender := w.call.job.sender
  let w := w.update sender fun m => { m with armed := false }
  let err := (w.members sender).result
  let done := done ++ [(w.call, err)]
  if err ≠ .none then ⟨done, none⟩
  else match nextJob program w.call.job with
    | none => ⟨done, none⟩
    | some job => begin takes job done w

/-- The `io_service` runs on until it is stopped or a handler throws. -/
def settle (done : List (Call × SendError)) : Except Waiting Waiting → Senders
  | .error w => ⟨done ++ [(w.call, .network)], none⟩
  | .ok w => if w.stopped then returned takes program done w else ⟨done, some w⟩

def step (event : Event) (s : Senders) : Senders :=
  match s.waiting with
  | none => s
  | some w => settle takes program s.done
      (handle takes program.retryLimit s.done.length event w)

/-- The senders have been built, and `sm.stop()` is called. -/
def init (members : Sender → Members) : Senders :=
  begin takes .stop [] ⟨⟨.stop, 0, false⟩, members, 0, false, false⟩

/-! ## The conditions -/

/-- The reply makes a handler act. -/
def Decides (job : Job) : Reply → Prop
  | .state value => value = job.reqState
  | .acknak _ => True

/-- The sender that listens for the reply. -/
def listener : Reply → Sender
  | .state _ => .sm
  | .acknak _ => .chunks

/-- A handler acts for the call that waits only: no reply comes to the sender that does not
wait, no request of an earlier call is acknowledged, and no timer of the other sender had
expired when it was cancelled. -/
def Suits (index : Nat) (w : Waiting) : Event → Prop
  | .reply call reply => Decides w.call.job reply → listener reply = w.call.job.sender ∧
      (Acknowledges w.call.job reply → call = index)
  | .fire who => 0 < (w.members who).expired → who = w.call.job.sender
  | .expire _ | .error | .other => True

def Timely (s : Senders) (event : Event) : Prop :=
  ∀ w, s.waiting = some w → Suits s.done.length w event

/-- The jobs of the program: the machine is stopped, the chunks are sent in the order of
their numbers, and the machine is started. -/
def jobs : List Job :=
  .stop :: ((List.range program.image.length).map fun i => .chunk (UInt8.ofNat i)) ++ [.start]

/-- The calls so far. -/
def Senders.calls (s : Senders) : List Call :=
  s.done.map Prod.fst ++ (s.waiting.map Waiting.call).toList

/-- What the senders promise: the jobs in their order, each packet at most `retryLimit + 1`
times, a success or a failure for each call, a success for a request only that has been
acknowledged, and the end at the first failure or after the last job. -/
structure Bounded (s : Senders) : Prop where
  order : s.calls.map Call.job <+: jobs program
  transmitted : ∀ call ∈ s.calls, 1 ≤ call.sent ∧ (call.sent : Int) ≤ program.retryLimit + 1
  success : ∀ p ∈ s.done, p.2 = .none → p.1.acknowledged = true
  decided : ∀ p ∈ s.done, p.2 ≠ .other
  failure : ∀ earlier p later, s.done = earlier ++ p :: later → p.2 ≠ .none →
    later = [] ∧ s.waiting = none
  complete : s.waiting = none → (∀ p ∈ s.done, p.2 = .none) → s.calls.map Call.job = jobs program
  tame : ∀ w, s.waiting = some w → w.wild = false

/-! ## One call -/

section

variable {takes retryLimit} {w w' : Waiting} {who : Sender}

@[simp] theorem update_call (f : Members → Members) : (w.update who f).call = w.call := rfl

@[simp] theorem update_wild (f : Members → Members) : (w.update who f).wild = w.wild := rfl

@[simp] theorem update_stopped (f : Members → Members) :
    (w.update who f).stopped = w.stopped := rfl

@[simp] theorem update_attempts (f : Members → Members) :
    (w.update who f).attempts = w.attempts := rfl

@[simp] theorem update_same (f : Members → Members) :
    (w.update who f).members who = f (w.members who) := Function.update_self ..

theorem update_other {other : Sender} (h : other ≠ who) (f : Members → Members) :
    (w.update who f).members other = w.members other := Function.update_of_ne h ..

/-- The members of the sender that waits. -/
def Waiting.own (w : Waiting) : Members := w.members w.call.job.sender

variable (retryLimit) in
/-- A call that has been transmitted as often as it may. -/
def Transmitted (call : Call) : Prop := 1 ≤ call.sent ∧ (call.sent : Int) ≤ retryLimit + 1

variable (retryLimit) in
/-- A call that waits, and counts its failures. -/
structure Counted (w : Waiting) : Prop where
  going : w.stopped = false
  tame : w.wild = false
  sent : 1 ≤ w.call.sent
  count : w.own.failCount = w.call.sent - 1
  within : w.own.failCount ≤ retryLimit

theorem Counted.transmitted (h : Counted retryLimit w) : Transmitted retryLimit w.call := by
  have hcount := h.count
  have hwithin := h.within
  exact ⟨h.sent, by omega⟩

variable (retryLimit) in
/-- A call that waits for its timer at least. -/
structure Pending (w : Waiting) : Prop extends Counted retryLimit w where
  timer : w.own.armed = true ∨ 0 < w.own.expired

variable (retryLimit) in
/-- A call that is about to return. -/
structure Finished (w : Waiting) : Prop where
  stopped : w.stopped = true
  tame : w.wild = false
  transmitted : Transmitted retryLimit w.call
  success : w.own.result = .none → w.call.acknowledged = true
  decided : w.own.result ≠ .other

/-- How a wait goes on after an event. -/
structure Continues (event : Event) (w w' : Waiting) : Prop where
  sent_le : w.call.sent ≤ w'.call.sent
  fired : event = .fire w.call.job.sender → 0 < w.own.expired → w.call.sent < w'.call.sent
  kept : event ≠ .fire w.call.job.sender → w.own.expired ≤ w'.own.expired
  expires : event = .expire w.call.job.sender → 0 < w'.own.expired

/-- The outcome of a handler for the call `w`. -/
inductive Outcome (retryLimit : Int) (event : Event) (w : Waiting) :
    Except Waiting Waiting → Prop
  | threw {w' : Waiting} (hjob : w'.call.job = w.call.job)
      (hsent : Transmitted retryLimit w'.call) : Outcome retryLimit event w (.error w')
  | ended {w' : Waiting} (hjob : w'.call.job = w.call.job) (h : Finished retryLimit w') :
      Outcome retryLimit event w (.ok w')
  | waits {w' : Waiting} (hjob : w'.call.job = w.call.job) (h : Pending retryLimit w')
      (hcont : Continues event w w') : Outcome retryLimit event w (.ok w')

theorem finish_own (err : SendError) :
    (finish w.call.job.sender err w).own = { w.own with result := err } :=
  @update_same w w.call.job.sender fun m => { m with result := err }

theorem sendPacket_own : ∃ w', w'.call = { w.call with sent := w.call.sent + 1 } ∧
    w'.members = w.members ∧ w'.stopped = w.stopped ∧ w'.wild = w.wild ∧
    (sendPacket takes w.call.job.sender w = .ok w' ∨
      sendPacket takes w.call.job.sender w = .error w') := by
  refine ⟨{ w with call := { w.call with sent := w.call.sent + 1 }, attempts := w.attempts + 1 },
    rfl, rfl, rfl, rfl, ?_⟩
  unfold sendPacket
  rw [if_pos rfl]
  by_cases htakes : takes w.attempts = true
  · exact .inl (if_pos htakes)
  · exact .inr (if_neg htakes)

/-- **A failure** of the call that waits ends it, or the packet is sent once more. -/
theorem Counted.failOne (h : Counted retryLimit w) (hint : retryLimit < 2 ^ 31 - 1) :
    ∃ w', w'.call.job = w.call.job ∧
      (Transmitted retryLimit w'.call ∧
          failOne takes retryLimit w.call.job.sender w = .error w' ∨
        Finished retryLimit w' ∧ failOne takes retryLimit w.call.job.sender w = .ok w' ∨
        Counted retryLimit w' ∧ w'.call.sent = w.call.sent + 1 ∧
          w'.own.armed = w.own.armed ∧ w'.own.expired = w.own.expired ∧
          failOne takes retryLimit w.call.job.sender w = .ok w') := by
  have hincrement : increment w.own.failCount = w.own.failCount + 1 := by
    have hwithin := h.within
    exact if_neg (by omega)
  let counted := w.update w.call.job.sender fun m =>
    { m with failCount := increment m.failCount }
  have hown : counted.own = { w.own with failCount := w.own.failCount + 1 } := by
    rw [← hincrement]
    exact update_same _
  have hnow : (counted.members w.call.job.sender).failCount = w.own.failCount + 1 :=
    congrArg Members.failCount hown
  have hrun : Retries.failOne takes retryLimit w.call.job.sender w =
      if (counted.members w.call.job.sender).failCount > retryLimit ∨ retryLimit < 0 then
        .ok (finish w.call.job.sender .maxretryExceeded counted)
      else sendPacket takes counted.call.job.sender counted := rfl
  rw [hnow] at hrun
  by_cases hover : w.own.failCount + 1 > retryLimit ∨ retryLimit < 0
  · rw [if_pos hover] at hrun
    have hresult := congrArg Members.result (@finish_own counted .maxretryExceeded)
    refine ⟨finish w.call.job.sender .maxretryExceeded counted, rfl,
      .inr (.inl ⟨⟨rfl, h.tame, h.transmitted, ?_, ?_⟩, hrun⟩)⟩
    · exact fun hnone => absurd (hresult.symm.trans hnone) nofun
    · exact fun hother => absurd (hresult.symm.trans hother) nofun
  · rw [if_neg hover] at hrun
    obtain ⟨hlimit, -⟩ := not_or.mp hover
    have hcount := h.count
    obtain ⟨w', hcall, hmembers, hstopped, hwild, hsend⟩ := @sendPacket_own takes counted
    have hjob : w'.call.job = w.call.job := by rw [hcall]; rfl
    have hsent : w'.call.sent = w.call.sent + 1 := by rw [hcall]; rfl
    have hmine : w'.own = { w.own with failCount := w.own.failCount + 1 } := by
      unfold Waiting.own
      rw [hmembers, hjob]
      exact hown
    have hcounted : Counted retryLimit w' :=
      { going := hstopped.trans h.going
        tame := hwild.trans h.tame
        sent := by omega
        count := by
          rw [hmine, hsent]
          show w.own.failCount + 1 = _
          omega
        within := by
          rw [hmine]
          show w.own.failCount + 1 ≤ _
          omega }
    refine ⟨w', hjob, ?_⟩
    rcases hsend with hsend | hsend
    · refine .inr (.inr ⟨hcounted, hsent, ?_, ?_, hrun.trans hsend⟩)
      · rw [hmine]
      · rw [hmine]
    · exact .inl ⟨hcounted.transmitted, hrun.trans hsend⟩

/-- The timer of the call that waits has run out. -/
theorem Counted.onTimeout (h : Counted retryLimit w) (hint : retryLimit < 2 ^ 31 - 1) :
    ∃ w', w'.call.job = w.call.job ∧
      (Transmitted retryLimit w'.call ∧
          onTimeout takes retryLimit w.call.job.sender w = .error w' ∨
        Finished retryLimit w' ∧ onTimeout takes retryLimit w.call.job.sender w = .ok w' ∨
        Pending retryLimit w' ∧ w'.call.sent = w.call.sent + 1 ∧
          onTimeout takes retryLimit w.call.job.sender w = .ok w') := by
  obtain ⟨w', hjob, h'⟩ := @Counted.failOne takes retryLimit w h hint
  have harmed : (armTimer w.call.job.sender w').own = { w'.own with armed := true } := by
    rw [← hjob]
    exact update_same _
  rcases h' with ⟨hsent, hrun⟩ | ⟨hfinished, hrun⟩ | ⟨hcounted, hsent, -, -, hrun⟩
  · refine ⟨w', hjob, .inl ⟨hsent, ?_⟩⟩
    unfold Retries.onTimeout
    rw [hrun]
    rfl
  · refine ⟨armTimer w.call.job.sender w', hjob, .inr (.inl ⟨?_, ?_⟩)⟩
    · refine ⟨hfinished.stopped, hfinished.tame, hfinished.transmitted, ?_, ?_⟩
      · rw [harmed]
        exact hfinished.success
      · rw [harmed]
        exact hfinished.decided
    · unfold Retries.onTimeout
      rw [hrun]
      rfl
  · refine ⟨armTimer w.call.job.sender w', hjob, .inr (.inr ⟨?_, hsent, ?_⟩)⟩
    · refine ⟨⟨hcounted.going, hcounted.tame, hcounted.sent, ?_, ?_⟩, .inl ?_⟩
      · rw [harmed]
        exact hcounted.count
      · rw [harmed]
        exact hcounted.within
      · rw [harmed]
    · unfold Retries.onTimeout
      rw [hrun]
      rfl

/-- A reply changes nothing but what is known of the call. -/
theorem Pending.note (h : Pending retryLimit w) (call index : Nat) (reply : Reply) :
    Pending retryLimit (note call index reply w) :=
  ⟨⟨h.going, h.tame, h.sent, h.count, h.within⟩, h.timer⟩

/-- The listener that waits takes the reply for a success. -/
theorem Pending.acknowledged (h : Pending retryLimit w) {call index : Nat} {reply : Reply}
    (hack : Acknowledges w.call.job reply) (hindex : call = index) :
    Finished retryLimit
      (finish w.call.job.sender .none (Retries.note call index reply w)) := by
  have hresult := congrArg Members.result (@finish_own (Retries.note call index reply w) .none)
  refine ⟨rfl, h.tame, h.transmitted, fun _ => ?_, ?_⟩
  · have hnow : decide (call = index ∧ Acknowledges w.call.job reply) = true :=
      decide_eq_true ⟨hindex, hack⟩
    show (w.call.acknowledged || decide (call = index ∧ Acknowledges w.call.job reply)) = true
    rw [hnow, Bool.or_true]
  · exact fun hother => absurd (hresult.symm.trans hother) nofun

theorem Pending.onReply (h : Pending retryLimit w) (hint : retryLimit < 2 ^ 31 - 1)
    {call index : Nat} {reply : Reply} (hsuits : Suits index w (.reply call reply)) :
    Outcome retryLimit (.reply call reply) w
      (onReply takes retryLimit reply (Retries.note call index reply w)) := by
  have hnote := h.note call index reply
  have hcont : Continues (.reply call reply) w (Retries.note call index reply w) :=
    ⟨Nat.le_refl _, nofun, fun _ => Nat.le_refl _, nofun⟩
  unfold Retries.onReply
  split
  · next value =>
    by_cases hvalue : value = w.call.job.reqState
    · obtain ⟨hlistener, hindex⟩ := hsuits hvalue
      have hack : Acknowledges w.call.job (.state value) := ⟨hlistener.symm, hvalue⟩
      have hended := h.acknowledged hack (hindex hack)
      rw [← hlistener] at hended
      have hif : (if value = (Retries.note call index (.state value) w).call.job.reqState then
          finish .sm .none (Retries.note call index (.state value) w)
          else Retries.note call index (.state value) w) =
          finish .sm .none (Retries.note call index (.state value) w) := if_pos hvalue
      rw [hif]
      exact .ended rfl hended
    · have hif : (if value = (Retries.note call index (.state value) w).call.job.reqState then
          finish .sm .none (Retries.note call index (.state value) w)
          else Retries.note call index (.state value) w) =
          Retries.note call index (.state value) w := if_neg hvalue
      rw [hif]
      exact .waits rfl hnote hcont
  · obtain ⟨hlistener, hindex⟩ := hsuits trivial
    have hack : Acknowledges w.call.job (.acknak true) := ⟨hlistener.symm, rfl⟩
    have hended := h.acknowledged hack (hindex hack)
    rw [← hlistener] at hended
    exact .ended rfl hended
  · obtain ⟨hlistener, -⟩ := hsuits trivial
    have hsender : Sender.chunks =
        (Retries.note call index (.acknak false) w).call.job.sender := hlistener
    rw [hsender]
    obtain ⟨w', hjob, h'⟩ := @Counted.failOne takes _ _ hnote.toCounted hint
    rcases h' with ⟨hsent, hrun⟩ | ⟨hfinished, hrun⟩ | ⟨hcounted, hsent, harmed, hexpired, hrun⟩
    · rw [hrun]
      exact .threw hjob hsent
    · rw [hrun]
      exact .ended hjob hfinished
    · rw [hrun]
      refine .waits hjob ⟨hcounted, ?_⟩ ⟨?_, nofun, fun _ => hexpired.ge, nofun⟩
      · rw [harmed, hexpired]
        exact h.timer
      · rw [hsent]
        exact Nat.le_succ _

/-- The timer of the call that waits has been taken notice of. -/
theorem Counted.taken (h : Counted retryLimit w) : Counted retryLimit
    (w.update w.call.job.sender fun m => { m with expired := m.expired - 1 }) := by
  have hown : (w.update w.call.job.sender fun m => { m with expired := m.expired - 1 }).own =
      { w.own with expired := w.own.expired - 1 } := update_same _
  refine ⟨h.going, h.tame, h.sent, ?_, ?_⟩
  · rw [hown]
    exact h.count
  · rw [hown]
    exact h.within

/-- A timer expires if it is armed. -/
theorem Pending.expire (h : Pending retryLimit w) (who : Sender) :
    Outcome retryLimit (.expire who) w (.ok (if (w.members who).armed then w.update who fun m =>
      { m with armed := false, expired := m.expired + 1 } else w)) := by
  by_cases harmed : (w.members who).armed = true
  · rw [if_pos harmed]
    by_cases hwho : who = w.call.job.sender
    · subst hwho
      have hown : (w.update w.call.job.sender fun m =>
          { m with armed := false, expired := m.expired + 1 }).own =
          { w.own with armed := false, expired := w.own.expired + 1 } := update_same _
      refine .waits rfl ⟨⟨h.going, h.tame, h.sent, ?_, ?_⟩, .inr ?_⟩
        ⟨Nat.le_refl _, nofun, fun _ => ?_, fun _ => ?_⟩
      · rw [hown]
        exact h.count
      · rw [hown]
        exact h.within
      · rw [hown]
        exact Nat.succ_pos _
      · rw [hown]
        exact Nat.le_succ _
      · rw [hown]
        exact Nat.succ_pos _
    · have hown : (w.update who fun m =>
          { m with armed := false, expired := m.expired + 1 }).own = w.own :=
        update_other (Ne.symm hwho) _
      refine .waits rfl ⟨⟨h.going, h.tame, h.sent, ?_, ?_⟩, ?_⟩
        ⟨Nat.le_refl _, nofun, fun _ => ?_, fun hsame => ?_⟩
      · rw [hown]
        exact h.count
      · rw [hown]
        exact h.within
      · rw [hown]
        exact h.timer
      · rw [hown]
      · cases hsame
        exact absurd rfl hwho
  · rw [if_neg harmed]
    refine .waits rfl h ⟨Nat.le_refl _, nofun, fun _ => Nat.le_refl _, fun hsame => ?_⟩
    cases hsame
    exact h.timer.resolve_left harmed

/-- **What an event does** to the call that waits. -/
theorem Pending.handle (h : Pending retryLimit w) (hint : retryLimit < 2 ^ 31 - 1)
    {index : Nat} {event : Event} (hsuits : Suits index w event) :
    Outcome retryLimit event w (handle takes retryLimit index event w) := by
  cases event with
  | reply call reply => exact h.onReply hint hsuits
  | expire who => exact h.expire who
  | fire who =>
    by_cases hexpired : (w.members who).expired = 0
    · have hidle : Retries.handle takes retryLimit index (.fire who) w = .ok w := if_pos hexpired
      rw [hidle]
      refine .waits rfl h ⟨Nat.le_refl _, fun hwho hpos => ?_, fun _ => Nat.le_refl _, nofun⟩
      cases hwho
      exact absurd hexpired (Nat.pos_iff_ne_zero.mp hpos)
    · obtain rfl := hsuits (Nat.pos_of_ne_zero hexpired)
      have hcalled : Retries.handle takes retryLimit index (.fire w.call.job.sender) w =
          onTimeout takes retryLimit w.call.job.sender (w.update w.call.job.sender fun m =>
            { m with expired := m.expired - 1 }) := if_neg hexpired
      rw [hcalled]
      obtain ⟨w', hjob, h'⟩ := @Counted.onTimeout takes _ _ (h.toCounted.taken) hint
      rcases h' with ⟨hsent, hrun⟩ | ⟨hfinished, hrun⟩ | ⟨hpending, hsent, hrun⟩
      · exact hrun ▸ .threw hjob hsent
      · exact hrun ▸ .ended hjob hfinished
      · have hmore : w.call.sent < w'.call.sent := hsent ▸ Nat.lt_succ_self _
        exact hrun ▸ .waits hjob hpending
          ⟨Nat.le_of_lt hmore, fun _ _ => hmore, fun hne => absurd rfl hne, nofun⟩
  | error =>
    have hresult : (onError w).own.result = .network := by
      unfold onError Waiting.own
      cases hsender : w.call.job.sender with
      | sm =>
        show ((finish .chunks .network (finish .sm .network w)).members
          w.call.job.sender).result = _
        rw [hsender]
        rfl
      | chunks =>
        show ((finish .chunks .network (finish .sm .network w)).members
          w.call.job.sender).result = _
        rw [hsender]
        rfl
    refine .ended rfl ⟨rfl, h.tame, h.transmitted, fun hnone => ?_, fun hother => ?_⟩
    · exact absurd (hresult.symm.trans hnone) nofun
    · exact absurd (hresult.symm.trans hother) nofun
  | other =>
    exact .waits rfl h ⟨Nat.le_refl _, nofun, fun _ => Nat.le_refl _, nofun⟩

end

/-! ## The order of the calls -/

section

variable {program}

theorem jobs_succ (i : Nat) : (jobs program)[i + 1]? =
    if i < program.image.length then some (.chunk (UInt8.ofNat i))
    else if i = program.image.length then some .start else none := by
  unfold jobs
  rw [List.cons_append, List.getElem?_cons_succ]
  by_cases hlt : i < program.image.length
  · rw [if_pos hlt, List.getElem?_append_left (by simpa using hlt), List.getElem?_map,
      List.getElem?_range hlt]
    rfl
  · rw [if_neg hlt, List.getElem?_append_right (by simpa using hlt), List.length_map,
      List.length_range]
    by_cases heq : i = program.image.length
    · rw [if_pos heq, heq, Nat.sub_self]
      rfl
    · rw [if_neg heq]
      exact List.getElem?_eq_none (by rw [List.length_singleton]; omega)

theorem nextChunk_jobs (hlen : program.image.length ≤ 255) {i : Nat}
    (hi : i ≤ program.image.length) :
    some (nextChunk program (UInt8.ofNat i)) = (jobs program)[i + 1]? := by
  have htoNat : (UInt8.ofNat i).toNat = i := by
    rw [UInt8.toNat_ofNat']
    omega
  rw [jobs_succ]
  unfold nextChunk
  rw [htoNat]
  by_cases hlt : i < program.image.length
  · rw [if_pos hlt, if_pos hlt]
  · rw [if_neg hlt, if_neg hlt, if_pos (by omega)]

/-- **The main function** goes through the jobs: `chunkId` does not wrap. -/
theorem nextJob_jobs (hlen : program.image.length ≤ 255) {k : Nat} {job : Job}
    (hjob : (jobs program)[k]? = some job) : nextJob program job = (jobs program)[k + 1]? := by
  cases k with
  | zero =>
    cases hjob
    exact nextChunk_jobs hlen (Nat.zero_le _)
  | succ i =>
    rw [jobs_succ] at hjob
    by_cases hlt : i < program.image.length
    · rw [if_pos hlt] at hjob
      cases hjob
      rw [← nextChunk_jobs hlen hlt]
      show some (nextChunk program (UInt8.ofNat i + 1)) = _
      rw [Nat.succ_eq_add_one, UInt8.ofNat_add]
      rfl
    · rw [if_neg hlt] at hjob
      by_cases heq : i = program.image.length
      · rw [if_pos heq] at hjob
        cases hjob
        rw [jobs_succ, if_neg (by omega), if_neg (by omega)]
        rfl
      · rw [if_neg heq] at hjob
        cases hjob

variable (program) in
/-- What a call has done when it has returned. -/
structure Sound (p : Call × SendError) : Prop where
  transmitted : Transmitted program.retryLimit p.1
  success : p.2 = .none → p.1.acknowledged = true
  decided : p.2 ≠ .other

end

variable {takes program} {done : List (Call × SendError)}

variable (program) in
/-- Calls that have returned in the order of the jobs. -/
structure Returned (done : List (Call × SendError)) : Prop where
  order : done.map (fun p => p.1.job) <+: jobs program
  sound : ∀ p ∈ done, Sound program p

/-- A prefix and the next element. -/
theorem prefix_snoc {α : Type*} {l m : List α} {x : α} (h : l <+: m)
    (hx : m[l.length]? = some x) : l ++ [x] <+: m := by
  obtain ⟨rest, rfl⟩ := h
  rw [List.getElem?_append_right (Nat.le_refl _), Nat.sub_self] at hx
  cases rest with
  | nil => cases hx
  | cons head tail =>
    cases hx
    exact ⟨tail, by rw [List.append_assoc]; rfl⟩

theorem Returned.snoc (h : Returned program done) {p : Call × SendError}
    (hjob : (jobs program)[done.length]? = some p.1.job) (hp : Sound program p) :
    Returned program (done ++ [p]) := by
  constructor
  · rw [List.map_append]
    refine prefix_snoc h.order ?_
    rw [List.length_map]
    exact hjob
  · intro q hq
    rcases List.mem_append.mp hq with hq | hq
    · exact h.sound q hq
    · rw [List.mem_singleton.mp hq]
      exact hp

/-- **The invariant**: a call waits after successes, or the program is over after a failure
or after the last job. -/
inductive Inv (program : Program) : Senders → Prop
  | waits {done : List (Call × SendError)} {w : Waiting} (hdone : Returned program done)
      (hall : ∀ p ∈ done, p.2 = .none) (hjob : (jobs program)[done.length]? = some w.call.job)
      (h : Pending program.retryLimit w) : Inv program ⟨done, some w⟩
  | failed {done : List (Call × SendError)} {p : Call × SendError}
      (hdone : Returned program (done ++ [p])) (hall : ∀ p ∈ done, p.2 = .none)
      (hp : p.2 ≠ .none) : Inv program ⟨done ++ [p], none⟩
  | finished {done : List (Call × SendError)} (hdone : Returned program done)
      (hall : ∀ p ∈ done, p.2 = .none)
      (hjobs : done.map (fun p => p.1.job) = jobs program) : Inv program ⟨done, none⟩

/-- A call whose socket throws is the last one. -/
theorem Returned.threw (h : Returned program done) (hall : ∀ p ∈ done, p.2 = .none)
    {call : Call} (hjob : (jobs program)[done.length]? = some call.job)
    (hsent : Transmitted program.retryLimit call) :
    Inv program ⟨done ++ [(call, .network)], none⟩ := by
  have hsound : Sound program (call, .network) := ⟨hsent, nofun, nofun⟩
  exact .failed (h.snoc hjob hsound) hall nofun

/-- **A call begins**: its packet has been sent once. -/
theorem Returned.begin (h : Returned program done) (hall : ∀ p ∈ done, p.2 = .none) {job : Job}
    (hjob : (jobs program)[done.length]? = some job) {w : Waiting} (htame : w.wild = false)
    (hlimit : 0 ≤ program.retryLimit) : Inv program (begin takes job done w) := by
  let fresh : Waiting := { w with call := ⟨job, 0, false⟩ }
  obtain ⟨w', hcall, -, -, hwild, hsend⟩ := @sendPacket_own takes fresh
  have hnew : w'.call.job = job := by rw [hcall]
  have hsent : w'.call.sent = 1 := by rw [hcall]
  unfold Retries.begin
  rcases hsend with hsend | hsend
  · rw [show sendPacket takes job.sender { w with call := ⟨job, 0, false⟩ } = .ok w' from hsend]
    have hown : Waiting.own { (armTimer job.sender w').update job.sender
        fun m => { m with failCount := 0 } with stopped := false } =
        { w'.members job.sender with armed := true, failCount := 0 } := by
      unfold Waiting.own
      show (((armTimer job.sender w').update job.sender fun m =>
        { m with failCount := 0 }).members w'.call.job.sender) = _
      rw [hnew, update_same]
      unfold armTimer
      rw [update_same]
    refine .waits h hall (hjob.trans (congrArg some hnew.symm))
      ⟨⟨rfl, hwild.trans htame, ?_, ?_, ?_⟩, .inl ?_⟩
    · exact hsent.ge
    · rw [hown]
      show (0 : Int) = (w'.call.sent : Int) - 1
      rw [hsent]
      rfl
    · rw [hown]
      exact hlimit
    · rw [hown]
  · rw [show sendPacket takes job.sender { w with call := ⟨job, 0, false⟩ } = .error w' from hsend]
    refine h.threw hall (hjob.trans (congrArg some hnew.symm)) ⟨hsent.ge, ?_⟩
    rw [hsent]
    omega

/-- **A call returns**: the next job begins after a success. -/
theorem Returned.returned (h : Returned program done) (hall : ∀ p ∈ done, p.2 = .none)
    {w : Waiting} (hjob : (jobs program)[done.length]? = some w.call.job)
    (hw : Finished program.retryLimit w) (hlimit : 0 ≤ program.retryLimit)
    (hlen : program.image.length ≤ 255) : Inv program (returned takes program done w) := by
  have hresult : ((w.update w.call.job.sender fun m =>
      { m with armed := false }).members w.call.job.sender).result = w.own.result := by
    rw [update_same]
    rfl
  unfold Retries.returned
  simp only [update_call, hresult]
  have hsound : Sound program (w.call, w.own.result) := ⟨hw.transmitted, hw.success, hw.decided⟩
  have hdone := h.snoc hjob hsound
  by_cases hsuccess : w.own.result = .none
  · rw [if_neg (not_not.mpr hsuccess), nextJob_jobs hlen hjob]
    have hall' : ∀ p ∈ done ++ [(w.call, w.own.result)], p.2 = .none := by
      intro p hp
      rcases List.mem_append.mp hp with hp | hp
      · exact hall p hp
      · rw [List.mem_singleton.mp hp]
        exact hsuccess
    have hlength : (done ++ [(w.call, w.own.result)]).length = done.length + 1 :=
      List.length_append
    cases hnext : (jobs program)[done.length + 1]? with
    | none =>
      -- that was the last job
      refine .finished hdone hall' (hdone.order.eq_of_length_le ?_)
      rw [List.length_map, hlength]
      exact List.getElem?_eq_none_iff.mp hnext
    | some job =>
      refine hdone.begin hall' ?_ hw.tame hlimit
      rw [hlength]
      exact hnext
  · rw [if_pos hsuccess]
    exact .failed hdone hall hsuccess

/-- **Each step** keeps the invariant. -/
theorem Inv.step {s : Senders} (h : Inv program s) (hlimit : 0 ≤ program.retryLimit)
    (hint : program.retryLimit < 2 ^ 31 - 1) (hlen : program.image.length ≤ 255) {event : Event}
    (htimely : Timely s event) : Inv program (step takes program event s) := by
  cases h with
  | waits hdone hall hjob hpending =>
    next done w =>
    show Inv program (settle takes program done
      (handle takes program.retryLimit done.length event w))
    have hout := @Pending.handle takes _ _ hpending hint _ _ (htimely w rfl)
    generalize handle takes program.retryLimit done.length event w = outcome at hout ⊢
    cases hout with
    | threw hsame hsent => exact hdone.threw hall (hjob.trans (congrArg some hsame.symm)) hsent
    | @ended w' hsame hfinished =>
      have hsettle : settle takes program done (.ok w') = returned takes program done w' :=
        if_pos hfinished.stopped
      rw [hsettle]
      exact hdone.returned hall (hjob.trans (congrArg some hsame.symm)) hfinished hlimit hlen
    | @waits w' hsame hpending' hcont =>
      have hsettle : settle takes program done (.ok w') = ⟨done, some w'⟩ :=
        if_neg (Bool.eq_false_iff.mp hpending'.going)
      rw [hsettle]
      exact .waits hdone hall (hjob.trans (congrArg some hsame.symm)) hpending'
  | failed hdone hall hp => exact .failed hdone hall hp
  | finished hdone hall hjobs => exact .finished hdone hall hjobs

/-- What the invariant says of the calls. -/
theorem Inv.bounded {s : Senders} (h : Inv program s) : Bounded program s := by
  have hjobs : ∀ done : List (Call × SendError),
      (done.map Prod.fst).map Call.job = done.map fun p => p.1.job := fun done => List.map_map
  cases h with
  | waits hdone hall hjob hpending =>
    next done w =>
    have hcalls : Senders.calls ⟨done, some w⟩ = done.map Prod.fst ++ [w.call] := rfl
    refine ⟨?_, ?_, fun p hp => (hdone.sound p hp).success, fun p hp => (hdone.sound p hp).decided,
      ?_, nofun, ?_⟩
    · rw [hcalls, List.map_append, hjobs]
      refine prefix_snoc hdone.order ?_
      rw [List.length_map]
      exact hjob
    · intro call hcall
      rw [hcalls] at hcall
      rcases List.mem_append.mp hcall with hcall | hcall
      · obtain ⟨p, hp, rfl⟩ := List.mem_map.mp hcall
        exact (hdone.sound p hp).transmitted
      · rw [List.mem_singleton.mp hcall]
        exact hpending.transmitted
    · rintro earlier p later hsplit hp
      refine absurd (hall p ?_) hp
      rw [show done = earlier ++ p :: later from hsplit]
      exact List.mem_append_right _ List.mem_cons_self
    · rintro _ ⟨⟩
      exact hpending.tame
  | failed hdone hall hp =>
    next done p =>
    have hcalls : Senders.calls ⟨done ++ [p], none⟩ = (done ++ [p]).map Prod.fst :=
      List.append_nil _
    refine ⟨?_, ?_, fun p hp => (hdone.sound p hp).success, fun p hp => (hdone.sound p hp).decided,
      ?_, ?_, nofun⟩
    · rw [hcalls, hjobs]
      exact hdone.order
    · intro call hcall
      rw [hcalls] at hcall
      obtain ⟨p, hp, rfl⟩ := List.mem_map.mp hcall
      exact (hdone.sound p hp).transmitted
    · intro earlier q later hsplit hq
      refine ⟨?_, rfl⟩
      rcases List.eq_nil_or_concat later with rfl | ⟨front, last, rfl⟩
      · rfl
      · -- else the failed call would be among the successes
        rw [List.concat_eq_append, ← List.cons_append, ← List.append_assoc] at hsplit
        obtain ⟨hdone', -⟩ := List.append_inj' hsplit rfl
        refine absurd (hall q ?_) hq
        rw [hdone']
        exact List.mem_append_right _ List.mem_cons_self
    · exact fun _ hnone => absurd (hnone p (List.mem_append_right _ List.mem_cons_self)) hp
  | finished hdone hall hall' =>
    next done =>
    have hcalls : Senders.calls ⟨done, none⟩ = done.map Prod.fst := List.append_nil _
    refine ⟨?_, ?_, fun p hp => (hdone.sound p hp).success, fun p hp => (hdone.sound p hp).decided,
      ?_, fun _ _ => ?_, nofun⟩
    · rw [hcalls, hjobs]
      exact hdone.order
    · intro call hcall
      rw [hcalls] at hcall
      obtain ⟨p, hp, rfl⟩ := List.mem_map.mp hcall
      exact (hdone.sound p hp).transmitted
    · rintro earlier p later hsplit hp
      refine absurd (hall p ?_) hp
      rw [show done = earlier ++ p :: later from hsplit]
      exact List.mem_append_right _ List.mem_cons_self
    · rw [hcalls, hjobs]
      exact hall'

theorem init_inv (hlimit : 0 ≤ program.retryLimit) (members : Sender → Members) :
    Inv program (init takes members) :=
  have hnone : Returned program [] := ⟨List.nil_prefix, fun _ hp => absurd hp List.not_mem_nil⟩
  hnone.begin (fun _ hp => absurd hp List.not_mem_nil) rfl rfl hlimit

/-! ## Every call ends -/

theorem length_begin (job : Job) (w : Waiting) :
    done.length ≤ (begin takes job done w).done.length := by
  unfold begin
  split
  · rw [List.length_append]
    exact Nat.le_add_right _ _
  · exact Nat.le_refl _

theorem length_returned (w : Waiting) :
    done.length < (returned takes program done w).done.length := by
  unfold returned
  simp only
  split
  · rw [List.length_append]
    exact Nat.lt_succ_self _
  · split
    · rw [List.length_append]
      exact Nat.lt_succ_self _
    · refine Nat.lt_of_lt_of_le ?_ (length_begin _ _)
      rw [List.length_append]
      exact Nat.lt_succ_self _

/-- A call that waits returns, or waits on. -/
theorem Inv.progress {w : Waiting} (h : Inv program ⟨done, some w⟩)
    (hint : program.retryLimit < 2 ^ 31 - 1) {event : Event} (htimely : Timely ⟨done, some w⟩ event) :
    done.length < (Retries.step takes program event ⟨done, some w⟩).done.length ∨
      ∃ w', Retries.step takes program event ⟨done, some w⟩ = ⟨done, some w'⟩ ∧
        w'.call.job = w.call.job ∧ Continues event w w' := by
  cases h with
  | waits hdone hall hjob hpending =>
    show done.length < (settle takes program done
        (handle takes program.retryLimit done.length event w)).done.length ∨
      ∃ w', settle takes program done (handle takes program.retryLimit done.length event w) =
        ⟨done, some w'⟩ ∧ w'.call.job = w.call.job ∧ Continues event w w'
    have hout := @Pending.handle takes _ _ hpending hint _ _ (htimely w rfl)
    generalize handle takes program.retryLimit done.length event w = outcome at hout ⊢
    cases hout with
    | threw hsame hsent =>
      refine .inl ?_
      show done.length < (done ++ [_]).length
      rw [List.length_append]
      exact Nat.lt_succ_self _
    | @ended w' hsame hfinished =>
      have hsettle : settle takes program done (.ok w') = returned takes program done w' :=
        if_pos hfinished.stopped
      rw [hsettle]
      exact .inl (length_returned w')
    | @waits w' hsame hpending' hcont =>
      exact .inr ⟨w', if_neg (Bool.eq_false_iff.mp hpending'.going), hsame, hcont⟩

/-- An infinite run, whose events suit the call that waits. -/
def Path (takes : Nat → Bool) (program : Program) (r : Nat → Senders) (a : Nat → Event) : Prop :=
  ∀ n, r (n + 1) = step takes program (a n) (r n) ∧ Timely (r n) (a n)

/-- The timer of the sender that waits expires again and again, and again and again its
handler is called. -/
structure Fair (r : Nat → Senders) (a : Nat → Event) : Prop where
  expires : InfinitelyOften fun n => ∀ w, (r n).waiting = some w → a n = .expire w.call.job.sender
  fires : InfinitelyOften fun n => ∀ w, (r n).waiting = some w → a n = .fire w.call.job.sender

section

variable {r : Nat → Senders} {a : Nat → Event}

theorem Path.inv (h : Path takes program r a) (h₀ : Inv program (r 0))
    (hlimit : 0 ≤ program.retryLimit) (hint : program.retryLimit < 2 ^ 31 - 1)
    (hlen : program.image.length ≤ 255) (n : Nat) : Inv program (r n) := by
  induction n with
  | zero => exact h₀
  | succ n ih =>
    rw [(h n).1]
    exact ih.step hlimit hint hlen (h n).2

/-- The handler of an expired timer is called, as long as the call waits. -/
theorem Path.infinitelyOften_fires (h : Path takes program r a) (hinv : ∀ n, Inv program (r n))
    (hint : program.retryLimit < 2 ^ 31 - 1) (hfair : Fair r a) (done : List (Call × SendError)) :
    InfinitelyOften fun n => ∀ w, r n = ⟨done, some w⟩ →
      a n = .fire w.call.job.sender ∧ 0 < w.own.expired := by
  intro n
  by_contra hnever
  -- else the call waits for ever
  have hwaits : ∀ m, n ≤ m → ∃ w, r m = ⟨done, some w⟩ ∧
      ¬(a m = .fire w.call.job.sender ∧ 0 < w.own.expired) := by
    intro m hm
    by_contra hnone
    refine hnever ⟨m, hm, fun w hw => ?_⟩
    by_contra hnot
    exact hnone ⟨w, hw, hnot⟩
  have hnext : ∀ m, n ≤ m → ∀ w, r m = ⟨done, some w⟩ →
      ∃ w', r (m + 1) = ⟨done, some w'⟩ ∧ w'.call.job = w.call.job ∧ Continues (a m) w w' := by
    intro m hm w hw
    obtain ⟨hstep, htimely⟩ := h m
    have hnow := hinv m
    rw [hw] at hstep htimely hnow
    rcases @Inv.progress takes _ _ _ hnow hint _ htimely with hlt | ⟨w', hw', hjob, hcont⟩
    · obtain ⟨w', hw', -⟩ := hwaits (m + 1) (by omega)
      rw [← hstep, hw'] at hlt
      exact absurd hlt (Nat.lt_irrefl _)
    · exact ⟨w', hstep.trans hw', hjob, hcont⟩
  obtain ⟨m, hnm, hexpires⟩ := hfair.expires n
  have hexpired : ∀ k, ∃ w, r (m + 1 + k) = ⟨done, some w⟩ ∧ 0 < w.own.expired := by
    intro k
    induction k with
    | zero =>
      obtain ⟨w, hw, -⟩ := hwaits m hnm
      obtain ⟨w', hw', -, hcont⟩ := hnext m hnm w hw
      exact ⟨w', hw', hcont.expires (hexpires w (by rw [hw]))⟩
    | succ k ih =>
      obtain ⟨w, hw, hpos⟩ := ih
      obtain ⟨v, hv, hnot⟩ := hwaits (m + 1 + k) (by omega)
      cases hw.symm.trans hv
      obtain ⟨w', hw', -, hcont⟩ := hnext (m + 1 + k) (by omega) w hw
      exact ⟨w', hw', Nat.lt_of_lt_of_le hpos (hcont.kept fun hfire => hnot ⟨hfire, hpos⟩)⟩
  obtain ⟨k, hmk, hfires⟩ := hfair.fires (m + 1)
  obtain ⟨j, rfl⟩ := Nat.exists_eq_add_of_le hmk
  obtain ⟨w, hw, hpos⟩ := hexpired j
  obtain ⟨v, hv, hnot⟩ := hwaits (m + 1 + j) (by omega)
  cases hw.symm.trans hv
  exact hnot ⟨hfires w (by rw [hw]), hpos⟩

/-- **Each call ends**: a timeout is a failure, and it has so many of them only. -/
theorem Path.returns (h : Path takes program r a) (hinv : ∀ n, Inv program (r n))
    (hint : program.retryLimit < 2 ^ 31 - 1) (hfair : Fair r a) (done : List (Call × SendError)) :
    LeadsTo (fun n => ∃ w, r n = ⟨done, some w⟩) (fun n => done.length < (r n).done.length) := by
  refine leadsTo_of_helpful
    (fun n => ((r n).waiting.map fun w => program.retryLimit.toNat + 1 - w.call.sent).getD 0)
    (h.infinitelyOften_fires hinv hint hfair done) fun n ⟨w, hw⟩ => ?_
  obtain ⟨hstep, htimely⟩ := h n
  have hnow := hinv n
  have hthen := hinv (n + 1)
  rw [hw] at hstep htimely hnow
  rcases @Inv.progress takes _ _ _ hnow hint _ htimely with hlt | ⟨w', hw', hjob, hcont⟩
  · rw [← hstep] at hlt
    exact .inl hlt
  · have hr := hstep.trans hw'
    rw [hr] at hthen
    refine .inr ⟨⟨w', hr⟩, ?_, fun hhelpful => ?_⟩
    · rw [hr, hw]
      have hle := hcont.sent_le
      show program.retryLimit.toNat + 1 - w'.call.sent ≤
        program.retryLimit.toNat + 1 - w.call.sent
      omega
    · rw [hr, hw]
      obtain ⟨hfire, hpos⟩ := hhelpful w hw
      have hlt := hcont.fired hfire hpos
      have hbound := (hthen.bounded.transmitted w'.call
        (List.mem_append_right _ List.mem_cons_self)).2
      show program.retryLimit.toNat + 1 - w'.call.sent <
        program.retryLimit.toNat + 1 - w.call.sent
      omega

/-- **The program ends.** -/
theorem Path.ends (h : Path takes program r a) (hinv : ∀ n, Inv program (r n))
    (hint : program.retryLimit < 2 ^ 31 - 1) (hfair : Fair r a) (n : Nat) :
    ∃ m, n ≤ m ∧ (r m).waiting = none := by
  induction hleft : (jobs program).length - (r n).done.length using Nat.strongRecOn
    generalizing n with
  | ind left ih =>
    have hnow := hinv n
    cases hr : r n with
    | mk done waiting =>
      cases waiting with
      | none => exact ⟨n, Nat.le_refl n, by rw [hr]⟩
      | some w =>
        obtain ⟨m, hnm, hlt⟩ := h.returns hinv hint hfair done n ⟨w, hr⟩
        rw [hr] at hnow hleft
        have hwaits : done.length < (jobs program).length := by
          cases hnow with
          | waits hdone hall hjob hpending => exact (List.getElem?_eq_some_iff.mp hjob).1
        obtain ⟨k, hmk, hk⟩ := ih _ (by
          rw [← hleft]
          exact Nat.sub_lt_sub_left hwaits hlt) m rfl
        exact ⟨k, Nat.le_trans hnm hmk, hk⟩

end

/-- **Bounded retries**, when every handler acts for the call that waits: in every run each
call transmits its packet at most `retryLimit + 1` times and succeeds only if its request has
been acknowledged, the chunks go out in order and once until the first failure, and where the
timers run each call returns and the program ends. -/
theorem retries_bounded (takes : Nat → Bool) (program : Program) (members : Sender → Members)
    (hlimit : 0 ≤ program.retryLimit) (hint : program.retryLimit < 2 ^ 31 - 1)
    (hlen : program.image.length ≤ 255) :
    (∀ events, Meets (step takes program) Timely (init takes members) events →
      Bounded program (run (step takes program) (init takes members) events)) ∧
    ∀ r a, r 0 = init takes members → Path takes program r a → Fair r a →
      (∀ n w, (r n).waiting = some w → ∃ m, n ≤ m ∧ (r n).done.length < (r m).done.length) ∧
      ∃ n, (r n).waiting = none := by
  have hinit := @init_inv takes program hlimit members
  constructor
  · intro events hmeets
    refine (run_invariant (fun s event h hok => ?_) hinit hmeets).bounded
    exact h.step hlimit hint hlen hok
  · intro r a h₀ hpath hfair
    have hinv := hpath.inv (h₀ ▸ hinit) hlimit hint hlen
    refine ⟨fun n w hw => ?_, ?_⟩
    · obtain ⟨m, hnm, hlt⟩ := hpath.returns hinv hint hfair (r n).done n ⟨w, by rw [← hw]⟩
      exact ⟨m, hnm, hlt⟩
    · obtain ⟨m, -, hm⟩ := hpath.ends hinv hint hfair 0
      exact ⟨m, hm⟩

/-! ## Two uploads -/

theorem length_zeros : (List.replicate 64 (0 : UInt8)).length = 64 := List.length_replicate

/-- An image of two chunks. -/
def twoChunks : Program := ⟨List.replicate 2 ⟨List.replicate 64 0, length_zeros⟩, 3⟩

/-- The members of both senders before the first call. -/
def unset : Sender → Members := fun _ => ⟨0, .other, false, 0⟩

/-- The state after some events of an upload. -/
def twoChunksRun (events : List Event) : Senders :=
  run (step (fun _ => true) twoChunks) (init (fun _ => true) unset) events

/-- The device answers every request at once. -/
def answered : List Event :=
  [.reply 0 (.state 0), .reply 1 (.acknak true), .reply 2 (.acknak true), .reply 3 (.state 1)]

theorem answered_over (n : Nat) : (twoChunksRun (answered.take (n + 4))).waiting = none := by
  rw [List.take_of_length_le (show answered.length ≤ n + 4 from Nat.le_add_left 4 n)]
  rfl

theorem answered_timely :
    Meets (step (fun _ => true) twoChunks) Timely (init (fun _ => true) unset) answered := by
  refine ⟨?_, ?_, ?_, ?_, trivial⟩
  · rintro _ ⟨⟩ -
    exact ⟨rfl, fun _ => rfl⟩
  · rintro _ ⟨⟩ -
    exact ⟨rfl, fun _ => rfl⟩
  · rintro _ ⟨⟩ -
    exact ⟨rfl, fun _ => rfl⟩
  · rintro _ ⟨⟩ -
    exact ⟨rfl, fun _ => rfl⟩

theorem answered_path : Path (fun _ => true) twoChunks
    (fun n => twoChunksRun (answered.take n)) fun n => answered.getD n .other := by
  intro n
  match n with
  | 0 => exact ⟨rfl, answered_timely.1⟩
  | 1 => exact ⟨rfl, answered_timely.2.1⟩
  | 2 => exact ⟨rfl, answered_timely.2.2.1⟩
  | 3 => exact ⟨rfl, answered_timely.2.2.2.1⟩
  | n + 4 =>
    have hover := answered_over n
    have hsame : answered.take (n + 4 + 1) = answered.take (n + 4) := by
      rw [List.take_of_length_le (show answered.length ≤ n + 4 from Nat.le_add_left 4 n),
        List.take_of_length_le (show answered.length ≤ n + 4 + 1 from Nat.le_add_left 4 (n + 1))]
    refine ⟨?_, fun w hw => absurd (hover.symm.trans hw) nofun⟩
    simp only [hsame]
    unfold step
    rw [hover]

/-- The device answers every request, and the upload ends. -/
theorem answered_bounded : Bounded twoChunks (twoChunksRun answered) ∧
    ∃ n, (twoChunksRun (answered.take n)).waiting = none := by
  have hbounded := retries_bounded (fun _ => true) twoChunks unset (by decide) (by decide)
    (by decide)
  refine ⟨hbounded.1 answered answered_timely,
    (hbounded.2 _ _ rfl answered_path ⟨fun n => ?_, fun n => ?_⟩).2⟩
  · exact ⟨n + 4, Nat.le_add_right n 4, fun w hw => absurd ((answered_over n).symm.trans hw) nofun⟩
  · exact ⟨n + 4, Nat.le_add_right n 4, fun w hw => absurd ((answered_over n).symm.trans hw) nofun⟩

/-- The device answers the first query late, so it is sent twice; the second answer comes when
the second chunk waits for its own. -/
def answeredLate : List Event :=
  [.expire .sm, .fire .sm, .reply 0 (.state 0), .reply 1 (.acknak true), .reply 0 (.state 0)]

/-- **A late reply** ends the wait for the second chunk: `send` returns the success of the
first one, and nobody has acknowledged the second. -/
theorem answeredLate_unbounded : (⟨.chunk 1, 1, false⟩, SendError.none) ∈
    (twoChunksRun answeredLate).done ∧ ¬ Bounded twoChunks (twoChunksRun answeredLate) := by
  have hdone : (⟨.chunk 1, 1, false⟩, SendError.none) ∈ (twoChunksRun answeredLate).done :=
    .tail _ (.tail _ (.head _))
  exact ⟨hdone, fun h => absurd (h.success _ hdone rfl) nofun⟩

end Hexabus.Upload.Retries
