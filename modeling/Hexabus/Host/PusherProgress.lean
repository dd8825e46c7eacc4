import Hexabus.Host.PacketPusher

/-!
# Runs of the packet pusher

No device is stuck at any point of a run exactly if the socket takes every identification
query. Where time goes on and the I/O service gets to its handlers, the query of a device that
is recorded ends with one of its callbacks.
-/

namespace Hexabus.Host.Hexanode

open Hexinfo Lib.Fairness

variable (env : Environment) (a : Nat → Step)

/-- The pusher after each of the steps. -/
def states : Nat → Pusher
  | 0 => init
  | m + 1 => step env (a m) (states m)

/-- The timer expires and the I/O service runs handlers of the timer again and again, and the
clock passes every time. -/
structure Fair : Prop where
  expires : InfinitelyOften fun m => (states env a m).info.Idle ∧ a m = .io .expire
  dispatches : InfinitelyOften fun m => (states env a m).info.Idle ∧
    ∃ sendOk, a m = .io (.dispatch sendOk)
  clock : ∀ t, ∃ m₀, ∀ m, m₀ ≤ m → ∀ sender packet sending,
    a m = .push sender packet sending → t ≤ sending.now

variable {env a}

theorem linked_states (h : ∀ m, Sends env (states env a m) (a m)) (m : Nat) :
    Linked (states env a m) := by
  induction m with
  | zero => exact linked_init
  | succ m ih => exact ih.step (h m)

/-- As long as nobody is stuck, every query has been taken. -/
theorem sends_of_notStuck (h : ∀ m, NotStuck env (states env a m)) (m : Nat) :
    Linked (states env a m) ∧ Sends env (states env a m) (a m) := by
  have hsends : ∀ m, Linked (states env a m) → Sends env (states env a m) (a m) := by
    intro m hlinked
    cases hstep : a m with
    | io b => trivial
    | push sender packet sending =>
      intro hidle hasks
      by_contra hsend
      refine stuck_of_refused hlinked hidle hasks (Bool.eq_false_of_not_eq_true hsend) ?_
      have hnext := h (m + 1)
      rw [states, hstep] at hnext
      exact hnext
  have hlinked : Linked (states env a m) := by
    induction m with
    | zero => exact linked_init
    | succ m ih => exact ih.step (hsends m ih)
  exact ⟨hlinked, hsends m hlinked⟩

/-! ## The interrogator in a run -/

/-- What a step of the pusher is for the interrogator. -/
structure Projects (p : Pusher) (b : Step) (info : DeviceInterrogator Packet Address Address)
    (o : Option (DeviceInterrogator.Step Packet Address Address)) : Prop where
  next : info = o.elim p.info fun s => DeviceInterrogator.step s p.info
  harmless : ∀ s, o = some s → p.info.Harmless s
  passive : ∀ s : DeviceInterrogator.Step Packet Address Address, s.passive = true → b = .io s →
    o = some s
  queue : ∀ req now sendOk spare, o = some (.queue req now sendOk spare) →
    ∃ sender packet sending, b = .push sender packet sending ∧ now = sending.now

theorem projects_step {p : Pusher} (h : Linked p) {b : Step} (hsends : Sends env p b) :
    ∃ o, Projects p b (step env b p).info o := by
  cases b with
  | io s =>
    by_cases hpassive : s.passive = true
    · refine ⟨some s, ?_, ?_, ?_, ?_⟩
      · show (if s.passive then p.io (callbacks env) s else p).info = _
        rw [if_pos hpassive]
        rfl
      · rintro s' ⟨⟩
        exact DeviceInterrogator.harmless_passive hpassive
      · rintro s' - ⟨⟩
        rfl
      · rintro req now sendOk spare ⟨⟩
        cases hpassive
    · refine ⟨none, ?_, ?_, ?_, ?_⟩
      · show (if s.passive then p.io (callbacks env) s else p).info = _
        rw [if_neg hpassive]
        rfl
      · rintro s' ⟨⟩
      · rintro s' hs' ⟨⟩
        exact absurd hs' hpassive
      · rintro req now sendOk spare ⟨⟩
  | push sender packet sending =>
    have hquiet : (step env (.push sender packet sending) p).info = p.info →
        ∃ o, Projects p (.push sender packet sending)
          (step env (.push sender packet sending) p).info o := by
      intro hsame
      refine ⟨none, hsame, ?_, ?_, ?_⟩
      · rintro s' ⟨⟩
      · rintro s' - ⟨⟩
      · rintro req now sendOk spare ⟨⟩
    by_cases hidle : p.info.Idle
    · have hstep : step env (.push sender packet sending) p = push env sender packet sending p :=
        if_pos hidle
      rcases info_push env sender packet sending p with
        ⟨hasks, eid, value, q, hsame, hq, hpush, -⟩ | ⟨-, hinfo⟩
      · have hsend := hsends hidle hasks
        refine ⟨some (.queue (identification sender) sending.now true sending.spare), ?_, ?_, ?_, ?_⟩
        · rw [hstep, hpush, (identify_sent env eid value hq hsend).1, hsame.info]
          show _ = DeviceInterrogator.step
            (.queue (identification sender) sending.now true sending.spare) p.info
          unfold DeviceInterrogator.step
          rw [if_neg (by rw [h.sound.info.1]; exact Bool.false_ne_true)]
        · rintro s' ⟨⟩ -
          refine ⟨show (1 : Int) ≤ 5 by decide, ?_⟩
          rw [hidle.1]
          trivial
        · rintro s' - ⟨⟩
        · rintro req now sendOk spare ⟨⟩
          exact ⟨sender, packet, sending, rfl, rfl⟩
      · exact hquiet (by rw [hstep, hinfo])
    · refine hquiet ?_
      show (if p.info.Idle then push env sender packet sending p else p).info = _
      rw [if_neg hidle]

/-- **Every query ends** with one of its callbacks. -/
theorem ends_of_fair (hfair : Fair env a) (h : ∀ m, Sends env (states env a m) (a m)) {m n : Nat}
    {device : Address} (hn : (states env a m).Pending n device) :
    ∃ k, m ≤ k ∧ 0 < answered (states env a k).info.trace n := by
  choose o ho using fun m => projects_step (linked_states h m) (h m)
  have hrun : DeviceInterrogator.InfiniteRun (fun m => (states env a m).info) o := by
    refine ⟨rfl, fun m => (ho m).next, fun m s hs => (ho m).harmless s hs⟩
  have hrunFair : DeviceInterrogator.Fair (fun m => (states env a m).info) o := by
    refine ⟨fun m => ?_, fun m => ?_, fun t => ?_⟩
    · obtain ⟨k, hk, hidle, hstep⟩ := hfair.expires m
      exact ⟨k, hk, hidle, (ho k).passive _ rfl hstep⟩
    · obtain ⟨k, hk, hidle, sendOk, hstep⟩ := hfair.dispatches m
      exact ⟨k, hk, hidle, sendOk, (ho k).passive _ rfl hstep⟩
    · obtain ⟨m₀, hclock⟩ := hfair.clock t
      refine ⟨m₀, fun m hm req now sendOk spare hqueue => ?_⟩
      obtain ⟨sender, packet, sending, hstep, rfl⟩ := (ho m).queue req now sendOk spare hqueue
      exact hclock m hm sender packet sending hstep
  have hlt : n < (states env a m).info.requests.length := by
    rw [← (linked_states h m).sound.bound]
    exact (List.getElem?_eq_some_iff.mp hn.1).1
  exact DeviceInterrogator.answered_of_fair hrun hrunFair n m hlt

/-- **When the pusher never gets stuck**: exactly if the socket takes every identification query
that a push makes. Then every query that is outstanding ends with a response or a failure. -/
theorem neverStuck_iff (env : Environment) (a : Nat → Step) :
    ((∀ m, NotStuck env (states env a m)) ↔ ∀ m, Sends env (states env a m) (a m)) ∧
    (Fair env a → (∀ m, Sends env (states env a m) (a m)) → ∀ m device eid,
      Recorded (states env a m) device eid → ∃ n, (states env a m).Pending n device ∧
        ∃ k, m ≤ k ∧ 0 < answered (states env a k).info.trace n) := by
  refine ⟨⟨fun h m => (sends_of_notStuck h m).2, fun h m => (linked_states h m).notStuck⟩, ?_⟩
  intro hfair h m device eid hrecorded
  have hnot : NotStuck env (states env a m) := (linked_states h m).notStuck
  obtain ⟨n, hn⟩ := hnot.outstanding device eid hrecorded
  exact ⟨n, hn, ends_of_fair hfair h hn⟩

/-- A pusher without a registry, where the web server takes everything. -/
def plainServer : Environment where
  epRegistry _ := none
  addressText addr := addr.val
  valueText _ := []
  reply _ := .ok

theorem talkerBytes_length : (List.replicate 16 (1 : UInt8)).length = 16 := List.length_replicate

def talker : Address := ⟨List.replicate 16 1, talkerBytes_length⟩

/-- A device tells a temperature, and the query for its name is refused. -/
def refusedRun : Nat → Step
  | 0 => .push talker (.info 3 (.float 0) 0) ⟨0, false, 0⟩
  | _ + 1 => .io .expire

/-- The device is stuck from then on. -/
theorem refusedRun_stuck : ¬ ∀ m, NotStuck plainServer (states plainServer refusedRun m) := by
  intro h
  have hasks : Asks plainServer init talker (.info 3 (.float 0) 0) :=
    ⟨3, .float 0, rfl, ⟨rfl, .inl rfl⟩, rfl⟩
  exact stuck_of_refused linked_init ⟨rfl, rfl⟩ hasks rfl (h 1)

/-! ## A run in which a device does not answer -/

/-- The query is taken; then the timer expires, its handler is run and the callback returns,
again and again. -/
def silentRun : Nat → Step
  | 0 => .push talker (.info 3 (.float 0) 0) ⟨0, true, 0⟩
  | m + 1 =>
    if m % 3 = 0 then .io .expire
    else if m % 3 = 1 then .io (.dispatch true)
    else .io .callbackReturns

theorem silentRun_sends (m : Nat) :
    Sends plainServer (states plainServer silentRun m) (silentRun m) := by
  cases m with
  | zero => exact fun _ _ => rfl
  | succ m =>
    show Sends plainServer _ (if m % 3 = 0 then .io .expire
      else if m % 3 = 1 then .io (.dispatch true) else .io .callbackReturns)
    split
    · trivial
    · split <;> trivial

theorem idle_timeout {w : DeviceInterrogator Packet Address Address} (h : w.Idle)
    (err sendOk : Bool) : (w.timeout err sendOk).rejections = 0 ∧
      ((w.timeout err sendOk).handler = none ∨ (w.timeout err sendOk).handler = some .timeout) := by
  unfold DeviceInterrogator.timeout
  split
  · exact ⟨h.2, .inl h.1⟩
  · dsimp only
    split
    · exact ⟨h.2, .inl h.1⟩
    · split
      · exact ⟨h.2, .inr rfl⟩
      · split
        · refine ⟨?_, .inl ?_⟩
          · rw [DeviceInterrogator.rejections_rescheduleTimer]
            exact h.2
          · rw [DeviceInterrogator.handler_rescheduleTimer]
            exact h.1
        · exact ⟨h.2, .inr rfl⟩

theorem idle_callbackReturns {w : DeviceInterrogator Packet Address Address}
    (hrejections : w.rejections = 0) (hhandler : w.handler = none ∨ w.handler = some .timeout) :
    w.callbackReturns.Idle := by
  unfold DeviceInterrogator.callbackReturns
  rw [if_neg (by omega)]
  rcases hhandler with hnone | htimeout
  · simp only [hnone]
    exact ⟨hnone, hrejections⟩
  · simp only [htimeout]
    refine ⟨?_, ?_⟩
    · rw [DeviceInterrogator.handler_rescheduleTimer]
    · rw [DeviceInterrogator.rejections_rescheduleTimer]
      exact hrejections

theorem silentRun_succ (m : Nat) : silentRun (m + 1) =
    if m % 3 = 0 then .io .expire
    else if m % 3 = 1 then .io (.dispatch true)
    else .io .callbackReturns := rfl

theorem info_states_succ {m : Nat} {s : DeviceInterrogator.Step Packet Address Address}
    (hpassive : s.passive = true) (hstep : silentRun m = .io s) :
    (states plainServer silentRun (m + 1)).info =
      DeviceInterrogator.step s (states plainServer silentRun m).info := by
  show (step plainServer (silentRun m) (states plainServer silentRun m)).info = _
  rw [hstep]
  show (if s.passive then _ else _ : Pusher).info = _
  rw [if_pos hpassive]
  rfl

/-- The state in which the timer expires is idle, and the one in which its handler is run. -/
theorem silentRun_idle (m : Nat) : (states plainServer silentRun (3 * m + 1)).info.Idle ∧
    (states plainServer silentRun (3 * m + 2)).info.Idle := by
  have hdefined : ∀ m, ¬ (states plainServer silentRun m).info.undefinedBehaviour = true :=
    fun m => by
      rw [(linked_states silentRun_sends m).sound.info.1]
      exact Bool.false_ne_true
  have hexpire : ∀ m, (states plainServer silentRun (3 * m + 1)).info.Idle →
      (states plainServer silentRun (3 * m + 2)).info.Idle := by
    intro m hidle
    rw [info_states_succ (s := .expire) rfl (by rw [silentRun_succ, if_pos (by omega)])]
    unfold DeviceInterrogator.step
    rw [if_neg (hdefined _)]
    show (if _ then _ else _ : DeviceInterrogator Packet Address Address).Idle
    rw [if_pos hidle]
    exact hidle
  have hround : ∀ m, (states plainServer silentRun (3 * m + 2)).info.Idle →
      (states plainServer silentRun (3 * m + 4)).info.Idle := by
    intro m hidle
    have hserved : (states plainServer silentRun (3 * m + 3)).info.rejections = 0 ∧
        ((states plainServer silentRun (3 * m + 3)).info.handler = none ∨
          (states plainServer silentRun (3 * m + 3)).info.handler = some .timeout) := by
      rw [info_states_succ (s := .dispatch true) rfl
        (by rw [silentRun_succ, if_neg (by omega), if_pos (by omega)])]
      unfold DeviceInterrogator.step
      rw [if_neg (hdefined _)]
      cases hposted : (states plainServer silentRun (3 * m + 2)).info.timer.posted with
      | nil => exact ⟨hidle.2, .inl hidle.1⟩
      | cons err posted =>
        dsimp only
        rw [if_pos hidle]
        refine @idle_timeout { (states plainServer silentRun (3 * m + 2)).info with
          timer := { (states plainServer silentRun (3 * m + 2)).info.timer with
            posted := posted } } ?_ err true
        exact hidle
    rw [info_states_succ (s := .callbackReturns) rfl
      (by rw [silentRun_succ, if_neg (by omega), if_neg (by omega)])]
    unfold DeviceInterrogator.step
    rw [if_neg (hdefined _)]
    exact idle_callbackReturns hserved.1 hserved.2
  have hfirst : (states plainServer silentRun (3 * m + 1)).info.Idle := by
    induction m with
    | zero => decide
    | succ m ih => exact hround m (hexpire m ih)
  exact ⟨hfirst, hexpire m hfirst⟩

theorem silentRun_fair : Fair plainServer silentRun where
  expires m := by
    refine ⟨3 * m + 1, by omega, (silentRun_idle m).1, ?_⟩
    rw [silentRun_succ, if_pos (by omega)]
  dispatches m := by
    refine ⟨3 * m + 2, by omega, (silentRun_idle m).2, true, ?_⟩
    rw [silentRun_succ, if_neg (by omega), if_pos (by omega)]
  clock t := by
    refine ⟨1, fun m hm sender packet sending hstep => ?_⟩
    obtain ⟨m, rfl⟩ := Nat.exists_eq_add_of_le' hm
    rw [silentRun_succ] at hstep
    split at hstep
    · cases hstep
    · split at hstep <;> cases hstep

/-- The query of the silent device ends. -/
theorem silentRun_ends : ∃ n,
    (states plainServer silentRun 1).Pending n talker ∧
      ∃ k, 1 ≤ k ∧ 0 < answered (states plainServer silentRun k).info.trace n :=
  (neverStuck_iff plainServer silentRun).2 silentRun_fair silentRun_sends 1 _ 3
    ⟨[(3, [])], [], rfl, List.mem_singleton_self _⟩

end Hexabus.Host.Hexanode
