import Hexabus.Firmware.Scheduling
import Hexabus.Lib.Runs

/-!
# Whether the clock keeps ticking

As long as no update arrives between the expiry of the update timer and its handling, the
timer stays with the datetime service, and on a fair schedule the service counts one
second after the other. An update in that gap hands the timer to the network process, for
good.
-/

namespace Hexabus.Firmware.Timing

open Lib.Runs Lib.Fairness

/-! ## What has to hold -/

/-- The update timer runs for the datetime service or its expiry is on the way there, and
the time is invalid once more than `VALID_TIME` seconds have been counted since the last
update. -/
structure KeepsTicking (s : Clock) : Prop where
  scheduled : Waiting s.kernel ∨ Posted s.kernel
  invalid : validTime < s.sinceUpdate → s.timeValid = false

/-- No update arrives while the timer has expired and is not yet set again. -/
def OutsideGap (s : Clock) (a : ClockStep) : Prop :=
  ∀ dt, a = .update dt → (s.kernel.timers .updateTimer).p ≠ none

/-- An infinite run. -/
structure Path (r : Nat → Clock) (a : Nat → ClockStep) : Prop where
  next : ∀ n, r (n + 1) = clockStep (a n) (r n)
  outside : ∀ n, OutsideGap (r n) (a n)

/-- How long the update timer has been running. -/
def elapsed (k : Kernel) : UInt16 := k.count - (k.timers .updateTimer).start

/-- The clock ticks, the queue is served, the timers' process is polled with room in the
queue for its timers, each again and again; and the main loop never blocks for as long as
the 16-bit clock takes to go round. -/
structure Fair (r : Nat → Clock) (a : Nat → ClockStep) : Prop where
  ticks : InfinitelyOften fun n => a n = .tick
  events : InfinitelyOften fun n => a n = .event
  polls : InfinitelyOften fun n => a n = .poll ∧
    (r n).kernel.events.length + (r n).kernel.timerlist.length ≤ processConfNumevents
  turn : ∀ n, a n = .tick → .updateTimer ∈ (r n).kernel.timerlist →
    (elapsed (r n).kernel).toNat + 1 < 65535

/-! ## The invariant -/

structure Ticking (s : Clock) : Prop where
  sound : Sound s.kernel
  scheduled : Waiting s.kernel ∨ Posted s.kernel
  polled : .updateTimer ∈ s.kernel.timerlist → s.kernel.timerExpired .updateTimer = true →
    s.kernel.needspoll = true
  interval : (s.kernel.timers .updateTimer).interval = updateIntervall
  valid : s.timeValid = true → s.validCounter = s.sinceUpdate ∧ s.sinceUpdate ≤ validTime

theorem Ticking.keepsTicking {s : Clock} (h : Ticking s) : KeepsTicking s := by
  refine ⟨h.scheduled, fun hlate => ?_⟩
  cases hvalid : s.timeValid with
  | false => rfl
  | true =>
    have hle := (h.valid hvalid).2
    omega

/-- The service before its process is started. -/
structure Fresh (s : Clock) : Prop where
  sound : Sound s.kernel
  unlisted : .updateTimer ∉ s.kernel.timerlist
  unowned : (s.kernel.timers .updateTimer).p = none
  unposted : s.kernel.events.filter Event.isExpiry = []

/-- The datetime service puts the timer on the list while nobody owns it. -/
theorem waiting_addTimer {k : Kernel} {timer : Etimer} (hunlisted : .updateTimer ∉ k.timerlist)
    (hunposted : k.events.filter Event.isExpiry = []) :
    Waiting ((k.setTimer .updateTimer timer).addTimer .datetime .updateTimer) ∧
      ((k.setTimer .updateTimer timer).addTimer .datetime .updateTimer).needspoll = true ∧
      (((k.setTimer .updateTimer timer).addTimer .datetime .updateTimer).timers
        .updateTimer).interval = timer.interval := by
  have hnot : ¬ (((k.setTimer .updateTimer timer).timers .updateTimer).p ≠ none ∧
      .updateTimer ∈ (k.setTimer .updateTimer timer).timerlist) := fun h => hunlisted h.2
  unfold Kernel.addTimer
  rw [if_neg hnot]
  refine ⟨⟨List.mem_cons_self, ?_, hunposted⟩, rfl, ?_⟩
  · simp
  · simp

theorem Fresh.ticking {s : Clock} (h : Fresh s) : Ticking s.start := by
  obtain ⟨hwaiting, hneeds, hinterval⟩ := @waiting_addTimer s.kernel
    { s.kernel.timers .updateTimer with interval := updateIntervall, start := s.kernel.count }
    h.unlisted h.unposted
  exact ⟨(h.sound.setTimer (by rfl)).addTimer fun _ => rfl, .inl hwaiting,
    fun _ _ => hneeds, hinterval, fun hvalid => absurd hvalid Bool.false_ne_true⟩

/-! ## One step -/

section Step

variable {s : Clock}

/-- A step that leaves the service alone and the timer where it is. -/
theorem Ticking.untouched (h : Ticking s) {k : Kernel} (hk : Untouched s.kernel k)
    (hsound : Sound k) (hpoll : s.kernel.needspoll = true → k.needspoll = true) :
    Ticking { s with kernel := k } := by
  refine ⟨hsound, h.scheduled.imp hk.waiting hk.posted, ?_, ?_, h.valid⟩
  · intro hlisted hexpired
    rw [hk.timerExpired] at hexpired
    exact hpoll (h.polled (hk.listed.mp hlisted) hexpired)
  · show (k.timers .updateTimer).interval = updateIntervall
    rw [hk.timer]
    exact h.interval

theorem Ticking.tick (h : Ticking s) : Ticking (clockStep .tick s) := by
  show Ticking { s with kernel := s.kernel.clockInterrupt }
  refine ⟨⟨?_, ?_, ?_, ?_⟩, ?_, ?_, ?_, h.valid⟩
  · simpa using h.sound.nodup
  · simpa using h.sound.owned
  · simpa using h.sound.foreign
  · simpa using h.sound.addressed
  · refine h.scheduled.imp (fun hw => ⟨?_, ?_, ?_⟩) fun hp => ⟨?_, ?_, ?_⟩
    · simpa using hw.listed
    · simpa using hw.owner
    · simpa using hw.unposted
    · simpa using hp.unlisted
    · simpa using hp.expired
    · simpa using hp.posted
  · -- the interrupt asks for a poll as long as there is a timer on the list
    intro hmem _
    have hlisted : .updateTimer ∈ s.kernel.timerlist := by simpa using hmem
    exact Kernel.needspoll_clockInterrupt _ (List.ne_nil_of_mem hlisted)
  · simpa using h.interval

theorem Ticking.poll (h : Ticking s) : Ticking (clockStep .poll s) := by
  show Ticking { s with kernel := s.kernel.doPoll }
  unfold Kernel.doPoll
  by_cases hneeds : s.kernel.needspoll = true
  · rw [if_pos hneeds]
    have hsound : Sound { s.kernel with needspoll := false } :=
      ⟨h.sound.nodup, h.sound.owned, h.sound.foreign, h.sound.addressed⟩
    have hscheduled : Waiting { s.kernel with needspoll := false } ∨
        Posted { s.kernel with needspoll := false } :=
      h.scheduled.imp (fun hw => ⟨hw.listed, hw.owner, hw.unposted⟩)
        fun hp => ⟨hp.unlisted, hp.expired, hp.posted⟩
    obtain ⟨hsound', hscheduled'⟩ :=
      postExpired_scheduled (s.kernel.timerlist.length + 1) hsound hscheduled
    have happends := appends_postExpired (s.kernel.timerlist.length + 1)
      { s.kernel with needspoll := false }
    refine ⟨hsound', hscheduled', ?_, (happends.interval .updateTimer).trans h.interval, h.valid⟩
    intro hlisted hexpired
    -- the loop has ended for want of room, or no timer on the list has expired
    rcases @Kernel.postExpired_end { s.kernel with needspoll := false } _
      (Nat.lt_succ_self s.kernel.timerlist.length) with hend | hend
    · exact hend
    · exact Bool.noConfusion ((hend _ hlisted).symm.trans hexpired)
  · rw [if_neg hneeds]
    exact h

theorem Ticking.update (h : Ticking s) (dt : HxbDatetime)
    (howned : (s.kernel.timers .updateTimer).p ≠ none) : Ticking (clockStep (.update dt) s) := by
  have hw : Waiting s.kernel := h.scheduled.resolve_right fun hp => howned hp.expired
  have hlisted : ((s.kernel.setTimer .updateTimer
      { s.kernel.timers .updateTimer with start := s.kernel.count }).timers .updateTimer).p ≠ none ∧
        .updateTimer ∈ s.kernel.timerlist := by
    refine ⟨?_, hw.listed⟩
    simpa using howned
  have hkernel : s.kernel.etimerRestart .udpHandler .updateTimer = (s.kernel.setTimer .updateTimer
      { s.kernel.timers .updateTimer with start := s.kernel.count }).etimerRequestPoll := by
    unfold Kernel.etimerRestart Kernel.addTimer
    exact if_pos hlisted
  have hsound : Sound (s.kernel.etimerRestart .udpHandler .updateTimer) := by
    rw [hkernel]
    exact (h.sound.setTimer (by rfl)).requestPoll
  refine ⟨hsound, .inl ?_, ?_, ?_, fun _ => ⟨rfl, Nat.zero_le _⟩⟩
  · show Waiting (s.kernel.etimerRestart .udpHandler .updateTimer)
    rw [hkernel]
    refine ⟨hw.listed, ?_, hw.unposted⟩
    simpa using hw.owner
  · intro _ _
    show (s.kernel.etimerRestart .udpHandler .updateTimer).needspoll = true
    rw [hkernel]
    rfl
  · show ((s.kernel.etimerRestart .udpHandler .updateTimer).timers .updateTimer).interval = _
    rw [hkernel]
    simpa using h.interval

/-! ### An event -/

/-- The kernel when the queue has lost its first event. -/
def dropEvent (s : Clock) (rest : List Event) : Clock :=
  { s with kernel := { s.kernel with events := rest } }

/-- What an event can be: none, one that is not for the service, or the expiry of the
update timer. -/
theorem Ticking.doEvent_cases (h : Ticking s) :
    (s.kernel.events = [] ∧ s.doEvent = s) ∨
    (∃ e rest, s.kernel.events = e :: rest ∧ e.isExpiry = false ∧
      s.doEvent = dropEvent s rest) ∨
    ∃ rest, s.kernel.events = .timer .updateTimer (some .datetime) :: rest ∧
      rest.filter Event.isExpiry = [] ∧ Posted s.kernel ∧
      s.doEvent = (dropEvent s rest).threadTimer := by
  unfold Clock.doEvent
  cases hevents : s.kernel.events with
  | nil => exact .inl ⟨rfl, rfl⟩
  | cons e rest =>
    refine .inr ?_
    cases e with
    | other receiver => exact .inl ⟨_, rest, rfl, rfl, rfl⟩
    | timer t receiver =>
      cases t with
      | app n =>
        -- the expiry of another timer goes to its owner
        obtain ⟨hnone, hother⟩ := h.sound.addressed n receiver (hevents ▸ List.mem_cons_self)
        refine .inl ⟨_, rest, rfl, rfl, ?_⟩
        exact if_neg (by rintro (hr | hr) <;> contradiction)
      | updateTimer =>
        have hfilter : s.kernel.events.filter Event.isExpiry
            = .timer .updateTimer receiver :: rest.filter Event.isExpiry := by
          rw [hevents]
          exact List.filter_cons_of_pos rfl
        have hp : Posted s.kernel := by
          refine h.scheduled.resolve_left fun hw => ?_
          rw [hw.unposted] at hfilter
          cases hfilter
        rw [hp.posted] at hfilter
        obtain ⟨hhead, htail⟩ := List.cons.inj hfilter
        obtain ⟨-, rfl⟩ := Event.timer.inj hhead
        exact .inr ⟨rest, rfl, htail.symm, hp, if_pos (.inl rfl)⟩

theorem Sound.dropEvent (h : Sound s.kernel) {e : Event} {rest : List Event}
    (hevents : s.kernel.events = e :: rest) : Sound (dropEvent s rest).kernel := by
  refine ⟨h.nodup, h.owned, h.foreign, ?_⟩
  intro n receiver hmem
  exact h.addressed n receiver (hevents ▸ List.mem_cons_of_mem _ hmem)

theorem Ticking.event (h : Ticking s) : Ticking (clockStep .event s) := by
  show Ticking s.doEvent
  rcases h.doEvent_cases with ⟨-, hsame⟩ | ⟨e, rest, hevents, he, hdrop⟩ |
    ⟨rest, hevents, hrest, hp, hthread⟩
  · rw [hsame]
    exact h
  · rw [hdrop]
    refine h.untouched ⟨rfl, Iff.rfl, ?_, rfl⟩ (h.sound.dropEvent hevents) id
    rw [hevents, List.filter_cons_of_neg (by simp [he])]
  · rw [hthread]
    have hexpired : (dropEvent s rest).kernel.etimerExpired .updateTimer = true :=
      decide_eq_true hp.expired
    obtain ⟨hwaiting, hneeds, hinterval⟩ := @waiting_addTimer (dropEvent s rest).kernel
      { s.kernel.timers .updateTimer with
        start := (s.kernel.timers .updateTimer).start + (s.kernel.timers .updateTimer).interval }
      hp.unlisted hrest
    have hsound : Sound ((dropEvent s rest).kernel.etimerReset .datetime .updateTimer) :=
      ((h.sound.dropEvent hevents).setTimer (by rfl)).addTimer fun _ => rfl
    have hkernel : (dropEvent s rest).threadTimer.kernel
        = (dropEvent s rest).kernel.etimerReset .datetime .updateTimer := by
      unfold Clock.threadTimer Clock.resetExpired
      rw [if_pos hexpired]
      rfl
    refine ⟨hkernel ▸ hsound, .inl (hkernel ▸ hwaiting), fun _ _ => hkernel ▸ hneeds, ?_, ?_⟩
    · rw [hkernel]
      exact hinterval.trans h.interval
    · unfold Clock.threadTimer Clock.resetExpired
      rw [if_pos hexpired]
      intro hvalid
      by_cases hcount : s.validCounter < validTime
      · have hold : s.timeValid = true := by simpa [Clock.countSecond, dropEvent, hcount] using hvalid
        obtain ⟨heq, -⟩ := h.valid hold
        refine ⟨?_, ?_⟩
        · show (if s.validCounter < validTime then s.validCounter + 1 else s.validCounter)
            = s.sinceUpdate + 1
          rw [if_pos hcount, heq]
        · show s.sinceUpdate + 1 ≤ validTime
          omega
      · simp [Clock.countSecond, dropEvent, hcount] at hvalid

/-- The owner of a running or posted update timer is no neighbour of the service. -/
theorem Ticking.owner_ne (h : Ticking s) (q : Neighbour) :
    (s.kernel.timers .updateTimer).p ≠ some q.process := by
  rcases h.scheduled with hw | hp
  · rw [hw.owner]
    cases q <;> exact fun heq => Process.noConfusion (Option.some.inj heq)
  · rw [hp.expired]
    exact Option.some_ne_none _ |>.symm

theorem needspoll_perform (k : Kernel) (q : Neighbour) (action : Action)
    (h : k.needspoll = true) : (action.perform q.process k).needspoll = true := by
  cases action with
  | set n interval => exact Kernel.needspoll_addTimer _ _ _
  | reset n => exact Kernel.needspoll_addTimer _ _ _
  | restart n => exact Kernel.needspoll_addTimer _ _ _
  | adjust n timediff => exact h
  | stop n => exact h
  | post receiver =>
    simp only [Action.perform, Kernel.processPost]
    split
    · exact h
    · exact h
  | exit => exact h

/-- **The step lemma.** -/
theorem Ticking.step (h : Ticking s) (a : ClockStep) (hgap : OutsideGap s a) :
    Ticking (clockStep a s) := by
  cases a with
  | tick => exact h.tick
  | poll => exact h.poll
  | event => exact h.event
  | update dt => exact h.update dt (hgap dt rfl)
  | act q action =>
    exact h.untouched (untouched_perform s.kernel q action (h.owner_ne q))
      (h.sound.perform q action) (needspoll_perform s.kernel q action)

end Step

/-! ## Progress -/

section Progress

variable {s : Clock}

theorem timerExpired_iff {k : Kernel} (h : (k.timers .updateTimer).interval = updateIntervall) :
    k.timerExpired .updateTimer = true ↔
      125 ≤ (elapsed k).toNat ∧ (elapsed k).toNat ≠ 65535 := by
  have hadd : (elapsed k + 1).toNat = ((elapsed k).toNat + 1) % 65536 := UInt16.toNat_add _ _
  have hlt := (elapsed k).toNat_lt
  have hinterval : updateIntervall.toNat = 125 := rfl
  show decide ((k.timers .updateTimer).interval < elapsed k + 1) = true ↔ _
  rw [h, decide_eq_true_eq, UInt16.lt_iff_toNat_lt, hinterval, hadd]
  omega

/-- A tick of the clock is a tick of the running timer. -/
theorem elapsed_tick (h : (elapsed s.kernel).toNat + 1 < 65536) :
    (elapsed (clockStep .tick s).kernel).toNat = (elapsed s.kernel).toNat + 1 := by
  have hnext : elapsed (clockStep .tick s).kernel
      = s.kernel.count + 1 - (s.kernel.timers .updateTimer).start := by
    show elapsed s.kernel.clockInterrupt = _
    unfold elapsed
    rw [Kernel.count_clockInterrupt, Kernel.timers_clockInterrupt]
  rw [hnext]
  unfold elapsed at h ⊢
  rw [UInt16.toNat_sub] at h
  rw [UInt16.toNat_sub, UInt16.toNat_sub, UInt16.toNat_add, UInt16.toNat_one]
  omega

theorem Untouched.elapsed {k k' : Kernel} (h : Untouched k k') :
    Timing.elapsed k' = Timing.elapsed k := by
  unfold Timing.elapsed
  rw [h.timer, h.count]

/-- Only its own expiry moves the running timer, and only a poll brings that about. -/
theorem Ticking.step_waiting (h : Ticking s) (hw : Waiting s.kernel) {a : ClockStep}
    (htick : a ≠ .tick) (hupdate : ∀ dt, a ≠ .update dt) :
    Untouched s.kernel (clockStep a s).kernel ∨
      (a = .poll ∧ s.kernel.timerExpired .updateTimer = true) := by
  have hrefl : Untouched s.kernel s.kernel := ⟨rfl, Iff.rfl, rfl, rfl⟩
  cases a with
  | tick => exact absurd rfl htick
  | update dt => exact absurd rfl (hupdate dt)
  | act q action => exact .inl (untouched_perform s.kernel q action (h.owner_ne q))
  | event =>
    refine .inl ?_
    show Untouched s.kernel s.doEvent.kernel
    rcases h.doEvent_cases with ⟨-, hsame⟩ | ⟨e, rest, hevents, he, hdrop⟩ | ⟨-, -, -, hp, -⟩
    · rw [hsame]
      exact hrefl
    · rw [hdrop]
      refine ⟨rfl, Iff.rfl, ?_, rfl⟩
      rw [hevents, List.filter_cons_of_neg (by simp [he])]
      rfl
    · exact absurd hw.listed hp.unlisted
  | poll =>
    cases hexp : s.kernel.timerExpired .updateTimer with
    | true => exact .inr ⟨rfl, rfl⟩
    | false =>
      refine .inl ?_
      show Untouched s.kernel s.kernel.doPoll
      unfold Kernel.doPoll
      by_cases hneeds : s.kernel.needspoll = true
      · rw [if_pos hneeds]
        have hloop := @postExpired_untouched { s.kernel with needspoll := false }
          (s.kernel.timerlist.length + 1) hexp
        exact ⟨hloop.timer, hloop.listed, hloop.expiries, hloop.count⟩
      · rw [if_neg hneeds]
        exact hrefl

/-- A poll with room in the queue posts the expired timer. -/
theorem Ticking.poll_posts (h : Ticking s) (hw : Waiting s.kernel)
    (hexp : s.kernel.timerExpired .updateTimer = true)
    (hroom : s.kernel.events.length + s.kernel.timerlist.length ≤ processConfNumevents) :
    Posted (clockStep .poll s).kernel := by
  refine h.poll.scheduled.resolve_left fun hw' => ?_
  have hneeds := h.polled hw.listed hexp
  have hlisted : .updateTimer ∈ s.kernel.doPoll.timerlist := hw'.listed
  unfold Kernel.doPoll at hlisted
  rw [if_pos hneeds] at hlisted
  have hno := @Kernel.postExpired_room { s.kernel with needspoll := false } _
    (Nat.lt_succ_self s.kernel.timerlist.length) hroom _ hlisted
  exact Bool.noConfusion (hexp.symm.trans hno)

/-- A poll without room leaves the timer expired. -/
theorem timerExpired_poll (s : Clock) :
    (clockStep .poll s).kernel.timerExpired .updateTimer
      = s.kernel.timerExpired .updateTimer := by
  have hsame : ∀ k : Kernel, Appends s.kernel k →
      k.timerExpired .updateTimer = s.kernel.timerExpired .updateTimer := by
    intro k hk
    unfold Kernel.timerExpired
    rw [hk.start, hk.interval, hk.count]
  refine hsame s.kernel.doPoll ?_
  unfold Kernel.doPoll
  by_cases hneeds : s.kernel.needspoll = true
  · rw [if_pos hneeds]
    have happends := appends_postExpired (s.kernel.timerlist.length + 1)
      { s.kernel with needspoll := false }
    exact ⟨happends.count, happends.start, happends.interval, happends.events⟩
  · rw [if_neg hneeds]
    exact ⟨rfl, fun _ => rfl, fun _ => rfl, List.prefix_refl _⟩

theorem seconds_le (s : Clock) (a : ClockStep) : s.seconds ≤ (clockStep a s).seconds := by
  have hthread : ∀ s : Clock, s.threadTimer.seconds = s.seconds + 1 := by
    intro s
    unfold Clock.threadTimer Clock.resetExpired
    split <;> rfl
  cases a with
  | event =>
    show s.seconds ≤ s.doEvent.seconds
    unfold Clock.doEvent
    split
    · exact Nat.le_refl _
    · exact Nat.le_refl _
    · split
      · rw [hthread]
        exact Nat.le_succ _
      · exact Nat.le_refl _
  | tick => exact Nat.le_refl _
  | poll => exact Nat.le_refl _
  | update dt => exact Nat.le_refl _
  | act q action => exact Nat.le_refl _

/-- How many events are in front of the expiry. -/
def ahead (k : Kernel) : Nat := k.events.findIdx Event.isExpiry

theorem ahead_of_prefix {k k' : Kernel} (hp : Posted k) (h : k.events <+: k'.events) :
    ahead k' = ahead k := by
  have hmem : Event.timer .updateTimer (some .datetime) ∈ k.events := by
    have hposted := List.mem_singleton_self (Event.timer .updateTimer (some .datetime))
    rw [← hp.posted] at hposted
    exact (List.mem_filter.mp hposted).1
  have hlt : k.events.findIdx Event.isExpiry < k.events.length :=
    List.findIdx_lt_length_of_exists ⟨_, hmem, rfl⟩
  obtain ⟨new, hnew⟩ := h
  unfold ahead
  rw [← hnew, List.findIdx_append, if_pos hlt]

/-- The posted expiry stays in its place, until an event is taken from the queue. -/
theorem Ticking.step_posted (h : Ticking s) (hp : Posted s.kernel) {a : ClockStep}
    (hevent : a ≠ .event) (hupdate : ∀ dt, a ≠ .update dt) :
    Posted (clockStep a s).kernel ∧ ahead (clockStep a s).kernel = ahead s.kernel := by
  have hbefore : Posted (clockStep a s).kernel ∧ s.kernel.events <+: (clockStep a s).kernel.events := by
    cases a with
    | event => exact absurd rfl hevent
    | update dt => exact absurd rfl (hupdate dt)
    | tick =>
      refine ⟨⟨?_, ?_, ?_⟩, ?_⟩
      · simpa [clockStep] using hp.unlisted
      · simpa [clockStep] using hp.expired
      · simpa [clockStep] using hp.posted
      · simp [clockStep]
    | act q action =>
      refine ⟨(untouched_perform s.kernel q action (h.owner_ne q)).posted hp, ?_⟩
      cases action with
      | set n interval =>
        simp only [clockStep, Action.perform, Kernel.etimerSet, Kernel.events_addTimer]
        exact List.prefix_refl _
      | reset n =>
        simp only [clockStep, Action.perform, Kernel.etimerReset, Kernel.events_addTimer]
        exact List.prefix_refl _
      | restart n =>
        simp only [clockStep, Action.perform, Kernel.etimerRestart, Kernel.events_addTimer]
        exact List.prefix_refl _
      | adjust n timediff => exact List.prefix_refl _
      | stop n => exact List.prefix_refl _
      | exit => exact List.prefix_refl _
      | post receiver =>
        simp only [clockStep, Action.perform, Kernel.processPost]
        split
        · exact List.prefix_refl _
        · exact List.prefix_append _ _
    | poll =>
      show Posted s.kernel.doPoll ∧ s.kernel.events <+: s.kernel.doPoll.events
      unfold Kernel.doPoll
      by_cases hneeds : s.kernel.needspoll = true
      · rw [if_pos hneeds]
        refine ⟨?_, (appends_postExpired (s.kernel.timerlist.length + 1)
          { s.kernel with needspoll := false }).events⟩
        refine @Kernel.postExpired_invariant _ Posted ?_ ?_ _
          ⟨hp.unlisted, hp.expired, hp.posted⟩
        · intro k hk t ht _
          cases t with
          | app n => exact (untouched_postTimer k n).posted hk
          | updateTimer => exact absurd ht hk.unlisted
        · exact fun k hk => ⟨hk.unlisted, hk.expired, hk.posted⟩
      · rw [if_neg hneeds]
        exact ⟨hp, List.prefix_refl _⟩
  exact ⟨hbefore.1, ahead_of_prefix hp hbefore.2⟩

/-- Taking an event from the queue brings the expiry forward, or counts a second. -/
theorem Ticking.event_posted (h : Ticking s) (hp : Posted s.kernel) :
    s.seconds < (clockStep .event s).seconds ∨
      Posted (clockStep .event s).kernel ∧
        ahead (clockStep .event s).kernel < ahead s.kernel := by
  show s.seconds < s.doEvent.seconds ∨ Posted s.doEvent.kernel ∧ ahead s.doEvent.kernel < _
  rcases h.doEvent_cases with ⟨hnil, -⟩ | ⟨e, rest, hevents, he, hdrop⟩ | ⟨rest, -, -, -, hthread⟩
  · have hposted := hp.posted
    rw [hnil] at hposted
    cases hposted
  · refine .inr ?_
    rw [hdrop]
    refine ⟨⟨hp.unlisted, hp.expired, ?_⟩, ?_⟩
    · have hposted := hp.posted
      rw [hevents, List.filter_cons_of_neg (by simp [he])] at hposted
      exact hposted
    · show rest.findIdx Event.isExpiry < s.kernel.events.findIdx Event.isExpiry
      rw [hevents, List.findIdx_cons, he]
      exact Nat.lt_succ_self _
  · refine .inl ?_
    rw [hthread]
    unfold Clock.threadTimer Clock.resetExpired
    split <;> exact Nat.lt_succ_self _

/-! ### Along a path -/

variable {r : Nat → Clock} {a : Nat → ClockStep}

theorem Path.ticking (h : Path r a) (h₀ : Ticking (r 0)) (n : Nat) : Ticking (r n) := by
  induction n with
  | zero => exact h₀
  | succ n ih =>
    rw [h.next n]
    exact ih.step (a n) (h.outside n)

/-- The timer runs. -/
def Running (k : Kernel) : Prop := Waiting k ∧ k.timerExpired .updateTimer = false

/-- The timer has expired, and the poll that posts it is still to come. -/
def Overdue (k : Kernel) : Prop := Waiting k ∧ k.timerExpired .updateTimer = true

/-- An instant from `n` on at which the kernel is in a stage of the way to the next
second. -/
structure Stage (r : Nat → Clock) (n : Nat) (p : Kernel → Prop) (m : Nat) : Prop where
  since : n ≤ m
  seconds : (r n).seconds ≤ (r m).seconds
  holds : p (r m).kernel

theorem Path.stage (h : Path r a) {n m : Nat} {p q : Kernel → Prop} (hm : Stage r n p m)
    (hq : q (clockStep (a m) (r m)).kernel) : Stage r n q (m + 1) := by
  refine ⟨Nat.le_succ_of_le hm.since, ?_, ?_⟩
  · rw [h.next m]
    exact Nat.le_trans hm.seconds (seconds_le _ _)
  · rw [h.next m]
    exact hq

/-- A tick of the clock leaves the timer on the list. -/
theorem Waiting.tick (hw : Waiting s.kernel) : Waiting (clockStep .tick s).kernel := by
  refine ⟨?_, ?_, ?_⟩
  · simpa [clockStep] using hw.listed
  · simpa [clockStep] using hw.owner
  · simpa [clockStep] using hw.unposted

/-- No update arrives from `n` on. -/
def Quiet (a : Nat → ClockStep) (n : Nat) : Prop := ∀ m, n ≤ m → ∀ dt, a m ≠ .update dt

section Stages

variable (h : Path r a) (h₀ : Ticking (r 0)) (hfair : Fair r a) {n : Nat} (hquiet : Quiet a n)
include h h₀ hfair hquiet

/-- The running timer expires: every tick brings it nearer to its interval. -/
theorem running_leadsTo_overdue : LeadsTo (Stage r n Running) (Stage r n Overdue) := by
  refine leadsTo_of_helpful (fun m => 125 - (elapsed (r m).kernel).toNat) hfair.ticks ?_
  intro m hstage
  have ht := h.ticking h₀ m
  obtain ⟨hw, hexp⟩ := hstage.holds
  by_cases htick : a m = .tick
  · have hturn := hfair.turn m htick hw.listed
    have helapsed := @elapsed_tick (r m) (by omega)
    have hsmall : (elapsed (r m).kernel).toNat < 125 := by
      by_contra hlarge
      exact Bool.noConfusion
        (hexp.symm.trans ((timerExpired_iff ht.interval).mpr ⟨by omega, by omega⟩))
    cases hexp' : (clockStep .tick (r m)).kernel.timerExpired .updateTimer with
    | true => exact .inl (h.stage hstage (htick ▸ ⟨hw.tick, hexp'⟩))
    | false =>
      refine .inr ⟨h.stage hstage (htick ▸ ⟨hw.tick, hexp'⟩), ?_, ?_⟩
      · rw [h.next m, htick, helapsed]
        omega
      · intro _
        rw [h.next m, htick, helapsed]
        omega
  · rcases ht.step_waiting hw htick (hquiet m hstage.since) with hk | ⟨-, htrue⟩
    · refine .inr ⟨h.stage hstage ⟨hk.waiting hw, hk.timerExpired.trans hexp⟩, ?_,
        fun hhelps => absurd hhelps htick⟩
      rw [h.next m, hk.elapsed]
    · exact Bool.noConfusion (hexp.symm.trans htrue)

/-- The expired timer is posted, by the next poll with room in the queue. -/
theorem overdue_leadsTo_posted : LeadsTo (Stage r n Overdue) (Stage r n Posted) := by
  refine leadsTo_of_helpful (fun _ => 0) hfair.polls ?_
  intro m hstage
  have ht := h.ticking h₀ m
  obtain ⟨hw, hexp⟩ := hstage.holds
  by_cases hpoll : a m = .poll
  · by_cases hroom : (r m).kernel.events.length + (r m).kernel.timerlist.length
        ≤ processConfNumevents
    · exact .inl (h.stage hstage (hpoll ▸ ht.poll_posts hw hexp hroom))
    · -- without room the timer may have been posted, or it stays expired
      rcases ht.poll.scheduled with hw' | hp'
      · exact .inr ⟨h.stage hstage (hpoll ▸ ⟨hw', (timerExpired_poll (r m)).trans hexp⟩),
          Nat.le_refl _, fun hhelps => absurd hhelps.2 hroom⟩
      · exact .inl (h.stage hstage (hpoll ▸ hp'))
  · refine .inr ⟨?_, Nat.le_refl _, fun hhelps => absurd hhelps.1 hpoll⟩
    by_cases htick : a m = .tick
    · have hturn := hfair.turn m htick hw.listed
      have helapsed := @elapsed_tick (r m) (by omega)
      have hlong := (timerExpired_iff ht.interval).mp hexp
      have hexp' := (timerExpired_iff ht.tick.interval).mpr ⟨by omega, by omega⟩
      exact h.stage hstage (htick ▸ ⟨hw.tick, hexp'⟩)
    · rcases ht.step_waiting hw htick (hquiet m hstage.since) with hk | ⟨hp, -⟩
      · exact h.stage hstage ⟨hk.waiting hw, hk.timerExpired.trans hexp⟩
      · exact absurd hp hpoll

/-- The posted expiry reaches the service: every event taken from the queue brings it
forward. -/
theorem posted_leadsTo_second :
    LeadsTo (Stage r n Posted) fun m => n ≤ m ∧ (r n).seconds < (r m).seconds := by
  refine leadsTo_of_helpful (fun m => ahead (r m).kernel) hfair.events ?_
  intro m hstage
  have ht := h.ticking h₀ m
  by_cases hevent : a m = .event
  · rcases ht.event_posted hstage.holds with hmore | ⟨hp', hahead⟩
    · refine .inl ⟨Nat.le_succ_of_le hstage.since, ?_⟩
      rw [h.next m, hevent]
      exact Nat.lt_of_le_of_lt hstage.seconds hmore
    · refine .inr ⟨h.stage hstage (hevent ▸ hp'), ?_, ?_⟩
      · rw [h.next m, hevent]
        exact Nat.le_of_lt hahead
      · intro _
        rw [h.next m, hevent]
        exact hahead
  · obtain ⟨hp', hahead⟩ := ht.step_posted hstage.holds hevent (hquiet m hstage.since)
    refine .inr ⟨h.stage hstage hp', ?_, fun hhelps => absurd hhelps hevent⟩
    rw [h.next m]
    exact Nat.le_of_eq hahead

end Stages

/-- **Progress**: on a fair path another second is counted, or an update arrives. -/
theorem Path.progress (h : Path r a) (h₀ : Ticking (r 0)) (hfair : Fair r a) (n : Nat) :
    ∃ m, n ≤ m ∧ ((r n).seconds < (r m).seconds ∨ ∃ dt, a m = .update dt) := by
  by_cases hupdate : ∃ m, n ≤ m ∧ ∃ dt, a m = .update dt
  · obtain ⟨m, hm, hdt⟩ := hupdate
    exact ⟨m, hm, .inr hdt⟩
  · have hquiet : Quiet a n := fun m hm dt hdt => hupdate ⟨m, hm, dt, hdt⟩
    have hcounts := posted_leadsTo_second h h₀ hfair hquiet
    have hposts := (overdue_leadsTo_posted h h₀ hfair hquiet).trans hcounts
    have hexpires := (running_leadsTo_overdue h h₀ hfair hquiet).trans hposts
    have hdone : ∃ m, n ≤ m ∧ n ≤ m ∧ (r n).seconds < (r m).seconds := by
      rcases (h.ticking h₀ n).scheduled with hw | hp
      · cases hexp : (r n).kernel.timerExpired .updateTimer with
        | false => exact hexpires n ⟨Nat.le_refl _, Nat.le_refl _, hw, hexp⟩
        | true => exact hposts n ⟨Nat.le_refl _, Nat.le_refl _, hw, hexp⟩
      · exact hcounts n ⟨Nat.le_refl _, Nat.le_refl _, hp⟩
    obtain ⟨m, hm, -, hmore⟩ := hdone
    exact ⟨m, hm, .inl hmore⟩

end Progress

/-- **The clock keeps ticking** in every run without an update between the expiry of the
timer and its handling: the timer stays scheduled for the datetime service, the time is
invalid after more than 300 seconds without an update, and on a fair schedule the seconds
are counted for ever. -/
theorem clock_keeps_ticking (s₀ : Clock) (h : Fresh s₀) :
    (∀ steps, Meets clockStep OutsideGap s₀.start steps →
      KeepsTicking (run clockStep s₀.start steps)) ∧
    ∀ (r : Nat → Clock) (a : Nat → ClockStep), r 0 = s₀.start → Path r a → Fair r a →
      ∀ n, ∃ m, n ≤ m ∧ ((r n).seconds < (r m).seconds ∨ ∃ dt, a m = .update dt) := by
  constructor
  · intro steps hsteps
    have hinv : Ticking (run clockStep s₀.start steps) :=
      run_invariant (fun s a hs hok => hs.step a hok) h.ticking hsteps
    exact hinv.keepsTicking
  · intro r a hr hpath hfair n
    exact hpath.progress (hr ▸ h.ticking) hfair n

/-- A device just switched on. -/
def coldClock : Clock where
  kernel := ⟨0, fun _ => ⟨0, 0, none⟩, [], false, []⟩
  currentDt := ⟨0, 0, 0, 0, 0, 0, 0⟩
  timeValid := false
  timestamp := 0
  validCounter := 0
  seconds := 0
  sinceUpdate := 0

theorem coldClock_fresh : Fresh coldClock :=
  ⟨⟨List.nodup_nil, fun _ h => absurd h List.not_mem_nil, fun _ => (Option.some_ne_none _).symm,
    fun _ _ h => absurd h List.not_mem_nil⟩, List.not_mem_nil, rfl, rfl⟩

/-- One second from one setting of the timer to the next. -/
def oneSecond : List ClockStep := List.replicate 125 .tick ++ [.poll, .event]

theorem meets_oneSecond (s : Clock) : Meets clockStep OutsideGap s oneSecond := by
  have hfree : ∀ (steps : List ClockStep) (s : Clock), (∀ a ∈ steps, ∀ dt, a ≠ .update dt) →
      Meets clockStep OutsideGap s steps := by
    intro steps
    induction steps with
    | nil => exact fun _ _ => trivial
    | cons a steps ih =>
      intro s h
      exact ⟨fun dt hdt => absurd hdt (h a List.mem_cons_self dt),
        ih _ fun b hb => h b (List.mem_cons_of_mem _ hb)⟩
  refine hfree oneSecond s ?_
  intro a ha dt hdt
  rcases List.mem_append.mp ha with htick | hrest
  · exact ClockStep.noConfusion ((List.eq_of_mem_replicate htick).symm.trans hdt)
  · rw [hdt] at hrest
    simp at hrest

/-- The first second of a device whose clock is set right after boot. -/
def setAtBoot : List ClockStep := .update ⟨12, 0, 0, 1, 1, 2013, 2⟩ :: oneSecond

theorem coldClock_keeps_ticking : KeepsTicking (run clockStep coldClock.start setAtBoot) := by
  refine (clock_keeps_ticking coldClock coldClock_fresh).1 setAtBoot ⟨?_, meets_oneSecond _⟩
  intro dt _
  decide

/-- The update arrives when the expiry has been posted and not yet been handled. -/
def lateUpdate : List ClockStep :=
  List.replicate 125 .tick ++ [.poll, .update ⟨12, 0, 0, 1, 1, 2013, 2⟩]

/-- The timer belongs to the network process from then on, and the expiry that was on its
way is the last one the service is told of. -/
theorem lateUpdate_stops_clock :
    ¬ KeepsTicking (run clockStep coldClock.start lateUpdate) ∧
      (run clockStep coldClock.start (lateUpdate ++ [.event])).seconds = 1 ∧
      (run clockStep coldClock.start
        (lateUpdate ++ [.event] ++ oneSecond ++ oneSecond)).seconds = 1 := by
  refine ⟨?_, by decide +kernel, by decide +kernel⟩
  have howner : ((run clockStep coldClock.start lateUpdate).kernel.timers .updateTimer).p
      = some .udpHandler := by decide +kernel
  rintro ⟨hw | hp, -⟩
  · exact absurd (howner.symm.trans hw.owner) (by decide)
  · exact absurd (howner.symm.trans hp.expired) (by decide)

end Hexabus.Firmware.Timing
