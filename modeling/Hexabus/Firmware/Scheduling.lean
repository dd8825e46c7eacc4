import Hexabus.Firmware.DatetimeService

/-!
# What the kernel does with the update timer

The invariant of the timers (`Sound`), where the update timer can be (`Waiting` on the
list of the datetime service, or `Posted` in the queue for it), and what the calls of the
other processes and the loop over the expired timers do to it.
-/

namespace Hexabus.Firmware.Timing

/-- The event is an expiry of the update timer. -/
def Event.isExpiry : Event → Bool
  | .timer .updateTimer _ => true
  | _ => false

/-! ## Invariants -/

/-- No timer is on the list twice, every timer on it belongs to some process, and the
datetime service is never the owner of another timer than its own. -/
structure Sound (k : Kernel) : Prop where
  nodup : k.timerlist.Nodup
  owned : ∀ t ∈ k.timerlist, (k.timers t).p ≠ none
  foreign : ∀ n, (k.timers (.app n)).p ≠ some .datetime
  addressed : ∀ n receiver, Event.timer (.app n) receiver ∈ k.events →
    receiver ≠ none ∧ receiver ≠ some .datetime

/-- The timer runs, for the datetime service. -/
structure Waiting (k : Kernel) : Prop where
  listed : .updateTimer ∈ k.timerlist
  owner : (k.timers .updateTimer).p = some .datetime
  unposted : k.events.filter Event.isExpiry = []

/-- The timer has expired, and the event is on its way to the datetime service. -/
structure Posted (k : Kernel) : Prop where
  unlisted : .updateTimer ∉ k.timerlist
  expired : (k.timers .updateTimer).p = none
  posted : k.events.filter Event.isExpiry = [.timer .updateTimer (some .datetime)]

/-- Everything but the update timer and its events may have changed. -/
structure Untouched (k k' : Kernel) : Prop where
  timer : k'.timers .updateTimer = k.timers .updateTimer
  listed : .updateTimer ∈ k'.timerlist ↔ .updateTimer ∈ k.timerlist
  expiries : k'.events.filter Event.isExpiry = k.events.filter Event.isExpiry
  count : k'.count = k.count

variable {k k' : Kernel}

theorem Untouched.waiting (h : Untouched k k') (hw : Waiting k) : Waiting k' :=
  ⟨h.listed.mpr hw.listed, h.timer ▸ hw.owner, h.expiries.trans hw.unposted⟩

theorem Untouched.posted (h : Untouched k k') (hp : Posted k) : Posted k' :=
  ⟨fun hmem => hp.unlisted (h.listed.mp hmem), h.timer ▸ hp.expired, h.expiries.trans hp.posted⟩

theorem Untouched.timerExpired (h : Untouched k k') :
    k'.timerExpired .updateTimer = k.timerExpired .updateTimer := by
  unfold Kernel.timerExpired
  rw [h.timer, h.count]

/-! ## Calls from processes -/

theorem Sound.setTimer (h : Sound k) {t : TimerName} {timer : Etimer}
    (hp : timer.p = (k.timers t).p) : Sound (k.setTimer t timer) := by
  have hsame : ∀ u, ((k.setTimer t timer).timers u).p = (k.timers u).p := by
    intro u
    by_cases hu : u = t
    · subst hu
      simp [Kernel.setTimer, hp]
    · simp [Kernel.setTimer, Function.update_of_ne hu]
  refine ⟨h.nodup, ?_, ?_, h.addressed⟩
  · intro u hu
    rw [hsame]
    exact h.owned u hu
  · intro n
    rw [hsame]
    exact h.foreign n

theorem Sound.requestPoll (h : Sound k) : Sound k.etimerRequestPoll :=
  ⟨h.nodup, h.owned, h.foreign, h.addressed⟩

theorem Sound.addTimer (h : Sound k) {current : Process} {t : TimerName}
    (hcurrent : current = .datetime → t = .updateTimer) : Sound (k.addTimer current t) := by
  unfold Kernel.addTimer
  by_cases hlisted : (k.timers t).p ≠ none ∧ t ∈ k.timerlist
  · rw [if_pos hlisted]
    exact h.requestPoll
  · rw [if_neg hlisted]
    have hnot : t ∉ k.timerlist := fun hmem => hlisted ⟨h.owned t hmem, hmem⟩
    refine ⟨List.nodup_cons.mpr ⟨hnot, h.nodup⟩, ?_, ?_, h.addressed⟩
    · intro u hu
      by_cases heq : u = t
      · simp [heq]
      · have hmem : u ∈ k.timerlist := (List.mem_cons.mp hu).resolve_left heq
        simpa [Function.update_of_ne heq] using h.owned u hmem
    · intro n
      by_cases heq : TimerName.app n = t
      · subst heq
        have hne : current ≠ .datetime := fun hc => TimerName.noConfusion (hcurrent hc)
        simpa using hne
      · simpa [Function.update_of_ne heq] using h.foreign n

theorem Sound.etimerStop (h : Sound k) (t : TimerName) : Sound (k.etimerStop t) := by
  refine ⟨h.nodup.erase t, ?_, ?_, h.addressed⟩
  · intro u hu
    obtain ⟨hne, hmem⟩ := h.nodup.mem_erase_iff.mp hu
    simpa [Kernel.etimerStop, Kernel.setTimer, Function.update_of_ne hne] using h.owned u hmem
  · intro n
    by_cases heq : TimerName.app n = t
    · simp [Kernel.etimerStop, Kernel.setTimer, heq]
    · simpa [Kernel.etimerStop, Kernel.setTimer, Function.update_of_ne heq] using h.foreign n

/-- Another timer is added: the update timer stays where it is. -/
theorem untouched_addTimer (k : Kernel) (current : Process) (n : Nat) (timer : Etimer) :
    Untouched k ((k.setTimer (.app n) timer).addTimer current (.app n)) := by
  have hne : TimerName.updateTimer ≠ .app n := TimerName.noConfusion
  unfold Kernel.addTimer
  split
  · refine ⟨?_, Iff.rfl, rfl, rfl⟩
    simp
  · refine ⟨?_, ?_, rfl, rfl⟩
    · simp
    · simp

theorem untouched_post (k : Kernel) (receiver : Option Process) :
    Untouched k ((k.processPost (.other receiver)).getD k) := by
  unfold Kernel.processPost
  split
  · exact ⟨rfl, Iff.rfl, rfl, rfl⟩
  · refine ⟨rfl, Iff.rfl, ?_, rfl⟩
    simp [List.filter_append, Event.isExpiry]

theorem Sound.post (h : Sound k) (receiver : Option Process) :
    Sound ((k.processPost (.other receiver)).getD k) := by
  unfold Kernel.processPost
  split
  · exact h
  · refine ⟨h.nodup, h.owned, h.foreign, ?_⟩
    intro n r hmem
    have hold : Event.timer (.app n) r ∈ k.events := by simpa using hmem
    exact h.addressed n r hold

/-- **Another process's calls** keep the invariant. -/
theorem Sound.perform (h : Sound k) (q : Neighbour) (action : Action) :
    Sound (action.perform q.process k) := by
  have hforeign : ∀ n, q.process = .datetime → TimerName.app n = .updateTimer := by
    intro n hq
    cases q <;> exact Process.noConfusion hq
  cases action with
  | set n interval => exact (h.setTimer (by rfl)).addTimer (hforeign n)
  | reset n => exact (h.setTimer (by rfl)).addTimer (hforeign n)
  | restart n => exact (h.setTimer (by rfl)).addTimer (hforeign n)
  | adjust n timediff => exact h.setTimer rfl
  | stop n => exact h.etimerStop _
  | post receiver => exact h.post receiver
  | exit =>
    refine ⟨h.nodup.filter _, ?_, h.foreign, h.addressed⟩
    intro t ht
    exact h.owned t (List.mem_filter.mp ht).1

/-- They do not reach the update timer while it runs for the datetime service or is in
the queue. -/
theorem untouched_perform (k : Kernel) (q : Neighbour) (action : Action)
    (howner : (k.timers .updateTimer).p ≠ some q.process) :
    Untouched k (action.perform q.process k) := by
  have hne : ∀ n, TimerName.updateTimer ≠ .app n := fun n => TimerName.noConfusion
  cases action with
  | set n interval => exact untouched_addTimer k _ n _
  | reset n => exact untouched_addTimer k _ n _
  | restart n => exact untouched_addTimer k _ n _
  | adjust n timediff =>
    refine ⟨?_, Iff.rfl, rfl, rfl⟩
    simp [Action.perform, Kernel.etimerAdjust, Kernel.setTimer]
  | stop n =>
    refine ⟨?_, ?_, rfl, rfl⟩
    · simp [Action.perform, Kernel.etimerStop, Kernel.setTimer]
    · exact List.mem_erase_of_ne (hne n)
  | post receiver => exact untouched_post k receiver
  | exit =>
    refine ⟨rfl, ?_, rfl, rfl⟩
    simp [Action.perform, Kernel.etimerExited, howner]

/-! ## The loop over the expired timers -/

namespace Kernel

/-- A timer's expiry is posted, and the timer leaves the list. -/
def postTimer (k : Kernel) (t : TimerName) : Kernel :=
  etimerStop { k with events := k.events ++ [.timer t (k.timers t).p] } t

/-- The expiry is posted and no other timer's start changes. -/
theorem timerExpired_postTimer (k : Kernel) (t u : TimerName) :
    (k.postTimer t).timerExpired u = k.timerExpired u := by
  unfold timerExpired postTimer etimerStop setTimer
  by_cases h : u = t
  · simp [h]
  · simp [Function.update_of_ne h]

theorem pass_none {ts : List TimerName} (h : ∀ t ∈ ts, k.timerExpired t = false) :
    pass ts k = (false, k) := by
  induction ts with
  | nil => rfl
  | cons t ts ih =>
    rw [pass, if_neg (by simp [h t List.mem_cons_self])]
    exact ih fun u hu => h u (List.mem_cons_of_mem _ hu)

/-- With the queue full no timer is posted; the next poll is asked for. -/
theorem pass_full (hfull : k.events.length = processConfNumevents) {ts : List TimerName}
    (h : ∃ t ∈ ts, k.timerExpired t = true) : pass ts k = (false, k.etimerRequestPoll) := by
  have hpost : ∀ e, k.processPost e = none := fun e => if_pos hfull
  have hagain : ∀ ts : List TimerName,
      pass ts k.etimerRequestPoll = (false, k.etimerRequestPoll) := by
    intro ts
    induction ts with
    | nil => rfl
    | cons t ts ih =>
      have hpost' : k.etimerRequestPoll.processPost
          (Event.timer t (k.etimerRequestPoll.timers t).p) = none := if_pos hfull
      rw [pass]
      split
      · rw [hpost']
        exact ih
      · exact ih
  obtain ⟨t, ht, hexp⟩ := h
  induction ts with
  | nil => exact absurd ht List.not_mem_nil
  | cons u ts ih =>
    rw [pass]
    by_cases hu : k.timerExpired u = true
    · rw [if_pos hu, hpost]
      exact hagain ts
    · rw [if_neg hu]
      refine ih ((List.mem_cons.mp ht).resolve_left ?_)
      rintro rfl
      exact hu hexp

/-- With room in the queue the first expired timer is posted. -/
theorem pass_room (hroom : k.events.length ≠ processConfNumevents) {ts : List TimerName}
    (h : ∃ t ∈ ts, k.timerExpired t = true) :
    ∃ t ∈ ts, k.timerExpired t = true ∧ pass ts k = (true, k.postTimer t) := by
  obtain ⟨t, ht, hexp⟩ := h
  induction ts with
  | nil => exact absurd ht List.not_mem_nil
  | cons u ts ih =>
    by_cases hu : k.timerExpired u = true
    · refine ⟨u, List.mem_cons_self, hu, ?_⟩
      have hpost : k.processPost (Event.timer u (k.timers u).p)
          = some { k with events := k.events ++ [.timer u (k.timers u).p] } := if_neg hroom
      rw [pass, if_pos hu]
      simp only [hpost]
      rfl
    · have hmem : t ∈ ts := by
        refine (List.mem_cons.mp ht).resolve_left ?_
        rintro rfl
        exact hu hexp
      obtain ⟨v, hv, hvexp, hpass⟩ := ih hmem
      refine ⟨v, List.mem_cons_of_mem _ hv, hvexp, ?_⟩
      rw [pass, if_neg hu]
      exact hpass

/-- **The rule of the loop**: what posting an expired timer from the list and asking for
a poll preserve, the loop preserves. -/
theorem postExpired_invariant {Inv : Kernel → Prop}
    (hpost : ∀ k, Inv k → ∀ t ∈ k.timerlist, k.timerExpired t = true → Inv (k.postTimer t))
    (hrequest : ∀ k, Inv k → Inv k.etimerRequestPoll) (n : Nat) (h : Inv k) :
    Inv (postExpired n k) := by
  induction n generalizing k with
  | zero => exact h
  | succ n ih =>
    rw [postExpired]
    by_cases hexp : ∃ t ∈ k.timerlist, k.timerExpired t = true
    · by_cases hfull : k.events.length = processConfNumevents
      · rw [pass_full hfull hexp]
        exact hrequest k h
      · obtain ⟨t, ht, htexp, hpass⟩ := pass_room hfull hexp
        rw [hpass]
        exact ih (hpost k h t ht htexp)
    · rw [pass_none (by simpa using hexp)]
      exact h

/-- The loop ends when no timer on the list has expired, or the queue is full. -/
theorem postExpired_end {n : Nat} (hn : k.timerlist.length < n) :
    (postExpired n k).needspoll = true ∨
      ∀ t ∈ (postExpired n k).timerlist, (postExpired n k).timerExpired t = false := by
  induction n generalizing k with
  | zero => exact absurd hn (Nat.not_lt_zero _)
  | succ n ih =>
    rw [postExpired]
    by_cases hexp : ∃ t ∈ k.timerlist, k.timerExpired t = true
    · by_cases hfull : k.events.length = processConfNumevents
      · rw [pass_full hfull hexp]
        exact .inl rfl
      · obtain ⟨t, ht, -, hpass⟩ := pass_room hfull hexp
        rw [hpass]
        refine ih ?_
        have hlength : (k.postTimer t).timerlist.length = k.timerlist.length - 1 :=
          List.length_erase_of_mem ht
        have hpos := List.length_pos_of_mem ht
        omega
    · rw [pass_none (by simpa using hexp)]
      exact .inr (by simpa using hexp)

/-- With room for all timers of the list, none that has expired stays on it. -/
theorem postExpired_room {n : Nat} (hn : k.timerlist.length < n)
    (hroom : k.events.length + k.timerlist.length ≤ processConfNumevents) :
    ∀ t ∈ (postExpired n k).timerlist, k.timerExpired t = false := by
  induction n generalizing k with
  | zero => exact absurd hn (Nat.not_lt_zero _)
  | succ n ih =>
    rw [postExpired]
    by_cases hexp : ∃ t ∈ k.timerlist, k.timerExpired t = true
    · have hpos : 0 < k.timerlist.length := List.length_pos_of_mem hexp.choose_spec.1
      obtain ⟨t, ht, -, hpass⟩ := pass_room (by omega) hexp
      rw [hpass]
      have hlength : (k.postTimer t).timerlist.length = k.timerlist.length - 1 :=
        List.length_erase_of_mem ht
      have hevents : (k.postTimer t).events.length = k.events.length + 1 := by
        simp [postTimer, etimerStop, setTimer]
      intro u hu
      rw [← timerExpired_postTimer k t u]
      exact ih (by omega) (by omega) u hu
    · rw [pass_none (by simpa using hexp)]
      simpa using hexp

end Kernel

/-! ## The loop and the update timer -/

theorem Sound.postTimer (h : Sound k) {t : TimerName} (ht : t ∈ k.timerlist) :
    Sound (k.postTimer t) := by
  have hqueued : Sound { k with events := k.events ++ [.timer t (k.timers t).p] } := by
    refine ⟨h.nodup, h.owned, h.foreign, ?_⟩
    intro n receiver hmem
    rcases List.mem_append.mp hmem with hold | hnew
    · exact h.addressed n receiver hold
    · obtain ⟨rfl, rfl⟩ := Event.timer.inj (List.mem_singleton.mp hnew)
      exact ⟨h.owned _ ht, h.foreign n⟩
  exact hqueued.etimerStop t

/-- Another timer's expiry leaves the update timer alone. -/
theorem untouched_postTimer (k : Kernel) (n : Nat) : Untouched k (k.postTimer (.app n)) := by
  have hne : TimerName.updateTimer ≠ .app n := TimerName.noConfusion
  refine ⟨?_, List.mem_erase_of_ne hne, ?_, rfl⟩
  · simp [Kernel.postTimer, Kernel.etimerStop, Kernel.setTimer]
  · simp [Kernel.postTimer, Kernel.etimerStop, Kernel.setTimer, List.filter_append,
      Event.isExpiry]

/-- Its own expiry goes to the datetime service. -/
theorem Waiting.postTimer (h : Waiting k) (hs : Sound k) : Posted (k.postTimer .updateTimer) := by
  constructor
  · exact fun hmem => (hs.nodup.mem_erase_iff.mp hmem).1 rfl
  · simp [Kernel.postTimer, Kernel.etimerStop, Kernel.setTimer]
  · show List.filter _ (k.events ++ [.timer .updateTimer (k.timers .updateTimer).p]) = _
    rw [List.filter_append, h.unposted, h.owner]
    rfl

/-- **The poll** keeps the update timer waiting or posted, and sound. -/
theorem postExpired_scheduled (n : Nat) (hs : Sound k) (h : Waiting k ∨ Posted k) :
    Sound (Kernel.postExpired n k) ∧
      (Waiting (Kernel.postExpired n k) ∨ Posted (Kernel.postExpired n k)) := by
  refine @Kernel.postExpired_invariant _ (fun k => Sound k ∧ (Waiting k ∨ Posted k)) ?_ ?_ n
    ⟨hs, h⟩
  · rintro k ⟨hs, h⟩ t ht -
    refine ⟨hs.postTimer ht, ?_⟩
    cases t with
    | app n => exact h.imp (untouched_postTimer k n).waiting (untouched_postTimer k n).posted
    | updateTimer =>
      rcases h with hw | hp
      · exact .inr (hw.postTimer hs)
      · exact absurd ht hp.unlisted
  · rintro k ⟨hs, h⟩
    exact ⟨hs.requestPoll, h.imp (fun hw => ⟨hw.listed, hw.owner, hw.unposted⟩)
      fun hp => ⟨hp.unlisted, hp.expired, hp.posted⟩⟩

/-- A timer that has not expired stays. -/
theorem postExpired_untouched (n : Nat) (hexp : k.timerExpired .updateTimer = false) :
    Untouched k (Kernel.postExpired n k) := by
  refine @Kernel.postExpired_invariant _ (fun k' => Untouched k k') ?_ ?_ n
    ⟨rfl, Iff.rfl, rfl, rfl⟩
  · intro k' h t ht htexp
    cases t with
    | app n =>
      have hnext := untouched_postTimer k' n
      exact ⟨hnext.timer.trans h.timer, hnext.listed.trans h.listed,
        hnext.expiries.trans h.expiries, hnext.count.trans h.count⟩
    | updateTimer =>
      rw [h.timerExpired, hexp] at htexp
      exact absurd htexp Bool.false_ne_true
  · exact fun k' h => ⟨h.timer, h.listed, h.expiries, h.count⟩

/-- What the poll does not change: the clock, the start and the interval of every timer,
and the events that were in the queue before. -/
structure Appends (k k' : Kernel) : Prop where
  count : k'.count = k.count
  start : ∀ t, (k'.timers t).start = (k.timers t).start
  interval : ∀ t, (k'.timers t).interval = (k.timers t).interval
  events : k.events <+: k'.events

theorem appends_postExpired (n : Nat) (k : Kernel) : Appends k (Kernel.postExpired n k) := by
  refine @Kernel.postExpired_invariant _ (fun k' => Appends k k') ?_ ?_ n
    ⟨rfl, fun _ => rfl, fun _ => rfl, List.prefix_refl _⟩
  · intro k' h t _ _
    have hsame : ∀ u, ((k'.postTimer t).timers u).start = (k'.timers u).start ∧
        ((k'.postTimer t).timers u).interval = (k'.timers u).interval := by
      intro u
      by_cases hu : u = t
      · simp [Kernel.postTimer, Kernel.etimerStop, Kernel.setTimer, hu]
      · simp [Kernel.postTimer, Kernel.etimerStop, Kernel.setTimer, Function.update_of_ne hu]
    exact ⟨h.count, fun u => (hsame u).1.trans (h.start u), fun u => (hsame u).2.trans (h.interval u),
      h.events.trans (List.prefix_append _ _)⟩
  · exact fun k' h => ⟨h.count, h.start, h.interval, h.events⟩

end Hexabus.Firmware.Timing
