import Hexabus.Host.InterrogatorProgress

/-!
# Users of the interrogator

A component that asks devices through a `DeviceInterrogator` and binds an argument to the two
callbacks of each query. The callbacks do not ask again. A query is pending until one of its
callbacks is called, and that happens once.
-/

namespace Hexabus.Host

open Lib.Heap Lib.Runs

variable {P D E β σ : Type}

/-- The interrogator, the arguments bound to the callbacks of its queries, and the state of the
component. -/
structure Asking (P D E β σ : Type) where
  info : DeviceInterrogator P D E
  bound : List β
  user : σ

/-- What the callbacks do: `response_cb` and `failure_cb`. -/
structure Callbacks (P β σ : Type) where
  response : β → P → σ → σ
  failure : β → σ → σ

namespace Asking

variable (callbacks : Callbacks P β σ)

/-- The callback that an event stands for. -/
def callback (bound : List β) (user : σ) : Event P E → σ
  | .response n packet _ =>
    match bound[n]? with
    | some b => callbacks.response b packet user
    | none => user
  | .failure n =>
    match bound[n]? with
    | some b => callbacks.failure b user
    | none => user
  | _ => user

/-- A step of the interrogator, with the callback that it calls. -/
def io (a : DeviceInterrogator.Step P D E) (s : Asking P D E β σ) : Asking P D E β σ :=
  let info := DeviceInterrogator.step a s.info
  { s with
    info := info
    user := (info.trace.drop s.info.trace.length).foldl (callback callbacks s.bound) s.user }

/-- `send_request`: if `socket.send` throws, the failure callback is called before it returns. -/
def ask (b : β) (req : Request P D E) (now : Int) (sendOk : Bool) (spare : Nat)
    (s : Asking P D E β σ) : Asking P D E β σ :=
  let info := s.info.queueQuery req now sendOk spare
  let s := { s with info := info, bound := s.bound ++ [b] }
  if sendOk then s
  else { s with info := info.callbackReturns, user := callbacks.failure b s.user }

/-- The query `n`, with the argument `b`, has not been answered yet. -/
def Pending (s : Asking P D E β σ) (n : Nat) (b : β) : Prop :=
  s.bound[n]? = some b ∧ answered s.info.trace n = 0

/-- The interrogator is in order, and every query has its argument. -/
structure Sound (s : Asking P D E β σ) : Prop where
  info : s.info.Sound
  bound : s.bound.length = s.info.requests.length

end Asking

/-! ## Callbacks in a step -/

/-- What a step adds to the trace: at most one call of a callback, at the end. -/
inductive Calls (trace trace' : List (Event P E)) : Prop
  | quiet (events : List (Event P E)) (h : trace' = trace ++ events)
      (hquiet : ∀ e ∈ events, ∀ n, e.answers n = false)
  | response (events : List (Event P E)) (n : Nat) (packet : P) (sender : E)
      (h : trace' = trace ++ (events ++ [.response n packet sender]))
      (hquiet : ∀ e ∈ events, ∀ n, e.answers n = false)
  | failure (events : List (Event P E)) (n : Nat)
      (h : trace' = trace ++ (events ++ [.failure n]))
      (hquiet : ∀ e ∈ events, ∀ n, e.answers n = false)

theorem Calls.none {trace trace' : List (Event P E)} (h : trace' = trace) : Calls trace trace' :=
  .quiet [] (by rw [h, List.append_nil]) (by simp)

/-- Events before that call no callback. -/
theorem Calls.after {trace events trace' : List (Event P E)}
    (h : Calls (trace ++ events) trace') (hquiet : ∀ e ∈ events, ∀ n, e.answers n = false) :
    Calls trace trace' := by
  have hboth : ∀ more : List (Event P E), (∀ e ∈ more, ∀ n, e.answers n = false) →
      ∀ e ∈ events ++ more, ∀ n, e.answers n = false := fun more hmore e he =>
    (List.mem_append.mp he).elim (hquiet e) (hmore e)
  cases h with
  | quiet more h hmore => exact .quiet (events ++ more) (by rw [h, List.append_assoc]) (hboth more hmore)
  | response more n packet sender h hmore =>
    exact .response (events ++ more) n packet sender (by rw [h]; simp) (hboth more hmore)
  | failure more n h hmore =>
    exact .failure (events ++ more) n (by rw [h]; simp) (hboth more hmore)

namespace DeviceInterrogator

variable {w : DeviceInterrogator P D E}

theorem calls_scan (packet : P) (sender : E) (it : Nat) (orderDestroyed : Bool) :
    Calls w.trace (w.scan packet sender it orderDestroyed).trace := by
  unfold scan
  split
  · split
    next q hq => exact .response [] q.number packet sender rfl (by simp)
    · exact .none rfl
  · split
    · exact .none (by rw [trace_rescheduleTimer])
    · exact .none (by rw [trace_rescheduleTimer])

theorem calls_timeout (err sendOk : Bool) : Calls w.trace (w.timeout err sendOk).trace := by
  unfold timeout
  split
  · exact .none rfl
  · dsimp only
    split
    · exact .none rfl
    next back hback =>
      split
      · exact .failure [] back.number rfl (by simp)
      · split
        · refine .quiet [.sent back.number] ?_ (by simp [Event.answers])
          rw [trace_rescheduleTimer]
          rfl
        · exact .failure [.refused back.number] back.number rfl (by simp [Event.answers])

theorem calls_callbackReturns : Calls w.trace w.callbackReturns.trace := by
  unfold callbackReturns
  split
  · exact .none rfl
  · split
    · exact .none rfl
    next packet sender storage it _ =>
      split
      · exact @calls_scan _ _ _ { w with runningQueries := w.runningQueries.eraseIdx it } packet
          sender it true
      · exact .none rfl
    · exact .none (by rw [trace_rescheduleTimer])

theorem calls_step {a : Step P D E} (ha : a.passive = true) :
    Calls w.trace (step a w).trace := by
  unfold step
  split
  · exact .none rfl
  · cases a with
    | queue req now sendOk spare => cases ha
    | callbackReturns => exact calls_callbackReturns
    | receive packet sender =>
      show Calls w.trace (if w.Idle then w.packetReceived packet sender else w).trace
      split
      · exact Calls.after (@calls_scan _ _ _ (w.record [.received packet sender]) packet sender 0
          false) (by simp [Event.answers])
      · exact .none rfl
    | expire =>
      show Calls w.trace (if w.Idle then { w with timer := w.timer.expire } else w).trace
      split <;> exact .none rfl
    | dispatch sendOk =>
      cases hposted : w.timer.posted with
      | nil => exact .none rfl
      | cons err posted =>
        show Calls w.trace (if w.Idle then
          { w with timer := { w.timer with posted := posted } }.timeout err sendOk else w).trace
        split
        · exact @calls_timeout _ _ _ { w with timer := { w.timer with posted := posted } } err sendOk
        · exact .none rfl

theorem harmless_passive {a : Step P D E} (ha : a.passive = true) : w.Harmless a := by
  cases a with
  | queue req now sendOk spare => cases ha
  | receive packet sender => trivial
  | expire => trivial
  | dispatch sendOk => trivial
  | callbackReturns => trivial

end DeviceInterrogator

namespace Asking

variable (callbacks : Callbacks P β σ) {s : Asking P D E β σ}

/-! ## One step -/

@[simp] theorem bound_io (a : DeviceInterrogator.Step P D E) :
    (s.io callbacks a).bound = s.bound := rfl

@[simp] theorem info_io (a : DeviceInterrogator.Step P D E) :
    (s.io callbacks a).info = DeviceInterrogator.step a s.info := rfl

theorem foldl_quiet {bound : List β} {events : List (Event P E)}
    (h : ∀ e ∈ events, ∀ n, e.answers n = false) (user : σ) :
    events.foldl (callback callbacks bound) user = user := by
  induction events with
  | nil => rfl
  | cons e events ih =>
    obtain ⟨he, hevents⟩ := List.forall_mem_cons.mp h
    have hsame : callback callbacks bound user e = user := by
      cases e with
      | response n packet sender => exact absurd (he n) (by simp [Event.answers])
      | failure n => exact absurd (he n) (by simp [Event.answers])
      | queued n => rfl
      | sent n => rfl
      | refused n => rfl
      | received packet sender => rfl
    rw [List.foldl_cons, hsame, ih hevents]

theorem answered_quiet {events : List (Event P E)}
    (h : ∀ e ∈ events, ∀ n, e.answers n = false) (n : Nat) : answered events n = 0 :=
  List.countP_eq_zero.mpr fun e he => by rw [h e he n]; exact Bool.false_ne_true

theorem Sound.io (h : s.Sound) {a : DeviceInterrogator.Step P D E} (ha : a.passive = true) :
    (s.io callbacks a).Sound where
  info := DeviceInterrogator.sound_step _ a h.info (DeviceInterrogator.harmless_passive ha)
  bound := by
    rw [bound_io, info_io, DeviceInterrogator.requests_passive ha]
    exact h.bound

/-- What a step of the interrogator does to the component. -/
inductive Served (callbacks : Callbacks P β σ) (s s' : Asking P D E β σ) : Prop
  | quiet (huser : s'.user = s.user)
      (hanswered : ∀ n, answered s'.info.trace n = answered s.info.trace n)
  | response (n : Nat) (b : β) (req : Request P D E) (packet : P) (sender : E)
      (hbound : s.bound[n]? = some b) (hrequest : s.info.requests[n]? = some req)
      (hfilter : req.filter packet sender = true) (huser : s'.user = callbacks.response b packet s.user)
      (hbefore : answered s.info.trace n = 0)
      (hanswered : ∀ m, answered s'.info.trace m = if m = n then 1 else answered s.info.trace m)
  | failure (n : Nat) (b : β) (hbound : s.bound[n]? = some b)
      (huser : s'.user = callbacks.failure b s.user) (hbefore : answered s.info.trace n = 0)
      (hanswered : ∀ m, answered s'.info.trace m = if m = n then 1 else answered s.info.trace m)

/-- A new event that answers a query is the only one that does. -/
theorem answered_called (h : s.Sound) {a : DeviceInterrogator.Step P D E} (ha : a.passive = true)
    {events : List (Event P E)} {e : Event P E} {n : Nat}
    (htrace : (DeviceInterrogator.step a s.info).trace = s.info.trace ++ (events ++ [e]))
    (hquiet : ∀ e ∈ events, ∀ n, e.answers n = false)
    (he : ∀ m, e.answers m = decide (n = m)) :
    (∃ b, s.bound[n]? = some b) ∧ answered s.info.trace n = 0 ∧
      ∀ m, answered (DeviceInterrogator.step a s.info).trace m =
        if m = n then 1 else answered s.info.trace m := by
  have hsound := (h.io ⟨fun _ _ user => user, fun _ user => user⟩ ha).info
  rw [info_io] at hsound
  have hcount : ∀ m, answered (DeviceInterrogator.step a s.info).trace m =
      answered s.info.trace m + if m = n then 1 else 0 := by
    intro m
    rw [htrace, answered_append, answered_append, answered_quiet hquiet, Nat.zero_add]
    congr 1
    unfold answered
    rw [List.countP_singleton, he]
    by_cases hm : n = m
    · rw [if_pos (decide_eq_true hm), if_pos hm.symm]
    · rw [if_neg (by simpa using hm), if_neg (Ne.symm hm)]
  have honce := hsound.accounted.once n
  have hn := hcount n
  rw [if_pos rfl] at hn
  have hbefore : answered s.info.trace n = 0 := by omega
  refine ⟨?_, hbefore, fun m => ?_⟩
  · obtain ⟨service, hledger⟩ := hsound.ledger
    have hlt : n < s.bound.length := by
      rw [h.bound, ← DeviceInterrogator.requests_passive ha]
      by_contra hge
      have hfresh := (hledger.fresh n (Nat.le_of_not_lt hge)).1
      omega
    exact ⟨_, List.getElem?_eq_getElem hlt⟩
  · rw [hcount]
    by_cases hm : m = n
    · rw [if_pos hm, if_pos hm, hm, hbefore]
    · rw [if_neg hm, if_neg hm, Nat.add_zero]

/-- **A step of the interrogator** calls one callback of one pending query, or none. -/
theorem served_io (h : s.Sound) {a : DeviceInterrogator.Step P D E} (ha : a.passive = true) :
    Served callbacks s (s.io callbacks a) := by
  have huser : (s.io callbacks a).user = ((DeviceInterrogator.step a s.info).trace.drop
      s.info.trace.length).foldl (callback callbacks s.bound) s.user := rfl
  cases DeviceInterrogator.calls_step (w := s.info) ha with
  | quiet events htrace hquiet =>
    rw [htrace, List.drop_left, foldl_quiet callbacks hquiet] at huser
    refine .quiet huser fun n => ?_
    rw [info_io, htrace, answered_append, answered_quiet hquiet, Nat.add_zero]
  | response events n packet sender htrace hquiet =>
    obtain ⟨⟨b, hb⟩, hbefore, hanswered⟩ := answered_called h ha htrace hquiet fun m => rfl
    rw [htrace, List.drop_left, List.foldl_append, foldl_quiet callbacks hquiet] at huser
    have hmatching := (h.io callbacks ha).info.accounted.matching n packet sender
    rw [info_io, htrace, DeviceInterrogator.requests_passive ha] at hmatching
    obtain ⟨req, hreq, hfilter⟩ := hmatching (by simp)
    refine .response n b req packet sender hb hreq hfilter ?_ hbefore hanswered
    rw [huser]
    simp only [List.foldl_cons, List.foldl_nil, callback, hb]
  | failure events n htrace hquiet =>
    obtain ⟨⟨b, hb⟩, hbefore, hanswered⟩ := answered_called h ha htrace hquiet fun m => rfl
    rw [htrace, List.drop_left, List.foldl_append, foldl_quiet callbacks hquiet] at huser
    refine .failure n b hb ?_ hbefore hanswered
    rw [huser]
    simp only [List.foldl_cons, List.foldl_nil, callback, hb]

/-! ## Asking -/

theorem trace_queueQuery_sent (w : DeviceInterrogator P D E) (req : Request P D E) (now : Int)
    (spare : Nat) : (w.queueQuery req now true spare).trace =
      w.trace ++ [.queued w.requests.length, .sent w.requests.length] := by
  have hpushed : (w.pushed req now spare).trace =
      w.trace ++ [.queued w.requests.length, .sent w.requests.length] := by
    unfold DeviceInterrogator.pushed DeviceInterrogator.pushBack DeviceInterrogator.record
    dsimp only
    split <;> rfl
  rw [DeviceInterrogator.queueQuery_sent]
  split
  · rw [DeviceInterrogator.trace_rescheduleTimer, hpushed]
  · exact hpushed

theorem trace_ask_refused (b : β) (req : Request P D E) (now : Int) (spare : Nat) :
    (s.ask callbacks b req now false spare).info.trace = s.info.trace ++
      [.queued s.info.requests.length, .refused s.info.requests.length,
        .failure s.info.requests.length] := by
  show (s.info.queueQuery req now false spare).callbackReturns.trace = _
  have hwaits : 0 < (s.info.queueQuery req now false spare).rejections :=
    Nat.succ_pos s.info.rejections
  unfold DeviceInterrogator.callbackReturns
  rw [if_pos hwaits]
  rfl

theorem Sound.ask_sent (h : s.Sound) (hidle : s.info.Idle) (b : β) (req : Request P D E)
    (htries : 1 ≤ req.maxTries) (now : Int) (spare : Nat) :
    (s.ask callbacks b req now true spare).Sound where
  info := DeviceInterrogator.sound_queueQuery_sent h.info htries (by rw [hidle.1]; trivial)
  bound := by
    show (s.bound ++ [b]).length = (s.info.queueQuery req now true spare).requests.length
    rw [DeviceInterrogator.requests_queueQuery, List.length_append, List.length_append, h.bound]
    rfl

/-- A query that is sent is pending. -/
theorem pending_ask_sent (h : s.Sound) (b : β) (req : Request P D E) (now : Int) (spare : Nat)
    (n : Nat) (c : β) : (s.ask callbacks b req now true spare).Pending n c ↔
      s.Pending n c ∨ (n = s.bound.length ∧ c = b) := by
  obtain ⟨service, hledger⟩ := h.info.ledger
  have hanswered : answered (s.ask callbacks b req now true spare).info.trace n =
      answered s.info.trace n := by
    have hnone : answered ([.queued s.info.requests.length, .sent s.info.requests.length] :
        List (Event P E)) n = 0 := by simp [answered, Event.answers]
    show answered (s.info.queueQuery req now true spare).trace n = _
    rw [trace_queueQuery_sent, answered_append, hnone, Nat.add_zero]
  unfold Pending
  rw [hanswered]
  show (s.bound ++ [b])[n]? = some c ∧ _ ↔ _
  rcases Nat.lt_trichotomy n s.bound.length with hlt | rfl | hgt
  · rw [List.getElem?_append_left hlt]
    exact ⟨.inl, fun hor => hor.resolve_right fun heq => absurd heq.1 (by omega)⟩
  · have hfresh := (hledger.fresh s.bound.length h.bound.ge).1
    rw [List.getElem?_concat_length, hfresh]
    constructor
    · rintro ⟨heq, -⟩
      exact .inr ⟨rfl, (Option.some.inj heq).symm⟩
    · rintro (⟨hnone, -⟩ | ⟨-, rfl⟩)
      · rw [List.getElem?_eq_none (Nat.le_refl _)] at hnone
        cases hnone
      · exact ⟨rfl, rfl⟩
  · rw [List.getElem?_eq_none (by simp; omega), List.getElem?_eq_none (by omega)]
    constructor
    · rintro ⟨hnone, -⟩
      cases hnone
    · rintro (⟨hnone, -⟩ | ⟨heq, -⟩)
      · cases hnone
      · omega

/-- One that is refused is not. -/
theorem pending_ask_refused (h : s.Sound) (b : β) (req : Request P D E) (now : Int) (spare : Nat)
    (n : Nat) (c : β) :
    (s.ask callbacks b req now false spare).Pending n c ↔ s.Pending n c := by
  unfold Pending
  rw [trace_ask_refused, answered_append, ← h.bound]
  show (s.bound ++ [b])[n]? = some c ∧ _ ↔ _
  rcases Nat.lt_trichotomy n s.bound.length with hlt | rfl | hgt
  · have hother : answered ([.queued s.bound.length, .refused s.bound.length,
        .failure s.bound.length] : List (Event P E)) n = 0 := by
      simp [answered, Event.answers]
      omega
    rw [List.getElem?_append_left hlt, hother, Nat.add_zero]
  · have hown : answered ([.queued s.bound.length, .refused s.bound.length,
        .failure s.bound.length] : List (Event P E)) s.bound.length = 1 := by
      simp [answered, Event.answers]
    rw [hown, List.getElem?_eq_none (Nat.le_refl _)]
    exact iff_of_false (fun hpending => by omega) (by rintro ⟨⟨⟩, -⟩)
  · rw [List.getElem?_eq_none (by simp; omega), List.getElem?_eq_none (by omega)]
    exact iff_of_false (by rintro ⟨⟨⟩, -⟩) (by rintro ⟨⟨⟩, -⟩)

/-- A step of the interrogator leaves the other queries pending. -/
theorem pending_of_answered {s' : Asking P D E β σ} {n : Nat} (hbound : s'.bound = s.bound)
    (hanswered : ∀ m, answered s'.info.trace m = if m = n then 1 else answered s.info.trace m)
    (m : Nat) (c : β) : s'.Pending m c ↔ s.Pending m c ∧ m ≠ n := by
  unfold Pending
  rw [hbound, hanswered]
  by_cases hm : m = n
  · rw [if_pos hm]
    exact iff_of_false (fun h => absurd h.2 Nat.one_ne_zero) fun h => h.2 hm
  · rw [if_neg hm]
    exact ⟨fun h => ⟨h, hm⟩, And.left⟩

theorem pending_of_quiet {s' : Asking P D E β σ} (hbound : s'.bound = s.bound)
    (hanswered : ∀ m, answered s'.info.trace m = answered s.info.trace m) (m : Nat) (c : β) :
    s'.Pending m c ↔ s.Pending m c := by
  unfold Pending
  rw [hbound, hanswered]

/-! ## One query for each key -/

/-- An entry of a map is set. -/
theorem set_ne_none {κ γ : Type} [DecidableEq κ] {map : κ → Option γ} {j : κ} (entry : γ) (k : κ) :
    Function.update map j (some entry) k ≠ none ↔ map k ≠ none ∨ k = j := by
  rw [Function.update_apply]
  by_cases hk : k = j
  · rw [if_pos hk]
    exact iff_of_true (Option.some_ne_none entry) (.inr hk)
  · rw [if_neg hk]
    exact ⟨.inl, fun hor => hor.resolve_right hk⟩

/-- An entry of a map is erased. -/
theorem erased_ne_none {κ γ : Type} [DecidableEq κ] {map : κ → Option γ} {j : κ} (k : κ) :
    Function.update map j none k ≠ none ↔ map k ≠ none ∧ k ≠ j := by
  rw [Function.update_apply]
  by_cases hk : k = j
  · rw [if_pos hk]
    exact iff_of_false (fun hne => hne rfl) fun hand => hand.2 hk
  · rw [if_neg hk]
    exact ⟨fun hne => ⟨hne, hk⟩, And.left⟩

variable {κ : Type} {key : β → κ} {waiting : κ → Prop}

/-- What is bound to a query has a key, and a key waits exactly while its one query is pending. -/
structure Keyed (key : β → κ) (waiting : κ → Prop) (s : Asking P D E β σ) : Prop where
  sound : s.Sound
  pending : ∀ k, waiting k ↔ ∃ n b, s.Pending n b ∧ key b = k
  unique : ∀ n m b c, s.Pending n b → s.Pending m c → key b = key c → n = m

/-- The state of the component does not matter. -/
theorem Keyed.user (h : Keyed key waiting s) (user : σ) : Keyed key waiting { s with user := user } :=
  ⟨⟨h.sound.info, h.sound.bound⟩, h.pending, h.unique⟩

theorem Keyed.congr {waiting' : κ → Prop} (h : Keyed key waiting s)
    (hw : ∀ k, waiting' k ↔ waiting k) : Keyed key waiting' s :=
  ⟨h.sound, fun k => (hw k).trans (h.pending k), h.unique⟩

/-- A query for a key that does not wait. -/
theorem Keyed.ask_sent (h : Keyed key waiting s) (hidle : s.info.Idle) (b : β)
    (hb : ¬ waiting (key b)) (req : Request P D E) (htries : 1 ≤ req.maxTries) (now : Int)
    (spare : Nat) : Keyed key (fun k => waiting k ∨ k = key b)
      (s.ask callbacks b req now true spare) := by
  have hpending := pending_ask_sent callbacks h.sound b req now spare
  have hnone : ∀ n c, s.Pending n c → key c ≠ key b := fun n c hc heq =>
    hb ((h.pending (key b)).mpr ⟨n, c, hc, heq⟩)
  refine ⟨h.sound.ask_sent callbacks hidle b req htries now spare, fun k => ?_, ?_⟩
  · rw [h.pending]
    constructor
    · rintro (⟨n, c, hc, rfl⟩ | rfl)
      · exact ⟨n, c, (hpending n c).mpr (.inl hc), rfl⟩
      · exact ⟨_, b, (hpending _ b).mpr (.inr ⟨rfl, rfl⟩), rfl⟩
    · rintro ⟨n, c, hc, rfl⟩
      obtain hc | ⟨-, rfl⟩ := (hpending n c).mp hc
      · exact .inl ⟨n, c, hc, rfl⟩
      · exact .inr rfl
  · intro n m c d hn hm heq
    rcases (hpending n c).mp hn with hbefore | ⟨rfl, rfl⟩
    · rcases (hpending m d).mp hm with hbefore' | ⟨-, rfl⟩
      · exact h.unique n m c d hbefore hbefore' heq
      · exact absurd heq (hnone n c hbefore)
    · rcases (hpending m d).mp hm with hbefore' | ⟨rfl, -⟩
      · exact absurd heq.symm (hnone m d hbefore')
      · rfl

/-- A query has been answered, and its key waits no more. -/
theorem Keyed.answered {s' : Asking P D E β σ} (h : Keyed key waiting s) (hsound : s'.Sound)
    (hbound : s'.bound = s.bound) {n : Nat} {b : β} (hn : s.Pending n b)
    (hanswered : ∀ m, Host.answered s'.info.trace m =
      if m = n then 1 else Host.answered s.info.trace m) :
    Keyed key (fun k => waiting k ∧ k ≠ key b) s' := by
  have hpending := pending_of_answered hbound hanswered
  refine ⟨hsound, fun k => ?_, fun m l c d hc hd => ?_⟩
  · rw [h.pending]
    constructor
    · rintro ⟨⟨m, c, hc, rfl⟩, hne⟩
      refine ⟨m, c, (hpending m c).mpr ⟨hc, ?_⟩, rfl⟩
      rintro rfl
      exact hne (congrArg key (Option.some.inj (hc.1.symm.trans hn.1)))
    · rintro ⟨m, c, hc, rfl⟩
      obtain ⟨hc, hne⟩ := (hpending m c).mp hc
      exact ⟨⟨m, c, hc, rfl⟩, fun heq => hne (h.unique m n c b hc hn heq)⟩
  · exact h.unique m l c d ((hpending m c).mp hc).1 ((hpending l d).mp hd).1

/-- What a step of the interrogator does to the component and its keys. -/
inductive KeyServed (callbacks : Callbacks P β σ) (key : β → κ) (waiting : κ → Prop)
    (s s' : Asking P D E β σ) : Prop
  | quiet (huser : s'.user = s.user) (hkeyed : Keyed key waiting s')
  | response (b : β) (packet : P) (hb : waiting (key b))
      (huser : s'.user = callbacks.response b packet s.user)
      (hkeyed : Keyed key (fun k => waiting k ∧ k ≠ key b) s')
  | failure (b : β) (hb : waiting (key b)) (huser : s'.user = callbacks.failure b s.user)
      (hkeyed : Keyed key (fun k => waiting k ∧ k ≠ key b) s')

/-- **A step of the interrogator** answers the query of one key, or of none. -/
theorem Keyed.io (h : Keyed key waiting s) {a : DeviceInterrogator.Step P D E}
    (ha : a.passive = true) : KeyServed callbacks key waiting s (s.io callbacks a) := by
  have hsound := h.sound.io callbacks ha
  cases served_io callbacks h.sound ha with
  | quiet huser hanswered =>
    have hpending := pending_of_quiet (s := s) (bound_io callbacks a) hanswered
    refine .quiet huser ⟨hsound, fun k => ?_, fun n m b c hn hm => ?_⟩
    · rw [h.pending]
      simp only [hpending]
    · exact h.unique n m b c ((hpending n b).mp hn) ((hpending m c).mp hm)
  | response n b req packet sender hn hreq hfilter huser hbefore hanswered =>
    have hpending : s.Pending n b := ⟨hn, hbefore⟩
    exact .response b packet ((h.pending _).mpr ⟨n, b, hpending, rfl⟩) huser
      (h.answered hsound (bound_io callbacks a) hpending hanswered)
  | failure n b hn huser hbefore hanswered =>
    have hpending : s.Pending n b := ⟨hn, hbefore⟩
    exact .failure b ((h.pending _).mpr ⟨n, b, hpending, rfl⟩) huser
      (h.answered hsound (bound_io callbacks a) hpending hanswered)

theorem keyed_init (user : σ) :
    Keyed key (fun _ => False) ⟨(DeviceInterrogator.init : DeviceInterrogator P D E), [], user⟩ where
  sound := ⟨DeviceInterrogator.sound_init, rfl⟩
  pending k := iff_of_false id (by rintro ⟨n, b, hn, -⟩; cases hn.1)
  unique n m b c hn := by cases hn.1

end Asking

end Hexabus.Host
