import Hexabus.Host.QueryAccounting

/-!
# The account over runs of the interrogator

What holds at every point of a run, the callbacks included: the ledger is in balance, the
loop of `packet_received` stands at the query whose response callback is running and has
the other queries that the packet answers before it, and `timeout` has the query whose
failure callback is running at the back. A callback that queues a query keeps this up only
where the query finds its place beside the ones that the handler still needs.
-/

namespace Hexabus.Host

open Lib.Heap Lib.Runs

variable {P D E : Type}

/-! ## The packets that answer -/

/-- Every packet answers every query it matches and that was waiting for it, or the query is
one of those that are `due` to be answered with it. -/
def FirstMatch (due : Nat → P → E → Prop) (requests : List (Request P D E))
    (trace : List (Event P E)) : Prop :=
  ∀ before after packet sender, trace = before ++ .received packet sender :: after →
    ∀ n req, requests[n]? = some req → .queued n ∈ before → answered before n = 0 →
      req.filter packet sender = true → .response n packet sender ∈ after ∨ due n packet sender

/-- No query is due. -/
def noneDue : Nat → P → E → Prop := fun _ _ _ => False

/-- The queries of a list are due to be answered with a packet. -/
def dueIn (queries : List (BaseQuery P D E)) (packet : P) (sender : E) : Nat → P → E → Prop :=
  fun n p s => p = packet ∧ s = sender ∧ n ∈ numbers queries

namespace FirstMatch

variable {due due' : Nat → P → E → Prop} {requests : List (Request P D E)}
  {trace events : List (Event P E)}

/-- Events other than the reception of a packet. -/
theorem append (h : FirstMatch due requests trace)
    (hevents : ∀ packet sender, Event.received packet sender ∉ events)
    (hdue : ∀ n req packet sender, requests[n]? = some req → req.filter packet sender = true →
      due n packet sender → .response n packet sender ∈ events ∨ due' n packet sender) :
    FirstMatch due' requests (trace ++ events) := by
  intro before after packet sender hsplit n req hreq hqueued hanswered hfilter
  rcases List.append_eq_append_iff.mp hsplit with ⟨a, rfl, ha⟩ | ⟨c, hc, hc'⟩
  · -- the packet would be one of the events
    exact absurd (ha ▸ List.mem_append_right a List.mem_cons_self) (hevents packet sender)
  · cases c with
    | nil =>
      refine absurd ?_ (hevents packet sender)
      rw [List.nil_append] at hc'
      exact hc' ▸ List.mem_cons_self
    | cons e c =>
      obtain ⟨rfl, rfl⟩ := List.cons_eq_cons.mp hc'
      rcases h before c packet sender hc n req hreq hqueued hanswered hfilter with hr | hr
      · exact .inl (List.mem_append_left _ hr)
      · exact (hdue n req packet sender hreq hfilter hr).imp_left
          fun hmem => List.mem_append_right _ hmem

/-- A new request. -/
theorem request (h : FirstMatch due requests trace)
    (hfresh : .queued requests.length ∉ trace) (req : Request P D E) :
    FirstMatch due (requests ++ [req]) trace := by
  intro before after packet sender hsplit n req' hreq' hqueued
  rcases getElem?_concat_cases hreq' with hreq' | ⟨rfl, -⟩
  · exact h before after packet sender hsplit n req' hreq' hqueued
  · rw [hsplit] at hfresh
    exact absurd (List.mem_append_left _ hqueued) hfresh

/-- A packet is received: the running queries are due. -/
theorem receive {queries : List (BaseQuery P D E)} (h : FirstMatch noneDue requests trace)
    (hledger : Ledger queries requests trace none) (packet : P) (sender : E) :
    FirstMatch (dueIn queries packet sender) requests (trace ++ [.received packet sender]) := by
  intro before after packet' sender' hsplit n req hreq hqueued hanswered hfilter
  rcases List.append_eq_append_iff.mp hsplit with ⟨a, rfl, ha⟩ | ⟨c, hc, hc'⟩
  · cases a with
    | nil =>
      obtain ⟨he, -⟩ := List.cons_eq_cons.mp ha
      cases he
      rw [List.append_nil] at hanswered
      have hlt := (List.getElem?_eq_some_iff.mp hreq).1
      refine .inr ⟨rfl, rfl, List.count_pos_iff.mp ?_⟩
      rw [hledger.count_eq_one hlt hanswered]
      exact Nat.one_pos
    | cons e a => simp at ha
  · cases c with
    | nil =>
      obtain ⟨he, -⟩ := List.cons_eq_cons.mp hc'
      cases he
      rw [List.append_nil] at hc
      subst hc
      have hlt := (List.getElem?_eq_some_iff.mp hreq).1
      refine .inr ⟨rfl, rfl, List.count_pos_iff.mp ?_⟩
      rw [hledger.count_eq_one hlt hanswered]
      exact Nat.one_pos
    | cons e c =>
      obtain ⟨rfl, rfl⟩ := List.cons_eq_cons.mp hc'
      rcases h before c packet' sender' hc n req hreq hqueued hanswered hfilter with hr | hr
      · exact .inl (List.mem_append_left _ hr)
      · exact hr.elim

end FirstMatch

/-! ## The invariant -/

namespace DeviceInterrogator

variable {w : DeviceInterrogator P D E}

/-- What the handler under way relies on. -/
def Served (w : DeviceInterrogator P D E) : Option (Handler P E) → Prop
  | none => Ledger w.runningQueries w.requests w.trace none ∧
      FirstMatch noneDue w.requests w.trace ∧ (w.runningQueries ≠ [] → w.timer.Running)
  | some (.packetReceived packet sender storage it) => storage = w.storage ∧
      ∃ q, w.runningQueries[it]? = some q ∧
        Ledger w.runningQueries w.requests w.trace (some q.number) ∧
        FirstMatch (dueIn (w.runningQueries.drop (it + 1)) packet sender) w.requests w.trace
  | some .timeout => ∃ rest back, w.runningQueries = rest ++ [back] ∧
      Ledger w.runningQueries w.requests w.trace (some back.number) ∧
      FirstMatch noneDue w.requests w.trace

/-- Nothing undefined has happened and the handler finds what it relies on. -/
def Sound (w : DeviceInterrogator P D E) : Prop :=
  w.undefinedBehaviour = false ∧ w.Served w.handler

@[simp] theorem runningQueries_rescheduleTimer :
    w.rescheduleTimer.runningQueries = w.runningQueries := by
  unfold rescheduleTimer; split <;> rfl

@[simp] theorem requests_rescheduleTimer : w.rescheduleTimer.requests = w.requests := by
  unfold rescheduleTimer; split <;> rfl

@[simp] theorem trace_rescheduleTimer : w.rescheduleTimer.trace = w.trace := by
  unfold rescheduleTimer; split <;> rfl

@[simp] theorem handler_rescheduleTimer : w.rescheduleTimer.handler = w.handler := by
  unfold rescheduleTimer; split <;> rfl

@[simp] theorem rejections_rescheduleTimer : w.rescheduleTimer.rejections = w.rejections := by
  unfold rescheduleTimer; split <;> rfl

@[simp] theorem undefinedBehaviour_rescheduleTimer :
    w.rescheduleTimer.undefinedBehaviour = w.undefinedBehaviour := by
  unfold rescheduleTimer; split <;> rfl

theorem running_rescheduleTimer (h : w.runningQueries ≠ []) : w.rescheduleTimer.timer.Running := by
  unfold rescheduleTimer
  split
  · rename_i hnil
    exact absurd hnil h
  · exact .inl (Nat.succ_pos _)

/-- The handler is done and the timer set anew. -/
theorem sound_rescheduleTimer (hdefined : w.undefinedBehaviour = false) (hhandler : w.handler = none)
    (hledger : Ledger w.runningQueries w.requests w.trace none)
    (hfirst : FirstMatch noneDue w.requests w.trace) : w.rescheduleTimer.Sound := by
  refine ⟨by simpa using hdefined, ?_⟩
  rw [handler_rescheduleTimer, hhandler]
  refine ⟨by simpa using hledger, by simpa using hfirst, fun hne => ?_⟩
  exact running_rescheduleTimer (by simpa using hne)

/-- **The loop** of `packet_received` from a position on: the queries before it that match
are answered, the ones from it on are due. -/
theorem sound_scan {packet : P} {sender : E} {it : Nat} (orderDestroyed : Bool)
    (hdefined : w.undefinedBehaviour = false)
    (hledger : Ledger w.runningQueries w.requests w.trace none)
    (hfirst : FirstMatch (dueIn (w.runningQueries.drop it) packet sender) w.requests w.trace) :
    (w.scan packet sender it orderDestroyed).Sound := by
  have hfilter : ∀ n req, w.requests[n]? = some req → ∀ q ∈ w.runningQueries.drop it,
      q.number = n → req.filter = q.filter := by
    rintro n req hreq q hq rfl
    obtain ⟨req', hreq', hf, -⟩ := hledger.known q (List.mem_of_mem_drop hq)
    rw [← hf, Option.some.inj (hreq.symm.trans hreq')]
  unfold scan
  cases hfind : (w.runningQueries.drop it).findIdx? (fun q => q.filter packet sender) with
  | some k =>
    obtain ⟨hk, hmatch, hbefore⟩ := List.findIdx?_eq_some_iff_getElem.mp hfind
    have hget : w.runningQueries[it + k]? = some ((w.runningQueries.drop it)[k]) := by
      rw [← List.getElem?_drop, List.getElem?_eq_getElem hk]
    simp only [hget]
    have hmem := List.mem_of_getElem? hget
    refine ⟨hdefined, rfl, _, hget, hledger.respond hmem hmatch, ?_⟩
    refine hfirst.append (by simp) ?_
    rintro n req p s hreq hreqMatch ⟨rfl, rfl, hn⟩
    obtain ⟨q, hq, hqn⟩ := List.mem_map.mp hn
    obtain ⟨j, hj⟩ := List.mem_iff_getElem?.mp hq
    obtain ⟨hjlt, hjget⟩ := List.getElem?_eq_some_iff.mp hj
    rw [hfilter n req hreq q hq hqn] at hreqMatch
    -- the query is the one that is answered now, or it stands behind that one
    rcases Nat.lt_trichotomy j k with hlt | rfl | hgt
    · have hfail := hbefore j hlt
      rw [hjget] at hfail
      exact absurd hreqMatch hfail
    · rw [hjget, hqn]
      exact .inl List.mem_cons_self
    · refine .inr ⟨rfl, rfl, List.mem_map.mpr ⟨q, ?_, hqn⟩⟩
      refine List.mem_iff_getElem?.mpr ⟨j - (k + 1), ?_⟩
      rw [List.getElem?_drop] at hj ⊢
      rw [← hj]
      congr 1
      show it + k + 1 + (j - (k + 1)) = it + j
      omega
  | none =>
    have hnone := List.findIdx?_eq_none_iff.mp hfind
    have hfirst' : FirstMatch noneDue w.requests w.trace := by
      rw [← List.append_nil w.trace]
      refine hfirst.append (by simp) ?_
      rintro n req p s hreq hreqMatch ⟨rfl, rfl, hn⟩
      obtain ⟨q, hq, hqn⟩ := List.mem_map.mp hn
      rw [hfilter n req hreq q hq hqn, hnone q hq] at hreqMatch
      exact absurd hreqMatch Bool.false_ne_true
    show Sound (if orderDestroyed then _ else _)
    split
    · exact sound_rescheduleTimer hdefined rfl (hledger.perm (makeHeap_perm _ _)) hfirst'
    · exact sound_rescheduleTimer hdefined rfl hledger hfirst'

/-! ## One step -/

/-- Where the vector has room and the query that is answered stays where it is, or no
handler is under way, a query may be queued. -/
def Undisturbed (w : DeviceInterrogator P D E) (q : BaseQuery P D E) : Option (Handler P E) → Prop
  | none => True
  | some (.packetReceived _ _ _ it) => w.runningQueries.length < w.capacity ∧
      (pushHeap BaseQuery.lt (w.runningQueries ++ [q]))[it]? = w.runningQueries[it]?
  | some .timeout => False

/-- The condition on a step: a query that is sent asks for at least one try and is queued
where it disturbs no handler. -/
def Harmless (w : DeviceInterrogator P D E) : Step P D E → Prop
  | .queue req now sendOk _ => sendOk = true →
      1 ≤ req.maxTries ∧ w.Undisturbed (w.newQuery req now) w.handler
  | _ => True

theorem ledger_queue {service : Option Nat} {req : Request P D E} {now : Int}
    (htries : 1 ≤ req.maxTries)
    (h : Ledger w.runningQueries w.requests w.trace service) :
    Ledger (pushHeap BaseQuery.lt (w.runningQueries ++ [w.newQuery req now]))
      (w.requests ++ [req])
      (w.trace ++ [.queued (w.newQuery req now).number, .sent (w.newQuery req now).number])
      service :=
  (h.push rfl rfl rfl rfl htries).perm (pushHeap_perm _ _)

theorem firstMatch_queue {service : Option Nat} {due due' : Nat → P → E → Prop}
    {req : Request P D E} {events : List (Event P E)}
    (hevents : ∀ packet sender, Event.received packet sender ∉ events)
    (h : Ledger w.runningQueries w.requests w.trace service)
    (hdue : ∀ n packet sender, due n packet sender → due' n packet sender)
    (hfirst : FirstMatch due w.requests w.trace) :
    FirstMatch due' (w.requests ++ [req]) (w.trace ++ events) :=
  (hfirst.request (h.fresh _ (Nat.le_refl _)).2.2 req).append hevents
    fun n _ packet sender _ _ hd => .inr (hdue n packet sender hd)

@[simp] theorem runningQueries_pushBack (q : BaseQuery P D E) (spare : Nat) :
    (w.pushBack q spare).runningQueries = w.runningQueries ++ [q] := by
  unfold pushBack; split <;> rfl

@[simp] theorem requests_pushBack (q : BaseQuery P D E) (spare : Nat) :
    (w.pushBack q spare).requests = w.requests := by
  unfold pushBack; split <;> rfl

@[simp] theorem trace_pushBack (q : BaseQuery P D E) (spare : Nat) :
    (w.pushBack q spare).trace = w.trace := by
  unfold pushBack; split <;> rfl

@[simp] theorem timer_pushBack (q : BaseQuery P D E) (spare : Nat) :
    (w.pushBack q spare).timer = w.timer := by
  unfold pushBack; split <;> rfl

@[simp] theorem handler_pushBack (q : BaseQuery P D E) (spare : Nat) :
    (w.pushBack q spare).handler = w.handler := by
  unfold pushBack; split <;> rfl

@[simp] theorem undefinedBehaviour_pushBack (q : BaseQuery P D E) (spare : Nat) :
    (w.pushBack q spare).undefinedBehaviour = w.undefinedBehaviour := by
  unfold pushBack; split <;> rfl

/-- A vector with room stays where it is. -/
theorem storage_pushBack (q : BaseQuery P D E) (spare : Nat)
    (hroom : w.runningQueries.length < w.capacity) : (w.pushBack q spare).storage = w.storage := by
  unfold pushBack
  rw [if_pos hroom]

@[simp] theorem storage_rescheduleTimer : w.rescheduleTimer.storage = w.storage := by
  unfold rescheduleTimer; split <;> rfl

/-- The state a query that is sent leaves, before the timer is looked at. -/
def pushed (w : DeviceInterrogator P D E) (req : Request P D E) (now : Int) (spare : Nat) :
    DeviceInterrogator P D E :=
  let w' := ({ w with requests := w.requests ++ [req] }.record
    [.queued (w.newQuery req now).number, .sent (w.newQuery req now).number]).pushBack
      (w.newQuery req now) spare
  { w' with runningQueries := pushHeap BaseQuery.lt w'.runningQueries }

theorem runningQueries_pushed (req : Request P D E) (now : Int) (spare : Nat) :
    (w.pushed req now spare).runningQueries =
      pushHeap BaseQuery.lt (w.runningQueries ++ [w.newQuery req now]) := by
  simp [pushed, record]

theorem queueQuery_sent (req : Request P D E) (now : Int) (spare : Nat) :
    w.queueQuery req now true spare =
      if (w.pushed req now spare).runningQueries.length = 1 then
        (w.pushed req now spare).rescheduleTimer
      else w.pushed req now spare := rfl

/-- What stands behind a position of the loop stands behind it after a query is queued, if
the query at the position stays: the others move to the back only. -/
theorem mem_drop_pushHeap {q q' : BaseQuery P D E} {it : Nat} {service : Option Nat}
    (hledger : Ledger w.runningQueries w.requests w.trace service)
    (hnew : q.number = w.requests.length) (hmem : q' ∈ w.runningQueries.drop it) :
    q' ∈ (pushHeap BaseQuery.lt (w.runningQueries ++ [q])).drop it := by
  have hold : q' ∈ w.runningQueries := List.mem_of_mem_drop hmem
  have hall : q' ∈ pushHeap BaseQuery.lt (w.runningQueries ++ [q]) :=
    (pushHeap_perm _ _).mem_iff.mpr (List.mem_append_left _ hold)
  rw [← List.take_append_drop it (pushHeap BaseQuery.lt (w.runningQueries ++ [q]))] at hall
  rcases List.mem_append.mp hall with htake | hdrop
  · exfalso
    rcases mem_take_pushHeap _ htake with rfl | htake
    · have hlt := hledger.number_lt hold
      omega
    · have hnodup := hledger.nodup
      unfold numbers at hnodup
      rw [← List.take_append_drop it w.runningQueries, List.map_append] at hnodup
      exact (List.nodup_append.mp hnodup).2.2 _ (List.mem_map_of_mem htake) _
        (List.mem_map_of_mem hmem) rfl
  · exact hdrop

/-- **Queueing a query** that is sent. -/
theorem sound_queueQuery_sent {req : Request P D E} {now : Int} {spare : Nat} (h : w.Sound)
    (htries : 1 ≤ req.maxTries) (hplace : w.Undisturbed (w.newQuery req now) w.handler) :
    (w.queueQuery req now true spare).Sound := by
  obtain ⟨hdefined, hserved⟩ := h
  have hqueries := runningQueries_pushed (w := w) req now spare
  have hrequests : (w.pushed req now spare).requests = w.requests ++ [req] := by
    simp [pushed, record]
  have htrace : (w.pushed req now spare).trace = w.trace ++
      [.queued (w.newQuery req now).number, .sent (w.newQuery req now).number] := by
    simp [pushed, record]
  have hhandler' : (w.pushed req now spare).handler = w.handler := by simp [pushed, record]
  have hdefined' : (w.pushed req now spare).undefinedBehaviour = false := by
    simpa [pushed, record] using hdefined
  have hlength : (w.pushed req now spare).runningQueries.length = w.runningQueries.length + 1 := by
    rw [hqueries, (pushHeap_perm _ _).length_eq, List.length_append, List.length_singleton]
  rw [queueQuery_sent]
  cases hhandler : w.handler with
  | none =>
    rw [hhandler] at hserved
    obtain ⟨hledger, hfirst, htimer⟩ := hserved
    have hledger' : Ledger (w.pushed req now spare).runningQueries
        (w.pushed req now spare).requests (w.pushed req now spare).trace none := by
      rw [hqueries, hrequests, htrace]
      exact ledger_queue htries hledger
    have hfirst' : FirstMatch noneDue (w.pushed req now spare).requests
        (w.pushed req now spare).trace := by
      rw [hrequests, htrace]
      exact firstMatch_queue (by simp) hledger (fun _ _ _ hd => hd) hfirst
    split
    · exact sound_rescheduleTimer hdefined' (hhandler'.trans hhandler) hledger' hfirst'
    · rename_i hmany
      refine ⟨hdefined', ?_⟩
      rw [hhandler', hhandler]
      refine ⟨hledger', hfirst', fun _ => ?_⟩
      have hrunning := htimer fun hnil => hmany (by rw [hlength, hnil]; rfl)
      simpa [pushed, record] using hrunning
  | some handler =>
    rw [hhandler] at hserved hplace
    cases handler with
    | timeout => exact hplace.elim
    | packetReceived packet sender storage it =>
      obtain ⟨hroom, hstays⟩ := hplace
      obtain ⟨hstorage, q, hq, hledger, hfirst⟩ := hserved
      have hmany : ¬ (w.pushed req now spare).runningQueries.length = 1 := by
        obtain ⟨hlt, -⟩ := List.getElem?_eq_some_iff.mp hq
        omega
      rw [if_neg hmany]
      refine ⟨hdefined', ?_⟩
      rw [hhandler', hhandler]
      refine ⟨?_, q, ?_, ?_, ?_⟩
      · have hstays' : (w.pushed req now spare).storage = w.storage := by
          unfold pushed
          exact storage_pushBack _ _ hroom
        rw [hstorage, hstays']
      · rw [hqueries, hstays, hq]
      · rw [hqueries, hrequests, htrace]
        exact ledger_queue htries hledger
      · rw [hqueries, hrequests, htrace]
        refine firstMatch_queue (by simp) hledger ?_ hfirst
        rintro n p s ⟨hp, hs, hn⟩
        obtain ⟨q', hq', rfl⟩ := List.mem_map.mp hn
        exact ⟨hp, hs, List.mem_map_of_mem (mem_drop_pushHeap hledger rfl hq')⟩

/-- Queueing a query that the socket refuses. -/
theorem sound_queueQuery_refused {req : Request P D E} {now : Int} {spare : Nat} (h : w.Sound) :
    (w.queueQuery req now false spare).Sound := by
  obtain ⟨hdefined, hserved⟩ := h
  refine ⟨hdefined, ?_⟩
  show Served _ w.handler
  cases hhandler : w.handler with
  | none =>
    rw [hhandler] at hserved
    obtain ⟨hledger, hfirst, htimer⟩ := hserved
    exact ⟨hledger.reject req, firstMatch_queue (by simp) hledger (fun _ _ _ hd => hd) hfirst,
      htimer⟩
  | some handler =>
    rw [hhandler] at hserved
    cases handler with
    | timeout =>
      obtain ⟨rest, back, hqueries, hledger, hfirst⟩ := hserved
      exact ⟨rest, back, hqueries, hledger.reject req,
        firstMatch_queue (by simp) hledger (fun _ _ _ hd => hd) hfirst⟩
    | packetReceived packet sender storage it =>
      obtain ⟨hstorage, q, hq, hledger, hfirst⟩ := hserved
      exact ⟨hstorage, q, hq, hledger.reject req,
        firstMatch_queue (by simp) hledger (fun _ _ _ hd => hd) hfirst⟩

/-- **A timer handler** runs. -/
theorem sound_timeout {err sendOk : Bool} (hdefined : w.undefinedBehaviour = false)
    (hhandler : w.handler = none) (hledger : Ledger w.runningQueries w.requests w.trace none)
    (hfirst : FirstMatch noneDue w.requests w.trace)
    (htimer : err = true → w.runningQueries ≠ [] → w.timer.Running) :
    (w.timeout err sendOk).Sound := by
  unfold timeout
  cases err with
  | true =>
    rw [if_pos rfl]
    refine ⟨hdefined, ?_⟩
    rw [hhandler]
    exact ⟨hledger, hfirst, htimer rfl⟩
  | false =>
    rw [if_neg Bool.false_ne_true]
    cases hqueries : w.runningQueries with
    | nil =>
      refine ⟨hdefined, ?_⟩
      show Served w w.handler
      rw [hhandler]
      exact ⟨hledger, hfirst, fun hne => absurd hqueries hne⟩
    | cons front rest =>
      obtain ⟨l, hpop, hl⟩ := popHeap_cons BaseQuery.lt front rest
      have hperm : (front :: l).Perm w.runningQueries := by
        rw [hqueries]
        exact hl.cons front
      have hfront := hledger.perm hperm
      simp only [hpop, List.getLast?_concat, List.dropLast_concat]
      have hfail : ∀ events : List (Event P E),
          (front.retries = front.maxRetries ∧ events = [.failure front.number] ∨
            events = [.refused front.number, .failure front.number]) →
          (w.failBack l front events).Sound := by
        intro events hevents
        refine ⟨hdefined, l, { front with retries := front.retries + 1 }, rfl, ?_,
          hfirst.append ?_ fun n _ _ _ _ _ hd => hd.elim⟩
        · have hfailed : Ledger ({ front with retries := front.retries + 1 } :: l) w.requests
              (w.trace ++ events) (some front.number) := 
            hfront.fail { front with retries := front.retries + 1 } rfl rfl rfl hevents
          exact hfailed.perm (List.perm_append_singleton _ l)
        · intro packet sender
          rcases hevents with ⟨-, rfl⟩ | rfl <;> simp
      split
      · rename_i hlast
        exact hfail _ (.inl ⟨hlast, rfl⟩)
      · rename_i hmore
        split
        · refine sound_rescheduleTimer hdefined hhandler ?_
            (hfirst.append (by simp) fun n _ _ _ _ _ hd => hd.elim)
          refine Ledger.perm ?_ (pushHeap_perm _ _)
          have hsent : Ledger ({ front with retries := front.retries + 1,
                                            deadline := front.deadline + seconds 1 } :: l)
              w.requests (w.trace ++ [.sent front.number]) none :=
            hfront.resend _ rfl rfl rfl rfl hmore
          exact hsent.perm (List.perm_append_singleton _ l)
        · exact hfail _ (.inr rfl)

/-- A callback returns. -/
theorem sound_callbackReturns (h : w.Sound) : w.callbackReturns.Sound := by
  unfold callbackReturns
  split
  · exact h
  · obtain ⟨hdefined, hserved⟩ := h
    cases hhandler : w.handler with
    | none => exact ⟨hdefined, by rw [hhandler] at hserved ⊢; exact hserved⟩
    | some handler =>
      rw [hhandler] at hserved
      cases handler with
      | timeout =>
        obtain ⟨rest, back, hqueries, hledger, hfirst⟩ := hserved
        refine sound_rescheduleTimer hdefined rfl ?_ hfirst
        show Ledger w.runningQueries.dropLast _ _ _
        rw [hqueries] at hledger ⊢
        rw [List.dropLast_concat]
        exact (hledger.perm (List.perm_append_singleton back rest).symm).remove
      | packetReceived packet sender storage it =>
        obtain ⟨hstorage, q, hq, hledger, hfirst⟩ := hserved
        simp only [if_pos hstorage]
        obtain ⟨hlt, hget⟩ := List.getElem?_eq_some_iff.mp hq
        refine sound_scan true hdefined ?_ ?_
        · refine Ledger.remove (hledger.perm ?_)
          rw [← hget]
          exact List.getElem_cons_eraseIdx_perm hlt
        · show FirstMatch (dueIn ((w.runningQueries.eraseIdx it).drop it) packet sender) _ _
          rw [List.eraseIdx_eq_take_drop_succ, List.drop_left' (List.length_take_of_le hlt.le)]
          exact hfirst

/-- **One step** keeps the account. -/
theorem sound_step (w : DeviceInterrogator P D E) (a : Step P D E) (h : w.Sound)
    (ha : w.Harmless a) : (step a w).Sound := by
  unfold step
  rw [if_neg (by rw [h.1]; exact Bool.false_ne_true)]
  cases a with
  | queue req now sendOk spare =>
    cases sendOk with
    | true => exact sound_queueQuery_sent h (ha rfl).1 (ha rfl).2
    | false => exact sound_queueQuery_refused h
  | callbackReturns => exact sound_callbackReturns h
  | receive packet sender =>
    show Sound (if w.Idle then w.packetReceived packet sender else w)
    split
    · rename_i hidle
      obtain ⟨hdefined, hserved⟩ := h
      rw [hidle.1] at hserved
      obtain ⟨hledger, hfirst, -⟩ := hserved
      exact sound_scan false hdefined (hledger.receive packet sender)
        (hfirst.receive hledger packet sender)
    · exact h
  | expire =>
    show Sound (if w.Idle then { w with timer := w.timer.expire } else w)
    split
    · rename_i hidle
      obtain ⟨hdefined, hserved⟩ := h
      rw [hidle.1] at hserved
      obtain ⟨hledger, hfirst, htimer⟩ := hserved
      refine ⟨hdefined, ?_⟩
      show Served _ w.handler
      rw [hidle.1]
      exact ⟨hledger, hfirst, fun hne => (htimer hne).expire⟩
    · exact h
  | dispatch sendOk =>
    cases hposted : w.timer.posted with
    | nil => exact h
    | cons err posted =>
      show Sound (if w.Idle then
        { w with timer := { w.timer with posted := posted } }.timeout err sendOk else w)
      split
      · rename_i hidle
        obtain ⟨hdefined, hserved⟩ := h
        rw [hidle.1] at hserved
        obtain ⟨hledger, hfirst, htimer⟩ := hserved
        refine sound_timeout hdefined hidle.1 hledger hfirst fun herr hne => ?_
        rcases htimer hne with hwaits | hmem
        · exact .inl hwaits
        · -- the handler that runs gets an error, so it is another one that does not
          rw [hposted, herr] at hmem
          exact .inr ((List.mem_cons.mp hmem).resolve_left Bool.false_ne_true)
      · exact h

/-! ## Every run -/

theorem sound_init : (init : DeviceInterrogator P D E).Sound := by
  refine ⟨rfl, ?_, ?_, fun h => absurd rfl h⟩
  · constructor <;> simp [init, numbers, answered, transmissions]
  · intro before after packet sender hsplit
    exact absurd hsplit.symm (List.append_ne_nil_of_right_ne_nil _ (List.cons_ne_nil _ _))

theorem Sound.ledger (h : w.Sound) :
    ∃ service, Ledger w.runningQueries w.requests w.trace service := by
  obtain ⟨-, hserved⟩ := h
  cases hhandler : w.handler with
  | none =>
    rw [hhandler] at hserved
    exact ⟨_, hserved.1⟩
  | some handler =>
    rw [hhandler] at hserved
    cases handler with
    | timeout =>
      obtain ⟨_, back, -, hledger, -⟩ := hserved
      exact ⟨_, hledger⟩
    | packetReceived packet sender storage it =>
      obtain ⟨-, q, -, hledger, -⟩ := hserved
      exact ⟨_, hledger⟩

/-- A timer handler without an error uses up a try of the query that is due first. -/
theorem remainingTries_timeout (h : Ledger w.runningQueries w.requests w.trace none)
    (hne : w.runningQueries ≠ []) (sendOk : Bool) :
    remainingTries (w.timeout false sendOk).runningQueries < remainingTries w.runningQueries := by
  obtain ⟨front, rest, hqueries⟩ := List.exists_cons_of_ne_nil hne
  obtain ⟨l, hpop, hl⟩ := popHeap_cons BaseQuery.lt front rest
  have hperm : (front :: l).Perm w.runningQueries := by
    rw [hqueries]
    exact hl.cons front
  have htries := (h.tries front (hperm.mem_iff.mp List.mem_cons_self) nofun).2
  have hused : ∀ q : BaseQuery P D E, q.maxRetries = front.maxRetries →
      q.retries = front.retries + 1 →
      remainingTries (q :: l) < remainingTries w.runningQueries := by
    intro q hmax hretries
    rw [← remainingTries_perm hperm]
    unfold remainingTries
    rw [List.map_cons, List.map_cons, List.sum_cons, List.sum_cons, hmax, hretries]
    omega
  unfold timeout
  rw [if_neg Bool.false_ne_true, hqueries]
  simp only [hpop, List.getLast?_concat, List.dropLast_concat]
  rw [← hqueries]
  split
  · rw [failBack, remainingTries_perm (List.perm_append_singleton _ l)]
    exact hused _ rfl rfl
  · split
    · rw [runningQueries_rescheduleTimer, remainingTries_perm ((pushHeap_perm _ _).trans
        (List.perm_append_singleton _ l))]
      exact hused _ rfl rfl
    · rw [failBack, remainingTries_perm (List.perm_append_singleton _ l)]
      exact hused _ rfl rfl

theorem Sound.accounted (h : w.Sound) : w.Accounted := by
  obtain ⟨service, hledger⟩ := h.ledger
  have hidle : w.Idle → w.Served none := fun hidle => hidle.1 ▸ h.2
  constructor
  case defined => exact h.1
  case once => exact hledger.answered_le
  case kept => exact fun n hn ha => hledger.count_eq_one hn ha
  case removed => exact fun hi q hq => (hidle hi).1.unanswered hq nofun
  case matching => exact hledger.matching
  case firstMatch =>
    intro hi before after packet sender hsplit n req hreq hqueued ha hfilter
    exact ((hidle hi).2.1 before after packet sender hsplit n req hreq hqueued ha
      hfilter).resolve_right id
  case failed => exact hledger.failed
  case bounded => exact hledger.bounded
  case timer => exact fun hi hne => (hidle hi).2.2 hne
  case progress => exact fun hi hne sendOk => remainingTries_timeout (hidle hi).1 hne sendOk

/-- **The account of every run** in which every query that is sent asks for at least one
try, none is sent from a failure callback of `timeout`, and one that is sent from a response
callback finds room in the vector and leaves the answered query in its place: every query is
answered by one call of one callback, by the first packet that matches it or when its tries
are used up, and the timer runs and uses up tries while one is running. -/
theorem accounted_run (steps : List (Step P D E))
    (h : Meets step Harmless (init : DeviceInterrogator P D E) steps) :
    (run step init steps).Accounted :=
  (run_invariant sound_step sound_init h).accounted

/-- A request that any packet answers. -/
def anyReply (maxTries : Int) : Request Unit Unit Unit := ⟨(), (), fun _ _ => true, maxTries⟩

/-- A response callback queues the next query. -/
theorem nextQuery_accounted : (run step (init : DeviceInterrogator Unit Unit Unit)
    [.queue (anyReply 5) 0 true 1, .receive () (), .queue (anyReply 5) 1 true 0,
      .callbackReturns]).Accounted :=
  accounted_run _ ⟨fun _ => ⟨by decide, trivial⟩, trivial,
    fun _ => ⟨by decide, by decide, rfl⟩, trivial, trivial⟩

/-- The failure callback of a query asks again: `pop_back` removes the new query, which is
never answered, and the old one stays in its place. -/
theorem askAgain_not_accounted : ¬ (run step (init : DeviceInterrogator Unit Unit Unit)
    [.queue (anyReply 1) 0 true 1, .expire, .dispatch true, .queue (anyReply 1) 1 true 0,
      .callbackReturns]).Accounted := by
  intro h
  exact absurd (h.kept 1 (by decide) (by decide)) (by decide)

end DeviceInterrogator

end Hexabus.Host
