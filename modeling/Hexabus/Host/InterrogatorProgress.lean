import Hexabus.Host.InterrogatorRuns
import Hexabus.Lib.Heap
import Hexabus.Lib.Runs

/-!
# Every query is answered

In an infinite run in which time goes on and the I/O service gets to its handlers, every query
is answered at last. The heap serves the query that is due first, so those that are queued
later than a query is due do not delay it.
-/

namespace Hexabus.Host

open Lib.Heap Lib.Runs Lib.Fairness

variable {P D E : Type}

theorem weakOrder_lt : WeakOrder (BaseQuery.lt (P := P) (D := D) (E := E)) where
  asymm a b h := by
    unfold BaseQuery.lt at h ⊢
    simp only [decide_eq_true_eq, decide_eq_false_iff_not] at h ⊢
    omega
  trans a b c hab hbc := by
    unfold BaseQuery.lt at hab hbc ⊢
    simp only [decide_eq_false_iff_not] at hab hbc ⊢
    omega

namespace DeviceInterrogator

variable {w : DeviceInterrogator P D E}

/-! ## The heap -/

/-- The running queries are a heap, but for one that is served. -/
def Ordered (w : DeviceInterrogator P D E) : Option (Handler P E) → Prop
  | none => IsHeap BaseQuery.lt w.runningQueries
  | some .timeout => IsHeap BaseQuery.lt w.runningQueries.dropLast
  | some (.packetReceived ..) => True

theorem ordered_rescheduleTimer (h : w.Ordered w.handler) :
    w.rescheduleTimer.Ordered w.rescheduleTimer.handler := by
  rw [handler_rescheduleTimer]
  unfold Ordered at h ⊢
  rw [runningQueries_rescheduleTimer]
  exact h

theorem ordered_scan {packet : P} {sender : E} {it : Nat} {orderDestroyed : Bool}
    (h : orderDestroyed = false → IsHeap BaseQuery.lt w.runningQueries) :
    (w.scan packet sender it orderDestroyed).Ordered
      (w.scan packet sender it orderDestroyed).handler := by
  unfold scan
  cases hfind : (w.runningQueries.drop it).findIdx? (fun q => q.filter packet sender) with
  | some k =>
    obtain ⟨hk, -, -⟩ := List.findIdx?_eq_some_iff_getElem.mp hfind
    have hget : w.runningQueries[it + k]? = some ((w.runningQueries.drop it)[k]) := by
      rw [← List.getElem?_drop, List.getElem?_eq_getElem hk]
    simp only [hget]
    trivial
  | none =>
    cases orderDestroyed with
    | true => exact ordered_rescheduleTimer (isHeap_makeHeap weakOrder_lt _)
    | false => exact ordered_rescheduleTimer (h rfl)

theorem ordered_queueQuery {req : Request P D E} {now : Int} {sendOk : Bool} {spare : Nat}
    (h : w.Ordered w.handler) (ha : w.Harmless (.queue req now sendOk spare)) :
    (w.queueQuery req now sendOk spare).Ordered (w.queueQuery req now sendOk spare).handler := by
  cases sendOk with
  | false => exact h
  | true =>
    rw [queueQuery_sent]
    have hpushed : (w.pushed req now spare).Ordered (w.pushed req now spare).handler := by
      have hsame : (w.pushed req now spare).handler = w.handler := by simp [pushed, record]
      rw [hsame]
      cases hhandler : w.handler with
      | none =>
        rw [hhandler] at h
        show IsHeap _ (w.pushed req now spare).runningQueries
        rw [runningQueries_pushed]
        exact isHeap_pushHeap weakOrder_lt h _
      | some handler =>
        cases handler with
        | packetReceived packet sender storage it => trivial
        | timeout =>
          have hquiet := (ha rfl).2
          rw [hhandler] at hquiet
          exact hquiet.elim
    split
    · exact ordered_rescheduleTimer hpushed
    · exact hpushed

/-- The two outcomes of `timeout` for the query that is due first. -/
theorem timeout_cons (h : IsHeap BaseQuery.lt w.runningQueries) {front : BaseQuery P D E}
    {rest : List (BaseQuery P D E)} (hqueries : w.runningQueries = front :: rest) (sendOk : Bool) :
    ∃ l, (front :: l).Perm w.runningQueries ∧ IsHeap BaseQuery.lt l ∧
      ((∃ events, w.timeout false sendOk = w.failBack l front events) ∨
        w.timeout false sendOk =
          { w.record [.sent front.number] with
            runningQueries := pushHeap BaseQuery.lt (l ++ [{ front with
              retries := front.retries + 1, deadline := front.deadline + seconds 1 }]) }.rescheduleTimer) := by
  rw [hqueries] at h
  obtain ⟨l, hpop, hperm, hheap⟩ := popHeap_isHeap weakOrder_lt h
  refine ⟨l, hqueries ▸ hperm.cons front, hheap, ?_⟩
  unfold timeout
  rw [if_neg Bool.false_ne_true, hqueries]
  simp only [hpop, List.getLast?_concat, List.dropLast_concat]
  split
  · exact .inl ⟨_, rfl⟩
  · split
    · exact .inr rfl
    · exact .inl ⟨_, rfl⟩

theorem timeout_nil (h : w.runningQueries = []) (sendOk : Bool) : w.timeout false sendOk = w := by
  unfold timeout
  rw [if_neg Bool.false_ne_true, h]
  rfl

theorem ordered_timeout {err sendOk : Bool} (h : IsHeap BaseQuery.lt w.runningQueries)
    (hhandler : w.handler = none) :
    (w.timeout err sendOk).Ordered (w.timeout err sendOk).handler := by
  cases err with
  | true =>
    show w.Ordered w.handler
    rw [hhandler]
    exact h
  | false =>
    cases hqueries : w.runningQueries with
    | nil =>
      rw [timeout_nil hqueries, hhandler]
      exact h
    | cons front rest =>
      obtain ⟨l, -, hheap, ⟨events, hfail⟩ | hresend⟩ := timeout_cons h hqueries sendOk
      · rw [hfail]
        show IsHeap _ (l ++ [_]).dropLast
        rw [List.dropLast_concat]
        exact hheap
      · rw [hresend]
        refine ordered_rescheduleTimer ?_
        show Ordered _ w.handler
        rw [hhandler]
        exact isHeap_pushHeap weakOrder_lt hheap _

theorem ordered_callbackReturns (h : w.Ordered w.handler) :
    w.callbackReturns.Ordered w.callbackReturns.handler := by
  unfold callbackReturns
  split
  · exact h
  · split
    next hnone =>
      exact h
    next packet sender storage it hhandler =>
      split
      · exact ordered_scan nofun
      · show w.Ordered w.handler
        rw [hhandler]
        trivial
    next hhandler =>
      rw [hhandler] at h
      exact ordered_rescheduleTimer h

/-- One step keeps the order. -/
theorem ordered_step (a : Step P D E) (h : w.Ordered w.handler) (ha : w.Harmless a) :
    (step a w).Ordered (step a w).handler := by
  unfold step
  split
  · exact h
  · cases a with
    | queue req now sendOk spare => exact ordered_queueQuery h ha
    | callbackReturns => exact ordered_callbackReturns h
    | receive packet sender =>
      show Ordered (if w.Idle then w.packetReceived packet sender else w) _
      split
      next hidle =>
        rw [hidle.1] at h
        exact ordered_scan fun _ => h
      next => exact h
    | expire =>
      show Ordered (if w.Idle then { w with timer := w.timer.expire } else w) _
      split <;> exact h
    | dispatch sendOk =>
      cases hposted : w.timer.posted with
      | nil => exact h
      | cons err posted =>
        show Ordered (if w.Idle then
          { w with timer := { w.timer with posted := posted } }.timeout err sendOk else w) _
        split
        next hidle =>
          rw [hidle.1] at h
          exact ordered_timeout h hidle.1
        next => exact h

/-! ## The running queries -/

/-- What a step makes of the running queries: nothing new, or a query more, or one less, or the
query that is due first has been served. -/
inductive Changed (w : DeviceInterrogator P D E) (a : Step P D E)
    (queries : List (BaseQuery P D E)) : Prop
  | same (h : queries.Perm w.runningQueries)
  | queued (q : BaseQuery P D E) (req : Request P D E) (now : Int) (sendOk : Bool) (spare : Nat)
      (ha : a = .queue req now sendOk spare) (hnumber : q.number = w.requests.length)
      (hdeadline : q.deadline = now + seconds 1) (h : queries.Perm (q :: w.runningQueries))
  | removed (q : BaseQuery P D E) (h : (q :: queries).Perm w.runningQueries)
  | served (front q : BaseQuery P D E) (rest : List (BaseQuery P D E))
      (hold : (front :: rest).Perm w.runningQueries)
      (hfirst : ∀ r ∈ w.runningQueries, front.deadline ≤ r.deadline)
      (hnumber : q.number = front.number) (hmax : q.maxRetries = front.maxRetries)
      (hretries : q.retries = front.retries + 1) (hlow : front.deadline ≤ q.deadline)
      (hhigh : q.deadline ≤ front.deadline + seconds 1) (h : queries.Perm (q :: rest))

theorem runningQueries_scan_perm (packet : P) (sender : E) (it : Nat) (orderDestroyed : Bool) :
    (w.scan packet sender it orderDestroyed).runningQueries.Perm w.runningQueries := by
  unfold scan
  split
  · split <;> exact .refl _
  · split
    · rw [runningQueries_rescheduleTimer]
      exact makeHeap_perm _ _
    · rw [runningQueries_rescheduleTimer]

/-- A timer handler without an error serves the query that is due first. -/
theorem served_timeout (h : IsHeap BaseQuery.lt w.runningQueries)
    (hne : w.runningQueries ≠ []) (sendOk : Bool) :
    ∃ front q rest, (front :: rest).Perm w.runningQueries ∧
      (∀ r ∈ w.runningQueries, front.deadline ≤ r.deadline) ∧
      q.number = front.number ∧ q.maxRetries = front.maxRetries ∧
      q.retries = front.retries + 1 ∧ front.deadline ≤ q.deadline ∧
      q.deadline ≤ front.deadline + seconds 1 ∧
      (w.timeout false sendOk).runningQueries.Perm (q :: rest) := by
  obtain ⟨front, rest, hqueries⟩ := List.exists_cons_of_ne_nil hne
  have hfirst : ∀ r ∈ w.runningQueries, front.deadline ≤ r.deadline := by
    intro r hr
    have hlt := (hqueries ▸ h).front weakOrder_lt (hqueries ▸ hr)
    unfold BaseQuery.lt at hlt
    simpa using hlt
  have hsecond : (0 : Int) ≤ seconds 1 := by decide
  obtain ⟨l, hperm, -, ⟨events, hfail⟩ | hresend⟩ := timeout_cons h hqueries sendOk
  · refine ⟨front, { front with retries := front.retries + 1 }, l, hperm, hfirst, rfl, rfl, rfl,
      le_rfl, by show front.deadline ≤ _; omega, ?_⟩
    rw [hfail]
    exact List.perm_append_singleton _ l
  · refine ⟨front, { front with retries := front.retries + 1, deadline := front.deadline + seconds 1 },
      l, hperm, hfirst, rfl, rfl, rfl, by show _ ≤ front.deadline + seconds 1; omega, le_rfl, ?_⟩
    rw [hresend, runningQueries_rescheduleTimer]
    exact (pushHeap_perm _ _).trans (List.perm_append_singleton _ l)

theorem changed_callbackReturns :
    w.Changed .callbackReturns w.callbackReturns.runningQueries := by
  unfold callbackReturns
  split
  · exact .same (.refl _)
  · split
    next => exact .same (.refl _)
    next packet sender storage it hhandler =>
      split
      · have hscan := @runningQueries_scan_perm _ _ _
          { w with runningQueries := w.runningQueries.eraseIdx it } packet sender it true
        by_cases hlt : it < w.runningQueries.length
        · exact .removed w.runningQueries[it]
            ((hscan.cons _).trans (List.getElem_cons_eraseIdx_perm hlt))
        · refine .same (hscan.trans ?_)
          show (w.runningQueries.eraseIdx it).Perm _
          rw [List.eraseIdx_of_length_le (Nat.le_of_not_lt hlt)]
      · exact .same (.refl _)
    next =>
      rw [runningQueries_rescheduleTimer]
      rcases List.eq_nil_or_concat w.runningQueries with hnil | ⟨rest, back, hconcat⟩
      · refine .same ?_
        show w.runningQueries.dropLast.Perm w.runningQueries
        rw [hnil]
        exact .refl _
      · refine .removed back ?_
        show (back :: w.runningQueries.dropLast).Perm w.runningQueries
        rw [hconcat, List.concat_eq_append, List.dropLast_concat]
        exact (List.perm_append_singleton back rest).symm

/-- **One step** on the running queries. -/
theorem changed_step (a : Step P D E) (h : w.Ordered w.handler) :
    w.Changed a (step a w).runningQueries := by
  unfold step
  split
  · exact .same (.refl _)
  · cases a with
    | queue req now sendOk spare =>
      cases sendOk with
      | false => exact .same (.refl _)
      | true =>
        refine .queued (w.newQuery req now) req now true spare rfl rfl rfl ?_
        have hpushed : (w.pushed req now spare).runningQueries.Perm
            (w.newQuery req now :: w.runningQueries) := by
          rw [runningQueries_pushed]
          exact (pushHeap_perm _ _).trans (List.perm_append_singleton _ _)
        show (w.queueQuery req now true spare).runningQueries.Perm _
        rw [queueQuery_sent]
        split
        · rw [runningQueries_rescheduleTimer]
          exact hpushed
        · exact hpushed
    | callbackReturns => exact changed_callbackReturns
    | receive packet sender =>
      refine .same ?_
      show (if w.Idle then w.packetReceived packet sender else w).runningQueries.Perm _
      split
      · exact runningQueries_scan_perm _ _ _ _
      · exact .refl _
    | expire =>
      refine .same ?_
      show (if w.Idle then { w with timer := w.timer.expire } else w).runningQueries.Perm _
      split <;> exact .refl _
    | dispatch sendOk =>
      cases hposted : w.timer.posted with
      | nil => exact .same (.refl _)
      | cons err posted =>
        show w.Changed _ (if w.Idle then
          { w with timer := { w.timer with posted := posted } }.timeout err sendOk else w).runningQueries
        split
        next hidle =>
          rw [hidle.1] at h
          cases err with
          | true => exact .same (.refl _)
          | false =>
            by_cases hnil : w.runningQueries = []
            · rw [timeout_nil (w := { w with timer := { w.timer with posted := posted } }) hnil]
              exact .same (.refl _)
            · obtain ⟨front, q, rest, hold, hfirst, hnumber, hmax, hretries, hlow, hhigh, hnew⟩ :=
                @served_timeout _ _ _ { w with timer := { w.timer with posted := posted } }
                  h hnil sendOk
              exact .served front q rest hold hfirst hnumber hmax hretries hlow hhigh hnew
        next => exact .same (.refl _)

/-! ## What is left to do for a query -/

/-- The tries left to the queries that are due by the time `t`. -/
def triesBefore (t : Int) (queries : List (BaseQuery P D E)) : Nat :=
  remainingTries (queries.filter fun q => q.deadline ≤ t)

/-- The query number `n` will have been served for the last time by the time `t`. -/
def DoneBy (t : Int) (n : Nat) (queries : List (BaseQuery P D E)) : Prop :=
  ∀ q ∈ queries, q.number = n → q.deadline + seconds (q.maxRetries + 1 - q.retries) ≤ t

theorem triesBefore_perm {t : Int} {queries queries' : List (BaseQuery P D E)}
    (h : queries.Perm queries') : triesBefore t queries = triesBefore t queries' :=
  remainingTries_perm (h.filter _)

theorem triesBefore_cons (t : Int) (q : BaseQuery P D E) (queries : List (BaseQuery P D E)) :
    triesBefore t (q :: queries) =
      (if q.deadline ≤ t then (q.maxRetries + 1 - q.retries).toNat else 0) + triesBefore t queries := by
  unfold triesBefore
  rw [List.filter_cons]
  by_cases hdue : q.deadline ≤ t
  · rw [if_pos (decide_eq_true hdue), if_pos hdue]
    simp [remainingTries]
  · rw [if_neg (by simpa using hdue), if_neg hdue, Nat.zero_add]

/-- Nothing is added for the queries that are due before a new one can be. -/
theorem Changed.triesBefore_le {a : Step P D E} {queries : List (BaseQuery P D E)} {t : Int}
    (h : w.Changed a queries)
    (hlater : ∀ req now sendOk spare, a = .queue req now sendOk spare → t ≤ now) :
    triesBefore t queries ≤ triesBefore t w.runningQueries := by
  have hsecond : (0 : Int) < seconds 1 := by decide
  cases h with
  | same h => exact (triesBefore_perm h).le
  | queued q req now sendOk spare ha hnumber hdeadline h =>
    have hnow := hlater req now sendOk spare ha
    rw [triesBefore_perm h, triesBefore_cons, if_neg (by omega), Nat.zero_add]
  | removed q h =>
    rw [← triesBefore_perm h, triesBefore_cons]
    exact Nat.le_add_left _ _
  | served front q rest hold hfirst hnumber hmax hretries hlow hhigh h =>
    rw [triesBefore_perm h, ← triesBefore_perm hold, triesBefore_cons, triesBefore_cons]
    refine Nat.add_le_add_right ?_ _
    by_cases hdue : q.deadline ≤ t
    · rw [if_pos hdue, if_pos (by omega), hmax, hretries]
      omega
    · rw [if_neg hdue]
      exact Nat.zero_le _

theorem Changed.doneBy {a : Step P D E} {queries : List (BaseQuery P D E)} {t : Int} {n : Nat}
    (h : w.Changed a queries) (hn : n < w.requests.length) (hdone : DoneBy t n w.runningQueries) :
    DoneBy t n queries := by
  intro r hr hrn
  cases h with
  | same h => exact hdone r (h.mem_iff.mp hr) hrn
  | queued q req now sendOk spare ha hnumber hdeadline h =>
    rcases List.mem_cons.mp (h.mem_iff.mp hr) with rfl | hr
    · omega
    · exact hdone r hr hrn
  | removed q h => exact hdone r (h.mem_iff.mp (List.mem_cons_of_mem q hr)) hrn
  | served front q rest hold hfirst hnumber hmax hretries hlow hhigh h =>
    rcases List.mem_cons.mp (h.mem_iff.mp hr) with rfl | hr
    · have hfront := hdone front (hold.mem_iff.mp List.mem_cons_self) (hnumber ▸ hrn)
      rw [hmax, hretries]
      unfold seconds at hfront hhigh ⊢
      omega
    · exact hdone r (hold.mem_iff.mp (List.mem_cons_of_mem front hr)) hrn

/-- Serving the query that is due first uses up one of the tries that count. -/
theorem triesBefore_timeout {t : Int} {n : Nat} (h : IsHeap BaseQuery.lt w.runningQueries)
    (hledger : Ledger w.runningQueries w.requests w.trace none) (hn : n ∈ numbers w.runningQueries)
    (hdone : DoneBy t n w.runningQueries) (sendOk : Bool) :
    triesBefore t (w.timeout false sendOk).runningQueries < triesBefore t w.runningQueries := by
  obtain ⟨q, hq, rfl⟩ := List.mem_map.mp hn
  obtain ⟨front, q', rest, hold, hfirst, -, hmax, hretries, hlow, -, hnew⟩ :=
    served_timeout h (List.ne_nil_of_mem hq) sendOk
  have hend := hdone q hq rfl
  have htries := (hledger.tries q hq nofun).2
  have hfront := (hledger.tries front (hold.mem_iff.mp List.mem_cons_self) nofun).2
  have hfrontDue : front.deadline ≤ t := by
    have hle := hfirst q hq
    unfold seconds at hend
    omega
  rw [triesBefore_perm hnew, ← triesBefore_perm hold, triesBefore_cons, triesBefore_cons,
    if_pos hfrontDue]
  refine Nat.add_lt_add_right ?_ _
  split
  · rw [hmax, hretries]
    omega
  · omega

/-! ## The handlers of the timer -/

/-- The timer has been left alone or has got more handlers to run. -/
def Posts (w w' : DeviceInterrogator P D E) : Prop :=
  ∃ more, w'.timer.posted = w.timer.posted ++ more

theorem Posts.of_eq {w' : DeviceInterrogator P D E} (h : w'.timer = w.timer) : w.Posts w' :=
  ⟨[], by rw [h, List.append_nil]⟩

theorem posts_rescheduleTimer : w.Posts w.rescheduleTimer := by
  unfold rescheduleTimer
  split
  · exact .of_eq rfl
  · exact ⟨_, rfl⟩

theorem posts_scan (packet : P) (sender : E) (it : Nat) (orderDestroyed : Bool) :
    w.Posts (w.scan packet sender it orderDestroyed) := by
  unfold scan
  split
  · split <;> exact .of_eq rfl
  · split
    · exact @posts_rescheduleTimer _ _ _ { w with
        handler := none, runningQueries := makeHeap BaseQuery.lt w.runningQueries }
    · exact @posts_rescheduleTimer _ _ _ { w with handler := none }

theorem timer_pushed (req : Request P D E) (now : Int) (spare : Nat) :
    (w.pushed req now spare).timer = w.timer := by
  unfold pushed pushBack record
  dsimp only
  split <;> rfl

theorem posts_queueQuery (req : Request P D E) (now : Int) (sendOk : Bool) (spare : Nat) :
    w.Posts (w.queueQuery req now sendOk spare) := by
  cases sendOk with
  | false => exact .of_eq rfl
  | true =>
    rw [queueQuery_sent]
    split
    · obtain ⟨more, hmore⟩ := @posts_rescheduleTimer _ _ _ (w.pushed req now spare)
      exact ⟨more, hmore.trans (by rw [timer_pushed])⟩
    · exact .of_eq (timer_pushed req now spare)

theorem posts_callbackReturns : w.Posts w.callbackReturns := by
  unfold callbackReturns
  split
  · exact .of_eq rfl
  · split
    · exact .of_eq rfl
    next packet sender storage it _ =>
      split
      · exact @posts_scan _ _ _ { w with runningQueries := w.runningQueries.eraseIdx it } packet
          sender it true
      · exact .of_eq rfl
    · exact @posts_rescheduleTimer _ _ _ { w with
        runningQueries := w.runningQueries.dropLast, handler := none }

/-- A handler of the timer goes only by being run. -/
theorem posted_step (a : Step P D E) : w.Posts (step a w) ∨
    (w.undefinedBehaviour = false ∧ w.Idle ∧ ∃ sendOk err posted, a = .dispatch sendOk ∧
      w.timer.posted = err :: posted ∧ step a w =
        { w with timer := { w.timer with posted := posted } }.timeout err sendOk) := by
  by_cases hundefined : w.undefinedBehaviour = true
  · refine .inl (.of_eq ?_)
    unfold step
    rw [if_pos hundefined]
  have hdefined : ¬ w.undefinedBehaviour = true := hundefined
  unfold step
  rw [if_neg hundefined]
  cases a with
  | queue req now sendOk spare => exact .inl (posts_queueQuery req now sendOk spare)
  | callbackReturns => exact .inl posts_callbackReturns
  | receive packet sender =>
    left
    show w.Posts (if w.Idle then w.packetReceived packet sender else w)
    split
    · exact @posts_scan _ _ _ (w.record [.received packet sender]) packet sender 0 false
    · exact .of_eq rfl
  | expire =>
    left
    show w.Posts (if w.Idle then { w with timer := w.timer.expire } else w)
    split
    · exact ⟨_, rfl⟩
    · exact .of_eq rfl
  | dispatch sendOk =>
    cases hposted : w.timer.posted with
    | nil => exact .inl (.of_eq rfl)
    | cons err posted =>
      by_cases hidle : w.Idle
      · refine .inr ⟨Bool.eq_false_of_not_eq_true hdefined, hidle, sendOk, err, posted, rfl, rfl, ?_⟩
        exact if_pos hidle
      · refine .inl (.of_eq ?_)
        show (if w.Idle then { w with timer := { w.timer with posted := posted } }.timeout err sendOk
          else w).timer = _
        rw [if_neg hidle]

/-- No request is forgotten. -/
theorem requests_scan (packet : P) (sender : E) (it : Nat) (orderDestroyed : Bool) :
    (w.scan packet sender it orderDestroyed).requests = w.requests := by
  unfold scan
  split
  · split <;> rfl
  · split <;> rw [requests_rescheduleTimer]

theorem requests_timeout (err sendOk : Bool) : (w.timeout err sendOk).requests = w.requests := by
  unfold timeout
  split
  · rfl
  · dsimp only
    split
    · rfl
    · split
      · rfl
      · split
        · rw [requests_rescheduleTimer]
          rfl
        · rfl

theorem requests_callbackReturns : w.callbackReturns.requests = w.requests := by
  unfold callbackReturns
  split
  · rfl
  · split
    · rfl
    · split
      · rw [requests_scan]
      · rfl
    · rw [requests_rescheduleTimer]

theorem requests_queueQuery (req : Request P D E) (now : Int) (sendOk : Bool) (spare : Nat) :
    (w.queueQuery req now sendOk spare).requests = w.requests ++ [req] := by
  cases sendOk with
  | false => rfl
  | true =>
    have hpushed : (w.pushed req now spare).requests = w.requests ++ [req] := by
      unfold pushed pushBack record
      dsimp only
      split <;> rfl
    rw [queueQuery_sent]
    split
    · rw [requests_rescheduleTimer, hpushed]
    · exact hpushed

/-- The steps that do not queue a query. -/
def Step.passive : Step P D E → Bool
  | .queue .. => false
  | _ => true

theorem requests_passive {a : Step P D E} (ha : a.passive = true) :
    (step a w).requests = w.requests := by
  unfold step
  split
  · rfl
  · cases a with
    | queue req now sendOk spare => cases ha
    | callbackReturns => exact requests_callbackReturns
    | receive packet sender =>
      show (if w.Idle then w.packetReceived packet sender else w).requests = _
      split
      · exact requests_scan packet sender 0 false
      · rfl
    | expire =>
      show (if w.Idle then { w with timer := w.timer.expire } else w).requests = _
      split <;> rfl
    | dispatch sendOk =>
      cases hposted : w.timer.posted with
      | nil => rfl
      | cons err posted =>
        show (if w.Idle then
          { w with timer := { w.timer with posted := posted } }.timeout err sendOk else w).requests = _
        split
        · exact requests_timeout err sendOk
        · rfl

theorem requests_step (a : Step P D E) : w.requests <+: (step a w).requests := by
  cases hpassive : a.passive with
  | true => rw [requests_passive hpassive]
  | false =>
    cases a with
    | queue req now sendOk spare =>
      unfold step
      split
      · exact List.prefix_rfl
      · show _ <+: (w.queueQuery req now sendOk spare).requests
        rw [requests_queueQuery]
        exact List.prefix_append _ _
    | receive packet sender => cases hpassive
    | expire => cases hpassive
    | dispatch sendOk => cases hpassive
    | callbackReturns => cases hpassive

/-! ## Infinite runs -/

variable {w : Nat → DeviceInterrogator P D E} {a : Nat → Option (Step P D E)}

/-- A run without end, in which the interrogator may also rest. -/
structure InfiniteRun (w : Nat → DeviceInterrogator P D E) (a : Nat → Option (Step P D E)) :
    Prop where
  start : w 0 = init
  next : ∀ m, w (m + 1) = (a m).elim (w m) fun s => step s (w m)
  harmless : ∀ m s, a m = some s → (w m).Harmless s

/-- The timer expires and the I/O service runs handlers of the timer again and again, and the
clock passes every time. -/
structure Fair (w : Nat → DeviceInterrogator P D E) (a : Nat → Option (Step P D E)) : Prop where
  expires : InfinitelyOften fun m => (w m).Idle ∧ a m = some .expire
  dispatches : InfinitelyOften fun m => (w m).Idle ∧ ∃ sendOk, a m = some (.dispatch sendOk)
  clock : ∀ t, ∃ m₀, ∀ m, m₀ ≤ m → ∀ req now sendOk spare,
    a m = some (.queue req now sendOk spare) → t ≤ now

theorem InfiniteRun.sound (h : InfiniteRun w a) (m : Nat) :
    (w m).Sound ∧ (w m).Ordered (w m).handler := by
  induction m with
  | zero =>
    rw [h.start]
    exact ⟨sound_init, fun k _ _ => less_of_length_le (Nat.zero_le _)⟩
  | succ m ih =>
    rw [h.next]
    cases hstep : a m with
    | none => exact ih
    | some s => exact ⟨sound_step _ s ih.1 (h.harmless m s hstep), ordered_step s ih.2 (h.harmless m s hstep)⟩

/-- The query `n` is not answered, will have been served for the last time by the time `t`, and
no more than `k` tries are left before. -/
structure Waiting (w : DeviceInterrogator P D E) (n : Nat) (t : Int) (k : Nat) : Prop where
  queued : n < w.requests.length
  unanswered : answered w.trace n = 0
  done : DoneBy t n w.runningQueries
  tries : triesBefore t w.runningQueries ≤ k

theorem Waiting.mem {w : DeviceInterrogator P D E} {n k : Nat} {t : Int} (h : w.Waiting n t k)
    (hsound : w.Sound) : n ∈ numbers w.runningQueries := by
  have hcount := hsound.accounted.kept n h.queued h.unanswered
  exact List.count_pos_iff.mp (hcount ▸ Nat.one_pos)

/-- A query that waits has a try left. -/
theorem Waiting.tries_pos {w : DeviceInterrogator P D E} {n k : Nat} {t : Int}
    (h : w.Waiting n t k) (hsound : w.Sound) : 0 < triesBefore t w.runningQueries := by
  obtain ⟨service, hledger⟩ := hsound.ledger
  have hmem := h.mem hsound
  have hother : service ≠ some n := by
    intro hservice
    have hbalance := hledger.balance n h.queued
    have hcount := List.nodup_iff_count_le_one.mp hledger.nodup n
    rw [if_pos hservice, h.unanswered] at hbalance
    omega
  obtain ⟨q, hq, rfl⟩ := List.mem_map.mp hmem
  have htries := (hledger.tries q hq hother).2
  have hdone := h.done q hq rfl
  obtain ⟨before, after, hsplit⟩ := List.append_of_mem hq
  have hdue : q.deadline ≤ t := by
    unfold seconds at hdone
    omega
  rw [hsplit, triesBefore_perm List.perm_middle, triesBefore_cons, if_pos hdue]
  omega

theorem Waiting.step {w : DeviceInterrogator P D E} {n k : Nat} {t : Int} (h : w.Waiting n t k)
    (hordered : w.Ordered w.handler) (s : Step P D E)
    (hlater : ∀ req now sendOk spare, s = .queue req now sendOk spare → t ≤ now) :
    0 < answered (DeviceInterrogator.step s w).trace n ∨
      (DeviceInterrogator.step s w).Waiting n t k := by
  have hchanged := changed_step s hordered
  rcases Nat.eq_zero_or_pos (answered (DeviceInterrogator.step s w).trace n) with hzero | hpos
  · exact .inr ⟨Nat.lt_of_lt_of_le h.queued (requests_step s).length_le, hzero,
      hchanged.doneBy h.queued h.done, (hchanged.triesBefore_le hlater).trans h.tries⟩
  · exact .inl hpos

section Progress

variable {n k m₀ : Nat} {t : Int}

theorem InfiniteRun.waiting_next (h : InfiniteRun w a)
    (hclock : ∀ m, m₀ ≤ m → ∀ req now sendOk spare,
      a m = some (.queue req now sendOk spare) → t ≤ now) {m : Nat}
    (hm : m₀ ≤ m ∧ (w m).Waiting n t k) :
    0 < answered (w (m + 1)).trace n ∨ (m₀ ≤ m + 1 ∧ (w (m + 1)).Waiting n t k) := by
  obtain ⟨hle, hwaiting⟩ := hm
  rw [h.next]
  cases hstep : a m with
  | none => exact .inr ⟨by omega, hwaiting⟩
  | some s =>
    refine (hwaiting.step (h.sound m).2 s fun req now sendOk spare hs => ?_).imp_right
      fun hnext => ⟨by omega, hnext⟩
    exact hclock m hle req now sendOk spare (hs ▸ hstep)

/-- The timer expires: a handler without an error is to run. -/
theorem leadsTo_posted (h : InfiniteRun w a) (hfair : Fair w a)
    (hclock : ∀ m, m₀ ≤ m → ∀ req now sendOk spare,
      a m = some (.queue req now sendOk spare) → t ≤ now) :
    LeadsTo (fun m => m₀ ≤ m ∧ (w m).Waiting n t k) (fun m => 0 < answered (w m).trace n ∨
      ((m₀ ≤ m ∧ (w m).Waiting n t k) ∧ false ∈ (w m).timer.posted)) := by
  refine leadsTo_of_helpful (fun _ => 0) hfair.expires fun m hm => ?_
  rcases h.waiting_next hclock hm with hanswered | hnext
  · exact .inl (.inl hanswered)
  · by_cases hhelpful : (w m).Idle ∧ a m = some .expire
    · obtain ⟨hidle, hstep⟩ := hhelpful
      obtain ⟨hsound, -⟩ := h.sound m
      refine .inl (.inr ⟨hnext, ?_⟩)
      have hne : (w m).runningQueries ≠ [] := by
        intro hnil
        have hmem := hm.2.mem hsound
        rw [hnil] at hmem
        exact absurd hmem List.not_mem_nil
      have hrunning : (w m).timer.Running := hsound.accounted.timer hidle hne
      have hexpired : w (m + 1) = { w m with timer := (w m).timer.expire } := by
        rw [h.next, hstep]
        show step .expire (w m) = _
        unfold step
        rw [if_neg (by rw [hsound.1]; exact Bool.false_ne_true)]
        exact if_pos hidle
      rw [hexpired]
      rcases hrunning.expire with hwaits | hmem
      · exact absurd hwaits (Nat.lt_irrefl 0)
      · exact hmem
    · exact .inr ⟨hnext, Nat.le_refl _, fun hyes => absurd hyes hhelpful⟩

/-- The handlers are run in turn, and that one serves a query. -/
theorem leadsTo_served (h : InfiniteRun w a) (hfair : Fair w a)
    (hclock : ∀ m, m₀ ≤ m → ∀ req now sendOk spare,
      a m = some (.queue req now sendOk spare) → t ≤ now) :
    LeadsTo (fun m => (m₀ ≤ m ∧ (w m).Waiting n t (k + 1)) ∧ false ∈ (w m).timer.posted)
      (fun m => 0 < answered (w m).trace n ∨ (m₀ ≤ m ∧ (w m).Waiting n t k)) := by
  refine leadsTo_of_helpful (fun m => (w m).timer.posted.idxOf false) hfair.dispatches ?_
  rintro m ⟨hm, hmem⟩
  obtain ⟨hsound, hordered⟩ := h.sound m
  rcases h.waiting_next hclock hm with hanswered | hnext
  · exact .inl (.inl hanswered)
  by_cases hhelpful : (w m).Idle ∧ ∃ sendOk, a m = some (.dispatch sendOk)
  · obtain ⟨hidle, sendOk, hstep⟩ := hhelpful
    cases hposted : (w m).timer.posted with
    | nil =>
      rw [hposted] at hmem
      exact absurd hmem List.not_mem_nil
    | cons err posted =>
      have hrun : w (m + 1) =
          { w m with timer := { (w m).timer with posted := posted } }.timeout err sendOk := by
        rw [h.next, hstep]
        show step (.dispatch sendOk) (w m) = _
        unfold step
        rw [if_neg (by rw [hsound.1]; exact Bool.false_ne_true)]
        simp only [hposted]
        exact if_pos hidle
      cases err with
      | false =>
        rw [hidle.1] at hordered
        have hledger : Ledger (w m).runningQueries (w m).requests (w m).trace none :=
          (hidle.1 ▸ hsound.2 : (w m).Served none).1
        have hless := @triesBefore_timeout _ _ _
          { w m with timer := { (w m).timer with posted := posted } } t n hordered hledger
          (hm.2.mem hsound) hm.2.done sendOk
        rw [← hrun] at hless
        have hbound := hm.2.tries
        have hfewer : triesBefore t (w (m + 1)).runningQueries ≤ k :=
          Nat.le_of_lt_succ (Nat.lt_of_lt_of_le hless hbound)
        exact .inl (.inr ⟨hnext.1, { hnext.2 with tries := hfewer }⟩)
      | true =>
        have hrest : (w (m + 1)).timer.posted = posted := by
          rw [hrun]
          rfl
        rw [hposted] at hmem
        have hmem' : false ∈ posted := (List.mem_cons.mp hmem).resolve_left Bool.false_ne_true
        refine .inr ⟨⟨hnext, hrest ▸ hmem'⟩, ?_, fun _ => ?_⟩
        all_goals
          rw [hrest, List.idxOf_cons_ne _ Bool.false_ne_true.symm]
          omega
  · have hposts : (w m).Posts (w (m + 1)) := by
      rw [h.next]
      cases hstep : a m with
      | none => exact .of_eq rfl
      | some s =>
        rcases posted_step (w := w m) s with hposts | ⟨-, hidle, sendOk, -, -, hs, -⟩
        · exact hposts
        · exact absurd ⟨hidle, sendOk, hs ▸ hstep⟩ hhelpful
    obtain ⟨more, hmore⟩ := hposts
    refine .inr ⟨⟨hnext, hmore ▸ List.mem_append_left _ hmem⟩, ?_, fun hyes => absurd hyes hhelpful⟩
    rw [hmore, List.idxOf_append_of_mem hmem]

theorem leadsTo_answered (h : InfiniteRun w a) (hfair : Fair w a)
    (hclock : ∀ m, m₀ ≤ m → ∀ req now sendOk spare,
      a m = some (.queue req now sendOk spare) → t ≤ now) :
    LeadsTo (fun m => m₀ ≤ m ∧ (w m).Waiting n t k) fun m => 0 < answered (w m).trace n := by
  induction k with
  | zero =>
    intro m hm
    have hpos := hm.2.tries_pos (h.sound m).1
    have hnone := hm.2.tries
    omega
  | succ k ih =>
    have hanswered : LeadsTo (fun m => 0 < answered (w m).trace n)
        fun m => 0 < answered (w m).trace n := .of_imp fun m hm => hm
    have hserved := (leadsTo_served (k := k) h hfair hclock).trans (hanswered.or ih)
    exact (leadsTo_posted h hfair hclock).trans (hanswered.or hserved)

end Progress

/-- **Every query is answered at last** by one of its callbacks. -/
theorem answered_of_fair (h : InfiniteRun w a) (hfair : Fair w a) (n : Nat) :
    LeadsTo (fun m => n < (w m).requests.length) fun m => 0 < answered (w m).trace n := by
  intro m hm
  by_cases hzero : answered (w m).trace n = 0
  · -- the time by which the query will have been served for the last time
    obtain ⟨t, hdone⟩ : ∃ t, DoneBy t n (w m).runningQueries := by
      obtain ⟨service, hledger⟩ := (h.sound m).1.ledger
      have hcount := (h.sound m).1.accounted.kept n hm hzero
      obtain ⟨q, hq, rfl⟩ := List.mem_map.mp (List.count_pos_iff.mp (hcount ▸ Nat.one_pos))
      refine ⟨q.deadline + seconds (q.maxRetries + 1 - q.retries), fun q' hq' hn => ?_⟩
      rw [hledger.number_inj hq' hq hn]
    obtain ⟨m₀, hclock⟩ := hfair.clock t
    have hwait : ∀ j, (∃ m', m ≤ m' ∧ 0 < answered (w m').trace n) ∨
        (n < (w (m + j)).requests.length ∧ answered (w (m + j)).trace n = 0 ∧
          DoneBy t n (w (m + j)).runningQueries) := by
      intro j
      induction j with
      | zero => exact .inr ⟨hm, hzero, hdone⟩
      | succ j ih =>
        rcases ih with hearlier | ⟨hqueued, hunanswered, hstill⟩
        · exact .inl hearlier
        · have hnext := h.next (m + j)
          rw [← Nat.add_assoc]
          cases hstep : a (m + j) with
          | none =>
            rw [hstep] at hnext
            rw [hnext]
            exact .inr ⟨hqueued, hunanswered, hstill⟩
          | some s =>
            replace hnext : w (m + j + 1) = step s (w (m + j)) := by rw [hnext, hstep]; rfl
            rcases Nat.eq_zero_or_pos (answered (w (m + j + 1)).trace n) with hnot | hpos
            · refine .inr ⟨?_, hnot, ?_⟩
              · rw [hnext]
                exact Nat.lt_of_lt_of_le hqueued (requests_step s).length_le
              · rw [hnext]
                exact (changed_step s (h.sound (m + j)).2).doneBy hqueued hstill
            · exact .inl ⟨m + j + 1, by omega, hpos⟩
    rcases hwait m₀ with hearlier | ⟨hqueued, hunanswered, hstill⟩
    · exact hearlier
    · obtain ⟨m', hm', hanswered⟩ := leadsTo_answered h hfair hclock (m + m₀)
        ⟨Nat.le_add_left _ _, hqueued, hunanswered, hstill, Nat.le_refl _⟩
      exact ⟨m', by omega, hanswered⟩
  · exact ⟨m, Nat.le_refl m, Nat.pos_of_ne_zero hzero⟩

end DeviceInterrogator

end Hexabus.Host
