import Hexabus.Host.DeviceInterrogator

/-!
# What becomes of a query

Every query is either still running, and then neither of its callbacks has been called, or
one of them has been called once and the query is gone. A ledger of queries, requests and
events keeps the account (`Ledger`); each thing the interrogator does with a query is one
entry in it. The position of the loop of `packet_received` and the back of the vector in
`timeout` name the query whose callback is running, as long as no callback moves it.
-/

namespace Hexabus.Host

open Lib.Heap Lib.Runs

variable {P D E : Type}

/-! ## What has to hold -/

/-- The event is the call of a callback of the query `n`. -/
def Event.answers (n : Nat) : Event P E → Bool
  | .response m _ _ | .failure m => m = n
  | _ => false

/-- The event is a transmission of the query `n`. -/
def Event.transmits (n : Nat) : Event P E → Bool
  | .sent m => m = n
  | _ => false

/-- How often a callback of the query has been called. -/
def answered (trace : List (Event P E)) (n : Nat) : Nat := trace.countP (Event.answers n)

/-- How often the query has been sent. -/
def transmissions (trace : List (Event P E)) (n : Nat) : Nat := trace.countP (Event.transmits n)

/-- The tries that the queries have left. -/
def remainingTries (queries : List (BaseQuery P D E)) : Nat :=
  (queries.map fun q => (q.maxRetries + 1 - q.retries).toNat).sum

/-- Every query is answered by exactly one call of a callback, and not before it is due. -/
structure DeviceInterrogator.Accounted (w : DeviceInterrogator P D E) : Prop where
  defined : w.undefinedBehaviour = false
  /-- No query is answered twice. -/
  once : ∀ n, answered w.trace n ≤ 1
  /-- No query is dropped: one that is not answered yet is running. -/
  kept : ∀ n < w.requests.length, answered w.trace n = 0 →
    (w.runningQueries.map BaseQuery.number).count n = 1
  /-- An answered query is gone when its callback has returned. -/
  removed : w.Idle → ∀ q ∈ w.runningQueries, answered w.trace q.number = 0
  /-- The response callback gets matching packets only, -/
  matching : ∀ n packet sender, .response n packet sender ∈ w.trace →
    ∃ req, w.requests[n]? = some req ∧ req.filter packet sender = true
  /-- and a packet that matches a query that is not answered yet answers it. -/
  firstMatch : w.Idle → ∀ before after packet sender,
    w.trace = before ++ .received packet sender :: after →
    ∀ n req, w.requests[n]? = some req → .queued n ∈ before → answered before n = 0 →
      req.filter packet sender = true → .response n packet sender ∈ after
  /-- The failure callback is called when the socket has refused the query or it has been
  sent as often as its request asks for, -/
  failed : ∀ n, .failure n ∈ w.trace → .refused n ∈ w.trace ∨
    ∃ req, w.requests[n]? = some req ∧ (transmissions w.trace n : Int) = req.maxTries
  /-- and no query is sent more often. -/
  bounded : ∀ n req, w.requests[n]? = some req → .sent n ∈ w.trace →
    (transmissions w.trace n : Int) ≤ req.maxTries
  /-- While a query is running so is the timer, -/
  timer : w.Idle → w.runningQueries ≠ [] → w.timer.Running
  /-- and whenever it goes off one of the tries that are left is used up. -/
  progress : w.Idle → w.runningQueries ≠ [] → ∀ sendOk,
    remainingTries (w.timeout false sendOk).runningQueries < remainingTries w.runningQueries

/-! ## The ledger -/

@[simp] theorem answered_append (trace more : List (Event P E)) (n : Nat) :
    answered (trace ++ more) n = answered trace n + answered more n := List.countP_append

@[simp] theorem transmissions_append (trace more : List (Event P E)) (n : Nat) :
    transmissions (trace ++ more) n = transmissions trace n + transmissions more n :=
  List.countP_append

/-- The numbers of the running queries. -/
def numbers (queries : List (BaseQuery P D E)) : List Nat := queries.map BaseQuery.number

/-- The account of the queries, where a callback of the query `service` is running. -/
structure Ledger (queries : List (BaseQuery P D E)) (requests : List (Request P D E))
    (trace : List (Event P E)) (service : Option Nat) : Prop where
  known : ∀ q ∈ queries, ∃ req, requests[q.number]? = some req ∧ req.filter = q.filter ∧
    req.maxTries = q.maxRetries + 1
  nodup : (numbers queries).Nodup
  balance : ∀ n < requests.length,
    answered trace n + (numbers queries).count n = if service = some n then 2 else 1
  fresh : ∀ n, requests.length ≤ n →
    answered trace n = 0 ∧ transmissions trace n = 0 ∧ .queued n ∉ trace
  served : ∀ n, service = some n → n ∈ numbers queries
  matching : ∀ n packet sender, .response n packet sender ∈ trace →
    ∃ req, requests[n]? = some req ∧ req.filter packet sender = true
  tries : ∀ q ∈ queries, service ≠ some q.number →
    (transmissions trace q.number : Int) = q.retries + 1 ∧ q.retries ≤ q.maxRetries
  failed : ∀ n, .failure n ∈ trace → .refused n ∈ trace ∨
    ∃ req, requests[n]? = some req ∧ (transmissions trace n : Int) = req.maxTries
  bounded : ∀ n req, requests[n]? = some req → .sent n ∈ trace →
    (transmissions trace n : Int) ≤ req.maxTries

theorem getElem?_concat_of_some {α : Type*} {l : List α} {n : Nat} {a : α} (b : α)
    (h : l[n]? = some a) : (l ++ [b])[n]? = some a := by
  rw [List.getElem?_append_left (List.getElem?_eq_some_iff.mp h).1]
  exact h

theorem getElem?_concat_cases {α : Type*} {l : List α} {n : Nat} {a b : α}
    (h : (l ++ [b])[n]? = some a) : l[n]? = some a ∨ n = l.length ∧ a = b := by
  rw [List.getElem?_append] at h
  split at h
  · exact .inl h
  · rename_i hn
    obtain ⟨hlt, hget⟩ := List.getElem?_eq_some_iff.mp h
    rw [List.length_singleton] at hlt
    refine .inr ⟨by omega, ?_⟩
    simpa using hget.symm

theorem remainingTries_perm {queries queries' : List (BaseQuery P D E)}
    (h : queries'.Perm queries) : remainingTries queries' = remainingTries queries :=
  (h.map _).sum_eq

namespace Ledger

variable {queries queries' : List (BaseQuery P D E)} {requests : List (Request P D E)}
  {trace : List (Event P E)} {service : Option Nat} {q : BaseQuery P D E}

theorem number_lt (h : Ledger queries requests trace service) (hq : q ∈ queries) :
    q.number < requests.length := by
  obtain ⟨req, hreq, -, -⟩ := h.known q hq
  exact (List.getElem?_eq_some_iff.mp hreq).1

theorem number_inj (h : Ledger queries requests trace service) {q' : BaseQuery P D E}
    (hq : q ∈ queries) (hq' : q' ∈ queries) (hn : q.number = q'.number) : q = q' :=
  List.inj_on_of_nodup_map h.nodup hq hq' hn

/-- A running query whose callback is not running has not been answered. -/
theorem unanswered (h : Ledger queries requests trace service) (hq : q ∈ queries)
    (hs : service ≠ some q.number) : answered trace q.number = 0 := by
  have hbalance := h.balance q.number (h.number_lt hq)
  have hcount : 0 < (numbers queries).count q.number :=
    List.count_pos_iff.mpr (List.mem_map_of_mem hq)
  rw [if_neg hs] at hbalance
  omega

theorem answered_le (h : Ledger queries requests trace service) (n : Nat) :
    answered trace n ≤ 1 := by
  by_cases hn : n < requests.length
  · have hbalance := h.balance n hn
    by_cases hs : service = some n
    · have hcount : 0 < (numbers queries).count n := List.count_pos_iff.mpr (h.served n hs)
      rw [if_pos hs] at hbalance
      omega
    · rw [if_neg hs] at hbalance
      omega
  · rw [(h.fresh n (Nat.not_lt.mp hn)).1]
    exact Nat.zero_le 1

theorem count_eq_one (h : Ledger queries requests trace service) {n : Nat}
    (hn : n < requests.length) (ha : answered trace n = 0) : (numbers queries).count n = 1 := by
  have hbalance := h.balance n hn
  have hle := List.nodup_iff_count_le_one.mp h.nodup n
  rw [ha, Nat.zero_add] at hbalance
  split at hbalance <;> omega

/-- The order of the queries does not matter. -/
theorem perm (h : Ledger queries requests trace service) (hp : queries'.Perm queries) :
    Ledger queries' requests trace service where
  known q hq := h.known q (hp.mem_iff.mp hq)
  nodup := (hp.map BaseQuery.number).nodup_iff.mpr h.nodup
  balance n hn := by
    have hcount := (hp.map BaseQuery.number).count_eq n
    unfold numbers
    rw [hcount]
    exact h.balance n hn
  fresh := h.fresh
  served n hs := (hp.map BaseQuery.number).mem_iff.mpr (h.served n hs)
  matching := h.matching
  tries q hq := h.tries q (hp.mem_iff.mp hq)
  failed := h.failed
  bounded := h.bounded

/-- A packet is received. -/
theorem receive (h : Ledger queries requests trace service) (packet : P) (sender : E) :
    Ledger queries requests (trace ++ [.received packet sender]) service where
  known := h.known
  nodup := h.nodup
  balance n hn := by
    rw [answered_append]
    exact h.balance n hn
  fresh n hn := by
    obtain ⟨ha, ht, hq⟩ := h.fresh n hn
    refine ⟨by rw [answered_append, ha]; rfl, by rw [transmissions_append, ht]; rfl, ?_⟩
    simpa using hq
  served := h.served
  matching n p s hr := h.matching n p s (by simpa using hr)
  tries q hq hs := by
    rw [transmissions_append]
    exact h.tries q hq hs
  failed n hf := by
    rw [transmissions_append]
    exact (h.failed n (by simpa using hf)).imp_left fun hr => List.mem_append_left _ hr
  bounded n req hreq hsent := by
    rw [transmissions_append]
    exact h.bounded n req hreq (by simpa using hsent)

/-- A query is sent and runs from now on. -/
theorem push (h : Ledger queries requests trace service) {req : Request P D E}
    (hnumber : q.number = requests.length) (hfilter : q.filter = req.filter)
    (hretries : q.retries = 0) (hmax : q.maxRetries = req.maxTries - 1) (htries : 1 ≤ req.maxTries) :
    Ledger (queries ++ [q]) (requests ++ [req]) (trace ++ [.queued q.number, .sent q.number])
      service where
  known q' hq' := by
    rcases List.mem_append.mp hq' with hq' | hq'
    · obtain ⟨req', hreq', hf, hm⟩ := h.known q' hq'
      exact ⟨req', getElem?_concat_of_some _ hreq', hf, hm⟩
    · obtain rfl := List.mem_singleton.mp hq'
      exact ⟨req, by rw [hnumber, List.getElem?_concat_length], hfilter.symm, by omega⟩
  nodup := by
    unfold numbers
    rw [List.map_append, List.map_singleton]
    refine List.nodup_append.mpr ⟨h.nodup, List.nodup_singleton _, ?_⟩
    intro n hn m hm
    obtain ⟨q', hq', rfl⟩ := List.mem_map.mp hn
    rw [List.mem_singleton.mp hm, hnumber]
    exact Nat.ne_of_lt (h.number_lt hq')
  balance n hn := by
    rw [List.length_append, List.length_singleton] at hn
    unfold numbers
    rw [answered_append, List.map_append, List.count_append, List.map_singleton]
    have hnone : answered [Event.queued (P := P) (E := E) q.number, .sent q.number] n = 0 := rfl
    rcases Nat.lt_or_ge n requests.length with hlt | hge
    · have hne : q.number ≠ n := by omega
      rw [hnone, List.count_singleton, beq_eq_false_iff_ne.mpr hne]
      exact h.balance n hlt
    · obtain rfl : n = q.number := by omega
      have hold : (queries.map BaseQuery.number).count q.number = 0 := by
        refine List.count_eq_zero.mpr fun hmem => ?_
        obtain ⟨q', hq', hn'⟩ := List.mem_map.mp hmem
        have hlt := h.number_lt hq'
        omega
      have hs : service ≠ some q.number := by
        intro hs
        obtain ⟨q', hq', hn'⟩ := List.mem_map.mp (h.served _ hs)
        have hlt := h.number_lt hq'
        omega
      rw [hnone, hold, (h.fresh _ hge).1, if_neg hs, List.count_singleton_self]
  fresh n hn := by
    rw [List.length_append, List.length_singleton] at hn
    obtain ⟨ha, ht, hq⟩ := h.fresh n (by omega)
    have hne : q.number ≠ n := by omega
    refine ⟨by rw [answered_append, ha]; rfl, ?_, ?_⟩
    · rw [transmissions_append, ht]
      simp [transmissions, Event.transmits, hne]
    · simpa [hq] using hne.symm
  served n hs := by
    unfold numbers
    rw [List.map_append]
    exact List.mem_append_left _ (h.served n hs)
  matching n p s hr := by
    obtain ⟨req', hreq', hf⟩ := h.matching n p s (by simpa using hr)
    exact ⟨req', getElem?_concat_of_some _ hreq', hf⟩
  tries q' hq' hs := by
    rw [transmissions_append]
    rcases List.mem_append.mp hq' with hq' | hq'
    · have hne : q.number ≠ q'.number := by
        have hlt := h.number_lt hq'
        omega
      simpa [transmissions, Event.transmits, hne] using h.tries q' hq' hs
    · obtain rfl := List.mem_singleton.mp hq'
      rw [(h.fresh _ (Nat.le_of_eq hnumber.symm)).2.1, hretries]
      refine ⟨?_, by omega⟩
      simp [transmissions, Event.transmits]
  failed n hf := by
    have hf : Event.failure n ∈ trace := by simpa using hf
    rw [transmissions_append]
    refine (h.failed n hf).imp (fun hr => List.mem_append_left _ hr) ?_
    rintro ⟨req', hreq', ht⟩
    have hlt := (List.getElem?_eq_some_iff.mp hreq').1
    have hne : q.number ≠ n := by omega
    refine ⟨req', getElem?_concat_of_some _ hreq', ?_⟩
    simpa [transmissions, Event.transmits, hne] using ht
  bounded n req' hreq' hsent := by
    rw [transmissions_append]
    rcases getElem?_concat_cases hreq' with hreq' | ⟨hn, rfl⟩
    · have hlt := (List.getElem?_eq_some_iff.mp hreq').1
      have hne : q.number ≠ n := by omega
      have hsent : Event.sent n ∈ trace := by simpa [hne.symm] using hsent
      simpa [transmissions, Event.transmits, hne] using h.bounded n req' hreq' hsent
    · rw [(h.fresh n (Nat.le_of_eq hn.symm)).2.1]
      simpa [transmissions, Event.transmits, hnumber, hn] using htries

/-- A query is refused at once, and its failure callback is called. -/
theorem reject (h : Ledger queries requests trace service) (req : Request P D E) :
    Ledger queries (requests ++ [req]) (trace ++ [.queued requests.length,
      .refused requests.length, .failure requests.length]) service where
  known q' hq' := by
    obtain ⟨req', hreq', hf, hm⟩ := h.known q' hq'
    exact ⟨req', getElem?_concat_of_some _ hreq', hf, hm⟩
  nodup := h.nodup
  balance n hn := by
    rw [List.length_append, List.length_singleton] at hn
    rw [answered_append]
    rcases Nat.lt_or_ge n requests.length with hlt | hge
    · have hne : requests.length ≠ n := by omega
      simpa [answered, Event.answers, hne] using h.balance n hlt
    · obtain rfl : n = requests.length := by omega
      have hold : (numbers queries).count requests.length = 0 := by
        refine List.count_eq_zero.mpr fun hmem => ?_
        obtain ⟨q', hq', hn'⟩ := List.mem_map.mp hmem
        have hlt := h.number_lt hq'
        omega
      have hs : service ≠ some requests.length := by
        intro hs
        obtain ⟨q', hq', hn'⟩ := List.mem_map.mp (h.served _ hs)
        have hlt := h.number_lt hq'
        omega
      rw [hold, (h.fresh _ hge).1, if_neg hs]
      simp [answered, Event.answers]
  fresh n hn := by
    rw [List.length_append, List.length_singleton] at hn
    obtain ⟨ha, ht, hq⟩ := h.fresh n (by omega)
    have hne : requests.length ≠ n := by omega
    refine ⟨?_, by rw [transmissions_append, ht]; rfl, by simpa [hq] using hne.symm⟩
    rw [answered_append, ha]
    simp [answered, Event.answers, hne]
  served := h.served
  matching n p s hr := by
    obtain ⟨req', hreq', hf⟩ := h.matching n p s (by simpa using hr)
    exact ⟨req', getElem?_concat_of_some _ hreq', hf⟩
  tries q' hq' hs := by
    rw [transmissions_append]
    exact h.tries q' hq' hs
  failed n hf := by
    rw [transmissions_append]
    by_cases hn : n = requests.length
    · exact .inl (by simp [hn])
    · have hf : Event.failure n ∈ trace := by simpa [hn] using hf
      refine (h.failed n hf).imp (fun hr => List.mem_append_left _ hr) ?_
      rintro ⟨req', hreq', ht⟩
      exact ⟨req', getElem?_concat_of_some _ hreq', ht⟩
  bounded n req' hreq' hsent := by
    have hsent : Event.sent n ∈ trace := by simpa using hsent
    rw [transmissions_append]
    rcases getElem?_concat_cases hreq' with hreq' | ⟨hn, rfl⟩
    · exact h.bounded n req' hreq' hsent
    · have hzero := (h.fresh n (Nat.le_of_eq hn.symm)).2.1
      exact absurd (List.countP_eq_zero.mp hzero _ hsent) (by simp [Event.transmits])

/-- The response callback of a running query is called. -/
theorem respond (h : Ledger queries requests trace none) (hq : q ∈ queries) {packet : P}
    {sender : E} (hmatch : q.filter packet sender = true) :
    Ledger queries requests (trace ++ [.response q.number packet sender]) (some q.number) where
  known := h.known
  nodup := h.nodup
  balance n hn := by
    rw [answered_append]
    have hbalance := h.balance n hn
    rw [if_neg nofun] at hbalance
    by_cases hnq : q.number = n
    · subst hnq
      rw [if_pos rfl]
      simp [answered, Event.answers] at hbalance ⊢
      omega
    · rw [if_neg fun hs => hnq (Option.some.inj hs)]
      simpa [answered, Event.answers, hnq] using hbalance
  fresh n hn := by
    obtain ⟨ha, ht, hqueued⟩ := h.fresh n hn
    have hlt := h.number_lt hq
    have hne : q.number ≠ n := by omega
    refine ⟨?_, by rw [transmissions_append, ht]; rfl, by simpa using hqueued⟩
    rw [answered_append, ha]
    simp [answered, Event.answers, hne]
  served n hs := by
    rw [← Option.some.inj hs]
    exact List.mem_map_of_mem hq
  matching n p s hr := by
    rcases List.mem_append.mp hr with hr | hr
    · exact h.matching n p s hr
    · obtain ⟨rfl, rfl, rfl⟩ : n = q.number ∧ p = packet ∧ s = sender := by simpa using hr
      obtain ⟨req, hreq, hfilter, -⟩ := h.known q hq
      exact ⟨req, hreq, by rw [hfilter, hmatch]⟩
  tries q' hq' _ := by
    rw [transmissions_append]
    exact h.tries q' hq' nofun
  failed n hf := by
    rw [transmissions_append]
    exact (h.failed n (by simpa using hf)).imp_left fun hr => List.mem_append_left _ hr
  bounded n req hreq hsent := by
    rw [transmissions_append]
    exact h.bounded n req hreq (by simpa using hsent)

/-- The callback has returned and the query is gone. -/
theorem remove (h : Ledger (q :: queries) requests trace (some q.number)) :
    Ledger queries requests trace none where
  known q' hq' := h.known q' (List.mem_cons_of_mem _ hq')
  nodup := (List.nodup_cons.mp h.nodup).2
  balance n hn := by
    have hbalance := h.balance n hn
    unfold numbers at hbalance ⊢
    rw [List.map_cons, List.count_cons] at hbalance
    rw [if_neg nofun]
    by_cases hnq : q.number = n
    · subst hnq
      rw [if_pos rfl, beq_self_eq_true, if_pos rfl] at hbalance
      omega
    · rw [if_neg fun hs => hnq (Option.some.inj hs), beq_eq_false_iff_ne.mpr hnq,
        if_neg Bool.false_ne_true] at hbalance
      exact hbalance
  fresh := h.fresh
  served n hs := nomatch hs
  matching := h.matching
  tries q' hq' _ := by
    refine h.tries q' (List.mem_cons_of_mem _ hq') fun hs => ?_
    refine (List.nodup_cons.mp h.nodup).1 ?_
    rw [Option.some.inj hs]
    exact List.mem_map_of_mem hq'
  failed := h.failed
  bounded := h.bounded

/-- The failure callback of a running query is called: its tries are used up, or the socket
refuses it. -/
theorem fail (h : Ledger (q :: queries) requests trace none) (q' : BaseQuery P D E)
    (hnumber : q'.number = q.number) (hfilter : q'.filter = q.filter)
    (hmax : q'.maxRetries = q.maxRetries) {events : List (Event P E)}
    (hevents : q.retries = q.maxRetries ∧ events = [.failure q.number] ∨
      events = [.refused q.number, .failure q.number]) :
    Ledger (q' :: queries) requests (trace ++ events) (some q.number) := by
  have hq : q ∈ q :: queries := List.mem_cons_self
  have hlt := h.number_lt hq
  have hnumbers : numbers (q' :: queries) = numbers (q :: queries) := by
    unfold numbers
    rw [List.map_cons, List.map_cons, hnumber]
  have htransmissions : ∀ n, transmissions events n = 0 := by
    intro n
    rcases hevents with ⟨-, rfl⟩ | rfl <;> rfl
  have hanswered : ∀ n, answered events n = if q.number = n then 1 else 0 := by
    intro n
    rcases hevents with ⟨-, rfl⟩ | rfl <;>
      by_cases hn : q.number = n <;> simp [answered, Event.answers, hn]
  have hmem : ∀ e ∈ events, e = .refused q.number ∨ e = .failure q.number := by
    rcases hevents with ⟨-, rfl⟩ | rfl <;> simp
  constructor
  case known =>
    intro p hp
    rcases List.mem_cons.mp hp with rfl | hp
    · rw [hnumber, hfilter, hmax]
      exact h.known q hq
    · exact h.known p (List.mem_cons_of_mem _ hp)
  case nodup =>
    rw [hnumbers]
    exact h.nodup
  case balance =>
    intro n hn
    have hbalance := h.balance n hn
    rw [if_neg nofun] at hbalance
    rw [answered_append, hanswered, hnumbers]
    by_cases hnq : q.number = n
    · subst hnq
      rw [if_pos rfl, if_pos rfl]
      omega
    · rw [if_neg hnq, if_neg fun hs => hnq (Option.some.inj hs)]
      exact hbalance
  case fresh =>
    intro n hn
    obtain ⟨ha, ht, hqueued⟩ := h.fresh n hn
    have hne : q.number ≠ n := by omega
    refine ⟨by rw [answered_append, hanswered, ha, if_neg hne], ?_, ?_⟩
    · rw [transmissions_append, ht, htransmissions]
    · intro hmem'
      rcases List.mem_append.mp hmem' with hmem' | hmem'
      · exact hqueued hmem'
      · rcases hmem _ hmem' with he | he <;> cases he
  case served =>
    intro n hs
    rw [← Option.some.inj hs, hnumbers]
    exact List.mem_map_of_mem hq
  case matching =>
    intro n p s hr
    rcases List.mem_append.mp hr with hr | hr
    · exact h.matching n p s hr
    · rcases hmem _ hr with he | he <;> cases he
  case tries =>
    intro p hp hs
    rw [transmissions_append, htransmissions]
    rcases List.mem_cons.mp hp with rfl | hp
    · exact absurd (by rw [hnumber]) hs
    · exact h.tries p (List.mem_cons_of_mem _ hp) nofun
  case failed =>
    intro n hf
    rw [transmissions_append, htransmissions]
    rcases List.mem_append.mp hf with hf | hf
    · exact (h.failed n hf).imp_left fun hr => List.mem_append_left _ hr
    · rcases hmem _ hf with he | he <;> cases he
      -- the query itself: its last try is over, or it is refused
      rcases hevents with ⟨hlast, rfl⟩ | rfl
      · obtain ⟨req, hreq, -, htries⟩ := h.known q hq
        refine .inr ⟨req, hreq, ?_⟩
        have hsent := (h.tries q hq nofun).1
        rw [htries, ← hlast]
        exact hsent
      · exact .inl (by simp)
  case bounded =>
    intro n req hreq hsent
    rw [transmissions_append, htransmissions]
    refine h.bounded n req hreq ?_
    rcases List.mem_append.mp hsent with hsent | hsent
    · exact hsent
    · rcases hmem _ hsent with he | he <;> cases he

/-- A running query is sent again. -/
theorem resend (h : Ledger (q :: queries) requests trace none) (q' : BaseQuery P D E)
    (hnumber : q'.number = q.number) (hfilter : q'.filter = q.filter)
    (hmax : q'.maxRetries = q.maxRetries) (hretries : q'.retries = q.retries + 1)
    (hmore : q.retries ≠ q.maxRetries) :
    Ledger (q' :: queries) requests (trace ++ [.sent q.number]) none := by
  have hq : q ∈ q :: queries := List.mem_cons_self
  have hlt := h.number_lt hq
  have hnumbers : numbers (q' :: queries) = numbers (q :: queries) := by
    unfold numbers
    rw [List.map_cons, List.map_cons, hnumber]
  have htries := h.tries q hq nofun
  have hsame : ∀ n, q.number ≠ n → transmissions (trace ++ [.sent q.number]) n =
      transmissions trace n := by
    intro n hn
    simp [transmissions, Event.transmits, hn]
  have hmore' : transmissions (trace ++ [.sent q.number]) q.number =
      transmissions trace q.number + 1 := by
    simp [transmissions, Event.transmits]
  constructor
  case known =>
    intro p hp
    rcases List.mem_cons.mp hp with rfl | hp
    · rw [hnumber, hfilter, hmax]
      exact h.known q hq
    · exact h.known p (List.mem_cons_of_mem _ hp)
  case nodup =>
    rw [hnumbers]
    exact h.nodup
  case balance =>
    intro n hn
    rw [answered_append, hnumbers]
    exact h.balance n hn
  case fresh =>
    intro n hn
    obtain ⟨ha, ht, hqueued⟩ := h.fresh n hn
    refine ⟨by rw [answered_append, ha]; rfl, ?_, by simpa using hqueued⟩
    rw [hsame n (by omega), ht]
  case served => exact fun n hs => nomatch hs
  case matching => exact fun n p s hr => h.matching n p s (by simpa using hr)
  case tries =>
    intro p hp _
    rcases List.mem_cons.mp hp with rfl | hp
    · rw [hnumber, hmore', hretries, hmax]
      omega
    · have hne : q.number ≠ p.number := by
        intro he
        refine (List.nodup_cons.mp h.nodup).1 ?_
        rw [he]
        exact List.mem_map_of_mem hp
      rw [hsame _ hne]
      exact h.tries p (List.mem_cons_of_mem _ hp) nofun
  case failed =>
    intro n hf
    have hf : Event.failure n ∈ trace := by simpa using hf
    have hne : q.number ≠ n := by
      -- a query that has failed is answered, and this one is not
      rintro rfl
      have hzero := h.unanswered hq nofun
      exact absurd (List.countP_eq_zero.mp hzero _ hf) (by simp [Event.answers])
    rw [hsame n hne]
    exact (h.failed n hf).imp_left fun hr => List.mem_append_left _ hr
  case bounded =>
    intro n req hreq hsent
    by_cases hne : q.number = n
    · subst hne
      obtain ⟨req', hreq', -, hm⟩ := h.known q hq
      obtain rfl : req = req' := Option.some.inj (hreq.symm.trans hreq')
      rw [hmore']
      omega
    · rw [hsame n hne]
      exact h.bounded n req hreq (by simpa [Ne.symm hne] using hsent)

end Ledger

end Hexabus.Host
