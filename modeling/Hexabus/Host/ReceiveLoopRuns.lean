import Hexabus.Lib.Runs
import Hexabus.Host.ReceiveLoop
import Hexabus.Host.Serialization

/-!
# Runs of the receive loop

While no datagram is received over one that is still needed, the shared buffer and endpoint show
what each completion was queued for. That is the invariant, next to which slots a running handler
has still to look at.
-/

namespace Hexabus.Host.ReceiveLoop

open Lib.Runs
open Filtering (Sender)

/-! ## The invariant -/

/-- A handler that is running: it has its own datagram's packet, and the slots before it. -/
structure Handling.Going (r : Handling) (s : SocketBase) : Prop where
  right : r.Right
  packet : r.packet = deserialize r.datagram.received
  order : (r.reached ++ r.remaining).Sublist r.connected
  known : ∀ c ∈ r.connected, c.id < s.nextId
  left : r.packet.isOk = true → ∀ c ∈ r.connected, c ∈ s.packetReceived →
    c ∈ r.reached ∨ c ∈ r.remaining

structure Handling.Gone (r : Handling) (s : SocketBase) : Prop where
  right : r.Right
  known : ∀ c ∈ r.connected, c.id < s.nextId
  whole : r.Whole s.packetReceived

structure Inv (s : SocketBase) : Prop where
  distinct : (s.packetReceived.map Connection.id).Nodup
  known : ∀ c ∈ s.packetReceived, c.id < s.nextId
  shown : ∀ d ∈ queued s, d.received <+: s.data ∧ s.remoteEndpoint = d.sender
  heard : ∀ r ∈ s.running, r.remaining ≠ [] → s.remoteEndpoint = r.datagram.sender
  each : s.arrived.Perm (inFlight s ++ s.ended.map Handling.datagram)
  running : ∀ r ∈ s.running, r.Going s
  ended : ∀ r ∈ s.ended, r.Gone s

/-- The slots known before are no more than they were. -/
def Narrows (s s' : SocketBase) : Prop :=
  s.nextId ≤ s'.nextId ∧ ∀ c ∈ s'.packetReceived, c.id < s.nextId → c ∈ s.packetReceived

section

variable {s s' : SocketBase} {r : Handling}

theorem Handling.Going.narrow (h : r.Going s) (hs : Narrows s s') : r.Going s' where
  right := h.right
  packet := h.packet
  order := h.order
  known c hc := lt_of_lt_of_le (h.known c hc) hs.1
  left hok c hc hnow := h.left hok c hc (hs.2 c hnow (h.known c hc))

theorem Handling.Gone.narrow (h : r.Gone s) (hs : Narrows s s') : r.Gone s' where
  right := h.right
  known c hc := lt_of_lt_of_le (h.known c hc) hs.1
  whole hok c hc hnow := h.whole hok c hc (hs.2 c hnow (h.known c hc))

/-- Nothing but the slots, and completions without a datagram, changes. -/
theorem Inv.narrow (h : Inv s) (hs : Narrows s s')
    (hdistinct : (s'.packetReceived.map Connection.id).Nodup)
    (hknown : ∀ c ∈ s'.packetReceived, c.id < s'.nextId)
    (hqueued : (queued s').Perm (queued s)) (hdata : s'.data = s.data)
    (hremote : s'.remoteEndpoint = s.remoteEndpoint) (harrived : s'.arrived = s.arrived)
    (hrunning : s'.running = s.running) (hended : s'.ended = s.ended) : Inv s' where
  distinct := hdistinct
  known := hknown
  shown d hd := by
    rw [hdata, hremote]
    exact h.shown d (hqueued.mem_iff.mp hd)
  heard := by
    rw [hrunning, hremote]
    exact h.heard
  each := by
    rw [harrived, hended, inFlight, hrunning]
    exact h.each.trans ((hqueued.symm.append_right _).append_right _)
  running := by
    rw [hrunning]
    exact fun r hr => (h.running r hr).narrow hs
  ended := by
    rw [hended]
    exact fun r hr => (h.ended r hr).narrow hs

theorem Narrows.refl (hid : s'.nextId = s.nextId) (hslots : s'.packetReceived = s.packetReceived) :
    Narrows s s' :=
  ⟨hid.ge, fun _ hc _ => hslots ▸ hc⟩

/-! ### One step -/

namespace SocketBase

theorem beginReceive_armed (s : SocketBase) : Armed (beginReceive s) := by
  unfold beginReceive
  split
  · rename_i h
    intro hne
    exact absurd (List.isEmpty_iff.mp h) hne
  · exact fun _ => .inl rfl

@[simp] theorem queued_beginReceive (s : SocketBase) : queued (beginReceive s) = queued s := by
  unfold beginReceive queued
  split
  · rfl
  · cases s.outstanding <;> simp [Completion.datagram?]

end SocketBase

open SocketBase

theorem Inv.beginReceive (h : Inv s) : Inv (beginReceive s) := by
  have hslots : (SocketBase.beginReceive s).packetReceived = s.packetReceived := by
    unfold SocketBase.beginReceive
    split <;> rfl
  have hid : (SocketBase.beginReceive s).nextId = s.nextId := by
    unfold SocketBase.beginReceive
    split <;> rfl
  refine h.narrow (.refl hid hslots) ?_ ?_ (.of_eq (queued_beginReceive s)) ?_ ?_ ?_ ?_ ?_
  · rw [hslots]
    exact h.distinct
  · rw [hslots, hid]
    exact h.known
  all_goals
    unfold SocketBase.beginReceive
    split <;> rfl

theorem Inv.connect (h : Inv s) (filter : Packet → Sender → Bool) (once : Bool) :
    Inv (s.connect filter once) := by
  refine Inv.beginReceive (h.narrow ⟨Nat.le_succ _, ?_⟩ ?_ ?_ (.refl _) rfl rfl rfl rfl rfl)
  · intro c hc hlt
    obtain hc | hc := List.mem_append.mp hc
    · exact hc
    · obtain rfl := List.mem_singleton.mp hc
      exact absurd hlt (lt_irrefl _)
  · rw [List.map_append, List.nodup_append]
    refine ⟨h.distinct, List.nodup_singleton _, ?_⟩
    rintro i hi j hj rfl
    obtain ⟨c, hc, rfl⟩ := List.mem_map.mp hi
    have hlt := h.known c hc
    simp only [List.map_cons, List.map_nil, List.mem_singleton] at hj
    omega
  · intro c hc
    obtain hc | hc := List.mem_append.mp hc
    · exact (h.known c hc).trans (Nat.lt_succ_self _)
    · obtain rfl := List.mem_singleton.mp hc
      exact Nat.lt_succ_self _

theorem Inv.disconnect (h : Inv s) (id : Nat) : Inv (s.disconnect id) := by
  have hsub : (s.packetReceived.filter fun c => c.id ≠ id).Sublist s.packetReceived :=
    List.filter_sublist
  exact h.narrow ⟨le_rfl, fun c hc _ => hsub.mem hc⟩ (h.distinct.sublist (hsub.map _))
    (fun c hc => h.known c (hsub.mem hc)) (.refl _) rfl rfl rfl rfl rfl

/-- The buffer after a datagram still begins with one that agrees with it. -/
theorem Datagram.Agrees.shown {d e : Datagram} (h : d.Agrees e) {data : List UInt8}
    (he : e.received <+: data) : e.received <+: d.received ++ data.drop d.received.length := by
  obtain ⟨rest, rfl⟩ := he
  rcases h.2 with ⟨more, hmore⟩ | hfirst
  · rw [← hmore, List.append_assoc, List.drop_left, ← List.append_assoc]
    exact List.prefix_append _ _
  · exact hfirst.trans (List.prefix_append _ _)

theorem Inv.arrive (h : Inv s) {d : Datagram} (hok : Undisturbed s (.arrive d)) :
    Inv (s.arrive d) := by
  unfold SocketBase.arrive
  split
  · rename_i hout
    obtain ⟨hagrees, hsender⟩ := hok hout
    have hqueued : (s.queue ++ [Completion.received d]).filterMap Completion.datagram? =
        queued s ++ [d] := by simp [queued, Completion.datagram?]
    constructor
    case shown =>
      intro e he
      unfold queued at he
      rw [hqueued] at he
      obtain he | he := List.mem_append.mp he
      · exact ⟨(hagrees e he).shown (h.shown e he).1, (hagrees e he).1⟩
      · obtain rfl := List.mem_singleton.mp he
        exact ⟨List.prefix_append _ _, rfl⟩
    case heard => exact hsender
    case each =>
      unfold inFlight queued
      rw [hqueued]
      refine (h.each.append_right [d]).trans ?_
      rw [List.perm_iff_count]
      intro e
      simp only [inFlight, List.count_append]
      omega
    case distinct => exact h.distinct
    case known => exact h.known
    case running => exact fun r hr => (h.running r hr).narrow (.refl rfl rfl)
    case ended => exact fun r hr => (h.ended r hr).narrow (.refl rfl rfl)
  · exact h

theorem Inv.fail (h : Inv s) : Inv s.fail := by
  unfold SocketBase.fail
  split
  · have hqueued : (s.queue ++ [Completion.failed]).filterMap Completion.datagram? = queued s := by
      rw [List.filterMap_append]
      exact List.append_nil _
    exact h.narrow (.refl rfl rfl) h.distinct h.known (.of_eq hqueued) rfl rfl rfl rfl rfl
  · exact h

/-- An element in its place and the others. -/
theorem perm_cons_eraseIdx {α : Type} {l : List α} {i : Nat} {a : α} (h : l[i]? = some a) :
    l.Perm (a :: l.eraseIdx i) := by
  obtain ⟨hi, rfl⟩ := List.getElem?_eq_some_iff.mp h
  exact (List.getElem_cons_eraseIdx_perm hi).symm

/-- The packet is decoded while the buffer shows the datagram's own bytes. -/
theorem Inv.complete (h : Inv s) (i : Nat) : Inv (s.complete i) := by
  unfold SocketBase.complete
  split
  · exact h
  · rename_i c hc
    have hperm := (perm_cons_eraseIdx hc).filterMap Completion.datagram?
    cases c with
    | aborted => exact h.narrow (.refl rfl rfl) h.distinct h.known hperm.symm rfl rfl rfl rfl rfl
    | failed => exact h.narrow (.refl rfl rfl) h.distinct h.known hperm.symm rfl rfl rfl rfl rfl
    | received d =>
      have hqueued : (queued s).Perm (d :: (s.queue.eraseIdx i).filterMap Completion.datagram?) :=
        hperm
      obtain ⟨hdata, hremote⟩ := h.shown d (hqueued.mem_iff.mpr (List.mem_cons_self ..))
      have htake : s.data.take d.received.length = d.received := (List.prefix_iff_eq_take.mp hdata).symm
      simp only [packetReceivedHandler, htake]
      constructor
      case shown =>
        exact fun e he => h.shown e (hqueued.mem_iff.mpr (List.mem_cons_of_mem _ he))
      case heard =>
        intro r hr hne
        obtain hr | hr := List.mem_append.mp hr
        · exact h.heard r hr hne
        · obtain rfl := List.mem_singleton.mp hr
          exact hremote
      case each =>
        refine h.each.trans ?_
        rw [List.perm_iff_count]
        intro e
        have hcount := hqueued.count_eq e
        simp only [inFlight, queued, List.count_append, List.map_append, List.map_cons,
          List.map_nil, List.count_cons, List.count_nil] at hcount ⊢
        omega
      case running =>
        intro r hr
        obtain hr | hr := List.mem_append.mp hr
        · exact (h.running r hr).narrow (.refl rfl rfl)
        · obtain rfl := List.mem_singleton.mp hr
          refine ⟨⟨?_, List.nil_sublist _, h.distinct⟩, rfl, ?_, h.known, ?_⟩
          · unfold Handling.expected
            cases deserialize d.received <;> rfl
          · cases deserialize d.received with
            | ok packet => exact .refl _
            | error e => exact List.nil_sublist _
          · intro hok e he _
            simp only [hok, if_true]
            exact .inr he
      case distinct => exact h.distinct
      case known => exact h.known
      case ended => exact fun r hr => (h.ended r hr).narrow (.refl rfl rfl)

/-- A running handler is replaced by what it has become. -/
theorem Inv.setRunning (h : Inv s) {k : Nat} {r' : Handling} (hr : s.running[k]? = some r)
    (hdatagram : r'.datagram = r.datagram) (hgoing : r'.Going s)
    (hsender : r'.remaining ≠ [] → s.remoteEndpoint = r'.datagram.sender) :
    Inv { s with running := s.running.set k r' } where
  distinct := h.distinct
  known := h.known
  shown := h.shown
  heard e he hne := by
    obtain he | rfl := List.mem_or_eq_of_mem_set he
    · exact h.heard e he hne
    · exact hsender hne
  each := by
    have hmap : (s.running.set k r').map Handling.datagram = s.running.map Handling.datagram := by
      obtain ⟨hk, rfl⟩ := List.getElem?_eq_some_iff.mp hr
      have hk' : k < (s.running.map Handling.datagram).length := by simpa using hk
      have hget : (s.running.map Handling.datagram)[k] = s.running[k].datagram := List.getElem_map _
      rw [List.map_set, hdatagram, ← hget, List.set_getElem_self]
    unfold inFlight
    rw [hmap]
    exact h.each
  running e he := by
    obtain he | rfl := List.mem_or_eq_of_mem_set he
    · exact (h.running e he).narrow (.refl rfl rfl)
    · exact hgoing.narrow (.refl rfl rfl)
  ended e he := (h.ended e he).narrow (.refl rfl rfl)

theorem Inv.leave (h : Inv s) (k : Nat)
    (hwhole : ∀ r, s.running[k]? = some r → r.Whole s.packetReceived) : Inv (s.leave k) := by
  unfold SocketBase.leave
  split
  · exact h
  · rename_i r hr
    have hperm := perm_cons_eraseIdx hr
    have hmem : ∀ e ∈ s.running.eraseIdx k, e ∈ s.running := fun e he => List.mem_of_mem_eraseIdx he
    have hgoing := h.running r (List.mem_of_getElem? hr)
    apply Inv.beginReceive
    constructor
    case each =>
      refine h.each.trans ?_
      rw [List.perm_iff_count]
      intro e
      have hcount := (hperm.map Handling.datagram).count_eq e
      simp only [inFlight, queued, List.count_append, List.map_append, List.map_cons,
        List.map_nil, List.count_cons, List.count_nil] at hcount ⊢
      omega
    case running => exact fun e he => (h.running e (hmem e he)).narrow (.refl rfl rfl)
    case ended =>
      intro e he
      obtain he | he := List.mem_append.mp he
      · exact (h.ended e he).narrow (.refl rfl rfl)
      · obtain rfl := List.mem_singleton.mp he
        exact ⟨hgoing.right, hgoing.known, hwhole _ hr⟩
    case heard => exact fun e he => h.heard e (hmem e he)
    case distinct => exact h.distinct
    case known => exact h.known
    case shown => exact h.shown

/-- The slot at hand is called with the packet and the sender of the handler's own datagram. -/
theorem Inv.callSlot (h : Inv s) {k : Nat} (hr : s.running[k]? = some r) {c : Connection}
    {rest : List Connection} (hrest : r.remaining = c :: rest) {packet : Packet}
    (hpacket : r.packet = .ok packet) :
    Inv (s.callSlot k { r with remaining := rest, reached := r.reached ++ [c] } c packet) := by
  have hgoing := h.running r (List.mem_of_getElem? hr)
  have hsender := h.heard r (List.mem_of_getElem? hr) (by simp [hrest])
  have hdecoded : deserialize r.datagram.received = .ok packet := hgoing.packet.symm.trans hpacket
  have horder : ((r.reached ++ [c]) ++ rest).Sublist r.connected := by
    rw [List.append_assoc, List.singleton_append, ← hrest]
    exact hgoing.order
  have hleft : r.packet.isOk = true → ∀ e ∈ r.connected, e ∈ s.packetReceived →
      e ∈ r.reached ++ [c] ∨ e ∈ rest := by
    intro hok e he hnow
    have hcases := hgoing.left hok e he hnow
    rw [hrest, List.mem_cons] at hcases
    rw [List.mem_append, List.mem_singleton]
    tauto
  have hreached : (r.reached ++ [c]).Sublist r.connected :=
    (List.sublist_append_left _ _).trans horder
  have hcalls : r.calls = (r.reached.filter fun c => c.filter packet r.datagram.sender).map
      fun c => ⟨c.id, packet, r.datagram.sender⟩ := by
    rw [hgoing.right.calls, Handling.expected, hdecoded]
  unfold SocketBase.callSlot
  split
  · rename_i hfilter
    rw [hsender] at hfilter
    have hcall : Inv { s with running := s.running.set k { r with
        remaining := rest
        reached := r.reached ++ [c]
        calls := r.calls ++ [⟨c.id, packet, s.remoteEndpoint⟩] } } := by
      refine h.setRunning hr rfl ⟨⟨?_, hreached, hgoing.right.distinct⟩, hgoing.packet, horder,
        hgoing.known, hleft⟩ fun _ => hsender
      simp only [Handling.expected, hdecoded, hcalls, List.filter_append, List.map_append, hsender]
      simp [hfilter]
    dsimp only
    split
    · exact hcall.disconnect c.id
    · exact hcall
  · rename_i hfilter
    rw [hsender] at hfilter
    refine h.setRunning hr rfl ⟨⟨?_, hreached, hgoing.right.distinct⟩, hgoing.packet, horder,
      hgoing.known, hleft⟩ fun _ => hsender
    simp only [Handling.expected, hdecoded, hcalls, List.filter_append, List.map_append]
    simp [hfilter]

/-- A slot that is no longer connected is passed over. -/
theorem Inv.skip (h : Inv s) {k : Nat} (hr : s.running[k]? = some r) {c : Connection}
    {rest : List Connection} (hrest : r.remaining = c :: rest) (hc : c ∉ s.packetReceived) :
    Inv { s with running := s.running.set k { r with remaining := rest } } := by
  have hgoing := h.running r (List.mem_of_getElem? hr)
  have hsender := h.heard r (List.mem_of_getElem? hr) (by simp [hrest])
  refine h.setRunning hr rfl ⟨⟨hgoing.right.calls, hgoing.right.reached, hgoing.right.distinct⟩,
    hgoing.packet, ?_, hgoing.known, ?_⟩ fun _ => hsender
  · refine List.Sublist.trans ?_ hgoing.order
    rw [hrest]
    exact (List.sublist_cons_self _ _).append_left _
  · intro hok e he hnow
    obtain he | he := hgoing.left hok e he hnow
    · exact .inl he
    · rw [hrest] at he
      obtain rfl | he := List.mem_cons.mp he
      · exact absurd hnow hc
      · exact .inr he

theorem Inv.resume (h : Inv s) (k : Nat) : Inv (s.resume k) := by
  unfold SocketBase.resume
  split
  · exact h
  · rename_i r hr
    have hgoing := h.running r (List.mem_of_getElem? hr)
    split
    · rename_i c rest packet hrest hpacket
      split
      · exact h.callSlot hr hrest hpacket
      · rename_i hany
        refine h.skip hr hrest fun hc => hany ?_
        rw [List.any_eq_true]
        exact ⟨c, hc, decide_eq_true rfl⟩
    · rename_i hend
      refine h.leave k ?_
      intro e he
      obtain rfl := Option.some.inj (hr.symm.trans he)
      intro hok c hc hnow
      rw [← hgoing.packet] at hok
      obtain hdone | hleft := hgoing.left hok c hc hnow
      · exact hdone
      · obtain ⟨first, rest, hrest⟩ := List.exists_cons_of_ne_nil (List.ne_nil_of_mem hleft)
        cases hpacket : r.packet with
        | ok packet => exact absurd hpacket (hend first rest packet hrest)
        | error e => simp [hpacket, Except.isOk, Except.toBool] at hok

theorem Inv.throws (h : Inv s) {k : Nat} (hok : Undisturbed s (.throws k)) : Inv (s.leave k) := by
  refine h.leave k fun r hr hpacket c hc hnow => ?_
  have hgoing := h.running r (List.mem_of_getElem? hr)
  rw [← hgoing.packet] at hpacket
  obtain hdone | hleft := hgoing.left hpacket c hc hnow
  · exact hdone
  · exact absurd hnow (hok r hr c hleft)

theorem Inv.step (h : Inv s) {e : Event} (hok : Undisturbed s e) : Inv (step e s) := by
  cases e with
  | onPacketReceived filter => exact h.connect filter false
  | receive filter => exact h.connect filter true
  | disconnect id => exact h.disconnect id
  | arrive d => exact h.arrive hok
  | fail => exact h.fail
  | complete i => exact h.complete i
  | resume k => exact h.resume k
  | throws k => exact h.throws hok

theorem leave_armed (h : Armed s) (k : Nat) : Armed (s.leave k) := by
  unfold SocketBase.leave
  split
  · exact h
  · exact beginReceive_armed _

/-- A completion that is handled either runs, or another operation is there. -/
theorem complete_armed (h : Armed s) {i : Nat} (hok : Undisturbed s (.complete i)) :
    Armed (s.complete i) := by
  unfold SocketBase.complete
  split
  · exact h
  · rename_i c hc
    intro hne
    cases c with
    | aborted =>
      obtain hout | hrun | ⟨e, he, hgoes⟩ := h hne
      · exact .inl hout
      · exact .inr (.inl hrun)
      · refine .inr (.inr ⟨e, ?_, hgoes⟩)
        obtain rfl | he := List.mem_cons.mp ((perm_cons_eraseIdx hc).mem_iff.mp he)
        · cases hgoes
        · exact he
    | failed => exact (hok hc).resolve_left hne
    | received d => exact .inr (.inl (List.append_ne_nil_of_right_ne_nil _ (List.cons_ne_nil _ _)))

theorem running_set_armed (k : Nat) (r' : Handling) (hr : s.running[k]? = some r) :
    Armed { s with running := s.running.set k r' } := by
  intro _
  refine .inr (.inl fun hnil => ?_)
  obtain ⟨hk, -⟩ := List.getElem?_eq_some_iff.mp hr
  have hlen := congrArg List.length hnil
  simp only [List.length_set, List.length_nil] at hlen
  omega

theorem disconnect_armed (h : Armed s) (id : Nat) : Armed (s.disconnect id) := by
  intro hne
  refine h fun hnil => hne ?_
  simp [SocketBase.disconnect, hnil]

theorem resume_armed (h : Armed s) (k : Nat) : Armed (s.resume k) := by
  unfold SocketBase.resume
  split
  · exact h
  · rename_i r hr
    split
    · split
      · unfold SocketBase.callSlot
        split
        · dsimp only
          split
          · exact disconnect_armed (running_set_armed k _ hr) _
          · exact running_set_armed k _ hr
        · exact running_set_armed k _ hr
      · exact running_set_armed k _ hr
    · exact leave_armed h k

theorem Armed.step (h : Armed s) {e : Event} (hok : Undisturbed s e) : Armed (step e s) := by
  cases e with
  | onPacketReceived filter => exact beginReceive_armed _
  | receive filter => exact beginReceive_armed _
  | disconnect id => exact disconnect_armed h id
  | arrive d =>
    change Armed (s.arrive d)
    unfold SocketBase.arrive
    split
    · exact fun _ => .inr (.inr ⟨.received d, List.mem_append_right _ (List.mem_singleton_self _), rfl⟩)
    · exact h
  | fail =>
    change Armed s.fail
    unfold SocketBase.fail
    split
    · exact fun _ => .inr (.inr ⟨.failed, List.mem_append_right _ (List.mem_singleton_self _), rfl⟩)
    · exact h
  | complete i => exact complete_armed h hok
  | resume k => exact resume_armed h k
  | throws k => exact leave_armed h k

/-! ## Runs -/

theorem Inv.delivers (h : Inv s) (harmed : Armed s) : Delivers s where
  armed := harmed
  each := h.each
  running r hr := (h.running r hr).right
  ended r hr := ⟨(h.ended r hr).right, (h.ended r hr).whole⟩

theorem init_inv (remote : Sender) : Inv (init remote) where
  distinct := List.nodup_nil
  known := by simp [init]
  shown := by simp [init, queued]
  heard := by simp [init]
  each := .refl _
  running := by simp [init]
  ended := by simp [init]

end

/-- **The receive loop delivers** as long as nothing disturbs it: in every state of such a run an
operation is there while a handler is connected, and each datagram that was received is in flight
or has been handled, once, decoded from its own bytes and with its own sender, for each of the
handlers that are connected. -/
theorem receive_loop_delivers (remote : Sender) (events : List Event)
    (h : Meets step Undisturbed (init remote) events) : Delivers (run step (init remote) events) := by
  have hstep : ∀ s e, Inv s ∧ Armed s → Undisturbed s e → Inv (step e s) ∧ Armed (step e s) :=
    fun _ _ hs hok => ⟨hs.1.step hok, hs.2.step hok⟩
  have hrun := run_invariant hstep ⟨init_inv remote, fun hne => absurd rfl hne⟩ h
  exact hrun.1.delivers hrun.2

/-- Two devices. -/
def sentBy (device : BitVec 128) (eid : UInt32) : Datagram where
  bytes := serialize (.query eid 0)
  sender := ⟨⟨device, 2⟩, 61616⟩

/-- `filtering::any`. -/
def any : Packet → Sender → Bool := fun _ _ => true

/-- Two slots and a `receive` behind one of them; a slot registers another one. -/
def undisturbed : List Event :=
  [.onPacketReceived any, .receive any, .arrive (sentBy 1 7), .complete 0, .complete 0, .resume 0,
    .onPacketReceived any, .resume 0, .resume 0]

theorem undisturbed_delivers :
    Meets step Undisturbed (init ⟨⟨0, 0⟩, 0⟩) undisturbed ∧
      Delivers (run step (init ⟨⟨0, 0⟩, 0⟩) undisturbed) ∧
      (run step (init ⟨⟨0, 0⟩, 0⟩) undisturbed).ended.map Handling.calls =
        [[⟨0, .query 7 0, ⟨⟨1, 2⟩, 61616⟩⟩, ⟨1, .query 7 0, ⟨⟨1, 2⟩, 61616⟩⟩]] := by
  have hmeets : Meets step Undisturbed (init ⟨⟨0, 0⟩, 0⟩) undisturbed :=
    ⟨trivial, trivial, fun _ => ⟨nofun, nofun⟩, nofun, nofun, trivial, trivial, trivial, trivial,
      trivial⟩
  exact ⟨hmeets, receive_loop_delivers _ _ hmeets, by decide +kernel⟩

/-! ## Runs that are disturbed -/

/-- Each call of a handler is given the sender of its datagram. -/
theorem Handling.Right.remote {r : Handling} (h : r.Right) :
    ∀ call ∈ r.calls, call.remote = r.datagram.sender := by
  rw [h.calls, Handling.expected]
  intro call hcall
  cases hpacket : deserialize r.datagram.received with
  | ok packet =>
    rw [hpacket] at hcall
    obtain ⟨c, -, rfl⟩ := List.mem_map.mp hcall
    rfl
  | error e =>
    rw [hpacket] at hcall
    cases hcall

theorem Delivers.remote {s : SocketBase} (h : Delivers s) :
    ∀ r ∈ s.running ++ s.ended, ∀ call ∈ r.calls, call.remote = r.datagram.sender := by
  intro r hr
  obtain hr | hr := List.mem_append.mp hr
  · exact (h.running r hr).remote
  · exact (h.ended r hr).1.remote

/-- A slot is connected, and the operation fails. -/
def failing : List Event := [.onPacketReceived any, .fail, .complete 0]

/-- A second slot is connected while the first datagram is queued, and its operation receives the
second one. -/
def overwritten : List Event :=
  [.onPacketReceived any, .arrive (sentBy 1 7), .onPacketReceived any, .arrive (sentBy 2 8),
    .complete 0, .resume 0, .resume 0]

/-- The first of two slots connects a third, and its operation receives the second datagram before
the second slot is called for the first one. -/
def crossed : List Event :=
  [.onPacketReceived any, .onPacketReceived any, .arrive (sentBy 1 7), .complete 0, .complete 0,
    .resume 0, .onPacketReceived any, .arrive (sentBy 2 8), .resume 0]

theorem disturbed_not_delivered :
    ¬ Delivers (run step (init ⟨⟨0, 0⟩, 0⟩) failing) ∧
      ¬ Delivers (run step (init ⟨⟨0, 0⟩, 0⟩) overwritten) ∧
      ¬ Delivers (run step (init ⟨⟨0, 0⟩, 0⟩) crossed) := by
  refine ⟨fun h => ?_, fun h => ?_, fun h => ?_⟩
  · obtain hout | hrun | ⟨c, hc, -⟩ := h.armed (List.cons_ne_nil _ _)
    · cases hout
    · exact hrun rfl
    · cases hc
  · exact absurd h.remote (by decide +kernel)
  · exact absurd h.remote (by decide +kernel)

end Hexabus.Host.ReceiveLoop
