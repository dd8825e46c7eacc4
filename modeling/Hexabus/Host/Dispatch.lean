import Hexabus.Wire.Blocks

/-!
# The dispatch of packets

What each type of packet calls for, and when a device does just that. The function `isWrite`
in two of the filters is taken for a constant and never called, so `_handle_write` and
`_handle_smupload` also see packets that write nothing.
-/

namespace Hexabus.Host

open Lib.Bytes Filtering Wire

/-! ## What is expected -/

namespace Packet

def isError : Packet → Bool
  | .error .. => true
  | _ => false

def isAcknak : Packet → Bool
  | .info eid (.bool _) _ => eid = epSmUpAcknak
  | _ => false

end Packet

/-- The value that a packet carries for what a handler has read. -/
def Readout.Carries (value : Value) : Readout → Prop
  | .text bytes => ∃ s : ValueString, s.bytes = bytes ∧ value = .string s
  | .value v => value = v

/-- The value that the last read handler returns, or an error when there is none. -/
def EndpointFunctions.Answers {σ : Type} (ep : EndpointFunctions σ) (s : σ) (reply : Packet) :
    Prop :=
  match ep.reads.getLast? with
  | none => reply = .error ErrorCode.unknownEid.code 0
  | some read => ∃ value, (read s).Carries value ∧ reply = .info ep.eid value 0

variable {α : Type}

namespace Device

variable (dev : Device α)

/-- The mask of the endpoints in a block, or the answer of the endpoint, if there is one. -/
def AnswersQuery (s : DeviceState α) (eid : UInt32) (reply : Packet) : Prop :=
  if eid % 32 = 0 then
    ∃ mask, Described (RegisteredAt dev) eid mask ∧ reply = .info eid (.uint32 mask) 0
  else
    match dev.find eid with
    | none => reply = .error ErrorCode.unknownEid.code 0
    | some ep => ep.Answers s reply

/-- The name of the device for a block, or type and name of the endpoint, if there is one. -/
def AnswersEndpointQuery (s : DeviceState α) (eid : UInt32) (reply : Packet) : Prop :=
  if eid % 32 = 0 then
    ∃ name : ValueString, name.bytes = dev.deviceName s ∧
      reply = .endpointInfo eid DataType.uint32.code name 0
  else
    match dev.find eid with
    | none => reply = .error ErrorCode.unknownEid.code 0
    | some ep => ∃ name : ValueString, name.bytes = ep.name ∧
        reply = .endpointInfo eid ep.datatype.code name 0

/-- The handlers of the name have run on the name in a chunk 0. -/
def renamed (value : Value) (s : DeviceState α) : DeviceState α :=
  match value with
  | .bytes65 data =>
    let name := (data.val.drop 1).takeWhile (· ≠ 0)
    if data.val.head? = some 0 ∧ name ≠ [] then
      dev.writeName.foldl (fun s write => write name s) s
    else s
  | _ => s

/-- The state when the handlers that the packet calls for have run, each once. -/
def effect (p : Packet) (s : DeviceState α) : DeviceState α :=
  match p with
  | .write eid value _ =>
    match dev.find eid with
    | none => s
    | some ep =>
      if value.datatype = ep.datatype then
        let written := ep.writes.foldl (fun s write => (write value s).2) s
        if eid = epSmUpReceiver then dev.renamed value written else written
      else s
  | _ => s

end Device

/-- The handling that the packet's type calls for, once. -/
structure Device.Handled (dev : Device α) (p : Packet) (s : DeviceState α)
    (t : Turn (DeviceState α)) : Prop where
  state : t.state = dev.effect p s
  query : ∀ eid flags, p = .query eid flags →
    ∃ reply, t.sent = [reply] ∧ dev.AnswersQuery s eid reply
  endpointQuery : ∀ eid flags, p = .endpointQuery eid flags →
    ∃ reply, t.sent = [reply] ∧ dev.AnswersEndpointQuery s eid reply
  write : ∀ eid value flags ep, p = .write eid value flags → dev.find eid = some ep →
    ep.writes ≠ [] → value.datatype = ep.datatype →
      t.wrote = (List.range ep.writes.length).map (fun slot => (eid, slot, value)) ∧
      t.sent.filter Packet.isError = []
  missing : ∀ eid value flags, p = .write eid value flags → dev.find eid = none →
    t.sent = [.error ErrorCode.unknownEid.code 0]
  readOnly : ∀ eid value flags ep, p = .write eid value flags → dev.find eid = some ep →
    ep.writes = [] → t.sent = [.error ErrorCode.writeReadonly.code 0]
  upload : ∀ data flags, p = .write epSmUpReceiver (.bytes65 data) flags →
    ∃ value, t.sent.filter Packet.isAcknak = [.info epSmUpAcknak (.bool value) 0]
  noWrite : p.type ≠ .write → t.wrote = [] ∧ t.uploads = false
  unasked : p.type = .error ∨ p.type = .info ∨ p.type = .epinfo → t.sent = []

/-- The last read handler does not return a string that is too long to be sent. -/
def EndpointFunctions.Tellable {σ : Type} (ep : EndpointFunctions σ) (s : σ) : Prop :=
  ∀ read bytes, ep.reads.getLast? = some read → read s = .text bytes → bytes.length ≤ maxLength

/-- When a device handles a packet as its type calls for. -/
def Device.Dispatches (dev : Device α) (p : Packet) (s : DeviceState α) : Prop :=
  match p with
  | .error .. => True
  | .query eid _ =>
    if eid % 32 = 0 then eid = lastBlock → ∀ x, RegisteredAt dev x → ¬ InBlock eid x
    else eid ≠ epSmUpReceiver ∧ ∃ ep, dev.find eid = some ep ∧ ep.Tellable s
  | .endpointQuery eid _ =>
    if eid % 32 = 0 then (dev.deviceName s).length ≤ maxLength
    else eid ≠ epSmUpReceiver ∧ ∃ ep, dev.find eid = some ep ∧ ep.name.length ≤ maxLength
  | .endpointInfo eid _ _ _ | .info eid _ _ => eid % 32 = 0 ∨
      eid ≠ epSmUpReceiver ∧ (dev.find eid).isSome
  | .write eid value _ =>
    if eid % 32 = 0 then
      ∃ ep, dev.find eid = some ep ∧ ep.writes ≠ [] ∧ value.datatype ≠ ep.datatype
    else (∀ ep, dev.find eid = some ep → ep.writes = [] → value.datatype = ep.datatype) ∧
      (eid = epSmUpReceiver → ∀ data : Block 65, value = .bytes65 data →
        data.val.head? = some 0 → 0 ∈ data.val.drop 1)

/-! ## Turns -/

namespace Turn

variable {σ : Type}

@[simp] theorem next_start (s : σ) (f : σ → Turn σ) : (start s).next f = f s := rfl

@[simp] theorem sent_start (s : σ) : (start s).sent = [] := rfl
@[simp] theorem wrote_start (s : σ) : (start s).wrote = [] := rfl
@[simp] theorem uploads_start (s : σ) : (start s).uploads = false := rfl
@[simp] theorem stopped_start (s : σ) : (start s).stopped = none := rfl
@[simp] theorem state_start (s : σ) : (start s).state = s := rfl

@[simp] theorem sent_send (p : Packet) (s : σ) : (send p s).sent = [p] := rfl
@[simp] theorem wrote_send (p : Packet) (s : σ) : (send p s).wrote = [] := rfl
@[simp] theorem uploads_send (p : Packet) (s : σ) : (send p s).uploads = false := rfl
@[simp] theorem stopped_send (p : Packet) (s : σ) : (send p s).stopped = none := rfl
@[simp] theorem state_send (p : Packet) (s : σ) : (send p s).state = s := rfl

theorem next_of_running {t : Turn σ} (h : t.stopped = none) (f : σ → Turn σ) :
    t.next f = { f t.state with log := t.log ++ (f t.state).log } := by
  unfold next
  rw [h]

theorem next_of_stopped {t : Turn σ} {e : Thrown} (h : t.stopped = some e) (f : σ → Turn σ) :
    t.next f = t := by
  unfold next
  rw [h]

theorem state_next {t : Turn σ} (h : t.stopped = none) (f : σ → Turn σ) :
    (t.next f).state = (f t.state).state := by
  rw [next_of_running h]

/-- The packets of two statements. -/
theorem sent_next {t : Turn σ} (h : t.stopped = none) (f : σ → Turn σ) :
    (t.next f).sent = t.sent ++ (f t.state).sent := by
  rw [next_of_running h]
  exact List.filterMap_append

theorem wrote_next {t : Turn σ} (h : t.stopped = none) (f : σ → Turn σ) :
    (t.next f).wrote = t.wrote ++ (f t.state).wrote := by
  rw [next_of_running h]
  exact List.filterMap_append

theorem uploads_next {t : Turn σ} (h : t.stopped = none) (f : σ → Turn σ) :
    (t.next f).uploads = (t.uploads || (f t.state).uploads) := by
  rw [next_of_running h]
  exact List.any_append

end Turn

/-! ## Filters -/

namespace Device

variable (dev : Device α)

theorem passes_eidInGroup (p : Packet) :
    passes eidInGroup p = p.eid?.any fun eid => decide (eid % 32 ≠ 0) := by
  unfold eidInGroup
  rw [passes_comparison, binary_constant]
  unfold Filtering.eid
  cases p.eid? with
  | none => rfl
  | some eid =>
    have hpos : eid % 32 > 0 ↔ eid % 32 ≠ 0 := by
      rw [gt_iff_lt, UInt32.lt_iff_toNat_lt, ← UInt32.toNat_inj.ne]
      exact Nat.pos_iff_ne_zero
    simp only [Option.map_some, Option.any_some, hpos]

theorem passes_eidOfGroup (p : Packet) :
    passes eidOfGroup p = p.eid?.any fun eid => decide (eid % 32 = 0) := by
  unfold eidOfGroup
  rw [passes_comparison, binary_constant]
  unfold Filtering.eid
  cases p.eid? <;> rfl

theorem passes_eidOfUpload (p : Packet) :
    passes eidOfUpload p = p.eid?.any fun eid => decide (eid = epSmUpReceiver) := by
  unfold eidOfUpload
  exact passes_comparison _ _ _ _

theorem upload_inGroup : epSmUpReceiver % 32 ≠ 0 := by decide

/-- The slots that a packet passes. -/
theorem receive_eq (p : Packet) (s : DeviceState α) :
    dev.receive p s =
      match p with
      | .error .. => Turn.start s
      | .query eid _ =>
        if eid % 32 = 0 then dev.handleDescquery p s
        else if eid = epSmUpReceiver then
          ((dev.handleQuery p s).next (dev.handleWrite p)).next (dev.handleSmupload p)
        else (dev.handleQuery p s).next (dev.handleWrite p)
      | .endpointQuery eid _ =>
        if eid % 32 = 0 then dev.handleDescepquery p s
        else if eid = epSmUpReceiver then
          ((dev.handleWrite p s).next (dev.handleEpquery p)).next (dev.handleSmupload p)
        else (dev.handleWrite p s).next (dev.handleEpquery p)
      | .endpointInfo eid _ _ _ | .info eid _ _ | .write eid _ _ =>
        if eid % 32 = 0 then Turn.start s
        else if eid = epSmUpReceiver then (dev.handleWrite p s).next (dev.handleSmupload p)
        else dev.handleWrite p s := by
  have hupload : ∀ eid : UInt32, eid % 32 = 0 → eid ≠ epSmUpReceiver := by
    rintro eid heid rfl
    exact upload_inGroup heid
  unfold receive slots
  simp only [List.foldl_cons, List.foldl_nil, passes_and, passes_constantAnd_predicate,
    passes_eidInGroup, passes_eidOfGroup, passes_eidOfUpload]
  cases p with
  | error code flags => rfl
  | query eid | endpointQuery eid | endpointInfo eid | info eid | write eid =>
    by_cases hgroup : eid % 32 = 0
    · simp [passes, isQuery, isEndpointQuery, Packet.eid?, hgroup, hupload eid hgroup, truth]
    · by_cases hup : eid = epSmUpReceiver <;>
        simp [passes, isQuery, isEndpointQuery, Packet.eid?, hgroup, hup, truth, upload_inGroup]

/-! ## Handlers -/

theorem find_upload : dev.find epSmUpReceiver = some smUpReceiver := rfl

theorem eid_of_find {eid : UInt32} {ep : EndpointFunctions (DeviceState α)}
    (h : dev.find eid = some ep) : ep.eid = eid := by
  simpa using List.find?_some h

/-- `_handle_write` on a packet that writes nothing only looks for the endpoint. -/
theorem handleWrite_of_ne {p : Packet} (hp : p.type ≠ .write) {eid : UInt32}
    (heid : p.eid? = some eid) (s : DeviceState α) : dev.handleWrite p s =
      if (dev.find eid).isSome then Turn.start s
      else Turn.send (.error ErrorCode.unknownEid.code 0) s := by
  unfold handleWrite
  rw [heid]
  simp only
  cases dev.find eid with
  | none => rfl
  | some ep =>
    have hep : ep.handleWrite p s = (EndpointFunctions.errInternal, Turn.start s) := by
      cases p with
      | write => exact absurd rfl hp
      | _ => rfl
    simp [hep]

/-- `_handle_smupload` on a packet that writes nothing. -/
theorem handleSmupload_of_ne {p : Packet} (hp : p.type ≠ .write) (s : DeviceState α) :
    (handleSmupload dev p s).sent = [.info epSmUpAcknak (.bool false) 0] ∧
      (handleSmupload dev p s).uploads = true := by
  cases p with
  | write => exact absurd rfl hp
  | _ => exact ⟨rfl, rfl⟩

theorem stopped_handleWrite_of_ne {p : Packet} (hp : p.type ≠ .write) {eid : UInt32}
    (heid : p.eid? = some eid) (s : DeviceState α) : (dev.handleWrite p s).stopped = none := by
  rw [dev.handleWrite_of_ne hp heid]
  split <;> rfl

end Device

namespace EndpointFunctions

variable {σ : Type} (ep : EndpointFunctions σ)

/-- A query is answered unless the string is too long. -/
theorem handleQuery_cases (s : σ) :
    (ep.Tellable s ∧ ∃ reply, ep.handleQuery s = .ok reply ∧ ep.Answers s reply) ∨
    (¬ ep.Tellable s ∧ ∃ e, ep.handleQuery s = .error e) := by
  unfold Tellable handleQuery Answers
  cases hread : ep.reads.getLast? with
  | none => exact .inl ⟨fun _ _ h => by simp at h, _, rfl, rfl⟩
  | some read =>
    cases hs : read s with
    | value v =>
      have hinfo : (read s).info ep.eid = .ok (.info ep.eid v 0) := by
        simp only [hs, Readout.info]
      have hcarries : (read s).Carries v := by
        rw [hs]
        rfl
      refine .inl ⟨fun read' bytes h hbytes => ?_, .info ep.eid v 0, hinfo, v, hcarries, rfl⟩
      cases h
      rw [hs] at hbytes
      cases hbytes
    | text bytes =>
      by_cases hlen : bytes.length ≤ maxLength
      · have hcarries : (read s).Carries (.string ⟨bytes, hlen⟩) := by
          rw [hs]
          exact ⟨_, rfl, rfl⟩
        refine .inl ⟨fun read' bytes' h hbytes => ?_,
          .info ep.eid (.string ⟨bytes, hlen⟩) 0, ?_, _, hcarries, rfl⟩
        · cases h
          rw [hs] at hbytes
          cases hbytes
          exact hlen
        · simp only [hs, Readout.info, ValueString.make, dif_pos hlen]
          rfl
      · refine .inr ⟨fun h => hlen (h read bytes rfl hs), .outOfRange, ?_⟩
        simp only [hs, Readout.info, ValueString.make, dif_neg hlen]
        rfl

/-- The handlers of a write, called in turn. -/
theorem runWrites_spec (eid : UInt32) (value : Value) (i : Nat) (last : Option Bool)
    (writes : List (Value → σ → Bool × σ)) (s : σ) :
    (runWrites eid value i last writes s).2.wrote =
        (List.range writes.length).map (fun slot => (eid, i + slot, value)) ∧
      (runWrites eid value i last writes s).2.sent = [] ∧
      (runWrites eid value i last writes s).2.stopped = none ∧
      (runWrites eid value i last writes s).2.state =
        writes.foldl (fun s write => (write value s).2) s := by
  induction writes generalizing i last s with
  | nil => exact ⟨rfl, rfl, rfl, rfl⟩
  | cons write writes ih =>
    obtain ⟨hwrote, hsent, hstopped, hstate⟩ :=
      ih (i + 1) (some (write value s).1) (write value s).2
    refine ⟨?_, hsent, hstopped, hstate⟩
    rw [List.length_cons, List.range_succ_eq_map, List.map_cons, List.map_map]
    have hcons : (runWrites eid value i last (write :: writes) s).2.wrote =
        (eid, i, value) :: (runWrites eid value (i + 1) (some (write value s).1) writes
          (write value s).2).2.wrote := rfl
    rw [hcons, hwrote]
    congr 1
    refine List.map_congr_left fun slot _ => ?_
    simp only [Function.comp_apply, Prod.mk.injEq, and_true, true_and]
    omega

/-- A signal with a slot returns something. -/
theorem isSome_runWrites (eid : UInt32) (value : Value) (i : Nat) (last : Option Bool)
    (write : Value → σ → Bool × σ) (writes : List (Value → σ → Bool × σ)) (s : σ) :
    (runWrites eid value i last (write :: writes) s).1.isSome = true := by
  induction writes generalizing i last write s with
  | nil => rfl
  | cons next writes ih =>
    show (runWrites eid value (i + 1) (some (write value s).1) (next :: writes)
      (write value s).2).1.isSome = true
    exact ih (i + 1) (some (write value s).1) next (write value s).2

end EndpointFunctions

namespace Device

variable (dev : Device α)

theorem endpointInfo_cases (eid : UInt32) (datatype : UInt8) (name : List UInt8) :
    (name.length ≤ maxLength ∧ ∃ s : ValueString, s.bytes = name ∧
      endpointInfo eid datatype name = .ok (.endpointInfo eid datatype s 0)) ∨
    (¬ name.length ≤ maxLength ∧ ∃ e, endpointInfo eid datatype name = .error e) := by
  by_cases hlen : name.length ≤ maxLength
  · refine .inl ⟨hlen, ⟨name, hlen⟩, rfl, ?_⟩
    simp only [endpointInfo, ValueString.make, dif_pos hlen]
    rfl
  · refine .inr ⟨hlen, .outOfRange, ?_⟩
    simp only [endpointInfo, ValueString.make, dif_neg hlen]
    rfl

theorem sendOf_ok {p : Except Thrown Packet} {reply : Packet} (h : p = .ok reply)
    (s : DeviceState α) : Turn.sendOf p s = Turn.send reply s := by
  rw [h]
  rfl

theorem sendOf_error {p : Except Thrown Packet} {e : Thrown} (h : p = .error e)
    (s : DeviceState α) : Turn.sendOf p s = ⟨s, [], some e⟩ := by
  rw [h]
  rfl

/-- The upload receiver can be described. -/
theorem endpointInfo_upload : ∃ reply, endpointInfo epSmUpReceiver DataType.bytes65.code
    (smUpReceiver : EndpointFunctions (DeviceState α)).name = .ok reply := by
  rcases endpointInfo_cases epSmUpReceiver DataType.bytes65.code
      (smUpReceiver : EndpointFunctions (DeviceState α)).name with
    ⟨-, _, -, hreply⟩ | ⟨hlen, -⟩
  · exact ⟨_, hreply⟩
  · have hshort : "Statemachine upload receiver".toUTF8.toList.length ≤ maxLength := by
      decide +kernel
    exact absurd hshort hlen

/-- The upload handler is called behind other statements that end. -/
theorem uploads_of_ne {p : Packet} (hp : p.type ≠ .write) {t : Turn (DeviceState α)}
    (ht : t.stopped = none) : (t.next (dev.handleSmupload p)).uploads = true := by
  rw [Turn.uploads_next ht, (dev.handleSmupload_of_ne hp _).2, Bool.or_true]

/-- `_handle_write` behind another statement, on a packet that writes nothing. -/
theorem next_handleWrite_of_ne {p : Packet} (hp : p.type ≠ .write) {eid : UInt32}
    (heid : p.eid? = some eid) {t : Turn (DeviceState α)} (ht : t.stopped = none) :
    (t.next (dev.handleWrite p)).stopped = none ∧ (t.next (dev.handleWrite p)).sent =
      t.sent ++ if (dev.find eid).isSome then []
        else [.error ErrorCode.unknownEid.code 0] := by
  constructor
  · rw [Turn.next_of_running ht]
    exact dev.stopped_handleWrite_of_ne hp heid _
  · rw [Turn.sent_next ht, dev.handleWrite_of_ne hp heid]
    congr 1
    split <;> rfl

/-! ## Each type of packet -/

theorem effect_of_ne {p : Packet} (hp : p.type ≠ .write) (s : DeviceState α) :
    dev.effect p s = s := by
  cases p with
  | write => exact absurd rfl hp
  | _ => rfl

/-- What a query, an endpoint query or an information calls for. -/
theorem handled_iff_of_ne {p : Packet} (hp : p.type ≠ .write) (s : DeviceState α)
    (t : Turn (DeviceState α)) :
    dev.Handled p s t ↔
      (∀ eid flags, p = .query eid flags → ∃ reply, t.sent = [reply] ∧
        dev.AnswersQuery s eid reply) ∧
      (∀ eid flags, p = .endpointQuery eid flags → ∃ reply, t.sent = [reply] ∧
        dev.AnswersEndpointQuery s eid reply) ∧
      (t.wrote = [] ∧ t.uploads = false ∧ t.state = s) ∧
      (p.type = .error ∨ p.type = .info ∨ p.type = .epinfo → t.sent = []) := by
  constructor
  · intro h
    have hstate : t.state = s := h.state.trans (dev.effect_of_ne hp s)
    exact ⟨h.query, h.endpointQuery, ⟨(h.noWrite hp).1, (h.noWrite hp).2, hstate⟩, h.unasked⟩
  · rintro ⟨hquery, hendpointQuery, ⟨hwrote, huploads, hstate⟩, hunasked⟩
    refine ⟨hstate.trans (dev.effect_of_ne hp s).symm, hquery, hendpointQuery, ?_, ?_, ?_, ?_,
      fun _ => ⟨hwrote, huploads⟩, hunasked⟩
    · rintro eid value flags ep rfl
      exact absurd rfl hp
    · rintro eid value flags rfl
      exact absurd rfl hp
    · rintro eid value flags ep rfl
      exact absurd rfl hp
    · rintro data flags rfl
      exact absurd rfl hp

/-- **Queries**. -/
theorem handled_query_iff (eid : UInt32) (flags : UInt8) (s : DeviceState α) :
    dev.Handled (.query eid flags) s (dev.receive (.query eid flags) s) ↔
      dev.Dispatches (.query eid flags) s := by
  have hne : (Packet.query eid flags).type ≠ .write := nofun
  rw [dev.handled_iff_of_ne hne, receive_eq]
  simp only [Dispatches]
  by_cases hgroup : eid % 32 = 0
  · simp only [if_pos hgroup]
    rw [← described_descGroup_iff dev hgroup]
    constructor
    · rintro ⟨hquery, -⟩
      obtain ⟨reply, hsent, hanswers⟩ := hquery eid flags rfl
      unfold AnswersQuery at hanswers
      rw [if_pos hgroup] at hanswers
      obtain ⟨mask, hmask, rfl⟩ := hanswers
      cases hsent
      exact hmask
    · intro hmask
      refine ⟨?_, nofun, ⟨rfl, rfl, rfl⟩, by simp [Packet.type]⟩
      rintro eid' flags' heq
      cases heq
      refine ⟨.info eid (.uint32 (dev.descGroup eid)) 0, rfl, ?_⟩
      unfold AnswersQuery
      rw [if_pos hgroup]
      exact ⟨_, hmask, rfl⟩
  simp only [hgroup, if_false]
  by_cases hup : eid = epSmUpReceiver
  · -- the upload handler sees the query
    subst hup
    simp only [if_true, ne_eq, not_true_eq_false, false_and, iff_false]
    rintro ⟨-, -, ⟨-, huploads, -⟩, -⟩
    have hquery : (dev.handleQuery (.query epSmUpReceiver flags) s).stopped = none := rfl
    rw [dev.uploads_of_ne hne (dev.next_handleWrite_of_ne hne rfl hquery).1] at huploads
    cases huploads
  simp only [hup, if_false, ne_eq, not_false_eq_true, true_and]
  cases hfind : dev.find eid with
  | none =>
    -- both handlers send an error
    refine iff_of_false ?_ (by simp)
    rintro ⟨hquery, -⟩
    obtain ⟨reply, hsent, -⟩ := hquery eid flags rfl
    have hfirst : dev.handleQuery (.query eid flags) s =
        Turn.send (.error ErrorCode.unknownEid.code 0) s := by
      unfold handleQuery
      simp only [hfind]
    rw [(dev.next_handleWrite_of_ne hne rfl (by rw [hfirst]; rfl)).2, hfirst, hfind] at hsent
    simp at hsent
  | some ep =>
    have hfirst : dev.handleQuery (.query eid flags) s = Turn.sendOf (ep.handleQuery s) s := by
      unfold handleQuery
      simp only [hfind]
    rcases ep.handleQuery_cases s with ⟨htell, reply, hreply, hanswers⟩ | ⟨htell, e, he⟩
    · refine iff_of_true ?_ ⟨ep, rfl, htell⟩
      have hstart : ∀ s, dev.handleWrite (.query eid flags) s = Turn.start s := by
        intro s
        rw [dev.handleWrite_of_ne hne rfl, hfind]
        rfl
      rw [hfirst, sendOf_ok hreply, Turn.next_of_running rfl, hstart]
      refine ⟨?_, nofun, ⟨rfl, rfl, rfl⟩, by simp [Packet.type]⟩
      rintro eid' flags' heq
      cases heq
      refine ⟨reply, rfl, ?_⟩
      unfold AnswersQuery
      rw [if_neg hgroup, hfind]
      exact hanswers
    · refine iff_of_false ?_ ?_
      · rintro ⟨hquery, -⟩
        obtain ⟨reply, hsent, -⟩ := hquery eid flags rfl
        rw [hfirst, sendOf_error he, Turn.next_of_stopped rfl] at hsent
        cases hsent
      · rintro ⟨ep', hep', htell'⟩
        cases hep'
        exact htell htell'

/-- **Endpoint queries**. -/
theorem handled_endpointQuery_iff (eid : UInt32) (flags : UInt8) (s : DeviceState α) :
    dev.Handled (.endpointQuery eid flags) s (dev.receive (.endpointQuery eid flags) s) ↔
      dev.Dispatches (.endpointQuery eid flags) s := by
  have hne : (Packet.endpointQuery eid flags).type ≠ .write := nofun
  rw [dev.handled_iff_of_ne hne, receive_eq]
  simp only [Dispatches]
  by_cases hgroup : eid % 32 = 0
  · simp only [if_pos hgroup]
    have hname : dev.handleDescepquery (.endpointQuery eid flags) s =
        Turn.sendOf (endpointInfo eid DataType.uint32.code (dev.deviceName s)) s := rfl
    rcases endpointInfo_cases eid DataType.uint32.code (dev.deviceName s) with
      ⟨hlen, name, hbytes, hreply⟩ | ⟨hlen, e, he⟩
    · rw [hname, sendOf_ok hreply]
      refine iff_of_true ⟨nofun, ?_, ⟨rfl, rfl, rfl⟩, by simp [Packet.type]⟩ hlen
      rintro eid' flags' heq
      cases heq
      refine ⟨_, rfl, ?_⟩
      unfold AnswersEndpointQuery
      rw [if_pos hgroup]
      exact ⟨name, hbytes, rfl⟩
    · refine iff_of_false ?_ hlen
      rintro ⟨-, hquery, -⟩
      obtain ⟨reply, hsent, -⟩ := hquery eid flags rfl
      rw [hname, sendOf_error he] at hsent
      cases hsent
  simp only [hgroup, if_false]
  have hfirst := @handleWrite_of_ne _ dev _ hne eid rfl s
  have hrunning := @stopped_handleWrite_of_ne _ dev _ hne eid rfl s
  by_cases hup : eid = epSmUpReceiver
  · -- the upload handler sees the query
    subst hup
    simp only [if_true, ne_eq, not_true_eq_false, false_and, iff_false]
    rintro ⟨-, -, ⟨-, huploads, -⟩, -⟩
    have hsecond : (dev.handleEpquery (.endpointQuery epSmUpReceiver flags) s).stopped = none := by
      obtain ⟨reply, hreply⟩ := endpointInfo_upload
      have hname : dev.handleEpquery (.endpointQuery epSmUpReceiver flags) s =
          Turn.sendOf (endpointInfo epSmUpReceiver DataType.bytes65.code
            (smUpReceiver : EndpointFunctions (DeviceState α)).name) s := rfl
      rw [hname, sendOf_ok hreply]
      rfl
    rw [dev.find_upload] at hfirst
    rw [hfirst, Option.isSome_some, if_pos rfl, Turn.next_start,
      dev.uploads_of_ne hne hsecond] at huploads
    cases huploads
  simp only [hup, if_false, ne_eq, not_false_eq_true, true_and]
  cases hfind : dev.find eid with
  | none =>
    -- both handlers send an error
    refine iff_of_false ?_ (by simp)
    rintro ⟨-, hquery, -⟩
    obtain ⟨reply, hsent, -⟩ := hquery eid flags rfl
    have hsecond : ∀ s, dev.handleEpquery (.endpointQuery eid flags) s =
        Turn.send (.error ErrorCode.unknownEid.code 0) s := by
      intro s
      unfold handleEpquery
      simp only [Packet.eid?, hfind]
    rw [hfind] at hfirst
    rw [Turn.sent_next hrunning, hfirst, hsecond] at hsent
    simp at hsent
  | some ep =>
    rw [hfind] at hfirst
    have hsecond : dev.handleEpquery (.endpointQuery eid flags) s =
        Turn.sendOf (endpointInfo eid ep.datatype.code ep.name) s := by
      unfold handleEpquery
      simp only [Packet.eid?, hfind]
    rw [hfirst, Option.isSome_some, if_pos rfl, Turn.next_start, hsecond]
    rcases endpointInfo_cases eid ep.datatype.code ep.name with
      ⟨hlen, name, hbytes, hreply⟩ | ⟨hlen, e, he⟩
    · rw [sendOf_ok hreply]
      refine iff_of_true ⟨nofun, ?_, ⟨rfl, rfl, rfl⟩, by simp [Packet.type]⟩ ⟨ep, rfl, hlen⟩
      rintro eid' flags' heq
      cases heq
      refine ⟨_, rfl, ?_⟩
      unfold AnswersEndpointQuery
      rw [if_neg hgroup, hfind]
      exact ⟨name, hbytes, rfl⟩
    · refine iff_of_false ?_ ?_
      · rintro ⟨-, hquery, -⟩
        obtain ⟨reply, hsent, -⟩ := hquery eid flags rfl
        rw [sendOf_error he] at hsent
        cases hsent
      · rintro ⟨ep', hep', hlen'⟩
        cases hep'
        exact hlen hlen'

/-- **Informations**, which call for nothing. -/
theorem handled_info_iff {p : Packet} {eid : UInt32} (heid : p.eid? = some eid)
    (hp : p.type = .info ∨ p.type = .epinfo) (s : DeviceState α) :
    dev.Handled p s (dev.receive p s) ↔
      (eid % 32 = 0 ∨ eid ≠ epSmUpReceiver ∧ (dev.find eid).isSome) := by
  have hne : p.type ≠ .write := by
    intro h
    rcases hp with hp | hp <;> rw [hp] at h <;> cases h
  have hquery : ∀ e f, p ≠ .query e f := by
    rintro e f rfl
    rcases hp with hp | hp <;> cases hp
  have hepquery : ∀ e f, p ≠ .endpointQuery e f := by
    rintro e f rfl
    rcases hp with hp | hp <;> cases hp
  have hreceive : dev.receive p s = if eid % 32 = 0 then Turn.start s
      else if eid = epSmUpReceiver then (dev.handleWrite p s).next (dev.handleSmupload p)
      else dev.handleWrite p s := by
    rw [receive_eq]
    cases p with
    | info => cases heid; rfl
    | endpointInfo => cases heid; rfl
    | error => cases heid
    | query => exact absurd rfl (hquery _ _)
    | endpointQuery => exact absurd rfl (hepquery _ _)
    | write => exact absurd rfl hne
  have hfields : ∀ t : Turn (DeviceState α), dev.Handled p s t ↔
      (t.wrote = [] ∧ t.uploads = false ∧ t.state = s) ∧ t.sent = [] := by
    intro t
    rw [dev.handled_iff_of_ne hne]
    exact ⟨fun h => ⟨h.2.2.1, h.2.2.2 (.inr hp)⟩, fun h =>
      ⟨fun e f h => absurd h (hquery e f), fun e f h => absurd h (hepquery e f), h.1, fun _ => h.2⟩⟩
  rw [hfields, hreceive]
  by_cases hgroup : eid % 32 = 0
  · rw [if_pos hgroup]
    exact iff_of_true ⟨⟨rfl, rfl, rfl⟩, rfl⟩ (.inl hgroup)
  rw [if_neg hgroup]
  by_cases hup : eid = epSmUpReceiver
  · rw [if_pos hup]
    refine iff_of_false (fun h => ?_) fun h => h.elim hgroup fun h => h.1 hup
    have huploads := h.1.2.1
    rw [dev.uploads_of_ne hne (dev.stopped_handleWrite_of_ne hne heid s)] at huploads
    cases huploads
  rw [if_neg hup, dev.handleWrite_of_ne hne heid]
  cases hfind : dev.find eid with
  | none =>
    refine iff_of_false (fun h => ?_) fun h => h.elim hgroup fun h => absurd h.2 (by simp)
    cases h.2
  | some ep => exact iff_of_true ⟨⟨rfl, rfl, rfl⟩, rfl⟩ (.inr ⟨hup, rfl⟩)

/-- `_handle_write` on a write of another type. -/
theorem handleWrite_mistyped {eid : UInt32} {value : Value} {flags : UInt8}
    {ep : EndpointFunctions (DeviceState α)} (hfind : dev.find eid = some ep)
    (htype : value.datatype ≠ ep.datatype) (s : DeviceState α) :
    dev.handleWrite (.write eid value flags) s = Turn.start s := by
  unfold handleWrite
  simp only [Packet.eid?, hfind, EndpointFunctions.handleWrite, if_neg htype]
  rfl

/-- `_handle_write` on a write of the right type, without a handler. -/
theorem handleWrite_readOnly {eid : UInt32} {value : Value} {flags : UInt8}
    {ep : EndpointFunctions (DeviceState α)} (hfind : dev.find eid = some ep)
    (htype : value.datatype = ep.datatype) (hwrites : ep.writes = []) (s : DeviceState α) :
    dev.handleWrite (.write eid value flags) s =
      Turn.send (.error ErrorCode.writeReadonly.code 0) s := by
  unfold handleWrite
  simp only [Packet.eid?, hfind, EndpointFunctions.handleWrite, if_pos htype, hwrites]
  rfl

/-- `_handle_write` on a write of the right type. -/
theorem handleWrite_wrote {eid : UInt32} {value : Value} {flags : UInt8}
    {ep : EndpointFunctions (DeviceState α)} (hfind : dev.find eid = some ep)
    (htype : value.datatype = ep.datatype) (hwrites : ep.writes ≠ []) (s : DeviceState α) :
    (dev.handleWrite (.write eid value flags) s).wrote =
        (List.range ep.writes.length).map (fun slot => (eid, slot, value)) ∧
      (dev.handleWrite (.write eid value flags) s).sent = [] ∧
      (dev.handleWrite (.write eid value flags) s).stopped = none ∧
      (dev.handleWrite (.write eid value flags) s).state =
        ep.writes.foldl (fun s write => (write value s).2) s := by
  have hrun : dev.handleWrite (.write eid value flags) s =
      (EndpointFunctions.runWrites ep.eid value 0 none ep.writes s).2 := by
    unfold handleWrite
    simp only [Packet.eid?, hfind, EndpointFunctions.handleWrite, if_pos htype]
    cases hcases : ep.writes with
    | nil => exact absurd hcases hwrites
    | cons write writes =>
      have hset := EndpointFunctions.isSome_runWrites ep.eid value 0 none write writes s
      refine if_neg ?_
      rw [if_pos hset]
      exact fun h => h.1 rfl
  rw [hrun, ← dev.eid_of_find hfind]
  have hspec := EndpointFunctions.runWrites_spec ep.eid value 0 none ep.writes s
  simpa only [Nat.zero_add] using hspec

theorem uploadedName_eq (data : Block 65) : uploadedName data =
    if 0 ∈ data.val.drop 1 then .ok ((data.val.drop 1).takeWhile (· ≠ 0))
    else .error .undefinedRead := by
  have hlen : (data.val.drop 1).length = 64 := by
    rw [List.length_drop, data.property]
  have hall : ((data.val.drop 1).takeWhile (· ≠ 0)).length = 64 ↔ 0 ∉ data.val.drop 1 := by
    constructor
    · intro h hzero
      have hself : (data.val.drop 1).takeWhile (· ≠ 0) = data.val.drop 1 :=
        (List.takeWhile_prefix _).eq_of_length (h.trans hlen.symm)
      have hne := List.mem_takeWhile_imp (hself ▸ hzero)
      simp at hne
    · intro h
      rw [List.takeWhile_eq_self_iff.mpr ?_, hlen]
      intro byte hbyte
      exact decide_eq_true fun hzero => h (hzero ▸ hbyte)
  unfold uploadedName
  by_cases hzero : 0 ∈ data.val.drop 1
  · rw [if_pos hzero]
    exact if_neg fun h => hall.mp h hzero
  · rw [if_neg hzero]
    exact if_pos (hall.mpr hzero)

theorem state_nameWritten (data : Block 65) (hhead : data.val.head? = some 0)
    (s : DeviceState α) :
    (dev.nameWritten ((data.val.drop 1).takeWhile (· ≠ 0)) s).state =
      dev.renamed (.bytes65 data) s := by
  unfold nameWritten renamed
  simp only
  by_cases hname : (data.val.drop 1).takeWhile (· ≠ 0) = []
  · rw [if_pos hname, if_neg fun h => h.2 hname]
    rfl
  · rw [if_neg hname, if_pos ⟨hhead, hname⟩]

/-- `_handle_smupload` on a chunk. -/
theorem handleSmupload_chunk (eid : UInt32) (data : Block 65) (flags : UInt8)
    (s : DeviceState α) :
    (handleSmupload dev (.write eid (.bytes65 data) flags) s).wrote = [] ∧
      (handleSmupload dev (.write eid (.bytes65 data) flags) s).sent =
        (if data.val.head? = some 0 ∧ 0 ∉ data.val.drop 1 then []
        else [.info epSmUpAcknak (.bool true) 0]) ∧
      ((data.val.head? = some 0 → 0 ∈ data.val.drop 1) →
        (handleSmupload dev (.write eid (.bytes65 data) flags) s).state =
          dev.renamed (.bytes65 data) s) := by
  unfold handleSmupload
  simp only
  by_cases hhead : data.val.head? = some 0
  · rw [if_pos hhead, uploadedName_eq]
    by_cases hzero : 0 ∈ data.val.drop 1
    · rw [if_pos hzero, if_neg fun h => h.2 hzero, ← dev.state_nameWritten data hhead s]
      unfold nameWritten
      simp only
      split <;> exact ⟨rfl, rfl, fun _ => rfl⟩
    · rw [if_neg hzero, if_pos ⟨hhead, hzero⟩]
      exact ⟨rfl, rfl, fun h => absurd (h hhead) hzero⟩
  · rw [if_neg hhead, if_neg fun h => hhead h.1]
    refine ⟨rfl, rfl, fun _ => ?_⟩
    unfold renamed
    exact (if_neg fun h => hhead h.1).symm

/-- What a write calls for. -/
theorem handled_iff_of_write (eid : UInt32) (value : Value) (flags : UInt8) (s : DeviceState α)
    (t : Turn (DeviceState α)) : dev.Handled (.write eid value flags) s t ↔
      t.state = dev.effect (.write eid value flags) s ∧
      (∀ ep, dev.find eid = some ep → ep.writes ≠ [] → value.datatype = ep.datatype →
        t.wrote = (List.range ep.writes.length).map (fun slot => (eid, slot, value)) ∧
        t.sent.filter Packet.isError = []) ∧
      (dev.find eid = none → t.sent = [.error ErrorCode.unknownEid.code 0]) ∧
      (∀ ep, dev.find eid = some ep → ep.writes = [] →
        t.sent = [.error ErrorCode.writeReadonly.code 0]) ∧
      (eid = epSmUpReceiver → ∀ data, value = .bytes65 data →
        ∃ ack, t.sent.filter Packet.isAcknak = [.info epSmUpAcknak (.bool ack) 0]) := by
  constructor
  · intro h
    refine ⟨h.state, fun ep hep => h.write eid value flags ep rfl hep,
      h.missing eid value flags rfl, fun ep hep => h.readOnly eid value flags ep rfl hep, ?_⟩
    rintro rfl data rfl
    exact h.upload data flags rfl
  · rintro ⟨hstate, hwrite, hmissing, hreadOnly, hupload⟩
    refine ⟨hstate, nofun, nofun, ?_, ?_, ?_, ?_, fun h => absurd rfl h, by simp [Packet.type]⟩
    · rintro _ _ _ ep heq
      cases heq
      exact hwrite ep
    · rintro _ _ _ heq
      cases heq
      exact hmissing
    · rintro _ _ _ ep heq
      cases heq
      exact hreadOnly ep
    · rintro data _ heq
      cases heq
      exact hupload rfl data rfl

/-! ### What a write does to the state -/

theorem effect_missing {eid : UInt32} (hfind : dev.find eid = none) (value : Value)
    (flags : UInt8) (s : DeviceState α) : dev.effect (.write eid value flags) s = s := by
  unfold effect
  simp only [hfind]

theorem effect_mistyped {eid : UInt32} {value : Value} {ep : EndpointFunctions (DeviceState α)}
    (hfind : dev.find eid = some ep) (htype : value.datatype ≠ ep.datatype) (flags : UInt8)
    (s : DeviceState α) : dev.effect (.write eid value flags) s = s := by
  unfold effect
  simp only [hfind, if_neg htype]

theorem effect_typed {eid : UInt32} {value : Value} {ep : EndpointFunctions (DeviceState α)}
    (hfind : dev.find eid = some ep) (htype : value.datatype = ep.datatype)
    (hup : eid ≠ epSmUpReceiver) (flags : UInt8) (s : DeviceState α) :
    dev.effect (.write eid value flags) s =
      ep.writes.foldl (fun s write => (write value s).2) s := by
  unfold effect
  simp only [hfind, if_pos htype, if_neg hup]

theorem effect_upload (data : Block 65) (flags : UInt8) (s : DeviceState α) :
    dev.effect (.write epSmUpReceiver (.bytes65 data) flags) s =
      dev.renamed (.bytes65 data)
        ((smUpReceiver : EndpointFunctions (DeviceState α)).writes.foldl
          (fun s write => (write (.bytes65 data) s).2) s) := by
  unfold effect
  simp only [dev.find_upload]
  rfl

/-- **Writes**. -/
theorem handled_write_iff (eid : UInt32) (value : Value) (flags : UInt8) (s : DeviceState α) :
    dev.Handled (.write eid value flags) s (dev.receive (.write eid value flags) s) ↔
      dev.Dispatches (.write eid value flags) s := by
  rw [dev.handled_iff_of_write, receive_eq]
  simp only [Dispatches]
  by_cases hgroup : eid % 32 = 0
  · -- nobody looks at the write
    simp only [if_pos hgroup]
    constructor
    · rintro ⟨-, hwrite, hmissing, hreadOnly, -⟩
      cases hfind : dev.find eid with
      | none => cases hmissing hfind
      | some ep =>
        have hwrites : ep.writes ≠ [] := fun h => by cases hreadOnly ep hfind h
        refine ⟨ep, rfl, hwrites, fun htype => ?_⟩
        have hslots := (hwrite ep hfind hwrites htype).1
        rw [Turn.wrote_start] at hslots
        exact hwrites (List.length_eq_zero_iff.mp
          (List.range_eq_nil.mp (List.map_eq_nil_iff.mp hslots.symm)))
    · rintro ⟨ep, hfind, hwrites, htype⟩
      rw [dev.effect_mistyped hfind htype, hfind]
      refine ⟨rfl, ?_, fun h => absurd h (Option.some_ne_none ep), ?_, ?_⟩
      · rintro ep' heq - htype'
        cases heq
        exact absurd htype' htype
      · rintro ep' heq hwrites'
        cases heq
        exact absurd hwrites' hwrites
      · rintro rfl
        exact absurd hgroup upload_inGroup
  simp only [hgroup, if_false]
  by_cases hup : eid = epSmUpReceiver
  · subst hup
    simp only [if_true, dev.find_upload, Option.some.injEq, forall_eq', true_imp_iff, reduceCtorEq,
      false_imp_iff, true_and]
    have hwrites : (smUpReceiver : EndpointFunctions (DeviceState α)).writes ≠ [] :=
      List.cons_ne_nil _ _
    simp only [ne_eq, hwrites, not_false_eq_true, true_imp_iff, false_imp_iff, true_and]
    by_cases htype : value.datatype = (smUpReceiver : EndpointFunctions (DeviceState α)).datatype
    · obtain ⟨data, rfl⟩ : ∃ data, value = .bytes65 data := by
        cases value <;> first | exact ⟨_, rfl⟩ | cases htype
      obtain ⟨hwrote, hsent, hstopped, hstate⟩ :=
        @handleWrite_wrote _ dev _ _ flags _ dev.find_upload htype hwrites s
      obtain ⟨huploadWrote, huploadSent, hrenamed⟩ :=
        dev.handleSmupload_chunk epSmUpReceiver data flags
          (dev.handleWrite (.write epSmUpReceiver (.bytes65 data) flags) s).state
      rw [Turn.state_next hstopped, Turn.wrote_next hstopped, Turn.sent_next hstopped, hwrote,
        hsent, huploadWrote, huploadSent, dev.effect_upload]
      by_cases hbad : data.val.head? = some 0 ∧ 0 ∉ data.val.drop 1
      · -- the name is not ended
        rw [if_pos hbad]
        refine iff_of_false (fun h => ?_) fun h => hbad.2 (h data rfl hbad.1)
        obtain ⟨ack, hack⟩ := h.2.2 data rfl
        cases hack
      · have hended : data.val.head? = some 0 → 0 ∈ data.val.drop 1 := by
          intro hhead
          by_contra hzero
          exact hbad ⟨hhead, hzero⟩
        rw [if_neg hbad, hrenamed hended, hstate]
        refine iff_of_true ⟨rfl, fun _ => ⟨List.append_nil _, rfl⟩, fun _ _ => ⟨true, rfl⟩⟩ ?_
        intro data' heq
        cases heq
        exact hended
    · have hstate : ((dev.handleWrite (.write epSmUpReceiver value flags) s).next
          (dev.handleSmupload (.write epSmUpReceiver value flags))).state = s := by
        rw [dev.handleWrite_mistyped dev.find_upload htype, Turn.next_start]
        cases value with
        | bytes65 data => exact absurd rfl htype
        | _ => rfl
      rw [dev.effect_mistyped dev.find_upload htype]
      refine iff_of_true ⟨hstate, fun h => absurd h htype, ?_⟩ ?_
      · rintro data rfl
        exact absurd rfl htype
      · rintro data rfl
        exact absurd rfl htype
  simp only [hup, if_false, false_imp_iff, and_true]
  cases hfind : dev.find eid with
  | none =>
    have hsent : dev.handleWrite (.write eid value flags) s =
        Turn.send (.error ErrorCode.unknownEid.code 0) s := by
      unfold handleWrite
      simp only [Packet.eid?, hfind]
    rw [hsent, dev.effect_missing hfind]
    refine iff_of_true ⟨rfl, fun ep h => ?_, fun _ => rfl, fun ep h => ?_⟩ fun ep h => ?_
    · cases h
    · cases h
    · cases h
  | some ep =>
    simp only [Option.some.injEq, forall_eq', reduceCtorEq, false_imp_iff, true_and]
    by_cases htype : value.datatype = ep.datatype
    · by_cases hwrites : ep.writes = []
      · have hstate : s = dev.effect (.write eid value flags) s := by
          rw [dev.effect_typed hfind htype hup, hwrites]
          rfl
        rw [dev.handleWrite_readOnly hfind htype hwrites]
        exact iff_of_true ⟨hstate, fun h => absurd hwrites h, fun _ => rfl⟩ fun _ => htype
      · obtain ⟨hwrote, hsent, -, hstate⟩ :=
          @handleWrite_wrote _ dev _ _ flags _ hfind htype hwrites s
        rw [hwrote, hsent, hstate, dev.effect_typed hfind htype hup]
        exact iff_of_true ⟨rfl, fun _ _ => ⟨rfl, rfl⟩, fun h => absurd h hwrites⟩ fun _ => htype
    · rw [dev.handleWrite_mistyped hfind htype, dev.effect_mistyped hfind htype]
      by_cases hwrites : ep.writes = []
      · exact iff_of_false (fun h => by cases h.2.2 hwrites) fun h => htype (h hwrites)
      · exact iff_of_true ⟨rfl, fun _ h => absurd h htype, fun h => absurd h hwrites⟩
          fun h => absurd h hwrites

/-- **Dispatch**. A device handles a packet as its type calls for, once, just when no slot
sees it beside the one of its type. -/
theorem dispatch_iff (p : Packet) (s : DeviceState α) :
    dev.Handled p s (dev.receive p s) ↔ dev.Dispatches p s := by
  cases p with
  | error code flags =>
    have hreceive : dev.receive (.error code flags) s = Turn.start s := by
      rw [receive_eq]
    have hne : (Packet.error code flags).type ≠ .write := nofun
    rw [hreceive, dev.handled_iff_of_ne hne]
    exact iff_of_true ⟨nofun, nofun, ⟨rfl, rfl, rfl⟩, fun _ => rfl⟩ trivial
  | query eid flags => exact dev.handled_query_iff eid flags s
  | endpointQuery eid flags => exact dev.handled_endpointQuery_iff eid flags s
  | endpointInfo eid datatype value flags => exact dev.handled_info_iff rfl (.inr rfl) s
  | info eid value flags => exact dev.handled_info_iff rfl (.inl rfl) s
  | write eid value flags => exact dev.handled_write_iff eid value flags s

/-- A device without endpoints of its own. -/
def bare : Device Unit := ⟨[], [], []⟩

/-- A query of an unknown endpoint is answered twice. -/
theorem bare_query_twice : ¬ bare.Handled (.query 1 0) ⟨(), 0⟩
    (bare.receive (.query 1 0) ⟨(), 0⟩) := by
  intro h
  obtain ⟨reply, hsent, -⟩ := h.query 1 0 rfl
  cases hsent

end Device

end Hexabus.Host
