import Hexabus.Upload.Session

/-!
# Upload agreement

When the uploader reports every chunk as sent, the device has stored it: as long as a reply
that ends the wait for a chunk answers a transmission of that chunk. The replies do not say
what they answer, so a late one is taken for the next.
-/

namespace Hexabus.Upload

open Lib.Bytes Lib.Store Lib.Runs Firmware

/-! ## What a chunk stores -/

/-- Where a chunk goes. -/
def chunkPlace (id : UInt8) : Nat :=
  if id = 0 then EE.domainName else EE.statemachineId + (id.toNat - 1) * chunkSize

/-- What is stored of a chunk: of the name the part that the EEPROM has room for, or nothing
when it is empty, of the others everything. -/
def chunkContent (id : UInt8) (data : Block 64) : List UInt8 :=
  if id = 0 then if data.val.getD 0 0 = 0 then [] else data.val.take EE.domainNameSize
  else data.val

/-- The device has room for the chunk, and has stored it. -/
structure Stored (eeprom : Mem) (id : UInt8) (data : Block 64) : Prop where
  room : id.toNat ≤ 24
  holds : Holds eeprom (chunkPlace id) (chunkContent id data)

theorem writeBlock_nil (m : Mem) (a : Nat) : writeBlock m a [] = m := by
  funext i
  exact writeBlock_apply_out m a [] i (by simp; omega)

/-- `sm_write_chunk`. -/
theorem smWriteChunk_eq (m : Mem) (id : UInt8) (data : Block 64) :
    smWriteChunk m id data =
      if id.toNat ≤ 24 then (true, writeBlock m (chunkPlace id) (chunkContent id data))
      else (false, m) := by
  by_cases hzero : id = 0
  · subst hzero
    rw [if_pos (by decide), smWriteChunk, if_pos rfl]
    unfold chunkPlace chunkContent
    rw [if_pos rfl, if_pos rfl]
    split
    · rw [writeBlock_nil]
    · rfl
  · have hpos : 0 < id.toNat := Nat.pos_of_ne_zero fun h => hzero (UInt8.toNat_inj.mp h)
    have hpred : (id - 1).toNat = id.toNat - 1 := by
      rw [UInt8.toNat_sub_of_le _ _ (by rw [UInt8.le_iff_toNat_le]; exact hpos)]
      rfl
    have hsize : EE.statemachineSize = 24 * chunkSize := EE.statemachineSize_eq
    have hpositive : 0 < chunkSize := by decide
    have hfits : ((id - 1).toNat + 1) * chunkSize > EE.statemachineSize ↔ ¬ id.toNat ≤ 24 := by
      rw [hpred, hsize, Nat.sub_add_cancel hpos, gt_iff_lt, Nat.mul_lt_mul_right hpositive]
      omega
    rw [smWriteChunk, if_neg hzero]
    simp only [hfits]
    unfold chunkPlace chunkContent
    rw [if_neg hzero, if_neg hzero, hpred]
    by_cases hroom : id.toNat ≤ 24
    · rw [if_pos hroom, if_neg (not_not.mpr hroom)]
    · rw [if_neg hroom, if_pos hroom]

theorem length_chunkContent_le (id : UInt8) (data : Block 64) :
    (chunkContent id data).length ≤ if id = 0 then EE.domainNameSize else chunkSize := by
  unfold chunkContent
  split
  · split
    · exact Nat.zero_le _
    · exact List.length_take_le _ _
  · rw [data.property]
    exact Nat.le_refl _

/-- Two chunks have different places. -/
theorem chunkPlace_disjoint {id id' : UInt8} (h : id ≠ id') (data data' : Block 64) :
    chunkPlace id + (chunkContent id data).length ≤ chunkPlace id' ∨
      chunkPlace id' + (chunkContent id' data').length ≤ chunkPlace id := by
  have hlen := length_chunkContent_le id data
  have hlen' := length_chunkContent_le id' data'
  have hname : EE.domainName + EE.domainNameSize ≤ EE.statemachineId := by decide
  have hne : id.toNat ≠ id'.toNat := fun heq => h (UInt8.toNat_inj.mp heq)
  unfold chunkPlace
  by_cases hzero : id = 0 <;> by_cases hzero' : id' = 0
  · exact absurd (hzero.trans hzero'.symm) h
  · rw [if_pos hzero] at hlen ⊢
    rw [if_neg hzero']
    omega
  · rw [if_pos hzero'] at hlen' ⊢
    rw [if_neg hzero]
    omega
  · have hpos : id.toNat ≠ 0 := fun h => hzero (UInt8.toNat_inj.mp h)
    have hpos' : id'.toNat ≠ 0 := fun h => hzero' (UInt8.toNat_inj.mp h)
    rw [if_neg hzero] at hlen ⊢
    rw [if_neg hzero'] at hlen' ⊢
    unfold chunkSize at hlen hlen' ⊢
    omega

/-- What is stored stays, when the same chunk or another is stored. -/
theorem Stored.write {m : Mem} {id id' : UInt8} {data data' : Block 64} (h : Stored m id data)
    (hsame : id' = id → data' = data) : Stored (smWriteChunk m id' data').2 id data := by
  rw [smWriteChunk_eq]
  split
  · refine ⟨h.room, ?_⟩
    by_cases heq : id' = id
    · rw [heq, hsame heq]
      exact holds_write _ _ _
    · exact h.holds.write (chunkPlace_disjoint (Ne.symm heq) data data')
  · exact h

theorem stored_of_written {m : Mem} {id : UInt8} {data : Block 64}
    (h : (smWriteChunk m id data).1 = true) : Stored (smWriteChunk m id data).2 id data := by
  rw [smWriteChunk_eq] at h ⊢
  by_cases hroom : id.toNat ≤ 24
  · rw [if_pos hroom]
    exact ⟨hroom, holds_write _ _ _⟩
  · rw [if_neg hroom] at h
    cases h

/-! ## The device keeps its EEPROM -/

variable {δ : Type}

@[simp] theorem eeprom_smStop (s : Fw δ) : (smStop s).eeprom = s.eeprom := rfl

@[simp] theorem eeprom_smStart (s : Fw δ) : (smStart s).eeprom = s.eeprom := by
  unfold smStart
  split <;> rfl

@[simp] theorem eeprom_smRestart (s : Fw δ) : (smRestart s).eeprom = s.eeprom := by
  unfold smRestart
  rw [eeprom_smStart, eeprom_smStop]

@[simp] theorem eeprom_writeControl (state : UInt8) (s : Fw δ) :
    (writeControl state s).eeprom = s.eeprom := by
  unfold writeControl
  split
  · rfl
  split
  · split <;> simp
  · rfl

@[simp] theorem eeprom_reboot (zeroed s : Fw δ) : (reboot zeroed s).eeprom = s.eeprom := by
  unfold reboot
  rw [eeprom_smStart]

/-! ## What the uploader does -/

namespace Session

variable (program : Program)

/-- The reply ends the wait, whichever sender it is for. -/
def Ends (reply : Reply) (job : Job) : Prop := reply = .acknak true ∨ reply = .state job.reqState

/-- The reply can end the wait for the machine to stop. -/
def Heard (reply : Reply) (job : Job) : Prop :=
  (∃ value, reply = .acknak value) ∨ reply = .state job.reqState

/-- A reply that ends the wait for a chunk answers a transmission of this chunk. -/
def Attributed (s : Session δ) : Step → Prop
  | .reply i => ∀ request reply id, s.replies[i]? = some (request, reply) →
      s.uploader.job = some (.chunk id) → Ends reply (.chunk id) → ∃ data, request = .chunk id data
  | _ => True

/-- The chunk sender has reported success for every chunk. -/
def ChunksConfirmed (s : Session δ) : Prop := program.image.length ≤ s.uploader.confirmed

/-- The uploader has done something: the rest of the session is as before, but for what it
has sent for the call that it waits in now. -/
structure Acts (s s' : Session δ) : Prop where
  device : s'.device = s.device
  replies : s'.replies = s.replies
  rebooted : s'.rebooted = s.rebooted
  requests : ∀ request ∈ s'.requests, request ∈ s.requests ∨
    ∃ job, s'.uploader.job = some job ∧ request ∈ packets program job
  kept : ∀ request ∈ s.requests, request ∈ s'.requests

/-- Where the main function stands after something has happened to the call of `send` in
`job`. The machine is reported as stopped only if `heard` holds, a chunk as sent only if `ends`
holds. -/
inductive Continues (heard ends : Prop) (confirmed : Nat) (job : Job) (u : Uploader) : Prop
  | waits (job_eq : u.job = some job) (same : u.confirmed = confirmed)
  | exits (job_eq : u.job = none) (same : u.confirmed = confirmed)
  | stopped (was : job = .stop) (h : heard)
      (next : u.job = some (if 0 < program.image.length then .chunk 0 else .start))
      (same : u.confirmed = confirmed)
  | sent (id : UInt8) (was : job = .chunk id) (h : ends)
      (next : u.job = some (if (id + 1).toNat < program.image.length then .chunk (id + 1)
        else .start))
      (more : u.confirmed = confirmed + 1)

variable {program} {s : Session δ} {job : Job} {heard ends : Prop}

theorem acts_begin (job : Job) (s : Session δ) : Acts program s (begin program job s) := by
  refine ⟨rfl, rfl, rfl, ?_, fun request h => List.mem_append_left _ h⟩
  intro request hrequest
  exact (List.mem_append.mp hrequest).imp id fun h => ⟨job, rfl, h⟩

theorem acts_nextChunk (id : UInt8) (s : Session δ) : Acts program s (nextChunk program id s) := by
  unfold nextChunk
  split <;> exact acts_begin _ s

theorem acts_exit (err : SendError) (s : Session δ) : Acts program s (exit err s) :=
  ⟨rfl, rfl, rfl, fun _ h => .inl h, fun _ h => h⟩

theorem acts_returned (job : Job) (s : Session δ) : Acts program s (returned program job s) := by
  unfold returned
  simp only
  split
  · exact acts_exit _ s
  · cases job with
    | stop => exact acts_nextChunk _ s
    | chunk id =>
      have h := @acts_nextChunk _ program (id + 1)
        { s with uploader := { s.uploader with confirmed := s.uploader.confirmed + 1 } }
      exact ⟨h.device, h.replies, h.rebooted, h.requests, h.kept⟩
    | start => exact acts_exit _ s

theorem job_nextChunk (id : UInt8) (s : Session δ) : (nextChunk program id s).uploader.job =
    some (if id.toNat < program.image.length then .chunk id else .start) := by
  unfold nextChunk
  split <;> rfl

theorem confirmed_nextChunk (id : UInt8) (s : Session δ) :
    (nextChunk program id s).uploader.confirmed = s.uploader.confirmed := by
  unfold nextChunk
  split <;> rfl

theorem continues_returned (hheard : job = .stop → s.uploader.result .sm = .none → heard)
    (hends : ∀ id, job = .chunk id → s.uploader.result .chunks = .none → ends) :
    Continues program heard ends s.uploader.confirmed job (returned program job s).uploader := by
  unfold returned
  simp only
  split
  · exact .exits rfl rfl
  · rename_i hresult
    cases job with
    | stop =>
      exact .stopped rfl (hheard rfl (not_not.mp hresult)) (job_nextChunk 0 s)
        (confirmed_nextChunk 0 s)
    | chunk id =>
      exact .sent id rfl (hends id rfl (not_not.mp hresult)) (job_nextChunk (id + 1) _)
        (confirmed_nextChunk (id + 1) _)
    | start => exact .exits rfl rfl

/-- A sender is told to finish. -/
theorem acts_finish (sender : Sender) (err : SendError) (job : Job) (s : Session δ) :
    Acts program s (finish program sender err job s) := by
  have h := @acts_returned _ program job (setResult sender err s)
  exact ⟨h.device, h.replies, h.rebooted, h.requests, h.kept⟩

theorem result_setResult (sender : Sender) (err : SendError) (s : Session δ) :
    (setResult sender err s).uploader.result sender = err := by
  simp [setResult]

theorem continues_finish {sender : Sender} {err : SendError}
    (hheard : job = .stop → (sender = .sm → err = .none) → heard)
    (hends : ∀ id, job = .chunk id → (sender = .chunks → err = .none) → ends) :
    Continues program heard ends s.uploader.confirmed job
      (finish program sender err job s).uploader := by
  refine continues_returned (s := setResult sender err s) (fun hstop hresult => hheard hstop ?_)
    fun id hid hresult => hends id hid ?_
  · rintro rfl
    exact (result_setResult .sm err s).symm.trans hresult
  · rintro rfl
    exact (result_setResult .chunks err s).symm.trans hresult

theorem acts_failOne (sender : Sender) (hjob : s.uploader.job = some job) :
    Acts program s (failOne program sender job s) := by
  unfold failOne
  simp only
  split
  · have h := @acts_finish _ program sender .maxretryExceeded job
      (countFailure sender s)
    exact ⟨h.device, h.replies, h.rebooted, h.requests, h.kept⟩
  · split
    · refine ⟨rfl, rfl, rfl, ?_, fun request h => List.mem_append_left _ h⟩
      intro request hrequest
      exact (List.mem_append.mp hrequest).imp id fun h => ⟨job, hjob, h⟩
    · exact ⟨rfl, rfl, rfl, fun _ h => .inl h, fun _ h => h⟩

theorem continues_failOne (sender : Sender) (hjob : s.uploader.job = some job)
    (hheard : job = .stop → sender = .sm ∨ heard)
    (hsender : ∀ id, job = .chunk id → sender = .chunks) :
    Continues program heard ends s.uploader.confirmed job
      (failOne program sender job s).uploader := by
  unfold failOne
  simp only
  split
  · refine continues_finish (s := countFailure sender s) ?_ ?_
    · intro hstop hnone
      rcases hheard hstop with hsm | h
      · cases hnone hsm
      · exact h
    · intro id hid hnone
      cases hnone (hsender id hid)
  · split <;> exact .waits hjob rfl

/-- **A reply**. -/
theorem acts_onReply (reply : Reply) (hjob : s.uploader.job = some job) :
    Acts program s (onReply program reply job s) := by
  unfold onReply
  split
  · split
    · exact acts_finish _ _ _ s
    · exact ⟨rfl, rfl, rfl, fun _ h => .inl h, fun _ h => h⟩
  · exact acts_finish _ _ _ s
  · exact acts_failOne _ hjob

theorem continues_onReply (reply : Reply) (hjob : s.uploader.job = some job) :
    Continues program (Heard reply job) (Ends reply job) s.uploader.confirmed job
      (onReply program reply job s).uploader := by
  unfold onReply
  split
  · split
    · rename_i heq
      have hstate := congrArg Reply.state heq
      exact continues_finish (fun _ _ => .inr hstate) fun _ _ _ => .inr hstate
    · exact .waits hjob rfl
  · exact continues_finish (fun _ _ => .inl ⟨true, rfl⟩) fun _ _ _ => .inl rfl
  · exact continues_failOne _ hjob (fun _ => .inr (.inl ⟨false, rfl⟩)) fun _ _ => rfl

/-- A step of the uploader, while its main function waits in `job`. -/
theorem onError_spec (job : Job) (s : Session δ) :
    Acts program s (onError program job s) ∧
      Continues program False False s.uploader.confirmed job (onError program job s).uploader := by
  have h := @acts_returned _ program job
    (setResult .chunks .network (setResult .sm .network s))
  refine ⟨⟨h.device, h.replies, h.rebooted, h.requests, h.kept⟩, ?_⟩
  refine continues_returned (s := setResult .chunks .network (setResult .sm .network s)) ?_ ?_
  · intro _ hresult
    simp [setResult] at hresult
  · intro _ _ hresult
    simp [setResult] at hresult

theorem continues_timeout (hjob : s.uploader.job = some job) :
    Continues program False False s.uploader.confirmed job
      (failOne program job.sender job s).uploader := by
  refine continues_failOne _ hjob ?_ ?_
  · rintro rfl
    exact .inl rfl
  · rintro id rfl
    rfl

/-! ## The invariant -/

variable (program)

/-- What the device has acknowledged it has stored, and the uploader counts what has been
acknowledged. -/
structure Agreed (s : Session δ) : Prop where
  image : ∀ id data, Request.chunk id data ∈ s.requests → program.image[id.toNat]? = some data
  answered : ∀ request reply, (request, reply) ∈ s.replies → request ∈ s.requests
  stored : ∀ id data reply, (Request.chunk id data, reply) ∈ s.replies →
    reply = .acknak false ∨ reply = .acknak true ∧ Stored s.device.eeprom id data
  confirmed : ∀ k, k < s.uploader.confirmed → ∃ id data, id.toNat = k ∧
    program.image[k]? = some data ∧ Stored s.device.eeprom id data
  chunk : ∀ id, s.uploader.job = some (.chunk id) → id.toNat = s.uploader.confirmed
  stop : s.uploader.job = some .stop → s.uploader.confirmed = 0

variable {program}

theorem mem_packets {id : UInt8} {data : Block 64}
    (h : Request.chunk id data ∈ packets program job) : program.image[id.toNat]? = some data := by
  cases job with
  | stop => simp [packets] at h
  | start => simp [packets] at h
  | chunk id' =>
    obtain ⟨data', hdata', heq⟩ := List.mem_map.mp h
    cases heq
    exact Option.mem_toList.mp hdata'

/-- The uploader acts on a reply or without one. -/
theorem Agreed.acts {s' : Session δ} (h : Agreed program s) (hacts : Acts program s s')
    (hjob : s.uploader.job = some job)
    (hcontinues : Continues program heard ends s.uploader.confirmed job s'.uploader)
    (hends : ends → ∀ id, job = .chunk id → ∃ data, Request.chunk id data ∈ s.requests ∧
      Stored s.device.eeprom id data) : Agreed program s' := by
  have hold : ∀ k, k < s.uploader.confirmed → ∃ id data, id.toNat = k ∧
      program.image[k]? = some data ∧ Stored s'.device.eeprom id data := by
    rw [hacts.device]
    exact h.confirmed
  refine ⟨?_, ?_, ?_, ?_, ?_, ?_⟩
  · intro id data hmem
    rcases hacts.requests _ hmem with hmem | ⟨job', -, hmem⟩
    · exact h.image id data hmem
    · exact mem_packets hmem
  · intro request reply hmem
    rw [hacts.replies] at hmem
    exact hacts.kept _ (h.answered request reply hmem)
  · rw [hacts.replies, hacts.device]
    exact h.stored
  · cases hcontinues with
    | waits _ same => rwa [same]
    | exits _ same => rwa [same]
    | stopped _ _ _ same => rwa [same]
    | sent id was hend _ more =>
      obtain ⟨data, hmem, hstored⟩ := hends hend id was
      have hid : id.toNat = s.uploader.confirmed := h.chunk id (was ▸ hjob)
      intro k hk
      rw [more] at hk
      rcases Nat.lt_succ_iff_lt_or_eq.mp hk with hk | rfl
      · exact hold k hk
      · refine ⟨id, data, hid, hid ▸ h.image id data hmem, ?_⟩
        rw [hacts.device]
        exact hstored
  · intro id hid
    cases hcontinues with
    | waits job_eq same =>
      have heq : job = .chunk id := Option.some.inj (job_eq.symm.trans hid)
      rw [same]
      exact h.chunk id (heq ▸ hjob)
    | exits job_eq _ =>
      rw [job_eq] at hid
      cases hid
    | stopped was _ next same =>
      rw [next] at hid
      rw [same, h.stop (was ▸ hjob)]
      split at hid <;> cases hid
      rfl
    | sent id' was hend next more =>
      obtain ⟨data, hmem, hstored⟩ := hends hend id' was
      have hid' : id'.toNat = s.uploader.confirmed := h.chunk id' (was ▸ hjob)
      have hroom := hstored.room
      rw [next] at hid
      rw [more, ← hid']
      split at hid <;> cases hid
      rw [UInt8.toNat_add]
      show (id'.toNat + 1) % 256 = id'.toNat + 1
      omega
  · intro hstop
    cases hcontinues with
    | waits job_eq same =>
      have heq : job = .stop := Option.some.inj (job_eq.symm.trans hstop)
      rw [same]
      exact h.stop (heq ▸ hjob)
    | exits job_eq _ =>
      rw [job_eq] at hstop
      cases hstop
    | stopped _ _ next _ =>
      rw [next] at hstop
      split at hstop <;> cases hstop
    | sent _ _ _ next _ =>
      rw [next] at hstop
      split at hstop <;> cases hstop

/-- The device does something that leaves the EEPROM alone. -/
theorem Agreed.device (h : Agreed program s) {device : Fw δ}
    (heeprom : device.eeprom = s.device.eeprom) : Agreed program { s with device := device } := by
  refine ⟨h.image, h.answered, ?_, ?_, h.chunk, h.stop⟩
  · show ∀ id data reply, _ → _ ∨ _ ∧ Stored device.eeprom id data
    rw [heeprom]
    exact h.stored
  · show ∀ k, _ → ∃ id data, _ ∧ _ ∧ Stored device.eeprom id data
    rw [heeprom]
    exact h.confirmed

/-- The device receives a chunk of the image. -/
theorem Agreed.write (h : Agreed program s) {id : UInt8} {data : Block 64}
    (hmem : Request.chunk id data ∈ s.requests) : Agreed program { s with
      device := (writeReceiver id data s.device).2
      replies := s.replies ++ [(.chunk id data, .acknak (writeReceiver id data s.device).1)] } := by
  have hkeep : ∀ {id' data'}, program.image[id'.toNat]? = some data' →
      Stored s.device.eeprom id' data' →
      Stored (smWriteChunk s.device.eeprom id data).2 id' data' := by
    intro id' data' himage hstored
    refine hstored.write fun heq => ?_
    rw [← heq, h.image id data hmem] at himage
    exact Option.some.inj himage
  refine ⟨h.image, ?_, ?_, ?_, h.chunk, h.stop⟩
  · intro request reply hreply
    rcases List.mem_append.mp hreply with hreply | hreply
    · exact h.answered request reply hreply
    · cases List.mem_singleton.mp hreply
      exact hmem
  · intro id' data' reply hreply
    rcases List.mem_append.mp hreply with hreply | hreply
    · refine (h.stored id' data' reply hreply).imp_right (And.imp_right ?_)
      exact hkeep (h.image _ _ (h.answered _ _ hreply))
    · cases List.mem_singleton.mp hreply
      cases hresult : (smWriteChunk s.device.eeprom id data).1 with
      | false => exact .inl (congrArg Reply.acknak hresult)
      | true => exact .inr ⟨congrArg Reply.acknak hresult, stored_of_written hresult⟩
  · intro k hk
    obtain ⟨id', data', rfl, himage, hstored⟩ := h.confirmed k hk
    exact ⟨id', data', rfl, himage, hkeep himage hstored⟩

/-- The device receives a packet. -/
theorem Agreed.request (h : Agreed program s) {request : Request} (hmem : request ∈ s.requests) :
    Agreed program { s with
      device := (serve request s.device).1
      replies := s.replies ++
        (serve request s.device).2.toList.map fun reply => (request, reply) } := by
  cases request with
  | chunk id data => exact h.write hmem
  | control state =>
    have hreplies : s.replies ++ ((serve (.control state) s.device).2.toList.map
        fun reply => (Request.control state, reply)) = s.replies := List.append_nil _
    rw [hreplies]
    exact h.device (eeprom_writeControl state s.device)
  | query =>
    refine ⟨h.image, ?_, ?_, h.confirmed, h.chunk, h.stop⟩
    · intro request reply hreply
      rcases List.mem_append.mp hreply with hreply | hreply
      · exact h.answered request reply hreply
      · cases List.mem_singleton.mp hreply
        exact hmem
    · intro id data reply hreply
      rcases List.mem_append.mp hreply with hreply | hreply
      · exact h.stored id data reply hreply
      · cases List.mem_singleton.mp hreply

theorem step_request (zeroed : Fw δ) {i : Nat} {request : Request}
    (hget : s.requests[i]? = some request) : Session.step program zeroed (.request i) s = { s with
      device := (serve request s.device).1
      replies := s.replies ++
        (serve request s.device).2.toList.map fun reply => (request, reply) } := by
  simp only [Session.step, hget]

theorem step_request_none (zeroed : Fw δ) {i : Nat} (hget : s.requests[i]? = none) :
    Session.step program zeroed (.request i) s = s := by
  simp only [Session.step, hget]

theorem step_reply (zeroed : Fw δ) {i : Nat} {answer : Request × Reply}
    (hget : s.replies[i]? = some answer) :
    Session.step program zeroed (.reply i) s = whileWaiting (onReply program answer.2) s := by
  simp only [Session.step, hget]

theorem step_reply_none (zeroed : Fw δ) {i : Nat} (hget : s.replies[i]? = none) :
    Session.step program zeroed (.reply i) s = s := by
  simp only [Session.step, hget]

theorem whileWaiting_none {f : Job → Session δ → Session δ} (hjob : s.uploader.job = none) :
    whileWaiting f s = s := by
  simp only [whileWaiting, hjob]

theorem whileWaiting_some {f : Job → Session δ → Session δ} (hjob : s.uploader.job = some job) :
    whileWaiting f s = f job s := by
  simp only [whileWaiting, hjob]

/-- **One step** keeps the invariant. -/
theorem Agreed.step (zeroed : Fw δ) (h : Agreed program s) {a : Step} (ha : Attributed s a) :
    Agreed program (step program zeroed a s) := by
  cases a with
  | request i =>
    cases hget : s.requests[i]? with
    | none => rwa [step_request_none zeroed hget]
    | some request =>
      rw [step_request zeroed hget]
      exact h.request (List.mem_of_getElem? hget)
  | reply i =>
    cases hget : s.replies[i]? with
    | none => rwa [step_reply_none zeroed hget]
    | some answer =>
      obtain ⟨request, reply⟩ := answer
      have hmem := List.mem_of_getElem? hget
      rw [step_reply zeroed hget]
      cases hjob : s.uploader.job with
      | none => rwa [whileWaiting_none hjob]
      | some job =>
        rw [whileWaiting_some hjob]
        refine h.acts (acts_onReply reply hjob) hjob (continues_onReply reply hjob) ?_
        -- the reply that ends the wait acknowledges this chunk
        rintro hends id rfl
        obtain ⟨data, rfl⟩ := ha request reply id hget hjob hends
        have hstored := h.stored id data reply hmem
        rcases hstored with rfl | ⟨-, hstored⟩
        · rcases hends with hends | hends <;> cases hends
        · exact ⟨data, h.answered _ _ hmem, hstored⟩
  | timeout =>
    show Agreed program (whileWaiting (fun job => failOne program job.sender job) s)
    cases hjob : s.uploader.job with
    | none => rwa [whileWaiting_none hjob]
    | some job =>
      rw [whileWaiting_some hjob]
      refine h.acts (acts_failOne _ hjob) hjob (continues_timeout hjob) False.elim
  | error =>
    show Agreed program (whileWaiting (onError program) s)
    cases hjob : s.uploader.job with
    | none => rwa [whileWaiting_none hjob]
    | some job =>
      rw [whileWaiting_some hjob]
      obtain ⟨hacts, hcontinues⟩ := @onError_spec _ program job s
      exact h.acts hacts hjob hcontinues False.elim
  | reboot =>
    have hboot := h.device (eeprom_reboot zeroed s.device)
    exact ⟨hboot.image, hboot.answered, hboot.stored, hboot.confirmed, hboot.chunk, hboot.stop⟩
  | reset =>
    refine h.device ?_
    split <;> simp

theorem agreed_init (device : Fw δ) (result : Sender → SendError) (failCount : Sender → Nat) :
    Agreed program (init program device result failCount) := by
  refine ⟨?_, nofun, nofun, nofun, nofun, fun _ => rfl⟩
  intro id data hmem
  simp [init, begin, packets] at hmem

end Session

/-! ## Agreement -/

/-- What the device holds of an image: of every chunk what is stored of it, and it has room
for all of them. -/
def HoldsImage (eeprom : Mem) (image : List (Block 64)) : Prop :=
  ∀ k data, image[k]? = some data → ∃ id : UInt8, id.toNat = k ∧ Stored eeprom id data

open Session in
/-- **Upload agreement**. In every run in which a reply that ends the wait for a chunk answers
a transmission of this chunk, the device holds the program file once the chunk sender has
reported success for all chunks. -/
theorem upload_agrees (file : List UInt8) (retryLimit : Int) (zeroed device : Fw δ)
    (result : Sender → SendError) (failCount : Sender → Nat) (steps : List Step)
    (hsteps : Meets (step ⟨chunks file, retryLimit⟩ zeroed) Attributed
      (init ⟨chunks file, retryLimit⟩ device result failCount) steps)
    (hconfirmed : ChunksConfirmed ⟨chunks file, retryLimit⟩
      (run (step ⟨chunks file, retryLimit⟩ zeroed)
        (init ⟨chunks file, retryLimit⟩ device result failCount) steps)) :
    HoldsImage (run (step ⟨chunks file, retryLimit⟩ zeroed)
      (init ⟨chunks file, retryLimit⟩ device result failCount) steps).device.eeprom
      (chunks file) := by
  have hagreed := run_invariant (fun _ _ h ha => h.step zeroed ha)
    (@agreed_init _ ⟨chunks file, retryLimit⟩ device result failCount) hsteps
  intro k data hdata
  have hk : k < (chunks file).length := (List.getElem?_eq_some_iff.mp hdata).1
  obtain ⟨id, data', hid, hdata', hstored⟩ := hagreed.confirmed k (Nat.lt_of_lt_of_le hk hconfirmed)
  rw [hdata] at hdata'
  cases hdata'
  exact ⟨id, hid, hstored⟩

/-- A device that has been switched on, with an erased EEPROM. -/
def freshDevice : Fw Unit where
  eeprom := fun _ => 0xff
  transLength := 0xff
  dtTransLength := 0xff
  curState := 0
  inStateSince := 0
  dtValid := false
  smHandleInputEvent := 0x8d
  udpHandlerEvent := 0x8c
  lastevent := 0x8e
  pstate := .running
  timestamp := 0
  currentDt := HxbDatetime.ofBytes (Block.zero 8)
  timeValid := false
  dev := ()
  stackOverflow := false
  log := []

/-- The file with an address and as many chunks, all ones. -/
def onesFile (count : Nat) : List UInt8 := List.replicate (16 + 64 * count) 1

def onesProgram (count : Nat) : Program := ⟨chunks (onesFile count), 3⟩

/-- A session that uploads two chunks. -/
def onesSteps : List Session.Step :=
  [.request 0, .request 1, .reply 0, .request 2, .reply 1, .request 3, .reply 2]

open Session in
/-- The beginning of a session with `count` chunks. -/
def onesSession (count : Nat) (steps : List Session.Step) : Session Unit :=
  run (step (onesProgram count) freshDevice)
    (init (onesProgram count) freshDevice (fun _ => .other) fun _ => 0) steps

set_option maxRecDepth 4000 in
/-- Two chunks, each acknowledged, are stored. -/
theorem ones_agrees : HoldsImage (onesSession 2 onesSteps).device.eeprom (chunks (onesFile 2)) := by
  refine upload_agrees (onesFile 2) 3 freshDevice freshDevice (fun _ => .other) (fun _ => 0)
    onesSteps ?_ ?_
  · refine ⟨trivial, trivial, ?_, trivial, ?_, trivial, ?_, trivial⟩
    · intro request reply id _ hjob
      cases hjob
    · intro request reply id hget hjob _
      cases hjob
      cases hget
      exact ⟨_, rfl⟩
    · intro request reply id hget hjob _
      cases hjob
      cases hget
      exact ⟨_, rfl⟩
  · show (chunks (onesFile 2)).length ≤ (onesSession 2 onesSteps).uploader.confirmed
    decide +kernel

/-- The acknowledgement of chunk 0 arrives twice, and chunk 1 is never delivered. -/
def lostSteps : List Session.Step :=
  [.request 0, .request 1, .reply 0, .request 2, .reply 1, .reply 1]

/-- Every chunk is reported as sent, and chunk 1 is not stored. -/
theorem lost_disagrees :
    Session.ChunksConfirmed (onesProgram 2) (onesSession 2 lostSteps) ∧
      ¬ HoldsImage (onesSession 2 lostSteps).device.eeprom (chunks (onesFile 2)) := by
  constructor
  · unfold Session.ChunksConfirmed
    decide +kernel
  · intro h
    have hchunk : (chunks (onesFile 2))[1]?.map Subtype.val = some (List.replicate 64 1) := by
      decide +kernel
    obtain ⟨data, hdata, hones⟩ := Option.map_eq_some_iff.mp hchunk
    obtain ⟨id, hid, hstored⟩ := h 1 data hdata
    have hone : id = 1 := UInt8.toNat_inj.mp hid
    subst hone
    have hcell : (onesSession 2 lostSteps).device.eeprom EE.statemachineId = 0xff := by
      decide +kernel
    have hholds : Holds (onesSession 2 lostSteps).device.eeprom EE.statemachineId data.val :=
      hstored.holds
    rw [hones, List.replicate_succ, holds_cons, hcell] at hholds
    exact absurd hholds.1 (by decide)

end Hexabus.Upload
