import Hexabus.Upload.Agreement

/-!
# Sessions that stop early

The chunks are stored in place, one after the other, so between the first and the last the
area holds a mixture. The uploader stops the machine first and starts it last; nothing else
keeps a device from running the mixture, and a device that boots does run it.
-/

namespace Hexabus.Upload

open Lib.Bytes Lib.Store Lib.Runs Firmware

/-! ## The area -/

/-- The cell belongs to the state machine area. -/
def InArea (i : Nat) : Prop := EE.statemachineId ≤ i ∧ i < EE.statemachineId + EE.statemachineSize

/-- The number of the chunk that a cell of the area belongs to. -/
def chunkOf (i : Nat) : Nat := (i - EE.statemachineId) / chunkSize + 1

/-- The area of two EEPROMs is the same. -/
def SameArea (m m' : Mem) : Prop := ∀ i, InArea i → m i = m' i

/-- The EEPROM `old` with the chunks of an image in the area. -/
def updated (image : List (Block 64)) (old : Mem) : Mem := fun i =>
  match image[chunkOf i]? with
  | some data => data.val.getD ((i - EE.statemachineId) % chunkSize) 0
  | none => old i

variable {image : List (Block 64)} {old m : Mem}

theorem SameArea.symm {m' : Mem} (h : SameArea m m') : SameArea m' m := fun i hi => (h i hi).symm

theorem SameArea.trans {m' m'' : Mem} (h : SameArea m m') (h' : SameArea m' m'') :
    SameArea m m'' := fun i hi => (h i hi).trans (h' i hi)

/-- A chunk of the image changes a cell to what the image has there, or not at all. -/
theorem smWriteChunk_cell {id : UInt8} {data : Block 64} (himage : image[id.toNat]? = some data)
    {i : Nat} (hi : InArea i) (m old : Mem) :
    (smWriteChunk m id data).2 i = m i ∨
      chunkOf i = id.toNat ∧ (smWriteChunk m id data).2 i = updated image old i := by
  obtain ⟨hlow, hhigh⟩ := hi
  rw [smWriteChunk_eq]
  split
  · by_cases hzero : id = 0
    · -- the name lies in front of the area
      have hname : EE.domainName + EE.domainNameSize ≤ EE.statemachineId := by decide
      have hlen := length_chunkContent_le id data
      rw [if_pos hzero] at hlen
      refine .inl (writeBlock_apply_out _ _ _ _ (.inr ?_))
      unfold chunkPlace
      rw [if_pos hzero]
      omega
    · have hpos : id.toNat ≠ 0 := fun h => hzero (UInt8.toNat_inj.mp h)
      have hcontent : chunkContent id data = data.val := if_neg hzero
      have hplace : chunkPlace id = EE.statemachineId + (id.toNat - 1) * chunkSize := if_neg hzero
      rw [hcontent, hplace]
      have hdata := data.property
      by_cases hchunk : chunkOf i = id.toNat
      · refine .inr ⟨hchunk, ?_⟩
        have hmod := Nat.div_add_mod (i - EE.statemachineId) chunkSize
        have hlt : (i - EE.statemachineId) % chunkSize < chunkSize := Nat.mod_lt _ (by decide)
        have hi : i = EE.statemachineId + (id.toNat - 1) * chunkSize
            + (i - EE.statemachineId) % chunkSize := by
          rw [← hchunk]
          unfold chunkOf
          rw [Nat.add_sub_cancel, Nat.mul_comm]
          omega
        have hin : (i - EE.statemachineId) % chunkSize < data.val.length := by
          rw [hdata]
          exact hlt
        unfold updated
        rw [hchunk, himage]
        simp only
        rw [List.getD_eq_getElem?_getD, List.getElem?_eq_getElem hin, Option.getD_some]
        conv_lhs => rw [hi]
        exact writeBlock_apply_in m _ _ _ hin
      · refine .inl (writeBlock_apply_out _ _ _ _ ?_)
        rw [hdata]
        unfold chunkOf chunkSize at hchunk
        unfold chunkSize
        omega
  · exact .inl rfl

/-- Where the image has no chunk, a chunk of the image changes nothing. -/
theorem smWriteChunk_uncovered {id : UInt8} {data : Block 64}
    (himage : image[id.toNat]? = some data) {i : Nat} (hi : InArea i)
    (hnone : image[chunkOf i]? = none) (m : Mem) : (smWriteChunk m id data).2 i = m i := by
  rcases smWriteChunk_cell himage hi m m with h | ⟨hchunk, -⟩
  · exact h
  · rw [hchunk, himage] at hnone
    cases hnone

/-- A chunk of the image changes nothing where the area holds the image. -/
theorem smWriteChunk_updated {id : UInt8} {data : Block 64}
    (himage : image[id.toNat]? = some data) (h : SameArea m (updated image old)) :
    SameArea (smWriteChunk m id data).2 (updated image old) := by
  intro i hi
  rcases smWriteChunk_cell himage hi m old with hcell | ⟨-, hcell⟩
  · rw [hcell]
    exact h i hi
  · exact hcell

/-- When every chunk is stored, the area holds the image. -/
theorem HoldsImage.sameArea (h : HoldsImage m image)
    (hold : ∀ i, InArea i → image[chunkOf i]? = none → m i = old i) :
    SameArea m (updated image old) := by
  intro i hi
  unfold updated
  cases hget : image[chunkOf i]? with
  | none => exact hold i hi hget
  | some data =>
    obtain ⟨id, hid, hstored⟩ := h _ data hget
    have hne : id ≠ 0 := by
      rintro rfl
      cases hid
    have hholds : Holds m (EE.statemachineId + (id.toNat - 1) * chunkSize) data.val := by
      have hcontent : chunkContent id data = data.val := if_neg hne
      have hplace : chunkPlace id = EE.statemachineId + (id.toNat - 1) * chunkSize := if_neg hne
      rw [← hcontent, ← hplace]
      exact hstored.holds
    have hmod := Nat.div_add_mod (i - EE.statemachineId) chunkSize
    have hlt : (i - EE.statemachineId) % chunkSize < data.val.length := by
      rw [data.property]
      exact Nat.mod_lt _ (by decide)
    have hplace : i = EE.statemachineId + (id.toNat - 1) * chunkSize
        + (i - EE.statemachineId) % chunkSize := by
      rw [hid]
      unfold chunkOf
      rw [Nat.add_sub_cancel, Nat.mul_comm]
      have hlow := hi.1
      omega
    have hread := congrArg (fun l => l[(i - EE.statemachineId) % chunkSize]?) hholds
    simp only [List.getElem?_eq_getElem hlt] at hread
    rw [List.getElem?_eq_getElem (by simpa using hlt), getElem_readBlock, ← hplace] at hread
    simp only [List.getD_eq_getElem?_getD, List.getElem?_eq_getElem hlt, Option.getD_some]
    exact Option.some.inj hread

/-! ## What the device runs -/

variable {δ : Type}

/-- The machine works on the tables of an EEPROM: those in the area, and the lengths that it
has read when it started. -/
structure Interprets (s : Fw δ) (m : Mem) : Prop where
  area : SameArea s.eeprom m
  transLength : s.transLength = smGetNumberOfTransitions m false
  dtTransLength : s.dtTransLength = smGetNumberOfTransitions m true

theorem Interprets.congr {s : Fw δ} {m m' : Mem} (h : Interprets s m) (harea : SameArea m m') :
    Interprets s m' := by
  have hn : InArea EE.statemachineNTransitions := ⟨by decide, by decide⟩
  have hdt : InArea EE.statemachineNDtTransitions := ⟨by decide, by decide⟩
  exact ⟨h.area.trans harea, h.transLength.trans (harea _ hn), h.dtTransLength.trans (harea _ hdt)⟩

/-- A machine that is started works on what the EEPROM holds. -/
theorem smStart_interprets {s : Fw δ} (h : smIsRunning s = false) :
    smIsRunning (smStart s) = true ∧ Interprets (smStart s) s.eeprom := by
  have hstart : ¬ smIsRunning s = true := by rw [h]; exact Bool.false_ne_true
  unfold smStart
  rw [if_neg hstart]
  exact ⟨rfl, fun _ _ => rfl, rfl, rfl⟩

theorem smRestart_interprets (s : Fw δ) :
    smIsRunning (smRestart s) = true ∧ Interprets (smRestart s) s.eeprom :=
  smStart_interprets (s := smStop s) rfl

theorem reboot_interprets (zeroed s : Fw δ) :
    smIsRunning (reboot zeroed s) = true ∧ Interprets (reboot zeroed s) s.eeprom :=
  smStart_interprets (s := { zeroed with eeprom := s.eeprom, pstate := .none }) rfl

namespace Session

variable (program : Program) (old : Mem)

/-- The area is entirely the old one, or entirely the new one. -/
def Uniform (m : Mem) : Prop := SameArea m old ∨ SameArea m (updated program.image old)

/-- If the machine runs, it works on the old tables or on the new ones. -/
def RunsWhole (s : Session δ) : Prop := smIsRunning s.device = true →
  Interprets s.device old ∨ Interprets s.device (updated program.image old)

/-- The condition on a step. The device boots only while its area is uniform; behind a boot
that has undone a confirmed stop, a chunk comes only to a stopped machine, or when it changes
nothing any more; and a reply that ends the wait for a chunk answers this chunk. -/
def Undisturbed (s : Session δ) : Step → Prop
  | .request i => s.rebooted = true → ∀ id data, s.requests[i]? = some (.chunk id data) →
      smIsRunning s.device = true → SameArea s.device.eeprom (updated program.image old)
  | .reboot => Uniform program old s.device.eeprom
  | a => Attributed s a

/-- The device has told that its machine is stopped. -/
def Told (s : Session δ) : Prop := ∃ answer ∈ s.replies, answer.2.isStopped = true

/-- What holds in a session. -/
structure Whole (s : Session δ) : Prop where
  agreed : Agreed program s
  acknak : ∀ request value, (request, Reply.acknak value) ∈ s.replies →
    ∃ id data, request = .chunk id data
  outside : ∀ i, InArea i → program.image[chunkOf i]? = none → s.device.eeprom i = old i
  chunkTold : ∀ id data, Request.chunk id data ∈ s.requests → Told s
  jobTold : ∀ id, s.uploader.job = some (.chunk id) → Told s
  untold : ¬ Told s → SameArea s.device.eeprom old ∧ s.rebooted = false
  startJob : s.uploader.job = some .start → ChunksConfirmed program s
  started : Request.control stmStateRunning ∈ s.requests →
    SameArea s.device.eeprom (updated program.image old)
  quiet : Told s → s.rebooted = false → Request.control stmStateRunning ∉ s.requests →
    smIsRunning s.device = false
  running : smIsRunning s.device = true →
    Interprets s.device s.device.eeprom ∧ Uniform program old s.device.eeprom

variable {program} {old} {s : Session δ} {job : Job} {heard ends : Prop}

theorem Whole.runsWhole (h : Whole program old s) : RunsWhole program old s := by
  intro hrunning
  obtain ⟨hinterprets, harea⟩ := h.running hrunning
  exact harea.imp hinterprets.congr hinterprets.congr

/-- Every chunk confirmed, the area is the new one. -/
theorem sameArea_of_confirmed (hagreed : Agreed program s)
    (houtside : ∀ i, InArea i → program.image[chunkOf i]? = none → s.device.eeprom i = old i)
    (hconfirmed : ChunksConfirmed program s) :
    SameArea s.device.eeprom (updated program.image old) := by
  refine HoldsImage.sameArea ?_ houtside
  intro k data hdata
  have hk : k < program.image.length := (List.getElem?_eq_some_iff.mp hdata).1
  obtain ⟨id, data', hid, hdata', hstored⟩ :=
    hagreed.confirmed k (Nat.lt_of_lt_of_le hk hconfirmed)
  rw [hdata] at hdata'
  cases hdata'
  exact ⟨id, hid, hstored⟩

/-! ## The uploader -/

/-- The uploader acts, on a reply or without one. -/
theorem Whole.acts {s' : Session δ} (h : Whole program old s) (hagreed : Agreed program s')
    (hacts : Acts program s s') (hjob : s.uploader.job = some job)
    (hcontinues : Continues program heard ends s.uploader.confirmed job s'.uploader)
    (hheard : heard → job = .stop → Told s) : Whole program old s' := by
  have htold : Told s' ↔ Told s := by
    unfold Told
    rw [hacts.replies]
  have hjobTold : ∀ id, s'.uploader.job = some (.chunk id) → Told s := by
    intro id hid
    cases hcontinues with
    | waits job_eq _ => exact h.jobTold id (hjob.trans (job_eq.symm.trans hid))
    | exits job_eq _ => cases job_eq.symm.trans hid
    | stopped was hheard' _ _ => exact hheard hheard' was
    | sent id' was _ _ _ => exact h.jobTold id' (was ▸ hjob)
  have hstartJob : s'.uploader.job = some .start → ChunksConfirmed program s' := by
    intro hstart
    cases hcontinues with
    | waits job_eq same =>
      have hconfirmed := h.startJob (hjob.trans (job_eq.symm.trans hstart))
      unfold ChunksConfirmed at hconfirmed ⊢
      rwa [same]
    | exits job_eq _ => cases job_eq.symm.trans hstart
    | stopped _ _ next same =>
      rw [next] at hstart
      split at hstart <;> cases hstart
      unfold ChunksConfirmed
      omega
    | sent id was _ next more =>
      rw [next] at hstart
      split at hstart <;> cases hstart
      have hid := h.agreed.chunk id (was ▸ hjob)
      unfold ChunksConfirmed
      rw [more, ← hid]
      have hle : (id + 1).toNat ≤ id.toNat + 1 := by
        rw [UInt8.toNat_add]
        exact Nat.mod_le _ _
      omega
  have hmember : ∀ request, request ∈ s'.requests → request ∈ s.requests ∨
      (∃ id data, request = .chunk id data ∧ s'.uploader.job = some (.chunk id)) ∨
      (∃ state, request = .control state ∧
        (state = stmStateRunning → s'.uploader.job = some .start)) ∨ request = .query := by
    intro request hmem
    refine (hacts.requests request hmem).imp_right ?_
    rintro ⟨job', hjob', hpacket⟩
    cases job' with
    | stop =>
      rcases List.mem_pair.mp hpacket with rfl | rfl
      · exact .inr (.inl ⟨_, rfl, fun h => absurd h (by decide)⟩)
      · exact .inr (.inr rfl)
    | start =>
      rcases List.mem_pair.mp hpacket with rfl | rfl
      · exact .inr (.inl ⟨_, rfl, fun _ => hjob'⟩)
      · exact .inr (.inr rfl)
    | chunk id =>
      obtain ⟨data, -, rfl⟩ := List.mem_map.mp hpacket
      exact .inl ⟨id, data, rfl, hjob'⟩
  have houtside : ∀ i, InArea i → program.image[chunkOf i]? = none →
      s'.device.eeprom i = old i := by
    rw [hacts.device]
    exact h.outside
  refine ⟨hagreed, ?_, houtside, ?_, ?_, ?_, hstartJob, ?_, ?_, ?_⟩
  · rw [hacts.replies]
    exact h.acknak
  · intro id data hmem
    rw [htold]
    rcases hmember _ hmem with hmem | ⟨id', data', heq, hjob'⟩ | ⟨state, heq, -⟩ | heq
    · exact h.chunkTold id data hmem
    · exact hjobTold id' hjob'
    · cases heq
    · cases heq
  · intro id hid
    rw [htold]
    exact hjobTold id hid
  · rw [htold, hacts.device, hacts.rebooted]
    exact h.untold
  · intro hmem
    rcases hmember _ hmem with hmem | ⟨_, _, heq, _⟩ | ⟨state, heq, hstart⟩ | heq
    · rw [hacts.device]
      exact h.started hmem
    · cases heq
    · cases heq
      exact sameArea_of_confirmed hagreed houtside (hstartJob (hstart rfl))
    · cases heq
  · rw [htold, hacts.device, hacts.rebooted]
    intro hs hrebooted hmem
    exact h.quiet hs hrebooted fun hold => hmem (hacts.kept _ hold)
  · rw [hacts.device]
    exact h.running

/-! ## The device -/

/-- The device does something that leaves the area alone and that nobody hears of. -/
theorem Whole.device (h : Whole program old s) {device : Fw δ} {rebooted : Bool}
    (heeprom : device.eeprom = s.device.eeprom)
    (huntold : ¬ Told s → rebooted = false)
    (hquiet : Told s → rebooted = false → Request.control stmStateRunning ∉ s.requests →
      smIsRunning device = false)
    (hrunning : smIsRunning device = true →
      Interprets device device.eeprom ∧ Uniform program old device.eeprom) :
    Whole program old { s with device := device, rebooted := rebooted } := by
  have hagreed := h.agreed.device heeprom
  refine ⟨⟨hagreed.image, hagreed.answered, hagreed.stored, hagreed.confirmed, hagreed.chunk,
    hagreed.stop⟩, h.acknak, ?_, h.chunkTold, h.jobTold, ?_, h.startJob, ?_, hquiet, hrunning⟩
  · show ∀ i, _ → _ → device.eeprom i = _
    rw [heeprom]
    exact h.outside
  · intro htold
    refine ⟨?_, huntold htold⟩
    show SameArea device.eeprom old
    rw [heeprom]
    exact (h.untold htold).1
  · show _ → SameArea device.eeprom _
    rw [heeprom]
    exact h.started

/-- The machine is started again in a uniform area. -/
theorem Whole.restart (h : Whole program old s) {device : Fw δ}
    (heeprom : device.eeprom = s.device.eeprom)
    (hrunning : smIsRunning device = true ∧ Interprets device s.device.eeprom)
    (huniform : Uniform program old s.device.eeprom)
    (hquiet : Told s → s.rebooted = false → Request.control stmStateRunning ∈ s.requests) :
    Whole program old { s with device := device } := by
  refine h.device heeprom (fun htold => (h.untold htold).2) ?_ ?_
  · intro htold hrebooted hmem
    exact absurd (hquiet htold hrebooted) hmem
  · intro _
    rw [heeprom]
    exact ⟨hrunning.2, huniform⟩

/-- The device receives a chunk. -/
theorem Whole.write (h : Whole program old s) {id : UInt8} {data : Block 64}
    (hmem : Request.chunk id data ∈ s.requests)
    (hdisturbed : s.rebooted = true → smIsRunning s.device = true →
      SameArea s.device.eeprom (updated program.image old)) :
    Whole program old { s with
      device := (writeReceiver id data s.device).2
      replies := s.replies ++ [(.chunk id data, .acknak (writeReceiver id data s.device).1)] } := by
  have himage := h.agreed.image id data hmem
  have htold : Told s := h.chunkTold id data hmem
  -- a machine that runs now works on the new tables already
  have hrunning : smIsRunning s.device = true →
      SameArea s.device.eeprom (updated program.image old) := by
    intro hrunning
    cases hrebooted : s.rebooted with
    | true => exact hdisturbed hrebooted hrunning
    | false =>
      by_cases hstart : Request.control stmStateRunning ∈ s.requests
      · exact h.started hstart
      · rw [h.quiet htold hrebooted hstart] at hrunning
        cases hrunning
  have htold' : ∀ replies, Told { s with
      device := (writeReceiver id data s.device).2, replies := s.replies ++ replies } := by
    obtain ⟨answer, hanswer, hstopped⟩ := htold
    exact fun replies => ⟨answer, List.mem_append_left _ hanswer, hstopped⟩
  refine ⟨h.agreed.write hmem, ?_, ?_, fun _ _ _ => htold' _, fun _ _ => htold' _, ?_, h.startJob,
    ?_, ?_, ?_⟩
  · intro request value hreply
    rcases List.mem_append.mp hreply with hreply | hreply
    · exact h.acknak request value hreply
    · cases List.mem_singleton.mp hreply
      exact ⟨id, data, rfl⟩
  · intro i hi hnone
    exact (smWriteChunk_uncovered himage hi hnone _).trans (h.outside i hi hnone)
  · exact fun hnot => absurd (htold' _) hnot
  · exact fun hstart => smWriteChunk_updated himage (h.started hstart)
  · exact fun _ => h.quiet htold
  · intro hrun
    have hnew := hrunning hrun
    have hafter := smWriteChunk_updated himage hnew
    refine ⟨?_, .inr hafter⟩
    have hbefore := (h.running hrun).1.congr (hnew.trans hafter.symm)
    exact ⟨fun _ _ => rfl, hbefore.transLength, hbefore.dtTransLength⟩

/-- The device tells the state of its machine. -/
theorem Whole.query (h : Whole program old s) (hmem : Request.query ∈ s.requests) :
    Whole program old { s with
      replies := s.replies ++ [(.query, .state (readControl s.device))] } := by
  have hmono : Told s → Told { s with
      replies := s.replies ++ [(.query, .state (readControl s.device))] } := by
    rintro ⟨answer, hanswer, hstopped⟩
    exact ⟨answer, List.mem_append_left _ hanswer, hstopped⟩
  refine ⟨h.agreed.request hmem, ?_, h.outside, fun id data hm => hmono (h.chunkTold id data hm),
    fun id hid => hmono (h.jobTold id hid), fun hnot => h.untold fun ht => hnot (hmono ht),
    h.startJob, h.started, ?_, h.running⟩
  · intro request value hreply
    rcases List.mem_append.mp hreply with hreply | hreply
    · exact h.acknak request value hreply
    · cases List.mem_singleton.mp hreply
  · rintro ⟨answer, hanswer, hstopped⟩
    rcases List.mem_append.mp hanswer with hanswer | hanswer
    · exact h.quiet ⟨answer, hanswer, hstopped⟩
    · -- it tells that it is stopped because it is
      rw [List.mem_singleton.mp hanswer] at hstopped
      intro _ _
      cases hrunning : smIsRunning s.device with
      | false => rfl
      | true =>
        have hcontrol : readControl s.device = stmStateRunning := by
          unfold readControl
          rw [if_pos hrunning]
        rw [hcontrol] at hstopped
        exact absurd hstopped (by decide)

/-- The device is told to stop or to start. -/
theorem Whole.control (h : Whole program old s) {state : UInt8}
    (hmem : Request.control state ∈ s.requests) :
    Whole program old { s with device := writeControl state s.device } := by
  unfold writeControl
  by_cases hstop : state = stmStateStopped
  · rw [if_pos hstop]
    exact h.device rfl (fun htold => (h.untold htold).2) (fun _ _ _ => rfl) nofun
  rw [if_neg hstop]
  by_cases hstart : state = stmStateRunning
  · -- the start is sent when all chunks are confirmed
    subst hstart
    have hnew := h.started hmem
    rw [if_pos rfl]
    cases hrunning : smIsRunning s.device with
    | true =>
      exact h.restart (eeprom_smRestart _) (smRestart_interprets _) (.inr hnew) fun _ _ => hmem
    | false =>
      exact h.restart (eeprom_smStart _) (smStart_interprets hrunning) (.inr hnew) fun _ _ => hmem
  · rw [if_neg hstart]
    exact h

/-! ## Runs -/

/-- **One step** keeps the invariant. -/
theorem Whole.step (zeroed : Fw δ) (h : Whole program old s) {a : Step}
    (ha : Undisturbed program old s a) : Whole program old (step program zeroed a s) := by
  have hattributed : Attributed s a := by
    cases a <;> first | exact ha | trivial
  have hagreed := h.agreed.step zeroed hattributed
  cases a with
  | request i =>
    cases hget : s.requests[i]? with
    | none => rwa [step_request_none zeroed hget]
    | some request =>
      have hmem := List.mem_of_getElem? hget
      rw [step_request zeroed hget]
      cases request with
      | chunk id data =>
        exact h.write hmem fun hrebooted hrunning => ha hrebooted id data hget hrunning
      | query => exact h.query hmem
      | control state =>
        have hreplies : s.replies ++ ((serve (.control state) s.device).2.toList.map
            fun reply => (Request.control state, reply)) = s.replies := List.append_nil _
        rw [hreplies]
        exact h.control hmem
  | reply i =>
    cases hget : s.replies[i]? with
    | none => rwa [step_reply_none zeroed hget]
    | some answer =>
      have hmem := List.mem_of_getElem? hget
      rw [step_reply zeroed hget] at hagreed ⊢
      cases hjob : s.uploader.job with
      | none => rwa [whileWaiting_none hjob]
      | some job =>
        rw [whileWaiting_some hjob] at hagreed ⊢
        refine h.acts hagreed (acts_onReply _ hjob) hjob (continues_onReply _ hjob) ?_
        -- a reply that is heard as the stop tells of the stop, or answers a chunk
        rintro (⟨value, hvalue⟩ | hvalue) rfl
        · obtain ⟨id, data, hrequest⟩ := h.acknak answer.1 value (hvalue ▸ hmem)
          exact h.chunkTold id data (hrequest ▸ h.agreed.answered _ _ hmem)
        · refine ⟨answer, hmem, ?_⟩
          rw [hvalue]
          rfl
  | timeout =>
    have heq : ∀ job, s.uploader.job = some job →
        Session.step program zeroed .timeout s = failOne program job.sender job s :=
      fun job hjob => whileWaiting_some hjob
    cases hjob : s.uploader.job with
    | none =>
      have hnone : Session.step program zeroed .timeout s = s := whileWaiting_none hjob
      rwa [hnone]
    | some job =>
      rw [heq job hjob] at hagreed ⊢
      exact h.acts hagreed (acts_failOne _ hjob) hjob (continues_timeout hjob) False.elim
  | error =>
    have heq : ∀ job, s.uploader.job = some job →
        Session.step program zeroed .error s = onError program job s :=
      fun job hjob => whileWaiting_some hjob
    cases hjob : s.uploader.job with
    | none =>
      have hnone : Session.step program zeroed .error s = s := whileWaiting_none hjob
      rwa [hnone]
    | some job =>
      rw [heq job hjob] at hagreed ⊢
      obtain ⟨hacts, hcontinues⟩ := @onError_spec _ program job s
      exact h.acts hagreed hacts hjob hcontinues False.elim
  | reboot =>
    obtain ⟨hrunning, hinterprets⟩ := reboot_interprets zeroed s.device
    have hany : (s.replies.any fun answer => answer.2.isStopped) = true ↔ Told s := by
      rw [List.any_eq_true]
      rfl
    refine h.device (eeprom_reboot zeroed s.device) ?_ ?_ ?_
    · intro htold
      rw [(h.untold htold).2, Bool.false_or, Bool.eq_false_iff, Ne, hany]
      exact htold
    · intro htold hrebooted
      rw [hany.mpr htold, Bool.or_true] at hrebooted
      cases hrebooted
    · intro _
      rw [eeprom_reboot]
      exact ⟨hinterprets, ha⟩
  | reset =>
    show Whole program old { s with
      device := if smIsRunning s.device then smRestart s.device else s.device }
    cases hrunning : smIsRunning s.device with
    | false => exact h
    | true =>
      refine h.restart (eeprom_smRestart _) (smRestart_interprets _) (h.running hrunning).2 ?_
      intro htold hrebooted
      by_contra hmem
      rw [h.quiet htold hrebooted hmem] at hrunning
      cases hrunning

theorem whole_init {device : Fw δ} (hdevice : smIsRunning device = true →
      Interprets device device.eeprom) (result : Sender → SendError) (failCount : Sender → Nat) :
    Whole program device.eeprom (init program device result failCount) := by
  have hnot : ¬ Told (init program device result failCount) := by
    rintro ⟨answer, hanswer, -⟩
    exact List.not_mem_nil hanswer
  have hnone : ∀ id data,
      Request.chunk id data ∉ (init program device result failCount).requests := by
    intro id data hmem
    simp [init, begin, packets] at hmem
  refine ⟨agreed_init device result failCount,
    fun request value h => absurd h List.not_mem_nil, fun _ _ _ => rfl,
    fun id data hmem => absurd hmem (hnone id data), fun id h => ?_,
    fun _ => ⟨fun _ _ => rfl, rfl⟩, fun h => ?_, fun h => ?_,
    fun htold => absurd htold hnot, fun hrunning => ⟨hdevice hrunning, .inl fun _ _ => rfl⟩⟩
  · cases h
  · cases h
  · simp [init, begin, packets, stmStateRunning, stmStateStopped] at h

/-- **A session that stops anywhere**. In every undisturbed run the device runs the machine
that it had or the new one, if it runs any. -/
theorem session_runsWhole (program : Program) (zeroed device : Fw δ)
    (hdevice : smIsRunning device = true → Interprets device device.eeprom)
    (result : Sender → SendError) (failCount : Sender → Nat) (steps : List Step)
    (hsteps : Meets (step program zeroed) (Undisturbed program device.eeprom)
      (init program device result failCount) steps) :
    RunsWhole program device.eeprom
      (run (step program zeroed) (init program device result failCount) steps) :=
  (run_invariant (fun _ _ h ha => h.step zeroed ha)
    (whole_init hdevice result failCount) hsteps).runsWhole

/-- The whole session of two chunks, after which the machine is started again. -/
def startedSteps : List Step := onesSteps ++ [.request 4]

set_option maxRecDepth 4000 in
theorem ones_runsWhole :
    RunsWhole (onesProgram 2) (fun _ => 0xff) (onesSession 2 startedSteps) := by
  refine session_runsWhole (onesProgram 2) freshDevice freshDevice ?_ (fun _ => .other)
    (fun _ => 0) startedSteps ?_
  · exact fun _ => ⟨fun _ _ => rfl, rfl, rfl⟩
  · refine ⟨nofun, nofun, ?_, nofun, ?_, nofun, ?_, nofun, trivial⟩
    · intro request reply id _ hjob
      cases hjob
    · intro request reply id hget hjob _
      cases hjob
      cases hget
      exact ⟨_, rfl⟩
    · intro request reply id hget hjob _
      cases hjob
      cases hget
      exact ⟨_, rfl⟩

/-- Chunks 0 and 1 of three are stored, and the device boots. -/
def abortedSteps : List Step :=
  [.request 0, .request 1, .reply 0, .request 2, .reply 1, .request 3, .reboot]

/-- It runs a mixture. -/
theorem aborted_mixes :
    ¬ RunsWhole (onesProgram 3) freshDevice.eeprom (onesSession 3 abortedSteps) := by
  intro h
  rcases h (by decide +kernel) with hold | hnew
  · have hcell := hold.area EE.statemachineId ⟨by decide, by decide⟩
    exact absurd hcell (by decide +kernel)
  · have hcell := hnew.area (EE.statemachineId + chunkSize) ⟨by decide, by decide⟩
    exact absurd hcell (by decide +kernel)

end Session

end Hexabus.Upload
