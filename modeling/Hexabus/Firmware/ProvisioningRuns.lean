import Hexabus.Firmware.Provisioning

/-!
# Runs of provisioning

A run that comes to its end puts the device back, and one that the stick is told to cancel does
not: the radio keeps the bootloader mode and PAN 1, which is what the next run takes for the PAN id
of the device.
-/

namespace Hexabus.Firmware.Provisioning

open Lib Lib.Bytes Lib.Store

/-- The radio is out of bootloader mode and on one PAN, with encryption as it is to be. -/
structure Usable (m : Mote) (panId : UInt16) (enc : UInt8) : Prop where
  bootloaderMode : m.bootloaderMode = 0
  encryptionEnabled : m.encryptionEnabled = enc
  macSrcPanId : m.macSrcPanId = panId
  macDstPanId : m.macDstPanId = panId
  panAddr : m.panAddr = panId

/-- The device after a run, on the PAN it was on before. -/
def Restored (before after : Mote) : Prop :=
  Usable after before.macSrcPanId before.encryptionEnabled

/-! ## The master from pause to pause -/

/-- The device while the master runs. -/
structure Master.Underway (p : Master) (m : Mote) : Prop where
  provPanId : p.provPanId = p.before.macSrcPanId
  bootloaderMode : m.bootloaderMode = 1
  encryptionEnabled : m.encryptionEnabled = p.before.encryptionEnabled
  macSrcPanId : m.macSrcPanId = 1
  macDstPanId : m.macDstPanId = 1
  panAddr : m.panAddr = 1

namespace Master

theorem underway_start (clock : UInt16) (m : Mote) :
    (start clock m).1.Underway (start clock m).2 :=
  ⟨rfl, rfl, rfl, rfl, rfl, rfl⟩

/-- Both branches behind the loop put the device back. -/
theorem restored_finish {p : Master} {m : Mote} (h : p.Underway m) (clockAfter : UInt16) :
    Restored p.before (finish clockAfter p m) := by
  unfold finish
  split
  · exact ⟨rfl, h.encryptionEnabled, h.provPanId, h.provPanId, h.provPanId⟩
  · exact ⟨rfl, h.encryptionEnabled, h.provPanId, h.provPanId, h.provPanId⟩

/-- What a run is like between two pauses, and at its end. -/
def Goes (before : Mote) : Option Master × Mote → Prop
  | (some p, m) => p.Underway m ∧ p.before = before
  | (none, m) => Restored before m

theorem goes_readPacket {p : Master} {m : Mote} (h : p.Underway m) (x : Moment) :
    Goes p.before (readPacket x p m) := by
  have hread : p.Underway { m with bootloaderPkt := 0 } :=
    ⟨h.provPanId, h.bootloaderMode, h.encryptionEnabled, h.macSrcPanId, h.macDstPanId, h.panAddr⟩
  unfold readPacket
  split
  · exact restored_finish hread x.clockAfter
  · exact ⟨⟨hread.provPanId, hread.bootloaderMode, hread.encryptionEnabled, hread.macSrcPanId,
      hread.macDstPanId, hread.panAddr⟩, rfl⟩

theorem goes_awaitPacket {p : Master} {m : Mote} (h : p.Underway m) (x : Moment) :
    Goes p.before (awaitPacket x p m) := by
  unfold awaitPacket
  split
  · exact goes_readPacket h x
  · exact ⟨⟨h.provPanId, h.bootloaderMode, h.encryptionEnabled, h.macSrcPanId, h.macDstPanId,
      h.panAddr⟩, rfl⟩

/-- **One step of the master**: it stays under way, or it has put the device back. -/
theorem goes_resume {p : Master} {m : Mote} (h : p.Underway m) (x : Moment) :
    Goes p.before (p.resume x m) := by
  unfold resume
  cases p.pause with
  | round =>
    simp only
    split
    · exact restored_finish h x.clockAfter
    · exact goes_awaitPacket h x
  | noPacket =>
    simp only
    split
    · exact goes_readPacket h x
    · exact goes_awaitPacket h x

end Master

/-! ## The stick -/

namespace Stick

/-- What one event does to the process and the device. -/
inductive Did (s s' : Stick) : Prop
  | nothing (hprocess : s'.process = s.process) (hmote : s'.mote = s.mote)
      (hended : s'.ended = s.ended)
  | started (clock : UInt16) (hidle : s.process = none)
      (hprocess : s'.process = some (Master.start clock s.mote).1)
      (hmote : s'.mote = (Master.start clock s.mote).2) (hended : s'.ended = s.ended)
  | cancelled (p : Master) (hruns : s.process = some p) (hprocess : s'.process = none)
      (hmote : s'.mote = s.mote) (hended : s'.ended = s.ended ++ [⟨p.before, s.mote, true⟩])
  | paused (p p' : Master) (x : Moment) (hruns : s.process = some p)
      (hresume : p.resume x s.mote = (some p', s'.mote)) (hprocess : s'.process = some p')
      (hended : s'.ended = s.ended)
  | finished (p : Master) (x : Moment) (hruns : s.process = some p)
      (hresume : p.resume x s.mote = (none, s'.mote)) (hprocess : s'.process = none)
      (hended : s'.ended = s.ended ++ [⟨p.before, s'.mote, false⟩])

theorem did_provisioningMaster (clock : UInt16) (s : Stick) :
    Did s (s.provisioningMaster clock) := by
  unfold provisioningMaster
  cases hruns : s.process with
  | some p => exact .nothing rfl rfl rfl
  | none => exact .started clock hruns rfl rfl rfl

theorem did_processExit (s : Stick) : Did s s.processExit := by
  unfold processExit
  cases hruns : s.process with
  | none => exact .nothing rfl rfl rfl
  | some p => exact .cancelled p hruns rfl rfl rfl

theorem did_resume (x : Moment) (s : Stick) : Did s (s.resume x) := by
  unfold resume
  cases hruns : s.process with
  | none => exact .nothing rfl rfl rfl
  | some p =>
    cases hresume : p.resume x s.mote with
    | mk process m =>
      cases process with
      | some p' =>
        simp only [hresume]
        exact .paused p p' x hruns hresume rfl rfl
      | none =>
        simp only [hresume]
        exact .finished p x hruns hresume rfl rfl

/-- A character is kept for a command, or ends one. -/
theorem did_getchar (c : UInt8) (clock : UInt16) (s : Stick) :
    Did s (s.processPairingCommand c clock).2 := by
  -- the parser does not touch what `Did` speaks of
  have hparse : ∀ {isParsing : Bool} {parsedStr : List UInt8} {s' : Stick},
      Did { s with isParsing := isParsing, parsedStr := parsedStr } s' → Did s s' := by
    intro isParsing parsedStr s' h
    cases h with
    | nothing hprocess hmote hended => exact .nothing hprocess hmote hended
    | started clock hidle hprocess hmote hended => exact .started clock hidle hprocess hmote hended
    | cancelled p hruns hprocess hmote hended => exact .cancelled p hruns hprocess hmote hended
    | paused p p' x hruns hresume hprocess hended =>
      exact .paused p p' x hruns hresume hprocess hended
    | finished p x hruns hresume hprocess hended => exact .finished p x hruns hresume hprocess hended
  unfold processPairingCommand
  split
  · simp only
    split
    · exact hparse (did_provisioningMaster clock _)
    · split
      · exact hparse (did_processExit _)
      · exact .nothing rfl rfl rfl
  · split
    · exact .nothing rfl rfl rfl
    · split
      · simp only
        split <;> exact .nothing rfl rfl rfl
      · exact .nothing rfl rfl rfl

theorem did_step (e : Event) (s : Stick) : Did s (step e s) := by
  cases e with
  | getchar c clock => exact did_getchar c clock s
  | buttonReleased clock => exact did_provisioningMaster clock s
  | resume x => exact did_resume x s

/-! ## Invariants of a stick -/

section

variable {s s' : Stick} {p : Master} {r : Run}

theorem forall_process {Q : Master → Prop} (h : s.process = some p) :
    (∀ q, s.process = some q → Q q) ↔ Q p := by
  simp [h]

theorem forall_process_of_idle {Q : Master → Prop} (h : s.process = none) :
    ∀ q, s.process = some q → Q q := by
  simp [h]

theorem forall_ended {P : Run → Prop} (h : s'.ended = s.ended ++ [r]) :
    (∀ x ∈ s'.ended, P x) ↔ (∀ x ∈ s.ended, P x) ∧ P r := by
  rw [h, List.forall_mem_append, List.forall_mem_singleton]

end

/-- The run that is under way, and those that have ended. -/
structure Inv (s : Stick) : Prop where
  underway : ∀ p, s.process = some p → p.Underway s.mote
  ended : ∀ r ∈ s.ended, Restored r.before r.after ↔ r.cancelled = false

/-- The master is cancelled at a pause, where the radio is in bootloader mode. -/
theorem not_restored_cancelled {p : Master} {m : Mote} (h : p.Underway m) :
    ¬ Restored p.before m := by
  intro hrestored
  have hmode := hrestored.bootloaderMode
  rw [h.bootloaderMode] at hmode
  exact Nat.one_ne_zero hmode

/-- A run that goes on to its next pause. -/
theorem Inv.pauses {s : Stick} {p p' : Master} {m' : Mote} {x : Moment} (h : Inv s)
    (hruns : s.process = some p) (hresume : p.resume x s.mote = (some p', m')) :
    p'.Underway m' ∧ p'.before = p.before := by
  have hgoes := Master.goes_resume (h.underway p hruns) x
  rw [hresume] at hgoes
  exact hgoes

/-- A run that comes to its end. -/
theorem Inv.finishes {s : Stick} {p : Master} {m' : Mote} {x : Moment} (h : Inv s)
    (hruns : s.process = some p) (hresume : p.resume x s.mote = (none, m')) :
    Restored p.before m' := by
  have hgoes := Master.goes_resume (h.underway p hruns) x
  rw [hresume] at hgoes
  exact hgoes

theorem inv_boot (mote : Mote) : Inv (boot mote) where
  underway := forall_process_of_idle rfl
  ended := by
    intro r hr
    cases hr

/-- **The step**: each run that ends does so in one of the two ways. -/
theorem Inv.step {s : Stick} (h : Inv s) (e : Event) : Inv (step e s) := by
  cases did_step e s with
  | nothing hprocess hmote hended =>
    constructor
    · rw [hprocess, hmote]
      exact h.underway
    · rw [hended]
      exact h.ended
  | started clock hidle hprocess hmote hended =>
    constructor
    · rw [forall_process hprocess, hmote]
      exact Master.underway_start clock s.mote
    · rw [hended]
      exact h.ended
  | cancelled p hruns hprocess hmote hended =>
    constructor
    · exact forall_process_of_idle hprocess
    · rw [forall_ended hended]
      exact ⟨h.ended, iff_of_false (not_restored_cancelled (h.underway p hruns)) nofun⟩
  | paused p p' x hruns hresume hprocess hended =>
    constructor
    · rw [forall_process hprocess]
      exact (h.pauses hruns hresume).1
    · rw [hended]
      exact h.ended
  | finished p x hruns hresume hprocess hended =>
    constructor
    · exact forall_process_of_idle hprocess
    · rw [forall_ended hended]
      exact ⟨h.ended, iff_of_true (h.finishes hruns hresume) rfl⟩

theorem inv_run (mote : Mote) (events : List Event) : Inv (run mote events) :=
  Runs.run_invariant (fun _ e h _ => h.step e) (inv_boot mote)
    (Runs.meets_true _ _)

/-! ## Sequences of runs -/

/-- As long as no run has been cancelled, the device is as it was at first, now or when the run
under way has started. -/
def Kept (panId : UInt16) (enc : UInt8) (s : Stick) : Prop :=
  (∀ r ∈ s.ended, r.cancelled = false) →
    (s.process = none → Usable s.mote panId enc) ∧
    ∀ p, s.process = some p → Usable p.before panId enc

theorem Kept.step {panId : UInt16} {enc : UInt8} {s : Stick} (hinv : Inv s)
    (h : Kept panId enc s) (e : Event) : Kept panId enc (step e s) := by
  intro hnone
  cases did_step e s with
  | nothing hprocess hmote hended =>
    rw [hended] at hnone
    rw [hprocess, hmote]
    exact h hnone
  | started clock hidle hprocess hmote hended =>
    rw [hended] at hnone
    rw [forall_process hprocess]
    exact ⟨fun hp => by simp [hprocess] at hp, (h hnone).1 hidle⟩
  | cancelled p hruns hprocess hmote hended =>
    -- this run is one that has been cancelled
    rw [forall_ended hended] at hnone
    cases hnone.2
  | paused p p' x hruns hresume hprocess hended =>
    rw [hended] at hnone
    rw [forall_process hprocess, (hinv.pauses hruns hresume).2]
    exact ⟨fun hp => by simp [hprocess] at hp, (h hnone).2 p hruns⟩
  | finished p x hruns hresume hprocess hended =>
    rw [forall_ended hended] at hnone
    have hbefore : Usable p.before panId enc := (h hnone.1).2 p hruns
    have hrestored := hinv.finishes hruns hresume
    rw [Restored, hbefore.macSrcPanId, hbefore.encryptionEnabled] at hrestored
    exact ⟨fun _ => hrestored, forall_process_of_idle hprocess⟩

theorem kept_run {mote : Mote} {panId : UInt16} {enc : UInt8} (h : Usable mote panId enc)
    (events : List Event) : Kept panId enc (run mote events) := by
  have hboot : Inv (boot mote) ∧ Kept panId enc (boot mote) := by
    refine ⟨inv_boot mote, fun _ => ⟨fun _ => h, ?_⟩⟩
    intro p hp
    cases hp
  have hstep : ∀ s e, Inv s ∧ Kept panId enc s → True → Inv (step e s) ∧ Kept panId enc (step e s) :=
    fun s e hs _ => ⟨hs.1.step e, hs.2.step hs.1 e⟩
  exact (Runs.run_invariant hstep hboot (Runs.meets_true _ _)).2

/-- A run has been cancelled: the device is on PAN 1, and so it was when the run under way has
started. -/
def Lost (s : Stick) : Prop :=
  (∃ r ∈ s.ended, r.cancelled = true) →
    (s.mote.macSrcPanId = 1 ∧ s.mote.macDstPanId = 1 ∧ s.mote.panAddr = 1) ∧
    ∀ p, s.process = some p → p.before.macSrcPanId = 1

theorem Lost.step {s : Stick} (hinv : Inv s) (h : Lost s) (e : Event) : Lost (step e s) := by
  intro hsome
  cases did_step e s with
  | nothing hprocess hmote hended =>
    rw [hended] at hsome
    rw [hprocess, hmote]
    exact h hsome
  | started clock hidle hprocess hmote hended =>
    rw [hended] at hsome
    rw [hmote, forall_process hprocess]
    exact ⟨⟨rfl, rfl, rfl⟩, (h hsome).1.1⟩
  | cancelled p hruns hprocess hmote hended =>
    have hunderway := hinv.underway p hruns
    rw [hmote]
    exact ⟨⟨hunderway.macSrcPanId, hunderway.macDstPanId, hunderway.panAddr⟩,
      forall_process_of_idle hprocess⟩
  | paused p p' x hruns hresume hprocess hended =>
    obtain ⟨hunderway, hbefore⟩ := hinv.pauses hruns hresume
    rw [hended] at hsome
    rw [forall_process hprocess, hbefore]
    exact ⟨⟨hunderway.macSrcPanId, hunderway.macDstPanId, hunderway.panAddr⟩,
      (h hsome).2 p hruns⟩
  | finished p x hruns hresume hprocess hended =>
    have hearlier : ∃ r ∈ s.ended, r.cancelled = true := by
      -- this run has come to its end, so the cancelled one is an earlier one
      simpa [hended, or_and_right, exists_or] using hsome
    have hone := (h hearlier).2 p hruns
    have hrestored := hinv.finishes hruns hresume
    exact ⟨⟨hrestored.macSrcPanId.trans hone, hrestored.macDstPanId.trans hone,
      hrestored.panAddr.trans hone⟩, forall_process_of_idle hprocess⟩

/-- **PAN 1 for good**: after a run that has been cancelled, no later run brings the device back
to its PAN. -/
theorem lost_run (mote : Mote) (events : List Event) : Lost (run mote events) := by
  have hboot : Inv (boot mote) ∧ Lost (boot mote) := by
    refine ⟨inv_boot mote, ?_⟩
    rintro ⟨r, hr, -⟩
    cases hr
  have hstep : ∀ s e, Inv s ∧ Lost s → True → Inv (step e s) ∧ Lost (step e s) :=
    fun s e hs _ => ⟨hs.1.step e, hs.2.step hs.1 e⟩
  exact (Runs.run_invariant hstep hboot (Runs.meets_true _ _)).2

end Stick

/-! ## The slave -/

namespace SlaveRun

/-- The first message of a run, if one comes before the time is over. -/
def received (time : UInt16) : List Round → Option Message
  | [] => none
  | r :: rounds =>
    if expired timeoutSocket r.clock time then none
    else if r.packetbuf.isMessage then some r.packetbuf.message
    else received time rounds

/-- The clock behind the loop takes back that the time is over: it has wrapped around since the
loop was left for it. -/
def Lapses (run : SlaveRun) : Prop :=
  received run.time run.rounds = none ∧ expired timeoutSocket run.clockAfter run.time = false

/-- The device after a run that has returned `status`. -/
def Right (run : SlaveRun) (before : Mote) (status : Int) (after : Mote) : Prop :=
  if status = 0 then
    ∃ msg, received run.time run.rounds = some msg ∧
      Usable after msg.panId before.encryptionEnabled ∧
      after.getPanid = msg.panId ∧ after.getAes128key = msg.aesKey
  else Restored before after

/-- The loop only sends, and it ends with a message or without one. -/
theorem loop_spec {time : UInt16} {rounds : List Round} {packetbuf packetbuf' : Packetbuf}
    {m m' : Mote} (h : loop time rounds packetbuf m = some (packetbuf', m')) :
    (∃ sent, m' = { m with sent := sent }) ∧
      (received time rounds = none ∨ received time rounds = some packetbuf'.message) := by
  induction rounds generalizing packetbuf m with
  | nil => cases h
  | cons r rounds ih =>
    unfold loop at h
    unfold received
    split at h
    · rename_i hexpired
      cases h
      exact ⟨⟨_, rfl⟩, .inl (if_pos hexpired)⟩
    · rename_i hgoes
      rw [if_neg hgoes]
      simp only at h
      split at h
      · rename_i hmessage
        cases h
        exact ⟨⟨_, rfl⟩, .inr (if_pos hmessage)⟩
      · rename_i hother
        rw [if_neg hother]
        obtain ⟨⟨sent, hsent⟩, hreceived⟩ := ih h
        exact ⟨⟨sent, hsent⟩, hreceived⟩

/-- What the loop takes with it. -/
theorem provisioningSlave_eq {run : SlaveRun} {m m' : Mote} {status : Int}
    (h : run.provisioningSlave m = some (status, m')) : ∃ packetbuf sent,
      (received run.time run.rounds = none ∨
        received run.time run.rounds = some packetbuf.message) ∧
      (status, m') = run.finish m.macSrcPanId m.encryptionEnabled packetbuf
        { { m with bootloaderPkt := 0, bootloaderMode := 1 }.setPanId 0x0001 with
          encryptionEnabled := 0, sent := sent } := by
  unfold provisioningSlave at h
  obtain ⟨⟨packetbuf, m₂⟩, hloop, hfinish⟩ := Option.map_eq_some_iff.mp h
  obtain ⟨⟨sent, rfl⟩, hreceived⟩ := loop_spec hloop
  exact ⟨packetbuf, sent, hreceived, hfinish.symm⟩

/-- The PAN id and the key in the EEPROM. -/
theorem getPanid_written (m : Mote) (msg : Message) {m' : Mote}
    (h : m'.eeprom = writeBlock (setU16 m.eeprom EE.panId msg.panId) EE.encryptionKey
      msg.aesKey.val) : m'.getPanid = msg.panId ∧ m'.getAes128key = msg.aesKey := by
  have hkey : msg.aesKey.val.length = EE.encryptionKeySize := msg.aesKey.property
  refine ⟨?_, ?_⟩
  · unfold Mote.getPanid getU16 setU16 at *
    rw [h, read_write_disjoint _ _ _ _ _ (.inl (by decide)),
      (holds_write _ _ _).read (length_leBytes 2 _)]
    exact uint16_ofLe_leBytes msg.panId
  · apply Subtype.ext
    show readBlock m'.eeprom EE.encryptionKey EE.encryptionKeySize = msg.aesKey.val
    rw [h, ← hkey]
    exact read_write_same _ _ _

/-- **The slave**, when the device is as it should be after a run. -/
theorem right_iff {run : SlaveRun} {m m' : Mote} {status : Int}
    (h : run.provisioningSlave m = some (status, m')) :
    run.Right m status m' ↔ ¬ run.Lapses := by
  obtain ⟨packetbuf, sent, hreceived, hfinish⟩ := provisioningSlave_eq h
  unfold finish at hfinish
  unfold Right Lapses
  cases hafter : expired timeoutSocket run.clockAfter run.time with
  | true =>
    rw [hafter, if_pos rfl] at hfinish
    cases hfinish
    exact iff_of_true ⟨rfl, rfl, rfl, rfl, rfl⟩ (by simp)
  | false =>
    rw [hafter, if_neg (by simp)] at hfinish
    cases hfinish
    rw [if_pos rfl]
    rcases hreceived with hnone | hsome
    · -- the packet buffer is taken for a message
      rw [hnone]
      simp
    · refine iff_of_true ⟨packetbuf.message, hsome, ⟨rfl, rfl, rfl, rfl, rfl⟩, ?_⟩ (by simp [hsome])
      exact getPanid_written _ packetbuf.message rfl

/-- A run without success leaves the EEPROM alone. -/
theorem eeprom_of_status {run : SlaveRun} {m m' : Mote} {status : Int}
    (h : run.provisioningSlave m = some (status, m')) (hstatus : status ≠ 0) :
    m'.eeprom = m.eeprom := by
  obtain ⟨packetbuf, sent, -, hfinish⟩ := provisioningSlave_eq h
  unfold finish at hfinish
  split at hfinish
  · cases hfinish
    rfl
  · cases hfinish
    exact absurd rfl hstatus

/-- One run after the other. -/
def performAll : List SlaveRun → Mote → Option Mote
  | [], m => some m
  | run :: runs, m => (run.provisioningSlave m).bind fun (_, m) => performAll runs m

/-- A run without a lapse keeps the socket on the PAN of its EEPROM. -/
theorem usable_of_run {run : SlaveRun} {m m' : Mote} {status : Int} {enc : UInt8}
    (h : run.provisioningSlave m = some (status, m')) (hm : Usable m m.getPanid enc)
    (hlapses : ¬ run.Lapses) : Usable m' m'.getPanid enc := by
  have hright := (right_iff h).mpr hlapses
  unfold Right at hright
  split at hright
  · obtain ⟨msg, -, husable, hpan, -⟩ := hright
    rw [hm.encryptionEnabled] at husable
    rw [hpan]
    exact husable
  · rename_i hstatus
    unfold Restored at hright
    rw [hm.encryptionEnabled, hm.macSrcPanId] at hright
    have hpan : m'.getPanid = m.getPanid := by
      unfold Mote.getPanid
      rw [eeprom_of_status h hstatus]
    rw [hpan]
    exact hright

/-- **Sequences of runs** of the slave. -/
theorem usable_performAll {runs : List SlaveRun} {m m' : Mote} {enc : UInt8}
    (h : performAll runs m = some m') (hm : Usable m m.getPanid enc)
    (hlapses : ∀ run ∈ runs, ¬ run.Lapses) : Usable m' m'.getPanid enc := by
  induction runs generalizing m with
  | nil =>
    cases h
    exact hm
  | cons run runs ih =>
    obtain ⟨⟨status, m₂⟩, hrun, hrest⟩ := Option.bind_eq_some_iff.mp h
    have hm₂ := usable_of_run hrun hm (hlapses run List.mem_cons_self)
    exact ih hrest hm₂ fun r hr => hlapses r (List.mem_cons_of_mem _ hr)

end SlaveRun

/-! ## Provisioning -/

/-- **Provisioning leaves the radio usable**: a run of the master if and only if it is not
cancelled, a run of the slave if and only if the clock does not lapse, and a sequence of such runs
from first to last. A master that has been cancelled once stays off its PAN. -/
theorem provisioning_restores (mote : Mote) (events : List Event) (runs : List SlaveRun)
    (panId : UInt16) (enc : UInt8) :
    (∀ r ∈ (Stick.run mote events).ended, Restored r.before r.after ↔ r.cancelled = false) ∧
    (Usable mote panId enc → (Stick.run mote events).process = none →
      ((∀ r ∈ (Stick.run mote events).ended, r.cancelled = false) →
        Usable (Stick.run mote events).mote panId enc) ∧
      (panId ≠ 1 → Usable (Stick.run mote events).mote panId enc →
        ∀ r ∈ (Stick.run mote events).ended, r.cancelled = false)) ∧
    (∀ (run : SlaveRun) m' status, run.provisioningSlave mote = some (status, m') →
      (run.Right mote status m' ↔ ¬ run.Lapses)) ∧
    (Usable mote mote.getPanid enc → (∀ run ∈ runs, ¬ run.Lapses) →
      ∀ m', SlaveRun.performAll runs mote = some m' → Usable m' m'.getPanid enc) := by
  refine ⟨?_, ?_, ?_, ?_⟩
  · intro r hr
    exact (Stick.inv_run mote events).ended r hr
  · intro husable hidle
    refine ⟨fun hnone => (Stick.kept_run husable events hnone).1 hidle, ?_⟩
    intro hpan hafter r hr
    cases hcancelled : r.cancelled with
    | false => rfl
    | true =>
      have hone := (Stick.lost_run mote events ⟨r, hr, hcancelled⟩).1.1
      exact absurd (hafter.macSrcPanId.symm.trans hone) hpan
  · intro run m' status h
    exact SlaveRun.right_iff h
  · intro husable hlapses m' h
    exact SlaveRun.usable_performAll h husable hlapses

/-! ### A stick and a socket -/

/-- A device on PAN 0x1234. -/
def plug : Mote where
  bootloaderMode := 0
  bootloaderPkt := 0
  encryptionEnabled := 1
  macSrcPanId := 0x1234
  macDstPanId := 0x1234
  panAddr := 0x1234
  shortAddr := 0
  aesKey := Block.zero 16
  eeprom := setU16 (fun _ => 0) EE.panId 0x1234
  sent := []

/-- `$HXB_P_ON&`. -/
def switchOn : List Event :=
  ([0x24] ++ Stick.pOnStr ++ [0x26]).map fun c => .getchar c 0

/-- `$HXB_P_OFF&`. -/
def switchOff : List Event :=
  ([0x24] ++ Stick.pOffStr ++ [0x26]).map fun c => .getchar c 1

/-- The time is over at the first pause. -/
def timesOut : List Event := switchOn ++ [.resume ⟨63000, false, ⟨fun _ => 0, 0⟩, 63000⟩]

/-- A socket that is answered in its first round. -/
def answered : SlaveRun where
  time := 0
  packetbuf := ⟨fun _ => 0, 0⟩
  rounds := [⟨1, ⟨fun i => (Message.bytes ⟨0x5678, Block.zero 16⟩).getD i 0, 31⟩⟩]
  clockAfter := 70

theorem usable_plug : Usable plug plug.getPanid 1 := ⟨rfl, rfl, rfl, rfl, rfl⟩

theorem plug_restores :
    (∃ r ∈ (Stick.run plug timesOut).ended, Restored r.before r.after) ∧
    Usable (Stick.run plug timesOut).mote 0x1234 1 ∧
    (∃ m', answered.provisioningSlave plug = some (0, m') ∧ answered.Right plug 0 m') ∧
    (∃ m', SlaveRun.performAll [answered] plug = some m' ∧ Usable m' m'.getPanid 1) := by
  have hended : (Stick.run plug timesOut).ended =
      [⟨plug, (Stick.run plug timesOut).mote, false⟩] := rfl
  have hlapses : ¬ answered.Lapses := by
    rintro ⟨hnone, -⟩
    cases hnone
  obtain ⟨hmaster, hmasters, hslave, hslaves⟩ :=
    provisioning_restores plug timesOut [answered] 0x1234 1
  refine ⟨?_, ?_, ?_, ?_⟩
  · refine ⟨⟨plug, (Stick.run plug timesOut).mote, false⟩, ?_, ?_⟩
    · rw [hended]
      exact List.mem_cons_self
    · exact (hmaster _ (hended ▸ List.mem_cons_self)).mpr rfl
  · refine (hmasters usable_plug rfl).1 ?_
    intro r hr
    rw [hended] at hr
    rw [List.mem_singleton.mp hr]
  · exact ⟨_, rfl, (hslave answered _ 0 rfl).mpr hlapses⟩
  · refine ⟨_, rfl, hslaves usable_plug ?_ _ rfl⟩
    intro run hrun
    rw [List.mem_singleton.mp hrun]
    exact hlapses

/-- **The cancelled run**: the radio stays in bootloader mode and on PAN 1. -/
theorem cancelled_not_restored :
    ∃ r ∈ (Stick.run plug (switchOn ++ switchOff)).ended, ¬ Restored r.before r.after := by
  have hended : (Stick.run plug (switchOn ++ switchOff)).ended =
      [⟨plug, (Stick.run plug (switchOn ++ switchOff)).mote, true⟩] := rfl
  refine ⟨⟨plug, (Stick.run plug (switchOn ++ switchOff)).mote, true⟩, ?_, ?_⟩
  · rw [hended]
    exact List.mem_cons_self
  · intro h
    exact absurd h.bootloaderMode (by decide)

end Hexabus.Firmware.Provisioning
