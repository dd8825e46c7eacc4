import Hexabus.Firmware.UsbSessions

/-!
# The flash behind a transfer

For an image that ends within 64 KiB, the pages at the end of a transfer are those of the last
line's session. From them it follows when the flash holds the image.
-/

namespace Hexabus.Firmware.UsbBootloader

variable (image : Image)

/-- How often the first line has been sent before it was taken. -/
def firstTries (noises : List Noise) : Nat :=
  (noises.takeWhile fun noise => ¬ Intact image image.minaddr noise).length

/-- The page of the first line is erased: `pagePos` is zero again. -/
def firstErased (noises : List Noise) : Bool :=
  firstTries image noises * recordLength image image.minaddr % 65536 = 0

/-- The address of the last line with data. -/
def lastRecord : Nat := image.minaddr + 16 * ((image.maxaddr - image.minaddr - 1) / 16)

/-- Behind the transfer the flash holds the image, and nothing else has been touched, whatever the
flash held before. -/
def Flashed (noises : List Noise) : Prop :=
  ∀ flash buffer,
    let s := conclude (transfer image (begin flash buffer) noises).1
    (∀ a, image.minaddr ≤ a → a < image.maxaddr → s.flash a = image.memory a) ∧
      ∀ p ∈ s.touched, ∃ a, image.minaddr ≤ a ∧ a < image.maxaddr ∧ a / pagesize = p

/-- The image ends within 64 KiB; its first page is erased, or has no bits to be set, or is erased
again by a later line; and what the highest page loses when it is begun anew are ones. -/
structure Fitting (noises : List Noise) : Prop where
  within : image.maxaddr ≤ 65536
  first : firstErased image noises = true ∨
    (∀ a, image.minaddr ≤ a → a < image.maxaddr → a / pagesize = image.minaddr / pagesize →
      image.memory a = 0) ∨
    0xFF00 ≤ image.minaddr ∧ lastRecord image ≠ image.minaddr
  last : ∀ a, image.minaddr ≤ a → 0xFF00 ≤ a → a < lastRecord image → image.memory a = 0xFF

/-! ## Along the transfer -/

/-- No line has been taken yet. -/
structure Waiting (old : Nat → UInt8) (r : Nat) (s : Boot) : Prop where
  flash : s.flash = old
  temporary : ∀ i, s.temporary i = 0xFF
  touched : s.touched = []
  startAddress : s.startAddress = 0xFFFF
  pagePos : s.pagePos = (65536 - r * recordLength image image.minaddr % 65536) % 65536

/-- The last line that was taken began at `c`. -/
structure Taking (old : Nat → UInt8) (erased : Bool) (c p : Nat) (s : Boot) : Prop where
  le : image.minaddr ≤ c
  lt : c < image.maxaddr
  lines : (c - image.minaddr) % 16 = 0
  position : p = min (c + 16) image.maxaddr
  session : Session image old erased c ((p + 1) / 2 * 2) s
  filled : s.startAddress + 2 ≤ (p + 1) / 2 * 2

variable {image}

theorem Waiting.changed {old : Nat → UInt8} {r : Nat} {s : Boot} {b : Nat → UInt8}
    (h : Waiting image old r s) :
    Waiting image old (r + 1)
      { s with buffer := b
               pagePos := (s.pagePos + 65536 - recordLength image image.minaddr) % 65536 } := by
  have hlen := recordLength_eq image image.minaddr
  refine ⟨h.flash, h.temporary, h.touched, h.startAddress, ?_⟩
  show (s.pagePos + 65536 - recordLength image image.minaddr) % 65536 = _
  rw [h.pagePos, Nat.succ_mul]
  omega

theorem holds_recordData (c : Nat) (buffer : Nat → UInt8) :
    Holds image c (recordLength image c) fun i => (recordData image c).getD i (buffer i) := by
  intro i hi
  show (recordData image c).getD i (buffer i) = image.memory (c + i)
  rw [List.getD_eq_getElem?_getD, recordData, List.getElem?_map, List.getElem?_range hi]
  rfl

/-- The words of a line that is taken. -/
theorem Taking.of_enter {old : Nat → UInt8} {erased : Bool} {c : Nat} {s : Boot}
    (hmax : image.maxaddr ≤ 65536) (hle : image.minaddr ≤ c) (hlt : c < image.maxaddr)
    (hlines : (c - image.minaddr) % 16 = 0)
    (henter : Session image old erased c c (enter c s) ∧
      (enter c s).pagePos = c - (enter c s).startAddress ∧ (enter c s).buffer = s.buffer)
    (hbuffer : Holds image c (recordLength image c) s.buffer) :
    Taking image old erased c (c + recordLength image c)
      (words c ((recordLength image c + 1) / 2) 0 (enter c s)) := by
  obtain ⟨hsession, hpos, hsame⟩ := henter
  have hlen := recordLength_eq image c
  have heven := image.even
  obtain ⟨hwords, hfilled⟩ := hsession.words (k := (recordLength image c + 1) / 2) (i := 0) hmax
    (by omega) hlen hpos rfl (by omega) (hsame ▸ hbuffer)
  have hend : c + 0 + 2 * ((recordLength image c + 1) / 2) =
      (c + recordLength image c + 1) / 2 * 2 := by omega
  rw [hend] at hwords hfilled
  exact ⟨hle, hlt, hlines, by omega, hwords, hfilled (by omega)⟩

/-- A line is taken behind others. -/
theorem Taking.intact {old : Nat → UInt8} {erased : Bool} {c p : Nat} {s : Boot}
    (h : Taking image old erased c p s) (hmax : image.maxaddr ≤ 65536)
    (hlt : p < image.maxaddr) {noise : Noise} (hintact : Intact image p noise) :
    Taking image old erased p (p + recordLength image p)
      (exchange image (s, p) noise).1 := by
  have hposition := h.position
  have hlines := h.lines
  have hle := h.le
  have hmod : p % 65536 = p := by omega
  have hp : (p + 1) / 2 * 2 = p := by
    have heven := image.even
    omega
  have hsession := h.session
  rw [hp] at hsession
  rw [exchange_intact hlt hintact, hmod]
  refine Taking.of_enter hmax (by omega) hlt (by omega) ?_ (holds_recordData p s.buffer)
  exact hsession.update.enter (by omega) hlt.le (by omega)

theorem Taking.changed {old : Nat → UInt8} {erased : Bool} {c p k : Nat} {s : Boot}
    {b : Nat → UInt8} (h : Taking image old erased c p s) :
    Taking image old erased c p { s with buffer := b, pagePos := k } :=
  ⟨h.le, h.lt, h.lines, h.position, h.session.update, h.filled⟩

/-- The first line is taken. -/
theorem Waiting.intact {old : Nat → UInt8} {r : Nat} {s : Boot}
    (h : Waiting image old r s) (hmax : image.maxaddr ≤ 65536) {noise : Noise}
    (hintact : Intact image image.minaddr noise) {erased : Bool}
    (herased : erased = decide (r * recordLength image image.minaddr % 65536 = 0)) :
    Taking image old erased image.minaddr
      (image.minaddr + recordLength image image.minaddr)
      (exchange image (s, image.minaddr) noise).1 := by
  have hlt := image.nonempty
  have hmod : image.minaddr % 65536 = image.minaddr := by omega
  rw [exchange_intact hlt hintact, hmod]
  have hzero : erased = decide (s.pagePos = 0) := by
    rw [herased, h.pagePos, decide_eq_decide]
    omega
  refine Taking.of_enter hmax le_rfl hlt (by omega) ?_ (holds_recordData _ s.buffer)
  exact enter_first h.flash h.temporary h.touched h.startAddress hzero (by omega)

theorem firstTries_append (noises : List Noise) (noise : Noise) :
    firstTries image (noises ++ [noise]) =
      if firstTries image noises = noises.length then
        if Intact image image.minaddr noise then noises.length else noises.length + 1
      else firstTries image noises := by
  unfold firstTries
  rw [List.takeWhile_append]
  split
  · by_cases h : Intact image image.minaddr noise
    · rw [if_pos h, List.takeWhile_cons_of_neg (by simpa using h), List.append_nil]
    · rw [if_neg h, List.takeWhile_cons_of_pos (by simpa using h), List.takeWhile_nil,
        List.length_append, List.length_singleton]
  · rfl

/-- **Along a transfer**: the first line waits, or a session is under way. -/
theorem transfer_state (hmax : image.maxaddr ≤ 65536) (flash buffer : Nat → UInt8)
    {noises : List Noise} (h : Heard image noises) :
    let s := (transfer image (begin flash buffer) noises).1
    (position image noises = image.minaddr ∧ firstTries image noises = noises.length ∧
      Waiting image flash noises.length s) ∨
    (firstTries image noises < noises.length ∧ ∃ c, Taking image flash
      (firstErased image noises) c (position image noises) s) := by
  induction noises using List.reverseRecOn with
  | nil =>
    refine .inl ⟨rfl, rfl, rfl, fun _ => rfl, rfl, rfl, ?_⟩
    show 0 = (65536 - 0 * _ % 65536) % 65536
    rw [Nat.zero_mul]
  | append_singleton noises noise ih =>
    obtain ⟨hinit, hdetected⟩ := h.init
    have hpos := transfer_position (s := begin flash buffer) hinit
    obtain ⟨s, hs⟩ : ∃ s, (transfer image (begin flash buffer) noises).1 = s := ⟨_, rfl⟩
    have hpair : transfer image (begin flash buffer) noises = (s, position image noises) :=
      Prod.ext hs hpos
    have hstate := ih hinit
    simp only [hs] at hstate
    rw [transfer_append, hpair, position_append, firstTries_append, List.length_append,
      List.length_singleton]
    rcases hstate with ⟨hmin, htries, hwaiting⟩ | ⟨htries, c, htaking⟩
    · have hlt : position image noises < image.maxaddr := hmin ▸ image.nonempty
      rw [if_pos htries]
      by_cases hintact : Intact image (position image noises) noise
      · have hintact' : Intact image image.minaddr noise := hmin ▸ hintact
        rw [if_pos ⟨hlt, hintact⟩, if_pos hintact']
        refine .inr ⟨Nat.lt_succ_self _, image.minaddr, ?_⟩
        have herased : firstErased image (noises ++ [noise]) =
            decide (noises.length * recordLength image image.minaddr % 65536 = 0) := by
          rw [firstErased, firstTries_append, if_pos htries, if_pos hintact']
        rw [hmin]
        exact hwaiting.intact hmax hintact' herased
      · have hintact' : ¬ Intact image image.minaddr noise := hmin ▸ hintact
        rw [if_neg fun h => hintact h.2, if_neg hintact']
        obtain ⟨b, hex⟩ := exchange_changed (s := s) hlt hdetected hintact
        refine .inl ⟨hmin, rfl, ?_⟩
        rw [hex, hmin]
        exact hwaiting.changed
    · have herased : firstErased image (noises ++ [noise]) = firstErased image noises := by
        rw [firstErased, firstErased, firstTries_append, if_neg htries.ne]
      rw [if_neg htries.ne, herased]
      refine .inr ⟨htries.trans (Nat.lt_succ_self _), ?_⟩
      by_cases hlt : position image noises < image.maxaddr
      · by_cases hintact : Intact image (position image noises) noise
        · rw [if_pos ⟨hlt, hintact⟩]
          exact ⟨_, htaking.intact hmax hlt hintact⟩
        · obtain ⟨b, hex⟩ := exchange_changed (s := s) hlt hdetected hintact
          rw [if_neg fun h => hintact h.2, hex]
          exact ⟨c, htaking.changed⟩
      · rw [if_neg fun h => hlt h.1, exchange_end (Nat.not_lt.mp hlt)]
        exact ⟨c, htaking⟩

/-! ## Past 64 KiB -/

/-- The flash past 64 KiB is left as it was. -/
structure Above (old : Nat → UInt8) (s : Boot) : Prop where
  startAddress : s.startAddress < 65536
  flash : ∀ x, 65536 ≤ x → s.flash x = old x

theorem page_ne {a x : Nat} (ha : a < 65536) (hx : 65536 ≤ x) : x / pagesize ≠ a / pagesize := by
  simp only [pagesize]
  omega

theorem Above.erase {old : Nat → UInt8} {s : Boot} (h : Above old s) {a : Nat} (ha : a < 65536) :
    Above old (bootErasePage a s) :=
  ⟨h.startAddress, fun x hx => (if_neg (page_ne ha hx)).trans (h.flash x hx)⟩

theorem Above.write {old : Nat → UInt8} {s : Boot} (h : Above old s) :
    Above old (bootWritePage s.startAddress s) :=
  ⟨h.startAddress, fun x hx => (if_neg (page_ne h.startAddress hx)).trans (h.flash x hx)⟩

theorem Above.at {old : Nat → UInt8} {s : Boot} (h : Above old s) {S k : Nat} (hS : S < 65536) :
    Above old { s with startAddress := S, pagePos := k } := ⟨hS, h.flash⟩

theorem Above.leave {old : Nat → UInt8} {s : Boot} (h : Above old s) {S' : Nat} (hS' : S' < 65536) :
    Above old (leave S' s) := (h.write.at hS').erase hS'

theorem Above.enter {old : Nat → UInt8} {s : Boot} (h : Above old s) {a : Nat} (ha : a < 65536) :
    Above old (enter a s) := by
  have hS' : pagesize * (a / pagesize) < 65536 := lt_of_le_of_lt (Nat.mul_div_le _ _) ha
  unfold UsbBootloader.enter
  by_cases hstart : s.startAddress = 0xFFFF
  · rw [if_pos hstart]
    by_cases hzero : s.pagePos = 0
    · rw [if_pos hzero]
      exact ⟨hS', ((h.at (k := s.pagePos) hS').erase hS').flash⟩
    · rw [if_neg hzero]
      exact ⟨hS', h.flash⟩
  · rw [if_neg hstart]
    split
    · exact ⟨hS', (h.leave hS').flash⟩
    · exact ⟨h.startAddress, h.flash⟩

theorem Above.word {old : Nat → UInt8} {s : Boot} (h : Above old s) (cur pos : Nat) :
    Above old (word cur pos s) := by
  have hturn : Above old (turn cur pos s) := by
    unfold turn
    split
    · exact h.leave (Nat.mod_lt _ (by decide))
    · exact h
  exact ⟨hturn.startAddress, hturn.flash⟩

theorem Above.words {old : Nat → UInt8} {s : Boot} (h : Above old s) (cur k pos : Nat) :
    Above old (words cur k pos s) := by
  induction k generalizing pos s with
  | zero => exact h
  | succ k ih => exact ih (h.word cur pos) (pos + 2)

theorem Above.line {old : Nat → UInt8} {s : Boot} (h : Above old s) (l : Line) :
    Above old (line s l).1 := by
  have ha : l.currentAddress < 65536 := by
    have hhigh := l.high.toNat_lt
    have hlow := l.low.toNat_lt
    unfold Line.currentAddress
    omega
  have hbuffer : Above old { s with buffer := fun i => l.data.getD i (s.buffer i) } :=
    ⟨h.startAddress, h.flash⟩
  unfold UsbBootloader.line
  split
  · split
    · exact (hbuffer.enter ha).words _ _ _
    · exact hbuffer
  · exact ⟨h.startAddress, h.flash⟩

theorem Above.transfer {old : Nat → UInt8} {s : Boot} (h : Above old s) (noises : List Noise) :
    Above old (transfer image s noises).1 := by
  induction noises using List.reverseRecOn with
  | nil => exact h
  | append_singleton noises noise ih =>
    rw [transfer_append]
    unfold exchange
    split
    · split
      · exact ih
      · exact ih.line _
    · exact ih

/-! ## The flash at the end -/

theorem conclude_flash (s : Boot) (x : Nat) :
    (conclude s).flash x =
      if x / pagesize = s.startAddress / pagesize then s.flash x &&& s.temporary (x % pagesize)
      else s.flash x := rfl

theorem conclude_touched (s : Boot) :
    (conclude s).touched = s.touched ++ [s.startAddress / pagesize] := rfl

section Concluded

variable {old : Nat → UInt8} {erased : Bool} {c : Nat} {s : Boot}

theorem Taking.last (h : Taking image old erased c image.maxaddr s) : c = lastRecord image := by
  have hle := h.le
  have hlt := h.lt
  have hlines := h.lines
  have hposition := h.position
  unfold lastRecord
  omega

theorem Taking.page (h : Taking image old erased c image.maxaddr s) {x : Nat}
    (hS : s.startAddress ≤ x) (hx : x < image.maxaddr) :
    x / pagesize = s.startAddress / pagesize := by
  have haligned := h.session.aligned
  have hle := h.session.le
  simp only [pagesize] at *
  omega

/-- An address of a page that was left. -/
theorem Taking.flash_left (h : Taking image old erased c image.maxaddr s) {x : Nat}
    (hx : image.minaddr ≤ x) (hS : x < s.startAddress) :
    (conclude s).flash x = held image old erased x := by
  have haligned := h.session.aligned
  have hne : x / pagesize ≠ s.startAddress / pagesize := by
    simp only [pagesize] at *
    omega
  rw [conclude_flash, if_neg hne]
  exact h.session.done x hx hS

/-- An address of the last session. -/
theorem Taking.flash_inside (h : Taking image old erased c image.maxaddr s) {x : Nat}
    (hS : sessionStart image c s.startAddress ≤ x) (hx : x < image.maxaddr) :
    (conclude s).flash x =
      if Bare image erased c s.startAddress then old x &&& image.memory x else image.memory x := by
  have hpage := h.page ((sessionStart_le c s.startAddress).trans hS) hx
  rw [conclude_flash, if_pos hpage, h.session.inside x hS (by omega) hx]
  split
  · next hbare => rw [h.session.bare hbare x hpage]
  · next hbare =>
    rw [h.session.cleared hbare x hpage]
    exact UInt8.toBitVec_inj.mp BitVec.allOnes_and

/-- An address of the last page that is not of the last session. -/
theorem Taking.flash_outside (h : Taking image old erased c image.maxaddr s) {x : Nat}
    (hx : image.minaddr ≤ x) (hxmax : x < image.maxaddr) (hS : s.startAddress ≤ x)
    (hout : x < sessionStart image c s.startAddress) :
    0xFF00 ≤ x ∧ x < c ∧ (conclude s).flash x = 0xFF := by
  have hhigh : 0xFF00 ≤ s.startAddress := by
    by_contra hlow
    rw [sessionStart_of_low (not_le.mp hlow)] at hout
    omega
  rw [sessionStart_of_high hhigh] at hout
  have hpage := h.page hS hxmax
  have hbare : ¬ Bare image erased c s.startAddress := by
    rintro ⟨-, -, hlow | hmin⟩
    · omega
    · omega
  have hindex : s.startAddress + x % pagesize = x := by
    have haligned := h.session.aligned
    simp only [pagesize] at *
    omega
  have htemp : s.temporary (x % pagesize) = 0xFF := by
    refine h.session.outside _ (Nat.mod_lt _ (by decide)) (.inl ?_)
    rw [hindex, sessionStart_of_high hhigh]
    exact hout
  refine ⟨hhigh.trans hS, by omega, ?_⟩
  rw [conclude_flash, if_pos hpage, htemp, h.session.cleared hbare x hpage]
  rfl

/-- No other page has been touched. -/
theorem Taking.touched (h : Taking image old erased c image.maxaddr s) :
    ∀ p ∈ (conclude s).touched,
      ∃ a, image.minaddr ≤ a ∧ a < image.maxaddr ∧ a / pagesize = p := by
  intro p hp
  have hle := h.le
  have hlt := h.lt
  have hfilled := h.filled
  have hfirst := h.session.first
  have haligned := h.session.aligned
  have hp' : image.minaddr / pagesize ≤ p ∧ p ≤ s.startAddress / pagesize := by
    rw [conclude_touched, List.mem_append, List.mem_singleton] at hp
    rcases hp with hp | rfl
    · exact h.session.touched p hp
    · refine ⟨?_, le_rfl⟩
      simp only [pagesize] at *
      omega
  refine ⟨max image.minaddr (pagesize * p), le_max_left _ _, ?_, ?_⟩
  · simp only [pagesize] at *
    omega
  · simp only [pagesize] at *
    omega

end Concluded

/-- What makes the flash hold the image at the end of a transfer within 64 KiB. -/
theorem Taking.fits {old : Nat → UInt8} {c : Nat} {s : Boot} {noises : List Noise}
    (h : Taking image old (firstErased image noises) c image.maxaddr s)
    (hfit : Fitting image noises) {x : Nat} (hx : image.minaddr ≤ x) (hmax : x < image.maxaddr) :
    (conclude s).flash x = image.memory x := by
  have hc := h.last
  -- in the first page, when it was not erased, the image has no bits to be set
  have hzero : firstErased image noises = false → x / pagesize = image.minaddr / pagesize →
      (image.minaddr < 0xFF00 ∨ c = image.minaddr) → image.memory x = 0 := by
    intro herased hpage hfirst
    rcases hfit.first with he | hz | ⟨hhigh, hne⟩
    · rw [herased] at he
      cases he
    · exact hz x hx hmax hpage
    · rcases hfirst with hlow | hcmin
      · exact absurd hhigh (not_le.mpr hlow)
      · exact absurd (hc.symm.trans hcmin) hne
  rcases Nat.lt_or_ge x s.startAddress with hleft | hS
  · rw [h.flash_left hx hleft, held]
    split
    · next hcond =>
      have hlt := h.session.lt
      have haligned := h.session.aligned
      have hlow : image.minaddr < 0xFF00 := by
        simp only [pagesize] at *
        omega
      rw [hzero hcond.1 hcond.2 (.inl hlow)]
      exact UInt8.toBitVec_inj.mp BitVec.and_zero
    · rfl
  rcases Nat.lt_or_ge x (sessionStart image c s.startAddress) with hout | hin
  · obtain ⟨hhigh, hxc, hflash⟩ := h.flash_outside hx hmax hS hout
    rw [hflash, hfit.last x hx hhigh (hc ▸ hxc)]
  · rw [h.flash_inside hin hmax]
    split
    · next hbare =>
      obtain ⟨herased, hpage, hfirst⟩ := hbare
      have haligned := h.session.aligned
      have hfirst' : image.minaddr < 0xFF00 ∨ c = image.minaddr := by
        refine hfirst.imp_left fun hlow => ?_
        simp only [pagesize] at *
        omega
      rw [hzero herased ((h.page hS hmax).trans hpage) hfirst']
      exact UInt8.toBitVec_inj.mp BitVec.and_zero
    · rfl

/-- In a first page that is not erased nothing can be set. -/
theorem Taking.flash_cleared {c : Nat} {s : Boot}
    (h : Taking image (fun _ => 0) false c image.maxaddr s)
    (hfirst : 0xFF00 ≤ image.minaddr → lastRecord image = image.minaddr) {x : Nat}
    (hx : image.minaddr ≤ x) (hmax : x < image.maxaddr)
    (hpage : x / pagesize = image.minaddr / pagesize) : (conclude s).flash x = 0 := by
  have hzero : ∀ b : UInt8, (0 : UInt8) &&& b = 0 := fun b =>
    UInt8.toBitVec_inj.mp BitVec.zero_and
  rcases Nat.lt_or_ge x s.startAddress with hleft | hS
  · rw [h.flash_left hx hleft, held, if_pos ⟨rfl, hpage⟩]
    exact hzero _
  have hc := h.last
  have hSpage := h.page hS hmax
  have hplace : s.startAddress < 0xFF00 ∨ c = image.minaddr := by
    rcases Nat.lt_or_ge s.startAddress 0xFF00 with hlow | hhigh
    · exact .inl hlow
    · refine .inr (hc.trans (hfirst ?_))
      simp only [pagesize] at *
      omega
  have hstart : sessionStart image c s.startAddress ≤ x := by
    rcases Nat.lt_or_ge s.startAddress 0xFF00 with hlow | hhigh
    · rw [sessionStart_of_low hlow]
      exact max_le hS hx
    · rw [sessionStart_of_high hhigh, hplace.resolve_left (Nat.not_lt.mpr hhigh)]
      exact max_le hS hx
  rw [h.flash_inside hstart hmax, if_pos ⟨rfl, hSpage.symm.trans hpage, hplace⟩]
  exact hzero _

/-- What the highest page loses is erased. -/
theorem Taking.flash_lost {old : Nat → UInt8} {erased : Bool} {c : Nat} {s : Boot}
    (h : Taking image old erased c image.maxaddr s) {x : Nat} (hx : image.minaddr ≤ x)
    (hhigh : 0xFF00 ≤ x) (hxc : x < c) : (conclude s).flash x = 0xFF := by
  have haligned := h.session.aligned
  have hle := h.session.le
  have hlt := h.session.lt
  have hcmax := h.lt
  have hS : s.startAddress = 0xFF00 := by
    simp only [pagesize] at *
    omega
  refine (h.flash_outside hx (hxc.trans hcmax) (hS.trans_le hhigh) ?_).2.2
  rw [sessionStart_of_high hS.ge]
  exact lt_of_lt_of_le hxc (le_max_right _ _)

/-- What follows when the flash holds the image, whatever it held before. -/
theorem Fitting.of_flashed {noises : List Noise} (hheard : Heard image noises)
    (hend : position image noises = image.maxaddr) (h : Flashed image noises) :
    Fitting image noises := by
  have hnonempty := image.nonempty
  have hwithin : image.maxaddr ≤ 65536 := by
    by_contra hlong
    have habove : Above (fun a => image.memory a + 1)
        (begin (fun a => image.memory a + 1) fun _ => 0) :=
      ⟨show 0xFFFF < 65536 by decide, fun _ _ => rfl⟩
    have htransfer : Above (fun a => image.memory a + 1)
        (transfer image (begin (fun a => image.memory a + 1) fun _ => 0) noises).1 :=
      habove.transfer noises
    have hflash := htransfer.write.flash (image.maxaddr - 1) (by omega)
    have hheld := (h (fun a => image.memory a + 1) fun _ => 0).1 (image.maxaddr - 1) (by omega)
      (by omega)
    have heq : image.memory (image.maxaddr - 1) + 1 = image.memory (image.maxaddr - 1) :=
      hflash.symm.trans hheld
    have hnat := congrArg UInt8.toNat heq
    rw [UInt8.toNat_add, UInt8.toNat_one] at hnat
    have hlt := (image.memory (image.maxaddr - 1)).toNat_lt
    omega
  obtain ⟨c, htaking⟩ : ∃ c, Taking image (fun _ => 0) (firstErased image noises) c image.maxaddr
      (transfer image (begin (fun _ => 0) fun _ => 0) noises).1 := by
    rcases transfer_state hwithin (fun _ => 0) (fun _ => 0) hheard with ⟨hmin, -⟩ | ⟨-, hc⟩
    · omega
    · rwa [hend] at hc
  have hheld := (h (fun _ => 0) fun _ => 0).1
  refine ⟨hwithin, ?_, fun a ha hhigh hlast => ?_⟩
  · by_contra hnone
    rw [not_or, not_or, Bool.not_eq_true] at hnone
    obtain ⟨herased, hzero, hagain⟩ := hnone
    rw [herased] at htaking
    refine hzero fun a ha hmax hpage => ?_
    rw [← hheld a ha hmax]
    refine htaking.flash_cleared (fun hhigh => ?_) ha hmax hpage
    by_contra hne
    exact hagain ⟨hhigh, hne⟩
  · have hc := htaking.last
    rw [← hheld a ha (by have := htaking.lt; omega)]
    exact htaking.flash_lost ha hhigh (hc ▸ hlast)

/-- **When a transfer is right**: the image ends within 64 KiB, its first page is erased, and the
highest page is not begun anew, but for bytes that need no programming. -/
theorem flashed_iff {noises : List Noise} (hheard : Heard image noises)
    (hend : position image noises = image.maxaddr) :
    Flashed image noises ↔ Fitting image noises := by
  refine ⟨Fitting.of_flashed hheard hend, fun hfit flash buffer => ?_⟩
  have hnonempty := image.nonempty
  rcases transfer_state hfit.within flash buffer hheard with ⟨hmin, -⟩ | ⟨-, c, htaking⟩
  · omega
  · rw [hend] at htaking
    exact ⟨fun a ha hmax => htaking.fits hfit ha hmax, htaking.touched⟩

/-! ## A word -/

/-- An image of one word. -/
def oneWord : Image := ⟨fun _ => 0x12, 0, 2, rfl, by decide, by decide⟩

theorem heard_intact : Heard oneWord [fun _ => 0] := by
  intro before noise after heq
  obtain ⟨rfl, rfl, -⟩ : before = [] ∧ noise = (fun _ => 0) ∧ after = [] := by
    cases before with
    | nil => exact ⟨rfl, (List.cons.inj heq).1.symm, (List.cons.inj heq).2.symm⟩
    | cons b bs => exact absurd (List.cons.inj heq).2 (by simp)
  exact .inl (by decide)

/-- A word that arrives as it was sent is in the flash. -/
theorem flashed_oneWord : Flashed oneWord [fun _ => 0] :=
  (flashed_iff heard_intact (by decide)).mpr
    ⟨by decide, .inl (by decide), fun a _ _ hlast => absurd hlast (Nat.not_lt_zero a)⟩

/-- A word whose first byte is changed, and that is sent again: its page is not erased. -/
theorem not_flashed_resent :
    Heard oneWord [fun i => if i = 0 then 1 else 0, fun _ => 0] ∧
      position oneWord [fun i => if i = 0 then 1 else 0, fun _ => 0] = oneWord.maxaddr ∧
      ¬ Flashed oneWord [fun i => if i = 0 then 1 else 0, fun _ => 0] := by
  have hheard : Heard oneWord [fun i => if i = 0 then 1 else 0, fun _ => 0] := by
    intro before noise after heq
    cases before with
    | nil =>
      obtain ⟨rfl, -⟩ := List.cons.inj heq
      refine .inr fun l hl => ?_
      obtain rfl : l = ⟨2, 0, 0, 0, [0x13, 0x12], 0xda⟩ := (Option.some.inj hl).symm
      decide
    | cons b bs =>
      obtain ⟨rfl, htail⟩ := List.cons.inj heq
      cases bs with
      | nil =>
        obtain ⟨rfl, -⟩ := List.cons.inj htail
        exact .inl (by decide)
      | cons b' bs => exact absurd (List.cons.inj htail).2 (by simp)
  have hend : position oneWord [fun i => if i = 0 then 1 else 0, fun _ => 0] = oneWord.maxaddr := by
    decide
  refine ⟨hheard, hend, fun h => ?_⟩
  rcases (Fitting.of_flashed hheard hend h).first with he | hz | hhigh
  · exact absurd he (by decide)
  · exact absurd (hz 0 (by decide) (by decide) rfl) (by decide)
  · exact absurd hhigh.1 (by decide)

end Hexabus.Firmware.UsbBootloader
