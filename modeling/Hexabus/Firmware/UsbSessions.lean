import Hexabus.Firmware.UsbBootloader
import Mathlib.Order.Lattice

/-!
# Pages of a transfer

What the bootloader holds between two words of an image that ends within 64 KiB: the pages that
have been left are written, and the words of the present one are in the page buffer. The page of
the highest addresses is special: its end wraps around to zero, so each line erases it again.
-/

namespace Hexabus.Firmware.UsbBootloader

variable (image : Image) (old : Nat → UInt8) (erased : Bool)

/-- The first address that is in the temporary buffer of the page at `S`, when the last line began
at `c`. -/
def sessionStart (c S : Nat) : Nat := if S < 0xFF00 then max S image.minaddr else max S c

/-- The page at `S` has not been erased: it is the first one, and it was not begun anew. -/
def Bare (c S : Nat) : Prop :=
  erased = false ∧ S / pagesize = image.minaddr / pagesize ∧ (S < 0xFF00 ∨ c = image.minaddr)

instance (c S : Nat) : Decidable (Bare image erased c S) :=
  inferInstanceAs (Decidable (_ ∧ _ ∧ _))

/-- What an image's byte is in a page that has been left. -/
def held (x : Nat) : UInt8 :=
  if erased = false ∧ x / pagesize = image.minaddr / pagesize then old x &&& image.memory x
  else image.memory x

/-- The words below `a` have gone to the page buffer, or to the pages before. -/
structure Session (c a : Nat) (s : Boot) : Prop where
  aligned : s.startAddress % pagesize = 0
  lt : s.startAddress < 65536
  first : image.minaddr < s.startAddress + pagesize
  start : sessionStart image c s.startAddress ≤ a
  le : a ≤ s.startAddress + pagesize
  inside : ∀ x, sessionStart image c s.startAddress ≤ x → x < a → x < image.maxaddr →
    s.temporary (x % pagesize) = image.memory x
  outside : ∀ i < pagesize,
    s.startAddress + i < sessionStart image c s.startAddress ∨ a ≤ s.startAddress + i →
    s.temporary i = 0xFF
  bare : Bare image erased c s.startAddress →
    ∀ x, x / pagesize = s.startAddress / pagesize → s.flash x = old x
  cleared : ¬ Bare image erased c s.startAddress →
    ∀ x, x / pagesize = s.startAddress / pagesize → s.flash x = 0xFF
  done : ∀ x, image.minaddr ≤ x → x < s.startAddress → s.flash x = held image old erased x
  touched : ∀ p ∈ s.touched,
    image.minaddr / pagesize ≤ p ∧ p ≤ s.startAddress / pagesize

variable {image old erased}

theorem sessionStart_le (c S : Nat) : S ≤ sessionStart image c S := by
  unfold sessionStart
  split <;> exact Nat.le_max_left _ _

theorem sessionStart_of_low {c S : Nat} (hS : S < 0xFF00) :
    sessionStart image c S = max S image.minaddr := if_pos hS

theorem sessionStart_of_high {c S : Nat} (hS : 0xFF00 ≤ S) :
    sessionStart image c S = max S c := if_neg (Nat.not_lt.mpr hS)

/-! ## Leaving a page -/

/-- The page at `S` is written, and the one at `S'` is erased. -/
def leave (S' : Nat) (s : Boot) : Boot :=
  bootErasePage S' { bootWritePage s.startAddress s with startAddress := S', pagePos := 0 }

theorem leave_flash (S' : Nat) (s : Boot) (x : Nat) :
    (leave S' s).flash x =
      if x / pagesize = S' / pagesize then 0xFF
      else if x / pagesize = s.startAddress / pagesize then
        s.flash x &&& s.temporary (x % pagesize)
      else s.flash x := rfl

theorem leave_touched (S' : Nat) (s : Boot) :
    (leave S' s).touched = s.touched ++ [s.startAddress / pagesize] ++ [S' / pagesize] := rfl

/-- What a page that is left holds at an image's address. -/
theorem Session.written {c a : Nat} {s : Boot} (h : Session image old erased c a s)
    (hlow : s.startAddress < 0xFF00) {x : Nat} (hx : image.minaddr ≤ x) (hS : s.startAddress ≤ x)
    (hxa : x < a) (hmax : x < image.maxaddr) :
    s.flash x &&& s.temporary (x % pagesize) = held image old erased x := by
  have hpage : x / pagesize = s.startAddress / pagesize := by
    have hle := h.le
    have haligned := h.aligned
    simp only [pagesize] at *
    omega
  have hstart : sessionStart image c s.startAddress ≤ x := by
    rw [sessionStart_of_low hlow]
    exact max_le hS hx
  rw [h.inside x hstart hxa hmax, held, hpage]
  by_cases hbare : Bare image erased c s.startAddress
  · rw [h.bare hbare x hpage, if_pos ⟨hbare.1, hbare.2.1⟩]
  · rw [h.cleared hbare x hpage, if_neg fun hb => hbare ⟨hb.1, hb.2, .inl hlow⟩]
    exact UInt8.toBitVec_inj.mp (BitVec.allOnes_and)

/-- A page other than the highest one is left for the next one. -/
theorem Session.left {c a : Nat} {s : Boot} (h : Session image old erased c a s)
    (ha : a = s.startAddress + pagesize) (hlt : a < 65536) (hmax : a ≤ image.maxaddr) {d : Nat}
    (hd : d ≤ a) : Session image old erased d a (leave a s) := by
  have haligned := h.aligned
  have hfirst := h.first
  have hlow : s.startAddress < 0xFF00 := by
    simp only [pagesize] at *
    omega
  have hstart : sessionStart image d a = a := by
    by_cases hlast : a < 0xFF00
    · rw [sessionStart_of_low hlast]
      omega
    · rw [sessionStart_of_high (by omega)]
      omega
  have hbare : ¬ Bare image erased d a := by
    rintro ⟨-, hpage, -⟩
    simp only [pagesize] at *
    omega
  refine ⟨?_, hlt, ?_, hstart.le, Nat.le_add_right _ _, ?_, fun _ _ _ => rfl,
    fun hb => absurd hb hbare, fun _ x hx => if_pos hx, fun x hx hxS => ?_, fun p hp => ?_⟩
  · show a % pagesize = 0
    simp only [pagesize] at *
    omega
  · show image.minaddr < a + pagesize
    omega
  · intro x hx hxa
    have hx' : sessionStart image d a ≤ x := hx
    omega
  · have hxS' : x < a := hxS
    have hne : x / pagesize ≠ a / pagesize := by
      simp only [pagesize] at *
      omega
    rw [leave_flash, if_neg hne]
    split
    · next hpage =>
      refine h.written hlow hx ?_ hxS' (by omega)
      simp only [pagesize] at *
      omega
    · next hpage =>
      refine h.done x hx ?_
      simp only [pagesize] at *
      omega
  · rw [leave_touched, List.append_assoc, List.mem_append] at hp
    show _ ∧ p ≤ a / pagesize
    rcases hp with hp | hp
    · have hle := h.touched p hp
      simp only [pagesize] at *
      omega
    · simp only [List.mem_append, List.mem_singleton, pagesize] at *
      omega

/-- The highest page is begun anew by a line within it. -/
theorem Session.again {c a : Nat} {s : Boot} (h : Session image old erased c a s)
    (hS : s.startAddress = 0xFF00) (hlt : a < 65536) (hmin : image.minaddr < a) :
    Session image old erased a a (UsbBootloader.leave 0xFF00 s) := by
  have hle : 0xFF00 ≤ a := by
    rw [← hS]
    exact (sessionStart_le c s.startAddress).trans h.start
  have hstart : sessionStart image a 0xFF00 = a := by
    rw [sessionStart_of_high le_rfl]
    omega
  have hbare : ¬ Bare image erased a 0xFF00 := by
    rintro ⟨-, -, hlow | hmin'⟩ <;> omega
  have hfirst := h.first
  rw [hS] at hfirst
  have haligned : 0xFF00 % pagesize = 0 := by decide
  have hhigh : 0xFF00 < 65536 := by decide
  refine ⟨haligned, hhigh, hfirst, hstart.le, ?_, ?_, fun _ _ _ => rfl,
    fun hb => absurd hb hbare, fun _ x hx => if_pos hx, fun x hx hxS => ?_, fun p hp => ?_⟩
  · show a ≤ 0xFF00 + pagesize
    simp only [pagesize]
    omega
  · intro x hx hxa
    have hx' : sessionStart image a 0xFF00 ≤ x := hx
    omega
  · have hxS' : x < 0xFF00 := hxS
    have hne : x / pagesize ≠ 0xFF00 / pagesize := by
      simp only [pagesize]
      omega
    rw [leave_flash, if_neg hne, hS, if_neg hne]
    exact h.done x hx (by rw [hS]; exact hxS')
  · rw [leave_touched, List.append_assoc, List.mem_append] at hp
    show _ ∧ p ≤ 0xFF00 / pagesize
    have hpage : image.minaddr / pagesize ≤ 0xFF00 / pagesize := by
      simp only [pagesize] at *
      omega
    rcases hp with hp | hp
    · have hle := h.touched p hp
      rwa [hS] at hle
    · rw [hS] at hp
      simp only [List.singleton_append, List.mem_cons, List.not_mem_nil, or_false, or_self] at hp
      rw [hp]
      exact ⟨hpage, le_rfl⟩

/-! ## A word -/

/-- A word goes to the page buffer. -/
theorem Session.fill {c a : Nat} {s : Boot} (h : Session image old erased c a s)
    (heven : a % 2 = 0) (hlt : a < s.startAddress + pagesize) {base pos : Nat} (hpos : base + pos = a)
    {low high : UInt8} (hlow : low = image.memory a)
    (hhigh : a + 1 < image.maxaddr → high = image.memory (a + 1)) :
    Session image old erased c (a + 2) (bootWriteBuffer base pos low high s) := by
  have haligned := h.aligned
  have hS := (sessionStart_le c s.startAddress).trans h.start
  have hindex : (base + pos) % pagesize / 2 * 2 = a - s.startAddress := by
    rw [hpos]
    simp only [pagesize] at *
    omega
  refine ⟨h.aligned, h.lt, h.first, h.start.trans (Nat.le_add_right _ _), ?_, fun x hx hxa hmax => ?_,
    fun i hi hout => ?_, h.bare, h.cleared, h.done, h.touched⟩
  · show a + 2 ≤ s.startAddress + pagesize
    simp only [pagesize] at *
    omega
  · show (if x % pagesize = _ then low else if x % pagesize = _ + 1 then high
      else s.temporary (x % pagesize)) = image.memory x
    have hx' : sessionStart image c s.startAddress ≤ x := hx
    have hSx := (sessionStart_le c s.startAddress).trans hx'
    have hmod : x % pagesize = x - s.startAddress := by
      simp only [pagesize] at *
      omega
    rw [hindex, hmod]
    rcases Nat.lt_or_ge x a with hxlt | hxge
    · rw [if_neg (by omega), if_neg (by omega), ← hmod]
      exact h.inside x hx' hxlt hmax
    · rcases hxge.eq_or_lt with rfl | hxgt
      · rw [if_pos rfl, hlow]
      · obtain rfl : x = a + 1 := by omega
        rw [if_neg (by omega), if_pos (by omega), hhigh hmax]
  · show (if i = _ then low else if i = _ + 1 then high else s.temporary i) = 0xFF
    have hout' : s.startAddress + i < sessionStart image c s.startAddress ∨
      a + 2 ≤ s.startAddress + i := hout
    have hstart := h.start
    rw [hindex, if_neg (by omega), if_neg (by omega)]
    exact h.outside i hi (by omega)

/-- The buffer of the line is that of an image's bytes from `c` on. -/
def Holds (image : Image) (c n : Nat) (buffer : Nat → UInt8) : Prop :=
  ∀ i < n, buffer i = image.memory (c + i)

theorem turn_of_full {cur pos : Nat} {s : Boot} (h : pagesize ≤ s.pagePos) :
    turn cur pos s = UsbBootloader.leave ((cur + pos) % 65536) s := if_pos h

/-- A session is about the flash and the page buffer. -/
theorem Session.update {c a : Nat} {s : Boot} {b : Nat → UInt8} {k : Nat}
    (h : Session image old erased c a s) :
    Session image old erased c a { s with buffer := b, pagePos := k } :=
  ⟨h.aligned, h.lt, h.first, h.start, h.le, h.inside, h.outside, h.bare, h.cleared, h.done,
    h.touched⟩

theorem word_eq (cur pos : Nat) (s : Boot) :
    UsbBootloader.word cur pos s =
      { bootWriteBuffer cur pos ((turn cur pos s).buffer pos) ((turn cur pos s).buffer (pos + 1))
          (turn cur pos s) with pagePos := ((turn cur pos s).pagePos + 2) % 65536 } := rfl

/-- The page that a word goes to. -/
theorem Session.turn {c a : Nat} {s : Boot} (h : Session image old erased c a s)
    (hpos : s.pagePos = a - s.startAddress) (hlt : a < image.maxaddr)
    (hmax : image.maxaddr ≤ 65536) (hc : c ≤ a) {i : Nat} (hi : c + i = a) :
    Session image old erased c a (UsbBootloader.turn c i s) ∧
      (UsbBootloader.turn c i s).pagePos = a - (UsbBootloader.turn c i s).startAddress ∧
      a < (UsbBootloader.turn c i s).startAddress + pagesize ∧
      (UsbBootloader.turn c i s).buffer = s.buffer := by
  have hle := h.le
  have hS := (sessionStart_le c s.startAddress).trans h.start
  rcases Nat.lt_or_ge s.pagePos pagesize with hroom | hfull
  · rw [UsbBootloader.turn, if_neg (Nat.not_le.mpr hroom)]
    exact ⟨h, hpos, by omega, rfl⟩
  · have hmod : (c + i) % 65536 = a := by omega
    rw [turn_of_full hfull, hmod]
    refine ⟨h.left (by omega) (by omega) hlt.le hc, ?_, ?_, rfl⟩
    · exact (Nat.sub_self a).symm
    · exact Nat.lt_add_of_pos_right (by decide)

/-- **A word** of the image is taken. -/
theorem Session.word {c a : Nat} {s : Boot} (h : Session image old erased c a s)
    (hpos : s.pagePos = a - s.startAddress) (heven : a % 2 = 0) (hlt : a < image.maxaddr)
    (hmax : image.maxaddr ≤ 65536) (hc : c ≤ a) (hc2 : c % 2 = 0) {i n : Nat} (hi : c + i = a)
    (hn : n = min 16 (image.maxaddr - c)) (hin : i < n) (hbuffer : Holds image c n s.buffer) :
    Session image old erased c (a + 2) (UsbBootloader.word c i s) ∧
      (UsbBootloader.word c i s).pagePos = a + 2 - (UsbBootloader.word c i s).startAddress ∧
      (UsbBootloader.word c i s).startAddress ≤ a ∧
      (UsbBootloader.word c i s).buffer = s.buffer := by
  obtain ⟨hsession, htpos, htlt, htbuffer⟩ := h.turn hpos hlt hmax hc hi
  have hS := (sessionStart_le c (UsbBootloader.turn c i s).startAddress).trans hsession.start
  have hlow : s.buffer i = image.memory a := by rw [hbuffer i hin, hi]
  have hhigh : a + 1 < image.maxaddr → s.buffer (i + 1) = image.memory (a + 1) := fun hnext => by
    rw [hbuffer (i + 1) (by omega), ← Nat.add_assoc, hi]
  rw [word_eq, htbuffer]
  refine ⟨(hsession.fill heven htlt hi hlow hhigh).update, ?_, hS, htbuffer⟩
  show ((UsbBootloader.turn c i s).pagePos + 2) % 65536 =
    a + 2 - (UsbBootloader.turn c i s).startAddress
  simp only [pagesize] at htlt
  omega

/-- The words of a line are taken. -/
theorem Session.words {c : Nat} (hmax : image.maxaddr ≤ 65536) (hc2 : c % 2 = 0) {n : Nat}
    (hn : n = min 16 (image.maxaddr - c)) {k i : Nat} {s : Boot}
    (h : Session image old erased c (c + i) s) (hpos : s.pagePos = c + i - s.startAddress)
    (hi2 : i % 2 = 0) (hk : i + 2 * k ≤ n + 1) (hbuffer : Holds image c n s.buffer) :
    Session image old erased c (c + i + 2 * k) (UsbBootloader.words c k i s) ∧
      (0 < k → (UsbBootloader.words c k i s).startAddress + 2 ≤ c + i + 2 * k) := by
  induction k generalizing i s with
  | zero => exact ⟨h, fun h => absurd h (Nat.lt_irrefl 0)⟩
  | succ k ih =>
    obtain ⟨hword, hwpos, hwstart, hwbuffer⟩ := h.word hpos (by omega) (by omega) hmax
      (Nat.le_add_right c i) hc2 rfl hn (by omega) hbuffer
    have hnext := ih (i := i + 2) (s := UsbBootloader.word c i s) (by rwa [← Nat.add_assoc])
      (by rwa [← Nat.add_assoc]) (by omega) (by omega) (by rwa [hwbuffer])
    have hsum : c + i + 2 * (k + 1) = c + (i + 2) + 2 * k := by omega
    rw [hsum]
    refine ⟨hnext.1, fun _ => ?_⟩
    cases k with
    | zero =>
      show (UsbBootloader.word c i s).startAddress + 2 ≤ _
      omega
    | succ k => exact hnext.2 (Nat.succ_pos k)

/-! ## A line -/

/-- Below the highest page it does not matter where the last line began. -/
theorem Session.of_low {c d a : Nat} {s : Boot} (h : Session image old erased c a s)
    (hlow : s.startAddress < 0xFF00) : Session image old erased d a s := by
  have hstart : sessionStart image d s.startAddress = sessionStart image c s.startAddress := by
    rw [sessionStart_of_low hlow, sessionStart_of_low hlow]
  have hbare : Bare image erased d s.startAddress ↔ Bare image erased c s.startAddress :=
    and_congr_right' (and_congr_right' (iff_of_true (.inl hlow) (.inl hlow)))
  exact ⟨h.aligned, h.lt, h.first, hstart.le.trans h.start, h.le,
    fun x hx => h.inside x (hstart.ge.trans hx), fun i hi hout => h.outside i hi (hstart ▸ hout),
    fun hb => h.bare (hbare.mp hb), fun hb => h.cleared (mt hbare.mpr hb), h.done, h.touched⟩

/-- The page that a line begins in, when it is another than before or the highest one. -/
theorem enter_of_leave {a S' : Nat} {s : Boot} (hne : s.startAddress ≠ 0xFFFF)
    (hleave : s.startAddress > a ∨ (s.startAddress + pagesize) % 65536 ≤ a)
    (hS' : pagesize * (a / pagesize) = S') :
    UsbBootloader.enter a s =
      { leave S' s with pagePos := (a + 65536 - S') % 65536 } := by
  unfold UsbBootloader.enter
  rw [if_neg hne, if_pos hleave, hS']
  rfl

theorem enter_of_stay {a : Nat} {s : Boot} (hne : s.startAddress ≠ 0xFFFF)
    (hstay : ¬ (s.startAddress > a ∨ (s.startAddress + pagesize) % 65536 ≤ a)) :
    UsbBootloader.enter a s = { s with pagePos := (a + 65536 - s.startAddress) % 65536 } := by
  unfold UsbBootloader.enter
  rw [if_neg hne, if_neg hstay]

/-- The line begins within the page, or at the next one, or begins the highest one anew. -/
theorem Session.enter {c a : Nat} {s : Boot} (h : Session image old erased c a s)
    (hlt : a < 65536) (hmax : a ≤ image.maxaddr) (hmin : image.minaddr < a) :
    Session image old erased a a (UsbBootloader.enter a s) ∧
      (UsbBootloader.enter a s).pagePos = a - (UsbBootloader.enter a s).startAddress ∧
      (UsbBootloader.enter a s).buffer = s.buffer := by
  have haligned := h.aligned
  have hS := (sessionStart_le c s.startAddress).trans h.start
  have hle := h.le
  have hSlt := h.lt
  have hne : s.startAddress ≠ 0xFFFF := by
    intro heq
    rw [heq] at haligned
    exact absurd haligned (by decide)
  rcases Nat.lt_or_ge s.startAddress 0xFF00 with hlow | hhigh
  · by_cases hfull : a = s.startAddress + pagesize
    · have hleave : s.startAddress > a ∨ (s.startAddress + pagesize) % 65536 ≤ a :=
        .inr (by rw [← hfull]; exact Nat.mod_le _ _)
      have hS' : pagesize * (a / pagesize) = a := by
        simp only [pagesize] at *
        omega
      rw [enter_of_leave hne hleave hS']
      refine ⟨(h.left hfull hlt hmax le_rfl).update, ?_, rfl⟩
      show (a + 65536 - a) % 65536 = a - a
      omega
    · have hstay : ¬ (s.startAddress > a ∨ (s.startAddress + pagesize) % 65536 ≤ a) := by
        simp only [pagesize] at *
        omega
      rw [enter_of_stay hne hstay]
      refine ⟨(h.of_low hlow).update, ?_, rfl⟩
      show (a + 65536 - s.startAddress) % 65536 = a - s.startAddress
      omega
  · have hlast : s.startAddress = 0xFF00 := by
      simp only [pagesize] at haligned
      omega
    have hleave : s.startAddress > a ∨ (s.startAddress + pagesize) % 65536 ≤ a := by
      rw [hlast]
      exact .inr (Nat.zero_le a)
    have hS' : pagesize * (a / pagesize) = 0xFF00 := by
      simp only [pagesize] at *
      omega
    rw [enter_of_leave hne hleave hS']
    refine ⟨(h.again hlast hlt hmin).update, ?_, rfl⟩
    show (a + 65536 - 0xFF00) % 65536 = a - 0xFF00
    omega

/-- The first line. -/
theorem enter_first {s : Boot} (hflash : s.flash = old) (htemp : ∀ i, s.temporary i = 0xFF)
    (htouched : s.touched = []) (hstart : s.startAddress = 0xFFFF)
    (herased : erased = decide (s.pagePos = 0)) (hmax : image.minaddr < 65536) :
    Session image old erased image.minaddr image.minaddr (UsbBootloader.enter image.minaddr s) ∧
      (UsbBootloader.enter image.minaddr s).pagePos =
        image.minaddr - (UsbBootloader.enter image.minaddr s).startAddress ∧
      (UsbBootloader.enter image.minaddr s).buffer = s.buffer := by
  obtain ⟨S, hS⟩ : ∃ S, pagesize * (image.minaddr / pagesize) = S := ⟨_, rfl⟩
  have hSle : S ≤ image.minaddr := hS ▸ Nat.mul_div_le _ _
  have hSlt : image.minaddr < S + pagesize := by
    rw [← hS]
    simp only [pagesize]
    omega
  have haligned : S % pagesize = 0 := by
    rw [← hS]
    exact Nat.mul_mod_right _ _
  have hpage : S / pagesize = image.minaddr / pagesize := by
    rw [← hS]
    exact Nat.mul_div_cancel_left _ (by decide)
  have hsession : sessionStart image image.minaddr S = image.minaddr := by
    unfold sessionStart
    split <;> omega
  have hbare : Bare image erased image.minaddr S ↔ erased = false :=
    ⟨And.left, fun he => ⟨he, hpage, .inr rfl⟩⟩
  have hdone : ∀ f : Nat → UInt8, ∀ x, image.minaddr ≤ x → x < S →
      f x = held image old erased x := fun _ x hx hxS => by omega
  have hpos : (image.minaddr + 65536 - S) % 65536 = image.minaddr - S := by omega
  have hlt : S < 65536 := by omega
  by_cases hzero : s.pagePos = 0
  · have he : UsbBootloader.enter image.minaddr s =
        { bootErasePage S { s with startAddress := S } with
          pagePos := (image.minaddr + 65536 - S) % 65536 } := by
      unfold UsbBootloader.enter
      rw [if_pos hstart, if_pos hzero, hS]
      rfl
    have hnot : ¬ Bare image erased image.minaddr S := by
      rw [hbare, herased, decide_eq_true hzero]
      decide
    rw [he]
    refine ⟨⟨haligned, hlt, hSlt, hsession.le, hSlt.le, fun x hx hxa _ => ?_, fun _ _ _ => rfl,
      fun hb => absurd hb hnot, fun _ x hx => if_pos hx, hdone _, fun p hp => ?_⟩, hpos, rfl⟩
    · have hx' : sessionStart image image.minaddr S ≤ x := hx
      omega
    · have hp' : p ∈ s.touched ++ [S / pagesize] := hp
      rw [htouched, List.nil_append, List.mem_singleton] at hp'
      show _ ∧ p ≤ S / pagesize
      omega
  · have he : UsbBootloader.enter image.minaddr s =
        { s with startAddress := S, pagePos := (image.minaddr + 65536 - S) % 65536 } := by
      unfold UsbBootloader.enter
      rw [if_pos hstart, if_neg hzero, hS]
    have hbare' : Bare image erased image.minaddr S := by
      rw [hbare, herased, decide_eq_false hzero]
    rw [he]
    refine ⟨⟨haligned, hlt, hSlt, hsession.le, hSlt.le, fun x hx hxa _ => ?_,
      fun i _ _ => htemp i, fun _ x _ => congrFun hflash x, fun hb => absurd hbare' hb, hdone _,
      fun p hp => ?_⟩, hpos, rfl⟩
    · have hx' : sessionStart image image.minaddr S ≤ x := hx
      omega
    · have hp' : p ∈ s.touched := hp
      rw [htouched] at hp'
      exact absurd hp' List.not_mem_nil

end Hexabus.Firmware.UsbBootloader
