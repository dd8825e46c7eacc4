import Hexabus.Firmware.RadioBootloader
import Hexabus.Firmware.UsbSessions

/-!
# Lines of the radio bootloader

A line that came as it was sent is read back from the buffer, and its words are put down one after
the other. The addresses that have been given hold what a memory says: those of the present page in
the page buffer, and the others in the flash.
-/

namespace Hexabus.Firmware.RadioBootloader

open UsbBootloader (pagesize bootErasePage bootWritePage bootWriteBuffer bootStart leave)

/-! ## Reading a line -/

/-- The bytes of a line stand behind a position of the buffer. -/
def Spelled (buffer : Nat → UInt8) (pos : Nat) (r : Record) : Prop :=
  ∀ i (h : i < r.bytes.length), buffer (pos + 1 + i) = r.bytes[i]

theorem length_bytes (r : Record) : r.bytes.length = r.data.length + 6 := by
  simp [Record.bytes, Record.head]

theorem Spelled.at {buffer : Nat → UInt8} {pos : Nat} {r : Record} (h : Spelled buffer pos r)
    (i : Nat) {b : UInt8} (hb : r.bytes[i]? = some b) : buffer (pos + (i + 1)) = b := by
  obtain ⟨hlt, hget⟩ := List.getElem?_eq_some_iff.mp hb
  rw [← hget, ← h i hlt]
  congr 1
  omega

theorem Spelled.data {buffer : Nat → UInt8} {pos : Nat} {r : Record} (h : Spelled buffer pos r)
    (i : Nat) (hi : i < r.data.length) : buffer (pos + (6 + i)) = r.data[i] := by
  have hb : r.bytes[i + 5]? = some r.data[i] := by
    simp only [Record.bytes, Record.head, List.cons_append, List.nil_append,
      List.getElem?_cons_succ]
    rw [List.getElem?_append_left hi, List.getElem?_eq_getElem hi]
  rw [← h.at (i + 5) hb]
  congr 1
  omega

theorem Spelled.checksum {buffer : Nat → UInt8} {pos : Nat} {r : Record}
    (h : Spelled buffer pos r) : buffer (pos + (6 + r.data.length)) = r.checksum := by
  have hb : r.bytes[r.data.length + 5]? = some r.checksum := by
    simp only [Record.bytes, Record.head, List.cons_append, List.nil_append,
      List.getElem?_cons_succ]
    rw [List.getElem?_append_right le_rfl, Nat.sub_self]
    rfl
  rw [← h.at (r.data.length + 5) hb]
  congr 1
  omega

/-- The sum that the bootloader computes. -/
theorem Spelled.sum {buffer : Nat → UInt8} {pos : Nat} {r : Record} (h : Spelled buffer pos r) :
    (List.range r.data.length).foldl (fun sum i => sum + buffer (pos + (6 + i)))
      (UInt8.ofNat r.data.length + UInt8.ofNat (r.address / 256) + UInt8.ofNat r.address + r.type) =
      (r.head ++ r.data).foldl (· + ·) 0 := by
  have hdata : (List.range r.data.length).map (fun i => buffer (pos + (6 + i))) = r.data := by
    refine List.ext_getElem (by simp) fun i h₁ h₂ => ?_
    rw [List.getElem_map, List.getElem_range]
    exact h.data i h₂
  rw [List.foldl_append, ← List.foldl_map (f := fun i => buffer (pos + (6 + i)))
    (g := fun sum b => sum + b), hdata]
  congr 1
  simp [Record.head]

/-- What the loop has before it looks at a line's data. -/
def opened (r : Record) (s : Boot) : Boot :=
  { s with
    dataLength := UInt8.ofNat r.data.length
    temp := UInt8.ofNat r.address
    segmentOffset :=
      if r.address % 65536 = 0 ∧ s.startAddress ≠ 0xFFFFFFFF then
        (s.segmentOffset + 0x10000) % 0x100000000
      else s.segmentOffset }

/-- **A line** that came as it was sent. -/
theorem line_eq {s : Boot} {r : Record} (h : Spelled s.buffer s.currentpos r) :
    line s =
      if r.type = 0x01 then ({ opened r s with nextLine := false }, .last)
      else if r.data ≠ [] then
        let t := words (r.address % 65536) ((r.data.length + 1) / 2) 0
          (enter (r.address % 65536) (opened r s))
        ({ t with currentpos := t.currentpos + r.data.length + 6 }, .more)
      else (opened r s, .more) := by
  have h1 : s.buffer (s.currentpos + 1) = 0x3a := h.at 0 rfl
  have h2 : s.buffer (s.currentpos + 2) = UInt8.ofNat r.data.length := h.at 1 rfl
  have h3 : s.buffer (s.currentpos + 3) = UInt8.ofNat (r.address / 256) := h.at 2 rfl
  have h4 : s.buffer (s.currentpos + 4) = UInt8.ofNat r.address := h.at 3 rfl
  have h5 : s.buffer (s.currentpos + 5) = r.type := h.at 4 rfl
  have hlen : (UInt8.ofNat r.data.length).toNat = r.data.length :=
    UInt8.toNat_ofNat_of_lt' r.short
  have hcur : (UInt8.ofNat (r.address / 256)).toNat * 256 + (UInt8.ofNat r.address).toNat =
      r.address % 65536 := by
    rw [UInt8.toNat_ofNat', UInt8.toNat_ofNat']
    omega
  have hzero : UInt8.ofNat r.data.length ≠ 0 ↔ r.data ≠ [] := by
    rw [Ne, ← UInt8.toNat_inj, hlen]
    exact not_congr List.length_eq_zero_iff
  unfold line
  simp only [h1, h2, h3, h4, h5, hlen, hcur, h.sum, h.checksum]
  have hsum : 0xFF - (r.head ++ r.data).foldl (· + ·) 0 + 1 = r.checksum := rfl
  rw [if_neg (by simp), if_pos hsum]
  simp only [hzero]
  rfl

/-! ## Pages -/

section Pages

variable (memory : Nat → UInt8) (D : Nat → Prop) (T : Nat → Prop)

/-- The addresses in `D` hold what the memory says, in the page buffer those of the present page,
which is erased. Only pages in `T` have been touched. -/
structure Holding (s : UsbBootloader.Boot) : Prop where
  aligned : s.startAddress % pagesize = 0
  blank : ∀ x, x / pagesize = s.startAddress / pagesize → s.flash x = 0xFF
  here : ∀ x, D x → x / pagesize = s.startAddress / pagesize → s.temporary (x % pagesize) = memory x
  there : ∀ x, D x → x / pagesize ≠ s.startAddress / pagesize → s.flash x = memory x
  touched : ∀ p ∈ s.touched, T p
  current : T (s.startAddress / pagesize)

variable {memory D T} {s : UsbBootloader.Boot}

theorem Holding.mono (h : Holding memory D T s) {D' : Nat → Prop} (hD : ∀ x, D' x → D x) :
    Holding memory D' T s :=
  ⟨h.aligned, h.blank, fun x hx => h.here x (hD x hx), fun x hx => h.there x (hD x hx), h.touched,
    h.current⟩

/-- Another page is begun, of which nothing is to be held yet. -/
theorem Holding.leave (h : Holding memory D T s) {S' : Nat} (haligned : S' % pagesize = 0)
    (hT : T (S' / pagesize)) (hD : ∀ x, D x → x / pagesize ≠ S' / pagesize) :
    Holding memory D T (leave S' s) := by
  refine ⟨haligned, fun x hx => if_pos hx, fun x hx hpage => absurd hpage (hD x hx),
    fun x hx hne => ?_, fun p hp => ?_, hT⟩
  · rw [UsbBootloader.leave_flash, if_neg (hD x hx)]
    split
    · next hpage =>
      rw [h.blank x hpage, h.here x hx hpage]
      exact UInt8.toBitVec_inj.mp BitVec.allOnes_and
    · next hpage => exact h.there x hx hpage
  · rw [UsbBootloader.leave_touched, List.append_assoc, List.mem_append] at hp
    rcases hp with hp | hp
    · exact h.touched p hp
    · simp only [List.singleton_append, List.mem_cons, List.not_mem_nil, or_false] at hp
      rcases hp with rfl | rfl
      · exact h.current
      · exact hT

/-- The first page is begun. -/
theorem Holding.first (htouched : s.touched = []) {S' : Nat} (haligned : S' % pagesize = 0)
    (hT : T (S' / pagesize)) (hD : ∀ x, ¬ D x) :
    Holding memory D T (bootErasePage S' { s with startAddress := S' }) := by
  refine ⟨haligned, fun x hx => if_pos hx, fun x hx => absurd hx (hD x),
    fun x hx => absurd hx (hD x), fun p hp => ?_, hT⟩
  have hp' : p ∈ s.touched ++ [S' / pagesize] := hp
  rw [htouched, List.nil_append, List.mem_singleton] at hp'
  exact hp' ▸ hT

/-- A word goes to the page buffer. -/
theorem Holding.fill (h : Holding memory D T s) {D' : Nat → Prop} {a base pos : Nat}
    {low high : UInt8} (heven : a % 2 = 0) (hpos : (base + pos) % pagesize = a % pagesize)
    (hpage : a / pagesize = s.startAddress / pagesize) (hlow : low = memory a)
    (hhigh : D' (a + 1) → high = memory (a + 1))
    (hD : ∀ x, D' x → D x ∨ x = a ∨ x = a + 1) :
    Holding memory D' T (bootWriteBuffer base pos low high s) := by
  have hindex : (base + pos) % pagesize / 2 * 2 = a % pagesize := by
    rw [hpos]
    simp only [pagesize]
    omega
  refine ⟨h.aligned, h.blank, fun x hx hxpage => ?_, fun x hx hxpage => ?_, h.touched, h.current⟩
  · show (if x % pagesize = _ then low else if x % pagesize = _ + 1 then high
      else s.temporary (x % pagesize)) = memory x
    have hxpage' : x / pagesize = s.startAddress / pagesize := hxpage
    rw [hindex]
    split
    · next heq =>
      have hxa : x = a := by
        simp only [pagesize] at *
        omega
      rw [hxa, hlow]
    · split
      · next heq =>
        have hxa : x = a + 1 := by
          simp only [pagesize] at *
          omega
        rw [hxa]
        exact hhigh (hxa ▸ hx)
      · next hne₁ hne₂ =>
        refine h.here x (((hD x hx).resolve_right ?_)) hxpage'
        rintro (rfl | rfl)
        · exact hne₁ rfl
        · refine hne₂ ?_
          simp only [pagesize]
          omega
  · have hxpage' : x / pagesize ≠ s.startAddress / pagesize := hxpage
    refine h.there x ((hD x hx).resolve_right ?_) hxpage'
    rintro (rfl | rfl)
    · exact hxpage' hpage
    · refine hxpage' ?_
      rw [← hpage]
      simp only [pagesize]
      omega

theorem Holding.update (h : Holding memory D T s) {b : Nat → UInt8} {k : Nat} :
    Holding memory D T { s with buffer := b, pagePos := k } :=
  ⟨h.aligned, h.blank, h.here, h.there, h.touched, h.current⟩

/-- The last page is written. -/
theorem Holding.finish (h : Holding memory D T s) :
    (∀ x, D x → (bootWritePage s.startAddress s).flash x = memory x) ∧
      ∀ p ∈ (bootWritePage s.startAddress s).touched, T p := by
  refine ⟨fun x hx => ?_, fun p hp => ?_⟩
  · show (if x / pagesize = s.startAddress / pagesize then
      s.flash x &&& s.temporary (x % pagesize) else s.flash x) = memory x
    split
    · next hpage =>
      rw [h.blank x hpage, h.here x hx hpage]
      exact UInt8.toBitVec_inj.mp BitVec.allOnes_and
    · next hpage => exact h.there x hx hpage
  · have hp' : p ∈ s.touched ++ [s.startAddress / pagesize] := hp
    rcases List.mem_append.mp hp' with hp' | hp'
    · exact h.touched p hp'
    · exact List.mem_singleton.mp hp' ▸ h.current

end Pages

/-! ## The words of a line -/

/-- Some bytes from an address on. -/
def Within (a n x : Nat) : Prop := a ≤ x ∧ x < a + n

/-- The variables that the words of a line leave as they are. -/
structure Keeps (s t : Boot) : Prop where
  buffer : t.buffer = s.buffer
  segmentOffset : t.segmentOffset = s.segmentOffset
  currentpos : t.currentpos = s.currentpos
  l : t.l = s.l
  nextLine : t.nextLine = s.nextLine

/-- No line with data has been taken. -/
structure Fresh (s : Boot) : Prop where
  startAddress : s.startAddress = 0xFFFFFFFF
  pagePos : s.pagePos = 0
  touched : s.touched = []
  segmentOffset : s.segmentOffset = 0

/-- The buffer and the packets do not matter to it. -/
theorem Fresh.congr {s t : Boot} {b : Nat → UInt8} (h : Fresh s)
    (hboot : t.toBoot = { s.toBoot with buffer := b }) (hseg : t.segmentOffset = s.segmentOffset) :
    Fresh t := by
  refine ⟨?_, ?_, ?_, hseg.trans h.segmentOffset⟩
  · rw [hboot]
    exact h.startAddress
  · rw [hboot]
    exact h.pagePos
  · rw [hboot]
    exact h.touched

section Words

variable {memory : Nat → UInt8} {D : Nat → Prop} {T : Nat → Prop} {s : Boot} {a : Nat}

/-- Where a line with data begins. -/
structure Entered (memory : Nat → UInt8) (D : Nat → Prop) (T : Nat → Prop) (a : Nat)
    (s t : Boot) : Prop where
  holding : Holding memory D T t.toBoot
  startAddress : t.startAddress = pagesize * (a / pagesize)
  pagePos : t.pagePos = a % pagesize
  keeps : Keeps s t

theorem enter_fresh (h : Fresh s) (hT : T (a / pagesize)) (hD : ∀ x, ¬ D x) :
    Entered memory D T a s (enter a s) := by
  have henter : enter a s =
      { s with
        toBoot := { bootErasePage (pagesize * (a / pagesize))
            { s.toBoot with startAddress := pagesize * (a / pagesize) } with
          pagePos := (a + s.segmentOffset - pagesize * (a / pagesize)) % 65536 }
        temp := UInt8.ofNat (a / pagesize) } := by
    unfold enter
    rw [if_pos h.startAddress]
    simp only [h.pagePos, if_pos]
    rfl
  have hdiv : pagesize * (a / pagesize) / pagesize = a / pagesize :=
    Nat.mul_div_cancel_left _ (by decide)
  rw [henter]
  refine ⟨(Holding.first h.touched (Nat.mul_mod_right _ _) (hdiv.symm ▸ hT) hD).update, rfl, ?_,
    ⟨rfl, rfl, rfl, rfl, rfl⟩⟩
  show (a + s.segmentOffset - pagesize * (a / pagesize)) % 65536 = a % pagesize
  rw [h.segmentOffset]
  simp only [pagesize]
  omega

theorem enter_held (h : Holding memory D T s.toBoot) (hT : ∀ p, T p → p * pagesize < bootStart)
    (hseg : s.segmentOffset = 65536 * (a / 65536)) (ha : T (a / pagesize))
    (hpage : s.startAddress / pagesize = a / pagesize ∨ ∀ x, D x → x / pagesize ≠ a / pagesize) :
    Entered memory D T a s (enter (a % 65536) s) := by
  have haligned := h.aligned
  have hstart := hT _ h.current
  have habove := hT _ ha
  have hsum : a % 65536 + s.segmentOffset = a := by omega
  have hne : s.startAddress ≠ 0xFFFFFFFF := by
    simp only [pagesize, bootStart] at *
    omega
  have hout : (s.startAddress > a ∨ (s.startAddress + pagesize) % 0x100000000 ≤ a) ↔
      s.startAddress / pagesize ≠ a / pagesize := by
    simp only [pagesize, bootStart] at *
    omega
  have hS' : s.segmentOffset + pagesize * (a % 65536 / pagesize) = pagesize * (a / pagesize) := by
    simp only [pagesize] at *
    omega
  have hdiv : pagesize * (a / pagesize) / pagesize = a / pagesize :=
    Nat.mul_div_cancel_left _ (by decide)
  have hpos : (a - pagesize * (a / pagesize)) % 65536 = a % pagesize := by
    simp only [pagesize]
    omega
  unfold enter
  simp only [hsum, if_neg hne, hout, hS']
  by_cases hstay : s.startAddress / pagesize = a / pagesize
  · have hS : s.startAddress = pagesize * (a / pagesize) := by
      simp only [pagesize] at *
      omega
    rw [if_neg (not_not.mpr hstay)]
    have hp : (a - s.startAddress) % 65536 = a % pagesize := by rw [hS, hpos]
    exact ⟨h.update, hS, hp, ⟨rfl, rfl, rfl, rfl, rfl⟩⟩
  · rw [if_pos hstay]
    refine ⟨Holding.update (s := leave (pagesize * (a / pagesize)) s.toBoot)
      (h.leave (Nat.mul_mod_right _ _) (hdiv.symm ▸ ha) ?_), rfl, hpos,
      ⟨rfl, rfl, rfl, rfl, rfl⟩⟩
    rw [hdiv]
    exact hpage.resolve_left hstay

/-- Along the words of a line that begins at `a` and has `n` bytes: those before `i` are held. -/
structure Filling (memory : Nat → UInt8) (D : Nat → Prop) (T : Nat → Prop) (a n i : Nat)
    (s t : Boot) : Prop where
  holding : Holding memory (fun x => D x ∨ Within a (min i n) x) T t.toBoot
  first : a / pagesize ≤ t.startAddress / pagesize
  le : a + i ≤ t.startAddress + pagesize
  pagePos : t.pagePos = a + i - t.startAddress
  start : t.startAddress ≤ a + i
  keeps : Keeps s t

theorem Entered.filling {t : Boot} (h : Entered memory D T a s t) (n : Nat) :
    Filling memory D T a n 0 s t := by
  have hS := h.startAddress
  have hpos := h.pagePos
  refine ⟨h.holding.mono fun x hx => hx.resolve_right fun hw => ?_, ?_, ?_, ?_, ?_, h.keeps⟩
  · rw [Nat.zero_min] at hw
    exact absurd hw.2 (Nat.not_lt.mpr hw.1)
  · rw [hS, Nat.mul_div_cancel_left _ (by decide)]
  · simp only [pagesize] at *
    omega
  · simp only [pagesize] at *
    omega
  · simp only [pagesize] at *
    omega

variable {n i : Nat} {t : Boot}

/-- The page that a word goes to. -/
theorem Filling.turn (h : Filling memory D T a n i s t)
    (hseg : s.segmentOffset = 65536 * (a / 65536)) (hlow : a + n < 0x100000000) (hi : i < n) (hn : n < 256)
    (hT : ∀ x, Within a n x → T (x / pagesize))
    (hD : ∀ x, D x → x / pagesize = a / pagesize ∨ x / pagesize ≠ (a + n - 1) / pagesize) :
    Filling memory D T a n i s (turn (a % 65536) i t) ∧
      a + i < (turn (a % 65536) i t).startAddress + pagesize := by
  have haligned := h.holding.aligned
  have hfirst := h.first
  have hle := h.le
  have hstart := h.start
  have hpos := h.pagePos
  rcases Nat.lt_or_ge t.pagePos pagesize with hroom | hfull
  · rw [RadioBootloader.turn, if_neg (Nat.not_le.mpr hroom)]
    refine ⟨h, ?_⟩
    omega
  · -- the next page begins where the one that is full has ended
    have hsum : (t.segmentOffset + a % 65536 + i) % 0x100000000 = a + i := by
      rw [h.keeps.segmentOffset, hseg]
      omega
    have hturn : RadioBootloader.turn (a % 65536) i t =
        { t with toBoot := leave (a + i) t.toBoot } := by
      rw [RadioBootloader.turn, if_pos hfull]
      simp only [hsum]
      rfl
    rw [hturn]
    have hend : a + i = t.startAddress + pagesize := by omega
    refine ⟨⟨h.holding.leave ?_ (hT _ ⟨Nat.le_add_right _ _, by omega⟩) ?_, ?_, ?_, ?_, le_rfl,
      ⟨h.keeps.buffer, h.keeps.segmentOffset, h.keeps.currentpos, h.keeps.l,
        h.keeps.nextLine⟩⟩, ?_⟩
    · simp only [pagesize] at *
      omega
    · rintro x (hx | hx) hpage
      · have hxD := hD x hx
        simp only [pagesize] at *
        omega
      · obtain ⟨h₁, h₂⟩ := hx
        simp only [pagesize] at *
        omega
    · show a / pagesize ≤ (a + i) / pagesize
      exact Nat.div_le_div_right (Nat.le_add_right _ _)
    · exact Nat.le_add_right (a + i) pagesize
    · exact (Nat.sub_self (a + i)).symm
    · exact Nat.lt_add_of_pos_right (by decide)

/-- What a line with data finds: its place, and its bytes in the buffer. -/
structure Placed (memory : Nat → UInt8) (D : Nat → Prop) (T : Nat → Prop) (a n : Nat) (s : Boot) :
    Prop where
  segment : s.segmentOffset = 65536 * (a / 65536)
  even : a % 2 = 0
  low : a + n < 0x100000000
  short : n < 256
  pages : ∀ x, Within a n x → T (x / pagesize)
  next : ∀ x, D x → x / pagesize = a / pagesize ∨ x / pagesize ≠ (a + n - 1) / pagesize
  tail : n % 2 = 1 → ¬ D (a + n)
  buffer : ∀ j < n, s.buffer (s.currentpos + (6 + j)) = memory (a + j)

/-- **A word** of the line is taken. -/
theorem Filling.word (h : Filling memory D T a n i s t) (hs : Placed memory D T a n s)
    (hi : i < n) (hi2 : i % 2 = 0) :
    Filling memory D T a n (i + 2) s (word (a % 65536) i t) ∧
      (word (a % 65536) i t).startAddress < a + i + 2 := by
  obtain ⟨hturn, hroom⟩ := h.turn hs.segment hs.low hi hs.short hs.pages hs.next
  obtain ⟨u, hu⟩ : ∃ u, RadioBootloader.turn (a % 65536) i t = u := ⟨_, rfl⟩
  have hword : RadioBootloader.word (a % 65536) i t =
      { u with
        toBoot := { bootWriteBuffer (a % 65536) i (u.buffer (u.currentpos + 6 + i))
          (u.buffer (u.currentpos + 6 + i + 1)) u.toBoot with pagePos := (u.pagePos + 2) % 65536 }
        temp := u.buffer (u.currentpos + 6 + i + 1) } := by
    rw [← hu]
    rfl
  rw [hu] at hturn hroom
  have heven := hs.even
  have hshort := hs.short
  have haligned := hturn.holding.aligned
  have hstart := hturn.start
  have hpos := hturn.pagePos
  have hbuffer : ∀ j < n, u.buffer (u.currentpos + (6 + j)) = memory (a + j) := fun j hj => by
    rw [hturn.keeps.buffer, hturn.keeps.currentpos, hs.buffer j hj]
  rw [hword]
  refine ⟨⟨Holding.update (hturn.holding.fill (a := a + i) (by omega) ?_ ?_ ?_ ?_ ?_), hturn.first,
    ?_, ?_, ?_, ⟨hturn.keeps.buffer, hturn.keeps.segmentOffset, hturn.keeps.currentpos,
      hturn.keeps.l, hturn.keeps.nextLine⟩⟩, ?_⟩
  · simp only [pagesize]
    omega
  · simp only [pagesize] at *
    omega
  · rw [Nat.add_assoc]
    exact hbuffer i hi
  · -- behind the last byte of an odd line comes the checksum, for an address that is not held
    intro hD
    have hnext : i + 1 < n := by
      by_contra hend
      obtain rfl : n = i + 1 := by omega
      rcases hD with hD | hD
      · exact hs.tail (by omega) hD
      · have hD2 := hD.2
        omega
    rw [Nat.add_assoc, Nat.add_assoc]
    exact hbuffer (i + 1) hnext
  · rintro x (hx | hx)
    · exact .inl (.inl hx)
    · obtain ⟨h₁, h₂⟩ := hx
      by_cases hold : x < a + i
      · exact .inl (.inr ⟨h₁, by omega⟩)
      · omega
  · show a + (i + 2) ≤ u.startAddress + pagesize
    simp only [pagesize] at *
    omega
  · show (u.pagePos + 2) % 65536 = a + (i + 2) - u.startAddress
    simp only [pagesize] at *
    omega
  · show u.startAddress ≤ a + (i + 2)
    omega
  · show u.startAddress < a + i + 2
    omega

/-- The words of the line are taken. -/
theorem Filling.words (h : Filling memory D T a n i s t) (hs : Placed memory D T a n s) {k : Nat}
    (hi2 : i % 2 = 0) (hk : i + 2 * k = (n + 1) / 2 * 2) :
    Filling memory D T a n (i + 2 * k) s (words (a % 65536) k i t) ∧
      (0 < k → (words (a % 65536) k i t).startAddress < a + i + 2 * k) := by
  induction k generalizing i t with
  | zero => exact ⟨h, fun h => absurd h (Nat.lt_irrefl 0)⟩
  | succ k ih =>
    obtain ⟨hword, hlt⟩ := h.word hs (by omega) hi2
    obtain ⟨hnext, hbegun⟩ := ih hword (by omega) (by omega)
    rw [show i + 2 * (k + 1) = i + 2 + 2 * k by omega]
    refine ⟨hnext, fun _ => ?_⟩
    rcases Nat.eq_zero_or_pos k with rfl | hk
    · show (RadioBootloader.word (a % 65536) i t).startAddress < _
      omega
    · have hpos := hbegun hk
      show (RadioBootloader.words (a % 65536) k (i + 2)
        (RadioBootloader.word (a % 65536) i t)).startAddress < _
      omega

/-- **The words of a line**: it is held behind them, and its last page is the present one. -/
theorem Entered.words (h : Entered memory D T a s t) (hs : Placed memory D T a n s) (hn : 0 < n) :
    Holding memory (fun x => D x ∨ Within a n x) T (words (a % 65536) ((n + 1) / 2) 0 t).toBoot ∧
      (words (a % 65536) ((n + 1) / 2) 0 t).startAddress / pagesize = (a + n - 1) / pagesize ∧
      Keeps s (words (a % 65536) ((n + 1) / 2) 0 t) := by
  obtain ⟨hwords, hbegun⟩ := (h.filling n).words hs (k := (n + 1) / 2) rfl (by omega)
  obtain ⟨u, hu⟩ : ∃ u, RadioBootloader.words (a % 65536) ((n + 1) / 2) 0 t = u := ⟨_, rfl⟩
  rw [hu] at hwords hbegun ⊢
  refine ⟨hwords.holding.mono fun x hx => hx.imp id fun hw => ?_, ?_, hwords.keeps⟩
  · rwa [show min (0 + 2 * ((n + 1) / 2)) n = n by omega]
  · have haligned := hwords.holding.aligned
    have hle := hwords.le
    have hstart := hbegun (by omega)
    have heven := hs.even
    simp only [pagesize] at *
    omega

end Words

end Hexabus.Firmware.RadioBootloader
