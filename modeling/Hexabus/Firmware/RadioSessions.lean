import Hexabus.Firmware.RadioLines
import Hexabus.Lib.Runs

/-!
# Sessions of the radio bootloader

The relay sends an image in packets, and each packet until it is answered. What the bootloader
takes a packet for depends on a byte that the lines before have left, so that an image gets into the
flash in the sessions in which a new packet is never taken for the one before, and one that comes
again is, or does no harm.
-/

namespace Hexabus.Firmware.RadioBootloader

open UsbBootloader (pagesize bootWritePage bootStart)

/-! ## Images -/

/-- An Intel-HEX image: lines whose data are those of a memory, below the bootloader. Lines of
other types carry no data of the image. -/
structure Image where
  memory : Nat → UInt8
  records : List Record
  agrees : ∀ r ∈ records, r.type = 0 → ∀ i (h : i < r.data.length),
    r.data[i] = memory (r.address + i)
  fits : ∀ r ∈ records, r.type = 0 → r.address + r.data.length ≤ bootStart

/-- The image has a byte at an address. -/
def Image.Covers (image : Image) (x : Nat) : Prop :=
  ∃ r ∈ image.records, r.type = 0 ∧ Within r.address r.data.length x

/-- The image has a byte in a page. -/
def Image.HasPage (image : Image) (p : Nat) : Prop := ∃ x, image.Covers x ∧ x / pagesize = p

/-- The last line of a file. -/
def endOfFile : Record := ⟨0, 1, [], by decide⟩

/-- The relay has read its first lines, and the bootloader waits for a packet. -/
def start (image : Image) (boot : Boot) : Session :=
  ⟨.next (image.records ++ [endOfFile]), boot, [], false⟩

/-- The flash holds the image, and nothing else has been touched. -/
structure Flashed (image : Image) (s : Boot) : Prop where
  holds : ∀ x, image.Covers x → s.flash x = image.memory x
  touched : ∀ p ∈ s.touched, image.HasPage p
  below : ∀ p ∈ s.touched, p * pagesize + pagesize ≤ bootStart

/-! ## Conditions -/

/-- The page that a line begins in. -/
def firstPage (r : Record) : Nat := r.address / pagesize

/-- The page that a line ends in. -/
def lastPage (r : Record) : Nat := (r.address + r.data.length - 1) / pagesize

/-- The pages of some lines, in their order. (A line lies in one page or two.) -/
def pages (records : List Record) : List Nat := records.flatMap fun r => [firstPage r, lastPage r]

/-- No value comes again after another one. -/
def Stretched : List Nat → Prop
  | [] => True
  | [_] => True
  | p :: q :: rest => (p = q ∨ p ∉ q :: rest) ∧ Stretched (q :: rest)

/-- The lines behind the first one whose 16-bit address is zero. -/
def wraps (records : List Record) : Nat := records.tail.countP fun r => r.address % 65536 = 0

/-- What the bootloader takes for granted of an image: there are lines, all of type 0, at even
addresses, and no line ends within a word of which another line has the second byte; the lines of a
page come together; and behind the first line, an address that is zero in 16 bits begins a new
segment, and nothing else does. -/
structure Fitting (image : Image) : Prop where
  nonempty : image.records ≠ []
  types : ∀ r ∈ image.records, r.type = 0
  even : ∀ r ∈ image.records, r.address % 2 = 0
  ends : ∀ r ∈ image.records, r.data.length % 2 = 1 → ¬ image.Covers (r.address + r.data.length)
  stretched : Stretched (pages image.records)
  segments : ∀ k (h : k < image.records.length),
    image.records[k].address / 65536 = wraps (image.records.take (k + 1))

/-- A packet may be taken again behind some lines: its last page is that of its first line, or no
line before it has a byte in that page; and no address is zero in 16 bits. -/
def Repeatable (before : List Record) : List Record → Prop
  | [] => True
  | r :: rest =>
    (∀ x ∈ r :: rest, x.address % 65536 ≠ 0) ∧
      (firstPage r = lastPage ((r :: rest).getLast (List.cons_ne_nil _ _)) ∨
        firstPage r ∉ pages before)

instance (before : List Record) : (packet : List Record) → Decidable (Repeatable before packet)
  | [] => inferInstanceAs (Decidable True)
  | _ :: _ => inferInstanceAs (Decidable (_ ∧ _))

/-- A packet that is in the buffer behind some lines, and has been taken: it is recognised, or may
be taken again. -/
def Harmless (before packet : List Record) (s : Boot) : Prop :=
  Recognised s ∨ Repeatable before packet

instance (before packet : List Record) (s : Boot) : Decidable (Harmless before packet s) :=
  inferInstanceAs (Decidable (_ ∨ _))

/-- The bootloader's wait ends before the packet in hand has come: the one before is in the buffer,
and no answer to it reaches the relay; or none is, and nothing is answered. -/
def HarmlessBefore (s : Session) (answered : Bool) : Prop :=
  (∀ old ∈ s.sent.getLast?, answered = false ∧ Harmless s.sent.dropLast.flatten old s.boot) ∧
    (s.sent.isEmpty → s.boot.buffer 1 ≠ s.boot.addrLow ∧ s.boot.buffer 2 ≠ s.boot.addrHigh)

instance (s : Session) (answered : Bool) : Decidable (HarmlessBefore s answered) :=
  inferInstanceAs (Decidable (_ ∧ _))

/-- A packet that comes to the bootloader for the first time is not taken for the one before, and
one that comes again, or is in the buffer when the bootloader's wait ends, does no harm. -/
def Undisturbed (s : Session) (e : Event) : Prop :=
  match s.relay, e with
  | .sending packet _, .arrives _ =>
    let t := load (hexData s.boot.addrLow s.boot.addrHigh packet) s.boot
    s.boot.nextLine = true →
      if s.again then Harmless s.sent.flatten packet t else ¬ Recognised t
  | .sending packet _, .expires answered =>
    s.boot.nextLine = true →
      if s.again then Harmless s.sent.flatten packet s.boot else HarmlessBefore s answered
  | _, _ => True

instance : (s : Session) → (e : Event) → Decidable (Undisturbed s e)
  | ⟨.sending _ _, _, _, _⟩, .arrives _ => inferInstanceAs (Decidable (_ → ite _ _ _))
  | ⟨.sending _ _, _, _, _⟩, .expires _ => inferInstanceAs (Decidable (_ → ite _ _ _))
  | ⟨.sending _ _, _, _, _⟩, .lost => inferInstanceAs (Decidable True)
  | ⟨.failed, _, _, _⟩, _ => inferInstanceAs (Decidable True)
  | ⟨.ended _, _, _, _⟩, _ => inferInstanceAs (Decidable True)

/-! ## Lines of an image -/

theorem Stretched.last {before : List Nat} {p : Nat} {rest : List Nat}
    (h : Stretched (before ++ p :: rest)) (hp : p ∈ before) : before.getLast? = some p := by
  induction before with
  | nil => cases hp
  | cons x before ih =>
    cases before with
    | nil => exact congrArg some (List.mem_singleton.mp hp).symm
    | cons y before =>
      rw [List.getLast?_cons_cons]
      obtain ⟨hxy, htail⟩ := h
      rcases List.mem_cons.mp hp with rfl | hp
      · rcases hxy with rfl | hnot
        · exact ih htail List.mem_cons_self
        · exact absurd (List.mem_append_right (y :: before) List.mem_cons_self) hnot
      · exact ih htail hp

theorem pages_append (xs ys : List Record) : pages (xs ++ ys) = pages xs ++ pages ys :=
  List.flatMap_append

theorem getLast?_pages {xs : List Record} {r : Record} :
    (pages (xs ++ [r])).getLast? = some (lastPage r) := by
  rw [pages_append]
  show (pages xs ++ [firstPage r, lastPage r]).getLast? = _
  simp

/-- The addresses of some lines. -/
def Covered (X : List Record) (x : Nat) : Prop := ∃ r ∈ X, Within r.address r.data.length x

theorem Covered.page {X : List Record} {x : Nat} (h : Covered X x) : x / pagesize ∈ pages X := by
  obtain ⟨r, hr, hx⟩ := h
  obtain ⟨h₁, h₂⟩ := hx
  have hshort := r.short
  refine List.mem_flatMap.mpr ⟨r, hr, ?_⟩
  have hor : x / pagesize = firstPage r ∨ x / pagesize = lastPage r := by
    simp only [firstPage, lastPage, pagesize]
    omega
  rcases hor with h | h
  · exact h ▸ List.mem_cons_self
  · exact h ▸ List.mem_cons_of_mem _ List.mem_cons_self

theorem wraps_append (X : List Record) (r : Record) :
    wraps (X ++ [r]) =
      if X = [] then 0 else if r.address % 65536 = 0 then wraps X + 1 else wraps X := by
  cases X with
  | nil => rfl
  | cons x X =>
    simp only [wraps, List.cons_append, List.tail_cons, List.countP_append, List.countP_cons,
      List.countP_nil, if_neg (List.cons_ne_nil x X), decide_eq_true_eq]
    split <;> rfl

section Lines

variable {image : Image} {X Y : List Record} {r : Record} {s : Boot}

/-- Behind some lines. -/
structure Ready (image : Image) (X : List Record) (s : Boot) : Prop where
  segment : s.segmentOffset = 65536 * wraps X
  state : X = [] ∧ Fresh s ∨ Holding image.memory (Covered X) image.HasPage s.toBoot

/-- The buffer and the packets do not matter to the pages. -/
theorem Ready.congr {t : Boot} {b : Nat → UInt8} (h : Ready image X s)
    (hboot : t.toBoot = { s.toBoot with buffer := b }) (hseg : t.segmentOffset = s.segmentOffset) :
    Ready image X t := by
  refine ⟨hseg.trans h.segment, ?_⟩
  rcases h.state with ⟨hX, hfresh⟩ | hholding
  · exact .inl ⟨hX, hfresh.congr hboot hseg⟩
  · refine .inr ?_
    rw [hboot]
    exact hholding.update (k := s.pagePos)

theorem Image.HasPage.lt {p : Nat} (h : image.HasPage p) : p * pagesize < bootStart := by
  obtain ⟨x, ⟨r, hr, htype, hx⟩, rfl⟩ := h
  have hfits := image.fits r hr htype
  obtain ⟨-, hlt⟩ := hx
  simp only [pagesize]
  omega

theorem Fitting.segment (hfit : Fitting image) (hrecords : image.records = X ++ r :: Y) :
    r.address / 65536 = wraps (X ++ [r]) := by
  have hk : X.length < image.records.length := by
    rw [hrecords, List.length_append, List.length_cons]
    omega
  have h := hfit.segments X.length hk
  have htake : (X ++ r :: Y).take (X.length + 1) = X ++ [r] := by simp [List.take_append]
  simp only [hrecords, htake] at h
  rw [List.getElem_append_right le_rfl] at h
  simpa using h

/-- What follows from where a line stands in an image. -/
theorem Fitting.placed (hfit : Fitting image) (hrecords : image.records = X ++ r :: Y)
    (hspelled : Spelled s.buffer s.currentpos r)
    (hseg : s.segmentOffset = 65536 * wraps (X ++ [r])) :
    Placed image.memory (Covered X) image.HasPage r.address r.data.length s := by
  have hmem : r ∈ image.records := by
    rw [hrecords]
    exact List.mem_append_right X List.mem_cons_self
  have htype := hfit.types r hmem
  have hlow := image.fits r hmem htype
  have hcovers : ∀ x, Covered X x → image.Covers x := by
    rintro x ⟨r', hr', hx⟩
    have hmem' : r' ∈ image.records := by
      rw [hrecords]
      exact List.mem_append_left _ hr'
    exact ⟨r', hmem', hfit.types r' hmem', hx⟩
  refine ⟨?_, hfit.even r hmem, ?_, r.short, fun x hx => ⟨x, ⟨r, hmem, htype, hx⟩, rfl⟩,
    fun x hx => ?_, fun hodd hx => hfit.ends r hmem hodd (hcovers _ hx), fun j hj => ?_⟩
  · rw [hseg, hfit.segment hrecords]
  · simp only [bootStart] at hlow
    omega
  · -- a line over two pages begins the second one, so that nothing has been in it
    by_cases hpage : firstPage r = lastPage r
    · exact (Decidable.em (x / pagesize = r.address / pagesize)).imp_right fun hne hlast =>
        hne (hlast.trans hpage.symm)
    · refine .inr fun hlast => hpage ?_
      have hstretched := hfit.stretched
      rw [hrecords, pages_append] at hstretched
      have hsplit : pages X ++ pages (r :: Y) =
          (pages X ++ [firstPage r]) ++ lastPage r :: pages Y := by
        simp [pages]
      rw [hsplit] at hstretched
      have hagain : lastPage r ∈ pages X ++ [firstPage r] :=
        List.mem_append_left _ ((show x / pagesize = lastPage r from hlast) ▸ hx.page)
      have heq := hstretched.last hagain
      rw [List.getLast?_concat] at heq
      exact Option.some.inj heq
  · rw [hspelled.data j hj, image.agrees r hmem htype j hj]

/-- A line begins in the page in which the one before ended, or in a new one. -/
theorem Fitting.next {q : Record} (hfit : Fitting image)
    (hrecords : image.records = X ++ [q] ++ r :: Y) :
    lastPage q = firstPage r ∨ firstPage r ∉ pages (X ++ [q]) := by
  refine (Decidable.em (firstPage r ∈ pages (X ++ [q]))).imp_left fun hold => ?_
  have hstretched := hfit.stretched
  rw [hrecords, pages_append] at hstretched
  have hsplit : Stretched (pages (X ++ [q]) ++ firstPage r :: (lastPage r :: pages Y)) := hstretched
  have hlast := hsplit.last hold
  rw [getLast?_pages] at hlast
  exact Option.some.inj hlast

/-- Behind some lines, in the page of the last one. -/
structure Settled (image : Image) (X : List Record) (s : Boot) : Prop extends Ready image X s where
  fresh : X = [] → Fresh s
  page : ∀ q ∈ X.getLast?, s.startAddress / pagesize = lastPage q

theorem Settled.congr {t : Boot} {b : Nat → UInt8} (h : Settled image X s)
    (hboot : t.toBoot = { s.toBoot with buffer := b }) (hseg : t.segmentOffset = s.segmentOffset) :
    Settled image X t := by
  refine ⟨h.toReady.congr hboot hseg, fun hX => (h.fresh hX).congr hboot hseg, fun q hq => ?_⟩
  rw [hboot]
  exact h.page q hq

/-- The variables that the lines of a packet leave as they are, and the two that count. -/
structure Passed (n k : Nat) (s t : Boot) : Prop where
  buffer : t.buffer = s.buffer
  currentpos : t.currentpos = s.currentpos + n
  l : t.l = s.l + k
  nextLine : t.nextLine = s.nextLine

theorem Passed.trans {n k n' k' : Nat} {s t u : Boot} (h : Passed n k s t)
    (h' : Passed n' k' t u) : Passed (n + n') (k + k') s u :=
  ⟨h'.buffer.trans h.buffer, by rw [h'.currentpos, h.currentpos, Nat.add_assoc],
    by rw [h'.l, h.l, Nat.add_assoc], h'.nextLine.trans h.nextLine⟩

theorem Ready.valid (h : Holding image.memory (Covered X) image.HasPage s.toBoot) :
    s.startAddress ≠ 0xFFFFFFFF := by
  have hlt := h.current.lt
  have haligned := h.aligned
  intro heq
  rw [heq] at haligned
  exact absurd haligned (by decide)

/-- The segment of a line is counted. -/
theorem Ready.segment_opened (h : Ready image X s) (hlow : wraps (X ++ [r]) < 0x10000)
    (hzero : X ≠ [] ∨ Fresh s ∨ r.address % 65536 ≠ 0) :
    (opened r s).segmentOffset = 65536 * wraps (X ++ [r]) := by
  have hsegment := h.segment
  have hwraps := wraps_append X r
  show (if r.address % 65536 = 0 ∧ s.startAddress ≠ 0xFFFFFFFF then
    (s.segmentOffset + 0x10000) % 0x100000000 else s.segmentOffset) = _
  by_cases hX : X = []
  · have hnot : ¬ (r.address % 65536 = 0 ∧ s.startAddress ≠ 0xFFFFFFFF) := by
      rintro ⟨haddr, hvalid⟩
      rcases hzero with hne | hfresh | hne
      · exact hne hX
      · exact hvalid hfresh.startAddress
      · exact hne haddr
    rw [if_neg hnot, hsegment, hwraps, if_pos hX, hX]
    rfl
  · have hvalid : s.startAddress ≠ 0xFFFFFFFF :=
      Ready.valid (h.state.resolve_left fun hfresh => hX hfresh.1)
    rw [if_neg hX] at hwraps
    by_cases haddr : r.address % 65536 = 0
    · rw [if_pos haddr] at hwraps
      rw [if_pos ⟨haddr, hvalid⟩, hsegment, hwraps]
      omega
    · rw [if_neg haddr] at hwraps
      rw [if_neg fun hand => haddr hand.1, hsegment, hwraps]

/-- **A line** of the image is taken. -/
theorem Ready.taken (h : Ready image X s) (hfit : Fitting image)
    (hrecords : image.records = X ++ r :: Y) (hdata : r.data ≠ [])
    (hspelled : Spelled s.buffer s.currentpos r)
    (hpage : Fresh s ∨ s.startAddress / pagesize = firstPage r ∨ firstPage r ∉ pages X)
    (hzero : X ≠ [] ∨ Fresh s ∨ r.address % 65536 ≠ 0) :
    ∃ t, line s = (t, .more) ∧ Settled image (X ++ [r]) t ∧ Passed (r.data.length + 6) 0 s t := by
  have hmem : r ∈ image.records := by
    rw [hrecords]
    exact List.mem_append_right X List.mem_cons_self
  have hpos : 0 < r.data.length := List.length_pos_iff.mpr hdata
  have htype := hfit.types r hmem
  -- the segment is the one that the file means
  have hsegment : r.address / 65536 = wraps (X ++ [r]) := hfit.segment hrecords
  have hlow := image.fits r hmem htype
  have hopened := h.segment_opened (r := r) (by simp only [bootStart] at hlow; omega) hzero
  have hplaced := hfit.placed (s := opened r s) hrecords hspelled hopened
  have hhas : image.HasPage (r.address / pagesize) :=
    ⟨r.address, ⟨r, hmem, htype, le_rfl, by omega⟩, rfl⟩
  -- the page is the first one, the present one, or one that nothing has been in
  have hentered : Entered image.memory (Covered X) image.HasPage r.address (opened r s)
      (enter (r.address % 65536) (opened r s)) := by
    rcases h.state with ⟨hX, hfresh⟩ | hholding
    · have hzero : r.address / 65536 = 0 := by rw [hsegment, hX]; rfl
      have haddr : r.address % 65536 = r.address := by omega
      have hfresh' : Fresh (opened r s) :=
        ⟨hfresh.startAddress, hfresh.pagePos, hfresh.touched, by rw [hopened, ← hsegment, hzero]⟩
      rw [haddr]
      refine enter_fresh hfresh' hhas fun x hx => ?_
      obtain ⟨r', hr', -⟩ := hx
      rw [hX] at hr'
      cases hr'
    · refine enter_held (s := opened r s) hholding (fun p hp => hp.lt) hplaced.segment hhas ?_
      rcases hpage with hfresh | hpage | hpage
      · exact absurd hfresh.startAddress (Ready.valid hholding)
      · exact .inl hpage
      · exact .inr fun x hx hxpage =>
          hpage ((show x / pagesize = firstPage r from hxpage) ▸ hx.page)
  obtain ⟨hholding, hlast, hkeeps⟩ := hentered.words hplaced hpos
  refine ⟨_, by rw [line_eq hspelled, if_neg (by rw [htype]; decide), if_pos hdata], ?_, ?_⟩
  · refine ⟨⟨hkeeps.segmentOffset.trans hopened, .inr (hholding.mono fun x hx => ?_)⟩,
      fun hnil => absurd hnil (List.append_ne_nil_of_right_ne_nil X (List.cons_ne_nil r [])),
      fun q hq => ?_⟩
    · obtain ⟨r', hr', hx⟩ := hx
      rcases List.mem_append.mp hr' with hr' | hr'
      · exact .inl ⟨r', hr', hx⟩
      · exact .inr (List.mem_singleton.mp hr' ▸ hx)
    · rw [List.getLast?_concat] at hq
      obtain rfl := Option.some.inj hq
      exact hlast
  · refine ⟨hkeeps.buffer, ?_, hkeeps.l, hkeeps.nextLine⟩
    rw [← Nat.add_assoc]
    exact congrArg (· + r.data.length + 6) hkeeps.currentpos

/-! ## Packets -/

/-- Some lines stand behind a position of the buffer, one behind the other. -/
def SpelledAll (buffer : Nat → UInt8) : Nat → List Record → Prop
  | _, [] => True
  | pos, r :: rest => Spelled buffer pos r ∧ SpelledAll buffer (pos + (r.data.length + 6)) rest

/-- The bytes of some lines. -/
def size (records : List Record) : Nat := (records.map fun r => r.data.length + 6).sum

/-- **The lines** of a packet are taken, one after the other. -/
theorem Ready.allTaken (h : Ready image X s) (hfit : Fitting image) {rest : List Record}
    (hrecords : image.records = X ++ (r :: rest ++ Y)) (hdata : ∀ x ∈ r :: rest, x.data ≠ [])
    (hspelled : SpelledAll s.buffer s.currentpos (r :: rest))
    (hpage : Fresh s ∨ s.startAddress / pagesize = firstPage r ∨ firstPage r ∉ pages X)
    (hzero : X ≠ [] ∨ Fresh s ∨ r.address % 65536 ≠ 0) :
    ∃ t, (∀ m, lines ((r :: rest).length + m) s = lines m t) ∧
      Settled image (X ++ r :: rest) t ∧ Passed (size (r :: rest)) (r :: rest).length s t := by
  -- only the first line needs `hpage` and `hzero`: behind a line they follow from where it ended
  induction rest generalizing X r s with
  | nil =>
    obtain ⟨t, hline, hsettled, hpassed⟩ := h.taken hfit hrecords (hdata r List.mem_cons_self)
      hspelled.1 hpage hzero
    refine ⟨{ t with l := t.l + 1 }, fun m => ?_, hsettled.congr rfl rfl,
      ⟨hpassed.buffer, hpassed.currentpos, congrArg (· + 1) hpassed.l, hpassed.nextLine⟩⟩
    rw [List.length_singleton, Nat.add_comm, RadioBootloader.lines, hline]
  | cons r' rest ih =>
    have hrecords' : image.records = X ++ [r] ++ (r' :: rest ++ Y) := by
      rw [hrecords]
      simp
    obtain ⟨t, hline, hsettled, hpassed⟩ := h.taken (Y := r' :: rest ++ Y) hfit hrecords
      (hdata r List.mem_cons_self) hspelled.1 hpage hzero
    have hnext := hfit.next (X := X) (q := r) (r := r') (Y := rest ++ Y) (by rw [hrecords']; simp)
    have hcur := hpassed.currentpos
    obtain ⟨u, hlines, hsettled', hpassed'⟩ := ih (X := X ++ [r]) (s := { t with l := t.l + 1 })
      (hsettled.toReady.congr rfl rfl) hrecords' (fun x hx => hdata x (List.mem_cons_of_mem r hx))
      (by
        show SpelledAll t.buffer t.currentpos (r' :: rest)
        rw [hpassed.buffer, hcur]
        exact hspelled.2)
      (.inr (hnext.imp_left fun heq => (hsettled.page r List.getLast?_concat).trans heq))
      (.inl (List.append_ne_nil_of_right_ne_nil X (List.cons_ne_nil r [])))
    refine ⟨u, fun m => ?_, by simpa using hsettled', ?_⟩
    · rw [List.length_cons, Nat.add_right_comm, RadioBootloader.lines, hline]
      exact hlines m
    · have hl := hpassed.l
      have hpassed₁ : Passed (r.data.length + 6) 1 s { t with l := t.l + 1 } :=
        ⟨hpassed.buffer, hcur, congrArg (· + 1) hl, hpassed.nextLine⟩
      have hboth := hpassed₁.trans hpassed'
      rwa [Nat.add_comm 1] at hboth

theorem spelledAll_append {buffer : Nat → UInt8} {pos : Nat} {xs ys : List Record} :
    SpelledAll buffer pos (xs ++ ys) ↔
      SpelledAll buffer pos xs ∧ SpelledAll buffer (pos + size xs) ys := by
  induction xs generalizing pos with
  | nil => exact ⟨fun h => ⟨trivial, h⟩, And.right⟩
  | cons x xs ih =>
    show Spelled _ _ _ ∧ SpelledAll _ _ (xs ++ ys) ↔ (Spelled _ _ _ ∧ SpelledAll _ _ xs) ∧ _
    rw [ih, and_assoc]
    have hsize : pos + (x.data.length + 6) + size xs = pos + size (x :: xs) := by
      simp only [size, List.map_cons, List.sum_cons]
      omega
    rw [hsize]

theorem spelledAll_getD {old : Nat → UInt8} {before after : List UInt8} {pos : Nat}
    {xs : List Record} (hpos : before.length = pos + 1) :
    SpelledAll (fun i => (before ++ (xs.flatMap Record.bytes ++ after)).getD i (old i)) pos xs := by
  induction xs generalizing before pos with
  | nil => trivial
  | cons x xs ih =>
    have hsplit : before ++ ((x :: xs).flatMap Record.bytes ++ after) =
        before ++ x.bytes ++ (xs.flatMap Record.bytes ++ after) := by simp
    rw [hsplit]
    refine ⟨fun i hi => ?_, ih ?_⟩
    · show (before ++ x.bytes ++ _).getD (pos + 1 + i) _ = _
      rw [List.getD_eq_getElem?_getD, List.append_assoc, List.getElem?_append_right (by omega),
        show pos + 1 + i - before.length = i by omega, List.getElem?_append_left hi,
        List.getElem?_eq_getElem hi]
      rfl
    · rw [List.length_append, length_bytes, hpos]
      omega

/-- Between two packets. -/
structure Waiting (s : Boot) : Prop where
  l : s.l = 0
  currentpos : s.currentpos = 3
  nextLine : s.nextLine = true

/-- A packet is in the buffer. -/
structure Loaded (p : List Record) (s : Boot) : Prop where
  linecount : (s.buffer 3).toNat = p.length
  spelled : SpelledAll s.buffer 3 p

theorem loaded_load {p : List Record} (s : Boot) (hp : p.length < 256) :
    Loaded p (load (hexData s.addrLow s.addrHigh p) s) := by
  refine ⟨?_, ?_⟩
  · show (UInt8.ofNat p.length).toNat = p.length
    exact UInt8.toNat_ofNat_of_lt' hp
  · have h := @spelledAll_getD s.buffer [0x58, s.addrLow, s.addrHigh, UInt8.ofNat p.length]
      [0x58, 0x58] 3 p rfl
    rw [← List.append_assoc] at h
    exact h

theorem Loaded.congr {p : List Record} {t : Boot} (h : Loaded p s) (ht : t.buffer = s.buffer) :
    Loaded p t := ⟨ht.symm ▸ h.linecount, ht.symm ▸ h.spelled⟩

/-- The state behind a packet that was right. -/
def completed (s : Boot) : Boot := { s with packetSuccess := true, l := 0, currentpos := 3 }

theorem packet_right {t : Boot}
    (h : lines ((s.buffer 3).toNat - (begun s).l) (begun s) = (t, false)) :
    packet s = (completed t, 0x05) := by
  unfold packet
  simp only [h]
  rfl

/-- What is set before the lines of a packet are read does not matter to them. -/
theorem Ready.begun_packet {p : List Record} (h : Ready image X s) (hs : Waiting s)
    (hp : Loaded p s) (hnew : ¬ Recognised s) :
    Ready image X (begun s) ∧ (begun s).l = 0 ∧ (Fresh s → Fresh (begun s)) ∧
      SpelledAll (begun s).buffer (begun s).currentpos p := by
  refine ⟨h.congr rfl rfl, ?_, fun hfresh => hfresh.congr rfl rfl, ?_⟩
  · show (if Recognised s then (s.buffer 3).toNat else s.l) = 0
    rw [if_neg hnew]
    exact hs.l
  · show SpelledAll s.buffer s.currentpos p
    rw [hs.currentpos]
    exact hp.spelled

/-- Behind a packet of lines with data. -/
structure Behind (image : Image) (X p : List Record) (s : Boot) : Prop where
  waiting : Waiting s
  settled : Settled image (X ++ p) s
  loaded : Loaded p s

/-- **A packet** of lines with data is taken. -/
theorem Ready.packet_taken (h : Ready image X s) (hs : Waiting s) (hfit : Fitting image)
    {rest : List Record} (hrecords : image.records = X ++ (r :: rest ++ Y))
    (hdata : ∀ x ∈ r :: rest, x.data ≠ []) (hp : Loaded (r :: rest) s) (hnew : ¬ Recognised s)
    (hpage : Fresh s ∨ s.startAddress / pagesize = firstPage r ∨ firstPage r ∉ pages X)
    (hzero : X ≠ [] ∨ Fresh s ∨ r.address % 65536 ≠ 0) :
    ∃ t, packet s = (t, 0x05) ∧ Behind image X (r :: rest) t := by
  obtain ⟨hready, hl, hfresh, hspelled⟩ := h.begun_packet hs hp hnew
  obtain ⟨t, hlines, hsettled, hpassed⟩ := hready.allTaken hfit hrecords hdata hspelled
    (hpage.imp_left hfresh) (hzero.imp_right (Or.imp_left hfresh))
  have hrun : lines ((s.buffer 3).toNat - (begun s).l) (begun s) = (t, false) := by
    rw [hp.linecount, hl, Nat.sub_zero]
    exact hlines 0
  exact ⟨completed t, packet_right hrun, ⟨rfl, rfl, hpassed.nextLine.trans hs.nextLine⟩,
    hsettled.congr rfl rfl, hp.congr hpassed.buffer⟩

/-- Behind the last line the page is written, and the image is in the flash. -/
theorem flashed_finish (h : Holding image.memory (Covered image.records) image.HasPage s.toBoot) :
    Flashed image (finish s) := by
  obtain ⟨hholds, htouched⟩ := h.finish
  refine ⟨fun x hx => ?_, htouched, fun p hp => ?_⟩
  · obtain ⟨r, hr, -, hwithin⟩ := hx
    exact hholds x ⟨r, hr, hwithin⟩
  · have hlt := (htouched p hp).lt
    simp only [pagesize, bootStart] at *
    omega

/-- The last line ends the loop. -/
theorem lines_endOfFile (h : Spelled s.buffer s.currentpos endOfFile) :
    lines 1 s = ({ opened endOfFile s with nextLine := false }, false) := by
  rw [lines, line_eq h]
  rfl

/-- **The last packet** is taken. -/
theorem Ready.lastPacket (h : Ready image X s) (hs : Waiting s) (hfit : Fitting image)
    {data : List Record} (hrecords : image.records = X ++ data) (hdata : ∀ x ∈ data, x.data ≠ [])
    (hp : Loaded (data ++ [endOfFile]) s) (hnew : ¬ Recognised s)
    (hpage : ∀ r ∈ data.head?, Fresh s ∨ s.startAddress / pagesize = firstPage r ∨
      firstPage r ∉ pages X)
    (hzero : X = [] → Fresh s) :
    ∃ t, packet s = (t, 0x05) ∧ t.nextLine = false ∧ Flashed image (finish t) := by
  obtain ⟨hready, hl, hfresh, hspelled⟩ := h.begun_packet hs hp hnew
  rw [spelledAll_append] at hspelled
  obtain ⟨b, hb⟩ : ∃ b, begun s = b := ⟨_, rfl⟩
  rw [hb] at hready hl hfresh hspelled
  -- the lines with data, if there are any
  obtain ⟨u, hlines, hholding, hbuffer, hcur⟩ : ∃ u, lines (data.length + 1) b = lines 1 u ∧
      Holding image.memory (Covered image.records) image.HasPage u.toBoot ∧
      u.buffer = b.buffer ∧ u.currentpos = b.currentpos + size data := by
    cases data with
    | nil =>
      rw [List.append_nil] at hrecords
      refine ⟨b, rfl, ?_, rfl, rfl⟩
      rw [hrecords]
      exact hready.state.resolve_left fun hX => hfit.nonempty (hrecords.trans hX.1)
    | cons r rest =>
      obtain ⟨u, hlines, hsettled, hpassed⟩ := hready.allTaken (Y := []) hfit
        (by rw [hrecords, List.append_nil]) hdata hspelled.1
        ((hpage r rfl).imp hfresh fun hp => by subst hb; exact hp)
        ((Decidable.em (X = [])).symm.imp_right fun hX => .inl (hfresh (hzero hX)))
      refine ⟨u, hlines 1, ?_, hpassed.buffer, hpassed.currentpos⟩
      rw [hrecords]
      refine hsettled.state.resolve_left fun hX => ?_
      exact List.append_ne_nil_of_right_ne_nil X (List.cons_ne_nil r rest) hX.1
  have hlast : lines 1 u = ({ opened endOfFile u with nextLine := false }, false) := by
    refine lines_endOfFile ?_
    rw [hbuffer, hcur]
    exact hspelled.2.1
  have hrun : lines ((s.buffer 3).toNat - b.l) b =
      ({ opened endOfFile u with nextLine := false }, false) := by
    rw [hp.linecount, hl, Nat.sub_zero, List.length_append, List.length_singleton, hlines, hlast]
  rw [← hb] at hrun
  exact ⟨_, packet_right hrun, rfl,
    flashed_finish (s := completed { opened endOfFile u with nextLine := false }) hholding⟩

/-- Where the packet that comes next begins. -/
theorem Settled.head (h : Settled image X s) (hfit : Fitting image)
    (hrecords : image.records = X ++ r :: Y) :
    Fresh s ∨ s.startAddress / pagesize = firstPage r ∨ firstPage r ∉ pages X := by
  rcases List.eq_nil_or_concat X with hX | ⟨X', q, hX⟩
  · exact .inl (h.fresh hX)
  · rw [List.concat_eq_append] at hX
    have hpage := h.page q (by rw [hX, List.getLast?_concat]; rfl)
    rw [hX] at hrecords ⊢
    exact .inr ((hfit.next hrecords).imp_left hpage.trans)

theorem wraps_append_of_ne {p : List Record} (hp : ∀ x ∈ p, x.address % 65536 ≠ 0) :
    wraps (X ++ p) = wraps X := by
  have hzero : ∀ q : List Record, (∀ x ∈ q, x ∈ p) →
      q.countP (fun x => x.address % 65536 = 0) = 0 := fun q hq =>
    List.countP_eq_zero.mpr fun x hx => by simpa using hp x (hq x hx)
  cases X with
  | nil => exact hzero p.tail fun x hx => List.mem_of_mem_tail hx
  | cons x X =>
    show (X ++ p).countP _ = X.countP _
    rw [List.countP_append, hzero p fun x hx => hx, Nat.add_zero]

/-- Before a packet that may be taken again. -/
theorem Settled.before {p : List Record} (h : Settled image (X ++ p) s)
    (hp : ∀ x ∈ p, x.address % 65536 ≠ 0) (hne : p ≠ []) : Ready image X s := by
  refine ⟨by rw [h.segment, wraps_append_of_ne hp], .inr ?_⟩
  have hholding := h.state.resolve_left fun hX => List.append_ne_nil_of_right_ne_nil X hne hX.1
  exact hholding.mono fun x ⟨r, hr, hx⟩ => ⟨r, List.mem_append_left p hr, hx⟩

/-- **A packet** that has been taken comes again. -/
theorem Behind.packet_again {p : List Record} (h : Behind image X p s) (hfit : Fitting image)
    (hne : p ≠ []) (hrecords : image.records = X ++ (p ++ Y)) (hdata : ∀ x ∈ p, x.data ≠ [])
    (hagain : Harmless X p s) : ∃ t, packet s = (t, 0x05) ∧ Behind image X p t := by
  by_cases hold : Recognised s
  · -- no line is left
    have hrun : lines ((s.buffer 3).toNat - (begun s).l) (begun s) = (begun s, false) := by
      have hl : (begun s).l = (s.buffer 3).toNat := if_pos hold
      rw [hl, Nat.sub_self]
      rfl
    exact ⟨completed (begun s), packet_right hrun, ⟨rfl, rfl, h.waiting.nextLine⟩,
      h.settled.congr rfl rfl, h.loaded.congr rfl⟩
  · -- every line is programmed again, behind the lines before the packet
    cases p with
    | nil => exact absurd rfl hne
    | cons r rest =>
      obtain ⟨hzero, hpage⟩ := hagain.resolve_left hold
      have hlast := h.settled.page ((r :: rest).getLast hne) (by
        rw [List.getLast?_append_of_ne_nil _ hne, List.getLast?_eq_getLast_of_ne_nil hne]
        rfl)
      exact (h.settled.before hzero hne).packet_taken h.waiting hfit hrecords hdata h.loaded hold
        (.inr (hpage.imp_left fun heq => hlast.trans heq.symm))
        (.inr (.inr (hzero r List.mem_cons_self)))

/-- The buffer of a packet that has been taken is looked at again. -/
theorem Behind.respond_again {p : List Record} (h : Behind image X p s) (hfit : Fitting image)
    (hne : p ≠ []) (hrecords : image.records = X ++ (p ++ Y)) (hdata : ∀ x ∈ p, x.data ≠ [])
    (hagain : Harmless X p s) : Behind image X p (respond s).1 := by
  obtain ⟨t, hpacket, ht⟩ := h.packet_again hfit hne hrecords hdata hagain
  unfold respond
  split
  · exact h
  · simp only [hpacket, if_pos ht.waiting.nextLine]
    exact ht

/-- A frame with the bootloader's address is answered. -/
theorem respond_load {p : List Record} {t : Boot} {answer : UInt8}
    (hpacket : packet (load (hexData s.addrLow s.addrHigh p) s) = (t, answer)) :
    respond (load (hexData s.addrLow s.addrHigh p) s) =
      (if t.nextLine then t else finish t, some answer) := by
  unfold respond
  rw [if_neg fun h => h.1 rfl]
  simp only [hpacket]

end Lines

/-! ## Sessions -/

section Sessions

variable {image : Image}

theorem gather_eq {n pos : Nat} {ls p rest : List Record} (h : gather n pos ls = some (p, rest)) :
    ls = p ++ rest ∧ p.length ≤ n ∧ (∀ x ∈ p.dropLast, x.data ≠ []) ∧ (0 < n → p ≠ []) := by
  induction n generalizing pos ls p with
  | zero =>
    obtain ⟨rfl, rfl⟩ := Prod.mk.inj (Option.some.inj h)
    exact ⟨rfl, le_rfl, fun x hx => absurd hx List.not_mem_nil, fun h => absurd h (Nat.lt_irrefl 0)⟩
  | succ n ih =>
    cases ls with
    | nil => cases h
    | cons r ls =>
      unfold gather at h
      split at h
      · cases h
      · split at h
        · obtain ⟨rfl, rfl⟩ := Prod.mk.inj (Option.some.inj h)
          exact ⟨rfl, Nat.succ_le_succ (Nat.zero_le n), fun x hx => absurd hx List.not_mem_nil,
            fun _ => List.cons_ne_nil r []⟩
        · next hne =>
          obtain ⟨⟨p', rest'⟩, hgather, heq⟩ := Option.map_eq_some_iff.mp h
          obtain ⟨rfl, rfl⟩ := Prod.mk.inj heq
          obtain ⟨rfl, hlen, hdrop, -⟩ := ih hgather
          refine ⟨rfl, Nat.succ_le_succ hlen, fun x hx => ?_, fun _ => List.cons_ne_nil r p'⟩
          cases p' with
          | nil => cases hx
          | cons q p' =>
            rcases List.mem_cons.mp hx with rfl | hx
            · exact fun hnil => hne (List.length_eq_zero_iff.mpr hnil)
            · exact hdrop x hx

/-- Where a session is: the packets before the one in hand have been taken, and that one too when it
has come to the bootloader. -/
structure Sending (image : Image) (sent : List (List Record)) (p rest : List Record) (boot : Boot)
    (again : Bool) : Prop where
  file : image.records ++ [endOfFile] = sent.flatten ++ (p ++ rest)
  nonempty : p ≠ []
  short : p.length ≤ lineCount
  data : ∀ x ∈ p.dropLast, x.data ≠ []
  waiting : again = false → Waiting boot ∧ Settled image sent.flatten boot
  before : again = false → ∀ q ∈ sent.getLast?,
    q ≠ [] ∧ (∀ x ∈ q, x.data ≠ []) ∧ Loaded q boot
  last : again = true → rest = [] → boot.nextLine = false ∧ Flashed image boot
  taken : again = true → (∀ x ∈ p, x.data ≠ []) → Behind image sent.flatten p boot

/-- The invariant of a session. -/
def Inv (image : Image) (s : Session) : Prop :=
  match s.relay with
  | .failed => True
  | .sending p rest => Sending image s.sent p rest s.boot s.again
  | .ended rest => rest = [] → Flashed image s.boot

section Sending

variable {sent : List (List Record)} {p rest : List Record} {boot : Boot} {again : Bool}

/-- The last line is not behind the packet in hand. -/
theorem Sending.front (h : Sending image sent p rest boot again) :
    ∃ Y, p ++ rest = Y ++ [endOfFile] ∧ image.records = sent.flatten ++ Y := by
  obtain ⟨Y, last, hY⟩ := (List.eq_nil_or_concat (p ++ rest)).resolve_left
    (List.append_ne_nil_of_left_ne_nil h.nonempty rest)
  rw [List.concat_eq_append] at hY
  have hfile := h.file
  rw [hY, ← List.append_assoc] at hfile
  obtain ⟨hrecords, hlast⟩ := List.append_inj' hfile rfl
  exact ⟨Y, by rw [hY, hlast], hrecords⟩

/-- Without a line without data, more lines follow. -/
theorem Sending.more (h : Sending image sent p rest boot again) (hdata : ∀ x ∈ p, x.data ≠ []) :
    ∃ Y, image.records = sent.flatten ++ (p ++ Y) := by
  obtain ⟨Y, hY, hrecords⟩ := h.front
  rcases List.eq_nil_or_concat rest with rfl | ⟨Z, last, rfl⟩
  · rw [List.append_nil] at hY
    exact absurd rfl (hdata endOfFile (by simp [hY]))
  · rw [List.concat_eq_append, ← List.append_assoc] at hY
    obtain ⟨hpZ, -⟩ := List.append_inj' hY rfl
    exact ⟨Z, by rw [hrecords, hpZ]⟩

/-- The last packet has the last line behind lines with data. -/
theorem Sending.ends (h : Sending image sent p [] boot again) :
    ∃ data, p = data ++ [endOfFile] ∧ image.records = sent.flatten ++ data ∧
      ∀ x ∈ data, x.data ≠ [] := by
  obtain ⟨data, hp, hrecords⟩ := h.front
  rw [List.append_nil] at hp
  refine ⟨data, hp, hrecords, fun x hx => h.data x ?_⟩
  rwa [hp, List.dropLast_concat]

/-- The bootloader does not answer any more. -/
theorem receive_done {frame : List UInt8} (h : boot.nextLine = false) :
    receive frame boot = (boot, none) := by
  unfold receive
  rw [if_neg (by rw [h]; decide)]

/-- **The first arrival** of a packet. -/
theorem Sending.arriveFirst (h : Sending image sent p rest boot false) (hfit : Fitting image)
    (hnew : ¬ Recognised (load (hexData boot.addrLow boot.addrHigh p) boot)) :
    Sending image sent p rest (receive (hexData boot.addrLow boot.addrHigh p) boot).1 true := by
  obtain ⟨hwaiting, hsettled⟩ := h.waiting rfl
  have hloaded : Loaded p (load (hexData boot.addrLow boot.addrHigh p) boot) :=
    loaded_load boot (lt_of_le_of_lt h.short (by decide))
  have hwaiting' : Waiting (load (hexData boot.addrLow boot.addrHigh p) boot) :=
    ⟨hwaiting.l, hwaiting.currentpos, hwaiting.nextLine⟩
  have hsettled' : Settled image sent.flatten (load (hexData boot.addrLow boot.addrHigh p) boot) :=
    hsettled.congr rfl rfl
  have hreceive : receive (hexData boot.addrLow boot.addrHigh p) boot =
      respond (load (hexData boot.addrLow boot.addrHigh p) boot) := by
    unfold receive
    rw [if_pos hwaiting.nextLine]
  rw [hreceive]
  refine ⟨h.file, h.nonempty, h.short, h.data, fun hno => absurd hno (by decide),
    fun hno => absurd hno (by decide), fun _ hrest => ?_, fun _ hdata => ?_⟩
  · subst hrest
    obtain ⟨data, rfl, hrecords, hdata⟩ := h.ends
    obtain ⟨t, hpacket, hnext, hflashed⟩ := hsettled'.toReady.lastPacket hwaiting' hfit hrecords
      hdata hloaded hnew (fun r hr => by
        cases data with
        | nil => cases hr
        | cons r' rest =>
          obtain rfl := Option.some.inj hr
          exact hsettled'.head hfit hrecords) hsettled'.fresh
    rw [respond_load hpacket, if_neg (by rw [hnext]; decide)]
    exact ⟨hnext, hflashed⟩
  · obtain ⟨Y, hrecords⟩ := h.more hdata
    cases p with
    | nil => exact absurd rfl h.nonempty
    | cons r tail =>
      obtain ⟨t, hpacket, hbehind⟩ := hsettled'.toReady.packet_taken hwaiting' hfit hrecords hdata
        hloaded hnew (hsettled'.head hfit hrecords)
        ((Decidable.em (sent.flatten = [])).symm.imp_right fun hX => .inl (hsettled'.fresh hX))
      rw [respond_load hpacket, if_pos hbehind.waiting.nextLine]
      exact hbehind

/-- A packet that has been taken is in the buffer again, or still. -/
theorem Sending.arriveAgain (h : Sending image sent p rest boot true) (hfit : Fitting image)
    {frame : List UInt8} (hloaded : (∀ x ∈ p, x.data ≠ []) → Loaded p (load frame boot))
    (hok : boot.nextLine = true → Harmless sent.flatten p (load frame boot)) :
    Sending image sent p rest (receive frame boot).1 true := by
  refine ⟨h.file, h.nonempty, h.short, h.data, fun hno => absurd hno (by decide),
    fun hno => absurd hno (by decide), fun _ hrest => ?_, fun _ hdata => ?_⟩
  · obtain ⟨hnext, hflashed⟩ := h.last rfl hrest
    rw [receive_done hnext]
    exact ⟨hnext, hflashed⟩
  · obtain ⟨Y, hrecords⟩ := h.more hdata
    obtain ⟨hwaiting, hsettled, -⟩ := h.taken rfl hdata
    have hbehind : Behind image sent.flatten p (load frame boot) :=
      ⟨⟨hwaiting.l, hwaiting.currentpos, hwaiting.nextLine⟩, hsettled.congr rfl rfl, hloaded hdata⟩
    unfold receive
    rw [if_pos hwaiting.nextLine]
    exact hbehind.respond_again hfit h.nonempty hrecords hdata (hok hwaiting.nextLine)

end Sending

/-- The packet that is sent first, and the one behind a packet that was answered. -/
theorem inv_next {sent : List (List Record)} {ls : List Record} {b : Boot}
    (hfile : image.records ++ [endOfFile] = sent.flatten ++ ls) (hwaiting : Waiting b)
    (hsettled : Settled image sent.flatten b)
    (hbefore : ∀ q ∈ sent.getLast?, q ≠ [] ∧ (∀ x ∈ q, x.data ≠ []) ∧ Loaded q b) :
    Inv image ⟨Relay.next ls, b, sent, false⟩ := by
  unfold Relay.next
  cases hgather : gather lineCount 3 ls with
  | none => trivial
  | some pair =>
    obtain ⟨p, rest⟩ := pair
    obtain ⟨rfl, hlen, hdata, hne⟩ := gather_eq hgather
    exact ⟨hfile, hne (by decide), hlen, hdata, fun _ => ⟨hwaiting, hsettled⟩, fun _ => hbefore,
      fun h => absurd h Bool.false_ne_true, fun h => absurd h Bool.false_ne_true⟩

/-- The relay goes on when the packet has been taken. -/
theorem Sending.conclude {sent : List (List Record)} {p rest : List Record} {answered : Bool}
    {r : Boot × Option UInt8} (h : Sending image sent p rest r.1 true) :
    Inv image (conclude p rest answered sent true r) := by
  unfold RadioBootloader.conclude
  split
  · cases hlast : lastline p with
    | true => exact fun hrest => (h.last rfl hrest).2
    | false =>
      have hdata : ∀ x ∈ p, x.data ≠ [] := by
        intro x hx hnil
        refine Bool.false_ne_true (hlast.symm.trans (List.any_eq_true.mpr ⟨x, hx, ?_⟩))
        rw [hnil]
        rfl
      obtain ⟨hwaiting, hsettled, hloaded⟩ := h.taken rfl hdata
      have hflat : (sent ++ [p]).flatten = sent.flatten ++ p := by simp
      refine inv_next (by rw [hflat, h.file, List.append_assoc]) hwaiting (hflat.symm ▸ hsettled)
        fun q hq => ?_
      rw [List.getLast?_concat] at hq
      obtain rfl := Option.some.inj hq
      exact ⟨h.nonempty, hdata, hloaded⟩
  · exact h

/-- The bootloader's wait ends without a packet before the one in hand has come. -/
theorem Sending.expire {sent : List (List Record)} {p rest : List Record} {boot : Boot}
    {answered : Bool} (h : Sending image sent p rest boot false) (hfit : Fitting image)
    (hok : HarmlessBefore ⟨.sending p rest, boot, sent, false⟩ answered) :
    Inv image (RadioBootloader.conclude p rest answered sent false (receive [] boot)) := by
  obtain ⟨hwaiting, hsettled⟩ := h.waiting rfl
  have hreceive : receive [] boot = respond boot := by
    unfold receive
    rw [if_pos hwaiting.nextLine]
    rfl
  rw [hreceive]
  rcases List.eq_nil_or_concat sent with rfl | ⟨before, old, hsent⟩
  · -- the buffer does not have the bootloader's address
    have haddr : boot.buffer 1 ≠ boot.addrLow ∧ boot.buffer 2 ≠ boot.addrHigh := hok.2 rfl
    have hrespond : respond boot = (boot, none) := by
      unfold respond
      rw [if_pos haddr]
    rw [hrespond]
    unfold RadioBootloader.conclude
    rw [if_neg fun hand => by cases hand.2]
    exact h
  · -- the packet before is still in the buffer
    rw [List.concat_eq_append] at hsent
    have hlast : sent.getLast? = some old := by rw [hsent, List.getLast?_concat]
    have hdrop : sent.dropLast = before := by rw [hsent, List.dropLast_concat]
    have hflat : sent.flatten = before.flatten ++ old := by rw [hsent]; simp
    obtain ⟨hanswered, hharmless⟩ := hok.1 old hlast
    obtain ⟨hne, hdata, hloaded⟩ := h.before rfl old hlast
    obtain ⟨Y, -, hY⟩ := h.front
    rw [hflat, List.append_assoc] at hY
    have hbehind : Behind image before.flatten old (respond boot).1 :=
      Behind.respond_again ⟨hwaiting, hflat ▸ hsettled, hloaded⟩ hfit hne hY hdata
        (hdrop ▸ hharmless)
    unfold RadioBootloader.conclude
    rw [if_neg fun hand => by rw [hanswered] at hand; cases hand.1]
    exact ⟨h.file, h.nonempty, h.short, h.data,
      fun _ => ⟨hbehind.waiting, hflat.symm ▸ hbehind.settled⟩, fun _ q hq => by
        rw [hlast] at hq
        obtain rfl := Option.some.inj hq
        exact ⟨hne, hdata, hbehind.loaded⟩,
      fun hno => absurd hno Bool.false_ne_true, fun hno => absurd hno Bool.false_ne_true⟩

/-- **A step** of a session keeps the invariant. -/
theorem inv_exchange (hfit : Fitting image) (s : Session) (e : Event) (h : Inv image s)
    (hok : Undisturbed s e) : Inv image (exchange e s) := by
  obtain ⟨relay, boot, sent, again⟩ := s
  cases relay with
  | failed => exact h
  | ended rest => exact h
  | sending p rest =>
    have hsending : Sending image sent p rest boot again := h
    unfold exchange
    by_cases hsend : Sendable (hexData boot.addrLow boot.addrHigh p)
    · simp only [if_pos hsend]
      cases e with
      | lost => exact h
      | arrives answered =>
        cases again with
        | false =>
          exact (hsending.arriveFirst hfit (hok (hsending.waiting rfl).1.nextLine)).conclude
        | true =>
          have hloaded := loaded_load boot (lt_of_le_of_lt hsending.short (by decide))
          exact (hsending.arriveAgain hfit (fun _ => hloaded) hok).conclude
      | expires answered =>
        cases again with
        | false => exact hsending.expire hfit (hok (hsending.waiting rfl).1.nextLine)
        | true =>
          have hloaded : (∀ x ∈ p, x.data ≠ []) → Loaded p (load [] boot) := fun hdata =>
            (hsending.taken rfl hdata).loaded
          exact (hsending.arriveAgain hfit hloaded hok).conclude
    · simp only [if_neg hsend]
      exact h

/-- **A session** whose packets are told apart leaves the image in the flash of a device, and
nothing else, whatever was lost. -/
theorem session_flashes (hfit : Fitting image) (flash temporary buffer : Nat → UInt8)
    (temp dataLength addrLow addrHigh : UInt8) {events : List Event}
    (hmeets : Lib.Runs.Meets exchange Undisturbed
      (start image (begin flash temporary buffer temp dataLength addrLow addrHigh)) events)
    (hend : (Lib.Runs.run exchange
      (start image (begin flash temporary buffer temp dataLength addrLow addrHigh)) events).relay =
        .ended []) :
    Flashed image (Lib.Runs.run exchange
      (start image (begin flash temporary buffer temp dataLength addrLow addrHigh)) events).boot := by
  have hfresh : Fresh (begin flash temporary buffer temp dataLength addrLow addrHigh) :=
    ⟨rfl, rfl, rfl, rfl⟩
  have hstart : Inv image
      (start image (begin flash temporary buffer temp dataLength addrLow addrHigh)) :=
    inv_next rfl ⟨rfl, rfl, rfl⟩
      ⟨⟨rfl, .inl ⟨rfl, hfresh⟩⟩, fun _ => hfresh, fun q hq => by cases hq⟩ fun q hq => by cases hq
  have hinv := Lib.Runs.run_invariant (inv_exchange hfit) hstart hmeets
  unfold Inv at hinv
  rw [hend] at hinv
  exact hinv rfl

end Sessions

/-- A line of two bytes. -/
def twoBytes (b : UInt8) (address : Nat) : Record := ⟨address, 0, [b, b], show 2 < 256 by decide⟩

/-- An image in lines of two bytes. -/
def inPairs (b : UInt8) (addresses : List Nat) (hfits : ∀ a ∈ addresses, a + 2 ≤ bootStart) :
    Image where
  memory := fun _ => b
  records := addresses.map (twoBytes b)
  agrees := by
    intro r hr _ i hi
    obtain ⟨a, -, rfl⟩ := List.mem_map.mp hr
    exact List.eq_of_mem_replicate (n := 2) (List.getElem_mem hi)
  fits := by
    intro r hr _
    obtain ⟨a, ha, rfl⟩ := List.mem_map.mp hr
    exact hfits a ha

/-- A bootloader whose flash is empty. -/
def cold : Boot := begin (fun _ => 0xFF) (fun _ => 0xFF) (fun _ => 0) 0 0 1 2

/-- Eight bytes behind the first page, in four lines. -/
def fourLines : Image := inPairs 1 [0x100, 0x102, 0x104, 0x106] (by decide)

theorem fourLines_fitting : Fitting fourLines where
  nonempty := by decide
  types := by decide
  even := by decide
  ends := by
    intro r hr hodd
    obtain ⟨a, -, rfl⟩ := List.mem_map.mp hr
    exact absurd hodd (show 2 % 2 ≠ 1 by decide)
  stretched := by
    simp [Stretched, pages, fourLines, inPairs, twoBytes, firstPage, lastPage, pagesize]
  segments := by decide

/-- Of the first packet one is lost, then an answer is, and the bootloader's wait ends once. -/
theorem fourLines_flashes :
    Flashed fourLines (Lib.Runs.run exchange (start fourLines cold)
      [.lost, .arrives false, .expires false, .arrives true, .arrives true]).boot :=
  session_flashes fourLines_fitting _ _ _ _ _ _ _
    ⟨by decide +kernel, by decide +kernel, by decide +kernel, by decide +kernel, by decide +kernel,
      trivial⟩ rfl

/-- Twelve zeros, in six lines. -/
def sixLines : Image := inPairs 0 [0, 2, 4, 6, 8, 10] (by decide)

/-- The packet with the last line is taken for the one before, and the page is never written. -/
theorem sixLines_not_flashed :
    (Lib.Runs.run exchange (start sixLines cold)
        [.arrives true, .arrives true, .arrives true]).relay = .ended [] ∧
      ¬ Flashed sixLines (Lib.Runs.run exchange (start sixLines cold)
        [.arrives true, .arrives true, .arrives true]).boot := by
  refine ⟨rfl, fun h => ?_⟩
  have hcovers : sixLines.Covers 0 :=
    ⟨twoBytes 0 0, List.mem_cons_self, rfl, le_rfl, show 0 < 2 by decide⟩
  have herased : (Lib.Runs.run exchange (start sixLines cold)
      [.arrives true, .arrives true, .arrives true]).boot.flash 0 = 0xFF := by decide +kernel
  have hholds := h.holds 0 hcovers
  rw [herased] at hholds
  exact absurd hholds (by decide)

end Hexabus.Firmware.RadioBootloader
