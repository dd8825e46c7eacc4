import Mathlib.Data.List.Basic
import Mathlib.Data.List.Induction
import Mathlib.Tactic.Common

/-!
# The USB bootloader

`ProgramFlash` of the USB stick's `Bootloader.c`, a line of the hex file at a time, over the flash
that its page commands change: a page is erased to ones, a write can only clear bits, and both
leave the temporary page buffer erased. The 16-bit variables wrap around. `programRS232` of
`BootloaderFlasher.c` sends an image in lines of 16 bytes and sends a line again that the
bootloader has not accepted. The data and the checksum of a line may arrive changed; a line that
has changed is one whose checksum is wrong.
-/

namespace Hexabus.Firmware.UsbBootloader

/-- `PAGESIZE`. -/
def pagesize : Nat := 256

/-- The flash with its temporary page buffer and the pages that have been erased or written, and
the variables of `ProgramFlash` that a line leaves to the next one. -/
structure Boot where
  flash : Nat → UInt8
  temporary : Nat → UInt8
  touched : List Nat
  buffer : Nat → UInt8
  pagePos : Nat
  startAddress : Nat

/-! ## Page commands -/

/-- `boot_erase_page`. -/
def bootErasePage (address : Nat) (s : Boot) : Boot :=
  { s with
    flash := fun a => if a / pagesize = address / pagesize then 0xFF else s.flash a
    temporary := fun _ => 0xFF
    touched := s.touched ++ [address / pagesize] }

/-- `boot_write_page`. -/
def bootWritePage (address : Nat) (s : Boot) : Boot :=
  let written := fun a => s.flash a &&& s.temporary (a % pagesize)
  { s with
    flash := fun a => if a / pagesize = address / pagesize then written a else s.flash a
    temporary := fun _ => 0xFF
    touched := s.touched ++ [address / pagesize] }

/-- `boot_write_buffer`, with the two bytes of the word. -/
def bootWriteBuffer (baseaddr pageaddr : Nat) (low high : UInt8) (s : Boot) : Boot :=
  let i := (baseaddr + pageaddr) % pagesize / 2 * 2
  { s with temporary := fun j => if j = i then low else if j = i + 1 then high else s.temporary j }

/-! ## A line -/

/-- A line as it was received. -/
structure Line where
  dataLength : UInt8
  high : UInt8
  low : UInt8
  type : UInt8
  data : List UInt8
  checksum : UInt8

/-- `ProgramFlash`: the bytes that are fetched for a line; there is none without a colon. -/
def readLine : List UInt8 → Option Line
  | colon :: dataLength :: high :: low :: type :: rest =>
    if colon = 0x3a then
      some ⟨dataLength, high, low, type, rest.take dataLength.toNat, rest.getD dataLength.toNat 0⟩
    else none
  | _ => none

/-- The checksum that is computed for a line. -/
def Line.computed (l : Line) : UInt8 :=
  0xFF - l.data.foldl (· + ·) (l.dataLength + l.high + l.low + l.type) + 1

/-- `currentAddress`. -/
def Line.currentAddress (l : Line) : Nat := l.high.toNat * 256 + l.low.toNat

/-- The page of a line with data. -/
def enter (currentAddress : Nat) (s : Boot) : Boot :=
  let t :=
    if s.startAddress = 0xFFFF then
      let t := { s with startAddress := pagesize * (currentAddress / pagesize) }
      if t.pagePos = 0 then bootErasePage t.startAddress t else t
    else if s.startAddress > currentAddress ∨
        (s.startAddress + pagesize) % 65536 ≤ currentAddress then
      let t := bootWritePage s.startAddress s
      let t := { t with pagePos := 0, startAddress := pagesize * (currentAddress / pagesize) }
      bootErasePage t.startAddress t
    else s
  { t with pagePos := (currentAddress + 65536 - t.startAddress) % 65536 }

/-- A full page is written, and the next one is begun. -/
def turn (currentAddress bufferPos : Nat) (s : Boot) : Boot :=
  if s.pagePos ≥ pagesize then
    let t := bootWritePage s.startAddress s
    let t := { t with startAddress := (currentAddress + bufferPos) % 65536, pagePos := 0 }
    bootErasePage t.startAddress t
  else s

/-- A word of the line. -/
def word (currentAddress bufferPos : Nat) (s : Boot) : Boot :=
  let t := turn currentAddress bufferPos s
  let t := bootWriteBuffer currentAddress bufferPos (t.buffer bufferPos) (t.buffer (bufferPos + 1)) t
  { t with pagePos := (t.pagePos + 2) % 65536 }

/-- The words of the line from a position on. (With 255 bytes the position would wrap around.) -/
def words (currentAddress : Nat) : Nat → Nat → Boot → Boot
  | 0, _, s => s
  | n + 1, bufferPos, s => words currentAddress n (bufferPos + 2) (word currentAddress bufferPos s)

/-- `ProgramFlash`: what is done with a line, the answer, and whether a line follows. -/
def line (s : Boot) (l : Line) : Boot × Option UInt8 × Bool :=
  let t := { s with buffer := fun i => l.data.getD i (s.buffer i) }
  if l.computed = l.checksum then
    let nextLine := l.type != 0x01
    if l.dataLength ≠ 0 then
      (words l.currentAddress ((l.dataLength.toNat + 1) / 2) 0 (enter l.currentAddress t), some 0x05,
        nextLine)
    else (t, none, nextLine)
  else
    ({ t with pagePos := (t.pagePos + 65536 - l.dataLength.toNat) % 65536 }, some 0x06, true)

/-- `ProgramFlash` before the first line. -/
def begin (flash buffer : Nat → UInt8) : Boot := ⟨flash, fun _ => 0xFF, [], buffer, 0, 0xFFFF⟩

/-- `ProgramFlash` behind the last line. -/
def finish (s : Boot) : Boot := bootWritePage s.startAddress s

/-! ## The flasher -/

/-- `BOOT_START` of the makefile. -/
def bootStart : Nat := 0x1E000

/-- What `load_file` has loaded: an image that begins at an even address and lies below the
bootloader. -/
structure Image where
  memory : Nat → UInt8
  minaddr : Nat
  maxaddr : Nat
  even : minaddr % 2 = 0
  nonempty : minaddr < maxaddr
  fits : maxaddr ≤ bootStart

variable (image : Image)

/-- `pre[1]`. -/
def recordLength (addr : Nat) : Nat :=
  if image.maxaddr - addr < 0x10 then image.maxaddr - addr else 0x10

/-- The bytes of a line's data. -/
def recordData (addr : Nat) : List UInt8 :=
  (List.range (recordLength image addr)).map fun i => image.memory (addr + i)

/-- `pre`. -/
def pre (addr : Nat) : List UInt8 :=
  [0x3a, UInt8.ofNat (recordLength image addr), UInt8.ofNat (addr >>> 8), UInt8.ofNat (addr % 256),
    0x00]

/-- `hash`. -/
def hash (addr : Nat) : UInt8 :=
  let sum := UInt8.ofNat (recordLength image addr) + UInt8.ofNat (addr >>> 8) +
    UInt8.ofNat (addr % 256) + 0x00
  0xFF - (recordData image addr).foldl (· + ·) sum + 1

/-- A line as it is sent. -/
def record (addr : Nat) : List UInt8 := pre image addr ++ (recordData image addr ++ [hash image addr])

/-- The last line, `end`. -/
def endRecord : List UInt8 := [0x3a, 0, 0, 0, 1, 0xFF]

/-! ## A transfer -/

/-- How the bytes of a line's data and its checksum are changed. -/
abbrev Noise := Nat → UInt8

/-- A line as it arrives. -/
def arrive (noise : Noise) (bytes : List UInt8) : List UInt8 :=
  bytes.take 5 ++ (bytes.drop 5).mapIdx fun i b => b ^^^ noise i

/-- A line is sent, and answered. -/
def exchange (x : Boot × Nat) (noise : Noise) : Boot × Nat :=
  if x.2 < image.maxaddr then
    match readLine (arrive noise (record image x.2)) with
    | none => x
    | some l =>
      let r := line x.1 l
      (r.1, if r.2.1 = some 0x05 then x.2 + recordLength image x.2 else x.2)
  else x

/-- The lines that are sent, each with what happens to it on its way. -/
def transfer (s : Boot) (noises : List Noise) : Boot × Nat :=
  noises.foldl (exchange image) (s, image.minaddr)

/-- The last line comes, and the program ends. -/
def conclude (s : Boot) : Boot :=
  match readLine endRecord with
  | none => s
  | some l => finish (line s l).1

/-- Whether a line arrives as it was sent. -/
def Intact (addr : Nat) (noise : Noise) : Prop := arrive noise (record image addr) = record image addr

/-- A line that has changed has a wrong checksum. -/
def Detected (addr : Nat) (noise : Noise) : Prop :=
  Intact image addr noise ∨
    ∀ l ∈ readLine (arrive noise (record image addr)), l.computed ≠ l.checksum

instance (addr : Nat) (noise : Noise) : Decidable (Intact image addr noise) :=
  inferInstanceAs (Decidable (_ = _))

/-- Where the flasher is behind some lines. -/
def position (noises : List Noise) : Nat :=
  noises.foldl (fun addr noise =>
    if addr < image.maxaddr ∧ Intact image addr noise then addr + recordLength image addr else addr)
    image.minaddr

/-- Every line that has changed on its way has a wrong checksum. -/
def Heard (noises : List Noise) : Prop :=
  ∀ before noise after, noises = before ++ noise :: after → Detected image (position image before) noise

/-! ## What a line does -/

theorem recordLength_eq (addr : Nat) :
    recordLength image addr = min 16 (image.maxaddr - addr) := by
  unfold recordLength
  split <;> omega

theorem length_recordData (addr : Nat) :
    (recordData image addr).length = recordLength image addr := by
  rw [recordData, List.length_map, List.length_range]

theorem toNat_recordLength (addr : Nat) :
    (UInt8.ofNat (recordLength image addr)).toNat = recordLength image addr := by
  have hle := recordLength_eq image addr
  rw [UInt8.toNat_ofNat']
  omega

/-- A line as it is sent is read as it was made. -/
theorem readLine_record (addr : Nat) :
    readLine (record image addr) = some ⟨UInt8.ofNat (recordLength image addr),
      UInt8.ofNat (addr >>> 8), UInt8.ofNat (addr % 256), 0x00, recordData image addr,
      hash image addr⟩ := by
  have htake : (recordData image addr ++ [hash image addr]).take (recordLength image addr) =
      recordData image addr := by rw [← length_recordData, List.take_left]
  have hget : (recordData image addr ++ [hash image addr]).getD (recordLength image addr) 0 =
      hash image addr := by rw [← length_recordData]; simp
  show some (Line.mk _ _ _ _ ((recordData image addr ++ [hash image addr]).take
    (UInt8.ofNat (recordLength image addr)).toNat) ((recordData image addr ++
    [hash image addr]).getD (UInt8.ofNat (recordLength image addr)).toNat 0)) = _
  rw [toNat_recordLength, htake, hget]

/-- A line that arrives is read with its own address and length. -/
theorem readLine_arrive (addr : Nat) (noise : Noise) :
    ∃ data checksum, readLine (arrive noise (record image addr)) =
      some ⟨UInt8.ofNat (recordLength image addr), UInt8.ofNat (addr >>> 8),
        UInt8.ofNat (addr % 256), 0x00, data, checksum⟩ := ⟨_, _, rfl⟩

variable {image}

theorem currentAddress_eq {addr : Nat} {l : Line} (hh : l.high = UInt8.ofNat (addr >>> 8))
    (hl : l.low = UInt8.ofNat (addr % 256)) : l.currentAddress = addr % 65536 := by
  rw [Line.currentAddress, hh, hl, UInt8.toNat_ofNat', UInt8.toNat_ofNat', Nat.shiftRight_eq_div_pow]
  omega

theorem exchange_eq {s : Boot} {addr : Nat} {noise : Noise} {l : Line} (hlt : addr < image.maxaddr)
    (h : readLine (arrive noise (record image addr)) = some l) :
    exchange image (s, addr) noise =
      ((line s l).1, if (line s l).2.1 = some 0x05 then addr + recordLength image addr else addr) := by
  unfold exchange
  rw [if_pos hlt, h]

theorem line_right {s : Boot} {l : Line} (h : l.computed = l.checksum) (hne : l.dataLength ≠ 0) :
    line s l = (words l.currentAddress ((l.dataLength.toNat + 1) / 2) 0
      (enter l.currentAddress { s with buffer := fun i => l.data.getD i (s.buffer i) }), some 0x05,
        l.type != 0x01) := by
  unfold line
  rw [if_pos h, if_pos hne]

theorem line_wrong {s : Boot} {l : Line} (h : l.computed ≠ l.checksum) :
    line s l = ({ s with buffer := fun i => l.data.getD i (s.buffer i)
                         pagePos := (s.pagePos + 65536 - l.dataLength.toNat) % 65536 },
      some 0x06, true) := by
  unfold line
  rw [if_neg h]

/-- **A line that arrives as it was sent** is taken. -/
theorem exchange_intact {s : Boot} {addr : Nat} {noise : Noise} (hlt : addr < image.maxaddr)
    (h : Intact image addr noise) :
    exchange image (s, addr) noise =
      (words (addr % 65536) ((recordLength image addr + 1) / 2) 0 (enter (addr % 65536)
        { s with buffer := fun i => (recordData image addr).getD i (s.buffer i) }),
        addr + recordLength image addr) := by
  have hne : UInt8.ofNat (recordLength image addr) ≠ 0 := by
    intro heq
    have hnat := toNat_recordLength image addr
    have hlen := recordLength_eq image addr
    rw [heq, UInt8.toNat_zero] at hnat
    omega
  have hread : readLine (arrive noise (record image addr)) = _ :=
    (congrArg readLine h).trans (readLine_record image addr)
  rw [exchange_eq hlt hread, line_right rfl hne, toNat_recordLength, currentAddress_eq rfl rfl]
  rfl

/-- **A line that has changed** is sent again. -/
theorem exchange_changed {s : Boot} {addr : Nat} {noise : Noise} (hlt : addr < image.maxaddr)
    (h : Detected image addr noise) (hchanged : ¬ Intact image addr noise) :
    ∃ buffer, exchange image (s, addr) noise =
      ({ s with buffer := buffer
                pagePos := (s.pagePos + 65536 - recordLength image addr) % 65536 }, addr) := by
  obtain ⟨data, checksum, hread⟩ := readLine_arrive image addr noise
  have hwrong := h.resolve_left hchanged _ hread
  refine ⟨fun i => data.getD i (s.buffer i), ?_⟩
  rw [exchange_eq hlt hread, line_wrong hwrong, toNat_recordLength]
  rfl

theorem exchange_end {s : Boot} {addr : Nat} {noise : Noise} (hle : image.maxaddr ≤ addr) :
    exchange image (s, addr) noise = (s, addr) := if_neg (Nat.not_lt.mpr hle)

theorem transfer_append (s : Boot) (noises : List Noise) (noise : Noise) :
    transfer image s (noises ++ [noise]) = exchange image (transfer image s noises) noise := by
  rw [transfer, List.foldl_append, List.foldl_cons, List.foldl_nil, transfer]

theorem position_append (noises : List Noise) (noise : Noise) :
    position image (noises ++ [noise]) =
      if position image noises < image.maxaddr ∧ Intact image (position image noises) noise then
        position image noises + recordLength image (position image noises)
      else position image noises := by
  rw [position, List.foldl_append, List.foldl_cons, List.foldl_nil, position]

theorem Heard.init {noises : List Noise} {noise : Noise} (h : Heard image (noises ++ [noise])) :
    Heard image noises ∧ Detected image (position image noises) noise := by
  refine ⟨fun before n after heq => h before n (after ++ [noise]) ?_, h noises noise [] rfl⟩
  rw [heq, List.append_assoc, List.cons_append]

/-- The flasher is where the answers have brought it. -/
theorem transfer_position {s : Boot} {noises : List Noise} (h : Heard image noises) :
    (transfer image s noises).2 = position image noises := by
  induction noises using List.reverseRecOn with
  | nil => rfl
  | append_singleton noises noise ih =>
    obtain ⟨hinit, hdetected⟩ := h.init
    have hprev := ih hinit
    rw [transfer_append, position_append, ← hprev]
    obtain ⟨t, ht⟩ : ∃ t, transfer image s noises = (t, (transfer image s noises).2) := ⟨_, rfl⟩
    rw [ht]
    by_cases hlt : (transfer image s noises).2 < image.maxaddr
    · by_cases hintact : Intact image (transfer image s noises).2 noise
      · rw [exchange_intact hlt hintact, if_pos ⟨hlt, hintact⟩]
      · obtain ⟨buffer, hex⟩ := exchange_changed (s := t) hlt (hprev ▸ hdetected) hintact
        rw [hex, if_neg fun h => hintact h.2]
    · rw [exchange_end (Nat.not_lt.mp hlt), if_neg fun h => hlt h.1]

end Hexabus.Firmware.UsbBootloader
