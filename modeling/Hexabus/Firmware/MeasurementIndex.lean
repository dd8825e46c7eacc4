import Hexabus.Firmware.Memory
import Hexabus.Lib.Store

/-!
# The index of the e-paper display

`measurement_index.c`: a table on the pages of the flash chip, from a temperature and a
humidity to a screen. Three loops look for its end. The flash is one store of bytes, page
after page.
-/

namespace Hexabus.Firmware.Epaper

open Lib.Bytes Lib.Store

/-! ## The flash -/

/-- `AT45_PAGE_SIZE`. -/
def at45PageSize : Nat := 528

/-- The number of pages of the chip. -/
def at45Pages : Nat := 4096

/-- `at45_read_page`, which fails behind the last page. -/
def at45ReadPage (flash : Mem) (addrPage : Nat) : Option (List UInt8) :=
  if addrPage < at45Pages then some (readBlock flash (at45PageSize * addrPage) at45PageSize)
  else none

/-- `struct index_entry_t`. -/
structure IndexEntry where
  temp : UInt8
  hum : UInt8
  pageIdx : UInt16
  deriving DecidableEq

/-- Its size, and the record that bytes hold. -/
def IndexEntry.size : Nat := 4

def IndexEntry.ofBytes (bytes : List UInt8) : IndexEntry where
  temp := bytes.getD 0 0
  hum := bytes.getD 1 0
  pageIdx := UInt16.ofNat (ofLe ((bytes.drop 2).take 2))

/-- `INDEX_ENTRIES_PER_PAGE`. -/
def indexEntriesPerPage : Nat := at45PageSize / IndexEntry.size

def entryIn (page : List UInt8) (indexInPage : Nat) : IndexEntry :=
  .ofBytes ((page.drop (IndexEntry.size * indexInPage)).take IndexEntry.size)

/-! ## The functions -/

/-- `AT45_FAILURE`, `AT45_TABLE_SUCCESS` and `AT45_END_OF_TABLE`. -/
inductive TableResult
  | failure | tableSuccess | endOfTable
  deriving DecidableEq

/-- `index_get_entry`, with what `*entry` holds before and after. -/
def indexGetEntry (flash : Mem) (entry : IndexEntry) (index : UInt16) :
    TableResult × IndexEntry :=
  match at45ReadPage flash (index.toNat / indexEntriesPerPage) with
  | none => (.failure, entry)
  | some page =>
    let entry := entryIn page (index.toNat % indexEntriesPerPage)
    if entry.temp ≠ 0xde ∧ entry.hum ≠ 0xad ∧ entry.pageIdx ≠ 0xbeef then (.tableSuccess, entry)
    else (.endOfTable, entry)

/-- The test for the end in the other two loops. -/
def endMarker (entry : IndexEntry) : Bool :=
  entry.temp == 0xde && entry.hum == 0xad && entry.pageIdx == 0xbeef

section Scan

variable {σ ρ : Type} (flash : Mem) (visit : σ → IndexEntry → Except ρ σ)

/-- The two loops over pages and the entries of a page, from page `indexPage` on; the
function for an entry may leave them. They also end when a page cannot be read, which
happens to one of the `n` pages at the latest. -/
def scanPages : Nat → Nat → σ → Except ρ σ
  | 0, _, s => .ok s
  | n + 1, indexPage, s =>
    match at45ReadPage flash indexPage with
    | none => .ok s
    | some page => do
      let s ← (List.range indexEntriesPerPage).foldlM (fun s i => visit s (entryIn page i)) s
      scanPages n (indexPage + 1) s

end Scan

/-- The body of the loops of `index_find_entry`. -/
def findVisit (temp hum : UInt8) (_ entry : IndexEntry) :
    Except (TableResult × IndexEntry) IndexEntry :=
  if endMarker entry then .error (.endOfTable, entry)
  else if entry.temp = temp ∧ entry.hum = hum then .error (.tableSuccess, entry)
  else .ok entry

/-- `index_find_entry`. -/
def indexFindEntry (flash : Mem) (entry : IndexEntry) (temp hum : UInt8) :
    TableResult × IndexEntry :=
  match scanPages flash (findVisit temp hum) (at45Pages + 1) 0 entry with
  | .error result => result
  | .ok entry => (.failure, entry)

/-- `PAGES_PER_SCREEN`. -/
def pagesPerScreen : UInt16 := 11

/-- The body of the loops of `index_get_special_screen`; the state is `last_page`. -/
def specialVisit (lastPage : UInt16) (entry : IndexEntry) : Except UInt16 UInt16 :=
  if endMarker entry then .error (lastPage + pagesPerScreen) else .ok entry.pageIdx

/-- `index_get_special_screen`, with the static `first_special_screen` before and after. -/
def indexGetSpecialScreen (flash : Mem) (firstSpecialScreen : UInt16) (id : UInt8) :
    UInt16 × UInt16 :=
  let firstSpecialScreen :=
    if firstSpecialScreen = 0 then
      match scanPages flash specialVisit (at45Pages + 1) 0 0 with
      | .error first => first
      | .ok _ => firstSpecialScreen
    else firstSpecialScreen
  if firstSpecialScreen = 0 then (0, firstSpecialScreen)
  else (firstSpecialScreen + id.toUInt16 * pagesPerScreen, firstSpecialScreen)

/-- What `index_get_last_entry` does: its result, what it leaves in `*entry`, and the indices
of the entries it has read. -/
structure LastEntry where
  result : TableResult
  entry : IndexEntry
  read : List UInt16

/-- The loop of `index_get_last_entry` from an index on, as far as `fuel` rounds go. -/
def lastEntryFrom (flash : Mem) : Nat → UInt16 → IndexEntry → List UInt16 → Option LastEntry
  | 0, _, _, _ => none
  | fuel + 1, index, entry, read =>
    let (result, entry) := indexGetEntry flash entry index
    let read := read ++ [index]
    match result with
    | .endOfTable =>
      some ⟨.tableSuccess, (indexGetEntry flash entry (index - 1)).2, read ++ [index - 1]⟩
    | .failure => some ⟨.failure, entry, read⟩
    | .tableSuccess => lastEntryFrom flash fuel (index + 1) entry read

/-- `index_get_last_entry`; without a result when it is still running after `fuel` rounds. -/
def indexGetLastEntry (flash : Mem) (fuel : Nat) (entry : IndexEntry) : Option LastEntry :=
  lastEntryFrom flash fuel 0 entry []

/-! ## The table -/

/-- Entry `i` of the flash. -/
def entryAt (flash : Mem) (i : Nat) : IndexEntry :=
  .ofBytes (readBlock flash (IndexEntry.size * i) IndexEntry.size)

/-- The number of entries the flash has room for. -/
def flashEntries : Nat := at45Pages * indexEntriesPerPage

/-- The number of entries before the end, if the table has one. -/
def tableLength (flash : Mem) : Nat :=
  ((List.range flashEntries).find? fun i => endMarker (entryAt flash i)).getD flashEntries

/-- An entry has the key. -/
def IndexEntry.hasKey (entry : IndexEntry) (temp hum : UInt8) : Prop :=
  entry.temp = temp ∧ entry.hum = hum

/-- The functions agree about a table. -/
structure Agrees (flash : Mem) : Prop where
  /-- An entry is the end for `index_get_entry` exactly when it is for the others. -/
  ends : ∀ (entry : IndexEntry) (index : UInt16), index.toNat ≤ tableLength flash →
    ((indexGetEntry flash entry index).1 = .endOfTable ↔
      endMarker (entryAt flash index.toNat) = true)
  /-- The special screens come behind the last entry before that end. -/
  special : ∀ id, 0 < tableLength flash → tableLength flash < flashEntries →
    (indexGetSpecialScreen flash 0 id).2 =
      (entryAt flash (tableLength flash - 1)).pageIdx + pagesPerScreen
  /-- The first entry before the end that has the key is found, -/
  finds : ∀ (entry : IndexEntry) (temp hum : UInt8) (i : Nat), i < tableLength flash →
    (entryAt flash i).hasKey temp hum → (∀ j, j < i → ¬ (entryAt flash j).hasKey temp hum) →
      indexFindEntry flash entry temp hum = (.tableSuccess, entryAt flash i)
  /-- and no other. -/
  findsNone : ∀ (entry : IndexEntry) (temp hum : UInt8),
    (∀ i, i < tableLength flash → ¬ (entryAt flash i).hasKey temp hum) →
      (indexFindEntry flash entry temp hum).1 ≠ .tableSuccess
  /-- The last entry is found, and none behind the end is read. -/
  last : ∀ entry, ∃ fuel found, indexGetLastEntry flash fuel entry = some found ∧
    (∀ index ∈ found.read, index.toNat ≤ tableLength flash) ∧
    (0 < tableLength flash → found.result = .tableSuccess ∧
      found.entry = entryAt flash (tableLength flash - 1))

/-- An entry has nothing of the end marker. -/
def IndexEntry.Plain (entry : IndexEntry) : Prop :=
  entry.temp ≠ 0xde ∧ entry.hum ≠ 0xad ∧ entry.pageIdx ≠ 0xbeef

/-! ## Entries and pages -/

theorem entryIn_readBlock (flash : Mem) (p : Nat) {i : Nat} (h : i < indexEntriesPerPage) :
    entryIn (readBlock flash (at45PageSize * p) at45PageSize) i =
      entryAt flash (indexEntriesPerPage * p + i) := by
  have hi : i < 132 := h
  unfold entryIn entryAt
  rw [drop_readBlock _ _ _ _ (by simp only [IndexEntry.size, at45PageSize]; omega),
    take_readBlock _ _ _ _ (by simp only [IndexEntry.size, at45PageSize]; omega)]
  congr 2
  simp only [at45PageSize, IndexEntry.size, indexEntriesPerPage]
  omega

/-- The 16-bit index is always on the chip. -/
theorem indexGetEntry_eq (flash : Mem) (entry : IndexEntry) (index : UInt16) :
    indexGetEntry flash entry index =
      if (entryAt flash index.toNat).temp ≠ 0xde ∧ (entryAt flash index.toNat).hum ≠ 0xad ∧
          (entryAt flash index.toNat).pageIdx ≠ 0xbeef then
        (.tableSuccess, entryAt flash index.toNat)
      else (.endOfTable, entryAt flash index.toNat) := by
  have hlt : index.toNat < 65536 := index.toNat_lt
  have hpage : index.toNat / indexEntriesPerPage < at45Pages := by
    simp only [indexEntriesPerPage, at45PageSize, IndexEntry.size, at45Pages]
    omega
  have hin : entryIn (readBlock flash (at45PageSize * (index.toNat / indexEntriesPerPage))
      at45PageSize) (index.toNat % indexEntriesPerPage) = entryAt flash index.toNat := by
    rw [entryIn_readBlock _ _ (Nat.mod_lt _ (by decide)), Nat.div_add_mod]
  unfold indexGetEntry at45ReadPage
  rw [if_pos hpage]
  simp only [hin]

theorem indexGetEntry_of_plain {flash : Mem} {index : UInt16}
    (h : (entryAt flash index.toNat).Plain) (entry : IndexEntry) :
    indexGetEntry flash entry index = (.tableSuccess, entryAt flash index.toNat) :=
  (indexGetEntry_eq flash entry index).trans (if_pos h)

theorem indexGetEntry_of_not_plain {flash : Mem} {index : UInt16}
    (h : ¬ (entryAt flash index.toNat).Plain) (entry : IndexEntry) :
    indexGetEntry flash entry index = (.endOfTable, entryAt flash index.toNat) :=
  (indexGetEntry_eq flash entry index).trans (if_neg h)

theorem not_plain_of_endMarker {entry : IndexEntry} (h : endMarker entry = true) :
    ¬ entry.Plain := by
  intro hplain
  unfold endMarker at h
  simp only [Bool.and_eq_true, beq_iff_eq] at h
  exact hplain.1 h.1.1

/-! ## The end of the table -/

theorem tableLength_le (flash : Mem) : tableLength flash ≤ flashEntries := by
  unfold tableLength
  cases hfind : (List.range flashEntries).find? fun i => endMarker (entryAt flash i) with
  | none => exact Nat.le_refl _
  | some k => exact (List.mem_range.mp (List.find?_range_eq_some.mp hfind).2.1).le

theorem endMarker_tableLength {flash : Mem} (h : tableLength flash < flashEntries) :
    endMarker (entryAt flash (tableLength flash)) = true := by
  unfold tableLength at h ⊢
  cases hfind : (List.range flashEntries).find? fun i => endMarker (entryAt flash i) with
  | none =>
    rw [hfind] at h
    exact absurd h (Nat.lt_irrefl _)
  | some k => exact (List.find?_range_eq_some.mp hfind).1

theorem not_endMarker_of_lt {flash : Mem} {i : Nat} (h : i < tableLength flash) :
    endMarker (entryAt flash i) = false := by
  have hle := tableLength_le flash
  unfold tableLength at h hle
  cases hfind : (List.range flashEntries).find? fun i => endMarker (entryAt flash i) with
  | none =>
    have hnone := List.find?_eq_none.mp hfind i
    rw [hfind] at h
    simpa using hnone (List.mem_range.mpr h)
  | some k =>
    have hfirst := (List.find?_range_eq_some.mp hfind).2.2
    rw [hfind] at h
    simpa using hfirst i h

/-! ## The two loops over the pages -/

section Scan

variable {σ ρ : Type} {flash : Mem} {visit : σ → IndexEntry → Except ρ σ}

theorem foldlM_congr {f f' : σ → Nat → Except ρ σ} {l : List Nat}
    (h : ∀ s, ∀ i ∈ l, f s i = f' s i) (s : σ) : l.foldlM f s = l.foldlM f' s := by
  induction l generalizing s with
  | nil => rfl
  | cons i l ih =>
    rw [List.foldlM_cons, List.foldlM_cons, h s i List.mem_cons_self]
    congr 1
    funext s
    exact ih (fun s j hj => h s j (List.mem_cons_of_mem i hj)) s

/-- The loops over the pages are one loop over the entries. -/
theorem scanPages_from (n p : Nat) (h : p + n = at45Pages + 1) (hn : 0 < n) (s : σ) :
    scanPages flash visit n p s =
      (List.range ((at45Pages - p) * indexEntriesPerPage)).foldlM
        (fun s i => visit s (entryAt flash (indexEntriesPerPage * p + i))) s := by
  induction n generalizing p s with
  | zero => omega
  | succ n ih =>
    unfold scanPages at45ReadPage
    by_cases hp : p < at45Pages
    · rw [if_pos hp]
      have hsplit : (at45Pages - p) * indexEntriesPerPage =
          indexEntriesPerPage + (at45Pages - (p + 1)) * indexEntriesPerPage := by
        have hsub : at45Pages - p = at45Pages - (p + 1) + 1 := by omega
        rw [hsub, Nat.add_mul, Nat.one_mul, Nat.add_comm]
      have hpage : (List.range indexEntriesPerPage).foldlM (fun s i => visit s
            (entryIn (readBlock flash (at45PageSize * p) at45PageSize) i)) s =
          (List.range indexEntriesPerPage).foldlM
            (fun s i => visit s (entryAt flash (indexEntriesPerPage * p + i))) s := by
        apply foldlM_congr
        intro s i hi
        rw [entryIn_readBlock _ _ (List.mem_range.mp hi)]
      have hnext : ∀ i, indexEntriesPerPage * p + (indexEntriesPerPage + i) =
          indexEntriesPerPage * (p + 1) + i := by
        intro i
        rw [Nat.mul_add, Nat.mul_one, Nat.add_assoc]
      simp only [hpage, hsplit, List.range_add, List.foldlM_append, List.foldlM_map, hnext]
      congr 1
      funext s
      exact ih (p + 1) (by omega) (by omega) s
    · have hpages : at45Pages - p = 0 := by omega
      rw [if_neg hp, hpages, Nat.zero_mul]
      rfl

theorem scanPages_eq (s : σ) :
    scanPages flash visit (at45Pages + 1) 0 s =
      (List.range flashEntries).foldlM (fun s i => visit s (entryAt flash i)) s := by
  rw [scanPages_from _ _ (Nat.zero_add _) (Nat.succ_pos _)]
  simp only [Nat.mul_zero, Nat.zero_add, Nat.sub_zero]
  rfl

variable {g : IndexEntry → σ}

/-- Entries that do not leave the loop. -/
theorem visit_prefix {k : Nat} (s : σ)
    (hgo : ∀ j, j < k → ∀ s, visit s (entryAt flash j) = .ok (g (entryAt flash j))) :
    (List.range k).foldlM (fun s i => visit s (entryAt flash i)) s =
      .ok (if k = 0 then s else g (entryAt flash (k - 1))) := by
  induction k with
  | zero => rfl
  | succ k ih =>
    rw [List.range_succ, List.foldlM_append, ih fun j hj => hgo j (by omega)]
    have hlast := hgo k (Nat.lt_succ_self k) (if k = 0 then s else g (entryAt flash (k - 1)))
    rw [if_neg (Nat.succ_ne_zero k), Nat.add_sub_cancel, ← hlast]
    exact bind_pure (visit (if k = 0 then s else g (entryAt flash (k - 1))) (entryAt flash k))

/-- The first entry that leaves the loop. -/
theorem visit_leaves {n k : Nat} {r : ρ} (s : σ) (hk : k < n)
    (hgo : ∀ j, j < k → ∀ s, visit s (entryAt flash j) = .ok (g (entryAt flash j)))
    (hstop : visit (if k = 0 then s else g (entryAt flash (k - 1))) (entryAt flash k) = .error r) :
    (List.range n).foldlM (fun s i => visit s (entryAt flash i)) s = .error r := by
  obtain ⟨m, rfl⟩ := Nat.exists_eq_add_of_lt hk
  have hsplit : List.range (k + m + 1) =
      List.range k ++ k :: (List.range m).map fun i => k + (i + 1) := by
    rw [Nat.add_assoc, List.range_add, List.range_succ_eq_map, List.map_cons, List.map_map]
    rfl
  rw [hsplit, List.foldlM_append, visit_prefix s hgo]
  show List.foldlM (fun s i => visit s (entryAt flash i))
    (if k = 0 then s else g (entryAt flash (k - 1))) (k :: _) = .error r
  rw [List.foldlM_cons, hstop]
  rfl

end Scan

/-! ## What each function finds -/

variable {flash : Mem}

/-- The special screens come behind the last entry, for every table with an end. -/
theorem specialScreen_found (id : UInt8) (hlen : 0 < tableLength flash)
    (hend : tableLength flash < flashEntries) :
    (indexGetSpecialScreen flash 0 id).2 =
      (entryAt flash (tableLength flash - 1)).pageIdx + pagesPerScreen := by
  have hscan : scanPages flash specialVisit (at45Pages + 1) 0 0 =
      .error ((entryAt flash (tableLength flash - 1)).pageIdx + pagesPerScreen) := by
    rw [scanPages_eq]
    apply @visit_leaves _ _ flash _ IndexEntry.pageIdx _ _ _ _ hend
    · intro j hj s
      unfold specialVisit
      rw [if_neg (by simp [not_endMarker_of_lt hj])]
    · unfold specialVisit
      rw [if_pos (endMarker_tableLength hend), if_neg (by omega)]
  unfold indexGetSpecialScreen
  rw [if_pos rfl, hscan]
  simp only []
  split <;> rfl

/-- Entries before the end that do not have the key are passed. -/
theorem findVisit_passes {temp hum : UInt8} {j : Nat} (hj : j < tableLength flash)
    (hkey : ¬ (entryAt flash j).hasKey temp hum) (s : IndexEntry) :
    findVisit temp hum s (entryAt flash j) = .ok (id (entryAt flash j)) := by
  unfold findVisit
  rw [if_neg (by simp [not_endMarker_of_lt hj])]
  exact if_neg hkey

/-- `index_find_entry` finds the first entry before the end that has the key, -/
theorem findEntry_found (entry : IndexEntry) {temp hum : UInt8} {i : Nat}
    (hi : i < tableLength flash) (hkey : (entryAt flash i).hasKey temp hum)
    (hfirst : ∀ j, j < i → ¬ (entryAt flash j).hasKey temp hum) :
    indexFindEntry flash entry temp hum = (.tableSuccess, entryAt flash i) := by
  have hscan : scanPages flash (findVisit temp hum) (at45Pages + 1) 0 entry =
      .error (.tableSuccess, entryAt flash i) := by
    rw [scanPages_eq]
    apply visit_leaves _ (Nat.lt_of_lt_of_le hi (tableLength_le flash))
      fun j hj => findVisit_passes (hj.trans hi) (hfirst j hj)
    unfold findVisit
    rw [if_neg (by simp [not_endMarker_of_lt hi])]
    exact if_pos hkey
  unfold indexFindEntry
  rw [hscan]

/-- and none if there is none. -/
theorem findEntry_none (entry : IndexEntry) {temp hum : UInt8}
    (hnone : ∀ i, i < tableLength flash → ¬ (entryAt flash i).hasKey temp hum) :
    (indexFindEntry flash entry temp hum).1 ≠ .tableSuccess := by
  unfold indexFindEntry
  rw [scanPages_eq]
  rcases Nat.lt_or_ge (tableLength flash) flashEntries with hend | hfull
  · have hstop : ∀ s, findVisit temp hum s (entryAt flash (tableLength flash)) =
        .error (.endOfTable, entryAt flash (tableLength flash)) := fun s =>
      if_pos (endMarker_tableLength hend)
    rw [visit_leaves entry hend (fun j hj => findVisit_passes hj (hnone j hj)) (hstop _)]
    exact TableResult.noConfusion
  · have hlen : tableLength flash = flashEntries := Nat.le_antisymm (tableLength_le flash) hfull
    rw [← hlen, visit_prefix entry fun j hj => findVisit_passes hj (hnone j hj)]
    exact TableResult.noConfusion

/-! ## The last entry -/

theorem toNat_ofNat {i : Nat} (h : i < 65536) : (UInt16.ofNat i).toNat = i :=
  UInt16.toNat_ofNat_of_lt' h

/-- As long as no entry is the end for `index_get_entry`, the loop goes on, round and round the
16-bit index. -/
theorem lastEntryFrom_none (h : ∀ index : UInt16, (entryAt flash index.toNat).Plain) (fuel : Nat)
    (index : UInt16) (entry : IndexEntry) (read : List UInt16) :
    lastEntryFrom flash fuel index entry read = none := by
  induction fuel generalizing index entry read with
  | zero => rfl
  | succ fuel ih =>
    unfold lastEntryFrom
    simp only [indexGetEntry_of_plain (h index)]
    exact ih _ _ _

/-- The walk from entry `i` to the end behind plain entries. -/
theorem lastEntryFrom_found {n : Nat} (hn : n < 65536) (hpos : 0 < n)
    (hplain : ∀ j, j < n → (entryAt flash j).Plain) (hend : ¬ (entryAt flash n).Plain)
    (k i : Nat) (hi : i + k = n) (entry : IndexEntry) (read : List UInt16)
    (hread : ∀ index ∈ read, index.toNat ≤ n) :
    ∃ found, lastEntryFrom flash (k + 1) (UInt16.ofNat i) entry read = some found ∧
      (∀ index ∈ found.read, index.toNat ≤ n) ∧ found.result = .tableSuccess ∧
      found.entry = entryAt flash (n - 1) := by
  have hindex : (UInt16.ofNat i).toNat = i := toNat_ofNat (by omega)
  have hread' : ∀ index ∈ read ++ [UInt16.ofNat i], index.toNat ≤ n := by
    intro index hmem
    rcases List.mem_append.mp hmem with hmem | hmem
    · exact hread index hmem
    · rw [List.mem_singleton.mp hmem, hindex]
      omega
  induction k generalizing i entry read with
  | zero =>
    obtain rfl : i = n := hi
    have hlast : UInt16.ofNat i - 1 = UInt16.ofNat (i - 1) := (UInt16.ofNat_sub hpos).symm
    have hlastNat : (UInt16.ofNat (i - 1)).toNat = i - 1 :=
      toNat_ofNat (by omega)
    have hprev : (entryAt flash (UInt16.ofNat (i - 1)).toNat).Plain := by
      rw [hlastNat]
      exact hplain _ (by omega)
    refine ⟨⟨.tableSuccess, entryAt flash (i - 1),
      read ++ [UInt16.ofNat i] ++ [UInt16.ofNat (i - 1)]⟩, ?_, ?_, rfl, rfl⟩
    · unfold lastEntryFrom
      rw [← hindex] at hend
      simp only [indexGetEntry_of_not_plain hend, hlast, indexGetEntry_of_plain hprev, hlastNat]
    · intro index hmem
      rcases List.mem_append.mp hmem with hmem | hmem
      · exact hread' index hmem
      · rw [List.mem_singleton.mp hmem, hlastNat]
        omega
  | succ k ih =>
    have hhere : (entryAt flash (UInt16.ofNat i).toNat).Plain := by
      rw [hindex]
      exact hplain i (by omega)
    have hnext : UInt16.ofNat i + 1 = UInt16.ofNat (i + 1) := (UInt16.ofNat_add i 1).symm
    have hnextNat : (UInt16.ofNat (i + 1)).toNat = i + 1 := toNat_ofNat (by omega)
    unfold lastEntryFrom
    simp only [indexGetEntry_of_plain hhere, hnext]
    apply ih (i + 1) (by omega) _ _ hread' hnextNat
    intro index hmem
    rcases List.mem_append.mp hmem with hmem | hmem
    · exact hread' index hmem
    · rw [List.mem_singleton.mp hmem, hnextNat]
      omega

/-- In an empty table entry 65535 is read. -/
theorem lastEntryFrom_empty (h : ¬ (entryAt flash 0).Plain) (fuel : Nat) (entry : IndexEntry) :
    indexGetLastEntry flash (fuel + 1) entry =
      some ⟨.tableSuccess, (indexGetEntry flash (entryAt flash 0) 65535).2, [0, 65535]⟩ := by
  have hzero : ¬ (entryAt flash (0 : UInt16).toNat).Plain := h
  unfold indexGetLastEntry lastEntryFrom
  simp only [indexGetEntry_of_not_plain hzero]
  rfl

/-! ## When they agree -/

/-- **The functions agree exactly about tables of 1 to 65535 entries of which none has a value
of the end marker in any field.** -/
theorem agrees_iff (flash : Mem) :
    Agrees flash ↔ 0 < tableLength flash ∧ tableLength flash < 65536 ∧
      ∀ i, i < tableLength flash → (entryAt flash i).Plain := by
  constructor
  · intro h
    have hplain : ∀ index : UInt16, index.toNat < tableLength flash →
        (entryAt flash index.toNat).Plain := by
      intro index hlt
      by_contra hnot
      have hends := (h.ends ⟨0, 0, 0⟩ index hlt.le).mp
        (congrArg Prod.fst (indexGetEntry_of_not_plain hnot _))
      rw [not_endMarker_of_lt hlt] at hends
      exact Bool.false_ne_true hends
    obtain ⟨fuel, found, hfound, hread, -⟩ := h.last ⟨0, 0, 0⟩
    have hbound : tableLength flash < 65536 := by
      by_contra hge
      have hall : ∀ index : UInt16, (entryAt flash index.toNat).Plain := fun index =>
        hplain index (by have := index.toNat_lt; omega)
      have hnone : indexGetLastEntry flash fuel ⟨0, 0, 0⟩ = none :=
        lastEntryFrom_none hall fuel 0 _ []
      rw [hnone] at hfound
      cases hfound
    refine ⟨?_, hbound, ?_⟩
    · by_contra hnot
      have hzero : tableLength flash = 0 := by omega
      have hmarker : ¬ (entryAt flash 0).Plain := by
        have hend := @endMarker_tableLength flash (by rw [hzero]; decide)
        rw [hzero] at hend
        exact not_plain_of_endMarker hend
      cases fuel with
      | zero => cases hfound
      | succ fuel =>
        rw [lastEntryFrom_empty hmarker] at hfound
        cases hfound
        have := hread 65535 (by simp)
        rw [hzero] at this
        exact absurd this (by decide)
    · intro i hi
      have hindex : (UInt16.ofNat i).toNat = i := toNat_ofNat (by omega)
      have := hplain (UInt16.ofNat i) (by omega)
      rwa [hindex] at this
  · rintro ⟨hpos, hbound, hplain⟩
    have hend : tableLength flash < flashEntries := Nat.lt_trans hbound (by decide)
    have hmarker := endMarker_tableLength hend
    refine ⟨?_, ?_, ?_, ?_, ?_⟩
    · intro entry index hle
      rcases Nat.lt_or_eq_of_le hle with hlt | heq
      · rw [indexGetEntry_of_plain (hplain _ hlt), not_endMarker_of_lt hlt]
        exact iff_of_false TableResult.noConfusion Bool.false_ne_true
      · have hnot : ¬ (entryAt flash index.toNat).Plain := by
          rw [heq]
          exact not_plain_of_endMarker hmarker
        rw [indexGetEntry_of_not_plain hnot, heq]
        exact iff_of_true rfl hmarker
    · exact fun id h0 h1 => specialScreen_found id h0 h1
    · exact fun entry temp hum i hi hkey hfirst => findEntry_found entry hi hkey hfirst
    · exact fun entry temp hum hnone => findEntry_none entry hnone
    · intro entry
      obtain ⟨found, hfound, hread, hresult, hlast⟩ := lastEntryFrom_found hbound hpos hplain
        (not_plain_of_endMarker hmarker) (tableLength flash) 0 (Nat.zero_add _) entry []
        (fun index hmem => by cases hmem)
      exact ⟨_, found, hfound, hread, fun _ => ⟨hresult, hlast⟩⟩

/-- A table of one entry, for a temperature of 20 degrees and a humidity of 173. -/
def humidTable : Mem := writeBlock (fun _ => 0xff) 0 [20, 0xad, 100, 0, 0xde, 0xad, 0xef, 0xbe]

theorem tableLength_humidTable : tableLength humidTable = 1 := by
  have hfind : (List.range flashEntries).find? (fun i => endMarker (entryAt humidTable i)) =
      some 1 := by
    refine List.find?_range_eq_some.mpr ⟨by decide, List.mem_range.mpr (by decide), ?_⟩
    intro j hj
    have hzero : j = 0 := by omega
    subst hzero
    decide
  unfold tableLength
  rw [hfind]
  rfl

/-- Its entry is taken for the end. -/
theorem humidTable_not_agrees : ¬ Agrees humidTable := by
  intro h
  have hends := h.ends ⟨0, 0, 0⟩ 0 (by rw [tableLength_humidTable]; decide)
  have hnot : ¬ (entryAt humidTable (0 : UInt16).toNat).Plain := fun hplain =>
    hplain.2.1 (by decide)
  have htrue := hends.mp (congrArg Prod.fst (indexGetEntry_of_not_plain hnot _))
  exact absurd htrue (by decide)

end Hexabus.Firmware.Epaper
