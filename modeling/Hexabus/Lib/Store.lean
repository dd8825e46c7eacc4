import Mathlib.Tactic

/-!
# Block stores

A store of cells addressed by `Nat`, written and read in blocks. The laws say
what a block write does to a block read (`read_write_same`,
`read_write_disjoint`) and, for a fixed image cut into blocks of one size, that
writing the blocks in any order and with any repetition leaves exactly the
image, as soon as every block was written once (`read_writeAll`).
-/

namespace Hexabus.Lib.Store

variable {α : Type}

/-- The `n` cells from address `a` on. -/
def readBlock (m : Nat → α) (a n : Nat) : List α :=
  (List.range n).map fun i => m (a + i)

/-- Put the cells `bs` at address `a`; every other cell stays. -/
def writeBlock (m : Nat → α) (a : Nat) (bs : List α) : Nat → α :=
  fun i => if h : a ≤ i ∧ i - a < bs.length then bs[i - a] else m i

@[simp] theorem length_readBlock (m : Nat → α) (a n : Nat) : (readBlock m a n).length = n := by
  simp [readBlock]

theorem getElem_readBlock (m : Nat → α) (a n i : Nat) (h : i < (readBlock m a n).length) :
    (readBlock m a n)[i] = m (a + i) := by
  simp [readBlock]

/-- A block read only looks at its own cells. -/
theorem readBlock_congr {m m' : Nat → α} {a n : Nat}
    (h : ∀ i, a ≤ i → i < a + n → m i = m' i) : readBlock m a n = readBlock m' a n := by
  apply List.map_congr_left
  intro i hi
  have hlt : i < n := List.mem_range.mp hi
  exact h (a + i) (by omega) (by omega)

theorem readBlock_add (m : Nat → α) (a n k : Nat) :
    readBlock m a (n + k) = readBlock m a n ++ readBlock m (a + n) k := by
  apply List.ext_getElem
  · simp
  · intro i h1 h2
    rw [getElem_readBlock]
    by_cases hi : i < n
    · rw [List.getElem_append_left (by simpa using hi), getElem_readBlock]
    · rw [List.getElem_append_right (by simpa using hi), getElem_readBlock]
      congr 1
      simp
      omega

theorem readBlock_succ (m : Nat → α) (a n : Nat) :
    readBlock m a (n + 1) = m a :: readBlock m (a + 1) n := by
  rw [Nat.add_comm n 1, readBlock_add]
  simp [readBlock]

@[simp] theorem readBlock_zero (m : Nat → α) (a : Nat) : readBlock m a 0 = [] := rfl

theorem drop_readBlock (m : Nat → α) (a n k : Nat) (h : k ≤ n) :
    (readBlock m a n).drop k = readBlock m (a + k) (n - k) := by
  obtain ⟨j, rfl⟩ := Nat.exists_eq_add_of_le h
  rw [readBlock_add, List.drop_append_of_le_length (by simp)]
  simp

theorem take_readBlock (m : Nat → α) (a n k : Nat) (h : k ≤ n) :
    (readBlock m a n).take k = readBlock m a k := by
  obtain ⟨j, rfl⟩ := Nat.exists_eq_add_of_le h
  rw [readBlock_add, List.take_append_of_le_length (by simp)]
  simp

/-! ## One write, one read -/

theorem writeBlock_apply_in (m : Nat → α) (a : Nat) (bs : List α) (i : Nat) (h : i < bs.length) :
    writeBlock m a bs (a + i) = bs[i] := by
  unfold writeBlock
  rw [dif_pos ⟨by omega, by omega⟩]
  congr 1
  omega

theorem writeBlock_apply_out (m : Nat → α) (a : Nat) (bs : List α) (i : Nat)
    (h : i < a ∨ a + bs.length ≤ i) : writeBlock m a bs i = m i := by
  unfold writeBlock
  rw [dif_neg (by omega)]

/-- A write keeps two stores equal where they are. -/
theorem writeBlock_congr {m m' : Nat → α} {a i : Nat} {bs : List α} (h : m i = m' i) :
    writeBlock m a bs i = writeBlock m' a bs i := by
  unfold writeBlock
  split
  · rfl
  · exact h

theorem read_write_same (m : Nat → α) (a : Nat) (bs : List α) :
    readBlock (writeBlock m a bs) a bs.length = bs := by
  apply List.ext_getElem
  · simp
  · intro i h1 h2
    rw [getElem_readBlock, writeBlock_apply_in m a bs i h2]

theorem read_write_disjoint (m : Nat → α) (a : Nat) (bs : List α) (c n : Nat)
    (h : c + n ≤ a ∨ a + bs.length ≤ c) :
    readBlock (writeBlock m a bs) c n = readBlock m c n := by
  apply readBlock_congr
  intro i h1 h2
  exact writeBlock_apply_out m a bs i (by omega)

/-! ## What a store holds -/

/-- The cells from `a` on are exactly `bs`. -/
def Holds (m : Nat → α) (a : Nat) (bs : List α) : Prop := readBlock m a bs.length = bs

theorem holds_write (m : Nat → α) (a : Nat) (bs : List α) : Holds (writeBlock m a bs) a bs :=
  read_write_same m a bs

theorem Holds.read {m : Nat → α} {a n : Nat} {bs : List α} (h : Holds m a bs)
    (hn : bs.length = n) : readBlock m a n = bs := hn ▸ h

/-- A write elsewhere leaves what a store holds. -/
theorem Holds.write {m : Nat → α} {a b : Nat} {bs ws : List α} (h : Holds m a bs)
    (hd : a + bs.length ≤ b ∨ b + ws.length ≤ a) : Holds (writeBlock m b ws) a bs := by
  rw [Holds, read_write_disjoint m b ws a bs.length hd]
  exact h

theorem holds_append {m : Nat → α} {a : Nat} {xs ys : List α} :
    Holds m a (xs ++ ys) ↔ Holds m a xs ∧ Holds m (a + xs.length) ys := by
  unfold Holds
  rw [List.length_append, readBlock_add]
  constructor
  · intro h
    exact List.append_inj h (by simp)
  · rintro ⟨hx, hy⟩
    rw [hx, hy]

theorem holds_cons {m : Nat → α} {a : Nat} {b : α} {bs : List α} :
    Holds m a (b :: bs) ↔ m a = b ∧ Holds m (a + 1) bs := by
  unfold Holds
  rw [List.length_cons, readBlock_succ, List.cons.injEq]

/-- A cell of what a store holds from its start on. -/
theorem Holds.getD_eq {m : Nat → α} {bs : List α} (x : α) (h : Holds m 0 bs) {i : Nat}
    (hi : i < bs.length) : m i = bs.getD i x := by
  have hread : (readBlock m 0 bs.length)[i]? = bs[i]? := congrArg (·[i]?) h
  rw [List.getElem?_eq_getElem (by simpa using hi), getElem_readBlock, Nat.zero_add,
    List.getElem?_eq_getElem hi] at hread
  rw [List.getD_eq_getElem?_getD, List.getElem?_eq_getElem hi]
  exact Option.some.inj hread

/-- A store whose cells are those of a list holds it. -/
theorem holds_of_getD {m : Nat → α} {bs : List α} {x : α}
    (h : ∀ i, i < bs.length → m i = bs.getD i x) : Holds m 0 bs := by
  unfold Holds
  apply List.ext_getElem
  · simp
  · intro i h1 h2
    rw [getElem_readBlock, Nat.zero_add, h i h2, List.getD_eq_getElem?_getD,
      List.getElem?_eq_getElem h2, Option.getD_some]

theorem Holds.left {m : Nat → α} {a : Nat} {xs ys : List α} (h : Holds m a (xs ++ ys)) :
    Holds m a xs := (holds_append.mp h).1

theorem Holds.right {m : Nat → α} {a b : Nat} {xs ys : List α} (h : Holds m a (xs ++ ys))
    (hb : a + xs.length = b) : Holds m b ys := hb ▸ (holds_append.mp h).2

/-- Records of one size, one behind the other. -/
theorem Holds.record {m : Nat → α} {a n : Nat} {records : List (List α)}
    (h : Holds m a records.flatten) (hlen : ∀ r ∈ records, r.length = n) {i : Nat}
    (hi : i < records.length) : Holds m (a + n * i) records[i] := by
  induction records generalizing a i with
  | nil => exact absurd hi (Nat.not_lt_zero i)
  | cons r records ih =>
    have hr : r.length = n := hlen r List.mem_cons_self
    rw [List.flatten_cons] at h
    cases i with
    | zero => exact h.left
    | succ i =>
      have htail := ih (h.right rfl) (fun x hx => hlen x (List.mem_cons_of_mem _ hx))
        (Nat.lt_of_succ_lt_succ hi)
      have hplace : a + r.length + n * i = a + n * (i + 1) := by
        rw [hr, Nat.mul_succ]
        omega
      rw [hplace] at htail
      exact htail

/-- What a store holds is what it holds of a longer read, in front. -/
theorem Holds.readBlock_eq {m : Nat → α} {a n : Nat} {bs : List α} (h : Holds m a bs)
    (hn : bs.length ≤ n) :
    readBlock m a n = bs ++ readBlock m (a + bs.length) (n - bs.length) := by
  obtain ⟨k, rfl⟩ := Nat.exists_eq_add_of_le hn
  have hk : bs.length + k - bs.length = k := by omega
  rw [readBlock_add, h, hk]

/-- A list as a store, with one value behind its end. -/
theorem holds_getD {bs pre xs post : List α} {d : α} {a : Nat} (h : bs = pre ++ (xs ++ post))
    (ha : pre.length = a) : Holds (fun i => bs.getD i d) a xs := by
  unfold Holds
  apply List.ext_getElem
  · simp
  · intro i h1 h2
    subst ha h
    rw [getElem_readBlock, List.getD_eq_getElem?_getD, List.getElem?_append_right (by omega),
      Nat.add_sub_cancel_left, List.getElem?_append_left h2, List.getElem?_eq_getElem h2,
      Option.getD_some]

/-! ## An image written block by block -/

/-- Block `k` of an image cut into blocks of `size` cells. -/
def blockOf (size : Nat) (image : List α) (k : Nat) : List α :=
  (image.drop (k * size)).take size

/-- Write the blocks listed in `ks`, in that order, of an image based at `base`. -/
def writeAll (size base : Nat) (image : List α) (m : Nat → α) (ks : List Nat) : Nat → α :=
  ks.foldl (fun m k => writeBlock m (base + k * size) (blockOf size image k)) m

theorem length_blockOf {size k : Nat} {image : List α} (h : (k + 1) * size ≤ image.length) :
    (blockOf size image k).length = size := by
  have hk : (k + 1) * size = k * size + size := Nat.succ_mul k size
  simp only [blockOf, List.length_take, List.length_drop]
  omega

theorem blockOf_getElem? {size k j : Nat} {image : List α} (hj : j < size) :
    (blockOf size image k)[j]? = image[k * size + j]? := by
  unfold blockOf
  rw [List.getElem?_take_of_lt hj, List.getElem?_drop]

/-- A block write makes its own cells agree with the image. -/
theorem writeBlock_covers {size base k : Nat} {image : List α} {m : Nat → α} {i : Nat}
    (hk : (k + 1) * size ≤ image.length) (hi : i < image.length)
    (hin : k * size ≤ i ∧ i < k * size + size) :
    writeBlock m (base + k * size) (blockOf size image k) (base + i) = image[i] := by
  obtain ⟨j, rfl⟩ := Nat.exists_eq_add_of_le hin.1
  have hj : j < size := by omega
  have hlen : j < (blockOf size image k).length := by rw [length_blockOf hk]; exact hj
  have hget : (blockOf size image k)[j] = image[k * size + j] := by
    have h : (blockOf size image k)[j]? = image[k * size + j]? := blockOf_getElem? hj
    rw [List.getElem?_eq_getElem hlen, List.getElem?_eq_getElem hi] at h
    exact Option.some.inj h
  rw [← Nat.add_assoc, writeBlock_apply_in m (base + k * size) _ j hlen, hget]

/-- One block write keeps every cell that already agrees with the image: the
invariant of the whole run. -/
theorem writeBlock_agree {size base k : Nat} {image : List α} {m : Nat → α} {i : Nat}
    (hk : (k + 1) * size ≤ image.length) (hi : i < image.length) (hm : m (base + i) = image[i]) :
    writeBlock m (base + k * size) (blockOf size image k) (base + i) = image[i] := by
  by_cases hin : k * size ≤ i ∧ i < k * size + size
  · exact writeBlock_covers hk hi hin
  · rw [writeBlock_apply_out _ _ _ _ (by rw [length_blockOf hk]; omega), hm]

/-- After a run of block writes a cell agrees with the image if it did before or
if some written block covers it. -/
theorem writeAll_agree {size base : Nat} {image : List α} {ks : List Nat} {m : Nat → α} {i : Nat}
    (hks : ∀ k ∈ ks, (k + 1) * size ≤ image.length) (hi : i < image.length)
    (h : m (base + i) = image[i] ∨ ∃ k ∈ ks, k * size ≤ i ∧ i < k * size + size) :
    writeAll size base image m ks (base + i) = image[i] := by
  induction ks generalizing m with
  | nil =>
    rcases h with h | ⟨k, hk, _⟩
    · exact h
    · exact absurd hk List.not_mem_nil
  | cons k ks ih =>
    have hk := hks k List.mem_cons_self
    refine ih (fun x hx => hks x (List.mem_cons_of_mem _ hx)) ?_
    rcases h with h | ⟨k', hk', hin⟩
    · exact .inl (writeBlock_agree hk hi h)
    · rcases List.mem_cons.mp hk' with rfl | hmem
      · exact .inl (writeBlock_covers hk hi hin)
      · exact .inr ⟨k', hmem, hin⟩

/-- Every block written at least once, in whatever order: the store holds the
image. -/
theorem read_writeAll {size base n : Nat} {image : List α} {ks : List Nat} (m : Nat → α)
    (hlen : image.length = n * size) (hks : ∀ k ∈ ks, k < n) (hall : ∀ k < n, k ∈ ks) :
    readBlock (writeAll size base image m ks) base image.length = image := by
  have hfit : ∀ k ∈ ks, (k + 1) * size ≤ image.length := fun k hk => by
    rw [hlen]
    exact Nat.mul_le_mul_right _ (hks k hk)
  apply List.ext_getElem
  · simp
  · intro i h1 h2
    rw [getElem_readBlock]
    have hpos : 0 < size := by
      rcases Nat.eq_zero_or_pos size with h0 | h0
      · rw [hlen, h0] at h2
        omega
      · exact h0
    have hdiv : i / size < n := Nat.div_lt_of_lt_mul (by rwa [hlen, Nat.mul_comm] at h2)
    refine writeAll_agree hfit h2 (.inr ⟨i / size, hall _ hdiv, Nat.div_mul_le_self i size, ?_⟩)
    have hmod := Nat.div_add_mod i size
    have hlt := Nat.mod_lt i hpos
    rw [Nat.mul_comm] at hmod
    omega

end Hexabus.Lib.Store
