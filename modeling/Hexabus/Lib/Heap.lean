import Mathlib.Data.List.Perm.Basic
import Mathlib.Logic.Equiv.Basic
import Mathlib.Tactic

/-!
# Heap operations on a list

`std::push_heap`, `std::pop_heap` and `std::make_heap` as sifts of a list, for any
comparison. The children of position `i` are `2 * i + 1` and `2 * i + 2`, and no parent
compares less than its child. All three permute the list (`pushHeap_perm`, `popHeap_perm`,
`makeHeap_perm`), the pop takes the front to the back, and a push moves nothing but the
new element to the front (`mem_take_pushHeap`).
-/

namespace Hexabus.Lib.Heap

variable {α : Type*} (lt : α → α → Bool)

/-- Whether the element at `i` compares less than the one at `j`. -/
def less (l : List α) (i j : Nat) : Bool :=
  match l[i]?, l[j]? with
  | some a, some b => lt a b
  | _, _ => false

/-- The elements at `i` and `j` in each other's place. -/
def exchange (l : List α) (i j : Nat) : List α :=
  match l[i]?, l[j]? with
  | some a, some b => (l.set i b).set j a
  | _, _ => l

/-- The element at `i` moves up past the parents that compare less. -/
def siftUp : Nat → Nat → List α → List α
  | 0, _, l => l
  | fuel + 1, i, l =>
    if 0 < i ∧ less lt l ((i - 1) / 2) i = true then
      siftUp fuel ((i - 1) / 2) (exchange l i ((i - 1) / 2))
    else l

/-- The greater child of `i`. -/
def greaterChild (l : List α) (i : Nat) : Nat :=
  if less lt l (2 * i + 1) (2 * i + 2) then 2 * i + 2 else 2 * i + 1

/-- The element at `i` moves down past the children that compare greater. -/
def siftDown : Nat → Nat → List α → List α
  | 0, _, l => l
  | fuel + 1, i, l =>
    if less lt l i (greaterChild lt l i) then
      siftDown fuel (greaterChild lt l i) (exchange l i (greaterChild lt l i))
    else l

/-- `std::push_heap`: the last element takes its place in the heap before it. -/
def pushHeap (l : List α) : List α := siftUp lt l.length (l.length - 1) l

/-- `std::pop_heap`: the front goes to the back, the rest is a heap again. -/
def popHeap : List α → List α
  | [] => []
  | front :: rest =>
    siftDown lt rest.length 0 (rest.getLast?.toList ++ rest.dropLast) ++ [front]

/-- `std::make_heap`: every element sifted down, from the last parent to the front. -/
def makeHeap (l : List α) : List α :=
  (List.range (l.length / 2)).foldr (fun i l' => siftDown lt l.length i l') l

/-! ## Permutations -/

theorem exchange_perm (l : List α) (i j : Nat) : (exchange l i j).Perm l := by
  unfold exchange
  split
  · rename_i a b ha hb
    obtain ⟨hi, rfl⟩ := List.getElem?_eq_some_iff.mp ha
    obtain ⟨hj, rfl⟩ := List.getElem?_eq_some_iff.mp hb
    exact List.set_set_perm hi hj
  · exact List.Perm.refl l

theorem siftUp_perm (fuel i : Nat) (l : List α) : (siftUp lt fuel i l).Perm l := by
  induction fuel generalizing i l with
  | zero => exact List.Perm.refl l
  | succ fuel ih =>
    unfold siftUp
    split
    · exact (ih _ _).trans (exchange_perm _ _ _)
    · exact List.Perm.refl l

theorem siftDown_perm (fuel i : Nat) (l : List α) : (siftDown lt fuel i l).Perm l := by
  induction fuel generalizing i l with
  | zero => exact List.Perm.refl l
  | succ fuel ih =>
    unfold siftDown
    split
    · exact (ih _ _).trans (exchange_perm _ _ _)
    · exact List.Perm.refl l

theorem pushHeap_perm (l : List α) : (pushHeap lt l).Perm l := siftUp_perm lt _ _ l

/-- The front is at the back, behind a permutation of the rest. -/
theorem popHeap_cons (front : α) (rest : List α) :
    ∃ l, popHeap lt (front :: rest) = l ++ [front] ∧ l.Perm rest := by
  refine ⟨_, rfl, (siftDown_perm lt _ _ _).trans ?_⟩
  cases hlast : rest.getLast? with
  | none => rw [List.getLast?_eq_none_iff.mp hlast]; exact List.Perm.refl _
  | some last =>
    obtain ⟨init, rfl⟩ := List.getLast?_eq_some_iff.mp hlast
    rw [List.dropLast_concat]
    exact (List.perm_append_singleton last init).symm

theorem makeHeap_perm (l : List α) : (makeHeap lt l).Perm l := by
  suffices h : ∀ (is : List Nat) (n : Nat),
      (is.foldr (fun i l' => siftDown lt n i l') l).Perm l from h _ _
  intro is n
  induction is with
  | nil => exact List.Perm.refl l
  | cons i is ih => exact (siftDown_perm lt _ _ _).trans ih

/-! ## Where a push leaves the others -/

theorem getElem?_exchange {l : List α} {i j : Nat} {a b : α} (ha : l[i]? = some a)
    (hb : l[j]? = some b) (k : Nat) :
    (exchange l i j)[k]? = if k = j then some a else if k = i then some b else l[k]? := by
  obtain ⟨hi, -⟩ := List.getElem?_eq_some_iff.mp ha
  obtain ⟨hj, -⟩ := List.getElem?_eq_some_iff.mp hb
  unfold exchange
  rw [ha, hb]
  by_cases hkj : k = j
  · subst hkj
    simp [hj]
  · by_cases hki : k = i
    · subst hki
      rw [if_neg hkj, if_pos rfl, List.getElem?_set_ne (Ne.symm hkj), List.getElem?_set_self hi]
    · rw [if_neg hkj, if_neg hki, List.getElem?_set_ne (Ne.symm hkj),
        List.getElem?_set_ne (Ne.symm hki)]

/-- On the way up an element passes others to the back only: what stands before a position
stood before it already, the element itself apart. -/
theorem siftUp_before {fuel i : Nat} {l : List α} {a : α} (ha : l[i]? = some a) {j : Nat} {b : α}
    (hb : (siftUp lt fuel i l)[j]? = some b) : b = a ∨ ∃ k ≤ j, l[k]? = some b := by
  induction fuel generalizing i l with
  | zero => exact .inr ⟨j, Nat.le_refl j, hb⟩
  | succ fuel ih =>
    unfold siftUp at hb
    split at hb
    · rename_i hup
      obtain ⟨hpos, -⟩ := hup
      obtain ⟨hi, -⟩ := List.getElem?_eq_some_iff.mp ha
      have hparent : (i - 1) / 2 < l.length := by omega
      have hp := List.getElem?_eq_getElem hparent
      have hget := getElem?_exchange ha hp
      rcases ih (by rw [hget, if_pos rfl]) hb with h | ⟨k, hk, hkb⟩
      · exact .inl h
      · rw [hget] at hkb
        split at hkb
        · exact .inl (Option.some.inj hkb).symm
        · split at hkb
          · exact .inr ⟨(i - 1) / 2, by omega, by rw [hp]; exact hkb⟩
          · exact .inr ⟨k, hk, hkb⟩
    · exact .inr ⟨j, Nat.le_refl j, hb⟩

/-- **A push** brings nothing but the new element nearer to the front. -/
theorem mem_take_pushHeap {l : List α} {a b : α} {n : Nat}
    (hb : b ∈ (pushHeap lt (l ++ [a])).take n) : b = a ∨ b ∈ l.take n := by
  obtain ⟨j, hj⟩ := List.mem_iff_getElem?.mp hb
  have hjn : j < n := by
    obtain ⟨hlt, -⟩ := List.getElem?_eq_some_iff.mp hj
    rw [List.length_take] at hlt
    omega
  rw [List.getElem?_take_of_lt hjn] at hj
  have hlast : (l ++ [a])[(l ++ [a]).length - 1]? = some a := by simp
  rcases siftUp_before lt hlast hj with h | ⟨k, hk, hkb⟩
  · exact .inl h
  · rw [List.getElem?_append] at hkb
    split at hkb
    · refine .inr (List.mem_iff_getElem?.mpr ⟨k, ?_⟩)
      rw [List.getElem?_take_of_lt (by omega), hkb]
    · rename_i hkl
      left
      rcases hkl' : k - l.length with _ | m
      · rw [hkl'] at hkb; exact (Option.some.inj hkb).symm
      · rw [hkl'] at hkb; simp at hkb

end Hexabus.Lib.Heap

/-!
## The order in a heap

Under a strict weak order the heap operations keep the list a heap (`isHeap_pushHeap`,
`popHeap_isHeap`, `isHeap_makeHeap`), and the front of a heap compares less than nothing in it
(`IsHeap.front`). The parent of position `i` is `(i - 1) / 2`.
-/

namespace Hexabus.Lib.Heap

variable {α : Type*} {lt : α → α → Bool} {l : List α}

/-- A strict weak order. -/
structure WeakOrder (lt : α → α → Bool) : Prop where
  asymm : ∀ a b, lt a b = true → lt b a = false
  trans : ∀ a b c, lt a b = false → lt b c = false → lt a c = false

/-- No parent from position `s` on compares less than its child. -/
def HeapFrom (lt : α → α → Bool) (s : Nat) (l : List α) : Prop :=
  ∀ k, 0 < k → s ≤ (k - 1) / 2 → less lt l ((k - 1) / 2) k = false

/-- A heap. -/
def IsHeap (lt : α → α → Bool) (l : List α) : Prop := HeapFrom lt 0 l

/-! ## Comparing positions -/

theorem less_of_length_le {i j : Nat} (h : l.length ≤ j) : less lt l i j = false := by
  unfold less
  rw [List.getElem?_eq_none h]
  cases l[i]? <;> rfl

theorem lt_length_of_less {i j : Nat} (h : less lt l i j = true) : i < l.length ∧ j < l.length := by
  unfold less at h
  split at h
  next a b ha hb =>
    exact ⟨(List.getElem?_eq_some_iff.mp ha).1, (List.getElem?_eq_some_iff.mp hb).1⟩
  next => cases h

theorem less_getElem {i j : Nat} (hi : i < l.length) (hj : j < l.length) :
    less lt l i j = lt l[i] l[j] := by
  unfold less
  rw [List.getElem?_eq_getElem hi, List.getElem?_eq_getElem hj]

theorem WeakOrder.less_asymm (ho : WeakOrder lt) {i j : Nat} (h : less lt l i j = true) :
    less lt l j i = false := by
  obtain ⟨hi, hj⟩ := lt_length_of_less h
  rw [less_getElem hi hj] at h
  rw [less_getElem hj hi]
  exact ho.asymm _ _ h

theorem WeakOrder.less_trans (ho : WeakOrder lt) {i j k : Nat} (hj : j < l.length)
    (hij : less lt l i j = false) (hjk : less lt l j k = false) : less lt l i k = false := by
  by_cases hi : i < l.length
  · by_cases hk : k < l.length
    · rw [less_getElem hi hj] at hij
      rw [less_getElem hj hk] at hjk
      rw [less_getElem hi hk]
      exact ho.trans _ _ _ hij hjk
    · exact less_of_length_le (Nat.le_of_not_lt hk)
  · unfold less
    rw [List.getElem?_eq_none (Nat.le_of_not_lt hi)]

theorem less_exchange {i j : Nat} (hi : i < l.length) (hj : j < l.length) (a b : Nat) :
    less lt (exchange l i j) a b = less lt l (Equiv.swap i j a) (Equiv.swap i j b) := by
  have hget : ∀ k, (exchange l i j)[k]? = l[Equiv.swap i j k]? := by
    intro k
    rw [getElem?_exchange (List.getElem?_eq_getElem hi) (List.getElem?_eq_getElem hj)]
    by_cases hkj : k = j
    · rw [if_pos hkj, hkj, Equiv.swap_apply_right, List.getElem?_eq_getElem hi]
    · rw [if_neg hkj]
      by_cases hki : k = i
      · rw [if_pos hki, hki, Equiv.swap_apply_left, List.getElem?_eq_getElem hj]
      · rw [if_neg hki, Equiv.swap_apply_of_ne_of_ne hki hkj]
  unfold less
  rw [hget, hget]

/-! ## Up -/

/-- All parents are in order with their children, but for the one of `i`, and the parent of `i`
is in order with the children of `i`. -/
structure UpOrder (lt : α → α → Bool) (l : List α) (i : Nat) : Prop where
  except : ∀ k, 0 < k → k ≠ i → less lt l ((k - 1) / 2) k = false
  grand : 0 < i → ∀ k, 0 < k → (k - 1) / 2 = i → less lt l ((i - 1) / 2) k = false

theorem UpOrder.exchange (ho : WeakOrder lt) {i : Nat} (h : UpOrder lt l i) (hpos : 0 < i)
    (hless : less lt l ((i - 1) / 2) i = true) :
    UpOrder lt (exchange l i ((i - 1) / 2)) ((i - 1) / 2) := by
  obtain ⟨hp, hi⟩ := lt_length_of_less hless
  have hback := ho.less_asymm hless
  constructor
  · intro k hk hkp
    rw [less_exchange hi hp]
    by_cases hki : k = i
    · subst hki
      rw [Equiv.swap_apply_right, Equiv.swap_apply_left]
      exact hback
    · rw [Equiv.swap_apply_of_ne_of_ne hki hkp]
      by_cases hpi : (k - 1) / 2 = i
      · rw [hpi, Equiv.swap_apply_left]
        exact h.grand hpos k hk hpi
      · by_cases hpp : (k - 1) / 2 = (i - 1) / 2
        · -- the sibling of `i`
          have hsibling := h.except k hk hki
          rw [hpp] at hsibling ⊢
          rw [Equiv.swap_apply_right]
          exact ho.less_trans hp hback hsibling
        · rw [Equiv.swap_apply_of_ne_of_ne hpi hpp]
          exact h.except k hk hki
  · intro hppos k hk hkp
    have habove := h.except ((i - 1) / 2) hppos (by omega)
    rw [less_exchange hi hp, Equiv.swap_apply_of_ne_of_ne (by omega) (by omega)]
    by_cases hki : k = i
    · subst hki
      rw [Equiv.swap_apply_left]
      exact habove
    · rw [Equiv.swap_apply_of_ne_of_ne hki (by omega)]
      have hsibling := h.except k hk hki
      rw [hkp] at hsibling
      exact ho.less_trans hp habove hsibling

theorem isHeap_siftUp (ho : WeakOrder lt) {fuel i : Nat} (h : UpOrder lt l i) (hfuel : i ≤ fuel) :
    IsHeap lt (siftUp lt fuel i l) := by
  induction fuel generalizing i l with
  | zero => exact fun k hk _ => h.except k hk (by omega)
  | succ fuel ih =>
    unfold siftUp
    split
    next hup => exact ih (h.exchange ho hup.1 hup.2) (by omega)
    next hstop =>
      intro k hk _
      by_cases hki : k = i
      · subst hki
        exact Bool.eq_false_of_not_eq_true fun hless => hstop ⟨hk, hless⟩
      · exact h.except k hk hki

/-- **A push** onto a heap gives a heap. -/
theorem isHeap_pushHeap (ho : WeakOrder lt) (h : IsHeap lt l) (a : α) :
    IsHeap lt (pushHeap lt (l ++ [a])) := by
  have hlength : (l ++ [a]).length = l.length + 1 := by simp
  refine isHeap_siftUp ho ⟨fun k hk hne => ?_, fun _ k hk hki => ?_⟩ (Nat.sub_le _ _)
  · rw [hlength] at hne
    by_cases hlt : k < l.length
    · have hold := h k hk (Nat.zero_le _)
      rw [less_getElem (by omega) hlt] at hold
      rw [less_getElem (by omega) (by omega), List.getElem_append_left (by omega),
        List.getElem_append_left hlt]
      exact hold
    · exact less_of_length_le (by omega)
  · exact less_of_length_le (by omega)

/-! ## Down -/

/-- The parents from `s` on are in order with their children, but for `i` itself, and the
parent of `i` is in order with the children of `i`. -/
structure DownOrder (lt : α → α → Bool) (s : Nat) (l : List α) (i : Nat) : Prop where
  le : s ≤ i
  except : ∀ k, 0 < k → s ≤ (k - 1) / 2 → (k - 1) / 2 ≠ i → less lt l ((k - 1) / 2) k = false
  grand : 0 < i → s ≤ (i - 1) / 2 → ∀ k, 0 < k → (k - 1) / 2 = i →
    less lt l ((i - 1) / 2) k = false

theorem greaterChild_cases (lt : α → α → Bool) (l : List α) (i : Nat) :
    greaterChild lt l i = 2 * i + 1 ∨ greaterChild lt l i = 2 * i + 2 := by
  unfold greaterChild
  split
  · exact .inr rfl
  · exact .inl rfl

/-- The greater child does not compare less than its sibling. -/
theorem less_greaterChild (ho : WeakOrder lt) {i k : Nat} (hk : 0 < k) (hki : (k - 1) / 2 = i)
    (hne : k ≠ greaterChild lt l i) : less lt l (greaterChild lt l i) k = false := by
  unfold greaterChild at hne ⊢
  split
  next hless =>
    rw [if_pos hless] at hne
    obtain rfl : k = 2 * i + 1 := by omega
    exact ho.less_asymm hless
  next hless =>
    rw [if_neg hless] at hne
    obtain rfl : k = 2 * i + 2 := by omega
    exact Bool.eq_false_of_not_eq_true hless

theorem DownOrder.exchange (ho : WeakOrder lt) {s i : Nat} (h : DownOrder lt s l i)
    (hless : less lt l i (greaterChild lt l i) = true) :
    DownOrder lt s (exchange l i (greaterChild lt l i)) (greaterChild lt l i) := by
  obtain ⟨hi, hc⟩ := lt_length_of_less hless
  have hback := ho.less_asymm hless
  have hsibling : ∀ k, 0 < k → (k - 1) / 2 = i → k ≠ greaterChild lt l i →
      less lt l (greaterChild lt l i) k = false := fun k hk hki => less_greaterChild ho hk hki
  have hle := h.le
  have hcases := greaterChild_cases lt l i
  obtain ⟨c, hgreater⟩ : ∃ c, greaterChild lt l i = c := ⟨_, rfl⟩
  rw [hgreater] at hc hback hsibling hcases ⊢
  have hparent : (c - 1) / 2 = i := by omega
  refine ⟨by omega, fun k hk hsk hkc => ?_, fun _ _ k hk hkc => ?_⟩
  · rw [less_exchange hi hc]
    by_cases hki : (k - 1) / 2 = i
    · rw [hki, Equiv.swap_apply_left]
      by_cases hkeq : k = c
      · rw [hkeq, Equiv.swap_apply_right]
        exact hback
      · rw [Equiv.swap_apply_of_ne_of_ne (by omega) hkeq]
        exact hsibling k hk hki hkeq
    · rw [Equiv.swap_apply_of_ne_of_ne hki hkc]
      by_cases hkeq : k = i
      · rw [hkeq, Equiv.swap_apply_left]
        exact h.grand (by omega) (by omega) c (by omega) hparent
      · rw [Equiv.swap_apply_of_ne_of_ne hkeq (by rintro rfl; exact hki hparent)]
        exact h.except k hk hsk hki
  · rw [less_exchange hi hc, hparent, Equiv.swap_apply_left,
      Equiv.swap_apply_of_ne_of_ne (by omega) (by omega)]
    have hbelow := h.except k hk (by omega) (by omega)
    rw [hkc] at hbelow
    exact hbelow

theorem heapFrom_siftDown (ho : WeakOrder lt) {s fuel i : Nat} (h : DownOrder lt s l i)
    (hfuel : l.length ≤ fuel + i) : HeapFrom lt s (siftDown lt fuel i l) := by
  induction fuel generalizing i l with
  | zero =>
    intro k hk hsk
    show less lt l ((k - 1) / 2) k = false
    by_cases hki : (k - 1) / 2 = i
    · exact less_of_length_le (by omega)
    · exact h.except k hk hsk hki
  | succ fuel ih =>
    have hcases := greaterChild_cases lt l i
    unfold siftDown
    split
    next hless =>
      refine ih (h.exchange ho hless) ?_
      rw [(exchange_perm l i _).length_eq]
      omega
    next hstop =>
      intro k hk hsk
      by_cases hki : (k - 1) / 2 = i
      · rw [hki]
        by_cases hkeq : k = greaterChild lt l i
        · rw [hkeq]
          exact Bool.eq_false_of_not_eq_true hstop
        · by_cases hin : greaterChild lt l i < l.length
          · exact ho.less_trans hin (Bool.eq_false_of_not_eq_true hstop)
              (less_greaterChild ho hk hki hkeq)
          · -- the greater child is the first one, so there is none
            have hfirst : greaterChild lt l i = 2 * i + 1 := by
              rcases hcases with hfirst | hsecond
              · exact hfirst
              · unfold greaterChild at hsecond hin
                split at hsecond
                next hless =>
                  rw [if_pos hless] at hin
                  exact absurd (lt_length_of_less hless).2 hin
                next => omega
            exact less_of_length_le (by omega)
      · exact h.except k hk hsk hki

/-- **A pop** takes the front of a heap to the back and leaves a heap before it. -/
theorem popHeap_isHeap (ho : WeakOrder lt) {front : α} {rest : List α}
    (h : IsHeap lt (front :: rest)) :
    ∃ l, popHeap lt (front :: rest) = l ++ [front] ∧ l.Perm rest ∧ IsHeap lt l := by
  obtain ⟨l, hpop, hperm⟩ := popHeap_cons lt front rest
  refine ⟨l, hpop, hperm, ?_⟩
  obtain ⟨rfl, -⟩ := List.append_inj' hpop.symm rfl
  cases hlast : rest.getLast? with
  | none =>
    obtain rfl := List.getLast?_eq_none_iff.mp hlast
    exact fun k _ _ => less_of_length_le (Nat.zero_le _)
  | some last =>
    obtain ⟨init, rfl⟩ := List.getLast?_eq_some_iff.mp hlast
    rw [List.dropLast_concat]
    refine heapFrom_siftDown ho ⟨Nat.le_refl 0, fun k hk _ hne => ?_, fun hpos => by omega⟩ (by simp)
    show less lt (last :: init) ((k - 1) / 2) k = false
    by_cases hlt : k < (last :: init).length
    · have hold := h k hk (Nat.zero_le _)
      have hlong : k < (front :: (init ++ [last])).length := by
        simp only [List.length_cons, List.length_append] at hlt ⊢
        omega
      rw [less_getElem (by omega) hlong] at hold
      rw [less_getElem (by omega) hlt]
      rw [List.length_cons] at hlt
      rw [List.getElem_cons, dif_neg hne, List.getElem_cons, dif_neg (by omega)] at hold ⊢
      rw [List.getElem_append_left (by omega), List.getElem_append_left (by omega)] at hold
      exact hold
    · exact less_of_length_le (Nat.le_of_not_lt hlt)

/-- **Any list** becomes a heap. -/
theorem isHeap_makeHeap (ho : WeakOrder lt) (l : List α) : IsHeap lt (makeHeap lt l) := by
  have hfold : ∀ (n m : Nat) (l' : List α), l'.length ≤ n → HeapFrom lt m l' →
      HeapFrom lt 0 ((List.range m).foldr (fun i l' => siftDown lt n i l') l') := by
    intro n m
    induction m with
    | zero => exact fun l' _ hl' => hl'
    | succ m ih =>
      intro l' hlength hl'
      rw [List.range_succ, List.foldr_append, List.foldr_cons, List.foldr_nil]
      refine ih _ (le_of_eq_of_le (siftDown_perm lt n m l').length_eq hlength) ?_
      refine heapFrom_siftDown ho ⟨Nat.le_refl m, fun k hk hm hne => ?_, fun hpos hm => by omega⟩
        (by omega)
      exact hl' k hk (by omega)
  exact hfold _ _ l (Nat.le_refl _) fun k hk hlow => less_of_length_le (by omega)

/-! ## The front -/

/-- **The front** of a heap compares less than nothing in it. -/
theorem IsHeap.front (ho : WeakOrder lt) {a b : α} (h : IsHeap lt (a :: l)) (hb : b ∈ a :: l) :
    lt a b = false := by
  have hirrefl : ∀ x : α, lt x x = false := by
    intro x
    by_contra hx
    have htrue := Bool.eq_true_of_not_eq_false hx
    exact hx (ho.asymm x x htrue)
  have hall : ∀ k (hk : k < (a :: l).length), lt a (a :: l)[k] = false := by
    intro k
    induction k using Nat.strongRecOn with
    | ind k ih =>
      intro hk
      cases k with
      | zero => exact hirrefl a
      | succ k =>
        have hparent := h (k + 1) (Nat.succ_pos k) (Nat.zero_le _)
        have hlt : (k + 1 - 1) / 2 < (a :: l).length := by omega
        rw [less_getElem hlt hk] at hparent
        exact ho.trans _ _ _ (ih _ (by omega) hlt) hparent
  obtain ⟨k, hk, rfl⟩ := List.getElem_of_mem hb
  exact hall k hk

end Hexabus.Lib.Heap
