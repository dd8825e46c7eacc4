import Mathlib.Data.List.Nodup
import Mathlib.Tactic

/-!
# Properties of an object

An object is a list of properties, in the order in which they were added; no two of them have the
same key. Setting a property changes it where it is, or adds it at the end.
-/

namespace Hexabus.Lib.Properties

variable {K V : Type} [DecidableEq K]

/-! ## Lists of properties -/

def get (k : K) : List (K × V) → Option V
  | [] => none
  | (k', v) :: l => if k' = k then some v else get k l

def put (k : K) (v : V) : List (K × V) → List (K × V)
  | [] => [(k, v)]
  | (k', v') :: l => if k' = k then (k, v) :: l else (k', v') :: put k v l

def keys (l : List (K × V)) : List K := l.map Prod.fst

@[simp] theorem get_put_self (k : K) (v : V) (l : List (K × V)) : get k (put k v l) = some v := by
  induction l with
  | nil => simp [put, get]
  | cons e l ih =>
    obtain ⟨k', v'⟩ := e
    by_cases h : k' = k <;> simp [put, get, h, ih]

theorem get_put_of_ne {k k' : K} (h : k' ≠ k) (v : V) (l : List (K × V)) :
    get k (put k' v l) = get k l := by
  induction l with
  | nil => simp [put, get, h]
  | cons e l ih =>
    obtain ⟨k₁, v₁⟩ := e
    by_cases h₁ : k₁ = k'
    · subst h₁
      simp [put, get, h]
    · rw [put, if_neg h₁, get, get, ih]

/-- Setting a property to its value changes nothing. -/
theorem put_of_get {k : K} {v : V} {l : List (K × V)} (h : get k l = some v) : put k v l = l := by
  induction l with
  | nil => simp [get] at h
  | cons e l ih =>
    obtain ⟨k', v'⟩ := e
    by_cases hk : k' = k
    · rw [get, if_pos hk] at h
      rw [put, if_pos hk, ← hk, Option.some.inj h]
    · rw [get, if_neg hk] at h
      rw [put, if_neg hk, ih h]

/-- The last of two settings of a property counts. -/
theorem put_put (k : K) (v v' : V) (l : List (K × V)) : put k v' (put k v l) = put k v' l := by
  induction l with
  | nil => simp [put]
  | cons e l ih =>
    obtain ⟨k₁, v₁⟩ := e
    by_cases h : k₁ = k <;> simp [put, h, ih]

theorem mem_of_get {k : K} {v : V} {l : List (K × V)} (h : get k l = some v) : (k, v) ∈ l := by
  induction l with
  | nil => simp [get] at h
  | cons e l ih =>
    obtain ⟨k', v'⟩ := e
    by_cases hk : k' = k
    · rw [get, if_pos hk] at h
      rw [← hk, Option.some.inj h]
      exact List.mem_cons_self
    · rw [get, if_neg hk] at h
      exact List.mem_cons_of_mem _ (ih h)

theorem get_of_mem {k : K} {v : V} {l : List (K × V)} (hl : (keys l).Nodup) (h : (k, v) ∈ l) :
    get k l = some v := by
  induction l with
  | nil => simp at h
  | cons e l ih =>
    obtain ⟨k', v'⟩ := e
    obtain ⟨hnot, hl⟩ := List.nodup_cons.mp hl
    rcases List.mem_cons.mp h with heq | h
    · rw [Prod.mk.injEq] at heq
      rw [get, if_pos heq.1.symm, heq.2]
    · have hne : k' ≠ k := by
        rintro rfl
        exact hnot (List.mem_map.mpr ⟨_, h, rfl⟩)
      rw [get, if_neg hne]
      exact ih hl h

theorem get_eq_none {k : K} {l : List (K × V)} (h : k ∉ keys l) : get k l = none := by
  induction l with
  | nil => rfl
  | cons e l ih =>
    obtain ⟨k', v'⟩ := e
    rw [keys, List.map_cons, List.mem_cons, not_or] at h
    rw [get, if_neg (Ne.symm h.1)]
    exact ih h.2

theorem put_of_notMem {k : K} {l : List (K × V)} (h : k ∉ keys l) (v : V) :
    put k v l = l ++ [(k, v)] := by
  induction l with
  | nil => rfl
  | cons e l ih =>
    obtain ⟨k', v'⟩ := e
    rw [keys, List.map_cons, List.mem_cons, not_or] at h
    rw [put, if_neg (Ne.symm h.1), ih h.2, List.cons_append]

theorem keys_put_of_mem {k : K} {l : List (K × V)} (h : k ∈ keys l) (v : V) :
    keys (put k v l) = keys l := by
  induction l with
  | nil => simp [keys] at h
  | cons e l ih =>
    obtain ⟨k', v'⟩ := e
    by_cases hk : k' = k
    · simp [put, keys, hk]
    · rw [keys, List.map_cons, List.mem_cons] at h
      have := ih (h.resolve_left (Ne.symm hk))
      simp only [keys] at this
      simp [put, keys, hk, this]

theorem nodup_put {l : List (K × V)} (h : (keys l).Nodup) (k : K) (v : V) :
    (keys (put k v l)).Nodup := by
  by_cases hk : k ∈ keys l
  · rwa [keys_put_of_mem hk]
  · rw [put_of_notMem hk, keys, List.map_append]
    exact List.nodup_append_comm.mp (List.nodup_cons.mpr ⟨hk, h⟩)

omit [DecidableEq K] in
theorem nodup_filter {l : List (K × V)} (h : (keys l).Nodup) (p : K × V → Bool) :
    (keys (l.filter p)).Nodup :=
  h.sublist ((List.filter_sublist).map Prod.fst)

theorem get_filter_ne (k k' : K) (l : List (K × V)) :
    get k' (l.filter fun e => e.1 ≠ k) = if k' = k then none else get k' l := by
  induction l with
  | nil => simp [get]
  | cons e l ih =>
    obtain ⟨k₁, v₁⟩ := e
    by_cases h : k₁ = k
    · subst h
      rw [List.filter_cons_of_neg (by simp), ih]
      by_cases h' : k' = k₁
      · rw [if_pos h', if_pos h']
      · rw [if_neg h', if_neg h', get, if_neg (Ne.symm h')]
    · rw [List.filter_cons_of_pos (by simpa using h), get, get, ih]
      by_cases h₁ : k₁ = k'
      · rw [if_pos h₁, if_pos h₁, if_neg (h₁ ▸ h)]
      · rw [if_neg h₁, if_neg h₁]

/-- Setting properties one after the other. -/
def putAll (l : List (K × V)) (more : List (K × V)) : List (K × V) :=
  more.foldl (fun l e => put e.1 e.2 l) l

/-- Setting new properties adds them. -/
theorem putAll_eq_append {l more : List (K × V)} (h : (keys (l ++ more)).Nodup) :
    putAll l more = l ++ more := by
  induction more generalizing l with
  | nil => simp [putAll]
  | cons e more ih =>
    have hnot : e.1 ∉ keys l := by
      rw [keys, List.map_append, List.map_cons] at h
      intro hmem
      exact (List.nodup_append.mp h).2.2 e.1 hmem e.1 List.mem_cons_self rfl
    have hstep : putAll l (e :: more) = putAll (put e.1 e.2 l) more := rfl
    rw [hstep, put_of_notMem hnot, ih]
    · simp
    · simpa using h

theorem putAll_nil {l : List (K × V)} (h : (keys l).Nodup) : putAll [] l = l := by
  have hall : (keys ([] ++ l)).Nodup := h
  simpa using putAll_eq_append hall

end Hexabus.Lib.Properties

/-! ## Objects -/

namespace Hexabus.Lib

open Properties

/-- An object with its properties. -/
structure Object (K V : Type) where
  entries : List (K × V)
  nodup : (keys entries).Nodup

namespace Object

variable {K V : Type} [DecidableEq K]

omit [DecidableEq K] in
@[ext] theorem ext {o o' : Object K V} (h : o.entries = o'.entries) : o = o' := by
  cases o
  cases o'
  subst h
  rfl

/-- The object without properties. -/
def empty : Object K V := ⟨[], List.nodup_nil⟩

def get (o : Object K V) (k : K) : Option V := Properties.get k o.entries

def put (o : Object K V) (k : K) (v : V) : Object K V :=
  ⟨Properties.put k v o.entries, nodup_put o.nodup k v⟩

def erase (o : Object K V) (k : K) : Object K V :=
  ⟨o.entries.filter fun e => e.1 ≠ k, nodup_filter o.nodup _⟩

@[simp] theorem get_empty (k : K) : (empty : Object K V).get k = none := rfl

@[simp] theorem get_put_self (o : Object K V) (k : K) (v : V) : (o.put k v).get k = some v :=
  Properties.get_put_self k v o.entries

theorem get_put_of_ne (o : Object K V) {k k' : K} (h : k' ≠ k) (v : V) :
    (o.put k' v).get k = o.get k :=
  Properties.get_put_of_ne h v o.entries

theorem get_put (o : Object K V) (k k' : K) (v : V) :
    (o.put k' v).get k = if k' = k then some v else o.get k := by
  split
  · next h => rw [h, get_put_self]
  · next h => exact o.get_put_of_ne h v

theorem put_of_get {o : Object K V} {k : K} {v : V} (h : o.get k = some v) : o.put k v = o :=
  ext (Properties.put_of_get h)

theorem put_put (o : Object K V) (k : K) (v v' : V) : (o.put k v).put k v' = o.put k v' :=
  ext (Properties.put_put k v v' o.entries)

theorem get_erase (o : Object K V) (k k' : K) :
    (o.erase k).get k' = if k' = k then none else o.get k' :=
  get_filter_ne k k' o.entries

/-- The object of a list of properties: the last one of a key counts. -/
def ofEntries (l : List (K × V)) : Object K V := l.foldl (fun o e => o.put e.1 e.2) empty

theorem entries_foldl (o : Object K V) (l : List (K × V)) :
    (l.foldl (fun o e => o.put e.1 e.2) o).entries = putAll o.entries l := by
  induction l generalizing o with
  | nil => rfl
  | cons e l ih =>
    rw [List.foldl_cons, ih]
    rfl

theorem ofEntries_entries (o : Object K V) : ofEntries o.entries = o := by
  apply ext
  rw [ofEntries, entries_foldl]
  exact putAll_nil o.nodup

theorem mem_entries {o : Object K V} {k : K} {v : V} : (k, v) ∈ o.entries ↔ o.get k = some v :=
  ⟨get_of_mem o.nodup, mem_of_get⟩

end Object

end Hexabus.Lib
