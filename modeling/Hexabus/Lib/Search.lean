import Mathlib.Data.List.Chain
import Mathlib.Data.List.Nodup
import Mathlib.Data.List.Perm.Subperm
import Mathlib.Logic.Relation

/-!
# Breadth-first search

A search from one vertex of a graph that is given by its lists of neighbours. What the
search has found is a tree: every vertex but the first was found from one that was found
before it (`Rooted`). A search that comes to its end has found exactly what can be reached
(`mem_discovered_iff`), and going back through the tree gives a path (`Rooted.walkBack`).
-/

namespace Hexabus.Lib.Search

variable {α : Type*}

/-- The vertices still to be visited, and every vertex found with the one it was found from,
in the order in which they were found. -/
structure SearchState (α : Type*) where
  queue : List α
  tree : List (α × α)

/-- What a tree has in it, its root first. -/
def members (start : α) (tree : List (α × α)) : List α := start :: tree.map Prod.fst

def SearchState.discovered (start : α) (s : SearchState α) : List α := members start s.tree

/-- One step along the graph. -/
def Step (adj : α → List α) (u v : α) : Prop := v ∈ adj u

variable [DecidableEq α]

/-- A neighbour of `u` is found, unless it was before. -/
def examine (start u : α) (s : SearchState α) (v : α) : SearchState α :=
  if v ∈ s.discovered start then s else ⟨s.queue ++ [v], s.tree ++ [(v, u)]⟩

def visit (adj : α → List α) (start u : α) (s : SearchState α) : SearchState α :=
  (adj u).foldl (examine start u) s

def loop (adj : α → List α) (start : α) : Nat → SearchState α → SearchState α
  | 0, s => s
  | fuel + 1, s =>
    match s.queue with
    | [] => s
    | u :: rest => loop adj start fuel (visit adj start u ⟨rest, s.tree⟩)

/-- The search, if it comes to its end in so many visits. -/
def search (adj : α → List α) (fuel : Nat) (start : α) : Option (SearchState α) :=
  let s := loop adj start fuel ⟨[start], []⟩
  if s.queue = [] then some s else none

/-- What a vertex was found from. -/
def predecessor (tree : List (α × α)) (v : α) : Option α :=
  (tree.find? fun e => e.1 = v).map Prod.snd

/-- From a vertex back to the root, which is left out. -/
def walkBack (tree : List (α × α)) : Nat → α → Option (List α)
  | 0, _ => none
  | fuel + 1, v =>
    match predecessor tree v with
    | none => some []
    | some u => (walkBack tree fuel u).map (v :: ·)

/-! ## Trees -/

/-- Every vertex of the tree was found from one that was in it before. -/
inductive Rooted (adj : α → List α) (start : α) : List (α × α) → Prop
  | nil : Rooted adj start []
  | snoc {tree : List (α × α)} {u v : α} : Rooted adj start tree → u ∈ members start tree →
      v ∉ members start tree → v ∈ adj u → Rooted adj start (tree ++ [(v, u)])

variable {adj : α → List α} {start : α} {tree : List (α × α)}

omit [DecidableEq α] in
theorem members_snoc (start : α) (tree : List (α × α)) (v u : α) :
    members start (tree ++ [(v, u)]) = members start tree ++ [v] := by
  unfold members
  rw [List.map_append, List.cons_append]
  rfl

namespace Rooted

omit [DecidableEq α] in
theorem nodup (h : Rooted adj start tree) : (members start tree).Nodup := by
  induction h with
  | nil => exact List.nodup_singleton start
  | @snoc tree u v _ _ hv _ ih =>
    rw [members_snoc, ← List.concat_eq_append]
    exact ih.concat hv

omit [DecidableEq α] in
theorem reachable (h : Rooted adj start tree) {v : α} (hv : v ∈ members start tree) :
    Relation.ReflTransGen (Step adj) start v := by
  induction h generalizing v with
  | nil =>
    rw [List.mem_singleton.mp hv]
  | @snoc tree u w _ hu _ hadj ih =>
    rw [members_snoc] at hv
    rcases List.mem_append.mp hv with hv | hv
    · exact ih hv
    · rw [List.mem_singleton.mp hv]
      exact (ih hu).tail hadj

omit [DecidableEq α] in
theorem subset (h : Rooted adj start tree) {vertices : List α} (hstart : start ∈ vertices)
    (hclosed : ∀ u ∈ vertices, ∀ v ∈ adj u, v ∈ vertices) : members start tree ⊆ vertices := by
  induction h with
  | nil => exact List.cons_subset.mpr ⟨hstart, List.nil_subset _⟩
  | @snoc tree u w _ hu _ hadj ih =>
    rw [members_snoc]
    refine List.append_subset.mpr ⟨ih, List.cons_subset.mpr ⟨?_, List.nil_subset _⟩⟩
    exact hclosed u (ih hu) w hadj

end Rooted

/-! ## The way back -/

theorem predecessor_eq_none {v : α} : predecessor tree v = none ↔ v ∉ tree.map Prod.fst := by
  unfold predecessor
  rw [Option.map_eq_none_iff, List.find?_eq_none, List.mem_map]
  constructor
  · rintro h ⟨e, he, rfl⟩
    exact h e he (decide_eq_true rfl)
  · intro h e he hev
    exact h ⟨e, he, of_decide_eq_true hev⟩

theorem predecessor_snoc_of_ne {v w : α} (u : α) (hne : v ≠ w) :
    predecessor (tree ++ [(w, u)]) v = predecessor tree v := by
  unfold predecessor
  rw [List.find?_append]
  cases tree.find? fun e => e.1 = v with
  | none => simp [Ne.symm hne]
  | some e => rfl

theorem predecessor_snoc_self {w : α} (u : α) (hw : w ∉ tree.map Prod.fst) :
    predecessor (tree ++ [(w, u)]) w = some u := by
  have hnone := predecessor_eq_none.mpr hw
  unfold predecessor at hnone ⊢
  rw [List.find?_append, Option.map_eq_none_iff.mp hnone]
  simp

/-- From a vertex that was not found there is no way back. -/
theorem walkBack_of_notMem {v : α} (hv : v ∉ members start tree) (fuel : Nat) :
    walkBack tree (fuel + 1) v = some [] := by
  unfold walkBack
  rw [predecessor_eq_none.mpr fun h => hv (List.mem_cons_of_mem _ h)]

namespace Rooted

theorem predecessor_mem (h : Rooted adj start tree) {v u : α}
    (hu : predecessor tree v = some u) : u ∈ members start tree := by
  induction h generalizing v with
  | nil => cases hu
  | @snoc tree u' w _ hu' hw _ ih =>
    rw [members_snoc]
    refine List.mem_append_left _ ?_
    by_cases hv : v = w
    · subst hv
      rw [predecessor_snoc_self u' fun h => hw (List.mem_cons_of_mem _ h)] at hu
      rwa [← Option.some.inj hu]
    · rw [predecessor_snoc_of_ne u' hv] at hu
      exact ih hu

/-- What is found later does not change the way back. -/
theorem walkBack_snoc (h : Rooted adj start tree) {w : α} (hw : w ∉ members start tree) (u : α)
    (fuel : Nat) {v : α} (hv : v ∈ members start tree) :
    Search.walkBack (tree ++ [(w, u)]) fuel v = Search.walkBack tree fuel v := by
  induction fuel generalizing v with
  | zero => rfl
  | succ fuel ih =>
    have hne : v ≠ w := fun hvw => hw (hvw ▸ hv)
    rw [Search.walkBack, Search.walkBack, predecessor_snoc_of_ne u hne]
    cases hp : predecessor tree v with
    | none => rfl
    | some p =>
      simp only
      rw [ih (h.predecessor_mem hp)]

/-- **The way back** from a vertex of the tree ends, and read forwards it is a path from the
root to that vertex. -/
theorem walkBack (h : Rooted adj start tree) {v : α} (hv : v ∈ members start tree) {fuel : Nat}
    (hfuel : tree.length < fuel) :
    ∃ back, Search.walkBack tree fuel v = some back ∧
      (start :: back.reverse).IsChain (Step adj) ∧
      (start :: back.reverse).getLast? = some v ∧ (back = [] ↔ v = start) := by
  induction h generalizing v fuel with
  | nil =>
    obtain rfl : v = start := List.mem_singleton.mp hv
    obtain ⟨fuel, rfl⟩ := Nat.exists_eq_succ_of_ne_zero (Nat.ne_of_gt hfuel)
    exact ⟨[], rfl, List.isChain_singleton _, rfl, by simp⟩
  | @snoc tree u w htree hu hw hadj ih =>
    rw [List.length_append, List.length_singleton] at hfuel
    rw [members_snoc] at hv
    rcases List.mem_append.mp hv with hv | hv
    · rw [htree.walkBack_snoc hw u fuel hv]
      exact ih hv (by omega)
    · obtain rfl : v = w := List.mem_singleton.mp hv
      obtain ⟨fuel, rfl⟩ := Nat.exists_eq_succ_of_ne_zero (by omega : fuel ≠ 0)
      obtain ⟨back, hback, hchain, hlast, -⟩ := ih hu (by omega : tree.length < fuel)
      refine ⟨v :: back, ?_, ?_, ?_, ?_⟩
      · rw [Search.walkBack, predecessor_snoc_self u fun h => hw (List.mem_cons_of_mem _ h)]
        simp only
        rw [htree.walkBack_snoc hw u fuel hu, hback]
        rfl
      · rw [List.reverse_cons, ← List.cons_append, List.isChain_append]
        refine ⟨hchain, List.isChain_singleton v, fun a ha b hb => ?_⟩
        rw [hlast] at ha
        cases ha
        cases hb
        exact hadj
      · rw [List.reverse_cons, ← List.cons_append, List.getLast?_append]
        rfl
      · have hne : v ≠ start := fun hvs => hw (hvs ▸ List.mem_cons_self)
        simp [hne]

end Rooted

/-! ## The search -/

/-- The visited vertices, and behind them those in the queue, are the vertices of the tree. -/
structure Invariant (adj : α → List α) (start : α) (visited : List α) (s : SearchState α) : Prop where
  rooted : Rooted adj start s.tree
  split : s.discovered start = visited ++ s.queue
  closed : ∀ u ∈ visited, ∀ v ∈ adj u, v ∈ s.discovered start

/-- Examining neighbours of `u`: what is new is found from `u` and goes into the queue. -/
theorem foldl_examine {u : α} (vs : List α) (hvs : ∀ v ∈ vs, v ∈ adj u) (s : SearchState α)
    (hs : Rooted adj start s.tree) (hu : u ∈ s.discovered start) :
    ∃ new, (vs.foldl (examine start u) s).queue = s.queue ++ new ∧
      (vs.foldl (examine start u) s).discovered start = s.discovered start ++ new ∧
      Rooted adj start (vs.foldl (examine start u) s).tree ∧
      ∀ v ∈ vs, v ∈ (vs.foldl (examine start u) s).discovered start := by
  induction vs generalizing s with
  | nil => exact ⟨[], by simp, by simp, hs, fun v hv => absurd hv List.not_mem_nil⟩
  | cons v vs ih =>
    have hrest : ∀ v ∈ vs, v ∈ adj u := fun w hw => hvs w (List.mem_cons_of_mem _ hw)
    rw [List.foldl_cons]
    by_cases hv : v ∈ s.discovered start
    · have hsame : examine start u s v = s := if_pos hv
      rw [hsame]
      obtain ⟨new, hqueue, hdisc, hrooted, hall⟩ := ih hrest s hs hu
      refine ⟨new, hqueue, hdisc, hrooted, fun w hw => ?_⟩
      rcases List.mem_cons.mp hw with rfl | hw
      · rw [hdisc]
        exact List.mem_append_left _ hv
      · exact hall w hw
    · have hnew : examine start u s v = ⟨s.queue ++ [v], s.tree ++ [(v, u)]⟩ := if_neg hv
      have hmem : (⟨s.queue ++ [v], s.tree ++ [(v, u)]⟩ : SearchState α).discovered start =
          s.discovered start ++ [v] := members_snoc start s.tree v u
      rw [hnew]
      obtain ⟨new, hqueue, hdisc, hrooted, hall⟩ := ih hrest
        ⟨s.queue ++ [v], s.tree ++ [(v, u)]⟩ (hs.snoc hu hv (hvs v List.mem_cons_self))
        (hmem ▸ List.mem_append_left _ hu)
      rw [hmem, List.append_assoc] at hdisc
      refine ⟨v :: new, ?_, hdisc, hrooted, fun w hw => ?_⟩
      · rw [hqueue, List.append_assoc]
        rfl
      · rcases List.mem_cons.mp hw with rfl | hw
        · rw [hdisc]
          exact List.mem_append_right _ List.mem_cons_self
        · exact hall w hw

/-- A list gets an element that it does not have. -/
def insertNew (l : List α) (v : α) : List α := if v ∈ l then l else l ++ [v]

theorem foldl_insertNew_of_mem (l vs : List α) (h : ∀ v ∈ vs, v ∈ l) : vs.foldl insertNew l = l := by
  induction vs with
  | nil => rfl
  | cons v vs ih =>
    have hv : insertNew l v = l := if_pos (h v List.mem_cons_self)
    rw [List.foldl_cons, hv]
    exact ih fun w hw => h w (List.mem_cons_of_mem _ hw)

theorem mem_foldl_insertNew (l vs : List α) (v : α) :
    v ∈ vs.foldl insertNew l ↔ v ∈ l ∨ v ∈ vs := by
  induction vs generalizing l with
  | nil => simp
  | cons u vs ih =>
    rw [List.foldl_cons, ih]
    unfold insertNew
    by_cases hu : u ∈ l
    · rw [if_pos hu, List.mem_cons]
      constructor
      · exact Or.imp_right .inr
      · rintro (hv | rfl | hv)
        · exact .inl hv
        · exact .inl hu
        · exact .inr hv
    · rw [if_neg hu, List.mem_append, List.mem_singleton, List.mem_cons, or_assoc]

variable (start) in
/-- The vertices of the tree, as a list that grows. -/
theorem discovered_foldl_examine (u : α) (vs : List α) (s : SearchState α) :
    (vs.foldl (examine start u) s).discovered start = vs.foldl insertNew (s.discovered start) := by
  induction vs generalizing s with
  | nil => rfl
  | cons v vs ih =>
    rw [List.foldl_cons, List.foldl_cons, ih]
    congr 1
    unfold examine insertNew
    by_cases hv : v ∈ s.discovered start
    · rw [if_pos hv, if_pos hv]
    · rw [if_neg hv, if_neg hv]
      exact members_snoc start s.tree v u

theorem Invariant.visit {visited rest : List α} {u : α} {s : SearchState α}
    (h : Invariant adj start visited s) (hqueue : s.queue = u :: rest) :
    Invariant adj start (visited ++ [u]) (visit adj start u ⟨rest, s.tree⟩) := by
  have hsplit : s.discovered start = (visited ++ [u]) ++ rest := by
    rw [h.split, hqueue, List.append_assoc]
    rfl
  have hu : u ∈ s.discovered start := by
    rw [hsplit]
    simp
  obtain ⟨new, hqueue', hdisc, hrooted, hall⟩ :=
    foldl_examine (adj u) (fun v hv => hv) ⟨rest, s.tree⟩ h.rooted hu
  have hdisc' : (Search.visit adj start u ⟨rest, s.tree⟩).discovered start
      = s.discovered start ++ new := hdisc
  constructor
  case rooted => exact hrooted
  case split =>
    rw [hdisc', hsplit, List.append_assoc, ← hqueue']
    rfl
  case closed =>
    intro w hw v hv
    rcases List.mem_append.mp hw with hw | hw
    · rw [hdisc']
      exact List.mem_append_left _ (h.closed w hw v hv)
    · obtain rfl := List.mem_singleton.mp hw
      exact hall v hv

omit [DecidableEq α] in
theorem invariant_start (adj : α → List α) (start : α) :
    Invariant adj start [] ⟨[start], []⟩ :=
  ⟨.nil, rfl, fun _ hu => absurd hu List.not_mem_nil⟩

/-- One visit to every vertex is enough. -/
theorem Invariant.loop {vertices : List α} (hstart : start ∈ vertices)
    (hclosed : ∀ u ∈ vertices, ∀ v ∈ adj u, v ∈ vertices) (fuel : Nat) {visited : List α}
    {s : SearchState α} (h : Invariant adj start visited s)
    (hfuel : vertices.length ≤ visited.length + fuel) :
    ∃ visited', Invariant adj start visited' (loop adj start fuel s) ∧
      (Search.loop adj start fuel s).queue = [] := by
  induction fuel generalizing visited s with
  | zero =>
    refine ⟨visited, h, List.eq_nil_of_length_eq_zero ?_⟩
    have hle := (List.subperm_of_subset h.rooted.nodup
      (h.rooted.subset hstart hclosed)).length_le
    have hlen := congrArg List.length h.split
    rw [List.length_append] at hlen
    unfold SearchState.discovered at hlen
    show s.queue.length = 0
    omega
  | succ fuel ih =>
    unfold Search.loop
    cases hqueue : s.queue with
    | nil => exact ⟨visited, h, hqueue⟩
    | cons u rest =>
      refine ih (h.visit hqueue) ?_
      rw [List.length_append, List.length_singleton]
      omega

omit [DecidableEq α] in
/-- What a search at its end has found. -/
theorem Invariant.mem_discovered_iff {visited : List α} {s : SearchState α}
    (h : Invariant adj start visited s) (hqueue : s.queue = []) (v : α) :
    v ∈ s.discovered start ↔ Relation.ReflTransGen (Step adj) start v := by
  constructor
  · exact h.rooted.reachable
  · intro hreach
    have hsplit := h.split
    rw [hqueue, List.append_nil] at hsplit
    induction hreach with
    | refl => exact List.mem_cons_self
    | tail _ hstep ih => exact h.closed _ (hsplit ▸ ih) _ hstep

/-- **The search ends** once it may visit as many vertices as there are, and it has found
what can be reached, in a tree. -/
theorem search_spec {vertices : List α} (hstart : start ∈ vertices)
    (hclosed : ∀ u ∈ vertices, ∀ v ∈ adj u, v ∈ vertices) {fuel : Nat}
    (hfuel : vertices.length ≤ fuel) :
    ∃ s, search adj fuel start = some s ∧ Rooted adj start s.tree ∧
      s.tree.length < vertices.length ∧
      ∀ v, v ∈ s.discovered start ↔ Relation.ReflTransGen (Step adj) start v := by
  obtain ⟨visited, hinv, hqueue⟩ := (invariant_start adj start).loop hstart hclosed fuel
    (by simpa using hfuel)
  refine ⟨loop adj start fuel ⟨[start], []⟩, ?_, hinv.rooted, ?_, hinv.mem_discovered_iff hqueue⟩
  · unfold search
    simp only [hqueue, if_true]
  · have hle := (List.subperm_of_subset hinv.rooted.nodup
      (hinv.rooted.subset hstart hclosed)).length_le
    unfold members at hle
    rw [List.length_cons, List.length_map] at hle
    exact hle

end Hexabus.Lib.Search
