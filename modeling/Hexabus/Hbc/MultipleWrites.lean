import Hexabus.Hbc.Preservation

/-!
# The paths of multiple writes

Where the commands of a block are drawn out, their path is the only one, the vertices and edges
beside the paths stay as they are, and no vertex and no edge is added beside them.
-/

namespace Hexabus.Hbc

open Lib.Folds

/-- What `expandMultipleWrites` asks of a graph: edges join vertices, and a command vertex with
several commands leads to one vertex. -/
structure OneTarget (g : Graph) : Prop where
  bounded : g.Bounded
  target : ∀ v block, g.contents v = some (.command block) → 1 < block.commands.length →
    ∃ t, g.adjacent v = [t]

theorem WellFormed.oneTarget {g : Graph} (h : WellFormed g) : OneTarget g := by
  refine ⟨h.bounded, fun v block hb _ => ?_⟩
  obtain ⟨t, ht, -⟩ := h.ofCommand v block hb
  exact ⟨t, ht⟩

/-! ## Paths -/

/-- From the command vertex `m` the commands are performed one by one over the vertices `p`, all of
number `n` or more, up to `t`. Between two of them there is a state with one clause, an `if true`. -/
inductive Path (g : Graph) (n : Nat) : Nat → List CommandDoc → List Nat → Nat → Prop
  | last {m t : Nat} {goto : GotoCommandDoc} {command : CommandDoc}
      (block : g.contents m = some (.command ⟨[command], goto⟩)) (target : g.adjacent m = [t]) :
      Path g n m [command] [] t
  | next {m u c m' t : Nat} {goto : GotoCommandDoc} {command : CommandDoc}
      {rest : List CommandDoc} {p : List Nat} (hu : n ≤ u) (hc : n ≤ c) (hm : n ≤ m')
      (block : g.contents m = some (.command ⟨[command], goto⟩)) (toState : g.adjacent m = [u])
      (state : g.contents u = some .state) (clauses : g.adjacent u = [c])
      (ifTrue : g.contents c = some (.cond (.tautology 1))) (commands : g.adjacent c = [m'])
      (more : Path g n m' rest p t) : Path g n m (command :: rest) (u :: c :: m' :: p) t

/-- A walk over the vertices `p`. -/
inductive Walk (g : Graph) : Nat → List Nat → Nat → Prop
  | edge {v t : Nat} (h : t ∈ g.adjacent v) : Walk g v [] t
  | step {v w t : Nat} {p : List Nat} (h : w ∈ g.adjacent v) (more : Walk g w p t) :
      Walk g v (w :: p) t

/-- The edges of a walk. -/
def walkEdges : Nat → List Nat → Nat → List (Nat × Nat)
  | v, [], t => [(v, t)]
  | v, w :: p, t => (v, w) :: walkEdges w p t

section Path

variable {g g' : Graph} {n m t : Nat} {commands : List CommandDoc} {p : List Nat}

theorem Path.fresh (h : Path g n m commands p t) : ∀ w ∈ p, n ≤ w := by
  induction h with
  | last => exact fun w hw => absurd hw List.not_mem_nil
  | next hu hc hm block toState state clauses ifTrue commands more ih =>
    intro w hw
    rcases List.mem_cons.mp hw with rfl | hw
    · exact hu
    rcases List.mem_cons.mp hw with rfl | hw
    · exact hc
    rcases List.mem_cons.mp hw with rfl | hw
    · exact hm
    · exact ih w hw

/-- From a vertex with one edge there is one way on. -/
theorem Walk.forced {v w : Nat} {p' : List Nat} (h : Walk g v p' t) (hfresh : ∀ x ∈ p', n ≤ x)
    (ht : t < n) (hw : n ≤ w) (hone : g.adjacent v = [w]) :
    ∃ p'', p' = w :: p'' ∧ Walk g w p'' t ∧ ∀ x ∈ p'', n ≤ x := by
  cases h with
  | edge hmem =>
    rw [hone] at hmem
    rw [List.mem_singleton.mp hmem] at ht
    omega
  | step hmem more =>
    rw [hone] at hmem
    obtain rfl := List.mem_singleton.mp hmem
    exact ⟨_, rfl, more, fun x hx => hfresh x (List.mem_cons_of_mem _ hx)⟩

/-- **The only path**: a walk over new vertices to the same target is it. -/
theorem Path.unique (h : Path g n m commands p t) (ht : t < n) {p' : List Nat}
    (hwalk : Walk g m p' t) (hfresh : ∀ w ∈ p', n ≤ w) : p' = p := by
  induction h generalizing p' with
  | last block target =>
    cases hwalk with
    | edge => rfl
    | step hmem more =>
      rw [target] at hmem
      have hge := hfresh _ List.mem_cons_self
      rw [List.mem_singleton.mp hmem] at hge
      omega
  | next hu hc hm block toState state clauses ifTrue commands more ih =>
    obtain ⟨p₁, rfl, hwalk₁, hfresh₁⟩ := hwalk.forced hfresh ht hu toState
    obtain ⟨p₂, rfl, hwalk₂, hfresh₂⟩ := hwalk₁.forced hfresh₁ ht hc clauses
    obtain ⟨p₃, rfl, hwalk₃, hfresh₃⟩ := hwalk₂.forced hfresh₂ ht hm commands
    rw [ih ht hwalk₃ hfresh₃]

/-- A path stays where its vertices do. -/
theorem Path.frame (h : Path g n m commands p t) (hm : SameAt g g' m)
    (hp : ∀ w ∈ p, SameAt g g' w) : Path g' n m commands p t := by
  induction h with
  | last block target => exact .last (hm.1.trans block) (hm.2.trans target)
  | next hu hc hm' block toState state clauses ifTrue commands more ih =>
    have su := hp _ List.mem_cons_self
    have sc := hp _ (List.mem_cons_of_mem _ List.mem_cons_self)
    have sm := hp _ (List.mem_cons_of_mem _ (List.mem_cons_of_mem _ List.mem_cons_self))
    exact .next hu hc hm' (hm.1.trans block) (hm.2.trans toState) (su.1.trans state)
      (su.2.trans clauses) (sc.1.trans ifTrue) (sc.2.trans commands)
      (ih sm fun w hw => hp w
        (List.mem_cons_of_mem _ (List.mem_cons_of_mem _ (List.mem_cons_of_mem _ hw))))

theorem Path.mono {k : Nat} (h : Path g n m commands p t) (hk : k ≤ n) :
    Path g k m commands p t := by
  induction h with
  | last block target => exact .last block target
  | next hu hc hm block toState state clauses ifTrue commands more ih =>
    exact .next (hk.trans hu) (hk.trans hc) (hk.trans hm) block toState state clauses ifTrue
      commands ih

/-- A command vertex of a path has one command. -/
theorem Path.single (h : Path g n m commands p t) {w : Nat} (hw : w = m ∨ w ∈ p)
    {block : CommandBlockDoc} (hb : g.contents w = some (.command block)) :
    block.commands.length = 1 := by
  induction h with
  | last block' target =>
    rcases hw with rfl | hw
    · cases hb.symm.trans block'
      rfl
    · exact absurd hw List.not_mem_nil
  | next hu hc hm block' toState state clauses ifTrue commands more ih =>
    rcases hw with rfl | hw
    · cases hb.symm.trans block'
      rfl
    rcases List.mem_cons.mp hw with rfl | hw
    · cases hb.symm.trans state
    rcases List.mem_cons.mp hw with rfl | hw
    · cases hb.symm.trans ifTrue
    · exact ih (List.mem_cons.mp hw)

/-- The edges from its vertices are its own. -/
theorem Path.edges (h : Path g n m commands p t) {w x : Nat} (hw : w = m ∨ w ∈ p)
    (hx : x ∈ g.adjacent w) : (w, x) ∈ walkEdges m p t := by
  induction h with
  | last block target =>
    rcases hw with rfl | hw
    · rw [target] at hx
      rw [List.mem_singleton.mp hx]
      exact List.mem_singleton_self _
    · exact absurd hw List.not_mem_nil
  | next hu hc hm block toState state clauses ifTrue commands more ih =>
    rcases hw with rfl | hw
    · rw [toState] at hx
      rw [List.mem_singleton.mp hx]
      exact List.mem_cons_self
    refine List.mem_cons_of_mem _ ?_
    rcases List.mem_cons.mp hw with rfl | hw
    · rw [clauses] at hx
      rw [List.mem_singleton.mp hx]
      exact List.mem_cons_self
    refine List.mem_cons_of_mem _ ?_
    rcases List.mem_cons.mp hw with rfl | hw
    · rw [commands] at hx
      rw [List.mem_singleton.mp hx]
      exact List.mem_cons_self
    · exact List.mem_cons_of_mem _ (ih (List.mem_cons.mp hw))

end Path

/-! ## One block -/

namespace Graph

variable {g g' : Graph}

theorem getElem?_addVertex (g : Graph) (name : Text) (m i : Nat) (c : Contents) (w : Nat) :
    (g.addVertex name m i c).vertices[w]? =
      if w = g.size then some ⟨replaceNewline name, m, i, c⟩ else g.vertices[w]? := by
  unfold addVertex size
  by_cases hw : w = g.vertices.length
  · subst hw
    simp
  · rw [if_neg hw]
    rcases Nat.lt_or_gt_of_ne hw with hlt | hgt
    · rw [List.getElem?_append_left hlt]
    · rw [List.getElem?_eq_none (by simp; omega), List.getElem?_eq_none (by omega)]

theorem getElem?_setVertex (g : Graph) (v : Nat) (name : Text) (c : Contents) (w : Nat) :
    (g.setVertex v name c).vertices[w]? = if w = v then
      (g.vertices[w]?).map fun x => { x with name := name, contents := c } else g.vertices[w]? := by
  unfold setVertex
  rw [List.getElem?_modify]
  by_cases hw : w = v
  · subst hw
    cases g.vertices[w]? with
    | none => simp
    | some x => simp
  · cases g.vertices[w]? with
    | none => simp
    | some x => simp [hw, Ne.symm hw]

theorem machineOf_setVertex (g : Graph) (v : Nat) (name : Text) (c : Contents) :
    (g.setVertex v name c).machineOf v = g.machineOf v := by
  unfold machineOf
  rw [getElem?_setVertex, if_pos rfl]
  cases g.vertices[v]? with
  | none => rfl
  | some x => rfl

theorem contents_congr {w : Nat} (h : g'.vertices[w]? = g.vertices[w]?) :
    g'.contents w = g.contents w := by
  unfold contents
  rw [h]

/-- The edges from a vertex, where the edges that are compared include them. -/
theorem adjacent_of_filter {P : Nat × Nat → Bool} (h : g'.edges.filter P = g.edges.filter P)
    {w : Nat} (hw : ∀ e, e.1 = w → P e = true) : g'.adjacent w = g.adjacent w := by
  have hown : ∀ g : Graph, g.adjacent w =
      (g.edges.filter P).filterMap fun e => if e.1 = w then some e.2 else none := by
    intro g
    unfold adjacent
    rw [List.filterMap_filter]
    refine List.filterMap_congr fun e _ => ?_
    by_cases he : e.1 = w
    · rw [if_pos (hw e he)]
    · rw [if_neg he]
      split
      · rfl
      · rfl
  rw [hown g, hown g', h]

end Graph

/-- What is the same under a weaker condition is so under a stronger one. -/
theorem filter_congr_of_imp {α : Type} {P Q : α → Bool} {xs ys : List α}
    (h : xs.filter Q = ys.filter Q) (himp : ∀ x, P x = true → Q x = true) :
    xs.filter P = ys.filter P := by
  have hown : ∀ zs : List α, zs.filter P = (zs.filter Q).filter P := by
    intro zs
    rw [List.filter_filter]
    refine List.filter_congr fun x _ => ?_
    cases hx : P x with
    | false => rfl
    | true => rw [himp x hx]; rfl
  rw [hown xs, hown ys, h]

variable (fp : FloatPrinter)

theorem getElem?_splitGraph (g : Graph) (maxId v target : Nat) (head tail : CommandBlockDoc)
    (w : Nat) : (splitGraph fp g maxId v target head tail).vertices[w]? =
      if w = g.size + 2 then some ⟨replaceNewline (commandName fp tail), g.machineOf v, maxId + 3,
        .command tail⟩
      else if w = g.size + 1 then some ⟨replaceNewline ifTrueName, g.machineOf v, maxId + 2,
        .cond (.tautology 1)⟩
      else if w = g.size then some ⟨replaceNewline intermediateName, g.machineOf v, maxId + 1,
        .state⟩
      else if w = v then (g.vertices[w]?).map fun x =>
        { x with name := commandName fp head, contents := .command head }
      else g.vertices[w]? := by
  have hedge : ∀ (g : Graph) (s t : Nat), (g.addEdge s t).vertices = g.vertices := fun _ _ _ => rfl
  have hremove : ∀ (g : Graph) (s t : Nat), (g.removeEdge s t).vertices = g.vertices :=
    fun _ _ _ => rfl
  unfold splitGraph
  simp only [hedge, hremove, Graph.getElem?_addVertex, Graph.getElem?_setVertex,
    Graph.size_addEdge, Graph.size_addVertex, Graph.size_removeEdge, Graph.size_setVertex,
    Graph.machineOf_setVertex]

theorem edges_splitGraph (g : Graph) (maxId v target : Nat) (head tail : CommandBlockDoc) :
    (splitGraph fp g maxId v target head tail).edges = g.edges.filter (· ≠ (v, target)) ++
      [(v, g.size), (g.size, g.size + 1), (g.size + 1, g.size + 2), (g.size + 2, target)] := by
  show ((((_ ++ [_]) ++ [_]) ++ [_]) ++ [_]) = _
  rw [List.append_assoc, List.append_assoc, List.append_assoc]
  rfl

/-- The edges from other vertices stay. -/
theorem filter_splitGraph {g : Graph} (maxId : Nat) {v target : Nat} (head tail : CommandBlockDoc) :
    (splitGraph fp g maxId v target head tail).edges.filter
        (fun e => e.1 < g.size ∧ e.1 ≠ v) = g.edges.filter (fun e => e.1 < g.size ∧ e.1 ≠ v) := by
  rw [edges_splitGraph, List.filter_append, List.filter_filter]
  have hnew : ([(v, g.size), (g.size, g.size + 1), (g.size + 1, g.size + 2),
      (g.size + 2, target)] : List (Nat × Nat)).filter (fun e => e.1 < g.size ∧ e.1 ≠ v) = [] := by
    simp
  rw [hnew, List.append_nil]
  refine List.filter_congr fun e _ => ?_
  by_cases he : e = (v, target)
  · subst he
    simp
  · simp [he]

/-- What `expandMultipleWriteNode` makes of a vertex `v` with the commands `command :: tail`: three
new vertices for each command of the tail, with the next ids, and nothing else. -/
structure Laid (g g' : Graph) (maxId v target : Nat) (command : CommandDoc)
    (tail : List CommandDoc) (goto : GotoCommandDoc) : Prop where
  size : g'.size = g.size + 3 * tail.length
  bounded : g'.Bounded
  head : g'.vertices[v]? = (g.vertices[v]?).map fun x =>
    { x with name := commandName fp ⟨[command], goto⟩, contents := .command ⟨[command], goto⟩ }
  path : Path g' g.size v (command :: tail) (List.range' g.size (3 * tail.length)) target
  ids : ∀ i, i < 3 * tail.length → ∃ name c,
    g'.vertices[g.size + i]? = some ⟨name, g.machineOf v, maxId + 1 + i, c⟩
  frame : ∀ w, w < g.size → w ≠ v → g'.vertices[w]? = g.vertices[w]?
  edges : g'.edges.filter (fun e => e.1 < g.size ∧ e.1 ≠ v) =
    g.edges.filter (fun e => e.1 < g.size ∧ e.1 ≠ v)

variable {fp}

theorem Laid.sameAt {g g' : Graph} {maxId v target : Nat} {command : CommandDoc}
    {tail : List CommandDoc} {goto : GotoCommandDoc}
    (h : Laid fp g g' maxId v target command tail goto) {w : Nat} (hw : w < g.size) (hne : w ≠ v) :
    SameAt g g' w := by
  refine ⟨Graph.contents_congr (h.frame w hw hne), Graph.adjacent_of_filter h.edges ?_⟩
  rintro e rfl
  exact decide_eq_true ⟨hw, hne⟩

variable (fp)

theorem splitGraph_laid {g : Graph} (maxId : Nat) {v target : Nat} (command next : CommandDoc)
    (goto : GotoCommandDoc) (hb : g.Bounded) (hv : v < g.size) (ht : target < g.size)
    (ha : g.adjacent v = [target]) :
    Laid fp g (splitGraph fp g maxId v target ⟨[command], goto⟩ ⟨[next], goto⟩) maxId v target
      command [next] goto := by
  obtain ⟨g₁, hsplit, hs⟩ := splitTransition_spec fp maxId command goto hb hv ht ha
    (List.cons_ne_nil next [])
  rw [splitTransition_eq fp g maxId v target command goto (List.cons_ne_nil next [])] at hsplit
  obtain ⟨rfl, -⟩ := Prod.mk.inj (Except.ok.inj hsplit)
  constructor
  case size => exact hs.size
  case bounded => exact hs.bounded
  case head =>
    rw [getElem?_splitGraph, if_neg (by omega), if_neg (by omega), if_neg (by omega), if_pos rfl]
  case path =>
    exact .next le_rfl (Nat.le_succ _) (Nat.le_add_right _ 2) hs.head hs.toState hs.state hs.toIf
      hs.ifTrue hs.toTail (.last hs.tail hs.toTarget)
  case ids =>
    intro i hi
    rw [List.length_singleton] at hi
    obtain rfl | rfl | rfl : i = 0 ∨ i = 1 ∨ i = 2 := by omega
    · refine ⟨replaceNewline intermediateName, .state, ?_⟩
      rw [getElem?_splitGraph, if_neg (by omega), if_neg (by omega), if_pos (Nat.add_zero _)]
    · refine ⟨replaceNewline ifTrueName, .cond (.tautology 1), ?_⟩
      rw [getElem?_splitGraph, if_neg (by omega), if_pos rfl]
    · refine ⟨replaceNewline (commandName fp ⟨[next], goto⟩), .command ⟨[next], goto⟩, ?_⟩
      rw [getElem?_splitGraph, if_pos rfl]
  case frame =>
    intro w hw hne
    rw [getElem?_splitGraph, if_neg (by omega), if_neg (by omega), if_neg (by omega), if_neg hne]
  case edges => exact filter_splitGraph fp maxId _ _

/-- A split whose tail has been drawn out. -/
theorem Laid.after {g g' : Graph} {maxId v target : Nat} {command next : CommandDoc}
    {rest : List CommandDoc} {goto : GotoCommandDoc} (hv : v < g.size)
    (hs : Split g (splitGraph fp g maxId v target ⟨[command], goto⟩ ⟨next :: rest, goto⟩) v target
      command (next :: rest) goto)
    (hd : Laid fp (splitGraph fp g maxId v target ⟨[command], goto⟩ ⟨next :: rest, goto⟩) g'
      (maxId + 3) (g.size + 2) target next rest goto) :
    Laid fp g g' maxId v target command (next :: rest) goto := by
  have hsize := hs.size
  have sameV := hd.sameAt (show v < _ by omega) (show v ≠ g.size + 2 by omega)
  have sameState := hd.sameAt (show g.size < _ by omega) (show g.size ≠ g.size + 2 by omega)
  have sameIf := hd.sameAt (show g.size + 1 < _ by omega) (show g.size + 1 ≠ g.size + 2 by omega)
  have hmachine : (splitGraph fp g maxId v target ⟨[command], goto⟩ ⟨next :: rest, goto⟩).machineOf
      (g.size + 2) = g.machineOf v := by
    unfold Graph.machineOf
    rw [getElem?_splitGraph, if_pos rfl]
    rfl
  constructor
  case size =>
    rw [hd.size, hsize, List.length_cons]
    omega
  case bounded => exact hd.bounded
  case head =>
    rw [hd.frame v (by omega) (by omega), getElem?_splitGraph, if_neg (by omega),
      if_neg (by omega), if_neg (by omega), if_pos rfl]
  case path =>
    have hrange : List.range' g.size (3 * (next :: rest).length) =
        g.size :: (g.size + 1) :: (g.size + 2) :: List.range' (g.size + 3) (3 * rest.length) := by
      rw [List.length_cons, Nat.mul_succ, List.range'_succ, List.range'_succ, List.range'_succ]
    have hmore := hd.path
    rw [hsize] at hmore
    rw [hrange]
    exact .next le_rfl (Nat.le_succ _) (Nat.le_add_right _ 2) (sameV.1.trans hs.head)
      (sameV.2.trans hs.toState) (sameState.1.trans hs.state) (sameState.2.trans hs.toIf)
      (sameIf.1.trans hs.ifTrue) (sameIf.2.trans hs.toTail) (hmore.mono (Nat.le_add_right _ 3))
  case ids =>
    intro i hi
    rw [List.length_cons] at hi
    by_cases hlt : i < 3
    · obtain rfl | rfl | rfl : i = 0 ∨ i = 1 ∨ i = 2 := by omega
      · refine ⟨replaceNewline intermediateName, .state, ?_⟩
        rw [hd.frame _ (by omega) (by omega), getElem?_splitGraph, if_neg (by omega),
          if_neg (by omega), if_pos (Nat.add_zero _)]
      · refine ⟨replaceNewline ifTrueName, .cond (.tautology 1), ?_⟩
        rw [hd.frame _ (by omega) (by omega), getElem?_splitGraph, if_neg (by omega), if_pos rfl]
      · refine ⟨commandName fp ⟨[next], goto⟩, .command ⟨[next], goto⟩, ?_⟩
        rw [hd.head, getElem?_splitGraph, if_pos rfl]
        rfl
    · obtain ⟨j, rfl⟩ : ∃ j, i = j + 3 := ⟨i - 3, by omega⟩
      obtain ⟨name, c, hw⟩ := hd.ids j (by omega)
      refine ⟨name, c, ?_⟩
      rw [hsize, hmachine, show g.size + 3 + j = g.size + (j + 3) by omega,
        show maxId + 3 + 1 + j = maxId + 1 + (j + 3) by omega] at hw
      exact hw
  case frame =>
    intro w hw hne
    rw [hd.frame w (by omega) (by omega), getElem?_splitGraph, if_neg (by omega),
      if_neg (by omega), if_neg (by omega), if_neg hne]
  case edges =>
    refine (filter_congr_of_imp hd.edges fun e he => ?_).trans (filter_splitGraph fp maxId _ _)
    have hlt := of_decide_eq_true he
    exact decide_eq_true ⟨by omega, by omega⟩

theorem expandMultipleWriteNode_laid {goto : GotoCommandDoc} {tail : List CommandDoc}
    {command : CommandDoc} {g : Graph} {maxId v target : Nat} (hb : g.Bounded) (hv : v < g.size)
    (ha : g.adjacent v = [target]) (htail : tail ≠ []) :
    ∃ g', expandMultipleWriteNode fp goto (command :: tail) g maxId v =
        .ok (g', maxId + 3 * tail.length) ∧
      Laid fp g g' maxId v target command tail goto := by
  induction tail generalizing command g maxId v with
  | nil => exact absurd rfl htail
  | cons next rest ih =>
    have ht : target < g.size := by
      refine @Graph.Bounded.adjacent_lt g hb v target ?_
      rw [ha]
      exact List.mem_singleton_self target
    rw [expandMultipleWriteNode, ha]
    simp only [splitTransition_eq fp g maxId v target command goto htail, bind, Except.bind]
    cases rest with
    | nil => exact ⟨_, rfl, splitGraph_laid fp maxId command next goto hb hv ht ha⟩
    | cons next' rest =>
      obtain ⟨g₁, hsplit, hs⟩ := splitTransition_spec fp maxId command goto hb hv ht ha htail
      rw [splitTransition_eq fp g maxId v target command goto htail] at hsplit
      obtain ⟨rfl, -⟩ := Prod.mk.inj (Except.ok.inj hsplit)
      obtain ⟨g', hrun, hd⟩ := @ih next _ (maxId + 3) (g.size + 2) hs.bounded
        (by rw [hs.size]; omega) hs.toTarget (List.cons_ne_nil _ _)
      have hsize := hs.size
      rw [if_pos (by simp), hrun]
      refine ⟨g', ?_, hd.after fp hv hs⟩
      simp only [List.length_cons]
      congr 2
      omega

/-! ## All blocks -/

/-- The number of commands of a command vertex. -/
def commandCount (g : Graph) (v : Nat) : Nat :=
  match g.contents v with
  | some (.command block) => block.commands.length
  | _ => 0

theorem commandCount_command {g : Graph} {v : Nat} {block : CommandBlockDoc}
    (h : g.contents v = some (.command block)) : commandCount g v = block.commands.length := by
  unfold commandCount
  rw [h]

/-- A vertex with several commands. -/
theorem commands_of_count {g : Graph} {v : Nat} (h : 1 < commandCount g v) :
    ∃ command tail goto, tail ≠ [] ∧
      g.contents v = some (.command ⟨command :: tail, goto⟩) := by
  unfold commandCount at h
  split at h
  · rename_i block hcontents
    obtain ⟨commands, goto⟩ := block
    obtain ⟨command, tail, rfl⟩ := List.exists_cons_of_length_pos (Nat.lt_of_succ_lt h)
    refine ⟨command, tail, goto, ?_, hcontents⟩
    rintro rfl
    exact Nat.lt_irrefl 1 h
  · omega

/-- The path that a vertex with several commands becomes. -/
def PathOf (g g' : Graph) (v : Nat) (p : List Nat) (t : Nat) : Prop :=
  ∃ command tail goto, tail ≠ [] ∧ g.contents v = some (.command ⟨command :: tail, goto⟩) ∧
    g.adjacent v = [t] ∧ Path g' g.size v (command :: tail) p t

/-- The pass has been over the vertices before number `k`. -/
structure LaidUpto (g g' : Graph) (maxId k : Nat) : Prop where
  size : g.size ≤ g'.size
  maxId : maxId = maxVertexId g + (g'.size - g.size)
  bounded : g'.Bounded
  kept : ∀ w, w < g.size → (k ≤ w ∨ ¬ 1 < commandCount g w) →
    g'.vertices[w]? = g.vertices[w]?
  heads : ∀ v, v < k → ∀ command tail goto, tail ≠ [] →
    g.contents v = some (.command ⟨command :: tail, goto⟩) →
    g'.vertices[v]? = (g.vertices[v]?).map fun x =>
      { x with name := commandName fp ⟨[command], goto⟩, contents := .command ⟨[command], goto⟩ }
  paths : ∀ v, v < k → 1 < commandCount g v → ∃ p t, PathOf g g' v p t
  new : ∀ w, g.size ≤ w → w < g'.size → ∃ v, v < k ∧ (∃ p t, PathOf g g' v p t ∧ w ∈ p) ∧
    ∃ name c, g'.vertices[w]? =
      some ⟨name, g.machineOf v, maxVertexId g + 1 + (w - g.size), c⟩
  edges : g'.edges.filter (fun e => e.1 < g.size ∧ (k ≤ e.1 ∨ ¬ 1 < commandCount g e.1)) =
    g.edges.filter (fun e => e.1 < g.size ∧ (k ≤ e.1 ∨ ¬ 1 < commandCount g e.1))

theorem Path.start_lt {g : Graph} {n m t : Nat} {commands : List CommandDoc} {p : List Nat}
    (h : Path g n m commands p t) : m < g.size := by
  cases h with
  | last block target => exact Graph.contents_lt block
  | next hu hc hm block => exact Graph.contents_lt block

theorem Path.lt {g : Graph} {n m t : Nat} {commands : List CommandDoc} {p : List Nat}
    (h : Path g n m commands p t) {w : Nat} (hw : w ∈ p) : w < g.size := by
  induction h with
  | last => exact absurd hw List.not_mem_nil
  | next hu hc hm block toState state clauses ifTrue commands more ih =>
    rcases List.mem_cons.mp hw with rfl | hw
    · exact Graph.contents_lt state
    rcases List.mem_cons.mp hw with rfl | hw
    · exact Graph.contents_lt ifTrue
    rcases List.mem_cons.mp hw with rfl | hw
    · exact more.start_lt
    · exact ih hw

/-- A path stays while another vertex is drawn out. -/
theorem PathOf.frame {g g₁ g₂ : Graph} {v k t : Nat} {p : List Nat} (h : PathOf g g₁ v p t)
    (hk : k < g.size) (hv : v < g.size) (hne : v ≠ k) (hsize : g.size ≤ g₁.size)
    (hsame : ∀ w, w < g₁.size → w ≠ k → SameAt g₁ g₂ w) : PathOf g g₂ v p t := by
  obtain ⟨command, tail, goto, htail, hcontents, htarget, hpath⟩ := h
  refine ⟨command, tail, goto, htail, hcontents, htarget, ?_⟩
  refine hpath.frame (hsame v (by omega) hne) fun w hw => ?_
  have hfresh := hpath.fresh w hw
  exact hsame w (hpath.lt hw) (by omega)

variable {fp} {g g₁ g₂ : Graph} {maxId k : Nat}

theorem LaidUpto.sameAt (h : LaidUpto fp g g₁ maxId k) {w : Nat} (hw : w < g.size)
    (hkept : k ≤ w ∨ ¬ 1 < commandCount g w) : SameAt g g₁ w := by
  refine ⟨Graph.contents_congr (h.kept w hw hkept), Graph.adjacent_of_filter h.edges ?_⟩
  rintro e rfl
  exact decide_eq_true ⟨hw, hkept⟩

/-- A vertex at which the pass does nothing. -/
theorem LaidUpto.skip (h : LaidUpto fp g g₁ maxId k) (hshort : ¬ 1 < commandCount g k) :
    LaidUpto fp g g₁ maxId (k + 1) := by
  have hcases : ∀ {w : Nat}, k + 1 ≤ w ∨ ¬ 1 < commandCount g w ↔
      k ≤ w ∨ ¬ 1 < commandCount g w := by
    intro w
    constructor
    · rintro (hle | hnot)
      · exact .inl (by omega)
      · exact .inr hnot
    · rintro (hle | hnot)
      · rcases Nat.eq_or_lt_of_le hle with rfl | hlt
        · exact .inr hshort
        · exact .inl hlt
      · exact .inr hnot
  constructor
  case size => exact h.size
  case maxId => exact h.maxId
  case bounded => exact h.bounded
  case kept => exact fun w hw hkept => h.kept w hw (hcases.mp hkept)
  case heads =>
    intro v hv command tail goto htail hcontents
    rcases Nat.lt_succ_iff_lt_or_eq.mp hv with hlt | rfl
    · exact h.heads v hlt command tail goto htail hcontents
    · rw [commandCount_command hcontents, List.length_cons] at hshort
      have hpos := List.length_pos_iff.mpr htail
      omega
  case paths =>
    intro v hv hlong
    rcases Nat.lt_succ_iff_lt_or_eq.mp hv with hlt | rfl
    · exact h.paths v hlt hlong
    · exact absurd hlong hshort
  case new =>
    intro w hw hlt
    obtain ⟨v, hv, hrest⟩ := h.new w hw hlt
    exact ⟨v, Nat.lt_succ_of_lt hv, hrest⟩
  case edges =>
    refine filter_congr_of_imp h.edges fun e he => ?_
    obtain ⟨hlt, hkept⟩ := of_decide_eq_true he
    exact decide_eq_true ⟨hlt, hcases.mp hkept⟩

/-- A vertex whose block is drawn out. -/
theorem LaidUpto.draw (h : LaidUpto fp g g₁ maxId k) (hk : k < g.size) {command : CommandDoc}
    {tail : List CommandDoc} {goto : GotoCommandDoc} {target : Nat} (htail : tail ≠ [])
    (hcontents : g.contents k = some (.command ⟨command :: tail, goto⟩))
    (htarget : g.adjacent k = [target]) (hd : Laid fp g₁ g₂ maxId k target command tail goto) :
    LaidUpto fp g g₂ (maxId + 3 * tail.length) (k + 1) := by
  have hlong : 1 < commandCount g k := by
    rw [commandCount_command hcontents, List.length_cons]
    have hpos := List.length_pos_iff.mpr htail
    omega
  have hsize := h.size
  have hsize₂ := hd.size
  have hmax := h.maxId
  have hsame : ∀ w, w < g₁.size → w ≠ k → SameAt g₁ g₂ w := fun w hw hne => hd.sameAt hw hne
  have hother : ∀ {w : Nat}, k + 1 ≤ w ∨ ¬ 1 < commandCount g w → w ≠ k := by
    rintro w (hle | hnot) rfl
    · omega
    · exact hnot hlong
  have hkvertex : g₁.vertices[k]? = g.vertices[k]? := h.kept k hk (.inl le_rfl)
  have hpath : PathOf g g₂ k (List.range' g₁.size (3 * tail.length)) target :=
    ⟨command, tail, goto, htail, hcontents, htarget, hd.path.mono hsize⟩
  constructor
  case size => omega
  case maxId => omega
  case bounded => exact hd.bounded
  case kept =>
    intro w hw hkept
    rw [hd.frame w (by omega) (hother hkept)]
    exact h.kept w hw (hkept.imp (by omega) id)
  case heads =>
    intro v hv command' tail' goto' htail' hcontents'
    rcases Nat.lt_succ_iff_lt_or_eq.mp hv with hlt | rfl
    · rw [hd.frame v (by omega) (by omega)]
      exact h.heads v hlt command' tail' goto' htail' hcontents'
    · cases hcontents.symm.trans hcontents'
      rw [hd.head, hkvertex]
  case paths =>
    intro v hv hcount
    rcases Nat.lt_succ_iff_lt_or_eq.mp hv with hlt | rfl
    · obtain ⟨p, t, hp⟩ := h.paths v hlt hcount
      exact ⟨p, t, hp.frame hk (by omega) (by omega) hsize hsame⟩
    · exact ⟨_, _, hpath⟩
  case new =>
    intro w hw hlt
    by_cases hold : w < g₁.size
    · obtain ⟨v, hv, ⟨p, t, hp, hmem⟩, name, c, hvertex⟩ := h.new w hw hold
      refine ⟨v, Nat.lt_succ_of_lt hv, ⟨p, t, hp.frame hk (by omega) (by omega) hsize hsame, hmem⟩,
        name, c, ?_⟩
      rw [hd.frame w hold (by omega)]
      exact hvertex
    · obtain ⟨name, c, hvertex⟩ := hd.ids (w - g₁.size) (by omega)
      refine ⟨k, Nat.lt_succ_self k, ⟨_, _, hpath, List.mem_range'_1.mpr ⟨by omega, by omega⟩⟩,
        name, c, ?_⟩
      have hmachine : g₁.machineOf k = g.machineOf k := by
        unfold Graph.machineOf
        rw [hkvertex]
      rw [show g₁.size + (w - g₁.size) = w by omega, hmachine, hmax,
        show maxVertexId g + (g₁.size - g.size) + 1 + (w - g₁.size) =
          maxVertexId g + 1 + (w - g.size) by omega] at hvertex
      exact hvertex
  case edges =>
    refine (filter_congr_of_imp hd.edges fun e he => ?_).trans
      (filter_congr_of_imp h.edges fun e he => ?_)
    · obtain ⟨hlt, hkept⟩ := of_decide_eq_true he
      exact decide_eq_true ⟨by omega, hother hkept⟩
    · obtain ⟨hlt, hkept⟩ := of_decide_eq_true he
      exact decide_eq_true ⟨hlt, hkept.imp (by omega) id⟩

/-- **One vertex** of the pass. -/
theorem expandWritesAt_laid (hg : OneTarget g) (h : LaidUpto fp g g₁ maxId k) (hk : k < g.size) :
    ∃ g₂ maxId', expandWritesAt fp (g₁, maxId) k = .ok (g₂, maxId') ∧
      LaidUpto fp g g₂ maxId' (k + 1) := by
  obtain ⟨hcontents, hadjacent⟩ := h.sameAt hk (.inl le_rfl)
  have hsize := h.size
  by_cases hlong : 1 < commandCount g k
  · obtain ⟨command, tail, goto, htail, hc⟩ := commands_of_count hlong
    rw [commandCount_command hc] at hlong
    obtain ⟨target, htarget⟩ := hg.target k _ hc hlong
    obtain ⟨g₂, hrun, hd⟩ := @expandMultipleWriteNode_laid fp goto tail command g₁ maxId k target
      h.bounded (by omega) (hadjacent.trans htarget) htail
    refine ⟨g₂, _, ?_, h.draw hk htail hc htarget hd⟩
    unfold expandWritesAt
    simp only [hcontents, hc, if_pos hlong]
    exact hrun
  · refine ⟨g₁, maxId, ?_, h.skip hlong⟩
    unfold expandWritesAt
    simp only [hcontents]
    cases hc : g.contents k with
    | none => rfl
    | some contents =>
      cases contents with
      | state => rfl
      | cond condition => rfl
      | command block =>
        rw [commandCount_command hc] at hlong
        exact if_neg hlong

/-- How the expanded graph comes out of the graph. -/
structure DrawnOut (fp : FloatPrinter) (g g' : Graph) : Prop where
  single : ∀ v block, g'.contents v = some (.command block) → block.commands.length ≤ 1
  path : ∀ v command tail goto t, g.contents v = some (.command ⟨command :: tail, goto⟩) →
    g.adjacent v = [t] → ∃ p, Path g' g.size v (command :: tail) p t ∧
      ∀ p', Walk g' v p' t → (∀ w ∈ p', g.size ≤ w) → p' = p
  oldVertex : ∀ v, v < g.size → ¬ 1 < commandCount g v → g'.vertices[v]? = g.vertices[v]?
  headVertex : ∀ v command tail goto, tail ≠ [] →
    g.contents v = some (.command ⟨command :: tail, goto⟩) →
    g'.vertices[v]? = (g.vertices[v]?).map fun x =>
      { x with name := commandName fp ⟨[command], goto⟩, contents := .command ⟨[command], goto⟩ }
  newVertex : ∀ w, g.size ≤ w → w < g'.size →
    ∃ v, v < g.size ∧ (∃ p t, PathOf g g' v p t ∧ w ∈ p) ∧ ∃ name c, g'.vertices[w]? =
      some ⟨name, g.machineOf v, maxVertexId g + 1 + (w - g.size), c⟩
  oldEdges : g'.edges.filter (fun e => e.1 < g.size ∧ ¬ 1 < commandCount g e.1) =
    g.edges.filter (fun e => e.1 < g.size ∧ ¬ 1 < commandCount g e.1)
  newEdges : ∀ e ∈ g'.edges, (e.1 < g.size ∧ ¬ 1 < commandCount g e.1) ∨
    ∃ v p t, PathOf g g' v p t ∧ e ∈ walkEdges v p t

/-- A pass over all vertices. -/
theorem LaidUpto.drawnOut {g' : Graph} (hg : OneTarget g) (h : LaidUpto fp g g' maxId g.size) :
    DrawnOut fp g g' := by
  have hcommands : ∀ {v : Nat} {block : CommandBlockDoc},
      g.contents v = some (.command block) → v < g.size := Graph.contents_lt
  have hold : ∀ {v : Nat}, v < g.size → ¬ 1 < commandCount g v → SameAt g g' v :=
    fun hv hshort => h.sameAt hv (.inr hshort)
  constructor
  case single =>
    intro v block hblock
    by_cases hnew : g.size ≤ v
    · obtain ⟨u, -, ⟨p, t, ⟨command, tail, goto, -, -, -, hpath⟩, hmem⟩, -⟩ :=
        h.new v hnew (Graph.contents_lt hblock)
      exact (hpath.single (.inr hmem) hblock).le
    · have hv : v < g.size := Nat.lt_of_not_le hnew
      by_cases hlong : 1 < commandCount g v
      · obtain ⟨p, t, command, tail, goto, -, -, -, hpath⟩ := h.paths v hv hlong
        exact (hpath.single (.inl rfl) hblock).le
      · rw [(hold hv hlong).1] at hblock
        rw [commandCount_command hblock] at hlong
        exact Nat.le_of_not_lt hlong
  case path =>
    intro v command tail goto t hcontents htarget
    have hv := hcommands hcontents
    have ht : t < g.size := by
      refine @Graph.Bounded.adjacent_lt g hg.bounded v t ?_
      rw [htarget]
      exact List.mem_singleton_self t
    have hpath : ∃ p, Path g' g.size v (command :: tail) p t := by
      by_cases hlong : 1 < commandCount g v
      · obtain ⟨p, t', command', tail', goto', -, hcontents', htarget', hpath⟩ := h.paths v hv hlong
        cases hcontents.symm.trans hcontents'
        cases htarget.symm.trans htarget'
        exact ⟨p, hpath⟩
      · obtain ⟨hsame, hedges⟩ := hold hv hlong
        rw [commandCount_command hcontents, List.length_cons] at hlong
        obtain rfl : tail = [] := List.length_eq_zero_iff.mp (by omega)
        exact ⟨[], .last (hsame.trans hcontents) (hedges.trans htarget)⟩
    obtain ⟨p, hp⟩ := hpath
    exact ⟨p, hp, fun p' hwalk hfresh => hp.unique ht hwalk hfresh⟩
  case oldVertex => exact fun v hv hshort => h.kept v hv (.inr hshort)
  case headVertex =>
    intro v command tail goto htail hcontents
    exact h.heads v (hcommands hcontents) command tail goto htail hcontents
  case newVertex => exact h.new
  case oldEdges =>
    refine filter_congr_of_imp h.edges fun e he => ?_
    obtain ⟨hlt, hshort⟩ := of_decide_eq_true he
    exact decide_eq_true ⟨hlt, .inr hshort⟩
  case newEdges =>
    intro e he
    have hmem : e.2 ∈ g'.adjacent e.1 := Graph.mem_adjacent.mpr he
    by_cases hnew : g.size ≤ e.1
    · obtain ⟨v, -, ⟨p, t, hp, hw⟩, -⟩ := h.new e.1 hnew (h.bounded e he).1
      refine .inr ⟨v, p, t, hp, ?_⟩
      obtain ⟨command, tail, goto, -, -, -, hpath⟩ := hp
      exact hpath.edges (.inr hw) hmem
    · by_cases hlong : 1 < commandCount g e.1
      · obtain ⟨p, t, hp⟩ := h.paths e.1 (Nat.lt_of_not_le hnew) hlong
        refine .inr ⟨e.1, p, t, hp, ?_⟩
        obtain ⟨command, tail, goto, -, -, -, hpath⟩ := hp
        exact hpath.edges (.inl rfl) hmem
      · exact .inl ⟨Nat.lt_of_not_le hnew, hlong⟩

variable (fp) in
/-- **Multiple writes are drawn out**: the pass succeeds on every graph whose command vertices have
one target each. Then no vertex has several commands, each of those that had is the start of the only
path over new vertices that performs its commands in order and ends in its target, and every vertex
and edge that is not on such a path is an old one. -/
theorem expandMultipleWrites_drawnOut (hg : OneTarget g) :
    ∃ g', expandMultipleWrites fp g = .ok g' ∧ DrawnOut fp g g' := by
  have hstep : ∀ (k : Nat) (s : Graph × Nat), k < g.size → LaidUpto fp g s.1 s.2 k →
      ∃ s', expandWritesAt fp s k = .ok s' ∧ LaidUpto fp g s'.1 s'.2 (k + 1) := by
    intro k s hk h
    obtain ⟨g₂, maxId', hrun, hup⟩ := expandWritesAt_laid hg h hk
    exact ⟨(g₂, maxId'), hrun, hup⟩
  have hstart : LaidUpto fp g g (maxVertexId g) 0 := by
    constructor
    case size => exact le_rfl
    case maxId => rw [Nat.sub_self, Nat.add_zero]
    case bounded => exact hg.bounded
    case kept => exact fun _ _ _ => rfl
    case heads => exact fun v hv => absurd hv (Nat.not_lt_zero v)
    case paths => exact fun v hv => absurd hv (Nat.not_lt_zero v)
    case new => exact fun w hw hlt => absurd hlt (Nat.not_lt_of_le hw)
    case edges => rfl
  obtain ⟨s', hrun, hup⟩ := foldlM_range hstep hstart (s := (g, maxVertexId g))
  refine ⟨s'.1, ?_, hup.drawnOut hg⟩
  unfold expandMultipleWrites
  exact bind_ok_iff.mpr ⟨s', hrun, rfl⟩

/-- The lamps, of which two are switched on at once. -/
theorem lampGraph_drawnOut :
    ∃ g', expandMultipleWrites bitPrinter lampGraph = .ok g' ∧ DrawnOut bitPrinter lampGraph g' :=
  expandMultipleWrites_drawnOut bitPrinter lampGraph_wellFormed.oneTarget

end Hexabus.Hbc
