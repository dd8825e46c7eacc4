import Hexabus.Hbc.GraphSimplification
import Hexabus.Lib.Folds

/-!
# Drawn out command blocks

What `expandMultipleWrites` makes of a graph: a command vertex keeps its first command
and leads into a chain of new states that performs the others, one by one, and ends in
the old target. Nothing else changes.
-/

namespace Hexabus.Hbc

open Lib.Folds

/-- The graph of a device's machines: states lead to conditions, a condition to one
command vertex, and a command vertex to one state. -/
structure WellFormed (g : Graph) : Prop where
  bounded : g.Bounded
  ofState : ∀ v, g.contents v = some .state → ∀ c ∈ g.adjacent v,
    ∃ condition, g.contents c = some (.cond condition)
  ofCond : ∀ v condition, g.contents v = some (.cond condition) →
    ∃ m block, g.adjacent v = [m] ∧ g.contents m = some (.command block)
  ofCommand : ∀ v block, g.contents v = some (.command block) →
    ∃ t, g.adjacent v = [t] ∧ g.contents t = some .state

/-! ## Chains -/

/-- From `u`, states from number `n` on perform the commands, one a state, and the
last one leads to `t`. Each state has one clause, an `if true`. -/
inductive Chain (g : Graph) (n : Nat) : Nat → List CommandDoc → Nat → Prop
  | done {t : Nat} : Chain g n t [] t
  | next {u c m u' t : Nat} {goto : GotoCommandDoc} {command : CommandDoc}
      {rest : List CommandDoc} (hu : n ≤ u) (hc : n ≤ c) (hm : n ≤ m)
      (state : g.contents u = some .state) (clauses : g.adjacent u = [c])
      (ifTrue : g.contents c = some (.cond (.tautology 1))) (commands : g.adjacent c = [m])
      (block : g.contents m = some (.command ⟨[command], goto⟩)) (target : g.adjacent m = [u'])
      (more : Chain g n u' rest t) : Chain g n u (command :: rest) t

/-- The second graph has the same vertex there, with the same edges. -/
def SameAt (g g' : Graph) (v : Nat) : Prop :=
  g'.contents v = g.contents v ∧ g'.adjacent v = g.adjacent v

theorem SameAt.trans {g g' g'' : Graph} {v : Nat} (h : SameAt g g' v) (h' : SameAt g' g'' v) :
    SameAt g g'' v :=
  ⟨h'.1.trans h.1, h'.2.trans h.2⟩

/-- A chain stays as it is when its part of the graph does. -/
theorem Chain.frame {g g' : Graph} {n u t : Nat} {commands : List CommandDoc}
    (h : Chain g n u commands t) (hsame : ∀ v, n ≤ v → v < g.size → SameAt g g' v) :
    Chain g' n u commands t := by
  induction h with
  | done => exact .done
  | next hu hc hm state clauses ifTrue commands block target more ih =>
    have su := hsame _ hu (Graph.contents_lt state)
    have sc := hsame _ hc (Graph.contents_lt ifTrue)
    have sm := hsame _ hm (Graph.contents_lt block)
    exact .next hu hc hm (su.1.trans state) (su.2.trans clauses) (sc.1.trans ifTrue)
      (sc.2.trans commands) (sm.1.trans block) (sm.2.trans target) ih

theorem Chain.mono {g : Graph} {n n' u t : Nat} {commands : List CommandDoc}
    (h : Chain g n' u commands t) (hn : n ≤ n') : Chain g n u commands t := by
  induction h with
  | done => exact .done
  | next hu hc hm state clauses ifTrue commands block target more ih =>
    exact .next (hn.trans hu) (hn.trans hc) (hn.trans hm) state clauses ifTrue commands block
      target ih

theorem Chain.eq_of_nil {g : Graph} {n u t : Nat} (h : Chain g n u [] t) : u = t := by
  cases h
  rfl

/-- A chain with commands begins in one of its states. -/
theorem Chain.start {g : Graph} {n u t : Nat} {commands : List CommandDoc}
    (h : Chain g n u commands t) (hne : commands ≠ []) : n ≤ u := by
  cases h with
  | done => exact absurd rfl hne
  | next hu => exact hu

/-! ## One split -/

theorem commandBlockHead_cons (command : CommandDoc) (tail : List CommandDoc)
    (goto : GotoCommandDoc) : commandBlockHead ⟨command :: tail, goto⟩ = .ok ⟨[command], goto⟩ := by
  unfold commandBlockHead
  rw [if_neg (by simp)]
  rfl

theorem commandBlockTail_cons (command : CommandDoc) {tail : List CommandDoc}
    (goto : GotoCommandDoc) (h : tail ≠ []) :
    commandBlockTail ⟨command :: tail, goto⟩ = .ok ⟨tail, goto⟩ := by
  have hlen := List.length_pos_iff.mpr h
  unfold commandBlockTail
  rw [if_neg (by simp only [List.length_cons]; omega)]
  rfl

/-- What `splitTransition` makes of a command vertex with the commands
`command :: tail`: it now leads over the new vertices `n`, `n + 1` and `n + 2`. -/
structure Split (g g' : Graph) (v target : Nat) (command : CommandDoc) (tail : List CommandDoc)
    (goto : GotoCommandDoc) : Prop where
  size : g'.size = g.size + 3
  bounded : g'.Bounded
  head : g'.contents v = some (.command ⟨[command], goto⟩)
  toState : g'.adjacent v = [g.size]
  state : g'.contents g.size = some .state
  toIf : g'.adjacent g.size = [g.size + 1]
  ifTrue : g'.contents (g.size + 1) = some (.cond (.tautology 1))
  toTail : g'.adjacent (g.size + 1) = [g.size + 2]
  tail : g'.contents (g.size + 2) = some (.command ⟨tail, goto⟩)
  toTarget : g'.adjacent (g.size + 2) = [target]
  frame : ∀ w, w < g.size → w ≠ v → SameAt g g' w

variable (fp : FloatPrinter)

/-- The graph that `splitTransition` returns; the new vertices have the numbers
`g.size`, `g.size + 1` and `g.size + 2`. -/
def splitGraph (g : Graph) (maxId v target : Nat) (head tail : CommandBlockDoc) : Graph :=
  let machine := (g.setVertex v (commandName fp head) (.command head)).machineOf v
  ((((((((g.setVertex v (commandName fp head) (.command head)).removeEdge v target).addVertex
    intermediateName machine (maxId + 1) .state).addEdge v g.size).addVertex
    ifTrueName machine (maxId + 2) (.cond (.tautology 1))).addEdge g.size (g.size + 1)).addVertex
    (commandName fp tail) machine (maxId + 3) (.command tail)).addEdge
    (g.size + 1) (g.size + 2)).addEdge (g.size + 2) target

theorem splitTransition_eq (g : Graph) (maxId v target : Nat) (command : CommandDoc)
    {tail : List CommandDoc} (goto : GotoCommandDoc) (htail : tail ≠ []) :
    splitTransition fp g maxId v target ⟨command :: tail, goto⟩
      = .ok (splitGraph fp g maxId v target ⟨[command], goto⟩ ⟨tail, goto⟩, maxId + 3,
        g.size + 2) := by
  unfold splitTransition splitGraph
  rw [commandBlockHead_cons, commandBlockTail_cons command goto htail]
  simp only [bind, Except.bind, pure, Except.pure, Graph.size_addEdge, Graph.size_addVertex,
    Graph.size_removeEdge, Graph.size_setVertex]

theorem size_splitGraph (g : Graph) (maxId v target : Nat) (head tail : CommandBlockDoc) :
    (splitGraph fp g maxId v target head tail).size = g.size + 3 := by
  unfold splitGraph
  simp only [Graph.size_addEdge, Graph.size_addVertex, Graph.size_removeEdge,
    Graph.size_setVertex]

theorem contents_splitGraph (g : Graph) (maxId v target : Nat) (head tail : CommandBlockDoc)
    (w : Nat) :
    (splitGraph fp g maxId v target head tail).contents w
      = if w = g.size + 2 then some (.command tail)
        else if w = g.size + 1 then some (.cond (.tautology 1))
        else if w = g.size then some .state
        else if w = v ∧ v < g.size then some (.command head)
        else g.contents w := by
  unfold splitGraph
  simp only [Graph.contents_addEdge, Graph.contents_addVertex, Graph.contents_removeEdge,
    Graph.contents_setVertex, Graph.size_addEdge, Graph.size_addVertex, Graph.size_removeEdge,
    Graph.size_setVertex]

theorem adjacent_splitGraph (g : Graph) (maxId v target : Nat) (head tail : CommandBlockDoc)
    (w : Nat) :
    (splitGraph fp g maxId v target head tail).adjacent w
      = (if w = v then (g.adjacent w).filter (· ≠ target) else g.adjacent w)
        ++ (if w = v then [g.size] else []) ++ (if w = g.size then [g.size + 1] else [])
        ++ (if w = g.size + 1 then [g.size + 2] else [])
        ++ (if w = g.size + 2 then [target] else []) := by
  unfold splitGraph
  simp only [Graph.adjacent_addEdge, Graph.adjacent_addVertex, Graph.adjacent_removeEdge,
    Graph.adjacent_setVertex]

theorem bounded_splitGraph {g : Graph} (hb : g.Bounded) (maxId : Nat) {v target : Nat}
    (hv : v < g.size) (ht : target < g.size) (head tail : CommandBlockDoc) :
    (splitGraph fp g maxId v target head tail).Bounded := by
  unfold splitGraph
  have h1 := (hb.setVertex v (commandName fp head) (.command head)).removeEdge v target
  refine ((((((h1.addVertex _ _ _ _).addEdge ?_ ?_).addVertex _ _ _ _).addEdge ?_ ?_).addVertex
    _ _ _ _).addEdge ?_ ?_).addEdge ?_ ?_
  all_goals
    simp only [Graph.size_addEdge, Graph.size_addVertex, Graph.size_removeEdge,
      Graph.size_setVertex]
    omega

theorem splitTransition_spec {g : Graph} (maxId : Nat) {v target : Nat} (command : CommandDoc)
    {tail : List CommandDoc} (goto : GotoCommandDoc) (hb : g.Bounded) (hv : v < g.size)
    (ht : target < g.size) (ha : g.adjacent v = [target]) (htail : tail ≠ []) :
    ∃ g', splitTransition fp g maxId v target ⟨command :: tail, goto⟩
        = .ok (g', maxId + 3, g.size + 2) ∧ Split g g' v target command tail goto := by
  refine ⟨_, splitTransition_eq fp g maxId v target command goto htail, ?_⟩
  -- the new vertices have no edges yet
  have hnew : ∀ w, g.size ≤ w → g.adjacent w = [] := fun w hw => hb.adjacent_eq_nil hw
  constructor
  case size => exact size_splitGraph ..
  case bounded => exact bounded_splitGraph fp hb maxId hv ht _ _
  case head =>
    rw [contents_splitGraph, if_neg (by omega), if_neg (by omega), if_neg (by omega),
      if_pos ⟨rfl, hv⟩]
  case toState =>
    rw [adjacent_splitGraph, if_pos rfl, if_pos rfl, if_neg (by omega), if_neg (by omega),
      if_neg (by omega), ha]
    simp
  case state => rw [contents_splitGraph, if_neg (by omega), if_neg (by omega), if_pos rfl]
  case toIf =>
    rw [adjacent_splitGraph, if_neg (by omega), if_neg (by omega), if_pos rfl,
      if_neg (by omega), if_neg (by omega), hnew _ le_rfl]
    rfl
  case ifTrue => rw [contents_splitGraph, if_neg (by omega), if_pos rfl]
  case toTail =>
    rw [adjacent_splitGraph, if_neg (by omega), if_neg (by omega), if_neg (by omega),
      if_pos rfl, if_neg (by omega), hnew _ (by omega)]
    rfl
  case tail => rw [contents_splitGraph, if_pos rfl]
  case toTarget =>
    rw [adjacent_splitGraph, if_neg (by omega), if_neg (by omega), if_neg (by omega),
      if_neg (by omega), if_pos rfl, hnew _ (by omega)]
    rfl
  case frame =>
    intro w hw hwv
    constructor
    · rw [contents_splitGraph, if_neg (by omega), if_neg (by omega), if_neg (by omega),
        if_neg fun h => hwv h.1]
    · rw [adjacent_splitGraph, if_neg hwv, if_neg hwv, if_neg (by omega), if_neg (by omega),
        if_neg (by omega), List.append_nil, List.append_nil, List.append_nil, List.append_nil]

/-! ## A whole block -/

/-- What a command vertex with the commands `command :: tail` becomes. -/
structure Drawn (g g' : Graph) (v target : Nat) (command : CommandDoc) (tail : List CommandDoc)
    (goto : GotoCommandDoc) : Prop where
  size : g.size ≤ g'.size
  bounded : g'.Bounded
  head : g'.contents v = some (.command ⟨[command], goto⟩)
  chain : ∃ u, g'.adjacent v = [u] ∧ Chain g' g.size u tail target
  frame : ∀ w, w < g.size → w ≠ v → SameAt g g' w

/-- A split whose tail has been drawn out. -/
theorem Split.drawn {g g₁ g' : Graph} {v target : Nat} {command next : CommandDoc}
    {rest : List CommandDoc} {goto : GotoCommandDoc} (hv : v < g.size)
    (hs : Split g g₁ v target command (next :: rest) goto)
    (hd : Drawn g₁ g' (g.size + 2) target next rest goto) :
    Drawn g g' v target command (next :: rest) goto := by
  have hsize := hs.size
  have sameV := hd.frame v (by omega) (by omega)
  have sameState := hd.frame g.size (by omega) (by omega)
  have sameIf := hd.frame (g.size + 1) (by omega) (by omega)
  obtain ⟨u, hu, hchain⟩ := hd.chain
  constructor
  case size => exact le_trans (by omega) hd.size
  case bounded => exact hd.bounded
  case head => exact sameV.1.trans hs.head
  case chain =>
    refine ⟨g.size, sameV.2.trans hs.toState, ?_⟩
    exact .next le_rfl (by omega) (by omega) (sameState.1.trans hs.state)
      (sameState.2.trans hs.toIf) (sameIf.1.trans hs.ifTrue) (sameIf.2.trans hs.toTail) hd.head hu
      (hchain.mono (by omega))
  case frame =>
    intro w hw hwv
    exact (hs.frame w hw hwv).trans (hd.frame w (by omega) (by omega))

theorem expandMultipleWriteNode_spec {goto : GotoCommandDoc} {tail : List CommandDoc}
    {command : CommandDoc} {g : Graph} {maxId v target : Nat} (hb : g.Bounded) (hv : v < g.size)
    (ha : g.adjacent v = [target]) (htail : tail ≠ []) :
    ∃ g' maxId', expandMultipleWriteNode fp goto (command :: tail) g maxId v = .ok (g', maxId') ∧
      Drawn g g' v target command tail goto := by
  induction tail generalizing command g maxId v with
  | nil => exact absurd rfl htail
  | cons next rest ih =>
    have ht : target < g.size := by
      refine @Graph.Bounded.adjacent_lt g hb v target ?_
      rw [ha]
      exact List.mem_singleton_self target
    obtain ⟨g₁, hsplit, hs⟩ := splitTransition_spec fp maxId command goto hb hv ht ha htail
    have hsize := hs.size
    rw [expandMultipleWriteNode, ha]
    simp only [hsplit, bind, Except.bind]
    cases rest with
    | nil =>
      -- the tail is a single command and stays in the new command vertex
      refine ⟨g₁, maxId + 3, rfl, ?_⟩
      refine ⟨by omega, hs.bounded, hs.head, ⟨g.size, hs.toState, ?_⟩, hs.frame⟩
      exact .next le_rfl (by omega) (by omega) hs.state hs.toIf hs.ifTrue hs.toTail hs.tail
        hs.toTarget .done
    | cons next' rest =>
      obtain ⟨g', maxId', hrun, hd⟩ := @ih next g₁ (maxId + 3) (g.size + 2) hs.bounded
        (by omega) hs.toTarget (List.cons_ne_nil _ _)
      rw [if_pos (by simp)]
      exact ⟨g', maxId', hrun, hs.drawn hv hd⟩

/-! ## All blocks -/

/-- How a vertex of the graph is found in the expanded graph. -/
inductive ExpandedAt (g g' : Graph) (v : Nat) : Prop
  | same (short : ∀ block, g.contents v = some (.command block) → block.commands.length ≤ 1)
      (same : SameAt g g' v)
  | drawn {target u : Nat} {command : CommandDoc} {tail : List CommandDoc}
      {goto : GotoCommandDoc} (long : tail ≠ [])
      (before : g.contents v = some (.command ⟨command :: tail, goto⟩))
      (toTarget : g.adjacent v = [target])
      (head : g'.contents v = some (.command ⟨[command], goto⟩)) (toChain : g'.adjacent v = [u])
      (chain : Chain g' g.size u tail target)

/-- The pass has been over the vertices before number `k`. -/
structure Upto (g g' : Graph) (k : Nat) : Prop where
  size : g.size ≤ g'.size
  bounded : g'.Bounded
  expanded : ∀ v, v < k → ExpandedAt g g' v
  same : ∀ v, k ≤ v → v < g.size → SameAt g g' v

theorem ExpandedAt.frame {g g₁ g₂ : Graph} {v : Nat} (h : ExpandedAt g g₁ v)
    (hv : SameAt g₁ g₂ v) (hnew : ∀ w, g.size ≤ w → w < g₁.size → SameAt g₁ g₂ w) :
    ExpandedAt g g₂ v := by
  cases h with
  | same short same => exact .same short (same.trans hv)
  | drawn long before toTarget head toChain chain =>
    exact .drawn long before toTarget (hv.1.trans head) (hv.2.trans toChain) (chain.frame hnew)

/-- A vertex at which the pass does nothing. -/
theorem Upto.skip {g g₁ : Graph} {k : Nat} (h : Upto g g₁ k) (hk : k < g.size)
    (short : ∀ block, g.contents k = some (.command block) → block.commands.length ≤ 1) :
    Upto g g₁ (k + 1) := by
  refine ⟨h.size, h.bounded, fun v hv => ?_, fun v hv => h.same v (by omega)⟩
  rcases Nat.lt_succ_iff_lt_or_eq.mp hv with hlt | rfl
  · exact h.expanded v hlt
  · exact .same short (h.same v le_rfl hk)

/-- A vertex whose block is drawn out. -/
theorem Upto.draw {g g₁ g₂ : Graph} {k target : Nat} {command : CommandDoc}
    {tail : List CommandDoc} {goto : GotoCommandDoc} (h : Upto g g₁ k) (hk : k < g.size)
    (htail : tail ≠ []) (before : g.contents k = some (.command ⟨command :: tail, goto⟩))
    (toTarget : g.adjacent k = [target]) (hd : Drawn g₁ g₂ k target command tail goto) :
    Upto g g₂ (k + 1) := by
  have hsize := h.size
  obtain ⟨u, hu, hchain⟩ := hd.chain
  refine ⟨le_trans h.size hd.size, hd.bounded, fun v hv => ?_, fun v hv hlt => ?_⟩
  · rcases Nat.lt_succ_iff_lt_or_eq.mp hv with hlt | rfl
    · exact (h.expanded v hlt).frame (hd.frame v (by omega) (by omega)) fun w hw hw' =>
        hd.frame w hw' (by omega)
    · exact .drawn htail before toTarget hd.head hu (hchain.mono hsize)
  · exact (h.same v (by omega) hlt).trans (hd.frame v (by omega) (by omega))

/-- What the pass does at a vertex: it draws out a block with several commands, and leaves
every other vertex. -/
theorem expandWritesAt_cases {g g₁ : Graph} {k : Nat} (maxId : Nat) (hwf : WellFormed g)
    (h : Upto g g₁ k) (hk : k < g.size) :
    (expandWritesAt fp (g₁, maxId) k = .ok (g₁, maxId) ∧
      ∀ block, g.contents k = some (.command block) → block.commands.length ≤ 1) ∨
    ∃ g₂ maxId' command tail goto target, tail ≠ [] ∧
      g.contents k = some (.command ⟨command :: tail, goto⟩) ∧ g.adjacent k = [target] ∧
      g₁.adjacent k = [target] ∧
      expandMultipleWriteNode fp goto (command :: tail) g₁ maxId k = .ok (g₂, maxId') ∧
      expandWritesAt fp (g₁, maxId) k = .ok (g₂, maxId') ∧
      Drawn g₁ g₂ k target command tail goto := by
  obtain ⟨hcontents, hadjacent⟩ := h.same k le_rfl hk
  have hsize := h.size
  unfold expandWritesAt
  simp only [hcontents]
  cases hc : g.contents k with
  | none => exact .inl ⟨rfl, fun block hb => by cases hb⟩
  | some contents =>
    cases contents with
    | state => exact .inl ⟨rfl, fun block hb => by cases hb⟩
    | cond condition => exact .inl ⟨rfl, fun block hb => by cases hb⟩
    | command block =>
      obtain ⟨commands, goto⟩ := block
      by_cases hlong : commands.length > 1
      · obtain ⟨command, tail, rfl⟩ := List.exists_cons_of_length_pos (by omega : 0 < commands.length)
        have htail : tail ≠ [] := by
          rintro rfl
          exact absurd hlong (by simp)
        obtain ⟨target, htarget, -⟩ := hwf.ofCommand k _ hc
        have hadj : g₁.adjacent k = [target] := hadjacent.trans htarget
        obtain ⟨g₂, maxId', hrun, hd⟩ := @expandMultipleWriteNode_spec fp goto tail command g₁ maxId
          k target h.bounded (by omega) hadj htail
        refine .inr ⟨g₂, maxId', command, tail, goto, target, htail, rfl, htarget, hadj, hrun, ?_, hd⟩
        simp only [if_pos hlong]
        exact hrun
      · refine .inl ⟨by simp only [if_neg hlong], fun block hb => ?_⟩
        cases hb
        exact Nat.le_of_not_lt hlong

theorem expandWritesAt_spec {g g₁ : Graph} {k maxId : Nat} (hwf : WellFormed g)
    (h : Upto g g₁ k) (hk : k < g.size) :
    ∃ g₂ maxId', expandWritesAt fp (g₁, maxId) k = .ok (g₂, maxId') ∧ Upto g g₂ (k + 1) := by
  rcases expandWritesAt_cases fp maxId hwf h hk with ⟨hrun, hshort⟩ |
    ⟨g₂, maxId', command, tail, goto, target, htail, hc, htarget, -, -, hrun, hd⟩
  · exact ⟨g₁, maxId, hrun, h.skip hk hshort⟩
  · exact ⟨g₂, maxId', hrun, h.draw hk htail hc htarget hd⟩

/-- **The expanded graph**: `expandMultipleWrites` succeeds on every well-formed graph,
and every vertex is found again as it was or with its commands drawn out. -/
theorem expandMultipleWrites_spec {g : Graph} (hwf : WellFormed g) :
    ∃ g', expandMultipleWrites fp g = .ok g' ∧ Upto g g' g.size := by
  have hstep : ∀ (k : Nat) (s : Graph × Nat), k < g.size → Upto g s.1 k →
      ∃ s', expandWritesAt fp s k = .ok s' ∧ Upto g s'.1 (k + 1) := by
    intro k s hk h
    obtain ⟨g₂, maxId', hrun, hup⟩ := @expandWritesAt_spec fp g s.1 k s.2 hwf h hk
    exact ⟨(g₂, maxId'), hrun, hup⟩
  have hstart : Upto g g 0 :=
    ⟨le_rfl, hwf.bounded, fun v hv => absurd hv (Nat.not_lt_zero v), fun _ _ _ => ⟨rfl, rfl⟩⟩
  obtain ⟨s', hrun, hup⟩ := foldlM_range hstep hstart (s := (g, maxVertexId g))
  refine ⟨s'.1, ?_, hup⟩
  unfold expandMultipleWrites
  exact bind_ok_iff.mpr ⟨s', hrun, rfl⟩

end Hexabus.Hbc
