import Hexabus.Hbc.Pipeline

/-!
# The state vertices in the simplification

The passes leave the vertices of states as they are, and no other vertex gets a name that
ends like that of an initial state.
-/

namespace Hexabus.Hbc

open Lib.Folds

/-- The name is not taken for an initial state's, also after its line breaks are replaced. -/
structure QuietName (name : Text) : Prop where
  notInit : namesInit name = false
  replaced : namesInit (replaceNewline name) = false

theorem PlainName.quiet {name : Text} (h : PlainName name) : QuietName name :=
  ⟨h.notInit, by rw [h.noNewline]; exact h.notInit⟩

theorem quietName_replaceNewline {name : Text} (h : namesInit (replaceNewline name) = false) :
    QuietName (replaceNewline name) :=
  ⟨h, by rw [replaceNewline_idem]; exact h⟩

/-- Only states are called like initial states. -/
def Graph.Quiet (g : Graph) : Prop :=
  ∀ (v : Nat) (w : Vertex), g.vertices[v]? = some w → w.contents = .state ∨ QuietName w.name

theorem Slice.quiet {g : Graph} {machineId : Nat} {sm : StatemachineDoc}
    {blocks : List ResolvedBlock} (h : Slice g machineId sm blocks) : g.Quiet := by
  intro v w hw
  have hlt : v < g.size := (List.getElem?_eq_some_iff.mp hw).1
  have hsize := h.size
  rcases @vertex_cases 0 sm.stateset blocks v (Nat.zero_le v) (by omega) with
    ⟨k, hk, rfl⟩ | ⟨j, b, hb, rfl | rfl⟩
  · have hstate := h.shape.state k _ (List.getElem?_eq_getElem hk)
    rw [hw] at hstate
    rw [Option.some.inj hstate]
    exact .inl rfl
  · obtain ⟨name, hname, hcond⟩ := h.shape.cond j b hb
    rw [hw] at hcond
    rw [Option.some.inj hcond]
    exact .inr hname.quiet
  · obtain ⟨name, hname, hcommand⟩ := h.shape.command j b hb
    rw [hw] at hcommand
    rw [Option.some.inj hcommand]
    exact .inr hname.quiet

/-- The states are vertices of both graphs, and a vertex that comes new or changes is not
called like an initial state. -/
structure KeepsStates (g g' : Graph) : Prop where
  states : ∀ (v : Nat) (w : Vertex), g.vertices[v]? = some w → w.contents = .state →
    g'.vertices[v]? = some w
  inits : ∀ (v : Nat) (w : Vertex), g'.vertices[v]? = some w →
    g.vertices[v]? = some w ∨ QuietName w.name

namespace KeepsStates

variable {g g₁ g₂ : Graph}

theorem refl (g : Graph) : KeepsStates g g := ⟨fun _ _ hw _ => hw, fun _ _ hw => .inl hw⟩

theorem trans (h : KeepsStates g g₁) (h' : KeepsStates g₁ g₂) : KeepsStates g g₂ := by
  refine ⟨fun v w hw hs => h'.states v w (h.states v w hw hs) hs, fun v w hw => ?_⟩
  rcases h'.inits v w hw with hw | hname
  · exact h.inits v w hw
  · exact .inr hname

theorem addEdge (h : KeepsStates g g₁) (s t : Nat) : KeepsStates g (g₁.addEdge s t) :=
  ⟨h.states, h.inits⟩

theorem removeEdge (h : KeepsStates g g₁) (s t : Nat) : KeepsStates g (g₁.removeEdge s t) :=
  ⟨h.states, h.inits⟩

theorem addVertex (h : KeepsStates g g₁) {name : Text}
    (hname : namesInit (replaceNewline name) = false) (m i : Nat) (c : Contents) :
    KeepsStates g (g₁.addVertex name m i c) := by
  constructor
  case states =>
    intro v w hw hs
    have hold := h.states v w hw hs
    have hlt : v < g₁.size := (List.getElem?_eq_some_iff.mp hold).1
    rw [Graph.vertices_addVertex, if_neg (by omega)]
    exact hold
  case inits =>
    intro v w hw
    rw [Graph.vertices_addVertex] at hw
    split at hw
    · cases hw
      exact .inr (quietName_replaceNewline hname)
    · exact h.inits v w hw

theorem setVertex (h : KeepsStates g g₁) {v : Nat} {c₀ : Contents}
    (hv : g₁.contents v = some c₀) (hc₀ : c₀ ≠ .state) {name : Text}
    (hname : QuietName name) (c : Contents) : KeepsStates g (g₁.setVertex v name c) := by
  constructor
  case states =>
    intro u w hw hs
    have hold := h.states u w hw hs
    rw [vertices_setVertex, if_neg]
    · exact hold
    · rintro rfl
      rw [Graph.contents_of_vertex hold, hs] at hv
      exact hc₀ (Option.some.inj hv).symm
  case inits =>
    intro u w hw
    rw [vertices_setVertex] at hw
    split at hw
    · obtain ⟨w₀, -, rfl⟩ := Option.map_eq_some_iff.mp hw
      exact .inr hname
    · exact h.inits u w hw

end KeepsStates

variable {fp : FloatPrinter}

/-! ## Complex conditions -/

/-- Splitting a condition, where its command vertex is not called like an initial state. -/
theorem keepsStates_expandConditionAt {g₀ : Graph} {v : Nat} {s s' : Graph × Nat}
    (h : KeepsStates g₀ s.1) (hrun : expandConditionAt fp s v = .ok s')
    (hname : ∀ c m w, s.1.contents v = some (.cond c) → m ∈ s.1.adjacent v →
      s.1.vertices[m]? = some w → QuietName w.name) : KeepsStates g₀ s'.1 := by
  obtain ⟨g, maxId⟩ := s
  unfold expandConditionAt at hrun
  simp only at hrun h hname
  split at hrun
  · rename_i a b hv
    split at hrun
    · rename_i command _ origin _ hadj _
      split at hrun
      · rename_i w target _ hw _
        cases hrun
        have hquiet := hname _ command w hv (hadj ▸ List.mem_cons_self) hw
        obtain ⟨hinit, hreplaced⟩ := namesInit_condition fp a
        have hset := h.setVertex hv nofun ⟨hinit, hreplaced⟩ (.cond a)
        refine KeepsStates.addEdge (KeepsStates.addEdge (KeepsStates.addEdge ?_ _ _) _ _) _ _
        refine KeepsStates.addVertex (KeepsStates.addVertex hset ?_ _ _ _) hquiet.replaced _ _ _
        exact (namesInit_condition fp b).2
      · cases hrun
    · cases hrun
  · cases hrun
    exact h

/-- The command vertex behind a condition, during the pass. -/
theorem HalvedUpto.quiet_command {g g₁ : Graph} {maxId k : Nat} (h : HalvedUpto g g₁ maxId k)
    (hg : MachineGraph g) (hq : g.Quiet) (hkeeps : KeepsStates g g₁) (hk : k < g.size)
    {c : ConditionDoc} {m : Nat} {w : Vertex} (hc : g₁.contents k = some (.cond c))
    (hm : m ∈ g₁.adjacent k) (hw : g₁.vertices[m]? = some w) : QuietName w.name := by
  obtain ⟨name, hold⟩ := h.old k _ (List.getElem?_eq_getElem hk)
  rw [if_neg (Nat.lt_irrefl k)] at hold
  have hcond : g.contents k = some (.cond c) := by
    rw [← hc, Graph.contents_of_vertex hold,
      Graph.contents_of_vertex (List.getElem?_eq_getElem (l := g.vertices) hk)]
  obtain ⟨m', block, hm', hblock⟩ := hg.wellFormed.ofCond k c hcond
  rw [h.adjacent k hk, hm', newClauses_of_not_state hg.wellFormed hcond nofun,
    List.append_nil] at hm
  obtain rfl := List.mem_singleton.mp hm
  rcases hkeeps.inits m w hw with hw | hname
  · rcases hq m w hw with hstate | hname
    · rw [Graph.contents_of_vertex hw, hstate] at hblock
      cases hblock
    · exact hname
  · exact hname

/-- **The condition pass** keeps the states. -/
theorem keepsStates_expandComplexConditions {g g' : Graph} (hg : MachineGraph g) (hq : g.Quiet)
    (hrun : expandComplexConditions fp g = .ok g') : KeepsStates g g' := by
  have hstep : ∀ (k : Nat) (s : Graph × Nat), k < g.size →
      HalvedUpto g s.1 s.2 k ∧ KeepsStates g s.1 → ∃ s', expandConditionAt fp s k = .ok s' ∧
        HalvedUpto g s'.1 s'.2 (k + 1) ∧ KeepsStates g s'.1 := by
    rintro k s hk ⟨h, hkeeps⟩
    obtain ⟨s', hs', h'⟩ := h.step fp hg hk
    exact ⟨s', hs', h', keepsStates_expandConditionAt hkeeps hs' fun c m w hc hm hw =>
      h.quiet_command hg hq hkeeps hk hc hm hw⟩
  obtain ⟨s', hfold, -, hkeeps⟩ := foldlM_range hstep ⟨HalvedUpto.start hg, .refl g⟩
    (s := (g, maxVertexId g))
  unfold expandComplexConditions at hrun
  obtain ⟨s'', hfold', hret⟩ := bind_ok_iff.mp hrun
  cases hret
  rw [hfold] at hfold'
  cases hfold'
  exact hkeeps

/-! ## Multiple writes -/

theorem keepsStates_splitTransition {g₀ g g' : Graph} {maxId maxId' source target new : Nat}
    {commands block : CommandBlockDoc} (h : KeepsStates g₀ g)
    (hv : g.contents source = some (.command block))
    (hrun : splitTransition fp g maxId source target commands = .ok (g', maxId', new)) :
    KeepsStates g₀ g' ∧ ∃ tail, g'.contents new = some (.command tail) := by
  unfold splitTransition at hrun
  obtain ⟨head, -, hrun⟩ := bind_ok_iff.mp hrun
  obtain ⟨tail, -, hrun⟩ := bind_ok_iff.mp hrun
  cases hrun
  constructor
  · have htail : namesInit (replaceNewline (commandName fp tail)) = false := by
      unfold commandName
      rw [replaceNewline_idem]
      exact namesInit_block fp tail
    have hset := h.setVertex hv nofun (quietName_replaceNewline (namesInit_block fp head))
      (.command head)
    refine KeepsStates.addEdge (KeepsStates.addEdge (KeepsStates.addVertex ?_ htail _ _ _) _ _) _ _
    refine KeepsStates.addEdge (KeepsStates.addVertex ?_ (by decide) _ _ _) _ _
    refine KeepsStates.addEdge (KeepsStates.addVertex ?_ (by decide) _ _ _) _ _
    exact hset.removeEdge source target
  · refine ⟨tail, ?_⟩
    simp only [Graph.contents_addEdge, Graph.contents_addVertex, if_true]

theorem keepsStates_expandMultipleWriteNode {g₀ g' : Graph} {goto : GotoCommandDoc}
    {commands : List CommandDoc} {g : Graph} {maxId maxId' v : Nat} {block : CommandBlockDoc}
    (h : KeepsStates g₀ g) (hv : g.contents v = some (.command block))
    (hrun : expandMultipleWriteNode fp goto commands g maxId v = .ok (g', maxId')) :
    KeepsStates g₀ g' := by
  induction commands generalizing g maxId v block with
  | nil => cases hrun
  | cons command tail ih =>
    rw [expandMultipleWriteNode] at hrun
    split at hrun
    · obtain ⟨⟨g₁, maxId₁, new⟩, hsplit, hrest⟩ := bind_ok_iff.mp hrun
      obtain ⟨hkeeps, tailBlock, hnew⟩ := keepsStates_splitTransition h hv hsplit
      simp only at hrest
      split at hrest
      · exact ih hkeeps hnew hrest
      · cases hrest
        exact hkeeps
    · cases hrun

/-- **The pass for multiple writes** keeps the states. -/
theorem keepsStates_expandMultipleWrites {g g' : Graph}
    (hrun : expandMultipleWrites fp g = .ok g') : KeepsStates g g' := by
  unfold expandMultipleWrites at hrun
  obtain ⟨s, hfold, hret⟩ := bind_ok_iff.mp hrun
  cases hret
  refine @foldlM_invariant _ _ _ (expandWritesAt fp) (fun _ s => KeepsStates g s.1) ?_ [] _
    (g, maxVertexId g) _ (.refl g) hfold
  rintro _ v ⟨g₁, maxId⟩ ⟨g₂, maxId'⟩ h hstep
  unfold expandWritesAt at hstep
  simp only at hstep h ⊢
  split at hstep
  · rename_i block hv
    split at hstep
    · exact keepsStates_expandMultipleWriteNode h hv hstep
    · cases hstep
      exact h
  · cases hstep
    exact h

end Hexabus.Hbc
