import Hexabus.Hbc.Expansion
import Hexabus.Hbc.StateVertices

/-!
# The vertices of the expanded graph

Where every vertex of the expanded graph comes from: states and conditions of the graph are
there as they were, a block keeps at most one command, and what comes new is a state, an
`if true`, or the command of some block.
-/

namespace Hexabus.Hbc

open Lib.Folds

variable {fp : FloatPrinter} {g g₀ g₁ g₂ g' : Graph}

/-! ## Old vertices -/

/-- The vertices without commands are vertices of the second graph, too. -/
def KeepsOthers (g g' : Graph) : Prop :=
  ∀ (v : Nat) (w : Vertex), g.vertices[v]? = some w → (∀ block, w.contents ≠ .command block) →
    g'.vertices[v]? = some w

namespace KeepsOthers

theorem addVertex (h : KeepsOthers g g₁) (name : Text) (m i : Nat) (c : Contents) :
    KeepsOthers g (g₁.addVertex name m i c) := by
  intro v w hw hother
  have hold := h v w hw hother
  have hlt : v < g₁.size := (List.getElem?_eq_some_iff.mp hold).1
  rw [Graph.vertices_addVertex, if_neg (by omega)]
  exact hold

theorem setVertex (h : KeepsOthers g g₁) {v : Nat} {block : CommandBlockDoc}
    (hv : g₁.contents v = some (.command block)) (name : Text) (c : Contents) :
    KeepsOthers g (g₁.setVertex v name c) := by
  intro u w hw hother
  have hold := h u w hw hother
  rw [vertices_setVertex, if_neg]
  · exact hold
  · rintro rfl
    rw [Graph.contents_of_vertex hold] at hv
    exact hother block (Option.some.inj hv)

theorem splitTransition {maxId maxId' source target new : Nat} {commands block : CommandBlockDoc}
    (h : KeepsOthers g₀ g) (hv : g.contents source = some (.command block))
    (hrun : splitTransition fp g maxId source target commands = .ok (g', maxId', new)) :
    KeepsOthers g₀ g' := by
  unfold Hbc.splitTransition at hrun
  obtain ⟨head, -, hrun⟩ := bind_ok_iff.mp hrun
  obtain ⟨tail, -, hrun⟩ := bind_ok_iff.mp hrun
  cases hrun
  -- the edges do not matter
  have hset := h.setVertex hv (commandName fp head) (.command head)
  have hstate := hset.addVertex intermediateName
    ((g.setVertex source (commandName fp head) (.command head)).machineOf source) (maxId + 1) .state
  have hif := hstate.addVertex ifTrueName
    ((g.setVertex source (commandName fp head) (.command head)).machineOf source) (maxId + 2)
    (.cond (.tautology 1))
  exact hif.addVertex (commandName fp tail)
    ((g.setVertex source (commandName fp head) (.command head)).machineOf source) (maxId + 3)
    (.command tail)

end KeepsOthers

/-! ## New vertices -/

/-- A state, an `if true`, or one of the commands. -/
def AddedAt (g : Graph) (isOf : CommandDoc → Prop) (u : Nat) : Prop :=
  g.contents u = some .state ∨ g.contents u = some (.cond (.tautology 1)) ∨
    ∃ command goto, isOf command ∧ g.contents u = some (.command ⟨[command], goto⟩)

theorem AddedAt.mono {isOf isOf' : CommandDoc → Prop} {u : Nat} (h : AddedAt g isOf u)
    (hmono : ∀ command, isOf command → isOf' command) : AddedAt g isOf' u := by
  rcases h with h | h | ⟨command, goto, hof, h⟩
  · exact .inl h
  · exact .inr (.inl h)
  · exact .inr (.inr ⟨command, goto, hmono command hof, h⟩)

theorem AddedAt.frame {isOf : CommandDoc → Prop} {u : Nat} (h : AddedAt g isOf u)
    (hsame : SameAt g g' u) : AddedAt g' isOf u := by
  unfold AddedAt
  rw [hsame.1]
  exact h

/-- What a drawn out block adds, and what it leaves. -/
theorem expandMultipleWriteNode_added {goto : GotoCommandDoc} {tail : List CommandDoc}
    {command : CommandDoc} {maxId maxId' v target : Nat} {block : CommandBlockDoc}
    (hb : g.Bounded) (hv : g.contents v = some (.command block)) (ha : g.adjacent v = [target])
    (htail : tail ≠ []) (hkeeps : KeepsOthers g₀ g)
    (hrun : expandMultipleWriteNode fp goto (command :: tail) g maxId v = .ok (g', maxId')) :
    KeepsOthers g₀ g' ∧ ∀ u, g.size ≤ u → u < g'.size → AddedAt g' (· ∈ tail) u := by
  induction tail generalizing command g maxId v block with
  | nil => exact absurd rfl htail
  | cons next rest ih =>
    have hlt := Graph.contents_lt hv
    have ht : target < g.size := by
      refine @Graph.Bounded.adjacent_lt g hb v target ?_
      rw [ha]
      exact List.mem_singleton_self target
    obtain ⟨g₁, hsplit, hs⟩ := splitTransition_spec fp maxId command goto hb hlt ht ha htail
    have hsize := hs.size
    have hkeeps₁ := hkeeps.splitTransition hv hsplit
    rw [expandMultipleWriteNode, ha] at hrun
    simp only [hsplit, bind, Except.bind] at hrun
    cases rest with
    | nil =>
      cases hrun
      refine ⟨hkeeps₁, fun u hge hu => ?_⟩
      have hcases : u = g.size ∨ u = g.size + 1 ∨ u = g.size + 2 := by omega
      rcases hcases with rfl | rfl | rfl
      · exact .inl hs.state
      · exact .inr (.inl hs.ifTrue)
      · exact .inr (.inr ⟨next, goto, List.mem_singleton_self next, hs.tail⟩)
    | cons next' rest =>
      rw [if_pos (by simp)] at hrun
      obtain ⟨g₂, maxId₂, hrun₂, hd⟩ := @expandMultipleWriteNode_spec fp goto (next' :: rest) next g₁
        (maxId + 3) (g.size + 2) target hs.bounded (by omega) hs.toTarget (List.cons_ne_nil _ _)
      rw [hrun] at hrun₂
      cases hrun₂
      obtain ⟨hkeeps₂, hadded⟩ := ih hs.bounded hs.tail hs.toTarget (List.cons_ne_nil _ _) hkeeps₁
        hrun
      refine ⟨hkeeps₂, fun u hge hu => ?_⟩
      rcases Nat.lt_or_ge u g₁.size with hold | hnew
      · have hcases : u = g.size ∨ u = g.size + 1 ∨ u = g.size + 2 := by omega
        rcases hcases with rfl | rfl | rfl
        · exact .inl ((hd.frame _ (by omega) (by omega)).1.trans hs.state)
        · exact .inr (.inl ((hd.frame _ (by omega) (by omega)).1.trans hs.ifTrue))
        · exact .inr (.inr ⟨next, goto, List.mem_cons_self, hd.head⟩)
      · exact (hadded u hnew hu).mono fun command hmem => List.mem_cons_of_mem _ hmem

/-- Some vertex has the command. -/
def Graph.HasCommand (g : Graph) (command : CommandDoc) : Prop :=
  ∃ v block, g.contents v = some (.command block) ∧ command ∈ block.commands

/-- **Where the vertices come from**: they are those of the graph, with one command of their
block, or new. -/
theorem expandMultipleWrites_added (hwf : WellFormed g)
    (hrun : expandMultipleWrites fp g = .ok g') :
    Upto g g' g.size ∧ KeepsOthers g g' ∧
      ∀ u, g.size ≤ u → u < g'.size → AddedAt g' g.HasCommand u := by
  have hstep : ∀ (k : Nat) (s : Graph × Nat), k < g.size →
      (Upto g s.1 k ∧ KeepsOthers g s.1 ∧
        ∀ u, g.size ≤ u → u < s.1.size → AddedAt s.1 g.HasCommand u) →
      ∃ s', expandWritesAt fp s k = .ok s' ∧ Upto g s'.1 (k + 1) ∧ KeepsOthers g s'.1 ∧
        ∀ u, g.size ≤ u → u < s'.1.size → AddedAt s'.1 g.HasCommand u := by
    rintro k ⟨g₁, maxId⟩ hk ⟨h, hkeeps, hadded⟩
    have hsize := h.size
    rcases expandWritesAt_cases fp maxId hwf h hk with ⟨hrun, hshort⟩ |
      ⟨g₂, maxId', command, tail, goto, target, htail, hc, htarget, hadj, hnode, hrun, hd⟩
    · exact ⟨(g₁, maxId), hrun, h.skip hk hshort, hkeeps, hadded⟩
    · have hv : g₁.contents k = some (.command ⟨command :: tail, goto⟩) :=
        (h.same k le_rfl hk).1.trans hc
      obtain ⟨hkeeps', hnew⟩ := expandMultipleWriteNode_added h.bounded hv hadj htail hkeeps hnode
      refine ⟨(g₂, maxId'), hrun, h.draw hk htail hc htarget hd, hkeeps', fun u hge hu => ?_⟩
      rcases Nat.lt_or_ge u g₁.size with hold | hge'
      · exact (hadded u hge hold).frame (hd.frame u hold (by omega))
      · exact (hnew u hge' hu).mono fun c hmem => ⟨k, _, hc, List.mem_cons_of_mem _ hmem⟩
  have hstart : Upto g g 0 ∧ KeepsOthers g g ∧
      ∀ u, g.size ≤ u → u < g.size → AddedAt g g.HasCommand u :=
    ⟨⟨le_rfl, hwf.bounded, fun v hv => absurd hv (Nat.not_lt_zero v), fun _ _ _ => ⟨rfl, rfl⟩⟩,
      fun v w hw _ => hw, fun u hge hu => absurd hu (Nat.not_lt_of_le hge)⟩
  obtain ⟨s, hfold, hup⟩ := foldlM_range hstep hstart (s := (g, maxVertexId g))
  unfold expandMultipleWrites at hrun
  obtain ⟨s', hfold', hret⟩ := bind_ok_iff.mp hrun
  cases hret
  rw [hfold] at hfold'
  cases hfold'
  exact hup

/-- Every command of a chain has a clause of its own. -/
theorem Chain.commands {n u t : Nat} {commands : List CommandDoc} (h : Chain g n u commands t) :
    ∀ command ∈ commands, ∃ u c m goto, g.contents u = some .state ∧ c ∈ g.adjacent u ∧
      g.adjacent c = [m] ∧ g.contents m = some (.command ⟨[command], goto⟩) := by
  induction h with
  | done => exact fun _ hmem => absurd hmem List.not_mem_nil
  | @next u c m u' t goto command rest _ _ _ state clauses _ commands block _ _ ih =>
    intro command' hmem
    rcases List.mem_cons.mp hmem with rfl | hmem
    · exact ⟨u, c, m, goto, state, clauses ▸ List.mem_singleton_self c, commands, block⟩
    · exact ih command' hmem

end Hexabus.Hbc
