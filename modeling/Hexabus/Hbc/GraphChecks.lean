import Hexabus.Hbc.Slices
import Hexabus.Hbc.StartState
import Hexabus.Lib.Search

/-!
# Checking the graph

`graph_checks.cpp` of the compiler: `find_unreachable_states` lists the states that no
initial state leads to, and `never_reachable` looks for a path to a state that is never to
be reached. Both search the graph of the whole program, and know a state by the name of its
vertex.
-/

namespace Hexabus.Hbc

open Lib.Folds Lib.Search

/-! ## The names of vertices -/

/-- `s.substr(s.find_last_of(c) + 1)`; the whole text if there is no `c` in it. -/
def behindLast (c : Char) (s : Text) : Text := (s.reverse.takeWhile fun d => d ≠ c).reverse

/-- `s.substr(2, s.find_first_of('.') - 2)`. The length wraps around where the dot comes
earlier, and a text of less than two characters is `std::out_of_range`. -/
def machinePart (s : Text) : Option Text :=
  if s.length < 2 then none
  else
    match s.findIdx? (· = '.') with
    | some i => if i < 2 then some (s.drop 2) else some ((s.take i).drop 2)
    | none => some (s.drop 2)

/-- What stands behind the first `\n` of two characters. -/
def behindLabel : Text → Option Text
  | '\\' :: 'n' :: rest => some rest
  | _ :: rest => behindLabel rest
  | [] => none

/-- `s.substr(s.find("\\n") + 2)`. -/
def cutLabel (s : Text) : Option Text :=
  match behindLabel s with
  | some rest => some rest
  | none => if s = [] then none else some (s.drop 1)

/-! ## The checks -/

namespace Graph

variable (g : Graph)

def isState (v : Nat) : Bool := decide (g.contents v = some .state)

def nameOf (v : Nat) : Text := ((g.vertices[v]?).map Vertex.name).getD []

def conditionName (v : Nat) : Option Text :=
  match g.vertices[v]? with
  | some ⟨name, _, _, .cond _⟩ => some name
  | _ => none

/-- `boost::breadth_first_search`. -/
def breadthFirstSearch (v : Nat) : Option (SearchState Nat) := search g.adjacent g.size v

end Graph

/-- `bfs_nodelist_maker`. -/
def discoverVertex (nodes : List Nat) (v : Nat) : List Nat :=
  if v ∈ nodes then nodes else nodes ++ [v]

/-- A line of `find_unreachable_states`. -/
structure UnreachableState where
  machineId : Nat
  vertexId : Nat
  text : Text
  deriving DecidableEq

/-- The states that stay in `unreachable_states`. -/
def unreachableStates (g : Graph) : Option (List Nat) := do
  let allStates := (List.range g.size).filter g.isState
  let initStates := allStates.filter fun v => namesInit (g.nameOf v)
  let reachable ← initStates.foldlM (fun nodes init => do
    let s ← g.breadthFirstSearch init
    return (s.discovered init).foldl discoverVertex nodes) []
  return allStates.filter fun v => v ∉ reachable

def unreachableLine (g : Graph) (v : Nat) : Option UnreachableState := do
  let vertex ← g.vertices[v]?
  let text ← cutLabel vertex.name
  return ⟨vertex.machineId, vertex.vertexId, text⟩

/-- `find_unreachable_states`. -/
def findUnreachableStates (g : Graph) : Option (List UnreachableState) := do
  let states ← unreachableStates g
  states.mapM (unreachableLine g)

/-- `init_state` and `target_vertex`, as far as they are set. -/
structure Ends where
  initState : Option Nat
  targetVertex : Option Nat

/-- The loop of `never_reachable` over the vertices. -/
def findEnds (g : Graph) (name machineName : Text) (ends : Ends) (v : Nat) : Option Ends :=
  match g.vertices[v]? with
  | some ⟨vName, _, _, .state⟩ => do
    let vMachineName ← machinePart (behindLast ' ' vName)
    if vMachineName = machineName then
      let ends := if namesInit vName then { ends with initState := some v } else ends
      if name.length + 1 < vName.length then
        if '.' ∉ vName then none
        else if '.' :: behindLast '.' vName = '.' :: name then
          some { ends with targetVertex := some v }
        else some ends
      else some ends
    else some ends
  | _ => some ends

/-- What `never_reachable` says. The path is the vector of the same name, the target first. -/
inductive NeverReport
  | initSpecified
  | targetNotFound
  | pathFound (path : List Nat) (conditions : List Text)
  | noPath
  deriving DecidableEq

/-- The names of the conditions on a path, in the order in which they are printed; the
last vertex is left out. -/
def printedConditions (g : Graph) (path : List Nat) : List Text :=
  (path.drop 1).reverse.filterMap g.conditionName

/-- `never_reachable`; it fails where a text is too short or `init_state` was not set. -/
def neverReachable (g : Graph) (name machineName : Text) : Option NeverReport :=
  if name = initName.val then some .initSpecified
  else do
    let ends ← (List.range g.size).foldlM (findEnds g name machineName) ⟨none, none⟩
    match ends.targetVertex with
    | none => some .targetNotFound
    | some target => do
      let init ← ends.initState
      let s ← g.breadthFirstSearch init
      let path ← walkBack s.tree (g.size + 1) target
      if path = [] then some .noPath else some (.pathFound path (printedConditions g path))

/-! ## The names of states -/

/-- The parser gives a machine an identifier for a name, and an instance of a module is
named by two of them with colons. -/
def MachineName (name : Text) : Prop := ∀ c ∈ name, identifierRest c = true ∨ c = ':'

theorem MachineName.notMem {name : Text} (h : MachineName name) {c : Char}
    (hc : identifierRest c = false) (hcolon : c ≠ ':') : c ∉ name := by
  intro hmem
  rcases h c hmem with hrest | rfl
  · rw [hrest] at hc
    cases hc
  · exact hcolon rfl

theorem behindLast_append {c : Char} (p : Text) {s : Text} (hs : c ∉ s) :
    behindLast c (p ++ c :: s) = s := by
  unfold behindLast
  rw [List.reverse_append, List.reverse_cons, List.append_assoc,
    List.takeWhile_append_of_pos fun d hd => ?_]
  · rw [List.singleton_append, List.takeWhile_cons_of_neg (by simp), List.append_nil,
      List.reverse_reverse]
  · have hmem : d ∈ s := List.mem_reverse.mp hd
    simp only [ne_eq, decide_eq_true_eq]
    rintro rfl
    exact hs hmem

theorem notMem_printUint {c : Char} (hc : c.isDigit = false) (n : Nat) : c ∉ printUint n := by
  intro hmem
  rw [isDigit_of_mem_printUint hmem] at hc
  cases hc

section

variable (machineId k : Nat) {machine : Text} (s : Identifier)

/-- The part of the name that is the label of the drawing. -/
def vertexLabel (machineId k : Nat) : Text :=
  '(' :: printUint machineId ++ '.' :: printUint k ++ [')']

theorem stateVertexName_eq : stateVertexName machineId k machine s =
    vertexLabel machineId k ++ ' ' :: '\\' :: 'n' :: (machine ++ '.' :: s.val) := by
  have hlabel : ") \\n".toList = [')', ' ', '\\', 'n'] := rfl
  unfold stateVertexName vertexLabel
  rw [hlabel]
  simp

theorem vertexLabel_notMem {c : Char} (hc : c ∉ ['(', '.', ')']) (hdigit : c.isDigit = false) :
    c ∉ vertexLabel machineId k := by
  unfold vertexLabel
  simp only [List.mem_cons, List.not_mem_nil, or_false, not_or] at hc
  simp [hc, notMem_printUint hdigit]

theorem replaceNewline_stateVertexName (hm : MachineName machine) :
    replaceNewline (stateVertexName machineId k machine s) = stateVertexName machineId k machine s := by
  refine replaceNewline_eq_self ?_
  rw [stateVertexName_eq]
  have hlabel := vertexLabel_notMem machineId k (c := '\n') (by decide) (by decide)
  have hmachine := hm.notMem (c := '\n') (by decide) (by decide)
  have hs : '\n' ∉ s.val := s.notMem (by decide)
  simp [hlabel, hmachine, hs]

theorem behindLast_space (hm : MachineName machine) :
    behindLast ' ' (stateVertexName machineId k machine s) =
      '\\' :: 'n' :: (machine ++ '.' :: s.val) := by
  have hmachine := hm.notMem (c := ' ') (by decide) (by decide)
  have hs : ' ' ∉ s.val := s.notMem (by decide)
  rw [stateVertexName_eq, behindLast_append]
  simp [hmachine, hs]

theorem machinePart_state (hm : MachineName machine) :
    machinePart (behindLast ' ' (stateVertexName machineId k machine s)) = some machine := by
  have hmachine := hm.notMem (c := '.') (by decide) (by decide)
  have hdot : ('\\' :: 'n' :: (machine ++ '.' :: s.val)).findIdx? (· = '.')
      = some (machine.length + 2) := by
    rw [List.findIdx?_eq_some_iff_getElem]
    refine ⟨by simp, by simp, fun j hj => ?_⟩
    match j, hj with
    | 0, _ => simp
    | 1, _ => simp
    | j + 2, hj =>
      have hlt : j < machine.length := by omega
      have hne : machine[j] ≠ '.' := fun h => hmachine (h ▸ List.getElem_mem hlt)
      simpa [List.getElem_append_left hlt] using hne
  rw [behindLast_space machineId k s hm]
  unfold machinePart
  rw [if_neg (by simp), hdot]
  simp

theorem behindLast_dot : behindLast '.' (stateVertexName machineId k machine s) = s.val := by
  have hname : stateVertexName machineId k machine s =
      (vertexLabel machineId k ++ ' ' :: '\\' :: 'n' :: machine) ++ '.' :: s.val := by
    rw [stateVertexName_eq]
    simp
  rw [hname, behindLast_append _ (s.notMem (by decide))]

theorem behindLabel_append {front : Text} (hfront : '\\' ∉ front) (rest : Text) :
    behindLabel (front ++ rest) = behindLabel rest := by
  induction front with
  | nil => rfl
  | cons c front ih =>
    have hc : c ≠ '\\' := fun h => hfront (h ▸ List.mem_cons_self)
    rw [List.cons_append, behindLabel, ih fun h => hfront (List.mem_cons_of_mem _ h)]
    rintro _ rfl
    exact absurd rfl hc

theorem cutLabel_state : cutLabel (stateVertexName machineId k machine s) =
    some (machine ++ '.' :: s.val) := by
  have hlabel := vertexLabel_notMem machineId k (c := '\\') (by decide) (by decide)
  have hname : stateVertexName machineId k machine s =
      (vertexLabel machineId k ++ [' ']) ++ '\\' :: 'n' :: (machine ++ '.' :: s.val) := by
    rw [stateVertexName_eq]
    simp
  have hbehind : behindLabel (stateVertexName machineId k machine s) =
      some (machine ++ '.' :: s.val) := by
    rw [hname, behindLabel_append (by simp [hlabel])]
    rfl
  unfold cutLabel
  rw [hbehind]

end

/-! ## The vertices of states -/

/-- The vertex of a state that is known by its machine's name and its own. -/
def StateNamed (hbc : HbcDoc) (g : Graph) (machine state : Text) (v : Nat) : Prop :=
  ∃ m sm k s name, hbc[m]? = some sm ∧ sm.name = machine ∧ sm.stateset[k]? = some s ∧
    s.val = state ∧ g.vertices[v]? = some ⟨name, m, k, .state⟩

/-- One vertex leads to the other. -/
def Graph.Reaches (g : Graph) (u v : Nat) : Prop := Relation.ReflTransGen (Step g.adjacent) u v

/-- Where the vertex of a state is, and what it is called. -/
theorem MachineAt.state_vertex {g : Graph} {offset machineId : Nat} {sm : StatemachineDoc}
    (h : MachineAt g offset machineId sm) {v k : Nat} {name : Text}
    (hw : g.vertices[v]? = some ⟨name, machineId, k, .state⟩) :
    v = offset + k ∧ ∃ s, sm.stateset[k]? = some s ∧
      name = replaceNewline (stateVertexName machineId k sm.name s) := by
  obtain ⟨hge, hlt⟩ := (h.own v _ hw).mp rfl
  rcases vertex_cases hge hlt with ⟨i, hi, rfl⟩ | ⟨j, b, hb, rfl | rfl⟩
  · have hstate := h.shape.state i _ (List.getElem?_eq_getElem hi)
    rw [hw] at hstate
    injection hstate with hstate
    injection hstate with hname _ hk _
    subst hk
    exact ⟨rfl, _, List.getElem?_eq_getElem hi, hname⟩
  · obtain ⟨_, -, hcond⟩ := h.shape.cond j b hb
    rw [hw] at hcond
    cases hcond
  · obtain ⟨_, -, hcommand⟩ := h.shape.command j b hb
    rw [hw] at hcommand
    cases hcommand

/-- What a machine's vertices lead to are vertices of the machine. -/
theorem MachineAt.reaches_machine {g : Graph} {offset machineId : Nat} {sm : StatemachineDoc}
    (h : MachineAt g offset machineId sm) {u v : Nat}
    (hu : u ∈ segment offset (machineSize sm.stateset sm.resolved)) (hreach : g.Reaches u v) :
    v ∈ segment offset (machineSize sm.stateset sm.resolved) := by
  unfold Graph.Reaches at hreach
  induction hreach with
  | refl => exact hu
  | tail _ hstep ih => exact h.shape.closed _ ih _ hstep

/-- The builder takes no name twice, and no machine without a state `init`. -/
theorem graphBuilder_names {fp : FloatPrinter} {hbc : HbcDoc}
    {state : Graph × List MachineDescriptor} (hrun : graphBuilder fp hbc = .ok state) :
    (hbc.map StatemachineDoc.name).Nodup ∧ ∀ sm ∈ hbc, initName ∈ sm.stateset := by
  have hinv := @foldlM_invariant _ _ _ (firstPass fp)
    (fun done state => state.2.map MachineDescriptor.name = done.map StatemachineDoc.name ∧
      (done.map StatemachineDoc.name).Nodup ∧ ∀ sm ∈ done, initName ∈ sm.stateset)
    ?_ [] hbc _ _ ?_ hrun
  · exact hinv.2
  · rintro done sm ⟨g, machines⟩ state' ⟨hnames, hnodup, hinit⟩ hstep
    unfold firstPass at hstep
    simp only at hstep hnames
    split at hstep
    · cases hstep
    · next hfresh =>
      cases hfind : sm.findState initName with
      | none =>
        rw [hfind] at hstep
        cases hstep
      | some k =>
        rw [hfind] at hstep
        obtain ⟨state₁, -, hend⟩ := bind_ok_iff.mp hstep
        cases hend
        have hnew : sm.name ∉ done.map StatemachineDoc.name := by
          rw [← hnames]
          intro hmem
          obtain ⟨d, hd, hdname⟩ := List.mem_map.mp hmem
          exact hfresh (List.any_eq_true.mpr ⟨d, hd, decide_eq_true hdname⟩)
        refine ⟨?_, ?_, ?_⟩
        · rw [List.map_append, List.map_append, hnames]
          rfl
        · rw [List.map_append, List.map_singleton, ← List.concat_eq_append]
          exact hnodup.concat hnew
        · intro sm' hsm'
          rcases List.mem_append.mp hsm' with hsm' | hsm'
          · exact hinit sm' hsm'
          · rw [List.mem_singleton.mp hsm']
            obtain ⟨hlt, heq, -⟩ := List.findIdx?_eq_some_iff_getElem.mp hfind
            exact List.mem_iff_getElem.mpr ⟨k, hlt, of_decide_eq_true heq⟩
  · exact ⟨rfl, List.nodup_nil, fun sm hsm => absurd hsm List.not_mem_nil⟩

/-- What the checks need of a program and its graph. -/
structure Checkable (hbc : HbcDoc) (g : Graph) : Prop where
  bounded : g.Bounded
  known : ∀ (v : Nat) (w : Vertex), g.vertices[v]? = some w → w.machineId < hbc.length
  machine : ∀ m sm, hbc[m]? = some sm → ∃ offset, MachineAt g offset m sm
  names : (hbc.map StatemachineDoc.name).Nodup
  init : ∀ sm ∈ hbc, initName ∈ sm.stateset
  machineName : ∀ sm ∈ hbc, MachineName sm.name
  states : ∀ sm ∈ hbc, sm.stateset.Nodup

namespace Checkable

variable {hbc : HbcDoc} {g : Graph}

/-- The vertices that hold a state are those of the states of the program. -/
theorem state_vertex (h : Checkable hbc g) {v m k : Nat} {name : Text}
    (hw : g.vertices[v]? = some ⟨name, m, k, .state⟩) :
    ∃ sm s, hbc[m]? = some sm ∧ sm.stateset[k]? = some s ∧
      name = stateVertexName m k sm.name s := by
  have hm : m < hbc.length := h.known v _ hw
  have hsm := List.getElem?_eq_getElem hm
  obtain ⟨offset, hat⟩ := h.machine m _ hsm
  obtain ⟨-, s, hs, hname⟩ := hat.state_vertex hw
  refine ⟨_, s, hsm, hs, ?_⟩
  rw [hname, replaceNewline_stateVertexName]
  exact h.machineName _ (List.getElem_mem hm)

theorem stateNamed_unique (h : Checkable hbc g) {machine state : Text} {v v' : Nat}
    (hv : StateNamed hbc g machine state v) (hv' : StateNamed hbc g machine state v') : v = v' := by
  obtain ⟨m, sm, k, s, name, hm, hmachine, hk, hs, hw⟩ := hv
  obtain ⟨m', sm', k', s', name', hm', hmachine', hk', hs', hw'⟩ := hv'
  have hmm : m = m' := by
    refine (List.getElem?_inj ?_ h.names).mp ?_
    · rw [List.length_map]
      exact (List.getElem?_eq_some_iff.mp hm).1
    · rw [List.getElem?_map, List.getElem?_map, hm, hm', Option.map_some, Option.map_some,
        hmachine, hmachine']
  subst hmm
  obtain rfl : sm = sm' := Option.some.inj (hm.symm.trans hm')
  obtain rfl : s = s' := Subtype.ext (hs.trans hs'.symm)
  obtain rfl : k = k' := by
    refine (List.getElem?_inj ?_ (h.states sm (List.mem_of_getElem? hm))).mp (hk.trans hk'.symm)
    exact (List.getElem?_eq_some_iff.mp hk).1
  obtain ⟨offset, hat⟩ := h.machine m sm hm
  rw [(hat.state_vertex hw).1, (hat.state_vertex hw').1]

/-- Every state has its vertex. -/
theorem exists_vertex (h : Checkable hbc g) {m k : Nat} {sm : StatemachineDoc} {s : Identifier}
    (hm : hbc[m]? = some sm) (hk : sm.stateset[k]? = some s) :
    ∃ (v : Nat) (name : Text), g.vertices[v]? = some ⟨name, m, k, .state⟩ := by
  obtain ⟨offset, hat⟩ := h.machine m sm hm
  exact ⟨_, _, hat.shape.state k s hk⟩

theorem exists_init (h : Checkable hbc g) {m : Nat} {sm : StatemachineDoc}
    (hm : hbc[m]? = some sm) : ∃ i, StateNamed hbc g sm.name initName.val i := by
  obtain ⟨k, hlt, hk⟩ := List.mem_iff_getElem.mp (h.init sm (List.mem_of_getElem? hm))
  have hk' : sm.stateset[k]? = some initName := hk ▸ List.getElem?_eq_getElem hlt
  obtain ⟨v, name, hv⟩ := h.exists_vertex hm hk'
  exact ⟨v, m, sm, k, initName, name, hm, rfl, hk', rfl, hv⟩

/-- An initial state leads to states of its own machine only. -/
theorem stateNamed_of_reaches (h : Checkable hbc g) {machine machine' state state' : Text}
    {i v : Nat} (hi : StateNamed hbc g machine state i) (hv : StateNamed hbc g machine' state' v)
    (hreach : g.Reaches i v) : machine = machine' := by
  obtain ⟨m, sm, k, s, name, hm, rfl, hk, hs, hw⟩ := hi
  obtain ⟨m', sm', k', s', name', hm', rfl, hk', hs', hw'⟩ := hv
  obtain ⟨offset, hat⟩ := h.machine m sm hm
  have hseg := hat.reaches_machine (mem_segment.mpr ((hat.own i _ hw).mp rfl)) hreach
  have hmm : m' = m := (hat.own v _ hw').mpr (mem_segment.mp hseg)
  subst hmm
  rw [Option.some.inj (hm.symm.trans hm')]

theorem breadthFirstSearch_spec (h : Checkable hbc g) {v : Nat} (hv : v < g.size) :
    ∃ s, g.breadthFirstSearch v = some s ∧ Rooted g.adjacent v s.tree ∧
      s.tree.length < g.size ∧ ∀ u, u ∈ s.discovered v ↔ g.Reaches v u := by
  have hspec := @search_spec _ _ g.adjacent v (List.range g.size) (List.mem_range.mpr hv)
    (fun u _ t ht => List.mem_range.mpr (h.bounded.adjacent_lt ht)) g.size
    (Nat.le_of_eq List.length_range)
  rwa [List.length_range] at hspec

end Checkable

/-! ## Unreachable states -/

theorem mem_foldl_discoverVertex (new nodes : List Nat) (v : Nat) :
    v ∈ new.foldl discoverVertex nodes ↔ v ∈ nodes ∨ v ∈ new :=
  mem_foldl_insertNew nodes new v

namespace Checkable

variable {hbc : HbcDoc} {g : Graph}

/-- The searches from a list of vertices. -/
theorem foldlM_searches (h : Checkable hbc g) (starts nodes : List Nat)
    (hstarts : ∀ i ∈ starts, i < g.size) :
    ∃ reachable, starts.foldlM (fun nodes init => do
        let s ← g.breadthFirstSearch init
        return (s.discovered init).foldl discoverVertex nodes) nodes = some reachable ∧
      ∀ v, v ∈ reachable ↔ v ∈ nodes ∨ ∃ i ∈ starts, g.Reaches i v := by
  induction starts generalizing nodes with
  | nil => exact ⟨nodes, rfl, by simp⟩
  | cons i starts ih =>
    obtain ⟨s, hs, -, -, hfound⟩ := h.breadthFirstSearch_spec (hstarts i List.mem_cons_self)
    obtain ⟨reachable, hrun, hmem⟩ := ih ((s.discovered i).foldl discoverVertex nodes)
      fun j hj => hstarts j (List.mem_cons_of_mem _ hj)
    refine ⟨reachable, ?_, fun v => ?_⟩
    · rw [List.foldlM_cons, hs]
      exact hrun
    · rw [hmem, mem_foldl_discoverVertex, hfound, or_assoc, List.exists_mem_cons_iff]

theorem isState_iff (v : Nat) :
    g.isState v = true ↔ ∃ name m k, g.vertices[v]? = some ⟨name, m, k, .state⟩ := by
  unfold Graph.isState Graph.contents
  rw [decide_eq_true_eq, Option.map_eq_some_iff]
  constructor
  · rintro ⟨⟨name, m, k, contents⟩, hw, rfl⟩
    exact ⟨name, m, k, hw⟩
  · rintro ⟨name, m, k, hw⟩
    exact ⟨_, hw, rfl⟩

/-- The vertices that the searches begin with. -/
theorem init_iff (h : Checkable hbc g) (i : Nat) :
    g.isState i = true ∧ namesInit (g.nameOf i) = true ↔
      ∃ machine, StateNamed hbc g machine initName.val i := by
  rw [isState_iff]
  constructor
  · rintro ⟨⟨name, m, k, hw⟩, hinit⟩
    obtain ⟨sm, s, hm, hk, hname⟩ := h.state_vertex hw
    unfold Graph.nameOf at hinit
    rw [hw, Option.map_some, Option.getD_some, hname, ← replaceNewline_stateVertexName m k s
      (h.machineName sm (List.mem_of_getElem? hm)), namesInit_stateVertexName] at hinit
    exact ⟨sm.name, m, sm, k, s, name, hm, rfl, hk, congrArg _ hinit, hw⟩
  · rintro ⟨machine, m, sm, k, s, name, hm, -, hk, hs, hw⟩
    refine ⟨⟨name, m, k, hw⟩, ?_⟩
    obtain ⟨sm', s', hm', hk', hname⟩ := h.state_vertex hw
    obtain rfl : sm = sm' := Option.some.inj (hm.symm.trans hm')
    obtain rfl : s = s' := Option.some.inj (hk.symm.trans hk')
    unfold Graph.nameOf
    rw [hw, Option.map_some, Option.getD_some, hname, ← replaceNewline_stateVertexName m k s
      (h.machineName sm (List.mem_of_getElem? hm)), namesInit_stateVertexName]
    exact Subtype.ext hs

theorem unreachableStates_spec (h : Checkable hbc g) :
    ∃ states, unreachableStates g = some states ∧
      ∀ v, v ∈ states ↔ g.isState v = true ∧
        ∀ machine i, StateNamed hbc g machine initName.val i → ¬ g.Reaches i v := by
  have hlt : ∀ v, g.isState v = true → v < g.size := by
    intro v hv
    exact Graph.contents_lt (of_decide_eq_true hv)
  obtain ⟨reachable, hrun, hmem⟩ := h.foldlM_searches
    (((List.range g.size).filter g.isState).filter fun v => namesInit (g.nameOf v)) []
    fun i hi => List.mem_range.mp (List.mem_of_mem_filter (List.mem_of_mem_filter hi))
  refine ⟨((List.range g.size).filter g.isState).filter fun v => v ∉ reachable, ?_, fun v => ?_⟩
  · unfold unreachableStates
    simp only
    rw [hrun]
    rfl
  · rw [List.mem_filter, List.mem_filter, List.mem_range, decide_eq_true_eq, hmem]
    simp only [List.not_mem_nil, false_or, List.mem_filter, List.mem_range, not_exists, not_and]
    constructor
    · rintro ⟨⟨-, hv⟩, hnone⟩
      refine ⟨hv, fun machine i hi => ?_⟩
      obtain ⟨hstate, hinit⟩ := (h.init_iff i).mpr ⟨machine, hi⟩
      exact hnone i ⟨⟨hlt i hstate, hstate⟩, hinit⟩
    · rintro ⟨hv, hnone⟩
      refine ⟨⟨hlt v hv, hv⟩, fun i hi => ?_⟩
      obtain ⟨machine, hi⟩ := (h.init_iff i).mp ⟨hi.1.2, hi.2⟩
      exact hnone machine i hi

/-- The line for a state. -/
theorem unreachableLine_eq (h : Checkable hbc g) {v m k : Nat} {name : Text}
    {sm : StatemachineDoc} {s : Identifier} (hm : hbc[m]? = some sm)
    (hk : sm.stateset[k]? = some s) (hw : g.vertices[v]? = some ⟨name, m, k, .state⟩) :
    unreachableLine g v = some ⟨m, k, sm.name ++ '.' :: s.val⟩ := by
  obtain ⟨sm', s', hm', hk', hname⟩ := h.state_vertex hw
  obtain rfl : sm = sm' := Option.some.inj (hm.symm.trans hm')
  obtain rfl : s = s' := Option.some.inj (hk.symm.trans hk')
  unfold unreachableLine
  rw [hw, hname]
  simp only [Option.bind_eq_bind, Option.bind_some, cutLabel_state, Option.pure_def]

/-- **The unreachable states** are the ones that are reported. -/
theorem findUnreachableStates_spec (h : Checkable hbc g) :
    ∃ reported, findUnreachableStates g = some reported ∧
      ∀ line, line ∈ reported ↔ ∃ m sm k s i v, hbc[m]? = some sm ∧ sm.stateset[k]? = some s ∧
        line = ⟨m, k, sm.name ++ '.' :: s.val⟩ ∧ StateNamed hbc g sm.name initName.val i ∧
        StateNamed hbc g sm.name s.val v ∧ ¬ g.Reaches i v := by
  obtain ⟨states, hstates, hmem⟩ := h.unreachableStates_spec
  have hline : ∀ v ∈ states, ∃ m sm k s name, hbc[m]? = some sm ∧ sm.stateset[k]? = some s ∧
      g.vertices[v]? = some ⟨name, m, k, .state⟩ ∧
      unreachableLine g v = some ⟨m, k, sm.name ++ '.' :: s.val⟩ := by
    intro v hv
    obtain ⟨name, m, k, hw⟩ := (isState_iff v).mp ((hmem v).mp hv).1
    obtain ⟨sm, s, hm, hk, -⟩ := h.state_vertex hw
    exact ⟨m, sm, k, s, name, hm, hk, hw, h.unreachableLine_eq hm hk hw⟩
  obtain ⟨reported, hreported, hlines⟩ := mapM_some fun v hv =>
    let ⟨m, sm, k, s, name, _, _, _, hl⟩ := hline v hv
    ⟨_, hl⟩
  refine ⟨reported, ?_, fun line => ?_⟩
  · unfold findUnreachableStates
    rw [hstates]
    exact hreported
  · rw [hlines]
    constructor
    · rintro ⟨v, hv, hl⟩
      obtain ⟨m, sm, k, s, name, hm, hk, hw, hl'⟩ := hline v hv
      obtain ⟨i, hi⟩ := h.exists_init hm
      exact ⟨m, sm, k, s, i, v, hm, hk, Option.some.inj (hl.symm.trans hl'), hi,
        ⟨m, sm, k, s, name, hm, rfl, hk, rfl, hw⟩, ((hmem v).mp hv).2 _ i hi⟩
    · rintro ⟨m, sm, k, s, i, v, hm, hk, rfl, hi, hv, hnot⟩
      obtain ⟨v', name, hw⟩ := h.exists_vertex hm hk
      obtain rfl := h.stateNamed_unique hv ⟨m, sm, k, s, name, hm, rfl, hk, rfl, hw⟩
      refine ⟨v, (hmem v).mpr ⟨(isState_iff v).mpr ⟨name, m, k, hw⟩, ?_⟩,
        h.unreachableLine_eq hm hk hw⟩
      intro machine j hj hreach
      obtain rfl := h.stateNamed_of_reaches hj hv hreach
      exact hnot (h.stateNamed_unique hj hi ▸ hreach)

end Checkable

/-! ## Paths to a state -/

namespace Checkable

variable {hbc : HbcDoc} {g : Graph}

theorem stateNamed_iff {v m k : Nat} {name machine state : Text}
    {sm : StatemachineDoc} {s : Identifier} (hm : hbc[m]? = some sm)
    (hk : sm.stateset[k]? = some s) (hw : g.vertices[v]? = some ⟨name, m, k, .state⟩) :
    StateNamed hbc g machine state v ↔ sm.name = machine ∧ s.val = state := by
  constructor
  · rintro ⟨m', sm', k', s', name', hm', hmachine, hk', hs, hw'⟩
    rw [hw] at hw'
    cases hw'
    obtain rfl : sm = sm' := Option.some.inj (hm.symm.trans hm')
    obtain rfl : s = s' := Option.some.inj (hk.symm.trans hk')
    exact ⟨hmachine, hs⟩
  · rintro ⟨hmachine, hs⟩
    exact ⟨m, sm, k, s, name, hm, hmachine, hk, hs, hw⟩

/-- The loop remembers the vertex of the initial state and that of the target. -/
theorem findEnds_spec (h : Checkable hbc g) (name machine : Text) (ends : Ends) (v : Nat) :
    ∃ ends', findEnds g name machine ends v = some ends' ∧
      (StateNamed hbc g machine initName.val v → ends'.initState = some v) ∧
      (¬ StateNamed hbc g machine initName.val v → ends'.initState = ends.initState) ∧
      (StateNamed hbc g machine name v → ends'.targetVertex = some v) ∧
      (¬ StateNamed hbc g machine name v → ends'.targetVertex = ends.targetVertex) := by
  by_cases hstate : g.isState v = true
  · obtain ⟨vName, m, k, hw⟩ := (isState_iff v).mp hstate
    obtain ⟨sm, s, hm, hk, rfl⟩ := h.state_vertex hw
    have hplain : MachineName sm.name := h.machineName sm (List.mem_of_getElem? hm)
    have hinit : s.val = initName.val ↔ namesInit (stateVertexName m k sm.name s) = true := by
      rw [← Subtype.ext_iff, ← namesInit_stateVertexName m k sm.name s,
        replaceNewline_stateVertexName m k s hplain]
    have hdot : '.' ∈ stateVertexName m k sm.name s := by
      rw [stateVertexName_eq]
      simp
    have hlong : name.length + 1 < (stateVertexName m k sm.name s).length ∨ s.val ≠ name := by
      by_cases hs : s.val = name
      · refine .inl ?_
        rw [stateVertexName_eq, ← hs]
        simp only [List.length_append, List.length_cons]
        omega
      · exact .inr hs
    simp only [stateNamed_iff hm hk hw]
    unfold findEnds
    rw [hw]
    simp only [machinePart_state m k s hplain, Option.bind_eq_bind, Option.bind_some,
      behindLast_dot, List.cons.injEq, true_and, hdot, not_true_eq_false, if_false]
    by_cases hmachine : sm.name = machine
    · subst hmachine
      rw [if_pos rfl]
      -- the length only matters where the names differ
      have htarget : ∀ e : Ends, (if name.length + 1 < (stateVertexName m k sm.name s).length then
          if s.val = name then some { e with targetVertex := some v } else some e else some e)
          = some (if s.val = name then { e with targetVertex := some v } else e) := by
        intro e
        rcases hlong with hlt | hne
        · rw [if_pos hlt]
          split <;> rfl
        · rw [if_neg hne, if_neg hne, ite_self]
      rw [htarget]
      refine ⟨_, rfl, ?_⟩
      simp only [true_and, hinit]
      by_cases hi : namesInit (stateVertexName m k sm.name s) = true <;>
        by_cases ht : s.val = name <;> simp [hi, ht]
    · rw [if_neg hmachine]
      exact ⟨ends, rfl, fun hn => absurd hn.1 hmachine, fun _ => rfl,
        fun hn => absurd hn.1 hmachine, fun _ => rfl⟩
  · have hnot : ∀ state, ¬ StateNamed hbc g machine state v := by
      rintro state ⟨m, sm, k, s, vName, -, -, -, -, hw⟩
      exact hstate ((isState_iff v).mpr ⟨vName, m, k, hw⟩)
    have hsame : findEnds g name machine ends v = some ends := by
      unfold findEnds
      split
      · next vName m k hw => exact absurd ((isState_iff v).mpr ⟨vName, m, k, hw⟩) hstate
      · rfl
    exact ⟨ends, hsame, fun hn => absurd hn (hnot _), fun _ => rfl,
      fun hn => absurd hn (hnot _), fun _ => rfl⟩

theorem foldlM_findEnds (h : Checkable hbc g) (name machine : Text) (n : Nat) :
    ∃ ends, (List.range n).foldlM (findEnds g name machine) ⟨none, none⟩ = some ends ∧
      (∀ v, ends.initState = some v ↔ v < n ∧ StateNamed hbc g machine initName.val v) ∧
      (∀ v, ends.targetVertex = some v ↔ v < n ∧ StateNamed hbc g machine name v) := by
  -- a state has one vertex, so the last one that is met is the only one
  have hnext : ∀ (state : Text) (n : Nat) (old new : Option Nat),
      (∀ v, old = some v ↔ v < n ∧ StateNamed hbc g machine state v) →
      (StateNamed hbc g machine state n → new = some n) →
      (¬ StateNamed hbc g machine state n → new = old) →
      ∀ v, new = some v ↔ v < n + 1 ∧ StateNamed hbc g machine state v := by
    intro state n old new hold hyes hno v
    by_cases hn : StateNamed hbc g machine state n
    · rw [hyes hn, Option.some_inj]
      constructor
      · rintro rfl
        exact ⟨Nat.lt_succ_self _, hn⟩
      · exact fun hv => h.stateNamed_unique hn hv.2
    · rw [hno hn, hold]
      constructor
      · exact fun hv => ⟨Nat.lt_succ_of_lt hv.1, hv.2⟩
      · rintro ⟨hlt, hv⟩
        rcases Nat.lt_succ_iff_lt_or_eq.mp hlt with hlt | rfl
        · exact ⟨hlt, hv⟩
        · exact absurd hv hn
  induction n with
  | zero => exact ⟨⟨none, none⟩, rfl, by simp, by simp⟩
  | succ n ih =>
    obtain ⟨ends, hrun, hinit, htarget⟩ := ih
    obtain ⟨ends', hstep, h1, h2, h3, h4⟩ := h.findEnds_spec name machine ends n
    refine ⟨ends', ?_, hnext _ n _ _ hinit h1 h2, hnext _ n _ _ htarget h3 h4⟩
    rw [List.range_succ, List.foldlM_append, hrun]
    show ([n].foldlM (findEnds g name machine) ends) = _
    rw [List.foldlM_cons, hstep]
    rfl

theorem stateNamed_lt {machine state : Text} {v : Nat} (hv : StateNamed hbc g machine state v) :
    v < g.size := by
  obtain ⟨_, _, _, _, _, -, -, -, -, hw⟩ := hv
  exact (List.getElem?_eq_some_iff.mp hw).1

theorem conditionName_eq_none {machine state : Text} {v : Nat}
    (hv : StateNamed hbc g machine state v) : g.conditionName v = none := by
  obtain ⟨_, _, _, _, _, -, -, -, -, hw⟩ := hv
  unfold Graph.conditionName
  rw [hw]

/-- What is printed for a path are the conditions on it. -/
theorem printedConditions_eq {machine state state' : Text} {i v : Nat} {path : List Nat}
    (hi : StateNamed hbc g machine state i) (hv : StateNamed hbc g machine state' v)
    (hlast : (i :: path.reverse).getLast? = some v) (hne : path ≠ []) :
    printedConditions g path = (i :: path.reverse).filterMap g.conditionName := by
  obtain ⟨u, rest, rfl⟩ := List.exists_cons_of_ne_nil hne
  rw [List.reverse_cons, ← List.cons_append, List.getLast?_concat, Option.some_inj] at hlast
  subst hlast
  unfold printedConditions
  rw [List.drop_one, List.tail_cons, List.reverse_cons, List.filterMap_cons,
    conditionName_eq_none hi, List.filterMap_append]
  simp [conditionName_eq_none hv]

/-- **The search for a path**: it ends, and says what there is. -/
theorem neverReachable_spec (h : Checkable hbc g) (name machine : Text)
    (hname : name ≠ initName.val) :
    ∃ report, neverReachable g name machine = some report ∧
      ((∃ path conditions, report = .pathFound path conditions) ↔
        ∃ i v, StateNamed hbc g machine initName.val i ∧ StateNamed hbc g machine name v ∧
          g.Reaches i v) ∧
      ∀ path conditions, report = .pathFound path conditions →
        ∃ i v, StateNamed hbc g machine initName.val i ∧ StateNamed hbc g machine name v ∧
          (i :: path.reverse).IsChain (Step g.adjacent) ∧
          (i :: path.reverse).getLast? = some v ∧
          conditions = (i :: path.reverse).filterMap g.conditionName := by
  obtain ⟨⟨initState, target⟩, hrun, hinit, htarget⟩ := h.foldlM_findEnds name machine g.size
  simp only at hinit htarget
  unfold neverReachable
  rw [if_neg hname, hrun]
  simp only [Option.bind_eq_bind, Option.bind_some]
  cases target with
  | none =>
    refine ⟨.targetNotFound, rfl, ⟨fun hex => ?_, fun hex => ?_⟩, fun _ _ hr => by cases hr⟩
    · obtain ⟨_, _, hr⟩ := hex
      cases hr
    · obtain ⟨i, v, -, hv, -⟩ := hex
      cases (htarget v).mpr ⟨stateNamed_lt hv, hv⟩
  | some v =>
    have hv := ((htarget v).mp rfl).2
    obtain ⟨m, sm, k, s, vName, hm, rfl, hk, hs, hw⟩ := hv
    have hv : StateNamed hbc g sm.name name v := ⟨m, sm, k, s, vName, hm, rfl, hk, hs, hw⟩
    obtain ⟨i, hi⟩ := h.exists_init hm
    obtain rfl := (hinit i).mpr ⟨stateNamed_lt hi, hi⟩
    have hvi : v ≠ i := by
      rintro rfl
      have hsi := ((stateNamed_iff hm hk hw).mp hi).2
      exact hname (hs.symm.trans hsi)
    obtain ⟨found, hsearch, hrooted, hsize, hfound⟩ :=
      h.breadthFirstSearch_spec (stateNamed_lt hi)
    simp only [Option.bind_some, hsearch]
    by_cases hreach : g.Reaches i v
    · obtain ⟨path, hpath, hchain, hlast, hnil⟩ := hrooted.walkBack ((hfound v).mpr hreach)
        (by omega : found.tree.length < g.size + 1)
      have hne : path ≠ [] := fun hp => hvi (hnil.mp hp)
      rw [hpath]
      simp only [Option.bind_some, if_neg hne]
      refine ⟨_, rfl, ⟨fun _ => ⟨i, v, hi, hv, hreach⟩, fun _ => ⟨_, _, rfl⟩⟩, ?_⟩
      intro path' conditions hr
      cases hr
      exact ⟨i, v, hi, hv, hchain, hlast, printedConditions_eq hi hv hlast hne⟩
    · have hback : walkBack found.tree (g.size + 1) v = some [] :=
        walkBack_of_notMem (fun hmem => hreach ((hfound v).mp hmem)) g.size
      rw [hback]
      simp only [Option.bind_some, if_true]
      refine ⟨_, rfl, ⟨fun hex => ?_, fun hex => ?_⟩, fun _ _ hr => by cases hr⟩
      · obtain ⟨_, _, hr⟩ := hex
        cases hr
      · obtain ⟨i', v', hi', hv', hreach'⟩ := hex
        obtain rfl := h.stateNamed_unique hi hi'
        obtain rfl := h.stateNamed_unique hv hv'
        exact absurd hreach' hreach

end Checkable

/-! ## Every program -/

theorem checkable_graphBuilder {fp : FloatPrinter} {hbc : HbcDoc} {g : Graph}
    {machines : List MachineDescriptor} (hrun : graphBuilder fp hbc = .ok (g, machines))
    (hnames : ∀ sm ∈ hbc, MachineName sm.name) (hstates : ∀ sm ∈ hbc, sm.stateset.Nodup) :
    Checkable hbc g := by
  have hbuilt := built_graphBuilder hrun
  obtain ⟨hunique, hinit⟩ := graphBuilder_names hrun
  exact ⟨hbuilt.bounded, hbuilt.known, hbuilt.machine, hunique, hinit, hnames, hstates⟩

/-- **The checks are exact** for a program in which no machine has a state twice. The
unreachable states are reported, and no others; a state other than `init` has a path
reported for it just when the initial state leads to it, the path leads there, and what is
printed are its conditions. -/
theorem graphChecks_exact (fp : FloatPrinter) (hbc : HbcDoc) (g : Graph)
    (machines : List MachineDescriptor) (hrun : graphBuilder fp hbc = .ok (g, machines))
    (hnames : ∀ sm ∈ hbc, MachineName sm.name) (hstates : ∀ sm ∈ hbc, sm.stateset.Nodup) :
    (∃ reported, findUnreachableStates g = some reported ∧
      ∀ line, line ∈ reported ↔ ∃ m sm k s i v, hbc[m]? = some sm ∧ sm.stateset[k]? = some s ∧
        line = ⟨m, k, sm.name ++ '.' :: s.val⟩ ∧ StateNamed hbc g sm.name initName.val i ∧
        StateNamed hbc g sm.name s.val v ∧ ¬ g.Reaches i v) ∧
    ∀ name machine, ∃ report, neverReachable g name machine = some report ∧
      (name = initName.val → report = .initSpecified) ∧
      (name ≠ initName.val →
        ((∃ path conditions, report = .pathFound path conditions) ↔
          ∃ i v, StateNamed hbc g machine initName.val i ∧ StateNamed hbc g machine name v ∧
            g.Reaches i v) ∧
        ∀ path conditions, report = .pathFound path conditions →
          ∃ i v, StateNamed hbc g machine initName.val i ∧ StateNamed hbc g machine name v ∧
            (i :: path.reverse).IsChain (Step g.adjacent) ∧
            (i :: path.reverse).getLast? = some v ∧
            conditions = (i :: path.reverse).filterMap g.conditionName) := by
  have hcheck := checkable_graphBuilder hrun hnames hstates
  refine ⟨hcheck.findUnreachableStates_spec, fun name machine => ?_⟩
  by_cases hname : name = initName.val
  · refine ⟨.initSpecified, ?_, fun _ => rfl, fun h => absurd hname h⟩
    unfold neverReachable
    rw [if_pos hname]
  · obtain ⟨report, hreport, hfound⟩ := hcheck.neverReachable_spec name machine hname
    exact ⟨report, hreport, fun h => absurd h hname, fun _ => hfound⟩

theorem machineName_lamps : ∀ sm ∈ initSecond, MachineName sm.name := by
  intro sm hsm
  rw [List.mem_singleton.mp hsm]
  have hall : "lamps".toList.all identifierRest = true := rfl
  exact fun c hc => .inl (List.all_eq_true.mp hall c hc)

theorem nodup_lamps : ∀ sm ∈ initSecond, sm.stateset.Nodup := by
  intro sm hsm
  rw [List.mem_singleton.mp hsm]
  decide

/-- The checks of a program with two states. -/
theorem initSecond_graphChecks : ∃ g machines,
    graphBuilder bitPrinter initSecond = .ok (g, machines) ∧
    (∃ reported, findUnreachableStates g = some reported ∧
      ∀ line, line ∈ reported ↔ ∃ m sm k s i v, initSecond[m]? = some sm ∧
        sm.stateset[k]? = some s ∧ line = ⟨m, k, sm.name ++ '.' :: s.val⟩ ∧
        StateNamed initSecond g sm.name initName.val i ∧
        StateNamed initSecond g sm.name s.val v ∧ ¬ g.Reaches i v) ∧
    ∃ report, neverReachable g "on".toList "lamps".toList = some report ∧
      ((∃ path conditions, report = .pathFound path conditions) ↔
        ∃ i v, StateNamed initSecond g "lamps".toList initName.val i ∧
          StateNamed initSecond g "lamps".toList "on".toList v ∧ g.Reaches i v) := by
  refine ⟨_, _, rfl, ?_⟩
  obtain ⟨hunreachable, hnever⟩ := graphChecks_exact bitPrinter initSecond _ _ rfl
    machineName_lamps nodup_lamps
  obtain ⟨report, hreport, -, hother⟩ := hnever "on".toList "lamps".toList
  exact ⟨hunreachable, report, hreport, (hother (by decide)).1⟩

/-- A machine that goes from `init` to `on` and has `on` in its list twice. -/
def onTwice : HbcDoc :=
  [⟨1, "lamps".toList, [initName, onName, onName], [
    ⟨1, initName, [⟨⟨.tautology 1, ⟨[], ⟨1, onName⟩⟩⟩, []⟩]⟩], "lamps.hbc".toList⟩]

/-- **No path is reported** to the initial state, which is reached, nor to a state that is
listed twice; there the second entry is looked for, and reported, and the first one is
entered. -/
theorem onTwice_checks : ∃ g machines, graphBuilder bitPrinter onTwice = .ok (g, machines) ∧
    StateNamed onTwice g "lamps".toList initName.val 0 ∧ g.Reaches 0 0 ∧
    neverReachable g initName.val "lamps".toList = some .initSpecified ∧
    StateNamed onTwice g "lamps".toList "on".toList 1 ∧ g.Reaches 0 1 ∧
    neverReachable g "on".toList "lamps".toList = some .noPath ∧
    findUnreachableStates g = some [⟨0, 2, "lamps.on".toList⟩] := by
  refine ⟨_, _, rfl, ⟨0, _, 0, initName, _, rfl, rfl, rfl, rfl, rfl⟩, .refl, rfl,
    ⟨0, _, 1, onName, _, rfl, rfl, rfl, rfl, rfl⟩, ?_, rfl, rfl⟩
  refine .tail (b := 4) (.tail (b := 3) (.tail (b := 0) .refl ?_) ?_) ?_
  · exact List.mem_singleton_self 3
  · exact List.mem_singleton_self 4
  · exact List.mem_singleton_self 1

end Hexabus.Hbc
