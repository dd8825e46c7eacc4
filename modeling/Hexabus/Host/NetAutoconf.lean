import Hexabus.Lib.Prefixes

/-!
# Choosing networks for a router

`exclude_all` and `select_networks` of `hxb-net-autoconf.py`: the networks that are seen are
taken out of `fd00::/8` one after the other, and one or two networks of a `/63` in what is left
are handed out. A network that contains a free block is taken out the wrong way round: the
block is replaced by the rest of the network.
-/

namespace Hexabus.Host

open Lib.Prefixes Lib.Prefixes.Block

/-! ## The `ipaddress` module -/

/-- An `IPv6Network`: the prefix length and the network address. -/
abbrev Network := Block 128

abbrev Network.prefixlen (net : Network) : Nat := net.length

abbrev Network.networkAddress (net : Network) : Nat := net.first

abbrev Network.broadcastAddress (net : Network) : Nat := net.last

inductive PyError
  | valueError
  | indexError
deriving DecidableEq

/-- `net.address_exclude(other)`, which raises `ValueError` if `other` is not contained in `net`. -/
def addressExclude (net other : Network) : Except PyError (List Network) :=
  if other ≤ net then .ok (net.exclude other) else .error .valueError

/-- `list(net.subnets(1))`: a network of one address has only itself. -/
def subnets (net : Network) : List Network :=
  if net.prefixlen = 128 then [net] else [net.lower, net.upper]

/-- `list[index]` -/
def item {α : Type} (list : List α) (index : Nat) : Except PyError α :=
  match list[index]? with
  | some x => .ok x
  | none => .error .indexError

/-- `random.choice(seq)`, when the random number is `random`. -/
def choice {α : Type} (random : Nat) (seq : List α) : Except PyError α :=
  item seq (random % seq.length)

/-! ## The script -/

/-- `fd00::/8` -/
def privateNet : Network where
  length := 8
  first := 0xfd * 2 ^ 120
  length_le := by decide
  first_lt := by norm_num
  aligned := ⟨0xfd, by norm_num⟩

def netContains (net cand : Network) : Bool :=
  cand.networkAddress ∈ net ∧ cand.broadcastAddress ∈ net

/-- What becomes of one free block when a network is taken out. -/
def excludeFrom (i net : Network) : Except PyError (List Network) :=
  if netContains net i then addressExclude net i
  else if netContains i net then addressExclude i net
  else .ok [net]

/-- The inner loop: `next.extend(...)` for each block. -/
def excludeOne (i : Network) : List Network → Except PyError (List Network)
  | [] => .ok []
  | net :: result => do
    let front ← excludeFrom i net
    let next ← excludeOne i result
    .ok (front ++ next)

def excludeAllFrom (result : List Network) : List Network → Except PyError (List Network)
  | [] => .ok result
  | i :: netlist => do
    let next ← excludeOne i result
    excludeAllFrom next netlist

def excludeAll (netlist : List Network) : Except PyError (List Network) :=
  excludeAllFrom [privateNet] netlist

theorem choice_mem {α : Type} {random : Nat} {seq : List α} {x : α}
    (h : choice random seq = .ok x) : x ∈ seq := by
  unfold choice item at h
  split at h
  next y hy =>
    cases h
    exact List.mem_of_getElem? hy
  next => cases h

theorem prefixlen_subnets {net sub : Network} (h : sub ∈ subnets net)
    (hlt : net.prefixlen < 128) : sub.prefixlen = net.prefixlen + 1 := by
  unfold subnets at h
  rw [if_neg (Nat.ne_of_lt hlt)] at h
  simp only [List.mem_cons, List.not_mem_nil, or_false] at h
  rcases h with rfl | rfl
  · exact length_lower hlt
  · exact length_upper hlt

/-- The loop of `select_networks`: halving until 63 bits are fixed. The random numbers are
`random`, those from `drawn` on. -/
def narrow (random : Nat → Nat) (drawn : Nat) (hxb : Network) : Except PyError Network :=
  if _ : hxb.prefixlen < 63 then
    match hchoice : choice (random drawn) (subnets hxb) with
    | .ok sub => narrow random (drawn + 1) sub
    | .error e => .error e
  else .ok hxb
termination_by 63 - hxb.prefixlen
decreasing_by
  have hsub := prefixlen_subnets (choice_mem hchoice) (by omega)
  omega

/-- The network for the ethernet side, if there is to be one, and that for the hexabus side. -/
def selectNetworks (random : Nat → Nat) (prefixes unusedPrefixes : List Network) :
    Except PyError (Option Network × Network) := do
  let hxb ← choice (random 0) unusedPrefixes
  let hxb ← narrow random 1 hxb
  if prefixes.length > 0 then
    let net ← item (subnets hxb) 1
    .ok (none, net)
  else
    let nets := subnets hxb
    let eth ← item nets 0
    let hxb ← item nets 1
    .ok (some eth, hxb)

/-! ## What they are for -/

/-- The addresses that may be given away. -/
def free (netlist : List Network) : Set Nat := {a | a ∈ privateNet ∧ ∀ net ∈ netlist, a ∉ net}

/-- The free addresses, as disjoint networks. -/
def ExcludesExactly (netlist : List Network) : Prop :=
  ∃ result, excludeAll netlist = .ok result ∧ result.Pairwise Apart ∧
    ∀ a, (∃ net ∈ result, a ∈ net) ↔ a ∈ free netlist

/-- Whatever the random numbers are: as long as there is something to choose from, networks of
64 bits are chosen, disjoint from each other and from every network that is seen. -/
def SelectsFree (prefixes routes : List Network) : Prop :=
  ∀ viable, excludeAll (prefixes ++ routes) = .ok viable → viable ≠ [] → ∀ random,
    ∃ eth hxb, selectNetworks random prefixes viable = .ok (eth, hxb) ∧
      (eth.toList ++ [hxb]).Pairwise Apart ∧
      ∀ net ∈ eth.toList ++ [hxb], net.prefixlen = 64 ∧ ∀ seen ∈ prefixes ++ routes, net.Apart seen

/-- Every network is free as a whole or not at all when its turn comes. -/
def Tidy (netlist : List Network) : Prop :=
  ∀ pre i post, netlist = pre ++ i :: post →
    (∀ a ∈ i, a ∈ free pre) ∨ ∀ a ∈ i, a ∉ free pre

/-- Every `/63` is free as a whole or not at all. -/
def WholeSlots (netlist : List Network) : Prop :=
  ∀ net : Network, net.prefixlen = 63 → ∀ a ∈ net, ∀ a' ∈ net, a ∈ free netlist → a' ∈ free netlist

/-! ## Taking networks out -/

theorem netContains_iff {net cand : Network} : netContains net cand = true ↔ cand ≤ net := by
  rw [le_iff]
  exact decide_eq_true_iff

/-- What the script puts in the place of a block. -/
def replacement (i net : Network) : List Network :=
  if i ≤ net then net.exclude i else if net ≤ i then i.exclude net else [net]

theorem excludeFrom_eq (i net : Network) : excludeFrom i net = .ok (replacement i net) := by
  unfold excludeFrom replacement addressExclude
  simp only [netContains_iff]
  by_cases hin : i ≤ net
  · rw [if_pos hin, if_pos hin, if_pos hin]
  · rw [if_neg hin, if_neg hin]
    by_cases hout : net ≤ i
    · rw [if_pos hout, if_pos hout, if_pos hout]
    · rw [if_neg hout, if_neg hout]

theorem excludeOne_eq (i : Network) (result : List Network) :
    excludeOne i result = .ok (result.flatMap (replacement i)) := by
  induction result with
  | nil => rfl
  | cons net result ih =>
    rw [excludeOne, excludeFrom_eq, ih]
    rfl

theorem excludeAllFrom_eq (result netlist : List Network) : excludeAllFrom result netlist =
    .ok (netlist.foldl (fun result i => result.flatMap (replacement i)) result) := by
  induction netlist generalizing result with
  | nil => rfl
  | cons i netlist ih =>
    rw [excludeAllFrom, excludeOne_eq]
    exact ih _

/-- `exclude_all` raises no exception. -/
theorem excludeAll_eq (netlist : List Network) : excludeAll netlist =
    .ok (netlist.foldl (fun result i => result.flatMap (replacement i)) [privateNet]) :=
  excludeAllFrom_eq _ _

theorem excludeAll_concat {netlist result : List Network} (h : excludeAll netlist = .ok result)
    (i : Network) : excludeAll (netlist ++ [i]) = .ok (result.flatMap (replacement i)) := by
  rw [excludeAll_eq] at h ⊢
  obtain rfl := Except.ok.inj h
  rw [List.foldl_append]
  rfl

theorem free_concat (netlist : List Network) (i : Network) :
    free (netlist ++ [i]) = free netlist \ i := by
  ext a
  show a ∈ privateNet ∧ (∀ net ∈ netlist ++ [i], a ∉ net) ↔
    (a ∈ privateNet ∧ ∀ net ∈ netlist, a ∉ net) ∧ a ∉ i
  rw [List.forall_mem_append, List.forall_mem_singleton, and_assoc]

theorem tidy_concat {netlist : List Network} {i : Network} : Tidy (netlist ++ [i]) ↔
    Tidy netlist ∧ ((∀ a ∈ i, a ∈ free netlist) ∨ ∀ a ∈ i, a ∉ free netlist) := by
  constructor
  · intro h
    refine ⟨fun pre j post heq => h pre j (post ++ [i]) ?_, h netlist i [] rfl⟩
    rw [heq, List.append_assoc, List.cons_append]
  · rintro ⟨htidy, hlast⟩ pre j post heq
    rcases List.eq_nil_or_concat post with rfl | ⟨post, k, rfl⟩
    · obtain ⟨rfl, hlist⟩ := List.append_inj' heq rfl
      obtain rfl := List.head_eq_of_cons_eq hlist
      exact hlast
    · rw [List.concat_eq_append, ← List.cons_append, ← List.append_assoc] at heq
      exact htidy pre j post (List.append_inj' heq rfl).1

/-- One network of a tidy list: the right blocks are taken apart. -/
theorem replacement_eq_without {blocks netlist : List Network} {i : Network}
    (h : IsDecomposition blocks (free netlist))
    (hi : (∀ a ∈ i, a ∈ free netlist) ∨ ∀ a ∈ i, a ∉ free netlist) :
    blocks.flatMap (replacement i) = without blocks i := by
  refine List.flatMap_congr fun net hnet => ?_
  unfold replacement
  by_cases hin : i ≤ net
  · rw [if_pos hin, if_pos hin]
  · rw [if_neg hin, if_neg hin, if_neg]
    intro hout
    have hfirst : net.first ∈ free netlist := (h.mem _).mp ⟨net, hnet, net.first_mem⟩
    rcases hi with hall | hnone
    · obtain ⟨b, hb, hle⟩ := h.maximal i hall
      have heq := h.eq_of_mem hnet hb net.first_mem (hle (hout net.first_mem))
      exact hin (heq ▸ hle)
    · exact hnone _ (hout net.first_mem) hfirst

/-- **The blocks of a tidy list** are the largest free networks. -/
theorem decomposition_of_tidy {netlist : List Network} (h : Tidy netlist) :
    ∃ result, excludeAll netlist = .ok result ∧ IsDecomposition result (free netlist) := by
  induction netlist using List.reverseRecOn with
  | nil =>
    refine ⟨[privateNet], rfl, ?_⟩
    have hfree : free [] = (privateNet : Set Nat) := by
      ext a
      simp [free]
    rw [hfree]
    exact .singleton privateNet
  | append_singleton netlist i ih =>
    obtain ⟨htidy, hlast⟩ := tidy_concat.mp h
    obtain ⟨result, hresult, hdecomposition⟩ := ih htidy
    refine ⟨_, excludeAll_concat hresult i, ?_⟩
    rw [free_concat, replacement_eq_without hdecomposition hlast]
    exact hdecomposition.without hlast

theorem excludesExactly_of_tidy {netlist : List Network} (h : Tidy netlist) :
    ExcludesExactly netlist := by
  obtain ⟨result, hresult, hdecomposition⟩ := decomposition_of_tidy h
  exact ⟨result, hresult, hdecomposition.apart, hdecomposition.mem⟩

/-- A network that is free in part gives away what is in use. -/
theorem not_excludesExactly_concat {netlist : List Network} {i : Network} (h : Tidy netlist)
    {a a' : Nat} (ha : a ∈ i) (hused : a ∉ free netlist) (ha' : a' ∈ i)
    (hfree : a' ∈ free netlist) : ¬ ExcludesExactly (netlist ++ [i]) := by
  rintro ⟨next, hnext, -, hmem⟩
  obtain ⟨result, hresult, hdecomposition⟩ := decomposition_of_tidy h
  obtain rfl := Except.ok.inj ((excludeAll_concat hresult i).symm.trans hnext)
  obtain ⟨net, hnet, hin⟩ := (hdecomposition.mem a').mpr hfree
  have hnot : a ∉ net := fun hmem => hused ((hdecomposition.mem a).mp ⟨net, hnet, hmem⟩)
  have hle : net ≤ i := by
    rcases le_or_le_of_mem hin ha' with hle | hle
    · exact hle
    · exact absurd (hle ha) hnot
  -- the block is replaced by the network without it
  have hreplacement : replacement i net = i.exclude net := by
    unfold replacement
    rw [if_neg fun hback => hnot (hback ha), if_pos hle]
  obtain ⟨d, hd, had⟩ := (mem_exclude hle).mpr ⟨ha, hnot⟩
  have hresult : ∃ d ∈ result.flatMap (replacement i), a ∈ d :=
    ⟨d, List.mem_flatMap.mpr ⟨net, hnet, hreplacement ▸ hd⟩, had⟩
  have hstill := (hmem a).mp hresult
  rw [free_concat] at hstill
  exact hstill.2 ha

/-- **When `exclude_all` is right all along**: exactly on tidy lists. -/
theorem excludesExactly_iff_tidy (netlist : List Network) :
    (∀ given, given <+: netlist → ExcludesExactly given) ↔ Tidy netlist := by
  constructor
  · intro h
    induction netlist using List.reverseRecOn with
    | nil => exact fun pre i post heq => absurd heq.symm (by simp)
    | append_singleton netlist i ih =>
      have htidy := ih fun given hgiven => h given (hgiven.trans (List.prefix_append _ _))
      refine tidy_concat.mpr ⟨htidy, ?_⟩
      by_contra hpartly
      push Not at hpartly
      obtain ⟨⟨a, ha, hused⟩, ⟨a', ha', hfree⟩⟩ := hpartly
      exact not_excludesExactly_concat htidy ha hused ha' hfree (h _ List.prefix_rfl)
  · rintro h given ⟨rest, rfl⟩
    refine excludesExactly_of_tidy fun pre i post heq => h pre i (post ++ rest) ?_
    rw [heq, List.append_assoc, List.cons_append]

/-! ## Choosing among what is left -/

theorem choice_of_lt {α : Type} {seq : List α} {index : Nat} (h : index < seq.length) :
    choice index seq = .ok seq[index] := by
  unfold choice item
  rw [Nat.mod_eq_of_lt h, List.getElem?_eq_getElem h]

theorem choice_ok {α : Type} {seq : List α} (h : seq ≠ []) (random : Nat) :
    ∃ x ∈ seq, choice random seq = .ok x := by
  have hlt : random % seq.length < seq.length := Nat.mod_lt _ (List.length_pos_iff.mpr h)
  have hchoice : choice random seq = .ok seq[random % seq.length] := by
    rw [← choice_of_lt hlt]
    unfold choice
    rw [Nat.mod_mod]
  exact ⟨_, List.getElem_mem hlt, hchoice⟩

theorem subnets_of_lt {net : Network} (h : net.prefixlen < 128) :
    subnets net = [net.lower, net.upper] := if_neg (Nat.ne_of_lt h)

theorem subnets_le {net sub : Network} (h : sub ∈ subnets net) (hlt : net.prefixlen < 128) :
    sub ≤ net := by
  rw [subnets_of_lt hlt] at h
  simp only [List.mem_cons, List.not_mem_nil, or_false] at h
  rcases h with rfl | rfl
  · exact lower_le hlt
  · exact upper_le hlt

/-- The loop ends with a `/63` inside the network it began with. -/
theorem narrow_ok (random : Nat → Nat) (drawn : Nat) {hxb : Network} (h : hxb.prefixlen ≤ 63) :
    ∃ net, narrow random drawn hxb = .ok net ∧ net ≤ hxb ∧ net.prefixlen = 63 := by
  rw [narrow]
  by_cases hlt : hxb.prefixlen < 63
  · rw [dif_pos hlt]
    have hne : subnets hxb ≠ [] := by
      rw [subnets_of_lt (by omega)]
      exact List.cons_ne_nil _ _
    obtain ⟨sub, hsub, hchoice⟩ := choice_ok hne (random drawn)
    have hlength := prefixlen_subnets hsub (by omega)
    obtain ⟨net, hnarrow, hle, hnet⟩ := narrow_ok random (drawn + 1)
      (show sub.prefixlen ≤ 63 by omega)
    refine ⟨net, ?_, hle.trans (subnets_le hsub (by omega)), hnet⟩
    rw [← hnarrow]
    split
    next sub' hsub' =>
      obtain rfl := Except.ok.inj (hchoice.symm.trans hsub')
      rfl
    next e he => cases hchoice.symm.trans he
  · exact ⟨hxb, dif_neg hlt, le_rfl, by omega⟩
termination_by 63 - hxb.prefixlen

/-- What is chosen: the halves of a `/63`, the upper one for the hexabus side. -/
theorem selectNetworks_ok (random : Nat → Nat) (prefixes : List Network) {viable : List Network}
    (hne : viable ≠ []) (hviable : ∀ net ∈ viable, net.prefixlen ≤ 63) :
    ∃ slot : Network, slot.prefixlen = 63 ∧ (∃ net ∈ viable, slot ≤ net) ∧
      selectNetworks random prefixes viable =
        .ok (if prefixes = [] then some slot.lower else none, slot.upper) := by
  obtain ⟨net, hnet, hchoice⟩ := choice_ok hne (random 0)
  obtain ⟨slot, hnarrow, hle, hslot⟩ := narrow_ok random 1 (hviable net hnet)
  refine ⟨slot, hslot, ⟨net, hnet, hle⟩, ?_⟩
  have hsubnets : subnets slot = [slot.lower, slot.upper] := subnets_of_lt (by omega)
  unfold selectNetworks
  rw [hchoice]
  show (narrow random 1 net >>= _) = _
  rw [hnarrow]
  show (if prefixes.length > 0 then _ else _) = _
  rw [hsubnets]
  cases prefixes with
  | nil => rfl
  | cons first rest => rfl

/-- A free network of more than 63 bits, once it is drawn, yields no `/64`. -/
theorem selectNetworks_long {prefixes viable : List Network} {index : Nat}
    (hindex : index < viable.length) (hlong : 63 < viable[index].prefixlen)
    {eth : Option Network} {hxb : Network}
    (h : selectNetworks (fun _ => index) prefixes viable = .ok (eth, hxb)) :
    64 < hxb.prefixlen := by
  have hnarrow : narrow (fun _ => index) 1 viable[index] = .ok viable[index] := by
    rw [narrow, dif_neg (Nat.not_lt_of_lt hlong)]
  have hupper : item (subnets viable[index]) 1 = .ok hxb := by
    unfold selectNetworks at h
    rw [choice_of_lt hindex] at h
    replace h : (narrow (fun _ => index) 1 viable[index] >>= _) = _ := h
    rw [hnarrow] at h
    replace h : (if prefixes.length > 0 then item (subnets viable[index]) 1 >>= _
      else item (subnets viable[index]) 0 >>= _) = _ := h
    split at h
    · cases hitem : item (subnets viable[index]) 1 with
      | error e =>
        rw [hitem] at h
        cases h
      | ok net =>
        rw [hitem] at h
        cases h
        rfl
    · cases hlow : item (subnets viable[index]) 0 with
      | error e =>
        rw [hlow] at h
        cases h
      | ok low =>
        cases hitem : item (subnets viable[index]) 1 with
        | error e =>
          rw [hlow, hitem] at h
          cases h
        | ok net =>
          rw [hlow, hitem] at h
          cases h
          rfl
  by_cases hsingle : viable[index].prefixlen = 128
  · rw [subnets, if_pos hsingle] at hupper
    cases hupper
  · have hle := viable[index].length_le
    have hlt : viable[index].prefixlen < 128 := Nat.lt_of_le_of_ne hle hsingle
    rw [subnets_of_lt hlt] at hupper
    cases hupper
    show 64 < viable[index].upper.length
    rw [length_upper hlt]
    exact Nat.succ_lt_succ hlong

/-- **When the choice is right**: exactly if no free `/63` is in use in part. -/
theorem selectsFree_iff {prefixes routes : List Network} (h : Tidy (prefixes ++ routes)) :
    SelectsFree prefixes routes ↔ WholeSlots (prefixes ++ routes) := by
  obtain ⟨viable, hviable, hdecomposition⟩ := decomposition_of_tidy h
  have hslots : WholeSlots (prefixes ++ routes) ↔ ∀ net ∈ viable, net.prefixlen ≤ 63 :=
    (hdecomposition.length_le_iff (by decide)).symm
  rw [hslots]
  constructor
  · intro hselects net hnet
    by_contra hlong
    obtain ⟨index, hindex, rfl⟩ := List.getElem_of_mem hnet
    obtain ⟨eth, hxb, hchosen, -, hgood⟩ :=
      hselects viable hviable (List.ne_nil_of_mem hnet) fun _ => index
    have hsixtyfour := (hgood hxb (List.mem_append_right _ (List.mem_singleton_self _))).1
    have htoo := selectNetworks_long hindex (Nat.lt_of_not_le hlong) hchosen
    omega
  · intro hshort viable' hviable' hne random
    obtain rfl := Except.ok.inj (hviable.symm.trans hviable')
    obtain ⟨slot, hslot, ⟨net, hnet, hle⟩, hchosen⟩ :=
      selectNetworks_ok random prefixes hne hshort
    have hlt : slot.prefixlen < 128 := by omega
    have hfree : ∀ half : Network, half ≤ slot → ∀ seen ∈ prefixes ++ routes, half.Apart seen := by
      intro half hhalf seen hseen a ha
      exact ((hdecomposition.mem a).mp ⟨net, hnet, hle (hhalf ha)⟩).2 seen hseen
    have hlower : slot.lower.length = 64 ∧
        ∀ seen ∈ prefixes ++ routes, slot.lower.Apart seen :=
      ⟨(length_lower hlt).trans (congrArg Nat.succ hslot), hfree _ (lower_le hlt)⟩
    have hupper : slot.upper.length = 64 ∧
        ∀ seen ∈ prefixes ++ routes, slot.upper.Apart seen :=
      ⟨(length_upper hlt).trans (congrArg Nat.succ hslot), hfree _ (upper_le hlt)⟩
    refine ⟨_, _, hchosen, ?_, ?_⟩
    · by_cases hnone : prefixes = []
      · rw [if_pos hnone]
        refine List.pairwise_pair.mpr fun a ha ha' => ?_
        exact not_mem_lower_of_mem_upper hlt ha' ha
      · rw [if_neg hnone]
        exact List.pairwise_singleton _ _
    · by_cases hnone : prefixes = []
      · rw [if_pos hnone]
        show ∀ half ∈ [slot.lower, slot.upper], _
        rw [List.forall_mem_cons, List.forall_mem_singleton]
        exact ⟨hlower, hupper⟩
      · rw [if_neg hnone]
        show ∀ half ∈ [slot.upper], _
        rw [List.forall_mem_singleton]
        exact hupper

/-- The script does its work: the free addresses are right after each of the networks, and so
is every choice. -/
def Autoconfigures (prefixes routes : List Network) : Prop :=
  (∀ given, given <+: prefixes ++ routes → ExcludesExactly given) ∧ SelectsFree prefixes routes

/-- **When a router gets networks of its own**: every network that is seen is free as a whole
or not at all when its turn comes, and in the end every `/63` is. -/
theorem autoconfigures_iff (prefixes routes : List Network) :
    Autoconfigures prefixes routes ↔
      Tidy (prefixes ++ routes) ∧ WholeSlots (prefixes ++ routes) := by
  unfold Autoconfigures
  rw [excludesExactly_iff_tidy]
  exact and_congr_right fun h => selectsFree_iff h

/-- `::/0` -/
def defaultRoute : Network where
  length := 0
  first := 0
  length_le := by decide
  first_lt := by norm_num
  aligned := ⟨0, rfl⟩

/-- With the default route, everything but `fd00::/8` is taken for free. -/
theorem defaultRoute_not_excluded :
    ¬ ExcludesExactly ([] ++ [defaultRoute]) ∧ ¬ Autoconfigures [] [defaultRoute] := by
  have htidy : Tidy [] := fun pre i post heq => absurd heq.symm (by simp)
  have hprivate : privateNet.first ∈ free [] := ⟨privateNet.first_mem, by simp⟩
  have hzero : 0 ∉ free [] := by
    rintro ⟨hmem, -⟩
    exact absurd (mem_iff.mp hmem).1 (by decide)
  have hcontained : privateNet.first ∈ defaultRoute :=
    mem_iff.mpr ⟨Nat.zero_le _, by norm_num [privateNet, defaultRoute, size]⟩
  have hwrong : ¬ ExcludesExactly ([] ++ [defaultRoute]) :=
    not_excludesExactly_concat htidy defaultRoute.first_mem hzero hcontained hprivate
  exact ⟨hwrong, fun hright => hwrong (hright.1 _ List.prefix_rfl)⟩

end Hexabus.Host
