import Mathlib.Data.List.TakeWhile
import Mathlib.Tactic

/-!
# Matching regular expressions

Expressions with one group, the words they spell, and a matcher that tries the longest
repetition first and goes back to shorter ones. A line of a text is searched as `^` and `$` do:
between its ends or next to a separator.
-/

namespace Hexabus.Lib.Matching

variable {α : Type*}

/-! ## Expressions -/

inductive Regex (α : Type*) where
  | empty
  | set (p : α → Bool)
  | seq (r s : Regex α)
  | star (r : Regex α)
  | group (r : Regex α)

namespace Regex

/-- One after the other. -/
def concat (rs : List (Regex α)) : Regex α := rs.foldr .seq .empty

/-- The word itself. -/
def lit [DecidableEq α] (word : List α) : Regex α :=
  concat (word.map fun c => .set fun d => decide (d = c))

/-- As often as it says. -/
def times (n : Nat) (r : Regex α) : Regex α := concat (List.replicate n r)

end Regex

/-- The words of an expression, each with what the group had in it last. -/
inductive Spells : Regex α → List α → Option (List α) → Prop
  | empty : Spells .empty [] none
  | set {p : α → Bool} {c : α} (h : p c = true) : Spells (.set p) [c] none
  | seq {r s : Regex α} {w v : List α} {what what' : Option (List α)} (hr : Spells r w what)
      (hs : Spells s v what') : Spells (.seq r s) (w ++ v) (what'.or what)
  | starNil {r : Regex α} : Spells (.star r) [] none
  | starCons {r : Regex α} {w v : List α} {what what' : Option (List α)} (hr : Spells r w what)
      (hw : w ≠ []) (hs : Spells (.star r) v what') : Spells (.star r) (w ++ v) (what'.or what)
  | group {r : Regex α} {w : List α} {what : Option (List α)} (hr : Spells r w what) :
      Spells (.group r) w (some w)

/-! ## The matcher -/

/-- What is left of a text, and what the group has in it. -/
abbrev Outcome (α : Type*) := List α × Option (List α)

/-- The repetitions from the longest to none; one that takes nothing is not repeated. -/
def repeated (outcomes : List α → List (Outcome α)) : Nat → List α → List (Outcome α)
  | 0, text => [(text, none)]
  | fuel + 1, text =>
    ((outcomes text).filter fun o => decide (o.1.length < text.length)).flatMap (fun o =>
      (repeated outcomes fuel o.1).map fun o' => (o'.1, o'.2.or o.2)) ++ [(text, none)]

/-- The ways to match a prefix of a text, the preferred ones first. -/
def outcomes : Regex α → List α → List (Outcome α)
  | .empty, text => [(text, none)]
  | .set _, [] => []
  | .set p, c :: text => if p c then [(text, none)] else []
  | .seq r s, text => (outcomes r text).flatMap fun o =>
      (outcomes s o.1).map fun o' => (o'.1, o'.2.or o.2)
  | .star r, text => repeated (outcomes r) text.length text
  | .group r, text => (outcomes r text).map fun o =>
      (o.1, some (text.take (text.length - o.1.length)))

/-- Where a line begins behind a separator. -/
def lineStarts (separator : α → Bool) : List α → List (List α)
  | [] => []
  | c :: text => if separator c then text :: lineStarts separator text
      else lineStarts separator text

/-- A line ends here. -/
def atLineEnd (separator : α → Bool) : List α → Bool
  | [] => true
  | c :: _ => separator c

/-- `regex_search` with `^r$`: what the group has in it, if there is a match. -/
def searchLine (separator : α → Bool) (r : Regex α) (text : List α) :
    Option (Option (List α)) :=
  (text :: lineStarts separator text).findSome? fun rest =>
    ((outcomes r rest).find? fun o => atLineEnd separator o.1).map Prod.snd

/-- `regex_match`. -/
def matchWhole (r : Regex α) (text : List α) : Bool :=
  (outcomes r text).any fun o => o.1.isEmpty

/-! ## What the matcher finds -/

theorem mem_repeated {r : Regex α} (hr : ∀ text rest what, (rest, what) ∈ outcomes r text ↔
      ∃ w, text = w ++ rest ∧ Spells r w what) (fuel : Nat) {text : List α}
    (hfuel : text.length ≤ fuel) (rest : List α) (what : Option (List α)) :
    (rest, what) ∈ repeated (outcomes r) fuel text ↔
      ∃ w, text = w ++ rest ∧ Spells (.star r) w what := by
  induction fuel generalizing text rest what with
  | zero =>
    obtain rfl := List.eq_nil_of_length_eq_zero (Nat.le_zero.mp hfuel)
    constructor
    · intro h
      cases List.mem_singleton.mp h
      exact ⟨[], rfl, .starNil⟩
    · rintro ⟨w, hw, hspells⟩
      cases hspells with
      | starNil =>
        rw [show rest = [] from hw.symm]
        exact List.mem_singleton_self _
      | starCons _ hne _ =>
        rw [List.append_assoc] at hw
        exact absurd (List.append_eq_nil_iff.mp hw.symm).1 hne
  | succ fuel ih =>
    rw [repeated, List.mem_append, List.mem_flatMap, List.mem_singleton]
    constructor
    · rintro (⟨⟨middle, first⟩, hfirst, hrest⟩ | hnone)
      · obtain ⟨hfirst, hless⟩ := List.mem_filter.mp hfirst
        have hless : middle.length < text.length := of_decide_eq_true hless
        obtain ⟨⟨_, second⟩, hsecond, heq⟩ := List.mem_map.mp hrest
        cases heq
        obtain ⟨w, rfl, hw⟩ := (hr _ _ _).mp hfirst
        have hmiddle : middle.length ≤ fuel := by omega
        obtain ⟨v, rfl, hv⟩ := (ih hmiddle _ _).mp hsecond
        refine ⟨w ++ v, (List.append_assoc _ _ _).symm, .starCons hw ?_ hv⟩
        rintro rfl
        exact absurd hless (Nat.lt_irrefl _)
      · cases hnone
        exact ⟨[], rfl, .starNil⟩
    · rintro ⟨w, rfl, hspells⟩
      cases hspells with
      | starNil => exact .inr rfl
      | @starCons _ w v first second hw hne hv =>
        refine .inl ⟨(v ++ rest, first), List.mem_filter.mpr ⟨?_, ?_⟩, List.mem_map.mpr
          ⟨(rest, second), ?_, rfl⟩⟩
        · exact (hr _ _ _).mpr ⟨w, List.append_assoc _ _ _, hw⟩
        · have hpos := List.length_pos_iff.mpr hne
          refine decide_eq_true ?_
          show (v ++ rest).length < _
          simp only [List.length_append]
          omega
        · have hpos := List.length_pos_iff.mpr hne
          refine (ih ?_ _ _).mpr ⟨v, rfl, hv⟩
          show (v ++ rest).length ≤ fuel
          rw [List.append_assoc, List.length_append] at hfuel
          omega

/-- **The matcher finds** the words of the expression and nothing else. -/
theorem mem_outcomes (r : Regex α) (text rest : List α) (what : Option (List α)) :
    (rest, what) ∈ outcomes r text ↔ ∃ w, text = w ++ rest ∧ Spells r w what := by
  induction r generalizing text rest what with
  | empty =>
    constructor
    · intro h
      cases List.mem_singleton.mp h
      exact ⟨[], rfl, .empty⟩
    · rintro ⟨w, rfl, hspells⟩
      cases hspells
      exact List.mem_singleton_self _
  | set p =>
    constructor
    · intro h
      cases text with
      | nil => exact absurd h List.not_mem_nil
      | cons c text =>
        rw [outcomes] at h
        split at h
        · next hc =>
          cases List.mem_singleton.mp h
          exact ⟨[c], rfl, .set hc⟩
        · exact absurd h List.not_mem_nil
    · rintro ⟨w, rfl, hspells⟩
      cases hspells with
      | set hc =>
        rw [List.cons_append, List.nil_append, outcomes, if_pos hc]
        exact List.mem_singleton_self _
  | seq r s ihr ihs =>
    rw [outcomes, List.mem_flatMap]
    constructor
    · rintro ⟨⟨middle, first⟩, hfirst, hrest⟩
      obtain ⟨⟨_, second⟩, hsecond, heq⟩ := List.mem_map.mp hrest
      cases heq
      obtain ⟨w, rfl, hw⟩ := (ihr _ _ _).mp hfirst
      obtain ⟨v, rfl, hv⟩ := (ihs _ _ _).mp hsecond
      exact ⟨w ++ v, (List.append_assoc _ _ _).symm, .seq hw hv⟩
    · rintro ⟨w, rfl, hspells⟩
      cases hspells with
      | @seq _ _ w v first second hw hv =>
        exact ⟨(v ++ rest, first), (ihr _ _ _).mpr ⟨w, List.append_assoc _ _ _, hw⟩,
          List.mem_map.mpr ⟨(rest, second), (ihs _ _ _).mpr ⟨v, rfl, hv⟩, rfl⟩⟩
  | star r ih => exact mem_repeated ih _ (Nat.le_refl _) _ _
  | group r ih =>
    rw [outcomes, List.mem_map]
    constructor
    · rintro ⟨⟨_, inner⟩, hinner, heq⟩
      cases heq
      obtain ⟨w, rfl, hw⟩ := (ih _ _ _).mp hinner
      refine ⟨w, rfl, ?_⟩
      rw [List.length_append, Nat.add_sub_cancel, List.take_left]
      exact .group hw
    · rintro ⟨w, rfl, hspells⟩
      cases hspells with
      | @group _ _ inner hw =>
        refine ⟨(rest, inner), (ih _ _ _).mpr ⟨w, rfl, hw⟩, ?_⟩
        rw [List.length_append, Nat.add_sub_cancel, List.take_left]

theorem matchWhole_iff {r : Regex α} {text : List α} :
    matchWhole r text = true ↔ ∃ what, Spells r text what := by
  unfold matchWhole
  rw [List.any_eq_true]
  constructor
  · rintro ⟨⟨rest, what⟩, hmem, hempty⟩
    obtain ⟨w, rfl, hw⟩ := (mem_outcomes _ _ _ _).mp hmem
    have hrest : rest = [] := List.isEmpty_iff.mp hempty
    rw [hrest, List.append_nil]
    exact ⟨what, hw⟩
  · rintro ⟨what, hspells⟩
    exact ⟨([], what), (mem_outcomes _ _ _ _).mpr ⟨text, (List.append_nil _).symm, hspells⟩, rfl⟩

/-- A text that is one line is searched as a whole. -/
theorem searchLine_eq {separator : α → Bool} {r : Regex α} {text : List α}
    (hline : ∀ c ∈ text, separator c = false) :
    searchLine separator r text =
      ((outcomes r text).find? fun o => o.1.isEmpty).map Prod.snd := by
  have hstarts : lineStarts separator text = [] := by
    induction text with
    | nil => rfl
    | cons c text ih =>
      rw [lineStarts, if_neg (Bool.eq_false_iff.mp (hline c List.mem_cons_self))]
      exact ih fun d hd => hline d (List.mem_cons_of_mem _ hd)
  have hend : (outcomes r text).find? (fun o => atLineEnd separator o.1) =
      (outcomes r text).find? fun o => o.1.isEmpty := by
    refine List.find?_congr fun o ho => ?_
    obtain ⟨w, rfl, -⟩ := (mem_outcomes _ _ o.1 o.2).mp ho
    cases hrest : o.1 with
    | nil => rfl
    | cons c rest =>
      exact hline c (List.mem_append_right _ (by rw [hrest]; exact List.mem_cons_self))
  unfold searchLine
  rw [hstarts, List.findSome?_singleton, hend]

/-- **A search fails** where no word of the expression is the line. -/
theorem searchLine_eq_none {separator : α → Bool} {r : Regex α} {text : List α}
    (hline : ∀ c ∈ text, separator c = false) :
    searchLine separator r text = none ↔ ∀ what, ¬ Spells r text what := by
  rw [searchLine_eq hline, Option.map_eq_none_iff, List.find?_eq_none]
  constructor
  · intro h what hspells
    exact h ([], what) ((mem_outcomes _ _ _ _).mpr ⟨text, (List.append_nil _).symm, hspells⟩) rfl
  · rintro h ⟨rest, what⟩ hmem hempty
    obtain ⟨w, rfl, hw⟩ := (mem_outcomes _ _ _ _).mp hmem
    have hrest : rest = [] := List.isEmpty_iff.mp hempty
    refine h what ?_
    rw [hrest, List.append_nil]
    exact hw

/-- A search that succeeds has found a way to spell the line. -/
theorem spells_of_searchLine {separator : α → Bool} {r : Regex α} {text : List α}
    (hline : ∀ c ∈ text, separator c = false) {what : Option (List α)}
    (h : searchLine separator r text = some what) : Spells r text what := by
  rw [searchLine_eq hline] at h
  obtain ⟨⟨rest, _⟩, hfind, rfl⟩ := Option.map_eq_some_iff.mp h
  have hempty := List.find?_some hfind
  have hrest : rest = [] := List.isEmpty_iff.mp hempty
  obtain ⟨w, hw, hspells⟩ := (mem_outcomes _ _ _ _).mp (List.mem_of_find?_eq_some hfind)
  rw [hw, hrest, List.append_nil]
  exact hspells

/-! ## The words of the forms above -/

theorem spells_concat_nil {w : List α} {what : Option (List α)} :
    Spells (.concat []) w what ↔ w = [] ∧ what = none := by
  constructor
  · rintro ⟨⟩
    exact ⟨rfl, rfl⟩
  · rintro ⟨rfl, rfl⟩
    exact .empty

theorem spells_concat_cons {r : Regex α} {rs : List (Regex α)} {w : List α}
    {what : Option (List α)} : Spells (.concat (r :: rs)) w what ↔
      ∃ v u first second, w = v ++ u ∧ what = second.or first ∧ Spells r v first ∧
        Spells (.concat rs) u second := by
  constructor
  · intro h
    cases h with
    | seq hr hs => exact ⟨_, _, _, _, rfl, rfl, hr, hs⟩
  · rintro ⟨v, u, first, second, rfl, rfl, hr, hs⟩
    exact .seq hr hs

theorem spells_lit [DecidableEq α] {word w : List α} {what : Option (List α)} :
    Spells (.lit word) w what ↔ w = word ∧ what = none := by
  unfold Regex.lit
  induction word generalizing w what with
  | nil => exact spells_concat_nil
  | cons c word ih =>
    rw [List.map_cons, spells_concat_cons]
    constructor
    · rintro ⟨v, u, first, second, rfl, rfl, hfirst, hsecond⟩
      obtain ⟨rfl, rfl⟩ := ih.mp hsecond
      cases hfirst with
      | @set _ d hd =>
        rw [of_decide_eq_true hd]
        exact ⟨rfl, rfl⟩
    · rintro ⟨rfl, rfl⟩
      exact ⟨[c], word, none, none, rfl, rfl, .set (decide_eq_true rfl), ih.mpr ⟨rfl, rfl⟩⟩

theorem spells_group {r : Regex α} {w : List α} {what : Option (List α)} :
    Spells (.group r) w what ↔ what = some w ∧ ∃ inner, Spells r w inner := by
  constructor
  · intro h
    cases h with
    | group hr => exact ⟨rfl, _, hr⟩
  · rintro ⟨rfl, inner, hr⟩
    exact .group hr

/-- A repetition of an expression without a group. -/
theorem spells_star {r : Regex α} (hr : ∀ w what, Spells r w what → what = none) {w : List α}
    {what : Option (List α)} : Spells (.star r) w what ↔
      what = none ∧ ∃ ws : List (List α), w = ws.flatten ∧ ∀ v ∈ ws, v ≠ [] ∧ Spells r v none := by
  constructor
  · intro h
    generalize hstar : Regex.star r = s at h
    induction h with
    | empty | set | seq | group => cases hstar
    | starNil => exact ⟨rfl, [], rfl, fun v hv => absurd hv List.not_mem_nil⟩
    | @starCons _ v _ _ _ hv hne hs _ ih =>
      cases hstar
      obtain ⟨rfl, ws, rfl, hws⟩ := ih rfl
      obtain rfl := hr _ _ hv
      refine ⟨rfl, v :: ws, rfl, fun u hu => ?_⟩
      rcases List.mem_cons.mp hu with rfl | hu
      · exact ⟨hne, hv⟩
      · exact hws u hu
  · rintro ⟨rfl, ws, rfl, hws⟩
    induction ws with
    | nil => exact .starNil
    | cons v ws ih =>
      obtain ⟨hne, hv⟩ := hws v List.mem_cons_self
      exact .starCons hv hne (ih fun u hu => hws u (List.mem_cons_of_mem _ hu))

/-- A repetition of an expression whose words are known. -/
theorem spells_star_of {β : Type*} {r : Regex α} {Q : β → Prop} {f : β → List α}
    (hr : ∀ w what, Spells r w what ↔ what = none ∧ ∃ x, Q x ∧ w = f x) (hf : ∀ x, f x ≠ [])
    {w : List α} {what : Option (List α)} : Spells (.star r) w what ↔
      what = none ∧ ∃ xs : List β, (∀ x ∈ xs, Q x) ∧ w = xs.flatMap f := by
  rw [spells_star fun w what h => ((hr w what).mp h).1]
  refine and_congr_right fun _ => ⟨?_, ?_⟩
  · rintro ⟨ws, rfl, hws⟩
    induction ws with
    | nil => exact ⟨[], fun x hx => absurd hx List.not_mem_nil, rfl⟩
    | cons v ws ih =>
      obtain ⟨xs, hxs, hflat⟩ := ih fun u hu => hws u (List.mem_cons_of_mem _ hu)
      obtain ⟨-, x, hx, rfl⟩ := (hr _ _).mp (hws v List.mem_cons_self).2
      refine ⟨x :: xs, fun y hy => ?_, ?_⟩
      · rcases List.mem_cons.mp hy with rfl | hy
        · exact hx
        · exact hxs y hy
      · rw [List.flatten_cons, List.flatMap_cons, hflat]
  · rintro ⟨xs, hxs, rfl⟩
    refine ⟨xs.map f, List.flatMap_def, fun v hv => ?_⟩
    obtain ⟨x, hx, rfl⟩ := List.mem_map.mp hv
    exact ⟨hf x, (hr _ _).mpr ⟨rfl, x, hxs x hx, rfl⟩⟩

theorem spells_star_set {p : α → Bool} {w : List α} {what : Option (List α)} :
    Spells (.star (.set p)) w what ↔ what = none ∧ ∀ c ∈ w, p c = true := by
  have hset : ∀ w what, Spells (.set p) w what → what = none := by
    rintro _ _ ⟨⟩
    rfl
  rw [spells_star hset]
  refine and_congr_right fun _ => ⟨?_, fun h => ⟨w.map fun c => [c], ?_, ?_⟩⟩
  · rintro ⟨ws, rfl, hws⟩ c hc
    obtain ⟨v, hv, hcv⟩ := List.mem_flatten.mp hc
    obtain ⟨-, hspells⟩ := hws v hv
    cases hspells with
    | set hp =>
      rw [List.mem_singleton.mp hcv]
      exact hp
  · rw [← List.flatMap_def, List.flatMap_singleton']
  · intro v hv
    obtain ⟨c, hc, rfl⟩ := List.mem_map.mp hv
    exact ⟨List.cons_ne_nil _ _, .set (h c hc)⟩

/-! A part in front of others. -/

theorem spells_lit_cons [DecidableEq α] {word : List α} {rs : List (Regex α)} {w : List α}
    {what : Option (List α)} : Spells (.concat (.lit word :: rs)) w what ↔
      ∃ u, w = word ++ u ∧ Spells (.concat rs) u what := by
  rw [spells_concat_cons]
  constructor
  · rintro ⟨v, u, first, second, rfl, rfl, hfirst, hsecond⟩
    obtain ⟨rfl, rfl⟩ := spells_lit.mp hfirst
    rw [Option.or_none]
    exact ⟨u, rfl, hsecond⟩
  · rintro ⟨u, rfl, hspells⟩
    exact ⟨word, u, none, what, rfl, (Option.or_none).symm, spells_lit.mpr ⟨rfl, rfl⟩, hspells⟩

theorem spells_star_set_cons {p : α → Bool} {rs : List (Regex α)} {w : List α}
    {what : Option (List α)} : Spells (.concat (.star (.set p) :: rs)) w what ↔
      ∃ v u, (∀ c ∈ v, p c = true) ∧ w = v ++ u ∧ Spells (.concat rs) u what := by
  rw [spells_concat_cons]
  constructor
  · rintro ⟨v, u, first, second, rfl, rfl, hfirst, hsecond⟩
    obtain ⟨rfl, hall⟩ := spells_star_set.mp hfirst
    rw [Option.or_none]
    exact ⟨v, u, hall, rfl, hsecond⟩
  · rintro ⟨v, u, hall, rfl, hspells⟩
    exact ⟨v, u, none, what, rfl, (Option.or_none).symm, spells_star_set.mpr ⟨rfl, hall⟩, hspells⟩

theorem spells_star_cons {β : Type*} {r : Regex α} {Q : β → Prop} {f : β → List α}
    (hr : ∀ w what, Spells r w what ↔ what = none ∧ ∃ x, Q x ∧ w = f x) (hf : ∀ x, f x ≠ [])
    {rs : List (Regex α)} {w : List α} {what : Option (List α)} :
    Spells (.concat (.star r :: rs)) w what ↔ ∃ (xs : List β) (u : List α), (∀ x ∈ xs, Q x) ∧
      w = xs.flatMap f ++ u ∧ Spells (.concat rs) u what := by
  rw [spells_concat_cons]
  constructor
  · rintro ⟨v, u, first, second, rfl, rfl, hfirst, hsecond⟩
    obtain ⟨rfl, xs, hxs, rfl⟩ := (spells_star_of hr hf).mp hfirst
    rw [Option.or_none]
    exact ⟨xs, u, hxs, rfl, hsecond⟩
  · rintro ⟨xs, u, hxs, rfl, hspells⟩
    exact ⟨xs.flatMap f, u, none, what, rfl, (Option.or_none).symm,
      (spells_star_of hr hf).mpr ⟨rfl, xs, hxs, rfl⟩, hspells⟩

theorem spells_group_cons {r : Regex α} {rs : List (Regex α)} {w : List α}
    {what : Option (List α)} : Spells (.concat (.group r :: rs)) w what ↔
      ∃ v u last, (∃ inner, Spells r v inner) ∧ w = v ++ u ∧ Spells (.concat rs) u last ∧
        what = last.or (some v) := by
  rw [spells_concat_cons]
  constructor
  · rintro ⟨v, u, first, second, rfl, rfl, hfirst, hsecond⟩
    obtain ⟨rfl, hinner⟩ := spells_group.mp hfirst
    exact ⟨v, u, second, hinner, rfl, hsecond, rfl⟩
  · rintro ⟨v, u, last, hinner, rfl, hspells, rfl⟩
    exact ⟨v, u, some v, last, rfl, rfl, spells_group.mpr ⟨rfl, hinner⟩, hspells⟩

theorem spells_times_set {n : Nat} {p : α → Bool} {w : List α} {what : Option (List α)} :
    Spells (.times n (.set p)) w what ↔ what = none ∧ w.length = n ∧ ∀ c ∈ w, p c = true := by
  unfold Regex.times
  induction n generalizing w what with
  | zero =>
    rw [List.replicate_zero, spells_concat_nil]
    constructor
    · rintro ⟨rfl, rfl⟩
      exact ⟨rfl, rfl, fun c hc => absurd hc List.not_mem_nil⟩
    · rintro ⟨rfl, hlen, -⟩
      exact ⟨List.eq_nil_of_length_eq_zero hlen, rfl⟩
  | succ n ih =>
    rw [List.replicate_succ, spells_concat_cons]
    constructor
    · rintro ⟨v, u, first, second, rfl, rfl, hfirst, hsecond⟩
      obtain ⟨rfl, rfl, hall⟩ := ih.mp hsecond
      cases hfirst with
      | @set _ c hc =>
        refine ⟨rfl, rfl, fun d hd => ?_⟩
        rcases List.mem_cons.mp hd with rfl | hd
        · exact hc
        · exact hall d hd
    · rintro ⟨rfl, hlen, hall⟩
      cases w with
      | nil => cases hlen
      | cons c w =>
        exact ⟨[c], w, none, none, rfl, rfl, .set (hall c List.mem_cons_self), ih.mpr
          ⟨rfl, Nat.succ.inj hlen, fun d hd => hall d (List.mem_cons_of_mem _ hd)⟩⟩

end Hexabus.Lib.Matching
