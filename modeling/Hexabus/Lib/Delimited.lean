import Mathlib.Tactic

/-!
# Readers of delimited pieces

A reader waits for a delimiter that depends on its state, takes everything up to it as one piece,
and goes on in the state this leads to. It works item by item: what it does with a sequence is what
it does with a part of it and then with the rest, wherever the sequence is cut.
-/

namespace Hexabus.Lib.Delimited

/-- `delim` is what the reader waits for, nothing once it has stopped; `done` takes a piece, with
its delimiter. -/
structure PieceReader (σ β : Type) where
  delim : σ → Option β
  done : σ → List β → σ

namespace PieceReader

variable {σ β : Type} [DecidableEq β] (r : PieceReader σ β)

/-- One item: the state, and the piece as far as it has come. -/
def step : σ × List β → β → σ × List β
  | (s, piece), b =>
    match r.delim s with
    | none => (s, piece)
    | some d => if b = d then (r.done s (piece ++ [b]), []) else (s, piece ++ [b])

def read (x : σ × List β) (bs : List β) : σ × List β := bs.foldl r.step x

variable {r}

@[simp] theorem read_nil (x : σ × List β) : r.read x [] = x := rfl

@[simp] theorem read_cons (x : σ × List β) (b : β) (bs : List β) :
    r.read x (b :: bs) = r.read (r.step x b) bs := rfl

theorem read_append (x : σ × List β) (bs cs : List β) :
    r.read x (bs ++ cs) = r.read (r.read x bs) cs := List.foldl_append

variable {s : σ} {d : β}

theorem step_of_delim (h : r.delim s = some d) (piece : List β) (b : β) :
    r.step (s, piece) b = if b = d then (r.done s (piece ++ [b]), []) else (s, piece ++ [b]) := by
  simp [step, h]

/-- A reader that has stopped reads nothing. -/
theorem read_stopped (h : r.delim s = none) (piece bs : List β) :
    r.read (s, piece) bs = (s, piece) := by
  induction bs with
  | nil => rfl
  | cons b bs ih =>
    have hstep : r.step (s, piece) b = (s, piece) := by
      simp [step, h]
    rw [read_cons, hstep, ih]

/-- Without the delimiter the piece gets longer. -/
theorem read_short (h : r.delim s = some d) {bs : List β} (hbs : d ∉ bs) (piece : List β) :
    r.read (s, piece) bs = (s, piece ++ bs) := by
  induction bs generalizing piece with
  | nil => simp
  | cons b bs ih =>
    have hb : b ≠ d := fun heq => hbs (heq ▸ List.mem_cons_self)
    have hrest : d ∉ bs := fun hmem => hbs (List.mem_cons_of_mem b hmem)
    rw [read_cons, step_of_delim h, if_neg hb, ih hrest]
    simp

/-- **One piece**, up to its delimiter. -/
theorem read_piece (h : r.delim s = some d) {bs : List β} (hbs : d ∉ bs) (piece rest : List β) :
    r.read (s, piece) (bs ++ d :: rest) = r.read (r.done s (piece ++ bs ++ [d]), []) rest := by
  rw [read_append, read_short h hbs, read_cons, step_of_delim h, if_pos rfl]

/-- A reader that stays in a state whatever the piece is in it at the end. -/
theorem read_stays {P : σ → Prop} (hdone : ∀ s piece, P s → P (r.done s piece)) (hs : P s)
    (piece bs : List β) : P (r.read (s, piece) bs).1 := by
  induction bs generalizing s piece with
  | nil => exact hs
  | cons b bs ih =>
    rw [read_cons]
    cases hd : r.delim s with
    | none =>
      simp only [step, hd]
      exact ih hs piece
    | some d =>
      rw [step_of_delim hd]
      split
      · exact ih (hdone s _ hs) []
      · exact ih hs _

end PieceReader

end Hexabus.Lib.Delimited
