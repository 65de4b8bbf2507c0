import Mathlib.Data.List.Forall2

/-!
Checked access: reading by position where the position may be out of range.

The readers and layouts take lists apart and never ask for a position. Here the same computations
are written with positions, as a machine with arrays carries them out, and every access is checked:
one that leaves its range ends the computation with an `Overrun`. A computation is safe if it is
`pure`: it gives a result, whatever is in the arrays.
-/

namespace Whiteboard.Checked

/-- What a computation with positions can do wrong. -/
inductive Overrun where
  /-- It reads or writes at a position behind the last one. -/
  | position (i size : Nat)
  /-- It takes a piece that does not end behind its beginning, within what it is taken from. -/
  | piece (start stop size : Nat)
  /-- It cuts a text inside a character. -/
  | character (offset : Nat)
  /-- It takes more from a number than there is. -/
  | difference (a b : Nat)
  | division
  /-- It goes round without coming closer to its end. -/
  | standstill
deriving DecidableEq, Repr

/-- A computation that an overrun may end. -/
abbrev Attempt (α : Type) := Except Overrun α

variable {α β γ : Type} {xs ys zs : List α} {x : α} {i j : Nat}

def read (xs : List α) (i : Nat) : Attempt α :=
  match xs[i]? with
  | some x => pure x
  | none => throw (.position i xs.length)

def write (xs : List α) (i : Nat) (x : α) : Attempt (List α) :=
  if i < xs.length then pure (xs.set i x) else throw (.position i xs.length)

def piece (xs : List α) (start stop : Nat) : Attempt (List α) :=
  if start ≤ stop ∧ stop ≤ xs.length then pure ((xs.take stop).drop start)
  else throw (.piece start stop xs.length)

def difference (a b : Nat) : Attempt Nat :=
  if b ≤ a then pure (a - b) else throw (.difference a b)

def quotient (a b : Nat) : Attempt Nat :=
  if b = 0 then throw .division else pure (a / b)

def remainder (a b : Nat) : Attempt Nat :=
  if b = 0 then throw .division else pure (a % b)

theorem read_of_getElem? (h : xs[i]? = some x) : read xs i = pure x := by
  rw [read, h]

/-- Reading below the length of a list never fails. -/
theorem read_of_lt (h : i < xs.length) : read xs i = pure xs[i] :=
  read_of_getElem? (List.getElem?_eq_getElem h)

theorem write_of_lt (h : i < xs.length) : write xs i x = pure (xs.set i x) :=
  if_pos h

/-- The middle one of three pieces. -/
theorem piece_append (xs ys zs : List α) :
    piece (xs ++ ys ++ zs) xs.length (xs ++ ys).length = pure ys := by
  rw [piece, if_pos (by simp), List.take_left, List.drop_left]

theorem difference_of_le {a b : Nat} (h : b ≤ a) : difference a b = pure (a - b) :=
  if_pos h

theorem quotient_of_pos {a b : Nat} (h : 0 < b) : quotient a b = pure (a / b) :=
  if_neg (Nat.ne_of_gt h)

theorem remainder_of_pos {a b : Nat} (h : 0 < b) : remainder a b = pure (a % b) :=
  if_neg (Nat.ne_of_gt h)

/-- A computation that does not fail hands its result on. -/
theorem bind_of_eq_pure {attempt : Attempt α} {a : α} (h : attempt = pure a)
    (next : α → Attempt β) : attempt >>= next = next a := by
  rw [h, pure_bind]

/-! ### Loops -/

/-- A loop whose every step is safe is safe. -/
theorem foldlM_eq_pure {step : β → α → Attempt β} {next : β → α → β}
    (h : ∀ b a, step b a = pure (next b a)) (b : β) (xs : List α) :
    xs.foldlM step b = pure (xs.foldl next b) := by
  rw [show step = fun b a => pure (next b a) from funext₂ h, List.foldlM_pure]

/-- A loop whose every step keeps in touch with that of another loop does so to the end. -/
theorem foldlM_simulates {R : β → γ → Prop} {step : β → α → Attempt β} {next : γ → α → γ}
    (h : ∀ {b c} a, R b c → ∃ b', step b a = pure b' ∧ R b' (next c a)) {b : β} {c : γ}
    (hbc : R b c) (xs : List α) :
    ∃ b', xs.foldlM step b = pure b' ∧ R b' (xs.foldl next c) := by
  induction xs generalizing b c with
  | nil => exact ⟨b, rfl, hbc⟩
  | cons a xs ih =>
      obtain ⟨b', hstep, hbc'⟩ := h a hbc
      rw [List.foldlM_cons, hstep, pure_bind]
      exact ih hbc'

/-- A loop over a list with its positions is always in the state that belongs to what it has gone
through, if every step leads on to the next such state. -/
theorem foldlM_zipIdx_eq_pure (step : β → α × Nat → Attempt β) (state : List α → β)
    {xs : List α}
    (h : ∀ {before a after}, xs = before ++ a :: after →
      step (state before) (a, before.length) = pure (state (before ++ [a]))) :
    xs.zipIdx.foldlM step (state []) = pure (state xs) := by
  suffices hrest : ∀ before after, xs = before ++ after →
      (after.zipIdx before.length).foldlM step (state before) = pure (state xs) from
    hrest [] xs rfl
  intro before after hxs
  induction after generalizing before with
  | nil => rw [hxs, List.append_nil]; rfl
  | cons a after ih =>
      have hnext := ih (before ++ [a]) (by rw [hxs, List.append_assoc]; rfl)
      rw [List.length_append, List.length_singleton] at hnext
      rw [List.zipIdx_cons, List.foldlM_cons, h hxs, pure_bind, hnext]

/-- Going through what some elements stand for, past those that stand for nothing. -/
theorem foldl_filterMap_elim (heard? : α → Option β) (next : γ → β → γ) (c : γ) (xs : List α) :
    (xs.filterMap heard?).foldl next c =
      xs.foldl (fun c a => (heard? a).elim c (next c)) c := by
  rw [List.foldl_filterMap]
  congr
  funext c a
  cases heard? a <;> rfl

/-- A search whose every try is safe is safe. -/
theorem findSomeM?_eq_pure {attempt : α → Attempt (Option β)} {found? : α → Option β}
    (h : ∀ a, attempt a = pure (found? a)) (xs : List α) :
    xs.findSomeM? attempt = pure (xs.findSome? found?) := by
  rw [show attempt = fun a => pure (found? a) from funext h, List.findSomeM?_pure]

/-- Steps that are safe one by one are safe one after the other. -/
theorem mapM_eq_pure {attempt : α → Attempt β} {xs : List α} {ys : List β}
    (h : List.Forall₂ (fun x y => attempt x = pure y) xs ys) : xs.mapM attempt = pure ys := by
  induction h with
  | nil => rfl
  | cons hx _ ih => rw [List.mapM_cons, hx, pure_bind, ih, pure_bind]

end Whiteboard.Checked
