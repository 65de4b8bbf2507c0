/-
Looking for a token in a text.

`strip?` takes a token off the front and `run?` the longest run of a character class; `cut?` splits
a text around the first occurrence of a token, `replaceAll` puts a text in the place of every
occurrence, found from left to right, and `firstAt?` runs a reader at each position in turn until
one succeeds.
-/

import Whiteboard.Text.Blank

namespace Whiteboard.Text

/-- What follows `token` at the front of the text, if the text starts with it. -/
def strip? : (token cs : List Char) → Option (List Char)
  | [], cs => some cs
  | _ :: _, [] => none
  | t :: token, c :: cs => if t = c then strip? token cs else none

/-- A token is at the front exactly when the text is the token and then the rest. -/
theorem strip?_eq_some {token cs rest : List Char} :
    strip? token cs = some rest ↔ cs = token ++ rest := by
  induction token generalizing cs with
  | nil => simp [strip?]
  | cons t token ih =>
    cases cs with
    | nil => simp [strip?]
    | cons c cs =>
      by_cases h : t = c
      · subst h; simp [strip?, ih]
      · have h' : ¬ c = t := fun e => h e.symm
        simp [strip?, h, h']

@[simp] theorem strip?_append (token rest : List Char) :
    strip? token (token ++ rest) = some rest :=
  strip?_eq_some.2 rfl

/-- The longest run of characters of a class at the front, if there is one, and what follows it. -/
def run? (p : Char → Bool) (cs : List Char) : Option (List Char × List Char) :=
  let run := cs.takeWhile p
  if run.isEmpty then none else some (run, cs.dropWhile p)

theorem eq_append_of_run? {p : Char → Bool} {cs run rest : List Char}
    (h : run? p cs = some (run, rest)) : cs = run ++ rest ∧ run ≠ [] := by
  simp only [run?] at h
  split at h
  · cases h
  · rename_i hr
    simp only [Option.some.injEq, Prod.mk.injEq] at h
    obtain ⟨rfl, rfl⟩ := h
    exact ⟨List.takeWhile_append_dropWhile.symm, by simpa using hr⟩

/-- The text before and the text after the first occurrence of `token`. -/
def cut? (token : List Char) : List Char → Option (List Char × List Char)
  | [] => (strip? token []).map fun rest => ([], rest)
  | c :: cs =>
    match strip? token (c :: cs) with
    | some rest => some ([], rest)
    | none => (cut? token cs).map fun (before, rest) => (c :: before, rest)

/-- Cutting loses nothing but the token itself. -/
theorem eq_append_of_cut? {token cs before rest : List Char}
    (h : cut? token cs = some (before, rest)) : cs = before ++ token ++ rest := by
  induction cs generalizing before with
  | nil =>
    simp only [cut?, Option.map_eq_some_iff, Prod.mk.injEq] at h
    obtain ⟨r, hr, rfl, rfl⟩ := h
    simpa using strip?_eq_some.1 hr
  | cons c cs ih =>
    rw [cut?] at h
    split at h
    · rename_i r hr
      simp only [Option.some.injEq, Prod.mk.injEq] at h
      obtain ⟨rfl, rfl⟩ := h
      simpa using strip?_eq_some.1 hr
    · simp only [Option.map_eq_some_iff, Prod.mk.injEq, Prod.exists] at h
      obtain ⟨b, r, hb, rfl, rfl⟩ := h
      simp [ih hb]

/-- `replaceAll` after the first `skip` characters, which belong to a token already replaced. -/
def replaceFrom (token put : List Char) : (skip : Nat) → List Char → List Char
  | _, [] => []
  | skip + 1, _ :: cs => replaceFrom token put skip cs
  | 0, c :: cs =>
    if token.isPrefixOf (c :: cs) then put ++ replaceFrom token put (token.length - 1) cs
    else c :: replaceFrom token put 0 cs

/-- The text with `put` in the place of each occurrence of the nonempty `token`, taken from left to
right without overlaps. -/
def replaceAll (token put cs : List Char) : List Char :=
  replaceFrom token put 0 cs

/-- The text before the first occurrence of `token` and the text from there on; all of it and
nothing if the token does not occur. -/
def upTo (token : List Char) : List Char → List Char × List Char
  | [] => ([], [])
  | c :: cs =>
    if token.isPrefixOf (c :: cs) then ([], c :: cs)
    else
      let (before, rest) := upTo token cs
      (c :: before, rest)

/-- A search keeps the whole text. -/
theorem eq_append_upTo (token cs : List Char) : cs = (upTo token cs).1 ++ (upTo token cs).2 := by
  induction cs with
  | nil => rfl
  | cons c cs ih =>
    unfold upTo
    split
    · rfl
    · simpa using ih

/-- The answer of `read` at the first position, the end included, where it gives one. -/
def firstAt? (read : List Char → Option α) : List Char → Option α
  | [] => read []
  | c :: cs => (read (c :: cs)).or (firstAt? read cs)

end Whiteboard.Text
