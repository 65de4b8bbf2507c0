import Whiteboard.Proofs.Text.Line

/-!
Line feeds with a carriage return in front of them.

`withReturns` puts a carriage return in front of every line feed. A reader that takes the two
characters for the same finds the same in the longer text, and leaves the longer text of what it
left before: this holds of runs (`run?_withReturns`), of tokens without the two
(`strip?_withReturns`, `cut?_withReturns`) and of the blanks in front (`trimStart_withReturns`). The
lines that count are the very same (`significantLines_withReturns`).
-/

namespace Whiteboard.Text

/-- A line feed with a carriage return in front of it, and any other character as it is. -/
def withReturn (c : Char) : List Char :=
  if c = '\n' then ['\r', '\n'] else [c]

/-- The text with a carriage return in front of every line feed. -/
def withReturns (cs : List Char) : List Char :=
  cs.flatMap withReturn

theorem withReturns_break (cs : List Char) :
    withReturns ('\n' :: cs) = '\r' :: '\n' :: withReturns cs :=
  rfl

theorem withReturns_cons {c : Char} (h : c ≠ '\n') (cs : List Char) :
    withReturns (c :: cs) = c :: withReturns cs := by
  rw [withReturns, List.flatMap_cons, withReturn, if_neg h]
  rfl

theorem withReturns_append (a b : List Char) :
    withReturns (a ++ b) = withReturns a ++ withReturns b :=
  List.flatMap_append

theorem withReturns_eq_self {cs : List Char} (h : '\n' ∉ cs) : withReturns cs = cs := by
  induction cs with
  | nil => rfl
  | cons c cs ih =>
      rw [List.mem_cons, not_or] at h
      rw [withReturns_cons (Ne.symm h.1), ih h.2]

/-! ### Classes of characters -/

section Class

variable {p : Char → Bool}

/-- A class that does not tell the two characters apart is read through both. -/
theorem takeWhile_withReturns (h : p '\r' = p '\n') (cs : List Char) :
    (withReturns cs).takeWhile p = withReturns (cs.takeWhile p) := by
  induction cs with
  | nil => rfl
  | cons c cs ih =>
      by_cases hc : c = '\n'
      · subst hc
        rw [withReturns_break, List.takeWhile_cons, List.takeWhile_cons, ih, h, List.takeWhile_cons]
        split <;> rfl
      · rw [withReturns_cons hc, List.takeWhile_cons, ih, List.takeWhile_cons]
        split
        · rw [withReturns_cons hc]
        · rfl

theorem dropWhile_withReturns (h : p '\r' = p '\n') (cs : List Char) :
    (withReturns cs).dropWhile p = withReturns (cs.dropWhile p) := by
  have hsplit : withReturns (cs.takeWhile p) ++ (withReturns cs).dropWhile p =
      withReturns (cs.takeWhile p) ++ withReturns (cs.dropWhile p) := by
    calc
      withReturns (cs.takeWhile p) ++ (withReturns cs).dropWhile p = withReturns cs := by
        rw [← takeWhile_withReturns h, List.takeWhile_append_dropWhile]
      _ = withReturns (cs.takeWhile p) ++ withReturns (cs.dropWhile p) := by
        rw [← withReturns_append, List.takeWhile_append_dropWhile]
  exact List.append_cancel_left hsplit

/-- A run without line breaks is the same run. -/
theorem run?_withReturns (hreturn : p '\r' = false) (hfeed : p '\n' = false) (cs : List Char) :
    run? p (withReturns cs) = (run? p cs).map fun (run, rest) => (run, withReturns rest) := by
  have hsame : p '\r' = p '\n' := hreturn.trans hfeed.symm
  have hrun : withReturns (cs.takeWhile p) = cs.takeWhile p := by
    apply withReturns_eq_self
    intro hmem
    rw [List.mem_takeWhile_imp hmem] at hfeed
    cases hfeed
  simp only [run?, takeWhile_withReturns hsame, dropWhile_withReturns hsame, hrun]
  split <;> rfl

end Class

theorem trimStart_withReturns (cs : List Char) :
    trimStart (withReturns cs) = withReturns (trimStart cs) :=
  dropWhile_withReturns rfl cs

/-! ### Tokens -/

section Token

variable {token : List Char}

theorem strip?_withReturns (hreturn : '\r' ∉ token) (hfeed : '\n' ∉ token) (cs : List Char) :
    strip? token (withReturns cs) = (strip? token cs).map withReturns := by
  induction token generalizing cs with
  | nil => rfl
  | cons t token ih =>
      rw [List.mem_cons, not_or] at hreturn hfeed
      cases cs with
      | nil => rfl
      | cons c cs =>
          by_cases hc : c = '\n'
          · subst hc
            rw [withReturns_break, strip?, if_neg (Ne.symm hreturn.1), strip?,
              if_neg (Ne.symm hfeed.1), Option.map_none]
          · rw [withReturns_cons hc, strip?, strip?]
            split
            · exact ih hreturn.2 hfeed.2 cs
            · rfl

/-- A token without line ends is found in the same place. -/
theorem cut?_withReturns (ht : token ≠ []) (hreturn : '\r' ∉ token) (hfeed : '\n' ∉ token)
    (cs : List Char) :
    cut? token (withReturns cs) =
      (cut? token cs).map fun (before, rest) => (withReturns before, withReturns rest) := by
  induction cs with
  | nil =>
      cases token with
      | nil => exact absurd rfl ht
      | cons t token => rfl
  | cons c cs ih =>
      by_cases hc : c = '\n'
      · subst hc
        rw [withReturns_break, cut?_cons_of_not_isPrefix (not_isPrefix_cons ht hreturn _),
          cut?_cons_of_not_isPrefix (not_isPrefix_cons ht hfeed _), ih,
          cut?_cons_of_not_isPrefix (not_isPrefix_cons ht hfeed cs)]
        simp only [Option.map_map]
        rfl
      · have hstrip := strip?_withReturns hreturn hfeed (c :: cs)
        rw [withReturns_cons hc] at hstrip ⊢
        rw [cut?, hstrip, cut?]
        cases strip? token (c :: cs) with
        | some rest => rfl
        | none =>
            simp only [Option.map_none, ih, Option.map_map]
            congr 1
            funext p
            exact congrArg (·, withReturns p.2) (withReturns_cons hc p.1).symm

end Token

/-- What a reader finds first, if it finds nothing in front of a blank. -/
theorem firstAt?_withReturns {read : List Char → Option α} {f : α → α}
    (hblank : ∀ c cs, isBlank c = true → read (c :: cs) = none)
    (hread : ∀ cs, read (withReturns cs) = (read cs).map f) (cs : List Char) :
    firstAt? read (withReturns cs) = (firstAt? read cs).map f := by
  induction cs with
  | nil => exact hread []
  | cons c cs ih =>
      by_cases hc : c = '\n'
      · subst hc
        rw [withReturns_break, firstAt?, firstAt?, firstAt?, hblank '\r' _ rfl, hblank '\n' _ rfl,
          hblank '\n' _ rfl, Option.none_or, Option.none_or, Option.none_or, ih]
      · have hhere := hread (c :: cs)
        rw [withReturns_cons hc] at hhere ⊢
        rw [firstAt?, hhere, ih, firstAt?]
        cases read (c :: cs) <;> rfl

/-! ### Lines -/

/-- Both spellings of line ends have the same lines. -/
theorem significantLines_withReturns (cs : List Char) :
    significantLines (withReturns cs) = significantLines cs := by
  induction cs using line_induction with
  | line l hl => rw [withReturns_eq_self hl]
  | more l cs hl ih =>
      have hreturn : withReturns (l ++ '\n' :: cs) = (l ++ ['\r']) ++ '\n' :: withReturns cs := by
        rw [withReturns_append, withReturns_break, withReturns_eq_self hl, List.append_assoc]
        rfl
      rw [hreturn, significantLines_append, significantLines_concat rfl, ih,
        significantLines_append]

end Whiteboard.Text
