import Mathlib.Data.List.DropRight
import Mathlib.Data.List.Induction
import Whiteboard.Text.Blank

/-!
What trimming leaves of a text.

A trimmed text stands inside the text it was taken from (`trim_isInfix`), and a text is trimmed
exactly if there is a blank at neither end (`trim_eq_self_iff`); so trimming twice is trimming once
(`trim_trim`), and what stands between two trimmed texts does not matter (`trim_append`). Blanks put
at an end change nothing (`trim_cons`, `trim_concat`).
-/

namespace Whiteboard.Text

/-- There are no blanks among the characters from the first digit to the last letter. -/
theorem isBlank_of_toNat {c : Char} (hlo : 48 ≤ c.toNat) (hhi : c.toNat ≤ 122) :
    isBlank c = false := by
  change 48 ≤ c.val.toNat at hlo
  change c.val.toNat ≤ 122 at hhi
  simp only [isBlank, Bool.or_eq_false_iff, Bool.and_eq_false_iff, decide_eq_false_iff_not,
    beq_eq_false_iff_ne, ne_eq, Char.le_def, Char.ext_iff, Char.reduceVal, UInt32.le_iff_toNat_le,
    ← UInt32.toNat_inj, UInt32.reduceToNat]
  omega

/-- Letters and digits are no blanks. -/
theorem isBlank_of_isAlphanum {c : Char} (h : c.isAlphanum = true) : isBlank c = false := by
  have hrange : 48 ≤ c.val.toNat ∧ c.val.toNat ≤ 122 := by
    delta Char.isAlphanum Char.isAlpha Char.isUpper Char.isLower Char.isDigit at h
    simp only [Bool.or_eq_true, Bool.and_eq_true, decide_eq_true_eq, ge_iff_le, Char.reduceVal,
      UInt32.le_iff_toNat_le, UInt32.reduceToNat] at h
    omega
  exact isBlank_of_toNat hrange.1 hrange.2

/-- A character is a capital and becomes the letter 32 places on, or it stays. -/
theorem toLower_cases (c : Char) :
    (65 ≤ c.toNat ∧ c.toNat ≤ 90 ∧ c.toLower.toNat = c.toNat + 32) ∨ c.toLower = c := by
  unfold Char.toLower
  split
  · rename_i h
    left
    simp only [ge_iff_le, Char.reduceVal, UInt32.le_iff_toNat_le, UInt32.reduceToNat] at h
    refine ⟨h.1, h.2, ?_⟩
    change (c.val + 32).toNat = c.val.toNat + 32
    simp only [UInt32.toNat_add, UInt32.reduceToNat]
    omega
  · exact .inr rfl

/-- The case of a letter does not matter to what is a blank. -/
theorem isBlank_toLower (c : Char) : isBlank c.toLower = isBlank c := by
  rcases toLower_cases c with ⟨hlo, hhi, hlower⟩ | h
  · rw [isBlank_of_toNat (c := c) (by omega) (by omega), isBlank_of_toNat (by omega) (by omega)]
  · rw [h]

/-- A text is trimmed at its front if it begins with no blank. -/
theorem trimStart_eq_self_iff {cs : List Char} :
    trimStart cs = cs ↔ ∀ c ∈ cs.head?, isBlank c = false := by
  rw [trimStart, List.dropWhile_eq_self_iff]
  cases cs with
  | nil => simp
  | cons c cs => simp

/-- A text is trimmed at its end if it ends with no blank. -/
theorem trimEnd_eq_self_iff {cs : List Char} :
    trimEnd cs = cs ↔ ∀ c ∈ cs.getLast?, isBlank c = false := by
  rw [← List.head?_reverse, ← trimStart_eq_self_iff, trimEnd, List.reverse_eq_iff, trimStart]

theorem trimEnd_isPrefix (cs : List Char) : trimEnd cs <+: cs :=
  List.rdropWhile_prefix isBlank cs

theorem trim_isInfix (cs : List Char) : trim cs <:+: cs :=
  (trimEnd_isPrefix _).isInfix.trans (List.dropWhile_suffix isBlank).isInfix

/-- What is left after the blanks at the front begins with no blank, however much is left. -/
theorem head?_of_prefix_trimStart {cs start : List Char} (h : start <+: trimStart cs) :
    ∀ c ∈ start.head?, isBlank c = false := by
  intro c hc
  obtain ⟨rest, hrest⟩ := h
  have hidem : trimStart (trimStart cs) = trimStart cs := List.dropWhile_idempotent isBlank cs
  refine trimStart_eq_self_iff.mp hidem c ?_
  rw [← hrest, List.head?_append, Option.mem_def.mp hc]
  rfl

/-- A text is trimmed if there is a blank at neither end. -/
theorem trim_eq_self_iff {cs : List Char} :
    trim cs = cs ↔
      (∀ c ∈ cs.head?, isBlank c = false) ∧ ∀ c ∈ cs.getLast?, isBlank c = false := by
  constructor
  · intro h
    have hstart : trimStart cs = cs := by
      apply (List.dropWhile_suffix isBlank).eq_of_length_le
      calc
        cs.length = (trim cs).length := by rw [h]
        _ ≤ (trimStart cs).length := length_trimEnd_le _
    rw [trim, hstart] at h
    exact ⟨trimStart_eq_self_iff.mp hstart, trimEnd_eq_self_iff.mp h⟩
  · rintro ⟨hhead, hlast⟩
    rw [trim, trimStart_eq_self_iff.mpr hhead, trimEnd_eq_self_iff.mpr hlast]

/-- Trimming twice is trimming once. -/
@[simp] theorem trim_trim (cs : List Char) : trim (trim cs) = trim cs := by
  rw [trim_eq_self_iff]
  refine ⟨head?_of_prefix_trimStart (trimEnd_isPrefix _), ?_⟩
  exact trimEnd_eq_self_iff.mp (List.rdropWhile_idempotent isBlank (trimStart cs))

/-- A text ends in no blank if none of its parts does. -/
theorem isBlank_getLast?_append {a b : List Char} (ha : ∀ c ∈ a.getLast?, isBlank c = false)
    (hb : ∀ c ∈ b.getLast?, isBlank c = false) : ∀ c ∈ (a ++ b).getLast?, isBlank c = false := by
  intro c hc
  rw [List.getLast?_append, Option.mem_def, Option.or_eq_some_iff] at hc
  rcases hc with hc | ⟨-, hc⟩
  · exact hb c hc
  · exact ha c hc

theorem isBlank_getLast?_flatMap {α : Type} {f : α → List Char} {l : List α}
    (h : ∀ a ∈ l, ∀ c ∈ (f a).getLast?, isBlank c = false) :
    ∀ c ∈ (l.flatMap f).getLast?, isBlank c = false := by
  induction l with
  | nil =>
      intro c hc
      cases hc
  | cons a l ih =>
      rw [List.forall_mem_cons] at h
      rw [List.flatMap_cons]
      exact isBlank_getLast?_append h.1 (ih h.2)

/-- A text is trimmed if a trimmed text begins it and another ends it. -/
theorem trim_append {a b : List Char} (ha : trim a = a) (ha' : a ≠ []) (hb : trim b = b)
    (hb' : b ≠ []) (middle : List Char) : trim (a ++ (middle ++ b)) = a ++ (middle ++ b) := by
  rw [trim_eq_self_iff] at ha hb ⊢
  constructor
  · rw [List.head?_append_of_ne_nil a ha']
    exact ha.1
  · rw [← List.append_assoc, List.getLast?_append_of_ne_nil _ hb']
    exact hb.2

/-! ### Blanks at the ends -/

theorem trim_cons {c : Char} (h : isBlank c = true) (cs : List Char) :
    trim (c :: cs) = trim cs := by
  rw [trim, trimStart, List.dropWhile_cons_of_pos h, trim, trimStart]

theorem trim_append_left {gap : List Char} (h : ∀ c ∈ gap, isBlank c = true) (cs : List Char) :
    trim (gap ++ cs) = trim cs := by
  rw [trim, trimStart, List.dropWhile_append_of_pos h, trim, trimStart]

/-- Something is left of a text that does not end in a blank. -/
theorem trimStart_ne_nil {cs : List Char} (hne : cs ≠ [])
    (hlast : ∀ c ∈ cs.getLast?, isBlank c = false) : trimStart cs ≠ [] := by
  intro hnil
  have hblank := List.dropWhile_eq_nil_iff.mp hnil _ (List.getLast_mem hne)
  rw [hlast _ (List.getLast?_eq_some_getLast hne)] at hblank
  cases hblank

/-- Trimming the front of a text that is not blank does not reach what stands behind it. -/
theorem trimStart_append {cs : List Char} (h : trimStart cs ≠ []) (rest : List Char) :
    trimStart (cs ++ rest) = trimStart cs ++ rest := by
  rw [trimStart, List.dropWhile_append, if_neg (by simpa [trimStart] using h)]
  rfl

theorem trimEnd_concat {c : Char} (h : isBlank c = true) (cs : List Char) :
    trimEnd (cs ++ [c]) = trimEnd cs :=
  List.rdropWhile_concat_pos isBlank cs c h

theorem trim_concat {c : Char} (h : isBlank c = true) (cs : List Char) :
    trim (cs ++ [c]) = trim cs := by
  rw [trim, trim, trimStart, List.dropWhile_append]
  split
  · rename_i hempty
    have hnil : trimStart cs = [] := List.isEmpty_iff.mp hempty
    rw [hnil, List.dropWhile_cons_of_pos h]
    rfl
  · exact trimEnd_concat h _

@[simp] theorem trim_trimStart (cs : List Char) : trim (trimStart cs) = trim cs :=
  congrArg trimEnd (List.dropWhile_idempotent isBlank cs)

@[simp] theorem trim_trimEnd (cs : List Char) : trim (trimEnd cs) = trim cs := by
  induction cs using List.reverseRecOn with
  | nil => rfl
  | append_singleton cs c ih =>
      by_cases hc : isBlank c = true
      · rw [trimEnd_concat hc, trim_concat hc, ih]
      · rw [trimEnd_eq_self_iff.mpr]
        simpa using hc

end Whiteboard.Text
