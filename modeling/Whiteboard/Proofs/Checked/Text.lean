import Whiteboard.Proofs.Checked.Basic
import Whiteboard.Proofs.Text.Line

/-!
Cutting a text by the number of its bytes.

A character takes up to four bytes, so an offset may fall inside one. The offsets at which header
lines, keywords and quotes are cut never do: each is the size of what stands before the cut
(`cutAt?_append`).
-/

namespace Whiteboard.Checked

open Text

variable {cs p q line keyword : List Char} {offset : Nat} {c : Char}

/-! ### Offsets -/

def byteSize : List Char → Nat
  | [] => 0
  | c :: cs => c.utf8Size + byteSize cs

@[simp] theorem byteSize_nil : byteSize [] = 0 := rfl

@[simp] theorem byteSize_cons (c : Char) (cs : List Char) :
    byteSize (c :: cs) = c.utf8Size + byteSize cs := rfl

@[simp] theorem byteSize_append (p q : List Char) :
    byteSize (p ++ q) = byteSize p + byteSize q := by
  induction p with
  | nil => simp
  | cons c p ih => rw [List.cons_append, byteSize_cons, ih, byteSize_cons, Nat.add_assoc]

/-- The two parts of a text around an offset, unless it falls inside a character or behind the
text. -/
def cutAt? : (offset : Nat) → List Char → Option (List Char × List Char)
  | 0, cs => some ([], cs)
  | _ + 1, [] => none
  | offset + 1, c :: cs =>
    if offset + 1 < c.utf8Size then none
    else (cutAt? (offset + 1 - c.utf8Size) cs).map fun (p, q) => (c :: p, q)

/-- A text is cut at the size of what stands before the cut. -/
theorem cutAt?_append (p q : List Char) : cutAt? (byteSize p) (p ++ q) = some (p, q) := by
  induction p with
  | nil => simp [cutAt?]
  | cons c p ih =>
      have hpos := c.utf8Size_pos
      obtain ⟨offset, hoffset⟩ : ∃ offset, byteSize (c :: p) = offset + 1 :=
        ⟨c.utf8Size - 1 + byteSize p, by simp; omega⟩
      have hrest : offset + 1 - c.utf8Size = byteSize p := by
        rw [← hoffset]
        simp
      rw [hoffset, List.cons_append, cutAt?, if_neg (by rw [← hoffset]; simp), hrest, ih]
      rfl

/-- A text that is cut at an offset is its two parts, of which the first has that size. -/
theorem eq_append_of_cutAt? (h : cutAt? offset cs = some (p, q)) :
    cs = p ++ q ∧ byteSize p = offset := by
  induction cs generalizing offset p with
  | nil =>
      cases offset with
      | zero => cases h; simp
      | succ offset => cases h
  | cons c cs ih =>
      cases offset with
      | zero => cases h; simp
      | succ offset =>
          rw [cutAt?] at h
          split at h
          · cases h
          next hle =>
            obtain ⟨⟨p, q⟩, hcut, hpq⟩ := Option.map_eq_some_iff.mp h
            cases hpq
            obtain ⟨rfl, hsize⟩ := ih hcut
            refine ⟨rfl, ?_⟩
            rw [byteSize_cons, hsize]
            omega

/-- The two parts of a text around an offset that must fall between two characters. -/
def cutAt (offset : Nat) (cs : List Char) : Attempt (List Char × List Char) :=
  match cutAt? offset cs with
  | some parts => pure parts
  | none => throw (.character offset)

/-- A text can be cut at the offset of any of its parts. -/
theorem cutAt_append (p q : List Char) : cutAt (byteSize p) (p ++ q) = pure (p, q) := by
  rw [cutAt, cutAt?_append]

/-! ### Header lines -/

def offsetOf? (p : Char → Bool) : List Char → Option Nat
  | [] => none
  | c :: cs => if p c then some 0 else (offsetOf? p cs).map (c.utf8Size + ·)

/-- The offset of a character is the size of what stands in front of it. -/
theorem offsetOf?_getD (p : Char → Bool) (cs : List Char) :
    (offsetOf? p cs).getD (byteSize cs) = byteSize (cs.takeWhile (!p ·)) := by
  induction cs with
  | nil => rfl
  | cons c cs ih =>
      by_cases hc : p c = true
      · simp [offsetOf?, hc]
      · rw [offsetOf?, if_neg hc, List.takeWhile_cons_of_pos (by simpa using hc), byteSize_cons,
          byteSize_cons, ← ih]
        cases offsetOf? p cs <;> rfl

def splitHeader (line : List Char) : Attempt (List Char × List Char) := do
  let stop := (offsetOf? endsKeyword line).getD (byteSize line)
  let (keyword, rest) ← cutAt stop line
  pure (keyword, rest.dropWhile endsKeyword)

theorem splitHeader_eq (line : List Char) : splitHeader line = pure (Text.splitHeader line) := by
  have hcut := cutAt_append (line.takeWhile (!endsKeyword ·)) (line.dropWhile (!endsKeyword ·))
  rw [List.takeWhile_append_dropWhile] at hcut
  rw [splitHeader, offsetOf?_getD, hcut, Text.splitHeader, drop_length_takeWhile]
  rfl

/-! ### Keywords -/

/-- What stands behind a keyword. The line is cut behind the keyword only if it can be, and then
again to get at the rest. -/
def stripKeyword? (keyword line : List Char) : Attempt (Option (List Char)) :=
  match cutAt? (byteSize keyword) line with
  | none => pure none
  | some (head, _) =>
    if sameLetters head keyword then do
      let (_, rest) ← cutAt (byteSize keyword) line
      pure (if rest.isEmpty || rest.head?.any isBlank then some (trim rest) else none)
    else pure none

theorem utf8Size_eq_one (h : c.toNat ≤ 127) : c.utf8Size = 1 :=
  Char.utf8Size_eq_one_iff.mpr (UInt32.le_iff_toNat_le.mpr h)

theorem utf8Size_toLower (c : Char) : c.toLower.utf8Size = c.utf8Size := by
  rcases toLower_cases c with ⟨-, hhi, hlower⟩ | h
  · rw [utf8Size_eq_one (c := c) (by omega), utf8Size_eq_one (by omega)]
  · rw [h]

/-- The case of Latin letters does not change offsets. -/
theorem byteSize_lower (cs : List Char) : byteSize (lower cs) = byteSize cs := by
  induction cs with
  | nil => rfl
  | cons c cs ih =>
      rw [lower] at ih ⊢
      rw [List.map_cons, byteSize_cons, byteSize_cons, ih, utf8Size_toLower]

/-- Texts that differ in the case of Latin letters have the same size. -/
theorem byteSize_of_sameLetters (h : sameLetters p q = true) : byteSize p = byteSize q := by
  have hlower : lower p = lower q := by simpa [sameLetters] using h
  rw [← byteSize_lower p, hlower, byteSize_lower]

theorem length_of_sameLetters (h : sameLetters p q = true) : p.length = q.length := by
  have hlower : lower p = lower q := by simpa [sameLetters] using h
  simpa [lower] using congrArg List.length hlower

/-- A line that opens with a keyword can be cut behind it: letters take one byte in either case. -/
theorem cutAt?_of_sameLetters (h : sameLetters (line.take keyword.length) keyword = true) :
    cutAt? (byteSize keyword) line =
      some (line.take keyword.length, line.drop keyword.length) := by
  have hcut := cutAt?_append (line.take keyword.length) (line.drop keyword.length)
  rwa [List.take_append_drop, byteSize_of_sameLetters h] at hcut

/-- A keyword is cut off without an overrun, as the text it equals is of its size. -/
theorem stripKeyword?_eq (keyword line : List Char) :
    stripKeyword? keyword line = pure (Text.stripKeyword? keyword line) := by
  by_cases h : sameLetters (line.take keyword.length) keyword = true
  · simp [stripKeyword?, Text.stripKeyword?, cutAt, cutAt?_of_sameLetters h, h]
  · have hnone : Text.stripKeyword? keyword line = none := by
      simp [Text.stripKeyword?, h]
    rw [hnone]
    unfold stripKeyword?
    split
    · rfl
    next head rest hcut =>
      refine if_neg fun hhead => h ?_
      obtain ⟨rfl, -⟩ := eq_append_of_cutAt? hcut
      rwa [← length_of_sameLetters hhead, List.take_left]

/-! ### Quotes -/

def unquoteWith? (q : Char) (cs : List Char) : Attempt (Option (List Char)) :=
  if 2 ≤ byteSize cs ∧ cs.head? = some q ∧ cs.getLast? = some q then do
    let stop ← difference (byteSize cs) 1
    let (front, _) ← cutAt stop cs
    let (_, middle) ← cutAt 1 front
    pure (some middle)
  else pure none

def unquote (cs : List Char) : Attempt (List Char) := do
  let cs := trim cs
  match ← unquoteWith? '"' cs with
  | some text => pure text
  | none => return (← unquoteWith? '\'' cs).getD cs

/-- Two bytes with a quote of one byte in front are two characters. -/
theorem two_le_length {q : Char} (hq : q.utf8Size = 1) (hhead : cs.head? = some q)
    (hsize : 2 ≤ byteSize cs) : 2 ≤ cs.length := by
  match cs with
  | [] => cases hhead
  | [c] =>
      cases hhead
      simp [hq] at hsize
  | c :: d :: cs => simp

/-- A quote takes one byte, so what stands between two quotes is cut out between characters. -/
theorem unquoteWith?_eq {q : Char} (hq : q.utf8Size = 1) (cs : List Char) :
    unquoteWith? q cs = pure (Text.unquoteWith? q cs) := by
  by_cases h : ∃ inner, cs = q :: inner ++ [q]
  · obtain ⟨inner, rfl⟩ := h
    have hsize : byteSize (q :: inner ++ [q]) = byteSize (q :: inner) + 1 := by
      simp [hq]
      omega
    have hstop : 1 ≤ byteSize (q :: inner) := by
      simp [hq]
    have hfront : cutAt 1 (q :: inner) = pure ([q], inner) := by
      simpa [hq] using cutAt_append [q] inner
    rw [unquoteWith?, if_pos ⟨by omega, rfl, by simp [List.getLast?_cons]⟩, hsize,
      difference_of_le (by omega), Nat.add_sub_cancel, pure_bind, cutAt_append, pure_bind]
    simp [hfront, Text.unquoteWith?, List.getLast?_cons]
  · have hnone : Text.unquoteWith? q cs = none :=
      unquoteWith?_eq_none_iff.mpr fun inner heq => h ⟨inner, heq⟩
    rw [hnone, unquoteWith?, if_neg]
    rintro ⟨hsize, hhead, hlast⟩
    simp [Text.unquoteWith?, two_le_length hq hhead hsize, hhead, hlast] at hnone

theorem unquote_eq (cs : List Char) : unquote cs = pure (Text.unquote cs) := by
  rw [unquote, unquoteWith?_eq (by decide), unquoteWith?_eq (by decide), Text.unquote]
  simp only [pure_bind]
  cases Text.unquoteWith? '"' (trim cs) <;> rfl

end Whiteboard.Checked
