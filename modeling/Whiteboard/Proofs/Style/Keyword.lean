import Mathlib.Data.List.Basic
import Whiteboard.Proofs.Text.Blank
import Whiteboard.Style.Resolve
import Whiteboard.Text.Line

/-!
Labels in other words and other letters.

A keyword occurs in a label if the label is cut somewhere outside a word and the keyword stands
behind the cut (`occursIn_iff`). What is written around the label moves the cut and no more: if it
meets the label outside a word, the place is outside a word still, and where the label ended with
the keyword the word ends still (`occursIn_append`). Neither the letters of a keyword nor the
borders of words depend on the case of a letter (`occursIn_eq_of_sameLetters`). So a label keeps its
category in any case, and within a longer text only a category that comes first can take its place
(`ofLabel?_embedded`).
-/

namespace Whiteboard.Keyword

open Text

variable {c : Char} {cs ds front back : List Char} {k : Keyword}

/-! ### Where a keyword stands -/

/-- The place behind a text is outside a word, if the place in front of it is as told. -/
def endsOutside (inWord : Bool) (front : List Char) : Bool :=
  !front.getLast?.elim inWord isWord

theorem endsOutside_cons (inWord : Bool) (c : Char) (front : List Char) :
    endsOutside inWord (c :: front) = endsOutside (isWord c) front := by
  cases front with
  | nil => rfl
  | cons d front => rw [endsOutside, endsOutside, List.getLast?_cons_cons]; rfl

/-- The search finds a keyword wherever one stands. -/
theorem standsIn_iff {inWord : Bool} :
    k.standsIn inWord cs = true ↔
      ∃ front back, cs = front ++ back ∧ endsOutside inWord front = true ∧
        k.standsAt back = true := by
  induction cs generalizing inWord with
  | nil => simp [standsIn, endsOutside]
  | cons c cs ih =>
      rw [standsIn, Bool.or_eq_true, Bool.and_eq_true, ih]
      constructor
      · rintro (⟨hout, hk⟩ | ⟨front, back, rfl, hout, hk⟩)
        · exact ⟨[], c :: cs, rfl, hout, hk⟩
        · exact ⟨c :: front, back, rfl, by rwa [endsOutside_cons], hk⟩
      · rintro ⟨front, back, hcs, hout, hk⟩
        cases front with
        | nil => exact .inl ⟨hout, hcs ▸ hk⟩
        | cons d front =>
            obtain ⟨rfl, rfl⟩ := List.cons.inj hcs
            exact .inr ⟨front, back, rfl, by rwa [endsOutside_cons] at hout, hk⟩

/-- A keyword occurs where it begins outside a word and stands. -/
theorem occursIn_iff :
    k.occursIn cs = true ↔
      ∃ front back, cs = front ++ back ∧ endsOutside false front = true ∧
        k.standsAt back = true :=
  standsIn_iff

/-! ### Around a label -/

theorem after?_append {letters rest : List Char} (h : after? letters cs = some rest)
    (back : List Char) : after? letters (cs ++ back) = some (rest ++ back) := by
  induction letters generalizing cs with
  | nil =>
      cases h
      rfl
  | cons l letters ih =>
      cases cs with
      | nil => cases h
      | cons c cs =>
          rw [after?] at h
          split at h
          · rename_i hreads
            rw [List.cons_append, after?, if_pos hreads, ih h]
          · cases h

theorem startsInWord_append (hback : ∀ c ∈ back.head?, isWord c = false)
    (h : startsInWord cs = false) : startsInWord (cs ++ back) = false := by
  cases cs with
  | nil =>
      cases back with
      | nil => rfl
      | cons d back => exact hback d rfl
  | cons c cs => exact h

/-- A whole keyword must not go on in a word, a stem may. -/
theorem standsAt_iff :
    k.standsAt cs = true ↔
      ∃ rest, after? k.letters cs = some rest ∧ ∀ w, k = whole w → startsInWord rest = false := by
  unfold standsAt
  cases after? k.letters cs with
  | none => simp
  | some rest => cases k <;> simp

/-- A keyword stands as well in front of something that does not go on with a word. -/
theorem standsAt_append (hback : ∀ c ∈ back.head?, isWord c = false)
    (h : k.standsAt cs = true) : k.standsAt (cs ++ back) = true := by
  obtain ⟨rest, hrest, hends⟩ := standsAt_iff.mp h
  exact standsAt_iff.mpr
    ⟨rest ++ back, after?_append hrest back, fun w hw => startsInWord_append hback (hends w hw)⟩

/-- What stands further in front does not matter to the place behind a text. -/
theorem endsOutside_append (hfront : ∀ c ∈ front.getLast?, isWord c = false)
    (h : endsOutside false cs = true) : endsOutside false (front ++ cs) = true := by
  cases cs using List.reverseRecOn with
  | nil =>
      rw [List.append_nil, endsOutside]
      cases hlast : front.getLast? with
      | none => rfl
      | some d => rw [Option.elim_some, hfront d hlast]; rfl
  | append_singleton cs c =>
      rw [endsOutside, List.getLast?_concat] at h
      rwa [← List.append_assoc, endsOutside, List.getLast?_concat]

/-- A keyword in a label occurs as well in a text that the label is a part of, if no word goes over
the two places where they meet. -/
theorem occursIn_append (hfront : ∀ c ∈ front.getLast?, isWord c = false)
    (hback : ∀ c ∈ back.head?, isWord c = false) (h : k.occursIn cs = true) :
    k.occursIn (front ++ cs ++ back) = true := by
  obtain ⟨before, rest, rfl, hout, hk⟩ := occursIn_iff.mp h
  refine occursIn_iff.mpr ⟨front ++ before, rest ++ back, by simp only [List.append_assoc], ?_, ?_⟩
  · exact endsOutside_append hfront hout
  · exact standsAt_append hback hk

/-! ### The case of letters -/

theorem toLower_eq_self (h : 90 < c.toNat) : c.toLower = c := by
  rcases toLower_cases c with ⟨-, hle, -⟩ | h
  · omega
  · exact h

/-- A character in one of the ranges is a word character. -/
theorem isWord_of_mem {lo hi : Nat} (hrange : (lo, hi) ∈ wordRanges.list) (hlo : lo ≤ c.toNat)
    (hhi : c.toNat ≤ hi) : isWord c = true := by
  rw [isWord, Ranges.has_eq_any, List.any_eq_true]
  exact ⟨(lo, hi), hrange, by simp [hlo, hhi]⟩

/-- A letter and its capital are both word characters. -/
theorem isWord_toLower (c : Char) : isWord c.toLower = isWord c := by
  rcases toLower_cases c with ⟨hlo, hhi, hlower⟩ | h
  · have hcapital : (65, 90) ∈ wordRanges.list := by decide
    have hsmall : (97, 122) ∈ wordRanges.list := by decide
    rw [isWord_of_mem hcapital hlo hhi, isWord_of_mem hsmall (by omega) (by omega)]
  · rw [h]

theorem readsAs_toLower (l c : Char) : readsAs l c.toLower = readsAs l c := by
  rcases toLower_cases c with ⟨hlo, hhi, hlower⟩ | h
  · have hne : ∀ {d e : Char}, d.toNat < 128 → 128 ≤ e.toNat → (d == e) = false := by
      intro d e hd he
      rw [beq_eq_false_iff_ne]
      rintro rfl
      omega
    simp only [readsAs, toLower_eq_self (c := c.toLower) (by omega),
      hne (d := c) (e := '\u017f') (by omega) (by decide),
      hne (d := c) (e := '\u212a') (by omega) (by decide),
      hne (d := c.toLower) (e := '\u017f') (by omega) (by decide),
      hne (d := c.toLower) (e := '\u212a') (by omega) (by decide)]
  · rw [h]

theorem after?_lower (letters cs : List Char) :
    after? letters (lower cs) = (after? letters cs).map lower := by
  induction letters generalizing cs with
  | nil => rfl
  | cons l letters ih =>
      cases cs with
      | nil => rfl
      | cons c cs =>
          have hcons : lower (c :: cs) = c.toLower :: lower cs := rfl
          rw [hcons, after?, after?, readsAs_toLower, ih]
          split <;> rfl

theorem startsInWord_lower (cs : List Char) : startsInWord (lower cs) = startsInWord cs := by
  cases cs with
  | nil => rfl
  | cons c cs => exact isWord_toLower c

/-- A keyword stands in a text whatever the case of its letters. -/
theorem standsAt_lower (k : Keyword) (cs : List Char) : k.standsAt (lower cs) = k.standsAt cs := by
  unfold standsAt
  rw [after?_lower]
  cases after? k.letters cs with
  | none => rfl
  | some rest => cases k <;> simp [startsInWord_lower]

theorem standsIn_lower (k : Keyword) (inWord : Bool) (cs : List Char) :
    k.standsIn inWord (lower cs) = k.standsIn inWord cs := by
  induction cs generalizing inWord with
  | nil => rfl
  | cons c cs ih =>
      have hcons : lower (c :: cs) = c.toLower :: lower cs := rfl
      rw [hcons, standsIn, ← hcons, standsAt_lower, ih, isWord_toLower, standsIn]

/-- Whether a keyword occurs in a label does not depend on the case of letters. -/
theorem occursIn_eq_of_sameLetters (h : sameLetters cs ds = true) (k : Keyword) :
    k.occursIn cs = k.occursIn ds := by
  rw [occursIn, occursIn, ← standsIn_lower k false cs, ← standsIn_lower k false ds, beq_iff_eq.mp h]

end Whiteboard.Keyword

namespace Whiteboard.Category

open Text

/-- A search with a weaker condition stops no later. -/
theorem exists_find?_of_imp {α : Type} [DecidableEq α] {p q : α → Bool} {xs : List α} {x : α}
    (himp : ∀ y, p y = true → q y = true) (h : xs.find? p = some x) :
    ∃ y, xs.find? q = some y ∧ xs.idxOf y ≤ xs.idxOf x := by
  induction xs with
  | nil => cases h
  | cons a xs ih =>
      by_cases hq : q a = true
      · exact ⟨a, List.find?_cons_of_pos hq, by simp⟩
      · have hp : ¬ p a = true := fun hp => hq (himp a hp)
        rw [List.find?_cons_of_neg hp] at h
        obtain ⟨y, hy, hle⟩ := ih h
        have hay : a ≠ y := by
          rintro rfl
          exact hq (List.find?_some hy)
        have hax : a ≠ x := by
          rintro rfl
          exact hp (List.find?_some h)
        refine ⟨y, by rw [List.find?_cons_of_neg hq, hy], ?_⟩
        rw [List.idxOf_cons_ne xs hay, List.idxOf_cons_ne xs hax]
        exact Nat.succ_le_succ hle

/-- A label has the category of every label with the same letters, in any case. Within a longer text
that it meets outside a word, it has that category still, or one that comes before it. -/
theorem ofLabel?_embedded (label label' : String)
    (h : sameLetters label'.toList label.toList = true) :
    ofLabel? label' = ofLabel? label ∧
      ∀ front back : String,
        (∀ c ∈ front.toList.getLast?, isWord c = false) →
        (∀ c ∈ back.toList.head?, isWord c = false) →
        ∀ category, ofLabel? label = some category →
          ∃ category', ofLabel? (front ++ label' ++ back) = some category' ∧
            all.idxOf category' ≤ all.idxOf category := by
  have hsame : ofLabel? label' = ofLabel? label := by
    simp only [ofLabel?, Keyword.occursIn_eq_of_sameLetters h]
  refine ⟨hsame, fun front back hfront hback category hcategory => ?_⟩
  rw [← hsame] at hcategory
  refine exists_find?_of_imp (fun c hc => ?_) hcategory
  obtain ⟨k, hk, hoccurs⟩ := List.any_eq_true.mp hc
  refine List.any_eq_true.mpr ⟨k, hk, ?_⟩
  rw [String.toList_append, String.toList_append]
  exact Keyword.occursIn_append hfront hback hoccurs

/-- Within a longer text an earlier category takes the place of the one that a label has, here in
other letters. -/
theorem eventBus_embedded :
    sameLetters "EVENT Bu\u017f".toList "event bu\u017f".toList = true ∧
      ofLabel? "event bu\u017f" = some .queue ∧ ofLabel? "EVENT Bu\u017f" = some .queue ∧
      ∃ category, ofLabel? ("SQL/" ++ "EVENT Bu\u017f" ++ ".") = some category ∧
        all.idxOf category ≤ all.idxOf queue := by
  have hsame : sameLetters "EVENT Bu\u017f".toList "event bu\u017f".toList = true := by
    decide +kernel
  have hlabel : ofLabel? "event bu\u017f" = some .queue := by decide +kernel
  have hfront : ∀ c ∈ "SQL/".toList.getLast?, isWord c = false := by
    rintro c ⟨⟩
    decide +kernel
  have hback : ∀ c ∈ ".".toList.head?, isWord c = false := by
    rintro c ⟨⟩
    decide +kernel
  obtain ⟨hcase, hembedded⟩ := ofLabel?_embedded "event bu\u017f" "EVENT Bu\u017f" hsame
  exact ⟨hsame, hlabel, hcase.trans hlabel, hembedded "SQL/" "." hfront hback .queue hlabel⟩

end Whiteboard.Category
