import Whiteboard.Proofs.Sequence.Written

/-!
Signs for activation.

A sign for activation directly behind an arrow is passed over: no arrow goes on with a sign
(`arrow_apart`), so the arrow is read as it is written, and the receiver is read without the sign
(`receiver?_sign`). But no blank is passed over in front of a sign. Behind a blank it begins the
name of the receiver, which is then another participant. So a sign leaves a message as it was
exactly if no blank stands in front of it (`ofLine?_signed`).
-/

namespace Whiteboard.Sequence

open Text

def signs : List Char :=
  ['+', '-']

/-- A colon with a text behind it, if there is a text. -/
def behindColon : Option (List Char) → List Char
  | none => []
  | some text => ':' :: text

def told (a : Arrow) (sender receiver text : List Char) : Statement :=
  .message
    { sender := String.ofList sender
      receiver := String.ofList receiver
      text := String.ofList (trim text)
      head := a.head
      stroke := a.stroke }

/-- Messages that are the same have the same receiver. -/
theorem receiver_eq_of_told_eq {a : Arrow} {sender receiver receiver' text : List Char}
    (h : told a sender receiver text = told a sender receiver' text) : receiver = receiver' := by
  rw [told, told, Statement.message.injEq, Message.mk.injEq] at h
  exact String.ofList_injective h.2.1

/-! ### Behind an arrow -/

/-- No arrow goes on with a sign. -/
theorem arrow_apart {sign : Char} (h : sign ∈ signs) : ∀ a ∈ arrows, ∀ b ∈ arrows,
    ¬ a.token ++ [sign] <+: b.token := by
  rcases List.mem_pair.mp h with rfl | rfl <;> decide

theorem sign_spec {sign : Char} (h : sign ∈ signs) : isBlank sign = false ∧ sign ≠ ':' ∧
    (sign == '+' || sign == '-') = true := by
  rcases List.mem_pair.mp h with rfl | rfl <;> decide

section Signed

variable {a : Arrow} {sign : Char} {sender receiver gap gap' before behind : List Char}

/-- The receiver is read without the sign in front of it. -/
theorem receiver?_sign (hsign : sign ∈ signs) (hbehind : ∀ c ∈ behind, isBlank c = true)
    (hreceiver : IsReceiver receiver) {tail text : List Char} (htail : ∀ c ∈ tail.head?, c = ':')
    (htext : text? tail = some text) :
    receiver? (sign :: (behind ++ (receiver ++ tail))) = some (behind ++ receiver, text) := by
  obtain ⟨-, hne, hdrop⟩ := sign_spec hsign
  have hcolon : ':' ∉ sign :: (behind ++ receiver) := by
    rw [List.mem_cons, List.mem_append, not_or, not_or]
    refine ⟨hne.symm, fun hc => ?_, hreceiver.colon⟩
    cases hbehind ':' hc
  have hsigned : dropSign (sign :: (behind ++ receiver)) = behind ++ receiver := by
    obtain ⟨c, cs, hcs⟩ := List.exists_cons_of_ne_nil
      (List.append_ne_nil_of_right_ne_nil behind hreceiver.ne_nil)
    rw [hcs, dropSign, if_pos hdrop]
  have hread := receiver?_append (List.cons_ne_nil _ _) hcolon htail htext
  rwa [hsigned, List.cons_append, List.append_assoc] at hread

/-- With a blank between them and the arrow, a sign and a receiver make the name of another
receiver. -/
theorem IsReceiver.signed (h : IsReceiver receiver) (hsign : sign ∈ signs)
    (hbehind : ∀ c ∈ behind, isBlank c = true) : IsReceiver (sign :: (behind ++ receiver)) where
  ne_nil := List.cons_ne_nil _ _
  trimmed := by
    rw [trim_eq_self_iff]
    constructor
    · rintro c ⟨⟩
      exact (sign_spec hsign).1
    · rw [← List.cons_append, List.getLast?_append_of_ne_nil _ h.ne_nil]
      exact (trim_eq_self_iff.mp h.trimmed).2
  colon := by
    rw [List.mem_cons, List.mem_append, not_or, not_or]
    refine ⟨(sign_spec hsign).2.1.symm, fun hc => ?_, h.colon⟩
    cases hbehind ':' hc

/-! ### Behind a colon -/

theorem trimEnd_behindColon (text : List Char) :
    trimEnd (behindColon (some text)) = ':' :: trimEnd text := by
  have hcolon : ∀ c ∈ [':'].getLast?, isBlank c = false := by
    rintro c ⟨⟩
    rfl
  exact rdropWhile_append_of_getLast? hcolon text

/-- Whatever is written behind a colon on one line is read, but for the blanks around it. -/
theorem exists_text? {text : Option (List Char)} (hline : ∀ x ∈ text, '\n' ∉ x) :
    ∃ read, text? (trimEnd (behindColon text)) = some read ∧ trim read = trim (text.getD []) ∧
      ∀ c ∈ (trimEnd (behindColon text)).head?, c = ':' := by
  cases text with
  | none => exact ⟨[], rfl, rfl, by rintro c ⟨⟩⟩
  | some x =>
      have hx : '\n' ∉ trimStart (trimEnd x) := by
        intro hmem
        have hinside := (List.dropWhile_suffix isBlank).isInfix.trans (trimEnd_isPrefix x).isInfix
        exact hline x rfl (hinside.subset hmem)
      rw [trimEnd_behindColon]
      refine ⟨trimStart (trimEnd x), ?_, by simp, by rintro c ⟨⟩; rfl⟩
      simp [text?, hx]

/-- Blanks at the end of a line do not matter. -/
theorem ofLine?_trimEnd {front : List Char} (hlast : ∀ c ∈ front.getLast?, isBlank c = false)
    (tail : List Char) :
    Statement.ofLine? (front ++ trimEnd tail) = Statement.ofLine? (front ++ tail) := by
  have htrim : trim (front ++ trimEnd tail) = trim (front ++ tail) := by
    rw [← trim_trimEnd (front ++ tail)]
    exact congrArg trim (rdropWhile_append_of_getLast? hlast tail).symm
  rw [Statement.ofLine?, htrim, Statement.ofLine?]

/-! ### Signed messages -/

section Line

variable (ha : a ∈ arrows) (hsender : IsSender sender) (hreceiver : IsReceiver receiver)
  (hgap : IsRun isBlank gap) {text : Option (List Char)} (hline : ∀ x ∈ text, '\n' ∉ x)

include ha hsender hreceiver hgap hline

/-- Behind a blank, a sign belongs to the receiver. -/
theorem ofLine?_spaced (hgap' : IsRun isBlank gap') :
    Statement.ofLine? (sender ++ gap ++ a.token ++ gap' ++ receiver ++ behindColon text) =
      some (told a sender receiver (text.getD [])) := by
  obtain ⟨read, htext, htrim, hcolon⟩ := exists_text? hline
  have hfront : ∀ c ∈ (sender ++ gap ++ a.token ++ gap' ++ receiver).getLast?,
      isBlank c = false := by
    rw [List.getLast?_append_of_ne_nil _ hreceiver.ne_nil]
    exact (trim_eq_self_iff.mp hreceiver.trimmed).2
  have hend := trimEnd_eq_self_iff.mp (List.rdropWhile_idempotent isBlank (behindColon text))
  rw [← ofLine?_trimEnd hfront, ofLine?_tail ha hsender hreceiver hgap hgap' hcolon hend htext,
    htrim, told]

/-- Right behind the arrow, a sign is dropped. -/
theorem ofLine?_attached (hsign : sign ∈ signs) (hbehind : ∀ c ∈ behind, isBlank c = true) :
    Statement.ofLine?
        (sender ++ gap ++ a.token ++ [sign] ++ behind ++ receiver ++ behindColon text) =
      some (told a sender receiver (text.getD [])) := by
  obtain ⟨read, htext, htrim, hcolon⟩ := exists_text? hline
  have hlast := (trim_eq_self_iff.mp hreceiver.trimmed).2
  have hfront : ∀ c ∈ (sender ++ gap ++ a.token ++ [sign] ++ behind ++ receiver).getLast?,
      isBlank c = false := by
    rwa [List.getLast?_append_of_ne_nil _ hreceiver.ne_nil]
  have hend := trimEnd_eq_self_iff.mp (List.rdropWhile_idempotent isBlank (behindColon text))
  have hread := arrowAt?_token ha (arrow_apart hsign a ha)
    (receiver?_sign hsign hbehind hreceiver hcolon htext)
  have hname : trim (behind ++ receiver) = receiver := by
    rw [trim_append_left hbehind, hreceiver.trimmed]
  have hrest : ∀ c ∈ (sign :: (behind ++ (receiver ++ trimEnd (behindColon text)))).getLast?,
      isBlank c = false := by
    have hne : receiver ++ trimEnd (behindColon text) ≠ [] :=
      List.append_ne_nil_of_left_ne_nil hreceiver.ne_nil _
    rw [← List.cons_append, List.getLast?_append_of_ne_nil _ hne]
    exact isBlank_getLast?_append hlast hend
  rw [← ofLine?_trimEnd hfront]
  simp only [List.append_assoc, List.cons_append, List.nil_append]
  rw [ofLine?_arrow ha hsender hgap hread (by rw [hname]; exact hreceiver.ne_nil) hrest, hname,
    htrim, told]

end Line

/-- A sign is read as the beginning of the receiver if a blank stands in front of it, and else it is
not read at all. So the line says the same with the sign as without it exactly if no blank stands
between the sign and the arrow. -/
theorem ofLine?_signed (ha : a ∈ arrows) (hsender : IsSender sender)
    (hreceiver : IsReceiver receiver) (hsign : sign ∈ signs) (hgap : IsRun isBlank gap)
    (hgap' : IsRun isBlank gap') (hbefore : ∀ c ∈ before, isBlank c = true)
    (hbehind : ∀ c ∈ behind, isBlank c = true) {text : Option (List Char)}
    (hline : ∀ x ∈ text, '\n' ∉ x) :
    let plain := sender ++ gap ++ a.token ++ gap' ++ receiver ++ behindColon text
    let signed :=
      sender ++ gap ++ a.token ++ before ++ [sign] ++ behind ++ receiver ++ behindColon text
    Statement.ofLine? plain = some (told a sender receiver (text.getD [])) ∧
      Statement.ofLine? signed = some (told a sender
        (if before = [] then receiver else sign :: (behind ++ receiver)) (text.getD [])) ∧
      (Statement.ofLine? signed = Statement.ofLine? plain ↔ before = []) := by
  intro plain signed
  have hplain : Statement.ofLine? plain = some (told a sender receiver (text.getD [])) :=
    ofLine?_spaced ha hsender hreceiver hgap hline hgap'
  have hsigned : Statement.ofLine? signed = some (told a sender
      (if before = [] then receiver else sign :: (behind ++ receiver)) (text.getD [])) := by
    by_cases hnil : before = []
    · have hread := ofLine?_attached ha hsender hreceiver hgap hline hsign hbehind
      rw [if_pos hnil]
      simpa only [signed, hnil, List.append_nil] using hread
    · have hread := ofLine?_spaced ha hsender (hreceiver.signed hsign hbehind) hgap hline
        ⟨hnil, hbefore⟩
      rw [if_neg hnil]
      simpa only [signed, List.append_assoc, List.cons_append, List.nil_append] using hread
  refine ⟨hplain, hsigned, ?_⟩
  rw [hsigned, hplain, Option.some.injEq]
  constructor
  · intro hsame
    by_contra hnil
    have hlength := congrArg List.length (receiver_eq_of_told_eq hsame)
    rw [if_neg hnil, List.length_cons, List.length_append] at hlength
    omega
  · intro hnil
    rw [if_pos hnil]

end Signed

/-- A sign right behind the arrow and one behind a blank, in front of a receiver that begins with a
sign itself. -/
theorem ofLine?_signed_minus :
    Statement.ofLine? "front end -->-  -b: see: x->y ".toList =
        some (told ⟨"-->".toList, .chevron, .dashed⟩ "front end".toList "-b".toList
          " see: x->y ".toList) ∧
      Statement.ofLine? "front end --> -  -b: see: x->y ".toList =
        some (told ⟨"-->".toList, .chevron, .dashed⟩ "front end".toList "-  -b".toList
          " see: x->y ".toList) := by
  have harrow : (⟨"-->".toList, .chevron, .dashed⟩ : Arrow) ∈ arrows := by decide
  have hsender : IsSender "front end".toList := {
    ne_nil := by decide
    trimmed := by decide
    oneLine := by decide
    apart := by decide
    word := by decide }
  have hreceiver : IsReceiver "-b".toList := {
    ne_nil := by decide
    trimmed := by decide
    colon := by decide }
  have hgap : IsRun isBlank " ".toList := by decide
  have hsign : '-' ∈ signs := by decide
  have hbehind : ∀ c ∈ "  ".toList, isBlank c = true := List.all_eq_true.mp rfl
  have hline : ∀ x ∈ some " see: x->y ".toList, '\n' ∉ x := by
    rintro x ⟨⟩
    decide
  have hattached := @ofLine?_signed _ _ _ _ _ _ [] _ harrow hsender hreceiver hsign hgap hgap
    (List.forall_mem_nil _) hbehind _ hline
  have hspaced := @ofLine?_signed _ _ _ _ _ _ " ".toList _ harrow hsender hreceiver hsign hgap hgap
    hgap.all hbehind _ hline
  exact ⟨hattached.2.1, hspaced.2.1⟩

/-- Behind a blank a sign makes another participant of the receiver. -/
theorem spacedSign_renames :
    Statement.ofLine? "A ->> +B".toList =
        some (told ⟨"->>".toList, .closed, .solid⟩ "A".toList "+B".toList []) ∧
      Statement.ofLine? "A ->> B".toList =
        some (told ⟨"->>".toList, .closed, .solid⟩ "A".toList "B".toList []) ∧
      Statement.ofLine? "A ->> +B".toList ≠ Statement.ofLine? "A ->> B".toList := by
  decide

end Whiteboard.Sequence
