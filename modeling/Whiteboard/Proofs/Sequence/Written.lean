import Whiteboard.Proofs.Text.Line
import Whiteboard.Sequence.Statement

/-!
Messages as they are written.

A message is written as a sender, an arrow and a receiver with blanks between them, and perhaps a
text behind a colon. Every arrow has a pair of characters in it that the sender has not, and no
arrow reaches over a blank, so the arrow that is written is the first that is read
(`parts?_sender`); of the arrows that begin alike the longer ones are tried first
(`pairwise_arrows`). The receiver ends at the first colon, and what the text behind it looks like
does not matter. So a message is read back as it was written (`ofLine?_message`).
-/

namespace Whiteboard.Sequence

open Text

/-! ### What is written -/

/-- The words that decide what a line says if it begins with one. -/
def reservedWords : List (List Char) :=
  declarations.map Prod.fst ++ mentions ++ ignoredKeywords

/-- The pairs of characters of which every arrow has one. -/
def marks : List (List Char) :=
  ["->".toList, "-x".toList, "-)".toList]

/-- A sender that is read as it is written. -/
structure IsSender (sender : List Char) : Prop where
  ne_nil : sender ≠ []
  trimmed : trim sender = sender
  oneLine : '\n' ∉ sender
  apart : ∀ mark ∈ marks, ¬ mark <:+: sender
  word : ∀ w ∈ reservedWords, sameLetters (firstWord sender) w = false

/-- A receiver that is read as it is written. A sign at its beginning is a part of it, as a blank
stands between the arrow and the receiver. -/
structure IsReceiver (receiver : List Char) : Prop where
  ne_nil : receiver ≠ []
  trimmed : trim receiver = receiver
  colon : ':' ∉ receiver

def writeText : Option (List Char) → List Char
  | none => []
  | some text => ':' :: ' ' :: text

/-! ### Arrows -/

/-- No arrow comes behind one it begins with. -/
theorem pairwise_arrows : arrows.Pairwise fun a b => ¬ a.token <+: b.token := by
  decide

/-- Arrows are free of blanks, and each has a pair of marks in it. -/
theorem arrow_spec : ∀ a ∈ arrows,
    IsRun (!isBlank ·) a.token ∧ ∃ mark ∈ marks, mark <:+: a.token := by
  decide

theorem blank_not_mem {a : Arrow} (ha : a ∈ arrows) {c : Char} (hc : isBlank c = true) :
    c ∉ a.token :=
  (arrow_spec a ha).1.not_mem (by rw [hc, Bool.not_true])

/-- An arrow is read where it is written, if no other one goes on with what follows it. -/
theorem arrowAt?_token {a : Arrow} (ha : a ∈ arrows) {c : Char}
    (hc : ∀ b ∈ arrows, ¬ a.token ++ [c] <+: b.token) {rest receiver text : List Char}
    (h : receiver? (c :: rest) = some (receiver, text)) :
    arrowAt? (a.token ++ c :: rest) = some { sender := [], arrow := a, receiver, text } := by
  apply findSome?_strip?_cons pairwise_arrows ha hc
  rw [h]
  rfl

/-- In front of a gap, an arrow is read as it is written, not as one that it begins with. -/
theorem arrowAt?_gap {a : Arrow} (ha : a ∈ arrows) {gap : List Char} (hgap : IsRun isBlank gap)
    {rest receiver text : List Char} (h : receiver? (gap ++ rest) = some (receiver, text)) :
    arrowAt? (a.token ++ (gap ++ rest)) = some { sender := [], arrow := a, receiver, text } := by
  obtain ⟨c, gap, rfl⟩ := List.exists_cons_of_ne_nil hgap.ne_nil
  refine arrowAt?_token ha (fun b hb hprefix => ?_) h
  apply blank_not_mem hb (hgap.all c List.mem_cons_self)
  exact hprefix.subset (List.mem_append_right _ (List.mem_singleton_self c))

/-- No arrow stands in a sender, and none begins in it. -/
theorem arrowAt?_sender {tail gap : List Char} (htail : ∀ mark ∈ marks, ¬ mark <:+: tail)
    (hgap : IsRun isBlank gap) (rest : List Char) : arrowAt? (tail ++ (gap ++ rest)) = none := by
  obtain ⟨c, gap, rfl⟩ := List.exists_cons_of_ne_nil hgap.ne_nil
  have hc := hgap.all c List.mem_cons_self
  rw [arrowAt?, List.findSome?_eq_none_iff]
  intro a ha
  have hnone : strip? a.token (tail ++ (c :: gap ++ rest)) = none := by
    rw [strip?_eq_none_iff]
    intro hprefix
    obtain ⟨mark, hmark, hin⟩ := (arrow_spec a ha).2
    rcases isPrefix_or_concat_isPrefix hprefix with h | h
    · exact htail mark hmark (hin.trans h.isInfix)
    · exact blank_not_mem ha hc (h.subset (List.mem_append_right _ (List.mem_singleton_self c)))
  rw [hnone]
  rfl

/-- Blanks inside the sender are passed over, but not those behind it. -/
theorem arrowAt?_trimStart {tail gap : List Char} (hne : tail ≠ [])
    (hlast : ∀ c ∈ tail.getLast?, isBlank c = false) (htail : ∀ mark ∈ marks, ¬ mark <:+: tail)
    (hgap : IsRun isBlank gap) (rest : List Char) :
    arrowAt? (trimStart (tail ++ (gap ++ rest))) = none := by
  rw [trimStart_append (trimStart_ne_nil hne hlast)]
  apply arrowAt?_sender _ hgap
  intro mark hmark hin
  exact htail mark hmark (hin.trans (List.dropWhile_suffix isBlank).isInfix)

section Message

variable {a : Arrow} {sender receiver gap gap' : List Char}

/-! ### The sender -/

/-- The sender ends where the arrow is written: no arrow begins behind another character of it. -/
theorem parts?_sender (hne : sender ≠ []) (hline : '\n' ∉ sender)
    (hlast : ∀ c ∈ sender.getLast?, isBlank c = false) (hapart : ∀ mark ∈ marks, ¬ mark <:+: sender)
    (hgap : IsRun isBlank gap) (ha : a ∈ arrows) {rest text : List Char}
    (h : arrowAt? (a.token ++ rest) = some { sender := [], arrow := a, receiver, text }) :
    parts? (sender ++ (gap ++ (a.token ++ rest))) =
      some { sender, arrow := a, receiver, text } := by
  induction sender with
  | nil => exact absurd rfl hne
  | cons d sender ih =>
      rw [List.mem_cons, not_or] at hline
      have hd : (d == '\n') = false := beq_eq_false_iff_ne.mpr (Ne.symm hline.1)
      rw [List.cons_append, parts?, hd, if_neg Bool.false_ne_true]
      by_cases hnil : sender = []
      · have hstart : trimStart (gap ++ (a.token ++ rest)) = a.token ++ rest := by
          apply dropWhile_run hgap.all
          intro e he
          simpa using (arrow_spec a ha).1.of_mem_head? he
        rw [hnil, List.nil_append, hstart, h]
      · rw [List.getLast?_cons_of_ne_nil hnil] at hlast
        have hapart : ∀ mark ∈ marks, ¬ mark <:+: sender :=
          fun mark hmark => not_infix_of_cons (hapart mark hmark)
        rw [arrowAt?_trimStart hnil hlast hapart hgap, ih hnil hline.2 hlast hapart]
        rfl

/-! ### The receiver and the text -/

/-- The receiver goes up to the colon. -/
theorem receiver?_append {name : List Char} (hne : name ≠ []) (hcolon : ':' ∉ name)
    {tail text : List Char} (htail : ∀ c ∈ tail.head?, c = ':') (htext : text? tail = some text) :
    receiver? (name ++ tail) = some (dropSign name, text) := by
  have htake : (name ++ tail).takeWhile (· != ':') = name := by
    apply takeWhile_run
    · intro c hc
      rw [bne_iff_ne]
      rintro rfl
      exact hcolon hc
    · intro c hc
      rw [htail c hc]
      rfl
  have hempty : name.isEmpty = false := List.isEmpty_eq_false_iff.mpr hne
  rw [receiver?, htake]
  simp only [hempty, List.drop_left, htext]
  rfl

/-- A receiver behind a gap is read as it is written. -/
theorem receiver?_gap (hgap : IsRun isBlank gap) (h : IsReceiver receiver)
    {tail text : List Char} (htail : ∀ c ∈ tail.head?, c = ':') (htext : text? tail = some text) :
    receiver? (gap ++ (receiver ++ tail)) = some (gap ++ receiver, text) := by
  have hcolon : ':' ∉ gap ++ receiver := by
    rw [List.mem_append, not_or]
    refine ⟨fun hc => ?_, h.colon⟩
    cases hgap.all ':' hc
  have hne : gap ++ receiver ≠ [] := List.append_ne_nil_of_right_ne_nil gap h.ne_nil
  have hsign : dropSign (gap ++ receiver) = gap ++ receiver := by
    obtain ⟨g, gap, rfl⟩ := List.exists_cons_of_ne_nil hgap.ne_nil
    have hg := hgap.all g List.mem_cons_self
    have hplus : g ≠ '+' := by
      rintro rfl
      cases hg
    have hminus : g ≠ '-' := by
      rintro rfl
      cases hg
    have hne : gap ++ receiver ≠ [] := List.append_ne_nil_of_right_ne_nil gap h.ne_nil
    obtain ⟨r, tail, hr⟩ := List.exists_cons_of_ne_nil hne
    simp [hr, dropSign, hplus, hminus]
  rw [← List.append_assoc, receiver?_append hne hcolon htail htext, hsign]

/-! ### Messages -/

/-- The first arrow of a line parts the sender from the rest. -/
theorem message?_line (ha : a ∈ arrows) (hsender : IsSender sender) (hgap : IsRun isBlank gap)
    {rest behind text : List Char}
    (h : arrowAt? (a.token ++ rest) = some { sender := [], arrow := a, receiver := behind, text })
    (hbehind : trim behind ≠ []) :
    message? (sender ++ (gap ++ (a.token ++ rest))) =
      some
        { sender := String.ofList sender
          receiver := String.ofList (trim behind)
          text := String.ofList (trim text)
          head := a.head
          stroke := a.stroke } := by
  have hlast := (trim_eq_self_iff.mp hsender.trimmed).2
  have hparts := parts?_sender hsender.ne_nil hsender.oneLine hlast hsender.apart hgap ha h
  simp [message?, hparts, hbehind, hsender.trimmed, hsender.ne_nil]

/-- The first word of a line is that of the sender, so no reserved word opens it. -/
theorem stripKeyword?_line (hsender : IsSender sender) (hgap : IsRun isBlank gap)
    (rest : List Char) {w : List Char} (hw : w ∈ reservedWords) :
    stripKeyword? w (sender ++ (gap ++ rest)) = none := by
  have hsolid : ∀ w ∈ reservedWords, IsRun (!isBlank ·) w := by decide
  apply stripKeyword?_eq_none (hsolid w hw)
  rw [firstWord_append hgap]
  exact hsender.word w hw

/-- A line that goes on behind a sender is read as a message. -/
theorem ofLine?_line (hsender : IsSender sender) (hgap : IsRun isBlank gap) {rest : List Char}
    (htrim : trim (sender ++ (gap ++ rest)) = sender ++ (gap ++ rest)) :
    Statement.ofLine? (sender ++ (gap ++ rest)) =
      (message? (sender ++ (gap ++ rest))).map .message := by
  have hheader : sameLetters (sender ++ (gap ++ rest)) "sequenceDiagram".toList = false := by
    rw [Bool.eq_false_iff]
    intro hsame
    obtain ⟨g, gap, rfl⟩ := List.exists_cons_of_ne_nil hgap.ne_nil
    have hblank := isBlank_of_sameLetters (by decide) hsame g (by simp)
    rw [hgap.all g List.mem_cons_self] at hblank
    cases hblank
  have hstrip : ∀ w ∈ reservedWords, stripKeyword? w (sender ++ (gap ++ rest)) = none :=
    fun w hw => stripKeyword?_line hsender hgap rest hw
  have hparticipant := hstrip "participant".toList (by decide)
  have hactor := hstrip "actor".toList (by decide)
  have hmention :
      (mentions.findSome? fun w => stripKeyword? w (sender ++ (gap ++ rest))) = none := by
    rw [List.findSome?_eq_none_iff]
    intro w hw
    exact hstrip w (by simp [reservedWords, hw])
  have hignored : (ignoredKeywords.any fun w =>
      (stripKeyword? w (sender ++ (gap ++ rest))).isSome) = false := by
    rw [List.any_eq_false]
    intro w hw
    rw [hstrip w (by simp [reservedWords, hw])]
    exact Bool.false_ne_true
  rw [Statement.ofLine?, htrim]
  simp only [hheader, declarations, List.findSome?_cons, hparticipant, hactor, Option.map_none,
    List.findSome?_nil, hmention, hignored, Bool.false_eq_true, if_false]

/-- A line is a message if an arrow with a receiver behind it is read where the sender ends. -/
theorem ofLine?_arrow (ha : a ∈ arrows) (hsender : IsSender sender) (hgap : IsRun isBlank gap)
    {rest behind text : List Char}
    (h : arrowAt? (a.token ++ rest) = some { sender := [], arrow := a, receiver := behind, text })
    (hbehind : trim behind ≠ []) (hlast : ∀ c ∈ rest.getLast?, isBlank c = false) :
    Statement.ofLine? (sender ++ (gap ++ (a.token ++ rest))) =
      some (.message
        { sender := String.ofList sender
          receiver := String.ofList (trim behind)
          text := String.ofList (trim text)
          head := a.head
          stroke := a.stroke }) := by
  have htrim : trim (sender ++ (gap ++ (a.token ++ rest))) =
      sender ++ (gap ++ (a.token ++ rest)) := by
    rw [trim_eq_self_iff]
    constructor
    · rw [List.head?_append_of_ne_nil sender hsender.ne_nil]
      exact (trim_eq_self_iff.mp hsender.trimmed).1
    · have htoken := (arrow_spec a ha).1
      have hend : ∀ c ∈ a.token.getLast?, isBlank c = false := fun c hc => by
        simpa using htoken.all c (List.mem_of_getLast? hc)
      have hne : a.token ++ rest ≠ [] := List.append_ne_nil_of_left_ne_nil htoken.ne_nil rest
      rw [← List.append_assoc, List.getLast?_append_of_ne_nil _ hne]
      exact isBlank_getLast?_append hend hlast
  rw [ofLine?_line hsender hgap htrim, message?_line ha hsender hgap h hbehind, Option.map_some]

/-- A line is read as the message it was written from. -/
theorem ofLine?_tail (ha : a ∈ arrows) (hsender : IsSender sender) (hreceiver : IsReceiver receiver)
    (hgap : IsRun isBlank gap) (hgap' : IsRun isBlank gap') {tail text : List Char}
    (hcolon : ∀ c ∈ tail.head?, c = ':') (hlast : ∀ c ∈ tail.getLast?, isBlank c = false)
    (htext : text? tail = some text) :
    Statement.ofLine? (sender ++ gap ++ a.token ++ gap' ++ receiver ++ tail) =
      some (.message
        { sender := String.ofList sender
          receiver := String.ofList receiver
          text := String.ofList (trim text)
          head := a.head
          stroke := a.stroke }) := by
  simp only [List.append_assoc]
  have hread := arrowAt?_gap ha hgap' (receiver?_gap hgap' hreceiver hcolon htext)
  have htrim : trim (gap' ++ receiver) = receiver := by
    rw [trim_append_left hgap'.all, hreceiver.trimmed]
  have hend := isBlank_getLast?_append (trim_eq_self_iff.mp hreceiver.trimmed).2 hlast
  have hne : receiver ++ tail ≠ [] := List.append_ne_nil_of_left_ne_nil hreceiver.ne_nil tail
  rw [ofLine?_arrow ha hsender hgap hread, htrim]
  · rw [htrim]
    exact hreceiver.ne_nil
  · rwa [List.getLast?_append_of_ne_nil _ hne]

/-- A blank at the end of a line says nothing. -/
theorem ofLine?_concat {c : Char} (hc : isBlank c = true) (line : List Char) :
    Statement.ofLine? (line ++ [c]) = Statement.ofLine? line := by
  simp only [Statement.ofLine?, trim_concat hc]

/-- A message is read as it is written: the sender, the receiver and the text are what they were,
and the arrow is drawn as the one that stands between them, whatever arrows and colons there are in
the text. -/
theorem ofLine?_message (ha : a ∈ arrows) (hsender : IsSender sender)
    (hreceiver : IsReceiver receiver) (hgap : IsRun isBlank gap) (hgap' : IsRun isBlank gap')
    {text : Option (List Char)} (htext : ∀ x ∈ text, trim x = x ∧ '\n' ∉ x) :
    Statement.ofLine? (sender ++ gap ++ a.token ++ gap' ++ receiver ++ writeText text) =
      some (.message
        { sender := String.ofList sender
          receiver := String.ofList receiver
          text := String.ofList (text.getD [])
          head := a.head
          stroke := a.stroke }) := by
  cases text with
  | none =>
      exact @ofLine?_tail a sender receiver gap gap' ha hsender hreceiver hgap hgap' [] []
        (by rintro c ⟨⟩) (by rintro c ⟨⟩) rfl
  | some x =>
      obtain ⟨htrim, hline⟩ := htext x rfl
      by_cases hx : x = []
      · -- the space behind the colon is trimmed off the line
        subst hx
        have hcolon := @ofLine?_tail a sender receiver gap gap' ha hsender hreceiver hgap hgap'
          [':'] [] (by rintro c ⟨⟩; rfl) (by rintro c ⟨⟩; rfl) rfl
        have hspace : ∀ line, line ++ writeText (some []) = (line ++ [':']) ++ [' '] := by
          simp [writeText]
        rw [hspace, ofLine?_concat rfl, hcolon]
        rfl
      · have hstart : trimStart (' ' :: x) = x :=
          trimStart_eq_self_iff.mpr (trim_eq_self_iff.mp htrim).1
        have hread : text? (writeText (some x)) = some x := by
          simp [writeText, text?, hstart, hline]
        have hlast : ∀ c ∈ (writeText (some x)).getLast?, isBlank c = false := by
          rw [writeText, List.getLast?_cons_of_ne_nil (List.cons_ne_nil ' ' x),
            List.getLast?_cons_of_ne_nil hx]
          exact (trim_eq_self_iff.mp htrim).2
        rw [ofLine?_tail ha hsender hreceiver hgap hgap' (by rintro c ⟨⟩; rfl) hlast hread, htrim]
        rfl

end Message

/-- A sender that begins like a keyword and ends like an arrow, a receiver with an arrow in it, and
a text with an arrow and a colon. -/
theorem ofLine?_message_arrows :
    Statement.ofLine? "notes - a- \t--x  b->c: see: x-->>y".toList =
      some (.message
        { sender := "notes - a-"
          receiver := "b->c"
          text := "see: x-->>y"
          head := .cross
          stroke := .dashed }) := by
  have harrow : (⟨"--x".toList, .cross, .dashed⟩ : Arrow) ∈ arrows := by decide
  have hsender : IsSender "notes - a-".toList := {
    ne_nil := by decide
    trimmed := by decide
    oneLine := by decide
    apart := by decide
    word := by decide }
  have hreceiver : IsReceiver "b->c".toList := {
    ne_nil := by decide
    trimmed := by decide
    colon := by decide }
  have hgap : IsRun isBlank " \t".toList := by decide
  have hgap' : IsRun isBlank "  ".toList := by decide
  exact @ofLine?_message _ _ _ _ _ harrow hsender hreceiver hgap hgap'
    (some "see: x-->>y".toList) (by rintro x ⟨⟩; decide)

end Whiteboard.Sequence
