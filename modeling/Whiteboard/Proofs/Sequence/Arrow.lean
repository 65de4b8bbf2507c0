import Whiteboard.Proofs.Sequence.Written

/-!
Which arrow of a message is read.

Of the arrows that stand at one place the longer ones are tried first, but an arrow is read only if
a receiver stands behind it. So a longer arrow than the one that is read has none
(`IsRead.longest_or`). It is then the same arrow with one more head, and that head is taken for the
receiver. An arrow is read whole exactly if something other than a colon stands behind it
(`arrow_whole_iff`); a line without a receiver is a message to its own arrow head
(`lostHead_receives`).
-/

namespace Whiteboard.Sequence

open Text

/-- No longer arrow stands where this one stands in front of the rest of a line. -/
def IsLongest (a : Arrow) (rest : List Char) : Prop :=
  ∀ b ∈ arrows, b.token <+: a.token ++ rest → b.token.length ≤ a.token.length

instance (a : Arrow) (rest : List Char) : Decidable (IsLongest a rest) :=
  inferInstanceAs (Decidable (∀ b ∈ arrows, b.token <+: a.token ++ rest → _))

/-- An arrow with a receiver and a text behind it. An arrow that begins with it and stands there too
has no receiver. -/
structure IsRead (a : Arrow) (rest receiver text : List Char) : Prop where
  mem : a ∈ arrows
  receiver_eq : receiver? rest = some (receiver, text)
  longer : ∀ b ∈ arrows, a.token <+: b.token → a ≠ b → ∀ rest',
    a.token ++ rest = b.token ++ rest' → receiver? rest' = none

def Parts.message (p : Parts) : Message where
  sender := String.ofList (trim p.sender)
  receiver := String.ofList (trim p.receiver)
  text := String.ofList (trim p.text)
  head := p.arrow.head
  stroke := p.arrow.stroke

/-! ### Receivers -/

/-- There is no receiver in front of a colon or at the end of a line. -/
theorem receiver?_of_head? {cs : List Char} (h : ∀ c ∈ cs.head?, c = ':') :
    receiver? cs = none := by
  have hnil : cs.takeWhile (· != ':') = [] := by
    cases cs with
    | nil => rfl
    | cons c cs => rw [h c rfl, List.takeWhile_cons_of_neg (by simp)]
  rw [receiver?, hnil]
  rfl

/-- A receiver is cut off at the first colon. -/
theorem receiver?_cons {c : Char} (h : c ≠ ':') (cs : List Char) :
    receiver? (c :: cs) = (text? (cs.dropWhile (· != ':'))).map fun text =>
      (dropSign (c :: cs.takeWhile (· != ':')), text) := by
  rw [receiver?, List.takeWhile_cons_of_pos (by simpa using h)]
  simp only [List.isEmpty_cons, Bool.false_eq_true, if_false, List.length_cons,
    List.drop_succ_cons, drop_length_takeWhile]

/-- If there is a receiver only with one more character in front, it is that character. -/
theorem receiver?_cons_of_eq_none {c : Char} (hc : c ≠ ':') {rest receiver text : List Char}
    (h : receiver? (c :: rest) = some (receiver, text)) (hnone : receiver? rest = none) :
    (∀ d ∈ rest.head?, d = ':') ∧ receiver = [c] := by
  rw [receiver?_cons hc] at h
  obtain ⟨read, hread, heq⟩ := Option.map_eq_some_iff.mp h
  have hhead : ∀ d ∈ rest.head?, d = ':' := by
    intro d hd
    by_contra hcolon
    obtain ⟨tail, rfl⟩ := List.head?_eq_some_iff.mp hd
    rw [List.dropWhile_cons_of_pos (by simpa using hcolon)] at hread
    rw [receiver?_cons hcolon, hread] at hnone
    cases hnone
  have htake : rest.takeWhile (· != ':') = [] := by
    cases rest with
    | nil => rfl
    | cons d rest => rw [hhead d rfl, List.takeWhile_cons_of_neg (by simp)]
  rw [htake] at heq
  exact ⟨hhead, (Prod.mk.inj heq).1.symm⟩

/-! ### Arrows -/

/-- An arrow that begins with another one is that arrow with one more head. -/
theorem token_eq_of_isPrefix : ∀ a ∈ arrows, ∀ b ∈ arrows, a.token <+: b.token → a ≠ b →
    b.token = a.token ++ ['>'] := by
  decide

/-- A longer arrow that stands in the same place begins with the shorter one. -/
theorem token_isPrefix_of_lt {a b : Arrow} {rest : List Char} (h : b.token <+: a.token ++ rest)
    (hlt : a.token.length < b.token.length) : a.token <+: b.token ∧ a ≠ b := by
  refine ⟨List.prefix_of_prefix_length_le (List.prefix_append _ rest) h hlt.le, ?_⟩
  rintro rfl
  exact Nat.lt_irrefl _ hlt

/-- An arrow with one more head than another one is the longest where it stands. -/
theorem isLongest_of_token_eq {a b : Arrow} (ha : a ∈ arrows) (h : b.token = a.token ++ ['>'])
    (rest : List Char) : IsLongest b rest := by
  intro d hd hprefix
  by_contra hlt
  have hlonger : a.token.length < d.token.length := by
    rw [h, List.length_append] at hlt
    omega
  rw [h, List.append_assoc] at hprefix
  obtain ⟨hbegins, hne⟩ := token_isPrefix_of_lt hprefix hlonger
  rw [token_eq_of_isPrefix a ha d hd hbegins hne, h] at hlt
  exact hlt le_rfl

/-- The arrow that is read is the longest one that stands there, or it lacks the head of the longest
one, which stands in front of a colon or at the end of the line. -/
theorem IsRead.longest_or {a : Arrow} {rest receiver text : List Char}
    (h : IsRead a rest receiver text) :
    IsLongest a rest ∨ ∃ b ∈ arrows, ∃ rest', b.token = a.token ++ ['>'] ∧ rest = '>' :: rest' ∧
      (∀ c ∈ rest'.head?, c = ':') ∧ receiver = ['>'] := by
  by_cases hlongest : IsLongest a rest
  · exact .inl hlongest
  · right
    simp only [IsLongest, not_forall, not_le] at hlongest
    obtain ⟨b, hb, hprefix, hlt⟩ := hlongest
    obtain ⟨hbegins, hne⟩ := token_isPrefix_of_lt hprefix hlt
    have htoken := token_eq_of_isPrefix a h.mem b hb hbegins hne
    obtain ⟨rest', hrest'⟩ := hprefix
    have hrest : rest = '>' :: rest' := by
      rw [htoken, List.append_assoc] at hrest'
      exact (List.append_cancel_left hrest').symm
    have hread := h.receiver_eq
    rw [hrest] at hread
    obtain ⟨hhead, hreceiver⟩ :=
      receiver?_cons_of_eq_none (by decide) hread (h.longer b hb hbegins hne rest' hrest'.symm)
    exact ⟨b, hb, rest', htoken, hrest, hhead, hreceiver⟩

/-! ### Messages -/

/-- An arrow is read in the place of a longer one only if that has no receiver. -/
theorem isRead_of_arrowAt? {cs : List Char} {p : Parts} (h : arrowAt? cs = some p) :
    ∃ rest, cs = p.arrow.token ++ rest ∧ IsRead p.arrow rest p.receiver p.text := by
  obtain ⟨earlier, a, later, harrows, ha, hearlier⟩ := List.findSome?_eq_some_iff.mp h
  simp only [Option.bind_eq_bind, Option.bind_eq_some_iff, Prod.exists, Option.some.injEq] at ha
  obtain ⟨rest, hstrip, receiver, text, hreceiver, rfl⟩ := ha
  have hcs := strip?_eq_some.mp hstrip
  have hmem : a ∈ arrows := by
    rw [harrows]
    exact List.mem_append_right _ List.mem_cons_self
  refine ⟨rest, hcs, hmem, hreceiver, fun b hb hbegins hne rest' hrest' => ?_⟩
  -- no arrow comes behind one it begins with, so this one has been tried before
  have hbefore : b ∈ earlier := by
    have hpairwise := pairwise_arrows
    rw [harrows] at hb hpairwise
    rcases List.mem_append.mp hb with hb | hb
    · exact hb
    · rcases List.mem_cons.mp hb with rfl | hb
      · exact absurd rfl hne
      · have hlater := (List.pairwise_cons.mp (List.pairwise_append.mp hpairwise).2.1).1 b hb
        exact absurd hbegins hlater
  have hnone := hearlier b hbefore
  rw [hcs, hrest', strip?_append] at hnone
  cases hread : receiver? rest' with
  | none => rfl
  | some q => simp [hread] at hnone

/-- A line in parts is the sender, blanks, and the arrow that is read with what stands behind it. -/
theorem isRead_of_parts? {cs : List Char} {p : Parts} (h : parts? cs = some p) :
    ∃ gap rest, (∀ c ∈ gap, isBlank c = true) ∧
      cs = p.sender ++ (gap ++ (p.arrow.token ++ rest)) ∧
      IsRead p.arrow rest p.receiver p.text := by
  induction cs generalizing p with
  | nil => cases h
  | cons c cs ih =>
      rw [parts?] at h
      split at h
      · cases h
      · split at h
        · rename_i q hq
          cases h
          obtain ⟨rest, hrest, hread⟩ := isRead_of_arrowAt? hq
          refine ⟨cs.takeWhile isBlank, rest, fun d hd => List.mem_takeWhile_imp hd, ?_, hread⟩
          have hsplit : cs.takeWhile isBlank ++ trimStart cs = cs :=
            List.takeWhile_append_dropWhile
          rw [List.singleton_append, ← hrest, hsplit]
        · obtain ⟨q, hq, rfl⟩ := Option.map_eq_some_iff.mp h
          obtain ⟨gap, rest, hgap, hcs, hread⟩ := ih hq
          exact ⟨gap, rest, hgap, congrArg (c :: ·) hcs, hread⟩

theorem message?_eq_some {line : List Char} {m : Message} (h : message? line = some m) :
    ∃ p, parts? line = some p ∧ m = p.message := by
  simp only [message?, Option.bind_eq_bind, Option.bind_eq_some_iff] at h
  obtain ⟨p, hp, h⟩ := h
  split at h
  · cases h
  · cases h
    exact ⟨p, hp, rfl⟩

/-- A line that is a message is none of the other statements. -/
theorem message?_of_ofLine? {line : List Char} {m : Message}
    (h : Statement.ofLine? line = some (.message m)) : message? (trim line) = some m := by
  unfold Statement.ofLine? at h
  dsimp only at h
  split at h
  · cases h
  · split at h
    · unfold declare? at h
      dsimp only at h
      split at h <;> split at h <;> cases h
    · split at h
      · unfold mention? at h
        split at h <;> cases h
      · split at h
        · cases h
        · obtain ⟨m', hm, heq⟩ := Option.map_eq_some_iff.mp h
          cases heq
          exact hm

/-- Where the arrow of a message is read, the longest arrow `b` that stands there is read exactly if
something other than a colon stands behind it. If it is not read, then the same arrow without its
head is, and the head is the receiver. -/
theorem arrow_whole_iff {line : List Char} {m : Message}
    (h : Statement.ofLine? line = some (.message m)) :
    ∃ p b gap rest, parts? (trim line) = some p ∧ m = p.message ∧ b ∈ arrows ∧
      (∀ c ∈ gap, isBlank c = true) ∧ trim line = p.sender ++ (gap ++ (b.token ++ rest)) ∧
      IsLongest b rest ∧ (p.arrow = b ↔ ∃ c ∈ rest.head?, c ≠ ':') ∧
      (p.arrow ≠ b → b.token = p.arrow.token ++ ['>'] ∧ m.receiver = ">") := by
  obtain ⟨p, hp, rfl⟩ := message?_eq_some (message?_of_ofLine? h)
  obtain ⟨gap, rest, hgap, hline, hread⟩ := isRead_of_parts? hp
  rcases hread.longest_or with hlongest | ⟨b, hb, rest', htoken, rfl, hhead, hreceiver⟩
  · refine ⟨p, p.arrow, gap, rest, hp, rfl, hread.mem, hgap, hline, hlongest, ?_,
      fun hne => absurd rfl hne⟩
    refine iff_of_true rfl ?_
    by_contra hnone
    have hcolon : ∀ c ∈ rest.head?, c = ':' := by
      intro c hc
      by_contra hne
      exact hnone ⟨c, hc, hne⟩
    have hsome := hread.receiver_eq
    rw [receiver?_of_head? hcolon] at hsome
    cases hsome
  · have hne : p.arrow ≠ b := by
      intro heq
      rw [heq] at htoken
      simpa using congrArg List.length htoken
    refine ⟨p, b, gap, rest', hp, rfl, hb, hgap, ?_, isLongest_of_token_eq hread.mem htoken rest',
      ?_, fun _ => ⟨htoken, ?_⟩⟩
    · rw [hline, htoken, List.append_assoc, List.singleton_append]
    · refine iff_of_false hne ?_
      rintro ⟨c, hc, hcolon⟩
      exact hcolon (hhead c hc)
    · rw [Parts.message, hreceiver]
      rfl

/-- Two arrows stand in the line, and the first of them has no receiver. -/
theorem arrow_whole_iff_twoArrows :
    let line := "A b -->>: x->y".toList
    let m : Message := ⟨"A b", ">", "x->y", .chevron, .dashed⟩
    Statement.ofLine? line = some (.message m) ∧
    ∃ p b gap rest, parts? (trim line) = some p ∧ m = p.message ∧ b ∈ arrows ∧
      (∀ c ∈ gap, isBlank c = true) ∧ trim line = p.sender ++ (gap ++ (b.token ++ rest)) ∧
      IsLongest b rest ∧ (p.arrow = b ↔ ∃ c ∈ rest.head?, c ≠ ':') ∧
      (p.arrow ≠ b → b.token = p.arrow.token ++ ['>'] ∧ m.receiver = ">") := by
  intro line m
  have h : Statement.ofLine? line = some (.message m) := by decide
  exact ⟨h, arrow_whole_iff h⟩

/-- An arrow without a receiver is read without its head, and the head is the receiver. -/
theorem lostHead_receives :
    Statement.ofLine? "A->>: hi".toList = some (.message ⟨"A", ">", "hi", .chevron, .solid⟩) ∧
      parts? "A->>: hi".toList =
        some ⟨"A".toList, ⟨"->".toList, .chevron, .solid⟩, ">".toList, "hi".toList⟩ ∧
      ¬ IsLongest ⟨"->".toList, .chevron, .solid⟩ ">: hi".toList := by
  decide

end Whiteboard.Sequence
