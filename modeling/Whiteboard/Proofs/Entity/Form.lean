import Whiteboard.Proofs.Entity.Written

/-!
The forms of a line outside attribute blocks.

`HasForm` says how a line of each form can be cut into pieces, with blanks between them wherever
they are allowed; the reader of a form accepts exactly the lines that can be cut so
(`isSome_read?_iff`). Names, blanks, hyphens and dots are no marks, and the first mark of a line
tells which form it can have (`formOf_eq`): a relationship without symbols has none before its
colon, a bracket belongs to an alias, and a brace is a symbol only if a line follows at once. So no
line has two forms, and it does not matter which form is tried first (`forms_disjoint`).
-/

namespace Whiteboard.Entity

open Text

/-! ### What the forms are -/

/-- Blanks, or nothing. -/
def IsGap (gap : List Char) : Prop :=
  ∀ c ∈ gap, isBlank c = true

/-- How a relationship ends: with its second name, and perhaps a one-line label behind a colon. -/
inductive IsEnding : List Char → Prop where
  | named {gap name behind : List Char} (hgap : IsGap gap) (hname : IsRun isNameChar name)
      (hbehind : IsGap behind) : IsEnding (gap ++ (name ++ behind))
  | labelled {gap name behind inner label : List Char} (hgap : IsGap gap)
      (hname : IsRun isNameChar name) (hbehind : IsGap behind) (hinner : IsGap inner)
      (hlabel : '\n' ∉ label) :
      IsEnding (gap ++ (name ++ (behind ++ ':' :: (inner ++ label))))

/-- What stands between the brackets of an alias: any text without brackets and quotes, perhaps with
a quote at either side. -/
inductive IsInside : List Char → Prop where
  | intro {gap opened inside closed behind : List Char} (hgap : IsGap gap)
      (hopened : opened ∈ [[], ['"']]) (hquote : '"' ∉ inside) (hbracket : ']' ∉ inside)
      (hclosed : closed ∈ [[], ['"']]) (hbehind : IsGap behind) :
      IsInside (gap ++ (opened ++ (inside ++ (closed ++ behind))))

inductive Form where
  /-- A relationship with a symbol at either end of its line. -/
  | relationship
  /-- A relationship with a bare line. -/
  | plainRelationship
  /-- The opening of a block. -/
  | opening
deriving DecidableEq, Repr

/-- The line can be cut into the pieces of a form. -/
inductive HasForm : Form → List Char → Prop where
  | relationship {name gap a line b rest : List Char} (hname : IsRun isNameChar name)
      (hgap : IsGap gap) (ha : a ∈ symbols) (hline : line ∈ lines.map Prod.fst) (hb : b ∈ symbols)
      (hrest : IsEnding rest) :
      HasForm .relationship (name ++ (gap ++ (a ++ (line ++ (b ++ rest)))))
  | plainRelationship {name gap rest : List Char} {c : Char} {n : Nat}
      (hname : IsRun isNameChar name) (hgap : IsGap gap) (hc : c ∈ ['-', '.'])
      (hrest : IsEnding rest) :
      HasForm .plainRelationship (name ++ (gap ++ (List.replicate (n + 2) c ++ rest)))
  | opening {name gap inner closing : List Char} (hname : IsRun isNameChar name) (hgap : IsGap gap)
      (hinner : IsGap inner) (hclosing : closing ∈ [[], ['}']]) :
      HasForm .opening (name ++ (gap ++ '{' :: (inner ++ closing)))
  | aliased {name gap inside behind inner closing : List Char} (hname : IsRun isNameChar name)
      (hgap : IsGap gap) (hinside : IsInside inside) (hbehind : IsGap behind) (hinner : IsGap inner)
      (hclosing : closing ∈ [[], ['}']]) :
      HasForm .opening
        (name ++ (gap ++ '[' :: (inside ++ ']' :: (behind ++ '{' :: (inner ++ closing)))))

def Form.read? : Form → List Char → Option Statement
  | relationship, line => (relationship? line).map .relationship
  | plainRelationship, line => (plainRelationship? line).map .relationship
  | opening, line => opening? line

/-! ### The first mark -/

def isMark (c : Char) : Bool :=
  ['|', '{', '}', '[', ':'].contains c

def marked (line : List Char) : List Char :=
  line.dropWhile (!isMark ·)

/-- The form that a line can have, told by its first mark and the character behind it. -/
def formOf (line : List Char) : Form :=
  match marked line with
  | '|' :: _ | '}' :: _ => .relationship
  | '{' :: rest => if rest.head?.any (['-', '.'].contains ·) then .relationship else .opening
  | '[' :: _ => .opening
  | _ => .plainRelationship

theorem isMark_of_isNameChar {c : Char} (h : isNameChar c = true) : isMark c = false := by
  have hmarks : IsRun (!isNameChar ·) ['|', '{', '}', '[', ':'] := by decide
  simpa [isMark] using hmarks.not_mem (c := c) (by rw [h, Bool.not_true])

theorem isMark_of_isBlank {c : Char} (h : isBlank c = true) : isMark c = false := by
  have hmarks : IsRun (!isBlank ·) ['|', '{', '}', '[', ':'] := by decide
  simpa [isMark] using hmarks.not_mem (c := c) (by rw [h, Bool.not_true])

/-- What holds no mark does not matter to the first mark. -/
theorem marked_append {front : List Char} (h : ∀ c ∈ front, isMark c = false)
    (rest : List Char) : marked (front ++ rest) = marked rest :=
  List.dropWhile_append_of_pos fun c hc => by rw [h c hc, Bool.not_false]

theorem marked_gap {gap : List Char} (h : IsGap gap) (rest : List Char) :
    marked (gap ++ rest) = marked rest :=
  marked_append (fun c hc => isMark_of_isBlank (h c hc)) rest

theorem marked_name {name : List Char} (h : IsRun isNameChar name) (rest : List Char) :
    marked (name ++ rest) = marked rest :=
  marked_append (fun c hc => isMark_of_isNameChar (h.all c hc)) rest

/-- A relationship has no mark behind its line before the colon of its label. -/
theorem marked_ending {rest : List Char} (h : IsEnding rest) :
    ∀ c ∈ (marked rest).head?, c = ':' := by
  cases h with
  | named hgap hname hbehind =>
      have hend := marked_gap hbehind []
      rw [List.append_nil] at hend
      rw [marked_gap hgap, marked_name hname, hend]
      nofun
  | labelled hgap hname hbehind hinner hlabel =>
      rw [marked_gap hgap, marked_name hname, marked_gap hbehind]
      rintro c ⟨⟩
      rfl

/-- The first mark of a line tells its form. -/
theorem formOf_eq {f : Form} {line : List Char} (h : HasForm f line) : formOf line = f := by
  cases h with
  | relationship hname hgap ha hline hb hrest =>
      have hsymbol : ∀ a ∈ symbols, ∀ l ∈ lines.map Prod.fst, ∀ rest,
          formOf (a ++ (l ++ rest)) = .relationship := by
        simp [symbols, lines, formOf, marked, isMark]
      rw [formOf, marked_name hname, marked_gap hgap]
      exact hsymbol _ ha _ hline _
  | @plainRelationship name gap rest c n hname hgap hc hrest =>
      have hdash : ∀ d ∈ List.replicate (n + 2) c, isMark d = false := by
        intro d hd
        have hdashes : IsRun (!isMark ·) ['-', '.'] := by decide
        rw [List.eq_of_mem_replicate hd, ← Bool.not_eq_true', hdashes.all c hc]
      have hcolon := marked_ending hrest
      rw [formOf, marked_name hname, marked_gap hgap, marked_append hdash]
      cases hmarked : marked rest with
      | nil => rfl
      | cons d tail =>
          rw [hmarked] at hcolon
          rw [hcolon d rfl]
          rfl
  | @opening name gap inner closing hname hgap hinner hclosing =>
      have hbehind : (inner ++ closing).head?.any (['-', '.'].contains ·) = false := by
        cases inner with
        | nil =>
            have hclosed : ∀ closing ∈ [[], ['}']],
                closing.head?.any (['-', '.'].contains ·) = false := by decide
            exact hclosed closing hclosing
        | cons c inner =>
            have hdashes : IsRun (!isBlank ·) ['-', '.'] := by decide
            have hc := hinner c List.mem_cons_self
            simpa using hdashes.not_mem (c := c) (by rw [hc, Bool.not_true])
      rw [formOf, marked_name hname, marked_gap hgap]
      exact if_neg (by rw [hbehind]; exact Bool.false_ne_true)
  | aliased hname hgap hinside hbehind hinner hclosing =>
      rw [formOf, marked_name hname, marked_gap hgap]
      rfl

/-! ### What the readers accept -/

theorem exists_gap (cs : List Char) : ∃ gap, IsGap gap ∧ cs = gap ++ trimStart cs :=
  ⟨cs.takeWhile isBlank, fun _ hc => List.mem_takeWhile_imp hc,
    List.takeWhile_append_dropWhile.symm⟩

theorem trimStart_gap {gap : List Char} (h : IsGap gap) (cs : List Char) :
    trimStart (gap ++ cs) = trimStart cs :=
  List.dropWhile_append_of_pos h

theorem trimStart_of_isGap {gap : List Char} (h : IsGap gap) : trimStart gap = [] :=
  List.dropWhile_eq_nil_iff.mpr h

theorem trimStart_cons {c : Char} (h : isBlank c = false) (cs : List Char) :
    trimStart (c :: cs) = c :: cs :=
  List.dropWhile_cons_of_neg (by rw [h]; exact Bool.false_ne_true)

/-- The character behind a gap is a blank only if it belongs to the gap. -/
theorem head?_gap_append {gap : List Char} (h : IsGap gap) {p : Char → Bool}
    (hp : ∀ c, isBlank c = true → p c = false) {rest : List Char}
    (hrest : ∀ c ∈ rest.head?, p c = false) : ∀ c ∈ (gap ++ rest).head?, p c = false := by
  cases gap with
  | nil => exact hrest
  | cons d gap =>
      rintro c ⟨⟩
      exact hp d (h d List.mem_cons_self)

theorem isNameChar_of_isBlank {c : Char} (h : isBlank c = true) : isNameChar c = false := by
  rw [← Bool.not_eq_true]
  intro hname
  rw [isBlank_of_isNameChar hname] at h
  cases h

/-- The pieces that a text may begin with are those of the right class that are long enough. -/
theorem mem_cuts_takeWhile {p : Char → Bool} {least : Nat} {cs front back : List Char} :
    (front, back) ∈ cuts least (cs.takeWhile p).length cs ↔
      cs = front ++ back ∧ least ≤ front.length ∧ ∀ c ∈ front, p c = true := by
  constructor
  · intro h
    obtain ⟨n, hn, heq⟩ := List.mem_map.mp h
    obtain ⟨rfl, rfl⟩ := Prod.mk.inj heq
    rw [List.mem_reverse, List.mem_range'_1] at hn
    have hbegins : cs.take n <+: cs.takeWhile p := by
      refine List.prefix_of_prefix_length_le (List.take_prefix n cs) (List.takeWhile_prefix p) ?_
      exact (List.length_take_le n cs).trans (by omega)
    have hlength : (cs.takeWhile p).length ≤ cs.length := (List.takeWhile_prefix p).length_le
    refine ⟨(List.take_append_drop n cs).symm, ?_, ?_⟩
    · rw [List.length_take_of_le (by omega)]
      omega
    · exact fun c hc => List.mem_takeWhile_imp (hbegins.subset hc)
  · rintro ⟨rfl, hleast, hall⟩
    have hmost : front.length ≤ ((front ++ back).takeWhile p).length := by
      rw [List.takeWhile_append_of_pos hall, List.length_append]
      exact Nat.le_add_right ..
    refine List.mem_map.mpr ⟨front.length, ?_, ?_⟩
    · rw [List.mem_reverse, List.mem_range'_1]
      omega
    · rw [List.take_left, List.drop_left]

/-- Every way to cut a name off the front is tried. -/
theorem mem_names_iff {cs name rest : List Char} :
    (name, rest) ∈ names cs ↔ cs = name ++ rest ∧ IsRun isNameChar name := by
  rw [names, mem_cuts_takeWhile]
  refine and_congr_right fun _ => ?_
  constructor
  · rintro ⟨hlength, hall⟩
    exact ⟨List.length_pos_iff.mp hlength, hall⟩
  · intro hname
    exact ⟨List.length_pos_iff.mpr hname.ne_nil, hname.all⟩

/-- Every way to cut a line of dashes off the front is tried. -/
theorem mem_dashes_iff {c : Char} {cs run rest : List Char} :
    (run, rest) ∈ dashes c cs ↔ cs = run ++ rest ∧ ∃ n, run = List.replicate (n + 2) c := by
  rw [dashes, mem_cuts_takeWhile]
  refine and_congr_right fun _ => ?_
  constructor
  · rintro ⟨hlength, hall⟩
    refine ⟨run.length - 2, ?_⟩
    rw [Nat.sub_add_cancel hlength]
    exact List.eq_replicate_iff.mpr ⟨rfl, fun d hd => beq_iff_eq.mp (hall d hd)⟩
  · rintro ⟨n, rfl⟩
    refine ⟨by simp, fun d hd => ?_⟩
    rw [List.eq_of_mem_replicate hd, beq_self_eq_true]

/-- What is read behind a line of dashes is an ending. -/
theorem isEnding_of_secondName? {cs : List Char} (h : (secondName? cs).isSome = true) :
    IsEnding cs := by
  obtain ⟨⟨right, label⟩, h⟩ := Option.isSome_iff_exists.mp h
  obtain ⟨⟨name, rest⟩, hrun, h⟩ := Option.bind_eq_some_iff.mp h
  obtain ⟨label', hlabel, -⟩ := Option.bind_eq_some_iff.mp h
  have hname : IsRun isNameChar name := ⟨(eq_append_of_run? hrun).2, all_of_run? hrun⟩
  obtain ⟨gap, hgap, hcs⟩ := exists_gap cs
  obtain ⟨behind, hbehind, hrest⟩ := exists_gap rest
  rw [hcs, (eq_append_of_run? hrun).1]
  rw [hrest]
  unfold ending? at hlabel
  split at hlabel
  · rename_i hnil
    rw [hnil, List.append_nil]
    exact .named hgap hname hbehind
  · rename_i text hcolon
    obtain ⟨inner, hinner, htext⟩ := exists_gap text
    have hline : '\n' ∉ trimStart text := by
      intro hbreak
      dsimp only at hlabel
      rw [if_pos (by simpa using hbreak)] at hlabel
      cases hlabel
    rw [hcolon, htext]
    exact .labelled hgap hname hbehind hinner hline
  · cases hlabel

theorem isSome_secondName? {cs : List Char} (h : IsEnding cs) :
    (secondName? cs).isSome = true := by
  have hread : ∀ {gap name rest : List Char}, IsGap gap → IsRun isNameChar name →
      (∀ c ∈ rest.head?, isNameChar c = false) → (ending? rest).isSome = true →
      (secondName? (gap ++ (name ++ rest))).isSome = true := by
    intro gap name rest hgap hname hrest hending
    obtain ⟨label, hlabel⟩ := Option.isSome_iff_exists.mp hending
    simp only [secondName?, trimStart_gap hgap, hname.trimStart_append isBlank_of_isNameChar,
      run?_append hname hrest, Option.bind_eq_bind, Option.bind_some, hlabel, Option.isSome_some]
  cases h with
  | named hgap hname hbehind =>
      refine hread hgap hname ?_ ?_
      · exact fun c hc => isNameChar_of_isBlank (hbehind c (List.mem_of_mem_head? hc))
      · rw [ending?, trimStart_of_isGap hbehind]
        rfl
  | @labelled gap name behind inner label hgap hname hbehind hinner hlabel =>
      refine hread hgap hname ?_ ?_
      · refine head?_gap_append hbehind (fun c => isNameChar_of_isBlank) ?_
        rintro c ⟨⟩
        rfl
      · have hline : (trimStart label).contains '\n' = false := by
          rw [List.contains_eq_mem, decide_eq_false_iff_not]
          exact fun hmem => hlabel ((List.dropWhile_suffix isBlank).subset hmem)
        rw [ending?, trimStart_gap hbehind, trimStart_cons (by decide)]
        simp only [trimStart_gap hinner, hline]
        rfl

theorem isSome_relationship?_iff {line : List Char} :
    (relationship? line).isSome = true ↔ HasForm .relationship line := by
  constructor
  · intro h
    obtain ⟨r, h⟩ := Option.isSome_iff_exists.mp h
    obtain ⟨⟨name, behind⟩, hname, h⟩ := List.exists_of_findSome?_eq_some h
    obtain ⟨a, ha, h⟩ := List.exists_of_findSome?_eq_some h
    obtain ⟨rest₁, h₁, h⟩ := Option.bind_eq_some_iff.mp h
    obtain ⟨⟨token, identifying⟩, hline, h⟩ := List.exists_of_findSome?_eq_some h
    obtain ⟨rest₂, h₂, h⟩ := Option.bind_eq_some_iff.mp h
    obtain ⟨b, hb, h⟩ := List.exists_of_findSome?_eq_some h
    obtain ⟨rest₃, h₃, h⟩ := Option.bind_eq_some_iff.mp h
    obtain ⟨second, h₄, -⟩ := Option.bind_eq_some_iff.mp h
    obtain ⟨rfl, hrun⟩ := mem_names_iff.mp hname
    obtain ⟨gap, hgap, hbehind⟩ := exists_gap behind
    rw [hbehind, strip?_eq_some.mp h₁, strip?_eq_some.mp h₂, strip?_eq_some.mp h₃]
    exact .relationship hrun hgap ha (List.mem_map_of_mem hline) hb
      (isEnding_of_secondName? (Option.isSome_iff_exists.mpr ⟨second, h₄⟩))
  · intro h
    cases h with | relationship hname hgap ha htoken hb hrest
    obtain ⟨⟨token, identifying⟩, hline, rfl⟩ := List.mem_map.mp htoken
    obtain ⟨⟨right, label⟩, hsecond⟩ := Option.isSome_iff_exists.mp (isSome_secondName? hrest)
    rw [relationship?, List.findSome?_isSome_iff]
    refine ⟨_, mem_names_iff.mpr ⟨rfl, hname⟩, ?_⟩
    rw [List.findSome?_isSome_iff]
    refine ⟨_, ha, ?_⟩
    simp only [trimStart_gap hgap, trimStart_symbol ha, strip?_append, Option.bind_eq_bind,
      Option.bind_some, List.findSome?_isSome_iff]
    refine ⟨_, hline, ?_⟩
    simp only [strip?_append, Option.bind_some, List.findSome?_isSome_iff]
    refine ⟨_, hb, ?_⟩
    simp only [strip?_append, Option.bind_some, hsecond, Option.isSome_some]

theorem isSome_plainRelationship?_iff {line : List Char} :
    (plainRelationship? line).isSome = true ↔ HasForm .plainRelationship line := by
  constructor
  · intro h
    obtain ⟨r, h⟩ := Option.isSome_iff_exists.mp h
    obtain ⟨⟨name, behind⟩, hname, h⟩ := List.exists_of_findSome?_eq_some h
    obtain ⟨c, hc, h⟩ := List.exists_of_findSome?_eq_some h
    obtain ⟨⟨run, rest⟩, hdashes, h⟩ := List.exists_of_findSome?_eq_some h
    obtain ⟨second, hsecond, -⟩ := Option.bind_eq_some_iff.mp h
    obtain ⟨rfl, hrun⟩ := mem_names_iff.mp hname
    obtain ⟨hrest, n, rfl⟩ := mem_dashes_iff.mp hdashes
    obtain ⟨gap, hgap, hbehind⟩ := exists_gap behind
    rw [hbehind, hrest]
    exact .plainRelationship hrun hgap hc
      (isEnding_of_secondName? (Option.isSome_iff_exists.mpr ⟨second, hsecond⟩))
  · intro h
    cases h with | @plainRelationship name gap rest c n hname hgap hc hrest
    obtain ⟨⟨right, label⟩, hsecond⟩ := Option.isSome_iff_exists.mp (isSome_secondName? hrest)
    have hstart : trimStart (List.replicate (n + 2) c ++ rest) =
        List.replicate (n + 2) c ++ rest := by
      have hsolid : IsRun (!isBlank ·) ['-', '.'] := by decide
      have hc' : isBlank c = false := Bool.not_eq_true' _ ▸ hsolid.all c hc
      rw [List.replicate_succ, List.cons_append, trimStart_cons hc']
    rw [plainRelationship?, List.findSome?_isSome_iff]
    refine ⟨_, mem_names_iff.mpr ⟨rfl, hname⟩, ?_⟩
    rw [List.findSome?_isSome_iff]
    refine ⟨c, hc, ?_⟩
    rw [List.findSome?_isSome_iff, trimStart_gap hgap, hstart]
    refine ⟨_, mem_dashes_iff.mpr ⟨rfl, n, rfl⟩, ?_⟩
    simp only [hsecond, Option.bind_eq_bind, Option.bind_some, Option.isSome_some]

/-! ### Aliases and blocks -/

theorem exists_dropOne (c : Char) (cs : List Char) :
    ∃ dropped ∈ [[], [c]], cs = dropped ++ dropOne c cs := by
  cases cs with
  | nil => exact ⟨[], by simp, rfl⟩
  | cons d cs =>
      rw [dropOne]
      by_cases h : c = d
      · exact ⟨[c], by simp, by simp [h]⟩
      · exact ⟨[], by simp, by simp [h]⟩

theorem dropOne_append_cons {c d : Char} (h : d ≠ c) (cs rest : List Char) :
    dropOne c (cs ++ d :: rest) = dropOne c cs ++ d :: rest := by
  cases cs with
  | nil => simp [dropOne, h.symm]
  | cons e cs =>
      rw [List.cons_append, dropOne, dropOne]
      split <;> rfl

theorem trimStart_append_cons {d : Char} (h : isBlank d = false) (cs rest : List Char) :
    trimStart (cs ++ d :: rest) = trimStart cs ++ d :: rest := by
  by_cases hcs : trimStart cs = []
  · rw [trimStart_gap (List.dropWhile_eq_nil_iff.mp hcs), trimStart_cons h, hcs, List.nil_append]
  · exact trimStart_append hcs _

/-- An alias that is read stands in brackets. -/
theorem exists_inside_of_otherName? {cs name rest : List Char}
    (h : otherName? cs = some (name, rest)) :
    ∃ inside, IsInside inside ∧ cs = '[' :: (inside ++ ']' :: rest) := by
  obtain ⟨text, htext, h⟩ := Option.bind_eq_some_iff.mp h
  obtain ⟨rest', hrest, h⟩ := Option.bind_eq_some_iff.mp h
  cases h
  rw [drop_length_takeWhile] at hrest
  obtain ⟨gap, hgap, h₁⟩ := exists_gap text
  obtain ⟨opened, hopened, h₂⟩ := exists_dropOne '"' (trimStart text)
  have h₃ := List.takeWhile_append_dropWhile (p := fun c => c != '"' && c != ']')
    (l := dropOne '"' (trimStart text))
  obtain ⟨closed, hclosed, h₄⟩ := exists_dropOne '"'
    ((dropOne '"' (trimStart text)).dropWhile fun c => c != '"' && c != ']')
  obtain ⟨behind, hbehind, h₅⟩ := exists_gap (dropOne '"'
    ((dropOne '"' (trimStart text)).dropWhile fun c => c != '"' && c != ']'))
  have hinside : ∀ c ∈ (dropOne '"' (trimStart text)).takeWhile fun c => c != '"' && c != ']',
      c ≠ '"' ∧ c ≠ ']' := by
    intro c hc
    simpa using List.mem_takeWhile_imp hc
  have hpieces : text = gap ++ (opened ++ ((dropOne '"' (trimStart text)).takeWhile
      (fun c => c != '"' && c != ']') ++ (closed ++ (behind ++ ([']'] ++ rest))))) := by
    rw [← strip?_eq_some.mp hrest, ← h₅, ← h₄, h₃, ← h₂, ← h₁]
  refine ⟨_, .intro hgap hopened (fun hc => (hinside _ hc).1 rfl) (fun hc => (hinside _ hc).2 rfl)
    hclosed hbehind, ?_⟩
  rw [strip?_eq_some.mp htext]
  conv => lhs; rw [hpieces]
  simp only [List.append_assoc, List.cons_append, List.nil_append]

/-- Without its blanks and a quote at the front, the inside of an alias ends in the same way. -/
theorem IsInside.exists_pieces {text : List Char} (h : IsInside text) :
    ∃ inside closed behind, dropOne '"' (trimStart text) = inside ++ (closed ++ behind) ∧
      (∀ c ∈ inside, (c != '"' && c != ']') = true) ∧ closed ∈ [[], ['"']] ∧ IsGap behind := by
  obtain @⟨gap, opened, inside, closed, behind, hgap, hopened, hquote, hbracket, hclosed,
    hbehind⟩ := h
  have hinside : ∀ c ∈ inside, (c != '"' && c != ']') = true := by
    intro c hc
    have hne : c ≠ '"' ∧ c ≠ ']' := ⟨fun h => hquote (h ▸ hc), fun h => hbracket (h ▸ hc)⟩
    simp [hne]
  rw [trimStart_gap hgap]
  rcases List.mem_pair.mp hopened with rfl | rfl
  · rw [List.nil_append]
    by_cases hblank : trimStart inside = []
    · rw [trimStart_gap (List.dropWhile_eq_nil_iff.mp hblank)]
      rcases List.mem_pair.mp hclosed with rfl | rfl
      · exact ⟨[], [], [], by rw [List.nil_append, trimStart_of_isGap hbehind]; rfl, nofun, by simp,
          nofun⟩
      · exact ⟨[], [], behind, rfl, nofun, by simp, hbehind⟩
    · rw [trimStart_append hblank]
      have hsuffix : trimStart inside <:+ inside := List.dropWhile_suffix isBlank
      refine ⟨trimStart inside, closed, behind, ?_, fun c hc => hinside c (hsuffix.subset hc),
        hclosed, hbehind⟩
      cases hstart : trimStart inside with
      | nil => exact absurd hstart hblank
      | cons c tail =>
          have hc : c ≠ '"' := fun h => hquote (hsuffix.subset (hstart ▸ h ▸ List.mem_cons_self))
          simp [dropOne, hc.symm]
  · exact ⟨inside, closed, behind, rfl, hinside, hclosed, hbehind⟩

/-- Every alias in brackets is read. -/
theorem otherName?_of_isInside {inside : List Char} (h : IsInside inside) (rest : List Char) :
    ∃ name, otherName? ('[' :: (inside ++ ']' :: rest)) = some (name, rest) := by
  obtain ⟨name, closed, behind, hpieces, hname, hclosed, hbehind⟩ := h.exists_pieces
  have hinner : dropOne '"' (trimStart (inside ++ ']' :: rest)) =
      name ++ (closed ++ (behind ++ ']' :: rest)) := by
    rw [trimStart_append_cons (by decide), dropOne_append_cons (by decide), hpieces,
      List.append_assoc, List.append_assoc]
  have hread : ∀ run after, (∀ c ∈ run, (c != '"' && c != ']') = true) →
      (∀ c ∈ after.head?, (c != '"' && c != ']') = false) →
      trimStart (dropOne '"' after) = ']' :: rest →
      dropOne '"' (trimStart (inside ++ ']' :: rest)) = run ++ after →
      otherName? ('[' :: (inside ++ ']' :: rest)) = some (run, rest) := by
    intro run after hrun hafter hrest heq
    simp [otherName?, strip?, heq, takeWhile_run hrun hafter, hrest]
  rcases List.mem_pair.mp hclosed with rfl | rfl
  · -- without a quote behind it the alias is read with the blanks in front of the bracket
    refine ⟨_, hread (name ++ behind) (']' :: rest) ?_ ?_ rfl ?_⟩
    · rw [List.forall_mem_append]
      refine ⟨hname, fun c hc => ?_⟩
      have hmarks : IsRun (!isBlank ·) ['"', ']'] := by decide
      have hblank := hbehind c hc
      simpa using hmarks.not_mem (c := c) (by rw [hblank, Bool.not_true])
    · rintro c ⟨⟩
      rfl
    · rw [hinner, List.nil_append, List.append_assoc]
  · refine ⟨_, hread name ('"' :: (behind ++ ']' :: rest)) hname ?_ ?_ hinner⟩
    · rintro c ⟨⟩
      rfl
    · rw [dropOne, if_pos (beq_self_eq_true _), trimStart_gap hbehind, trimStart_cons (by decide)]

/-- What is left of a block's opening behind its brace. -/
theorem closing_iff {cs : List Char} :
    (trimStart cs = [] ∨ trimStart cs = ['}']) ↔
      ∃ inner closing, cs = inner ++ closing ∧ IsGap inner ∧ closing ∈ [[], ['}']] := by
  constructor
  · intro h
    obtain ⟨inner, hinner, hcs⟩ := exists_gap cs
    refine ⟨inner, trimStart cs, hcs, hinner, ?_⟩
    rcases h with h | h <;> simp [h]
  · rintro ⟨inner, closing, rfl, hinner, hclosing⟩
    rw [trimStart_gap hinner]
    rcases List.mem_pair.mp hclosing with rfl | rfl
    · exact .inl rfl
    · exact .inr rfl

theorem hasForm_of_opening? {line : List Char} (h : (opening? line).isSome = true) :
    HasForm .opening line := by
  obtain ⟨st, h⟩ := Option.isSome_iff_exists.mp h
  obtain ⟨⟨name, behind⟩, hrun, h⟩ := Option.bind_eq_some_iff.mp h
  obtain ⟨rest, hbrace, h⟩ := Option.bind_eq_some_iff.mp h
  have hbrace : strip? ['{'] (trimStart ((otherName? (trimStart behind)).getD
      ([], trimStart behind)).2) = some rest := hbrace
  have hname : IsRun isNameChar name := ⟨(eq_append_of_run? hrun).2, all_of_run? hrun⟩
  obtain ⟨gap, hgap, hbehind⟩ := exists_gap behind
  have hclosing : trimStart rest = [] ∨ trimStart rest = ['}'] := by
    dsimp only at h
    split at h
    · exact .inl ‹_›
    · exact .inr ‹_›
    · cases h
  obtain ⟨inner, closing, rfl, hinner, hclosing⟩ := closing_iff.mp hclosing
  rw [(eq_append_of_run? hrun).1, hbehind]
  cases hother : otherName? (trimStart behind) with
  | none =>
      have hidem : trimStart (trimStart behind) = trimStart behind :=
        List.dropWhile_idempotent isBlank behind
      rw [hother, Option.getD_none, hidem] at hbrace
      rw [strip?_eq_some.mp hbrace, List.singleton_append]
      exact .opening hname hgap hinner hclosing
  | some p =>
      obtain ⟨other, after⟩ := p
      obtain ⟨inside, hinside, hbracket⟩ := exists_inside_of_otherName? hother
      obtain ⟨behind', hbehind', hafter⟩ := exists_gap after
      rw [hother, Option.getD_some] at hbrace
      rw [hbracket, hafter, strip?_eq_some.mp hbrace, List.singleton_append]
      exact .aliased hname hgap hinside hbehind' hinner hclosing

/-- A block opens behind a name, if what stands there is a brace once the alias is read. -/
theorem isSome_opening?_of_brace {name gap rest inner closing : List Char} {c : Char}
    (hname : IsRun isNameChar name) (hgap : IsGap gap) (hc : isNameChar c = false)
    (hblank : isBlank c = false)
    (hbrace : trimStart ((otherName? (c :: rest)).getD ([], c :: rest)).2 =
      '{' :: (inner ++ closing))
    (hinner : IsGap inner) (hclosing : closing ∈ [[], ['}']]) :
    (opening? (name ++ (gap ++ c :: rest))).isSome = true := by
  have hhead : ∀ d ∈ (gap ++ c :: rest).head?, isNameChar d = false := by
    refine head?_gap_append hgap (fun d => isNameChar_of_isBlank) ?_
    rintro d ⟨⟩
    exact hc
  have hstart : trimStart (gap ++ c :: rest) = c :: rest := by
    rw [trimStart_gap hgap, trimStart_cons hblank]
  rcases closing_iff.mpr ⟨inner, closing, rfl, hinner, hclosing⟩ with hclosed | hclosed <;>
    simp [opening?, run?_append hname hhead, hstart, hbrace, strip?, hclosed]

theorem isSome_opening?_iff {line : List Char} :
    (opening? line).isSome = true ↔ HasForm .opening line := by
  refine ⟨hasForm_of_opening?, fun h => ?_⟩
  cases h with
  | opening hname hgap hinner hclosing =>
      exact isSome_opening?_of_brace hname hgap (by decide) (by decide) rfl hinner hclosing
  | @aliased name gap inside behind inner closing hname hgap hinside hbehind hinner hclosing =>
      obtain ⟨other, hother⟩ :=
        otherName?_of_isInside hinside (behind ++ '{' :: (inner ++ closing))
      refine isSome_opening?_of_brace hname hgap (by decide) (by decide) ?_ hinner hclosing
      rw [hother, Option.getD_some, trimStart_gap hbehind, trimStart_cons (by decide)]

/-- Every reader reads exactly the lines of its form. -/
theorem isSome_read?_iff {f : Form} {line : List Char} :
    (f.read? line).isSome = true ↔ HasForm f line := by
  cases f with
  | relationship => rw [Form.read?, Option.isSome_map, isSome_relationship?_iff]
  | plainRelationship => rw [Form.read?, Option.isSome_map, isSome_plainRelationship?_iff]
  | opening => exact isSome_opening?_iff

/-! ### One form at most -/

/-- No line has two forms. -/
theorem HasForm.unique {f g : Form} {line : List Char} (hf : HasForm f line) (hg : HasForm g line) :
    f = g :=
  (formOf_eq hf).symm.trans (formOf_eq hg)

/-- What is found does not depend on the order of the search if only one is there to be found. -/
theorem findSome?_perm {α β : Type} {read : α → Option β} {xs ys : List α} (h : xs.Perm ys)
    (hone : ∀ x ∈ xs, ∀ y ∈ xs, (read x).isSome = true → (read y).isSome = true → x = y) :
    xs.findSome? read = ys.findSome? read := by
  cases hxs : xs.findSome? read with
  | none =>
      rw [List.findSome?_eq_none_iff] at hxs
      exact (List.findSome?_eq_none_iff.mpr fun y hy => hxs y (h.mem_iff.mpr hy)).symm
  | some b =>
      obtain ⟨x, hx, hb⟩ := List.exists_of_findSome?_eq_some hxs
      have hsome : (read x).isSome = true := by rw [hb, Option.isSome_some]
      have hys : (ys.findSome? read).isSome = true :=
        List.findSome?_isSome_iff.mpr ⟨x, h.mem_iff.mp hx, hsome⟩
      obtain ⟨b', hys⟩ := Option.isSome_iff_exists.mp hys
      obtain ⟨y, hy, hb'⟩ := List.exists_of_findSome?_eq_some hys
      obtain rfl : x = y :=
        hone x hx y (h.mem_iff.mpr hy) hsome (by rw [hb', Option.isSome_some])
      rw [hys, ← hb, hb']

/-- No line has two of the three forms, which their readers accept exactly. So in whatever order the
forms are tried, a line is read as the same statement. -/
theorem forms_disjoint (line : List Char) {order : List Form}
    (horder : order.Perm [.relationship, .plainRelationship, .opening]) :
    (∀ f : Form, (f.read? line).isSome = true ↔ HasForm f line) ∧
      (order.Pairwise fun f g => ¬ (HasForm f line ∧ HasForm g line)) ∧
      Statement.ofLine? line = order.findSome? (·.read? (trim line)) := by
  have hnodup : order.Nodup := horder.nodup_iff.mpr (by decide)
  have hfirst : Statement.ofLine? line =
      [Form.relationship, .plainRelationship, .opening].findSome? (·.read? (trim line)) := by
    simp only [Statement.ofLine?, List.findSome?_cons, List.findSome?_nil, Form.read?]
    cases relationship? (trim line) <;> cases plainRelationship? (trim line) <;>
      cases opening? (trim line) <;> rfl
  refine ⟨fun f => isSome_read?_iff, ?_, ?_⟩
  · exact hnodup.imp fun hne h => hne (h.1.unique h.2)
  · rw [hfirst]
    refine (findSome?_perm horder fun f _ g _ hf hg => ?_).symm
    exact (isSome_read?_iff.mp hf).unique (isSome_read?_iff.mp hg)

/-- A brace that is a symbol, read with the forms tried from the last to the first. -/
theorem forms_disjoint_brace :
    [Form.opening, .plainRelationship, .relationship].Perm
        [.relationship, .plainRelationship, .opening] ∧
      Statement.ofLine? "a-- \x7b--o\x7b b : [x] \x7b\x7d".toList =
        some (.relationship
          { left := "a--"
            right := "b"
            ends := some ("\x7b", "o\x7b")
            identifying := true
            label := some "[x] \x7b\x7d" }) := by
  have horder : [Form.opening, .plainRelationship, .relationship].Perm
      [.relationship, .plainRelationship, .opening] := by decide
  obtain ⟨-, -, hread⟩ := forms_disjoint "a-- \x7b--o\x7b b : [x] \x7b\x7d".toList horder
  exact ⟨horder, hread.trans (by decide +kernel)⟩

end Whiteboard.Entity
