import Mathlib.Data.List.Infix
import Mathlib.Data.List.TakeWhile
import Whiteboard.Proofs.Text.Blank
import Whiteboard.Text.Search

/-!
Where a token is found.

A text is cut at the first occurrence of a token, and only if there is one (`cut?_eq_none_iff`,
`length_le_of_cut?`). A character that is not in the token keeps what lies on its two sides apart
(`cut?_append_cons`), and a token whose first character occurs in it only once is found as soon as
it is written (`cut?_append`). A run of characters is read up to the first one of another class
(`run?_append`), and of a table of tokens the one that is written (`findSome?_strip?`). What stands
up to a token does so whatever follows the token (`upTo_append`), and a text without the token is
left alone by `replaceAll`.
-/

namespace Whiteboard.Text

theorem strip?_eq_none_iff {token cs : List Char} : strip? token cs = none ↔ ¬ token <+: cs := by
  rw [Option.eq_none_iff_forall_ne_some]
  constructor
  · rintro h ⟨rest, hrest⟩
    exact h rest (strip?_eq_some.mpr hrest.symm)
  · intro h rest hrest
    exact h ⟨rest, (strip?_eq_some.mp hrest).symm⟩

/-- Where a token does not stand, it is searched further on. -/
theorem cut?_cons_of_not_isPrefix {token : List Char} {c : Char} {cs : List Char}
    (h : ¬ token <+: c :: cs) :
    cut? token (c :: cs) = (cut? token cs).map fun (before, rest) => (c :: before, rest) := by
  rw [cut?, strip?_eq_none_iff.mpr h]

theorem cut?_append_self {token : List Char} (ht : token ≠ []) (rest : List Char) :
    cut? token (token ++ rest) = some ([], rest) := by
  cases token with
  | nil => exact absurd rfl ht
  | cons t ts =>
      rw [List.cons_append, cut?]
      rw [← List.cons_append, strip?_append]

/-- A text is cut if the token occurs in it. -/
theorem cut?_eq_none_iff {token cs : List Char} : cut? token cs = none ↔ ¬ token <:+: cs := by
  induction cs with
  | nil =>
      rw [cut?, Option.map_eq_none_iff, strip?_eq_none_iff, List.prefix_nil, List.infix_nil]
  | cons c cs ih =>
      rw [List.infix_cons_iff, not_or]
      by_cases h : token <+: c :: cs
      · obtain ⟨rest, hrest⟩ := h
        rw [cut?, strip?_eq_some.mpr hrest.symm]
        simp [← hrest]
      · rw [cut?_cons_of_not_isPrefix h, Option.map_eq_none_iff, ih]
        exact ⟨fun hcs => ⟨h, hcs⟩, And.right⟩

/-- No occurrence of the token begins before the one at which the text is cut. -/
theorem length_le_of_cut? {token cs before rest b r : List Char}
    (h : cut? token cs = some (before, rest)) (hcs : cs = b ++ token ++ r) :
    before.length ≤ b.length := by
  induction cs generalizing before b with
  | nil =>
      obtain ⟨hb, -⟩ := List.append_eq_nil_iff.mp (eq_append_of_cut? h).symm
      rw [(List.append_eq_nil_iff.mp hb).1]
      exact Nat.zero_le _
  | cons c cs ih =>
      by_cases hc : token <+: c :: cs
      · obtain ⟨rest', hrest⟩ := hc
        rw [cut?, strip?_eq_some.mpr hrest.symm] at h
        cases h
        exact Nat.zero_le _
      · rw [cut?_cons_of_not_isPrefix hc] at h
        obtain ⟨⟨before', rest'⟩, hcut, heq⟩ := Option.map_eq_some_iff.mp h
        cases heq
        cases b with
        | nil => exact absurd ⟨r, hcs.symm⟩ hc
        | cons x b =>
            rw [List.cons_append, List.cons_append] at hcs
            exact Nat.succ_le_succ (ih hcut (List.cons.inj hcs).2)

/-- The token does not occur before the place where the text is cut. -/
theorem not_infix_of_cut? {token cs before rest : List Char} (ht : token ≠ [])
    (h : cut? token cs = some (before, rest)) : ¬ token <:+: before := by
  rintro ⟨a, b, hab⟩
  have hcs : cs = a ++ token ++ (b ++ token ++ rest) := by
    rw [eq_append_of_cut? h, ← hab]
    simp only [List.append_assoc]
  have hle := length_le_of_cut? h hcs
  have hpos := List.length_pos_iff.mpr ht
  rw [← hab, List.length_append, List.length_append] at hle
  omega

/-- A run consists of characters of its class. -/
theorem all_of_run? {p : Char → Bool} {cs run rest : List Char} (h : run? p cs = some (run, rest)) :
    ∀ c ∈ run, p c = true := by
  simp only [run?] at h
  split at h
  · cases h
  · cases h
    exact fun c hc => List.mem_takeWhile_imp hc

/-- A text that is not empty, of characters of one class. -/
structure IsRun (p : Char → Bool) (run : List Char) : Prop where
  ne_nil : run ≠ []
  all : ∀ c ∈ run, p c = true

theorem isRun_iff {p : Char → Bool} {run : List Char} :
    IsRun p run ↔ (!run.isEmpty && run.all p) = true := by
  rw [Bool.and_eq_true, List.all_eq_true, Bool.not_eq_true', List.isEmpty_eq_false_iff]
  exact ⟨fun h => ⟨h.ne_nil, h.all⟩, fun ⟨hne, hall⟩ => ⟨hne, hall⟩⟩

instance (p : Char → Bool) (run : List Char) : Decidable (IsRun p run) :=
  decidable_of_iff _ isRun_iff.symm

section Run

variable {p : Char → Bool} {run rest : List Char}

/-- Nothing more is taken if what follows begins with a character of another class. -/
theorem takeWhile_append_of_head? (hrest : ∀ c ∈ rest.head?, p c = false) (cs : List Char) :
    (cs ++ rest).takeWhile p = cs.takeWhile p := by
  have hnil : rest.takeWhile p = [] := by
    cases rest with
    | nil => rfl
    | cons c rest => rw [List.takeWhile_cons_of_neg (by simp [hrest c rfl])]
  rw [List.takeWhile_append, hnil, List.append_nil]
  split
  · rename_i hlength
    exact ((List.takeWhile_prefix p).eq_of_length hlength).symm
  · rfl

/-- Nothing more is dropped if what follows begins with a character of another class. -/
theorem dropWhile_append_of_head? (hrest : ∀ c ∈ rest.head?, p c = false) (cs : List Char) :
    (cs ++ rest).dropWhile p = cs.dropWhile p ++ rest := by
  have hself : rest.dropWhile p = rest := by
    cases rest with
    | nil => rfl
    | cons c rest => rw [List.dropWhile_cons_of_neg (by simp [hrest c rfl])]
  rw [List.dropWhile_append, hself]
  split
  · rename_i hempty
    rw [List.isEmpty_iff.mp hempty, List.nil_append]
  · rfl

/-- Nothing more is dropped at the end if what stands in front ends with a character of another
class. -/
theorem rdropWhile_append_of_getLast? {cs : List Char} (hcs : ∀ c ∈ cs.getLast?, p c = false)
    (rest : List Char) : (cs ++ rest).rdropWhile p = cs ++ rest.rdropWhile p := by
  rw [← List.head?_reverse] at hcs
  rw [List.rdropWhile, List.reverse_append, dropWhile_append_of_head? hcs, List.reverse_append,
    List.reverse_reverse, List.rdropWhile]

/-- A run ends in front of what is not of its class. -/
theorem takeWhile_run (hrun : ∀ c ∈ run, p c = true) (hrest : ∀ c ∈ rest.head?, p c = false) :
    (run ++ rest).takeWhile p = run := by
  rw [takeWhile_append_of_head? hrest, List.takeWhile_eq_self_iff.mpr hrun]

theorem dropWhile_run (hrun : ∀ c ∈ run, p c = true) (hrest : ∀ c ∈ rest.head?, p c = false) :
    (run ++ rest).dropWhile p = rest := by
  rw [dropWhile_append_of_head? hrest, List.dropWhile_eq_nil_iff.mpr hrun, List.nil_append]

/-- A run is read up to the first character that is not of its class. -/
theorem run?_append (hrun : IsRun p run) (hrest : ∀ c ∈ rest.head?, p c = false) :
    run? p (run ++ rest) = some (run, rest) := by
  simp [run?, takeWhile_run hrun.all hrest, dropWhile_run hrun.all hrest, hrun.ne_nil]

theorem IsRun.not_mem (hrun : IsRun p run) {c : Char} (hc : p c = false) : c ∉ run := by
  intro hmem
  have hp := hrun.all c hmem
  rw [hc] at hp
  cases hp

/-- A run is one of every wider class. -/
theorem IsRun.mono {q : Char → Bool} (hrun : IsRun p run) (h : ∀ c, p c = true → q c = true) :
    IsRun q run where
  ne_nil := hrun.ne_nil
  all c hc := h c (hrun.all c hc)

/-- A text that begins with a run begins with a character of its class. -/
theorem IsRun.of_mem_head? (hrun : IsRun p run) {c : Char} (hc : c ∈ (run ++ rest).head?) :
    p c = true := by
  cases run with
  | nil => exact absurd rfl hrun.ne_nil
  | cons d run =>
      cases hc
      exact hrun.all c List.mem_cons_self

section Solid

variable (hrun : IsRun p run) (hsolid : ∀ {c}, p c = true → isBlank c = false)

include hrun hsolid

theorem IsRun.trimStart_append (rest : List Char) : trimStart (run ++ rest) = run ++ rest := by
  rw [trimStart_eq_self_iff]
  exact fun c hc => hsolid (hrun.of_mem_head? hc)

/-- A run without blanks is trimmed. -/
theorem IsRun.trim_eq_self : trim run = run := by
  rw [trim_eq_self_iff]
  constructor
  · exact fun c hc => hsolid (hrun.all c (List.mem_of_mem_head? hc))
  · exact fun c hc => hsolid (hrun.all c (List.mem_of_mem_getLast? hc))

end Solid

theorem drop_length_takeWhile (p : Char → Bool) (cs : List Char) :
    cs.drop (cs.takeWhile p).length = cs.dropWhile p := by
  have hdrop := @List.drop_append_length _ (cs.takeWhile p) (cs.dropWhile p)
  rwa [List.takeWhile_append_dropWhile] at hdrop

end Run

/-! ### Tokens that cannot arise across a border -/

/-- What begins a text that goes on with a character begins the part in front of that character, or
else reaches the character. -/
theorem isPrefix_or_concat_isPrefix {token a b : List Char} {c : Char} (h : token <+: a ++ c :: b) :
    token <+: a ∨ a ++ [c] <+: token := by
  rcases Nat.lt_or_ge a.length token.length with hlt | hle
  · right
    have hac : a ++ [c] <+: a ++ c :: b := ⟨b, by rw [List.append_assoc, List.singleton_append]⟩
    exact List.prefix_of_prefix_length_le hac h (by simpa using Nat.succ_le_of_lt hlt)
  · left
    exact List.prefix_of_prefix_length_le h (List.prefix_append a _) hle

theorem not_isPrefix_cons {token : List Char} (ht : token ≠ []) {c : Char} (hc : c ∉ token)
    (cs : List Char) : ¬ token <+: c :: cs := by
  cases token with
  | nil => exact absurd rfl ht
  | cons t token =>
      rw [List.cons_prefix_cons]
      rintro ⟨rfl, -⟩
      exact hc List.mem_cons_self

theorem not_infix_of_cons {token cs : List Char} {c : Char} (h : ¬ token <:+: c :: cs) :
    ¬ token <:+: cs :=
  fun hcs => h (hcs.trans (List.suffix_cons c cs).isInfix)

/-- What stands on the two sides of a character is not joined by a token without it. -/
theorem cut?_append_cons {token a b : List Char} {c : Char} (hc : c ∉ token)
    (ha : ¬ token <:+: a) :
    cut? token (a ++ c :: b) =
      (cut? token b).map fun (before, rest) => (a ++ c :: before, rest) := by
  have hbegins : ∀ x, ¬ token <:+: x → ¬ token <+: x ++ c :: b := by
    intro x hx htoken
    rcases isPrefix_or_concat_isPrefix htoken with h | h
    · exact hx h.isInfix
    · exact hc (h.subset (List.mem_append_right x (List.mem_singleton_self c)))
  induction a with
  | nil => exact cut?_cons_of_not_isPrefix (hbegins [] ha)
  | cons x a ih =>
      have hx : ¬ token <+: x :: (a ++ c :: b) := hbegins (x :: a) ha
      rw [List.cons_append, cut?_cons_of_not_isPrefix hx, ih (not_infix_of_cons ha), Option.map_map]
      rfl

/-- A token whose first character does not occur in it again is found as soon as it is written. -/
theorem cut?_append {t : Char} {ts a rest : List Char} (ht : t ∉ ts)
    (ha : ¬ t :: ts <:+: a) : cut? (t :: ts) (a ++ t :: ts ++ rest) = some (a, rest) := by
  induction a with
  | nil => exact cut?_append_self (List.cons_ne_nil t ts) rest
  | cons x a ih =>
      have hx : ¬ t :: ts <+: x :: (a ++ t :: ts ++ rest) := by
        rw [List.append_assoc, ← List.cons_append]
        intro htoken
        rcases isPrefix_or_concat_isPrefix htoken with h | h
        · exact ha h.isInfix
        · rw [List.cons_append, List.cons_prefix_cons] at h
          exact ht (h.2.subset (List.mem_append_right a (List.mem_singleton_self t)))
      rw [List.cons_append, List.cons_append, cut?_cons_of_not_isPrefix hx,
        ih (not_infix_of_cons ha)]
      rfl

/-- Where no token of a table begins another one behind it, the one that is written is read, if no
other goes on with what follows. -/
theorem findSome?_strip?_cons {α β : Type} {table : List α} {token : α → List Char}
    (hpairwise : table.Pairwise fun a b => ¬ token a <+: token b) {a : α} (ha : a ∈ table)
    {c : Char} (hc : ∀ b ∈ table, ¬ token a ++ [c] <+: token b) {rest : List Char}
    {read : α → List Char → Option β} {x : β} (hx : read a (c :: rest) = some x) :
    (table.findSome? fun b => (strip? (token b) (token a ++ c :: rest)).bind (read b)) =
      some x := by
  obtain ⟨earlier, later, rfl⟩ := List.append_of_mem ha
  rw [List.findSome?_eq_some_iff]
  refine ⟨earlier, a, later, rfl, ?_, ?_⟩
  · rw [strip?_append, Option.bind_some, hx]
  · intro b hb
    have hnone : strip? (token b) (token a ++ c :: rest) = none := by
      rw [strip?_eq_none_iff]
      intro hprefix
      rcases isPrefix_or_concat_isPrefix hprefix with h | h
      · exact (List.pairwise_append.mp hpairwise).2.2 b hb a List.mem_cons_self h
      · exact hc b (List.mem_append_left _ hb) h
    rw [hnone, Option.bind_none]

/-- The token that is written is read if what follows cannot belong to a token. -/
theorem findSome?_strip? {α β : Type} {table : List α} {token : α → List Char}
    (hpairwise : table.Pairwise fun a b => ¬ token a <+: token b) {a : α} (ha : a ∈ table)
    {c : Char} (hc : ∀ b ∈ table, c ∉ token b) {rest : List Char}
    {read : α → List Char → Option β} {x : β} (hx : read a (c :: rest) = some x) :
    (table.findSome? fun b => (strip? (token b) (token a ++ c :: rest)).bind (read b)) =
      some x :=
  findSome?_strip?_cons hpairwise ha
    (fun b hb h => hc b hb (h.subset (List.mem_append_right _ (List.mem_singleton_self c)))) hx

/-! ### Up to a token -/

/-- What stands in front of the first occurrence of a token does so whatever stands behind it. -/
theorem upTo_append {token cs text rest : List Char} (h : upTo token cs = (text, token ++ rest))
    (rest' : List Char) : upTo token (text ++ (token ++ rest')) = (text, token ++ rest') := by
  induction cs generalizing text with
  | nil =>
      obtain ⟨rfl, htoken⟩ := Prod.mk.inj h
      obtain ⟨rfl, rfl⟩ := List.append_eq_nil_iff.mp htoken.symm
      cases rest' <;> simp [upTo]
  | cons x cs ih =>
      rw [upTo] at h
      split at h
      · obtain ⟨rfl, -⟩ := Prod.mk.inj h
        cases htoken : token ++ rest' with
        | nil => rfl
        | cons y ys =>
            have hbegins : token.isPrefixOf (y :: ys) = true :=
              List.isPrefixOf_iff_prefix.mpr ⟨rest', htoken⟩
            rw [List.nil_append, upTo, if_pos hbegins]
      · rename_i hnot
        obtain ⟨htext, hrest⟩ := Prod.mk.inj h
        subst htext
        have hbefore : upTo token cs = ((upTo token cs).1, token ++ rest) := Prod.ext rfl hrest
        -- an occurrence at the front would have to end in front of what is exchanged
        have hcs : x :: cs = x :: (upTo token cs).1 ++ token ++ rest := by
          conv => lhs; rw [eq_append_upTo token cs]
          rw [hrest]
          simp
        have hnot' : ¬ token.isPrefixOf (x :: ((upTo token cs).1 ++ (token ++ rest'))) = true := by
          rw [List.isPrefixOf_iff_prefix] at hnot ⊢
          intro htoken
          apply hnot
          rw [hcs]
          refine List.IsPrefix.trans ?_ (List.prefix_append _ rest)
          refine List.prefix_of_prefix_length_le htoken ⟨rest', by simp⟩ ?_
          simp only [List.length_append, List.length_cons]
          omega
        rw [List.cons_append, upTo, if_neg hnot', ih hbefore]

/-- A search stops in front of its token or at the end. -/
theorem upTo_cases (token cs : List Char) :
    (upTo token cs).2 = [] ∨ ∃ rest, (upTo token cs).2 = token ++ rest := by
  induction cs with
  | nil => exact .inl rfl
  | cons x cs ih =>
      rw [upTo]
      split
      · rename_i hbegins
        obtain ⟨rest, hrest⟩ := List.isPrefixOf_iff_prefix.mp hbegins
        exact .inr ⟨rest, hrest.symm⟩
      · exact ih

/-! ### Replacing -/

/-- A text without the token stays as it is. -/
theorem replaceAll_eq_self {token put cs : List Char} (h : ¬ token <:+: cs) :
    replaceAll token put cs = cs := by
  induction cs with
  | nil => rfl
  | cons c cs ih =>
      have hbegins : ¬ token.isPrefixOf (c :: cs) = true := by
        rw [List.isPrefixOf_iff_prefix]
        exact fun hp => h hp.isInfix
      have hrest : replaceFrom token put 0 cs = cs := ih (not_infix_of_cons h)
      rw [replaceAll, replaceFrom, if_neg hbegins, hrest]

/-- Replacing leaves nothing only of nothing, if something is put in the place of the token. -/
theorem replaceAll_eq_nil_iff {token put cs : List Char} (hput : put ≠ []) :
    replaceAll token put cs = [] ↔ cs = [] := by
  cases cs with
  | nil => exact iff_of_true rfl rfl
  | cons c cs =>
      refine iff_of_false ?_ (List.cons_ne_nil c cs)
      rw [replaceAll, replaceFrom]
      split
      · exact List.append_ne_nil_of_left_ne_nil hput _
      · exact List.cons_ne_nil c _

end Whiteboard.Text
