import Mathlib.Order.Bounds.Basic
import Mathlib.Tactic.NormNum.Pow
import Whiteboard.Proofs.Scene.Emission

/-!
The order of index tokens.

A source answers requests for ids, seeds and index tokens in any order, and only a request for a
token moves the counter that the next token is made of: the tokens of a run are those of the numbers
from the first one on (`tokens_eq`). The digits of a token have the value of its number, so no
token is issued twice. Numbers of up to eight digits give tokens of one length, and digits of one
length stand in the order of their values (`map_toUInt8_lt`). The ninth digit ends this: the token
of 10 ^ 8 stands before the one that is issued before it, and a scene is in the order of its tokens
exactly if it has no more elements than that (`tokens_ascend`).
-/

namespace Whiteboard.Source

def bytes (text : String) : List UInt8 :=
  text.toUTF8.data.toList

/-! ### Digits -/

section Digits

variable {c d : Char} {cs ds : List Char}

theorem toNat_of_isDigit (h : c.isDigit = true) : 48 ≤ c.toNat ∧ c.toNat ≤ 57 :=
  Char.isDigit_iff_toNat.mp h

theorem toNat_zero : '0'.toNat = 48 := rfl

theorem toNat_toUInt8 (h : c.toNat < 128) : c.toUInt8.toNat = c.toNat := by
  change c.val.toUInt8.toNat = c.val.toNat
  have hc : c.val.toNat < 128 := h
  rw [UInt32.toNat_toUInt8]
  omega

/-- A text of characters below 128 has a byte for each character. -/
theorem bytes_ofList (h : ∀ c ∈ cs, c.toNat < 128) :
    bytes (String.ofList cs) = cs.map Char.toUInt8 := by
  have hbytes : bytes (String.ofList cs) = cs.flatMap String.utf8EncodeChar := by
    simp [bytes, List.utf8Encode]
  rw [hbytes, List.map_eq_flatMap]
  refine List.flatMap_congr fun c hc => ?_
  apply String.utf8EncodeChar_eq_singleton
  exact Char.utf8Size_eq_one_iff.mpr (UInt32.le_iff_toNat_le.mpr (Nat.le_of_lt_succ (h c hc)))

/-- Digits behind a number give it places, and fill them at most with nines. -/
theorem ofDigitChars_bounds (h : ∀ c ∈ cs, c.isDigit = true) (n : Nat) :
    10 ^ cs.length * n ≤ Nat.ofDigitChars 10 cs n ∧
      Nat.ofDigitChars 10 cs n < 10 ^ cs.length * (n + 1) := by
  induction cs generalizing n with
  | nil => simp [Nat.ofDigitChars]
  | cons c cs ih =>
      rw [List.forall_mem_cons] at h
      have hc := toNat_of_isDigit h.1
      obtain ⟨hlower, hupper⟩ := ih h.2 (10 * n + (c.toNat - 48))
      rw [Nat.ofDigitChars_cons, toNat_zero, List.length_cons, pow_succ, Nat.mul_assoc,
        Nat.mul_assoc]
      constructor
      · exact (Nat.mul_le_mul_left _ (by omega)).trans hlower
      · exact hupper.trans_le (Nat.mul_le_mul_left _ (by omega))

/-- Digits of one length stand in the order of their values. -/
theorem map_toUInt8_lt (hcs : ∀ c ∈ cs, c.isDigit = true) (hds : ∀ d ∈ ds, d.isDigit = true)
    (hlength : cs.length = ds.length) {n : Nat}
    (h : Nat.ofDigitChars 10 cs n < Nat.ofDigitChars 10 ds n) :
    cs.map Char.toUInt8 < ds.map Char.toUInt8 := by
  induction cs generalizing ds n with
  | nil =>
      obtain rfl := List.length_eq_zero_iff.mp hlength.symm
      exact absurd h (Nat.lt_irrefl n)
  | cons c cs ih =>
      obtain ⟨d, ds, rfl⟩ := List.exists_cons_of_length_eq_add_one hlength.symm
      rw [List.length_cons, List.length_cons, Nat.add_right_cancel_iff] at hlength
      rw [List.forall_mem_cons] at hcs hds
      have hc := toNat_of_isDigit hcs.1
      have hd := toNat_of_isDigit hds.1
      rw [Nat.ofDigitChars_cons, Nat.ofDigitChars_cons, toNat_zero] at h
      rw [List.map_cons, List.map_cons, List.cons_lt_cons_iff, UInt8.lt_iff_toNat_lt,
        toNat_toUInt8 (by omega), toNat_toUInt8 (by omega)]
      rcases Nat.lt_trichotomy c.toNat d.toNat with hlt | heq | hgt
      · exact .inl hlt
      · obtain rfl := Char.toNat_inj.mp heq
        exact .inr ⟨rfl, ih hcs.2 hds.2 hlength h⟩
      · -- the greater digit outweighs all that follow it
        have hlower := (ofDigitChars_bounds hcs.2 (10 * n + (c.toNat - 48))).1
        have hupper := (ofDigitChars_bounds hds.2 (10 * n + (d.toNat - 48))).2
        rw [← hlength] at hupper
        have hle := Nat.mul_le_mul_left (10 ^ cs.length)
          (show 10 * n + (d.toNat - 48) + 1 ≤ 10 * n + (c.toNat - 48) by omega)
        omega

end Digits

/-! ### Tokens -/

variable {m n : Nat}

def tokenDigits (n : Nat) : List Char :=
  List.replicate (8 - (Nat.toDigits 10 n).length) '0' ++ Nat.toDigits 10 n

theorem toList_indexToken (n : Nat) : (indexToken n).toList = 'a' :: tokenDigits n :=
  String.toList_ofList

theorem isDigit_of_mem_tokenDigits {c : Char} (h : c ∈ tokenDigits n) : c.isDigit = true := by
  rcases List.mem_append.mp h with h | h
  · rw [List.eq_of_mem_replicate h]
    rfl
  · exact Nat.isDigit_of_mem_toDigits (by decide) (by decide) h

/-- The digits of a token are those of its number. -/
theorem value_tokenDigits (n : Nat) : Nat.ofDigitChars 10 (tokenDigits n) 0 = n := by
  rw [tokenDigits, Nat.ofDigitChars_append, Nat.ofDigitChars_replicate_zero, Nat.mul_zero,
    Nat.ofDigitChars_ten_toDigits]

/-- Below `10 ^ 8` a token has eight digits. -/
theorem length_tokenDigits (h : n < 10 ^ 8) : (tokenDigits n).length = 8 := by
  have hle := (Nat.length_toDigits_le_iff (by decide) (by decide)).mpr h
  rw [tokenDigits, List.length_append, List.length_replicate]
  omega

/-- Different numbers have different tokens. -/
theorem indexToken_injective : Function.Injective indexToken := by
  intro m n h
  have hlist := congrArg String.toList h
  rw [toList_indexToken, toList_indexToken] at hlist
  rw [← value_tokenDigits m, (List.cons.inj hlist).2, value_tokenDigits]

theorem bytes_indexToken (n : Nat) :
    bytes (indexToken n) = 'a'.toUInt8 :: (tokenDigits n).map Char.toUInt8 := by
  refine bytes_ofList (List.forall_mem_cons.mpr ⟨by decide, fun c hc => ?_⟩)
  have hdigit := toNat_of_isDigit (isDigit_of_mem_tokenDigits hc)
  omega

/-- As long as eight digits are enough, tokens stand in the order of their numbers. -/
theorem bytes_indexToken_lt (h : m < n) (hn : n < 10 ^ 8) :
    bytes (indexToken m) < bytes (indexToken n) := by
  rw [bytes_indexToken, bytes_indexToken, List.cons_lt_cons_self]
  refine map_toUInt8_lt (n := 0) (fun _ => isDigit_of_mem_tokenDigits)
    (fun _ => isDigit_of_mem_tokenDigits) ?_ ?_
  · rw [length_tokenDigits (h.trans hn), length_tokenDigits hn]
  · rwa [value_tokenDigits, value_tokenDigits]

/-- The first token with nine digits does not stand behind the last one with eight. -/
theorem not_bytes_indexToken_lt :
    ¬ bytes (indexToken (10 ^ 8 - 1)) < bytes (indexToken (10 ^ 8)) := by
  have hcarry : tokenDigits 100000000 = "100000000".toList := by decide +kernel
  have hnines : tokenDigits 99999999 = "99999999".toList := by decide +kernel
  norm_num only [bytes_indexToken]
  rw [hcarry, hnines]
  decide

/-! ### Runs -/

/-- What may be asked of a source. -/
inductive Request where
  | id | seed | index
deriving DecidableEq, Repr

inductive Answer where
  | id (name : String)
  | seed (n : Nat)
  | index (token : String)
deriving DecidableEq, Repr

def Answer.token? : Answer → Option String
  | index token => some token
  | id _ | seed _ => none

variable {g : Generator}

/-- What a source gives on a request, and the source after it. -/
def answer (s : Source g) : Request → Answer × Source g
  | .id => s.id.map .id fun s => s
  | .seed => s.seed.map .seed fun s => s
  | .index => s.index.map .index fun s => s

/-- What a source gives on some requests, one after the other. -/
def answers : Source g → List Request → List Answer
  | _, [] => []
  | s, r :: rs => (s.answer r).1 :: answers (s.answer r).2 rs

def tokens (s : Source g) (rs : List Request) : List String :=
  (s.answers rs).filterMap Answer.token?

/-- Only a request for an index token moves the counter. -/
theorem nextIndex_answer (s : Source g) (r : Request) :
    (s.answer r).2.nextIndex = if r = .index then s.nextIndex + 1 else s.nextIndex := by
  cases r with
  | id => rw [answer, Prod.map_snd, nextIndex_id, if_neg (by decide)]
  | seed => rw [answer, Prod.map_snd, nextIndex_seed, if_neg (by decide)]
  | index => rw [answer, Prod.map_snd, index, if_pos rfl]

/-- Only a request for a token is given one, and it is the next. -/
theorem token?_answer (s : Source g) (r : Request) :
    (s.answer r).1.token? = if r = .index then some (indexToken s.nextIndex) else none := by
  cases r with
  | id => rw [answer, Prod.map_fst, Answer.token?, if_neg (by decide)]
  | seed => rw [answer, Prod.map_fst, Answer.token?, if_neg (by decide)]
  | index => rw [answer, Prod.map_fst, Answer.token?, index, if_pos rfl]

/-- Whatever else is asked for, the tokens of a run count up from the state of the counter. -/
theorem tokens_eq (s : Source g) (rs : List Request) :
    s.tokens rs = (List.range' s.nextIndex (rs.count .index)).map indexToken := by
  induction rs generalizing s with
  | nil => rfl
  | cons r rs ih =>
      have htokens := ih (s.answer r).2
      rw [tokens, nextIndex_answer] at htokens
      rw [tokens, answers, List.filterMap_cons, token?_answer, htokens]
      by_cases hr : r = .index
      · rw [if_pos hr, if_pos hr, hr, List.count_cons_self, List.range'_succ, List.map_cons]
      · rw [if_neg hr, if_neg hr, List.count_cons_of_ne hr]

/-- The tokens given are the first ones in order, whatever else is asked for. -/
theorem tokens_ofSeed (g : Generator) (seed : UInt64) (rs : List Request) :
    (ofSeed g seed).tokens rs = (List.range (rs.count .index)).map indexToken := by
  rw [tokens_eq, List.range_eq_range']
  rfl

/-! ### Where the order ends -/

/-- The text at a place of a list does not come behind the one in front of it. -/
def FallsBack (texts : List String) (j : Nat) : Prop :=
  ∃ i a b, j = i + 1 ∧ texts[i]? = some a ∧ texts[j]? = some b ∧ ¬ bytes a < bytes b

theorem eq_indexToken {i : Nat} {a : String}
    (h : ((List.range n).map indexToken)[i]? = some a) : a = indexToken i := by
  rw [List.getElem?_map] at h
  obtain ⟨k, hk, rfl⟩ := Option.map_eq_some_iff.mp h
  obtain ⟨hi, rfl⟩ := List.getElem?_eq_some_iff.mp hk
  rw [List.getElem_range]

/-- The first nine-digit token is the first that falls back behind the one before it. -/
theorem isLeast_fallsBack (h : 10 ^ 8 < n) :
    IsLeast {j | FallsBack ((List.range n).map indexToken) j} (10 ^ 8) := by
  have hget : ∀ i, i < n → ((List.range n).map indexToken)[i]? = some (indexToken i) := by
    intro i hi
    rw [List.getElem?_map, List.getElem?_range hi, Option.map_some]
  constructor
  · exact ⟨10 ^ 8 - 1, _, _, rfl, hget _ (by omega), hget _ h, not_bytes_indexToken_lt⟩
  · rintro j ⟨i, a, b, rfl, ha, hb, hnot⟩
    by_contra hlt
    obtain rfl := eq_indexToken ha
    obtain rfl := eq_indexToken hb
    exact hnot (bytes_indexToken_lt (Nat.lt_succ_self i) (not_le.mp hlt))

/-- Tokens ascend in bytes as long as their numbers have eight digits, and no longer. -/
theorem pairwise_indexToken_iff :
    ((List.range n).map indexToken).Pairwise (fun a b => bytes a < bytes b) ↔ n ≤ 10 ^ 8 := by
  rw [List.pairwise_map, List.pairwise_iff_getElem]
  simp only [List.length_range, List.getElem_range]
  constructor
  · intro h
    by_contra hlt
    exact not_bytes_indexToken_lt (h _ _ (by omega) (by omega) (by omega))
  · exact fun hn i j _ hj hij => bytes_indexToken_lt hij (hj.trans_le hn)

/-- The tokens of a run are distinct, whatever is drawn between them. Each of the first 10 ^ 8
stands behind all those before it, byte by byte, and the next one is the first that does not. So a
scene is in the strict order of its tokens exactly if it has at most 10 ^ 8 elements. -/
theorem tokens_ascend :
    (∀ (g : Generator) (seed : UInt64) (rs : List Request),
      let tokens := (ofSeed g seed).tokens rs
      tokens.length = rs.count .index ∧ tokens.Nodup ∧
      (∀ i j a b, i < j → j < 10 ^ 8 → tokens[i]? = some a → tokens[j]? = some b →
        bytes a < bytes b) ∧
      (10 ^ 8 < tokens.length → IsLeast {j | FallsBack tokens j} (10 ^ 8))) ∧
    ∀ (g : Generator) {α : Type} [Scalar α] (s : Settings α) (d : Diagram),
      ((Scene.ofDiagram g s d).items.map (·.index)).Pairwise (fun a b => bytes a < bytes b) ↔
        (Scene.ofDiagram g s d).items.length ≤ 10 ^ 8 := by
  refine ⟨fun g seed rs => ?_, fun g α _ s d => ?_⟩
  · have hlength : ((List.range (rs.count .index)).map indexToken).length = rs.count .index := by
      rw [List.length_map, List.length_range]
    rw [tokens_ofSeed]
    refine ⟨hlength, List.nodup_range.map indexToken_injective, ?_, ?_⟩
    · intro i j a b hij hj ha hb
      obtain rfl := eq_indexToken ha
      obtain rfl := eq_indexToken hb
      exact bytes_indexToken_lt hij hj
    · rw [hlength]
      exact isLeast_fallsBack
  · rw [Scene.indexes_ofDiagram]
    exact pairwise_indexToken_iff

/-- Requests of all kinds, the tokens among them apart from each other. -/
def medley : List Request := [.index, .id, .index, .seed, .seed, .index]

/-- As many requests for a token as it takes to run out of eight digits. -/
def torrent : List Request := List.replicate (10 ^ 8 + 1) .index

/-- Two tokens of `medley`. -/
theorem medley_ascends :
    ((ofSeed .keystream 7).tokens medley)[0]? = some "a00000000" ∧
      ((ofSeed .keystream 7).tokens medley)[2]? = some "a00000002" ∧
      bytes "a00000000" < bytes "a00000002" ∧
      10 ^ 8 < ((ofSeed .keystream 7).tokens torrent).length ∧
      IsLeast {j | FallsBack ((ofSeed .keystream 7).tokens torrent) j} (10 ^ 8) := by
  have hmedley : (ofSeed .keystream 7).tokens medley = ["a00000000", "a00000001", "a00000002"] := by
    rw [tokens_ofSeed]
    decide
  have hfirst : ((ofSeed .keystream 7).tokens medley)[0]? = some "a00000000" := by rw [hmedley]; rfl
  have hthird : ((ofSeed .keystream 7).tokens medley)[2]? = some "a00000002" := by rw [hmedley]; rfl
  obtain ⟨-, -, hordered, -⟩ := tokens_ascend.1 .keystream 7 medley
  obtain ⟨hlength, -, -, hleast⟩ := tokens_ascend.1 .keystream 7 torrent
  have hmany : 10 ^ 8 < ((ofSeed .keystream 7).tokens torrent).length := by
    rw [hlength, torrent, List.count_replicate_self]
    exact Nat.lt_succ_self _
  exact ⟨hfirst, hthird, hordered 0 2 _ _ (by decide) (by omega) hfirst hthird, hmany,
    hleast hmany⟩

end Whiteboard.Source
