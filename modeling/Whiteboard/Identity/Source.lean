/-
The source of identities: ids, seeds and index tokens for the elements of one drawing.

Ids and seeds are drawn from a generator, index tokens count up without drawing anything. An id is
drawn again until it is one not issued before. The search has no bound: from a generator that never
draws a new id it does not come back.
-/

import Whiteboard.Identity.Generator

namespace Whiteboard

namespace Generator

def alphabet : Vector Char 64 :=
  #v['0', '1', '2', '3', '4', '5', '6', '7', '8', '9', 'A', 'B', 'C', 'D', 'E', 'F', 'G', 'H', 'I',
    'J', 'K', 'L', 'M', 'N', 'O', 'P', 'Q', 'R', 'S', 'T', 'U', 'V', 'W', 'X', 'Y', 'Z', 'a', 'b',
    'c', 'd', 'e', 'f', 'g', 'h', 'i', 'j', 'k', 'l', 'm', 'n', 'o', 'p', 'q', 'r', 's', 't', 'u',
    'v', 'w', 'x', 'y', 'z', '_', '-']

def idLength : Nat := 21

variable {g : Generator}

def characters : Nat → g.State → List Char × g.State
  | 0, state => ([], state)
  | n + 1, state =>
    let drawn := g.below 64 (by decide) state
    let others := characters n drawn.2
    (alphabet.get drawn.1 :: others.1, others.2)

/-- An id as it is drawn, issued before or not, and the state behind it. -/
def draw (state : g.State) : String × g.State :=
  let drawn := characters idLength state
  (String.ofList drawn.1, drawn.2)

/-- A draw of an id that is not among the issued ones. -/
abbrev New (g : Generator) (issued : List String) :=
  { drawn : String × g.State // drawn.1 ∉ issued }

/-- Some length is greater than that of every name. -/
theorem exists_length_lt (names : List String) : ∃ n, ∀ name ∈ names, name.length < n := by
  induction names with
  | nil => exact ⟨0, nofun⟩
  | cons name names ih =>
    obtain ⟨n, hn⟩ := ih
    refine ⟨max n (name.length + 1), fun x hx => ?_⟩
    rcases List.mem_cons.1 hx with rfl | hx
    · omega
    · have := hn x hx
      omega

/-- There is always one more name. -/
theorem exists_not_mem (names : List String) : ∃ name, name ∉ names := by
  obtain ⟨n, hn⟩ := exists_length_lt names
  refine ⟨String.ofList (List.replicate n '_'), fun h => ?_⟩
  have := hn _ h
  rw [String.length_ofList, List.length_replicate] at this
  omega

theorem nonempty_new (issued : List String) (state : g.State) : Nonempty (New g issued) := by
  obtain ⟨name, h⟩ := exists_not_mem issued
  exact ⟨⟨(name, state), h⟩⟩

/-- Draws an id once: it is new, or the search goes on from the state behind it. -/
def attempt (issued : List String) (state : g.State) : Id (g.State ⊕ New g issued) :=
  let drawn := draw state
  if h : drawn.1 ∈ issued then .inl drawn.2 else .inr ⟨drawn, h⟩

/-- The first id drawn that is not among the issued ones, and the state behind it. -/
def drawNew (issued : List String) (state : g.State) : New g issued :=
  have : Nonempty (New g issued) := nonempty_new issued state
  Id.run (repeatM (attempt issued) state)

/-- The search ends with an id that is new, and goes on behind any other. -/
theorem drawNew_eq (issued : List String) (state : g.State) :
    drawNew issued state =
      if h : (draw state).1 ∈ issued then drawNew issued (draw state).2 else ⟨draw state, h⟩ := by
  have : Nonempty (New g issued) := nonempty_new issued state
  have step := repeatM_eq_of_monadTail (f := attempt issued) state
  show Id.run (repeatM (attempt issued) state) = _
  rw [step, repeatM.body, attempt]
  split
  · rfl
  · rfl

end Generator

/-- What has been drawn so far. -/
structure Source (g : Generator) where
  state : g.State
  /-- The ids issued so far. -/
  issued : List String := []
  /-- How many index tokens have been issued. The count has no limit, so it never starts anew. -/
  nextIndex : Nat := 0

namespace Source

variable {g : Generator}

def ofSeed (g : Generator) (seed : UInt64) : Source g where
  state := g.ofSeed seed

/-! ### Ids -/

/-- A new id. -/
def id (s : Source g) : String × Source g :=
  let drawn := Generator.drawNew s.issued s.state
  (drawn.1.1, { s with state := drawn.1.2, issued := s.issued ++ [drawn.1.1] })

/-- A new id was not issued before. -/
theorem id_not_mem_issued (s : Source g) : s.id.1 ∉ s.issued :=
  (Generator.drawNew s.issued s.state).2

@[simp] theorem issued_id (s : Source g) : s.id.2.issued = s.issued ++ [s.id.1] := rfl

@[simp] theorem nextIndex_id (s : Source g) : s.id.2.nextIndex = s.nextIndex := rfl

/-! ### Seeds -/

def seedCount : Nat := 2147483647

theorem seedCount_pos : 0 < seedCount := by decide

def seed (s : Source g) : Nat × Source g :=
  let drawn := g.below seedCount seedCount_pos s.state
  (1 + drawn.1.val, { s with state := drawn.2 })

@[simp] theorem issued_seed (s : Source g) : s.seed.2.issued = s.issued := rfl

@[simp] theorem nextIndex_seed (s : Source g) : s.seed.2.nextIndex = s.nextIndex := rfl

/-! ### Index tokens -/

/-- The index token of a number: the letter `a` and at least eight digits. -/
def indexToken (n : Nat) : String :=
  let digits := Nat.toDigits 10 n
  String.ofList ('a' :: (List.replicate (8 - digits.length) '0' ++ digits))

def index (s : Source g) : String × Source g :=
  (indexToken s.nextIndex, { s with nextIndex := s.nextIndex + 1 })

@[simp] theorem issued_index (s : Source g) : s.index.2.issued = s.issued := rfl

/-! ### Stamps -/

/-- What sets an element apart from all others of a drawing. -/
structure Stamp where
  id : String
  seed : Nat
  nonce : Nat
  index : String
deriving DecidableEq, Repr

/-- A new stamp: an id, two seeds and an index token, drawn in this order. -/
def stamp (s : Source g) : Stamp × Source g :=
  let named := s.id
  let seeded := named.2.seed
  let salted := seeded.2.seed
  let indexed := salted.2.index
  ({ id := named.1, seed := seeded.1, nonce := salted.1, index := indexed.1 }, indexed.2)

def stamps : Nat → Source g → List Stamp
  | 0, _ => []
  | n + 1, s => s.stamp.1 :: stamps n s.stamp.2

@[simp] theorem length_stamps (n : Nat) (s : Source g) : (stamps n s).length = n := by
  induction n generalizing s with
  | zero => rfl
  | succ n ih => simp [stamps, ih]

end Source

end Whiteboard
