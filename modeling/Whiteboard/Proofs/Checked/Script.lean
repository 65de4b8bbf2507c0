import Whiteboard.Proofs.Checked.Reading

/-!
Readings by one cursor, one after the other.

Wherever a cursor stands in a line, a reading leaves it there or further on, within the line
(`disciplined_run`); one that takes all or nothing leaves it where it is if it finds nothing. So a
script of readings, whatever they are, takes the cursor through the line from left to right
(`steps_disciplined`). A chain takes whole hops: each begins where the one before has ended and
moves the cursor on, and where none can be finished the cursor stands behind the last reference
(`hops_facing`).
-/

namespace Whiteboard.Checked.Cursor

open Text Flowchart Flowchart.Reading

variable {line rest : List Char}

/-! ### Hops -/

/-- Some hops take a cursor to another, where no further one is finished. Each is a link and a
reference behind it, at least one character in all, and the next one begins where the reference
ends. -/
inductive Hops : Cursor → List Hop → Cursor → Prop
  | stop {c : Cursor} (h : StopsAt c) : Hops c [] c
  | hop {c middle next stop : Cursor} {p : Hop} {hops : List Hop}
      (hlink : c.link = pure (some (p.connector, p.label), middle))
      (htarget : middle.reference = pure (some p.target, next))
      (hlt : c.position < next.position) (more : Hops next hops stop) : Hops c (p :: hops) stop

/-- There are no more hops than characters they take. -/
theorem Hops.length_le {c stop : Cursor} {hops : List Hop} (h : Hops c hops stop) :
    c.position + hops.length ≤ stop.position := by
  induction h with
  | stop => exact Nat.le_refl _
  | hop _ _ hlt _ ih =>
      rw [List.length_cons]
      omega

/-- A shorter rest begins further on. -/
theorem position_facing_lt {rest' : List Char} (h : rest <:+ line)
    (hlt : rest'.length < rest.length) :
    (facing line rest).position < (facing line rest').position := by
  have := h.length_le
  simp only [facing]
  omega

/-- A chain is made of hops, each of which moves the cursor on. -/
theorem hops_facing (h : rest <:+ line) :
    Hops (facing line rest) (Flowchart.chain rest).1 (facing line (Flowchart.chain rest).2) := by
  fun_induction Flowchart.chain rest with
  | case1 cs hhop => exact .stop (stopsAt_facing h hhop)
  | case2 cs p rest' hhop hops rest'' hchain ih =>
      rw [hchain] at ih
      obtain ⟨hrest, hlt⟩ := hop?_suffix hhop
      obtain ⟨middle, hlink, htarget⟩ := hop_facing h hhop
      exact .hop hlink htarget (position_facing_lt h hlt) (ih (hrest.trans h))

/-! ### One step -/

/-- A reading, what it answers, and the cursor before and behind it. -/
structure Step where
  reading : Reading
  start : Cursor
  answer : reading.Answer
  stop : Cursor

def missed : (r : Reading) → r.Answer → Bool
  | .take _, taken => !taken
  | .id, found => found.isNone
  | .direction, found => found.isNone
  | .quoted, found => found.isNone
  | .definition, found => found.isNone
  | _, _ => false

/-- What a step does to the cursor in a line. -/
structure Step.Disciplined (line : List Char) (s : Step) : Prop where
  line_eq : s.start.line = line ∧ s.stop.line = line
  forward : s.start.position ≤ s.stop.position
  within : s.stop.position ≤ line.length
  /-- The answer is that of the reader of the rest, and the cursor stands where its rest begins. -/
  reads : s.reading.run (line.drop s.start.position) = (s.answer, line.drop s.stop.position)
  stays : missed s.reading s.answer = true → s.stop = s.start
  /-- A chain takes whole hops, and no more of them than characters. -/
  hops : ∀ start hops stop, s = ⟨.chain, start, hops, stop⟩ →
    Hops start hops stop ∧ start.position + hops.length ≤ stop.position

/-- Behind the position of a cursor stands its rest. -/
theorem drop_facing (h : rest <:+ line) : line.drop (facing line rest).position = rest := by
  obtain ⟨before, rfl⟩ := h
  simp [facing]

theorem found_none_snd {α : Type} {stay : List Char} {found? : Option (α × List Char)}
    (h : (found stay found?).1 = none) : (found stay found?).2 = stay := by
  cases found? with
  | none => rfl
  | some pair => cases h

/-- A reading that found nothing has not moved. -/
theorem run_snd_of_missed (r : Reading) (rest : List Char)
    (h : missed r (r.run rest).1 = true) : (r.run rest).2 = rest := by
  cases r with
  | take token =>
      rw [Reading.run] at h ⊢
      cases hstrip : strip? token rest with
      | none => rfl
      | some rest' => rw [hstrip] at h; cases h
  | id => exact found_none_snd (Option.isNone_iff_eq_none.mp h)
  | direction => exact found_none_snd (Option.isNone_iff_eq_none.mp h)
  | quoted => exact found_none_snd (Option.isNone_iff_eq_none.mp h)
  | definition => exact found_none_snd (Option.isNone_iff_eq_none.mp h)
  | _ => cases h

/-- A reading at any place of a line. -/
theorem disciplined_run (r : Reading) (h : rest <:+ line) :
    Step.Disciplined line
      ⟨r, facing line rest, (r.run rest).1, facing line (r.run rest).2⟩ where
  line_eq := ⟨rfl, rfl⟩
  forward := by
    have := (run_suffix r rest).length_le
    simp only [facing]
    omega
  within := Nat.sub_le _ _
  reads := by rw [drop_facing h, drop_facing ((run_suffix r rest).trans h)]
  stays hmissed := congrArg (facing line) (run_snd_of_missed r rest hmissed)
  hops := by
    intro start hops stop hstep
    cases hstep
    exact ⟨hops_facing h, (hops_facing h).length_le⟩

/-! ### Scripts -/

def steps : List Reading → Cursor → Attempt (List Step)
  | [], _ => pure []
  | r :: rs, c => do
    let (a, next) ← c.run r
    return ⟨r, c, a, next⟩ :: (← steps rs next)

/-- The steps that go with the readers of the rest of a line. -/
def stepsAlong (line : List Char) : List Reading → (rest : List Char) → List Step
  | [], _ => []
  | r :: rs, rest =>
    ⟨r, facing line rest, (r.run rest).1, facing line (r.run rest).2⟩ ::
      stepsAlong line rs (r.run rest).2

/-- Each step begins where the one before has ended, the first one at a given cursor. -/
def Follow : Cursor → List Step → Prop
  | _, [] => True
  | c, s :: ss => s.start = c ∧ Follow s.stop ss

/-- Steps by positions are the steps along the rests of a line. -/
theorem steps_facing (rs : List Reading) (h : rest <:+ line) :
    steps rs (facing line rest) = pure (stepsAlong line rs rest) := by
  induction rs generalizing rest with
  | nil => rfl
  | cons r rs ih =>
      rw [steps, run_facing r h, answer_bind]
      dsimp only
      rw [ih ((run_suffix r rest).trans h)]
      rfl

/-- Each step begins where the one before has ended. -/
theorem follow_stepsAlong (line : List Char) (rs : List Reading) (rest : List Char) :
    Follow (facing line rest) (stepsAlong line rs rest) := by
  induction rs generalizing rest with
  | nil => trivial
  | cons r rs ih => exact ⟨rfl, ih (r.run rest).2⟩

theorem map_reading_stepsAlong (line : List Char) (rs : List Reading) (rest : List Char) :
    (stepsAlong line rs rest).map Step.reading = rs := by
  induction rs generalizing rest with
  | nil => rfl
  | cons r rs ih => exact congrArg (r :: ·) (ih (r.run rest).2)

/-- Every step keeps the cursor in order. -/
theorem disciplined_stepsAlong (rs : List Reading) (h : rest <:+ line) :
    ∀ s ∈ stepsAlong line rs rest, s.Disciplined line := by
  induction rs generalizing rest with
  | nil => exact List.forall_mem_nil _
  | cons r rs ih =>
      exact List.forall_mem_cons.mpr ⟨disciplined_run r h, ih ((run_suffix r rest).trans h)⟩

theorem start_eq_facing (line : List Char) : (⟨line, 0⟩ : Cursor) = facing line line := by
  rw [facing, Nat.sub_self]

/-- Whatever readings a cursor carries out from the beginning of a line on, none goes wrong, and
each leaves it in the line, where it was or further on. -/
theorem steps_disciplined (line : List Char) (rs : List Reading) :
    ∃ ss, steps rs ⟨line, 0⟩ = pure ss ∧ ss.map Step.reading = rs ∧ Follow ⟨line, 0⟩ ss ∧
      ∀ s ∈ ss, s.Disciplined line := by
  rw [start_eq_facing]
  exact ⟨stepsAlong line rs line, steps_facing rs (List.suffix_refl line),
    map_reading_stepsAlong line rs line, follow_stepsAlong line rs line,
    disciplined_stepsAlong rs (List.suffix_refl line)⟩

/-- Behind a reading that finds nothing, a chain stops in front of a hop that has no end. -/
theorem unfinishedHop_disciplined :
    let line := " -- a --> B[b] -- c".toList
    let hop : Hop := ⟨⟨.absent, .closed, .solid⟩, some "a", ⟨"B", some ⟨.rectangle, "b"⟩⟩⟩
    let search : Step := ⟨.direction, ⟨line, 0⟩, none, ⟨line, 0⟩⟩
    let chain : Step := ⟨.chain, ⟨line, 0⟩, [hop], ⟨line, 14⟩⟩
    steps [.direction, .chain] ⟨line, 0⟩ = pure [search, chain] ∧ search.Disciplined line ∧
      chain.Disciplined line ∧ Hops ⟨line, 0⟩ [hop] ⟨line, 14⟩ := by
  intro line hop search chain
  have hsearch : Reading.run .direction line = (none, line) := rfl
  have hchain : Reading.run .chain line = ([hop], " -- c".toList) := by
    change Flowchart.chain line = ([hop], " -- c".toList)
    decide +kernel
  have hsteps : steps [.direction, .chain] ⟨line, 0⟩ = pure [search, chain] := by
    rw [start_eq_facing, steps_facing _ (List.suffix_refl line)]
    simp only [stepsAlong, hsearch, hchain]
    rfl
  obtain ⟨ss, hss, -, -, hdisciplined⟩ := steps_disciplined line [.direction, .chain]
  obtain rfl : ss = [search, chain] := by
    rw [hsteps] at hss
    exact (Except.ok.inj hss).symm
  have hlast := hdisciplined chain (List.mem_cons_of_mem search List.mem_cons_self)
  exact ⟨hsteps, hdisciplined search List.mem_cons_self, hlast, (hlast.hops _ _ _ rfl).1⟩

end Whiteboard.Checked.Cursor
