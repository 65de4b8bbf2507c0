import Mathlib.Data.List.Basic
import Mathlib.Data.List.Induction
import Whiteboard.CommandLine.Tree

/-!
What writing does to a tree.

A path opens a file for writing only at a place whose last name stands in a directory and which is
no directory itself (`target_spec`). What is put there is found there, and at every other place what
was found before (`wrote_put`); so every path that could be followed still leads to the same place,
and what has been written to a path is read from it (`read_put`).
-/

namespace Whiteboard.CommandLine

/-- What comes out of two steps comes out of the second one, after the first. -/
theorem of_bind_eq_ok {ε α β : Type} {first : Except ε α} {second : α → Except ε β} {b : β}
    (h : first >>= second = .ok b) : ∃ a, first = .ok a ∧ second a = .ok b := by
  cases first with
  | error e => cases h
  | ok a => exact ⟨a, rfl, h⟩

namespace Tree

variable {t t' : Tree} {place place' dir : Place} {name path : String} {bytes : ByteArray}
  {start : Place} {steps : List Step} {p : Path}

/-- One tree is another with some bytes put at a place, and nothing else changed. -/
structure Wrote (t t' : Tree) (place : Place) (bytes : ByteArray) : Prop where
  entry_self : t'.entry place = .file bytes
  entry_eq : ∀ other, other ≠ place → t'.entry other = t.entry other

/-! ### Directories -/

/-- A directory is one that is there, or something stands in it. -/
theorem hasDirectory_iff :
    t.hasDirectory place = true ↔
      (∃ d ∈ t.working :: t.directories, place <+: d) ∨
        ∃ file ∈ t.files, place <+: file.1 ∧ place ≠ file.1 := by
  simp [hasDirectory]

/-- What a directory stands in is a directory. -/
theorem hasDirectory_of_isPrefix (h : t.hasDirectory place = true) (hpre : place' <+: place) :
    t.hasDirectory place' = true := by
  rw [hasDirectory_iff] at h ⊢
  rcases h with ⟨d, hd, hplace⟩ | ⟨file, hfile, hplace, hne⟩
  · exact .inl ⟨d, hd, hpre.trans hplace⟩
  · refine .inr ⟨file, hfile, hpre.trans hplace, ?_⟩
    rintro rfl
    exact hne (hplace.eq_of_length_le hpre.length_le)

/-- Every path starts in a directory. -/
theorem hasDirectory_start (t : Tree) (p : Path) : t.hasDirectory (t.start p) = true := by
  refine hasDirectory_iff.mpr (.inl ⟨t.working, List.mem_cons_self, ?_⟩)
  unfold start
  split
  · exact List.nil_prefix
  · exact List.prefix_rfl

theorem entry_eq_elim (t : Tree) (place : Place) :
    t.entry place =
      if t.hasDirectory place = true then .directory
      else (t.files.lookup place).elim .vacant .file := by
  rw [entry]
  cases t.files.lookup place <;> rfl

theorem entry_eq_directory : t.entry place = .directory ↔ t.hasDirectory place = true := by
  rw [entry_eq_elim]
  by_cases h : t.hasDirectory place = true
  · simp [h]
  · rw [if_neg h]
    cases t.files.lookup place <;> simp [h]

/-! ### Putting bytes at a place -/

theorem mem_files_put {file : Place × ByteArray} :
    file ∈ (t.put place bytes).files ↔
      file ∈ t.files ∧ file.1 ≠ place ∨ file = (place, bytes) := by
  simp [put]

/-- What is put into a directory makes and removes no directory. -/
theorem hasDirectory_put (hdir : t.hasDirectory dir = true) (place' : Place) :
    (t.put (dir ++ [name]) bytes).hasDirectory place' = t.hasDirectory place' := by
  rw [Bool.eq_iff_iff]
  constructor
  · intro h
    rw [hasDirectory_iff] at h
    rcases h with hmade | ⟨file, hfile, hpre, hne⟩
    · exact hasDirectory_iff.mpr (.inl hmade)
    · rcases mem_files_put.mp hfile with ⟨hmem, -⟩ | rfl
      · exact hasDirectory_iff.mpr (.inr ⟨file, hmem, hpre, hne⟩)
      · rcases List.prefix_concat_iff.mp hpre with heq | hpre
        · exact absurd heq hne
        · exact hasDirectory_of_isPrefix hdir hpre
  · intro h
    rw [hasDirectory_iff] at h ⊢
    rcases h with hmade | ⟨file, hfile, hpre, hne⟩
    · exact .inl hmade
    · by_cases hplace : file.1 = dir ++ [name]
      · exact .inr ⟨_, mem_files_put.mpr (.inr rfl), hplace ▸ hpre, hplace ▸ hne⟩
      · exact .inr ⟨file, mem_files_put.mpr (.inl ⟨hfile, hplace⟩), hpre, hne⟩

/-- What is put into a directory, in the place of a file or of nothing, changes nothing else. -/
theorem wrote_put (hdir : t.hasDirectory dir = true)
    (hfree : t.hasDirectory (dir ++ [name]) = false) :
    Wrote t (t.put (dir ++ [name]) bytes) (dir ++ [name]) bytes := by
  constructor
  case entry_self =>
    rw [entry_eq_elim, hasDirectory_put hdir, hfree, lookup_put_self]
    rfl
  case entry_eq =>
    intro other hne
    rw [entry_eq_elim, entry_eq_elim, hasDirectory_put hdir, lookup_put_of_ne _ _ hne]

/-! ### Following a path -/

/-- The last step of a path starts in a directory. -/
theorem follow_concat (t : Tree) (start : Place) (steps : List Step) (step : Step) :
    t.follow start (steps ++ [step]) =
      t.follow start steps >>= fun place => t.enter place >>= (·.next step) := by
  unfold follow
  rw [List.foldlM_append]
  cases List.foldlM (m := Except Fault) _ start steps <;> simp

/-- Only a directory can be entered. -/
theorem enter_eq_ok (h : t.enter place = .ok place') :
    place' = place ∧ t.entry place = .directory := by
  unfold enter at h
  split at h
  · cases h
    exact ⟨rfl, by assumption⟩
  · cases h
  · cases h

/-- A place that was reached is reached as long as directories stay directories. -/
theorem follow_of_directories
    (hdir : ∀ place, t.entry place = .directory → t'.entry place = .directory)
    (h : t.follow start steps = .ok place) : t'.follow start steps = .ok place := by
  induction steps using List.reverseRecOn generalizing place with
  | nil => exact h
  | append_singleton steps step ih =>
      rw [follow_concat] at h ⊢
      obtain ⟨before, hbefore, h⟩ := of_bind_eq_ok h
      obtain ⟨entered, henter, hnext⟩ := of_bind_eq_ok h
      obtain ⟨rfl, hentry⟩ := enter_eq_ok henter
      rw [ih hbefore]
      show t'.enter entered >>= (·.next step) = .ok place
      rw [enter, hdir entered hentry]
      exact hnext

/-- A path that leads to no directory has a name for its last step, into a directory. -/
theorem follow_last (hstart : t.hasDirectory start = true) (h : t.follow start steps = .ok place)
    (hplace : t.hasDirectory place = false) :
    ∃ before dir name, steps = before ++ [.down name] ∧ place = dir ++ [name] ∧
      t.hasDirectory dir = true := by
  have hnot (hdir : t.hasDirectory place = true) : False := by simp [hplace] at hdir
  cases steps using List.reverseRecOn with
  | nil =>
      cases h
      exact absurd hstart hnot
  | append_singleton before step =>
      rw [follow_concat] at h
      obtain ⟨dir, -, h⟩ := of_bind_eq_ok h
      obtain ⟨entered, henter, hnext⟩ := of_bind_eq_ok h
      obtain ⟨rfl, hentry⟩ := enter_eq_ok henter
      have hdir := entry_eq_directory.mp hentry
      cases step with
      | stay =>
          cases hnext
          exact absurd hdir hnot
      | up =>
          cases hnext
          exact absurd (hasDirectory_of_isPrefix hdir entered.dropLast_prefix) hnot
      | down name =>
          simp only [Place.next] at hnext
          split at hnext
          · cases hnext
          · cases hnext
            exact ⟨before, entered, name, rfl, rfl, hdir⟩

/-! ### Writing and reading -/

/-- Where a path opens a file for writing: it leads to what is no directory, and asks for none. -/
theorem target_spec (h : t.target path = .ok place) :
    ∃ p, Path.parse path = .ok p ∧ p.endsInSlash = false ∧
      t.follow (t.start p) p.steps = .ok place ∧ t.hasDirectory place = false := by
  obtain ⟨p, hp, h⟩ := of_bind_eq_ok h
  refine ⟨p, hp, ?_⟩
  split at h
  · obtain ⟨before, -, h⟩ := of_bind_eq_ok h
    obtain ⟨entered, -, h⟩ := of_bind_eq_ok h
    cases h
  next hslash =>
    obtain ⟨reached, hfollow, h⟩ := of_bind_eq_ok h
    have hreached : reached = place ∧ t.entry reached ≠ .directory := by
      split at h <;> cases h <;> simp_all
    obtain ⟨rfl, hentry⟩ := hreached
    have hfree : t.hasDirectory reached = false := by
      simpa [entry_eq_directory] using hentry
    obtain ⟨before, dir, name, hsteps, -, -⟩ := follow_last (hasDirectory_start t p) hfollow hfree
    exact ⟨by simpa [hsteps, Step.isDown] using hslash, hfollow, hfree⟩

/-- A path may start at the root, climb, and end in a directory without files. -/
example : target { files := [], directories := [["tmp", "out"]] } "/tmp/../tmp//out/./scene" =
    .ok ["tmp", "out", "scene"] := rfl

/-- What is written to a path is put at the place it leads to, and nothing else changes. -/
theorem wrote_target (bytes : ByteArray) (h : t.target path = .ok place) :
    Wrote t (t.put place bytes) place bytes := by
  obtain ⟨p, -, -, hfollow, hfree⟩ := target_spec h
  obtain ⟨before, dir, name, -, rfl, hdir⟩ := follow_last (hasDirectory_start t p) hfollow hfree
  exact wrote_put hdir hfree

/-- A path opens for reading what has been written to it. -/
theorem source_put (bytes : ByteArray) (h : t.target path = .ok place) :
    (t.put place bytes).source path = .ok place := by
  have hwrote := wrote_target bytes h
  obtain ⟨p, hp, hslash, hfollow, hfree⟩ := target_spec h
  have hdir (other : Place) (hentry : t.entry other = .directory) :
      (t.put place bytes).entry other = .directory := by
    rw [hwrote.entry_eq other ?_, hentry]
    rintro rfl
    exact absurd (entry_eq_directory.mp hentry) (by simp [hfree])
  have hfound := follow_of_directories hdir hfollow
  have hstart : (t.put place bytes).start p = t.start p := rfl
  simp [source, hp, hstart, hfound, hwrote.entry_self, hslash, bind, Except.bind]

/-- The text that is written to a path is read from it. -/
theorem read_put (text : String) (h : t.target path = .ok place) :
    Tree.fileSystem.read (t.put place text.toUTF8) path = .ok text := by
  have hsource : Tree.fileSystem.source (t.put place text.toUTF8) path = .ok place :=
    source_put text.toUTF8 h
  have hbytes : Tree.fileSystem.bytes? (t.put place text.toUTF8) place = some text.toUTF8 :=
    lookup_put_self t place text.toUTF8
  rw [FileSystem.read_eq_decode hsource hbytes, decode_toUTF8]

end Tree

end Whiteboard.CommandLine
