import Mathlib.Data.List.Nodup
import Mathlib.Data.Nat.Find
import Whiteboard.Identity.Source

/-!
The stamps of one drawing.

From a generator that draws a new id at some time, the search for one ends with the first of them
(`id_of_supplies`). A stamp's id is one that was not issued before, whatever else is drawn in
between, so the ids of any number of stamps are distinct (`ids_stamps_nodup`). Index tokens are
issued in order and depend on nothing that is drawn (`indexes_stamps`).
-/

namespace Whiteboard

/-! ### The search for a new id -/

namespace Generator

variable {g : Generator} {issued : List String} {state : g.State}

/-- The state behind some draws. -/
def after : Nat → g.State → g.State
  | 0, state => state
  | k + 1, state => after k (draw state).2

/-- A new id is drawn at some time. -/
def Supplies (issued : List String) (state : g.State) : Prop :=
  ∃ k, (draw (after k state)).1 ∉ issued

/-- The search passes over ids that are not new, and ends with the first one that is. -/
theorem drawNew_of_first {k : Nat} (hnew : (draw (after k state)).1 ∉ issued)
    (hbefore : ∀ j < k, (draw (after j state)).1 ∈ issued) :
    (drawNew issued state).1 = draw (after k state) := by
  induction k generalizing state with
  | zero =>
      rw [drawNew_eq, dif_neg (show (draw state).1 ∉ issued from hnew)]
      rfl
  | succ k ih =>
      have hold : (draw state).1 ∈ issued := hbefore 0 k.succ_pos
      rw [drawNew_eq, dif_pos hold]
      exact ih hnew fun j hj => hbefore (j + 1) (by omega)

/-- From a generator that draws a new id at some time, the search ends with the first one. -/
theorem Supplies.exists_first (supplies : Supplies issued state) :
    ∃ k, (drawNew issued state).1 = draw (after k state) ∧
      ∀ j < k, (draw (after j state)).1 ∈ issued := by
  classical
  have hbefore : ∀ j < Nat.find supplies, (draw (after j state)).1 ∈ issued :=
    fun j hj => not_not.mp (Nat.find_min supplies hj)
  exact ⟨_, drawNew_of_first (Nat.find_spec supplies) hbefore, hbefore⟩

end Generator

namespace Source

variable {g : Generator}

/-- From a generator that draws a new id at some time, an id is the first new one that it draws. -/
theorem id_of_supplies {s : Source g} (supplies : Generator.Supplies s.issued s.state) :
    ∃ k, (s.id.1, s.id.2.state) = Generator.draw (Generator.after k s.state) ∧
      ∀ j < k, (Generator.draw (Generator.after j s.state)).1 ∈ s.issued :=
  supplies.exists_first

/-! ### Stamps -/

/-- A stamp holds an id, two seeds and an index token, each drawn after the one before. -/
theorem stamp_eq (s : Source g) :
    s.stamp =
      ({ id := s.id.1
         seed := s.id.2.seed.1
         nonce := s.id.2.seed.2.seed.1
         index := s.id.2.seed.2.seed.2.index.1 },
        s.id.2.seed.2.seed.2.index.2) := rfl

/-- A stamp issues one id. -/
theorem issued_stamp (s : Source g) : s.stamp.2.issued = s.issued ++ [s.stamp.1.id] := by
  rw [stamp_eq, issued_index, issued_seed, issued_seed, issued_id]

/-- The id of a stamp is new. -/
theorem id_stamp_not_mem (s : Source g) : s.stamp.1.id ∉ s.issued := by
  rw [stamp_eq]
  exact id_not_mem_issued s

/-- A stamp has the next index token. -/
theorem index_stamp (s : Source g) : s.stamp.1.index = indexToken s.nextIndex := by
  rw [stamp_eq, index, nextIndex_seed, nextIndex_seed, nextIndex_id]

theorem nextIndex_stamp (s : Source g) : s.stamp.2.nextIndex = s.nextIndex + 1 := by
  rw [stamp_eq, index, nextIndex_seed, nextIndex_seed, nextIndex_id]

/-- The ids of later stamps are new as well. -/
theorem id_not_mem_of_mem_stamps {n : Nat} {s : Source g} {x : Stamp} (h : x ∈ stamps n s) :
    x.id ∉ s.issued := by
  induction n generalizing s with
  | zero => cases h
  | succ n ih =>
      rcases List.mem_cons.mp h with rfl | h
      · exact id_stamp_not_mem s
      · intro hmem
        apply ih h
        rw [issued_stamp]
        exact List.mem_append_left _ hmem

/-- No two stamps of a drawing share an id. -/
theorem ids_stamps_nodup (n : Nat) (s : Source g) : ((stamps n s).map (·.id)).Nodup := by
  induction n generalizing s with
  | zero => exact List.nodup_nil
  | succ n ih =>
      refine List.nodup_cons.mpr ⟨?_, ih s.stamp.2⟩
      intro hmem
      obtain ⟨x, hx, hid⟩ := List.mem_map.mp hmem
      apply id_not_mem_of_mem_stamps hx
      rw [issued_stamp, hid]
      exact List.mem_append_right _ (List.mem_singleton_self _)

/-- The index tokens of stamps are those that follow the last one issued. -/
theorem indexes_stamps (n : Nat) (s : Source g) :
    (stamps n s).map (·.index) = (List.range' s.nextIndex n).map indexToken := by
  induction n generalizing s with
  | zero => rfl
  | succ n ih =>
      rw [stamps, List.map_cons, ih, index_stamp, nextIndex_stamp, List.range'_succ, List.map_cons]

/-! ### Stamps by their place -/

def skip (s : Source g) : Nat → Source g
  | 0 => s
  | n + 1 => (s.skip n).stamp.2

def stampAt (s : Source g) (n : Nat) : Stamp :=
  (s.skip n).stamp.1

theorem skip_stamp (s : Source g) (n : Nat) : s.stamp.2.skip n = s.skip (n + 1) := by
  induction n with
  | zero => rfl
  | succ n ih =>
      rw [skip, ih]
      rfl

/-- Stamps drawn one after the other are those at their positions. -/
theorem stamps_eq_map (n : Nat) (s : Source g) :
    stamps n s = (List.range n).map s.stampAt := by
  induction n generalizing s with
  | zero => rfl
  | succ n ih =>
      have hnext : s.stamp.2.stampAt = s.stampAt ∘ Nat.succ := by
        funext i
        rw [stampAt, skip_stamp]
        rfl
      rw [stamps, ih, List.range_succ_eq_map, List.map_cons, List.map_map, hnext]
      rfl

/-- The id of the stamp that is drawn behind some others. -/
def nameAt (s : Source g) (n : Nat) : String :=
  (s.stampAt n).id

/-- Different positions have different ids. -/
theorem nameAt_injective (s : Source g) : Function.Injective s.nameAt := by
  intro i j h
  have hnodup := ids_stamps_nodup (max i j + 1) s
  rw [stamps_eq_map, List.map_map] at hnodup
  exact List.inj_on_of_nodup_map hnodup (List.mem_range.mpr (by omega))
    (List.mem_range.mpr (by omega)) h

end Source

end Whiteboard
