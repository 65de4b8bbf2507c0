import Mathlib.Data.List.Induction
import Mathlib.Data.List.Nodup

/-!
Rosters: values in the order of their first occurrence, each once.

Nodes, participants, entities and members of a subgraph are all gathered by enrolling one name
after another. `foldl_enroll` says what has been gathered: the names without their repetitions,
which stand in the order in which they first occur (`pairwise_firstAt`). What is kept under distinct
names is changed under one of them and left under the others (`change_map`), and is found under its
own (`find?_key_eq`).
-/

namespace Whiteboard.Roster

variable {α : Type} [DecidableEq α]

/-- Puts a value at the end unless it is there already. -/
def enroll (xs : List α) (x : α) : List α :=
  if x ∈ xs then xs else xs ++ [x]

@[simp] theorem mem_enroll {xs : List α} {x y : α} : y ∈ enroll xs x ↔ y ∈ xs ∨ y = x := by
  unfold enroll
  split
  · rename_i h
    exact ⟨Or.inl, fun hy => hy.elim id fun e => e ▸ h⟩
  · rw [List.mem_append, List.mem_singleton]

/-- One more value adds itself at the end, the first time it occurs. -/
theorem eraseDups_concat (xs : List α) (x : α) :
    (xs ++ [x]).eraseDups = enroll xs.eraseDups x := by
  rw [List.eraseDups_append]
  by_cases h : x ∈ xs
  · have hnone : [x].removeAll xs = [] := by simp [List.removeAll, h]
    rw [hnone, List.eraseDups_nil, List.append_nil, enroll, if_pos (List.mem_eraseDups.mpr h)]
  · have hall : [x].removeAll xs = [x] := by simp [List.removeAll, h]
    have hx : x ∉ xs.eraseDups := fun hm => h (List.mem_eraseDups.mp hm)
    rw [hall, enroll, if_neg hx, List.eraseDups_cons]
    rfl

/-- A function that keeps values apart keeps their first occurrences. -/
theorem eraseDups_map {β : Type} [DecidableEq β] {f : α → β} {xs : List α}
    (hf : ∀ x ∈ xs, ∀ y ∈ xs, f x = f y → x = y) :
    (xs.map f).eraseDups = xs.eraseDups.map f := by
  induction xs using List.reverseRecOn with
  | nil => rfl
  | append_singleton xs x ih =>
      have hmem : f x ∈ xs.eraseDups.map f ↔ x ∈ xs.eraseDups := by
        rw [List.mem_map]
        constructor
        · rintro ⟨y, hy, h⟩
          have hyx : y = x := hf y (List.mem_append_left _ (List.mem_eraseDups.mp hy)) x
            (List.mem_append_right _ (List.mem_singleton_self x)) h
          exact hyx ▸ hy
        · exact fun hx => ⟨x, hx, rfl⟩
      have hxs := ih fun y hy z hz => hf y (List.mem_append_left _ hy) z (List.mem_append_left _ hz)
      rw [List.map_append, List.map_singleton, eraseDups_concat, hxs, eraseDups_concat]
      by_cases hx : x ∈ xs.eraseDups
      · rw [enroll, enroll, if_pos hx, if_pos (hmem.mpr hx)]
      · rw [enroll, enroll, if_neg hx, if_neg (mt hmem.mp hx), List.map_append, List.map_singleton]

/-- Enrolling some values one after the other leaves each at its first occurrence. -/
theorem foldl_enroll (xs ys : List α) :
    ys.foldl enroll xs.eraseDups = (xs ++ ys).eraseDups := by
  induction ys generalizing xs with
  | nil => rw [List.foldl_nil, List.append_nil]
  | cons y ys ih =>
      rw [List.foldl_cons, ← eraseDups_concat, ih, List.append_assoc]
      rfl

/-- Enrolling a value in a list goes along it until the value is found. -/
theorem enroll_cons (x y : α) (xs : List α) :
    enroll (x :: xs) y = if x = y then x :: xs else x :: enroll xs y := by
  unfold enroll
  by_cases h : x = y
  · rw [if_pos h, if_pos (h ▸ List.mem_cons_self)]
  · rw [if_neg h]
    by_cases hy : y ∈ xs
    · rw [if_pos hy, if_pos (List.mem_cons_of_mem x hy)]
    · have hne : y ∉ x :: xs := by
        intro hmem
        rcases List.mem_cons.mp hmem with rfl | hmem
        · exact h rfl
        · exact hy hmem
      rw [if_neg hy, if_neg hne, List.cons_append]

/-- To change the first value with a key, or to put a new one at the end if there is none, is to
enrol the key. -/
theorem map_change {β : Type} {key : β → α} {x : α} {f : β → β} (change : List β → List β)
    (hnil : (change []).map key = [x])
    (hcons : ∀ y ys, change (y :: ys) = if key y == x then f y :: ys else y :: change ys)
    (hf : ∀ y, key (f y) = key y) (ys : List β) :
    (change ys).map key = enroll (ys.map key) x := by
  induction ys with
  | nil => exact hnil
  | cons y ys ih =>
      rw [hcons, List.map_cons, enroll_cons]
      by_cases h : key y = x
      · rw [if_pos (beq_iff_eq.mpr h), if_pos h, List.map_cons, hf]
      · rw [if_neg (by simpa using h), if_neg h, List.map_cons, ih]

section Change

variable {β : Type} {key : β → α} {x : α} {f : β → β} (change : List β → List β) (new : β)

/-- Behind a change stand the values with other keys, and the changed one: it had the key before, or
it is new because nothing had the key. -/
theorem mem_change (hnil : change [] = [f new])
    (hcons : ∀ y ys, change (y :: ys) = if key y == x then f y :: ys else y :: change ys)
    (hnew : key new = x) {ys : List β} (hnodup : (ys.map key).Nodup) {z : β}
    (hz : z ∈ change ys) :
    z ∈ ys ∧ key z ≠ x ∨ ∃ y, z = f y ∧ key y = x ∧ (y ∈ ys ∨ y = new ∧ x ∉ ys.map key) := by
  induction ys with
  | nil =>
      rw [hnil, List.mem_singleton] at hz
      exact .inr ⟨new, hz, hnew, .inr ⟨rfl, List.not_mem_nil⟩⟩
  | cons y ys ih =>
      obtain ⟨hy, hys⟩ := List.nodup_cons.mp hnodup
      rw [hcons] at hz
      by_cases h : key y = x
      · rw [if_pos (beq_iff_eq.mpr h)] at hz
        rcases List.mem_cons.mp hz with rfl | hz
        · exact .inr ⟨y, rfl, h, .inl List.mem_cons_self⟩
        · refine .inl ⟨List.mem_cons_of_mem y hz, fun hkey => hy ?_⟩
          exact List.mem_map.mpr ⟨z, hz, hkey.trans h.symm⟩
      · rw [if_neg (by simpa using h)] at hz
        rcases List.mem_cons.mp hz with rfl | hz
        · exact .inl ⟨List.mem_cons_self, h⟩
        · rcases ih hys hz with ⟨hmem, hkey⟩ | ⟨w, rfl, hkey, hmem | ⟨rfl, hnone⟩⟩
          · exact .inl ⟨List.mem_cons_of_mem y hmem, hkey⟩
          · exact .inr ⟨w, rfl, hkey, .inl (List.mem_cons_of_mem y hmem)⟩
          · refine .inr ⟨w, rfl, hkey, .inr ⟨rfl, ?_⟩⟩
            exact List.not_mem_cons_of_ne_of_not_mem (Ne.symm h) hnone

/-- What holds of all values, of the new one and of what a change makes of them holds behind it. -/
theorem forall_change {P : β → Prop} (hnil : change [] = [f new])
    (hcons : ∀ y ys, change (y :: ys) = if key y == x then f y :: ys else y :: change ys)
    (hnew : P (f new)) (hf : ∀ y, P y → P (f y)) {ys : List β} (hys : ∀ y ∈ ys, P y) :
    ∀ z ∈ change ys, P z := by
  induction ys with
  | nil =>
      intro z hz
      rw [hnil, List.mem_singleton] at hz
      exact hz ▸ hnew
  | cons y ys ih =>
      obtain ⟨hy, hys⟩ := List.forall_mem_cons.mp hys
      rw [hcons]
      split
      · exact List.forall_mem_cons.mpr ⟨hf y hy, hys⟩
      · exact List.forall_mem_cons.mpr ⟨hy, ih hys⟩

/-- A change of a list that is given key by key: it keeps what the other keys give, and a key that
is new gives the new value. -/
theorem change_map {xs : List α} {value value' : α → β} (hnil : change [] = [new])
    (hcons : ∀ y ys, change (y :: ys) = if key y == x then f y :: ys else y :: change ys)
    (hxs : xs.Nodup) (hkey : ∀ a, key (value a) = a) (hsame : value' x = f (value x))
    (hnew : x ∉ xs → value' x = new) (hother : ∀ a, a ≠ x → value' a = value a) :
    change (xs.map value) = (enroll xs x).map value' := by
  induction xs with
  | nil =>
      rw [List.map_nil, hnil, ← hnew List.not_mem_nil]
      rfl
  | cons a xs ih =>
      obtain ⟨hhead, htail⟩ := List.nodup_cons.mp hxs
      rw [List.map_cons, hcons, hkey, enroll_cons]
      by_cases h : a = x
      · have hrest : xs.map value' = xs.map value := by
          refine List.map_congr_left fun b hb => hother b ?_
          rintro rfl
          exact hhead (h ▸ hb)
        rw [if_pos (beq_iff_eq.mpr h), if_pos h, List.map_cons, hrest, h, hsame]
      · have hnew' : x ∉ xs → value' x = new := fun hnone =>
          hnew (List.not_mem_cons_of_ne_of_not_mem (Ne.symm h) hnone)
        rw [if_neg (by simpa using h), if_neg h, List.map_cons, hother a h, ih htail hnew']

end Change

/-- What is enrolled by the steps of a run is enrolled by the run. -/
theorem foldl_flatMap {σ τ : Type} {view : σ → List α} {step : σ → τ → σ} {keys : τ → List α}
    (hstep : ∀ s t, view (step s t) = (keys t).foldl enroll (view s)) (ts : List τ) (s : σ) :
    view (ts.foldl step s) = (ts.flatMap keys).foldl enroll (view s) := by
  induction ts generalizing s with
  | nil => rfl
  | cons t ts ih => rw [List.foldl_cons, ih, hstep, List.flatMap_cons, List.foldl_append]

omit [DecidableEq α] in
/-- What the steps of a run put at the end stands there in the order of the steps. -/
theorem foldl_append {σ τ : Type} {view : σ → List α} {step : σ → τ → σ} {added : τ → List α}
    (hstep : ∀ s t, view (step s t) = view s ++ added t) (ts : List τ) (s : σ) :
    view (ts.foldl step s) = view s ++ ts.flatMap added := by
  induction ts generalizing s with
  | nil => exact (List.append_nil _).symm
  | cons t ts ih => rw [List.foldl_cons, ih, hstep, List.flatMap_cons, List.append_assoc]

/-- Enrolling never repeats a value. -/
theorem enroll_nodup {xs : List α} (h : xs.Nodup) (x : α) : (enroll xs x).Nodup := by
  unfold enroll
  split
  · exact h
  · rename_i hx
    refine List.nodup_append.mpr ⟨h, List.nodup_singleton x, ?_⟩
    intro a ha b hb hab
    rw [List.mem_singleton.mp hb] at hab
    exact hx (hab ▸ ha)

/-- Erasing duplicates leaves none. -/
theorem eraseDups_nodup (xs : List α) : xs.eraseDups.Nodup := by
  induction xs using List.reverseRecOn with
  | nil => exact List.nodup_nil
  | append_singleton xs x ih =>
      rw [eraseDups_concat]
      exact enroll_nodup ih x

/-! ### Values of distinct keys -/

/-- Where keys are distinct, exactly one value has the key of a value. -/
theorem filter_key_eq {β : Type} (key : β → α) {xs : List β} (hkeys : (xs.map key).Nodup) {x : β}
    (hx : x ∈ xs) : xs.filter (fun y => key y == key x) = [x] := by
  induction xs with
  | nil => cases hx
  | cons y ys ih =>
      obtain ⟨hy, hys⟩ := List.nodup_cons.mp hkeys
      rcases List.mem_cons.mp hx with rfl | hx
      · have hnone : ys.filter (fun y => key y == key x) = [] := by
          refine List.filter_eq_nil_iff.mpr fun z hz hkey => hy ?_
          exact List.mem_map.mpr ⟨z, hz, beq_iff_eq.mp hkey⟩
        rw [List.filter_cons_of_pos (by exact beq_self_eq_true (key x)), hnone]
      · have hne : ¬ (key y == key x) = true := by
          intro hkey
          apply hy
          exact List.mem_map.mpr ⟨x, hx, (beq_iff_eq.mp hkey).symm⟩
        rw [List.filter_cons_of_neg (by exact hne), ih hys hx]

/-- The value found for the key of a value is that value. -/
theorem find?_key_eq {β : Type} (key : β → α) {xs : List β} (hkeys : (xs.map key).Nodup) {x : β}
    (hx : x ∈ xs) : xs.find? (fun y => key y == key x) = some x := by
  rw [← List.head?_filter, filter_key_eq key hkeys hx]
  rfl

/-! ### Places of first occurrence -/

section FirstAt

variable {β : Type} {p : β → Bool} {key : β → α} {xs : List β} {a : α}

/-- Where the first of the values that pass a test and have a key stands, if there is one. -/
def firstAt (p : β → Bool) (key : β → α) (xs : List β) (a : α) : Nat :=
  xs.findIdx fun x => p x && key x == a

theorem firstAt_lt (h : a ∈ (xs.filter p).map key) : firstAt p key xs a < xs.length := by
  obtain ⟨x, hx, rfl⟩ := List.mem_map.mp h
  obtain ⟨hmem, hp⟩ := List.mem_filter.mp hx
  exact List.findIdx_lt_length_of_exists ⟨x, hmem, by simp [hp]⟩

/-- What is not there is found behind all that is there. -/
theorem le_firstAt_append (h : a ∉ (xs.filter p).map key) (ys : List β) :
    xs.length ≤ firstAt p key (xs ++ ys) a := by
  have hnone : xs.findIdx (fun x => p x && key x == a) = xs.length := by
    refine List.findIdx_eq_length.mpr fun x hx => ?_
    by_contra hfound
    rw [Bool.not_eq_false, Bool.and_eq_true, beq_iff_eq] at hfound
    exact h (List.mem_map.mpr ⟨x, List.mem_filter.mpr ⟨hx, hfound.1⟩, hfound.2⟩)
  rw [firstAt, List.findIdx_append, hnone, if_neg (Nat.lt_irrefl _)]
  exact Nat.le_add_left ..

/-- What comes later does not move the first place of a value. -/
theorem firstAt_append (h : a ∈ (xs.filter p).map key) (ys : List β) :
    firstAt p key (xs ++ ys) a = firstAt p key xs a := by
  rw [firstAt, List.findIdx_append]
  exact if_pos (firstAt_lt h)

/-- Keys without their repetitions stand in the order in which they first occur. -/
theorem pairwise_firstAt (p : β → Bool) (key : β → α) (xs : List β) :
    ((xs.filter p).map key).eraseDups.Pairwise fun a b =>
      firstAt p key xs a < firstAt p key xs b := by
  induction xs using List.reverseRecOn with
  | nil => exact List.Pairwise.nil
  | append_singleton xs x ih =>
      have hkept : ((xs.filter p).map key).eraseDups.Pairwise fun a b =>
          firstAt p key (xs ++ [x]) a < firstAt p key (xs ++ [x]) b := by
        refine ih.imp_of_mem fun ha hb hlt => ?_
        rwa [firstAt_append (List.mem_eraseDups.mp ha), firstAt_append (List.mem_eraseDups.mp hb)]
      rw [List.filter_append, List.map_append]
      cases hp : p x with
      | false =>
          rw [List.filter_cons_of_neg (by simp [hp]), List.filter_nil, List.map_nil,
            List.append_nil]
          exact hkept
      | true =>
          rw [List.filter_cons_of_pos hp, List.filter_nil, List.map_singleton, eraseDups_concat,
            enroll]
          split
          · exact hkept
          · rename_i hx
            refine List.pairwise_append.mpr ⟨hkept, List.pairwise_singleton _ _, ?_⟩
            intro a ha b hb
            rw [List.mem_singleton.mp hb, firstAt_append (List.mem_eraseDups.mp ha)]
            exact Nat.lt_of_lt_of_le (firstAt_lt (List.mem_eraseDups.mp ha))
              (le_firstAt_append (fun h => hx (List.mem_eraseDups.mpr h)) [x])

end FirstAt

end Whiteboard.Roster
