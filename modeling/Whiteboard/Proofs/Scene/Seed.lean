import Whiteboard.Draw
import Whiteboard.Proofs.Scene.Integrity

/-!
What the seed changes of a scene.

A builder looks ids up, compares them and draws them again where they are not new, so two drawings
with different seeds need not even draw alike. Yet each draws the same outline under its own stamps
(`draw_eq`). As no two stamps share an id, the ids of one drawing can be renamed to those of the
other, position by position, in every place that mentions them; what is left apart are the random
numbers (`rename_ofDiagram`).
-/

namespace Whiteboard

variable {ι κ μ α : Type}

namespace Scene

def ids (scene : Scene α) : List String :=
  scene.elements.map (·.id)

/-- The id that stands in another scene where an id stands in this one. -/
def counterpart (scene other : Scene α) (id : String) : String :=
  (other.ids[scene.ids.idxOf id]?).getD id

/-- A scene with every id renamed, wherever it is mentioned. -/
def rename (f : String → String) (scene : Scene α) : Scene α where
  items := scene.items.map fun item => { item with element := item.element.map f }

/-- A scene without the random numbers of its elements. -/
def unseeded (scene : Scene α) : Scene α where
  items := scene.items.map fun item => { item with seed := 0, nonce := 0 }

/-- Texts hold no random numbers. -/
theorem texts_unseeded (scene : Scene α) : scene.unseeded.texts = scene.texts := by
  unfold texts elements unseeded
  rw [List.map_map]
  rfl

theorem texts_rename (f : String → String) (scene : Scene α) :
    (scene.rename f).texts = scene.texts.map fun t => (f t.1, t.2) := by
  unfold texts elements rename
  rw [List.map_map, List.filterMap_map, List.filterMap_map, List.map_filterMap]
  refine List.filterMap_congr fun item _ => ?_
  simp [Option.map_map, Function.comp_def]

/-! ### Two drawings of one outline -/

section Stamped

variable {outline : List (Element Nat α)} {stamps stamps' : List Source.Stamp}

theorem idAt_eq {i : Nat} (h : i < stamps.length) : idAt stamps i = stamps[i].id := by
  simp [idAt, h]

/-- The ids of a scene are those of its stamps. -/
theorem ids_ofOutline (hids : outline.map (·.id) = List.range outline.length)
    (hlength : stamps.length = outline.length) :
    (ofOutline stamps outline).ids = stamps.map (·.id) := by
  have hcomp : ((fun e => e.id) ∘ Element.map (idAt stamps) : Element Nat α → String) =
      idAt stamps ∘ (·.id) := rfl
  rw [ids, elements_ofOutline hlength, List.map_map, hcomp, ← List.map_map, hids, ← hlength]
  refine List.ext_getElem (by simp) fun i hi _ => ?_
  have hi' : i < stamps.length := by simpa using hi
  simp [idAt_eq hi']

/-- The counterpart of the id at a position is the id at that position. -/
theorem counterpart_idAt (hids : outline.map (·.id) = List.range outline.length)
    (hlength : stamps.length = outline.length) (hlength' : stamps'.length = outline.length)
    (hnodup : (stamps.map (·.id)).Nodup) {i : Nat} (hi : i < outline.length) :
    (ofOutline stamps outline).counterpart (ofOutline stamps' outline) (idAt stamps i) =
      idAt stamps' i := by
  have hi₁ : i < stamps.length := by omega
  have hi₂ : i < stamps'.length := by omega
  have hpos : (stamps.map (·.id)).idxOf (idAt stamps i) = i := by
    have hget := hnodup.idxOf_getElem i (by simpa using hi₁)
    rwa [List.getElem_map, ← idAt_eq hi₁] at hget
  rw [counterpart, ids_ofOutline hids hlength, ids_ofOutline hids hlength', hpos, idAt_eq hi₂]
  simp [hi₂]

/-- Renamed position by position, one drawing of an outline is the other but for the random
numbers. -/
theorem rename_ofOutline (linked : Linked outline)
    (hids : outline.map (·.id) = List.range outline.length)
    (hlength : stamps.length = outline.length) (hlength' : stamps'.length = outline.length)
    (hnodup : (stamps.map (·.id)).Nodup)
    (hindex : stamps.map (·.index) = stamps'.map (·.index)) :
    ((ofOutline stamps outline).rename
      ((ofOutline stamps outline).counterpart (ofOutline stamps' outline))).unseeded =
      (ofOutline stamps' outline).unseeded := by
  have hmap : outline.map (Element.map
      ((ofOutline stamps outline).counterpart (ofOutline stamps' outline) ∘ idAt stamps)) =
      outline.map (Element.map (idAt stamps')) := by
    refine linked.map_congr fun x hx => ?_
    apply counterpart_idAt hids hlength hlength' hnodup
    rw [← List.mem_range, ← hids]
    exact List.mem_map_of_mem hx
  refine congrArg Scene.mk (List.ext_getElem ?_ fun i hi hi' => ?_)
  · simp [rename, ofOutline, hlength, hlength']
  · have houtline : i < outline.length := by simpa [rename, ofOutline, hlength] using hi
    have hstamps : i < stamps.length := hlength ▸ houtline
    have hstamps' : i < stamps'.length := hlength' ▸ houtline
    have helement := List.map_inj_left.mp hmap outline[i] (List.getElem_mem houtline)
    have hstamp : stamps[i].index = stamps'[i].index := by
      have hget := List.getElem_of_eq hindex (by simpa using hstamps)
      rwa [List.getElem_map, List.getElem_map] at hget
    simp only [rename, ofOutline, List.getElem_map, List.getElem_zip, Element.map_map]
    rw [hstamp, ← helement]
    rfl

end Stamped

end Scene

/-! ### Two seeds -/

def Settings.withSeed (s : Settings α) (seed : UInt64) : Settings α :=
  { s with seed }

variable [Scalar α]

/-- A layout does not depend on the seed. -/
theorem Layout.ofDiagram_withSeed (s : Settings α) (seed : UInt64) (d : Diagram) :
    ofDiagram (s.withSeed seed) d = ofDiagram s d := by
  unfold ofDiagram
  cases d.dialect <;> rfl

namespace Scene

/-- The scenes of a diagram differ by their stamps only. -/
theorem ofDiagram_withSeed (g : Generator) (s : Settings α) (seed : UInt64) (d : Diagram) :
    ofDiagram g (s.withSeed seed) d =
      let outline := Outline.draw s d (Layout.ofDiagram s d)
      ofOutline (Source.stamps outline.length (Source.ofSeed g seed)) outline := by
  rw [ofDiagram, Layout.ofDiagram_withSeed, draw_eq]
  rfl

/-- Under another seed a scene is the same, but for ids and random numbers. -/
theorem rename_ofDiagram (g : Generator) (s : Settings α) (seed : UInt64) (d : Diagram) :
    ((ofDiagram g s d).rename
      ((ofDiagram g s d).counterpart (ofDiagram g (s.withSeed seed) d))).unseeded =
      (ofDiagram g (s.withSeed seed) d).unseeded := by
  rw [ofDiagram_withSeed, ofDiagram, draw_eq]
  refine rename_ofOutline (Outline.linked_draw s d _) (Outline.ids_draw s d _)
    (Source.length_stamps _ _) (Source.length_stamps _ _) (Source.ids_stamps_nodup _ _) ?_
  rw [Source.indexes_stamps, Source.indexes_stamps]
  rfl

end Scene

/-- Two drawings of a text with different seeds have as many elements and texts. If each id of the
first is renamed to the id at the same position of the second, wherever it is mentioned, the two
differ in random numbers only. -/
theorem Document.draw_withSeed (g : Generator) (s : Settings α) (seed : UInt64) {text : String}
    {scene : Scene α} (hdraw : draw g s text = .ok scene) :
    ∃ scene', draw g (s.withSeed seed) text = .ok scene' ∧
      scene'.items.length = scene.items.length ∧ scene'.texts.length = scene.texts.length ∧
      (scene.rename (scene.counterpart scene')).unseeded = scene'.unseeded ∧
      (scene.texts.map fun t => (scene.counterpart scene' t.1, t.2)) = scene'.texts := by
  unfold draw at hdraw ⊢
  cases hread : parse text with
  | error e =>
      rw [hread] at hdraw
      cases hdraw
  | ok d =>
      rw [hread] at hdraw
      cases hdraw
      have hrename := Scene.rename_ofDiagram g s seed d
      have htexts := congrArg Scene.texts hrename
      rw [Scene.texts_unseeded, Scene.texts_unseeded, Scene.texts_rename] at htexts
      refine ⟨_, rfl, ?_, ?_, hrename, htexts⟩
      · have hlength := congrArg (fun scene => scene.items.length) hrename
        simpa [Scene.unseeded, Scene.rename] using hlength.symm
      · rw [← htexts, List.length_map]

def Document.loop : String :=
  "graph TD\nA --> A"

def Document.loopDiagram : Diagram where
  dialect := .flowchart
  nodes := [.bare "A"]
  edges := [{ source := "A", target := "A", stroke := some .solid }]
  text := loop

/-- The two scenes of `loop` under the seeds 1 and 2. -/
theorem Document.draw_loop_withSeed :
    ∃ scene scene' : Scene Rat, draw .keystream .standard loop = .ok scene ∧
      draw .keystream (Settings.standard.withSeed 2) loop = .ok scene' ∧
      scene'.items.length = scene.items.length ∧ scene'.texts.length = scene.texts.length ∧
      (scene.rename (scene.counterpart scene')).unseeded = scene'.unseeded ∧
      (scene.texts.map fun t => (scene.counterpart scene' t.1, t.2)) = scene'.texts := by
  have hread : parse loop = .ok loopDiagram := by decide +kernel
  have hdraw : draw .keystream .standard loop =
      .ok (Scene.ofDiagram .keystream (.standard : Settings Rat) loopDiagram) := by
    rw [draw, hread]
    rfl
  obtain ⟨scene', hscene'⟩ := draw_withSeed .keystream .standard 2 hdraw
  exact ⟨_, scene', hdraw, hscene'⟩

end Whiteboard
