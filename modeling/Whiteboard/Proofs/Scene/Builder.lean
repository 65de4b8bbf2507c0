import Whiteboard.Proofs.Identity.Stamps
import Whiteboard.Proofs.Scene.Outline
import Whiteboard.Scene.Scene

/-!
What a builder draws is an outline with ids.

A builder draws the id of an element when it makes the element, and whatever refers to the element
later compares and stores this id. `Shows` is what holds between a builder and the outline of all it
has drawn: its items are the elements of the outline with the ids of their stamps for their
positions, and its table of shapes gives the ids of those that the outline would give by position.
Every step of drawing keeps this (`shows_frame`, `shows_node`, `shows_lifeline`, `shows_connector`),
so it holds of the whole drawing (`shows_draw`). As the ids of stamps are distinct, reconciling by
them is reconciling by positions, and a scene is the outline of its diagram under the stamps of its
seed (`Scene.draw_eq`).
-/

namespace Whiteboard

variable {g : Generator} {ι κ α : Type}

/-! ### Outlines with stamps -/

namespace Scene

/-- The id that a list of stamps gives to a position. -/
def idAt (stamps : List Source.Stamp) (position : Nat) : String :=
  ((stamps[position]?).map (·.id)).getD ""

def ofOutline (stamps : List Source.Stamp) (outline : List (Element Nat α)) : Scene α where
  items := (outline.zip stamps).map fun (e, stamp) =>
    { element := e.map (idAt stamps), seed := stamp.seed, nonce := stamp.nonce,
      index := stamp.index }

end Scene

/-! ### Stencils -/

theorem Body.map_figure (f : ι → κ) (shape : Shape) :
    (shape.figure : Body ι α).map f = shape.figure := by
  cases shape <;> rfl

/-- Renaming an element that holds a text renames the reference to it. -/
theorem Element.map_holding (f : ι → κ) (e : Element ι α) (text : ι) :
    (e.holding text).map f = (e.map f).holding (f text) := by
  simp only [holding, map, List.map_append]
  rfl

theorem Stencil.map_shape [Scalar α] (f : ι → κ) (n : Node) (box : Rect α) (id : ι) :
    (Stencil.shape n box id).map f = Stencil.shape n box (f id) := by
  simp only [Stencil.shape, Stencil.figure, Element.map, Body.map_figure]
  rfl

/-! ### The shape of a node id -/

namespace Outline

/-- Of two shapes for one id, the later one is found. -/
theorem shapeOf?_append (xs ys : List (Element Nat α)) (id : String) :
    shapeOf? (xs ++ ys) id = (shapeOf? ys id).or (shapeOf? xs id) := by
  unfold shapeOf?
  rw [List.reverse_append, List.find?_append, Option.map_or]

/-- Only shapes are entered in the table. -/
theorem shapeOf?_eq_none {es : List (Element Nat α)} (h : ∀ e ∈ es, e.role ≠ .shape)
    (id : String) : shapeOf? es id = none := by
  rw [shapeOf?, Option.map_eq_none_iff, List.find?_eq_none]
  intro e he
  simp [h e (List.mem_reverse.mp he)]

end Outline

/-! ### A builder and what it has drawn -/

/-- What a stencil makes with the stamp of a position. -/
def Source.made (s : Source g) (n : Nat) (stencil : String → Element String α) : Item α where
  element := stencil (s.stampAt n).id
  seed := (s.stampAt n).seed
  nonce := (s.stampAt n).nonce
  index := (s.stampAt n).index

/-- An element of an outline with the stamp of its position, and with ids for all positions. -/
def Source.item (s : Source g) (e : Element Nat α) : Item α :=
  s.made e.id fun _ => e.map s.nameAt

/-- An element of an outline stands at a position, and with ids for all positions it is what a
stencil makes there. -/
structure Source.Makes (s : Source g) (stencil : String → Element String α) (n : Nat)
    (e : Element Nat α) : Prop where
  id_eq : e.id = n
  map_eq : e.map s.nameAt = stencil (s.nameAt n)

theorem Source.Makes.made_eq {s : Source g} {stencil : String → Element String α} {n : Nat}
    {e : Element Nat α} (makes : s.Makes stencil n e) : s.made n stencil = s.item e := by
  rw [item, makes.id_eq, made, made, makes.map_eq]
  rfl

/-- Items hold each other as the elements of the outline do. -/
theorem Source.item_holding (s : Source g) (e t : Element Nat α) :
    (s.item e).holding (s.item t) = s.item (e.holding t.id) := by
  simp only [Item.holding, item, made, Element.map_holding]
  rfl

namespace Builder

/-- A builder that began with a source has drawn an outline. -/
structure Shows (start : Source g) (es : List (Element Nat α)) (b : Builder g α) : Prop where
  source_eq : b.source = start.skip es.length
  items_eq : b.items.toList = es.map start.item
  shapes_eq : ∀ id, b.shapes[id]? = (Outline.shapeOf? es id).map start.nameAt

variable {start : Source g} {es : List (Element Nat α)} {b : Builder g α}

/-- A builder begins with nothing drawn. -/
theorem Shows.nil (start : Source g) :
    Shows start ([] : List (Element Nat α)) { source := start } where
  source_eq := rfl
  items_eq := rfl
  shapes_eq _ := by simp [Outline.shapeOf?]

/-- More has been drawn. -/
theorem Shows.extend (shows : Shows start es b) {new : List (Element Nat α)} {b' : Builder g α}
    (hsource : b'.source = start.skip (es.length + new.length))
    (hitems : b'.items.toList = b.items.toList ++ new.map start.item)
    (hshapes : ∀ id, b'.shapes[id]? =
      ((Outline.shapeOf? new id).map start.nameAt).or b.shapes[id]?) :
    Shows start (es ++ new) b' where
  source_eq := by rw [hsource, List.length_append]
  items_eq := by rw [hitems, shows.items_eq, List.map_append]
  shapes_eq id := by rw [hshapes, shows.shapes_eq, Outline.shapeOf?_append, Option.map_or]

/-- An element and a text have been drawn that the element holds. -/
theorem Shows.pair (shows : Shows start es b) {b' : Builder g α}
    {stencil inner : String → Element String α} {e t : Element Nat α} {n : Nat}
    (outer : start.Makes stencil n e) (text : start.Makes inner (n + 1) t) (hn : es.length = n)
    (hsource : b'.source = start.skip (n + 2))
    (hitems : b'.items = (b.items.push ((start.made n stencil).holding
      (start.made (n + 1) inner))).push (start.made (n + 1) inner))
    (hshapes : ∀ id, b'.shapes[id]? =
      ((Outline.shapeOf? [e.holding (n + 1), t] id).map start.nameAt).or b.shapes[id]?) :
    Shows start (es ++ [e.holding (n + 1), t]) b' := by
  subst hn
  refine shows.extend hsource ?_ hshapes
  rw [hitems, outer.made_eq, text.made_eq, start.item_holding, text.id_eq, Array.toList_push,
    Array.toList_push, List.append_assoc]
  rfl

/-- An element has been drawn that is no shape. -/
theorem Shows.put (shows : Shows start es b) {stencil : String → Element String α}
    {e : Element Nat α} {n : Nat} (makes : start.Makes stencil n e) (hn : es.length = n)
    (hrole : e.role ≠ .shape) : Shows start (es ++ [e]) ((create stencil >>= push) b).2 := by
  obtain ⟨source, items, shapes⟩ := b
  obtain rfl : source = _ := shows.source_eq
  subst hn
  refine shows.extend rfl ?_ fun id => ?_
  · show (items.push (start.made es.length stencil)).toList = _
    rw [makes.made_eq, Array.toList_push]
    rfl
  · rw [Outline.shapeOf?_eq_none (by simpa using hrole)]
    rfl

variable [Scalar α] (s : Settings α) (d : Diagram)

/-- Drawing a frame keeps builder and outline together. -/
theorem shows_frame (f : Frame α) (shows : Shows start es b) :
    Shows start (es ++ Outline.frame s d f es.length) (frame s d f b).2 := by
  have hframe : start.Makes (Stencil.frame d f) es.length (Stencil.frame d f es.length) :=
    ⟨rfl, rfl⟩
  have htitle : start.Makes (Stencil.title s f) (es.length + 1)
      (Stencil.title s f (es.length + 1)) := ⟨rfl, rfl⟩
  unfold frame Outline.frame
  by_cases h : Stencil.isVisible f.rect = true
  · rw [if_pos h, if_pos h, List.append_cons]
    exact (shows.put hframe rfl nofun).put htitle List.length_append nofun
  · rw [if_neg h, if_neg h, List.append_nil]
    exact shows

/-- Drawing a lifeline keeps builder and outline together. -/
theorem shows_lifeline (l : Lifeline α) (shows : Shows start es b) :
    Shows start (es ++ Outline.lifeline l es.length) (lifeline l b).2 := by
  have hlifeline : start.Makes (Stencil.lifeline l) es.length (Stencil.lifeline l es.length) :=
    ⟨rfl, rfl⟩
  exact shows.put hlifeline rfl nofun

/-- A node is found by its id at the position of its shape. -/
theorem shapeOf?_labelled (n : Node) (box : Rect α) (i : Nat) (id : String) :
    Outline.shapeOf? [(Stencil.shape n box i).holding (i + 1), Stencil.label s n box i (i + 1)] id =
      if n.id = id then some i else none := by
  have hlabel : ((Stencil.label s n box i (i + 1)).role == .shape) = false := rfl
  have hshape : (((Stencil.shape n box i).holding (i + 1)).role == .shape) = true := rfl
  have howner : ((Stencil.shape n box i).holding (i + 1)).owner = some n.id := rfl
  rw [Outline.shapeOf?, List.reverse_cons, List.reverse_singleton, List.singleton_append,
    List.find?_cons_of_neg (by simp [hlabel]), List.find?_singleton, hshape, howner]
  by_cases h : n.id = id
  · simp [h]
    rfl
  · simp [h]

/-- Drawing a node keeps builder and outline together, the table of shapes included. -/
theorem shows_node (p : PlacedNode α) (shows : Shows start es b) :
    Shows start (es ++ Outline.node s d p es.length) (node s d p b).2 := by
  unfold node Outline.node
  cases d.node? p.id with
  | none =>
      rw [List.append_nil]
      exact shows
  | some n =>
      have hshape : start.Makes (Stencil.shape n p.rect) es.length
          (Stencil.shape n p.rect es.length) := ⟨rfl, Stencil.map_shape ..⟩
      have hlabel : start.Makes (Stencil.label s n p.rect (start.nameAt es.length)) (es.length + 1)
          (Stencil.label s n p.rect es.length (es.length + 1)) := ⟨rfl, rfl⟩
      have hseparator : start.Makes (Stencil.separator s n p.rect) (es.length + 2)
          (Stencil.separator s n p.rect (es.length + 2)) := ⟨rfl, rfl⟩
      have hlabelled : Shows start
          (es ++ [(Stencil.shape n p.rect es.length).holding (es.length + 1),
            Stencil.label s n p.rect es.length (es.length + 1)])
          ((do
            let shape ← create (Stencil.shape n p.rect)
            let label ← create (Stencil.label s n p.rect shape.element.id)
            enter n.id shape.element.id
            push (shape.holding label)
            push label : StateM (Builder g α) Unit) b).2 := by
        obtain ⟨source, items, shapes⟩ := b
        obtain rfl : source = _ := shows.source_eq
        refine shows.pair hshape hlabel rfl rfl rfl fun id => ?_
        show (shapes.insert n.id (start.nameAt es.length))[id]? = _
        rw [Std.HashMap.getElem?_insert, shapeOf?_labelled]
        by_cases h : n.id = id
        · simp [h]
        · simp [h]
      dsimp only
      by_cases h : (d.dialect == .entityRelation && n.isMultiline) = true
      · rw [if_pos h, if_pos h, ← List.append_assoc]
        exact hlabelled.put hseparator List.length_append nofun
      · rw [if_neg h, if_neg h, List.append_nil]
        exact hlabelled

/-- A connector looks both its ends up before anything is drawn for it. -/
theorem connector_run (dialect : Dialect) (e : RoutedEdge α) (b : Builder g α) :
    connector s dialect e b =
      if h : 2 ≤ e.points.length then
        match b.shapes[e.edge.source]?, b.shapes[e.edge.target]? with
        | some source, some target => arrow s dialect e h source target b
        | _, _ => ((), b)
      else ((), b) := by
  unfold connector
  split
  · show (match b.shapes[e.edge.source]?, b.shapes[e.edge.target]? with
      | some source, some target => arrow s dialect e _ source target
      | _, _ => pure ()) b = _
    cases b.shapes[e.edge.source]? <;> cases b.shapes[e.edge.target]? <;> rfl
  · rfl

/-- Drawing an arrow between two shapes keeps builder and outline together. -/
theorem shows_arrow (dialect : Dialect) (e : RoutedEdge α) (h : 2 ≤ e.points.length)
    (source target : Nat) (shows : Shows start es b) :
    Shows start
      (es ++ match Stencil.labelOf? e.edge with
        | none => [Stencil.arrow s e (Stencil.origin e.points h) source target es.length]
        | some content =>
          [(Stencil.arrow s e (Stencil.origin e.points h) source target es.length).holding
              (es.length + 1),
            Stencil.arrowLabel s dialect content (Stencil.anchor e.points h) es.length
              (es.length + 1)])
      (arrow s dialect e h (start.nameAt source) (start.nameAt target) b).2 := by
  have harrow : start.Makes
      (Stencil.arrow s e (Stencil.origin e.points h) (start.nameAt source) (start.nameAt target))
      es.length (Stencil.arrow s e (Stencil.origin e.points h) source target es.length) :=
    ⟨rfl, rfl⟩
  unfold arrow
  cases Stencil.labelOf? e.edge with
  | none => exact shows.put harrow rfl nofun
  | some content =>
      have hlabel : start.Makes
          (Stencil.arrowLabel s dialect content (Stencil.anchor e.points h)
            (start.nameAt es.length))
          (es.length + 1)
          (Stencil.arrowLabel s dialect content (Stencil.anchor e.points h) es.length
            (es.length + 1)) := ⟨rfl, rfl⟩
      obtain ⟨_, items, shapes⟩ := b
      obtain rfl := shows.source_eq
      refine shows.pair harrow hlabel rfl rfl rfl fun id => ?_
      rw [Outline.shapeOf?_eq_none]
      · rfl
      · intro x hx
        rcases List.mem_pair.mp hx with rfl | rfl <;> nofun

/-- A connector finds the ends that the outline finds, and adds no shape to them. -/
theorem shows_connector {shapes : List (Element Nat α)}
    (same : ∀ id, Outline.shapeOf? es id = Outline.shapeOf? shapes id) (dialect : Dialect)
    (e : RoutedEdge α) (shows : Shows start es b) :
    Shows start (es ++ Outline.connector s dialect shapes e es.length)
      (connector s dialect e b).2 := by
  rw [connector_run, shows.shapes_eq, shows.shapes_eq, same, same]
  unfold Outline.connector
  by_cases h : 2 ≤ e.points.length
  · rw [dif_pos h, dif_pos h]
    cases Outline.shapeOf? shapes e.edge.source with
    | none =>
        rw [List.append_nil]
        exact shows
    | some source =>
        cases Outline.shapeOf? shapes e.edge.target with
        | none =>
            rw [List.append_nil]
            exact shows
        | some target => exact shows_arrow s dialect e h source target shows
  · rw [dif_neg h, dif_neg h, List.append_nil]
    exact shows

/-! ### Whole drawings -/

omit [Scalar α] in
/-- What every step keeps is kept by drawing one thing after the other. -/
theorem forM_keeps {β : Type} {act : β → StateM (Builder g α) Unit} {group : β → Outline.Group α}
    {keeps : List (Element Nat α) → Builder g α → Prop}
    (step : ∀ x es b, keeps es b → keeps (es ++ group x es.length) (act x b).2) (xs : List β)
    (h : keeps es b) :
    keeps (es ++ Outline.assemble es.length (xs.map group)) (xs.forM act b).2 := by
  induction xs generalizing es b with
  | nil =>
      rw [List.map_nil, Outline.assemble, List.append_nil]
      exact h
  | cons x xs ih =>
      rw [List.map_cons, Outline.assemble, ← List.append_assoc, ← List.length_append]
      exact ih (step x es b h)

/-- A builder has drawn an outline whose shapes are those of another one. -/
structure ShowsAfter (start : Source g) (shapes es : List (Element Nat α)) (b : Builder g α) :
    Prop extends Shows start es b where
  same : ∀ id, Outline.shapeOf? es id = Outline.shapeOf? shapes id

omit [Scalar α] in
/-- What is drawn for no node leaves the shapes of all nodes as they are. -/
theorem ShowsAfter.append {shapes new : List (Element Nat α)} {b' : Builder g α}
    (after : ShowsAfter start shapes es b) (shows : Shows start (es ++ new) b')
    (hnew : ∀ e ∈ new, e.role.isOfNode = false) : ShowsAfter start shapes (es ++ new) b' where
  toShows := shows
  same id := by
    have hrole : ∀ e ∈ new, e.role ≠ .shape := by
      intro e he h
      have := hnew e he
      rw [h] at this
      cases this
    rw [Outline.shapeOf?_append, Outline.shapeOf?_eq_none hrole, Option.none_or, after.same]

/-- A builder draws the outline of a diagram. -/
theorem shows_draw (l : Layout α) (start : Source g) :
    Shows start (Outline.shapes s d l ++ Outline.lines s d l)
      (draw s d l { source := start }).2 := by
  have hframes := forM_keeps (fun f _ _ => shows_frame s d f) l.frames (Shows.nil start)
  have hshapes := forM_keeps (fun p _ _ => shows_node s d p) l.nodes hframes
  rw [List.nil_append, ← Nat.zero_add (Outline.assemble _ _).length, List.length_nil,
    ← Outline.assemble_append] at hshapes
  have hafter : ShowsAfter start (Outline.shapes s d l) (Outline.shapes s d l) _ :=
    ⟨hshapes, fun _ => rfl⟩
  have hlifelines := forM_keeps (fun i _ _ h => h.append (shows_lifeline i h.toShows)
    fun _ he => (Outline.fields_of_mem_lifeline he).1) l.lifelines hafter
  have hconnectors := forM_keeps (fun e _ _ h =>
    h.append (shows_connector s h.same d.dialect e h.toShows)
      fun _ he => Outline.role_of_mem_connector he) l.edges hlifelines
  rw [List.append_assoc, List.length_append, ← Outline.assemble_append] at hconnectors
  exact hconnectors.toShows

end Builder

/-! ### The whole scene -/

/-- Reconciling items reconciles their elements, whatever their ids. -/
theorem Item.reconcile_eq (start : Source g) {es : List (Element Nat α)} (closed : Closed es) :
    Item.reconcile (es.map start.item) = (Element.reconcile es).map start.item := by
  have apart : KeepsApart start.nameAt es := fun x _ y _ h => start.nameAt_injective h
  have helements : (es.map start.item).map (·.element) = es.map (Element.map start.nameAt) := by
    rw [List.map_map]
    rfl
  rw [reconcile, helements, Element.reconcile_map closed apart, Element.reconcile_eq_map,
    List.map_map, List.zipWith_map, List.zipWith_self, List.map_map]
  rfl

/-- An outline with stamps for its elements has them at their positions. -/
theorem Scene.items_ofOutline (start : Source g) {outline : List (Element Nat α)}
    (linked : Linked outline) (hids : outline.map (·.id) = List.range outline.length) :
    (ofOutline (Source.stamps outline.length start) outline).items = outline.map start.item := by
  have hid : ∀ i (hi : i < outline.length), outline[i].id = i := by
    intro i hi
    have hget := List.getElem_of_eq hids (by simpa using hi)
    rwa [List.getElem_map, List.getElem_range] at hget
  have hnames : ∀ x ∈ outline,
      idAt (Source.stamps outline.length start) x.id = start.nameAt x.id := by
    intro x hx
    obtain ⟨i, hi, rfl⟩ := List.getElem_of_mem hx
    simp [idAt, Source.stamps_eq_map, hid, hi, Source.nameAt]
  have helements := linked.map_congr hnames
  refine List.ext_getElem (by simp [ofOutline]) fun i hi hi' => ?_
  have hlt : i < outline.length := by simpa using hi'
  have helement := List.map_inj_left.mp helements outline[i] (List.getElem_mem hlt)
  simp only [ofOutline, List.getElem_map, List.getElem_zip, Source.item, Source.made, helement, hid]
  simp [Source.stamps_eq_map]

variable [Scalar α] (s : Settings α) (d : Diagram) (l : Layout α)

/-- What an outline mentions is in the outline. -/
theorem Outline.closed_outline : Closed (shapes s d l ++ lines s d l) where
  binding_mem a ha b hb := by
    obtain ⟨x, hx, hid, -⟩ := mem_outline_bindings s d l ha hb
    exact ⟨x, List.mem_append_left _ hx, hid⟩
  reference_mem e he r hr := by
    have labelled := (tidy_outline s d l).labelled
    have htext : ⟨r.id, .text⟩ ∈ e.bound := by
      rw [← labelled.kind_eq_text e he r hr]
      exact hr
    obtain ⟨t, ht, hid, -⟩ := (labelled.text_reference_iff e he r.id).mp htext
    exact ⟨t, ht, hid⟩

namespace Scene

/-- A builder that draws ids, seeds and index tokens as it goes along draws the outline of its
diagram under the stamps of its seed. -/
theorem draw_eq (g : Generator) :
    draw g s d l =
      ofOutline (Source.stamps (Outline.draw s d l).length (Source.ofSeed g s.seed))
        (Outline.draw s d l) := by
  have shows := Builder.shows_draw s d l (Source.ofSeed g s.seed)
  have hdraw : draw g s d l = ⟨(Outline.draw s d l).map (Source.ofSeed g s.seed).item⟩ := by
    rw [draw, shows.items_eq, Item.reconcile_eq _ (Outline.closed_outline s d l),
      Outline.draw_eq]
  rw [hdraw, ← items_ofOutline _ (Outline.linked_draw s d l) (Outline.ids_draw s d l)]

end Scene

end Whiteboard
