import Whiteboard.CommandLine.Run

/-!
A run delivers its drawing to one place, or it leaves everything as it was.

Writing is the last step of a run, so whatever keeps a run from its end (`Obstacle`) does so before
anything has been written. A run that meets no obstacle leaves the drawing on the output or in the
one file asked for (`Delivered`). What is drawn is decided by the diagram of the text that was read,
the direction, the seed and the format alone (`rendering`). All this is so in every file system and
for every input and output.
-/

namespace Whiteboard.CommandLine.Invocation

variable {fs : FileSystem} {i : Invocation} {files : fs.State} {streams : Streams}
  {text json path : String} {failure : Failure} {direction : Option Direction}

/-! ### What a run has to do -/

def source (i : Invocation) (files : fs.State) (streams : Streams) : Except Failure String :=
  match i.input with
  | none => streams.text.mapError .input
  | some path => (fs.read files path).mapError (.read path)

/-- The scene of a diagram as JSON, in a direction and with a seed, on one line or on several. -/
def rendering (direction : Option Direction) (seed : UInt64) (pretty : Bool) (d : Diagram) :
    String :=
  (Scene.ofDiagram .keystream (settings direction seed) d).toJson.toText
    (if pretty then .pretty else .compact)

/-- An invocation has this diagram to draw, in this direction. -/
structure Draws (i : Invocation) (files : fs.State) (streams : Streams)
    (direction : Option Direction) (d : Diagram) : Prop where
  heading : i.heading = .ok direction
  exists_source : ∃ text, i.source files streams = .ok text ∧ Document.parse text = .ok d

/-- What keeps a run from its end, where nothing has kept it before. -/
inductive Obstacle (i : Invocation) (files : fs.State) (streams : Streams) : Failure → Prop where
  /-- The direction is none. -/
  | direction {token : String} : i.direction = some token →
      Direction.ofToken? token.toList = none → Obstacle i files streams (.direction token)
  /-- Standard input cannot be read. -/
  | input {direction : Option Direction} {fault : Fault} : i.heading = .ok direction →
      i.input = none → streams.text = .error fault → Obstacle i files streams (.input fault)
  /-- The input file cannot be read. -/
  | read {direction : Option Direction} {path : String} {fault : Fault} :
      i.heading = .ok direction → i.input = some path → fs.read files path = .error fault →
      Obstacle i files streams (.read path fault)
  /-- The text names no diagram language. -/
  | document {direction : Option Direction} {text : String} {e : Document.Error} :
      i.heading = .ok direction → i.source files streams = .ok text →
      Document.parse text = .error e → Obstacle i files streams (.document e)
  /-- The output path opens no file. -/
  | write {direction : Option Direction} {d : Diagram} {path : String} {fault : Fault} :
      i.Draws files streams direction d → i.output = some path →
      fs.target files path = .error fault → Obstacle i files streams (.write path fault)
  /-- Standard output does not take the drawing. -/
  | output {direction : Option Direction} {d : Diagram} {fault : Fault} :
      i.Draws files streams direction d → i.output = none →
      streams.accepts (rendering direction i.seed i.pretty d ++ "\n") = .error fault →
      Obstacle i files streams (.output fault)

/-- What a run leaves behind that has delivered a drawing. -/
inductive Delivered (i : Invocation) (files : fs.State) (json : String) : Outcome fs → Prop where
  /-- The drawing is on the output, and no file has changed. -/
  | output : i.output = none → Delivered i files json ⟨0, json ++ "\n", "", files⟩
  /-- The drawing is in one file, and no other has changed. -/
  | file {path : String} {file : fs.File} {files' : fs.State} : i.output = some path →
      fs.target files path = .ok file → fs.bytes? files' file = some json.toUTF8 →
      (∀ other, other ≠ file → fs.bytes? files' other = fs.bytes? files other) →
      Delivered i files json ⟨0, "", "", files'⟩

/-! ### What the steps of a run do -/

/-- The direction fails only for a token that is none. -/
theorem heading_error (h : i.heading = .error failure) :
    ∃ token, i.direction = some token ∧ Direction.ofToken? token.toList = none ∧
      failure = .direction token := by
  unfold heading at h
  split at h
  · cases h
  next token htoken =>
    split at h
    · cases h
    next hnone =>
      cases h
      exact ⟨token, htoken, hnone, rfl⟩

theorem heading_of_ofToken?_eq_none {token : String} (htoken : i.direction = some token)
    (hnone : Direction.ofToken? token.toList = none) :
    i.heading = .error (.direction token) := by
  simp [heading, htoken, hnone]

theorem source_of_input_eq_none (h : i.input = none) (files : fs.State) :
    i.source files streams = streams.text.mapError .input := by
  rw [source, h]

theorem source_of_input_eq_some (h : i.input = some path) (files : fs.State) :
    i.source files streams = (fs.read files path).mapError (.read path) := by
  rw [source, h]

theorem of_mapError_eq_error {ε ε' β : Type} {first : Except ε β} {f : ε → ε'} {e : ε'}
    (h : first.mapError f = .error e) : ∃ fault, first = .error fault ∧ e = f fault := by
  cases first with
  | ok b => cases h
  | error fault =>
      cases h
      exact ⟨fault, rfl, rfl⟩

/-- The input is not read in, or the file is not. -/
theorem source_error (h : i.source files streams = .error failure) :
    (∃ fault, i.input = none ∧ streams.text = .error fault ∧ failure = .input fault) ∨
      ∃ path fault, i.input = some path ∧ fs.read files path = .error fault ∧
        failure = .read path fault := by
  unfold source at h
  split at h
  next hinput =>
    obtain ⟨fault, htext, rfl⟩ := of_mapError_eq_error h
    exact .inl ⟨fault, hinput, htext, rfl⟩
  next path hpath =>
    obtain ⟨fault, hread, rfl⟩ := of_mapError_eq_error h
    exact .inr ⟨path, fault, hpath, hread, rfl⟩

/-- A text is drawn as its diagram is rendered, or it has no diagram. -/
theorem drawing_eq (i : Invocation) (direction : Option Direction) (text : String) :
    i.drawing direction text =
      match Document.parse text with
      | .ok d => .ok (rendering direction i.seed i.pretty d)
      | .error e => .error (.document e) := by
  unfold drawing Document.drawJson Document.draw
  cases Document.parse text <;> rfl

/-- Reading leaves the session as it is. -/
theorem text_session (i : Invocation) (streams : Streams) (s : Session fs) :
    i.text (Session.surroundings streams) s = (i.source s.files streams, s) := by
  unfold text source
  cases i.input <;> rfl

/-- Delivering changes what the drawing is delivered to, if anything. -/
theorem deliver_session (i : Invocation) (streams : Streams) (s : Session fs) (json : String) :
    i.deliver (Session.surroundings streams) json s =
      match i.output with
      | none =>
        match streams.accepts (json ++ "\n") with
        | .ok () => (.ok (), { s with output := s.output ++ (json ++ "\n") })
        | .error fault => (.error (.output fault), s)
      | some path =>
        match fs.target s.files path with
        | .ok file => (.ok (), { s with files := fs.put s.files file json.toUTF8 })
        | .error fault => (.error (.write path fault), s) := by
  unfold deliver
  cases i.output with
  | none =>
      simp only [bind, StateT.bind, Session.surroundings]
      cases streams.accepts (json ++ "\n") <;> rfl
  | some path =>
      simp only [bind, StateT.bind, Session.surroundings]
      cases fs.target s.files path <;> rfl

/-- What a run is to draw, from its direction and its text. -/
def plan (i : Invocation) (files : fs.State) (streams : Streams) : Except Failure String := do
  let direction ← i.heading
  let text ← i.source files streams
  i.drawing direction text

/-- Before the drawing is delivered the session is as it was. -/
theorem perform_session (i : Invocation) (streams : Streams) (s : Session fs) :
    i.perform (Session.surroundings streams) s =
      match i.plan s.files streams with
      | .error failure => (.error failure, s)
      | .ok json => i.deliver (Session.surroundings streams) json s := by
  unfold perform plan
  cases i.heading with
  | error failure => rfl
  | ok direction =>
      simp only [bind, StateT.bind, text_session]
      cases i.source s.files streams with
      | error failure => rfl
      | ok text =>
          simp only [Except.bind]
          cases i.drawing direction text <;> rfl

/-! ### Plans -/

/-- Without a direction nothing is planned, whatever there is to read. -/
theorem plan_of_heading_error (h : i.heading = .error failure) :
    i.plan files streams = .error failure := by
  rw [plan, h]
  rfl

/-- Without a text nothing is planned. -/
theorem plan_of_source_error (hheading : i.heading = .ok direction)
    (h : i.source files streams = .error failure) : i.plan files streams = .error failure := by
  rw [plan, hheading, h]
  rfl

theorem plan_of_source (hheading : i.heading = .ok direction)
    (h : i.source files streams = .ok text) :
    i.plan files streams = i.drawing direction text := by
  rw [plan, hheading, h]
  rfl

/-- An invocation with a diagram to draw is to deliver how it is rendered. -/
theorem Draws.plan_eq {d : Diagram} (h : i.Draws files streams direction d) :
    i.plan files streams = .ok (rendering direction i.seed i.pretty d) := by
  obtain ⟨text, hsource, hparse⟩ := h.exists_source
  rw [plan_of_source h.heading hsource, drawing_eq, hparse]

/-- A run has a diagram to draw, or it meets an obstacle that leaves it without a plan. -/
theorem exists_draws_or_obstacle (i : Invocation) (files : fs.State) (streams : Streams) :
    (∃ direction d, i.Draws files streams direction d) ∨
      ∃ failure, i.Obstacle files streams failure := by
  cases hheading : i.heading with
  | error failure =>
      obtain ⟨token, htoken, hnone, -⟩ := heading_error hheading
      exact .inr ⟨_, .direction htoken hnone⟩
  | ok direction =>
      cases hsource : i.source files streams with
      | error failure =>
          rcases source_error hsource with
            ⟨fault, hinput, htext, -⟩ | ⟨path, fault, hpath, hread, -⟩
          · exact .inr ⟨_, .input hheading hinput htext⟩
          · exact .inr ⟨_, .read hheading hpath hread⟩
      | ok text =>
          cases hparse : Document.parse text with
          | error e => exact .inr ⟨_, .document hheading hsource hparse⟩
          | ok d => exact .inl ⟨direction, d, hheading, text, hsource, hparse⟩

/-! ### Whole runs -/

/-- A run without a plan ends with the failure that the plan meets. -/
theorem run_of_plan_error (h : i.plan files streams = .error failure) :
    i.run files streams = ⟨1, "", complaint failure.message, files⟩ := by
  simp [run, perform_session, h]

/-- Every obstacle ends the run, and everything is left as it was. -/
theorem Obstacle.run_eq (h : i.Obstacle files streams failure) :
    i.run files streams = ⟨1, "", complaint failure.message, files⟩ := by
  cases h with
  | direction htoken hnone =>
      exact run_of_plan_error (plan_of_heading_error (heading_of_ofToken?_eq_none htoken hnone))
  | input hheading hinput htext =>
      refine run_of_plan_error (plan_of_source_error hheading ?_)
      rw [source_of_input_eq_none hinput, htext]
      rfl
  | read hheading hpath hread =>
      refine run_of_plan_error (plan_of_source_error hheading ?_)
      rw [source_of_input_eq_some hpath, hread]
      rfl
  | document hheading hsource hparse =>
      refine run_of_plan_error ?_
      rw [plan_of_source hheading hsource, drawing_eq, hparse]
  | write hdraws houtput htarget =>
      simp [run, perform_session, hdraws.plan_eq, deliver_session, houtput, htarget]
  | output hdraws houtput haccepts =>
      simp [run, perform_session, hdraws.plan_eq, deliver_session, houtput, haccepts]

/-- A run with a diagram to draw delivers it, or the place asked for is the obstacle. -/
theorem Draws.delivered_or_obstacle {d : Diagram} (h : i.Draws files streams direction d) :
    i.Delivered files (rendering direction i.seed i.pretty d) (i.run files streams) ∨
      ∃ failure, i.Obstacle files streams failure := by
  have hplan := h.plan_eq
  generalize hjson : rendering direction i.seed i.pretty d = json at hplan ⊢
  cases houtput : i.output with
  | none =>
      cases haccepts : streams.accepts (json ++ "\n") with
      | error fault => exact .inr ⟨_, .output h houtput (hjson ▸ haccepts)⟩
      | ok =>
          have hrun : i.run files streams = ⟨0, json ++ "\n", "", files⟩ := by
            simp [run, perform_session, hplan, deliver_session, houtput, haccepts]
          exact .inl (hrun ▸ .output houtput)
  | some path =>
      cases htarget : fs.target files path with
      | error fault => exact .inr ⟨_, .write h houtput htarget⟩
      | ok file =>
          have hrun : i.run files streams = ⟨0, "", "", fs.put files file json.toUTF8⟩ := by
            simp [run, perform_session, hplan, deliver_session, houtput, htarget]
          rw [hrun]
          exact .inl (.file houtput htarget (fs.bytes?_put files file _) fun other hne =>
            fs.bytes?_put_of_ne files _ hne)

/-- A run does the same with a text, whether it comes from a file or from the input. -/
theorem run_file_eq_run_input (i : Invocation) (streams : Streams)
    (h : fs.read files path = .ok text) :
    { i with input := some path }.run files streams =
      { i with input := none }.run files { streams with input := .ok text.toUTF8 } := by
  have hfile : { i with input := some path }.source files streams = .ok text := by
    rw [source_of_input_eq_some rfl, h]
    rfl
  have hinput : { i with input := none }.source files { streams with input := .ok text.toUTF8 } =
      .ok text := by
    rw [source_of_input_eq_none rfl, streams.text_of_toUTF8]
    rfl
  have hplan : { i with input := some path }.plan files streams =
      { i with input := none }.plan files { streams with input := .ok text.toUTF8 } := by
    rw [plan, plan, hfile, hinput]
    rfl
  simp only [run, perform_session, hplan, deliver_session]

/-- A run that meets an obstacle leaves everything as it was, and one that meets none delivers the
scene of the diagram it read to one place. What is drawn is decided by that diagram, the direction,
the seed and the format, wherever the text comes from; and a direction that is none is found out in
any surroundings before they are touched. -/
theorem run_delivers_or_leaves (fs : FileSystem) (i : Invocation) (files : fs.State)
    (streams : Streams) :
    (∀ failure, i.Obstacle files streams failure →
      i.run files streams = ⟨1, "", complaint failure.message, files⟩) ∧
    ((∃ failure, i.Obstacle files streams failure) ∨
      ∃ direction d, i.Draws files streams direction d ∧
        i.Delivered files (rendering direction i.seed i.pretty d) (i.run files streams)) ∧
    (∀ path text, fs.read files path = .ok text →
      { i with input := some path }.run files streams =
        { i with input := none }.run files { streams with input := .ok text.toUTF8 }) ∧
    ∀ token, i.direction = some token → Direction.ofToken? token.toList = none →
      ∀ (m : Type → Type) [Monad m] (around : Surroundings m),
        i.perform around = pure (.error (.direction token)) := by
  refine ⟨fun failure h => h.run_eq, ?_, ?_, ?_⟩
  · rcases exists_draws_or_obstacle i files streams with ⟨direction, d, hdraws⟩ | hobstacle
    · rcases hdraws.delivered_or_obstacle with hdelivered | hobstacle
      · exact .inr ⟨direction, d, hdraws, hdelivered⟩
      · exact .inl hobstacle
    · exact .inl hobstacle
  · intro path text hread
    exact run_file_eq_run_input i streams hread
  · intro token htoken hnone m _ around
    unfold perform
    rw [heading_of_ofToken?_eq_none htoken hnone]

/-- A direction that is none is what is complained of, although nothing can be read either. -/
example (files : fs.State) (fault : Fault) :
    Invocation.run { direction := some "UP" } files { input := .error fault } =
      ⟨1, "", "error: unknown direction 'UP'; use TD, TB, BT, LR or RL\n", files⟩ := rfl

end Whiteboard.CommandLine.Invocation
