import BlockScript.Proofs.Controller.Timing
import BlockScript.Proofs.Program.EntryPoints
import BlockScript.Proofs.Run.Composition

/-!
# Programs with start blocks at the top only

If no loop contains a start block, the entry points of a program are slices of its top level: what
follows the first start block, cut at the others.  A walk does nothing at a start block and goes on
with the next slice as long as the target has not been eaten, so a run of such a program runs one
list of blocks.

## What is here

* `EntryPoints.takeWhile_append_flatten_opened` — the slices make up the list, without the start
  blocks; `Block.meaningAll_filter_isStart` — these have no meaning.
* `Program.exists_first_start` — a program with start blocks at the top only is split at the first
  one; `Program.performance_of_flatten` says what a program does whose entry points are the slices
  of a list.
* `Session.run_of_topLevel` — **a run of such a program runs one list of blocks**, and whatever
  stands ahead of the first start block has no effect.
-/

set_option autoImplicit false
namespace BlockScript

variable {σ : Type}

/-! ## Slices -/

namespace EntryPoints

/-- Blocks that hold no start block, and are none, open nothing. -/
theorem opened_append {before : List Block} (rest : List Block)
    (hnone : ∀ block ∈ before, block.isStart = false)
    (hloops : ∀ count body, .loop count body ∈ before → opened body = []) :
    opened (before ++ rest) = opened rest := by
  induction before with
  | nil => rfl
  | cons block before ih =>
    have hrest := ih (fun other hmem => hnone other (.tail _ hmem))
      fun count body hmem => hloops count body (.tail _ hmem)
    rw [List.cons_append]
    cases block with
    | start => exact absurd (hnone .start (.head _)) (by simp [Block.isStart])
    | move direction => rw [opened_move, hrest]
    | eat => rw [opened_eat, hrest]
    | loop count body => rw [opened_loop, hloops count body (.head _), hrest, List.nil_append]

/-- **The slices of a list make it up**, without the start blocks between them. -/
theorem takeWhile_append_flatten_opened {blocks : List Block}
    (hloops : ∀ count body, .loop count body ∈ blocks → opened body = []) :
    blocks.takeWhile (!·.isStart) ++ (opened blocks).flatten = blocks.filter (!·.isStart) := by
  induction blocks with
  | nil => simp [opened_nil]
  | cons block blocks ih =>
    have hrest := ih fun count body hmem => hloops count body (.tail _ hmem)
    cases block with
    | start => simpa [Block.isStart, opened_start] using hrest
    | move direction => simpa [Block.isStart, opened_move] using hrest
    | eat => simpa [Block.isStart, opened_eat] using hrest
    | loop count body =>
      simpa [Block.isStart, opened_loop, hloops count body (.head _)] using hrest

end EntryPoints

/-- Start blocks have no meaning. -/
theorem Block.meaningAll_filter_isStart (scene : Scene σ) (pacing : Pacing) (blocks : List Block)
    (state : σ) :
    meaningAll scene pacing (blocks.filter (!·.isStart)) state
      = meaningAll scene pacing blocks state := by
  induction blocks generalizing state with
  | nil => rfl
  | cons block blocks ih =>
    cases hstart : block.isStart with
    | true =>
      obtain rfl := isStart_iff.1 hstart
      rw [List.filter_cons_of_neg (by simp [hstart]), ih, meaningAll, meaning, Course.idle_andThen]
    | false =>
      rw [List.filter_cons_of_pos (by simp [hstart]), meaningAll, meaningAll, funext ih]

/-! ## Start blocks at the top only -/

namespace Program

variable {program : Program}

/-- If start blocks stand at the top only, nothing in a loop opens a sequence. -/
theorem opened_eq_nil_of_topLevel
    (htop : ∀ place, Block.At program.blocks place .start → place.length = 1)
    {count : RepeatCount} {body : List Block} (hloop : .loop count body ∈ program.blocks) :
    EntryPoints.opened body = [] := by
  rw [EntryPoints.opened, List.map_eq_nil_iff, List.eq_nil_iff_forall_not_mem]
  intro entry hentry
  have hstart : Block.At body entry.1 .start :=
    (@Block.opens_of_mem_startsFrom body 0 body entry hentry [] [] [] rfl .top).at_start
  obtain ⟨index, hindex⟩ := List.getElem?_of_mem hloop
  cases hplace : entry.1 with
  | nil => exact Block.not_at_nil (hplace ▸ hstart)
  | cons first place =>
    have hlength := htop (index :: first :: place)
      (Block.at_cons_cons_iff.2 ⟨count, body, hindex, hplace ▸ hstart⟩)
    simp at hlength

/-- **A program with start blocks at the top only is split at the first one**, and its entry points
are the slices of what follows. -/
theorem exists_first_start
    (htop : ∀ place, Block.At program.blocks place .start → place.length = 1)
    (hstart : ∃ place, Block.At program.blocks place .start) :
    ∃ before after, program.blocks = before ++ .start :: after ∧ .start ∉ before
      ∧ program.entryPoints = EntryPoints.opened (.start :: after)
      ∧ program.entryPoints.flatten = after.filter (!·.isStart) := by
  obtain ⟨rest, hsplit, hnone, hrest⟩ := Block.takeWhile_isStart_spec program.blocks
  obtain ⟨before, hbefore⟩ : ∃ before, program.blocks.takeWhile (!·.isStart) = before := ⟨_, rfl⟩
  rw [hbefore] at hsplit hnone
  have hloops : ∀ count body, .loop count body ∈ program.blocks → EntryPoints.opened body = [] :=
    fun count body hloop => opened_eq_nil_of_topLevel htop hloop
  obtain ⟨place, hplace⟩ := hstart
  obtain rfl | ⟨after, rfl⟩ := hrest
  · -- Then the start block that there is would stand among the blocks ahead of the first one.
    obtain ⟨index, rfl⟩ := List.length_eq_one_iff.1 (htop place hplace)
    have hmem := List.mem_of_getElem? (Block.at_singleton_iff.1 hplace)
    rw [hsplit, List.append_nil] at hmem
    exact absurd (hnone _ hmem) (by simp [Block.isStart])
  · have hentries : program.entryPoints = EntryPoints.opened (.start :: after) := by
      rw [entryPoints_eq, EntryPoints.map_snd_startsFrom, hsplit]
      exact EntryPoints.opened_append _ hnone fun count body hmem =>
        hloops count body (by simp [hsplit, hmem])
    refine ⟨before, after, hsplit, ?_, hentries, ?_⟩
    · exact fun hmem => absurd (hnone _ hmem) (by simp [Block.isStart])
    · rw [hentries, EntryPoints.opened_start, List.flatten_cons]
      exact EntryPoints.takeWhile_append_flatten_opened fun count body hmem =>
        hloops count body (by simp [hsplit, hmem])

/-- What a program does whose entry points are the slices of a list. -/
theorem course_of_flatten (scene : Scene σ) (pacing : Pacing) {after : List Block}
    (h : program.entryPoints.flatten = after.filter (!·.isStart)) (state : σ) :
    program.course scene pacing state = Block.meaningAll scene pacing after state := by
  rw [course, ← Block.meaningAll_flatten, h, Block.meaningAll_filter_isStart]

end Program

/-! ## Runs -/

/-- Reports ahead of some effects and after them take no time. -/
theorem Effect.timeline_between_reports (now : Nat) (first last : Event) (effects : List Effect) :
    timeline now (.emit first :: effects ++ [.emit last])
        = (now, .emit first) :: timeline now effects
          ++ [(now + totalDuration effects, .emit last)]
      ∧ totalDuration (.emit first :: effects ++ [.emit last]) = totalDuration effects := by
  rw [List.cons_append, timeline, timeline_append, totalDuration, totalDuration_append]
  simp [duration, timeline, totalDuration]

/-- **A program whose entry points are the slices of a list** reports its start, runs the list, and
reports its end. -/
theorem Program.performance_of_flatten (scene : Scene σ) (pacing : Pacing) {program : Program}
    {after : List Block} (hne : program.entryPoints ≠ [])
    (hflatten : program.entryPoints.flatten = after.filter (!·.isStart)) (found : σ) (now : Nat) :
    let course := program.performance scene pacing found
    let run := Rehearsal.perform scene pacing { state := found, clock := now } after
    Effect.timeline now course.effects
        = (now, .emit .started) :: run.1 ++ [(run.2.clock, .emit (.finished run.2.outcome))]
      ∧ run.2 = ⟨course.state, now + Effect.totalDuration course.effects, course.succeeded⟩ := by
  intro course run
  obtain ⟨⟨effects, succeeded, state⟩, hlist⟩ :
      ∃ course, Block.meaningAll scene pacing after found = course := ⟨_, rfl⟩
  have hcourse : course = ⟨.emit .started :: effects ++ [.emit (.finished (.ofSuccess succeeded))],
      succeeded, state⟩ := by
    simp only [course, performance_eq, if_neg hne, course_of_flatten scene pacing hflatten, hlist]
  have hrun : run = (Effect.timeline now effects,
      ⟨state, now + Effect.totalDuration effects, succeeded⟩) := by
    have hperform := Rehearsal.perform_eq scene pacing after found now false
    simpa only [Block.meaningFrom, Bool.false_eq_true, if_false, hlist] using hperform
  obtain ⟨htimeline, hduration⟩ := Effect.timeline_between_reports now .started
    (.finished (.ofSuccess succeeded)) effects
  rw [hcourse, hrun, htimeline, hduration]
  exact ⟨rfl, rfl⟩

/-- The record of a run of a program that reports its start, what happens in a rehearsal, and its
end. -/
def Program.record (program : Program) (timeline : Timeline) (last : Rehearsal σ) : RunResult where
  program := program.name
  events := .started :: timeline.events ++ [.finished last.outcome]
  outcome := last.outcome
  entryPoints := program.entryPoints.length

namespace Session

/-- A session after a run that has reset the scene and then rehearsed something. -/
def rehearsed (session : Session σ) (timeline : Timeline) (last : Rehearsal σ)
    (result : RunResult) : Session σ :=
  { session with
    clock := last.clock
    controller := { session.controller with
      scene := last.state
      log := session.controller.log.clear.pushAll result.events
      lastResult := some result
      calls := session.controller.calls ++ (session.clock, .reset) :: timeline.calls } }

/-- A run of a program whose entry points are the slices of a list runs that list. -/
theorem Orderly.step_run_of_flatten {session : Session σ} (h : session.Orderly) (scene : Scene σ)
    (hrunning : session.controller.running = false) (hholder : session.controller.holder = none)
    {after : List Block} (hne : session.controller.program.entryPoints ≠ [])
    (hflatten : session.controller.program.entryPoints.flatten = after.filter (!·.isStart)) :
    let run := Rehearsal.perform scene session.controller.pacing
      { state := scene.reset session.controller.scene, clock := session.clock } after
    let result := session.controller.program.record run.1 run.2
    session.step scene .run
      = .ok (session.rehearsed run.1 run.2 result, .result (some result)) := by
  intro run result
  obtain ⟨htimeline, hlast⟩ := Program.performance_of_flatten scene session.controller.pacing hne
    hflatten (scene.reset session.controller.scene) session.clock
  obtain ⟨course, hcourse⟩ : ∃ course, session.controller.program.performance scene
      session.controller.pacing (scene.reset session.controller.scene) = course := ⟨_, rfl⟩
  rw [hcourse] at htimeline hlast
  have hevents : Effect.events course.effects = result.events := by
    rw [← Timeline.events_timeline session.clock, htimeline]
    simp [Timeline.events, Effect.event?, result, Program.record, run]
  have hcalls : Timeline.calls (Effect.timeline session.clock course.effects) = run.1.calls := by
    rw [htimeline]
    simp [Timeline.calls, Effect.call?, run]
  have hresult : session.controller.program.result scene session.controller.pacing
      (scene.reset session.controller.scene) = result := by
    have houtcome : run.2.outcome = .ofSuccess course.succeeded := by
      simp only [run, hlast]
      rfl
    rw [Program.result, hcourse, hevents, ← houtcome]
    rfl
  rw [h.step_run_eq scene hrunning hholder]
  simp only [hcourse, hresult, hcalls, rehearsed, run, hlast]

/-- **Two lists of blocks that are run one after another are one list**, and so is a program with
start blocks at the top only.  It is split at the first one; whatever stands ahead of that has no
effect; and a run that is requested while the scene is free and awaited at once reports the start,
runs all that follows the first start block as one list, and reports the end. -/
theorem run_of_topLevel (scene : Scene σ) (pacing : Pacing) :
    (∀ (rehearsal : Rehearsal σ) (xs ys : List Block),
      let first := rehearsal.perform scene pacing xs
      let second := first.2.perform scene pacing ys
      rehearsal.perform scene pacing (xs ++ ys) = (first.1 ++ second.1, second.2)
        ∧ (first.2.succeeded = true → second = ([], first.2)))
      ∧ ∀ program : Program,
        (∀ place, Block.At program.blocks place .start → place.length = 1) →
        (∃ place, Block.At program.blocks place .start) →
          ∃ before after, program.blocks = before ++ .start :: after ∧ .start ∉ before
            ∧ Execution.start program = Execution.start { program with blocks := .start :: after }
            ∧ (∀ (found : σ) (now : Nat),
              let run := Rehearsal.perform scene pacing { state := found, clock := now } after
              Effect.timeline now (program.performance scene pacing found).effects
                = (now, .emit .started) :: run.1
                  ++ [(run.2.clock, .emit (.finished run.2.outcome))])
            ∧ ∀ (own : Program) (state : σ) (ops : List Op),
              let session := (opening pacing own state).performAll scene ops
              session.controller.program = program →
              session.controller.running = false → session.controller.holder = none →
                let run := Rehearsal.perform scene pacing
                  { state := scene.reset session.controller.scene, clock := session.clock } after
                let result := program.record run.1 run.2
                session.step scene .run
                  = .ok (session.rehearsed run.1 run.2 result, .result (some result)) := by
  refine ⟨Rehearsal.perform_append scene pacing, ?_⟩
  intro program htop hstart
  obtain ⟨before, after, hsplit, hnone, hentries, hflatten⟩ :=
    Program.exists_first_start htop hstart
  have hne : program.entryPoints ≠ [] := by
    rw [hentries, EntryPoints.opened_start]
    simp
  refine ⟨before, after, hsplit, hnone, ?_, ?_, ?_⟩
  · have hsame : program.entryPoints
        = Program.entryPoints { program with blocks := .start :: after } := by
      rw [hentries, Program.entryPoints_eq, EntryPoints.map_snd_startsFrom]
    simp only [Execution.start, hsame]
  · intro found now
    exact (Program.performance_of_flatten scene pacing hne hflatten found now).1
  · rintro own state ops session rfl hrunning hholder
    have horderly : session.Orderly := (steady_performAll scene pacing own state ops).orderly
    have hstep := horderly.step_run_of_flatten scene hrunning hholder hne hflatten
    rwa [pacing_performAll] at hstep

/-- A program with a block ahead of its first start block, and a second start block. -/
def lateStart : Program :=
  { name := "late", blocks := [.move .right, .start, .move .left, .start, .eat] }

/-- The step to the right is not made, and the second start block does not count. -/
theorem run_lateStart :
    let session : Session (StageState Float) :=
      opening .instant lateStart (StageState.initial Geometry.standard)
    let run := Rehearsal.perform Geometry.standard.scene .instant
      { state := Geometry.standard.scene.reset (StageState.initial Geometry.standard) }
      [.move .left, .start, .eat]
    let result := lateStart.record run.1 run.2
    Execution.start lateStart
        = Execution.start { lateStart with blocks := [.start, .move .left, .start, .eat] }
      ∧ session.step Geometry.standard.scene .run
        = .ok (session.rehearsed run.1 run.2 result, .result (some result)) := by
  intro session run result
  have htop : ∀ place, Block.At lateStart.blocks place .start → place.length = 1 := by
    intro place hplace
    match place, hplace with
    | [], hplace => exact absurd hplace Block.not_at_nil
    | [_], _ => rfl
    | _ :: _ :: _, hplace =>
      obtain ⟨count, body, hloop, -⟩ := Block.at_cons_cons_iff.1 hplace
      exact absurd (List.mem_of_getElem? hloop) (by simp [lateStart])
  have hstart : ∃ place, Block.At lateStart.blocks place .start :=
    ⟨[1], Block.at_singleton_iff.2 rfl⟩
  obtain ⟨before, after, hsplit, hnone, hsame, -, hrun⟩ :=
    (run_of_topLevel Geometry.standard.scene .instant).2 lateStart htop hstart
  obtain rfl : after = [.move .left, .start, .eat] := by
    match before, hsplit, hnone with
    | [], hsplit, _ => simp [lateStart] at hsplit
    | [_], hsplit, _ => exact (by simpa [lateStart] using hsplit.symm : _ ∧ _).2
    | first :: second :: _, hsplit, hnone =>
      have hsecond : .start = second := by
        simp only [lateStart, List.cons_append, List.cons.injEq] at hsplit
        exact hsplit.2.1
      exact absurd (by simp [hsecond]) hnone
  exact ⟨hsame, hrun lateStart (StageState.initial Geometry.standard) [] rfl rfl rfl⟩

end Session

end BlockScript
