import BlockScript.Proofs.Run.Eating

/-!
# Suspended runs

A run can be looked at, and given up, at each of its rests.  What has been done by then is settled
by the program and by the state that it started from, whoever takes the run up again and however
late.  This file follows a run from rest to rest and says what its log looks like on the way.

## What is here

* `Program.Reaches` — what a run has done when it is taken up, at its start or at one of its rests,
  and what is left of it.
* `Program.Reaches.lasting_performance` — what has been done, and then what is left, is what the
  program does if nobody disturbs it.
* `Program.IsRecord` — the form of the events of a whole run; `Program.isRecord_result` says that
  every run has it.
* `Program.Reaches.prefix_events` — at a rest, the events are a beginning of those of the whole run,
  and `Program.Reaches.isTerminal_eq_false` — the end of it is not among them.
* `Pacing.restAfter` — how long a run rests after what it has reported; `Program.Reaches.rest_eq`
  says that it stops only at rests that take time, and for so long.
-/

set_option autoImplicit false
namespace BlockScript

variable {σ : Type}

/-! ## From rest to rest -/

/-- What a run of a program has done when it is taken up, what is left of it, and the state of the
scene.  It is taken up at its start and after every rest. -/
inductive Program.Reaches (scene : Scene σ) (pacing : Pacing) (program : Program) (start : σ) :
    List Effect → Execution → σ → Prop where
  | start : Reaches scene pacing program start [] (Execution.start program) start
  | next {done : List Effect} {execution execution' : Execution} {state state' : σ}
      {effects : Array Effect} {duration : Nat}
      (h : Reaches scene pacing program start done execution state)
      (hadvance : execution.advance scene pacing #[] state
        = (effects, state', .resting duration execution')) :
      Reaches scene pacing program start (done ++ (effects.toList ++ [.rest duration])) execution'
        state'

/-- A program without entry points does not come to rest. -/
theorem Execution.advance_start_of_entryPoints_eq_nil (scene : Scene σ) (pacing : Pacing)
    {program : Program} (h : program.entryPoints = []) (state : σ) :
    (Execution.start program).advance scene pacing #[] state
      = (#[.emit .missingEntryPoint], state, .finished .exhausted) := by
  have hstart : Execution.start program
      = { entryPoints := 0, queue := [.emit .missingEntryPoint], walk := { frames := [] } } := by
    simp [Execution.start, h]
  rw [hstart]
  simp [Execution.advance, Walk.turn, Execution.closing, Walk.outcome]

namespace Program.Reaches

variable {scene : Scene σ} {pacing : Pacing} {program : Program} {start state : σ}
  {done : List Effect} {execution : Execution}

theorem entryPoints_eq (h : program.Reaches scene pacing start done execution state) :
    execution.entryPoints = program.entryPoints.length := by
  induction h with
  | start => rfl
  | next _ hadvance ih => rw [(Execution.advance_resting scene pacing hadvance).2, ih]

/-- A run that has done something and is not over has something to run. -/
theorem entryPoints_ne_nil (h : program.Reaches scene pacing start done execution state)
    (hdone : done ≠ []) : program.entryPoints ≠ [] := by
  induction h with
  | start => exact absurd rfl hdone
  | @next done execution execution' state state' effects duration h hadvance ih =>
    intro hnil
    cases h with
    | start =>
      rw [Execution.advance_start_of_entryPoints_eq_nil scene pacing hnil] at hadvance
      simp at hadvance
    | next h hadvance => exact ih (by simp) hnil

/-- A run that has done something has last done a rest. -/
theorem exists_rest (h : program.Reaches scene pacing start done execution state)
    (hdone : done ≠ []) : ∃ earlier duration, done = earlier ++ [.rest duration] := by
  cases h with
  | start => exact absurd rfl hdone
  | next h hadvance => exact ⟨_, _, (List.append_assoc ..).symm⟩

/-- **What has been done, and then what is left, is what the program does** if nobody disturbs
it. -/
theorem lasting_performance (h : program.Reaches scene pacing start done execution state) :
    (program.performance scene pacing start).lasting
      = (execution.meaning scene pacing state).lasting.after done := by
  induction h with
  | start => rfl
  | @next done execution execution' state state' effects duration h hadvance ih =>
    obtain ⟨more, hmore, hmeaning⟩ := Execution.meaning_advance scene pacing hadvance
    obtain rfl : effects.toList = more := by simp [hmore]
    rw [ih, hmeaning, Stop.meaning, Course.after_after, Course.after_after, List.append_assoc]

/-- The events of the whole run are those so far and those that are left. -/
theorem events_performance (h : program.Reaches scene pacing start done execution state) :
    Effect.events (program.performance scene pacing start).effects
      = Effect.events done ++ Effect.events (execution.meaning scene pacing state).effects := by
  have hwhole := congrArg (fun course => Effect.events course.effects) h.lasting_performance
  simpa [Course.lasting, Course.after] using hwhole

/-- **At a rest, the events are a beginning of those of the whole run.** -/
theorem prefix_events (h : program.Reaches scene pacing start done execution state) :
    Effect.events done <+: (program.result scene pacing start).events :=
  ⟨_, h.events_performance.symm⟩

end Program.Reaches

/-! ## The form of a record -/

/-- Whether an event is reported between the start of a run and its end. -/
def Event.isIncidental : Event → Bool
  | .repetition .. | .nearTarget _ | .tooFar _ | .targetEaten => true
  | _ => false

theorem Event.isTerminal_of_isIncidental {event : Event} (h : event.isIncidental = true) :
    event.isTerminal = false := by
  cases event with
  | started | missingEntryPoint | finished => exact absurd h (by simp [isIncidental])
  | repetition | nearTarget | tooFar | targetEaten => rfl

/-- The form of the events of a whole run: that there is nothing to run, or the start, what happens
on the way, and the end. -/
def IsRecord (events : List Event) : Prop :=
  events = [.missingEntryPoint]
    ∨ ∃ (middle : List Event) (outcome : Outcome),
        events = .started :: (middle ++ [.finished outcome])
          ∧ ∀ event ∈ middle, event.isIncidental = true

/-- What an act reports happens on the way. -/
theorem Act.isIncidental_of_mem_events {act : Act} {event : Event} (h : event ∈ act.events) :
    event.isIncidental = true := by
  cases act with
  | step direction answer =>
    by_cases hnear : answer < 60
    · obtain rfl : event = .nearTarget answer := by simpa [events, hnear] using h
      rfl
    · simp [events, hnear] at h
  | attempt answer =>
    by_cases hreach : answer < 50
    · obtain rfl : event = .targetEaten := by simpa [events, hreach] using h
      rfl
    · obtain rfl : event = .tooFar answer := by simpa [events, hreach] using h
      rfl
  | announcement iteration count =>
    obtain rfl : event = .repetition iteration count := by simpa [events] using h
    rfl
  | pause => simp [events] at h

/-- What a walk does to its end are whole acts. -/
theorem Walk.acts_meaning (scene : Scene σ) (pacing : Pacing) {walk : Walk}
    (hwalk : walk.succeeded = false) (state : σ) :
    ∃ (acts : List Act) (succeeded : Bool),
      (walk.meaning scene pacing state).effects = acts.flatMap (Act.effects pacing)
        ∧ Act.Lead acts succeeded := by
  obtain ⟨walk', hmeaning, -⟩ := walk.runFrom_eq_meaning scene pacing #[] state
  obtain ⟨acts, hacts, hlead⟩ := walk.acts_runFrom scene pacing #[] state hwalk
  rw [hmeaning] at hacts
  exact ⟨acts, _, by simpa using congrArg Array.toList hacts, hlead⟩

/-- What a walk reports happens on the way. -/
theorem Walk.isIncidental_of_mem_meaning (scene : Scene σ) (pacing : Pacing) {walk : Walk}
    (hwalk : walk.succeeded = false) (state : σ) {event : Event}
    (h : event ∈ Effect.events (walk.meaning scene pacing state).effects) :
    event.isIncidental = true := by
  obtain ⟨acts, -, heffects, -⟩ := Walk.acts_meaning scene pacing hwalk state
  rw [heffects, Act.events_flatMap] at h
  obtain ⟨act, -, hevent⟩ := List.mem_flatMap.1 h
  exact Act.isIncidental_of_mem_events hevent

namespace Program

variable (scene : Scene σ) (pacing : Pacing) {program : Program} (start : σ)

/-- A program without entry points reports just that. -/
theorem events_of_entryPoints_eq_nil (h : program.entryPoints = []) :
    Effect.events (program.performance scene pacing start).effects = [.missingEntryPoint] := by
  simp [performance, Execution.start, Execution.meaning, h, Walk.meaning, Frame.meaningAll,
    Course.inTurn, Course.idle]

/-- A program with entry points reports its start, what happens on the way, and its end. -/
theorem events_of_entryPoints_ne_nil (h : program.entryPoints ≠ []) :
    ∃ (middle : List Event) (outcome : Outcome),
      Effect.events (program.performance scene pacing start).effects
          = .started :: (middle ++ [.finished outcome])
        ∧ ∀ event ∈ middle, event.isIncidental = true := by
  have hlength : program.entryPoints.length ≠ 0 := by simpa using h
  have hempty : program.entryPoints.isEmpty = false := by simpa using h
  obtain ⟨course, hcourse⟩ :
      ∃ course, (Execution.start program).walk.meaning scene pacing start = course := ⟨_, rfl⟩
  have hperformance : (program.performance scene pacing start).effects
      = [.emit .started] ++ course.effects
        ++ [.emit (.finished (.ofSuccess course.succeeded))] := by
    simp only [performance, Execution.meaning, hcourse]
    simp only [Execution.start, hempty, if_neg hlength, Bool.false_eq_true, if_false]
  refine ⟨Effect.events course.effects, .ofSuccess course.succeeded, ?_, ?_⟩
  · rw [hperformance]
    simp
  · intro event hevent
    rw [← hcourse] at hevent
    exact Walk.isIncidental_of_mem_meaning scene pacing rfl start hevent

/-- **Every record has the form of a whole run.** -/
theorem isRecord_result (program : Program) :
    IsRecord (program.result scene pacing start).events := by
  by_cases h : program.entryPoints = []
  · exact .inl (events_of_entryPoints_eq_nil scene pacing start h)
  · exact .inr (events_of_entryPoints_ne_nil scene pacing start h)

variable {scene pacing start} in
/-- **At a rest, the end of the run is not among its events.** -/
theorem Reaches.isTerminal_eq_false {done : List Effect} {execution : Execution} {state : σ}
    (h : program.Reaches scene pacing start done execution state) {event : Event}
    (hevent : event ∈ Effect.events done) : event.isTerminal = false := by
  have hentries : program.entryPoints ≠ [] := by
    refine h.entryPoints_ne_nil ?_
    rintro rfl
    simp at hevent
  obtain ⟨middle, outcome, hwhole, hmiddle⟩ :=
    events_of_entryPoints_ne_nil scene pacing start hentries
  -- The end of the run is left, so what has been reported stands before it.
  obtain ⟨course, hcourse⟩ :
      ∃ course, execution.walk.meaning scene pacing state = course := ⟨_, rfl⟩
  have hleft : (execution.meaning scene pacing state).effects
      = execution.queue ++ course.effects
        ++ [.emit (.finished (.ofSuccess course.succeeded))] := by
    have hlength : execution.entryPoints ≠ 0 := by
      rw [h.entryPoints_eq]
      simpa using hentries
    simp only [Execution.meaning, hcourse, if_neg hlength]
  rw [h.events_performance, hleft, Effect.events_append, ← List.append_assoc, ← List.cons_append]
    at hwhole
  obtain ⟨hbefore, -⟩ := List.append_inj' hwhole rfl
  have hmem : event ∈ .started :: middle := hbefore ▸ List.mem_append_left _ hevent
  rcases List.mem_cons.1 hmem with rfl | hmem
  · rfl
  · exact Event.isTerminal_of_isIncidental (hmiddle event hmem)

end Program

/-! ## The length of a rest -/

/-- How long a run rests that has reported some events: once the target has been eaten it
celebrates, and otherwise it has made a step. -/
def Pacing.restAfter (pacing : Pacing) (events : List Event) : Nat :=
  if .targetEaten ∈ events then pacing.celebration else pacing.step

/-- An act rests at its end, if at all: it celebrates if it eats the target, and otherwise it has
made a step. -/
theorem Act.rest_of_effects_eq {pacing : Pacing} {act : Act} {front back : List Effect}
    {duration : Nat} (h : act.effects pacing = front ++ .rest duration :: back) :
    Effect.events front = act.events
      ∧ duration = if act.eats then pacing.celebration else pacing.step := by
  cases act with
  | step direction answer =>
    by_cases hnear : answer < 60
    · obtain ⟨rfl, rfl, -⟩ : front
            = [.call (.move direction), .call (.distance answer), .emit (.nearTarget answer)]
          ∧ duration = pacing.step ∧ back = [] := by
        simpa [effects, hnear, List.cons_eq_append_iff] using h
      simp [events, eats, hnear]
    · obtain ⟨rfl, rfl, -⟩ : front = [.call (.move direction), .call (.distance answer)]
          ∧ duration = pacing.step ∧ back = [] := by
        simpa [effects, hnear, List.cons_eq_append_iff] using h
      simp [events, eats, hnear]
  | attempt answer =>
    by_cases hreach : answer < 50
    · obtain ⟨rfl, rfl, -⟩ : front
            = [.call (.distance answer), .call .consume, .emit .targetEaten]
          ∧ duration = pacing.celebration ∧ back = [] := by
        simpa [effects, hreach, List.cons_eq_append_iff] using h
      simp [events, eats, hreach]
    · simp [effects, hreach, List.cons_eq_append_iff] at h
  | announcement iteration count => simp [effects, List.cons_eq_append_iff] at h
  | pause =>
    obtain ⟨rfl, rfl, -⟩ : front = [] ∧ duration = pacing.step ∧ back = [] := by
      simpa [effects, List.cons_eq_append_iff] using h
    simp [events, eats]

theorem Act.targetEaten_mem_events_iff {act : Act} :
    .targetEaten ∈ act.events ↔ act.eats = true := by
  cases act with
  | step direction answer => by_cases hnear : answer < 60 <;> simp [events, eats, hnear]
  | attempt answer => by_cases hreach : answer < 50 <;> simp [events, eats, hreach]
  | announcement iteration count => simp [events, eats]
  | pause => simp [events, eats]

/-- So it is with acts that lead to a success or to none. -/
theorem Act.Lead.rest_eq {pacing : Pacing} {acts : List Act} {succeeded : Bool}
    (hlead : Lead acts succeeded) {before after : List Effect} {duration : Nat}
    (h : acts.flatMap (effects pacing) = before ++ .rest duration :: after) :
    duration = pacing.restAfter (Effect.events before) := by
  obtain ⟨earlier, act, later, front, back, hacts, hact, rfl, -⟩ := exists_of_flatMap_eq h
  obtain ⟨hfront, rfl⟩ := rest_of_effects_eq hact
  -- An act that eats the target is the last one, so none of the earlier acts does.
  have hearlier : ∀ other ∈ earlier, .targetEaten ∉ other.events := by
    intro other hmem heaten
    obtain ⟨first, rest, rfl⟩ := List.append_of_mem hmem
    have hsplit : acts = first ++ other :: (rest ++ act :: later) := by
      rw [hacts, List.append_assoc, List.cons_append]
    obtain ⟨-, hnone, -⟩ := hlead.last hsplit (targetEaten_mem_events_iff.1 heaten)
    simp at hnone
  have hevents : .targetEaten ∈ Effect.events (earlier.flatMap (effects pacing) ++ front)
      ↔ act.eats = true := by
    rw [Effect.events_append, hfront, events_flatMap, List.mem_append, List.mem_flatMap,
      targetEaten_mem_events_iff]
    exact ⟨fun h => h.resolve_left fun ⟨other, hmem, heaten⟩ => hearlier other hmem heaten, .inr⟩
  simp only [Pacing.restAfter, hevents]

/-- A rest of a whole belongs to its middle part if no other part has one. -/
theorem Effect.rest_between {opening middle closing before after : List Effect} {duration : Nat}
    (hopening : ∀ effect ∈ opening, effect.isRest = false)
    (hclosing : ∀ effect ∈ closing, effect.isRest = false)
    (h : opening ++ (middle ++ closing) = before ++ .rest duration :: after) :
    ∃ between more, before = opening ++ between ∧ middle = between ++ .rest duration :: more := by
  have hbusy : ∀ {effects : List Effect}, .rest duration ∈ effects →
      ¬ ∀ effect ∈ effects, effect.isRest = false :=
    fun hmem hnone => absurd (hnone _ hmem) (by simp)
  rw [← List.append_assoc] at h
  obtain ⟨late, -, hlate⟩ | ⟨more, hmore, hafter⟩ := List.append_eq_append_iff.1 h
  · exact (hbusy (by simp [hlate]) hclosing).elim
  · obtain ⟨effect, more, rfl⟩ : ∃ effect rest, more = effect :: rest := by
      refine List.exists_cons_of_ne_nil ?_
      rintro rfl
      obtain rfl : closing = .rest duration :: after := by simpa using hafter.symm
      exact hbusy (by simp) hclosing
    obtain ⟨rfl, -⟩ := List.cons.inj hafter
    obtain ⟨between, rfl, hmiddle⟩ | ⟨early, hearly, hrest⟩ := List.append_eq_append_iff.1 hmore
    · exact ⟨between, more, rfl, hmiddle⟩
    · cases early with
      | nil => exact ⟨[], more, by simpa using hearly.symm, hrest.symm⟩
      | cons effect early =>
        obtain ⟨rfl, -⟩ := List.cons.inj hrest
        exact (hbusy (by simp [hearly]) hopening).elim

namespace Program

variable {scene : Scene σ} {pacing : Pacing} {program : Program} {start state : σ}

/-- So it is with a program. -/
theorem rest_eq_of_performance {before after : List Effect} {duration : Nat}
    (h : (program.performance scene pacing start).effects = before ++ .rest duration :: after) :
    duration = pacing.restAfter (Effect.events before) := by
  obtain ⟨acts, succeeded, hacts, hlead⟩ :=
    Walk.acts_meaning scene pacing (rfl : (Execution.start program).walk.succeeded = false) start
  rw [performance, Execution.meaning, List.append_assoc, hacts] at h
  have hqueue : (Execution.start program).queue = [.emit .missingEntryPoint]
      ∨ (Execution.start program).queue = [.emit .started] := by
    simp only [Execution.start]
    split <;> simp
  have hopening : .targetEaten ∉ Effect.events (Execution.start program).queue := by
    rcases hqueue with hqueue | hqueue <;> simp [hqueue]
  obtain ⟨between, more, rfl, hbetween⟩ := Effect.rest_between
    (by rcases hqueue with hqueue | hqueue <;> simp [hqueue]) (by split <;> simp) h
  rw [hlead.rest_eq hbetween]
  simp only [Pacing.restAfter, Effect.events_append, List.mem_append, hopening, false_or]

/-- **A run stops only at rests that take time**, and these are as long as the pacing says after
what has been reported. -/
theorem Reaches.rest_eq {done : List Effect} {execution : Execution} {duration : Nat}
    (h : program.Reaches scene pacing start (done ++ [.rest duration]) execution state) :
    duration ≠ 0 ∧ duration = pacing.restAfter (Effect.events done) := by
  have hwhole : (program.performance scene pacing start).lasting.effects
      = done ++ .rest duration :: (execution.meaning scene pacing state).lasting.effects := by
    rw [h.lasting_performance]
    simp [Course.after]
  obtain ⟨earlier, later, heffects, rfl, hlater⟩ := List.filter_eq_append_iff.1 hwhole
  obtain ⟨skipped, after, rfl, hskipped, hlasts, -⟩ := List.filter_eq_cons_iff.1 hlater
  have hevents : Effect.events (earlier ++ skipped)
      = Effect.events (earlier.filter fun effect => !effect.isVoid) := by
    rw [← Effect.events_lasting, Effect.lasting, List.filter_append,
      List.filter_eq_nil_iff.2 hskipped, List.append_nil]
  refine ⟨?_, ?_⟩
  · rintro rfl
    simp [Effect.isVoid] at hlasts
  · rw [← List.append_assoc] at heffects
    rw [rest_eq_of_performance heffects, hevents]

end Program

end BlockScript
