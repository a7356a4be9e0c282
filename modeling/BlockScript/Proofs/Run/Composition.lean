import BlockScript.Proofs.Run.Eating

/-!
# One list after another

A run that is cut in two is the run of its first part and then of its second, with the success that
the first has come to.  This file says so of what lists of blocks mean, of rehearsals, and of the
entry points of a program, which are run in the same way.

## What is here

* `Course.inTurn_append` and `Block.meaningAll_append` — what is done one after another can be cut
  anywhere; `Block.meaningAll_flatten` is the same for any number of parts.
* `Block.runAll_eq_meaningFrom` and `Rehearsal.perform_eq` — a list that is run does what it means.
* `Rehearsal.performAll_eq` — lists run one after another do what they mean in turn;
  `Rehearsal.perform_flatten` — and so does the one list that they make up;
  `Rehearsal.perform_append` is the same for two lists.
* `Program.performance_eq` — what a program does: its entry points in turn, between the report of
  the start and that of the end.
-/

set_option autoImplicit false
namespace BlockScript

variable {σ : Type} (scene : Scene σ) (pacing : Pacing)

/-! ## Courses -/

theorem Course.inTurn_append (parts more : List (σ → Course σ)) (state : σ) :
    inTurn (parts ++ more) state = (inTurn parts state).andThen (inTurn more) := by
  induction parts generalizing state with
  | nil => rfl
  | cons part parts ih =>
    rw [List.cons_append, inTurn, inTurn, andThen_assoc, funext ih]

/-! ## Lists of blocks -/

namespace Block

theorem meaningAll_eq_inTurn (blocks : List Block) (state : σ) :
    meaningAll scene pacing blocks state
      = Course.inTurn (blocks.map (meaning scene pacing)) state := by
  induction blocks generalizing state with
  | nil => rfl
  | cons block blocks ih => rw [meaningAll, List.map_cons, Course.inTurn, funext ih]

theorem meaningAll_append (xs ys : List Block) (state : σ) :
    meaningAll scene pacing (xs ++ ys) state
      = (meaningAll scene pacing xs state).andThen (meaningAll scene pacing ys) := by
  rw [meaningAll_eq_inTurn, List.map_append, Course.inTurn_append, ← meaningAll_eq_inTurn,
    ← funext (meaningAll_eq_inTurn scene pacing ys)]

theorem meaningAll_flatten (lists : List (List Block)) (state : σ) :
    meaningAll scene pacing lists.flatten state
      = Course.inTurn (lists.map (meaningAll scene pacing)) state := by
  induction lists generalizing state with
  | nil => rfl
  | cons blocks lists ih =>
    rw [List.flatten_cons, meaningAll_append, List.map_cons, Course.inTurn, funext ih]

/-- A list of blocks that is run does what it means. -/
theorem runAll_eq_meaningFrom (blocks : List Block) (succeeded : Bool) (state : σ) :
    runAll scene pacing blocks succeeded state
      = ((meaningFrom scene pacing blocks succeeded state).effects,
        (meaningFrom scene pacing blocks succeeded state).succeeded,
        (meaningFrom scene pacing blocks succeeded state).state) := by
  obtain ⟨walk, hrun, hwalk⟩ :=
    Walk.run_eq_meaning scene pacing { frames := [Frame.sequence blocks], succeeded } state
  rw [← meaningFrom_eq] at hrun hwalk
  simp only [runAll, hrun, hwalk]

end Block

/-! ## Rehearsals -/

namespace Rehearsal

/-- A list of blocks that is run in a rehearsal does what it means from the present time on. -/
theorem perform_eq (blocks : List Block) (state : σ) (clock : Nat) (succeeded : Bool) :
    perform scene pacing { state, clock, succeeded } blocks
      = (Effect.timeline clock (Block.meaningFrom scene pacing blocks succeeded state).effects,
        { state := (Block.meaningFrom scene pacing blocks succeeded state).state
          clock := clock + Effect.totalDuration
            (Block.meaningFrom scene pacing blocks succeeded state).effects
          succeeded := (Block.meaningFrom scene pacing blocks succeeded state).succeeded }) := by
  simp only [perform, Block.runAll_eq_meaningFrom]

/-- **Lists of blocks run one after another do what they mean in turn**, until the target has been
eaten. -/
theorem performAll_eq (lists : List (List Block)) (state : σ) (clock : Nat) :
    performAll scene pacing { state, clock } lists
      = (Effect.timeline clock
          (Course.inTurn (lists.map (Block.meaningAll scene pacing)) state).effects,
        { state := (Course.inTurn (lists.map (Block.meaningAll scene pacing)) state).state
          clock := clock + Effect.totalDuration
            (Course.inTurn (lists.map (Block.meaningAll scene pacing)) state).effects
          succeeded :=
            (Course.inTurn (lists.map (Block.meaningAll scene pacing)) state).succeeded }) := by
  induction lists generalizing state clock with
  | nil => rfl
  | cons blocks lists ih =>
    rw [performAll_cons, perform_eq, List.map_cons, Course.inTurn]
    simp only [Block.meaningFrom, Bool.false_eq_true, if_false]
    obtain ⟨effects, succeeded, next⟩ := Block.meaningAll scene pacing blocks state
    cases succeeded with
    | true => rw [performAll_of_succeeded scene pacing rfl, List.append_nil]; rfl
    | false =>
      rw [ih, Course.andThen_of_failure, Course.after, Effect.timeline_append,
        Effect.totalDuration_append, Nat.add_assoc]

/-- **Running lists one after another is running the one list that they make up.** -/
theorem perform_flatten (rehearsal : Rehearsal σ) (lists : List (List Block)) :
    rehearsal.perform scene pacing lists.flatten = rehearsal.performAll scene pacing lists := by
  obtain ⟨state, clock, succeeded⟩ := rehearsal
  rw [perform_eq]
  cases succeeded with
  | true => rw [performAll_of_succeeded scene pacing rfl]; rfl
  | false =>
    rw [performAll_eq]
    simp only [Block.meaningFrom, Bool.false_eq_true, if_false, Block.meaningAll_flatten]

/-- **A list of blocks that is run is its first part and then its second**; once the target has been
eaten the second does nothing. -/
theorem perform_append (rehearsal : Rehearsal σ) (xs ys : List Block) :
    let first := rehearsal.perform scene pacing xs
    let second := first.2.perform scene pacing ys
    rehearsal.perform scene pacing (xs ++ ys) = (first.1 ++ second.1, second.2)
      ∧ (first.2.succeeded = true → second = ([], first.2)) := by
  intro first second
  have hsecond : first.2.performAll scene pacing [ys] = second := by
    rw [performAll_cons]
    exact congrArg (·, second.2) (List.append_nil second.1)
  refine ⟨?_, ?_⟩
  · have hflatten := perform_flatten scene pacing rehearsal [xs, ys]
    rw [performAll_cons, hsecond] at hflatten
    simpa using hflatten
  · intro hsucceeded
    rw [← hsecond, performAll_of_succeeded scene pacing hsucceeded]

end Rehearsal

/-! ## Programs -/

namespace Program

/-- What the entry points of a program do one after another. -/
def course (program : Program) : σ → Course σ :=
  Course.inTurn (program.entryPoints.map (Block.meaningAll scene pacing))

/-- **What a program does**: it reports that there is nothing to run, or it reports the start, runs
its entry points in turn, and reports the end. -/
theorem performance_eq (program : Program) (state : σ) :
    program.performance scene pacing state
      = if program.entryPoints = [] then ⟨[.emit .missingEntryPoint], false, state⟩
        else
          { program.course scene pacing state with
            effects := .emit .started :: (program.course scene pacing state).effects
              ++ [.emit (.finished
                    (.ofSuccess (program.course scene pacing state).succeeded))] } := by
  have hwalk : (Execution.start program).walk.meaning scene pacing state
      = program.course scene pacing state := by
    simp only [Execution.start, Walk.meaning, Frame.meaningAll, List.map_map, course]
    rfl
  by_cases h : program.entryPoints = []
  · rw [performance, if_pos h, Execution.meaning, hwalk, course, h]
    simp [Execution.start, h, Course.inTurn, Course.idle]
  · rw [performance, if_neg h, Execution.meaning, hwalk]
    simp [Execution.start, h]

end Program
end BlockScript
