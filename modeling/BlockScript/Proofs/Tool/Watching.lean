import BlockScript.Proofs.Tool.Fates
import Mathlib.Data.List.Induction

/-!
# Watching a run

Whatever the order in which the task that runs a program and the loop that shows its events take
their turns, the loop shows events of the run, in their order, and ends with the run.

## What is here

* `Watch.Runs` — what the task has pushed and will push; `Runs.work` is what its turns add.
* `Watch.told_takeAll` — turns in any order keep account of the events.
* `Tool.display_ends_with_run` — what is shown, where the loop ends, and that it does.
* `Tool.toReport_show` — the report of the tool is made by such turns.
-/

set_option autoImplicit false
namespace BlockScript
namespace Tool
namespace Watch

variable {events sent : List Event} {watch : Watch} {fates : List (Event × Bool)}
  {outcome : Outcome}

/-! ## What the task does -/

theorem events_meaning_resting {σ : Type} (scene : Scene σ) (pacing : Pacing) (duration : Nat)
    (execution : Execution) (state : σ) :
    Effect.events ((Stop.resting duration execution).meaning scene pacing state).effects
      = Effect.events (execution.meaning scene pacing state).effects := by
  simp [Stop.meaning, Course.lasting, Course.after]

section Task

variable (geometry : Geometry Float) (pacing : Pacing) (program : Program)

/-- What the task has pushed, and then what it will push, are the events of the run, and it will
come to the outcome of the run. -/
structure Runs (watch : Watch) (sent : List Event) : Prop where
  events : sent ++ watch.coming geometry pacing
    = (result geometry pacing program).events
  outcome : Outcome.ofSuccess (watch.stop.meaning geometry.scene pacing watch.stage).succeeded
    = (result geometry pacing program).outcome
  begun : ∀ duration execution, watch.stop = .resting duration execution →
    execution.entryPoints ≠ 0 ∨ execution = Execution.start program

/-- A measure of what the task has left to do. -/
def left (watch : Watch) : Nat :=
  (watch.coming geometry pacing).length +
    match watch.stop with
    | .resting _ execution => execution.work + 1
    | .finished _ => 0

variable {geometry pacing program}

theorem runs_start : (start geometry program).Runs geometry pacing program [] where
  events := by
    simp [coming, start, Stop.meaning, Course.lasting, Course.after, Program.result,
      Program.performance]
  outcome := rfl
  begun duration execution hstop := .inr (Stop.resting.inj hstop).2.symm

theorem told_start :
    (start geometry program).Told
      (result geometry pacing program).events [] [] where
  live := Channel.sent_empty
  known := List.nil_prefix
  told := rfl
  next := rfl
  lines := rfl
  lost := rfl
  kept := by simp
  ended := by
    obtain ⟨before, terminal, hevents, -⟩ :=
      program.ends_result geometry.scene pacing (StageState.initial geometry)
    simp [hevents, start, Display.follow]

/-- A task that has not ended has something left to push. -/
theorem Runs.coming_ne_nil (h : watch.Runs geometry pacing program sent) {duration : Nat}
    {execution : Execution} (hstop : watch.stop = .resting duration execution) :
    watch.coming geometry pacing ≠ [] := by
  rw [coming, hstop, events_meaning_resting]
  refine List.append_ne_nil_of_right_ne_nil _ ?_
  rcases h.begun _ _ hstop with hentries | rfl
  · rw [Execution.meaning, if_neg hentries, Effect.events_append]
    exact List.append_ne_nil_of_right_ne_nil _ (List.cons_ne_nil _ _)
  · obtain ⟨before, terminal, hevents, -⟩ :=
      program.ends_result geometry.scene pacing watch.stage
    exact fun hnil => absurd (hevents.symm.trans hnil) (by simp)

/-- A task that has pushed everything has ended, with the outcome of the run. -/
theorem Runs.over (h : watch.Runs geometry pacing program sent)
    (hcoming : watch.coming geometry pacing = []) :
    watch.stop
        = .finished (result geometry pacing program).outcome
      ∧ watch.pending = [] := by
  refine ⟨?_, (List.append_eq_nil_iff.1 hcoming).1⟩
  cases hstop : watch.stop with
  | resting duration execution => exact absurd hcoming (h.coming_ne_nil hstop)
  | finished outcome =>
    have houtcome := h.outcome
    rw [hstop, Stop.meaning] at houtcome
    rw [← houtcome]
    cases outcome <;> rfl

theorem Runs.coming_eq_nil (h : watch.Runs geometry pacing program sent)
    (hsent : sent = (result geometry pacing program).events) :
    watch.coming geometry pacing = [] := List.append_right_eq_self.1 (hsent ▸ h.events)

/-- A task goes on to a stop without changing what is to come. -/
theorem Runs.advance (h : watch.Runs geometry pacing program sent) (hpending : watch.pending = [])
    {duration : Nat} {execution : Execution} (hstop : watch.stop = .resting duration execution)
    {effects : Array Effect} {stage : StageState Float} {stop : Stop}
    (hadvance : execution.advance geometry.scene pacing #[] watch.stage = (effects, stage, stop)) :
    (Watch.Runs geometry pacing program
      { watch with stage, stop, pending := Effect.events effects.toList } sent) ∧
    left geometry pacing { watch with stage, stop, pending := Effect.events effects.toList }
      < watch.left geometry pacing := by
  obtain ⟨done, hdone, hmeaning⟩ := Execution.meaning_advance geometry.scene pacing hadvance
  obtain rfl : effects.toList = done := by simp [hdone]
  have hcoming : coming geometry pacing
        { watch with stage, stop, pending := Effect.events effects.toList }
      = watch.coming geometry pacing := by
    have hevents := congrArg (fun course => Effect.events course.effects) hmeaning
    rw [coming, coming, hpending, hstop, events_meaning_resting]
    simpa [Course.lasting, Course.after] using hevents.symm
  refine ⟨⟨?_, ?_, ?_⟩, ?_⟩
  · rw [hcoming, h.events]
  · have hsucceeded := congrArg Course.succeeded hmeaning
    rw [← h.outcome, hstop]
    exact congrArg Outcome.ofSuccess hsucceeded.symm
  · rintro duration' execution' rfl
    left
    rw [(Execution.advance_resting geometry.scene pacing hadvance).2]
    rcases h.begun _ _ hstop with hentries | rfl
    · exact hentries
    · intro hnone
      have hnil : program.entryPoints = [] := List.eq_nil_of_length_eq_zero hnone
      rw [Execution.advance_start_of_entryPoints_eq_nil geometry.scene pacing hnil] at hadvance
      simp at hadvance
  · rw [left, left, hcoming, hstop]
    cases stop with
    | finished outcome => simp
    | resting duration' execution' => simpa using Execution.work_advance hadvance

/-- **A turn of the task keeps the account**, and leaves less to do unless it has ended. -/
theorem Runs.work (h : watch.Runs geometry pacing program sent)
    (htold : watch.Told (result geometry pacing program).events sent fates) :
    ∃ more,
      (watch.work geometry pacing).Told (result geometry pacing program).events (sent ++ more)
        fates ∧
      (watch.work geometry pacing).Runs geometry pacing program (sent ++ more) ∧
      (watch.work geometry pacing).left geometry pacing ≤ watch.left geometry pacing - 1 := by
  obtain ⟨stage, stop, pending, log, display⟩ := watch
  cases pending with
  | cons event pending =>
    have hevents := h.events
    rw [coming, List.cons_append, List.append_cons] at hevents
    refine ⟨[event], htold.push ⟨_, hevents⟩, ⟨hevents, h.outcome, h.begun⟩, ?_⟩
    simp only [Watch.work, left, coming, List.length_append, List.length_cons]
    omega
  | nil =>
    cases stop with
    | finished outcome =>
      refine ⟨[], ?_, ?_, ?_⟩
      · rwa [List.append_nil]
      · rwa [List.append_nil]
      · simp [Watch.work, left, coming, Stop.meaning]
    | resting duration execution =>
      obtain ⟨⟨effects, stage', stop'⟩, hadvance⟩ :
        ∃ r, execution.advance geometry.scene pacing #[] stage = r := ⟨_, rfl⟩
      obtain ⟨hruns, hleft⟩ := h.advance rfl rfl hadvance
      have hwork : Watch.work geometry pacing ⟨stage, .resting duration execution, [], log, display⟩
          = ⟨stage', stop', Effect.events effects.toList, log, display⟩ := by
        simp only [Watch.work, hadvance]
      rw [hwork]
      refine ⟨[], ?_, ?_, ?_⟩
      · rw [List.append_nil]
        exact ⟨htold.live, htold.known, htold.told, htold.next, htold.lines, htold.lost,
          htold.kept, htold.ended⟩
      · rwa [List.append_nil]
      · exact Nat.le_sub_one_of_lt hleft

/-- Nothing that the loop does changes what the task does. -/
theorem Runs.receive (h : watch.Runs geometry pacing program sent) :
    watch.receive.Runs geometry pacing program sent := ⟨h.events, h.outcome, h.begun⟩

theorem left_receive : watch.receive.left geometry pacing = watch.left geometry pacing := rfl

/-! ## Turns in any order -/

theorem takeAll_concat (turns : List Turn) (turn : Turn) :
    watch.takeAll geometry pacing (turns ++ [turn])
      = (watch.takeAll geometry pacing turns).take geometry pacing turn := List.foldl_concat ..

variable (geometry pacing program) in
/-- **Turns in any order keep the account.**  If the loop is never too far behind, nothing is
lost. -/
theorem told_takeAll (turns : List Turn) :
    ∃ sent fates,
      ((start geometry program).takeAll geometry pacing turns).Told
        (result geometry pacing program).events sent fates ∧
      ((start geometry program).takeAll geometry pacing turns).Runs geometry pacing program sent ∧
      ((∀ earlier, earlier <+: turns →
          ((start geometry program).takeAll geometry pacing earlier).behind ≤ Channel.capacity) →
        ∀ fate ∈ fates, fate.2 = true) := by
  induction turns using List.reverseRecOn with
  | nil => exact ⟨[], [], told_start, runs_start, fun _ fate hfate => absurd hfate (by simp)⟩
  | append_singleton turns turn ih =>
    obtain ⟨sent, fates, htold, hruns, hnone⟩ := ih
    rw [takeAll_concat]
    cases turn with
    | work =>
      obtain ⟨more, htold, hruns, -⟩ := hruns.work htold
      exact ⟨_, _, htold, hruns, fun hnear => hnone fun earlier hearlier =>
        hnear earlier (hearlier.trans (List.prefix_append ..))⟩
    | receive =>
      obtain ⟨more, htold, hmore, -⟩ := htold.receive (program.ends_result _ _ _)
      refine ⟨_, _, htold, hruns.receive, fun hnear fate hfate => ?_⟩
      rcases List.mem_append.1 hfate with hold | hnew
      · exact hnone (fun earlier hearlier =>
          hnear earlier (hearlier.trans (List.prefix_append ..))) fate hold
      · exact hmore (hnear turns (List.prefix_append ..)) fate hnew

/-! ## The end -/

variable (geometry pacing program) in
/-- A task that has its turns comes to its end. -/
theorem left_takeAll (turns : List Turn) :
    ((start geometry program).takeAll geometry pacing turns).left geometry pacing
      ≤ (start geometry program).left geometry pacing - turns.count .work := by
  induction turns using List.reverseRecOn with
  | nil => exact Nat.le_refl _
  | append_singleton turns turn ih =>
    obtain ⟨sent, fates, htold, hruns, -⟩ := told_takeAll geometry pacing program turns
    rw [takeAll_concat, List.count_append]
    cases turn with
    | work =>
      obtain ⟨-, -, -, hleft⟩ := hruns.work htold
      have hone : [Turn.work].count .work = 1 := rfl
      simp only [take]
      omega
    | receive =>
      have hnone : [Turn.receive].count .work = 0 := rfl
      simp only [take, left_receive]
      omega

/-- Once everything is sent, a loop that has its turns comes to its end. -/
theorem Told.ended_takeAll (h : watch.Told events events fates) (hends : EndsWith events outcome)
    (hstop : watch.stop = .finished outcome) (hpending : watch.pending = []) {turns : List Turn}
    (hturns : due events fates ≤ turns.count .receive) :
    (watch.takeAll geometry pacing turns).display.ended = true := by
  induction turns generalizing watch fates with
  | nil =>
    refine h.ended.2 (Nat.le_antisymm h.length_le ?_)
    rw [List.count_nil, Nat.le_zero, due] at hturns
    split at hturns <;> omega
  | cons turn turns ih =>
    cases turn with
    | work =>
      have hsame : watch.work geometry pacing = watch := by rw [work, hpending, hstop]
      rw [List.count_cons_of_ne (by decide)] at hturns
      have hrest := ih h hstop hpending hturns
      rwa [takeAll, List.foldl_cons, take, hsame]
    | receive =>
      obtain ⟨more, hreceive, -, hdue⟩ := h.receive hends
      rw [List.count_cons_self] at hturns
      exact ih hreceive hstop hpending (by omega)

end Task
end Watch

/-- **The display of a run ends with the run.**  The task that runs a program and the loop that
shows its events take turns in any order.

* The loop comes to the events of the run one after another.  Each is shown, or lost, and then
  counted; so what is shown are events of the run, in order and none of them twice.
* If the loop is never more than 256 events behind, all are shown.
* The last event of the run is not lost.  The loop ends when it has shown it, and shows it last;
  what it announces is the outcome that is told afterwards.
* Task and loop both come to their ends if they have enough turns. -/
theorem display_ends_with_run (geometry : Geometry Float) (pacing : Pacing) (program : Program) :
    (∀ turns : List Watch.Turn,
      let watch := (Watch.start geometry program).takeAll geometry pacing turns
      ∃ fates : List (Event × Bool),
        fates.map Prod.fst <+: (result geometry pacing program).events ∧
        watch.display.lines.toList = (Watch.shown fates).map Event.message ∧
        (Watch.shown fates).Sublist (result geometry pacing program).events ∧
        watch.display.lost = (fates.filter fun fate => !fate.2).length ∧
        (∀ fate ∈ fates, fate.2 = false → fate.1.isTerminal = false) ∧
        ((∀ earlier, earlier <+: turns →
            ((Watch.start geometry program).takeAll geometry pacing earlier).behind ≤ 256) →
          Watch.shown fates = fates.map Prod.fst) ∧
        (watch.display.ended = false → ∀ event ∈ Watch.shown fates, event.isTerminal = false) ∧
        (watch.display.ended = true → ∃ outcome,
          fates.map Prod.fst = (result geometry pacing program).events ∧
          EndsWith (Watch.shown fates) outcome ∧
          watch.stop = .finished outcome ∧ watch.pending = [] ∧
          (summary outcome watch.stage)[1]? = some ("Outcome: " ++ outcomeWord outcome))) ∧
    ∃ enough, ∀ early late : List Watch.Turn, enough ≤ early.count .work →
      257 ≤ late.count .receive →
      ((Watch.start geometry program).takeAll geometry pacing (early ++ late)).display.ended
        = true := by
  have hends := program.ends_result geometry.scene pacing (StageState.initial geometry)
  refine ⟨fun turns => ?_, (Watch.start geometry program).left geometry pacing,
    fun early late hearly hlate => ?_⟩
  · obtain ⟨sent, fates, htold, hruns, hnear⟩ :=
      Watch.told_takeAll geometry pacing program turns
    refine ⟨fates, htold.prefix_events, htold.lines,
      (List.filter_sublist.map _).trans htold.prefix_events.sublist, ?_, htold.kept,
      fun hall => ?_, fun hended event hevent => htold.isTerminal_of_mem_shown hends hended hevent,
      fun hended => ?_⟩
    · rw [htold.lost, List.countP_eq_length_filter]
    · rw [Watch.shown, List.filter_eq_self.2 (hnear hall)]
    · obtain ⟨hstop, hpending⟩ := hruns.over (hruns.coming_eq_nil (htold.sent_eq hended))
      exact ⟨_, htold.map_fst_eq hended, htold.endsWith_shown hends hended, hstop, hpending, rfl⟩
  · obtain ⟨sent, fates, htold, hruns, -⟩ := Watch.told_takeAll geometry pacing program early
    have hcoming : ((Watch.start geometry program).takeAll geometry pacing early).coming
        geometry pacing = [] := by
      have hleft := Watch.left_takeAll geometry pacing program early
      rw [Nat.sub_eq_zero_of_le hearly, Watch.left] at hleft
      exact List.eq_nil_of_length_eq_zero (by omega)
    obtain ⟨hstop, hpending⟩ := hruns.over hcoming
    obtain rfl : sent = (result geometry pacing program).events := by
      rw [← hruns.events, hcoming, List.append_nil]
    rw [Watch.takeAll, List.foldl_append]
    exact htold.ended_takeAll hends hstop hpending (Nat.le_trans Watch.due_le hlate)

/-! ## The report of the tool -/

namespace Watch

variable {events sent : List Event} {watch : Watch} {geometry : Geometry Float} {pacing : Pacing}
  {program : Program} {outcome : Outcome}

/-- Events that were all shown. -/
def allShown (events : List Event) : List (Event × Bool) := events.map fun event => (event, true)

theorem shown_allShown (events : List Event) : shown (allShown events) = events := by
  rw [shown, allShown, List.filter_eq_self.2 (by simp), List.map_map]
  exact List.map_id' events

/-- A loop that has shown all shows what is pushed, if it receives it at once. -/
theorem Told.push_receive (h : watch.Told events sent (allShown sent))
    (hends : EndsWith events outcome) {event : Event} {pending : List Event}
    (hknown : sent ++ [event] <+: events) :
    Watch.Told events (Watch.receive { watch with pending, log := watch.log.push event })
      (sent ++ [event]) (allShown (sent ++ [event])) := by
  have hlength : (allShown sent).length = sent.length := List.length_map ..
  have hended : watch.display.ended = false := by
    have hle := hknown.length_le
    rw [List.length_append, List.length_singleton] at hle
    rw [← Bool.not_eq_true, h.ended, hlength]
    omega
  have hpush : Told events { watch with pending, log := watch.log.push event } (sent ++ [event])
      (allShown sent) := h.push hknown
  have hnext : (sent ++ [event])[(allShown sent).length]? = some event := by
    rw [hlength, List.getElem?_append_right (Nat.le_refl _), Nat.sub_self]
    rfl
  have hkept : (sent ++ [event]).length ≤ (allShown sent).length + Channel.capacity := by
    rw [List.length_append, List.length_singleton, hlength, Channel.capacity]
    omega
  rw [allShown, List.map_append]
  exact hpush.receive_of_kept hends hended hkept hnext

/-- A run that is being shown, and a watch, where the same has been done. -/
def Matches (showing : Showing) (watch : Watch) : Prop :=
  showing.stage = watch.stage ∧ showing.live = watch.log.live ∧ showing.display = watch.display

/-- Events that are shown as they come are what a loop shows that receives each at once. -/
theorem Told.send (h : watch.Told events sent (allShown sent)) (hends : EndsWith events outcome)
    {pending : List Event} (hpending : watch.pending = pending)
    (hknown : sent ++ pending <+: events) {showing : Showing} (hmatches : Matches showing watch) :
    ∃ turns watch', watch.takeAll geometry pacing turns = watch' ∧
      watch'.Told events (sent ++ pending) (allShown (sent ++ pending)) ∧
      watch'.stage = watch.stage ∧ watch'.stop = watch.stop ∧ watch'.pending = [] ∧
      Matches (pending.foldl Showing.send showing) watch' := by
  induction pending generalizing watch sent showing with
  | nil =>
    refine ⟨[], watch, rfl, ?_, rfl, rfl, hpending, hmatches⟩
    rwa [List.append_nil]
  | cons event pending ih =>
    obtain ⟨hstage, hlive, hdisplay⟩ := hmatches
    rw [List.append_cons] at hknown ⊢
    have hwork : watch.work geometry pacing
        = { watch with pending, log := watch.log.push event } := by
      simp only [work, hpending]
    have hsend : Matches (showing.send event)
        (Watch.receive { watch with pending, log := watch.log.push event }) := by
      refine ⟨hstage, ?_, ?_⟩
      · rw [Showing.send, hlive]
        rfl
      · rw [Showing.send, hlive, hdisplay]
        rfl
    obtain ⟨turns, watch', hturns, hrest⟩ := ih
      (h.push_receive hends ((List.prefix_append ..).trans hknown)) rfl hknown hsend
    refine ⟨.work :: .receive :: turns, watch', ?_, hrest⟩
    rw [← hturns, ← hwork]
    rfl

/-- What is to come stays when all that is pending is pushed. -/
theorem Runs.of_pushed (h : watch.Runs geometry pacing program sent) {watch' : Watch}
    (hstage : watch'.stage = watch.stage) (hstop : watch'.stop = watch.stop)
    (hpending : watch'.pending = []) :
    watch'.Runs geometry pacing program (sent ++ watch.pending) where
  events := by
    rw [coming, hpending, hstop, hstage, List.nil_append, List.append_assoc]
    exact h.events
  outcome := by
    rw [hstop, hstage]
    exact h.outcome
  begun duration execution hresting := h.begun duration execution (hstop ▸ hresting)

/-- A run that is shown as it goes on to a stop is one whose task and loop take turns up to
there. -/
theorem Told.advance (h : watch.Told (result geometry pacing program).events sent (allShown sent))
    (hruns : watch.Runs geometry pacing program sent) {showing : Showing} {duration : Nat}
    (hstop : watch.stop = .resting duration showing.execution) (hpending : watch.pending = [])
    (hmatches : Matches showing watch) {effects : Array Effect} {stage : StageState Float}
    {stop : Stop}
    (hadvance : showing.execution.advance geometry.scene pacing #[] showing.stage
      = (effects, stage, stop)) :
    ∃ turns watch' sent', watch.takeAll geometry pacing turns = watch' ∧
      watch'.Told (result geometry pacing program).events sent' (allShown sent') ∧
      watch'.Runs geometry pacing program sent' ∧ watch'.stop = stop ∧ watch'.pending = [] ∧
      Matches ((Effect.events effects.toList).foldl Showing.send { showing with stage })
        watch' := by
  have hends := program.ends_result geometry.scene pacing (StageState.initial geometry)
  obtain ⟨hstage, hlive, hdisplay⟩ := hmatches
  rw [hstage] at hadvance
  have hwork : watch.work geometry pacing
      = { watch with stage, stop, pending := Effect.events effects.toList } := by
    simp only [work, hpending, hstop, hadvance]
  obtain ⟨hruns, -⟩ := hruns.advance hpending hstop hadvance
  have htold : Told (result geometry pacing program).events
      { watch with stage, stop, pending := Effect.events effects.toList } sent (allShown sent) :=
    ⟨h.live, h.known, h.told, h.next, h.lines, h.lost, h.kept, h.ended⟩
  have hknown :
      sent ++ Effect.events effects.toList <+: (result geometry pacing program).events := by
    rw [← hruns.events, coming, ← List.append_assoc]
    exact List.prefix_append ..
  have hbegun : Matches { showing with stage }
      { watch with stage, stop, pending := Effect.events effects.toList } := ⟨rfl, hlive, hdisplay⟩
  obtain ⟨turns, watch', hturns, htold, hstage', hstop', hpending', hmatches⟩ :=
    htold.send hends rfl hknown hbegun
  refine ⟨.work :: turns, watch', _, ?_, htold, hruns.of_pushed hstage' hstop' hpending', hstop',
    hpending', hmatches⟩
  rw [← hturns, ← hwork]
  rfl

/-- The rest of a run that is shown as it goes is a run whose task and loop take turns. -/
theorem Told.toEnd (h : watch.Told (result geometry pacing program).events sent (allShown sent))
    (hruns : watch.Runs geometry pacing program sent) {showing : Showing} {duration : Nat}
    (hstop : watch.stop = .resting duration showing.execution) (hpending : watch.pending = [])
    (hmatches : Matches showing watch) :
    ∃ turns watch', watch.takeAll geometry pacing turns = watch' ∧
      watch'.Told (result geometry pacing program).events (result geometry pacing program).events
        (allShown (result geometry pacing program).events) ∧
      (showing.toEnd geometry pacing).1 = (result geometry pacing program).outcome ∧
      Matches (showing.toEnd geometry pacing).2 watch' := by
  fun_induction Showing.toEnd geometry pacing showing generalizing watch sent duration with
  | case1 showing duration' showing' hnext ih =>
    obtain ⟨⟨effects, stage, stop⟩, hadvance⟩ :
      ∃ r, showing.execution.advance geometry.scene pacing #[] showing.stage = r := ⟨_, rfl⟩
    obtain ⟨turns, middle, sent', hturns, htold, hruns, hstop, hpending, hmatches⟩ :=
      h.advance hruns hstop hpending hmatches hadvance
    simp only [Showing.advance, hadvance] at hnext
    cases stop with
    | finished outcome => cases hnext
    | resting duration'' execution =>
      obtain ⟨rfl, rfl⟩ := Showing.Stop.resting.inj hnext
      obtain ⟨more, watch', hmore, hrest⟩ := ih htold hruns hstop hpending hmatches
      refine ⟨turns ++ more, watch', ?_, hrest⟩
      rw [takeAll, List.foldl_append, ← hmore, ← hturns]
      rfl
  | case2 showing outcome showing' hnext =>
    obtain ⟨⟨effects, stage, stop⟩, hadvance⟩ :
      ∃ r, showing.execution.advance geometry.scene pacing #[] showing.stage = r := ⟨_, rfl⟩
    obtain ⟨turns, watch', sent', hturns, htold, hruns, hstop, hpending, hmatches⟩ :=
      h.advance hruns hstop hpending hmatches hadvance
    simp only [Showing.advance, hadvance] at hnext
    cases stop with
    | resting duration'' execution => cases hnext
    | finished outcome =>
      obtain ⟨rfl, rfl⟩ := Showing.Stop.finished.inj hnext
      have hcoming : watch'.coming geometry pacing = [] := by
        rw [coming, hpending, hstop]
        rfl
      obtain rfl : sent' = (result geometry pacing program).events := by
        rw [← hruns.events, hcoming, List.append_nil]
      exact ⟨turns, watch', hturns, htold,
        Stop.finished.inj (hstop.symm.trans (hruns.over hcoming).1), hmatches⟩

end Watch

/-- **The tool shows a run in one of these ways**: every event of the run, and then the outcome of
the run and the stage as the task has left it. -/
theorem toReport_show (geometry : Geometry Float) (pacing : Pacing) (program : Program) :
    ∃ turns watch, (Watch.start geometry program).takeAll geometry pacing turns = watch ∧
      watch.display.ended = true ∧
      watch.display.lines.toList = (result geometry pacing program).events.map Event.message ∧
      (Plan.show geometry pacing program).toReport
        = ⟨0, unlines (watch.display.lines.toList
            ++ summary (result geometry pacing program).outcome watch.stage), ""⟩ := by
  have hmatches : Watch.Matches (Showing.start geometry program) (Watch.start geometry program) :=
    ⟨rfl, rfl, rfl⟩
  have hruns : (Watch.start geometry program).Runs geometry pacing program [] := Watch.runs_start
  obtain ⟨turns, watch, hturns, htold, houtcome, hstage, -, hdisplay⟩ :=
    Watch.told_start.toEnd hruns rfl rfl hmatches
  refine ⟨turns, watch, hturns, ?_, ?_, ?_⟩
  · rw [htold.ended, Watch.allShown, List.length_map]
  · rw [htold.lines, Watch.shown_allShown]
  · simp only [Plan.toReport, houtcome, hstage, hdisplay]

end Tool
end BlockScript
