import Workflow.Proofs.Run.Callbacks

/-!
# Executors that are free again

A run has the executor from its announcement on, and it gives the executor back in one place:
where it is closed. Every way out of a run leads through this place but one. A run that is
broken off while it is announced ends there and then, and the executor stays busy for good.

The argument has two parts. One step of a run that is under way either leaves it under way or
closes it (`Run.Steps`), and one that is broken off is closed at once, so the executor is
held just as long as the run is under way (`Occupied`). And whether a call is refused depends
on nothing but the flag (`Environment.refused_run`). Both hold in any surroundings that
respect the executor; hooks of all kinds, with runs nested to any depth, are such
surroundings (`Watched.respects_environment`).

The headline is `Graph.free_after_run`.
-/

namespace Workflow

/-! ## Steps of a run under way -/

/-- Whether a run has been let go on after its announcement and was not closed yet. -/
def Stage.underWay : Stage → Bool
  | .opened | .closing _ => false
  | _ => true

theorem Stage.settled?_of_underWay {stage : Stage} (h : stage.underWay = true) :
    stage.settled? = none := by
  cases stage <;> first | rfl | cases h

namespace Run

/-- What one step makes of a run under way, or of one that was just announced: it goes on,
with its status kept or set to cancelled, or it is closed with a result that tells its
status. -/
inductive Steps (r : Run) (e : Executor) : Executor × Turn → Prop
  | goesOn {e' : Executor} {signal : Signal} {r' : Run} (executing : e'.executing = e.executing)
      (underWay : r'.stage.underWay = true)
      (status : r'.status = r.status ∨ r'.status = .cancelled) :
      Steps r e (e', .waits signal r')
  | closes {e' : Executor} {r' : Run} {result : RunResult}
      (status : r'.status = r.status ∨ r'.status = .invalid) (told : result.status = r'.status) :
      Steps r e (r'.close e' (.returned result))

namespace Steps

variable (r : Run) (e : Executor)

theorem of_conclude : Steps r e (r.conclude e) := .closes (.inl rfl) rfl

theorem of_noteSystem (status : LogStatus) (message : String) {stage : Stage}
    (hunderWay : stage.underWay = true) : Steps r e (r.noteSystem e status message stage) :=
  .goesOn rfl hunderWay (.inl rfl)

theorem of_stop : Steps r e (r.stop e) := .goesOn rfl rfl (.inr rfl)

theorem of_take (w : Work) (queue : List Work) (starts : List Node) :
    Steps r e (r.take e w queue starts) := by
  unfold take
  split
  · exact of_stop r e
  · split
    · exact .goesOn rfl rfl (.inl rfl)
    · exact .goesOn rfl rfl (.inl rfl)

theorem of_walk (queue : List Work) (starts : List Node) :
    Steps r e (r.walk e queue starts) := by
  cases queue with
  | cons w queue => exact of_take r e w queue starts
  | nil =>
      cases starts with
      | cons n starts => exact of_take r e _ [] starts
      | nil => exact of_conclude r e

theorem of_refuse (defects : List Defect) : Steps r e (r.refuse e defects) := by
  cases defects with
  | cons d rest => exact of_noteSystem r e _ _ rfl
  | nil => exact .closes (.inr rfl) rfl

theorem of_warn (warnings : List Warning) : Steps r e (r.warn e warnings) := by
  cases warnings with
  | cons w rest => exact of_noteSystem r e _ _ rfl
  | nil =>
      show Steps r e (if r.plan.report.valid = true then _ else _)
      split
      · exact of_walk r e [] _
      · exact of_refuse r e _

theorem of_leave (w : Work) (o : Outcome) (queue : List Work) (starts : List Node) :
    Steps r e (r.leave e w o queue starts) := by
  unfold leave
  split
  · exact .goesOn rfl rfl (.inl rfl)
  · exact of_walk r e _ starts

/-- **One step** of a run that was announced and not closed yet. -/
theorem of_resume (hopen : r.stage.settled? = none) : Steps r e (r.resume e) := by
  unfold resume
  split
  · exact of_warn r e _
  · exact of_warn r e _
  · exact of_refuse r e _
  · exact of_walk r e _ _
  · split
    · exact of_stop r e
    · exact .goesOn rfl rfl (.inl rfl)
  · exact .goesOn rfl rfl (.inl rfl)
  · exact .goesOn rfl rfl (.inl rfl)
  · exact of_leave r e _ _ _ _
  · exact of_conclude r e
  · rename_i hstage
    rw [hstage] at hopen
    cases hopen

end Steps

theorem breakOff_of_underWay {r : Run} (h : r.stage.underWay = true) (e : Executor)
    (i : Interrupt) :
    r.breakOff e i = r.close e (.broken i) := by
  unfold breakOff
  cases hstage : r.stage with
  | opened | closing _ =>
      rw [hstage] at h
      cases h
  | _ => rfl

/-- A run that was closed ends with the next reply, and leaves the executor alone. -/
theorem proceed_of_settled {r : Run} {ending : Ending} (h : r.stage.settled? = some ending)
    (e : Executor) (reply : Reply) :
    ∃ ending', r.proceed e reply = (e, .ends ending')
      ∧ (ending' = ending ∨ ∃ i, ending' = .broken i) := by
  cases reply with
  | resume => exact ⟨ending, resume_of_settled h e, .inl rfl⟩
  | interrupt i =>
      refine ⟨.broken i, ?_, .inr ⟨i, rfl⟩⟩
      unfold proceed breakOff
      cases hstage : r.stage with
      | opened | closing _ => rfl
      | _ =>
          rw [hstage] at h
          cases h

end Run

/-! ## Calls that are refused -/

/-- Whether a call was refused because another run had the executor. -/
def Ending.refused : Ending → Bool
  | .returned result => result.status = .busy
  | .broken _ => false

/-- Where a run stands that was not refused: it is not going to say that the executor was
busy. -/
def Turn.Granted : Turn → Prop
  | .waits _ r =>
    r.status ≠ .busy ∧ ∀ ending, r.stage.settled? = some ending → ending.refused = false
  | .ends ending => ending.refused = false

theorem Run.Steps.granted {r : Run} {e : Executor} {next : Executor × Turn}
    (h : r.Steps e next) (hstatus : r.status ≠ .busy) : next.2.Granted := by
  cases h with
  | goesOn executing underWay status =>
      refine ⟨?_, fun ending hending => ?_⟩
      · rcases status with hsame | hcancelled
        · exact hsame ▸ hstatus
        · rw [hcancelled]
          nofun
      · rw [Stage.settled?_of_underWay underWay] at hending
        cases hending
  | @closes e' r' result status told =>
      have hnot : r'.status ≠ .busy := by
        rcases status with hsame | hinvalid
        · exact hsame ▸ hstatus
        · rw [hinvalid]
          nofun
      refine ⟨hnot, fun ending hending => ?_⟩
      obtain rfl := Option.some.inj hending
      exact decide_eq_false (told ▸ hnot)

/-- **One step** of a run that was not refused, however the surroundings reply. -/
theorem Turn.Granted.proceed {signal : Signal} {r : Run} (h : (Turn.waits signal r).Granted)
    (e : Executor) (reply : Reply) : (r.proceed e reply).2.Granted := by
  obtain ⟨hstatus, hending⟩ := h
  cases hsettled : r.stage.settled? with
  | some ending =>
      obtain ⟨ending', hproceed, hends⟩ := Run.proceed_of_settled hsettled e reply
      rw [hproceed]
      rcases hends with rfl | ⟨i, rfl⟩
      · exact hending _ hsettled
      · exact rfl
  | none =>
      cases reply with
      | resume => exact (Run.Steps.of_resume r e hsettled).granted hstatus
      | interrupt i =>
          show (r.breakOff e i).2.Granted
          unfold Run.breakOff
          split
          · exact rfl
          · exact rfl
          · refine ⟨hstatus, fun ending hbroken => ?_⟩
            obtain rfl := Option.some.inj hbroken
            rfl

/-- **A call is refused exactly if it finds the executor busy**, whatever happens during the
run. -/
theorem Environment.refused_run {ω : Type} (env : Environment ω) (g : Graph) (e : Executor)
    (w : ω) :
    (env.run g e w).1.refused = e.executing := by
  cases hbusy : e.executing with
  | true =>
      rw [env.run_of_busy g hbusy]
      rfl
  | false =>
      have hstart : (Run.start g e).2.Granted := by
        rw [Run.start_of_idle g hbusy]
        exact ⟨nofun, nofun⟩
      exact env.drive_keeps (P := fun _ _ t => t.Granted)
        (fun signal r e w h => h.proceed _ _) _ w _ hstart

/-! ## Surroundings that respect an executor -/

namespace Executor

/-- No run is in progress and none is to be cancelled. -/
structure AtRest (e : Executor) : Prop where
  executing : e.executing = false
  cancelRequested : e.cancelRequested = false

theorem atRest_release (e : Executor) : e.release.AtRest := ⟨rfl, rfl⟩

/-- What may become of an executor between two steps of a run: while the run has it, it stays
busy, and once it is at rest, all that is done with it is over. -/
structure Respected (e e' : Executor) : Prop where
  busy : e.executing = true → e'.executing = true
  rest : e.AtRest → e'.AtRest

namespace Respected

variable {e e' e'' : Executor}

theorem refl (e : Executor) : Respected e e := ⟨id, id⟩

theorem trans (h : Respected e e') (h' : Respected e' e'') : Respected e e'' :=
  ⟨h'.busy ∘ h.busy, h'.rest ∘ h.rest⟩

theorem clearLogs (e : Executor) : Respected e e.clearLogs :=
  ⟨id, fun h => ⟨h.executing, h.cancelRequested⟩⟩

theorem cancel (e : Executor) : Respected e e.cancel := by
  unfold Executor.cancel
  split
  · rename_i hbusy
    refine ⟨id, fun h => ?_⟩
    rw [h.executing] at hbusy
    cases hbusy
  · exact refl e

end Respected
end Executor

/-- As long as their state has a property, the surroundings respect the executor and keep the
property. Beyond that they may do anything: ask a run to stop, break it off, empty the log,
make other calls. -/
def Environment.Respects {ω : Type} (env : Environment ω) (P : ω → Prop) : Prop :=
  ∀ signal e w, P w → e.Respected (env.react signal e w).2.1 ∧ P (env.react signal e w).2.2

/-- A run past its announcement has the executor as long as it is under way, and afterwards
the executor is at rest. -/
inductive Occupied (e : Executor) : Turn → Prop
  | underWay {signal : Signal} {r : Run} (underWay : r.stage.underWay = true)
      (busy : e.executing = true) : Occupied e (.waits signal r)
  | closed {signal : Signal} {r : Run} {ending : Ending} (settled : r.stage.settled? = some ending)
      (rest : e.AtRest) : Occupied e (.waits signal r)
  | ended {ending : Ending} (rest : e.AtRest) : Occupied e (.ends ending)

namespace Occupied

theorem of_close (r : Run) (e : Executor) (ending : Ending) :
    Occupied (r.close e ending).1 (r.close e ending).2 := .closed rfl e.atRest_release

theorem of_steps {r : Run} {e : Executor} {next : Executor × Turn} (h : r.Steps e next)
    (hbusy : e.executing = true) : Occupied next.1 next.2 := by
  cases h with
  | goesOn executing underWay status => exact .underWay underWay (executing.trans hbusy)
  | @closes e' r' result status told => exact of_close r' e' _

/-- **One step** of a run past its announcement, in surroundings that respect the
executor. -/
theorem step {ω : Type} {env : Environment ω} {P : ω → Prop} (hrespects : env.Respects P)
    {signal : Signal} {r : Run} {e : Executor} {w : ω} (h : Occupied e (.waits signal r))
    (hstate : P w) :
    Occupied (r.proceed (env.react signal e w).2.1 (env.react signal e w).1).1
      (r.proceed (env.react signal e w).2.1 (env.react signal e w).1).2 := by
  obtain ⟨hrespected, -⟩ := hrespects signal e w hstate
  cases h with
  | underWay underWay busy =>
      have hbusy := hrespected.busy busy
      cases (env.react signal e w).1 with
      | resume =>
          have hopen := Stage.settled?_of_underWay underWay
          exact of_steps (Run.Steps.of_resume r _ hopen) hbusy
      | interrupt i =>
          show Occupied (r.breakOff _ i).1 (r.breakOff _ i).2
          rw [Run.breakOff_of_underWay underWay]
          exact of_close r _ _
  | closed settled rest =>
      obtain ⟨ending, hproceed, -⟩ := Run.proceed_of_settled settled (env.react signal e w).2.1
        (env.react signal e w).1
      rw [hproceed]
      exact .ended (hrespected.rest rest)

end Occupied

def Graph.announcement (g : Graph) : Signal :=
  .event (.beforeRun g.nodes.length g.edges.length)

/-- A run as it is announced when a call of the executor is granted. -/
def Run.announced (g : Graph) (e : Executor) : Run :=
  ⟨g, ⟨e.clock + 1⟩, [], .completed, .opened⟩

namespace Environment

variable {ω : Type}

/-- A call of an idle executor goes on as the surroundings reply to its announcement. -/
theorem run_of_idle {env : Environment ω} {g : Graph} {e e' : Executor} {w w' : ω}
    {reply : Reply} (hidle : e.executing = false)
    (hreply : env.react g.announcement e.begin.readClock.2 w = (reply, e', w')) :
    env.run g e w = env.drive ((Run.announced g e).proceed e' reply).1 w'
      ((Run.announced g e).proceed e' reply).2 := by
  have hdrive : env.run g e w
      = env.drive e.begin.readClock.2 w (.waits g.announcement (.announced g e)) := by
    unfold run
    rw [Run.start_of_idle g hidle]
    rfl
  rw [hdrive, drive, hreply]

variable {env : Environment ω} {P : ω → Prop} (hrespects : env.Respects P) {g : Graph}
  {e e' : Executor} (hidle : e.executing = false) {w w' : ω} (hw : P w)
include hrespects hidle hw

/-- A run that is let go on after its announcement leaves the executor at rest, however it
ends. -/
theorem Respects.atRest
    (hreply : env.react g.announcement e.begin.readClock.2 w = (.resume, e', w')) :
    (env.run g e w).2.1.AtRest := by
  obtain ⟨hrespected, hkept⟩ := hrespects g.announcement e.begin.readClock.2 w hw
  rw [hreply] at hrespected hkept
  have hstart : Occupied ((Run.announced g e).resume e').1 ((Run.announced g e).resume e').2 :=
    .of_steps (.of_resume _ e' rfl) (hrespected.busy rfl)
  have hend := env.drive_keeps (P := fun e w t => Occupied e t ∧ P w)
    (fun signal r e w h => ⟨h.1.step hrespects h.2, (hrespects signal e w h.2).2⟩) _ _ _
    ⟨hstart, hkept⟩
  rw [run_of_idle hidle hreply]
  cases hend.1 with
  | ended rest => exact rest

/-- A run that is broken off at its announcement ends at once and leaves the executor
busy. -/
theorem Respects.busy {i : Interrupt}
    (hreply : env.react g.announcement e.begin.readClock.2 w = (.interrupt i, e', w')) :
    (env.run g e w).1 = .broken i ∧ (env.run g e w).2.1.executing = true := by
  obtain ⟨hrespected, -⟩ := hrespects g.announcement e.begin.readClock.2 w hw
  rw [hreply] at hrespected
  have hends : env.run g e w = (.broken i, e', w') :=
    (run_of_idle hidle hreply).trans (drive.eq_1 ..)
  rw [hends]
  exact ⟨rfl, hrespected.busy rfl⟩

end Environment

/-! ## Hooks -/

def HookAction.breaksOff : HookAction → Bool
  | .interrupt _ => true
  | _ => false

namespace Watched

variable {σ : Type}

/-- No hook breaks a run off when it is announced. -/
def Patient (w : Watched σ) : Prop :=
  ∀ hook ∈ w.hooks, hook.event = "before_run" → hook.action.breaksOff = false

/-- What hooks give that respect the executor and stay patient. A busy executor shows that a
run is in progress; when it was just announced, it is let go on. -/
structure Heeds (announced : Prop) (e : Executor) (answer : CallEnding × Executor × Watched σ) :
    Prop where
  executor : e.Respected answer.2.1
  state : answer.2.2.Patient
  goesOn : announced → e.executing = true → ∀ i, answer.1 ≠ .interrupted i

theorem Patient.seen {w : Watched σ} (h : w.Patient) {place : Nat} {hook : Hook}
    (hplace : w.hooks[place]? = some hook) :
    Patient { w with hooks := w.hooks.set place { hook with seen := hook.seen + 1 } } := by
  intro other hother
  rcases List.mem_or_eq_of_mem_set hother with hold | rfl
  · exact h other hold
  · exact h hook (List.mem_of_getElem? hplace)

section

variable {nested : Nested σ} (hnested : ∀ e w, Patient w → Heeds True e (nested e w))
include hnested

theorem Patient.act {w : Watched σ} (h : w.Patient) {announced : Prop} {action : HookAction}
    (haction : announced → action.breaksOff = false) (e : Executor) :
    Heeds announced e (Watched.act nested action e w) := by
  cases action with
  | fail | cancelSoon | nestedSync => exact ⟨.refl e, h, fun _ _ => nofun⟩
  | cancel => exact ⟨.cancel e, h, fun _ _ => nofun⟩
  | clearLogs => exact ⟨.clearLogs e, h, fun _ _ => nofun⟩
  | nested =>
      obtain ⟨hexecutor, hstate, hgoesOn⟩ := hnested e w h
      exact ⟨hexecutor, hstate, fun _ => hgoesOn trivial⟩
  | interrupt i => exact ⟨.refl e, h, fun hannounced => nomatch haction hannounced⟩

theorem Patient.callHook {w : Watched σ} (h : w.Patient) (event : Event) (place : Nat)
    (e : Executor) :
    Heeds (event.name = "before_run") e (Watched.callHook nested event place e w) := by
  unfold Watched.callHook
  split
  · exact ⟨.refl e, h, fun _ _ => nofun⟩
  · rename_i hook hplace
    have hseen := h.seen hplace
    split
    · rename_i hevent
      dsimp only
      split
      · refine Patient.act hnested hseen (fun hannounced => ?_) e
        exact h hook (List.mem_of_getElem? hplace) (hevent.trans hannounced)
      · exact ⟨.refl e, hseen, fun _ _ => nofun⟩
    · exact ⟨.refl e, h, fun _ _ => nofun⟩

theorem Patient.callHooks (event : Event) :
    ∀ (places : List Nat) (e : Executor) {w : Watched σ},
    w.Patient → e.Respected (Watched.callHooks nested event e w places).2.1
      ∧ (Watched.callHooks nested event e w places).2.2.Patient
      ∧ (event.name = "before_run" → e.executing = true →
          (Watched.callHooks nested event e w places).1 = .resume)
  | [], e, _, h => ⟨.refl e, h, fun _ _ => rfl⟩
  | place :: places, e, w, h => by
      obtain ⟨hexecutor, hstate, hgoesOn⟩ := Patient.callHook hnested h event place e
      unfold Watched.callHooks
      split
      · rename_i e' w' hcall
        rw [hcall] at hexecutor hstate
        obtain ⟨hexecutor', hstate', hreply⟩ := Patient.callHooks event places e' hstate
        exact ⟨hexecutor.trans hexecutor', hstate',
          fun hannounced hbusy => hreply hannounced (hexecutor.busy hbusy)⟩
      · rename_i hcall
        rw [hcall] at hexecutor hstate
        exact ⟨hexecutor, hstate, fun _ _ => rfl⟩
      · rename_i i e' w' hcall
        rw [hcall] at hexecutor hstate hgoesOn
        exact ⟨hexecutor, hstate, fun hannounced hbusy => absurd rfl (hgoesOn hannounced hbusy i)⟩

theorem respects_environment : (environment nested).Respects Patient := by
  intro signal e w h
  cases signal with
  | event event =>
      have hseen : Patient { w with trace := w.trace ++ [event] } := h
      obtain ⟨hexecutor, hstate, -⟩ := Patient.callHooks hnested event _ e hseen
      exact ⟨hexecutor, hstate⟩
  | pause =>
      unfold environment
      dsimp only
      split
      · exact ⟨.cancel e, h⟩
      · exact ⟨.refl e, h⟩

/-- Under patient hooks a run leaves an idle executor at rest and stays patient itself. -/
theorem run_patient (g : Graph) {w : Watched σ} (h : w.Patient) {e : Executor}
    (hidle : e.executing = false) : ((environment nested).run g e w).2.1.AtRest := by
  have hseen : Patient
      { w with trace := w.trace ++ [.beforeRun g.nodes.length g.edges.length] } := h
  obtain ⟨-, -, hreply⟩ := Patient.callHooks hnested (.beforeRun g.nodes.length g.edges.length)
    (List.range w.hooks.length) e.begin.readClock.2 hseen
  exact (respects_environment hnested).atRest hidle h (Prod.ext (hreply rfl rfl) rfl)

/-- A run under patient hooks heeds the executor as a whole, so it can be nested in another
one. -/
theorem run_heeds (g : Graph) {w : Watched σ} (h : w.Patient) (e : Executor) :
    e.Respected ((environment nested).run g e w).2.1
      ∧ ((environment nested).run g e w).2.2.Patient := by
  refine ⟨⟨fun hbusy => ?_, fun hrest => run_patient hnested g h hrest.executing⟩, ?_⟩
  · rw [Environment.run_of_busy _ g hbusy]
    exact hbusy
  · exact Environment.drive_invariant (P := Patient) _
      (fun signal e w h => (respects_environment hnested signal e w h).2) _ w _ h

end

theorem ofPlan_heeds (g : Graph) : ∀ (depth : Nat), ∃ nested : Nested σ,
    (∀ e w, Patient w → Heeds True e (nested e w)) ∧ ofPlan g depth = environment nested
  | 0 => ⟨ignoreNested, fun e _ h => ⟨.refl e, h, fun _ _ => nofun⟩, rfl⟩
  | depth + 1 => by
      obtain ⟨nested, hnested, hsame⟩ := ofPlan_heeds g depth
      refine ⟨_, fun e w h => ?_, rfl⟩
      obtain ⟨hexecutor, hstate⟩ := run_heeds hnested g h e
      -- Within a run the nested one is refused, so it is not there that it can break off.
      have hbusy : e.executing = true →
          ((environment nested).run g e w).1 = .returned ⟨.busy, [], e.logs, none, none⟩ := by
        intro hbusy
        rw [Environment.run_of_busy _ g hbusy]
      rw [hsame]
      generalize (environment nested).run g e w = answer at hexecutor hstate hbusy ⊢
      obtain ⟨ending, e', w'⟩ := answer
      cases ending with
      | returned result => exact ⟨hexecutor, hstate, fun _ _ => nofun⟩
      | broken i => exact ⟨hexecutor, hstate, fun _ busy => nomatch hbusy busy⟩

end Watched

/-! ## Runs that leave the executor free -/

namespace Executor

/-- The executor is at rest and refuses no call, whatever is to be run in whatever
surroundings. -/
def Free (e : Executor) : Prop :=
  e.AtRest ∧
    ∀ {ω : Type} (env : Environment ω) (g : Graph) (w : ω), (env.run g e w).1.refused = false

/-- The executor refuses every call for good: none makes any difference to it. -/
def Stuck (e : Executor) : Prop :=
  ∀ {ω : Type} (env : Environment ω) (g : Graph) (w : ω),
    env.run g e w = (.returned ⟨.busy, [], e.logs, none, none⟩, e, w)

theorem AtRest.free {e : Executor} (h : e.AtRest) : e.Free :=
  ⟨h, fun env g w => (env.refused_run g e w).trans h.executing⟩

theorem stuck_of_busy {e : Executor} (hbusy : e.executing = true) : e.Stuck :=
  fun env g w => env.run_of_busy g hbusy w

end Executor

namespace Graph

/-- **However a run ends, it leaves the executor free, unless it is broken off while it is
announced**: in any surroundings that respect the executor, whether the run returns a result
of any status or is broken off at any signal after its announcement, its end included. Broken
off at the announcement it leaves the executor stuck. Hooks may do all that hooks can do, in
runs nested to any depth, as long as none of them breaks off at the announcement. -/
theorem free_after_run (g : Graph) {e : Executor} (hidle : e.executing = false) :
    (∀ {ω : Type} {env : Environment ω} {P : ω → Prop} {w w' : ω} {reply : Reply} {e' : Executor},
        env.Respects P → P w →
        env.react g.announcement e.begin.readClock.2 w = (reply, e', w') →
          (reply = .resume → (env.run g e w).2.1.Free)
            ∧ ∀ i, reply = .interrupt i →
                (env.run g e w).1 = .broken i ∧ (env.run g e w).2.1.Stuck)
      ∧ ∀ {σ : Type} {w : Watched σ}, w.Patient → (Watched.run g e w).2.1.Free := by
  refine ⟨fun hrespects hw hreply => ⟨?_, ?_⟩, fun {σ w} h => ?_⟩
  · rintro rfl
    exact (hrespects.atRest hidle hw hreply).free
  · rintro i rfl
    obtain ⟨hbroken, hbusy⟩ := hrespects.busy hidle hw hreply
    exact ⟨hbroken, Executor.stuck_of_busy hbusy⟩
  · obtain ⟨nested, hnested, hsame⟩ := Watched.ofPlan_heeds (σ := σ) g w.hooks.length
    have hrest := Watched.run_patient hnested g h hidle
    rw [← hsame] at hrest
    exact hrest.free

/-- Hooks that nest a run, ask for a cancellation and break off at the end, surroundings that
do nothing, and surroundings that break off at once. -/
theorem free_after_run_of_two_nodes :
    let first : Node := ⟨"first", .start, .origin, "Start", some (.start (.record []))⟩
    let last : Node := ⟨"last", .finish, .origin, "End", some (.finish (.text "End"))⟩
    let g : Graph := ⟨[first, last], [⟨"edge", "first", "last", .null, .null, .null, true⟩]⟩
    let e := Executor.idle (some 1) 0
    let hooks : List Hook := [⟨"before_run", 1, .nested, 0⟩, ⟨"log", 1, .cancel, 0⟩,
      ⟨"after_run", 1, .interrupt .cancelled, 0⟩]
    let breaker : Environment Unit := ⟨fun _ e w => (.interrupt .cancelled, e, w)⟩
    (Watched.run g e (.ofHooks hooks ())).2.1.Free ∧ (Environment.inert.run g e ()).2.1.Free
      ∧ (breaker.run g e ()).1 = .broken .cancelled ∧ (breaker.run g e ()).2.1.Stuck := by
  intro first last g e hooks breaker
  obtain ⟨henv, hhooks⟩ := g.free_after_run (e := e) rfl
  have hpatient : (Watched.ofHooks hooks ()).Patient := by
    show ∀ hook ∈ hooks, _
    decide
  have hinert : Environment.inert.Respects fun _ => True := fun _ e _ _ => ⟨.refl e, trivial⟩
  have hbreaker : breaker.Respects fun _ => True := fun _ e _ _ => ⟨.refl e, trivial⟩
  obtain ⟨hfree, -⟩ := henv hinert trivial rfl
  obtain ⟨-, hbroken⟩ := henv hbreaker trivial rfl
  exact ⟨hhooks hpatient, hfree rfl, hbroken .cancelled rfl⟩

end Graph
end Workflow
