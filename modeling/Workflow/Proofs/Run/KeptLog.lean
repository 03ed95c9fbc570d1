import Workflow.Proofs.Run.Capacity

/-!
# What a log keeps

Listeners may empty the log, cancel the run and break it off, at any signal. As long as they
do not look at the log, all they do is the same whatever the capacity of the executor, and so
is the sequence of entries appended since the log was emptied last (`sinceCleared`). The log
is what is kept of this sequence (`Logged`, and `Logged.step` for one step).

The headline is `Graph.run_keeps_last`.
-/

namespace Workflow

/-! ## What is appended -/

/-- A signal, and whether the log was emptied at it. -/
abbrev Mark := Signal × Bool

/-- The entries appended since the log was emptied last. An entry is in the log already when
it is announced. -/
def sinceCleared (history : List Mark) : List LogEntry :=
  history.foldl (fun appended mark => if mark.2 then [] else appended ++ mark.1.entries) []

theorem sinceCleared_snoc (history : List Mark) (signal : Signal) (cleared : Bool) :
    sinceCleared (history ++ [(signal, cleared)])
      = if cleared then [] else sinceCleared history ++ signal.entries := by
  rw [sinceCleared, List.foldl_append]
  rfl

/-- The result that a run drew up when it announced its end: its log held what was kept of
all that had been appended since it was emptied last. -/
def Tallies (e : Executor) (history : List Mark) (signal : Signal) (result : RunResult) :
    Prop :=
  signal = .event (.afterRun result.status result.visited result.logs.length)
    ∧ result.logs = e.keep (sinceCleared history)

/-- The log of a run up to where the run stands. -/
inductive Logged (base : Executor) (history : List Mark) (e : Executor) : Turn → Prop
  | runs {signal : Signal} {r : Run} (capacity : e.capacity = base.capacity)
      (logs : e.logs = base.keep (sinceCleared history ++ signal.entries))
      (told : ∀ result, r.stage.settled? = some (.returned result) →
        Tallies base history signal result) :
      Logged base history e (.waits signal r)
  | ended {ending : Ending} (capacity : e.capacity = base.capacity)
      (logs : e.logs = base.keep (sinceCleared history))
      (told : ∀ result, ending = .returned result →
        ∃ before signal cleared, history = before ++ [(signal, cleared)]
          ∧ Tallies base before signal result) :
      Logged base history e (.ends ending)

/-- The surroundings empty the log at certain signals, and else leave the log to the run. -/
def Environment.Clears {ω : Type} (env : Environment ω)
    (clears : Signal → Executor → ω → Bool) :
    Prop :=
  ∀ signal e w, (env.react signal e w).2.1.capacity = e.capacity
    ∧ (env.react signal e w).2.1.logs = if clears signal e w then [] else e.logs

namespace Logged

variable {base : Executor} {history : List Mark} {e : Executor}

theorem start {g : Graph} (hidle : e.executing = false) :
    Logged e [] (Run.start g e).1 (Run.start g e).2 := by
  rw [Run.start_of_idle g hidle]
  exact .runs rfl e.keep_nil.symm nofun

theorem of_extends {next : Executor × Turn} (h : Extends e next)
    (hcapacity : e.capacity = base.capacity)
    (hlogs : e.logs = base.keep (sinceCleared history)) :
    Logged base history next.1 next.2 := by
  cases h with
  | goesOn capacity logs hopen =>
      rw [hlogs, Executor.keep_congr hcapacity, Executor.keep_keep_append] at logs
      refine .runs (capacity.trans hcapacity) logs fun result hsettled => ?_
      rw [hsettled] at hopen
      cases hopen
  | @closes e' r ending capacity logs told =>
      refine .runs (capacity.trans hcapacity) (logs.trans (hlogs.trans ?_)) ?_
      · exact congrArg base.keep (List.append_nil _).symm
      · intro result hsettled
        obtain ⟨hstatus, hvisited, hresult⟩ := told result (Option.some.inj hsettled)
        refine ⟨?_, hresult.trans hlogs⟩
        rw [hstatus, hvisited, hresult, logs]

theorem of_breakOff (hcapacity : e.capacity = base.capacity)
    (hlogs : e.logs = base.keep (sinceCleared history)) (r : Run) (i : Interrupt) :
    Logged base history (r.breakOff e i).1 (r.breakOff e i).2 := by
  unfold Run.breakOff
  split
  · exact .ended hcapacity hlogs nofun
  · exact .ended hcapacity hlogs nofun
  · exact .runs hcapacity (hlogs.trans (congrArg base.keep (List.append_nil _).symm)) nofun

/-- **One step** of a run, from an executor whose log was emptied or left alone. -/
theorem step {signal : Signal} {r : Run} (h : Logged base history e (.waits signal r))
    {e' : Executor} {cleared : Bool} (hcapacity : e'.capacity = e.capacity)
    (hlogs : e'.logs = if cleared then [] else e.logs) (reply : Reply) :
    Logged base (history ++ [(signal, cleared)]) (r.proceed e' reply).1 (r.proceed e' reply).2 := by
  cases h with
  | runs capacity logs told =>
      have hcapacity' : e'.capacity = base.capacity := hcapacity.trans capacity
      have hlogs' : e'.logs = base.keep (sinceCleared (history ++ [(signal, cleared)])) := by
        rw [hlogs, sinceCleared_snoc]
        split
        · exact base.keep_nil.symm
        · exact logs
      cases reply with
      | interrupt i => exact of_breakOff hcapacity' hlogs' r i
      | resume =>
          show Logged base _ (r.resume e').1 (r.resume e').2
          cases hsettled : r.stage.settled? with
          | none =>
              have hkept : e'.keep e'.logs = e'.logs := by
                rw [hlogs', Executor.keep_congr hcapacity', Executor.keep_keep]
              exact of_extends (.of_resume hkept r hsettled) hcapacity' hlogs'
          | some ending =>
              rw [Run.resume_of_settled hsettled]
              refine .ended hcapacity' hlogs' fun result hending => ?_
              obtain rfl := hending
              exact ⟨history, signal, cleared, rfl, told result hsettled⟩

end Logged

/-- The signals of a run, with marks where the log was emptied. -/
def Environment.marks {ω : Type} (env : Environment ω)
    (clears : Signal → Executor → ω → Bool) (g : Graph) (e : Executor) (w : ω) : List Mark :=
  ((env.noting fun signal e w => (signal, clears signal e w)).run g e (w, [])).2.2.2

/-- The log of a run in surroundings that empty it at certain signals. -/
theorem Environment.Clears.logged {ω : Type} {env : Environment ω}
    {clears : Signal → Executor → ω → Bool} (hclears : env.Clears clears) (g : Graph)
    {e : Executor} (hidle : e.executing = false) (w : ω) :
    Logged e (env.marks clears g e w) (env.run g e w).2.1 (.ends (env.run g e w).1) := by
  let note : Signal → Executor → ω → Mark := fun signal e w => (signal, clears signal e w)
  have hends := (env.noting note).drive_keeps (P := fun e' w t => Logged e w.2 e' t)
    (fun signal r e' w h => h.step (hclears signal e' w.1).1 (hclears signal e' w.1).2 _) _ (w, [])
    _ (.start (g := g) hidle)
  rw [env.run_noting note g e w []]
  exact hends

/-! ## Listeners -/

/-- What listeners do together at a signal. -/
structure Deed where
  clears : Bool
  cancels : Bool
  reply : Reply
  deriving DecidableEq, Repr

def Deed.done (d : Deed) (e : Executor) : Executor :=
  let e := if d.cancels then e.cancel else e
  if d.clears then e.clearLogs else e

/-- Listeners with a state of their own. They see the signals of a run, but neither its log
nor, at its end, how many entries were kept. -/
structure Listeners (ω : Type) where
  act : Signal → ω → Deed × ω

/-- The signal without the number of entries that were kept. -/
def Signal.uncounted (signal : Signal) : Signal := signal.capped 0

theorem uncounted_capped (bound : Nat) (signal : Signal) :
    (signal.capped bound).uncounted = signal.uncounted := by
  cases signal with
  | pause => rfl
  | event event =>
      cases event with
      | afterRun status visited count =>
          exact congrArg (fun n => Signal.event (.afterRun status visited n))
            ((Nat.zero_min _).trans (Nat.zero_min _).symm)
      | _ => rfl

theorem entries_capped (bound : Nat) (signal : Signal) :
    (signal.capped bound).entries = signal.entries := by
  cases signal with
  | pause => rfl
  | event event => cases event <;> rfl

theorem Executor.logs_cancel (e : Executor) : e.cancel.logs = e.logs := by
  unfold cancel
  split <;> rfl

theorem Executor.capacity_cancel (e : Executor) : e.cancel.capacity = e.capacity := by
  unfold cancel
  split <;> rfl

theorem Deed.logs_done (d : Deed) (e : Executor) :
    (d.done e).logs = if d.clears then [] else e.logs := by
  unfold Deed.done
  cases d.cancels <;> cases d.clears
  · rfl
  · rfl
  · exact e.logs_cancel
  · rfl

theorem Deed.capacity_done (d : Deed) (e : Executor) : (d.done e).capacity = e.capacity := by
  unfold Deed.done
  cases d.cancels <;> cases d.clears
  · rfl
  · rfl
  · exact e.capacity_cancel
  · exact e.capacity_cancel

theorem Deed.done_capped (bound : Nat) (d : Deed) (e : Executor) :
    d.done (e.capped bound) = (d.done e).capped bound := by
  unfold Deed.done
  dsimp only
  rw [e.cancel_capped bound]
  cases d.cancels <;> cases d.clears
  · rfl
  · exact e.clearLogs_capped bound
  · rfl
  · exact e.cancel.clearLogs_capped bound

def cappedMark (bound : Nat) (mark : Mark) : Mark := (mark.1.capped bound, mark.2)

theorem sinceCleared_capped (bound : Nat) (history : List Mark) :
    sinceCleared (history.map (cappedMark bound)) = sinceCleared history := by
  rw [sinceCleared, List.foldl_map]
  unfold cappedMark
  simp only [entries_capped]
  rfl

theorem Environment.run_of_capacity {ω : Type} (env : Environment ω) (g : Graph)
    {e : Executor} (hidle : e.executing = false) (bound : Nat) (w : ω) :
    env.run g { e with capacity := some bound } w
      = env.run g (({ e with capacity := none } : Executor).capped bound) w := by
  unfold run
  rw [Run.start_of_idle (e := { e with capacity := some bound }) g hidle,
    Run.start_of_idle (e := ({ e with capacity := none } : Executor).capped bound) g hidle]
  rfl

namespace Listeners

variable {ω : Type} (l : Listeners ω)

def environment : Environment ω where
  react signal e w :=
    let answer := l.act signal.uncounted w
    (answer.1.reply, answer.1.done e, answer.2)

/-- Whether the listeners empty the log at a signal. -/
def clears (signal : Signal) (_ : Executor) (w : ω) : Bool :=
  (l.act signal.uncounted w).1.clears

theorem clears_environment : l.environment.Clears l.clears := fun signal e w =>
  ⟨(l.act signal.uncounted w).1.capacity_done e, (l.act signal.uncounted w).1.logs_done e⟩

/-- Under a capacity listeners do what they do without, and so does the run. -/
theorem run_capped (g : Graph) {e : Executor} (hidle : e.executing = false) (bound : Nat)
    (w : ω) :
    let free := l.environment.run g { e with capacity := none } w
    l.environment.run g { e with capacity := some bound } w
        = (free.1.capped bound, free.2.1.capped bound, free.2.2)
      ∧ l.environment.marks l.clears g { e with capacity := some bound } w
        = (l.environment.marks l.clears g { e with capacity := none } w).map
            (cappedMark bound) := by
  let note : Signal → Executor → ω → Mark := fun signal e w => (signal, l.clears signal e w)
  let noted := l.environment.noting note
  have hreact : ∀ signal e (w : ω × List Mark),
      noted.react (signal.capped bound) (e.capped bound) (w.1, w.2.map (cappedMark bound))
        = ((noted.react signal e w).1, (noted.react signal e w).2.1.capped bound,
            (noted.react signal e w).2.2.1,
            (noted.react signal e w).2.2.2.map (cappedMark bound)) := by
    intro signal e w
    dsimp only [noted, note, Environment.noting, environment, clears]
    rw [uncounted_capped, Deed.done_capped, List.map_append]
    rfl
  have hrun := (noted.run_of_capacity g hidle bound (w, [])).trans
    (@Environment.run_capped bound _ _ noted noted (fun w => (w.1, w.2.map (cappedMark bound)))
      (fun _ => True)
      (fun signal e w hfree _ => ⟨hreact signal e w, (Deed.capacity_done _ e).trans hfree, trivial⟩)
      g { e with capacity := none } (w, []) rfl trivial)
  refine ⟨?_, congrArg (·.2.2.2) hrun⟩
  rw [l.environment.run_noting note g { e with capacity := some bound } w [],
    l.environment.run_noting note g { e with capacity := none } w [], hrun]
  rfl

end Listeners

/-! ## Hooks -/

namespace Watched

variable {σ : Type} {nested : Nested σ}

/-- A state watched by hooks whose trace was noted under a capacity. -/
def capped (bound : Nat) (w : Watched σ) : Watched σ :=
  { w with trace := w.trace.map (Event.capped bound) }

def cappedCall {α : Type} (bound : Nat) (answer : α × Executor × Watched σ) :
    α × Executor × Watched σ :=
  (answer.1, answer.2.1.capped bound, answer.2.2.capped bound)

/-- Hooks that ask for no other run, at an executor without a capacity. -/
structure Unbounded (e : Executor) (w : Watched σ) : Prop where
  free : e.capacity = none
  alone : ∀ hook ∈ w.hooks, hook.action ≠ .nested

theorem name_capped (bound : Nat) (event : Event) :
    (event.capped bound).name = event.name := by
  cases event <;> rfl

theorem act_capped (bound : Nat) {action : HookAction} (halone : action ≠ .nested)
    {e : Executor} {w : Watched σ} (h : Unbounded e w) :
    act nested action (e.capped bound) (w.capped bound) = cappedCall bound (act nested action e w)
      ∧ Unbounded (act nested action e w).2.1 (act nested action e w).2.2 := by
  cases action with
  | nested => exact absurd rfl halone
  | fail | interrupt _ => exact ⟨rfl, h⟩
  | cancelSoon | nestedSync => exact ⟨rfl, h.free, h.alone⟩
  | clearLogs =>
      have hclear := e.clearLogs_capped bound
      exact ⟨congrArg (fun e => (CallEnding.returned, e, w.capped bound)) hclear, h.free, h.alone⟩
  | cancel =>
      exact ⟨congrArg (fun e => (CallEnding.returned, e, w.capped bound)) (e.cancel_capped bound),
        e.capacity_cancel.trans h.free, h.alone⟩

theorem callHook_capped (bound : Nat) (event : Event) (place : Nat) {e : Executor}
    {w : Watched σ} (h : Unbounded e w) :
    callHook nested (event.capped bound) place (e.capped bound) (w.capped bound)
        = cappedCall bound (callHook nested event place e w)
      ∧ Unbounded (callHook nested event place e w).2.1 (callHook nested event place e w).2.2 := by
  cases hplace : w.hooks[place]? with
  | none =>
      rw [callHook_of_none nested hplace, callHook_of_none nested (w := w.capped bound) hplace]
      exact ⟨rfl, h⟩
  | some hook =>
      have hseen : Unbounded e
          { w with hooks := w.hooks.set place { hook with seen := hook.seen + 1 } } := by
        refine ⟨h.free, fun other hother => ?_⟩
        obtain ⟨old, hold, hsame⟩ := exists_action_of_mem_set hplace hother
        rw [← hsame]
        exact h.alone old hold
      rw [callHook_of_some nested hplace, callHook_of_some nested (w := w.capped bound) hplace,
        name_capped]
      split
      · split
        · exact act_capped bound (h.alone hook (List.mem_of_getElem? hplace)) hseen
        · exact ⟨rfl, hseen⟩
      · exact ⟨rfl, h⟩

theorem callHooks_capped (bound : Nat) (event : Event) : ∀ (places : List Nat) {e : Executor}
    {w : Watched σ}, Unbounded e w →
      callHooks nested (event.capped bound) (e.capped bound) (w.capped bound) places
          = cappedCall bound (callHooks nested event e w places)
        ∧ Unbounded (callHooks nested event e w places).2.1 (callHooks nested event e w places).2.2
  | [], _, _, h => ⟨rfl, h⟩
  | place :: places, e, w, h => by
      obtain ⟨hcall, hkept⟩ := @callHook_capped _ nested bound event place _ _ h
      unfold callHooks
      rw [hcall]
      generalize callHook nested event place e w = answer at hkept ⊢
      obtain ⟨ending, e', w'⟩ := answer
      cases ending with
      | returned => exact callHooks_capped bound event places hkept
      | raised | interrupted _ => exact ⟨rfl, hkept⟩

theorem react_pause (e : Executor) (w : Watched σ) :
    (environment nested).react .pause e w
      = if w.putOff.due then (.resume, e.cancel, { w with putOff := .nothing })
        else (.resume, e, w) := rfl

/-- A run under hooks that ask for no other run goes under a capacity as it goes without. -/
theorem run_capped (bound : Nat) (g : Graph) {e : Executor} (hfree : e.capacity = none)
    {w : Watched σ} (halone : ∀ hook ∈ w.hooks, hook.action ≠ .nested) :
    (environment nested).run g (e.capped bound) (w.capped bound)
      = (((environment nested).run g e w).1.capped bound,
          ((environment nested).run g e w).2.1.capped bound,
          ((environment nested).run g e w).2.2.capped bound) := by
  refine Environment.run_capped bound (P := fun w => ∀ hook ∈ w.hooks, hook.action ≠ .nested)
    (fun signal e w hfree halone => ?_) g hfree halone
  cases signal with
  | event event =>
      have hnoted : Unbounded e { w with trace := w.trace ++ [event] } := ⟨hfree, halone⟩
      obtain ⟨hcalls, hkept⟩ :=
        @callHooks_capped _ nested bound event (List.range w.hooks.length) _ _ hnoted
      refine ⟨?_, hkept.free, hkept.alone⟩
      unfold capped at hcalls
      rw [List.map_append] at hcalls
      exact hcalls
  | pause =>
      have hpause : Signal.capped bound .pause = .pause := rfl
      rw [hpause, react_pause, react_pause]
      by_cases hdue : w.putOff.due = true
      · have hdue' : (w.capped bound).putOff.due = true := hdue
        have hfree' : e.cancel.capacity = none := e.capacity_cancel.trans hfree
        rw [if_pos hdue, if_pos hdue', e.cancel_capped bound]
        exact ⟨rfl, hfree', halone⟩
      · have hdue' : ¬ (w.capped bound).putOff.due = true := hdue
        rw [if_neg hdue, if_neg hdue']
        exact ⟨rfl, hfree, halone⟩

end Watched

namespace Graph

/-- **What a log keeps under a capacity**: the last entries of those appended since it was
emptied last, in whatever surroundings that do nothing to the log but empty it. A step under
a capacity is the step without it, and if listeners do not look at the log, so are whole
runs: they end alike, with the same status and the same nodes executed, and append the same
entries. Hooks that ask for no other run are such listeners. -/
theorem run_keeps_last (g : Graph) {e : Executor} (hidle : e.executing = false) (bound : Nat) :
    (∀ {ω : Type} (env : Environment ω) (clears : Signal → Executor → ω → Bool) (w : ω),
      env.Clears clears →
        let marks := env.marks clears g { e with capacity := some bound } w
        let kept := env.run g { e with capacity := some bound } w
        kept.2.1.logs = keepLast bound (sinceCleared marks)
          ∧ ∀ result, kept.1 = .returned result → ∃ before cleared,
              marks = before
                  ++ [(.event (.afterRun result.status result.visited result.logs.length), cleared)]
                ∧ result.logs = keepLast bound (sinceCleared before))
    ∧ (∀ (r : Run) (e : Executor) (d : Deed), e.capacity = none →
      (r.capped bound).proceed (d.done (e.capped bound)) d.reply
        = cappedStep bound (r.proceed (d.done e) d.reply))
    ∧ (∀ {ω : Type} (l : Listeners ω) (w : ω),
      let free := l.environment.run g { e with capacity := none } w
      let marks := l.environment.marks l.clears g { e with capacity := none } w
      l.environment.Clears l.clears
        ∧ l.environment.run g { e with capacity := some bound } w
          = (free.1.capped bound, free.2.1.capped bound, free.2.2)
        ∧ l.environment.marks l.clears g { e with capacity := some bound } w
          = marks.map (cappedMark bound)
        ∧ sinceCleared (marks.map (cappedMark bound)) = sinceCleared marks)
    ∧ ∀ {σ : Type} (w : Watched σ), (∀ hook ∈ w.hooks, hook.action ≠ .nested) →
      let free := Watched.run g { e with capacity := none } w
      Watched.run g { e with capacity := some bound } (w.capped bound)
        = (free.1.capped bound, free.2.1.capped bound, free.2.2.capped bound) := by
  refine ⟨fun env clears w hclears => ?_, fun r e d hfree => ?_, fun l w => ?_, fun w halone => ?_⟩
  · intro marks kept
    have hlogged : Logged { e with capacity := some bound } marks kept.2.1 (.ends kept.1) :=
      hclears.logged g (e := { e with capacity := some bound }) hidle w
    generalize kept.1 = ending at hlogged ⊢
    cases hlogged with
    | ended hcapacity hlogs htold =>
        refine ⟨hlogs, fun result hresult => ?_⟩
        obtain ⟨before, signal, cleared, hmarks, rfl, htally⟩ := htold result hresult
        exact ⟨before, cleared, hmarks, htally⟩
  · rw [d.done_capped]
    exact r.proceed_capped bound ((d.capacity_done e).trans hfree) d.reply
  · obtain ⟨hrun, hmarks⟩ := l.run_capped g hidle bound w
    exact ⟨l.clears_environment, hrun, hmarks, sinceCleared_capped bound _⟩
  · obtain ⟨nested, hnested⟩ := Watched.exists_nested g w.hooks.length
    have hhooks : (w.capped bound).hooks = w.hooks := rfl
    have hrun := ((Watched.environment nested).run_of_capacity g hidle bound (w.capped bound)).trans
      (Watched.run_capped bound g (e := { e with capacity := none }) rfl halone)
    unfold Watched.run
    rw [hhooks, hnested, hrun]
    rfl

/-- A listener that empties the log in each pause, and a hook that empties it at the end, on
an executor that keeps one entry. -/
theorem run_keeps_last_of_two_nodes :
    let first : Node := ⟨"first", .start, .origin, "Start", some (.start (.record []))⟩
    let last : Node := ⟨"last", .finish, .origin, "End", some (.finish (.text "End"))⟩
    let g : Graph := ⟨[first, last], [⟨"edge", "first", "last", .null, .null, .null, true⟩]⟩
    let e := Executor.idle none 0
    let l : Listeners Unit := ⟨fun signal w => (⟨signal = .pause, false, .resume⟩, w)⟩
    let w : Watched Unit := .ofHooks [⟨"after_run", 1, .clearLogs, 0⟩] ()
    (l.environment.run g { e with capacity := some 1 } ()).2.1.logs
        = keepLast 1 (sinceCleared (l.environment.marks l.clears g { e with capacity := none } ()))
      ∧ (Watched.run g { e with capacity := some 1 } w).1
        = (Watched.run g { e with capacity := none } w).1.capped 1 := by
  intro first last g e l w
  obtain ⟨hkept, -, hlisteners, hhooks⟩ := run_keeps_last g (e := e) rfl 1
  obtain ⟨hclears, -, hmarks, hsame⟩ := hlisteners l ()
  refine ⟨?_, congrArg Prod.fst (hhooks w (by decide))⟩
  rw [← hsame, ← hmarks]
  exact (hkept l.environment l.clears () hclears).1

end Graph
end Workflow
