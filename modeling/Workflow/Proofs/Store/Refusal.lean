import Workflow.Proofs.Run.Course
import Workflow.Proofs.Store.Verdict

/-!
# Requests for a run during a run

A store that is asked for a run while another one has its executor refuses. But a refusal is
a result, and a store settles it like any other one: it takes the place of the last run, and
since it carries the log of the run in progress, a warning is posted whenever there is an
error in this log. The archive, the executor and with it the log and the run in progress, the
graph and all else stay as they are (`Store.refused`, `Store.executeWatched_of_busy`).

At which moments a request is refused is a matter of the run: the executor is busy at all its
signals but the announcement of its end (`Turn.Busy`). So however often a store is asked at
these signals, the run goes as if it was not asked at all (`Environment.run_asking`).
-/

namespace Workflow

/-- What a request for a run gives that is refused. -/
def RunResult.refusal (logs : List LogEntry) : RunResult := ⟨.busy, [], logs, none, none⟩

namespace Store

/-! ## One request -/

/-- What a refusal makes a store warn of: the errors in the log of the run in progress. -/
def refusalWarning? (s : Store) : Option String :=
  if 0 < (RunResult.refusal s.executor.logs).errorCount then
    some s!"Workflow finished with {(RunResult.refusal s.executor.logs).errorCount} error(s)."
  else none

/-- The store after a request for a run was refused. -/
def refused (s : Store) : Store :=
  { s with
    lastRun := some (.refusal s.executor.logs)
    notices := s.refusalWarning?.elim s.notices fun message =>
      s.notices.map (·.notify .warning message) }

/-- What is raised at the warning about a refusal, if one is posted. -/
def refusalRaises? (s : Store) : Option String :=
  if s.refusalWarning?.isSome ∧ s.notices.isSome then s.noticeListeners.findSome? id else none

/-- What is answered to a refused request: the refusal, or what a listener raises instead. -/
def refusalAnswer (s : Store) : Except Failure RunResult :=
  s.refusalRaises?.elim (.ok (.refusal s.executor.logs)) fun raised => .error (.listener raised)

theorem notice?_refusal (s : Store) :
    (RunResult.refusal s.executor.logs).notice? = s.refusalWarning?.map (.warning, ·) := by
  unfold RunResult.notice? refusalWarning?
  rw [if_neg nofun]
  split
  · rfl
  · exact if_neg nofun

theorem settle_refusal (s : Store) :
    s.settle (.refusal s.executor.logs) = (s.refusalAnswer.map fun _ => (), s.refused) := by
  have hrecord : ∀ t : Store, t.record (.refusal s.executor.logs) = (.ok (), t) := by
    intro t
    unfold record
    split
    · rfl
    · exact if_pos rfl
  unfold settle
  rw [hrecord]
  dsimp only
  rw [notice?_refusal]
  unfold refusalAnswer refusalRaises? refused
  cases hwarning : s.refusalWarning? with
  | none => rfl
  | some message =>
      unfold notify
      dsimp only [Option.map_some]
      cases hnotices : s.notices with
      | none => rfl
      | some q =>
          dsimp only
          cases s.noticeListeners.findSome? id <;> rfl

/-- **A request that finds the executor busy** is refused, under whatever hooks it is
made. -/
theorem executeWatched_of_busy {s : Store} (hbusy : s.executor.executing = true)
    (w : Watched Unit) : s.executeWatched w = (s.refusalAnswer, w.nested, s.refused) := by
  have hanswer : (s.refusalAnswer.map fun _ => ()).map (fun _ => RunResult.refusal s.executor.logs)
      = s.refusalAnswer := by
    unfold refusalAnswer
    cases s.refusalRaises? <;> rfl
  unfold executeWatched
  dsimp only
  rw [Environment.run_of_busy _ _ hbusy]
  show (((s.settle (.refusal _)).1.map fun _ => _), w.nested, (s.settle (.refusal _)).2) = _
  rw [settle_refusal]
  exact congrArg (·, w.nested, s.refused) hanswer

/-- A hook that asks for a run during a run gets the refusal, or it fails with what is raised
at the warning. -/
theorem nestedRun_of_busy {s : Store} (hbusy : s.executor.executing = true) (depth : Nat)
    {w : Watched Store} (hw : { w.state with executor := s.executor } = s) :
    nestedRun (depth + 1) s.executor w = s.refusalRaises?.elim
      (.returned, s.executor,
        Watched.addNested { w with state := s.refused } (.ran (.refusal s.executor.logs)))
      fun _ => (.raised, s.executor, { w with state := s.refused }) := by
  unfold nestedRun
  rw [Environment.run_of_busy _ _ hbusy]
  dsimp only
  rw [hw, ← RunResult.refusal, settle_refusal]
  unfold refusalAnswer
  cases s.refusalRaises? <;> rfl

/-- The notices stay as they are if there is no error in the log of the run in progress, and
only then. -/
theorem notices_refused (s : Store) :
    s.refused.notices = s.notices
      ↔ s.notices = none ∨ ∀ entry ∈ s.executor.logs, entry.status ≠ .error := by
  have hcount : 0 < (RunResult.refusal s.executor.logs).errorCount
      ↔ ¬ ∀ entry ∈ s.executor.logs, entry.status ≠ .error := by
    show 0 < s.executor.logs.countP _ ↔ _
    rw [List.countP_pos_iff]
    simp
  show s.refusalWarning?.elim s.notices _ = _ ↔ _
  unfold refusalWarning?
  by_cases herror : 0 < (RunResult.refusal s.executor.logs).errorCount
  · rw [if_pos herror]
    cases hnotices : s.notices with
    | none => exact iff_of_true rfl (.inl rfl)
    | some q =>
        refine iff_of_false (fun hsame => ?_) (not_or_intro nofun (hcount.mp herror))
        have hissued := congrArg NoticeQueue.issued (Option.some.inj hsame)
        exact Nat.succ_ne_self _ hissued
  · rw [if_neg herror]
    exact iff_of_true rfl (.inr (not_not.mp fun h => herror (hcount.mpr h)))

end Store

/-! ## Requests at all moments of a run -/

/-- A request for a run: the store before it, what was answered, and the store after it. -/
structure RunRequest where
  before : Store
  answer : Except Failure RunResult
  after : Store

/-- A request that was refused. -/
structure RunRequest.Refused (request : RunRequest) : Prop where
  busy : request.before.executor.executing = true
  answer : request.answer = request.before.refusalAnswer
  after : request.after = request.before.refused

/-- A store that is asked for runs, with the requests up to now. -/
structure Asked where
  store : Store
  requests : List RunRequest

namespace Asked

def ask (a : Asked) : Asked :=
  let answer := a.store.execute []
  ⟨answer.2.2, a.requests ++ [⟨a.store, answer.1, answer.2.2⟩]⟩

/-- The store is asked so many times while a run stands still that has its executor. -/
def askedTimes (count : Nat) (e : Executor) (a : Asked) : Asked :=
  ask^[count] { a with store := { a.store with executor := e } }

/-- What is left of a store that is asked while other runs have its executor: all requests
were refused, and at most the last run, the notices and the executor are other ones. Without
an error in the log at any of the requests the notices are the same, too. -/
structure Spared (s : Store) (a : Asked) : Prop where
  refused : ∀ request ∈ a.requests, request.Refused
  quiet : (∀ request ∈ a.requests, ∀ entry ∈ request.before.executor.logs, entry.status ≠ .error) →
    a.store.notices = s.notices
  rest : { a.store with
    lastRun := s.lastRun, notices := s.notices, executor := s.executor } = s

variable {s : Store}

theorem Spared.unasked (s : Store) : Spared s ⟨s, []⟩ :=
  ⟨fun _ hrequest => absurd hrequest List.not_mem_nil, fun _ => rfl, rfl⟩

theorem Spared.ask {a : Asked} (h : Spared s a) (hbusy : a.store.executor.executing = true) :
    Spared s a.ask ∧ a.ask.store.executor = a.store.executor := by
  have hrefused : a.store.execute [] = (a.store.refusalAnswer, [], a.store.refused) :=
    Store.executeWatched_of_busy hbusy _
  unfold Asked.ask
  rw [hrefused]
  refine ⟨⟨fun request hrequest => ?_, fun hclean => ?_, h.rest⟩, rfl⟩
  · rcases List.mem_append.mp hrequest with hearlier | hnow
    · exact h.refused request hearlier
    · obtain rfl := List.mem_singleton.mp hnow
      exact ⟨hbusy, rfl, rfl⟩
  · have hnow := a.store.notices_refused.mpr
      (.inr (hclean _ (List.mem_append_right _ List.mem_cons_self)))
    have hearlier := h.quiet fun request hrequest =>
      hclean request (List.mem_append_left _ hrequest)
    exact hnow.trans hearlier

theorem Spared.askedTimes {a : Asked} (h : Spared s a) {e : Executor}
    (hbusy : e.executing = true) (count : Nat) :
    Spared s (a.askedTimes count e) ∧ (a.askedTimes count e).store.executor = e := by
  unfold Asked.askedTimes
  induction count with
  | zero => exact ⟨⟨h.refused, h.quiet, h.rest⟩, rfl⟩
  | succ count ih =>
      obtain ⟨hspared, hexecutor⟩ := ih
      rw [Function.iterate_succ_apply']
      obtain ⟨hspared', hsame⟩ := hspared.ask ((congrArg Executor.executing hexecutor).trans hbusy)
      exact ⟨hspared', hsame.trans hexecutor⟩

end Asked

namespace Environment

variable {ω : Type}

/-- Surroundings in which a store is asked for runs besides: so many times at each signal,
after what the surroundings do, but not when the end of the run is announced. -/
def asking (env : Environment ω) (count : Signal → Executor → ω → Nat) :
    Environment (ω × Asked) where
  react signal e w :=
    let answer := env.react signal e w.1
    if signal.ends then (answer.1, answer.2.1, answer.2.2, w.2)
    else
      let asked := w.2.askedTimes (count signal answer.2.1 answer.2.2) answer.2.1
      (answer.1, asked.store.executor, answer.2.2, asked)

end Environment

/-- A run that stands at a signal has the executor, or it was closed and announces its
end. -/
inductive Turn.Busy (e : Executor) : Turn → Prop
  | holds {signal : Signal} {r : Run} (open' : r.stage.settled? = none)
      (executing : e.executing = true) : Busy e (.waits signal r)
  | closed {signal : Signal} {r : Run} {ending : Ending} (settled : r.stage.settled? = some ending)
      (ends : signal.ends = true) : Busy e (.waits signal r)
  | ended {ending : Ending} : Busy e (.ends ending)

namespace Turn.Busy

theorem start (g : Graph) (e : Executor) :
    Turn.Busy (Run.start g e).1 (Run.start g e).2 := by
  cases hbusy : e.executing with
  | true =>
      rw [Run.start_of_busy g hbusy]
      exact .ended
  | false =>
      rw [Run.start_of_idle g hbusy]
      exact .holds rfl rfl

theorem of_steps {r : Run} {e : Executor} {next : Executor × Turn} (h : r.Steps e next)
    (hbusy : e.executing = true) : Turn.Busy next.1 next.2 := by
  cases h with
  | goesOn executing underWay status =>
      exact .holds (Stage.settled?_of_underWay underWay) (executing.trans hbusy)
  | closes => exact .closed rfl rfl

/-- **One step** of a run that stands at a signal, when the executor is as busy as it was. -/
theorem proceed {signal : Signal} {r : Run} {e e' : Executor}
    (h : Turn.Busy e (.waits signal r)) (hkept : e.executing = true → e'.executing = true)
    (reply : Reply) :
    Turn.Busy (r.proceed e' reply).1 (r.proceed e' reply).2 := by
  cases h with
  | closed settled ends =>
      obtain ⟨ending, hproceed, -⟩ := Run.proceed_of_settled settled e' reply
      rw [hproceed]
      exact .ended
  | holds hopen executing =>
      cases reply with
      | resume => exact of_steps (.of_resume r e' hopen) (hkept executing)
      | interrupt i =>
          show Turn.Busy (r.breakOff e' i).1 (r.breakOff e' i).2
          unfold Run.breakOff
          split
          · exact .ended
          · exact .ended
          · exact .closed rfl rfl

end Turn.Busy

namespace Environment

variable {ω : Type} {env : Environment ω} {P : ω → Prop} {s : Store}

/-- **One reaction** of surroundings in which a store is asked besides, while a run stands at
a signal: they do what they do without the requests, and these are refused. -/
theorem Respects.react_asking (hrespects : env.Respects P)
    (count : Signal → Executor → ω → Nat) {signal : Signal} {r : Run} {e : Executor}
    {w : ω × Asked} (hw : P w.1) (hspared : w.2.Spared s)
    (hbusy : Turn.Busy e (.waits signal r)) :
    ∃ asked, (env.asking count).react signal e w
        = ((env.react signal e w.1).1, (env.react signal e w.1).2.1,
          (env.react signal e w.1).2.2, asked)
      ∧ asked.Spared s := by
  obtain ⟨hrespected, -⟩ := hrespects signal e w.1 hw
  unfold asking
  dsimp only
  cases hends : signal.ends with
  | true => exact ⟨w.2, rfl, hspared⟩
  | false =>
      have hexecuting : e.executing = true := by
        cases hbusy with
        | holds hopen executing => exact executing
        | closed settled ends => exact absurd ends (ne_true_of_eq_false hends)
      obtain ⟨hspared', hexecutor⟩ := hspared.askedTimes (hrespected.busy hexecuting)
        (count signal (env.react signal e w.1).2.1 (env.react signal e w.1).2.2)
      exact ⟨_, congrArg (_, ·, _, _) hexecutor, hspared'⟩

/-- Where a run stands during which a store is asked: what is left of it is what is left of
the run when nobody asks, and it is going to end as this one. -/
structure Unmoved (env : Environment ω) (P : ω → Prop) (s : Store) (final : Ending × Executor × ω)
    (e : Executor) (w : ω × Asked) (t : Turn) : Prop where
  rest : env.drive e w.1 t = final
  state : P w.1
  spared : w.2.Spared s
  busy : t.Busy e

/-- **One step** of a run during which a store is asked. -/
theorem Unmoved.step (hrespects : env.Respects P) (count : Signal → Executor → ω → Nat)
    {final : Ending × Executor × ω} {signal : Signal} {r : Run} {e : Executor}
    {w : ω × Asked} (h : Unmoved env P s final e w (.waits signal r)) :
    Unmoved env P s final
      (r.proceed ((env.asking count).react signal e w).2.1
        ((env.asking count).react signal e w).1).1
      ((env.asking count).react signal e w).2.2
      (r.proceed ((env.asking count).react signal e w).2.1
        ((env.asking count).react signal e w).1).2 := by
  obtain ⟨asked, hreact, hspared⟩ := hrespects.react_asking count h.state h.spared h.busy
  obtain ⟨hrespected, hkept⟩ := hrespects signal e w.1 h.state
  rw [hreact]
  refine ⟨?_, hkept, hspared, h.busy.proceed hrespected.busy _⟩
  rw [← h.rest, drive]

/-- **A run during which a store is asked** goes as it goes when nobody asks. -/
theorem Respects.run_asking (hrespects : env.Respects P)
    (count : Signal → Executor → ω → Nat) (g : Graph) (e : Executor) {w : ω} (hw : P w)
    (s : Store) :
    ∃ asked, (env.asking count).run g e (w, ⟨s, []⟩)
        = ((env.run g e w).1, (env.run g e w).2.1, (env.run g e w).2.2, asked)
      ∧ asked.Spared s := by
  have hstart : Unmoved env P s (env.run g e w) (Run.start g e).1 (w, ⟨s, []⟩) (Run.start g e).2 :=
    ⟨rfl, hw, .unasked s, .start g e⟩
  have hend := (env.asking count).drive_keeps (P := Unmoved env P s (env.run g e w))
    (fun _ _ _ _ h => h.step hrespects count) _ _ _ hstart
  have hsame := hend.rest
  rw [drive] at hsame
  refine ⟨((env.asking count).run g e (w, ⟨s, []⟩)).2.2.2, ?_, hend.spared⟩
  rw [← hsame]
  rfl

end Environment

namespace Store

/-- **Requests for a run during a run.** A store whose executor is busy refuses a request,
whoever makes it, and the refusal takes the place of its last run; its notices stay as they
are exactly if it has none or the log of the run in progress has no error, and all else stays
as it is. So does the run in progress: asked any number of times at all signals of a run up
to the announcement of its end, in any surroundings that respect the executor, the store
refuses each time, and the run ends as it does when nobody asks. -/
theorem refused_during_run (s : Store) :
    (s.executor.executing = true →
      (∀ w, s.executeWatched w = (s.refusalAnswer, w.nested, s.refused))
        ∧ (∀ depth {w : Watched Store}, { w.state with executor := s.executor } = s →
            nestedRun (depth + 1) s.executor w = s.refusalRaises?.elim
              (.returned, s.executor,
                Watched.addNested { w with state := s.refused } (.ran (.refusal s.executor.logs)))
              fun _ => (.raised, s.executor, { w with state := s.refused }))
        ∧ s.refused = { s with
            lastRun := some (.refusal s.executor.logs), notices := s.refused.notices }
        ∧ (s.refused.notices = s.notices
            ↔ s.notices = none ∨ ∀ entry ∈ s.executor.logs, entry.status ≠ .error))
    ∧ ∀ {ω : Type} {env : Environment ω} {P : ω → Prop} (g : Graph) (e : Executor) {w : ω},
        env.Respects P → P w → ∀ count : Signal → Executor → ω → Nat,
          ∃ asked, (env.asking count).run g e (w, ⟨s, []⟩)
              = ((env.run g e w).1, (env.run g e w).2.1, (env.run g e w).2.2, asked)
            ∧ asked.Spared s := by
  refine ⟨fun hbusy => ⟨executeWatched_of_busy hbusy, fun depth w hw => ?_, rfl, s.notices_refused⟩,
    fun g e w hrespects hw count => hrespects.run_asking count g e hw s⟩
  exact nestedRun_of_busy hbusy depth hw

/-- A store refuses while the run in progress has noted an error, and warns of it; another
one is asked at each signal of a run of two nodes. -/
theorem refused_during_run_of_two_nodes :
    let first : Node := ⟨"first", .start, .origin, "Start", some (.start (.record []))⟩
    let last : Node := ⟨"last", .finish, .origin, "End", some (.finish (.text "End"))⟩
    let g : Graph := ⟨[first, last], [⟨"edge", "first", "last", .null, .null, .null, true⟩]⟩
    let running := ((Executor.idle (some 1) 0).begin.noteNode first [] [] .error "Failed").2
    let s := { Store.plain (some .empty) 0 0 with executor := running }
    (s.execute []).1 = .ok (.refusal running.logs) ∧ (s.execute []).2.2.executor = running
      ∧ (s.execute []).2.2.notices ≠ s.notices
      ∧ ∃ asked, (Environment.inert.asking fun _ _ _ => 1).run g (.idle (some 1) 0) ((), ⟨s, []⟩)
          = (((g.run (.idle (some 1) 0)).1, (g.run (.idle (some 1) 0)).2, (), asked))
        ∧ asked.Spared s := by
  intro first last g running s
  obtain ⟨hasked, hduring⟩ := s.refused_during_run
  obtain ⟨hanswer, -, hsame, hnotices⟩ := hasked rfl
  have hrespects : Environment.inert.Respects fun _ => True := fun _ e _ _ => ⟨.refl e, trivial⟩
  have herror : ¬ (s.notices = none ∨ ∀ entry ∈ s.executor.logs, entry.status ≠ .error) := by
    rintro (hnone | hclean)
    · cases hnone
    · exact hclean _ List.mem_cons_self rfl
  rw [show s.execute [] = _ from hanswer _]
  exact ⟨rfl, congrArg Store.executor hsame, fun h => herror (hnotices.mp h),
    hduring g (.idle (some 1) 0) hrespects trivial fun _ _ _ => 1⟩

end Store
end Workflow
