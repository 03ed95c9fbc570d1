import Workflow.Proofs.Run.Shared

/-!
# Callbacks that cannot be noticed

Callbacks may do much while a run is in progress: raise, or call the executor again, at every
event of the run and of the runs that they started themselves. As long as they neither cancel
the run nor break it off nor empty the log, its result is the one it gives alone. While the
run has the executor every other call is refused, so the executor is left alone; and when the
run has released the executor its result is settled, though other runs then write into the
same log (`Environment.run_of_leavesAlone`). Callbacks are given in two ways: as any
surroundings that do nothing but calls, and as hooks, which are called in turn and nest runs
of their own.

The headline is `Graph.run_under_callbacks`.
-/

namespace Workflow

/-! ## Surroundings that leave a busy executor alone -/

namespace Environment

variable {ω : Type} {env : Environment ω} {P : ω → Prop}

/-- As long as their state has a property, the surroundings let a run go on, and they do
nothing to the executor and keep the property while it is busy. -/
def LeavesAlone (env : Environment ω) (P : ω → Prop) : Prop :=
  ∀ signal e w, P w → (env.react signal e w).1 = .resume
    ∧ (e.executing = true → (env.react signal e w).2.1 = e ∧ P (env.react signal e w).2.2)

/-- Where a run stands whose surroundings leave it alone: it is going to end as it does
alone. -/
structure Undisturbed (P : ω → Prop) (alone : Ending) (e : Executor) (w : ω) (t : Turn) : Prop where
  state : ∀ {signal r}, t = .waits signal r → P w
  executing : t.holds = true → e.executing = true
  ending : (runOut (e, t)).1 = alone

/-- **One step** of a run that is left alone. The step after it was closed is the last one,
and the executor may be another one by then. -/
theorem Undisturbed.step (hleaves : env.LeavesAlone P) {alone : Ending} {e : Executor}
    {w : ω} {signal : Signal} {r : Run} (h : Undisturbed P alone e w (.waits signal r)) :
    Undisturbed P alone (r.proceed (env.react signal e w).2.1 (env.react signal e w).1).1
      (env.react signal e w).2.2 (r.proceed (env.react signal e w).2.1 (env.react signal e w).1).2
    := by
  obtain ⟨hreply, hbusy⟩ := hleaves signal e w (h.state rfl)
  rw [hreply]
  show Undisturbed P alone (r.resume _).1 _ (r.resume _).2
  cases hsettled : r.stage.settled? with
  | none =>
      have hexecuting := h.executing (Option.isNone_iff_eq_none.mpr hsettled)
      obtain ⟨hsame, hkept⟩ := hbusy hexecuting
      have hgrips := Grips.of_resume hexecuting r hsettled
      rw [hsame]
      refine ⟨fun _ => hkept, fun hholds => hgrips.executing.trans hholds, ?_⟩
      rw [← h.ending, runOut_waits]
  | some ending =>
      rw [Run.resume_of_settled hsettled]
      refine ⟨nofun, nofun, ?_⟩
      rw [← h.ending, runOut_ends, runOut_of_settled (t := .waits signal r) hsettled]

/-- **A run that is left alone** ends as it does alone, whatever becomes of the executor
after it. -/
theorem run_of_leavesAlone (hleaves : env.LeavesAlone P) (g : Graph) (e : Executor) {w : ω}
    (hw : P w) : (env.run g e w).1 = (g.run e).1 := by
  have hstart : Undisturbed P (g.run e).1 (Run.start g e).1 w (Run.start g e).2 := by
    refine ⟨fun _ => hw, ?_, rfl⟩
    cases hbusy : e.executing with
    | true =>
        rw [Run.start_of_busy g hbusy]
        nofun
    | false =>
        rw [Run.start_of_idle g hbusy]
        exact fun _ => rfl
  have hend := env.drive_keeps (P := Undisturbed P (g.run e).1)
    (fun _ _ _ _ h => h.step hleaves) _ w _ hstart
  have hending := hend.ending
  rw [runOut_ends] at hending
  exact hending

theorem run_of_busy (env : Environment ω) (g : Graph) {e : Executor}
    (hbusy : e.executing = true) (w : ω) :
    env.run g e w = (.returned ⟨.busy, [], e.logs, none, none⟩, e, w) := by
  unfold run
  rw [Run.start_of_busy g hbusy]
  exact drive.eq_1 ..

end Environment

theorem Graph.run_returned (g : Graph) (e : Executor) :
    ∃ result, (g.run e).1 = .returned result := by
  cases hbusy : e.executing with
  | true =>
      have hrefused := Environment.inert.run_of_busy g hbusy ()
      exact ⟨_, congrArg Prod.fst hrefused⟩
  | false =>
      obtain ⟨result, hresult, -⟩ := g.run_alone hbusy
      exact ⟨result, hresult⟩

/-! ## Surroundings that only make calls -/

namespace Shared

/-- Calls that have not the executor do not get at it while it is busy. -/
theorem executor_move_of_busy {s : Shared} (hbusy : s.executor.executing = true)
    (hnone : Call.NoneHolds s.calls) (m : Move) :
    (s.move m).executor = s.executor ∧ Call.NoneHolds (s.move m).calls := by
  cases m with
  | call plan =>
      show (s.called plan).executor = _ ∧ Call.NoneHolds (s.called plan).calls
      unfold called
      rw [Run.start_of_busy plan hbusy]
      exact ⟨rfl, List.forall_mem_append.mpr ⟨hnone, List.forall_mem_singleton.mpr rfl⟩⟩
  | resume place =>
      show ((s.calls[place]?).elim s (s.resumed place)).executor = _
        ∧ Call.NoneHolds ((s.calls[place]?).elim s (s.resumed place)).calls
      cases hplace : s.calls[place]? with
      | none => exact ⟨rfl, hnone⟩
      | some call =>
          obtain ⟨hsame, hstill⟩ :=
            Turn.resume_of_not_holds (hnone call (List.mem_of_getElem? hplace)) s.executor
          refine ⟨hsame, fun other hother => ?_⟩
          rcases List.mem_or_eq_of_mem_set hother with hold | rfl
          · exact hnone other hold
          · exact hstill

theorem executor_after_of_busy : ∀ (moves : List Move) {s : Shared},
    s.executor.executing = true → Call.NoneHolds s.calls →
      (s.after moves).executor = s.executor ∧ Call.NoneHolds (s.after moves).calls
  | [], _, _, hnone => ⟨rfl, hnone⟩
  | m :: moves, s, hbusy, hnone => by
      obtain ⟨hsame, hnone'⟩ := executor_move_of_busy hbusy hnone m
      obtain ⟨hrest, hnone''⟩ := executor_after_of_busy moves (hsame ▸ hbusy) hnone'
      exact ⟨hrest.trans hsame, hnone''⟩

end Shared

theorem Environment.OnlyCalls.leavesAlone {ω : Type} {env : Environment ω}
    {calls : ω → List Call} (h : env.OnlyCalls calls) :
    env.LeavesAlone fun w => Call.NoneHolds (calls w) := by
  intro signal e w hnone
  obtain ⟨hreply, moves, hmoves⟩ := h signal e w
  refine ⟨hreply, fun hbusy => ?_⟩
  have hkept := Shared.executor_after_of_busy moves (s := ⟨e, calls w⟩) hbusy hnone
  rw [hmoves] at hkept
  exact hkept

/-! ## Hooks -/

/-- Whether a hook does no more to a run than fail or ask for other runs. -/
def HookAction.onlyCalls : HookAction → Bool
  | .fail | .nested | .nestedSync => true
  | .cancel | .cancelSoon | .clearLogs | .interrupt _ => false

namespace Watched

variable {σ : Type}

/-- A state watched by hooks that do no more than fail or ask for other runs, with nothing
put off. -/
structure Harmless (w : Watched σ) : Prop where
  only : ∀ hook ∈ w.hooks, hook.action.onlyCalls = true
  due : w.putOff.due = false

def SameIfBusy (e e' : Executor) : Prop := e.executing = true → e' = e

theorem SameIfBusy.trans {e e' e'' : Executor} (h : SameIfBusy e e') (h' : SameIfBusy e' e'') :
    SameIfBusy e e'' := by
  intro hbusy
  obtain rfl := h hbusy
  exact h' hbusy

theorem Harmless.seen {w : Watched σ} (h : w.Harmless) {place : Nat} {hook : Hook}
    (hplace : w.hooks[place]? = some hook) :
    Harmless { w with hooks := w.hooks.set place { hook with seen := hook.seen + 1 } } := by
  refine ⟨fun other hother => ?_, h.due⟩
  obtain ⟨old, hold, hsame⟩ := exists_action_of_mem_set hplace hother
  rw [← hsame]
  exact h.only old hold

section

variable {nested : Nested σ}
  (hnested : ∀ e w, Harmless w → Obeys Harmless SameIfBusy e (nested e w))
include hnested

theorem Harmless.act {w : Watched σ} {hook : Hook} (e : Executor) (h : w.Harmless)
    (hmem : hook ∈ w.hooks) (action : HookAction) (haction : hook.action = action) :
    Obeys Harmless SameIfBusy e (Watched.act nested action e w) := by
  have honly := h.only hook hmem
  rw [haction] at honly
  cases action with
  | fail => exact ⟨nofun, fun _ => rfl, h⟩
  | nested => exact hnested e w h
  | nestedSync => exact ⟨nofun, fun _ => rfl, h.only, h.due⟩
  | cancel | cancelSoon | clearLogs | interrupt _ => cases honly

theorem react_harmless (signal : Signal) (e : Executor) {w : Watched σ} (h : w.Harmless) :
    ((environment nested).react signal e w).1 = .resume
      ∧ SameIfBusy e ((environment nested).react signal e w).2.1
      ∧ Harmless ((environment nested).react signal e w).2.2 := by
  cases signal with
  | event event =>
      exact callHooks_obey (P := Harmless) (R := SameIfBusy) (fun _ _ => rfl)
        (fun h hplace => h.seen hplace) (Harmless.act hnested) SameIfBusy.trans event _ e
        ⟨h.only, h.due⟩
  | pause =>
      have hnothing : (environment nested).react .pause e w = (.resume, e, w) :=
        if_neg (ne_true_of_eq_false h.due)
      rw [hnothing]
      exact ⟨rfl, fun _ => rfl, h⟩

theorem leavesAlone_environment : (environment nested).LeavesAlone Harmless := by
  intro signal e w h
  obtain ⟨hreply, hsame, hkept⟩ := react_harmless hnested signal e h
  exact ⟨hreply, fun hbusy => ⟨hsame hbusy, hkept⟩⟩

/-- A run under harmless hooks gives what it gives alone, and is harmless itself. -/
theorem run_harmless (plan : Graph) (e : Executor) {w : Watched σ} (h : w.Harmless) :
    ((environment nested).run plan e w).1 = (plan.run e).1
      ∧ Obeys Harmless SameIfBusy e (.returned, ((environment nested).run plan e w).2) := by
  have hkept : Harmless ((environment nested).run plan e w).2.2 :=
    Environment.drive_invariant (P := Harmless) _
      (fun signal e _ h => (react_harmless hnested signal e h).2.2) _ w _ h
  have hsame : SameIfBusy e ((environment nested).run plan e w).2.1 := by
    intro hbusy
    rw [Environment.run_of_busy _ plan hbusy]
  exact ⟨Environment.run_of_leavesAlone (leavesAlone_environment hnested) plan e h, nofun, hsame,
    hkept⟩

end

/-- Hooks that nest runs to any depth: each run gives what it gives alone. -/
theorem run_ofPlan_harmless (plan : Graph) : ∀ (depth : Nat) (e : Executor) {w : Watched σ},
    w.Harmless → ((ofPlan plan depth).run plan e w).1 = (plan.run e).1
      ∧ Obeys Harmless SameIfBusy e (.returned, ((ofPlan plan depth).run plan e w).2)
  | 0, e, w, h => by
      have hignored : ∀ e (w : Watched σ), w.Harmless →
          Obeys Harmless SameIfBusy e (ignoreNested e w) := fun e w h => ⟨nofun, fun _ => rfl, h⟩
      exact run_harmless hignored plan e h
  | depth + 1, e, w, h => by
      refine run_harmless (fun e w h => ?_) plan e h
      obtain ⟨hending, hobeys⟩ := run_ofPlan_harmless plan depth e h
      obtain ⟨result, hresult⟩ := plan.run_returned e
      rw [hresult] at hending
      generalize (ofPlan plan depth).run plan e w = answer at hending hobeys ⊢
      obtain ⟨ending, e', w'⟩ := answer
      obtain rfl : ending = .returned result := hending
      exact ⟨nofun, hobeys.executor, hobeys.state.only, hobeys.state.due⟩

end Watched

namespace Graph

/-- **Callbacks that only return, raise or start further runs are not noticed** by a run,
whatever the workflow and the executor: it returns the result that it returns without any.
This holds for surroundings that make calls of any workflows and let these go on as they
like, and for hooks that fail or nest further runs. -/
theorem run_under_callbacks (g : Graph) (e : Executor) :
    ∃ result, (g.run e).1 = .returned result
      ∧ (∀ {ω : Type} (env : Environment ω) (calls : ω → List Call) (w : ω), env.OnlyCalls calls →
          Call.NoneHolds (calls w) → (env.run g e w).1 = .returned result)
      ∧ ∀ {σ : Type} (w : Watched σ), w.Harmless → (Watched.run g e w).1 = .returned result := by
  obtain ⟨result, hresult⟩ := g.run_returned e
  refine ⟨result, hresult, fun env calls w honly hnone => ?_, fun w h => ?_⟩
  · rw [env.run_of_leavesAlone honly.leavesAlone g e hnone, hresult]
  · rw [← hresult]
    exact (Watched.run_ofPlan_harmless g w.hooks.length e h).1

/-- Hooks that fail at the first entry and ask for other runs before the first node and after
the run, and surroundings that call the executor at every signal: after the run is over the
calls are granted, and the result is the same. -/
theorem run_under_callbacks_of_two_nodes :
    let first : Node := ⟨"first", .start, .origin, "Start", some (.start (.record []))⟩
    let last : Node := ⟨"last", .finish, .origin, "End", some (.finish (.text "End"))⟩
    let g : Graph := ⟨[first, last], [⟨"edge", "first", "last", .null, .null, .null, true⟩]⟩
    let e := Executor.idle (some 1) 0
    let hooks : List Hook :=
      [⟨"log", 1, .fail, 0⟩, ⟨"before_node", 1, .nested, 0⟩, ⟨"after_run", 1, .nested, 0⟩]
    let caller : Environment (List Call) := ⟨fun _ e calls =>
      (.resume, (Shared.called ⟨e, calls⟩ g).executor, (Shared.called ⟨e, calls⟩ g).calls)⟩
    ∃ result, (g.run e).1 = .returned result ∧ result.status ≠ .busy
      ∧ (caller.run g e []).1 = .returned result
      ∧ (Watched.run g e (.ofHooks hooks ())).1 = .returned result := by
  intro first last g e hooks caller
  obtain ⟨result, hresult, hcalls, hhooks⟩ := run_under_callbacks g e
  have honly : caller.OnlyCalls id := fun _ _ _ => ⟨rfl, [.call g], rfl⟩
  have hharmless : (Watched.ofHooks hooks ()).Harmless := ⟨by decide, rfl⟩
  obtain ⟨result', hresult', hstatus, -, -⟩ := g.run_alone (e := e) rfl
  obtain rfl : result = result' := Ending.returned.inj (hresult.symm.trans hresult')
  refine ⟨result, hresult, ?_, hcalls caller id [] honly (List.forall_mem_nil _),
    hhooks _ hharmless⟩
  rw [hstatus]
  split <;> nofun

end Graph
end Workflow
