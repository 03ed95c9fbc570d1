import Workflow.Proofs.Run.Mirror
import Workflow.Proofs.Run.Surroundings

/-!
# What surroundings see of a run

Surroundings see a run as the signals it gives. Noting down something at every signal does
nothing to the run (`Environment.run_noting`), so a run has a history: its signals in order,
each with the reply to it. What every step of a run keeps, whatever the surroundings make of
the executor, holds of its whole history (`Environment.history_keeps`).

Hooks note the events of the history themselves, as long as they do not ask for runs of their
own (`Watched.trace_run`).
-/

namespace Workflow

abbrev Moment := Signal × Reply

/-- What is announced at a signal: nothing during a pause. -/
def Signal.events : Signal → List Event
  | .event e => [e]
  | .pause => []

def announced (history : List Moment) : List Event := history.flatMap (·.1.events)

theorem announced_append (history rest : List Moment) :
    announced (history ++ rest) = announced history ++ announced rest := List.flatMap_append

theorem announced_snoc (history : List Moment) (signal : Signal) (reply : Reply) :
    announced (history ++ [(signal, reply)]) = announced history ++ signal.events := by
  rw [announced_append, announced, announced, List.flatMap_singleton]

namespace Environment

variable {ω α : Type}

/-- Surroundings that also note something at every signal. -/
def noting (env : Environment ω) (note : Signal → Executor → ω → α) :
    Environment (ω × List α) where
  react signal e w :=
    let answer := env.react signal e w.1
    (answer.1, answer.2.1, answer.2.2, w.2 ++ [note signal e w.1])

theorem run_noting (env : Environment ω) (note : Signal → Executor → ω → α) (g : Graph)
    (e : Executor) (w : ω) (noted : List α) :
    env.run g e w = mapState Prod.fst ((env.noting note).run g e (w, noted)) :=
  (run_map (f := Prod.fst) (P := fun _ => True) (fun _ _ _ _ => ⟨rfl, trivial⟩) g e (w, noted)
    trivial).1

/-- The signals that a run gives, with the replies to them. -/
def history (env : Environment ω) (g : Graph) (e : Executor) (w : ω) : List Moment :=
  ((env.noting fun signal e w => (signal, (env.react signal e w).1)).run g e (w, [])).2.2.2

/-- What every step of a run keeps of its history and of where it stands, whatever the
surroundings make of the executor, still holds when it has ended. -/
theorem history_keeps (env : Environment ω) {P : List Moment → Turn → Prop}
    (hstep : ∀ history signal r (e : Executor) reply, P history (.waits signal r) →
      P (history ++ [(signal, reply)]) (r.proceed e reply).2)
    (g : Graph) (e : Executor) (w : ω) (h : P [] (Run.start g e).2) :
    P (env.history g e w) (.ends (env.run g e w).1) := by
  let note : Signal → Executor → ω → Moment := fun signal e w => (signal, (env.react signal e w).1)
  have hends := (env.noting note).drive_keeps (P := fun _ w t => P w.2 t)
    (fun signal r e w h => hstep w.2 signal r _ _ h) (Run.start g e).1 (w, []) (Run.start g e).2 h
  rw [env.run_noting note g e w []]
  exact hends

/-- Surroundings that never break off let a run go on at every signal. -/
theorem history_resumes {env : Environment ω}
    (hlet : ∀ signal e w, (env.react signal e w).1 = .resume) (g : Graph) (e : Executor)
    (w : ω) :
    ∀ m ∈ env.history g e w, m.2 = .resume := by
  let note : Signal → Executor → ω → Moment := fun signal e w => (signal, (env.react signal e w).1)
  refine (env.noting note).drive_keeps (P := fun _ w _ => ∀ m ∈ w.2, m.2 = .resume)
    (fun signal r e w h m hm => ?_) (Run.start g e).1 (w, []) (Run.start g e).2 nofun
  rcases List.mem_append.mp hm with hm | hm
  · exact h m hm
  · obtain rfl := List.mem_singleton.mp hm
    exact hlet signal e w.1

end Environment

/-! ## What hooks note -/

namespace Watched

variable {σ : Type} {nested : Nested σ}

/-- Hooks that ask for no other run, with what was announced to them. -/
structure Recorded (trace : List Event) (w : Watched σ) : Prop where
  trace : w.trace = trace
  alone : ∀ hook ∈ w.hooks, hook.action ≠ .nested

theorem Recorded.seen {trace : List Event} {w : Watched σ} (h : w.Recorded trace)
    {place : Nat} {hook : Hook} (hplace : w.hooks[place]? = some hook) :
    Recorded trace { w with hooks := w.hooks.set place { hook with seen := hook.seen + 1 } } := by
  refine ⟨h.trace, fun other hother => ?_⟩
  obtain ⟨old, hold, hsame⟩ := exists_action_of_mem_set hplace hother
  rw [← hsame]
  exact h.alone old hold

theorem Recorded.act {trace : List Event} {w : Watched σ} (h : w.Recorded trace)
    {action : HookAction} (halone : action ≠ .nested) (e : Executor) :
    (act nested action e w).2.2.Recorded trace := by
  cases action with
  | nested => exact absurd rfl halone
  | fail | cancel | clearLogs | interrupt _ => exact h
  | cancelSoon | nestedSync => exact ⟨h.trace, h.alone⟩

theorem Recorded.callHook {trace : List Event} {w : Watched σ} (h : w.Recorded trace)
    (event : Event) (place : Nat) (e : Executor) :
    (callHook nested event place e w).2.2.Recorded trace := by
  cases hplace : w.hooks[place]? with
  | none =>
      rw [callHook_of_none nested hplace]
      exact h
  | some hook =>
      rw [callHook_of_some nested hplace]
      have halone := h.alone hook (List.mem_of_getElem? hplace)
      split
      · split
        · exact (h.seen hplace).act halone e
        · exact h.seen hplace
      · exact h

theorem Recorded.callHooks {trace : List Event} (event : Event) :
    ∀ (places : List Nat) (e : Executor) {w : Watched σ}, w.Recorded trace →
      (callHooks nested event e w places).2.2.Recorded trace
  | [], _, _, h => h
  | place :: places, e, w, h => by
      have hcall : (Watched.callHook nested event place e w).2.2.Recorded trace :=
        h.callHook event place e
      unfold Watched.callHooks
      generalize Watched.callHook nested event place e w = answer at hcall ⊢
      obtain ⟨ending, e', w'⟩ := answer
      cases ending with
      | returned => exact Recorded.callHooks event places e' hcall
      | raised | interrupted _ => exact hcall

theorem Recorded.react {trace : List Event} {w : Watched σ} (h : w.Recorded trace)
    (signal : Signal) (e : Executor) :
    ((environment nested).react signal e w).2.2.Recorded (trace ++ signal.events) := by
  cases signal with
  | event event =>
      have hnoted : Recorded (trace ++ [event]) { w with trace := w.trace ++ [event] } :=
        ⟨congrArg (· ++ [event]) h.trace, h.alone⟩
      have hcalls : (Watched.callHooks nested event e { w with trace := w.trace ++ [event] }
          (List.range w.hooks.length)).2.2.Recorded (trace ++ [event]) :=
        Recorded.callHooks event _ e hnoted
      exact hcalls
  | pause =>
      unfold environment Signal.events
      dsimp only
      rw [List.append_nil]
      split
      · exact ⟨h.trace, h.alone⟩
      · exact h

/-- **The trace of hooks that ask for no other run** grows by the events of the history. -/
theorem trace_run (g : Graph) (e : Executor) {w : Watched σ}
    (halone : ∀ hook ∈ w.hooks, hook.action ≠ .nested) :
    ((environment nested).run g e w).2.2.trace
      = w.trace ++ announced ((environment nested).history g e w) := by
  let note : Signal → Executor → Watched σ → Moment :=
    fun signal e w => (signal, ((environment nested).react signal e w).1)
  have hends := ((environment nested).noting note).drive_keeps
    (P := fun _ noted _ => noted.1.Recorded (w.trace ++ announced noted.2))
    (fun signal r e noted h => by
      show Recorded (w.trace ++ announced (noted.2 ++ [(signal, _)])) _
      rw [announced_snoc, ← List.append_assoc]
      exact h.react signal e)
    (Run.start g e).1 (w, []) (Run.start g e).2 ⟨(List.append_nil _).symm, halone⟩
  rw [(environment nested).run_noting note g e w []]
  exact hends.trace

theorem exists_nested (g : Graph) (depth : Nat) :
    ∃ nested : Nested σ, ofPlan g depth = environment nested := by
  cases depth with
  | zero => exact ⟨_, rfl⟩
  | succ depth => exact ⟨_, rfl⟩

/-- A run under hooks that ask for no other run has a history, and the hooks note its
events. -/
theorem exists_history (w : Watched σ) (g : Graph) (e : Executor)
    (halone : ∀ hook ∈ w.hooks, hook.action ≠ .nested) :
    ∃ nested : Nested σ, (Watched.run g e w).1 = ((environment nested).run g e w).1
      ∧ (Watched.run g e w).2.2.trace
        = w.trace ++ announced ((environment nested).history g e w) := by
  obtain ⟨nested, hnested⟩ := exists_nested (σ := σ) g w.hooks.length
  have htrace : ((environment nested).run g e w).2.2.trace = _ := trace_run g e halone
  unfold Watched.run
  rw [hnested]
  exact ⟨nested, rfl, htrace⟩

end Watched
end Workflow
