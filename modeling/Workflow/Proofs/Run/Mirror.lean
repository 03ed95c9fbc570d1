import Workflow.Run.Hook

/-!
# Runs over a part of the state

A run takes no notice of the state of its surroundings. So when the surroundings act alike on
a state and on what a function makes of it, the run goes alike on both, and the function
makes the one final state of the other (`Environment.run_map`). Hooks touch the state of a
store only by the runs that they nest: a function that these respect, or any function at all
where no hook nests a run, is respected by hooks (`Watched.run_map`).
-/

namespace Workflow

/-- An answer of a run or a hook, with a function applied to the state that comes with it. -/
def mapState {α ω ω' : Type} (f : ω → ω') (answer : α × Executor × ω) : α × Executor × ω' :=
  (answer.1, answer.2.1, f answer.2.2)

namespace Environment

variable {ω ω' : Type} {env : Environment ω} {env' : Environment ω'} {f : ω → ω'} {P : ω → Prop}
  (hreact : ∀ signal e w, P w →
    env'.react signal e (f w) = mapState f (env.react signal e w) ∧ P (env.react signal e w).2.2)
include hreact

theorem drive_map (e : Executor) (w : ω) (turn : Turn) (h : P w) :
    env'.drive e (f w) turn = mapState f (env.drive e w turn) ∧ P (env.drive e w turn).2.2 := by
  fun_induction Environment.drive env e w turn with
  | case1 e w ending => exact ⟨drive.eq_1 .., h⟩
  | case2 e w signal run answer next ih =>
      obtain ⟨hanswer, hkept⟩ := hreact signal e w h
      rw [drive, hanswer]
      exact ih hkept

/-- **A run goes alike** in surroundings that act alike on a state and on what a function
makes of it. -/
theorem run_map (g : Graph) (e : Executor) (w : ω) (h : P w) :
    env'.run g e (f w) = mapState f (env.run g e w) ∧ P (env.run g e w).2.2 :=
  drive_map hreact _ w _ h

end Environment

namespace Watched

variable {σ τ : Type}

def map (f : σ → τ) (w : Watched σ) : Watched τ :=
  ⟨w.hooks, w.putOff, w.trace, w.nested, f w.state⟩

section

variable (nested : Nested σ) {event : Event} {place : Nat} {e : Executor} {w : Watched σ}

theorem callHook_of_none (hplace : w.hooks[place]? = none) :
    callHook nested event place e w = (.returned, e, w) := by
  unfold callHook
  rw [hplace]

theorem callHook_of_some {hook : Hook} (hplace : w.hooks[place]? = some hook) :
    let seen : Watched σ :=
      { w with hooks := w.hooks.set place { hook with seen := hook.seen + 1 } }
    callHook nested event place e w
      = if hook.event = event.name then
          if hook.seen + 1 = hook.nth then act nested hook.action e seen else (.returned, e, seen)
        else (.returned, e, w) := by
  unfold callHook
  rw [hplace]

end

/-- Hooks of certain actions that watch a state with a property. -/
structure Within (A : HookAction → Prop) (B : σ → Prop) (w : Watched σ) : Prop where
  actions : ∀ hook ∈ w.hooks, A hook.action
  state : B w.state

/-- Runs that hooks nest respect the function, if hooks may nest runs at all. -/
def Mirrors (A : HookAction → Prop) (B : σ → Prop) (f : σ → τ) (nested : Nested σ)
    (nested' : Nested τ) : Prop :=
  A .nested → ∀ e (w : Watched σ), w.Within A B →
    nested' e (w.map f) = mapState (map f) (nested e w) ∧ (nested e w).2.2.Within A B

section

variable {A : HookAction → Prop} {B : σ → Prop} {f : σ → τ} {nested : Nested σ} {nested' : Nested τ}
  (hnested : Mirrors A B f nested nested')
include hnested

theorem act_map {action : HookAction} (haction : A action) (e : Executor) {w : Watched σ}
    (h : w.Within A B) :
    act nested' action e (w.map f) = mapState (map f) (act nested action e w)
      ∧ (act nested action e w).2.2.Within A B := by
  cases action with
  | nested => exact hnested haction e w h
  | fail | cancel | clearLogs | interrupt _ => exact ⟨rfl, h⟩
  | cancelSoon | nestedSync => exact ⟨rfl, h.actions, h.state⟩

theorem callHook_map (event : Event) (place : Nat) (e : Executor) {w : Watched σ}
    (h : w.Within A B) :
    callHook nested' event place e (w.map f) = mapState (map f) (callHook nested event place e w)
      ∧ (callHook nested event place e w).2.2.Within A B := by
  cases hplace : w.hooks[place]? with
  | none =>
      rw [callHook_of_none nested hplace, callHook_of_none nested' (w := w.map f) hplace]
      exact ⟨rfl, h⟩
  | some hook =>
      have haction := h.actions hook (List.mem_of_getElem? hplace)
      have hseen : Within A B
          { w with hooks := w.hooks.set place { hook with seen := hook.seen + 1 } } := by
        refine ⟨fun other hother => ?_, h.state⟩
        rcases List.mem_or_eq_of_mem_set hother with hold | rfl
        · exact h.actions other hold
        · exact haction
      rw [callHook_of_some nested hplace, callHook_of_some nested' (w := w.map f) hplace]
      by_cases hevent : hook.event = event.name
      · rw [if_pos hevent, if_pos hevent]
        by_cases hnth : hook.seen + 1 = hook.nth
        · rw [if_pos hnth, if_pos hnth]
          exact act_map hnested haction e hseen
        · rw [if_neg hnth, if_neg hnth]
          exact ⟨rfl, hseen⟩
      · rw [if_neg hevent, if_neg hevent]
        exact ⟨rfl, h⟩

theorem callHooks_map (event : Event) : ∀ (places : List Nat) (e : Executor) {w : Watched σ},
    w.Within A B →
      callHooks nested' event e (w.map f) places
          = mapState (map f) (callHooks nested event e w places)
        ∧ (callHooks nested event e w places).2.2.Within A B
  | [], _, _, h => ⟨rfl, h⟩
  | place :: places, e, w, h => by
      obtain ⟨hcall, hkept⟩ := callHook_map hnested event place e h
      unfold callHooks
      rw [hcall]
      generalize callHook nested event place e w = answer at hkept ⊢
      obtain ⟨ending, e', w'⟩ := answer
      cases ending with
      | returned => exact callHooks_map event places e' hkept
      | raised | interrupted _ => exact ⟨rfl, hkept⟩

/-- **Hooks act alike** on a state and on what a function makes of it, if runs that they nest
do. -/
theorem run_map (g : Graph) (e : Executor) (w : Watched σ) (h : w.Within A B) :
    (environment nested').run g e (w.map f) = mapState (map f) ((environment nested).run g e w)
      ∧ ((environment nested).run g e w).2.2.Within A B := by
  refine Environment.run_map (fun signal e w h => ?_) g e w h
  cases signal with
  | event event =>
      have hnoted : Within A B { w with trace := w.trace ++ [event] } := ⟨h.actions, h.state⟩
      exact callHooks_map hnested event _ e hnoted
  | pause =>
      unfold environment
      dsimp only
      cases hdue : w.putOff.due with
      | true => exact ⟨if_pos hdue, h.actions, h.state⟩
      | false => exact ⟨if_neg (ne_true_of_eq_false hdue), h⟩

end
end Watched
end Workflow
