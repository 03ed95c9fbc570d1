import Workflow.Run.Hook

/-!
# Runs and the state of their surroundings

A run changes the state of its surroundings only at its signals. So what every reaction keeps
the run keeps (`Environment.drive_invariant`), and what reaction and resumption together keep
holds at the end of the run (`Environment.drive_keeps`). Under hooks the only reactions that
touch the state are those to which other runs are nested, and what these keep a run under
hooks keeps (`Watched.run_invariant`). Hooks that neither ask for other runs nor empty the
log nor break off do nothing to a run but cancel it (`Watched.onlyCancels_environment`).
-/

namespace Workflow

/-- What the surroundings keep at every signal they keep until the run ends. -/
theorem Environment.drive_invariant {ω : Type} (env : Environment ω) {P : ω → Prop}
    (hreact : ∀ signal e w, P w → P (env.react signal e w).2.2) (e : Executor) (w : ω)
    (turn : Turn) (h : P w) : P (env.drive e w turn).2.2 := by
  fun_induction Environment.drive env e w turn with
  | case1 e w ending => exact h
  | case2 e w signal run answer next ih => exact ih (hreact signal e w h)

/-- What every step of a run keeps, of the executor, of the surroundings and of where the run
stands, still holds when it has ended. -/
theorem Environment.drive_keeps {ω : Type} (env : Environment ω)
    {P : Executor → ω → Turn → Prop}
    (hstep : ∀ signal r e w, P e w (.waits signal r) →
      P (r.proceed (env.react signal e w).2.1 (env.react signal e w).1).1
        (env.react signal e w).2.2
        (r.proceed (env.react signal e w).2.1 (env.react signal e w).1).2)
    (e : Executor) (w : ω) (turn : Turn) (h : P e w turn) :
    P (env.drive e w turn).2.1 (env.drive e w turn).2.2 (.ends (env.drive e w turn).1) := by
  fun_induction Environment.drive env e w turn with
  | case1 e w ending => exact h
  | case2 e w signal run answer next ih => exact ih (hstep signal run e w h)

namespace Watched

variable {σ : Type} {Q : σ → Prop}

/-- What nested runs keep of the state, the hook at a place keeps. -/
theorem callHook_invariant {nested : Nested σ}
    (hnested : ∀ e w, Q w.state → Q (nested e w).2.2.state) (event : Event) (place : Nat)
    (e : Executor) (w : Watched σ) (h : Q w.state) :
    Q (callHook nested event place e w).2.2.state := by
  unfold callHook
  split
  · exact h
  · rename_i hook _
    dsimp only
    split
    · split
      · cases hook.action with
        | nested => exact hnested _ _ h
        | fail | cancel | cancelSoon | nestedSync | clearLogs | interrupt _ => exact h
      · exact h
    · exact h

theorem callHooks_invariant {nested : Nested σ}
    (hnested : ∀ e w, Q w.state → Q (nested e w).2.2.state) (event : Event) :
    ∀ (places : List Nat) (e : Executor) (w : Watched σ), Q w.state →
      Q (callHooks nested event e w places).2.2.state
  | [], _, _, h => h
  | place :: places, e, w, h => by
      have hcall := callHook_invariant hnested event place e w h
      unfold callHooks
      split
      · rename_i hc
        rw [hc] at hcall
        exact callHooks_invariant hnested event places _ _ hcall
      · rename_i hc
        rw [hc] at hcall
        exact hcall
      · rename_i hc
        rw [hc] at hcall
        exact hcall

theorem run_invariant {nested : Nested σ}
    (hnested : ∀ e w, Q w.state → Q (nested e w).2.2.state) (plan : Graph) (e : Executor)
    (w : Watched σ) (h : Q w.state) : Q ((environment nested).run plan e w).2.2.state := by
  refine (environment nested).drive_invariant (P := fun w => Q w.state) ?_ _ w _ h
  intro signal e w h
  cases signal with
  | event event => exact callHooks_invariant hnested event _ e _ h
  | pause =>
      show Q (if w.putOff.due then _ else _ : Reply × Executor × Watched σ).2.2.state
      split <;> exact h

/-! ## Hooks that do not break off -/

/-- A hook at a place that has seen one event more does what it did before. -/
theorem exists_action_of_mem_set {hooks : List Hook} {place : Nat} {hook other : Hook}
    (hplace : hooks[place]? = some hook)
    (hother : other ∈ hooks.set place { hook with seen := hook.seen + 1 }) :
    ∃ old ∈ hooks, old.action = other.action := by
  rcases List.mem_or_eq_of_mem_set hother with hold | rfl
  · exact ⟨other, hold, rfl⟩
  · exact ⟨hook, List.mem_of_getElem? hplace, rfl⟩

/-- What a hook gives that does not break off, that changes the executor as it may, and that
keeps a property of the state watched. -/
structure Obeys (P : Watched σ → Prop) (R : Executor → Executor → Prop) (e : Executor)
    (answer : CallEnding × Executor × Watched σ) : Prop where
  goesOn : ∀ i, answer.1 ≠ .interrupted i
  executor : R e answer.2.1
  state : P answer.2.2

section

variable {P : Watched σ → Prop} {R : Executor → Executor → Prop} {nested : Nested σ}
  (hrefl : ∀ e, R e e)
  (hseen : ∀ {w : Watched σ} {place : Nat} {hook : Hook}, P w → w.hooks[place]? = some hook →
    P { w with hooks := w.hooks.set place { hook with seen := hook.seen + 1 } })
  (hact : ∀ {w : Watched σ} {hook : Hook} (e : Executor), P w → hook ∈ w.hooks →
    ∀ action, hook.action = action → Obeys P R e (act nested action e w))
include hrefl hseen hact

theorem callHook_obeys (event : Event) (place : Nat) (e : Executor) {w : Watched σ} (h : P w) :
    Obeys P R e (callHook nested event place e w) := by
  unfold callHook
  split
  · exact ⟨nofun, hrefl e, h⟩
  · rename_i hook hplace
    split
    · have hset := hseen h hplace
      have hmem : { hook with seen := hook.seen + 1 }
          ∈ w.hooks.set place { hook with seen := hook.seen + 1 } :=
        List.mem_set (List.getElem?_eq_some_iff.mp hplace).1 _
      dsimp only
      split
      · exact hact e hset hmem hook.action rfl
      · exact ⟨nofun, hrefl e, hset⟩
    · exact ⟨nofun, hrefl e, h⟩

/-- Hooks called one after another do together what each of them may do. -/
theorem callHooks_obey (htrans : ∀ {e e' e'' : Executor}, R e e' → R e' e'' → R e e'')
    (event : Event) : ∀ (places : List Nat) (e : Executor) {w : Watched σ}, P w →
      (callHooks nested event e w places).1 = .resume
        ∧ R e (callHooks nested event e w places).2.1
        ∧ P (callHooks nested event e w places).2.2
  | [], e, _, h => ⟨rfl, hrefl e, h⟩
  | place :: places, e, w, h => by
      obtain ⟨hgoes, hexecutor, hstate⟩ := callHook_obeys hrefl hseen hact event place e h
      unfold callHooks
      split
      · rename_i e' w' hc
        rw [hc] at hexecutor hstate
        obtain ⟨hreply, hexecutor', hstate'⟩ :=
          callHooks_obey htrans event places e' hstate
        exact ⟨hreply, htrans hexecutor hexecutor', hstate'⟩
      · rename_i hc
        rw [hc] at hexecutor hstate
        exact ⟨rfl, hexecutor, hstate⟩
      · rename_i i e' w' hc
        rw [hc] at hgoes
        exact absurd rfl (hgoes i)

end

end Watched

/-! ## Surroundings that only cancel -/

/-- As long as their state has a property, the surroundings do nothing to a run but ask it to
stop, and that only if they may. -/
def Environment.OnlyCancels {ω : Type} (env : Environment ω) (may : Prop) (P : ω → Prop) :
    Prop :=
  ∀ signal e w, P w → (env.react signal e w).1 = .resume
    ∧ ((env.react signal e w).2.1 = e ∨ may ∧ (env.react signal e w).2.1 = e.cancel)
    ∧ P (env.react signal e w).2.2

theorem Environment.onlyCancels_inert : inert.OnlyCancels False fun _ => True :=
  fun _ _ _ _ => ⟨rfl, .inl rfl, trivial⟩

theorem Executor.cancel_cancel (e : Executor) : e.cancel.cancel = e.cancel := by
  cases hbusy : e.executing <;> simp [cancel, hbusy]

namespace HookAction

/-- Whether a hook asks the run to stop, now or at its next pause. -/
def cancels : HookAction → Bool
  | .cancel | .cancelSoon => true
  | _ => false

/-- Whether a hook leaves the run and its surroundings alone, but that it may ask the run to
stop. One that fails only keeps others from being called. -/
def onlyCancels : HookAction → Bool
  | .fail | .cancel | .cancelSoon | .nestedSync => true
  | .nested | .clearLogs | .interrupt _ => false

end HookAction

namespace Watched

variable {σ : Type}

/-- A state watched by hooks that do no more than cancel, and that only if they may. -/
structure Calm (s : σ) (may : Prop) (w : Watched σ) : Prop where
  state : w.state = s
  only : ∀ hook ∈ w.hooks, hook.action.onlyCancels = true
  cancels : ∀ hook ∈ w.hooks, hook.action.cancels = true → may
  due : w.putOff.due = true → may

section

variable {s : σ} {may : Prop} (nested : Nested σ)

/-- All that hooks may do to an executor which only cancel. -/
def Cancels (may : Prop) (e e' : Executor) : Prop := e' = e ∨ may ∧ e' = e.cancel

theorem Cancels.trans {e e' e'' : Executor} (h : Cancels may e e') (h' : Cancels may e' e'') :
    Cancels may e e'' := by
  rcases h with rfl | ⟨hmay, rfl⟩
  · exact h'
  · unfold Cancels at h'
    rw [Executor.cancel_cancel] at h'
    exact .inr ⟨hmay, h'.elim id And.right⟩

theorem Calm.seen {w : Watched σ} (h : Calm s may w) {place : Nat} {hook : Hook}
    (hplace : w.hooks[place]? = some hook) :
    Calm s may { w with hooks := w.hooks.set place { hook with seen := hook.seen + 1 } } := by
  refine ⟨h.state, fun other hother => ?_, fun other hother hcancels => ?_, h.due⟩ <;>
    obtain ⟨old, hold, hsame⟩ := exists_action_of_mem_set hplace hother
  · rw [← hsame]
    exact h.only old hold
  · rw [← hsame] at hcancels
    exact h.cancels old hold hcancels

theorem Calm.act {w : Watched σ} {hook : Hook} (e : Executor) (h : Calm s may w)
    (hmem : hook ∈ w.hooks) (action : HookAction) (haction : hook.action = action) :
    Obeys (Calm s may) (Cancels may) e (act nested action e w) := by
  have honly := h.only hook hmem
  have hcancels := h.cancels hook hmem
  rw [haction] at honly hcancels
  cases action with
  | fail => exact ⟨nofun, .inl rfl, h⟩
  | cancel => exact ⟨nofun, .inr ⟨hcancels rfl, rfl⟩, h⟩
  | cancelSoon => exact ⟨nofun, .inl rfl, h.state, h.only, h.cancels, fun _ => hcancels rfl⟩
  | nestedSync => exact ⟨nofun, .inl rfl, h.state, h.only, h.cancels, h.due⟩
  | nested | clearLogs | interrupt _ => cases honly

theorem onlyCancels_environment (s : σ) (may : Prop) :
    (environment nested).OnlyCancels may (Calm s may) := by
  intro signal e w h
  cases signal with
  | event event =>
      exact callHooks_obey (fun _ => .inl rfl) (fun h hplace => h.seen hplace) (Calm.act nested)
        Cancels.trans event _ e ⟨h.state, h.only, h.cancels, h.due⟩
  | pause =>
      unfold environment
      dsimp only
      split
      · rename_i hdue
        exact ⟨rfl, .inr ⟨h.due hdue, rfl⟩, h.state, h.only, h.cancels, nofun⟩
      · exact ⟨rfl, .inl rfl, h⟩

end

end Watched

end Workflow
