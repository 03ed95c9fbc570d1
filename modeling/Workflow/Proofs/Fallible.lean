import Mathlib.Data.List.Forall2

/-!
# Steps that may fail

How a sequence of steps that succeeded is taken apart, how the steps over a list go together,
and what all that can fail in a sequence has in common (`Fails`).
-/

namespace Workflow

theorem bind_eq_ok {ε α β : Type} {x : Except ε α} {f : α → Except ε β} {b : β} :
    x >>= f = .ok b ↔ ∃ a, x = .ok a ∧ f a = .ok b := by
  cases x with
  | error e => exact ⟨nofun, fun ⟨_, h, _⟩ => nomatch h⟩
  | ok a => exact ⟨fun h => ⟨a, rfl, h⟩, fun ⟨_, h, h'⟩ => by cases h; exact h'⟩

theorem bind_eq_error {ε α β : Type} {x : Except ε α} {f : α → Except ε β} {e : ε} :
    x >>= f = .error e ↔ x = .error e ∨ ∃ a, x = .ok a ∧ f a = .error e := by
  cases x with
  | error e' =>
      refine ⟨fun h => .inl (congrArg _ (Except.error.inj h)), ?_⟩
      rintro (h | ⟨_, h, _⟩)
      · exact congrArg _ (Except.error.inj h)
      · cases h
  | ok a =>
      refine ⟨fun h => .inr ⟨a, rfl, h⟩, ?_⟩
      rintro (h | ⟨_, h, h'⟩)
      · cases h
      · cases h
        exact h'

theorem mapError_eq_error {ε ε' α : Type} {x : Except ε α} {f : ε → ε'} {e : ε'} :
    x.mapError f = .error e ↔ ∃ e', x = .error e' ∧ f e' = e := by
  cases x with
  | error e' =>
      refine ⟨fun h => ⟨e', rfl, Except.error.inj h⟩, ?_⟩
      rintro ⟨_, h, rfl⟩
      cases h
      rfl
  | ok a => exact ⟨nofun, fun ⟨_, h, _⟩ => nomatch h⟩

theorem exists_bind {ε α β : Type} {x : Except ε α} {f : α → Except ε β}
    (hx : ∃ a, x = .ok a) (hf : ∀ a, x = .ok a → ∃ b, f a = .ok b) :
    ∃ b, x >>= f = .ok b := by
  obtain ⟨a, ha⟩ := hx
  obtain ⟨b, hb⟩ := hf a ha
  exact ⟨b, bind_eq_ok.mpr ⟨a, ha, hb⟩⟩

/-! ## What steps fail with -/

/-- All that a step can fail with is of a kind. -/
def Fails {ε α : Type} (p : ε → Prop) (x : Except ε α) : Prop := ∀ e, x = .error e → p e

namespace Fails

variable {ε α β : Type} {p q : ε → Prop} {x : Except ε α}

theorem ok (a : α) : Fails p (.ok a) := nofun

theorem throw {e : ε} (h : p e) : Fails p (.error e : Except ε α) :=
  fun _ heq => Except.error.inj heq ▸ h

theorem mono (h : Fails p x) (himp : ∀ e, p e → q e) : Fails q x :=
  fun e heq => himp e (h e heq)

theorem bind {f : α → Except ε β} (h : Fails p x) (hf : ∀ a, x = .ok a → Fails p (f a)) :
    Fails p (x >>= f) := by
  intro e heq
  rcases bind_eq_error.mp heq with hfirst | ⟨a, ha, hrest⟩
  · exact h e hfirst
  · exact hf a ha e hrest

theorem exists_ok (h : Fails p x) (hnone : ∀ e, ¬ p e) : ∃ a, x = .ok a := by
  cases x with
  | error e => exact absurd (h e rfl) (hnone e)
  | ok a => exact ⟨a, rfl⟩

variable {γ : Type} {P : γ → ε → Prop} {c : γ} {cs : List γ}

theorem head (h : Fails (P c) x) : Fails (fun e => ∃ d ∈ c :: cs, P d e) x :=
  h.mono fun _ he => ⟨c, List.mem_cons_self, he⟩

theorem tail (h : Fails (fun e => ∃ d ∈ cs, P d e) x) :
    Fails (fun e => ∃ d ∈ c :: cs, P d e) x :=
  h.mono fun _ ⟨d, hd, he⟩ => ⟨d, List.mem_cons_of_mem c hd, he⟩

end Fails

/-! ## Steps over lists -/

theorem forall₂_of_mapM {ε α β : Type} {f : α → Except ε β} :
    ∀ {xs : List α} {ys : List β}, xs.mapM f = .ok ys →
      List.Forall₂ (fun x y => f x = .ok y) xs ys
  | [], ys, h => by
      cases h
      exact .nil
  | x :: xs, ys, h => by
      rw [List.mapM_cons] at h
      obtain ⟨y, hy, h⟩ := bind_eq_ok.mp h
      obtain ⟨ys', hys, h⟩ := bind_eq_ok.mp h
      cases h
      exact .cons hy (forall₂_of_mapM hys)

theorem mapM_of_forall₂ {ε α β : Type} {f : α → Except ε β} {xs : List α} {ys : List β}
    (h : List.Forall₂ (fun x y => f x = .ok y) xs ys) : xs.mapM f = .ok ys := by
  induction h with
  | nil => rfl
  | cons hx _ ih =>
      rw [List.mapM_cons, hx, ih]
      rfl

theorem mapM_map {ε α β γ : Type} {f : α → β} {g : β → Except ε γ} {h : α → γ} :
    ∀ {xs : List α}, (∀ x ∈ xs, g (f x) = .ok (h x)) → (xs.map f).mapM g = .ok (xs.map h)
  | [], _ => rfl
  | x :: xs, hall => by
      obtain ⟨hx, hxs⟩ := List.forall_mem_cons.mp hall
      rw [List.map_cons, List.mapM_cons, hx, mapM_map hxs]
      rfl

theorem exists_forall₂ {α β : Type} {R : α → β → Prop} :
    ∀ {xs : List α}, (∀ x ∈ xs, ∃ y, R x y) → ∃ ys, List.Forall₂ R xs ys
  | [], _ => ⟨[], .nil⟩
  | x :: xs, h => by
      obtain ⟨y, hy⟩ := h x List.mem_cons_self
      obtain ⟨ys, hys⟩ := exists_forall₂ fun x hx => h x (List.mem_cons_of_mem _ hx)
      exact ⟨y :: ys, .cons hy hys⟩

theorem exists_mapM {ε α β : Type} {f : α → Except ε β} {xs : List α}
    (h : ∀ x ∈ xs, ∃ y, f x = .ok y) : ∃ ys, xs.mapM f = .ok ys := by
  obtain ⟨ys, hys⟩ := exists_forall₂ h
  exact ⟨ys, mapM_of_forall₂ hys⟩

theorem exists_of_mem_right {α β : Type} {R : α → β → Prop} {xs : List α} {ys : List β}
    (h : List.Forall₂ R xs ys) {y : β} (hy : y ∈ ys) : ∃ x ∈ xs, R x y := by
  induction h with
  | nil => exact absurd hy List.not_mem_nil
  | cons hxy _ ih =>
      rcases List.mem_cons.mp hy with rfl | hy
      · exact ⟨_, List.mem_cons_self, hxy⟩
      · obtain ⟨x, hx, hxy⟩ := ih hy
        exact ⟨x, List.mem_cons_of_mem _ hx, hxy⟩

end Workflow
