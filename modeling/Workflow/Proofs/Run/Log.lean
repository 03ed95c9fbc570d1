import Workflow.Proofs.Run.BreadthFirst

/-!
# Bounded logs

A log drops its oldest entries one by one, each time an entry is appended. What it ends with
are the last entries of the list that a log without a capacity would hold
(`logs_writeAll_of_kept`): dropping early what would be dropped in the end anyway makes no
difference (`keepLast_keepLast_append`).
-/

namespace Workflow

/-! ## The last items of a list -/

section

variable {α β : Type}

theorem keepLast_nil (bound : Nat) : keepLast bound ([] : List α) = [] := List.drop_nil

theorem length_keepLast (bound : Nat) (xs : List α) :
    (keepLast bound xs).length = min bound xs.length := by
  rw [keepLast, List.length_drop]
  omega

theorem keepLast_append (bound : Nat) (xs ys : List α) :
    keepLast bound (xs ++ ys) = keepLast (bound - ys.length) xs ++ keepLast bound ys := by
  unfold keepLast
  rw [List.drop_append, List.length_append]
  congr 1
  · -- When the second list alone exceeds the bound, nothing of the first is left.
    rcases Nat.le_total ys.length bound with hfits | hexceeds
    · congr 1
      omega
    · rw [List.drop_of_length_le (by omega), List.drop_of_length_le (by omega)]
  · congr 1
    omega

theorem keepLast_keepLast {bound more : Nat} (h : bound ≤ more) (xs : List α) :
    keepLast bound (keepLast more xs) = keepLast bound xs := by
  unfold keepLast
  rw [List.drop_drop, List.length_drop]
  congr 1
  omega

theorem keepLast_keepLast_append (bound : Nat) (xs ys : List α) :
    keepLast bound (keepLast bound xs ++ ys) = keepLast bound (xs ++ ys) := by
  rw [keepLast_append, keepLast_append, keepLast_keepLast (Nat.sub_le _ _)]

theorem keepLast_map (bound : Nat) (f : α → β) (xs : List α) :
    keepLast bound (xs.map f) = (keepLast bound xs).map f := by
  rw [keepLast, keepLast, List.length_map, List.map_drop]

theorem mem_of_mem_keepLast {bound : Nat} {xs : List α} {x : α} (h : x ∈ keepLast bound xs) :
    x ∈ xs := List.mem_of_mem_drop h

/-- Items that have a property cannot make it fail among the last ones. -/
theorem forall_keepLast_append_iff {P : α → Prop} {bound : Nat} {xs ys : List α}
    (h : ∀ x ∈ xs, P x) :
    (∀ x ∈ keepLast bound (xs ++ ys), P x) ↔ ∀ y ∈ keepLast bound ys, P y := by
  rw [keepLast_append]
  simp only [List.mem_append]
  constructor
  · exact fun hall y hy => hall y (Or.inr hy)
  · rintro hall x (hx | hx)
    · exact h x (mem_of_mem_keepLast hx)
    · exact hall x hx

end

/-! ## Stamped lines -/

theorem stamped_append : ∀ (clock : Nat) (lines rest : List Line),
    stamped clock (lines ++ rest) = stamped clock lines ++ stamped (clock + lines.length) rest
  | clock, [], rest => rfl
  | clock, line :: lines, rest => by
      have hrest := stamped_append (clock + 1) lines rest
      rw [Nat.add_right_comm] at hrest
      exact congrArg _ hrest

theorem stamped_take : ∀ (clock n : Nat) (lines : List Line),
    stamped clock (lines.take n) = (stamped clock lines).take n
  | clock, 0, lines => by rw [List.take_zero, List.take_zero]; rfl
  | clock, n + 1, [] => rfl
  | clock, n + 1, line :: lines => congrArg _ (stamped_take (clock + 1) n lines)

/-- What lines tell of their items, whenever they are written, the entries tell. -/
theorem map_stamped {α β : Type} (line : α → Line) (f : LogEntry → β) (g : α → β)
    (h : ∀ a time, f (line a time) = g a) :
    ∀ (clock : Nat) (items : List α), (stamped clock (items.map line)).map f = items.map g
  | _, [] => rfl
  | clock, a :: items => congrArg₂ _ (h a _) (map_stamped line f g h (clock + 1) items)

/-! ## What a log ends with -/

namespace Executor

theorem keep_congr {e e' : Executor} (h : e.capacity = e'.capacity) (entries : List LogEntry) :
    e.keep entries = e'.keep entries := by
  unfold keep
  rw [h]

theorem keep_of_free {e : Executor} (hfree : e.capacity = none) (entries : List LogEntry) :
    e.keep entries = entries := by
  unfold keep
  rw [hfree]

theorem keep_nil (e : Executor) : e.keep [] = [] := by
  unfold keep
  cases e.capacity with
  | none => rfl
  | some bound => exact keepLast_nil bound

theorem keep_keep_append (e : Executor) (entries rest : List LogEntry) :
    e.keep (e.keep entries ++ rest) = e.keep (entries ++ rest) := by
  unfold keep
  cases e.capacity with
  | none => rfl
  | some bound => exact keepLast_keepLast_append bound entries rest

theorem keep_keep (e : Executor) (entries : List LogEntry) :
    e.keep (e.keep entries) = e.keep entries := by
  have hagain := e.keep_keep_append entries []
  rwa [List.append_nil, List.append_nil] at hagain

/-- Whatever the capacity, the log holds what is kept of all that was written. -/
theorem logs_writeAll_of_kept :
    ∀ {lines : List Line} {e : Executor} {earlier : List LogEntry},
    e.logs = e.keep earlier →
      (e.writeAll lines).logs = e.keep (earlier ++ stamped e.clock lines)
  | [], e, earlier, h => by
      show e.logs = e.keep (earlier ++ [])
      rw [List.append_nil]
      exact h
  | line :: rest, e, earlier, h => by
      have hone : (e.write line).logs
          = (e.write line).keep (earlier ++ [line ⟨e.clock + 1⟩]) := by
        show e.keep (e.logs ++ [line ⟨e.clock + 1⟩]) = _
        rw [h, keep_keep_append]
        rfl
      have hwritten : ((e.write line).writeAll rest).logs = _ := logs_writeAll_of_kept hone
      rw [List.append_assoc] at hwritten
      exact hwritten

theorem logs_writeAll_begin (e : Executor) (lines : List Line) :
    (e.begin.readClock.2.writeAll lines).logs = e.keep (stamped (e.clock + 1) lines) := by
  have hempty : e.begin.readClock.2.logs = e.begin.readClock.2.keep [] := e.keep_nil.symm
  exact logs_writeAll_of_kept hempty

theorem executing_writeAll (e : Executor) (lines : List Line) :
    (e.writeAll lines).executing = e.executing := by
  induction lines generalizing e with
  | nil => rfl
  | cons line rest ih => exact ih (e.write line)

end Executor
end Workflow
