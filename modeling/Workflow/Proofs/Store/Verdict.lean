import Workflow.Proofs.Run.Verdict
import Workflow.Store.Execute

/-!
# The notice about a run

A store that ran its workflow keeps the result, records it and posts a notice, in this order.
So a notice of success is posted exactly when the result speaks of success and could be
recorded (`settle_posts`). What the result speaks for is a matter of the run
(`Graph.gave_of_onlyCancels`).
-/

namespace Workflow

theorem RunResult.notice?_success_iff {r : RunResult} :
    (∃ message, r.notice? = some (.success, message)) ↔ r.Succeeded := by
  unfold notice? Succeeded
  constructor
  · rintro ⟨message, h⟩
    split at h
    · cases h
    · split at h
      · cases h
      · split at h
        · rename_i hcount hcompleted
          exact ⟨hcompleted, Nat.eq_zero_of_not_pos hcount⟩
        · cases h
  · rintro ⟨hcompleted, hcount⟩
    rw [if_neg (by rw [hcompleted]; nofun), if_neg (by omega), if_pos hcompleted]
    exact ⟨_, rfl⟩

namespace Store

/-! ## Recording -/

/-- Recording a result changes nothing of a store but its archive. -/
theorem record_eq (s : Store) (r : RunResult) :
    ∃ a, s.record r = ((s.record r).1, { s with archive := a }) := by
  unfold record
  split
  · exact ⟨s.archive, rfl⟩
  · split
    · exact ⟨s.archive, rfl⟩
    · split <;> exact ⟨_, rfl⟩

/-- Whether a result can be recorded depends on nothing but the archive. -/
theorem record_congr {s t : Store} (h : s.archive = t.archive) (r : RunResult) :
    (s.record r).1 = (t.record r).1 := by
  unfold record
  rw [h]
  split
  · rfl
  · split
    · rfl
    · split <;> rfl

/-! ## Settling -/

theorem lastRun_notify (s : Store) (level : Level) (message : String) :
    (s.notify level message).2.lastRun = s.lastRun := by
  unfold notify
  split
  · rfl
  · dsimp only
    split <;> rfl

theorem notices_notify {s : Store} {q : NoticeQueue} (h : s.notices = some q) (level : Level)
    (message : String) :
    (s.notify level message).2.notices = some (q.notify level message) := by
  unfold notify
  rw [h]
  dsimp only
  split <;> rfl

theorem notify_ok {s : Store} (h : s.noticeListeners.findSome? id = none) (level : Level)
    (message : String) : (s.notify level message).1 = .ok () := by
  unfold notify
  split
  · rfl
  · dsimp only
    rw [h]

/-- A result that cannot be recorded is kept, and there is no notice. -/
theorem settle_of_record_error {s : Store} {r : RunResult} {f : Failure}
    (h : (s.record r).1 = .error f) :
    (s.settle r).1 = .error f ∧ (s.settle r).2.lastRun = some r
      ∧ (s.settle r).2.notices = s.notices := by
  let kept : Store := { s with lastRun := some r }
  obtain ⟨a, ha⟩ := record_eq kept r
  rw [record_congr (s := kept) (t := s) rfl, h] at ha
  unfold settle
  rw [ha]
  exact ⟨rfl, rfl, rfl⟩

/-- A result that was recorded is kept, and the notice about it is posted. -/
theorem settle_of_record_ok {s : Store} {r : RunResult} (h : (s.record r).1 = .ok ()) :
    ∃ a, s.settle r = match r.notice? with
      | none => (.ok (), { s with lastRun := some r, archive := a })
      | some (level, message) =>
        notify { s with lastRun := some r, archive := a } level message := by
  let kept : Store := { s with lastRun := some r }
  obtain ⟨a, ha⟩ := record_eq kept r
  rw [record_congr (s := kept) (t := s) rfl, h] at ha
  unfold settle
  rw [ha]
  exact ⟨a, rfl⟩

theorem lastRun_settle (s : Store) (r : RunResult) : (s.settle r).2.lastRun = some r := by
  cases hrecord : (s.record r).1 with
  | error f => exact (settle_of_record_error hrecord).2.1
  | ok _ =>
      obtain ⟨a, ha⟩ := settle_of_record_ok hrecord
      rw [ha]
      split
      · rfl
      · exact lastRun_notify _ _ _

theorem settle_ok_iff {s : Store} (h : s.noticeListeners.findSome? id = none) (r : RunResult) :
    (s.settle r).1 = .ok () ↔ (s.record r).1 = .ok () := by
  cases hrecord : (s.record r).1 with
  | error f => rw [(settle_of_record_error hrecord).1]
  | ok _ =>
      obtain ⟨a, ha⟩ := settle_of_record_ok hrecord
      refine iff_of_true ?_ rfl
      rw [ha]
      split
      · rfl
      · exact notify_ok (s := { s with lastRun := some r, archive := a }) h _ _

/-- A notice of success is posted when the result speaks of success and could be recorded. -/
theorem settle_posts {s : Store} {q : NoticeQueue} (h : s.notices = some q) (r : RunResult) :
    ∃ q' posted, (s.settle r).2.notices = some q' ∧ q'.pending = q.pending ++ posted
      ∧ ((∃ n ∈ posted, n.level = .success) ↔ r.Succeeded ∧ (s.record r).1 = .ok ()) := by
  cases hrecord : (s.record r).1 with
  | error f =>
      refine ⟨q, [], ?_, (List.append_nil _).symm, iff_of_false ?_ ?_⟩
      · rw [(settle_of_record_error hrecord).2.2, h]
      · rintro ⟨n, hn, -⟩
        cases hn
      · rintro ⟨-, hok⟩
        cases hok
  | ok _ =>
      obtain ⟨a, ha⟩ := settle_of_record_ok hrecord
      rw [ha, ← RunResult.notice?_success_iff]
      cases hnotice : r.notice? with
      | none =>
          refine ⟨q, [], h, (List.append_nil _).symm, iff_of_false ?_ ?_⟩
          · rintro ⟨n, hn, -⟩
            cases hn
          · rintro ⟨⟨message, hsome⟩, -⟩
            cases hsome
      | some notice =>
          obtain ⟨level, message⟩ := notice
          refine ⟨q.notify level message, [⟨q.issued, level, message, NoticeQueue.defaultDuration⟩],
            notices_notify (s := { s with lastRun := some r, archive := a }) h level message, rfl,
            ?_⟩
          simp

/-! ## Running -/

theorem execute_settles {s : Store} (hidle : s.executor.executing = false) {bound : Nat}
    (hcapacity : s.executor.capacity = some bound) {hooks : List Hook}
    (honly : ∀ hook ∈ hooks, hook.action.onlyCancels = true) :
    ∃ r executed e, (s.execute hooks).2.2 = (settle { s with executor := e } r).2
      ∧ s.graph.Gave executed r
      ∧ (r.status = .cancelled → ∃ hook ∈ hooks, hook.action.cancels = true)
      ∧ (r.Succeeded ↔ s.graph.SucceedsBy bound executed r) := by
  let nested := nestedRun hooks.length
  let watched : Watched Store := ⟨hooks, .nothing, [], [], s⟩
  have hcalm : watched.Calm s (∃ hook ∈ hooks, hook.action.cancels = true) :=
    ⟨rfl, honly, fun hook hmem hcancels => ⟨hook, hmem, hcancels⟩, nofun⟩
  obtain ⟨r, executed, hrun, hcalm', hgave, hcancelled, hsucceeds⟩ :=
    s.graph.gave_of_onlyCancels hidle hcapacity (Watched.onlyCancels_environment nested s _) hcalm
  rcases hran : (Watched.environment nested).run s.graph s.executor watched with ⟨ending, e, w⟩
  rw [hran] at hrun hcalm'
  obtain rfl : ending = .returned r := hrun
  refine ⟨r, executed, e, ?_, hgave, hcancelled, hsucceeds⟩
  unfold execute executeWatched Watched.ofHooks
  dsimp only
  rw [hran, ← hcalm'.state]

end Store
end Workflow
