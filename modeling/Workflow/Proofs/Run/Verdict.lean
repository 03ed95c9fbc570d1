import Workflow.Proofs.Run.Cancel

/-!
# What the log tells about a run

Whether a run succeeded is read off its result: the status, and the number of error entries
among those that the log kept. A node that failed counts only while its entry is kept, so the
result speaks for the last nodes of the run, as many as the log has room for, and for no
others (`errorCount_eq_zero_iff`). Warnings are entries too, but they come before all nodes
and are never errors, so they neither count nor take up room that nodes need.
-/

namespace Workflow

/-! ## Runs that are refused -/

/-- Where a run stands whose workflow does not pass the check. -/
inductive Refuses (g : Graph) (started : Instant) : Turn → Prop
  | opened (signal : Signal) :
      Refuses g started (.waits signal ⟨g, started, [], .completed, .opened⟩)
  | warning (signal : Signal) (rest : List Warning) :
      Refuses g started (.waits signal ⟨g, started, [], .completed, .warning rest⟩)
  | refusing (signal : Signal) (rest : List Defect) :
      Refuses g started (.waits signal ⟨g, started, [], .completed, .refusing rest⟩)
  | closing {r : Run} {result : RunResult} (hstage : r.stage = .closing (.returned result))
      (hstatus : result.status = .invalid) (hvisited : result.visited = []) (signal : Signal) :
      Refuses g started (.waits signal r)
  | ended {result : RunResult} (hstatus : result.status = .invalid)
      (hvisited : result.visited = []) : Refuses g started (.ends (.returned result))

namespace Refuses

variable {g : Graph} {started : Instant}

theorem of_refuse (e : Executor) (stage : Stage) (defects : List Defect) :
    Refuses g started ((⟨g, started, [], .completed, stage⟩ : Run).refuse e defects).2 := by
  cases defects with
  | cons d rest => exact .refusing _ rest
  | nil => exact .closing rfl rfl rfl _

variable (hinvalid : ¬ g.report.valid = true)
include hinvalid

theorem of_warn (e : Executor) (stage : Stage) (warnings : List Warning) :
    Refuses g started ((⟨g, started, [], .completed, stage⟩ : Run).warn e warnings).2 := by
  cases warnings with
  | cons w rest => exact .warning _ rest
  | nil =>
      have hrefuses : ∀ r : Run, r.plan = g → r.warn e [] = r.refuse e g.report.defects := by
        rintro r rfl
        exact if_neg hinvalid
      rw [hrefuses _ rfl]
      exact of_refuse e stage _

theorem step {signal : Signal} {r : Run} (h : Refuses g started (.waits signal r))
    (e : Executor) : Refuses g started (r.resume e).2 := by
  cases h with
  | opened signal => exact of_warn hinvalid e .opened _
  | warning signal rest => exact of_warn hinvalid e (.warning rest) rest
  | refusing signal rest => exact of_refuse e (.refusing rest) rest
  | closing hstage hstatus hvisited signal =>
      unfold Run.resume
      rw [hstage]
      exact .ended hstatus hvisited

omit hinvalid in
theorem start {e : Executor} (hidle : e.executing = false) :
    Refuses g ⟨e.clock + 1⟩ (Run.start g e).2 := by
  rw [Run.start_of_idle g hidle]
  exact .opened _

end Refuses

/-- A workflow that does not pass the check is refused, and none of its nodes is executed. -/
theorem Graph.run_refused_of_onlyCancels {g : Graph} (hinvalid : ¬ g.report.valid = true)
    {e : Executor} (hidle : e.executing = false) {ω : Type} {env : Environment ω}
    {P : ω → Prop} {may : Prop} (honly : env.OnlyCancels may P) {w : ω} (hw : P w) :
    ∃ result, (env.run g e w).1 = .returned result ∧ result.status = .invalid
      ∧ result.visited = [] ∧ P (env.run g e w).2.2 := by
  obtain ⟨hends, hkept⟩ := env.drive_keeps (P := fun _ w t => Refuses g ⟨e.clock + 1⟩ t ∧ P w)
    (by
      rintro signal r e' w ⟨hrefuses, hw⟩
      obtain ⟨hreply, -, hkept⟩ := honly signal e' w hw
      rw [hreply]
      exact ⟨hrefuses.step hinvalid _, hkept⟩)
    _ w _ ⟨Refuses.start hidle, hw⟩
  generalize hending : (env.drive (Run.start g e).1 w (Run.start g e).2).1 = ending at hends
  cases hends with
  | ended hstatus hvisited => exact ⟨_, hending, hstatus, hvisited, hkept⟩

/-! ## Errors that are kept -/

theorem RunResult.errorCount_eq_zero_iff {r : RunResult} :
    r.errorCount = 0 ↔ ∀ entry ∈ r.logs, entry.status ≠ .error := by
  simp only [errorCount, List.countP_eq_zero, decide_eq_true_eq, ne_eq]

theorem map_status_warnings (clock : Nat) (warnings : List Warning) :
    (stamped clock (warnings.map Warning.line)).map (·.status) = warnings.map fun _ => .skipped :=
  map_stamped Warning.line _ _ (fun _ _ => rfl) clock warnings

theorem map_status_visits (clock : Nat) (visits : List Visit) :
    (stamped clock (visits.map Visit.line)).map (·.status) = visits.map (·.outcome.status) :=
  map_stamped Visit.line _ _ (fun _ _ => rfl) clock visits

/-- Of the nodes that a run executed, the log knows the last ones only. -/
theorem forall_kept_iff (bound clock : Nat) (warnings : List Warning) (visits : List Visit) :
    (∀ entry ∈ keepLast bound
        (stamped clock (warnings.map Warning.line ++ visits.map Visit.line)),
          entry.status ≠ .error)
      ↔ ∀ v ∈ keepLast bound visits, v.outcome.status ≠ .error := by
  have hskipped : ∀ entry ∈ stamped clock (warnings.map Warning.line),
      entry.status ≠ .error := by
    intro entry hentry herror
    have hmem := List.mem_map_of_mem (f := (·.status)) hentry
    rw [map_status_warnings, herror] at hmem
    obtain ⟨w, -, hw⟩ := List.mem_map.mp hmem
    cases hw
  rw [stamped_append, forall_keepLast_append_iff hskipped]
  generalize clock + (warnings.map Warning.line).length = clock
  calc (∀ entry ∈ keepLast bound (stamped clock (visits.map Visit.line)), entry.status ≠ .error)
      ↔ ∀ status ∈ (keepLast bound (stamped clock (visits.map Visit.line))).map (·.status),
          status ≠ .error := by rw [List.forall_mem_map]
    _ ↔ ∀ v ∈ keepLast bound visits, v.outcome.status ≠ .error := by
        rw [← keepLast_map, map_status_visits, keepLast_map, List.forall_mem_map]

/-! ## Results -/

/-- A run of the workflow executed these visits and gave the result. They are a first part of
the itinerary: all of it if the run was not cancelled, and nothing if the workflow was
refused. -/
structure Graph.Gave (g : Graph) (executed : List Visit) (r : RunResult) : Prop where
  first : executed <+: g.itinerary
  visited : r.visited = executed.map (·.node.id)
  whole : g.report.valid = true → r.status ≠ .cancelled →
    r.status = .completed ∧ executed = g.itinerary
  refused : ¬ g.report.valid = true → r.status = .invalid ∧ executed = []

/-- Whether a result speaks of success: nothing but the status and the entries kept
counts. -/
def RunResult.Succeeded (r : RunResult) : Prop := r.status = .completed ∧ r.errorCount = 0

/-- What success depends on when the log keeps as many entries as the bound: the check,
whether the run was cancelled, and the last nodes executed. -/
structure Graph.SucceedsBy (g : Graph) (bound : Nat) (executed : List Visit) (r : RunResult) :
    Prop where
  valid : g.report.valid = true
  not_cancelled : r.status ≠ .cancelled
  no_error : ∀ v ∈ keepLast bound executed, v.outcome.status ≠ .error

namespace Graph

theorem Stopped.gave {g : Graph} (hvalid : g.report.valid = true) {base : Executor} {n : Nat}
    {asked : Bool} {r : RunResult} (h : g.Stopped base n asked r) :
    g.Gave (g.itinerary.take n) r := by
  refine ⟨List.take_prefix n _, h.visited, fun _ hrun => ?_, fun hinvalid => absurd hvalid hinvalid⟩
  have hstatus := h.status
  split at hstatus
  · exact absurd hstatus hrun
  · exact ⟨hstatus, List.take_of_length_le (by omega)⟩

/-- The result of a run speaks for the last nodes that it executed. -/
theorem Stopped.succeeded_iff {g : Graph} (hvalid : g.report.valid = true) {e : Executor}
    {bound : Nat} (hcapacity : e.capacity = some bound) {n : Nat} {asked : Bool}
    {r : RunResult} (h : g.Stopped e.begin.readClock.2 n asked r) :
    r.Succeeded ↔ g.SucceedsBy bound (g.itinerary.take n) r := by
  have hstatus := h.status
  by_cases hshort : n < g.itinerary.length
  · rw [if_pos hshort] at hstatus
    refine iff_of_false (fun hsucceeded => ?_) fun hsucceeds => hsucceeds.not_cancelled hstatus
    rw [RunResult.Succeeded, hstatus] at hsucceeded
    cases hsucceeded.1
  · rw [if_neg hshort] at hstatus
    have hlogs : r.logs = keepLast bound (stamped (e.clock + 1) (g.linesUpTo n)) := by
      rw [h.logs, Executor.logs_writeAll_begin, Executor.keep, hcapacity, linesOf,
        if_neg hshort, List.append_nil]
    have hcount := (RunResult.errorCount_eq_zero_iff (r := r)).trans
      (hlogs ▸ forall_kept_iff bound (e.clock + 1) g.report.warnings (g.itinerary.take n))
    constructor
    · rintro ⟨-, hnone⟩
      exact ⟨hvalid, by rw [hstatus]; decide, hcount.mp hnone⟩
    · rintro ⟨-, -, hnone⟩
      exact ⟨hstatus, hcount.mpr hnone⟩

/-- **What the result of a run speaks for**, when its surroundings do no more than cancel
it. -/
theorem gave_of_onlyCancels (g : Graph) {e : Executor} (hidle : e.executing = false)
    {bound : Nat} (hcapacity : e.capacity = some bound) {ω : Type} {env : Environment ω}
    {may : Prop} {P : ω → Prop} (honly : env.OnlyCancels may P) {w : ω} (hw : P w) :
    ∃ r executed, (env.run g e w).1 = .returned r ∧ P (env.run g e w).2.2 ∧ g.Gave executed r
      ∧ (r.status = .cancelled → may) ∧ (r.Succeeded ↔ g.SucceedsBy bound executed r) := by
  by_cases hvalid : g.report.valid = true
  · obtain ⟨r, n, asked, hrun, hstopped, hmay, hkept⟩ := run_stopped hvalid hidle honly hw
    refine ⟨r, _, hrun, hkept, hstopped.gave hvalid, fun hcancelled => ?_,
      hstopped.succeeded_iff hvalid hcapacity⟩
    have hstatus := hstopped.status
    rw [hcancelled] at hstatus
    split at hstatus
    · exact hmay (hstopped.asked_of_lt ‹_›)
    · cases hstatus
  · obtain ⟨r, hrun, hstatus, hvisited, hkept⟩ :=
      run_refused_of_onlyCancels hvalid hidle honly hw
    refine ⟨r, [], hrun, hkept, ?_, fun hcancelled => ?_,
      iff_of_false (fun hsucceeded => ?_) fun hsucceeds => hvalid hsucceeds.valid⟩
    · exact ⟨List.nil_prefix, hvisited, fun h => absurd h hvalid, fun _ => ⟨hstatus, rfl⟩⟩
    · rw [hstatus] at hcancelled
      cases hcancelled
    · rw [RunResult.Succeeded, hstatus] at hsucceeded
      cases hsucceeded.1

end Graph
end Workflow
