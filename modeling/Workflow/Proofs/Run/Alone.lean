import Workflow.Proofs.Run.Log

/-!
# What a run gives alone

A run that nobody interferes with gives a result that depends on the workflow and on the
capacity of the log, and on the executor only for its times (`Graph.sameButTimes_run`). This
result is settled as soon as the run has released the executor, though it is still to
announce its end: nothing that happens to the executor from then on makes a difference
(`runOut_of_settled`).
-/

namespace Workflow

/-! ## Settled runs -/

def Stage.settled? : Stage → Option Ending
  | .closing ending => some ending
  | _ => none

/-- The ending of a run that has released the executor. -/
def Turn.settled? : Turn → Option Ending
  | .waits _ r => r.stage.settled?
  | .ends ending => some ending

/-- Whether a run has the executor: it was announced and was not closed yet. -/
def Turn.holds (t : Turn) : Bool := t.settled?.isNone

theorem Run.resume_of_settled {r : Run} {ending : Ending}
    (h : r.stage.settled? = some ending) (e : Executor) :
    r.resume e = (e, .ends ending) := by
  unfold resume
  cases hstage : r.stage with
  | closing ending' =>
      rw [hstage] at h
      obtain rfl : ending' = ending := Option.some.inj h
      rfl
  | _ =>
      rw [hstage] at h
      cases h

theorem runOut_of_settled {t : Turn} {ending : Ending} (h : t.settled? = some ending)
    (e : Executor) : runOut (e, t) = (ending, e) := by
  cases t with
  | ends ending' =>
      obtain rfl : ending' = ending := Option.some.inj h
      exact runOut_ends e _
  | waits signal r =>
      rw [runOut_waits, Run.resume_of_settled h]
      exact runOut_ends e ending

/-- How a run ends that has not the executor does not depend on it. -/
theorem runOut_of_not_holds {t : Turn} (h : t.holds = false) (e e' : Executor) :
    (runOut (e, t)).1 = (runOut (e', t)).1 := by
  obtain ⟨ending, hsettled⟩ := Option.isSome_iff_exists.mp (Option.isNone_eq_false_iff.mp h)
  rw [runOut_of_settled hsettled, runOut_of_settled hsettled]

/-! ## Results but for their times -/

/-- An entry without the time at which it was made. -/
def LogEntry.untimed (entry : LogEntry) : LogEntry := { entry with time := ⟨0⟩ }

/-- Two results differ in nothing but times. -/
structure RunResult.SameButTimes (r r' : RunResult) : Prop where
  status : r.status = r'.status
  visited : r.visited = r'.visited
  logs : r.logs.map (·.untimed) = r'.logs.map (·.untimed)

/-- Lines tell the same whenever they are written, but for the time. -/
theorem map_untimed_stamped : ∀ {lines : List Line},
    (∀ line ∈ lines, ∀ time, (line time).untimed = line ⟨0⟩) → ∀ clock,
      (stamped clock lines).map (·.untimed) = lines.map (· ⟨0⟩)
  | [], _, _ => rfl
  | line :: _, h, clock =>
      congrArg₂ _ (h line List.mem_cons_self _)
        (map_untimed_stamped (fun line hline => h line (List.mem_cons_of_mem _ hline)) (clock + 1))

def Defect.line (d : Defect) : Line := fun time =>
  ⟨systemId, "System", .start, [], [], time, .error, d.message⟩

theorem Run.runOut_refuse : ∀ (r : Run) (e : Executor) (defects : List Defect),
    runOut (r.refuse e defects)
      = runOut ({ r with status := .invalid }.conclude (e.writeAll (defects.map Defect.line)))
  | r, e, [] => rfl
  | r, e, d :: rest => by
      have hrest := Run.runOut_refuse (r.goTo (.refusing rest)) (e.write d.line) rest
      show runOut (_, .waits _ _) = _
      rw [runOut_waits]
      exact hrest

namespace Graph

/-- All that a run of the workflow notes when nobody interferes with it. -/
def account (g : Graph) : List Line :=
  g.report.warnings.map Warning.line
    ++ if g.report.valid then (g.visits [] g.starts).map Visit.line
      else g.report.defects.map Defect.line

theorem untimed_account (g : Graph) :
    ∀ line ∈ g.account, ∀ time, (line time).untimed = line ⟨0⟩ := by
  intro line hline time
  unfold account at hline
  rcases List.mem_append.mp hline with hwarning | hrest
  · obtain ⟨w, -, rfl⟩ := List.mem_map.mp hwarning
    rfl
  · split at hrest
    · obtain ⟨v, -, rfl⟩ := List.mem_map.mp hrest
      rfl
    · obtain ⟨d, -, rfl⟩ := List.mem_map.mp hrest
      rfl

/-- What a run gives when an idle executor announced it: its status and the nodes it executed
are those of the workflow, and the log keeps what it can of the account. -/
theorem run_alone (g : Graph) {e : Executor} (hidle : e.executing = false) :
    ∃ result, (g.run e).1 = .returned result
      ∧ result.status = (if g.report.valid then .completed else .invalid)
      ∧ result.visited = (if g.report.valid then executedIds (g.visits [] g.starts) else [])
      ∧ result.logs = e.keep (stamped (e.clock + 1) g.account) := by
  rw [← Executor.logs_writeAll_begin]
  unfold account
  by_cases hvalid : g.report.valid = true
  · obtain ⟨finished, hresult⟩ := run_result hvalid hidle
    rw [if_pos hvalid, if_pos hvalid, if_pos hvalid]
    exact ⟨_, hresult, rfl, rfl, rfl⟩
  · let r : Run := ⟨g, ⟨e.clock + 1⟩, [], .completed, .opened⟩
    let e₁ := e.begin.readClock.2.writeAll (g.report.warnings.map Warning.line)
    have hrefuses : r.warn e₁ [] = r.refuse e₁ g.report.defects := if_neg hvalid
    rw [if_neg hvalid, if_neg hvalid, if_neg hvalid, Executor.writeAll_append, g.run_of_idle hidle,
      hrefuses, r.runOut_refuse, Run.runOut_conclude]
    exact ⟨_, rfl, rfl, rfl, rfl⟩

/-- **A run depends on the executor only for its times**, as long as the capacity is the
same. -/
theorem sameButTimes_run (g : Graph) {e e' : Executor} (hidle : e.executing = false)
    (hidle' : e'.executing = false) (hcapacity : e.capacity = e'.capacity) :
    ∃ result result', (g.run e).1 = .returned result ∧ (g.run e').1 = .returned result'
      ∧ result.SameButTimes result' := by
  obtain ⟨result, hresult, hstatus, hvisited, hlogs⟩ := g.run_alone hidle
  obtain ⟨result', hresult', hstatus', hvisited', hlogs'⟩ := g.run_alone hidle'
  have huntimed : ∀ e : Executor, (e.keep (stamped (e.clock + 1) g.account)).map (·.untimed)
      = e.capacity.elim (g.account.map (· ⟨0⟩)) (keepLast · (g.account.map (· ⟨0⟩))) := by
    intro e
    unfold Executor.keep
    cases e.capacity with
    | none => exact map_untimed_stamped g.untimed_account _
    | some bound =>
        show (keepLast bound _).map _ = keepLast bound _
        rw [← keepLast_map, map_untimed_stamped g.untimed_account]
  refine ⟨result, result', hresult, hresult', hstatus.trans hstatus'.symm,
    hvisited.trans hvisited'.symm, ?_⟩
  rw [hlogs, hlogs', huntimed, huntimed, hcapacity]

end Graph
end Workflow
