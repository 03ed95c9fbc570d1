import Workflow.Proofs.Store.Verdict
import Workflow.Shell.Session

/-!
# Runs that are reported as successful

A run is reported in two places: a store posts a notice, and a shell that was started on a
file gives an exit code. Both are drawn from the result alone, so they agree. The headline is
`reports_success_iff`.
-/

namespace Workflow

/-! ## Steps of an activity -/

namespace Act

variable {α β : Type} {x : Act α} {f : α → Act β} {sh sh' : Shell}

theorem run_bind_ok {a : α} (h : x.run sh = (.ok a, sh')) :
    (x >>= f).run sh = (f a).run sh' := by
  show (match x.run sh with
    | (r, sh') => (ExceptT.bindCont f r) sh') = _
  rw [h]
  rfl

theorem run_bind_error {failure : Failure} (h : x.run sh = (.error failure, sh')) :
    (x >>= f).run sh = (.error failure, sh') := by
  show (match x.run sh with
    | (r, sh') => (ExceptT.bindCont f r) sh') = _
  rw [h]
  rfl

end Act

namespace Shell

theorem fetchNotices_run (sh : Shell) :
    fetchNotices.run sh = match sh.store.notices with
      | some q => (.ok q.pending, { sh with store := { sh.store with notices := some q.drain.2 } })
      | none => (.ok sh.ownNotices.pending, { sh with ownNotices := sh.ownNotices.drain.2 }) := by
  obtain ⟨settings, ⟨graph, viewport, selection, history, executor, archive, notices⟩⟩ := sh
  cases notices <;> rfl

/-- Showing the notices that wait never fails, and leaves the last run as it is. -/
theorem showNotices_run (sh : Shell) :
    ∃ sh', showNotices.run sh = (.ok (), sh') ∧ sh'.store.lastRun = sh.store.lastRun := by
  have hfetch := fetchNotices_run sh
  split at hfetch
  · exact ⟨_, Act.run_bind_ok hfetch, rfl⟩
  · exact ⟨_, Act.run_bind_ok hfetch, rfl⟩

/-- Whether something asks a run of the shell to stop: a hook, or what was put off before. -/
def MayCancel (sh : Shell) : Prop :=
  sh.putOff.due = true ∨ ∃ hook ∈ sh.hooks, hook.action.cancels = true

theorem runIn_settles {sh : Shell} (hidle : sh.store.executor.executing = false)
    {bound : Nat} (hcapacity : sh.store.executor.capacity = some bound)
    (honly : ∀ hook ∈ sh.hooks, hook.action.onlyCancels = true)
    (nested : Watched.Nested Shell) :
    ∃ r executed e,
      ((runIn nested).run sh).1
        = (Store.settle { sh.store with executor := e } r).1.map (fun _ => r)
      ∧ ((runIn nested).run sh).2.store = (Store.settle { sh.store with executor := e } r).2
      ∧ sh.store.graph.Gave executed r ∧ (r.status = .cancelled → sh.MayCancel)
      ∧ (r.Succeeded ↔ sh.store.graph.SucceedsBy bound executed r) := by
  let watched : Watched Shell := ⟨sh.hooks, sh.putOff, [], [], sh⟩
  have hcalm : watched.Calm sh sh.MayCancel :=
    ⟨rfl, honly, fun hook hmem hcancels => .inr ⟨hook, hmem, hcancels⟩, .inl⟩
  obtain ⟨r, executed, hrun, hcalm', hgave, hcancelled, hsucceeds⟩ :=
    sh.store.graph.gave_of_onlyCancels hidle hcapacity
      (Watched.onlyCancels_environment nested sh _) hcalm
  rcases hran : (Watched.environment nested).run sh.store.graph sh.store.executor watched with
    ⟨ending, e, w⟩
  rw [hran] at hrun hcalm'
  obtain rfl : ending = .returned r := hrun
  refine ⟨r, executed, e, ?_, ?_, hgave, hcancelled, hsucceeds⟩ <;>
    · unfold runIn
      dsimp only [ExceptT.run, ExceptT.mk]
      rw [hran, ← hcalm'.state]

/-- What is shown of a run that was not broken off, and the exit code for it. -/
def reportRun (r : RunResult) : Act Nat := do
  showAll [Shown.log r.logs]
  showNotices
  return runCode r

theorem runFile_eq (path : Files.Path) :
    runFile path false = loadDocument path >>= fun loaded =>
      if loaded = true then get >>= fun sh => runIn (nestedOf sh) >>= reportRun else return 2 := by
  unfold runFile
  congr 1
  funext loaded
  cases loaded <;> rfl

theorem reportRun_run (r : RunResult) (sh : Shell) :
    ∃ sh', (reportRun r).run sh = (.ok (runCode r), sh')
      ∧ sh'.store.lastRun = sh.store.lastRun := by
  let shown : Shell := { sh with screen := sh.screen ++ [Shown.log r.logs] }
  obtain ⟨sh', hshow, hlast⟩ := showNotices_run shown
  have hlogged : (showAll [Shown.log r.logs]).run sh = (.ok (), shown) := rfl
  refine ⟨sh', ?_, hlast⟩
  unfold reportRun
  rw [Act.run_bind_ok hlogged, Act.run_bind_ok hshow]
  rfl

/-- A shell that was given a document runs it, and when the run could be settled it gives the
exit code for the result. -/
theorem runFile_of_loaded {sh sh₁ : Shell} {path : Files.Path}
    (hload : (loadDocument path).run sh = (.ok true, sh₁)) {settled : Except Failure Unit}
    {r : RunResult} {sh₂ : Shell}
    (hrun : (runIn (nestedOf sh₁)).run sh₁ = (settled.map fun _ => r, sh₂)) :
    ((runFile path false).run sh).1 = settled.map (fun _ => runCode r)
      ∧ ((runFile path false).run sh).2.store.lastRun = sh₂.store.lastRun := by
  have hget : (get : Act Shell).run sh₁ = (.ok sh₁, sh₁) := rfl
  rw [runFile_eq, Act.run_bind_ok hload, if_pos rfl, Act.run_bind_ok hget]
  cases settled with
  | error f =>
      rw [Act.run_bind_error hrun]
      exact ⟨rfl, rfl⟩
  | ok _ =>
      obtain ⟨sh₃, hreport, hlast⟩ := reportRun_run r sh₂
      rw [Act.run_bind_ok hrun, hreport]
      exact ⟨rfl, hlast⟩

theorem runCode_eq_zero_iff {r : RunResult} : runCode r = 0 ↔ r.Succeeded := by
  unfold runCode RunResult.Succeeded
  split
  · rename_i h
    exact iff_of_true rfl h
  · rename_i h
    exact iff_of_false Nat.one_ne_zero h

end Shell

/-! ## The headline theorem -/

/-- **When a run is reported as successful.** The log keeps the latest entries up to a bound.
A store posts a notice of success exactly if the workflow passes the check, the run was not
cancelled, none of the last nodes that were executed failed, as many as the bound, and the
result could be recorded. A shell that runs a document gives the exit code zero under exactly
the same condition. A node that failed earlier does not count. -/
theorem reports_success_iff (bound : Nat) :
    (∀ (s : Store) (q : NoticeQueue) (hooks : List Hook),
      s.executor.executing = false → s.executor.capacity = some bound → s.notices = some q →
      (∀ hook ∈ hooks, hook.action.onlyCancels = true) →
        ∃ r executed q' posted, (s.execute hooks).2.2.lastRun = some r
          ∧ s.graph.Gave executed r
          ∧ (r.status = .cancelled → ∃ hook ∈ hooks, hook.action.cancels = true)
          ∧ (s.execute hooks).2.2.notices = some q' ∧ q'.pending = q.pending ++ posted
          ∧ ((∃ n ∈ posted, n.level = .success)
            ↔ s.graph.SucceedsBy bound executed r ∧ (s.record r).1 = .ok ()))
    ∧ ∀ (sh sh₁ : Shell) (path : Files.Path),
        (Shell.loadDocument path).run sh = (.ok true, sh₁) →
        sh₁.store.executor.executing = false → sh₁.store.executor.capacity = some bound →
        sh₁.store.noticeListeners.findSome? id = none →
        (∀ hook ∈ sh₁.hooks, hook.action.onlyCancels = true) →
          ∃ r executed, ((Shell.runFile path false).run sh).2.store.lastRun = some r
            ∧ sh₁.store.graph.Gave executed r
            ∧ (r.status = .cancelled → sh₁.MayCancel)
            ∧ (((Shell.runFile path false).run sh).1 = .ok 0
              ↔ sh₁.store.graph.SucceedsBy bound executed r
                ∧ (sh₁.store.record r).1 = .ok ()) := by
  refine ⟨?_, ?_⟩
  · intro s q hooks hidle hcapacity hnotices honly
    obtain ⟨r, executed, e, hexecute, hgave, hcancelled, hsucceeds⟩ :=
      Store.execute_settles hidle hcapacity honly
    obtain ⟨q', posted, hq', hpending, hposted⟩ :=
      Store.settle_posts (s := { s with executor := e }) hnotices r
    refine ⟨r, executed, q', posted, ?_, hgave, hcancelled, ?_, hpending, ?_⟩
    · rw [hexecute, Store.lastRun_settle]
    · rw [hexecute, hq']
    · have hrecord := Store.record_congr (s := { s with executor := e }) (t := s) rfl r
      rw [hposted, hsucceeds, hrecord]
  · intro sh sh₁ path hload hidle hcapacity hquiet honly
    obtain ⟨r, executed, e, hrun, hstore, hgave, hcancelled, hsucceeds⟩ :=
      Shell.runIn_settles hidle hcapacity honly (Shell.nestedOf sh₁)
    obtain ⟨hcode, hlast⟩ := Shell.runFile_of_loaded hload (Prod.ext hrun rfl)
    have hsettled := Store.settle_ok_iff (s := { sh₁.store with executor := e }) hquiet r
    have hrecord :=
      Store.record_congr (s := { sh₁.store with executor := e }) (t := sh₁.store) rfl r
    rw [hrecord] at hsettled
    refine ⟨r, executed, ?_, hgave, hcancelled, ?_⟩
    · rw [hlast, hstore, Store.lastRun_settle]
    · rw [hcode, ← hsucceeds, ← hsettled, ← Shell.runCode_eq_zero_iff]
      cases (Store.settle { sh₁.store with executor := e } r).1 with
      | error f =>
          refine iff_of_false (fun h => ?_) fun h => ?_
          · cases h
          · cases h.2
      | ok _ =>
          refine ⟨fun h => ⟨Except.ok.inj h, rfl⟩, fun h => ?_⟩
          rw [← h.1]
          rfl

/-! ## A failure that is no longer in the log -/

namespace Forgotten

def starting (id : String) (position : Position) : Node :=
  ⟨id, .start, position, "Start", some (.start (.record []))⟩

def failing : Node :=
  ⟨"failing", .transform, .origin, "Transform",
    some (.transform (.text "reverse") (.text "n") .null)⟩

/-- A node fails, and another start node comes after it. -/
def graph : Graph :=
  ⟨[starting "first" .origin, failing, starting "other" .origin],
    [⟨"edge", "first", "failing", .null, .null, .null, true⟩]⟩

def store : Store :=
  { Store.create (.idle (some 1) 0) (.ofCap 50) none (some .empty) [] false 0 with graph := graph }

theorem valid_graph : graph.report.valid = true := by
  have hacyclic : Acyclic graph.edges :=
    acyclic_of_rank (["first", "failing"].idxOf ·) (by decide)
  exact Graph.report_valid_iff.mpr
    ⟨by decide, (findCycle_eq_none_iff_acyclic (by decide)).mpr hacyclic⟩

theorem itinerary_graph :
    graph.itinerary =
      [⟨starting "first" .origin, [], executeNode (starting "first" .origin) [], true⟩,
        ⟨failing, [], executeNode failing [], true⟩,
        ⟨starting "other" .origin, [], executeNode (starting "other" .origin) [], true⟩] := by
  have hstarts : graph.starts = [starting "first" .origin, starting "other" .origin] := by decide
  have hfollow : graph.followers (Graph.seed (starting "first" .origin))
      (executeNode (starting "first" .origin) []) = [⟨failing, [], ["first"]⟩] := by decide
  have hstop : graph.followers ⟨failing, [], ["first"]⟩ (executeNode failing []) = [] := by decide
  have hend : graph.followers (Graph.seed (starting "other" .origin))
      (executeNode (starting "other" .origin) []) = [] := by decide
  rw [Graph.itinerary, hstarts, Graph.visits_nil_cons,
    Graph.visits_singleton _ (by decide) hfollow, Graph.visits_singleton _ (by decide) hstop,
    Graph.visits_nil_cons, Graph.visits_singleton _ (by decide) hend, Graph.visits_nil_nil]
  rfl

theorem succeeds_graph {r : RunResult} (hrun : r.status ≠ .cancelled) :
    graph.SucceedsBy 1 graph.itinerary r where
  valid := valid_graph
  not_cancelled := hrun
  no_error := by
    rw [itinerary_graph]
    decide

/-! ## A document of one node -/

def document : String :=
  "\x7b\"nodes\":[\x7b\"id\":\"a\",\"type\":\"start\",\"position\":\x7b\"x\":0,\"y\":0\x7d," ++
    "\"data\":\x7b\"nodeType\":\"start\"\x7d\x7d],\"edges\":[]\x7d"

/-- A shell that finds the document in a file. -/
def shell : Shell :=
  ⟨.default, .plain (some .empty) 0 0, .ofTables .empty Archive.defaultKey, .empty,
    ⟨[(["f"], .file (Text.encodeText document))]⟩, [], [], .nothing, none⟩

def single : Graph := ⟨[starting "a" ⟨.int 0, .int 0⟩], []⟩

theorem loaded_shell :
    ∃ loaded, (Shell.loadDocument ⟨"", ["f"]⟩).run shell = (.ok true, loaded)
      ∧ loaded.store.graph = single ∧ loaded.store.executor = .idle (some 100) 0
      ∧ loaded.store.archive = none ∧ loaded.store.noticeListeners = []
      ∧ loaded.hooks = [] ∧ loaded.putOff = .nothing := by
  refine ⟨_, Prod.ext ?_ rfl, ?_⟩ <;> decide +kernel

theorem succeeds_single {r : RunResult} (hrun : r.status ≠ .cancelled) :
    single.SucceedsBy 100 single.itinerary r where
  valid := Graph.report_valid_iff.mpr
    ⟨by decide, (findCycle_eq_none_iff_acyclic (by decide)).mpr acyclic_nil⟩
  not_cancelled := hrun
  no_error := by
    have hstarts : single.starts = [starting "a" ⟨.int 0, .int 0⟩] := by decide
    rw [Graph.itinerary, hstarts, Graph.visits_nil_cons,
      Graph.visits_singleton _ (by decide) rfl]
    show ∀ v ∈ keepLast 100 (_ :: Graph.visits _ [] []), _
    rw [Graph.visits_nil_nil]
    decide

end Forgotten

/-- A node fails, but the log has room for one entry and another start node comes after it,
so the run is reported as successful. A shell that runs a document of a single start node
gives zero. -/
theorem reports_success_over_a_dropped_error :
    (∃ r q', (Forgotten.store.execute []).2.2.lastRun = some r
        ∧ r.visited = ["first", "failing", "other"]
        ∧ (∃ v ∈ Forgotten.graph.itinerary,
          v.node = Forgotten.failing ∧ v.outcome.status = .error)
        ∧ (Forgotten.store.execute []).2.2.notices = some q'
        ∧ ∃ n ∈ q'.pending, n.level = .success)
      ∧ ((Shell.runFile ⟨"", ["f"]⟩ false).run Forgotten.shell).1 = .ok 0 := by
  refine ⟨?_, ?_⟩
  · obtain ⟨r, executed, q', posted, hlast, hgave, hcancelled, hq', hpending, hsuccess⟩ :=
      (reports_success_iff 1).1 Forgotten.store .empty [] rfl rfl rfl
        (fun _ h => absurd h List.not_mem_nil)
    have hrun : r.status ≠ .cancelled := by
      intro h
      obtain ⟨hook, hmem, -⟩ := hcancelled h
      cases hmem
    obtain ⟨-, rfl⟩ := hgave.whole Forgotten.valid_graph hrun
    refine ⟨r, q', hlast, ?_, ?_, hq', ?_⟩
    · rw [hgave.visited]
      exact congrArg (List.map (·.node.id)) Forgotten.itinerary_graph
    · rw [Forgotten.itinerary_graph]
      exact ⟨_, .tail _ (.head _), rfl, by decide⟩
    · rw [hpending]
      exact hsuccess.mpr ⟨Forgotten.succeeds_graph hrun, rfl⟩
  · obtain ⟨loaded, hload, hgraph, hexecutor, harchive, hlisteners, hhooks, hputOff⟩ :=
      Forgotten.loaded_shell
    obtain ⟨r, executed, -, hgave, hcancelled, hcode⟩ :=
      (reports_success_iff 100).2 Forgotten.shell loaded _ hload (by rw [hexecutor]; rfl)
        (by rw [hexecutor]; rfl) (by rw [hlisteners]; rfl)
        (by rw [hhooks]; exact fun _ h => absurd h List.not_mem_nil)
    have hrun : r.status ≠ .cancelled := by
      intro h
      rcases hcancelled h with hdue | ⟨hook, hmem, -⟩
      · rw [hputOff] at hdue
        cases hdue
      · rw [hhooks] at hmem
        cases hmem
    rw [hgraph] at hgave hcode
    have hsucceeds := Forgotten.succeeds_single hrun
    obtain ⟨-, rfl⟩ := hgave.whole hsucceeds.valid hrun
    refine hcode.mpr ⟨hsucceeds, ?_⟩
    unfold Store.record
    rw [harchive]

end Workflow
