import Workflow.Proofs.Graph.Sturdy
import Workflow.Proofs.Store.Import
import Workflow.Proofs.Store.Soundness
import Workflow.Proofs.Store.Verdict
import Workflow.Proofs.Store.View

/-!
# Stores that answer

A store is sturdy if its graph, the snapshots of its history and its view can be written
down, and if those who listen neither make edits nor raise when they hear of a notice. Every
operation leaves a sturdy store sturdy, and fails in two ways only: the model refuses a
configuration, or the result of a run cannot be recorded.

Each operation has one lemma, which says what is answered and that the store stays sturdy.
All of them but the steps through the history end with a commit (`Store.Sturdy.commit`) or a
notice (`Store.Sturdy.notify`).
-/

namespace Workflow

open Value

namespace Store

/-- A store that can be written down and that no listener disturbs. -/
structure Sturdy (s : Store) : Prop where
  holds : s.Holds Graph.Sturdy
  viewport : s.viewport.toValue.WithinDigits
  passive : ∀ l ∈ s.listeners, l.Passive
  quiet : s.raised? = none

theorem withinDigits_initial : Viewport.initial.toValue.WithinDigits := by decide +kernel

theorem withinDigits_origin : Position.origin.toValue.WithinDigits := by decide +kernel

theorem sturdy_create (executor : Executor) (asked : Int) (archive : Option Archive)
    (notices : Option NoticeQueue) {listeners : List ChangeListener}
    (hpassive : ∀ l ∈ listeners, l.Passive) (autosave : Bool) (issued : Nat) :
    (create executor (.ofCap asked) archive notices listeners autosave issued).Sturdy where
  holds := (fresh_create ..).holds Graph.sturdy_empty
  viewport := withinDigits_initial
  passive := by
    refine List.forall_mem_append.mpr ⟨hpassive, ?_⟩
    split
    · exact List.forall_mem_singleton.mpr trivial
    · exact List.forall_mem_nil _
  quiet := rfl

/-! ## What an archive gives and takes -/

theorem sturdy_of_load {a : Archive} {d : Document} (hload : a.load = .ok (some d)) :
    d.Sturdy := by
  unfold Archive.load at hload
  split at hload
  · rename_i text hslot
    obtain ⟨imported, himport, hd⟩ := bind_eq_ok.mp hload
    cases imported with
    | document d' =>
        obtain rfl := Option.some.inj (Except.ok.inj hd)
        exact Document.sturdy_of_importText himport
    | refused _ => cases hd
  · cases hload

theorem isTableFailure_of_addRun {t : Tables} {row : RunRow} {failure : Failure}
    (hrefused : t.addRun row = .error failure) : isTableFailure failure = true := by
  unfold Tables.addRun Tables.access at hrefused
  split at hrefused
  · split at hrefused
    · exact Except.error.inj hrefused ▸ rfl
    · cases hrefused
  · exact Except.error.inj hrefused ▸ rfl
  · exact Except.error.inj hrefused ▸ rfl

/-- A run whose log can be written is recorded, or the tables refuse it. -/
theorem isTableFailure_of_recordRun {a : Archive} {entries : List StoredEntry} {log : String}
    (hlog : Archive.writeLog entries = .ok log) {status started : String}
    {finished : Option String} {failure : Failure}
    (hfailed : (a.recordRun entries status started finished).1 = .error failure) :
    isTableFailure failure = true := by
  unfold Archive.recordRun Archive.recordRunAs at hfailed
  dsimp only at hfailed
  rw [hlog] at hfailed
  dsimp only at hfailed
  split at hfailed
  · rename_i refused hrefused
    obtain rfl := Except.error.inj hfailed
    exact isTableFailure_of_addRun hrefused
  · cases hfailed

/-- A result can be recorded if its log can be written: what the tables refuse is passed
over. -/
theorem record_of_writeLog {s : Store} {r : RunResult} {log : String}
    (hlog : Archive.writeLog (r.logs.map .ofEntry) = .ok log) : (s.record r).1 = .ok () := by
  unfold Store.record
  split
  · rfl
  · rename_i a harchive
    split
    · rfl
    · split
      · rfl
      · rename_i failure a' hfailed
        exact if_pos (isTableFailure_of_recordRun hlog (congrArg Prod.fst hfailed))

/-- Only a log that cannot be written keeps a result from being recorded. -/
theorem writeLog_of_record {s : Store} {r : RunResult} {failure : Failure}
    (h : (s.record r).1 = .error failure) :
    s.archive ≠ none ∧ ∃ fault, Archive.writeLog (r.logs.map .ofEntry) = .error fault := by
  refine ⟨fun hnone => ?_, ?_⟩
  · unfold Store.record at h
    rw [hnone] at h
    cases h
  · cases hlog : Archive.writeLog (r.logs.map .ofEntry) with
    | error fault => exact ⟨fault, rfl⟩
    | ok log =>
        rw [record_of_writeLog hlog] at h
        cases h

section

variable {s : Store} (h : s.Sturdy)
include h

theorem Sturdy.document : s.document.toValue.WithinDigits := by
  refine Document.withinDigits_toValue.mpr ⟨fun n hn => ?_, h.holds.graph.edges, fun w hw => ?_⟩
  · exact (h.holds.graph.nodes n hn).digits
  · exact Option.some.inj hw ▸ h.viewport

theorem Sturdy.of_eq {s' : Store} (hgraph : s'.graph = s.graph)
    (hviewport : s'.viewport = s.viewport) (hhistory : s'.history = s.history)
    (hlisteners : s'.listeners = s.listeners)
    (hnoticeListeners : s'.noticeListeners = s.noticeListeners) : s'.Sturdy where
  holds := ⟨hgraph ▸ h.holds.graph, hhistory ▸ h.holds.snapshots⟩
  viewport := hviewport ▸ h.viewport
  passive := hlisteners ▸ h.passive
  quiet := (congrArg (List.findSome? id) hnoticeListeners).trans h.quiet

/-! ## Commits and notices -/

theorem Sturdy.withGraph {g : Graph} (hg : g.Sturdy) : Sturdy { s with graph := g } where
  holds := ⟨hg, h.holds.snapshots⟩
  viewport := h.viewport
  passive := h.passive
  quiet := h.quiet

theorem Sturdy.commit (action : Action) : (s.commit action).Sturdy := by
  obtain ⟨a, ha⟩ := s.commit_eq action
  rw [ha]
  refine ⟨⟨h.holds.graph, fun g hg => ?_⟩, h.viewport, h.passive, h.quiet⟩
  rcases History.mem_snapshots_save hg with rfl | hold
  · exact h.holds.graph
  · exact h.holds.snapshots g hold

theorem Sturdy.notify (level : Level) (message : String) :
    ∃ s', s.notify level message = (.ok (), s') ∧ s'.Sturdy := by
  cases hnotices : s.notices with
  | none =>
      refine ⟨s, ?_, h⟩
      unfold Store.notify
      rw [hnotices]
  | some q =>
      exact ⟨_, notify_of_quiet hnotices h.quiet level message, h.of_eq rfl rfl rfl rfl rfl⟩

/-! ## Edits -/

theorem Sturdy.addNode (kind : NodeKind) {position : Option Position}
    (hposition : ∀ p ∈ position, p.toValue.WithinDigits) :
    ∃ id s', s.addNode kind.name position = (.ok id, s') ∧ s'.Sturdy := by
  have hparse : NodeKind.parse kind.name = .ok kind := by
    unfold NodeKind.parse
    rw [NodeKind.ofName?_name]
  have hnode : (newNode (nodeId (s.issued + 1)) kind position).Sturdy := by
    refine ⟨Node.withinDigits_toValue.mpr ⟨?_, fun c hc => ?_⟩, fun c hc => ?_⟩
    · cases position with
      | none => exact withinDigits_origin
      | some p => exact hposition p rfl
    · exact Option.some.inj hc ▸ Config.withinDigits_initial kind
    · exact Option.some.inj hc ▸ (Config.regular_iff.mp (Config.regular_initial kind)).2
  unfold Store.addNode addNodeAs
  rw [hparse]
  refine ⟨_, _, rfl, ?_⟩
  apply Sturdy.commit
  exact (h.withGraph (h.holds.graph.addNode hnode)).of_eq rfl rfl rfl rfl rfl

theorem Sturdy.rename (id label : String) : (s.rename id label).2.Sturdy := by
  unfold Store.rename
  split
  · exact h
  · refine (h.withGraph ?_).commit _
    refine h.holds.graph.updateNode fun n _ hn => ⟨?_, hn.known⟩
    obtain ⟨hposition, hconfig⟩ := Node.withinDigits_toValue.mp hn.digits
    exact Node.withinDigits_toValue.mpr ⟨hposition, hconfig⟩

theorem Sturdy.removeNodes (ids : List String) : (s.removeNodes ids).2.Sturdy := by
  unfold Store.removeNodes
  dsimp only
  split
  · exact h
  · dsimp only
    apply Sturdy.commit
    exact (h.withGraph (h.holds.graph.removeNodes ids)).of_eq rfl rfl rfl rfl rfl

theorem Sturdy.disconnect (id : String) : (s.disconnect id).2.Sturdy := by
  unfold Store.disconnect
  dsimp only
  split
  · exact h
  · exact (h.withGraph (h.holds.graph.removeEdge id)).commit _

theorem Sturdy.clear : s.clear.Sturdy := by
  unfold Store.clear
  apply Sturdy.commit
  exact (h.withGraph Graph.sturdy_empty).of_eq rfl rfl rfl rfl rfl

theorem Sturdy.reject (rejection : Rejection) :
    ∃ answer s', s.reject rejection = (.ok answer, s') ∧ s'.Sturdy := by
  obtain ⟨s', hnotify, hs'⟩ := h.notify .error rejection.message
  refine ⟨.error rejection, s', ?_, hs'⟩
  unfold Store.reject
  rw [hnotify]
  rfl

theorem Sturdy.connect (source target : String) {sourceHandle targetHandle : Value}
    (hsource : sourceHandle.WithinDigits) (htarget : targetHandle.WithinDigits) :
    ∃ answer s', s.connect source target sourceHandle targetHandle = (.ok answer, s')
      ∧ s'.Sturdy := by
  unfold Store.connect
  split
  · split
    · exact h.reject _
    · refine ⟨_, _, rfl, (h.withGraph (h.holds.graph.addEdge ?_)).commit _⟩
      exact Edge.withinDigits_toValue.mpr ⟨hsource, htarget, withinDigits_null⟩
  · exact h.reject _

/-- Settings are changed, or they are refused by the model, or they name what the node does
by a list or a record. -/
theorem Sturdy.configure (id : String) {changes : Record}
    (hdigits : (Value.record changes).WithinDigits) :
    ∃ result s', s.configure id (.settings (.record changes)) = (result, s') ∧ s'.Sturdy
      ∧ ∀ failure, result = .error failure → (∃ fault, failure = .fault (.model fault))
        ∨ ∃ n name v, s.graph.findNode? id = some n ∧ name ∈ n.kind.namedBy?
          ∧ (name, v) ∈ changes ∧ v.checkHashable ≠ .ok () := by
  unfold Store.configure
  cases hfind : s.graph.findNode? id with
  | none => exact ⟨_, _, rfl, h, nofun⟩
  | some n =>
      have hn : n.Sturdy := h.holds.graph.nodes n (Graph.findNode?_eq_some hfind).1
      have hmerged := hn.withinDigits_merge hdigits
      dsimp only
      cases hconfig : n.changedConfig (.settings (.record changes)) with
      | ok c =>
          rw [n.changedConfig_record] at hconfig
          refine ⟨_, _, rfl, (h.withGraph ?_).commit _, nofun⟩
          refine h.holds.graph.updateNode fun m _ hm => ?_
          exact hm.withConfig (Config.regular_ofRecord hconfig)
            (Config.withinDigits_ofRecord hmerged hconfig)
      | error fault =>
          rw [n.changedConfig_record] at hconfig
          refine ⟨_, _, rfl, h, fun failure hfailure => ?_⟩
          obtain rfl := Except.error.inj hfailure
          by_cases hplain : ∀ name ∈ n.kind.namedBy?, ∀ v, (name, v) ∈ changes →
              v.checkHashable = .ok ()
          · rcases Config.ofRecord_answers (hn.namesPlainly_merge hplain) hmerged with
              ⟨c, hc⟩ | ⟨refused, hrefused⟩
            · rw [hc] at hconfig
              cases hconfig
            · rw [hrefused] at hconfig
              obtain rfl := Except.error.inj hconfig
              exact .inl ⟨_, rfl⟩
          · push Not at hplain
            obtain ⟨name, hname, v, hmem, hv⟩ := hplain
            exact .inr ⟨n, name, v, rfl, hname, hmem, hv⟩

/-! ## Documents -/

theorem Sturdy.adopt {d : Document} (hd : d.Sturdy) : (s.adopt d).Sturdy := by
  have hviewport : (d.viewport.getD s.viewport).toValue.WithinDigits := by
    cases hview : d.viewport with
    | none => exact h.viewport
    | some w => exact hd.viewport w hview
  have hadopted : Sturdy { s with graph := ⟨d.nodes, d.edges⟩,
                                  viewport := d.viewport.getD s.viewport } :=
    ⟨⟨hd.graph, h.holds.snapshots⟩, hviewport, h.passive, h.quiet⟩
  unfold Store.adopt
  apply Sturdy.commit
  exact hadopted.of_eq rfl rfl rfl rfl rfl

theorem Sturdy.importDocument {d : Document} (hd : d.Sturdy) :
    ∃ s', s.importDocument d = (.ok [], s') ∧ s'.Sturdy := by
  have hgate := Document.checkDocument_toValue (d := d) hd.regular
  have hread := Document.ofValue_toValue (d := d) hd.regular
  exact ⟨_, importValue_of_ofValue hgate hread s, h.adopt hd⟩

theorem Sturdy.restore : s.restore.2.Sturdy := by
  unfold Store.restore
  split
  · exact h
  · rename_i a harchive
    split
    · exact h
    · exact h
    · rename_i d hload
      obtain ⟨s', himport, hs'⟩ := h.importDocument (sturdy_of_load hload)
      rw [himport]
      exact hs'

/-! ## Steps through the history -/

theorem Sturdy.stepped {h' : History} (hsnapshots : h'.snapshots = s.history.snapshots)
    (action : Action) : (s.stepped h' action).Sturdy := by
  have hkept : ∀ g ∈ h'.snapshots, g.Sturdy := hsnapshots ▸ h.holds.snapshots
  unfold Store.stepped
  rw [hearStep_eq _ h.passive]
  exact ⟨⟨hkept _ h'.current_mem, hkept⟩, h.viewport, h.passive, h.quiet⟩

theorem Sturdy.undo : s.undo.2.Sturdy := by
  rcases s.undo_cases with hnone | ⟨h', hundo, hstep⟩
  · rw [hnone]
    exact h
  · rw [hstep]
    exact h.stepped (History.at_of_undo hundo).snapshots _

theorem Sturdy.redo : s.redo.2.Sturdy := by
  rcases s.redo_cases with hnone | ⟨h', hredo, hstep⟩
  · rw [hnone]
    exact h
  · rw [hstep]
    exact h.stepped (History.at_of_redo hredo).snapshots _

/-! ## Runs -/

theorem Sturdy.settle (r : RunResult) :
    ∃ result s', s.settle r = (result, s') ∧ s'.Sturdy
      ∧ ∀ failure, result = .error failure → (s.record r).1 = .error failure := by
  let kept : Store := { s with lastRun := some r }
  obtain ⟨a, ha⟩ := record_eq kept r
  have hrecorded : Sturdy { kept with archive := a } := h.of_eq rfl rfl rfl rfl rfl
  rw [record_congr (s := kept) (t := s) rfl] at ha
  unfold Store.settle
  rw [ha]
  cases hrecord : (s.record r).1 with
  | error failure => exact ⟨_, _, rfl, hrecorded, fun _ hf => hf⟩
  | ok _ =>
      cases r.notice? with
      | none => exact ⟨_, _, rfl, hrecorded, nofun⟩
      | some notice =>
          obtain ⟨s', hnotify, hs'⟩ := hrecorded.notify notice.1 notice.2
          exact ⟨_, s', hnotify, hs', nofun⟩

end

end Store
end Workflow
