import Workflow.Proofs.Graph.Admission
import Workflow.Proofs.Store.Request

/-!
# Which edges a store draws

In a graph that keeps the rules, the store draws just those edges with which the graph still
keeps them. The two ways in which it answers are told apart by `connect_cases_of_rules`: the
edge meets every condition and is drawn, or it is refused for the first condition that it
does not meet, and a refusal changes nothing but the notices (`reject_eq`).

The headline is `draws_exactly`.
-/

namespace Workflow

namespace Store

/-- The edge that is drawn from one node to another when it is asked for. -/
def edgeBetween (source target : String) (sourceHandle targetHandle : Value) : Edge :=
  ⟨Edge.idBetween source target, source, target, sourceHandle, targetHandle, .null, true⟩

/-- A refusal is reported, and given as the answer unless a listener of notices raises. -/
theorem reject_eq (s : Store) (r : Rejection) :
    (s.reject r).2 = { s with notices := s.notices.map (·.notify .error r.message) }
      ∧ ((s.reject r).1 = .ok (.error r)
        ∨ ∃ message, some message ∈ s.noticeListeners
          ∧ (s.reject r).1 = .error (.listener message)) := by
  unfold reject notify
  cases hnotices : s.notices with
  | none =>
      have hsame : s = { s with notices := none } := by rw [← hnotices]
      exact ⟨hsame, Or.inl rfl⟩
  | some q =>
      cases hraised : s.noticeListeners.findSome? id with
      | none => exact ⟨by simp [hraised], Or.inl (by simp [hraised, Except.map])⟩
      | some message =>
          obtain ⟨listener, hmem, heq⟩ := List.exists_of_findSome?_eq_some hraised
          obtain rfl : listener = some message := heq
          exact ⟨by simp [hraised], Or.inr ⟨message, hmem, by simp [hraised, Except.map]⟩⟩

/-- An edge that meets every condition is drawn, and any other is refused for the first that
it does not meet. -/
theorem connect_cases_of_rules {s : Store} (hrules : ∀ o, s.graph.Heeds o)
    (source target : String) (sourceHandle targetHandle : Value) :
    let e := edgeBetween source target sourceHandle targetHandle
    let connected := s.connect source target sourceHandle targetHandle
    ((∀ r, s.graph.Meets e r) ∧ connected.1 = .ok (.ok e.id)
        ∧ connected.2.graph = s.graph.addEdge e)
      ∨ ∃ r, s.graph.FirstUnmet e r ∧ connected = s.reject r := by
  intro e connected
  by_cases hends : ∃ n m, s.graph.findNode? source = some n ∧ s.graph.findNode? target = some m
  · obtain ⟨n, m, hsource, htarget⟩ := hends
    rcases s.graph.objection?_cases hrules (e := e) hsource htarget with
      ⟨hnone, hmeets⟩ | ⟨o, hraised, hfirst⟩
    · have hdrawn := commits_connect hsource htarget hnone sourceHandle targetHandle
      refine Or.inl ⟨hmeets, ?_, hdrawn.graph⟩
      simp [connected, connect, hsource, htarget, hnone, e, edgeBetween]
    · refine Or.inr ⟨_, hfirst, ?_⟩
      simp [connected, connect, hsource, htarget, hraised]
  · refine Or.inr ⟨.unknownNode, ⟨[], _, rfl, List.forall_mem_nil _, ?_⟩, ?_⟩
    · rintro ⟨hsource, htarget⟩
      obtain ⟨n, hn⟩ := Graph.mem_ids_iff.mp hsource
      obtain ⟨m, hm⟩ := Graph.mem_ids_iff.mp htarget
      exact hends ⟨n, m, hn, hm⟩
    · simp only [connected, connect]
      split
      · rename_i n m hsource htarget
        exact absurd ⟨n, m, hsource, htarget⟩ hends
      · rfl

/-- **A store draws exactly the edges with which the rules are kept.** In a graph that keeps
the five rules, an edge that is asked for is drawn if and only if both of its ends are nodes
and the graph keeps the rules with it. Then it is the one edge that comes to the others, at
their end. Otherwise the request is refused for the first condition in order that is not met:
the answer gives this reason, as the notice does, unless a listener of notices raises, and
nothing but the notices is changed. -/
theorem draws_exactly {s : Store} (hrules : ∀ o, s.graph.Heeds o) (source target : String)
    (sourceHandle targetHandle : Value) :
    let e := edgeBetween source target sourceHandle targetHandle
    let connected := s.connect source target sourceHandle targetHandle
    ((∃ id, connected.1 = .ok (.ok id)) ↔
        (source ∈ s.graph.nodes.map (·.id) ∧ target ∈ s.graph.nodes.map (·.id))
          ∧ ∀ o, (s.graph.addEdge e).Heeds o)
      ∧ (∀ id, connected.1 = .ok (.ok id) → id = e.id ∧ connected.2.graph = s.graph.addEdge e)
      ∧ ((∀ id, connected.1 ≠ .ok (.ok id)) → ∃ r, s.graph.FirstUnmet e r
        ∧ (connected.1 = .ok (.error r)
          ∨ ∃ message, some message ∈ s.noticeListeners
            ∧ connected.1 = .error (.listener message))
        ∧ connected.2 = { s with notices := s.notices.map (·.notify .error r.message) }) := by
  intro e connected
  have hcases := connect_cases_of_rules hrules source target sourceHandle targetHandle
  rcases hcases with ⟨hmeets, hdrawn, hgraph⟩ | ⟨r, hfirst, hrefused⟩
  · refine ⟨⟨fun _ => ?_, fun _ => ⟨e.id, hdrawn⟩⟩, ?_, fun hnone => absurd hdrawn (hnone e.id)⟩
    · exact ⟨hmeets .unknownNode, fun o => hmeets (.objection o)⟩
    · intro id hid
      rw [hdrawn] at hid
      cases hid
      exact ⟨rfl, hgraph⟩
  · obtain ⟨hstate, hanswer⟩ := s.reject_eq r
    rw [← hrefused] at hstate hanswer
    have hnone : ∀ id, connected.1 ≠ .ok (.ok id) := by
      intro id hid
      rcases hanswer with h | ⟨_, -, h⟩ <;> cases hid.symm.trans h
    refine ⟨⟨fun ⟨id, hid⟩ => absurd hid (hnone id), ?_⟩, fun id hid => absurd hid (hnone id),
      fun _ => ⟨r, hfirst, hanswer, hstate⟩⟩
    rintro ⟨hends, hkept⟩
    obtain ⟨-, -, -, -, hunmet⟩ := hfirst
    refine absurd ?_ hunmet
    cases r with
    | unknownNode => exact hends
    | objection o => exact hkept o

/-- Among three nodes in a row, the first is joined to the last. An edge from the last to
itself breaks three of the rules at once, and is refused as a loop. -/
theorem draws_exactly_among_three :
    let node (id : String) (kind : NodeKind) : Node :=
      ⟨id, kind, .origin, id, some (Config.initial kind)⟩
    let s : Store := { plain (some .empty) 0 0 with
      graph := ⟨[node "first" .start, node "mid" .transform, node "last" .finish],
        [edgeBetween "first" "mid" .null .null, edgeBetween "mid" "last" .null .null]⟩ }
    (∀ o, s.graph.Heeds o)
      ∧ (s.connect "first" "last" .null .null).1 = .ok (.ok (Edge.idBetween "first" "last"))
      ∧ (s.connect "last" "last" .null .null).1 = .ok (.error (.objection .selfLoop))
      ∧ s.graph.FirstUnmet (edgeBetween "last" "last" .null .null) (.objection .selfLoop) := by
  intro node s
  have hrules : ∀ o, s.graph.Heeds o := by
    intro o
    cases o with
    | selfLoop | duplicate | fromFinish | intoStart => unfold Graph.Heeds; decide
    | cycle => exact acyclic_of_rank (["first", "mid", "last"].idxOf ·) (by decide)
  have hkept : ∀ o, (s.graph.addEdge (edgeBetween "first" "last" .null .null)).Heeds o := by
    intro o
    cases o with
    | selfLoop | duplicate | fromFinish | intoStart => unfold Graph.Heeds; decide
    | cycle => exact acyclic_of_rank (["first", "mid", "last"].idxOf ·) (by decide)
  have hloop : (s.connect "last" "last" .null .null).1 = .ok (.error (.objection .selfLoop)) := by
    decide +kernel
  obtain ⟨hiff, hid, -⟩ := draws_exactly hrules "first" "last" .null .null
  obtain ⟨id, hdrawn⟩ := hiff.mpr ⟨by decide, hkept⟩
  obtain rfl : id = Edge.idBetween "first" "last" := (hid id hdrawn).1
  obtain ⟨-, -, hrefusal⟩ := draws_exactly hrules "last" "last" .null .null
  obtain ⟨r, hfirst, hanswer, -⟩ := hrefusal (by rw [hloop]; exact nofun)
  rw [hloop] at hanswer
  refine ⟨hrules, hdrawn, hloop, ?_⟩
  rcases hanswer with h | ⟨_, -, h⟩
  · cases h
    exact hfirst
  · cases h

end Store
end Workflow
