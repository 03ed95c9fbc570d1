import Workflow.Document.Exchange
import Workflow.Proofs.Fallible
import Workflow.Proofs.Graph.Rules

/-!
# What passes the gate is sound

The gate and the reader of documents are two readers of the same loose values. This file
joins them: where the gate finds nothing to complain of, the identities it collected are
distinct and are those of the nodes read (`ids_of_checkNodes`), and the ends of every edge
read are among them (`joined_of_checkEnds`). The configurations need no gate, for a node is
only built with the configuration of its kind (`Node.build_eq_ok`).

`sound_of_importValue` is the sum: a document that is imported has a sound graph.
-/

namespace Workflow

/-! ## The identities of nodes -/

namespace Gate

def idOfValue? : Value → Option String
  | .record r => idOf? r
  | _ => none

/-- A node without complaints has an identity that no node before it has. -/
theorem id_of_checkNode {seen : List String} {index : Nat} {v : Value}
    (h : checkNode seen index v = .ok []) :
    ∃ id, idOfValue? v = some id ∧ id ∉ seen ∧ addId seen v = seen ++ [id] := by
  cases v with
  | record r =>
      obtain ⟨type, -, h⟩ := bind_eq_ok.mp h
      obtain ⟨typeFindings, -, h⟩ := bind_eq_ok.mp h
      obtain ⟨positionFindings, -, h⟩ := bind_eq_ok.mp h
      obtain ⟨dataFindings, -, h⟩ := bind_eq_ok.mp h
      have hall : checkId seen index r ++ typeFindings ++ positionFindings ++ dataFindings = [] :=
        Except.ok.inj h
      have hid : checkId seen index r = [] := by
        simp only [List.append_eq_nil_iff] at hall
        exact hall.1.1.1
      unfold checkId at hid
      cases hr : idOf? r with
      | none =>
          rw [hr] at hid
          cases hid
      | some id =>
          simp only [hr] at hid
          by_cases hseen : id ∈ seen
          · rw [if_pos hseen] at hid
            cases hid
          · exact ⟨id, hr, hseen, by simp only [addId, hr, if_neg hseen]⟩
  | null | bool _ | number _ | text _ | list _ => cases h

/-- Nodes without complaints have identities distinct from one another and from those before
them, and the gate knows all of these afterwards. -/
theorem ids_of_checkNodes : ∀ {vs : List Value} {seen : List String} {index : Nat},
    checkNodes seen index vs = .ok [] → ∃ ids, vs.map idOfValue? = ids.map some
      ∧ ids.Nodup ∧ (∀ id ∈ ids, id ∉ seen) ∧ vs.foldl addId seen = seen ++ ids
  | [], seen, _, _ =>
      ⟨[], rfl, .nil, fun _ h => absurd h List.not_mem_nil, (List.append_nil seen).symm⟩
  | v :: vs, seen, index, h => by
      obtain ⟨first, hfirst, h⟩ := bind_eq_ok.mp h
      obtain ⟨rest, hrest, h⟩ := bind_eq_ok.mp h
      obtain ⟨rfl, rfl⟩ := List.append_eq_nil_iff.mp (Except.ok.inj h)
      obtain ⟨id, hid, hnew, hadd⟩ := id_of_checkNode hfirst
      obtain ⟨ids, hids, hnodup, hapart, hfold⟩ := ids_of_checkNodes hrest
      rw [hadd] at hapart hfold
      refine ⟨id :: ids, ?_, ?_, ?_, ?_⟩
      · rw [List.map_cons, List.map_cons, hid, hids]
      · exact List.nodup_cons.mpr
          ⟨fun hmem => hapart id hmem (List.mem_append_right _ List.mem_cons_self), hnodup⟩
      · intro a ha
        rcases List.mem_cons.mp ha with rfl | ha
        · exact hnew
        · exact fun hseen => hapart a ha (List.mem_append_left _ hseen)
      · rw [List.foldl_cons, hadd, hfold, List.append_assoc, List.singleton_append]

/-! ## The ends of edges -/

/-- An end without complaints that is given at all has the text of a known identity. -/
theorem toText_of_checkEnd {ids : List String} {r : Record} {role : String}
    (h : checkEnd ids r role = .ok []) (hfilled : (r.getD role .null).isFilled = true) :
    ∃ name, (r.getD role .null).toText = .ok name ∧ name ∈ ids := by
  unfold checkEnd at h
  simp only [hfilled, Bool.not_true, Bool.false_eq_true, if_false] at h
  obtain ⟨name, hname, h⟩ := bind_eq_ok.mp h
  refine ⟨name, hname, ?_⟩
  by_cases hmem : name ∈ ids
  · exact hmem
  · rw [if_neg hmem] at h
    obtain ⟨edge, -, h⟩ := bind_eq_ok.mp h
    cases h

/-- A field that must be there is there when nothing is complained of. -/
theorem isFilled_of_checkField {index : Nat} {r : Record} {field : String}
    (h : checkField index r field = []) : (r.getD field .null).isFilled = true := by
  unfold checkField at h
  split at h
  · assumption
  · cases h

theorem checkEdge_eq_nil {index : Nat} {v : Value} (h : checkEdge index v = []) :
    ∃ r, v = .record r ∧ (Record.getD r "source" .null).isFilled = true
      ∧ (Record.getD r "target" .null).isFilled = true := by
  cases v with
  | record r =>
      obtain ⟨hid, htarget⟩ := List.append_eq_nil_iff.mp h
      obtain ⟨-, hsource⟩ := List.append_eq_nil_iff.mp hid
      exact ⟨r, rfl, isFilled_of_checkField hsource, isFilled_of_checkField htarget⟩
  | null | bool _ | number _ | text _ | list _ => cases h

/-- Edges without complaints have ends whose texts are known identities. -/
theorem joined_of_checkEnds {ids : List String} : ∀ {vs : List Value} {index : Nat},
    checkEdges index vs = [] → checkEnds ids vs = .ok [] → ∀ v ∈ vs,
      ∃ r, v = .record r ∧ (∃ name, (Record.getD r "source" .null).toText = .ok name ∧ name ∈ ids)
        ∧ ∃ name, (Record.getD r "target" .null).toText = .ok name ∧ name ∈ ids
  | [], _, _, _, _, hv => absurd hv List.not_mem_nil
  | w :: vs, index, hall, hends, v, hv => by
      obtain ⟨hedge, hedges⟩ := List.append_eq_nil_iff.mp hall
      obtain ⟨r, rfl, hsource, htarget⟩ := checkEdge_eq_nil hedge
      obtain ⟨sources, hs, hfound⟩ := bind_eq_ok.mp hends
      obtain ⟨targets, ht, hfound⟩ := bind_eq_ok.mp hfound
      obtain ⟨rest, hrest, hfound⟩ := bind_eq_ok.mp hfound
      obtain ⟨hboth, rfl⟩ := List.append_eq_nil_iff.mp (Except.ok.inj hfound)
      obtain ⟨rfl, rfl⟩ := List.append_eq_nil_iff.mp hboth
      rcases List.mem_cons.mp hv with rfl | hv
      · exact ⟨r, rfl, toText_of_checkEnd hs hsource, toText_of_checkEnd ht htarget⟩
      · exact joined_of_checkEnds hedges hrest v hv

end Gate

/-! ## The readers -/

/-- What a node that is read consists of: the text of its identity, and the configuration
read for its kind. -/
theorem Node.ofValue_eq_ok {v : Value} {n : Node} (h : Node.ofValue v = .ok n) :
    ∃ r id kind position label config, v = .record r
      ∧ (∃ w, Record.get? r "id" = some w ∧ w.toText = .ok id)
      ∧ Node.build id (NodeKind.name kind) position label (some config) = .ok n := by
  unfold Node.ofValue at h
  obtain ⟨r, hr, h⟩ := bind_eq_ok.mp h
  obtain ⟨kindValue, -, h⟩ := bind_eq_ok.mp h
  obtain ⟨kind, -, h⟩ := bind_eq_ok.mp h
  have hv : v = .record r := by
    cases v with
    | record r' => exact congrArg Value.record (Except.ok.inj hr)
    | null | bool _ | number _ | text _ | list _ => cases hr
  cases hget : Record.get? r "id" with
  | none =>
      simp only [hget] at h
      cases h
  | some w =>
      simp only [hget] at h
      obtain ⟨id, hid, h⟩ := bind_eq_ok.mp h
      obtain ⟨position, -, h⟩ := bind_eq_ok.mp h
      obtain ⟨fields, -, h⟩ := bind_eq_ok.mp h
      obtain ⟨label, -, h⟩ := bind_eq_ok.mp h
      obtain ⟨config, -, h⟩ := bind_eq_ok.mp h
      exact ⟨r, id, kind, position, label, config, hv, ⟨w, hget, hid⟩, h⟩

/-- A node that is built has the identity asked for and the configuration of its kind. -/
theorem Node.build_eq_ok {id kindName label : String} {position : Position}
    {config : Option Config} {n : Node}
    (h : Node.build id kindName position label config = .ok n) :
    n.id = id ∧ n.Configured := by
  unfold Node.build at h
  split at h
  · cases h
  · rename_i kind _
    by_cases hkind : (config.getD (Config.initial kind)).kind = kind
    · simp only [if_pos hkind] at h
      cases h
      exact ⟨rfl, _, rfl, hkind⟩
    · simp only [if_neg hkind] at h
      cases h

/-- A node is read with the identity that its value gives as a text. -/
theorem Node.id_of_ofValue {v : Value} {n : Node} {id : String} (h : Node.ofValue v = .ok n)
    (hid : Gate.idOfValue? v = some id) : n.id = id := by
  obtain ⟨r, id', kind, position, label, config, rfl, ⟨w, hw, htext⟩, hbuild⟩ := ofValue_eq_ok h
  have hget : Record.get? r "id" = some (.text id) := by
    simp only [Gate.idOfValue?, Gate.idOf?] at hid
    split at hid
    · rename_i name hname
      split at hid
      · cases hid
      · obtain rfl := Option.some.inj hid
        exact hname
    · cases hid
  rw [hget] at hw
  obtain rfl := Option.some.inj hw
  exact (build_eq_ok hbuild).1.trans (Except.ok.inj htext).symm

theorem Node.ids_of_ofValue {vs : List Value} {ns : List Node}
    (h : List.Forall₂ (fun v n => Node.ofValue v = .ok n) vs ns) {ids : List String}
    (hids : vs.map Gate.idOfValue? = ids.map some) : ns.map (·.id) = ids := by
  induction h generalizing ids with
  | nil =>
      cases ids with
      | nil => rfl
      | cons id ids => cases hids
  | cons hread _ ih =>
      cases ids with
      | nil => cases hids
      | cons id ids =>
          rw [List.map_cons, List.map_cons] at hids
          obtain ⟨hid, hids⟩ := List.cons.inj hids
          rw [List.map_cons, ih hids, id_of_ofValue hread hid]

/-- The ends of an edge are the texts that its value gives for them. -/
theorem Edge.ends_of_ofValue {r : Record} {e : Edge} (h : Edge.ofValue (.record r) = .ok e) :
    (Record.getD r "source" .null).toText = .ok e.source
      ∧ (Record.getD r "target" .null).toText = .ok e.target := by
  have hrequired : ∀ {name s : String}, Edge.requiredText r name = .ok s →
      (Record.getD r name .null).toText = .ok s := by
    intro name s hs
    unfold Edge.requiredText at hs
    unfold Record.getD
    cases hget : Record.get? r name with
    | none =>
        rw [hget] at hs
        cases hs
    | some w =>
        rw [hget] at hs
        exact hs
  obtain ⟨id, -, h⟩ := bind_eq_ok.mp h
  obtain ⟨source, hsource, h⟩ := bind_eq_ok.mp h
  obtain ⟨target, htarget, h⟩ := bind_eq_ok.mp h
  cases h
  exact ⟨hrequired hsource, hrequired htarget⟩

/-! ## Documents -/

/-- What the gate found nothing wrong with has lists of nodes and edges, each without
complaints. -/
theorem checkDocument_eq_nil {v : Value} (h : checkDocument v = .ok []) :
    ∃ r nodes edges, v = .record r ∧ Record.getD r "nodes" .null = .list nodes
      ∧ Record.getD r "edges" .null = .list edges ∧ Gate.checkNodes [] 0 nodes = .ok []
      ∧ Gate.checkEdges 0 edges = [] ∧ Gate.checkEnds (Gate.idsOf nodes) edges = .ok [] := by
  cases v with
  | record r =>
      obtain ⟨nodeFindings, hnodes, h⟩ := bind_eq_ok.mp h
      obtain ⟨edgeFindings, hedges, h⟩ := bind_eq_ok.mp h
      obtain ⟨hboth, -⟩ := List.append_eq_nil_iff.mp (Except.ok.inj h)
      obtain ⟨rfl, rfl⟩ := List.append_eq_nil_iff.mp hboth
      cases hn : Record.getD r "nodes" .null with
      | list nodes =>
          cases he : Record.getD r "edges" .null with
          | list edges =>
              rw [hn] at hnodes hedges
              rw [he] at hedges
              obtain ⟨ends, hends, hedges⟩ := bind_eq_ok.mp hedges
              obtain ⟨hown, rfl⟩ := List.append_eq_nil_iff.mp (Except.ok.inj hedges)
              exact ⟨r, nodes, edges, rfl, hn, he, hnodes, hown, hends⟩
          | null | bool _ | number _ | text _ | record _ =>
              rw [he] at hedges
              cases hedges
      | null | bool _ | number _ | text _ | record _ =>
          rw [hn] at hnodes
          cases hnodes
  | null | bool _ | number _ | text _ | list _ => cases h

theorem Document.ofValue_eq_ok {r : Record} {nodes edges : List Value} {d : Document}
    (h : Document.ofValue (.record r) = .ok d)
    (hnodes : Record.getD r "nodes" .null = .list nodes)
    (hedges : Record.getD r "edges" .null = .list edges) :
    List.Forall₂ (fun v n => Node.ofValue v = .ok n) nodes d.nodes
      ∧ List.Forall₂ (fun v e => Edge.ofValue v = .ok e) edges d.edges := by
  have hgiven : ∀ {name : String} {items : List Value} (default : Value),
      Record.getD r name .null = .list items → Record.getD r name default = .list items := by
    intro name items default hname
    unfold Record.getD at hname ⊢
    cases hget : Record.get? r name with
    | none =>
        rw [hget] at hname
        cases hname
    | some w =>
        rw [hget] at hname
        exact hname
  unfold Document.ofValue at h
  obtain ⟨r', hr, h⟩ := bind_eq_ok.mp h
  obtain rfl : r = r' := Except.ok.inj hr
  rw [hgiven _ hnodes, hgiven _ hedges] at h
  obtain ⟨nodeItems, hitems, h⟩ := bind_eq_ok.mp h
  obtain rfl : nodes = nodeItems := Except.ok.inj hitems
  obtain ⟨ns, hns, h⟩ := bind_eq_ok.mp h
  obtain ⟨edgeItems, hitems, h⟩ := bind_eq_ok.mp h
  obtain rfl : edges = edgeItems := Except.ok.inj hitems
  obtain ⟨es, hes, h⟩ := bind_eq_ok.mp h
  cases h
  exact ⟨forall₂_of_mapM hns, forall₂_of_mapM hes⟩

/-- An imported document passed the gate and was read from the value. -/
theorem Document.importValue_eq_document {tolerates : Fault → Bool} {v : Value}
    {d : Document} (h : Document.importValue tolerates v = .ok (.document d)) :
    checkDocument v = .ok [] ∧ Document.ofValue v = .ok d := by
  unfold Document.importValue at h
  obtain ⟨complaints, hcheck, h⟩ := bind_eq_ok.mp h
  cases complaints with
  | cons c rest => cases h
  | nil =>
      refine ⟨hcheck, ?_⟩
      cases hread : Document.ofValue v with
      | ok d' =>
          simp only [hread] at h
          cases h
          rfl
      | error f =>
          simp only [hread] at h
          split at h <;> cases h

theorem Document.problems_ne_nil {tolerates : Fault → Bool} {v : Value}
    {problems : List ImportProblem}
    (h : Document.importValue tolerates v = .ok (.refused problems)) : problems ≠ [] := by
  unfold Document.importValue at h
  obtain ⟨complaints, -, h⟩ := bind_eq_ok.mp h
  cases complaints with
  | cons c rest =>
      cases h
      exact List.cons_ne_nil _ _
  | nil =>
      cases hread : Document.ofValue v with
      | ok d =>
          simp only [hread] at h
          cases h
      | error f =>
          simp only [hread] at h
          split at h
          · cases h
            exact List.cons_ne_nil _ _
          · cases h

/-- **The graph of an imported document is sound.** -/
theorem Document.sound_of_importValue {tolerates : Fault → Bool} {v : Value} {d : Document}
    (h : Document.importValue tolerates v = .ok (.document d)) :
    Graph.Sound ⟨d.nodes, d.edges⟩ := by
  obtain ⟨hcheck, hread⟩ := importValue_eq_document h
  obtain ⟨r, nodes, edges, rfl, hn, he, hnodes, hedges, hends⟩ := checkDocument_eq_nil hcheck
  obtain ⟨hreadNodes, hreadEdges⟩ := ofValue_eq_ok hread hn he
  obtain ⟨ids, hids, hnodup, -, hfold⟩ := Gate.ids_of_checkNodes hnodes
  have hknown : Gate.idsOf nodes = ids := hfold
  rw [hknown] at hends
  have hsame : d.nodes.map (·.id) = ids := Node.ids_of_ofValue hreadNodes hids
  refine ⟨hsame ▸ hnodup, ?_, ?_⟩
  · intro e hmem
    obtain ⟨v, hv, hedge⟩ := exists_of_mem_right hreadEdges hmem
    obtain ⟨r', rfl, ⟨source, hsource, hsmem⟩, target, htarget, htmem⟩ :=
      Gate.joined_of_checkEnds hedges hends v hv
    obtain ⟨hs, ht⟩ := Edge.ends_of_ofValue hedge
    rw [hsource] at hs
    rw [htarget] at ht
    cases hs
    cases ht
    show e.source ∈ d.nodes.map (·.id) ∧ e.target ∈ d.nodes.map (·.id)
    rw [hsame]
    exact ⟨hsmem, htmem⟩
  · intro n hmem
    obtain ⟨v, -, hnode⟩ := exists_of_mem_right hreadNodes hmem
    obtain ⟨_, _, _, _, _, _, _, _, hbuild⟩ := Node.ofValue_eq_ok hnode
    exact (Node.build_eq_ok hbuild).2

end Workflow
