import Workflow.Proofs.Document.Validation

/-!
# The format of documents

What a value must be to pass the gate, said without the gate: `Document.InFormat`, from what
is asked of a node (`Gate.NodeRules`) and of an edge (`Gate.EdgeRules`). A node is held
against those before it and an edge against all nodes, and nothing else of one item counts
for another.

The gate goes through the nodes with the identities it has seen so far, through the edges by
themselves, and through the edges again with the identities of all nodes. What it finds is
shared out accordingly (`Shares`): one share for each item and pass. A share is empty if and
only if the item keeps its rules (`checkNode_nil_iff`, `checkEnds_nil_iff`), as long as the
gate answers at all, so an item that breaks one is complained of, whatever is found
elsewhere.

The headline is `Document.accepts_exactly`.
-/

namespace Workflow

open Value

/-! ## Configurations -/

/-- The values that name something nodes of a kind can do. -/
def NodeKind.Offers : NodeKind → Value → Prop
  | .transform, v => ∃ operation : Operation, v = .text operation.name
  | .condition, v => ∃ operator : Operator, v = .text operator.name
  | .start, _ | .finish, _ => False

namespace Config

/-- Settings that name something nodes of the kind can do, or leave it out. -/
def Offered (kind : NodeKind) (r : Record) : Prop :=
  ∀ name ∈ kind.namedBy?, ∀ v ∈ r.get? name, kind.Offers v

/-- What is given as a configuration is null or a record of such settings. -/
def Allowed (kind : NodeKind) (v : Value) : Prop :=
  v = .null ∨ ∃ settings, v = .record settings ∧ Offered kind settings

theorem offered_of_ofRecord {kind : NodeKind} {r : Record} {c : Config}
    (h : ofRecord kind r = .ok c) : Offered kind r := by
  intro name hname v hv
  cases ofRecord_eq_ok_iff.mp h with
  | start | finish _ => cases hname
  | transform hknown _ =>
      cases hname
      exact ⟨_, (Record.getD_of_get? hv _).symm.trans hknown⟩
  | condition hknown _ =>
      cases hname
      exact ⟨_, (Record.getD_of_get? hv _).symm.trans hknown⟩

/-- A setting that is on offer, or left out where the default is, is on offer. -/
theorem Offered.getD {kind : NodeKind} {r : Record} (h : Offered kind r) {name : String}
    (hname : name ∈ kind.namedBy?) {default : Value} (hdefault : kind.Offers default) :
    kind.Offers (r.getD name default) := by
  unfold Record.getD
  cases hget : r.get? name with
  | none => exact hdefault
  | some v => exact h name hname v hget

/-- Settings on offer are read, unless an integer in them is too long to be shown. -/
theorem Offered.fails_ofRecord {kind : NodeKind} {r : Record} (h : Offered kind r) :
    Fails (Value.record r).Overlong (ofRecord kind r) := by
  have htext : ∀ name default,
      Fails (Value.record r).Overlong (Record.getD r name (.text default)).toText :=
    fun name default => fails_toText_getD r name (everywhere_text.mpr trivial)
  cases kind with
  | start => exact .ok _
  | transform =>
      obtain ⟨operation, hknown⟩ : ∃ o : Operation, r.getD "operation" (.text "uppercase")
          = .text o.name := h.getD rfl ⟨.uppercase, rfl⟩
      simp only [ofRecord, hknown, Operation.ofValue?_eq_some_iff.mpr rfl]
      exact (htext "field" "message").bind fun _ _ => .ok _
  | condition =>
      obtain ⟨operator, hknown⟩ : ∃ o : Operator, r.getD "operator" (.text "equals")
          = .text o.name := h.getD rfl ⟨.equals, rfl⟩
      simp only [ofRecord, hknown, Operator.ofValue?_eq_some_iff.mpr rfl]
      exact (htext "field" "message").bind fun _ _ => .ok _
  | finish => exact (htext "label" "End").bind fun _ _ => .ok _

theorem allowed_of_ofValue {kind : NodeKind} {v : Value} {c : Config}
    (h : ofValue kind v = .ok c) : Allowed kind v := by
  cases v with
  | null => exact Or.inl rfl
  | record settings => exact Or.inr ⟨settings, rfl, offered_of_ofRecord h⟩
  | bool _ | number _ | text _ | list _ => cases h

theorem Allowed.not_refused {kind : NodeKind} {v : Value} (h : Allowed kind v)
    (fault : ModelFault) : ofValue kind v ≠ .error (.model fault) := by
  have hoffered : ∀ {r}, Offered kind r → ofRecord kind r ≠ .error (.model fault) :=
    fun hr hrefused => nomatch (hr.fails_ofRecord _ hrefused).1
  rcases h with rfl | ⟨settings, rfl, hsettings⟩
  · exact hoffered fun _ _ v hv => nomatch hv
  · exact hoffered hsettings

end Config

namespace Gate

/-! ## Nodes -/

/-- A value gives an identity: it is a record with a text for it that is not empty. -/
def GivesId (v : Value) (id : String) : Prop :=
  ∃ r : Record, v = .record r ∧ r.get? "id" = some (.text id) ∧ id ≠ ""

/-- What is asked of a node behind others. -/
structure NodeRules (earlier : List Value) (r : Record) : Prop where
  named : ∃ id, GivesId (.record r) id ∧ ∀ v ∈ earlier, ¬ GivesId v id
  placed : ∃ (place : Record) (x y : Number), r.getD "position" .null = .record place
    ∧ place.getD "x" .null = .number x ∧ place.getD "y" .null = .number y
  described : ∃ (kind : NodeKind) (data : Record), r.getD "type" .null = .text kind.name
    ∧ r.getD "data" .null = .record data ∧ data.getD "nodeType" .null = .text kind.name
    ∧ Config.Allowed kind (data.getD "config" .null)

/-- A value is a node in format behind others. -/
def NodeInFormat (earlier : List Value) (v : Value) : Prop :=
  ∃ r, v = .record r ∧ NodeRules earlier r

theorem idOfValue?_eq_some_iff {v : Value} {id : String} :
    idOfValue? v = some id ↔ GivesId v id := by
  cases v with
  | record r => simp [idOfValue?, idOf?_eq_some_iff, GivesId]
  | null | bool _ | number _ | text _ | list _ => simp [idOfValue?, GivesId]

/-- The identities known after a value are those known before it and the one it gives. -/
theorem mem_addId {seen : List String} {v : Value} {id : String} :
    id ∈ addId seen v ↔ id ∈ seen ∨ GivesId v id := by
  rw [← idOfValue?_eq_some_iff]
  cases v with
  | record r =>
      simp only [addId, idOfValue?]
      cases idOf? r with
      | none => simp
      | some name =>
          by_cases hseen : name ∈ seen
          · simp only [if_pos hseen, Option.some.injEq]
            exact ⟨Or.inl, fun h => h.elim (fun hid => hid) (fun heq => heq ▸ hseen)⟩
          · simp [if_neg hseen, eq_comm]
  | null | bool _ | number _ | text _ | list _ => simp [addId, idOfValue?]

theorem mem_foldl_addId {vs : List Value} {seen : List String} {id : String} :
    id ∈ vs.foldl addId seen ↔ id ∈ seen ∨ ∃ v ∈ vs, GivesId v id := by
  induction vs generalizing seen with
  | nil => simp
  | cons v vs ih => simp [ih, mem_addId, or_assoc]

theorem mem_idsOf {vs : List Value} {id : String} :
    id ∈ idsOf vs ↔ ∃ v ∈ vs, GivesId v id := by
  simp [idsOf, mem_foldl_addId]

/-- **A node is not complained of exactly if it is in format**, when the gate answers. -/
theorem checkNode_nil_iff {earlier : List Value} {index : Nat} {v : Value}
    {share : List Complaint} (h : checkNode (idsOf earlier) index v = .ok share) :
    share = [] ↔ NodeInFormat earlier v := by
  cases v with
  | record r =>
      have hempty : share = [] ↔ checkNode (idsOf earlier) index (.record r) = .ok [] := by
        rw [h, Except.ok.injEq]
      rw [hempty, checkNode_eq_nil_iff]
      constructor
      · rintro ⟨f, hnew⟩
        refine ⟨r, rfl, ⟨f.id, ⟨r, rfl, f.id_given, f.named⟩, ?_⟩,
          ⟨f.place, f.x, f.y, f.place_given, f.x_given, f.y_given⟩,
          ⟨f.kind, f.data, f.kind_given, f.data_given, f.kind_repeated,
            Config.allowed_of_ofValue f.config_read⟩⟩
        exact fun v hv hgives => hnew (mem_idsOf.mpr ⟨v, hv, hgives⟩)
      · rintro ⟨_, hr, ⟨id, ⟨_, hr', hid, hnamed⟩, hnew⟩, ⟨place, x, y, hplace, hx, hy⟩,
          ⟨kind, data, hkind, hdata, hrepeated, hallowed⟩⟩
        obtain rfl := Value.record.inj hr
        obtain rfl := Value.record.inj hr'
        obtain ⟨found, hfound⟩ := exists_checkConfig h hkind hdata hrepeated
        obtain ⟨config, hconfig⟩ := exists_ofValue_of_checkConfig hfound hallowed.not_refused
        refine ⟨⟨id, kind, place, x, y, data, config, hnamed, hid, hkind, hplace, hx, hy, hdata,
          hrepeated, hconfig⟩, ?_⟩
        intro hseen
        obtain ⟨v, hv, hgives⟩ := mem_idsOf.mp hseen
        exact hnew v hv hgives
  | null | bool _ | number _ | text _ | list _ =>
      obtain rfl := Except.ok.inj h
      simp [NodeInFormat]

/-! ## Edges -/

def roles : List String := ["source", "target"]

/-- What is asked of an edge among nodes. -/
structure EdgeRules (nodes : List Value) (r : Record) : Prop where
  filled : ∀ field ∈ edgeFields, (r.getD field .null).isFilled = true
  joined : ∀ role ∈ roles, ∃ name, (r.getD role .null).toText = .ok name
    ∧ ∃ v ∈ nodes, GivesId v name

/-- A value is an edge in format among nodes. -/
def EdgeInFormat (nodes : List Value) (v : Value) : Prop :=
  ∃ r, v = .record r ∧ EdgeRules nodes r

theorem EdgeInFormat.checkEdge_eq_nil {nodes : List Value} {v : Value}
    (h : EdgeInFormat nodes v) (index : Nat) : checkEdge index v = [] := by
  obtain ⟨r, rfl, hrules⟩ := h
  exact checkEdge_eq_nil_iff.mpr hrules.filled

theorem checkEnds_singleton {ids : List String} {r : Record} {share : List Complaint} :
    checkEnds ids [.record r] = .ok share ↔ ∃ source target,
      checkEnd ids r "source" = .ok source ∧ checkEnd ids r "target" = .ok target
        ∧ share = source ++ target := by
  constructor
  · intro h
    obtain ⟨source, hsource, h⟩ := bind_eq_ok.mp h
    obtain ⟨target, htarget, h⟩ := bind_eq_ok.mp h
    obtain ⟨rest, hrest, h⟩ := bind_eq_ok.mp h
    obtain rfl := Except.ok.inj hrest
    refine ⟨source, target, hsource, htarget, ?_⟩
    exact (Except.ok.inj h).symm.trans (List.append_nil _)
  · rintro ⟨source, target, hsource, htarget, rfl⟩
    simp only [checkEnds, hsource, htarget, bind, Except.bind, List.append_nil]
    rfl

/-- **An edge is not complained of exactly if it is in format**, when its ends are
answered. -/
theorem checkEnds_nil_iff {nodes : List Value} {index : Nat} {v : Value}
    {share : List Complaint} (h : checkEnds (idsOf nodes) [v] = .ok share) :
    (checkEdge index v = [] ∧ share = []) ↔ EdgeInFormat nodes v := by
  cases v with
  | record r =>
      obtain ⟨source, target, hsource, htarget, rfl⟩ := checkEnds_singleton.mp h
      rw [checkEdge_eq_nil_iff, List.append_eq_nil_iff]
      constructor
      · rintro ⟨hfilled, rfl, rfl⟩
        refine ⟨r, rfl, hfilled, ?_⟩
        simp only [roles, List.forall_mem_cons, List.not_mem_nil, false_implies, implies_true,
          and_true, ← mem_idsOf]
        exact ⟨toText_of_checkEnd hsource (hfilled _ (by decide)),
          toText_of_checkEnd htarget (hfilled _ (by decide))⟩
      · rintro ⟨_, hr, hrules⟩
        obtain rfl := Value.record.inj hr
        have hend : ∀ {role found}, role ∈ roles → checkEnd (idsOf nodes) r role = .ok found →
            found = [] := by
          intro role found hrole hfound
          obtain ⟨name, hname, hknown⟩ := hrules.joined role hrole
          rw [checkEnd_eq_nil hname (mem_idsOf.mpr hknown)] at hfound
          exact (Except.ok.inj hfound).symm
        exact ⟨hrules.filled, hend (by decide) hsource, hend (by decide) htarget⟩
  | null | bool _ | number _ | text _ | list _ => simp [checkEdge, EdgeInFormat]

/-! ## Shares -/

/-- What is found consists of one share for each of some items, in their order. -/
def Shares (P : Nat → Value → List Complaint → Prop) (items : List Value)
    (found : List Complaint) : Prop :=
  ∃ shares : List (List Complaint), found = shares.flatten ∧ shares.length = items.length
    ∧ ∀ i item share, items[i]? = some item → shares[i]? = some share → P i item share

namespace Shares

variable {P Q : Nat → Value → List Complaint → Prop} {items : List Value} {found : List Complaint}

theorem nil : Shares P [] [] := ⟨[], rfl, rfl, fun _ _ _ h => nomatch h⟩

theorem cons {item : Value} {first rest : List Complaint} (hfirst : P 0 item first)
    (hrest : Shares (fun i => P (i + 1)) items rest) :
    Shares P (item :: items) (first ++ rest) := by
  obtain ⟨shares, rfl, hlength, hall⟩ := hrest
  refine ⟨first :: shares, rfl, congrArg (· + 1) hlength, ?_⟩
  intro i w share hw hshare
  cases i with
  | zero =>
      obtain rfl := Option.some.inj hw
      obtain rfl := Option.some.inj hshare
      exact hfirst
  | succ i => exact hall i w share hw hshare

theorem mono (h : Shares P items found)
    (himp : ∀ i item share, items[i]? = some item → P i item share → Q i item share) :
    Shares Q items found := by
  obtain ⟨shares, hfound, hlength, hall⟩ := h
  exact ⟨shares, hfound, hlength, fun i item share hitem hshare =>
    himp i item share hitem (hall i item share hitem hshare)⟩

theorem of_nil (h : Shares P items []) {i : Nat} {item : Value}
    (hitem : items[i]? = some item) :
    P i item [] := by
  obtain ⟨shares, hnone, hlength, hall⟩ := h
  obtain ⟨hi, -⟩ := List.getElem?_eq_some_iff.mp hitem
  have hshare : shares[i]? = some shares[i] := List.getElem?_eq_getElem (hlength ▸ hi)
  have hempty : shares[i] = [] :=
    List.flatten_eq_nil_iff.mp hnone.symm _ (List.getElem_mem _)
  rw [hempty] at hshare
  exact hall i item [] hitem hshare

theorem eq_nil (h : Shares P items found)
    (hempty : ∀ i item share, items[i]? = some item → P i item share → share = []) :
    found = [] := by
  obtain ⟨shares, rfl, hlength, hall⟩ := h
  refine List.flatten_eq_nil_iff.mpr fun share hmem => ?_
  obtain ⟨i, hshare⟩ := List.mem_iff_getElem?.mp hmem
  obtain ⟨hi, -⟩ := List.getElem?_eq_some_iff.mp hshare
  have hitem : items[i]? = some items[i] := List.getElem?_eq_getElem (hlength ▸ hi)
  exact hempty i _ share hitem (hall i _ share hitem hshare)

end Shares

/-- Each node has its share, in view of the identities known before it. -/
theorem shares_of_checkNodes : ∀ {vs : List Value} {seen : List String} {index : Nat}
    {found : List Complaint}, checkNodes seen index vs = .ok found →
      Shares (fun i v share => checkNode ((vs.take i).foldl addId seen) (index + i) v = .ok share)
        vs found
  | [], _, _, _, h => by
      obtain rfl := Except.ok.inj h
      exact .nil
  | v :: vs, seen, index, _, h => by
      obtain ⟨first, hfirst, h⟩ := bind_eq_ok.mp h
      obtain ⟨rest, hrest, h⟩ := bind_eq_ok.mp h
      obtain rfl := Except.ok.inj h
      refine .cons hfirst ((shares_of_checkNodes hrest).mono fun i w share _ hw => ?_)
      rw [Nat.add_right_comm, Nat.add_assoc] at hw
      exact hw

/-- Each edge has its share of what the pass over the edges themselves finds. -/
theorem shares_checkEdges : ∀ (vs : List Value) (index : Nat),
    Shares (fun i v share => share = checkEdge (index + i) v) vs (checkEdges index vs)
  | [], _ => .nil
  | v :: vs, index => by
      refine .cons rfl ((shares_checkEdges vs (index + 1)).mono fun i w share _ hw => ?_)
      rw [hw, Nat.add_right_comm, Nat.add_assoc]

theorem shares_of_checkEnds {ids : List String} :
    ∀ {vs : List Value} {found : List Complaint},
    checkEnds ids vs = .ok found →
      Shares (fun _ v share => checkEnds ids [v] = .ok share) vs found
  | [], _, h => by
      obtain rfl := Except.ok.inj h
      exact .nil
  | v :: vs, found, h => by
      have hfirst : ∃ first rest, checkEnds ids [v] = .ok first ∧ checkEnds ids vs = .ok rest
          ∧ found = first ++ rest := by
        cases v with
        | record r =>
            obtain ⟨source, hsource, h⟩ := bind_eq_ok.mp h
            obtain ⟨target, htarget, h⟩ := bind_eq_ok.mp h
            obtain ⟨rest, hrest, h⟩ := bind_eq_ok.mp h
            have hown := checkEnds_singleton.mpr ⟨source, target, hsource, htarget, rfl⟩
            exact ⟨source ++ target, rest, hown, hrest, (Except.ok.inj h).symm⟩
        | null | bool _ | number _ | text _ | list _ => exact ⟨[], found, rfl, h, rfl⟩
      obtain ⟨first, rest, hfirst, hrest, rfl⟩ := hfirst
      exact .cons hfirst (shares_of_checkEnds hrest)

theorem checkViewport_eq_nil_iff {v : Value} :
    checkViewport v = [] ↔ v = .null ∨ ∃ viewport, v = .record viewport := by
  cases v <;> simp [checkViewport]

end Gate

/-! ## Documents -/

namespace Document

open Gate

/-- The format of documents. -/
def InFormat (v : Value) : Prop :=
  ∃ (r : Record) (nodes edges : List Value), v = .record r
    ∧ r.getD "nodes" .null = .list nodes ∧ r.getD "edges" .null = .list edges
    ∧ (r.getD "viewport" .null = .null ∨ ∃ viewport, r.getD "viewport" .null = .record viewport)
    ∧ (∀ i node, nodes[i]? = some node → NodeInFormat (nodes.take i) node)
    ∧ ∀ edge ∈ edges, EdgeInFormat nodes edge

/-- The share of a node says whether it is in format behind the nodes before it. -/
def NodeShare (nodes : List Value) (i : Nat) (node : Value) (share : List Complaint) :
    Prop :=
  checkNode (idsOf (nodes.take i)) i node = .ok share
    ∧ (share = [] ↔ NodeInFormat (nodes.take i) node)

/-- The share of the ends of an edge says, with what is found in the edge itself, whether the
edge is in format among the nodes. -/
def EndsShare (nodes : List Value) (i : Nat) (edge : Value) (share : List Complaint) :
    Prop :=
  checkEnds (idsOf nodes) [edge] = .ok share
    ∧ (checkEdge i edge = [] ∧ share = [] ↔ EdgeInFormat nodes edge)

/-- What is found in a document consists of shares of its nodes and edges. -/
theorem shares_of_checkDocument {r : Record} {nodes edges : List Value}
    {complaints : List Complaint} (h : checkDocument (.record r) = .ok complaints)
    (hnodes : r.getD "nodes" .null = .list nodes) (hedges : r.getD "edges" .null = .list edges) :
    ∃ ofNodes ofEdges ofEnds,
      complaints = ofNodes ++ (ofEdges ++ ofEnds) ++ checkViewport (r.getD "viewport" .null)
      ∧ Shares (NodeShare nodes) nodes ofNodes
      ∧ Shares (fun i edge share => share = checkEdge i edge) edges ofEdges
      ∧ Shares (EndsShare nodes) edges ofEnds := by
  obtain ⟨ofNodes, hofNodes, h⟩ := bind_eq_ok.mp h
  obtain ⟨found, hfound, h⟩ := bind_eq_ok.mp h
  rw [hnodes] at hofNodes hfound
  rw [hedges] at hfound
  obtain ⟨ofEnds, hofEnds, hfound⟩ := bind_eq_ok.mp hfound
  obtain rfl := Except.ok.inj hfound
  refine ⟨ofNodes, checkEdges 0 edges, ofEnds, (Except.ok.inj h).symm, ?_, ?_, ?_⟩
  · refine (shares_of_checkNodes hofNodes).mono fun i node share _ hshare => ?_
    rw [Nat.zero_add] at hshare
    exact ⟨hshare, checkNode_nil_iff hshare⟩
  · refine (shares_checkEdges edges 0).mono fun i edge share _ hshare => ?_
    rw [Nat.zero_add] at hshare
    exact hshare
  · exact (shares_of_checkEnds hofEnds).mono fun i edge share _ hshare =>
      ⟨hshare, checkEnds_nil_iff hshare⟩

/-- **The gate accepts exactly the format.** When it answers, a value is accepted if and only
if it is in format. If its nodes and edges are lists, what is found in it consists of one
share for each node, one for each edge and one for the ends of each edge, and then what is
wrong with the viewport. The share of a node depends on it and the nodes before it, and is
empty if and only if the node is in format behind these. The shares of an edge depend on it
and the identities of the nodes, and both are empty if and only if the edge is in format
among the nodes. -/
theorem accepts_exactly {v : Value} {complaints : List Complaint}
    (h : checkDocument v = .ok complaints) :
    (complaints = [] ↔ InFormat v)
    ∧ ∀ (r : Record) (nodes edges : List Value), v = .record r →
      r.getD "nodes" .null = .list nodes → r.getD "edges" .null = .list edges →
      ∃ ofNodes ofEdges ofEnds,
        complaints = ofNodes ++ (ofEdges ++ ofEnds) ++ checkViewport (r.getD "viewport" .null)
        ∧ Shares (NodeShare nodes) nodes ofNodes
        ∧ Shares (fun i edge share => share = checkEdge i edge) edges ofEdges
        ∧ Shares (EndsShare nodes) edges ofEnds := by
  refine ⟨⟨?_, ?_⟩, ?_⟩
  · rintro rfl
    obtain ⟨r, nodes, edges, rfl, hnodes, hedges, -⟩ := checkDocument_eq_nil h
    obtain ⟨ofNodes, ofEdges, ofEnds, hnone, hofNodes, hofEdges, hofEnds⟩ :=
      shares_of_checkDocument h hnodes hedges
    obtain ⟨hitems, hviewport⟩ := List.append_eq_nil_iff.mp hnone.symm
    obtain ⟨rfl, hboth⟩ := List.append_eq_nil_iff.mp hitems
    obtain ⟨rfl, rfl⟩ := List.append_eq_nil_iff.mp hboth
    refine ⟨r, nodes, edges, rfl, hnodes, hedges, checkViewport_eq_nil_iff.mp hviewport,
      fun i node hnode => (hofNodes.of_nil hnode).2.mp rfl, fun edge hedge => ?_⟩
    obtain ⟨i, hi⟩ := List.mem_iff_getElem?.mp hedge
    exact (hofEnds.of_nil hi).2.mp ⟨(hofEdges.of_nil hi).symm, rfl⟩
  · rintro ⟨r, nodes, edges, rfl, hnodes, hedges, hviewport, hnodesIn, hedgesIn⟩
    obtain ⟨ofNodes, ofEdges, ofEnds, rfl, hofNodes, hofEdges, hofEnds⟩ :=
      shares_of_checkDocument h hnodes hedges
    have hedgeIn : ∀ {i edge}, edges[i]? = some edge → EdgeInFormat nodes edge :=
      fun hi => hedgesIn _ (List.mem_of_getElem? hi)
    obtain rfl := hofNodes.eq_nil fun i node share hi hshare =>
      hshare.2.mpr (hnodesIn i node hi)
    obtain rfl := hofEdges.eq_nil fun i edge share hi hshare =>
      hshare.trans ((hedgeIn hi).checkEdge_eq_nil i)
    obtain rfl := hofEnds.eq_nil fun i edge share hi hshare =>
      (hshare.2.mpr (hedgeIn hi)).2
    exact checkViewport_eq_nil_iff.mpr hviewport
  · rintro r nodes edges rfl hnodes hedges
    exact shares_of_checkDocument h hnodes hedges

/-- An edge may name a node by the number that its identity shows. Beside it, a node that
repeats an identity, one that is no record, and an edge that names no node are each
complained of. -/
theorem accepts_exactly_beside_broken_items :
    let place : Value := .record [("x", .number (.int 0)), ("y", .number (.int 0))]
    let node (id : String) : Value := .record
      [("id", .text id), ("type", .text "end"), ("position", place),
        ("data", .record [("nodeType", .text "end")])]
    let edge (target : String) : Value := .record
      [("id", .text "e"), ("source", .number (.int 1)), ("target", .text target)]
    let record (nodes edges : List Value) : Record :=
      [("nodes", .list nodes), ("edges", .list edges)]
    let nodes := [node "1", node "1", .null, node "2"]
    let edges := [edge "3", edge "2"]
    InFormat (.record (record [node "1", node "2"] [edge "2"]))
      ∧ ¬ InFormat (.record (record nodes edges))
      ∧ checkDocument (.record (record nodes edges))
        = .ok [.duplicateId "1", .nodeNotARecord 2, .unknownEnd "target" "e" "3"]
      ∧ ∃ ofNodes ofEdges ofEnds,
        [.duplicateId "1", .nodeNotARecord 2, .unknownEnd "target" "e" "3"]
            = ofNodes ++ (ofEdges ++ ofEnds) ++ []
          ∧ Shares (NodeShare nodes) nodes ofNodes
          ∧ Shares (fun i edge share => share = checkEdge i edge) edges ofEdges
          ∧ Shares (EndsShare nodes) edges ofEnds := by
  intro place node edge record nodes edges
  have haccepted : checkDocument (.record (record [node "1", node "2"] [edge "2"])) = .ok [] := by
    decide +kernel
  have hrefused : checkDocument (.record (record nodes edges))
      = .ok [.duplicateId "1", .nodeNotARecord 2, .unknownEnd "target" "e" "3"] := by
    decide +kernel
  obtain ⟨hformat, hshares⟩ := accepts_exactly hrefused
  refine ⟨(accepts_exactly haccepted).1.mp rfl, fun hin => ?_, hrefused, ?_⟩
  · exact List.cons_ne_nil _ _ (hformat.mpr hin)
  · exact hshares _ nodes edges rfl rfl rfl

end Document
end Workflow
