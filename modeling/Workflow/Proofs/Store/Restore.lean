import Workflow.Proofs.Document.Exchange
import Workflow.Proofs.Store.Import
import Workflow.Proofs.Store.Soundness

/-!
# What a store exports it can import

As long as requests keep to types (`Request.Typed`) the graph of a store is typed. Its
document is then imported exactly when all its operations exist, and the graph imported has
the labels of kinds for those that are missing (`importValue_of_typed`). Requests that ask
neither for an empty label nor for a whole configuration with an operation that does not
exist keep the graph regular (`Request.Lasting`), and then nothing is lost, not even when the
document goes through the text that an archive holds.

The other two requests are granted all the same, and what they make is lost at the next
restart.
-/

namespace Workflow

theorem Edge.idBetween_ne_empty (source target : String) : idBetween source target ≠ "" := by
  intro h
  have hlist := congrArg String.toList h
  simp only [idBetween, toString, String.toList_append] at hlist
  cases hlist

theorem Document.regular_of_taken {v : Value} {d : Document} (h : taken? v = some d) :
    Graph.Regular ⟨d.nodes, d.edges⟩ := by
  unfold taken? at h
  split at h
  · rename_i d' himport
    obtain rfl := Option.some.inj h
    obtain ⟨hgate, hread⟩ := importValue_eq_document himport
    exact regular_of_ofValue hgate hread
  · cases h

namespace Request

/-- Whether a request keeps to types: identities are not empty, coordinates are numbers, and
whole configurations have texts for operations and names. -/
def Typed : Request → Prop
  | .add id _ position => id ≠ "" ∧ ∀ p ∈ position, p.Numeric
  | .edit (.addNode _ position) => ∀ p ∈ position, p.Numeric
  | .edit (.moveNode _ position) => position.Numeric
  | .edit (.moveNodes moves) => ∀ move ∈ moves, move.2.Numeric
  | .edit (.configure _ (.whole c)) => c.Typed
  | _ => True

/-- Whether a request asks for nothing that would be lost: no label is empty, and whole
configurations have operations that exist. -/
def Lasting : Request → Prop
  | .edit (.configure _ (.whole c)) => c.Known
  | .edit (.rename _ label) => label ≠ ""
  | _ => True

end Request

namespace Store

theorem nodeId_ne_empty (n : Nat) : nodeId n ≠ "" := by
  intro h
  have hlist := congrArg String.toList h
  simp only [nodeId, String.toList_append] at hlist
  cases hlist

/-! ## Graphs stay typed -/

theorem typed_newNode {id : String} (hid : id ≠ "") (kind : NodeKind) {position : Option Position}
    (hposition : ∀ p ∈ position, p.Numeric) : (newNode id kind position).Typed where
  named := hid
  placed := by
    cases position with
    | none => exact Position.numeric_origin
    | some p => exact hposition p rfl
  configured := by
    have hregular := Config.regular_initial kind
    exact ⟨_, rfl, Config.kind_initial kind, (Config.regular_iff.mp hregular).1⟩

/-- The configuration that a node is changed to could have been read, unless it was given as
it is. -/
theorem changedConfig_cases {n : Node} {change : ConfigChange} {c : Config}
    (h : n.changedConfig change = .ok c) : c.Regular ∨ change = .whole c := by
  unfold Node.changedConfig at h
  split at h
  · exact Or.inl (Config.regular_ofRecord h)
  · cases h
  · split at h
    · obtain rfl := Except.ok.inj h
      exact Or.inr rfl
    · cases h

theorem typed_moved {g : Graph} (h : g.Typed) {moves : List (String × Position)}
    (hmoves : ∀ move ∈ moves, move.2.Numeric) : (moved g moves).Typed := by
  induction moves generalizing g with
  | nil => exact h
  | cons move moves ih =>
      obtain ⟨hfirst, hrest⟩ := List.forall_mem_cons.mp hmoves
      refine ih (h.updateNode (fun _ => rfl) fun n _ hn => ?_) hrest
      exact ⟨hn.named, hfirst, hn.configured⟩

/-- **Revisions keep a graph typed**, when requests keep to types. -/
theorem Revision.typed {s : Store} {r : Request} {g : Graph} (hnew : s.DrawsNew r)
    (htyped : r.Typed) (h : s.graph.Typed) (hrevision : Revision s r g) : g.Typed := by
  cases hrevision with
  | add => exact h.addNode (hnew _ rfl) (typed_newNode htyped.1 _ htyped.2)
  | addNext => exact h.addNode (hnew _ rfl) (typed_newNode (nodeId_ne_empty _) _ htyped)
  | move => exact typed_moved h (List.forall_mem_singleton.mpr htyped)
  | moves => exact typed_moved h htyped
  | configure hfound hchanged =>
      refine h.updateNode (fun _ => rfl) fun m hm hnode => ?_
      obtain rfl := Option.some.inj (hm.symm.trans hfound)
      have hkind := Node.kind_of_changedConfig hchanged
      refine ⟨hnode.named, hnode.placed, _, rfl, hkind, ?_⟩
      rcases changedConfig_cases hchanged with hregular | rfl
      · exact (Config.regular_iff.mp hregular).1
      · exact htyped
  | rename =>
      refine h.updateNode (fun _ => rfl) fun n _ hn => ?_
      exact ⟨hn.named, hn.placed, hn.configured⟩
  | removeNode => exact h.removeNodes _
  | removeNodes => exact h.removeNodes _
  | connect hsource htarget _ hends hdrawn =>
      obtain ⟨hs, rfl⟩ := Graph.findNode?_eq_some hsource
      obtain ⟨ht, rfl⟩ := Graph.findNode?_eq_some htarget
      refine h.addEdge ?_ ?_ (hdrawn ▸ Edge.idBetween_ne_empty _ _)
      · exact hends.1 ▸ List.mem_map_of_mem hs
      · exact hends.2 ▸ List.mem_map_of_mem ht
  | disconnect => exact h.removeEdge _
  | clear => exact Graph.typed_empty
  | imported htaken =>
      obtain ⟨v, hv⟩ := taken_of_imported htaken
      exact (Document.regular_of_taken hv).typed

/-! ## Labels and operations stay -/

/-- **Revisions keep labels and operations**, when nothing is asked for that would be
lost. -/
theorem Revision.lasting {s : Store} {r : Request} {g : Graph} (hlasting : r.Lasting)
    (h : ∀ n ∈ s.graph.nodes, n.label ≠ "" ∧ n.Known) (hrevision : Revision s r g) :
    ∀ n ∈ g.nodes, n.label ≠ "" ∧ n.Known := by
  have hadded : ∀ (id : String) (kind : NodeKind) (position : Option Position),
      (newNode id kind position).label ≠ "" ∧ (newNode id kind position).Known := by
    intro id kind position
    refine ⟨?_, fun c hc => ?_⟩
    · show kind.label ≠ ""
      cases kind <;> decide
    · obtain rfl := Option.some.inj hc
      exact (Config.regular_iff.mp (Config.regular_initial kind)).2
  have hmove : ∀ (g : Graph) (id : String) (position : Position),
      (∀ n ∈ g.nodes, n.label ≠ "" ∧ n.Known) →
      ∀ n ∈ (g.updateNode id fun n => { n with position }).nodes, n.label ≠ "" ∧ n.Known :=
    fun _ _ _ h => Graph.forall_updateNode h fun _ _ hn => hn
  cases hrevision with
  | add => exact Graph.forall_addNode h (hadded _ _ _)
  | addNext => exact Graph.forall_addNode h (hadded _ _ _)
  | move => exact hmove _ _ _ h
  | moves => exact @moved_induction (fun g => ∀ n ∈ g.nodes, n.label ≠ "" ∧ n.Known) hmove _ h _
  | configure hfound hchanged =>
      refine Graph.forall_updateNode h fun m _ hm => ⟨hm.1, fun c hc => ?_⟩
      obtain rfl := Option.some.inj hc
      rcases changedConfig_cases hchanged with hregular | rfl
      · exact (Config.regular_iff.mp hregular).2
      · exact hlasting
  | rename => exact Graph.forall_updateNode h fun n _ hn => ⟨hlasting, hn.2⟩
  | removeNode => exact Graph.forall_removeNodes h _
  | removeNodes => exact Graph.forall_removeNodes h _
  | connect _ _ _ _ _ => exact h
  | disconnect => exact h
  | clear => exact fun _ hn => absurd hn List.not_mem_nil
  | imported htaken =>
      obtain ⟨v, hv⟩ := taken_of_imported htaken
      have hregular := Document.regular_of_taken hv
      exact fun n hn => ⟨hregular.labelled n hn, hregular.known n hn⟩

/-! ## Importing what was exported -/

/-- **The document of a typed graph** is imported just when all operations exist, and then
with the labels of the kinds for those that are missing. -/
theorem importValue_of_typed {s : Store} (h : s.graph.Typed) (t : Store) :
    ((t.importValue s.document.toValue).1 = .ok [] ↔ s.graph.Known)
      ∧ (s.graph.Known → ∃ t', t.importValue s.document.toValue = (.ok [], t')
          ∧ t'.graph = s.graph.withLabels ∧ t'.viewport = s.viewport) := by
  have htaken : s.graph.Known → ∃ t', t.importValue s.document.toValue = (.ok [], t')
      ∧ t'.graph = s.graph.withLabels ∧ t'.viewport = s.viewport := by
    intro hknown
    obtain ⟨hgate, hread⟩ := Document.reads_of_typed (d := s.document) h hknown
    have hadopted := graph_and_viewport_of_adopt t s.document.withLabels
    exact ⟨_, importValue_of_ofValue hgate hread t, hadopted⟩
  refine ⟨⟨fun hempty => ?_, fun hknown => ?_⟩, htaken⟩
  · exact Document.known_of_checkDocument h.toSound (checkDocument_of_importValue hempty)
  · obtain ⟨t', ht', -⟩ := htaken hknown
    rw [ht']

theorem importValue_of_regular {s : Store} (h : s.graph.Regular) (t : Store) :
    ∃ t', t.importValue s.document.toValue = (.ok [], t') ∧ t'.graph = s.graph
      ∧ t'.viewport = s.viewport := by
  have htaken := (importValue_of_typed h.typed t).2 h.known
  rwa [h.labelled.withLabels_eq] at htaken

/-- The document of a regular graph is restored from an archive it was saved in, if it is
JSON that the reader can read. -/
theorem restore_of_save {s : Store} (h : s.graph.Regular) (hjson : s.document.toValue.IsJson)
    (hdigits : s.document.toValue.WithinDigits)
    (hnesting : s.document.toValue.nesting ≤ Json.nestingLimit) {a : Archive}
    (husable : a.tables.state = .usable) :
    ∃ a', a.save s.document = (true, a') ∧ ∀ t : Store, t.archive = some a' →
      ∃ t', t.restore = (.ok true, t') ∧ t'.graph = s.graph ∧ t'.viewport = s.viewport := by
  have hfits := Value.fits_faithful hjson hdigits hnesting
  obtain ⟨text, hwrite, htext⟩ := Json.read_write .oneLine hfits
  have hgate := Document.checkDocument_toValue (d := s.document) h
  have hread := Document.ofValue_toValue (d := s.document) h
  obtain ⟨a', hsave, hload⟩ := Archive.load_save husable hwrite
  refine ⟨a', hsave, fun t harchive => ?_⟩
  obtain ⟨t', ht', hsame⟩ := importValue_of_regular h t
  refine ⟨t', ?_, hsame⟩
  simp only [restore, harchive, hload (Document.importText_of_read hgate hread htext),
    importDocument, ht']
  rfl

/-- **What a store exports it can import.** Whatever requests that keep to types make of a
fresh store, every store imports its document, provided that all operations exist, with the
labels of the kinds for those that are missing. Where nothing was asked for that would be
lost, it is imported as it is, and restored from an archive it was saved in. -/
theorem restores_of_reachable {s₀ : Store} (h₀ : s₀.Fresh) :
    (∀ s, Reachable (Throughout fun s r => s.DrawsNew r ∧ r.Typed) s₀ s → ∀ t : Store,
        ((t.importValue s.document.toValue).1 = .ok [] ↔ s.graph.Known)
          ∧ (s.graph.Known → ∃ t', t.importValue s.document.toValue = (.ok [], t')
              ∧ t'.graph = s.graph.withLabels ∧ t'.viewport = s.viewport))
      ∧ ∀ s, Reachable (Throughout fun s r => s.DrawsNew r ∧ r.Typed ∧ r.Lasting) s₀ s →
        (∀ t : Store, ∃ t', t.importValue s.document.toValue = (.ok [], t')
          ∧ t'.graph = s.graph ∧ t'.viewport = s.viewport)
        ∧ (s.document.toValue.IsJson → s.document.toValue.WithinDigits →
            s.document.toValue.nesting ≤ Json.nestingLimit →
            ∀ a : Archive, a.tables.state = .usable →
              ∃ a', a.save s.document = (true, a') ∧ ∀ t : Store, t.archive = some a' →
                ∃ t', t.restore = (.ok true, t') ∧ t'.graph = s.graph
                  ∧ t'.viewport = s.viewport) := by
  have htyped : ∀ {s r g}, DrawsNew s r ∧ r.Typed → s.graph.Typed → Revision s r g → g.Typed :=
    fun ⟨hnew, hr⟩ h hrevision => hrevision.typed hnew hr h
  have hregular : ∀ {s r g}, DrawsNew s r ∧ r.Typed ∧ r.Lasting → s.graph.Regular →
      Revision s r g → g.Regular := by
    intro s r g hallowed h hrevision
    obtain ⟨hnew, hr, hlasting⟩ := hallowed
    have hkept := hrevision.lasting hlasting fun n hn => ⟨h.labelled n hn, h.known n hn⟩
    refine (hrevision.typed hnew hr h.typed).regular ?_ ?_
    · exact fun n hn => (hkept n hn).1
    · exact fun n hn => (hkept n hn).2
  have hempty : Graph.Regular .empty :=
    Graph.typed_empty.regular (fun _ hn => absurd hn List.not_mem_nil)
      fun _ hn => absurd hn List.not_mem_nil
  refine ⟨fun s h t => ?_, fun s h => ?_⟩
  · exact importValue_of_typed (Holds.of_reachable htyped (h₀.holds hempty.typed) h).graph t
  · have hgraph := (Holds.of_reachable hregular (h₀.holds hempty) h).graph
    refine ⟨importValue_of_regular hgraph, fun hjson hdigits hnesting a husable => ?_⟩
    exact restore_of_save hgraph hjson hdigits hnesting husable

/-- A node without a label comes back with that of its kind, and one with an operation that
does not exist keeps the whole document from coming back. -/
theorem restores_but_for_label_and_operation :
    let s := (plain none 0 0).after (.add "a" "transform" none)
    let blank := s.after (.edit (.rename "a" ""))
    let unknown := s.after (.edit (.configure "a"
      (.whole (.transform (.text "reverse") (.text "message") .null))))
    let t := plain none 0 0
    (∃ t', t.importValue s.document.toValue = (.ok [], t') ∧ t'.graph = s.graph)
      ∧ (∃ t', t.importValue blank.document.toValue = (.ok [], t') ∧ t'.graph = s.graph
          ∧ t'.graph ≠ blank.graph)
      ∧ (t.importValue unknown.document.toValue).1 ≠ .ok [] := by
  intro s blank unknown t
  have hnew : (plain none 0 0).DrawsNew (.add "a" "transform" none) := by
    unfold DrawsNew
    decide +kernel
  have hnamed : "a" ≠ "" := by decide
  have hadded : Request.Typed (.add "a" "transform" none) := ⟨hnamed, nofun⟩
  have hstart : Reachable (Throughout fun s r => s.DrawsNew r ∧ r.Typed) (plain none 0 0) s :=
    .step _ .start (throughout_of_unheard rfl ⟨hnew, hadded⟩)
  have hblank : Reachable (Throughout fun s r => s.DrawsNew r ∧ r.Typed) (plain none 0 0) blank :=
    .step _ hstart (throughout_of_unheard rfl ⟨nofun, trivial⟩)
  have hunknown :
      Reachable (Throughout fun s r => s.DrawsNew r ∧ r.Typed) (plain none 0 0) unknown :=
    .step _ hstart (throughout_of_unheard rfl ⟨nofun, .transform _ _ _⟩)
  have hlasting : Reachable (Throughout fun s r => s.DrawsNew r ∧ r.Typed ∧ r.Lasting)
      (plain none 0 0) s :=
    .step _ .start (throughout_of_unheard rfl ⟨hnew, hadded, trivial⟩)
  obtain ⟨hrestores, hkeeps⟩ := restores_of_reachable (fresh_create ..)
  refine ⟨?_, ?_, ?_⟩
  · obtain ⟨t', ht', hgraph, -⟩ := (hkeeps s hlasting).1 t
    exact ⟨t', ht', hgraph⟩
  · have hnodes : blank.graph.nodes = [{ newNode "a" .transform none with label := "" }] := by
      decide +kernel
    have hknown : blank.graph.Known := by
      intro n hn c hc
      rw [hnodes, List.mem_singleton] at hn
      subst hn
      obtain rfl := Option.some.inj hc
      exact ⟨.uppercase, rfl⟩
    have hfilled : blank.graph.withLabels = s.graph := by decide +kernel
    have hother : s.graph ≠ blank.graph := by decide +kernel
    obtain ⟨t', ht', hgraph, -⟩ := (hrestores blank hblank t).2 hknown
    rw [hfilled] at hgraph
    exact ⟨t', ht', hgraph, hgraph ▸ hother⟩
  · intro hempty
    have hnodes : unknown.graph.nodes = [{ newNode "a" .transform none with
        config := some (.transform (.text "reverse") (.text "message") .null) }] := by
      decide +kernel
    have hknown := (hrestores unknown hunknown t).1.mp hempty
    obtain ⟨o, ho⟩ := hknown _ (hnodes ▸ List.mem_singleton_self _) _ rfl
    have hname := Value.text.inj ho
    revert hname
    cases o <;> decide

end Store
end Workflow
