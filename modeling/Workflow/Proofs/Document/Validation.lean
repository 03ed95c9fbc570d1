import Workflow.Proofs.Document.Answer
import Workflow.Proofs.Json.Faults

/-!
# What the validators answer

The gate stops at an integer that is too long to be shown, and at a list or a record in the
place of the name of an operation or operator. A value that it answers names plainly what its
nodes do (`Document.namesPlainly_of_checkDocument`), so a value whose integers can be shown
is answered if and only if it does. A text is a value or malformed, unless the reader is
stopped in it.

The headline is `Document.validation_answers`.
-/

namespace Workflow

open Value

/-! ## Answers of the gate -/

namespace Config

theorem namesPlainly_of_ofRecord {kind : NodeKind} {r : Record}
    (h : ∀ container, ofRecord kind r ≠ .error (.unhashable container)) :
    NamesPlainly kind r := by
  by_contra hnames
  obtain ⟨name, hname, v, container, hget, hv⟩ := exists_get?_of_not_namesPlainly hnames
  exact h container (ofRecord_of_unhashable hname hget hv)

end Config

namespace Gate

theorem checkConfig_of_unhashable (index : Nat) (r : Record) {kind : NodeKind}
    {config : Value} {container : Container}
    (h : Config.ofValue kind config = .error (.unhashable container)) :
    checkConfig index r kind config = .error (.unhashable container) := by
  unfold checkConfig
  rw [h]

/-- Settings that the model does not refuse are read when they are answered. -/
theorem exists_ofValue_of_checkConfig {index : Nat} {r : Record} {kind : NodeKind}
    {config : Value} {found : List Complaint}
    (h : checkConfig index r kind config = .ok found)
    (hmodel : ∀ fault, Config.ofValue kind config ≠ .error (.model fault)) :
    ∃ c, Config.ofValue kind config = .ok c := by
  unfold checkConfig at h
  split at h
  · exact ⟨_, ‹_›⟩
  · exact absurd ‹_› (hmodel _)
  · cases h

/-- A node that is answered and whose data are of its kind has its settings answered. -/
theorem exists_checkConfig {seen : List String} {index : Nat} {r data : Record}
    {complaints : List Complaint} (h : checkNode seen index (.record r) = .ok complaints)
    {kind : NodeKind} (htype : r.getD "type" .null = .text kind.name)
    (hdata : r.getD "data" .null = .record data)
    (hrepeated : data.getD "nodeType" .null = .text kind.name) :
    ∃ found, checkConfig index r kind (data.getD "config" .null) = .ok found := by
  obtain ⟨type, hread, h⟩ := bind_eq_ok.mp h
  obtain ⟨_, -, h⟩ := bind_eq_ok.mp h
  obtain ⟨_, -, h⟩ := bind_eq_ok.mp h
  obtain ⟨found, hfound, -⟩ := bind_eq_ok.mp h
  rw [htype, typeText_name] at hread
  obtain rfl := Except.ok.inj hread
  have hconfig : checkData index r (some kind)
      = checkConfig index r kind (data.getD "config" .null) := by
    simp only [checkData, hdata, hrepeated, NodeKind.isFilled_name, checkKindData, if_true]
  rw [kindOf?_eq_some_iff.mpr rfl, hconfig] at hfound
  exact ⟨found, hfound⟩

theorem namesPlainly_of_checkNode {seen : List String} {index : Nat} {v : Value}
    {complaints : List Complaint} (h : checkNode seen index v = .ok complaints) :
    NamesPlainly v := by
  rintro r data settings kind rfl htype hdata hrepeated hsettings
  obtain ⟨found, hfound⟩ := exists_checkConfig h htype hdata hrepeated
  rw [hsettings] at hfound
  refine Config.namesPlainly_of_ofRecord fun container hunhashable => ?_
  have hstopped : checkConfig index r kind (.record settings) = .error (.unhashable container) :=
    checkConfig_of_unhashable index r hunhashable
  rw [hstopped] at hfound
  cases hfound

theorem namesPlainly_of_checkNodes : ∀ {vs : List Value} {seen : List String} {index : Nat}
    {complaints : List Complaint},
    checkNodes seen index vs = .ok complaints → ∀ v ∈ vs, NamesPlainly v
  | [], _, _, _, _ => List.forall_mem_nil _
  | v :: vs, _, _, _, h => by
      obtain ⟨_, hfirst, h⟩ := bind_eq_ok.mp h
      obtain ⟨_, hrest, -⟩ := bind_eq_ok.mp h
      exact List.forall_mem_cons.mpr
        ⟨namesPlainly_of_checkNode hfirst, namesPlainly_of_checkNodes hrest⟩

end Gate

/-! ## Documents -/

namespace Document

theorem namesPlainly_of_checkDocument {v : Value} {complaints : List Complaint}
    (h : checkDocument v = .ok complaints) : NamesPlainly v := by
  unfold NamesPlainly nodesGiven
  split
  · obtain ⟨_, hnodes, -⟩ := bind_eq_ok.mp h
    split
    · rename_i nodes hlist
      rw [hlist] at hnodes
      exact Gate.namesPlainly_of_checkNodes hnodes
    · exact List.forall_mem_nil _
  · exact List.forall_mem_nil _

/-- The gate has nothing against a value whose integers can be shown if and only if the value
is imported as a document. -/
theorem eq_nil_iff_importValue {v : Value} {complaints : List Complaint}
    (h : checkDocument v = .ok complaints) (hdigits : v.WithinDigits)
    (tolerates : Fault → Bool) :
    complaints = [] ↔ ∃ d, importValue tolerates v = .ok (.document d) := by
  constructor
  · rintro rfl
    obtain ⟨d, hd⟩ := exists_ofValue_of_checkDocument h hdigits
    exact ⟨d, importValue_of_ofValue h hd tolerates⟩
  · rintro ⟨d, hd⟩
    exact Except.ok.inj (h.symm.trans (importValue_eq_document hd).1)

/-- A text is a value whose integers can be shown, or it is malformed, or the reader is
stopped. -/
theorem readJson_answers (text : String) :
    (∃ v, readJson text = .ok (.ok v) ∧ v.WithinDigits)
      ∨ (∃ problem, readJson text = .ok (.error problem)
        ∧ malformedMessage problem = "Invalid JSON: " ++ problem.message)
      ∨ ∃ fault, readJson text = .error fault ∧ Json.Stopped text.toList fault := by
  cases hread : readJson text with
  | ok read =>
      cases read with
      | ok v => exact .inl ⟨v, rfl, Json.withinDigits_of_read (read_of_readJson hread)⟩
      | error problem => exact .inr (.inl ⟨problem, rfl, rfl⟩)
  | error fault =>
      exact .inr (.inr ⟨fault, rfl, Json.stopped_of_read (fault_of_readJson hread)⟩)

/-- **What the validators answer.** A value whose integers can be shown is answered if and
only if it names plainly what its nodes do, and the answer is empty if and only if the value
is imported as a document. A value that is not answered has an integer that is too long to be
shown, or does not name plainly. A text is read as a value, or is malformed, or stops the
reader; one that is nothing but a run of digits that is too long stops it. -/
theorem validation_answers (v : Value) (text : String) :
    (v.WithinDigits → ((∃ complaints, checkDocument v = .ok complaints) ↔ NamesPlainly v))
    ∧ (∀ complaints, checkDocument v = .ok complaints → v.WithinDigits → ∀ tolerates,
        (complaints = [] ↔ ∃ d, importValue tolerates v = .ok (.document d)))
    ∧ (∀ fault, checkDocument v = .error fault → Blocked v fault)
    ∧ ((∃ w, readJson text = .ok (.ok w) ∧ w.WithinDigits)
        ∨ (∃ problem, readJson text = .ok (.error problem)
          ∧ malformedMessage problem = "Invalid JSON: " ++ problem.message)
        ∨ ∃ fault, readJson text = .error fault ∧ Json.Stopped text.toList fault)
    ∧ ((∀ c ∈ text.toList, c.isDigit = true) → text.toList.head? ≠ some '0' →
        digitLimit < text.toList.length →
          readJson text = .error (.tooManyDigits (some text.toList.length))) := by
  refine ⟨fun hdigits => ⟨?_, exists_checkDocument hdigits⟩, ?_, fails_checkDocument v,
    readJson_answers text, ?_⟩
  · rintro ⟨complaints, h⟩
    exact namesPlainly_of_checkDocument h
  · intro complaints h hdigits tolerates
    exact eq_nil_iff_importValue h hdigits tolerates
  · intro hdigit hzero hlong
    unfold readJson
    rw [Json.read_digits hdigit hzero hlong]

/-- An operation that does not exist is complained about, but a list in its place is not
answered. Neither is an integer of so many digits as can be read and one more. -/
theorem validation_answers_unless_named_by_a_list :
    let given (operation : Value) : Value := .record
      [("nodes", .list [.record
        [("id", .text "t"), ("type", .text "transform"),
          ("position", .record [("x", .number (.int 0)), ("y", .number (.int 0))]),
          ("data", .record [("label", .text "t"), ("nodeType", .text "transform"),
            ("config", .record [("operation", operation)])])]]),
        ("edges", .list [])]
    let text := String.ofList (List.replicate 4301 '1')
    (∃ d, importValue (fun _ => false) (given (.text "uppercase")) = .ok (.document d))
      ∧ checkDocument (given (.text "reverse"))
        = .ok [.invalidConfig "t" (.unsupportedOperation "reverse")]
      ∧ (given (.list [])).WithinDigits
      ∧ ¬ (∃ complaints, checkDocument (given (.list [])) = .ok complaints)
      ∧ Blocked (given (.list [])) (.unhashable .list)
      ∧ readJson text = .error (.tooManyDigits (some 4301)) := by
  intro given text
  obtain ⟨-, hempty, -⟩ := validation_answers (given (.text "uppercase")) text
  obtain ⟨hanswered, -, hblocked, -, hdigits⟩ := validation_answers (given (.list [])) text
  have hwithin : (given (.list [])).WithinDigits := by decide
  have haccepted : checkDocument (given (.text "uppercase")) = .ok [] := by decide
  have hstopped : checkDocument (given (.list [])) = .error (.unhashable .list) := by decide
  have hnames : ¬ NamesPlainly (given (.list [])) := by
    intro hplain
    have hnode := hplain _ List.mem_cons_self _ _ [("operation", .list [])] .transform rfl rfl rfl
      rfl rfl
    exact nomatch hnode "operation" rfl
  refine ⟨(hempty [] haccepted (by decide) _).mp rfl, by decide, hwithin,
    fun hany => hnames ((hanswered hwithin).mp hany), hblocked _ hstopped, ?_⟩
  have htext : text.toList = List.replicate 4301 '1' := String.toList_ofList
  rw [htext, List.length_replicate] at hdigits
  refine hdigits ?_ (by decide) (by decide)
  intro c hc
  rw [List.eq_of_mem_replicate hc]
  rfl

end Document

end Workflow
