import Workflow.Proofs.Archive.Slot
import Workflow.Proofs.Document.Codec
import Workflow.Proofs.Json.RoundTrip

/-!
# Documents survive being stored

What the gate lets through once is stable from then on: the document read is given back by
its own value, by its text in either layout, and by the slot of an archive it was saved in.

The text part rests on the reader undoing the writer (`Json.Inverts`). For documents that
nest no deeper than the reader goes this is `Json.read_write`; beyond, it is a condition.
-/

namespace Workflow

namespace Json

/-- Whether the reader undoes the writer for a value. -/
def Inverts (layout : Layout) (v : Value) : Prop :=
  ∀ text, write layout v = .ok text → read text = .ok v

theorem inverts_of_fits (layout : Layout) {v : Value}
    (h : v.Fits Value.Faithful nestingLimit) :
    Inverts layout v := by
  intro text htext
  obtain ⟨text', hwrite, hread⟩ := read_write layout h
  obtain rfl := Except.ok.inj (htext.symm.trans hwrite)
  exact hread

end Json

namespace Archive

/-- A document whose text is read back is found in the slot it was saved in. -/
theorem load_save {a : Archive} (husable : a.tables.state = .usable) {d : Document}
    {text : String} (hwrite : d.write .oneLine = .ok text) :
    ∃ a', a.save d = (true, a')
      ∧ (Document.importText text = .ok (.document d) → a'.load = .ok (some d)) := by
  refine ⟨a.bearing text, save_of_write husable hwrite, fun himport => ?_⟩
  have hslot : (a.bearing text).tables.slot? (a.bearing text).key = .ok (some text) :=
    slot?_bearing husable text
  simp only [load, hslot, himport, bind, Except.bind]
  rfl

end Archive

namespace Document

variable {p : Value} {d : Document}

/-- A document that was read from a faithful value is written in every layout. -/
theorem exists_write (hgate : checkDocument p = .ok []) (hread : Document.ofValue p = .ok d)
    (hjson : p.IsJson) (hdigits : p.WithinDigits) (layout : Json.Layout) :
    ∃ text, d.write layout = .ok text := by
  have hfits : d.toValue.Fits Value.Faithful (p.nesting + 6) :=
    fits_toValue hgate hread (Value.fits_faithful hjson hdigits (Nat.le_add_right _ _))
  obtain ⟨cs, hwrite, -⟩ := @Json.returns_of_fits layout d.toValue _ 0 hfits
  refine ⟨String.ofList cs, ?_⟩
  simp only [write, Json.write, hwrite, bind, Except.bind]
  rfl

/-- **What the gate lets through is a fixed point of the codec.** The value of the document
read passes the gate and is read as this document. So is its text, in both layouts, and what
is saved of it in an archive that can be used, where the reader undoes the writer; and this
it does as long as the value nests no deeper than the reader goes. -/
theorem fixed_of_checkDocument (hgate : checkDocument p = .ok []) (hjson : p.IsJson)
    (hdigits : p.WithinDigits) :
    ∃ d, Document.ofValue p = .ok d
      ∧ checkDocument d.toValue = .ok [] ∧ Document.ofValue d.toValue = .ok d
      ∧ (∀ layout, ∃ text, d.write layout = .ok text
          ∧ (Json.Inverts layout d.toValue → importText text = .ok (.document d)))
      ∧ (∀ a : Archive, a.tables.state = .usable → ∃ a', a.save d = (true, a')
          ∧ (Json.Inverts .oneLine d.toValue → a'.load = .ok (some d)))
      ∧ (p.nesting ≤ Json.nestingLimit → ∀ layout, Json.Inverts layout d.toValue) := by
  obtain ⟨d, hread⟩ := exists_ofValue_of_checkDocument hgate hdigits
  have hregular := regular_of_ofValue hgate hread
  have hpasses := checkDocument_toValue hregular
  have hreturns := ofValue_toValue hregular
  have htext : ∀ layout text, d.write layout = .ok text → Json.Inverts layout d.toValue →
      importText text = .ok (.document d) :=
    fun _ _ hwrite hinverts => importText_of_read hpasses hreturns (hinverts _ hwrite)
  refine ⟨d, hread, hpasses, hreturns, fun layout => ?_, fun a husable => ?_, ?_⟩
  · obtain ⟨text, hwrite⟩ := exists_write hgate hread hjson hdigits layout
    exact ⟨text, hwrite, htext layout text hwrite⟩
  · obtain ⟨text, hwrite⟩ := exists_write hgate hread hjson hdigits .oneLine
    obtain ⟨a', hsave, hload⟩ := Archive.load_save husable hwrite
    exact ⟨a', hsave, fun hinverts => hload (htext .oneLine text hwrite hinverts)⟩
  · intro hnesting layout
    have hfits := Value.fits_faithful hjson hdigits hnesting
    exact Json.inverts_of_fits layout (@fits_toValue 984 p d hgate hread hfits)

/-- A document with numbers for labels, settings left out and an edge that is animated by a
number is read otherwise than it was written, and stays as it is from then on. -/
theorem fixed_of_loose_document :
    let first : Value := .record [("id", .text "a"), ("type", .text "start"),
      ("position", .record [("x", .int 0), ("y", .float (.infinite true))]),
      ("data", .record [("label", .int 7), ("config", .null), ("nodeType", .text "start")])]
    let second : Value := .record [("id", .text "b"), ("type", .text "transform"),
      ("position", .record [("y", .int 2), ("x", .float (.nan true))]),
      ("data", .record [("config", .record [("value", .null), ("field", .bool true)]),
        ("nodeType", .text "transform")])]
    let edge : Value := .record [("id", .int 1), ("source", .text "a"), ("target", .text "b"),
      ("label", .list [.text "\n\"", .null]), ("animated", .int 2)]
    let p : Value := .record [("nodes", .list [first, second]), ("edges", .list [edge]),
      ("viewport", .record [("zoom", .text "wide")])]
    checkDocument p = .ok [] ∧ p.IsJson ∧ p.WithinDigits ∧
      ∃ d, Document.ofValue p = .ok d ∧ d.toValue ≠ p
        ∧ (∀ layout, ∃ text, d.write layout = .ok text ∧ importText text = .ok (.document d))
        ∧ ∃ a, (Archive.ofTables .empty Archive.defaultKey).save d = (true, a)
          ∧ a.load = .ok (some d) := by
  intro first second edge p
  have hgate : checkDocument p = .ok [] := by decide +kernel
  have hjson : p.IsJson := by decide +kernel
  have hdigits : p.WithinDigits := by decide +kernel
  obtain ⟨d, hread, -, -, hwrite, hsave, hinverts⟩ := fixed_of_checkDocument hgate hjson hdigits
  have hinverts := hinverts (by decide +kernel)
  have hchanged : (Document.ofValue p).map toValue ≠ .ok p := by decide +kernel
  refine ⟨hgate, hjson, hdigits, d, hread, fun hsame => ?_, fun layout => ?_, ?_⟩
  · rw [hread] at hchanged
    exact hchanged (congrArg Except.ok hsame)
  · obtain ⟨text, htext, himport⟩ := hwrite layout
    exact ⟨text, htext, himport (hinverts layout)⟩
  · obtain ⟨a, ha, hload⟩ := hsave (Archive.ofTables .empty Archive.defaultKey) rfl
    exact ⟨a, ha, hload (hinverts .oneLine)⟩

end Document
end Workflow
