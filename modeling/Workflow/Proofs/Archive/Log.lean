import Workflow.Archive.Basic
import Workflow.Proofs.Document.Exchange
import Workflow.Proofs.Json.Writing

/-!
# Logs survive being stored

A log is kept as the text of its entries. What documents can hold of an entry comes back from
there as it was: the fields of the entry, and its packets key by key. An entry that comes
from a run may hold more than this, for a transform may set a key that is no text.

The headline is `Archive.readLog_writeLog`.
-/

namespace Workflow

/-! ## Packets -/

namespace Packet

/-- Whether a packet is a record that can be written and told from its text. -/
def Representable (p : Packet) : Prop :=
  ∃ r : Record, p = .ofRecord r ∧ (Value.record r).Everywhere Value.Faithful

theorem toRecord_ofRecord : ∀ r : Record, toRecord Key.documentName (.ofRecord r) = .ok r
  | [] => rfl
  | (name, v) :: r => by
      show (Key.documentName (.text name) >>= fun first =>
        toRecord Key.documentName (.ofRecord r) >>= fun others => .ok ((first, v) :: others)) = _
      rw [toRecord_ofRecord r]
      rfl

end Packet

namespace StoredEntry

theorem packetOf_orElse (r : Record) :
    packetOf ((Value.record r).orElse (.record [])) = .ok (.ofRecord r) := by
  cases r <;> rfl

/-! ## Entries -/

/-- Whether an entry can be written and told from its text. -/
structure Representable (e : StoredEntry) : Prop where
  input : e.input.Representable
  output : e.output.Representable
  kind : e.kind.Everywhere Value.Faithful
  status : e.status.Everywhere Value.Faithful
  message : e.message.Everywhere Value.Faithful

theorem ofValue_valueWith {e : StoredEntry} {input output : Record}
    (hinput : e.input = .ofRecord input) (houtput : e.output = .ofRecord output) :
    ofValue (e.valueWith input output) = .ok e := by
  obtain ⟨nodeId, nodeName, kind, _, _, timestamp, status, message⟩ := e
  subst hinput houtput
  show (packetOf ((Value.record input).orElse (.record [])) >>= fun read =>
    packetOf ((Value.record output).orElse (.record [])) >>= fun written =>
      (.ok ⟨nodeId, nodeName, kind, read, written, timestamp, status, message⟩ :
        Except Fault StoredEntry)) = _
  rw [packetOf_orElse, packetOf_orElse]
  rfl

/-- The value of an entry that can be told from its text, which is a record. -/
theorem Representable.exists_toValue {e : StoredEntry} (h : e.Representable) :
    ∃ fields, e.toValue = .ok (.record fields) ∧ ofValue (.record fields) = .ok e
      ∧ (Value.record fields).Everywhere Value.Faithful := by
  obtain ⟨input, hinput, hread⟩ := h.input
  obtain ⟨output, houtput, hwritten⟩ := h.output
  refine ⟨_, ?_, ofValue_valueWith hinput houtput, ?_⟩
  · unfold toValue
    rw [hinput, houtput, Packet.toRecord_ofRecord, Packet.toRecord_ofRecord]
    rfl
  · have htext : ∀ s : String, (Value.text s).Everywhere Value.Faithful :=
      fun s => (Value.fits_faithful_text 0 s).everywhere
    refine Value.everywhere_record.mpr ⟨⟨trivial, ?_⟩, ?_⟩
    · show ["nodeId", "nodeName", "nodeType", "input", "output", "timestamp", "status",
        "message"].Nodup
      decide
    · simp only [List.forall_mem_cons, List.not_mem_nil, false_implies, implies_true, and_true]
      exact ⟨htext _, htext _, h.kind, hread, hwritten, htext _, h.status, h.message⟩

end StoredEntry

/-! ## Logs -/

namespace Archive

def logValue (entries : List StoredEntry) : Except Fault Value := do
  return .list (← entries.mapM StoredEntry.toValue)

theorem writeLog_eq (entries : List StoredEntry) :
    writeLog entries = logValue entries >>= Json.write .oneLine := by
  unfold writeLog logValue
  cases entries.mapM StoredEntry.toValue <;> rfl

/-- **A log is read back from its text.** A log of entries that can be told from their texts
has a text, and if the reader undoes the writer for its value, as it does for all that nest
no deeper than the reader goes, then the text is read as the log. -/
theorem readLog_writeLog {entries : List StoredEntry} (h : ∀ e ∈ entries, e.Representable) :
    ∃ v text, logValue entries = .ok v ∧ writeLog entries = .ok text
      ∧ (Json.Inverts .oneLine v → readLog text = .ok entries)
      ∧ (v.nesting ≤ Json.nestingLimit → Json.Inverts .oneLine v) := by
  obtain ⟨records, hrecords⟩ := exists_forall₂ fun e he => (h e he).exists_toValue
  have hvalues : entries.mapM StoredEntry.toValue = .ok (records.map .record) :=
    mapM_of_forall₂ (List.forall₂_map_right_iff.mpr (hrecords.imp fun _ _ hone => hone.1))
  have hentries : (records.map Value.record).mapM StoredEntry.ofValue = .ok entries :=
    mapM_of_forall₂ (List.forall₂_map_left_iff.mpr (hrecords.flip.imp fun _ _ hone => hone.2.1))
  have hfaithful : (Value.list (records.map .record)).Everywhere Value.Faithful := by
    refine Value.everywhere_list.mpr ⟨⟨trivial, trivial⟩, fun v hv => ?_⟩
    obtain ⟨fields, hfields, rfl⟩ := List.mem_map.mp hv
    obtain ⟨e, -, -, -, hone⟩ := exists_of_mem_right hrecords hfields
    exact hone
  have hlog : logValue entries = .ok (.list (records.map .record)) := by
    unfold logValue
    rw [hvalues]
    rfl
  have hrecord : ∀ v ∈ records.map Value.record, v.asRecord?.isSome = true := by
    intro v hv
    obtain ⟨fields, -, rfl⟩ := List.mem_map.mp hv
    rfl
  obtain ⟨text, htext⟩ : ∃ text, Json.write .oneLine (.list (records.map .record)) = .ok text :=
    Json.exists_write (hfaithful.mono fun _ hone => hone.1)
  refine ⟨_, text, hlog, ?_, fun hinverts => ?_, fun hnesting => ?_⟩
  · rw [writeLog_eq, hlog]
    exact htext
  · unfold readLog
    rw [hinverts text htext]
    show orFailure (((records.map Value.record).filter (·.asRecord?.isSome)).mapM _) = _
    rw [List.filter_eq_self.mpr hrecord, hentries]
    rfl
  · exact Json.inverts_of_fits .oneLine ⟨hfaithful, hnesting⟩

end Archive
end Workflow
