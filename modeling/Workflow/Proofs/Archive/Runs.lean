import Mathlib.Data.List.Perm.Basic
import Mathlib.Data.List.Nodup
import Workflow.Proofs.Archive.Log

/-!
# Runs survive being recorded

All keys share the table of runs. A run that is recorded under a new name is added behind all
others, whichever key it belongs to, so after any sequence of recordings the table holds
their rows in order (`Holds`, with `Holds.recordAs` for one recording and `Holds.recordAll`
for all of them). Listing sorts the rows of one key by their starts. As these increase, this
turns the rows round (`mergeSort_precedes`), and what is cut off are the oldest ones.

A limit that is too large for the database lists nothing.

The headline is `Archive.keeps_recordings`.
-/

namespace Workflow

/-- A call that records a run under a key and a name. -/
structure Recording where
  id : String
  key : String
  entries : List StoredEntry
  status : String
  started : String
  finished : Option String

namespace Recording

/-- What a list of runs is to show of a run. -/
def summary (r : Recording) : RunSummary :=
  ⟨r.id, r.status, r.entries.length, r.entries.countP (·.isError), r.started, r.finished⟩

/-- The text of the log, which is empty if the log has none. -/
def log (r : Recording) : String := (Archive.writeLog r.entries).toOption.getD ""

def row (r : Recording) : RunRow :=
  ⟨r.id, r.key, r.status, r.log, r.entries.length, r.entries.countP (·.isError), r.started,
    r.finished⟩

/-- Whether the entries of the log can all be written and told from their texts. -/
def Representable (r : Recording) : Prop := ∀ e ∈ r.entries, e.Representable

theorem Representable.writeLog {r : Recording} (h : r.Representable) :
    Archive.writeLog r.entries = .ok r.log := by
  obtain ⟨v, text, -, htext, -⟩ := Archive.readLog_writeLog h
  rw [log, htext]
  rfl

end Recording

namespace Tables

/-! ## Recording -/

/-- Carries out a recording in the archive of its key. -/
def recordAs (t : Tables) (r : Recording) : Except Failure String × Tables :=
  let answer := (Archive.ofTables t r.key).recordRunAs r.id r.entries r.status r.started r.finished
  (answer.1, answer.2.tables)

/-- Carries out recordings one after another. -/
def recordAll (t : Tables) : List Recording → List (Except Failure String) × Tables
  | [] => ([], t)
  | r :: rest =>
    let first := t.recordAs r
    let others := first.2.recordAll rest
    (first.1 :: others.1, others.2)

/-- The tables can be used, and their runs are those of the recordings in order. -/
structure Holds (t : Tables) (recordings : List Recording) : Prop where
  usable : t.state = .usable
  runs : t.runs = recordings.map Recording.row

variable {t : Tables} {recordings : List Recording}

/-- **One recording** under a new name adds its run. -/
theorem Holds.recordAs (h : t.Holds recordings) {r : Recording}
    (hnew : r.id ∉ recordings.map (·.id)) (hlog : r.Representable) :
    (t.recordAs r).1 = .ok r.id ∧ (t.recordAs r).2.Holds (recordings ++ [r]) := by
  have hfree : ¬ (t.runs.any fun row => row.id = r.id) = true := by
    rw [h.runs, List.any_map, List.any_eq_true]
    rintro ⟨other, hother, hsame⟩
    exact hnew (List.mem_map.mpr ⟨other, hother, of_decide_eq_true hsame⟩)
  have hadd : t.addRun r.row = .ok { t with runs := t.runs ++ [r.row] } := by
    unfold addRun
    rw [access_of_usable h.usable]
    exact if_neg hfree
  have hrecord : t.recordAs r = (.ok r.id, { t with runs := t.runs ++ [r.row] }) := by
    unfold Recording.row at hadd ⊢
    unfold Tables.recordAs Archive.recordRunAs Archive.ofTables
    rw [hlog.writeLog]
    dsimp only
    rw [hadd]
  rw [hrecord]
  refine ⟨rfl, h.usable, ?_⟩
  show t.runs ++ [r.row] = _
  rw [h.runs, List.map_append]
  rfl

/-- **A sequence of recordings** under new names adds their runs, and each call gives its
name. -/
theorem Holds.recordAll : ∀ {rest : List Recording} {t : Tables} {earlier : List Recording},
    t.Holds earlier → ((earlier ++ rest).map (·.id)).Nodup → (∀ r ∈ rest, r.Representable) →
      (t.recordAll rest).1 = rest.map (fun r => .ok r.id)
        ∧ (t.recordAll rest).2.Holds (earlier ++ rest)
  | [], _, earlier, h, _, _ => ⟨rfl, (List.append_nil earlier).symm ▸ h⟩
  | r :: rest, t, earlier, h, hids, hlogs => by
      obtain ⟨hlog, hrest⟩ := List.forall_mem_cons.mp hlogs
      have hnew : r.id ∉ earlier.map (·.id) := by
        rw [List.map_append, List.map_cons] at hids
        exact fun hmem => (List.nodup_append.mp hids).2.2 _ hmem _ List.mem_cons_self rfl
      obtain ⟨hanswer, hheld⟩ := h.recordAs hnew hlog
      rw [List.append_cons] at hids ⊢
      obtain ⟨hanswers, hheld'⟩ := Holds.recordAll hheld hids hrest
      exact ⟨List.cons_eq_cons.mpr ⟨hanswer, hanswers⟩, hheld'⟩

/-! ## Listing -/

theorem precedes_iff {a b : RunRow} : precedes a b = true ↔ b.started ≤ a.started := by
  unfold precedes
  rw [Bool.not_eq_true', decide_eq_false_iff_not, String.not_lt]

theorem mergeSort_precedes {rows : List RunRow}
    (h : rows.Pairwise fun a b => a.started < b.started) :
    rows.mergeSort precedes = rows.reverse := by
  have hdistinct : (rows.map (·.started)).Nodup := by
    refine List.pairwise_map.mpr (h.imp ?_)
    intro a b hlt hsame
    exact String.lt_irrefl b.started (hsame ▸ hlt)
  have hsorted : (rows.mergeSort precedes).Pairwise fun a b => precedes a b = true := by
    refine List.pairwise_mergeSort (fun a b c hab hbc => ?_) (fun a b => ?_) rows
    · rw [precedes_iff] at hab hbc ⊢
      exact String.le_trans hbc hab
    · rw [Bool.or_eq_true, precedes_iff, precedes_iff]
      exact String.le_total _ _
  have hturned : rows.reverse.Pairwise fun a b => precedes a b = true :=
    List.pairwise_reverse.mpr
      (h.imp fun hlt => precedes_iff.mpr (String.not_lt.mp (String.lt_asymm hlt)))
  refine List.Perm.eq_of_pairwise (fun a b ha hb hab hba => ?_) hsorted hturned
    ((List.mergeSort_perm rows _).trans (List.reverse_perm rows).symm)
  refine List.inj_on_of_nodup_map hdistinct ((List.mergeSort_perm rows _).subset ha)
    (List.mem_reverse.mp hb) ?_
  exact String.le_antisymm (precedes_iff.mp hba) (precedes_iff.mp hab)

/-- The latest recordings under a key, newest first: at most as many as the limit, but one if
there is any. -/
def latest (recordings : List Recording) (key : String) (limit : Int) : List Recording :=
  (recordings.filter (·.key = key)).reverse.take (max 1 limit).toNat

/-- **Listing the runs of a key** gives the latest ones, unless the limit is too large for
the database. -/
theorem Holds.listRuns (h : t.Holds recordings)
    (hstarted : recordings.Pairwise fun a b => a.key = b.key → a.started < b.started)
    (key : String) (limit : Int) :
    t.listRuns key (.int limit) =
      if limit < countEnd then .ok ((latest recordings key limit).map Recording.row)
      else .error .numberTooLarge := by
  have hincreasing : ((recordings.filter (·.key = key)).map Recording.row).Pairwise
      fun a b => a.started < b.started := by
    refine List.pairwise_map.mpr (List.pairwise_filter.mpr (hstarted.imp ?_))
    intro a b hlt ha hb
    exact hlt ((of_decide_eq_true ha).trans (of_decide_eq_true hb).symm)
  have hunder : t.runs.filter (·.key = key)
      = (recordings.filter (·.key = key)).map Recording.row := by
    rw [h.runs, List.filter_map]
    rfl
  have hcount : rowCount (.int limit)
      = if limit < countEnd then .ok (max 1 limit).toNat else .error .numberTooLarge := rfl
  unfold Tables.listRuns
  rw [access_of_usable h.usable, hunder, mergeSort_precedes hincreasing, hcount]
  split
  · show Except.ok ((List.reverse _).take _) = _
    rw [← List.map_reverse, ← List.map_take]
    rfl
  · rfl

theorem Holds.run? (h : t.Holds recordings) (hids : (recordings.map (·.id)).Nodup)
    {r : Recording} (hr : r ∈ recordings) : t.run? r.id = .ok (some r.row) := by
  have hfound : t.runs.find? (·.id = r.id) = some r.row := by
    rw [h.runs, List.find?_map]
    cases hfirst : recordings.find? ((·.id = r.id) ∘ Recording.row) with
    | none =>
        exact absurd (decide_eq_true rfl) (List.find?_eq_none.mp hfirst r hr)
    | some other =>
        have hsame : other.row.id = r.id := by simpa using List.find?_some hfirst
        rw [List.inj_on_of_nodup_map hids (List.mem_of_find?_eq_some hfirst) hr hsame]
        rfl
  unfold Tables.run?
  rw [access_of_usable h.usable, hfound]

end Tables

end Workflow
