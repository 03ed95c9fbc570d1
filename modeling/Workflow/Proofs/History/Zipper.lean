import Mathlib.Data.List.DropRight
import Workflow.Proofs.History

/-!
# Histories as zippers

A history keeps a row of snapshots and a place in it. Seen from that place the row falls into
the snapshots before the current one, the current one, and those ahead of it: a *zipper*. On
a zipper every operation is local. A step moves one snapshot across, and saving puts the
current one behind the others, of which the oldest are forgotten, and drops what lay ahead.
There is nothing to say about places, about cutting the row off or about making room at its
front.

Nothing of the row is lost in this view (`snapshots_zipper`), so whoever knows a
decomposition of the row knows the zipper (`zipper_eq`), and each operation of a history is
the one on its zipper (`zipper_save`, `zipper_undo`, `zipper_redo`).
`History.timeline_respond` puts them together for any operation, and
`History.timeline_respondAll` for any sequence of them.

The headline is `History.follows_zipper`.
-/

namespace Workflow

/-- What can be asked of a history. -/
inductive HistoryCall
  | save (g : Graph)
  | undo
  | redo
  | reset
  | beginApply
  | endApply

/-- The replies to several calls in turn, and what is left in the end. -/
def respondAll {σ : Type} (respond : σ → HistoryCall → Option Graph × σ) :
    σ → List HistoryCall → List (Option Graph) × σ
  | s, [] => ([], s)
  | s, call :: calls =>
    let (reply, s') := respond s call
    let (replies, s'') := respondAll respond s' calls
    (reply :: replies, s'')

/-! ## Zippers -/

/-- A graph with those before it and those ahead of it, all from the oldest to the newest. -/
structure Zipper where
  past : List Graph
  present : Graph
  future : List Graph

namespace Zipper

/-- The empty graph, with nothing before it and nothing ahead. -/
def start : Zipper := ⟨[], .empty, []⟩

/-- Puts a new graph in front. What was there lies behind it, the last of it for which there
is room beside the new one under the cap. -/
def save (z : Zipper) (cap : Nat) (g : Graph) : Zipper :=
  ⟨(z.past ++ [z.present]).rtake (cap - 1), g, []⟩

/-- Moves back to the last graph of the past, if there is one. -/
def undo (z : Zipper) : Option Graph × Zipper :=
  match z.past.getLast? with
  | some g => (some g, ⟨z.past.dropLast, g, z.present :: z.future⟩)
  | none => (none, z)

/-- Moves forward to the first graph of the future, if there is one. -/
def redo (z : Zipper) : Option Graph × Zipper :=
  match z.future with
  | g :: future => (some g, ⟨z.past ++ [z.present], g, future⟩)
  | [] => (none, z)

end Zipper

/-- A zipper, and whether a snapshot is being applied, while nothing is saved. -/
structure Timeline where
  zipper : Zipper
  applying : Bool

/-- What a timeline makes of a call under a cap. Only steps are replied to, with the graph
that is then present. -/
def Timeline.respond (cap : Nat) (t : Timeline) : HistoryCall → Option Graph × Timeline
  | .save g => (none, if t.applying then t else { t with zipper := t.zipper.save cap g })
  | .undo => t.zipper.undo.map id fun z => { t with zipper := z }
  | .redo => t.zipper.redo.map id fun z => { t with zipper := z }
  | .reset => (none, { t with zipper := .start })
  | .beginApply => (none, { t with applying := true })
  | .endApply => (none, { t with applying := false })

namespace History

def respond (h : History) : HistoryCall → Option Graph × History
  | .save g => (none, h.save g)
  | .undo => h.undo
  | .redo => h.redo
  | .reset => (none, h.reset)
  | .beginApply => (none, h.beginApply)
  | .endApply => (none, h.endApply)

/-! ## The view of a history -/

/-- The row of snapshots as it is seen from the current one. -/
def zipper (h : History) : Zipper where
  past := h.snapshots.take h.index
  present := h.current
  future := h.snapshots.drop (h.index + 1)

def timeline (h : History) : Timeline := ⟨h.zipper, h.applying⟩

theorem snapshots_zipper (h : History) :
    h.snapshots = h.zipper.past ++ h.zipper.present :: h.zipper.future := by
  have hcut : h.snapshots.drop h.index = h.current :: h.snapshots.drop (h.index + 1) :=
    List.drop_eq_getElem_cons h.index_lt
  have hwhole := List.take_append_drop h.index h.snapshots
  rw [hcut] at hwhole
  exact hwhole.symm

theorem length_past_zipper (h : History) : h.zipper.past.length = h.index :=
  List.length_take_of_le (Nat.le_of_lt h.index_lt)

theorem size_eq (h : History) :
    h.size = h.zipper.past.length + 1 + h.zipper.future.length := by
  have hrow := congrArg List.length h.snapshots_zipper
  simp only [List.length_append, List.length_cons] at hrow
  unfold size
  omega

theorem zipper_eq {h : History} {past future : List Graph} {g : Graph}
    (hrow : h.snapshots = past ++ g :: future) (hplace : h.index = past.length) :
    h.zipper = ⟨past, g, future⟩ := by
  have hseen := h.snapshots_zipper
  rw [hrow] at hseen
  have hlength : past.length = h.zipper.past.length := by rw [length_past_zipper, hplace]
  obtain ⟨hpast, hrest⟩ := List.append_inj hseen hlength
  obtain ⟨hpresent, hfuture⟩ := List.cons.inj hrest
  rw [hpast, hpresent, hfuture]

/-! ## Each operation on the view -/

/-- What is kept of a row that is cut off behind the current snapshot, and extended: one
snapshot too many at most, so at most one is forgotten. -/
theorem snapshotsWith_eq (h : History) (g : Graph) :
    h.snapshotsWith g = (h.zipper.past ++ [h.zipper.present]).rtake (h.cap - 1) ++ [g] := by
  have hlt := h.index_lt
  have hle := h.size_le
  have hkept : h.snapshots.take (h.index + 1) = h.zipper.past ++ [h.zipper.present] := by
    rw [List.take_add_one, h.current_eq]
    rfl
  have hlength : (h.zipper.past ++ [h.zipper.present]).length = h.index + 1 := by
    simp [length_past_zipper]
  unfold snapshotsWith List.rtake
  simp only [hkept, hlength, List.length_append, List.length_singleton]
  by_cases hfull : h.cap < h.index + 1 + 1
  · have hone : h.index + 1 - (h.cap - 1) = 1 := by omega
    rw [if_pos hfull, hone, ← List.drop_one, List.drop_append_of_le_length (by omega)]
  · have hnone : h.index + 1 - (h.cap - 1) = 0 := by omega
    rw [if_neg hfull, hnone, List.drop_zero]

theorem zipper_save {h : History} (hidle : h.applying = false) (g : Graph) :
    (h.save g).zipper = h.zipper.save h.cap g := by
  obtain ⟨hrow, hplace⟩ := save_of_idle hidle g
  rw [snapshotsWith_eq] at hrow hplace
  refine zipper_eq hrow ?_
  rw [hplace, List.length_append, List.length_singleton, Nat.add_sub_cancel]

/-- At another place of the row, what lies on the two sides of it is seen. -/
theorem At.zipper {h h' : History} {past future : List Graph} {g : Graph}
    (hat : h.At h' past.length) (hrow : h.snapshots = past ++ g :: future) :
    h'.zipper = ⟨past, g, future⟩ :=
  zipper_eq (hat.snapshots.trans hrow) hat.index_eq

theorem zipper_undo (h : History) :
    h.undo.map id zipper = h.zipper.undo ∧ h.undo.2.applying = h.applying
      ∧ h.undo.2.cap = h.cap := by
  have hlength := h.length_past_zipper
  have hrow := h.snapshots_zipper
  rcases List.eq_nil_or_concat h.zipper.past with hnone | ⟨past, g, hpast⟩
  · have hzero : h.index = 0 := by simpa [hnone] using hlength.symm
    rw [undo_of_zero hzero]
    simp [Zipper.undo, hnone]
  · have hplace : h.index = past.length + 1 := by simpa [hpast] using hlength.symm
    obtain ⟨h', hundo, hat⟩ := undo_of_pos (h := h) (by omega)
    rw [hplace, Nat.add_sub_cancel] at hat
    rw [hpast, List.concat_eq_append, List.append_assoc, List.singleton_append] at hrow
    have hzipper := hat.zipper hrow
    have hpresent : h'.current = g := congrArg Zipper.present hzipper
    rw [hundo]
    exact ⟨by simp [Zipper.undo, hpast, hzipper, hpresent], hat.applying, hat.cap⟩

theorem zipper_redo (h : History) :
    h.redo.map id zipper = h.zipper.redo ∧ h.redo.2.applying = h.applying
      ∧ h.redo.2.cap = h.cap := by
  have hlength := h.length_past_zipper
  have hrow := h.snapshots_zipper
  have hsize := h.size_eq
  cases hfuture : h.zipper.future with
  | nil =>
      have hlast : h.snapshots.length ≤ h.index + 1 := by
        simp only [size, hfuture, List.length_nil] at hsize
        omega
      rw [redo_of_ge hlast]
      simp [Zipper.redo, hfuture]
  | cons g future =>
      have hahead : h.index + 1 < h.snapshots.length := by
        simp only [size, hfuture, List.length_cons] at hsize
        omega
      obtain ⟨h', hredo, hat⟩ := redo_of_lt hahead
      have hplace : h.index + 1 = (h.zipper.past ++ [h.zipper.present]).length := by
        simp [hlength]
      have hcut : h.snapshots = (h.zipper.past ++ [h.zipper.present]) ++ g :: future := by
        simpa [hfuture] using hrow
      rw [hplace] at hat
      have hzipper := hat.zipper hcut
      have hpresent : h'.current = g := congrArg Zipper.present hzipper
      rw [hredo]
      exact ⟨by simp [Zipper.redo, hfuture, hzipper, hpresent], hat.applying, hat.cap⟩

/-! ## Any sequence of operations -/

/-- **A history makes of a call what its timeline makes of it**, and keeps its cap. -/
theorem timeline_respond (h : History) (call : HistoryCall) :
    (h.respond call).map id timeline = h.timeline.respond h.cap call
      ∧ (h.respond call).2.cap = h.cap := by
  cases call with
  | save g =>
      refine ⟨?_, h.cap_save g⟩
      cases happlying : h.applying with
      | false =>
          simp [respond, Timeline.respond, timeline, zipper_save happlying, applying_save,
            happlying]
      | true => simp [respond, Timeline.respond, timeline, save, happlying]
  | undo =>
      obtain ⟨hzipper, happlying, hcap⟩ := h.zipper_undo
      refine ⟨?_, hcap⟩
      simp only [respond, Timeline.respond, timeline, ← hzipper]
      simp [Prod.map, timeline, happlying]
  | redo =>
      obtain ⟨hzipper, happlying, hcap⟩ := h.zipper_redo
      refine ⟨?_, hcap⟩
      simp only [respond, Timeline.respond, timeline, ← hzipper]
      simp [Prod.map, timeline, happlying]
  | reset => exact ⟨rfl, rfl⟩
  | beginApply => exact ⟨rfl, rfl⟩
  | endApply => exact ⟨rfl, rfl⟩

/-- However many calls are made, the replies are those of the timeline, and so is what is
left. -/
theorem timeline_respondAll (calls : List HistoryCall) (h : History) :
    (respondAll respond h calls).map id timeline
        = respondAll (Timeline.respond h.cap) h.timeline calls
      ∧ (respondAll respond h calls).2.cap = h.cap := by
  induction calls generalizing h with
  | nil => exact ⟨rfl, rfl⟩
  | cons call calls ih =>
      obtain ⟨hcall, hcap⟩ := h.timeline_respond call
      obtain ⟨hcalls, hcaps⟩ := ih (h.respond call).2
      rw [hcap] at hcalls hcaps
      refine ⟨?_, hcaps⟩
      simp only [respondAll, ← hcall, Prod.map_fst, Prod.map_snd, id_eq, ← hcalls]
      rfl

/-- **A history is a zipper.** Whatever cap is asked for, if it can be read as an integer at
all, the history that is made with it answers every sequence of calls as the zipper does that
starts with nothing but the empty graph, under the cap asked for or two. What is left is seen
as the zipper that is left, saves are ignored exactly while a snapshot is being applied, and
the place and the size of the history and the steps that are possible are those of the
zipper. So there is always room for the snapshots, and the place is one of theirs. -/
theorem follows_zipper (asked : Value) :
    ofValue asked = asked.toInteger.map ofCap
      ∧ ∀ (n : Int) (calls : List HistoryCall),
        let cap := (max 2 n).toNat
        let (replies, h) := respondAll respond (ofCap n) calls
        let (answers, t) := respondAll (Timeline.respond cap) ⟨.start, false⟩ calls
        replies = answers ∧ h.zipper = t.zipper ∧ h.applying = t.applying
          ∧ h.canUndo = !t.zipper.past.isEmpty ∧ h.canRedo = !t.zipper.future.isEmpty
          ∧ h.index = t.zipper.past.length
          ∧ h.size = t.zipper.past.length + 1 + t.zipper.future.length
          ∧ 1 ≤ h.size ∧ h.size ≤ cap ∧ h.index < h.size := by
  refine ⟨by unfold ofValue; cases asked.toInteger <;> rfl, ?_⟩
  intro n calls cap
  obtain ⟨hsame, hcap⟩ := timeline_respondAll calls (ofCap n)
  have hstart : (ofCap n).timeline = ⟨.start, false⟩ := rfl
  rw [hstart, show (ofCap n).cap = cap from rfl] at hsame
  generalize respondAll respond (ofCap n) calls = left at hsame hcap ⊢
  rw [← hsame]
  obtain ⟨replies, h⟩ := left
  have hindex := h.length_past_zipper
  have hsize := h.size_eq
  have hroom : h.size ≤ cap := Nat.le_trans h.size_le (Nat.le_of_eq hcap)
  refine ⟨rfl, rfl, rfl, ?_, ?_, hindex.symm, hsize, by omega, hroom, h.index_lt⟩
  · show h.canUndo = !h.zipper.past.isEmpty
    rw [canUndo, ← hindex]
    cases h.zipper.past <;> simp
  · show h.canRedo = !h.zipper.future.isEmpty
    rw [canRedo, hsize, ← hindex]
    cases h.zipper.future <;> simp

/-- A cap of one leaves room for two snapshots, so the second save forgets the empty
graph. -/
example :
    let g : Graph := ⟨[⟨"first", .start, .origin, "Start", none⟩], []⟩
    (respondAll respond (ofCap 1) [.save g, .beginApply, .save .empty, .endApply, .save .empty,
      .undo, .undo, .redo]).1 = [none, none, none, none, none, some g, none, some .empty] := by
  decide

end History
end Workflow
