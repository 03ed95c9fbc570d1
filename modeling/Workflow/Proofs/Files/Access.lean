import Workflow.Archive.Files
import Workflow.Proofs.Document.Answer
import Workflow.Proofs.Json.Writing

/-!
# Files that can be used or not

A path without the null character leads somewhere or meets an obstacle on the way; nothing
else can go wrong with it. So a document that can be written is saved, or an obstacle is met
(`Tree.saveDocument_answers`). A file with text gives a document or problems, under the
conditions under which its text does (`Tree.loadDocument_answers`).
-/

namespace Workflow.Files

/-- Whether an obstacle was met on the way along a path. -/
def FileFault.IsObstacle (fault : FileFault) : Prop := ∃ met path, fault = .obstacle met path

theorem Path.hasNull_parent {p : Path} (h : p.hasNull = false) :
    p.parent.hasNull = false := by
  refine List.any_eq_false.mpr fun part hpart => ?_
  exact List.any_eq_false.mp h part (List.dropLast_subset _ hpart)

namespace Tree

variable {t : Tree} {p : Path} {fault : FileFault}

section

variable (hnull : p.hasNull = false)
include hnull

theorem isObstacle_of_locate (h : t.locate p = .error fault) : fault.IsObstacle := by
  unfold locate at h
  rw [hnull, if_neg Bool.false_ne_true] at h
  split at h
  · exact ⟨_, _, (Except.error.inj h).symm⟩
  · obtain ⟨met, -, rfl⟩ := mapError_eq_error.mp h
    exact ⟨met, p, rfl⟩

theorem isObstacle_of_atPath {α : Type} {f : Location → Option Entry → Except Obstacle α}
    (h : t.atPath p f = .error fault) : fault.IsObstacle := by
  rcases bind_eq_error.mp h with hplace | ⟨place, -, hdone⟩
  · exact isObstacle_of_locate hnull hplace
  · obtain ⟨met, -, rfl⟩ := mapError_eq_error.mp hdone
    exact ⟨met, p, rfl⟩

theorem isObstacle_of_unlessThere {other : FileFault}
    (hother : t.makeDirectory p = .error other) (h : t.unlessThere p other = .error fault) :
    fault.IsObstacle := by
  unfold unlessThere at h
  split at h
  · cases h
  · obtain rfl := Except.error.inj h
    exact isObstacle_of_atPath hnull hother

theorem isObstacle_of_makeUnlessThere (h : (t.makeUnlessThere p).1 = .error fault) :
    fault.IsObstacle := by
  unfold makeUnlessThere at h
  split at h
  · cases h
  · exact isObstacle_of_unlessThere hnull ‹_› h

end

theorem isObstacle_of_ensureDirectory (hnull : p.hasNull = false)
    (h : (t.ensureDirectory p).1 = .error fault) : fault.IsObstacle := by
  -- By induction on the way to the directory, which is made first when it is missing.
  induction p using ensureDirectory.induct t with
  | case1 p made hmade =>
      unfold ensureDirectory at h
      rw [hmade] at h
      cases h
  | case2 p met hmade hmissing made hparent _ =>
      unfold ensureDirectory at h
      simp only [hmade, if_pos hmissing, hparent] at h
      exact isObstacle_of_makeUnlessThere hnull h
  | case3 p met hmade hmissing other made hparent ih =>
      unfold ensureDirectory at h
      simp only [hmade, if_pos hmissing, hparent] at h
      exact ih (Path.hasNull_parent hnull) (h ▸ congrArg Prod.fst hparent)
  | case4 p met hmade hmissing =>
      unfold ensureDirectory at h
      simp only [hmade, if_neg hmissing] at h
      exact isObstacle_of_unlessThere hnull hmade h

theorem saveDocument_answers (t : Tree) {d : Document} (hd : d.toValue.WithinDigits)
    {p : Option Path} (hnull : ∀ q ∈ p, q.hasNull = false) :
    (∃ q, (t.saveDocument d p).1 = .ok q)
      ∨ ∃ met q, (t.saveDocument d p).1 = .error (.file (.obstacle met q)) := by
  have hplace : (p.getD (.ofText defaultName)).hasNull = false := by
    cases p with
    | none => decide +kernel
    | some q => exact hnull q rfl
  obtain ⟨text, htext⟩ : ∃ text, Json.write .indented d.toValue = .ok text := Json.exists_write hd
  unfold saveDocument Document.write
  dsimp only
  split
  · rename_i fault made hmade
    obtain ⟨met, q, rfl⟩ :=
      isObstacle_of_ensureDirectory (Path.hasNull_parent hplace) (congrArg Prod.fst hmade)
    exact .inr ⟨met, q, rfl⟩
  · rw [htext]
    dsimp only
    split
    · rename_i fault hwrite
      obtain ⟨met, q, rfl⟩ := isObstacle_of_atPath hplace hwrite
      exact .inr ⟨met, q, rfl⟩
    · exact .inl ⟨_, rfl⟩

/-- A file is read as a text, or an obstacle is met, unless its bytes are no text. -/
theorem readText_answers (hnull : p.hasNull = false)
    (hbytes : ∀ bytes fault, t.read p = .ok bytes → Text.decodeText bytes ≠ .error fault) :
    (∃ text, t.readText p = .ok text)
      ∨ ∃ met q, t.readText p = .error (.file (.obstacle met q)) := by
  unfold readText
  cases hread : t.read p with
  | error fault =>
      obtain ⟨met, q, rfl⟩ := isObstacle_of_atPath hnull hread
      exact .inr ⟨met, q, rfl⟩
  | ok bytes =>
      dsimp only
      cases hdecode : Text.decodeText bytes with
      | error fault => exact absurd hdecode (hbytes bytes fault hread)
      | ok s => exact .inl ⟨_, rfl⟩

theorem loadDocument_answers (hnull : p.hasNull = false)
    (hbytes : ∀ bytes fault, t.read p = .ok bytes → Text.decodeText bytes ≠ .error fault)
    (hlimits : ∀ text fault, t.readText p = .ok text → Json.read text ≠ .error (.fault fault))
    (hnames : ∀ text v, t.readText p = .ok text → Json.read text = .ok v →
      Document.NamesPlainly v) :
    ∃ imported, t.loadDocument p = .ok imported := by
  unfold loadDocument
  rcases readText_answers hnull hbytes with ⟨text, htext⟩ | ⟨met, q, hmet⟩
  · obtain ⟨imported, himported, -⟩ := Document.importText_answers
      (fun fault => hlimits text fault htext) (fun v => hnames text v htext)
    rw [htext]
    dsimp only
    rw [himported]
    exact ⟨imported, rfl⟩
  · rw [hmet]
    exact ⟨_, rfl⟩

theorem sturdy_of_loadDocument {d : Document} (h : t.loadDocument p = .ok (.document d)) :
    d.Sturdy := by
  unfold loadDocument at h
  split at h
  · cases h
  · cases h
  · rename_i text htext
    cases himport : Document.importText text with
    | error fault =>
        rw [himport] at h
        cases h
    | ok imported =>
        rw [himport] at h
        obtain rfl := Except.ok.inj h
        exact Document.sturdy_of_importText himport

end Tree
end Workflow.Files
