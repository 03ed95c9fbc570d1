import Workflow.History

/-!
# Saving and stepping

What one operation on a history does to its row of snapshots and to its place in it. The law
behind undoing is `save_places`: with room for two snapshots, the one that was current before
a save stands right behind the graph saved, whether the save discarded what lay ahead or
forgot the oldest snapshot.
-/

namespace Workflow

namespace History

/-! ## Stepping -/

/-- The history at another place of the same row, and in no other way different. -/
structure At (h h' : History) (index : Nat) : Prop where
  index_eq : h'.index = index
  snapshots : h'.snapshots = h.snapshots
  cap : h'.cap = h.cap
  applying : h'.applying = h.applying

theorem current_eq (h : History) : h.snapshots[h.index]? = some h.current := by
  rw [List.getElem?_eq_getElem h.index_lt]
  rfl

theorem current_mem (h : History) : h.current ∈ h.snapshots := List.get_mem ..

theorem At.current {h h' : History} {index : Nat} (hat : h.At h' index) :
    h.snapshots[index]? = some h'.current := by
  rw [← hat.index_eq, ← hat.snapshots]
  exact h'.current_eq

theorem At.trans {h h' h'' : History} {index index' : Nat} (hat : h.At h' index)
    (hat' : h'.At h'' index') : h.At h'' index' :=
  ⟨hat'.index_eq, hat'.snapshots.trans hat.snapshots, hat'.cap.trans hat.cap,
    hat'.applying.trans hat.applying⟩

theorem undo_of_pos {h : History} (hpos : 0 < h.index) :
    ∃ h', h.undo = (some h'.current, h') ∧ h.At h' (h.index - 1) := by
  unfold undo
  rw [if_pos hpos]
  exact ⟨_, rfl, rfl, rfl, rfl, rfl⟩

theorem undo_of_zero {h : History} (hzero : h.index = 0) : h.undo = (none, h) := by
  unfold undo
  rw [if_neg (by omega)]

theorem redo_of_lt {h : History} (hlt : h.index + 1 < h.snapshots.length) :
    ∃ h', h.redo = (some h'.current, h') ∧ h.At h' (h.index + 1) := by
  unfold redo
  rw [dif_pos hlt]
  exact ⟨_, rfl, rfl, rfl, rfl, rfl⟩

theorem redo_of_ge {h : History} (hge : h.snapshots.length ≤ h.index + 1) :
    h.redo = (none, h) := by
  unfold redo
  rw [dif_neg (by omega)]

theorem at_of_undo {h h' : History} {g : Graph} (hundo : h.undo = (some g, h')) :
    h.At h' (h.index - 1) := by
  rcases Nat.eq_zero_or_pos h.index with hzero | hpos
  · rw [undo_of_zero hzero] at hundo
    cases hundo
  · obtain ⟨h'', hundo', hat⟩ := undo_of_pos hpos
    obtain ⟨-, rfl⟩ := Prod.mk.inj (hundo'.symm.trans hundo)
    exact hat

theorem at_of_redo {h h' : History} {g : Graph} (hredo : h.redo = (some g, h')) :
    h.At h' (h.index + 1) := by
  rcases Nat.lt_or_ge (h.index + 1) h.snapshots.length with hlt | hge
  · obtain ⟨h'', hredo', hat⟩ := redo_of_lt hlt
    obtain ⟨-, rfl⟩ := Prod.mk.inj (hredo'.symm.trans hredo)
    exact hat
  · rw [redo_of_ge hge] at hredo
    cases hredo

/-! ## Saving -/

/-- Whatever is kept after a save was there before or is the graph saved. -/
theorem mem_snapshots_save {h : History} {g g' : Graph} (hmem : g' ∈ (h.save g).snapshots) :
    g' = g ∨ g' ∈ h.snapshots := by
  unfold save at hmem
  by_cases happly : h.applying = true
  · rw [if_pos happly] at hmem
    exact Or.inr hmem
  · rw [if_neg happly] at hmem
    have hsaved : g' ∈ h.snapshots.take (h.index + 1) ++ [g] := by
      have hmem : g' ∈ h.snapshotsWith g := hmem
      unfold snapshotsWith at hmem
      dsimp only at hmem
      split at hmem
      · exact List.mem_of_mem_tail hmem
      · exact hmem
    rcases List.mem_append.mp hsaved with hold | hnew
    · exact Or.inr (List.mem_of_mem_take hold)
    · exact Or.inl (List.mem_singleton.mp hnew)

theorem applying_save (h : History) (g : Graph) : (h.save g).applying = h.applying := by
  unfold save
  split <;> rfl

theorem cap_save (h : History) (g : Graph) : (h.save g).cap = h.cap := by
  unfold save
  split <;> rfl

theorem save_of_idle {h : History} (hidle : h.applying = false) (g : Graph) :
    (h.save g).snapshots = h.snapshotsWith g
      ∧ (h.save g).index = (h.snapshotsWith g).length - 1 := by
  unfold save
  rw [if_neg (by rw [hidle]; exact Bool.false_ne_true)]
  exact ⟨rfl, rfl⟩

/-- With the graph saved at the end, what lay ahead is gone, and the current snapshot stands
right behind it. -/
theorem places_of_saved (h : History) (g : Graph) :
    (h.snapshots.take (h.index + 1) ++ [g]).length = h.index + 2
      ∧ (h.snapshots.take (h.index + 1) ++ [g])[h.index + 1]? = some g
      ∧ (h.snapshots.take (h.index + 1) ++ [g])[h.index]? = some h.current := by
  have hlt := h.index_lt
  have htake : (h.snapshots.take (h.index + 1)).length = h.index + 1 := by
    rw [List.length_take]
    omega
  refine ⟨?_, ?_, ?_⟩
  · rw [List.length_append, htake, List.length_singleton]
  · rw [List.getElem?_append_right (by omega), htake, Nat.sub_self]
    rfl
  · rw [List.getElem?_append_left (by omega), List.getElem?_take_of_lt (by omega), h.current_eq]

/-- After a save the graph saved is current, and with room for two snapshots the one that was
current before stands right behind it. Forgetting the oldest snapshot shifts both by one. -/
theorem save_places {h : History} (hidle : h.applying = false) (hcap : 2 ≤ h.cap) (g : Graph) :
    (h.save g).current = g
      ∧ ∃ index, (h.save g).index = index + 1 ∧ (h.save g).snapshots[index]? = some h.current := by
  obtain ⟨hsnapshots, hindex⟩ := save_of_idle hidle g
  obtain ⟨hlength, hnew, hold⟩ := h.places_of_saved g
  have hcurrent := (h.save g).current_eq
  rw [hindex, hsnapshots] at hcurrent ⊢
  unfold snapshotsWith at hcurrent ⊢
  dsimp only at hcurrent ⊢
  by_cases hfull : h.cap < (h.snapshots.take (h.index + 1) ++ [g]).length
  · have hplace : h.index + 2 - 1 - 1 + 1 = h.index + 1 := by omega
    rw [if_pos hfull, List.length_tail, hlength] at hcurrent ⊢
    rw [List.getElem?_tail, hplace, hnew] at hcurrent
    refine ⟨(Option.some.inj hcurrent).symm, h.index - 1, by omega, ?_⟩
    have hbefore : h.index - 1 + 1 = h.index := by omega
    rw [List.getElem?_tail, hbefore, hold]
  · have hplace : h.index + 2 - 1 = h.index + 1 := by omega
    rw [if_neg hfull, hlength] at hcurrent ⊢
    rw [hplace, hnew] at hcurrent
    exact ⟨(Option.some.inj hcurrent).symm, h.index, by omega, hold⟩

end History
end Workflow
