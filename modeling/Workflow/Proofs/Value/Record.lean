import Mathlib.Data.List.Forall2
import Workflow.Value.Basic

/-!
# Fields of records

What a record holds after fields of it were set.
-/

namespace Workflow.Record

/-- A field that is set is added, or put in the place of the one of its name. -/
theorem mem_set {name : String} {v : Value} {f : String × Value} :
    ∀ {r : Record}, f ∈ r.set name v → f ∈ r ∨ f = (name, v)
  | [], h => .inr (List.mem_singleton.mp h)
  | (k, w) :: r, h => by
      unfold set at h
      split at h
      · rename_i hname
        rcases List.mem_cons.mp h with hfirst | hrest
        · exact .inr (hname ▸ hfirst)
        · exact .inl (List.mem_cons_of_mem _ hrest)
      · rcases List.mem_cons.mp h with rfl | hrest
        · exact .inl List.mem_cons_self
        · exact (mem_set hrest).imp_left (List.mem_cons_of_mem _)

theorem distinctNames_set {name : String} {v : Value} :
    ∀ {r : Record}, r.DistinctNames → (r.set name v).DistinctNames
  | [], _ => List.nodup_cons.mpr ⟨List.not_mem_nil, List.nodup_nil⟩
  | (k, w) :: r, h => by
      obtain ⟨hfirst, hrest⟩ := List.nodup_cons.mp h
      unfold set
      split
      · exact List.nodup_cons.mpr ⟨hfirst, hrest⟩
      · rename_i hne
        refine List.nodup_cons.mpr ⟨fun hmem => ?_, distinctNames_set hrest⟩
        obtain ⟨f, hf, hk⟩ := List.mem_map.mp hmem
        rcases mem_set hf with hold | rfl
        · exact hfirst (List.mem_map.mpr ⟨f, hold, hk⟩)
        · exact hne hk.symm

theorem get?_isSome_iff {r : Record} {name : String} :
    (r.get? name).isSome = true ↔ name ∈ r.map Prod.fst := by
  unfold get?
  rw [List.lookup_isSome_iff, List.mem_map]
  constructor
  · rintro ⟨f, hf, hname⟩
    exact ⟨f, hf, (eq_of_beq hname).symm⟩
  · rintro ⟨f, hf, rfl⟩
    exact ⟨f, hf, beq_self_eq_true _⟩

theorem get?_cons (k : String) (w : Value) (r : Record) (name : String) :
    get? ((k, w) :: r) name = if name = k then some w else get? r name := by
  unfold get?
  rw [List.lookup_cons]
  by_cases h : name = k
  · rw [if_pos h, h, beq_self_eq_true]
  · rw [if_neg h, beq_eq_false_iff_ne.mpr h]

/-- Records of the same names have the same at a name outside which they may differ. -/
theorem get?_congr {named : List String} {r t : Record}
    (h : List.Forall₂ (fun f g => f.1 = g.1 ∧ (f.1 ∉ named → f.2 = g.2)) r t) {name : String}
    (hname : name ∉ named) : get? r name = get? t name := by
  induction h with
  | nil => rfl
  | @cons f g r t hsame _ ih =>
      obtain ⟨k, v⟩ := f
      obtain ⟨k', w⟩ := g
      obtain ⟨rfl, hvalue⟩ := hsame
      rw [get?_cons, get?_cons, ih]
      split
      · rename_i hk
        exact congrArg some (hvalue (hk ▸ hname))
      · rfl

theorem get?_set_self (name : String) (v : Value) :
    ∀ r : Record, (r.set name v).get? name = some v
  | [] => by
      unfold set
      rw [get?_cons, if_pos rfl]
  | (k, w) :: r => by
      unfold set
      split
      · rename_i hname
        rw [get?_cons, if_pos hname.symm]
      · rename_i hne
        rw [get?_cons, if_neg (Ne.symm hne), get?_set_self name v r]

theorem get?_set_of_ne {name other : String} (hne : other ≠ name) (v : Value) :
    ∀ r : Record, (r.set name v).get? other = r.get? other
  | [] => by
      unfold set
      rw [get?_cons, if_neg hne]
  | (k, w) :: r => by
      unfold set
      split
      · rename_i hname
        rw [get?_cons, get?_cons, if_neg (hname ▸ hne), if_neg (hname ▸ hne)]
      · rw [get?_cons, get?_cons, get?_set_of_ne hne v r]

theorem mem_merge {f : String × Value} {changes : Record} :
    ∀ {r : Record}, f ∈ r.merge changes → f ∈ r ∨ f ∈ changes := by
  induction changes with
  | nil => exact .inl
  | cons change changes ih =>
      intro r h
      rcases ih (r := r.set change.1 change.2) h with hset | hlater
      · rcases mem_set hset with hold | hchange
        · exact .inl hold
        · exact .inr (List.mem_cons.mpr (.inl hchange))
      · exact .inr (List.mem_cons_of_mem _ hlater)

theorem get?_merge_of_forall_ne {name : String} {changes : Record} :
    ∀ {r : Record}, (∀ change ∈ changes, change.1 ≠ name) →
      (r.merge changes).get? name = r.get? name := by
  induction changes with
  | nil => exact fun _ => rfl
  | cons change changes ih =>
      intro r h
      obtain ⟨hfirst, hrest⟩ := List.forall_mem_cons.mp h
      exact (ih hrest).trans (get?_set_of_ne hfirst.symm _ r)

theorem get?_merge_of_mem {name : String} {v : Value} {changes : Record} :
    ∀ {r : Record}, changes.DistinctNames → (name, v) ∈ changes →
      (r.merge changes).get? name = some v := by
  induction changes with
  | nil => exact fun _ h => absurd h List.not_mem_nil
  | cons change changes ih =>
      intro r hdistinct h
      obtain ⟨hfirst, hrest⟩ := List.nodup_cons.mp hdistinct
      rcases List.mem_cons.mp h with rfl | hlater
      · -- No name is repeated, so no later change sets this field again.
        have hothers : ∀ change ∈ changes, change.1 ≠ name := fun change hchange hname =>
          hfirst (List.mem_map.mpr ⟨change, hchange, hname⟩)
        exact (get?_merge_of_forall_ne hothers).trans (get?_set_self name v r)
      · exact ih hrest hlater

theorem distinctNames_merge {changes : Record} :
    ∀ {r : Record}, r.DistinctNames → (r.merge changes).DistinctNames := by
  induction changes with
  | nil => exact id
  | cons change changes ih => exact fun h => ih (distinctNames_set h)

/-- A merged record has the changes, and behind them what it had before. -/
theorem get?_merge {changes : Record} (hchanges : changes.DistinctNames) (r : Record)
    (name : String) :
    (r.merge changes).get? name = (changes.get? name).or (r.get? name) := by
  induction changes generalizing r with
  | nil => rfl
  | cons change changes ih =>
      obtain ⟨k, v⟩ := change
      obtain ⟨hfirst, hrest⟩ := List.nodup_cons.mp hchanges
      have hmerged : r.merge ((k, v) :: changes) = (r.set k v).merge changes := rfl
      rw [hmerged, ih hrest, get?_cons]
      by_cases hname : name = k
      · subst hname
        have hnone : get? changes name = none :=
          Option.not_isSome_iff_eq_none.mp fun h => hfirst (get?_isSome_iff.mp h)
        rw [hnone, get?_set_self, if_pos rfl, Option.none_or, Option.some_or]
      · rw [get?_set_of_ne hname, if_neg hname]

theorem getD_merge {changes : Record} (hchanges : changes.DistinctNames) (r : Record)
    (name : String) (default : Value) :
    (r.merge changes).getD name default = (changes.get? name).getD (r.getD name default) := by
  rw [getD, get?_merge hchanges]
  cases changes.get? name <;> rfl

/-- Merging changes that were merged is merging them one after another. -/
theorem get?_merge_merge {first second : Record} (hfirst : first.DistinctNames)
    (hsecond : second.DistinctNames) (r : Record) (name : String) :
    (r.merge (first.merge second)).get? name = ((r.merge first).merge second).get? name := by
  rw [get?_merge (distinctNames_merge hfirst), get?_merge hsecond, get?_merge hsecond,
    get?_merge hfirst, Option.or_assoc]

end Workflow.Record
