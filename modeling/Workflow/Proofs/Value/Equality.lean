import Mathlib.Data.List.Perm.Subperm
import Workflow.Proofs.Number.Exact
import Workflow.Proofs.Value.Parts
import Workflow.Proofs.Value.Record
import Workflow.Value.Equality

/-!
# What it is for values to be equal

Values *agree* when they are built alike, lists item by item and records name by name, and
are related in some way wherever neither is a container (`Agree`). They are equal as one
would say it when what stands in them at one place is always the same (`Same`): a null, a
boolean or a text is the same only as itself, and a number as those of its exact value.

The comparison for conditions, `strictEquals`, keeps to this on values that are no
containers. Inside containers it counts booleans as numbers, and takes the undefined number
that documents name as equal to itself (`Alike`). So it finds everything equal that is, and
more only in containers that hold a boolean or an undefined number
(`strictEquals_iff_agree`).
-/

namespace Workflow

/-! ## Agreement -/

namespace Value

/-- Two values that are no containers are the same. -/
inductive Same : Value → Value → Prop
  | null : Same .null .null
  | bool (b : Bool) : Same (.bool b) (.bool b)
  | text (s : String) : Same (.text s) (.text s)
  | number {m n : Number} {x : ExtendedRat} (hm : m.value? = some x) (hn : n.value? = some x) :
      Same (.number m) (.number n)

/-- Two values that are no containers count as the same inside one: they are, or one is a
boolean and the other the number it counts as, or both are the undefined number that
documents name. -/
inductive Alike : Value → Value → Prop
  | same {v w : Value} (h : Same v w) : Alike v w
  | boolNumber {b : Bool} {n : Number} (h : Same (.int (if b then 1 else 0)) (.number n)) :
      Alike (.bool b) (.number n)
  | numberBool {b : Bool} {n : Number} (h : Same (.number n) (.int (if b then 1 else 0))) :
      Alike (.number n) (.bool b)
  | undefined : Alike (.float (.nan true)) (.float (.nan true))

/-- Two values are built alike, and where neither is a container they are related. -/
inductive Agree (related : Value → Value → Prop) : Value → Value → Prop
  | plain {v w : Value} (h : related v w) : Agree related v w
  | list {vs ws : List Value} (items : List.Forall₂ (Agree related) vs ws) :
      Agree related (.list vs) (.list ws)
  | record {r t : Record} (names : ∀ name, (r.get? name).isSome = (t.get? name).isSome)
      (fields : ∀ name v w, r.get? name = some v → t.get? name = some w → Agree related v w) :
      Agree related (.record r) (.record t)

def IsContainer : Value → Prop
  | .list _ | .record _ => True
  | _ => False

/-- Whether a value by itself is not a record that repeats a name. -/
def NamesOnce : Value → Prop
  | .record r => Record.DistinctNames r
  | _ => True

instance : DecidablePred NamesOnce
  | .record r => inferInstanceAs (Decidable (Record.DistinctNames r))
  | .null | .bool _ | .number _ | .text _ | .list _ => isTrue trivial

end Value

/-! ## Records that agree -/

namespace Record

variable {r t : Record} {name : String} {v : Value}

theorem get?_eq_some_iff (hr : r.DistinctNames) : r.get? name = some v ↔ (name, v) ∈ r := by
  refine ⟨Value.mem_of_get?, fun h => ?_⟩
  induction r with
  | nil => cases h
  | cons f r ih =>
      obtain ⟨hfirst, hrest⟩ := List.nodup_cons.mp hr
      rw [get?_cons]
      rcases List.mem_cons.mp h with rfl | hlater
      · exact if_pos rfl
      · have hne : name ≠ f.1 := by
          rintro rfl
          exact hfirst (List.mem_map.mpr ⟨_, hlater, rfl⟩)
        rw [if_neg hne]
        exact ih hrest hlater

/-- Records of one size where the second has each field of the first, up to a relation, are
records of the same names with related fields. -/
theorem forall_fields_iff {R : Value → Value → Prop} (hr : r.DistinctNames)
    (ht : t.DistinctNames) :
    (r.length = t.length ∧ ∀ f ∈ r, ∃ w, t.get? f.1 = some w ∧ R f.2 w)
      ↔ (∀ name, (r.get? name).isSome = (t.get? name).isSome)
        ∧ ∀ name v w, r.get? name = some v → t.get? name = some w → R v w := by
  constructor
  · rintro ⟨hlength, hfields⟩
    have hsubset : r.map Prod.fst ⊆ t.map Prod.fst := by
      intro name hname
      obtain ⟨f, hf, rfl⟩ := List.mem_map.mp hname
      obtain ⟨w, hw, -⟩ := hfields f hf
      exact get?_isSome_iff.mp (by rw [hw, Option.isSome_some])
    have hperm : (r.map Prod.fst).Perm (t.map Prod.fst) := by
      refine (List.subperm_of_subset hr hsubset).perm_of_length_le ?_
      rw [List.length_map, List.length_map, hlength]
    refine ⟨fun name => ?_, fun name v w hv hw => ?_⟩
    · rw [Bool.eq_iff_iff, get?_isSome_iff, get?_isSome_iff, hperm.mem_iff]
    · obtain ⟨w', hw', h⟩ := hfields _ ((get?_eq_some_iff hr).mp hv)
      obtain rfl := Option.some.inj (hw.symm.trans hw')
      exact h
  · rintro ⟨hnames, hfields⟩
    have hperm : (r.map Prod.fst).Perm (t.map Prod.fst) := by
      refine (List.perm_ext_iff_of_nodup hr ht).mpr fun name => ?_
      rw [← get?_isSome_iff, ← get?_isSome_iff, hnames]
    refine ⟨?_, fun f hf => ?_⟩
    · have hlength := hperm.length_eq
      rwa [List.length_map, List.length_map] at hlength
    · have hfirst : r.get? f.1 = some f.2 := (get?_eq_some_iff hr).mpr hf
      have hsome : (t.get? f.1).isSome = true := by rw [← hnames, hfirst, Option.isSome_some]
      obtain ⟨w, hw⟩ := Option.isSome_iff_exists.mp hsome
      exact ⟨w, hw, hfields _ _ _ hfirst hw⟩

end Record

/-! ## The comparison -/

namespace Value

theorem same_number_iff {m n : Number} : Same (.number m) (.number n) ↔ m.eq n = true := by
  rw [Number.eq_iff]
  constructor
  · intro h
    cases h with
    | number hm hn => exact ⟨_, hm, hn⟩
  · rintro ⟨x, hm, hn⟩
    exact .number hm hn

theorem strictEquals_iff_same {v : Value} (hv : ¬ v.IsContainer) (w : Value) :
    v.strictEquals w = true ↔ Same v w := by
  cases v with
  | null =>
      cases w with
      | null => exact iff_of_true rfl .null
      | bool _ | number _ | text _ | list _ | record _ => exact iff_of_false nofun nofun
  | text s =>
      cases w with
      | text t =>
          have hequals : strictEquals (.text s) (.text t) = (s == t) := rfl
          rw [hequals, beq_iff_eq]
          constructor
          · rintro rfl
            exact .text s
          · rintro ⟨⟩
            rfl
      | null | bool _ | number _ | list _ | record _ => exact iff_of_false nofun nofun
  | bool a =>
      cases w with
      | bool b =>
          rw [strictEquals, beq_iff_eq]
          constructor
          · rintro rfl
            exact .bool a
          · rintro ⟨⟩
            rfl
      | null | number _ | text _ | list _ | record _ => exact iff_of_false nofun nofun
  | number m =>
      cases w with
      | number n => exact same_number_iff.symm
      | null | bool _ | text _ | list _ | record _ => exact iff_of_false nofun nofun
  | list _ | record _ => exact absurd trivial hv

theorem equals_eq_strictEquals {v : Value} (hv : v.countsAs = none) (w : Value) :
    v.equals w = v.strictEquals w := by
  cases v with
  | null | text _ | list _ | record _ => cases w <;> rfl
  | bool _ | number _ => cases hv

theorem alike_iff_same {v w : Value} (hv : v.countsAs = none) : Alike v w ↔ Same v w := by
  refine ⟨fun h => ?_, .same⟩
  cases h with
  | same h => exact h
  | boolNumber _ | numberBool _ | undefined => cases hv

/-- Equal numbers are the same inside a container, and so is the undefined one that documents
name. -/
theorem alike_number_iff {m n : Number} :
    Alike (.number m) (.number n) ↔ m.same n = true := by
  unfold Number.same Number.isNamedNaN
  rw [Bool.or_eq_true, Bool.and_eq_true, beq_iff_eq, beq_iff_eq, ← same_number_iff]
  constructor
  · intro h
    cases h with
    | same h => exact .inl h
    | undefined => exact .inr ⟨rfl, rfl⟩
  · rintro (h | ⟨rfl, rfl⟩)
    · exact .same h
    · exact .undefined

theorem alike_bool_iff {a b : Bool} : Alike (.bool a) (.bool b) ↔ a = b := by
  constructor
  · intro h
    cases h with
    | same h =>
        cases h with
        | bool b => rfl
  · rintro rfl
    exact .same (.bool a)

theorem eq_bool_iff {a b : Bool} :
    (Number.int (if a then 1 else 0)).eq (.int (if b then 1 else 0)) = true ↔ a = b := by
  cases a <;> cases b <;> decide +kernel

/-- Inside a container, what is no container equals what counts as the same. -/
theorem equals_iff_alike {v w : Value} (hv : ¬ v.IsContainer) :
    v.equals w = true ↔ Alike v w := by
  cases v with
  | null | text _ =>
      rw [equals_eq_strictEquals rfl, strictEquals_iff_same id, alike_iff_same rfl]
  | bool a =>
      cases w with
      | bool b =>
          have hequals : equals (.bool a) (.bool b)
              = (Number.int (if a then 1 else 0)).eq (.int (if b then 1 else 0)) := by
            rw [equals]
            rfl
          rw [hequals, eq_bool_iff, alike_bool_iff]
      | number n =>
          have hequals : equals (.bool a) (.number n) = (Number.int (if a then 1 else 0)).eq n := by
            rw [equals]
            rfl
          rw [hequals, ← same_number_iff]
          refine ⟨.boolNumber, fun h => ?_⟩
          cases h with
          | same h => cases h
          | boolNumber h => exact h
      | null | text _ | list _ | record _ =>
          exact iff_of_false nofun fun h => by cases h with | same h => cases h
  | number m =>
      cases w with
      | bool b =>
          have hequals : equals (.number m) (.bool b) = m.eq (.int (if b then 1 else 0)) := by
            rw [equals]
            show m.same (.int (if b then 1 else 0)) = _
            unfold Number.same
            cases m.isNamedNaN <;> simp [Number.isNamedNaN]
          rw [hequals, ← same_number_iff]
          refine ⟨.numberBool, fun h => ?_⟩
          cases h with
          | same h => cases h
          | numberBool h => exact h
      | number n =>
          rw [alike_number_iff, equals]
          rfl
      | null | text _ | list _ | record _ =>
          exact iff_of_false nofun fun h => by cases h with | same h => cases h
  | list _ | record _ => exact absurd trivial hv

/-! ## Containers -/

theorem equalItems_iff : ∀ {vs ws : List Value},
    equalItems vs ws = true ↔ List.Forall₂ (fun v w => v.equals w = true) vs ws
  | [], [] => iff_of_true rfl .nil
  | [], w :: ws => iff_of_false nofun nofun
  | v :: vs, [] => iff_of_false nofun nofun
  | v :: vs, w :: ws => by
      rw [equalItems, Bool.and_eq_true, equalItems_iff, List.forall₂_cons]

theorem equalFields_iff {t : Record} : ∀ {r : List (String × Value)},
    equalFields r t = true
      ↔ ∀ f ∈ r, ∃ w, t.get? f.1 = some w ∧ f.2.equals w = true
  | [] => iff_of_true rfl nofun
  | (name, v) :: r => by
      rw [equalFields, Bool.and_eq_true, equalFields_iff, List.forall_mem_cons]
      refine and_congr_left' ?_
      cases t.get? name with
      | none => simp
      | some w => simp

theorem Alike.not_isContainer {v w : Value} (h : Alike v w) :
    ¬ v.IsContainer ∧ ¬ w.IsContainer := by
  cases h with
  | same h => cases h <;> exact ⟨id, id⟩
  | boolNumber _ | numberBool _ | undefined => exact ⟨id, id⟩

theorem agree_list_iff {vs ws : List Value} :
    Agree Alike (.list vs) (.list ws) ↔ List.Forall₂ (Agree Alike) vs ws := by
  refine ⟨fun h => ?_, .list⟩
  cases h with
  | plain h => exact absurd trivial h.not_isContainer.1
  | list items => exact items

theorem agree_record_iff {r t : Record} :
    Agree Alike (.record r) (.record t)
      ↔ (∀ name, (r.get? name).isSome = (t.get? name).isSome)
        ∧ ∀ name v w, r.get? name = some v → t.get? name = some w → Agree Alike v w := by
  refine ⟨fun h => ?_, fun ⟨names, fields⟩ => .record names fields⟩
  cases h with
  | plain h => exact absurd trivial h.not_isContainer.1
  | record names fields => exact ⟨names, fields⟩

/-- **Inside a container** values are equal if they agree up to what counts as the same. -/
theorem equals_iff_agree {v w : Value} (hv : v.Everywhere NamesOnce)
    (hw : w.Everywhere NamesOnce) :
    v.equals w = true ↔ Agree Alike v w := by
  induction v using insideInduction generalizing w with
  | null | bool _ | number _ | text _ =>
      rw [equals_iff_alike id]
      refine ⟨.plain, fun h => ?_⟩
      cases h with
      | plain h => exact h
  | list vs ih =>
      cases w with
      | list ws =>
          obtain ⟨-, hvs⟩ := everywhere_list.mp hv
          obtain ⟨-, hws⟩ := everywhere_list.mp hw
          rw [equals, equalItems_iff, agree_list_iff, List.forall₂_iff_zip, List.forall₂_iff_zip]
          refine and_congr_right fun _ => forall₂_congr fun v w => ?_
          refine forall_congr' fun hmem => ?_
          obtain ⟨hvmem, hwmem⟩ := List.of_mem_zip hmem
          exact ih v hvmem (hvs v hvmem) (hws w hwmem)
      | null | bool _ | number _ | text _ | record _ =>
          refine iff_of_false nofun fun h => ?_
          cases h with
          | plain h => exact h.not_isContainer.1 trivial
  | record r ih =>
      cases w with
      | record t =>
          obtain ⟨hr, hfields⟩ := everywhere_record.mp hv
          obtain ⟨ht, hfields'⟩ := everywhere_record.mp hw
          have hequals : ∀ name v w, Record.get? r name = some v → Record.get? t name = some w →
              (v.equals w = true ↔ Agree Alike v w) := by
            intro name v w hv hw
            have hmem := mem_of_get? hv
            exact ih _ hmem (hfields _ hmem) (hfields' _ (mem_of_get? hw))
          have hfields_iff := Record.forall_fields_iff (R := fun v w => v.equals w = true) hr ht
          rw [equals, Bool.and_eq_true, beq_iff_eq, equalFields_iff, hfields_iff, agree_record_iff]
          refine and_congr_right fun _ => ?_
          refine forall_congr' fun name => forall_congr' fun v => forall_congr' fun w => ?_
          exact forall_congr' fun hv => forall_congr' fun hw => hequals name v w hv hw
      | null | bool _ | number _ | text _ | list _ =>
          refine iff_of_false nofun fun h => ?_
          cases h with
          | plain h => exact h.not_isContainer.1 trivial

/-! ## Conditions -/

/-- Whether a value by itself is neither a boolean nor the undefined number that documents
name. -/
def Clear : Value → Prop
  | .bool _ => False
  | .number n => n ≠ .float (.nan true)
  | _ => True

instance : DecidablePred Clear
  | .bool _ => isFalse id
  | .number n => inferInstanceAs (Decidable (n ≠ .float (.nan true)))
  | .null | .text _ | .list _ | .record _ => isTrue trivial

/-- Values agree in another way too, if what is related in them is related in this way. -/
theorem Agree.imp {R S : Value → Value → Prop} {p : Value → Prop}
    (himp : ∀ v w, p v → p w → R v w → S v w) {v w : Value} (hv : v.Everywhere p)
    (hw : w.Everywhere p) (h : Agree R v w) : Agree S v w := by
  induction v using insideInduction generalizing w with
  | null | bool _ | number _ | text _ =>
      cases h with
      | plain h => exact .plain (himp _ _ hv.self hw.self h)
  | list vs ih =>
      cases h with
      | plain h => exact .plain (himp _ _ hv.self hw.self h)
      | @list _ ws items =>
          obtain ⟨-, hvs⟩ := everywhere_list.mp hv
          obtain ⟨-, hws⟩ := everywhere_list.mp hw
          obtain ⟨hlength, hitems⟩ := List.forall₂_iff_zip.mp items
          refine .list (List.forall₂_iff_zip.mpr ⟨hlength, fun {v w} hmem => ?_⟩)
          obtain ⟨hvmem, hwmem⟩ := List.of_mem_zip hmem
          exact ih v hvmem (hvs v hvmem) (hws w hwmem) (hitems hmem)
  | record r ih =>
      cases h with
      | plain h => exact .plain (himp _ _ hv.self hw.self h)
      | @record _ t names fields =>
          obtain ⟨-, hr⟩ := everywhere_record.mp hv
          obtain ⟨-, ht⟩ := everywhere_record.mp hw
          refine .record names fun name v w hv hw => ?_
          have hmem := mem_of_get? hv
          exact ih _ hmem (hr _ hmem) (ht _ (mem_of_get? hw)) (fields name v w hv hw)

theorem agree_alike_of_same {v w : Value} (h : Agree Same v w) : Agree Alike v w :=
  Agree.imp (p := fun _ => True) (fun _ _ _ _ => .same) (fun _ _ => trivial) (fun _ _ => trivial) h

/-- Without booleans and undefined numbers nothing is mistaken for something else. -/
theorem agree_same_of_clear {v w : Value} (hv : v.Everywhere Clear) (hw : w.Everywhere Clear)
    (h : Agree Alike v w) : Agree Same v w := by
  refine Agree.imp (fun v w hv hw h => ?_) hv hw h
  cases h with
  | same h => exact h
  | boolNumber _ => exact hv.elim
  | numberBool _ => exact hw.elim
  | undefined => exact absurd rfl hv

theorem agree_same_iff_of_plain {v w : Value} (hv : ¬ v.IsContainer) :
    Agree Same v w ↔ Same v w := by
  refine ⟨fun h => ?_, .plain⟩
  cases h with
  | plain h => exact h
  | list _ | record _ _ => exact absurd trivial hv

/-- **Values are found equal if they are.** Values that are no containers are equal if they
are the same, and containers if they agree in what counts as the same there. So all values
are found equal that agree in what is the same, and without booleans and undefined numbers in
them no others are. -/
theorem strictEquals_iff_agree {v w : Value} (hv : v.Everywhere NamesOnce)
    (hw : w.Everywhere NamesOnce) :
    (¬ v.IsContainer → (v.strictEquals w = true ↔ Agree Same v w))
      ∧ (v.IsContainer → (v.strictEquals w = true ↔ Agree Alike v w))
      ∧ (Agree Same v w → v.strictEquals w = true)
      ∧ (v.Everywhere Clear → w.Everywhere Clear →
        (v.strictEquals w = true ↔ Agree Same v w)) := by
  have hplain : ¬ v.IsContainer → (v.strictEquals w = true ↔ Agree Same v w) := fun h =>
    (strictEquals_iff_same h w).trans (agree_same_iff_of_plain h).symm
  have hcontainer : v.IsContainer → (v.strictEquals w = true ↔ Agree Alike v w) := fun h => by
    have hcounts : v.countsAs = none := by
      cases v with
      | list _ | record _ => rfl
      | null | bool _ | number _ | text _ => exact h.elim
    rw [← equals_eq_strictEquals hcounts, equals_iff_agree hv hw]
  have hfound : Agree Same v w → v.strictEquals w = true := by
    intro h
    by_cases hkind : v.IsContainer
    · exact (hcontainer hkind).mpr (agree_alike_of_same h)
    · exact (hplain hkind).mpr h
  refine ⟨hplain, hcontainer, hfound, fun hclear hclear' => ⟨fun h => ?_, hfound⟩⟩
  by_cases hkind : v.IsContainer
  · exact agree_same_of_clear hclear hclear' ((hcontainer hkind).mp h)
  · exact (hplain hkind).mp h

/-- Two records in a list, whose fields stand in another order and whose number is written
otherwise; and a list of a boolean, which is found equal to a list of the number it counts as
but does not agree with it. -/
theorem strictEquals_iff_agree_in_lists :
    let v : Value := .list [.record [("a", .int 1), ("b", .text "x")]]
    let w : Value :=
      .list [.record [("b", .text "x"), ("a", .float (.ofQuanta false quantaPerUnit))]]
    let mistaken : Value := .list [.bool true]
    let counted : Value := .list [.int 1]
    (v.Everywhere NamesOnce ∧ w.Everywhere NamesOnce ∧ v.Everywhere Clear ∧ w.Everywhere Clear
        ∧ Agree Same v w)
      ∧ mistaken.strictEquals counted = true ∧ Agree Alike mistaken counted
      ∧ ¬ Agree Same mistaken counted := by
  intro v w mistaken counted
  have hv : v.Everywhere NamesOnce := by decide
  have hw : w.Everywhere NamesOnce := by decide +kernel
  have hclear : v.Everywhere Clear := by decide +kernel
  have hclear' : w.Everywhere Clear := by decide +kernel
  have hequal : v.strictEquals w = true := by decide +kernel
  obtain ⟨-, -, -, hiff⟩ := strictEquals_iff_agree hv hw
  have hmistaken : mistaken.strictEquals counted = true := by decide +kernel
  obtain ⟨-, hcontainer, -, -⟩ :=
    strictEquals_iff_agree (v := mistaken) (w := counted) (by decide) (by decide)
  refine ⟨⟨hv, hw, hclear, hclear', (hiff hclear hclear').mp hequal⟩, hmistaken,
    (hcontainer trivial).mp hmistaken, fun h => ?_⟩
  change Agree Same (.list [.bool true]) (.list [.int 1]) at h
  cases h with
  | plain h => cases h
  | list items =>
      cases items with
      | cons h _ =>
          cases h with
          | plain h => cases h

end Value
end Workflow
