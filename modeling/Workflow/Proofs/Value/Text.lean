import Workflow.NodeKind
import Workflow.Proofs.Fallible
import Workflow.Proofs.Number.Spelling
import Workflow.Proofs.Value.Parts
import Workflow.Value.Text

/-!
# The text of a value

A value has a text unless one of its integers is too long (`fails_toText`,
`exists_toText_iff`). The text of what is given is not empty, and no value but a text looks
like the name of a kind: numbers begin with a sign, a digit or the words for what has no
digits, and containers with a bracket.
-/

namespace Workflow

namespace Value

/-- The fault is that an integer in the value has too many digits to be shown. -/
def Overlong (v : Value) (fault : Fault) : Prop :=
  fault = .tooManyDigits none ∧ ¬ v.WithinDigits

theorem Overlong.of_mem {v : Value} {items : List Value} {fault : Fault}
    (h : v.Overlong fault) (hv : v ∈ items) : (Value.list items).Overlong fault :=
  ⟨h.1, fun hwithin => h.2 ((everywhere_list.mp hwithin).2 v hv)⟩

theorem Overlong.of_field {f : String × Value} {fields : List (String × Value)}
    {fault : Fault} (h : f.2.Overlong fault) (hf : f ∈ fields) :
    (Value.record fields).Overlong fault :=
  ⟨h.1, fun hwithin => h.2 ((everywhere_record.mp hwithin).2 f hf)⟩

theorem Overlong.of_getD {r : Record} {name : String} {default : Value} {fault : Fault}
    (h : (Record.getD r name default).Overlong fault) (hdefault : default.WithinDigits) :
    (Value.record r).Overlong fault :=
  ⟨h.1, fun hwithin => h.2 (hwithin.getD name hdefault)⟩

end Value

namespace Number

/-- The first characters of the texts of numbers. -/
def Leads (c : Char) : Prop := c = '-' ∨ c.isDigit = true ∨ c = 'n' ∨ c = 'i'

theorem leads_signed (negative : Bool) {c : Char} (cs : List Char) (hc : Leads c) :
    ∃ d ds, FloatFormat.signText negative ++ c :: cs = d :: ds ∧ Leads d := by
  cases negative with
  | false => exact ⟨c, cs, rfl, hc⟩
  | true => exact ⟨'-', c :: cs, rfl, Or.inl rfl⟩

theorem text_eq_cons {n : Number} {s : String} (h : n.text = .ok s) :
    ∃ c cs, s.toList = c :: cs ∧ Leads c := by
  cases n with
  | int n =>
      change intText n = .ok s at h
      unfold intText at h
      split at h
      · obtain rfl := Except.ok.inj h
        obtain ⟨c, cs, hdigits, hc, -⟩ := Text.decimalDigits_eq_cons n.natAbs
        rw [String.toList_ofList, intChars, hdigits]
        exact leads_signed _ cs (Or.inr (Or.inl hc))
      · cases h
  | float x =>
      obtain rfl := Except.ok.inj h
      cases x with
      | nan named =>
          have hlist : (shown.text (.nan named)).toList = ['n', 'a', 'n'] := by
            simp only [FloatFormat.text]
            rfl
          exact ⟨'n', ['a', 'n'], hlist, Or.inr (Or.inr (Or.inl rfl))⟩
      | infinite negative =>
          have hlist : (shown.text (.infinite negative)).toList
              = FloatFormat.signText negative ++ ['i', 'n', 'f'] := by
            simp only [FloatFormat.text, String.toList_append, String.toList_ofList]
            rfl
          rw [hlist]
          exact leads_signed _ _ (Or.inr (Or.inr (Or.inr rfl)))
      | finite negative quanta hrep =>
          obtain ⟨spelling, hspelling, htext, -⟩ := shown.exists_spelling negative hrep
          obtain ⟨c, cs, hcs, hc⟩ := hspelling.chars_eq_cons shown.exponentWidth
          rw [htext, hcs]
          exact leads_signed _ cs (Or.inr (Or.inl hc))

theorem fails_textIn (format : FloatFormat) (n : Number) :
    Fails (Value.number n).Overlong (n.textIn format) := by
  cases n with
  | int n =>
      show Fails _ (intText n)
      unfold intText
      split
      · exact .ok _
      · rename_i hlong
        exact .throw ⟨rfl, fun h => hlong h.self⟩
  | float x => exact .ok _

theorem exists_textIn (format : FloatFormat) {n : Number} (h : (Value.number n).DigitsFit) :
    ∃ s, n.textIn format = .ok s :=
  (fails_textIn format n).exists_ok fun _ hlong => hlong.2 (List.forall_mem_singleton.mpr h)

end Number

namespace Value

/-! ## Values that have a text -/

theorem fails_innerItems {p : Fault → Prop} : ∀ {items : List Value},
    (∀ v ∈ items, Fails p v.inner) → Fails p (innerItems items)
  | [], _ => .ok _
  | v :: vs, h => by
      obtain ⟨hfirst, hrest⟩ := List.forall_mem_cons.mp h
      exact hfirst.bind fun _ _ => (fails_innerItems hrest).bind fun _ _ => .ok _

theorem fails_innerFields {p : Fault → Prop} : ∀ {fields : List (String × Value)},
    (∀ f ∈ fields, Fails p f.2.inner) → Fails p (innerFields fields)
  | [], _ => .ok _
  | (_, v) :: fields, h => by
      obtain ⟨hfirst, hrest⟩ := List.forall_mem_cons.mp h
      exact hfirst.bind fun _ _ => (fails_innerFields hrest).bind fun _ _ => .ok _

theorem fails_inner (v : Value) : Fails v.Overlong v.inner := by
  induction v using insideInduction with
  | null | bool _ | text _ => exact .ok _
  | number n => exact n.fails_textIn _
  | list items ih =>
      have hitems : ∀ v ∈ items, Fails (Value.list items).Overlong v.inner := fun v hv =>
        (ih v hv).mono fun _ h => h.of_mem hv
      exact (fails_innerItems hitems).bind fun _ _ => .ok _
  | record fields ih =>
      have hfields : ∀ f ∈ fields, Fails (Value.record fields).Overlong f.2.inner := fun f hf =>
        (ih f hf).mono fun _ h => h.of_field hf
      exact (fails_innerFields hfields).bind fun _ _ => .ok _

/-- A value has a text unless one of its integers is too long, and this is all that is
wrong. -/
theorem fails_toText (v : Value) : Fails v.Overlong v.toText := by
  cases v with
  | text s => exact .ok s
  | null | bool _ | number _ | list _ | record _ => exact fails_inner _

theorem exists_toText {v : Value} (h : v.WithinDigits) : ∃ s, v.toText = .ok s :=
  (fails_toText v).exists_ok fun _ hlong => hlong.2 h

theorem inner_of_mem_items : ∀ {items : List Value} {texts : List String},
    innerItems items = .ok texts → ∀ v ∈ items, ∃ s, v.inner = .ok s
  | [], _, _ => nofun
  | v :: vs, texts, h => by
      obtain ⟨first, hfirst, h⟩ := bind_eq_ok.mp h
      obtain ⟨rest, hrest, -⟩ := bind_eq_ok.mp h
      exact List.forall_mem_cons.mpr ⟨⟨first, hfirst⟩, inner_of_mem_items hrest⟩

theorem inner_of_mem_fields : ∀ {fields : List (String × Value)} {texts : List String},
    innerFields fields = .ok texts → ∀ f ∈ fields, ∃ s, f.2.inner = .ok s
  | [], _, _ => nofun
  | (name, v) :: fields, texts, h => by
      obtain ⟨first, hfirst, h⟩ := bind_eq_ok.mp h
      obtain ⟨rest, hrest, -⟩ := bind_eq_ok.mp h
      exact List.forall_mem_cons.mpr ⟨⟨first, hfirst⟩, inner_of_mem_fields hrest⟩

theorem withinDigits_of_inner {v : Value} :
    ∀ {s : String}, v.inner = .ok s → v.WithinDigits := by
  induction v using insideInduction with
  | null | bool _ | text _ => exact fun _ => List.forall_mem_singleton.mpr trivial
  | number n =>
      intro s h
      refine List.forall_mem_singleton.mpr ?_
      cases n with
      | float x => exact trivial
      | int n =>
          change Number.intText n = .ok s at h
          unfold Number.intText at h
          split at h
          · rename_i hfits
            exact hfits
          · cases h
  | list items ih =>
      intro s h
      obtain ⟨texts, htexts, -⟩ := bind_eq_ok.mp h
      refine everywhere_list.mpr ⟨trivial, fun v hv => ?_⟩
      obtain ⟨t, ht⟩ := inner_of_mem_items htexts v hv
      exact ih v hv ht
  | record fields ih =>
      intro s h
      obtain ⟨texts, htexts, -⟩ := bind_eq_ok.mp h
      refine everywhere_record.mpr ⟨trivial, fun f hf => ?_⟩
      obtain ⟨t, ht⟩ := inner_of_mem_fields htexts f hf
      exact ih f hf ht

/-- A value has a text exactly when none of its integers is too long. -/
theorem exists_toText_iff {v : Value} : (∃ s, v.toText = .ok s) ↔ v.WithinDigits := by
  refine ⟨?_, exists_toText⟩
  rintro ⟨s, hs⟩
  cases v with
  | text t => exact List.forall_mem_singleton.mpr trivial
  | null | bool _ | number _ | list _ | record _ => exact withinDigits_of_inner hs

theorem fails_toText_getD (r : Record) (name : String) {default : Value}
    (hdefault : default.WithinDigits) :
    Fails (Value.record r).Overlong (Record.getD r name default).toText :=
  (fails_toText _).mono fun _ h => h.of_getD hdefault

/-! ## What texts look like -/

/-- The first characters of the texts of values that are no texts themselves. -/
def Leads (c : Char) : Prop := c ∈ ['N', 'T', 'F', '[', '\x7b'] ∨ Number.Leads c

theorem inner_eq_cons {v : Value} {s : String} (hv : ∀ t, v ≠ .text t) (h : v.inner = .ok s) :
    ∃ c cs, s.toList = c :: cs ∧ Leads c := by
  cases v with
  | null =>
      obtain rfl := Except.ok.inj h
      exact ⟨'N', ['o', 'n', 'e'], rfl, Or.inl (by decide)⟩
  | bool b =>
      obtain rfl := Except.ok.inj h
      cases b with
      | true => exact ⟨'T', ['r', 'u', 'e'], rfl, Or.inl (by decide)⟩
      | false => exact ⟨'F', ['a', 'l', 's', 'e'], rfl, Or.inl (by decide)⟩
  | number n =>
      obtain ⟨c, cs, hcs, hc⟩ := Number.text_eq_cons h
      exact ⟨c, cs, hcs, Or.inr hc⟩
  | text t => exact absurd rfl (hv t)
  | list items =>
      obtain ⟨ss, -, h⟩ := bind_eq_ok.mp h
      obtain rfl := Except.ok.inj h
      refine ⟨'[', (", ".intercalate ss ++ "]").toList, ?_, Or.inl (by decide)⟩
      simp only [String.toList_append, List.append_assoc]
      rfl
  | record fields =>
      obtain ⟨ss, -, h⟩ := bind_eq_ok.mp h
      obtain rfl := Except.ok.inj h
      refine ⟨'\x7b', (", ".intercalate ss ++ "\x7d").toList, ?_, Or.inl (by decide)⟩
      simp only [String.toList_append, List.append_assoc]
      rfl

theorem toText_ne_empty {v : Value} {s : String} (hfilled : v.isFilled = true)
    (h : v.toText = .ok s) : s ≠ "" := by
  cases v with
  | text t =>
      obtain rfl := Except.ok.inj h
      exact ne_of_beq_false (by simpa [isFilled] using hfilled)
  | null | bool _ | number _ | list _ | record _ =>
      obtain ⟨c, cs, hcs, -⟩ := inner_eq_cons (by rintro _ ⟨⟩) h
      rintro rfl
      cases hcs

theorem eq_text_of_toText_name {v : Value} {kind : NodeKind} (h : v.toText = .ok kind.name) :
    v = .text kind.name := by
  have hname : ∃ c cs, kind.name.toList = c :: cs ∧ c ∈ ['s', 't', 'c', 'e'] := by
    cases kind <;> exact ⟨_, _, rfl, by decide⟩
  cases v with
  | text t => exact congrArg Value.text (Except.ok.inj h)
  | null | bool _ | number _ | list _ | record _ =>
      obtain ⟨c, cs, hcs, hc⟩ := inner_eq_cons (by rintro _ ⟨⟩) h
      obtain ⟨d, ds, hds, hd⟩ := hname
      obtain ⟨rfl, -⟩ := List.cons.inj (hcs.symm.trans hds)
      have hnot : ∀ d ∈ ['s', 't', 'c', 'e'], ¬ Leads d := by
        unfold Leads Number.Leads
        exact Text.forall_mem_of_all (by decide)
      exact absurd hc (hnot _ hd)

end Value
end Workflow
