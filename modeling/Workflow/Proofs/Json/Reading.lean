import Workflow.Json.Reader
import Workflow.Proofs.Fallible
import Workflow.Proofs.Text.Digit
import Workflow.Proofs.Value.Parts
import Workflow.Proofs.Value.Record

/-!
# What the reader gives

Whatever text is read, its value is faithful everywhere: no integer has more digits than can
be written, the undefined number is the one that documents name, and no record repeats a
name. It nests no deeper than the reader went. These are the values that can be written and
read back, so nothing that came from a document is ever in the way of writing one.

The proof goes along the reader: it has one lemma for numbers, and one for each of the three
functions that call each other. The headline is `Json.fits_of_read`.
-/

namespace Workflow.Json

open Text Value

/-! ## Numbers -/

theorem isDigit_of_mem_splitWhole {cs : List Char} :
    ∀ c ∈ (splitWhole cs).1, c.isDigit = true := by
  unfold splitWhole
  split
  · exact List.forall_mem_singleton.mpr rfl
  · exact List.all_eq_true.mp List.all_takeWhile

theorem Literal.toBinary64_ne_nan (l : Literal) : l.toBinary64 ≠ .nan false := by
  unfold Literal.toBinary64 Decimal.toBinary64 Binary64.ofRatio Binary64.ofQuanta
  split
  · unfold Binary64.zero
    rintro ⟨⟩
  · split
    · rintro ⟨⟩
    · split <;> split <;> rintro ⟨⟩

theorem faithful_of_readDigits {negative : Bool} {start cs rest : List Char} {n : Number}
    (h : readDigits negative start cs = .ok (n, rest)) : (Value.number n).Faithful := by
  have hdigits : ∀ c ∈ (splitWhole cs).1, c.isDigit = true := isDigit_of_mem_splitWhole
  unfold readDigits at h
  split at h
  · cases h
  · rename_i whole rest' hwhole hsplit
    rw [hsplit] at hdigits
    dsimp only at h
    split at h
    · split at h
      · rename_i hfits
        obtain ⟨rfl, -⟩ := Prod.mk.inj (Except.ok.inj h)
        refine ⟨?_, nofun⟩
        have hwidth := decimalWidth_ofDecimalDigits (fun hnil => hwhole hnil) hdigits
        have hnat : (Binary64.signed negative (ofDecimalDigits whole)).natAbs
            = ofDecimalDigits whole := by
          unfold Binary64.signed
          split <;> omega
        show decimalWidth (Binary64.signed negative (ofDecimalDigits whole)).natAbs ≤ digitLimit
        rw [hnat]
        exact Nat.le_trans hwidth hfits
      · cases h
    · obtain ⟨rfl, -⟩ := Prod.mk.inj (Except.ok.inj h)
      exact ⟨trivial, fun hnan => Literal.toBinary64_ne_nan _ (Number.float.inj hnan)⟩

theorem faithful_of_readNumber {cs rest : List Char} {n : Number}
    (h : readNumber cs = .ok (n, rest)) : (Value.number n).Faithful := by
  unfold readNumber at h
  split at h
  · exact faithful_of_readDigits h
  · exact faithful_of_readDigits h

/-! ## Lists and records -/

theorem descend_eq_ok {container : Container} {levels inner : Nat}
    (h : descend container levels = .ok inner) : levels = inner + 1 := by
  cases levels with
  | zero => cases h
  | succ levels => rw [Except.ok.inj h]

mutual

/-- **What is read fits** into the levels that are left, by induction on the fuel. -/
theorem fits_of_readValue {levels : Nat} {v : Value} : ∀ {fuel : Nat} {cs rest : List Char},
    readValue levels fuel cs = .ok (v, rest) → Fits Faithful levels v
  | 0, _, _, h => by cases h
  | fuel + 1, cs, rest, h => by
      unfold readValue at h
      split at h
      · obtain ⟨⟨s, _⟩, -, h⟩ := bind_eq_ok.mp h
        obtain ⟨rfl, -⟩ := Prod.mk.inj (Except.ok.inj h)
        exact fits_faithful_text _ s
      · obtain ⟨inner, hinner, hinside⟩ := bind_eq_ok.mp h
        obtain rfl := descend_eq_ok hinner
        split at hinside
        · obtain ⟨rfl, -⟩ := Prod.mk.inj (Except.ok.inj hinside)
          exact fits_faithful_empty _
        · obtain ⟨⟨fields, _⟩, hfields, hend⟩ := bind_eq_ok.mp hinside
          obtain ⟨rfl, -⟩ := Prod.mk.inj (Except.ok.inj hend)
          exact fits_of_readFields hfields (fits_faithful_empty _)
      · obtain ⟨inner, hinner, hinside⟩ := bind_eq_ok.mp h
        obtain rfl := descend_eq_ok hinner
        split at hinside
        · obtain ⟨rfl, -⟩ := Prod.mk.inj (Except.ok.inj hinside)
          exact fits_faithful_list.mpr fun _ hv => absurd hv List.not_mem_nil
        · obtain ⟨⟨items, _⟩, hitems, hend⟩ := bind_eq_ok.mp hinside
          obtain ⟨rfl, -⟩ := Prod.mk.inj (Except.ok.inj hend)
          exact fits_faithful_list.mpr
            (fits_of_readItems hitems fun _ hv => absurd hv List.not_mem_nil)
      · obtain ⟨rfl, -⟩ := Prod.mk.inj (Except.ok.inj h)
        exact fits_faithful_null _
      · obtain ⟨rfl, -⟩ := Prod.mk.inj (Except.ok.inj h)
        exact fits_faithful_bool _ true
      · obtain ⟨rfl, -⟩ := Prod.mk.inj (Except.ok.inj h)
        exact fits_faithful_bool _ false
      · obtain ⟨rfl, -⟩ := Prod.mk.inj (Except.ok.inj h)
        exact fits_faithful_float _ (by rintro ⟨⟩)
      · obtain ⟨rfl, -⟩ := Prod.mk.inj (Except.ok.inj h)
        exact fits_faithful_float _ (by rintro ⟨⟩)
      · obtain ⟨rfl, -⟩ := Prod.mk.inj (Except.ok.inj h)
        exact fits_faithful_float _ (by rintro ⟨⟩)
      · obtain ⟨⟨n, _⟩, hn, h⟩ := bind_eq_ok.mp h
        obtain ⟨rfl, -⟩ := Prod.mk.inj (Except.ok.inj h)
        exact ⟨List.forall_mem_singleton.mpr (faithful_of_readNumber hn), Nat.zero_le _⟩

theorem fits_of_readItems {levels : Nat} : ∀ {fuel : Nat} {done items : List Value}
    {cs rest : List Char}, readItems levels fuel done cs = .ok (items, rest) →
      (∀ v ∈ done, Fits Faithful levels v) → ∀ v ∈ items, Fits Faithful levels v
  | 0, _, _, _, _, h, _ => by cases h
  | fuel + 1, done, items, cs, rest, h, hdone => by
      unfold readItems at h
      obtain ⟨⟨v, _⟩, hv, h⟩ := bind_eq_ok.mp h
      have hmore : ∀ w ∈ v :: done, Fits Faithful levels w :=
        List.forall_mem_cons.mpr ⟨fits_of_readValue hv, hdone⟩
      dsimp only at h
      split at h
      · obtain ⟨rfl, -⟩ := Prod.mk.inj (Except.ok.inj h)
        exact fun w hw => hmore w (List.mem_reverse.mp hw)
      · exact fits_of_readItems h hmore
      · cases h

theorem fits_of_readFields {levels : Nat} : ∀ {fuel : Nat} {done fields : Record}
    {cs rest : List Char}, readFields levels fuel done cs = .ok (fields, rest) →
      Fits Faithful (levels + 1) (.record done) → Fits Faithful (levels + 1) (.record fields)
  | 0, _, _, _, _, h, _ => by cases h
  | fuel + 1, done, fields, cs, rest, h, hdone => by
      unfold readFields at h
      obtain ⟨⟨name, _⟩, -, h⟩ := bind_eq_ok.mp h
      obtain ⟨⟨v, _⟩, hv, h⟩ := bind_eq_ok.mp h
      have hmore : Fits Faithful (levels + 1) (.record (done.set name v)) := by
        obtain ⟨hdistinct, hfields⟩ := fits_faithful_record.mp hdone
        refine fits_faithful_record.mpr ⟨Record.distinctNames_set hdistinct, fun f hf => ?_⟩
        rcases Record.mem_set hf with hold | rfl
        · exact hfields f hold
        · exact fits_of_readValue hv
      dsimp only at h
      split at h
      · obtain ⟨rfl, -⟩ := Prod.mk.inj (Except.ok.inj h)
        exact hmore
      · exact fits_of_readFields h hmore
      · cases h

end

/-- **A document that is read** gives a faithful value, which nests no deeper than the
limit. -/
theorem fits_of_read {text : String} {v : Value} (h : read text = .ok v) :
    Fits Faithful nestingLimit v := by
  unfold read readChars at h
  split at h
  · cases h
  · obtain ⟨⟨w, _⟩, hw, h⟩ := bind_eq_ok.mp h
    dsimp only at h
    split at h
    · obtain rfl := Except.ok.inj h
      exact fits_of_readValue hw
    · cases h

theorem withinDigits_of_read {text : String} {v : Value} (h : read text = .ok v) :
    v.WithinDigits :=
  (fits_of_read h).everywhere.mono fun _ hw => hw.1

end Workflow.Json
