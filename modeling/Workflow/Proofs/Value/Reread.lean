import Workflow.Proofs.Execution.Outcome
import Workflow.Proofs.Json.Token
import Workflow.Proofs.Number.Exact
import Workflow.Proofs.Value.Operand

/-!
# Numbers as texts and back

Where a number is wanted as a text it is spelled out, and where a text is wanted as a number
it is read. What is spelled with digits is a literal (`written_intChars`,
`Spelling.WellFormed.written`), so that integers and finite floating-point numbers come back
with the value they had. Infinity and the undefined number are spelled as words that are no
literals, and both come back undefined.

The headline is `Value.rereads`.
-/

namespace Workflow

open Text Number

/-! ## Spellings are literals -/

theorem sign_signText (negative : Bool) : Sign (FloatFormat.signText negative) negative := by
  cases negative with
  | false => exact .absent
  | true => exact .minus

theorem written_intChars (n : Int) :
    Written (intChars n) ⟨decide (n < 0), decimalDigits n.natAbs, [], 0⟩ false := by
  have hplain := Written.plain (sign_signText (decide (n < 0)))
    (fun _ => isDigit_of_mem_decimalDigits) (decimalDigits_ne_nil n.natAbs) .absent
  rwa [List.append_nil] at hplain

theorem exponent_exponentChars (width : Nat) (e : Option Int) :
    Exponent (Spelling.exponentChars width e) (e.getD 0) := by
  cases e with
  | none => exact .absent
  | some e =>
      have hsign : Sign [if e < 0 then '-' else '+'] (decide (e < 0)) := by
        by_cases he : e < 0
        · rw [if_pos he, decide_eq_true he]
          exact .minus
        · rw [if_neg he, decide_eq_false he]
          exact .plus
      have hdigits : Writes 10 (padLeft width '0' (decimalDigits e.natAbs)) e.natAbs := by
        refine writes_ten_iff.mpr ⟨?_, ?_⟩
        · exact List.forall_mem_append.mpr
            ⟨FloatFormat.isDigit_of_mem_zeros, fun _ => isDigit_of_mem_decimalDigits⟩
        · rw [ofDecimalDigits_padLeft, ofDecimalDigits_decimalDigits]
      have hsome : padLeft width '0' (decimalDigits e.natAbs) ≠ [] :=
        List.append_ne_nil_of_right_ne_nil _ (decimalDigits_ne_nil _)
      have hvalue : (if decide (e < 0) = true then -(e.natAbs : Int) else e.natAbs) = e :=
        Json.signed_natAbs e
      have hpresent := Exponent.present (.inl rfl) hsign hsome hdigits
      rwa [hvalue] at hpresent

/-- A spelling with its sign is a literal with a point or an exponent. -/
theorem Spelling.WellFormed.written {s : Spelling} (h : s.WellFormed) (negative : Bool)
    (width : Nat) :
    Written (FloatFormat.signText negative ++ s.chars width) (s.literal negative) true := by
  obtain ⟨whole, fraction, exponent⟩ := s
  obtain ⟨c, cs, hwhole⟩ := h.whole_eq_cons
  have hsome : whole ≠ [] := fun hnil => by
    rw [show whole = c :: cs from hwhole] at hnil
    cases hnil
  have hexponent := exponent_exponentChars width exponent
  cases fraction with
  | nil =>
      have hmarked : (!(Spelling.exponentChars width exponent).isEmpty) = true := by
        rcases h.marked with hpoint | hsome
        · exact absurd rfl hpoint
        · obtain ⟨e, rfl⟩ := Option.isSome_iff_exists.mp hsome
          rfl
      have hplain := Written.plain (sign_signText negative) h.whole hsome hexponent
      rwa [hmarked] at hplain
  | cons d ds =>
      exact .pointed (sign_signText negative) h.whole h.fraction
        (List.append_ne_nil_of_left_ne_nil hsome _) hexponent

/-! ## Reading literals -/

theorem isBlank_of_isDigit {c : Char} (h : c.isDigit = true) : isBlank c = false := by
  have hfirst : 48 ≤ c.toNat := (Char.isDigit_iff_toNat.mp h).1
  have hlast : c.toNat ≤ 57 := (Char.isDigit_iff_toNat.mp h).2
  simp only [isBlank, inSpans, blankSpans, List.any_cons, List.any_nil, Bool.or_eq_false_iff,
    Bool.and_eq_false_iff, decide_eq_false_iff_not, and_true]
  omega

theorem isBlank_of_mem_sign {sign : List Char} {negative : Bool} (h : Sign sign negative) :
    ∀ c ∈ sign, isBlank c = false := by
  cases h with
  | absent => nofun
  | plus | minus => exact List.forall_mem_singleton.mpr (by decide)

theorem isBlank_of_mem_exponent {cs : List Char} {e : Int} (h : Exponent cs e) :
    ∀ c ∈ cs, isBlank c = false := by
  cases h with
  | absent => nofun
  | present hletter hsign _ hdigits =>
      have hall := (writes_ten_iff.mp hdigits).1
      refine List.forall_mem_cons.mpr ⟨?_, List.forall_mem_append.mpr
        ⟨isBlank_of_mem_sign hsign, fun c hc => isBlank_of_isDigit (hall c hc)⟩⟩
      rcases hletter with rfl | rfl <;> decide

theorem isBlank_of_mem_written {cs : List Char} {l : Literal} {flag : Bool}
    (h : Written cs l flag) : ∀ c ∈ cs, isBlank c = false := by
  cases h with
  | plain hsign hwhole _ hexponent =>
      exact List.forall_mem_append.mpr ⟨isBlank_of_mem_sign hsign, List.forall_mem_append.mpr
        ⟨fun c hc => isBlank_of_isDigit (hwhole c hc), isBlank_of_mem_exponent hexponent⟩⟩
  | pointed hsign hwhole hfraction _ hexponent =>
      refine List.forall_mem_append.mpr ⟨isBlank_of_mem_sign hsign, List.forall_mem_append.mpr
        ⟨fun c hc => isBlank_of_isDigit (hwhole c hc), List.forall_mem_cons.mpr ⟨by decide, ?_⟩⟩⟩
      exact List.forall_mem_append.mpr
        ⟨fun c hc => isBlank_of_isDigit (hfraction c hc), isBlank_of_mem_exponent hexponent⟩

theorem trimChars_of_unblanked {cs : List Char} (h : ∀ c ∈ cs, isBlank c = false) :
    trimChars cs = cs := by
  refine Strips.trimChars_eq ⟨⟨[], [], ?_, nofun, nofun⟩, ?_, ?_⟩
  · rw [List.nil_append, List.append_nil]
  · exact fun c hc => h c (List.mem_of_mem_head? hc)
  · exact fun c hc => h c (List.mem_of_mem_getLast? hc)

/-- **A text that is a literal is read as this literal**: as an integer where there is
neither a point nor an exponent, which must not have too many digits, and else as a
floating-point number. -/
theorem numberOfText_of_written {cs : List Char} {l : Literal} {flag : Bool}
    (h : Written cs l flag) (hlimit : flag = false → l.whole.length ≤ digitLimit) :
    numberOfText (String.ofList cs) = .ok (if flag then .float l.toBinary64
      else .int (Binary64.signed l.negative (ofDecimalDigits l.whole))) := by
  obtain ⟨hinfinity, hradix⟩ := readers_of_written h
  unfold numberOfText
  rw [String.toList_ofList, trimChars_of_unblanked (isBlank_of_mem_written h)]
  cases flag with
  | true => simp only [hinfinity, hradix, readLiteral_eq_some_iff.mpr h, if_true]
  | false =>
      have hvalue : Number.ofDigits l.negative l.whole
          = .ok (Binary64.signed l.negative (ofDecimalDigits l.whole)) := if_pos (hlimit rfl)
      simp only [hinfinity, hradix, readLiteral_eq_some_iff.mpr h, hvalue]
      rfl

/-! ## Numbers read back -/

theorem numberOfText_intChars {n : Int} (hwidth : decimalWidth n.natAbs ≤ digitLimit) :
    numberOfText (String.ofList (intChars n)) = .ok (.int n) := by
  rw [numberOfText_of_written (written_intChars n) fun _ => hwidth, if_neg Bool.false_ne_true]
  dsimp only
  rw [ofDecimalDigits_decimalDigits, Json.signed_natAbs]

/-- A finite floating-point number is read back from its spelling. -/
theorem numberOfText_finite (negative : Bool) {quanta : Nat} (h : Representable quanta) :
    numberOfText (shown.text (.finite negative quanta h))
      = .ok (.float (.finite negative quanta h)) := by
  obtain ⟨s, hs, htext, hreads⟩ := shown.exists_spelling negative h
  rw [← String.ofList_toList (s := shown.text (.finite negative quanta h)), htext,
    numberOfText_of_written (hs.written negative _) nofun, if_pos rfl, hreads]

theorem Binary64.signed_mul (negative : Bool) (m k : Nat) :
    signed negative m * k = signed negative (m * k) := by
  cases negative with
  | false => exact (Int.natCast_mul m k).symm
  | true => exact (Int.neg_mul _ _).trans (congrArg Neg.neg (Int.natCast_mul m k).symm)

/-- The integer that a floating-point number equals has its value. -/
theorem eq_of_toInt? {x : Binary64} {n : Int} (h : x.toInt? = some n) :
    (Number.int n).eq (.float x) = true := by
  cases x with
  | nan _ | infinite _ => cases h
  | finite negative quanta hquanta =>
      obtain ⟨hwhole, h⟩ := Option.ite_none_right_eq_some.mp h
      obtain rfl := Option.some.inj h
      have hplace : Binary64.signed negative (quanta / quantaPerUnit) * quantaPerUnit
          = Binary64.signed negative quanta := by
        rw [Binary64.signed_mul, Nat.div_mul_cancel (Nat.dvd_of_mod_eq_zero hwhole)]
      unfold Number.eq Number.comparing Number.place?
      dsimp only
      rw [hplace, beq_self_eq_true]

/-- Whether a number is an integer or a finite floating-point number. -/
def Number.IsFinite : Number → Prop
  | .int _ | .float (.finite ..) => True
  | .float (.nan _) | .float (.infinite _) => False

theorem Number.IsFinite.eq_self {x : Number} (h : x.IsFinite) : x.eq x = true := by
  unfold Number.eq Number.comparing
  cases x with
  | int n => exact beq_self_eq_true _
  | float x =>
      cases x with
      | nan _ | infinite _ => exact absurd h id
      | finite negative quanta hquanta => exact beq_self_eq_true _

namespace Value

/-- **Numbers as texts and back.** Every number that is not too long to be written has a
text, and this is read as a number again. An integer or a finite floating-point number comes
back with the value it had, and the undefined number comes back undefined. So does infinity,
the word for which is read by nobody, so that it does not come back with its value. -/
theorem rereads {x : Number} (hwidth : ∀ n, x = .int n → decimalWidth n.natAbs ≤ 4300) :
    ∃ (t : String) (y : Number), (Value.number x).asOperandText = .ok t
      ∧ (Value.text t).asOperandNumber = .ok y
      ∧ (y.eq x = true ↔ x.IsFinite) ∧ (¬ x.IsFinite → y = .undefined) := by
  cases x with
  | int n =>
      have hfits : decimalWidth n.natAbs ≤ digitLimit := hwidth n rfl
      have hfinite : (Number.int n).IsFinite := trivial
      refine ⟨String.ofList (intChars n), .int n, if_pos hfits, ?_,
        iff_of_true hfinite.eq_self hfinite, absurd hfinite⟩
      rw [asOperandNumber, numberOfText_intChars hfits]
  | float x =>
      cases x with
      | nan named =>
          exact ⟨"nan", .undefined, rfl, by decide +kernel, iff_of_false nofun id, fun _ => rfl⟩
      | infinite negative =>
          cases negative with
          | false =>
              exact ⟨"inf", .undefined, rfl, by decide +kernel, iff_of_false nofun id, fun _ => rfl⟩
          | true =>
              exact ⟨"-inf", .undefined, rfl, by decide +kernel, iff_of_false nofun id,
                fun _ => rfl⟩
      | finite negative quanta hquanta =>
          have hfinite : (Number.float (.finite negative quanta hquanta)).IsFinite := trivial
          cases hint : Binary64.toInt? (.finite negative quanta hquanta) with
          | some n =>
              have hfits := Binary64.decimalWidth_of_toInt? hint
              refine ⟨String.ofList (intChars n), .int n, ?_, ?_,
                iff_of_true (eq_of_toInt? hint) hfinite, absurd hfinite⟩
              · unfold asOperandText
                dsimp only
                rw [hint]
                exact if_pos hfits
              · rw [asOperandNumber, numberOfText_intChars hfits]
          | none =>
              refine ⟨shown.text (.finite negative quanta hquanta), _, ?_, ?_,
                iff_of_true hfinite.eq_self hfinite, absurd hfinite⟩
              · unfold asOperandText
                dsimp only
                rw [hint]
                rfl
              · rw [asOperandNumber, numberOfText_finite negative hquanta]

/-- An integer with 4300 digits comes back, and the number below all others does not. -/
theorem rereads_at_the_ends :
    let long : Number := .int (-((Nat.pow 10 4299 : Nat) : Int))
    let bottom : Number := .float (.infinite true)
    (∃ t y, (Value.number long).asOperandText = .ok t
        ∧ (Value.text t).asOperandNumber = .ok y ∧ y.eq long = true)
      ∧ ∃ t, (Value.number bottom).asOperandText = .ok t
        ∧ (Value.text t).asOperandNumber = .ok .undefined := by
  intro long bottom
  have hten : ∀ k, decimalWidth (Nat.pow 10 k) ≤ k + 1 := fun k =>
    (decimalWidth_le_iff k.succ_pos).mpr (Nat.pow_lt_pow_right (by decide) k.lt_succ_self)
  have hwidth : ∀ n, long = .int n → decimalWidth n.natAbs ≤ 4300 := by
    intro n hn
    obtain rfl := Number.int.inj hn
    rw [Int.natAbs_neg, Int.natAbs_natCast]
    exact hten 4299
  obtain ⟨t, y, ht, hy, hequal, -⟩ := rereads hwidth
  obtain ⟨t', y', ht', hy', -, hlost⟩ := rereads (x := bottom) nofun
  obtain rfl := hlost id
  exact ⟨⟨t, y, ht, hy, hequal.mpr trivial⟩, t', ht', hy'⟩

end Value
end Workflow
