import Mathlib.Data.List.TakeWhile
import Workflow.Number.Literal
import Workflow.Proofs.Text.Radix

/-!
# How literals are written

`Written` says how a decimal literal is written: an optional sign, then digits that may have
a point among or around them, then an optional exponent. The reader of whole literals finds
just these (`readLiteral_eq_some_iff`): what is written so it reads, with the parts as they
are written, and it reads nothing else.
-/

namespace Workflow.Number

open Text

/-! ## Signs -/

/-- A sign, if there is one, and whether it says that the number is negative. -/
inductive Sign : List Char → Bool → Prop
  | absent : Sign [] false
  | plus : Sign ['+'] false
  | minus : Sign ['-'] true

theorem exists_sign (cs : List Char) :
    ∃ sign, Sign sign (splitSign cs).1 ∧ cs = sign ++ (splitSign cs).2 := by
  unfold splitSign
  split
  · exact ⟨['-'], .minus, rfl⟩
  · exact ⟨['+'], .plus, rfl⟩
  · exact ⟨[], .absent, rfl⟩

theorem splitSign_append {sign rest : List Char} {negative : Bool}
    (hsign : Sign sign negative) (hrest : ∀ c ∈ rest.head?, c ≠ '-' ∧ c ≠ '+') :
    splitSign (sign ++ rest) = (negative, rest) := by
  cases hsign with
  | absent =>
      rw [List.nil_append]
      fun_cases splitSign rest with
      | case1 => exact absurd rfl (hrest '-' rfl).1
      | case2 => exact absurd rfl (hrest '+' rfl).2
      | case3 => rfl
  | plus => rfl
  | minus => rfl

theorem ne_sign_of_digits {digits rest : List Char}
    (hdigits : ∀ c ∈ digits, c.isDigit = true)
    (hrest : ∀ c ∈ rest.head?, c ≠ '-' ∧ c ≠ '+') :
    ∀ c ∈ (digits ++ rest).head?, c ≠ '-' ∧ c ≠ '+' := by
  cases digits with
  | nil => exact hrest
  | cons d digits =>
      intro c hc
      obtain rfl := Option.some.inj hc
      have hd := hdigits d List.mem_cons_self
      constructor <;> rintro rfl <;> cases hd

/-! ## Exponents -/

/-- An exponent, if there is one, and its value. -/
inductive Exponent : List Char → Int → Prop
  | absent : Exponent [] 0
  | present {letter : Char} {sign digits : List Char} {negative : Bool} {n : Nat}
      (hletter : letter = 'e' ∨ letter = 'E') (hsign : Sign sign negative) (hsome : digits ≠ [])
      (hdigits : Writes 10 digits n) :
      Exponent (letter :: (sign ++ digits)) (if negative then -n else n)

theorem readExponent_eq_some_iff {cs : List Char} {e : Int} :
    readExponent cs = some e ↔ Exponent cs e := by
  constructor
  · intro h
    cases cs with
    | nil =>
        obtain rfl := Option.some.inj h
        exact .absent
    | cons letter cs =>
        obtain ⟨sign, hsign, hcs⟩ := exists_sign cs
        rw [readExponent] at h
        generalize splitSign cs = parts at *
        obtain ⟨negative, digits⟩ := parts
        obtain ⟨hletter, h⟩ := Option.ite_none_right_eq_some.mp h
        obtain ⟨hdigits, h⟩ := Option.ite_none_right_eq_some.mp h
        obtain ⟨hsome, hall⟩ := Bool.and_eq_true_iff.mp hdigits
        obtain rfl := Option.some.inj h
        rw [hcs]
        refine .present ?_ hsign ?_ (writes_ten_iff.mpr ⟨List.all_eq_true.mp hall, rfl⟩)
        · simpa only [Bool.or_eq_true, decide_eq_true_eq] using hletter
        · simpa only [Bool.not_eq_true', List.isEmpty_eq_false_iff] using hsome
  · intro h
    cases h with
    | absent => rfl
    | @present letter sign digits negative n hletter hsign hsome hdigits =>
        obtain ⟨hall, rfl⟩ := writes_ten_iff.mp hdigits
        have hsplit : splitSign (sign ++ digits) = (negative, digits) := by
          refine splitSign_append hsign ?_
          rw [← List.append_nil digits]
          exact ne_sign_of_digits hall (by rintro c ⟨⟩)
        have hgood : (!digits.isEmpty && digits.all Char.isDigit) = true := by
          rw [List.isEmpty_eq_false_iff.mpr hsome, List.all_eq_true.mpr hall]
          rfl
        unfold readExponent
        simp only [hsplit, hgood]
        rcases hletter with rfl | rfl <;> rfl

theorem Exponent.head? {cs : List Char} {e : Int} (h : Exponent cs e) :
    ∀ c ∈ cs.head?, c.isDigit = false ∧ c ≠ '.' ∧ c ≠ '-' ∧ c ≠ '+' := by
  cases h with
  | absent => rintro c ⟨⟩
  | present hletter _ _ _ =>
      intro c hc
      obtain rfl := Option.some.inj hc
      rcases hletter with rfl | rfl <;> decide

/-! ## Literals -/

/-- How a literal is written, and whether with a point or an exponent. -/
inductive Written : List Char → Literal → Bool → Prop
  | plain {sign whole exponent : List Char} {negative : Bool} {e : Int}
      (hsign : Sign sign negative) (hwhole : ∀ c ∈ whole, c.isDigit = true) (hsome : whole ≠ [])
      (hexponent : Exponent exponent e) :
      Written (sign ++ (whole ++ exponent)) ⟨negative, whole, [], e⟩ (!exponent.isEmpty)
  | pointed {sign whole fraction exponent : List Char} {negative : Bool} {e : Int}
      (hsign : Sign sign negative) (hwhole : ∀ c ∈ whole, c.isDigit = true)
      (hfraction : ∀ c ∈ fraction, c.isDigit = true) (hsome : whole ++ fraction ≠ [])
      (hexponent : Exponent exponent e) :
      Written (sign ++ (whole ++ '.' :: (fraction ++ exponent))) ⟨negative, whole, fraction, e⟩ true

theorem Written.digits {cs : List Char} {l : Literal} {flag : Bool} (h : Written cs l flag) :
    ∀ c ∈ l.whole ++ l.fraction, c.isDigit = true := by
  cases h with
  | plain _ hwhole _ _ => exact List.forall_mem_append.mpr ⟨hwhole, by rintro c ⟨⟩⟩
  | pointed _ hwhole hfraction _ _ => exact List.forall_mem_append.mpr ⟨hwhole, hfraction⟩

theorem Written.plain_parts {cs : List Char} {l : Literal} (h : Written cs l false) :
    ∃ sign, Sign sign l.negative ∧ l.whole ≠ [] ∧ cs = sign ++ l.whole := by
  generalize hflag : false = flag at h
  cases h with
  | @plain sign whole exponent negative e hsign hwhole hsome hexponent =>
      cases hexponent with
      | absent => exact ⟨sign, hsign, hsome, by rw [List.append_nil]⟩
      | present => cases hflag
  | pointed => cases hflag

theorem written_of_readLiteral {cs : List Char} {l : Literal} {flag : Bool}
    (h : readLiteral cs = some (l, flag)) : Written cs l flag := by
  obtain ⟨sign, hsign, hcs⟩ := exists_sign cs
  unfold readLiteral at h
  dsimp only at h
  generalize splitSign cs = parts at *
  obtain ⟨negative, body⟩ := parts
  have hrun : ∀ ds : List Char, (∀ c ∈ ds.takeWhile Char.isDigit, c.isDigit = true)
      ∧ ds = ds.takeWhile Char.isDigit ++ ds.dropWhile Char.isDigit :=
    fun ds => ⟨fun _ => List.mem_takeWhile_imp, List.takeWhile_append_dropWhile.symm⟩
  obtain ⟨hwhole, hbody⟩ := hrun body
  rw [hcs]
  split at h
  · rename_i rest hrest
    obtain ⟨hfraction, hsplit⟩ := hrun rest
    obtain ⟨hsome, h⟩ := Option.ite_none_left_eq_some.mp h
    obtain ⟨e, he, h⟩ := Option.bind_eq_some_iff.mp h
    obtain ⟨rfl, rfl⟩ := Prod.mk.inj (Option.some.inj h)
    have hpoint : body = body.takeWhile Char.isDigit
        ++ '.' :: (rest.takeWhile Char.isDigit ++ rest.dropWhile Char.isDigit) := by
      rw [← hsplit, ← hrest]
      exact hbody
    have hwritten := Written.pointed hsign hwhole hfraction (by simpa using hsome)
      (readExponent_eq_some_iff.mp he)
    rwa [← hpoint] at hwritten
  · obtain ⟨hsome, h⟩ := Option.ite_none_left_eq_some.mp h
    obtain ⟨e, he, h⟩ := Option.bind_eq_some_iff.mp h
    obtain ⟨rfl, rfl⟩ := Prod.mk.inj (Option.some.inj h)
    have hwritten := Written.plain hsign hwhole
      (List.isEmpty_eq_false_iff.mp (by simpa using hsome)) (readExponent_eq_some_iff.mp he)
    rwa [← hbody] at hwritten

theorem readLiteral_of_written {cs : List Char} {l : Literal} {flag : Bool}
    (h : Written cs l flag) : readLiteral cs = some (l, flag) := by
  cases h with
  | @plain sign whole exponent negative e hsign hwhole hsome hexponent =>
      have hsplit : splitSign (sign ++ (whole ++ exponent)) = (negative, whole ++ exponent) :=
        splitSign_append hsign (ne_sign_of_digits hwhole fun c hc => (hexponent.head? c hc).2.2)
      obtain ⟨htake, hdrop⟩ := takeWhile_isDigit hwhole fun c hc => (hexponent.head? c hc).1
      unfold readLiteral
      simp only [hsplit, htake, hdrop, List.isEmpty_eq_false_iff.mpr hsome]
      split
      · exact absurd rfl (hexponent.head? '.' rfl).2.1
      · rw [readExponent_eq_some_iff.mpr hexponent]
        rfl
  | @pointed sign whole fraction exponent negative e hsign hwhole hfraction hsome hexponent =>
      have hsplit : splitSign (sign ++ (whole ++ '.' :: (fraction ++ exponent)))
          = (negative, whole ++ '.' :: (fraction ++ exponent)) := by
        refine splitSign_append hsign (ne_sign_of_digits hwhole fun c hc => ?_)
        obtain rfl := Option.some.inj hc
        decide
      have hpoint : ∀ c ∈ ('.' :: (fraction ++ exponent)).head?, c.isDigit = false := by
        intro c hc
        obtain rfl := Option.some.inj hc
        rfl
      obtain ⟨htake, hdrop⟩ := takeWhile_isDigit hwhole hpoint
      obtain ⟨htake', hdrop'⟩ := takeWhile_isDigit hfraction fun c hc => (hexponent.head? c hc).1
      have hdigits : (whole.isEmpty && fraction.isEmpty) = false := by
        simpa [Bool.and_eq_false_iff] using hsome
      unfold readLiteral
      simp only [hsplit, htake, hdrop, htake', hdrop', hdigits,
        readExponent_eq_some_iff.mpr hexponent]
      rfl

/-- **A literal is read where one is written.** -/
theorem readLiteral_eq_some_iff {cs : List Char} {l : Literal} {flag : Bool} :
    readLiteral cs = some (l, flag) ↔ Written cs l flag :=
  ⟨written_of_readLiteral, readLiteral_of_written⟩

end Workflow.Number
