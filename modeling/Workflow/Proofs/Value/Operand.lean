import Workflow.Proofs.Binary64.Rounding
import Workflow.Proofs.Number.Literal
import Workflow.Proofs.Text.Blank
import Workflow.Value.Coercion

/-!
# Texts as numbers

`Denotes` lists the literals that a text can stand for a number with, each with its number:
infinity, a literal in another base, an integer, a decimal; and the blank text stands for
zero. Where a text is wanted as a number it is stripped and read as the number denoted, and
as the undefined number where nothing is denoted (`Value.text_read_as_denoted`).
-/

namespace Workflow

open Text Number

def radixLetters : List (Char × Nat) :=
  [('x', 16), ('X', 16), ('o', 8), ('O', 8), ('b', 2), ('B', 2)]

/-- The numbers that texts without blanks around them denote. -/
inductive Denotes : List Char → Number → Prop
  | blank : Denotes [] (.int 0)
  | infinity {sign : List Char} {negative : Bool} (hsign : Sign sign negative) :
      Denotes (sign ++ "Infinity".toList) (.float (.infinite negative))
  | radix {letter : Char} {base n : Nat} {digits : List Char}
      (hletter : (letter, base) ∈ radixLetters) (hsome : digits ≠ [])
      (hdigits : Writes base digits n) : Denotes ('0' :: letter :: digits) (.int n)
  | integer {sign digits : List Char} {negative : Bool} {n : Nat} (hsign : Sign sign negative)
      (hsome : digits ≠ []) (hdigits : Writes 10 digits n) :
      Denotes (sign ++ digits) (.int (if negative then -n else n))
  | decimal {t : List Char} {l : Literal} {n : Nat} {x : Binary64} (ht : Written t l true)
      (hdigits : Writes 10 (l.whole ++ l.fraction) n)
      (hx : Decimal.IsRead ⟨l.negative, n, l.exponent - l.fraction.length⟩ x) :
      Denotes t (.float x)

/-- The number that a text stands for: the one it denotes, or the undefined number where it
denotes nothing. -/
def StandsFor (t : List Char) (x : Number) : Prop :=
  Denotes t x ∨ (∀ y, ¬ Denotes t y) ∧ x = .undefined

/-! ## The readers -/

theorem readInfinity_eq_some_iff {t : List Char} {x : Binary64} :
    readInfinity t = some x
      ↔ ∃ sign negative, Sign sign negative ∧ t = sign ++ "Infinity".toList
        ∧ x = .infinite negative := by
  constructor
  · intro h
    unfold readInfinity at h
    split at h
    · rename_i hplain
      obtain rfl := Option.some.inj h
      rcases Bool.or_eq_true_iff.mp hplain with hnone | hplus
      · exact ⟨[], false, .absent, of_decide_eq_true hnone, rfl⟩
      · exact ⟨['+'], false, .plus, of_decide_eq_true hplus, rfl⟩
    · obtain ⟨hminus, h⟩ := Option.ite_none_right_eq_some.mp h
      obtain rfl := Option.some.inj h
      exact ⟨['-'], true, .minus, hminus, rfl⟩
  · rintro ⟨sign, negative, hsign, rfl, rfl⟩
    cases hsign <;> rfl

theorem readInfinity_of_zero (cs : List Char) : readInfinity ('0' :: cs) = none := by
  simp [readInfinity]

theorem radixOf?_eq_some_iff {letter : Char} {base : Nat} :
    radixOf? letter = some base ↔ (letter, base) ∈ radixLetters := by
  constructor
  · intro h
    unfold radixOf? at h
    split at h <;> cases h <;> decide
  · intro h
    simp only [radixLetters, List.mem_cons, Prod.mk.injEq, List.not_mem_nil, or_false] at h
    rcases h with ⟨rfl, rfl⟩ | ⟨rfl, rfl⟩ | ⟨rfl, rfl⟩ | ⟨rfl, rfl⟩ | ⟨rfl, rfl⟩ | ⟨rfl, rfl⟩
      <;> rfl

theorem readRadixLiteral_cons {letter : Char} {digits : List Char} (hsome : digits ≠ []) :
    readRadixLiteral ('0' :: letter :: digits)
      = (radixOf? letter).bind fun base =>
          (digits.mapM (radixDigit? base)).map (Text.ofDigits base) := by
  cases digits with
  | nil => exact absurd rfl hsome
  | cons d digits =>
      simp only [readRadixLiteral, Option.map_eq_bind]
      rfl

theorem readRadixLiteral_eq_some_iff {t : List Char} {n : Nat} :
    readRadixLiteral t = some n
      ↔ ∃ letter base digits, (letter, base) ∈ radixLetters ∧ digits ≠ [] ∧ Writes base digits n
        ∧ t = '0' :: letter :: digits := by
  have hbase : ∀ {letter base}, (letter, base) ∈ radixLetters → base ≤ 16 := by
    intro letter base h
    exact (by decide : ∀ r ∈ radixLetters, r.2 ≤ 16) _ h
  constructor
  · intro h
    have hshape : ∃ letter digits, digits ≠ [] ∧ t = '0' :: letter :: digits := by
      unfold readRadixLiteral at h
      split at h
      · exact ⟨_, _, List.cons_ne_nil _ _, rfl⟩
      · cases h
    obtain ⟨letter, digits, hsome, rfl⟩ := hshape
    rw [readRadixLiteral_cons hsome] at h
    obtain ⟨base, hletter, hvalues⟩ := Option.bind_eq_some_iff.mp h
    have hmem := radixOf?_eq_some_iff.mp hletter
    exact ⟨letter, base, digits, hmem, hsome,
      (mapM_radixDigit?_eq_some_iff (hbase hmem)).mp hvalues, rfl⟩
  · rintro ⟨letter, base, digits, hmem, hsome, hdigits, rfl⟩
    rw [readRadixLiteral_cons hsome, radixOf?_eq_some_iff.mpr hmem]
    exact (mapM_radixDigit?_eq_some_iff (hbase hmem)).mpr hdigits

/-- A literal is not taken for the word infinity or for a literal in another base. -/
theorem readers_of_written {t : List Char} {l : Literal} {flag : Bool} (h : Written t l flag) :
    readInfinity t = none ∧ readRadixLiteral t = none := by
  have hread := readLiteral_eq_some_iff.mpr h
  constructor
  · refine Option.eq_none_iff_forall_ne_some.mpr fun x hx => ?_
    obtain ⟨sign, negative, hsign, rfl, -⟩ := readInfinity_eq_some_iff.mp hx
    cases hsign <;> cases hread
  · refine Option.eq_none_iff_forall_ne_some.mpr fun n hn => ?_
    obtain ⟨letter, base, digits, hletter, -, -, rfl⟩ := readRadixLiteral_eq_some_iff.mp hn
    simp only [radixLetters, List.mem_cons, Prod.mk.injEq, List.not_mem_nil, or_false] at hletter
    rcases hletter with h | h | h | h | h | h <;> (rw [h.1] at hread; cases hread)

/-! ## Reading texts -/

theorem numberOfText_of_denotes {s : String} {t : List Char} {x : Number}
    (ht : trimChars s.toList = t)
    (hlimit : ∀ (sign digits : List Char) (negative : Bool), Sign sign negative →
      (∀ c ∈ digits, c.isDigit = true) → t = sign ++ digits → digits.length ≤ digitLimit)
    (h : Denotes t x) : numberOfText s = .ok x := by
  unfold numberOfText
  rw [ht]
  cases h with
  | blank => rfl
  | infinity hsign => cases hsign <;> rfl
  | @radix letter base n digits hletter hsome hdigits =>
      have hradix := readRadixLiteral_eq_some_iff.mpr
        ⟨letter, base, digits, hletter, hsome, hdigits, rfl⟩
      simp only [readInfinity_of_zero, hradix]
  | @integer sign digits negative n hsign hsome hdigits =>
      obtain ⟨hall, rfl⟩ := writes_ten_iff.mp hdigits
      have hwritten : Written (sign ++ digits) ⟨negative, digits, [], 0⟩ false := by
        have hplain := Written.plain hsign hall hsome .absent
        rwa [List.append_nil] at hplain
      obtain ⟨hinfinity, hradix⟩ := readers_of_written hwritten
      have hwidth := hlimit sign digits negative hsign hall rfl
      have hvalue : Number.ofDigits negative digits
          = .ok (Binary64.signed negative (ofDecimalDigits digits)) := if_pos hwidth
      simp only [hinfinity, hradix, readLiteral_eq_some_iff.mpr hwritten, hvalue]
      rfl
  | @decimal _ l n x hwritten hdigits hx =>
      obtain ⟨-, rfl⟩ := writes_ten_iff.mp hdigits
      obtain ⟨hinfinity, hradix⟩ := readers_of_written hwritten
      have hvalue : x = l.toBinary64 := Decimal.isRead_iff.mp hx
      simp only [hinfinity, hradix, readLiteral_eq_some_iff.mpr hwritten, hvalue]

theorem numberOfText_of_denotes_nothing {s : String} {t : List Char}
    (ht : trimChars s.toList = t) (h : ∀ x, ¬ Denotes t x) :
    numberOfText s = .ok .undefined := by
  have hinfinity : readInfinity t = none := by
    refine Option.eq_none_iff_forall_ne_some.mpr fun x hx => ?_
    obtain ⟨sign, negative, hsign, rfl, -⟩ := readInfinity_eq_some_iff.mp hx
    exact h _ (.infinity hsign)
  have hradix : readRadixLiteral t = none := by
    refine Option.eq_none_iff_forall_ne_some.mpr fun n hn => ?_
    obtain ⟨letter, base, digits, hletter, hsome, hdigits, rfl⟩ :=
      readRadixLiteral_eq_some_iff.mp hn
    exact h _ (.radix hletter hsome hdigits)
  have hliteral : readLiteral t = none := by
    refine Option.eq_none_iff_forall_ne_some.mpr fun ⟨l, flag⟩ hl => ?_
    have hwritten := readLiteral_eq_some_iff.mp hl
    cases flag with
    | true =>
        have hdigits := writes_ten_iff.mpr ⟨hwritten.digits, rfl⟩
        exact h _ (.decimal hwritten hdigits (Decimal.isRead_iff.mpr rfl))
    | false =>
        obtain ⟨sign, hsign, hsome, rfl⟩ := hwritten.plain_parts
        obtain ⟨hwhole, -⟩ := List.forall_mem_append.mp hwritten.digits
        exact h _ (.integer hsign hsome (writes_ten_iff.mpr ⟨hwhole, rfl⟩))
  have hsome : t ≠ [] := by
    rintro rfl
    exact h _ .blank
  unfold numberOfText
  rw [ht]
  simp only [hinfinity, hradix, hliteral, List.isEmpty_eq_false_iff.mpr hsome]
  rfl

namespace Value

/-- Whether a value is not the text of an integer with more digits than are ever read. -/
def Readable : Value → Prop
  | .text s => ∀ (sign digits : List Char) (negative : Bool), Sign sign negative →
      (∀ c ∈ digits, c.isDigit = true) → Strips s.toList (sign ++ digits) → digits.length ≤ 4300
  | _ => True

theorem readable_text {s : String} (h : s.toList.countP Char.isDigit ≤ 4300) :
    (Value.text s).Readable := by
  intro sign digits negative _ hdigits hstrips
  obtain ⟨before, after, hparts, -, -⟩ := hstrips.around
  have hcount : s.toList.countP Char.isDigit = before.countP Char.isDigit
      + (sign.countP Char.isDigit + digits.length + after.countP Char.isDigit) := by
    rw [hparts, List.countP_append, List.countP_append, List.countP_append,
      List.countP_eq_length.mpr hdigits]
  omega

theorem asOperandNumber_of_denotes {s : String} {t : List Char} {x : Number}
    (hs : (Value.text s).Readable) (ht : Strips s.toList t) (h : Denotes t x) :
    asOperandNumber (.text s) = .ok x := by
  refine numberOfText_of_denotes ht.trimChars_eq
    (fun sign digits negative hsign hdigits hparts => ?_) h
  exact hs sign digits negative hsign hdigits (hparts ▸ ht)

theorem exists_asOperandNumber {v : Value} (h : v.Readable) :
    ∃ n, v.asOperandNumber = .ok n := by
  cases v with
  | null | bool _ | number _ | list _ | record _ => exact ⟨_, rfl⟩
  | text s =>
      have hstrips := strips_trimChars s.toList
      by_cases hsome : ∃ x, Denotes (trimChars s.toList) x
      · obtain ⟨x, hx⟩ := hsome
        exact ⟨x, asOperandNumber_of_denotes h hstrips hx⟩
      · exact ⟨.undefined, numberOfText_of_denotes_nothing rfl (not_exists.mp hsome)⟩

/-- **A text is read as the number it stands for.** Every text has just one stripped form
(`strips_iff`), and what this stands for is read, unless it is an integer with more digits
than are ever read. -/
theorem text_read_as_denoted {s : String} {t : List Char} (ht : Strips s.toList t)
    (hlimit : ∀ (sign digits : List Char) (negative : Bool), Sign sign negative →
      (∀ c ∈ digits, c.isDigit = true) → t = sign ++ digits → digits.length ≤ 4300) :
    ∃ x, asOperandNumber (.text s) = .ok x ∧ ∀ y, StandsFor t y ↔ y = x := by
  by_cases hsome : ∃ x, Denotes t x
  · obtain ⟨x, hx⟩ := hsome
    have hread : ∀ y, Denotes t y → asOperandNumber (.text s) = .ok y :=
      fun y => numberOfText_of_denotes ht.trimChars_eq hlimit
    refine ⟨x, hread x hx, fun y => ⟨fun hy => ?_, fun hy => .inl (hy ▸ hx)⟩⟩
    rcases hy with hy | ⟨hnone, -⟩
    · exact Except.ok.inj ((hread y hy).symm.trans (hread x hx))
    · exact absurd hx (hnone x)
  · have hnone := not_exists.mp hsome
    refine ⟨.undefined, numberOfText_of_denotes_nothing ht.trimChars_eq hnone, fun y => ?_⟩
    constructor
    · rintro (hy | ⟨-, hy⟩)
      · exact absurd hy (hnone y)
      · exact hy
    · exact fun hy => .inr ⟨hnone, hy⟩

/-- Zeros in front of an integer do not count, nor do the blanks around it. -/
theorem text_read_as_denoted_behind_zeros :
    Strips " -0042\t".toList "-0042".toList
      ∧ asOperandNumber (.text " -0042\t") = .ok (.int (-42)) := by
  have hstrips : Strips " -0042\t".toList "-0042".toList := strips_iff.mpr (by decide)
  have hlimit : ∀ (sign digits : List Char) (negative : Bool), Sign sign negative →
      (∀ c ∈ digits, c.isDigit = true) → "-0042".toList = sign ++ digits →
        digits.length ≤ 4300 := by
    intro sign digits negative _ _ hparts
    have hlength := congrArg List.length hparts
    rw [List.length_append, show "-0042".toList.length = 5 by decide] at hlength
    omega
  have hdenotes : Denotes "-0042".toList (.int (-42)) :=
    .integer .minus (by decide) (writes_ten_iff.mpr ⟨forall_mem_of_all rfl, rfl⟩)
  obtain ⟨x, hread, hx⟩ := text_read_as_denoted hstrips hlimit
  obtain rfl := (hx (.int (-42))).mp (.inl hdenotes)
  exact ⟨hstrips, hread⟩

end Value
end Workflow
