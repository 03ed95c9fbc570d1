import Workflow.Number.Literal
import Workflow.Number.Text
import Workflow.Proofs.Binary64.Decimal

/-!
# How finite numbers are spelled

Positional or with a power of ten, a finite number is written as a sign and a *spelling*:
digits before the point, digits behind it, and an exponent, in the form that every reader of
numerals takes. `exists_spelling` finds the spelling of a number and says that its literal
reads as the number, so that a reader only has to be shown to take a spelling apart.
-/

namespace Workflow

open Text

/-- A numeral in parts: digits before the point, those behind it, and a power of ten. Without
digits behind the point there is no point. -/
structure Spelling where
  whole : List Char
  fraction : List Char
  exponent : Option Int

namespace Spelling

def fractionChars : List Char → List Char
  | [] => []
  | d :: ds => '.' :: d :: ds

def exponentChars (width : Nat) : Option Int → List Char
  | none => []
  | some e => 'e' :: (if e < 0 then '-' else '+') :: padLeft width '0' (decimalDigits e.natAbs)

/-- The characters of a spelling whose exponent has at least so many digits. -/
def chars (width : Nat) (s : Spelling) : List Char :=
  s.whole ++ (fractionChars s.fraction ++ exponentChars width s.exponent)

def literal (negative : Bool) (s : Spelling) : Literal :=
  ⟨negative, s.whole, s.fraction, s.exponent.getD 0⟩

/-- The spellings of floating-point numbers: digits, no zero in front of another digit, and a
point or an exponent. -/
structure WellFormed (s : Spelling) : Prop where
  whole : ∀ c ∈ s.whole, c.isDigit = true
  fraction : ∀ c ∈ s.fraction, c.isDigit = true
  leading : s.whole = ['0'] ∨ ∃ c cs, s.whole = c :: cs ∧ c ≠ '0'
  marked : s.fraction ≠ [] ∨ s.exponent.isSome = true

theorem WellFormed.whole_eq_cons {s : Spelling} (h : s.WellFormed) :
    ∃ c cs, s.whole = c :: cs := by
  rcases h.leading with hzero | ⟨c, cs, hcs, -⟩
  · exact ⟨_, _, hzero⟩
  · exact ⟨c, cs, hcs⟩

theorem WellFormed.chars_eq_cons {s : Spelling} (h : s.WellFormed) (width : Nat) :
    ∃ c cs, s.chars width = c :: cs ∧ c.isDigit = true := by
  obtain ⟨c, cs, hcs⟩ := h.whole_eq_cons
  refine ⟨c, cs ++ (fractionChars s.fraction ++ exponentChars width s.exponent), ?_, ?_⟩
  · rw [chars, hcs]
    rfl
  · exact h.whole c (hcs ▸ List.mem_cons_self)

end Spelling

namespace FloatFormat

/-! ## Positional and scientific spellings -/

/-- What it takes to spell a decimal: the characters are those of a well-formed spelling that
reads as the decimal. -/
def Spelled (width : Nat) (d : Decimal) (cs : List Char) : Prop :=
  ∃ s : Spelling, s.WellFormed ∧ cs = s.chars width
    ∧ (s.literal d.negative).toBinary64 = d.toBinary64

theorem isDigit_of_mem_zero : ∀ c ∈ ['0'], c.isDigit = true :=
  List.forall_mem_singleton.mpr rfl

theorem isDigit_of_mem_zeros {k : Nat} : ∀ c ∈ List.replicate k '0', c.isDigit = true :=
  fun _ hc => List.eq_of_mem_replicate hc ▸ rfl

/-- Digits that begin with a zero only for zero still do so in front of what zero lacks. -/
theorem leading_append {coefficient : Nat} (cs : List Char) (h : coefficient = 0 → cs = []) :
    decimalDigits coefficient ++ cs = ['0']
      ∨ ∃ c ds, decimalDigits coefficient ++ cs = c :: ds ∧ c ≠ '0' := by
  obtain ⟨c, ds, hdigits, -, hzero⟩ := decimalDigits_eq_cons coefficient
  rw [hdigits]
  by_cases hc : c = '0'
  · obtain ⟨hcoefficient, rfl⟩ := hzero hc
    rw [hc, h hcoefficient]
    exact Or.inl rfl
  · exact Or.inr ⟨c, ds ++ cs, rfl, hc⟩

theorem spelled_small (width : Nat) (negative : Bool) (coefficient k : Nat) :
    Spelled width ⟨negative, coefficient, -(k + decimalWidth coefficient : Int)⟩
      ('0' :: '.' :: (List.replicate k '0' ++ decimalDigits coefficient)) := by
  obtain ⟨c, cs, hcs⟩ : ∃ c cs, List.replicate k '0' ++ decimalDigits coefficient = c :: cs :=
    List.exists_cons_of_ne_nil (List.append_ne_nil_of_right_ne_nil _ (decimalDigits_ne_nil _))
  refine ⟨⟨['0'], c :: cs, none⟩, ⟨isDigit_of_mem_zero, ?_, Or.inl rfl, Or.inl nofun⟩, ?_, ?_⟩
  · rw [← hcs]
    exact List.forall_mem_append.mpr
      ⟨isDigit_of_mem_zeros, fun _ => isDigit_of_mem_decimalDigits⟩
  · rw [hcs]
    simp [Spelling.chars, Spelling.fractionChars, Spelling.exponentChars]
  · have hvalue : ofDecimalDigits (['0'] ++ (c :: cs)) = coefficient := by
      rw [← hcs, ofDecimalDigits_append, ofDecimalDigits_zeros_append,
        ofDecimalDigits_decimalDigits, show ofDecimalDigits ['0'] = 0 from rfl, Nat.zero_mul,
        Nat.zero_add]
    have hlength : (c :: cs).length = k + decimalWidth coefficient := by
      rw [← hcs, List.length_append, List.length_replicate, decimalWidth]
    simp only [Spelling.literal, Literal.toBinary64, Literal.toDecimal, hvalue, hlength,
      Option.getD_none]
    congr 2
    omega

/-- A whole number: zeros fill the places up to the point, and one stands behind it. -/
theorem spelled_whole (width : Nat) (negative : Bool) {coefficient k : Nat}
    (h : coefficient = 0 → k = 0) :
    Spelled width ⟨negative, coefficient, k⟩
      (decimalDigits coefficient ++ List.replicate k '0' ++ ['.', '0']) := by
  refine ⟨⟨decimalDigits coefficient ++ List.replicate k '0', ['0'], none⟩,
    ⟨?_, isDigit_of_mem_zero, ?_, Or.inl nofun⟩, ?_, ?_⟩
  · exact List.forall_mem_append.mpr
      ⟨fun _ => isDigit_of_mem_decimalDigits, isDigit_of_mem_zeros⟩
  · exact leading_append _ fun hzero => by rw [h hzero]; rfl
  · simp [Spelling.chars, Spelling.fractionChars, Spelling.exponentChars]
  · have hvalue : ofDecimalDigits (decimalDigits coefficient ++ List.replicate k '0' ++ ['0'])
        = coefficient * Nat.pow 10 (k + 1) := by
      rw [List.append_assoc, ← List.replicate_succ', ofDecimalDigits_append_zeros,
        ofDecimalDigits_decimalDigits]
    have hexponent : (0 - ((['0'] : List Char).length : Int)) + ((k + 1 : Nat) : Int) = k := by
      simp only [List.length_singleton]
      omega
    simp only [Spelling.literal, Literal.toBinary64, Literal.toDecimal, hvalue, Option.getD_none,
      Decimal.toBinary64_mul_pow, hexponent]

theorem drop_eq_cons {coefficient n : Nat} (h : n < decimalWidth coefficient) :
    ∃ d ds, (decimalDigits coefficient).drop n = d :: ds :=
  ⟨_, _, List.drop_eq_getElem_cons h⟩

theorem spelled_among (width : Nat) (negative : Bool) {coefficient n : Nat} (hn : 0 < n)
    (hwidth : n < decimalWidth coefficient) :
    Spelled width ⟨negative, coefficient, (n - decimalWidth coefficient : Int)⟩
      ((decimalDigits coefficient).take n ++ '.' :: (decimalDigits coefficient).drop n) := by
  have hdigit : ∀ c ∈ decimalDigits coefficient, c.isDigit = true :=
    fun _ => isDigit_of_mem_decimalDigits
  obtain ⟨c, cs, hcs, -, hzero⟩ := decimalDigits_eq_cons coefficient
  obtain ⟨d, ds, hds⟩ := drop_eq_cons hwidth
  refine ⟨⟨(decimalDigits coefficient).take n, d :: ds, none⟩, ⟨?_, ?_, ?_, Or.inl nofun⟩, ?_, ?_⟩
  · exact fun c hc => hdigit c (List.mem_of_mem_take hc)
  · exact fun c hc => hdigit c (List.mem_of_mem_drop (hds ▸ hc))
  · refine Or.inr ⟨c, cs.take (n - 1), ?_, fun hc => ?_⟩
    · rw [hcs, List.take_cons hn]
    · obtain ⟨-, rfl⟩ := hzero hc
      rw [decimalWidth, hcs, List.length_singleton] at hwidth
      omega
  · rw [hds]
    simp [Spelling.chars, Spelling.fractionChars, Spelling.exponentChars]
  · have hvalue :
        ofDecimalDigits ((decimalDigits coefficient).take n ++ d :: ds) = coefficient := by
      rw [← hds, List.take_append_drop, ofDecimalDigits_decimalDigits]
    have hlength : (d :: ds).length = decimalWidth coefficient - n := by
      rw [← hds, List.length_drop, decimalWidth]
    simp only [Spelling.literal, Literal.toBinary64, Literal.toDecimal, hvalue, hlength,
      Option.getD_none]
    congr 2
    omega

/-- Decimals are written positionally, unless they are zero with an exponent. -/
theorem spelled_positional (width : Nat) {d : Decimal}
    (h : d.coefficient = 0 → d.exponent = 0) :
    Spelled width d (positional (decimalDigits d.coefficient) (d.leadingExponent + 1)) := by
  obtain ⟨negative, coefficient, exponent⟩ := d
  have hlead : Decimal.leadingExponent ⟨negative, coefficient, exponent⟩ + 1
      = exponent + decimalWidth coefficient := by
    simp only [Decimal.leadingExponent]
    omega
  have hwidth : (decimalDigits coefficient).length = decimalWidth coefficient := rfl
  have hpos := decimalWidth_pos coefficient
  rw [hlead]
  unfold positional
  dsimp only at h ⊢
  split
  · rename_i hsmall
    have hbelow : 0 ≤ -(exponent + decimalWidth coefficient) := by omega
    obtain ⟨k, hk⟩ := Int.eq_ofNat_of_zero_le hbelow
    obtain rfl : exponent = -(k + decimalWidth coefficient : Int) := by omega
    rw [hk, Int.toNat_natCast]
    exact spelled_small width negative coefficient k
  · rename_i hlarge
    have habove : 0 ≤ exponent + decimalWidth coefficient := by omega
    obtain ⟨n, hn⟩ := Int.eq_ofNat_of_zero_le habove
    rw [hn, Int.toNat_natCast, hwidth]
    rcases Nat.lt_or_ge n (decimalWidth coefficient) with hlt | hge
    · obtain rfl : exponent = (n - decimalWidth coefficient : Int) := by omega
      have hspelled := spelled_among width negative (by omega) hlt
      obtain ⟨d, ds, hds⟩ := drop_eq_cons hlt
      rw [Nat.sub_eq_zero_of_le (Nat.le_of_lt hlt), List.replicate_zero, List.append_nil]
      rw [hds] at hspelled ⊢
      exact hspelled
    · obtain ⟨k, rfl⟩ : ∃ k : Nat, exponent = k :=
        Int.eq_ofNat_of_zero_le (by omega)
      obtain rfl : n = k + decimalWidth coefficient := by omega
      rw [List.take_of_length_le hge, List.drop_of_length_le hge, Nat.add_sub_cancel]
      exact spelled_whole width negative fun hzero => by have := h hzero; omega

theorem spelled_scientific (width : Nat) (d : Decimal) :
    Spelled width d (scientific width (decimalDigits d.coefficient) d.leadingExponent) := by
  obtain ⟨negative, coefficient, exponent⟩ := d
  obtain ⟨c, cs, hcs, hc, -⟩ := decimalDigits_eq_cons coefficient
  refine ⟨⟨[c], cs, some (Decimal.leadingExponent ⟨negative, coefficient, exponent⟩)⟩,
    ⟨List.forall_mem_singleton.mpr hc, ?_, ?_, Or.inr rfl⟩, ?_, ?_⟩
  · exact fun d hd => isDigit_of_mem_decimalDigits (hcs ▸ List.mem_cons_of_mem _ hd)
  · by_cases hzero : c = '0'
    · exact Or.inl (by rw [hzero])
    · exact Or.inr ⟨c, [], rfl, hzero⟩
  · dsimp only
    rw [hcs]
    cases cs <;> rfl
  · have hvalue : ofDecimalDigits ([c] ++ cs) = coefficient := by
      rw [List.singleton_append, ← hcs, ofDecimalDigits_decimalDigits]
    have hlength : decimalWidth coefficient = cs.length + 1 := by
      rw [decimalWidth, hcs, List.length_cons]
    simp only [Spelling.literal, Literal.toBinary64, Literal.toDecimal, hvalue, Option.getD_some,
      Decimal.leadingExponent, hlength]
    congr 2
    omega

/-! ## Finite numbers -/

/-- The shortest decimal has no zero coefficient with an exponent. -/
theorem exponent_of_shortest (negative : Bool) {quanta : Nat} (h : Representable quanta)
    (hzero : (Binary64.shortest negative quanta).coefficient = 0) :
    (Binary64.shortest negative quanta).exponent = 0 := by
  have hreads := Binary64.toBinary64_shortest negative h
  have hnothing : (Binary64.shortest negative quanta).toBinary64
      = .zero (Binary64.shortest negative quanta).negative := by
    rw [Decimal.toBinary64_eq, if_pos]
    simp [hzero]
  rw [hreads] at hnothing
  obtain rfl : quanta = 0 := (Binary64.finite.inj hnothing).2
  rfl

/-- **A finite number is written as its sign and a well-formed spelling that reads as
it.** -/
theorem exists_spelling (format : FloatFormat) (negative : Bool) {quanta : Nat}
    (h : Representable quanta) : ∃ s : Spelling, s.WellFormed
      ∧ (format.text (.finite negative quanta h)).toList
          = signText negative ++ s.chars format.exponentWidth
      ∧ (s.literal negative).toBinary64 = .finite negative quanta h := by
  have hnegative : (Binary64.shortest negative quanta).negative = negative :=
    Decimal.negative_of_toBinary64 (Binary64.toBinary64_shortest negative h)
  have hspelled : Spelled format.exponentWidth (Binary64.shortest negative quanta)
      (if format.leastPositional ≤ (Binary64.shortest negative quanta).leadingExponent
          ∧ (Binary64.shortest negative quanta).leadingExponent < format.positionalEnd then
        positional (decimalDigits (Binary64.shortest negative quanta).coefficient)
          ((Binary64.shortest negative quanta).leadingExponent + 1)
      else scientific format.exponentWidth
        (decimalDigits (Binary64.shortest negative quanta).coefficient)
        (Binary64.shortest negative quanta).leadingExponent) := by
    split
    · exact spelled_positional _ (exponent_of_shortest negative h)
    · exact spelled_scientific _ _
  obtain ⟨s, hs, hchars, hreads⟩ := hspelled
  refine ⟨s, hs, ?_, ?_⟩
  · simp only [text, String.toList_ofList, hchars]
  · rw [← Binary64.toBinary64_shortest negative h, ← hreads, hnegative]

end FloatFormat
end Workflow
