import Workflow.Json.Writer
import Workflow.Json.Reader
import Workflow.Proofs.Fallible
import Workflow.Proofs.Number.Spelling
import Workflow.Proofs.Value.Parts

/-!
# Tokens are read as they were written

The text of a number is read as this number, whatever follows it that cannot belong to a
number (`readValue_writeNumber`); a text is read up to its closing quote
(`readText_flatMap_escape`). What the writer puts behind a value is `Closed`, and what a
value begins with is never a blank or a closing bracket (`Opens`).
-/

namespace Workflow.Json

open Text

/-! ## Numbers -/

/-- Whether what follows cannot belong to a number: it is empty or begins as what the writer
puts behind values. -/
def Closed (rest : List Char) : Prop := ∀ c ∈ rest.head?, c ∈ [',', ']', '\x7d', '\n']

variable {rest : List Char}

theorem Closed.not_isDigit (h : Closed rest) : ∀ c ∈ rest.head?, c.isDigit = false := by
  have hnone : ∀ c ∈ [',', ']', '\x7d', '\n'], c.isDigit = false := forall_mem_of_all (by decide)
  exact fun c hc => hnone c (h c hc)

theorem Closed.not_point (h : Closed rest) : ∀ c ∈ rest.head?, c ≠ '.' := by
  have hnone : ∀ c ∈ [',', ']', '\x7d', '\n'], c ≠ '.' := forall_mem_of_all (by decide)
  exact fun c hc => hnone c (h c hc)

theorem Closed.not_exponent (h : Closed rest) : ∀ c ∈ rest.head?, c ≠ 'e' ∧ c ≠ 'E' := by
  have hnone : ∀ c ∈ [',', ']', '\x7d', '\n'], c ≠ 'e' ∧ c ≠ 'E' := forall_mem_of_all (by decide)
  exact fun c hc => hnone c (h c hc)

/-- What does not begin with a letter for exponents has no exponent. -/
theorem splitExponent_of_head (h : ∀ c ∈ rest.head?, c ≠ 'e' ∧ c ≠ 'E') :
    splitExponent rest = (none, rest) := by
  cases rest with
  | nil => rfl
  | cons c rest =>
      obtain ⟨hlower, hupper⟩ := h c rfl
      unfold splitExponent
      simp [hlower, hupper]

theorem splitFraction_of_head (h : ∀ c ∈ rest.head?, c ≠ '.') :
    splitFraction rest = (none, rest) := by
  unfold splitFraction
  split
  · exact absurd rfl (h '.' rfl)
  · rfl

theorem splitWhole_append {whole : List Char} (hdigit : ∀ c ∈ whole, c.isDigit = true)
    (hlead : whole = ['0'] ∨ ∃ c cs, whole = c :: cs ∧ c ≠ '0')
    (hrest : ∀ c ∈ rest.head?, c.isDigit = false) :
    splitWhole (whole ++ rest) = (whole, rest) := by
  rcases hlead with rfl | ⟨c, cs, rfl, hc⟩
  · rfl
  · obtain ⟨htake, hdrop⟩ := takeWhile_isDigit hdigit hrest
    unfold splitWhole
    split
    · rename_i heq
      exact absurd (List.cons.inj heq).1 hc
    · rw [htake, hdrop]

theorem splitFraction_append {fraction : List Char}
    (hdigit : ∀ c ∈ fraction, c.isDigit = true)
    (hrest : ∀ c ∈ rest.head?, c.isDigit = false ∧ c ≠ '.') :
    splitFraction (Spelling.fractionChars fraction ++ rest)
      = (if fraction = [] then none else some fraction, rest) := by
  cases fraction with
  | nil => exact splitFraction_of_head fun c hc => (hrest c hc).2
  | cons d ds =>
      obtain ⟨htake, hdrop⟩ := takeWhile_isDigit hdigit fun c hc => (hrest c hc).1
      rw [List.cons_append] at htake hdrop
      simp only [Spelling.fractionChars, List.cons_append, splitFraction, htake, hdrop]
      rfl

theorem signed_natAbs (n : Int) : Binary64.signed (decide (n < 0)) n.natAbs = n := by
  unfold Binary64.signed
  by_cases h : n < 0
  · rw [if_pos (decide_eq_true h)]
    omega
  · rw [if_neg (by simp [h])]
    omega

theorem splitExponent_append {width : Nat} {exponent : Option Int}
    (hrest : ∀ c ∈ rest.head?, c.isDigit = false ∧ c ≠ 'e' ∧ c ≠ 'E') :
    splitExponent (Spelling.exponentChars width exponent ++ rest) = (exponent, rest) := by
  cases exponent with
  | none => exact splitExponent_of_head fun c hc => (hrest c hc).2
  | some e =>
      have hdigit : ∀ c ∈ padLeft width '0' (decimalDigits e.natAbs), c.isDigit = true := by
        refine List.forall_mem_append.mpr ⟨FloatFormat.isDigit_of_mem_zeros, ?_⟩
        exact fun _ => isDigit_of_mem_decimalDigits
      obtain ⟨htake, hdrop⟩ := takeWhile_isDigit hdigit fun c hc => (hrest c hc).1
      obtain ⟨d, ds, hds⟩ : ∃ d ds, padLeft width '0' (decimalDigits e.natAbs) = d :: ds :=
        List.exists_cons_of_ne_nil
          (List.append_ne_nil_of_right_ne_nil _ (decimalDigits_ne_nil _))
      have hsign : Number.splitSign ((if e < 0 then '-' else '+') ::
          (padLeft width '0' (decimalDigits e.natAbs) ++ rest))
            = (decide (e < 0), padLeft width '0' (decimalDigits e.natAbs) ++ rest) := by
        by_cases he : e < 0 <;> simp [he, Number.splitSign]
      have hvalue : ofDecimalDigits (padLeft width '0' (decimalDigits e.natAbs)) = e.natAbs := by
        rw [ofDecimalDigits_padLeft, ofDecimalDigits_decimalDigits]
      rw [Spelling.exponentChars, List.cons_append, List.cons_append]
      unfold splitExponent
      simp only [hsign, htake, hdrop]
      rw [hds] at hvalue ⊢
      simp only [hvalue, signed_natAbs]
      rfl

theorem readDigits_decimalDigits (negative : Bool) (start : List Char) {n : Nat}
    (hwidth : decimalWidth n ≤ digitLimit) (hrest : Closed rest) :
    readDigits negative start (decimalDigits n ++ rest)
      = .ok (.int (Binary64.signed negative n), rest) := by
  obtain ⟨c, cs, hcs, -, hzero⟩ := decimalDigits_eq_cons n
  have hlead : decimalDigits n = ['0'] ∨ ∃ c cs, decimalDigits n = c :: cs ∧ c ≠ '0' := by
    by_cases hc : c = '0'
    · exact Or.inl (by rw [hcs, hc, (hzero hc).2])
    · exact Or.inr ⟨c, cs, hcs, hc⟩
  have hwhole := splitWhole_append (fun _ => isDigit_of_mem_decimalDigits) hlead hrest.not_isDigit
  have hfraction := splitFraction_of_head hrest.not_point
  have hexponent := splitExponent_of_head hrest.not_exponent
  have hvalue := ofDecimalDigits_decimalDigits n
  unfold readDigits
  rw [hwhole]
  unfold decimalWidth at hwidth
  rw [hcs] at hvalue hwidth ⊢
  simp only [hfraction, hexponent, hvalue, if_pos hwidth]
  rfl

/-- An exponent is marked by a letter, so digits end in front of it. -/
theorem Closed.exponentChars_append (h : Closed rest) (width : Nat) (exponent : Option Int) :
    ∀ c ∈ (Spelling.exponentChars width exponent ++ rest).head?, c.isDigit = false ∧ c ≠ '.' := by
  intro c hc
  cases exponent with
  | none => exact ⟨h.not_isDigit c hc, h.not_point c hc⟩
  | some e =>
      obtain rfl := Option.some.inj hc
      decide

theorem head_fractionChars_append (fraction : List Char)
    (h : ∀ c ∈ rest.head?, c.isDigit = false) :
    ∀ c ∈ (Spelling.fractionChars fraction ++ rest).head?, c.isDigit = false := by
  intro c hc
  cases fraction with
  | nil => exact h c hc
  | cons d ds =>
      obtain rfl := Option.some.inj hc
      decide

theorem readDigits_chars (negative : Bool) (start : List Char) {s : Spelling}
    (hs : s.WellFormed) (width : Nat) (hrest : Closed rest) :
    readDigits negative start (s.chars width ++ rest)
      = .ok (.float (s.literal negative).toBinary64, rest) := by
  have hmark := hrest.exponentChars_append width s.exponent
  have hpoint := head_fractionChars_append s.fraction fun c hc => (hmark c hc).1
  have hwhole := splitWhole_append hs.whole hs.leading hpoint
  have hfraction := splitFraction_append hs.fraction hmark
  have hexponent := @splitExponent_append rest width s.exponent fun c hc =>
    ⟨hrest.not_isDigit c hc, hrest.not_exponent c hc⟩
  obtain ⟨c, cs, hcs⟩ := hs.whole_eq_cons
  unfold readDigits
  rw [Spelling.chars, List.append_assoc, List.append_assoc, hwhole]
  rw [hcs]
  simp only [hfraction, hexponent]
  have hmarked : ((if s.fraction = [] then none else some s.fraction).isNone
      && s.exponent.isNone) = false := by
    rcases hs.marked with hfrac | hexp
    · simp [hfrac]
    · cases hsome : s.exponent with
      | none =>
          rw [hsome] at hexp
          cases hexp
      | some e => simp
  rw [if_neg (by simp [hmarked])]
  have hgiven : (if s.fraction = [] then none else some s.fraction).getD [] = s.fraction := by
    by_cases hnil : s.fraction = [] <;> simp [hnil]
  rw [hgiven, Spelling.literal, hcs]

/-- Whether characters begin as a number with digits. -/
def Numeral (cs : List Char) : Prop :=
  ∃ negative c ds, cs = FloatFormat.signText negative ++ c :: ds ∧ c.isDigit = true

theorem readNumber_signed (negative : Bool) {c : Char} (cs : List Char)
    (hc : c.isDigit = true) :
    readNumber (FloatFormat.signText negative ++ c :: cs)
      = readDigits negative (FloatFormat.signText negative ++ c :: cs) (c :: cs) := by
  cases negative with
  | true => rfl
  | false =>
      have hminus : c ≠ '-' := by
        rintro rfl
        cases hc
      unfold readNumber
      split
      · rename_i heq
        exact absurd (List.cons.inj heq).1 hminus
      · rfl

theorem not_numeral {c : Char} {cs : List Char} (hdigit : c.isDigit = false)
    (hminus : c ≠ '-') :
    ¬ Numeral (c :: cs) := by
  rintro ⟨negative, d, ds, heq, hd⟩
  cases negative with
  | true => exact hminus (List.cons.inj heq).1
  | false =>
      obtain ⟨rfl, -⟩ := List.cons.inj heq
      rw [hdigit] at hd
      cases hd

theorem not_numeral_minus {c : Char} {cs : List Char} (hdigit : c.isDigit = false) :
    ¬ Numeral ('-' :: c :: cs) := by
  rintro ⟨negative, d, ds, heq, hd⟩
  cases negative with
  | true =>
      obtain ⟨-, heq⟩ := List.cons.inj heq
      obtain ⟨rfl, -⟩ := List.cons.inj heq
      rw [hdigit] at hd
      cases hd
  | false =>
      obtain ⟨rfl, -⟩ := List.cons.inj heq
      cases hd

theorem readValue_of_numeral (levels fuel : Nat) {cs : List Char} (h : Numeral cs) :
    readValue levels (fuel + 1) cs = (readNumber cs).map fun read => (.number read.1, read.2) := by
  unfold readValue
  split
  -- The words, quotes and brackets come first; only the last of them shares its sign with numbers.
  iterate 8 exact absurd h (not_numeral rfl (by decide))
  · exact absurd h (not_numeral_minus rfl)
  · cases readNumber cs with
    | error refusal => rfl
    | ok read => rfl

/-- The characters that no value begins with: blanks, closing brackets and the mark of an
encoding that is refused. -/
def foreign : List Char := [' ', '\n', '\r', '\t', ']', '\x7d', '\ufeff']

/-- Whether characters begin as a value does. -/
def Opens (cs : List Char) : Prop := ∃ c rest, cs = c :: rest ∧ c ∉ foreign

theorem Opens.append {cs : List Char} (h : Opens cs) (ds : List Char) :
    Opens (cs ++ ds) := by
  obtain ⟨c, rest, rfl, hc⟩ := h
  exact ⟨c, rest ++ ds, rfl, hc⟩

theorem Opens.length_pos {cs : List Char} (h : Opens cs) : 0 < cs.length := by
  obtain ⟨c, rest, rfl, -⟩ := h
  exact Nat.succ_pos _

theorem Numeral.opens {cs : List Char} (h : Numeral cs) : Opens cs := by
  have hforeign : ∀ c ∈ foreign, c.isDigit = false := forall_mem_of_all (by decide)
  obtain ⟨negative, c, ds, rfl, hc⟩ := h
  cases negative with
  | true => exact ⟨'-', c :: ds, rfl, by decide⟩
  | false =>
      refine ⟨c, ds, rfl, fun hmem => ?_⟩
      rw [hforeign c hmem] at hc
      cases hc

theorem readNumber_intChars {n : Int} (hwidth : decimalWidth n.natAbs ≤ digitLimit)
    (hrest : Closed rest) :
    Numeral (Number.intChars n ++ rest)
      ∧ readNumber (Number.intChars n ++ rest) = .ok (.int n, rest) := by
  obtain ⟨c, cs, hcs, hc, -⟩ := decimalDigits_eq_cons n.natAbs
  have hread := readDigits_decimalDigits (decide (n < 0)) (Number.intChars n ++ rest) hwidth hrest
  rw [signed_natAbs, hcs, List.cons_append] at hread
  have hchars : Number.intChars n ++ rest
      = FloatFormat.signText (decide (n < 0)) ++ c :: (cs ++ rest) := by
    rw [Number.intChars, hcs, List.append_assoc, List.cons_append]
  rw [hchars] at hread ⊢
  exact ⟨⟨_, c, _, rfl, hc⟩, (readNumber_signed _ _ hc).trans hread⟩

theorem readNumber_text (format : FloatFormat) (negative : Bool) {quanta : Nat}
    (h : Representable quanta) (hrest : Closed rest) :
    Numeral ((format.text (.finite negative quanta h)).toList ++ rest)
      ∧ readNumber ((format.text (.finite negative quanta h)).toList ++ rest)
        = .ok (.float (.finite negative quanta h), rest) := by
  obtain ⟨s, hs, htext, hvalue⟩ := format.exists_spelling negative h
  obtain ⟨c, cs, hcs, hc⟩ := hs.chars_eq_cons format.exponentWidth
  have hread := readDigits_chars negative
    ((format.text (.finite negative quanta h)).toList ++ rest) hs format.exponentWidth hrest
  rw [hvalue, htext, hcs, List.append_assoc, List.cons_append] at hread
  rw [htext, hcs, List.append_assoc, List.cons_append]
  exact ⟨⟨negative, c, _, rfl, hc⟩, (readNumber_signed _ _ hc).trans hread⟩

/-- **A number is read as it was written**, unless it is the undefined one without a name. -/
theorem readValue_writeNumber {n : Number} (hn : (Value.number n).Faithful) :
    ∃ cs, writeNumber n = .ok cs ∧ Opens cs ∧ ∀ levels fuel rest, Closed rest →
      readValue levels (fuel + 1) (cs ++ rest) = .ok (.number n, rest) := by
  have hempty : Closed [] := fun _ hc => nomatch hc
  cases n with
  | int n =>
      have hwrite : writeNumber (.int n) = .ok (Number.intChars n) := by
        have htext : Number.intText n = .ok (String.ofList (Number.intChars n)) := if_pos hn.1
        simp only [writeNumber, Number.textIn, htext, bind, Except.bind]
        exact congrArg Except.ok String.toList_ofList
      have hopens := (readNumber_intChars hn.1 hempty).1.opens
      rw [List.append_nil] at hopens
      refine ⟨_, hwrite, hopens, fun levels fuel rest hrest => ?_⟩
      obtain ⟨hnumeral, hread⟩ := readNumber_intChars hn.1 hrest
      rw [readValue_of_numeral levels fuel hnumeral, hread]
      rfl
  | float x =>
      refine ⟨(documentFloats.text x).toList, rfl, ?_⟩
      cases x with
      | nan named =>
          cases named with
          | false => exact absurd rfl hn.2
          | true =>
              have hword : (documentFloats.text (.nan true)).toList = ['N', 'a', 'N'] := by
                simp only [FloatFormat.text]
                rfl
              rw [hword]
              exact ⟨⟨_, _, rfl, by decide⟩, fun _ _ _ _ => rfl⟩
      | infinite negative =>
          have hword : (documentFloats.text (.infinite negative)).toList
              = FloatFormat.signText negative
                ++ ['I', 'n', 'f', 'i', 'n', 'i', 't', 'y'] := by
            simp only [FloatFormat.text, String.toList_append, String.toList_ofList]
            rfl
          rw [hword]
          cases negative with
          | true => exact ⟨⟨_, _, rfl, by decide⟩, fun _ _ _ _ => rfl⟩
          | false => exact ⟨⟨_, _, rfl, by decide⟩, fun _ _ _ _ => rfl⟩
      | finite negative quanta h =>
          have hopens := (readNumber_text documentFloats negative h hempty).1.opens
          rw [List.append_nil] at hopens
          refine ⟨hopens, fun levels fuel rest hrest => ?_⟩
          obtain ⟨hnumeral, hread⟩ := readNumber_text documentFloats negative h hrest
          rw [readValue_of_numeral levels fuel hnumeral, hread]
          rfl

/-! ## Texts -/

theorem codeOf?_hexDigits : ∀ n < 32,
    (hexDigits 4 n).length = 4 ∧ codeOf? (hexDigits 4 n) = some n := by
  decide

theorem readCodeEscape_hexDigits {n : Nat} (hn : n < 32) (next : Char) (rest : List Char) :
    readCodeEscape ('u' :: (hexDigits 4 n ++ next :: rest)) = .ok (Char.ofNat n, next :: rest) := by
  obtain ⟨hlength, hcode⟩ := codeOf?_hexDigits n hn
  obtain ⟨a, b, c, d, hdigits⟩ := List.length_eq_four.mp hlength
  have hhigh : isHighHalf n = false := by
    simp [isHighHalf]
    omega
  have hlow : isLowHalf n = false := by
    simp [isLowHalf]
    omega
  rw [hdigits] at hcode ⊢
  simp only [readCodeEscape, readCode, List.cons_append, List.nil_append, hcode, hhigh, charOf,
    hlow, bind, Except.bind]
  rfl

theorem readChar_escape (opening : List Char) (c next : Char) (rest : List Char) :
    readChar opening (escape c ++ next :: rest) = .ok (some c, next :: rest) := by
  unfold escape
  split_ifs with hquote hback hline hreturn htab hbackspace hfeed hcontrol
  · rw [hquote]
    rfl
  · rw [hback]
    rfl
  · rw [hline]
    rfl
  · rw [hreturn]
    rfl
  · rw [htab]
    rfl
  · rw [hbackspace]
    rfl
  · rw [hfeed]
    rfl
  · have hread := readCodeEscape_hexDigits hcontrol next rest
    rw [Char.ofNat_toNat] at hread
    simp only [readChar, List.cons_append, hread, bind, Except.bind]
    rfl
  · have hplain : readChar opening (c :: next :: rest)
        = if c.toNat < 32 then refuse .controlCharacter (c :: next :: rest)
          else .ok (some c, next :: rest) := by
      unfold readChar
      split
      · rename_i heq
        cases heq
      · rename_i heq
        cases heq
      · rename_i heq
        exact absurd (List.cons.inj heq).1 hquote
      · rename_i heq
        exact absurd (List.cons.inj heq).1 hback
      · rename_i heq
        exact absurd (List.cons.inj heq).1 hback
      · rename_i heq
        obtain ⟨rfl, rfl⟩ := List.cons.inj heq
        rfl
    rw [List.singleton_append, hplain, if_neg hcontrol]

/-- **A text is read as it was written**, up to its closing quote. -/
theorem readText_flatMap_escape (opening rest : List Char) :
    ∀ (cs done : List Char) (fuel : Nat), cs.length < fuel →
      readText opening fuel done (cs.flatMap escape ++ '"' :: rest)
        = .ok (String.ofList (done.reverse ++ cs), rest)
  | _, _, 0, h => absurd h (Nat.not_lt_zero _)
  | [], done, fuel + 1, _ => by
      simp only [readText, List.flatMap_nil, List.nil_append, readChar, bind, Except.bind]
      rw [List.append_nil]
      rfl
  | c :: cs, done, fuel + 1, h => by
      have hlength : cs.length < fuel := Nat.lt_of_succ_lt_succ h
      have hrest := readText_flatMap_escape opening rest cs (c :: done) fuel hlength
      have hnonempty : cs.flatMap escape ++ '"' :: rest ≠ [] :=
        List.append_ne_nil_of_right_ne_nil _ (List.cons_ne_nil _ _)
      obtain ⟨next, after, hafter⟩ := List.exists_cons_of_ne_nil hnonempty
      rw [List.flatMap_cons, List.append_assoc, hafter]
      rw [hafter] at hrest
      simp only [readText, readChar_escape, hrest, bind, Except.bind]
      rw [List.reverse_cons, List.append_assoc, List.singleton_append]

end Workflow.Json
