import Workflow.Proofs.Json.Reading
import Workflow.Proofs.Json.RoundTrip

/-!
# What stops the reader

The reader of documents gives a value or says where the text is no document, but for two
limits: it is stopped by text that nests too deeply, and by an integer that is spelled with
too many digits. Such an integer stands in the text as a run of digits, because every part of
the reader goes on in its own text: what it leaves is the end of what it was given
(`Consumes`).

The headline is `Json.stopped_of_read`. A text that is nothing but such a run does stop the
reader (`Json.read_digits`).
-/

namespace Workflow.Json

open Text

/-- The reader is stopped in the characters: they nest too deeply, or a run of digits in them
is too long. -/
def Stopped (cs : List Char) (fault : Fault) : Prop :=
  (∃ container, fault = .nestedTooDeeply container)
    ∨ ∃ digits, digits <:+: cs ∧ (∀ c ∈ digits, c.isDigit = true) ∧ digitLimit < digits.length
      ∧ fault = .tooManyDigits (some digits.length)

/-- An answer that a part of the reader gives on characters: it leaves an end of them, and it
is stopped in nothing else. -/
structure Consumes {α : Type} (cs : List Char) (answer : Except Refusal (α × List Char)) :
    Prop where
  rest : ∀ a rest, answer = .ok (a, rest) → rest <:+ cs
  stopped : ∀ fault, answer = .error (.fault fault) → Stopped cs fault

namespace Consumes

variable {α β : Type} {cs : List Char}

theorem ok {a : α} {rest : List Char} (h : rest <:+ cs) :
    Consumes cs (.ok (a, rest) : Except Refusal (α × List Char)) where
  rest := by
    rintro _ _ heq
    obtain ⟨-, rfl⟩ := Prod.mk.inj (Except.ok.inj heq)
    exact h
  stopped := nofun

theorem refuse (problem : Problem) (ds : List Char) :
    Consumes cs (refuse problem ds : Except Refusal (α × List Char)) := ⟨nofun, nofun⟩

theorem stop {fault : Fault} (h : Stopped cs fault) :
    Consumes cs (.error (.fault fault) : Except Refusal (α × List Char)) where
  rest := nofun
  stopped := by
    rintro _ heq
    obtain rfl := Refusal.fault.inj (Except.error.inj heq)
    exact h

theorem mono {ds : List Char} {answer : Except Refusal (α × List Char)}
    (h : Consumes ds answer) (hends : ds <:+ cs) : Consumes cs answer where
  rest a rest heq := (h.rest a rest heq).trans hends
  stopped fault heq := by
    rcases h.stopped fault heq with hdeep | ⟨digits, hpart, hrun⟩
    · exact .inl hdeep
    · exact .inr ⟨digits, hpart.trans hends.isInfix, hrun⟩

theorem behind {c : Char} {ds : List Char} {answer : Except Refusal (α × List Char)}
    (h : Consumes ds answer) : Consumes (c :: ds) answer := h.mono (List.suffix_cons c ds)

/-- One part of the reader after another, where the second one gets what the first one
left. -/
theorem bind {answer : Except Refusal (α × List Char)}
    {next : α × List Char → Except Refusal (β × List Char)} (h : Consumes cs answer)
    (hnext : ∀ a rest, rest <:+ cs → Consumes cs (next (a, rest))) :
    Consumes cs (answer >>= next) := by
  cases answer with
  | error refusal =>
      exact ⟨nofun, fun fault heq => h.stopped fault (congrArg _ (Except.error.inj heq))⟩
  | ok pair =>
      obtain ⟨a, rest⟩ := pair
      exact hnext a rest (h.rest a rest rfl)

end Consumes

theorem skipSpace_suffix (cs : List Char) : skipSpace cs <:+ cs := List.dropWhile_suffix _

theorem suffix_of_skipSpace {c : Char} {cs rest : List Char} (h : skipSpace cs = c :: rest) :
    rest <:+ cs := by
  have hspace := skipSpace_suffix cs
  rw [h] at hspace
  exact (List.suffix_cons c rest).trans hspace

/-! ## Texts -/

theorem consumes_readCode (cs : List Char) : Consumes cs (readCode cs) := by
  unfold readCode
  split
  · split
    · exact .ok (List.suffix_append [_, _, _, _, _] _)
    · exact .refuse _ _
  · exact .refuse _ _

theorem consumes_readCodeEscape (cs : List Char) : Consumes cs (readCodeEscape cs) := by
  refine (consumes_readCode cs).bind fun code rest hrest => ?_
  dsimp only
  split
  · rename_i a b c d next rest' _
    have hbehind : 'u' :: a :: b :: c :: d :: next :: rest' <:+ cs :=
      (List.suffix_cons '\\' _).trans hrest
    refine ((consumes_readCode _).mono hbehind).bind fun low after hafter => ?_
    dsimp only
    split
    · exact .ok hafter
    · exact .ok hrest
  · exact .ok hrest

theorem consumes_readChar (opening cs : List Char) : Consumes cs (readChar opening cs) := by
  unfold readChar
  split
  · exact .refuse _ _
  · exact .refuse _ _
  · exact .ok (List.suffix_cons _ _)
  · refine (consumes_readCodeEscape _).behind.bind fun c rest hrest => ?_
    exact .ok hrest
  · split
    · exact .ok (List.suffix_append [_, _] _)
    · exact .refuse _ _
  · split
    · exact .refuse _ _
    · exact .ok (List.suffix_cons _ _)

theorem consumes_readText (opening : List Char) : ∀ (fuel : Nat) (done cs : List Char),
    Consumes cs (readText opening fuel done cs)
  | 0, _, _ => .refuse _ _
  | fuel + 1, done, cs => by
      unfold readText
      refine (consumes_readChar opening cs).bind fun c rest hrest => ?_
      split
      · rename_i heq
        obtain ⟨-, rfl⟩ := Prod.mk.inj heq
        exact .ok hrest
      · rename_i heq
        obtain ⟨-, rfl⟩ := Prod.mk.inj heq
        exact (consumes_readText opening fuel _ _).mono hrest

theorem consumes_readName (fuel : Nat) (cs : List Char) :
    Consumes cs (readName fuel cs) := by
  unfold readName
  split
  · refine (consumes_readText _ fuel [] _).behind.bind fun name rest hrest => ?_
    dsimp only
    split
    · rename_i heq
      exact .ok ((skipSpace_suffix _).trans ((suffix_of_skipSpace heq).trans hrest))
    · exact .refuse _ _
  · exact .refuse _ _

/-! ## Numbers -/

theorem splitWhole_append_rest (cs : List Char) :
    (splitWhole cs).1 ++ (splitWhole cs).2 = cs := by
  unfold splitWhole
  split
  · rfl
  · exact List.takeWhile_append_dropWhile

theorem splitFraction_suffix (cs : List Char) : (splitFraction cs).2 <:+ cs := by
  unfold splitFraction
  split
  · split
    · exact List.suffix_refl _
    · exact (List.dropWhile_suffix _).trans (List.suffix_cons _ _)
  · exact List.suffix_refl _

theorem splitSign_suffix (cs : List Char) : (Number.splitSign cs).2 <:+ cs := by
  unfold Number.splitSign
  split
  · exact List.suffix_cons _ _
  · exact List.suffix_cons _ _
  · exact List.suffix_refl _

theorem splitExponent_suffix (cs : List Char) : (splitExponent cs).2 <:+ cs := by
  unfold splitExponent
  split
  · exact List.suffix_refl _
  · split
    · dsimp only
      split
      · exact List.suffix_refl _
      · exact (List.dropWhile_suffix _).trans ((splitSign_suffix _).trans (List.suffix_cons _ _))
    · exact List.suffix_refl _

theorem consumes_readDigits (negative : Bool) (start cs : List Char) :
    Consumes cs (readDigits negative start cs) := by
  have hparts := splitWhole_append_rest cs
  have hdigits := @isDigit_of_mem_splitWhole cs
  unfold readDigits
  split
  · exact .refuse _ _
  · rename_i whole rest hsome hsplit
    rw [hsplit] at hparts hdigits
    dsimp only at hparts hdigits ⊢
    have hrest : rest <:+ cs := ⟨whole, hparts⟩
    have hleft := (splitExponent_suffix _).trans ((splitFraction_suffix rest).trans hrest)
    split
    · split
      · exact .ok hleft
      · rename_i hlong
        have hwhole : whole <+: cs := ⟨rest, hparts⟩
        exact .stop (.inr ⟨whole, hwhole.isInfix, hdigits, Nat.lt_of_not_le hlong, rfl⟩)
    · exact .ok hleft

theorem consumes_readNumber (cs : List Char) : Consumes cs (readNumber cs) := by
  unfold readNumber
  split
  · exact (consumes_readDigits true _ _).behind
  · exact consumes_readDigits false _ _

/-! ## Values -/

theorem consumes_descend {α : Type} {cs : List Char} {container : Container} {levels : Nat}
    {next : Nat → Except Refusal (α × List Char)}
    (hnext : ∀ levels, Consumes cs (next levels)) :
    Consumes cs (descend container levels >>= next) := by
  cases levels with
  | zero => exact .stop (.inl ⟨container, rfl⟩)
  | succ levels => exact hnext levels

mutual

/-- **A value is read** from its own text, by induction on the fuel. -/
theorem consumes_readValue (levels : Nat) : ∀ (fuel : Nat) (cs : List Char),
    Consumes cs (readValue levels fuel cs)
  | 0, _ => by
      unfold readValue
      exact .refuse _ _
  | fuel + 1, cs => by
      unfold readValue
      split
      · exact (consumes_readText _ fuel [] _).behind.bind fun s rest hrest => .ok hrest
      · rename_i rest
        refine consumes_descend fun inner => ?_
        split
        · rename_i heq
          exact .ok ((suffix_of_skipSpace heq).trans (List.suffix_cons '\x7b' rest))
        · have hfields := (consumes_readFields inner fuel [] _).mono (skipSpace_suffix rest)
          exact hfields.behind.bind fun fields rest hrest => .ok hrest
      · rename_i rest
        refine consumes_descend fun inner => ?_
        split
        · rename_i heq
          exact .ok ((suffix_of_skipSpace heq).trans (List.suffix_cons '[' rest))
        · have hitems := (consumes_readItems inner fuel [] _).mono (skipSpace_suffix rest)
          exact hitems.behind.bind fun items rest hrest => .ok hrest
      · exact .ok (List.suffix_append [_, _, _, _] _)
      · exact .ok (List.suffix_append [_, _, _, _] _)
      · exact .ok (List.suffix_append [_, _, _, _, _] _)
      · exact .ok (List.suffix_append [_, _, _] _)
      · exact .ok (List.suffix_append [_, _, _, _, _, _, _, _] _)
      · exact .ok (List.suffix_append [_, _, _, _, _, _, _, _, _] _)
      · exact (consumes_readNumber _).bind fun n rest hrest => .ok hrest

theorem consumes_readItems (levels : Nat) :
    ∀ (fuel : Nat) (done : List Value) (cs : List Char),
    Consumes cs (readItems levels fuel done cs)
  | 0, _, _ => by
      unfold readItems
      exact .refuse _ _
  | fuel + 1, done, cs => by
      unfold readItems
      refine (consumes_readValue levels fuel cs).bind fun v rest hrest => ?_
      dsimp only
      split
      · rename_i heq
        exact .ok ((suffix_of_skipSpace heq).trans hrest)
      · rename_i heq
        exact (consumes_readItems levels fuel _ _).mono
          ((skipSpace_suffix _).trans ((suffix_of_skipSpace heq).trans hrest))
      · exact .refuse _ _

theorem consumes_readFields (levels : Nat) : ∀ (fuel : Nat) (done : Record) (cs : List Char),
    Consumes cs (readFields levels fuel done cs)
  | 0, _, _ => by
      unfold readFields
      exact .refuse _ _
  | fuel + 1, done, cs => by
      unfold readFields
      refine (consumes_readName fuel cs).bind fun name rest hrest => ?_
      dsimp only
      refine ((consumes_readValue levels fuel rest).mono hrest).bind fun v rest hrest => ?_
      dsimp only
      split
      · rename_i heq
        exact .ok ((suffix_of_skipSpace heq).trans hrest)
      · rename_i heq
        exact (consumes_readFields levels fuel _ _).mono
          ((skipSpace_suffix _).trans ((suffix_of_skipSpace heq).trans hrest))
      · exact .refuse _ _

end

/-- **What stops the reader** is nesting, or a run of digits that is too long. -/
theorem stopped_of_read {text : String} {fault : Fault}
    (h : read text = .error (.fault fault)) :
    Stopped text.toList fault := by
  unfold read readChars at h
  split at h
  · cases h
  · rcases bind_eq_error.mp h with hvalue | ⟨⟨v, rest⟩, -, hrest⟩
    · have hvalues := consumes_readValue nestingLimit (2 * text.toList.length + 1)
        (skipSpace text.toList)
      exact (hvalues.mono (skipSpace_suffix _)).stopped fault hvalue
    · dsimp only at hrest
      split at hrest
      · cases hrest
      · cases hrest

/-- **A run of digits that is too long stops the reader** when it is all of the text. -/
theorem read_digits {text : String} (hdigit : ∀ c ∈ text.toList, c.isDigit = true)
    (hzero : text.toList.head? ≠ some '0') (hlong : digitLimit < text.toList.length) :
    read text = .error (.fault (.tooManyDigits (some text.toList.length))) := by
  unfold read
  obtain ⟨c, cs, hcs⟩ := List.exists_cons_of_length_pos (Nat.zero_lt_of_lt hlong)
  rw [hcs] at hdigit hzero hlong ⊢
  have hc : c.isDigit = true := hdigit c List.mem_cons_self
  have hlead : ∃ d ds, c :: cs = d :: ds ∧ d ≠ '0' :=
    ⟨c, cs, rfl, fun h => hzero (congrArg some h)⟩
  have hwhole := @splitWhole_append [] (c :: cs) hdigit (.inr hlead) fun _ h => nomatch h
  rw [List.append_nil] at hwhole
  have hnumber : readNumber (c :: cs)
      = .error (.fault (.tooManyDigits (some (c :: cs).length))) := by
    refine (readNumber_signed false cs hc).trans ?_
    unfold readDigits
    rw [hwhole]
    exact if_neg (Nat.not_le_of_lt hlong)
  have hnumeral : Numeral (c :: cs) := ⟨false, c, cs, rfl, hc⟩
  rw [readChars_of_opens hnumeral.opens,
    readValue_of_numeral nestingLimit (2 * (c :: cs).length) hnumeral, hnumber]
  rfl

end Workflow.Json
