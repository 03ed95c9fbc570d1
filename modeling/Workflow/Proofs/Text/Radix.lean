import Mathlib.Data.List.Forall2
import Mathlib.Tactic.IntervalCases
import Workflow.Proofs.Text.Digit

/-!
# Digits of a base

`DigitOf` lists the characters that stand for digits, and `Writes` says which number a run of
them writes, one digit after the other. The readers of numerals agree with both:
`radixDigit?` for each digit, `ofDigits` for the digits of any base and `ofDecimalDigits` for
decimal ones.
-/

namespace Workflow.Text

/-- The characters for digits in order, letters in either case. -/
def DigitOf (base : Nat) (c : Char) (d : Nat) : Prop :=
  d < base ∧ ("0123456789abcdef".toList[d]? = some c ∨ "0123456789ABCDEF".toList[d]? = some c)

/-- The number that digits write: with one more digit, what was written before counts base
times as much. -/
inductive Writes (base : Nat) : List Char → Nat → Prop
  | nil : Writes base [] 0
  | snoc {digits : List Char} {c : Char} {n d : Nat} (hdigits : Writes base digits n)
      (hd : DigitOf base c d) : Writes base (digits ++ [c]) (n * base + d)

/-! ## The digits -/

/-- What a table has for the characters of a span it has for a character in the span. -/
theorem getElem?_of_span {table : List Char} {first last shift : Nat}
    (htable : ∀ n ∈ List.range' first (last + 1 - first), table[n - shift]? = some (Char.ofNat n))
    {c : Char} (hfirst : first ≤ c.toNat) (hlast : c.toNat ≤ last) :
    table[c.toNat - shift]? = some c := by
  have hmem : c.toNat ∈ List.range' first (last + 1 - first) :=
    List.mem_range'_1.mpr ⟨hfirst, by omega⟩
  rw [htable _ hmem, Char.ofNat_toNat]

theorem radixDigit?_eq_some_iff {base : Nat} (hbase : base ≤ 16) {c : Char} {d : Nat} :
    radixDigit? base c = some d ↔ DigitOf base c d := by
  unfold radixDigit? DigitOf
  dsimp only
  rw [Option.filter_eq_some_iff, decide_eq_true_eq, and_comm]
  refine and_congr_right fun hd => ⟨fun h => ?_, fun h => ?_⟩
  · have hle : ∀ a b : Char, a ≤ b ↔ a.toNat ≤ b.toNat := fun _ _ => Iff.rfl
    simp only [hle, Bool.and_eq_true, decide_eq_true_eq] at h
    split at h
    · rename_i hspan
      obtain rfl := Option.some.inj h
      exact .inl (getElem?_of_span (by decide) hspan.1 hspan.2)
    · split at h
      · rename_i hspan
        obtain rfl := Option.some.inj h
        exact .inl (getElem?_of_span (by decide) hspan.1 hspan.2)
      · split at h
        · rename_i hspan
          obtain rfl := Option.some.inj h
          exact .inr (getElem?_of_span (by decide) hspan.1 hspan.2)
        · cases h
  · have hsmall : d < 16 := by omega
    clear hd hbase
    interval_cases d <;> rcases h with h | h <;> cases h <;> rfl

theorem digitOf_ten_iff {c : Char} {d : Nat} :
    DigitOf 10 c d ↔ c.isDigit = true ∧ c.toNat - 48 = d := by
  constructor
  · rintro ⟨hd, h⟩
    interval_cases d <;> rcases h with h | h <;> cases h <;> exact ⟨rfl, rfl⟩
  · rintro ⟨hc, rfl⟩
    obtain ⟨hfirst, hlast⟩ := Char.isDigit_iff_toNat.mp hc
    have hvalue : c.toNat ≤ 57 := hlast
    exact ⟨by omega, .inl (getElem?_of_span (by decide) hfirst hlast)⟩

/-! ## Runs of digits -/

section

variable {base : Nat}

theorem exists_forall₂_of_writes {digits : List Char} {n : Nat} (h : Writes base digits n) :
    ∃ values, List.Forall₂ (DigitOf base) digits values ∧ ofDigits base values = n := by
  induction h with
  | nil => exact ⟨[], .nil, rfl⟩
  | @snoc digits c n d hdigits hd ih =>
      obtain ⟨values, hvalues, rfl⟩ := ih
      refine ⟨values ++ [d], List.rel_append hvalues (.cons hd .nil), ?_⟩
      rw [ofDigits, List.foldl_append]
      rfl

theorem writes_append {digits : List Char} {values : List Nat}
    (h : List.Forall₂ (DigitOf base) digits values) :
    ∀ {before : List Char} {n : Nat}, Writes base before n →
      Writes base (before ++ digits) (values.foldl (fun n d => n * base + d) n) := by
  induction h with
  | nil =>
      intro before n hbefore
      rwa [List.append_nil]
  | cons hd _ ih =>
      intro before n hbefore
      rw [List.append_cons, List.foldl_cons]
      exact ih (hbefore.snoc hd)

theorem writes_iff {digits : List Char} {n : Nat} :
    Writes base digits n
      ↔ ∃ values, List.Forall₂ (DigitOf base) digits values ∧ ofDigits base values = n := by
  constructor
  · exact exists_forall₂_of_writes
  · rintro ⟨values, hvalues, rfl⟩
    exact writes_append hvalues .nil

end

theorem writes_ten_iff {digits : List Char} {n : Nat} :
    Writes 10 digits n ↔ (∀ c ∈ digits, c.isDigit = true) ∧ ofDecimalDigits digits = n := by
  have hvalues : ∀ values, List.Forall₂ (DigitOf 10) digits values
      ↔ (∀ c ∈ digits, c.isDigit = true) ∧ digits.map (fun c => c.toNat - 48) = values := by
    intro values
    have hdigit : DigitOf 10 = fun c d => c.isDigit = true ∧ c.toNat - 48 = d :=
      funext fun _ => funext fun _ => propext digitOf_ten_iff
    rw [hdigit, List.forall₂_and_left, ← List.forall₂_map_left_iff, List.forall₂_eq_eq_eq]
  rw [writes_iff]
  constructor
  · rintro ⟨values, h, rfl⟩
    obtain ⟨hall, rfl⟩ := (hvalues values).mp h
    exact ⟨hall, rfl⟩
  · rintro ⟨hall, rfl⟩
    exact ⟨_, (hvalues _).mpr ⟨hall, rfl⟩, rfl⟩

theorem mapM_eq_some_iff {α β : Type} {f : α → Option β} : ∀ {xs : List α} {ys : List β},
    xs.mapM f = some ys ↔ List.Forall₂ (fun x y => f x = some y) xs ys
  | [], ys => by simp
  | x :: xs, ys => by
      rw [List.mapM_cons, List.forall₂_cons_left_iff]
      constructor
      · intro h
        obtain ⟨y, hy, h⟩ := Option.bind_eq_some_iff.mp h
        obtain ⟨ys', hys, h⟩ := Option.bind_eq_some_iff.mp h
        exact ⟨y, ys', hy, mapM_eq_some_iff.mp hys, (Option.some.inj h).symm⟩
      · rintro ⟨y, ys', hy, hys, rfl⟩
        rw [hy, mapM_eq_some_iff.mpr hys]
        rfl

/-- The number that is read from digits of a base is the one they write. -/
theorem mapM_radixDigit?_eq_some_iff {base : Nat} (hbase : base ≤ 16) {digits : List Char}
    {n : Nat} :
    ((digits.mapM (radixDigit? base)).map (ofDigits base) = some n) ↔ Writes base digits n := by
  simp only [Option.map_eq_some_iff, mapM_eq_some_iff, radixDigit?_eq_some_iff hbase, writes_iff]

end Workflow.Text
