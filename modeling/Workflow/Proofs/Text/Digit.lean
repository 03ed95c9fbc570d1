import Workflow.Text.Digit

/-!
# Decimal digits

Numerals are written with decimal digits only, without a zero in front, and read back.
Reading is the library's `Nat.ofDigitChars`, from which the laws of appended digits come.
-/

namespace Workflow.Text

/-- What is checked of each character of a list. To decide the statement itself all
characters there are might be gone through. -/
theorem forall_mem_of_all {p : Char → Prop} [DecidablePred p] {cs : List Char}
    (h : cs.all (fun c => decide (p c)) = true) : ∀ c ∈ cs, p c :=
  fun c hc => of_decide_eq_true (List.all_eq_true.mp h c hc)

theorem decimalDigits_ne_nil (n : Nat) : decimalDigits n ≠ [] := Nat.toDigits_ne_nil

theorem isDigit_of_mem_decimalDigits {n : Nat} {c : Char} (h : c ∈ decimalDigits n) :
    c.isDigit = true :=
  Nat.isDigit_of_mem_toDigits (by decide) (by decide) h

theorem decimalWidth_pos (n : Nat) : 0 < decimalWidth n :=
  Nat.length_toDigits_pos

theorem decimalWidth_le_iff {n k : Nat} (hk : 0 < k) :
    decimalWidth n ≤ k ↔ n < Nat.pow 10 k :=
  Nat.length_toDigits_le_iff (by decide) hk

theorem decimalDigits_ten_mul_add {n d : Nat} (hn : 0 < n) (hd : d < 10) :
    decimalDigits (10 * n + d) = decimalDigits n ++ [d.digitChar] := by
  rw [decimalDigits, ← Nat.toDigits_append_toDigits (by decide) hn hd, Nat.toDigits_of_lt_base hd]
  rfl

theorem decimalWidth_ten_mul {n : Nat} (hn : 0 < n) :
    decimalWidth (10 * n) = decimalWidth n + 1 := by
  have hdigits := decimalDigits_ten_mul_add hn (show 0 < 10 by decide)
  rw [Nat.add_zero] at hdigits
  rw [decimalWidth, hdigits, List.length_append]
  rfl

theorem decimalDigits_eq_cons (n : Nat) :
    ∃ c cs, decimalDigits n = c :: cs ∧ c.isDigit = true ∧ (c = '0' → n = 0 ∧ cs = []) := by
  induction n using Nat.strongRecOn with
  | ind n ih =>
      rcases Nat.lt_or_ge n 10 with hlt | hge
      · refine ⟨n.digitChar, [], Nat.toDigits_of_lt_base hlt, ?_, ?_⟩
        · simp [Nat.isDigit_digitChar, hlt]
        · exact fun h => ⟨Nat.digitChar_eq_zero.mp h, rfl⟩
      · obtain ⟨c, cs, hcs, hc, hzero⟩ := ih (n / 10) (by omega)
        have hsplit : decimalDigits n = decimalDigits (n / 10) ++ [(n % 10).digitChar] :=
          Nat.toDigits_of_base_le (by decide) hge
        refine ⟨c, cs ++ [(n % 10).digitChar], by rw [hsplit, hcs]; rfl, hc, fun h => ?_⟩
        have := (hzero h).1
        omega

/-! ## Reading digits -/

theorem ofDecimalDigits_eq (cs : List Char) :
    ofDecimalDigits cs = Nat.ofDigitChars 10 cs 0 := by
  simp only [ofDecimalDigits, ofDigits, List.foldl_map, Nat.ofDigitChars, Nat.mul_comm]
  rfl

theorem ofDecimalDigits_decimalDigits (n : Nat) : ofDecimalDigits (decimalDigits n) = n := by
  rw [ofDecimalDigits_eq]
  exact Nat.ofDigitChars_toDigits (by decide) (by decide)

theorem ofDecimalDigits_append (cs ds : List Char) :
    ofDecimalDigits (cs ++ ds)
      = ofDecimalDigits cs * Nat.pow 10 ds.length + ofDecimalDigits ds := by
  simp only [ofDecimalDigits_eq, Nat.ofDigitChars_append]
  rw [Nat.ofDigitChars_eq_ofDigitChars_zero, Nat.mul_comm]
  rfl

theorem ofDecimalDigits_replicate_zero (k : Nat) :
    ofDecimalDigits (List.replicate k '0') = 0 := by
  rw [ofDecimalDigits_eq, Nat.ofDigitChars_replicate_zero, Nat.mul_zero]

theorem ofDecimalDigits_zeros_append (k : Nat) (cs : List Char) :
    ofDecimalDigits (List.replicate k '0' ++ cs) = ofDecimalDigits cs := by
  rw [ofDecimalDigits_append, ofDecimalDigits_replicate_zero, Nat.zero_mul, Nat.zero_add]

theorem ofDecimalDigits_append_zeros (cs : List Char) (k : Nat) :
    ofDecimalDigits (cs ++ List.replicate k '0') = ofDecimalDigits cs * Nat.pow 10 k := by
  rw [ofDecimalDigits_append, ofDecimalDigits_replicate_zero, List.length_replicate, Nat.add_zero]

theorem ofDecimalDigits_padLeft (width : Nat) (cs : List Char) :
    ofDecimalDigits (padLeft width '0' cs) = ofDecimalDigits cs :=
  ofDecimalDigits_zeros_append _ cs

theorem ofDecimalDigits_lt : ∀ {cs : List Char}, (∀ c ∈ cs, c.isDigit = true) →
    ofDecimalDigits cs < Nat.pow 10 cs.length
  | [], _ => by decide
  | c :: cs, h => by
      obtain ⟨hc, hcs⟩ := List.forall_mem_cons.mp h
      have hrest := ofDecimalDigits_lt hcs
      have hfirst : ofDecimalDigits [c] ≤ 9 := by
        have hvalue : ofDecimalDigits [c] = c.toNat - 48 := by
          simp only [ofDecimalDigits, ofDigits, List.map_cons, List.map_nil, List.foldl_cons,
            List.foldl_nil, Nat.zero_mul, Nat.zero_add]
        have hlast : c.toNat ≤ 57 := (Char.isDigit_iff_toNat.mp hc).2
        omega
      calc ofDecimalDigits (c :: cs)
          = ofDecimalDigits [c] * Nat.pow 10 cs.length + ofDecimalDigits cs :=
            ofDecimalDigits_append [c] cs
        _ < 9 * Nat.pow 10 cs.length + Nat.pow 10 cs.length :=
            Nat.add_lt_add_of_le_of_lt (Nat.mul_le_mul_right _ hfirst) hrest
        _ = Nat.pow 10 cs.length * 10 := by omega

/-- A number that was read from digits is written with no more of them. -/
theorem decimalWidth_ofDecimalDigits {cs : List Char} (hsome : cs ≠ [])
    (h : ∀ c ∈ cs, c.isDigit = true) : decimalWidth (ofDecimalDigits cs) ≤ cs.length :=
  (decimalWidth_le_iff (List.length_pos_iff.mpr hsome)).mpr (ofDecimalDigits_lt h)

/-! ## Runs of digits -/

theorem takeWhile_isDigit {cs rest : List Char} (h : ∀ c ∈ cs, c.isDigit = true)
    (hrest : ∀ c ∈ rest.head?, c.isDigit = false) :
    (cs ++ rest).takeWhile Char.isDigit = cs ∧ (cs ++ rest).dropWhile Char.isDigit = rest := by
  have hend : rest.takeWhile Char.isDigit = [] ∧ rest.dropWhile Char.isDigit = rest := by
    cases rest with
    | nil => exact ⟨rfl, rfl⟩
    | cons c rest =>
        have hc := hrest c rfl
        simp [hc]
  rw [List.takeWhile_append_of_pos h, List.dropWhile_append_of_pos h, hend.1, hend.2]
  exact ⟨List.append_nil cs, rfl⟩

end Workflow.Text
