import Mathlib.Data.List.DropRight
import Workflow.Text.Blank

/-!
# Stripped texts and words

`Strips` says what is left of a text without the blanks around it: the text is this with
blanks on both sides, and it neither begins nor ends with a blank. Each text leaves one such
rest, the one that trimming gives (`strips_iff`).

A text that does not begin with a blank has the characters up to the first blank as its first
word, and further words come from the rest (`words_eq_cons`). There are none exactly if the
rest is blank (`wordsFrom_eq_nil_iff`).
-/

namespace Workflow.Text

/-- What is left of the characters without the blanks around them. -/
structure Strips (cs t : List Char) : Prop where
  around : ∃ before after, cs = before ++ (t ++ after)
    ∧ (∀ c ∈ before, isBlank c = true) ∧ ∀ c ∈ after, isBlank c = true
  head : ∀ c ∈ t.head?, isBlank c = false
  last : ∀ c ∈ t.getLast?, isBlank c = false

theorem dropWhile_of_head? {p : Char → Bool} {cs : List Char}
    (h : ∀ c ∈ cs.head?, p c = false) :
    cs.dropWhile p = cs := by
  cases cs with
  | nil => rfl
  | cons c cs => rw [List.dropWhile_cons_of_neg (Bool.eq_false_iff.mp (h c rfl))]

theorem head?_dropWhile {p : Char → Bool} {cs : List Char} :
    ∀ c ∈ (cs.dropWhile p).head?, p c = false := by
  intro c hc
  have hstop := List.head?_dropWhile_not p cs
  rw [Option.mem_def.mp hc] at hstop
  exact hstop

theorem trimEnd_append (cs : List Char) : trimEnd cs ++ cs.rtakeWhile isBlank = cs :=
  List.rdropWhile_append_rtakeWhile

theorem strips_trimChars (cs : List Char) : Strips cs (trimChars cs) where
  around := by
    refine ⟨cs.takeWhile isBlank, (trimStart cs).rtakeWhile isBlank, ?_,
      fun _ => List.mem_takeWhile_imp, fun _ => List.mem_rtakeWhile_imp⟩
    rw [trimChars, trimEnd_append, trimStart, List.takeWhile_append_dropWhile]
  head := by
    intro c hc
    have hfirst : (trimStart cs).head? = some c := by
      rw [← trimEnd_append (trimStart cs), List.head?_append]
      exact congrArg (Option.or · _) (Option.mem_def.mp hc)
    exact head?_dropWhile c hfirst
  last := by
    intro c hc
    rw [trimChars, trimEnd, List.getLast?_reverse] at hc
    exact head?_dropWhile c hc

theorem Strips.trimChars_eq {cs t : List Char} (h : Strips cs t) : trimChars cs = t := by
  obtain ⟨before, after, rfl, hbefore, hafter⟩ := h.around
  rw [trimChars, trimStart, List.dropWhile_append_of_pos hbefore]
  cases t with
  | nil =>
      rw [List.nil_append, List.dropWhile_eq_nil_iff.mpr hafter]
      rfl
  | cons c t =>
      have hend : ∀ d ∈ after.reverse, isBlank d = true :=
        fun d hd => hafter d (List.mem_reverse.mp hd)
      have hlast : ∀ d ∈ (c :: t).reverse.head?, isBlank d = false := by
        rw [List.head?_reverse]
        exact h.last
      have hfirst : ∀ d ∈ (c :: t ++ after).head?, isBlank d = false := h.head
      rw [dropWhile_of_head? hfirst, trimEnd, List.reverse_append,
        List.dropWhile_append_of_pos hend, dropWhile_of_head? hlast, List.reverse_reverse]

/-- **Trimming strips a text.** -/
theorem strips_iff {cs t : List Char} : Strips cs t ↔ t = trimChars cs := by
  constructor
  · exact fun h => h.trimChars_eq.symm
  · rintro rfl
    exact strips_trimChars cs

/-! ## Words -/

theorem wordsFrom_letter {c : Char} (hc : isBlank c = false) (cs word : List Char) :
    wordsFrom (c :: cs) word = wordsFrom cs (c :: word) := by
  have hletter : ¬ isBlank c = true := Bool.eq_false_iff.mp hc
  cases word with
  | nil => rw [wordsFrom, if_neg hletter]
  | cons d ds => rw [wordsFrom, if_neg hletter]

theorem wordsFrom_append {w : List Char} (h : ∀ c ∈ w, isBlank c = false)
    (cs word : List Char) :
    wordsFrom (w ++ cs) word = wordsFrom cs (w.reverse ++ word) := by
  induction w generalizing word with
  | nil => rfl
  | cons c w ih =>
      obtain ⟨hc, hw⟩ := List.forall_mem_cons.mp h
      rw [List.cons_append, wordsFrom_letter hc, ih hw, List.reverse_cons, List.append_assoc]
      rfl

theorem wordsFrom_cons_ne_nil (cs : List Char) (c : Char) (word : List Char) :
    wordsFrom cs (c :: word) ≠ [] := by
  induction cs generalizing c word with
  | nil => exact List.cons_ne_nil _ _
  | cons d cs ih =>
      rw [wordsFrom]
      split
      · exact List.cons_ne_nil _ _
      · exact ih d (c :: word)

theorem wordsFrom_eq_nil_iff {cs : List Char} :
    wordsFrom cs [] = [] ↔ ∀ c ∈ cs, isBlank c = true := by
  induction cs with
  | nil => exact iff_of_true rfl nofun
  | cons c cs ih =>
      rw [List.forall_mem_cons, wordsFrom]
      by_cases hc : isBlank c = true
      · rw [if_pos hc, ih, and_iff_right hc]
      · rw [if_neg hc]
        exact iff_of_false (wordsFrom_cons_ne_nil cs c []) fun h => hc h.1

theorem words_eq_cons {s : String} {w rest : List Char} (hs : s.toList = w ++ rest)
    (hsome : w ≠ []) (hw : ∀ c ∈ w, isBlank c = false)
    (hrest : ∀ c ∈ rest.head?, isBlank c = true) :
    words s = String.ofList w :: wordsFrom rest [] := by
  obtain ⟨d, ds, hreverse⟩ : ∃ d ds, w.reverse = d :: ds :=
    List.exists_cons_of_ne_nil fun h => hsome (List.reverse_eq_nil_iff.mp h)
  have hback : (d :: ds).reverse = w := by rw [← hreverse, List.reverse_reverse]
  rw [words, hs, wordsFrom_append hw, List.append_nil, hreverse]
  cases rest with
  | nil => rw [wordsFrom, wordsFrom, hback]
  | cons c rest =>
      have hc : isBlank c = true := hrest c rfl
      rw [wordsFrom, wordsFrom, if_pos hc, if_pos hc, hback]

end Workflow.Text
