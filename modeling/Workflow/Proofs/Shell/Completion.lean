import Mathlib.Data.String.Basic
import Workflow.Proofs.Text.Blank
import Workflow.Proofs.Text.Digit
import Workflow.Shell.Completion

/-!
# What is offered for a line that is being typed

An offer stands in the place of the last characters before the cursor, so that taking it
gives a line (`Completion.applied`). What was typed begins with the first word of a command
(`Typed`), and either this word is still being typed or something is typed behind it
(`Typed.offered_eq`).

A space behind the first word ends it. Any other blank is not seen, although it ends the word
as well: then the word is completed in its place, but the place is counted from the end of
the blanks, and what comes out does not go on with what was typed (`Typed.not_begins`).

The headline is `offers_complete_typed`.
-/

namespace Workflow
namespace Completion

open Text

/-- The line that an offer gives when it is taken. -/
def applied (c : Completion) (typed : String) : String :=
  String.ofList (typed.toList.take (typed.length - c.replaces)) ++ c.line

/-- Whether a line goes on with what was typed, and is the root of a command, or a root and a
space and one of its options. -/
structure Completes (roots : List String) (options : String → List String) (typed line : String) :
    Prop where
  begins : typed.toList <+: line.toList
  command : ∃ root ∈ roots, line = root ∨ ∃ option ∈ options root, line = root ++ " " ++ option

/-- Whether the only word that was typed is ended by a blank that is not seen. -/
def EndsUnseen (typed : String) : Prop :=
  (words typed).length = 1 ∧ ∃ c, typed.toList.getLast? = some c ∧ isBlank c = true ∧ c ≠ ' '

/-! ## Texts in order -/

theorem nodup_eraseDups : ∀ texts : List String, texts.eraseDups.Nodup
  | [] => List.nodup_nil
  | t :: texts => by
      rw [List.eraseDups_cons]
      refine List.nodup_cons.mpr ⟨fun h => ?_, nodup_eraseDups _⟩
      have hkept := (List.mem_filter.mp (List.mem_eraseDups.mp h)).2
      rw [beq_self_eq_true] at hkept
      cases hkept
termination_by texts => texts.length
decreasing_by exact Nat.lt_succ_of_le (List.length_filter_le _ _)

theorem mem_sorted {texts : List String} {t : String} : t ∈ sorted texts ↔ t ∈ texts := by
  rw [sorted, List.mem_mergeSort, List.mem_eraseDups]

theorem pairwise_sorted (texts : List String) : (sorted texts).Pairwise (· < ·) := by
  have hle : (sorted texts).Pairwise fun a b => decide (a ≤ b) = true :=
    List.pairwise_mergeSort
      (fun a b c hab hbc =>
        decide_eq_true ((of_decide_eq_true hab).trans (of_decide_eq_true hbc)))
      (fun a b => by
        rw [Bool.or_eq_true, decide_eq_true_iff, decide_eq_true_iff]
        exact le_total a b) _
  have hne : (sorted texts).Pairwise (· ≠ ·) :=
    (List.mergeSort_perm _ _).symm.nodup (nodup_eraseDups texts)
  exact (hle.and hne).imp fun h => lt_of_le_of_ne (of_decide_eq_true h.1) h.2

theorem append_lt_append (front : String) {s t : String} (h : s < t) :
    front ++ s < front ++ t := by
  rw [String.lt_iff_toList_lt, String.toList_append, String.toList_append]
  exact List.append_left_lt (String.lt_iff_toList_lt.mp h)

/-! ## Lines that begin with what was typed -/

section

variable {typed : String} {lines : List String} {c : Completion}

theorem mem_extending : c ∈ extending typed lines
    ↔ c.line ∈ lines ∧ typed.toList <+: c.line.toList ∧ c.replaces = typed.length := by
  unfold extending
  rw [List.mem_map]
  constructor
  · rintro ⟨line, hline, rfl⟩
    obtain ⟨hmem, hbegins⟩ := List.mem_filter.mp hline
    exact ⟨hmem, List.isPrefixOf_iff_prefix.mp hbegins, rfl⟩
  · rintro ⟨hmem, hbegins, hreplaces⟩
    exact ⟨c.line, List.mem_filter.mpr ⟨hmem, List.isPrefixOf_iff_prefix.mpr hbegins⟩,
      hreplaces ▸ rfl⟩

theorem pairwise_extending (h : lines.Pairwise (· < ·)) :
    ((extending typed lines).map (·.line)).Pairwise (· < ·) := by
  have hlines : (extending typed lines).map (·.line)
      = lines.filter fun line => typed.toList.isPrefixOf line.toList := by
    unfold extending
    rw [List.map_map]
    exact List.map_id _
  rw [hlines]
  exact h.filter _

/-- An offer that stands in the place of all that was typed gives its own line. -/
theorem applied_of_replaces (h : c.replaces = typed.length) : c.applied typed = c.line := by
  rw [applied, h, Nat.sub_self, List.take_zero]
  exact String.empty_append

/-- Lines that are commands, and begin with what was typed, complete it. -/
theorem completes_of_mem_extending {roots : List String} {options : String → List String}
    (hlines : ∀ line ∈ lines, ∃ root ∈ roots, line = root
      ∨ ∃ option ∈ options root, line = root ++ " " ++ option)
    (hc : c ∈ extending typed lines) : Completes roots options typed (c.applied typed) := by
  obtain ⟨hmem, hbegins, hreplaces⟩ := mem_extending.mp hc
  rw [applied_of_replaces hreplaces]
  exact ⟨hbegins, hlines c.line hmem⟩

end

/-! ## What is offered -/

/-- What was typed is the first word of a command and what stands behind it. -/
structure Typed (typed : String) (word rest : List Char) : Prop where
  slash : typed.toList.head? = some '/'
  parts : typed.toList = word ++ rest
  nonempty : word ≠ []
  letters : ∀ c ∈ word, isBlank c = false
  blank : ∀ c ∈ rest.head?, isBlank c = true

theorem exists_typed {typed : String} (h : typed.toList.head? = some '/') :
    ∃ word rest, Typed typed word rest := by
  refine ⟨typed.toList.takeWhile (!isBlank ·), typed.toList.dropWhile (!isBlank ·), h,
    List.takeWhile_append_dropWhile.symm, ?_, fun c hc => ?_, fun c hc => ?_⟩
  · obtain ⟨cs, hcs⟩ := List.head?_eq_some_iff.mp h
    rw [hcs, List.takeWhile_cons_of_pos (by decide)]
    exact List.cons_ne_nil _ _
  · have hletter : (!isBlank c) = true := List.all_eq_true.mp List.all_takeWhile c hc
    exact (Bool.not_eq_true' _).mp hletter
  · exact (Bool.not_eq_false' _).mp (head?_dropWhile c hc)

namespace Typed

variable {typed : String} {word rest : List Char} {roots : List String}
  {options : String → List String}

theorem words_eq (h : Typed typed word rest) :
    words typed = String.ofList word :: wordsFrom rest [] :=
  words_eq_cons h.parts h.nonempty h.letters h.blank

/-- The last character typed is a letter of the word if nothing stands behind it. -/
theorem getLast?_of_nil (h : Typed typed word []) :
    ∃ c, typed.toList.getLast? = some c ∧ isBlank c = false := by
  rw [h.parts, List.append_nil, List.getLast?_eq_some_getLast h.nonempty]
  exact ⟨_, rfl, h.letters _ (List.getLast_mem h.nonempty)⟩

theorem getLast?_of_cons (h : Typed typed word rest) (hrest : rest ≠ []) :
    typed.toList.getLast? = some (rest.getLast hrest) := by
  rw [h.parts, List.getLast?_append, List.getLast?_eq_some_getLast hrest]
  rfl

theorem endsInSpace_iff : endsInSpace typed = true ↔ typed.toList.getLast? = some ' ' :=
  decide_eq_true_iff

/-- The blank behind the word is not seen if nothing but blanks is typed behind it and the
last of them is no space. -/
theorem endsUnseen_iff (h : Typed typed word rest) : EndsUnseen typed
    ↔ wordsFrom rest [] = [] ∧ endsInSpace typed = false ∧ rest ≠ [] := by
  unfold EndsUnseen
  rw [h.words_eq, List.length_cons, Nat.add_eq_right, List.length_eq_zero_iff,
    ← Bool.not_eq_true, endsInSpace_iff]
  refine and_congr_right fun hnone => ?_
  have hblank := wordsFrom_eq_nil_iff.mp hnone
  constructor
  · rintro ⟨c, hlast, hc, hne⟩
    refine ⟨fun hspace => hne (Option.some.inj (hlast.symm.trans hspace)), ?_⟩
    rintro rfl
    obtain ⟨d, hd, hletter⟩ := h.getLast?_of_nil
    obtain rfl := Option.some.inj (hlast.symm.trans hd)
    exact Bool.false_ne_true (hletter.symm.trans hc)
  · rintro ⟨hspace, hrest⟩
    refine ⟨_, h.getLast?_of_cons hrest, hblank _ (List.getLast_mem hrest), fun heq => hspace ?_⟩
    rw [h.getLast?_of_cons hrest, heq]

theorem offered_eq (h : Typed typed word rest) : offered roots options typed
    = if wordsFrom rest [] = [] ∧ endsInSpace typed = false
      then extending (String.ofList word) (sorted roots)
      else offered.withOptions roots options typed (String.ofList word) := by
  unfold offered
  rw [if_neg (not_not_intro h.slash), h.words_eq]
  cases hnone : wordsFrom rest [] with
  | nil => cases endsInSpace typed <;> rfl
  | cons w ws => rw [if_neg fun hboth => List.cons_ne_nil w ws hboth.1]

/-- A line that is put in the place of the word, counted from the end of the blanks behind
it, does not go on with what was typed: it has a letter where this has a blank. -/
theorem not_begins (h : Typed typed word rest) (hblank : ∀ c ∈ rest, isBlank c = true)
    (hrest : rest ≠ []) {c : Completion} (hc : word <+: c.line.toList)
    (hreplaces : c.replaces = word.length) :
    ¬ typed.toList <+: (c.applied typed).toList := by
  intro hbegins
  obtain ⟨behind, hline⟩ := hc
  have hlength : typed.toList.length = rest.length + word.length := by
    rw [h.parts, List.length_append, Nat.add_comm]
  have happlied : (c.applied typed).toList = (typed.toList.take rest.length ++ word) ++ behind := by
    rw [applied, String.toList_append, String.toList_ofList, ← hline, hreplaces,
      ← String.length_toList, hlength, Nat.add_sub_cancel, List.append_assoc]
  have hshort : (typed.toList.take rest.length ++ word).length = typed.toList.length := by
    rw [List.length_append, List.length_take, hlength, Nat.min_eq_left (Nat.le_add_right _ _)]
  -- Two beginnings of the same length are the same, but the last character differs.
  have hsame : typed.toList = typed.toList.take rest.length ++ word := by
    rw [happlied] at hbegins
    exact (List.prefix_of_prefix_length_le hbegins (List.prefix_append _ _) hshort.ge).eq_of_length
      hshort.symm
  have hlast : typed.toList.getLast? = some (word.getLast h.nonempty) := by
    rw [hsame, List.getLast?_append, List.getLast?_eq_some_getLast h.nonempty]
    rfl
  have heq := Option.some.inj ((h.getLast?_of_cons hrest).symm.trans hlast)
  have hletter := h.letters _ (List.getLast_mem h.nonempty)
  rw [← heq, hblank _ (List.getLast_mem hrest)] at hletter
  cases hletter

end Typed

section

variable {roots : List String} {options : String → List String} {typed root : String}

theorem mem_withOptions {c : Completion} : c ∈ offered.withOptions roots options typed root
    ↔ root ∈ roots ∧ c ∈ extending typed
      ((sorted (options root)).map fun option => root ++ " " ++ option) := by
  unfold offered.withOptions
  by_cases hroot : root ∈ roots
  · rw [if_pos hroot, and_iff_right hroot]
  · rw [if_neg hroot]
    exact iff_of_false List.not_mem_nil fun h => hroot h.1

theorem pairwise_withOptions (roots : List String) (options : String → List String)
    (typed root : String) :
    ((offered.withOptions roots options typed root).map (·.line)).Pairwise (· < ·) := by
  unfold offered.withOptions
  split
  · refine pairwise_extending (List.pairwise_map.mpr ?_)
    exact (pairwise_sorted (options root)).imp fun h => append_lt_append (root ++ " ") h
  · exact .nil

theorem completes_of_mem_withOptions {c : Completion}
    (hc : c ∈ offered.withOptions roots options typed root) :
    Completes roots options typed (c.applied typed) := by
  obtain ⟨hroot, hc⟩ := mem_withOptions.mp hc
  refine completes_of_mem_extending (fun line hline => ?_) hc
  obtain ⟨option, hoption, rfl⟩ := List.mem_map.mp hline
  exact ⟨root, hroot, .inr ⟨option, mem_sorted.mp hoption, rfl⟩⟩

end

theorem offered_of_not_slash {roots : List String} {options : String → List String}
    {typed : String} (h : ¬ typed.toList.head? = some '/') :
    offered roots options typed = [] :=
  if_pos h

theorem pairwise_offered (roots : List String) (options : String → List String)
    (typed : String) :
    ((offered roots options typed).map (·.line)).Pairwise (· < ·) := by
  by_cases hslash : typed.toList.head? = some '/'
  · obtain ⟨word, rest, htyped⟩ := exists_typed hslash
    rw [htyped.offered_eq]
    split
    · exact pairwise_extending (pairwise_sorted roots)
    · exact pairwise_withOptions roots options typed _
  · rw [offered_of_not_slash hslash]
    exact .nil

theorem completes_iff_of_mem_offered {roots : List String} {options : String → List String}
    {typed : String} {c : Completion} (hc : c ∈ offered roots options typed) :
    Completes roots options typed (c.applied typed) ↔ ¬ EndsUnseen typed := by
  by_cases hslash : typed.toList.head? = some '/'
  · obtain ⟨word, rest, htyped⟩ := exists_typed hslash
    rw [htyped.offered_eq] at hc
    rw [htyped.endsUnseen_iff]
    split at hc
    · rename_i hword
      have hblank := wordsFrom_eq_nil_iff.mp hword.1
      rw [and_iff_right hword.1, and_iff_right hword.2]
      by_cases hrest : rest = []
      · subst hrest
        have hsame : String.ofList word = typed := by
          rw [← String.ofList_toList (s := typed), htyped.parts, List.append_nil]
        rw [hsame] at hc
        refine iff_of_true (completes_of_mem_extending (fun line hline => ?_) hc)
          (not_not_intro rfl)
        exact ⟨line, mem_sorted.mp hline, .inl rfl⟩
      · obtain ⟨-, hbegins, hreplaces⟩ := mem_extending.mp hc
        rw [String.toList_ofList] at hbegins
        rw [String.length_ofList] at hreplaces
        exact iff_of_false
          (fun h => htyped.not_begins hblank hrest hbegins hreplaces h.begins) (not_not_intro hrest)
    · rename_i hbehind
      exact iff_of_true (completes_of_mem_withOptions hc) fun h => hbehind ⟨h.1, h.2.1⟩
  · rw [offered_of_not_slash hslash] at hc
    cases hc

/-- Where nothing is typed behind the first word, the roots that begin with it are
offered. -/
theorem exists_offered_iff {roots : List String} {options : String → List String}
    {typed : String} (hslash : typed.toList.head? = some '/')
    (hletters : ∀ c ∈ typed.toList, isBlank c = false) {line : String} :
    (∃ c ∈ offered roots options typed, c.applied typed = line)
      ↔ line ∈ roots ∧ typed.toList <+: line.toList := by
  have hsome : typed.toList ≠ [] := fun hnil => by
    rw [hnil] at hslash
    cases hslash
  have htyped : Typed typed typed.toList [] :=
    ⟨hslash, (List.append_nil _).symm, hsome, hletters, nofun⟩
  have hspace : endsInSpace typed = false := by
    obtain ⟨c, hlast, hletter⟩ := htyped.getLast?_of_nil
    refine Bool.eq_false_iff.mpr fun h => ?_
    obtain rfl := Option.some.inj (hlast.symm.trans (Typed.endsInSpace_iff.mp h))
    cases hletter
  rw [htyped.offered_eq, if_pos ⟨wordsFrom_eq_nil_iff.mpr nofun, hspace⟩, String.ofList_toList]
  constructor
  · rintro ⟨c, hc, rfl⟩
    obtain ⟨hmem, hbegins, hreplaces⟩ := mem_extending.mp hc
    rw [applied_of_replaces hreplaces]
    exact ⟨mem_sorted.mp hmem, hbegins⟩
  · rintro ⟨hmem, hbegins⟩
    exact ⟨⟨line, typed.length⟩, mem_extending.mpr ⟨mem_sorted.mpr hmem, hbegins, rfl⟩,
      applied_of_replaces rfl⟩

/-! ## The headline theorem -/

/-- **What is offered completes what was typed**, except behind a single word that is ended
by a blank other than a space: nothing that is offered there goes on with it. What is offered
stands in order, each line once, and for a word that is still being typed it is the roots
that begin with this word. -/
theorem offers_complete_typed (roots : List String) (options : String → List String)
    (typed : String) :
    ((offered roots options typed).map (·.line)).Pairwise (· < ·)
      ∧ (∀ c ∈ offered roots options typed,
        Completes roots options typed (c.applied typed) ↔ ¬ EndsUnseen typed)
      ∧ (typed.toList.head? = some '/' → (∀ c ∈ typed.toList, isBlank c = false) →
        ∀ line, (∃ c ∈ offered roots options typed, c.applied typed = line)
          ↔ line ∈ roots ∧ typed.toList <+: line.toList) :=
  ⟨pairwise_offered roots options typed, fun _ => completes_iff_of_mem_offered,
    fun hslash hletters _ => exists_offered_iff hslash hletters⟩

/-- A word that is still being typed, and the same word with a tab behind it. -/
theorem offers_complete_typed_until_a_tab :
    let roots := ["/run", "/connect", "/config"]
    let options (root : String) : List String := if root = "/config" then ["start", "end"] else []
    (∃ c ∈ offered roots options "/co", c.applied "/co" = "/config"
        ∧ Completes roots options "/co" "/config")
      ∧ ∃ c ∈ offered roots options "/co\t", c.applied "/co\t" = "//config"
        ∧ ¬ Completes roots options "/co\t" "//config" := by
  intro roots options
  obtain ⟨-, hcompletes, hexactly⟩ := offers_complete_typed roots options "/co"
  have hletters : ∀ c ∈ "/co".toList, isBlank c = false := forall_mem_of_all rfl
  have hroot : "/config" ∈ roots := .tail _ (.tail _ (.head _))
  have hbegins : "/co".toList <+: "/config".toList := ⟨"nfig".toList, rfl⟩
  obtain ⟨c, hc, happlied⟩ := (hexactly rfl hletters "/config").mpr ⟨hroot, hbegins⟩
  have hseen : ¬ EndsUnseen "/co" := by
    rintro ⟨-, d, hlast, hblank, -⟩
    obtain rfl := Option.some.inj hlast
    cases hblank
  obtain ⟨-, hbroken, -⟩ := offers_complete_typed roots options "/co\t"
  have htab : EndsUnseen "/co\t" := ⟨rfl, '\t', rfl, rfl, by decide⟩
  have hoffered : ⟨"/config", 3⟩ ∈ offered roots options "/co\t" := by
    have htyped : Typed "/co\t" "/co".toList ['\t'] :=
      ⟨rfl, rfl, List.cons_ne_nil _ _, hletters, fun _ hc => Option.some.inj hc ▸ rfl⟩
    rw [htyped.offered_eq, if_pos ⟨rfl, rfl⟩]
    exact mem_extending.mpr ⟨mem_sorted.mpr hroot, hbegins, rfl⟩
  exact ⟨⟨c, hc, happlied, happlied ▸ (hcompletes c hc).mpr hseen⟩, _, hoffered, rfl,
    fun h => (hbroken _ hoffered).mp h htab⟩

end Completion
end Workflow
