import Workflow.Proofs.Json.Token

/-!
# Documents are read as they were written

The reader undoes the writer in both layouts: a value whose parts are faithful is written,
and what was written is read as the value, provided that it nests no deeper than the reader
goes (`read_write`). The induction is on the value. Its invariant says how much fuel a text
needs: never more than it has characters, for each item of a list or field of a record takes
one more and is followed by a bracket or a comma.
-/

namespace Workflow.Json

open Value

/-! ## Blanks -/

theorem skipSpace_append {blanks cs : List Char} (hblanks : ∀ c ∈ blanks, isSpace c = true)
    (hcs : ∀ c ∈ cs.head?, isSpace c = false) : skipSpace (blanks ++ cs) = cs := by
  have hend : cs.dropWhile isSpace = cs := by
    cases cs with
    | nil => rfl
    | cons c cs =>
        have hc := hcs c rfl
        simp [hc]
  rw [skipSpace, List.dropWhile_append_of_pos hblanks, hend]

theorem Opens.not_isSpace {cs : List Char} (h : Opens cs) :
    ∀ c ∈ cs.head?, isSpace c = false := by
  obtain ⟨c, rest, rfl, hc⟩ := h
  intro d hd
  obtain rfl := Option.some.inj hd
  cases hspace : isSpace c with
  | false => rfl
  | true =>
      simp only [isSpace, Bool.or_eq_true, decide_eq_true_eq] at hspace
      rcases hspace with ((rfl | rfl) | rfl) | rfl <;> exact absurd (by decide) hc

theorem isSpace_of_mem_edge (layout : Layout) (depth : Nat) :
    ∀ c ∈ layout.edge depth, isSpace c = true := by
  cases layout with
  | oneLine => exact fun _ hc => absurd hc List.not_mem_nil
  | indented =>
      refine List.forall_mem_cons.mpr ⟨by decide, fun c hc => ?_⟩
      obtain rfl := List.eq_of_mem_replicate hc
      decide

theorem between_eq (layout : Layout) (depth : Nat) :
    ∃ blanks, layout.between depth = ',' :: blanks ∧ ∀ c ∈ blanks, isSpace c = true := by
  cases layout with
  | oneLine => exact ⟨[' '], rfl, List.forall_mem_singleton.mpr rfl⟩
  | indented => exact ⟨_, rfl, isSpace_of_mem_edge .indented depth⟩

theorem length_between_pos (layout : Layout) (depth : Nat) :
    0 < (layout.between depth).length := by
  obtain ⟨blanks, hblanks, -⟩ := between_eq layout depth
  rw [hblanks]
  exact Nat.succ_pos _

/-- A value is followed by a closing bracket, on the same line or a new one. -/
theorem closed_edge (layout : Layout) (depth : Nat) {c : Char} (hc : c = ']' ∨ c = '\x7d')
    (rest : List Char) : Closed (layout.edge depth ++ c :: rest) := by
  intro d hd
  cases layout with
  | oneLine =>
      obtain rfl := Option.some.inj hd
      rcases hc with rfl | rfl <;> decide
  | indented =>
      obtain rfl := Option.some.inj hd
      decide

theorem closed_between (layout : Layout) (depth : Nat) (rest : List Char) :
    Closed (layout.between depth ++ rest) := by
  obtain ⟨blanks, hbetween, -⟩ := between_eq layout depth
  intro d hd
  rw [hbetween] at hd
  obtain rfl := Option.some.inj hd
  decide

theorem skipSpace_edge (layout : Layout) (depth : Nat) {cs : List Char}
    (h : ∀ c ∈ cs.head?, isSpace c = false) : skipSpace (layout.edge depth ++ cs) = cs :=
  skipSpace_append (isSpace_of_mem_edge layout depth) h

theorem skipSpace_between (layout : Layout) (depth : Nat) {cs : List Char} (h : Opens cs) :
    ∃ after, skipSpace (layout.between depth ++ cs) = ',' :: after ∧ skipSpace after = cs := by
  obtain ⟨blanks, hbetween, hblanks⟩ := between_eq layout depth
  refine ⟨blanks ++ cs, ?_, skipSpace_append hblanks h.not_isSpace⟩
  rw [hbetween]
  rfl

/-! ## Texts and names -/

theorem length_le_flatMap_escape : ∀ cs : List Char, cs.length ≤ (cs.flatMap escape).length
  | [] => Nat.le_refl _
  | c :: cs => by
      have hone : 0 < (escape c).length := by
        unfold escape
        split_ifs <;> exact Nat.succ_pos _
      have hrest := length_le_flatMap_escape cs
      rw [List.flatMap_cons, List.length_append, List.length_cons]
      omega

theorem length_writeText (s : String) : s.toList.length + 2 ≤ (writeText s).length := by
  have hlength := length_le_flatMap_escape s.toList
  simp only [writeText, List.length_cons, List.length_append, List.length_nil]
  omega

theorem opens_writeText (s : String) : Opens (writeText s) := ⟨'"', _, rfl, by decide⟩

theorem readText_writeText (opening : List Char) (s : String) {fuel : Nat}
    (hfuel : s.toList.length < fuel) (rest : List Char) :
    readText opening fuel [] (s.toList.flatMap escape ++ '"' :: rest) = .ok (s, rest) := by
  rw [readText_flatMap_escape opening rest _ _ _ hfuel, List.reverse_nil, List.nil_append,
    String.ofList_toList]

/-- The characters of a field: its name, and what is written of its value. -/
def fieldChars (name : String) (cs : List Char) : List Char :=
  writeText name ++ ':' :: ' ' :: cs

theorem opens_fieldChars (name : String) (cs : List Char) : Opens (fieldChars name cs) :=
  (opens_writeText name).append _

theorem fieldChars_append (name : String) (cs rest : List Char) :
    fieldChars name cs ++ rest = fieldChars name (cs ++ rest) := by
  simp [fieldChars]

theorem length_fieldChars (name : String) (cs : List Char) :
    name.toList.length + cs.length + 4 ≤ (fieldChars name cs).length := by
  have hname := length_writeText name
  simp only [fieldChars, List.length_append, List.length_cons]
  omega

theorem readName_fieldChars {fuel : Nat} (name : String) (hfuel : name.toList.length < fuel)
    {cs : List Char} (h : Opens cs) :
    readName fuel (fieldChars name cs) = .ok (name, cs) := by
  have hchars : fieldChars name cs
      = '"' :: (name.toList.flatMap escape ++ '"' :: ':' :: ' ' :: cs) := by
    simp [fieldChars, writeText]
  have hcolon : skipSpace (':' :: ' ' :: cs) = ':' :: ' ' :: cs := rfl
  have hspace : skipSpace (' ' :: cs) = cs :=
    @skipSpace_append [' '] cs (List.forall_mem_singleton.mpr rfl) h.not_isSpace
  rw [hchars]
  simp only [readName, readText_writeText _ name hfuel, hcolon, hspace, bind, Except.bind]

/-! ## Values -/

/-- Whether characters are read as a value wherever they stand in front of what may follow
one. -/
def Reads (levels : Nat) (cs : List Char) (v : Value) : Prop :=
  ∀ fuel rest, cs.length ≤ fuel → Closed rest → readValue levels fuel (cs ++ rest) = .ok (v, rest)

/-- Whether a value is written and then read. -/
def Returns (layout : Layout) (levels depth : Nat) (v : Value) : Prop :=
  ∃ cs, writeValue layout depth v = .ok cs ∧ Opens cs ∧ Reads levels cs v

variable {layout : Layout} {levels depth : Nat}

theorem Opens.reads {cs : List Char} {v : Value} (h : Opens cs)
    (hread : ∀ fuel rest, cs.length ≤ fuel + 1 → Closed rest →
      readValue levels (fuel + 1) (cs ++ rest) = .ok (v, rest)) : Reads levels cs v := by
  intro fuel rest hfuel hrest
  have hpos := h.length_pos
  obtain ⟨fuel, rfl⟩ : ∃ f, fuel = f + 1 := ⟨fuel - 1, by omega⟩
  exact hread fuel rest hfuel hrest

theorem returns_word {cs : List Char} {v : Value} (hopens : Opens cs)
    (hwrite : writeValue layout depth v = .ok cs)
    (hread : ∀ fuel rest, readValue levels (fuel + 1) (cs ++ rest) = .ok (v, rest)) :
    Returns layout levels depth v :=
  ⟨cs, hwrite, hopens, hopens.reads fun fuel rest _ _ => hread fuel rest⟩

theorem reads_number {n : Number} (h : (Value.number n).Faithful) :
    Returns layout levels depth (.number n) := by
  obtain ⟨cs, hwrite, hopens, hread⟩ := readValue_writeNumber h
  exact ⟨cs, hwrite, hopens, hopens.reads fun fuel rest _ hrest => hread levels fuel rest hrest⟩

theorem reads_text (s : String) : Returns layout levels depth (.text s) := by
  refine ⟨writeText s, rfl, opens_writeText s, (opens_writeText s).reads ?_⟩
  intro fuel rest hfuel _
  have hlength := length_writeText s
  have hchars : writeText s ++ rest = '"' :: (s.toList.flatMap escape ++ '"' :: rest) := by
    simp [writeText]
  rw [hchars]
  simp only [readValue, readText_writeText _ s (show s.toList.length < fuel by omega), bind,
    Except.bind]
  rfl

/-! ### Lists -/

/-- The items of a list are read up to its closing bracket, one after another. -/
theorem readItems_writeItems (outer : Nat) : ∀ (vs : List Value),
    (∀ v ∈ vs, Returns layout levels depth v) →
    ∃ tail, writeItems layout depth vs = .ok tail ∧
      ∀ (rest : List Char) (v : Value) (cs : List Char) (done : List Value) (fuel : Nat),
        Opens cs → Reads levels cs v → (cs ++ tail).length < fuel →
          readItems levels fuel done (cs ++ (tail ++ (layout.edge outer ++ ']' :: rest)))
            = .ok (done.reverse ++ v :: vs, rest)
  | [], _ => by
      refine ⟨[], rfl, fun rest v cs done fuel _ hreads hfuel => ?_⟩
      obtain ⟨fuel, rfl⟩ : ∃ f, fuel = f + 1 := ⟨fuel - 1, by omega⟩
      rw [List.append_nil] at hfuel
      have hread := hreads fuel _ (Nat.le_of_lt_succ hfuel)
        (closed_edge layout outer (Or.inl rfl) rest)
      have hskip : skipSpace (layout.edge outer ++ ']' :: rest) = ']' :: rest :=
        skipSpace_edge layout outer (by rintro c ⟨⟩; decide)
      simp only [readItems, List.nil_append, hread, hskip, bind, Except.bind]
      rw [List.reverse_cons]
  | w :: ws, h => by
      obtain ⟨⟨ds, hwrite, hopens, hreads⟩, hrest⟩ := List.forall_mem_cons.mp h
      obtain ⟨tail, htail, hitems⟩ := readItems_writeItems outer ws hrest
      refine ⟨layout.between depth ++ ds ++ tail, ?_, ?_⟩
      · simp only [writeItems, hwrite, htail, bind, Except.bind]
        rfl
      · intro rest v cs done fuel hcs hv hfuel
        obtain ⟨fuel, rfl⟩ : ∃ f, fuel = f + 1 := ⟨fuel - 1, by omega⟩
        have hbetween := length_between_pos layout depth
        have hpos := hcs.length_pos
        simp only [List.length_append] at hfuel
        have hread := hv fuel _ (by omega) (closed_between layout depth
          (ds ++ (tail ++ (layout.edge outer ++ ']' :: rest))))
        obtain ⟨after, hcomma, hafter⟩ := skipSpace_between layout depth
          (hopens.append (tail ++ (layout.edge outer ++ ']' :: rest)))
        have hnext := hitems rest w ds (v :: done) fuel hopens hreads (by
          rw [List.length_append]
          omega)
        simp only [List.append_assoc]
        simp only [readItems, hread, hcomma, hafter, hnext, bind, Except.bind]
        rw [List.reverse_cons, List.append_assoc, List.singleton_append]

theorem readValue_of_readItems {fuel : Nat} {cs rest : List Char} {items : List Value}
    (hopens : Opens cs) (hread : readItems levels fuel [] cs = .ok (items, rest)) :
    readValue (levels + 1) (fuel + 1) ('[' :: (layout.edge depth ++ cs))
      = .ok (.list items, rest) := by
  have hskip := skipSpace_edge layout depth hopens.not_isSpace
  simp only [readValue, descend, hskip, bind, Except.bind]
  split
  · obtain ⟨c, _, heq, hc⟩ := hopens
    obtain ⟨rfl, -⟩ := List.cons.inj heq
    exact absurd (by decide) hc
  · rw [hread]
    rfl

theorem reads_list {items : List Value}
    (h : ∀ v ∈ items, Returns layout levels (depth + 1) v) :
    Returns layout (levels + 1) depth (.list items) := by
  cases items with
  | nil => exact returns_word ⟨'[', [']'], rfl, by decide⟩ rfl fun _ _ => rfl
  | cons v vs =>
      obtain ⟨⟨cs, hwrite, hopens, hreads⟩, hrest⟩ := List.forall_mem_cons.mp h
      obtain ⟨tail, htail, hitems⟩ := readItems_writeItems depth vs hrest
      have hbegins : Opens
          ('[' :: layout.edge (depth + 1) ++ cs ++ tail ++ layout.edge depth ++ [']']) :=
        ⟨'[', _, rfl, by decide⟩
      refine ⟨_, ?_, hbegins, hbegins.reads fun fuel rest hfuel _ => ?_⟩
      · simp only [writeValue, hwrite, htail, bind, Except.bind]
        rfl
      · simp only [List.length_append, List.length_cons, List.length_nil] at hfuel
        have hread := hitems rest v cs [] fuel hopens hreads (by rw [List.length_append]; omega)
        simp only [List.cons_append, List.append_assoc, List.nil_append]
        exact readValue_of_readItems (hopens.append _) hread

/-! ### Records -/

theorem set_of_not_mem {name : String} (v : Value) : ∀ {r : Record},
    name ∉ r.map Prod.fst → Record.set r name v = r ++ [(name, v)]
  | [], _ => rfl
  | (k, w) :: r, h => by
      simp only [List.map_cons, List.mem_cons, not_or] at h
      rw [Record.set, if_neg (Ne.symm h.1), set_of_not_mem v h.2]
      rfl

theorem set_of_distinctNames {done fields : Record} {name : String} {v : Value}
    (h : Record.DistinctNames (done ++ (name, v) :: fields)) :
    Record.set done name v = done ++ [(name, v)] := by
  refine set_of_not_mem v fun hmem => ?_
  unfold Record.DistinctNames at h
  rw [List.map_append] at h
  exact (List.nodup_append.mp h).2.2 name hmem name List.mem_cons_self rfl

/-- The fields of a record are read up to its closing brace, one after another. -/
theorem readFields_writeFields (outer : Nat) : ∀ (fields : List (String × Value)),
    (∀ f ∈ fields, Returns layout levels depth f.2) →
    ∃ tail, writeFields layout depth fields = .ok tail ∧
      ∀ (rest : List Char) (name : String) (v : Value) (cs : List Char) (done : Record)
        (fuel : Nat), Opens cs → Reads levels cs v →
          Record.DistinctNames (done ++ (name, v) :: fields) →
          (fieldChars name (cs ++ tail)).length < fuel →
            readFields levels fuel done
              (fieldChars name (cs ++ (tail ++ (layout.edge outer ++ '\x7d' :: rest))))
                = .ok (done ++ (name, v) :: fields, rest)
  | [], _ => by
      refine ⟨[], rfl, fun rest name v cs done fuel hopens hreads hdistinct hfuel => ?_⟩
      have hlength := length_fieldChars name (cs ++ [])
      rw [List.length_append] at hlength
      obtain ⟨fuel, rfl⟩ : ∃ f, fuel = f + 1 := ⟨fuel - 1, by omega⟩
      have hread := hreads fuel _ (by omega) (closed_edge layout outer (Or.inr rfl) rest)
      have hskip : skipSpace (layout.edge outer ++ '\x7d' :: rest) = '\x7d' :: rest :=
        skipSpace_edge layout outer (by rintro c ⟨⟩; decide)
      have hnamed := readName_fieldChars name (show name.toList.length < fuel by omega)
        (hopens.append (layout.edge outer ++ '\x7d' :: rest))
      have hset := set_of_distinctNames hdistinct
      simp only [readFields, List.nil_append, hnamed, hread, hskip, hset, bind, Except.bind]
  | (name', w) :: fields, h => by
      obtain ⟨⟨ds, hwrite, hopens, hreads⟩, hrest⟩ := List.forall_mem_cons.mp h
      obtain ⟨tail, htail, hfields⟩ := readFields_writeFields outer fields hrest
      refine ⟨layout.between depth ++ fieldChars name' (ds ++ tail), ?_, ?_⟩
      · simp only [writeFields, hwrite, htail, bind, Except.bind]
        simp [fieldChars, pure, Except.pure]
      · intro rest name v cs done fuel hcs hv hdistinct hfuel
        have hlength := length_fieldChars name (cs ++ (layout.between depth ++
          fieldChars name' (ds ++ tail)))
        have hbetween := length_between_pos layout depth
        simp only [List.length_append] at hlength
        obtain ⟨fuel, rfl⟩ : ∃ f, fuel = f + 1 := ⟨fuel - 1, by omega⟩
        obtain ⟨following, hfollowing⟩ : ∃ following,
            fieldChars name' (ds ++ (tail ++ (layout.edge outer ++ '\x7d' :: rest))) = following :=
          ⟨_, rfl⟩
        have hset := set_of_distinctNames hdistinct
        have hnamed : readName fuel (fieldChars name (cs ++ (layout.between depth ++ following)))
            = .ok (name, cs ++ (layout.between depth ++ following)) :=
          readName_fieldChars name (by omega) (hcs.append _)
        have hread := hv fuel _ (by omega) (closed_between layout depth following)
        obtain ⟨after, hcomma, hafter⟩ := skipSpace_between layout depth
          (hfollowing ▸ opens_fieldChars name' _)
        have hdistinct' : Record.DistinctNames (done ++ [(name, v)] ++ (name', w) :: fields) := by
          rw [List.append_assoc]
          exact hdistinct
        have hnext : readFields levels fuel (done ++ [(name, v)]) following
            = .ok (done ++ [(name, v)] ++ (name', w) :: fields, rest) := by
          rw [← hfollowing]
          exact hfields rest name' w ds _ fuel hopens hreads hdistinct' (by omega)
        simp only [List.append_assoc, fieldChars_append, hfollowing]
        simp only [readFields, hnamed, hread, hcomma, hafter, hset, hnext, bind, Except.bind]
        rw [List.append_assoc, List.singleton_append]

theorem readValue_of_readFields {fuel : Nat} {cs rest : List Char} {fields : Record}
    (hopens : Opens cs) (hread : readFields levels fuel [] cs = .ok (fields, rest)) :
    readValue (levels + 1) (fuel + 1) ('\x7b' :: (layout.edge depth ++ cs))
      = .ok (.record fields, rest) := by
  have hskip := skipSpace_edge layout depth hopens.not_isSpace
  simp only [readValue, descend, hskip, bind, Except.bind]
  split
  · obtain ⟨c, _, heq, hc⟩ := hopens
    obtain ⟨rfl, -⟩ := List.cons.inj heq
    exact absurd (by decide) hc
  · rw [hread]
    rfl

theorem reads_record {fields : List (String × Value)}
    (hdistinct : Record.DistinctNames fields)
    (h : ∀ f ∈ fields, Returns layout levels (depth + 1) f.2) :
    Returns layout (levels + 1) depth (.record fields) := by
  cases fields with
  | nil => exact returns_word ⟨'\x7b', ['\x7d'], rfl, by decide⟩ rfl fun _ _ => rfl
  | cons field fields =>
      obtain ⟨name, v⟩ := field
      obtain ⟨⟨cs, hwrite, hopens, hreads⟩, hrest⟩ := List.forall_mem_cons.mp h
      obtain ⟨tail, htail, hfields⟩ := readFields_writeFields depth fields hrest
      have hbegins : Opens ('\x7b' :: (layout.edge (depth + 1)
          ++ (fieldChars name (cs ++ tail) ++ (layout.edge depth ++ ['\x7d'])))) :=
        ⟨'\x7b', _, rfl, by decide⟩
      refine ⟨_, ?_, hbegins, hbegins.reads fun fuel rest hfuel _ => ?_⟩
      · simp only [writeValue, hwrite, htail, bind, Except.bind]
        simp [fieldChars, pure, Except.pure]
      · simp only [List.length_append, List.length_cons] at hfuel
        have hread := hfields rest name v cs [] fuel hopens hreads hdistinct (by omega)
        simp only [List.cons_append, List.append_assoc, fieldChars_append, List.nil_append]
          at hread ⊢
        exact readValue_of_readFields (opens_fieldChars _ _) hread

/-! ### All values -/

/-- **Every faithful value is written, and read back from what was written.** -/
theorem returns_of_fits (v : Value) : ∀ {levels depth : Nat}, Fits Faithful levels v →
    Returns layout levels depth v := by
  induction v using insideInduction with
  | null =>
      intro levels depth _
      exact returns_word ⟨'n', ['u', 'l', 'l'], rfl, by decide⟩ rfl fun _ _ => rfl
  | bool b =>
      intro levels depth _
      cases b with
      | true => exact returns_word ⟨'t', ['r', 'u', 'e'], rfl, by decide⟩ rfl fun _ _ => rfl
      | false => exact returns_word ⟨'f', ['a', 'l', 's', 'e'], rfl, by decide⟩ rfl fun _ _ => rfl
  | number n => exact fun h => reads_number h.everywhere.self
  | text s => exact fun _ => reads_text s
  | list items ih =>
      intro levels depth h
      cases levels with
      | zero => exact absurd h not_fits_list
      | succ levels => exact reads_list fun v hv => ih v hv (fits_faithful_list.mp h v hv)
  | record fields ih =>
      intro levels depth h
      cases levels with
      | zero => exact absurd h not_fits_record
      | succ levels =>
          obtain ⟨hdistinct, hfields⟩ := fits_faithful_record.mp h
          exact reads_record hdistinct fun f hf => ih f hf (hfields f hf)

/-- Characters that begin as a value does are read as one, with nothing behind it. -/
theorem readChars_of_opens {cs : List Char} (h : Opens cs) :
    readChars cs = (readValue nestingLimit (2 * cs.length + 1) cs).bind fun read =>
      if (skipSpace read.2).isEmpty then .ok read.1
      else refuse .trailingText (skipSpace read.2) := by
  have hskip : skipSpace cs = cs :=
    @skipSpace_append [] cs (fun _ hc => nomatch hc) h.not_isSpace
  unfold readChars
  split
  · obtain ⟨c, _, heq, hc⟩ := h
    obtain ⟨rfl, -⟩ := List.cons.inj heq
    exact absurd (by decide) hc
  · rw [hskip]
    cases readValue nestingLimit (2 * cs.length + 1) cs with
    | error refusal => rfl
    | ok read =>
        simp only [bind, Except.bind]
        generalize skipSpace read.2 = left
        cases left with
        | nil => rfl
        | cons c rest => rfl

/-- **The reader undoes the writer**, in both layouts, for values that documents hold and
that nest no deeper than the reader goes. -/
theorem read_write (layout : Layout) {v : Value} (h : Fits Faithful nestingLimit v) :
    ∃ text, write layout v = .ok text ∧ read text = .ok v := by
  obtain ⟨cs, hwrite, hopens, hreads⟩ := @returns_of_fits layout v nestingLimit 0 h
  have hread := hreads (2 * cs.length + 1) [] (by omega) fun _ hc => nomatch hc
  rw [List.append_nil] at hread
  refine ⟨String.ofList cs, ?_, ?_⟩
  · simp only [write, hwrite, bind, Except.bind]
    rfl
  · unfold read
    rw [String.toList_ofList, readChars_of_opens hopens, hread]
    rfl

end Workflow.Json
