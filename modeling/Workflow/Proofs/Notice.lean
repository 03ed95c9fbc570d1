import Workflow.Notice
import Workflow.Proofs.Value.Equality

/-!
# Where notices go

A notice is known by the number it got when it was posted, and from then on it is in one of
three places: it waits in the queue, it was fetched with others, or it was dismissed.
`Dealings` keeps what was asked of a queue next to what the queue replied, so that the places
can be counted for each number. The counts add up to one for every number given and to nought
for every other (`Accounted.place`), which no single call changes (`Accounted.ask`).

Calls are taken in the order in which they take effect: what a listener asks of the queue
when it hears of a notice comes after the notice was posted. A listener that raises then
keeps the number from whoever posted the notice, but the notice waits under it all the same.

The headline is `notices_in_one_place`.
-/

namespace Workflow

theorem Number.int_inj_of_eq {x : Number} {m n : Int} (hm : x.eq (.int m) = true)
    (hn : x.eq (.int n) = true) : m = n := by
  obtain ⟨v, hx, hm⟩ := Number.eq_iff.mp hm
  obtain ⟨w, hx', hn⟩ := Number.eq_iff.mp hn
  obtain rfl := Option.some.inj (hx.symm.trans hx')
  have hsame : ExtendedRat.ofRat m = ExtendedRat.ofRat n := Option.some.inj (hm.trans hn.symm)
  exact_mod_cast le_antisymm (ExtendedRat.ofRat_le_ofRat.mp hsame.le)
    (ExtendedRat.ofRat_le_ofRat.mp hsame.ge)

theorem Value.int_inj_of_equals {v : Value} {m n : Int} (hm : v.equals (.int m) = true)
    (hn : v.equals (.int n) = true) : m = n := by
  cases v with
  | null | text _ | list _ | record _ => cases hm
  | bool b => exact Number.int_inj_of_eq hm hn
  | number x =>
      have heq : ∀ k : Int, (Value.number x).equals (.int k) = x.eq (.int k) := fun k => by
        show x.same (.int k) = _
        unfold Number.same
        cases x.isNamedNaN <;> simp [Number.isNamedNaN]
      rw [heq] at hm hn
      exact Number.int_inj_of_eq hm hn

/-! ## Calls and replies -/

/-- What can be asked of a queue of notices. -/
inductive NoticeCall
  | post (level : Level) (message : String) (duration : Value)
  | dismiss (id : Value)
  | drain

/-- What a queue replies: the number of a notice, whether there was one, or all that
waited. -/
inductive NoticeReply
  | number (id : Nat)
  | dismissed (found : Bool)
  | fetched (notices : List Notice)

/-- What a notice says, apart from its number. -/
def Notice.content (n : Notice) : Level × String × Value := (n.level, n.message, n.duration)

def NoticeCall.content? : NoticeCall → Option (Level × String × Value)
  | .post level message duration => some (level, message, duration)
  | _ => none

def NoticeReply.number? : NoticeReply → Option Nat
  | .number id => some id
  | _ => none

def NoticeReply.fetched? : NoticeReply → Option (List Notice)
  | .fetched notices => some notices
  | _ => none

/-- Whether a call was one to dismiss the notice of a number, and there was such a notice. -/
def Withdraws (id : Nat) : NoticeCall × NoticeReply → Bool
  | (.dismiss v, .dismissed true) => v.equals (.int id)
  | _ => false

def NoticeQueue.respond (q : NoticeQueue) : NoticeCall → NoticeReply × NoticeQueue
  | .post level message duration => (q.post level message duration).map .number id
  | .dismiss v => (q.dismiss v).map .dismissed id
  | .drain => q.drain.map .fetched id

/-- What was asked of a queue with its replies, and the queue after it. -/
structure Dealings where
  log : List (NoticeCall × NoticeReply)
  queue : NoticeQueue

namespace Dealings

/-- With a queue that nothing was asked of yet. -/
def start : Dealings := ⟨[], .empty⟩

def ask (d : Dealings) (call : NoticeCall) : Dealings :=
  ⟨d.log ++ [(call, (d.queue.respond call).1)], (d.queue.respond call).2⟩

def askAll (calls : List NoticeCall) : Dealings := calls.foldl ask start

/-- The numbers given, in the order in which they were given. -/
def numbers (d : Dealings) : List Nat := d.log.filterMap (·.2.number?)

def posted (d : Dealings) : List (Level × String × Value) := d.log.filterMap (·.1.content?)

/-- What was fetched, in the order of the calls that fetched it. -/
def fetched (d : Dealings) : List (List Notice) := d.log.filterMap (·.2.fetched?)

/-- How many calls fetched the notice of a number. -/
def fetches (d : Dealings) (id : Nat) : Nat := d.fetched.countP fun l => l.any (·.id = id)

/-- How many calls dismissed the notice of a number. -/
def dismissals (d : Dealings) (id : Nat) : Nat := d.log.countP (Withdraws id)

def waiting (d : Dealings) (id : Nat) : Nat := d.queue.pending.countP (·.id = id)

theorem log_askAll (calls : List NoticeCall) : (askAll calls).log.map (·.1) = calls := by
  have hfrom : ∀ (calls : List NoticeCall) (d : Dealings),
      (calls.foldl ask d).log.map (·.1) = d.log.map (·.1) ++ calls := by
    intro calls
    induction calls with
    | nil => exact fun d => (List.append_nil _).symm
    | cons call calls ih =>
        intro d
        rw [List.foldl_cons, ih, ask, List.map_append, List.append_assoc]
        rfl
  exact hfrom calls start

theorem posted_askAll (calls : List NoticeCall) :
    (askAll calls).posted = calls.filterMap NoticeCall.content? := by
  conv_rhs => rw [← log_askAll calls, List.filterMap_map]
  rfl

/-! ## One call more -/

section

variable (d : Dealings) (call : NoticeCall)

theorem numbers_ask :
    (d.ask call).numbers = d.numbers ++ (d.queue.respond call).1.number?.toList := by
  rw [numbers, ask, List.filterMap_append, ← numbers]
  cases h : (d.queue.respond call).1.number? <;> simp [h]

theorem posted_ask : (d.ask call).posted = d.posted ++ call.content?.toList := by
  rw [posted, ask, List.filterMap_append, ← posted]
  cases h : call.content? <;> simp [h]

theorem fetched_ask :
    (d.ask call).fetched = d.fetched ++ (d.queue.respond call).1.fetched?.toList := by
  rw [fetched, ask, List.filterMap_append, ← fetched]
  cases h : (d.queue.respond call).1.fetched? <;> simp [h]

theorem dismissals_ask (id : Nat) :
    (d.ask call).dismissals id = d.dismissals id
      + if Withdraws id (call, (d.queue.respond call).1) then 1 else 0 := by
  rw [dismissals, ask, List.countP_append, List.countP_singleton, ← dismissals]

end

/-! ## Every number has one place -/

/-- All numbers are accounted for. -/
structure Accounted (d : Dealings) : Prop where
  numbers : d.numbers = List.range d.queue.issued
  length_posted : d.posted.length = d.queue.issued
  inOrder : ∀ l ∈ d.queue.pending :: d.fetched, l.Pairwise (·.id < ·.id)
  asPosted : ∀ l ∈ d.queue.pending :: d.fetched, ∀ n ∈ l, d.posted[n.id]? = some n.content
  place : ∀ id, d.fetches id + d.dismissals id + d.waiting id
    = if id < d.queue.issued then 1 else 0

theorem accounted_start : start.Accounted where
  numbers := rfl
  length_posted := rfl
  inOrder l hl := by
    obtain rfl := List.mem_singleton.mp hl
    exact .nil
  asPosted l hl n hn := by
    obtain rfl := List.mem_singleton.mp hl
    cases hn
  place id := (if_neg (Nat.not_lt_zero id)).symm

variable {d : Dealings}

theorem Accounted.id_lt (h : d.Accounted) {n : Notice} (hn : n ∈ d.queue.pending) :
    n.id < d.queue.issued := by
  have hposted := h.asPosted _ List.mem_cons_self n hn
  rw [← h.length_posted]
  exact (List.getElem?_eq_some_iff.mp hposted).1

theorem Accounted.post (h : d.Accounted) (level : Level) (message : String)
    (duration : Value) :
    (d.ask (.post level message duration)).Accounted := by
  have hfetched : (d.ask (.post level message duration)).fetched = d.fetched :=
    (d.fetched_ask _).trans (List.append_nil _)
  have hposted : (d.ask (.post level message duration)).posted
      = d.posted ++ [(level, message, duration)] := d.posted_ask _
  have hpending : (d.ask (.post level message duration)).queue.pending
      = d.queue.pending ++ [⟨d.queue.issued, level, message, duration⟩] := rfl
  have hissued : (d.ask (.post level message duration)).queue.issued = d.queue.issued + 1 := rfl
  refine ⟨?_, ?_, ?_, ?_, ?_⟩
  · rw [numbers_ask, h.numbers, hissued, List.range_succ]
    rfl
  · rw [hposted, hissued, List.length_append, h.length_posted, List.length_singleton]
  · rw [hpending, hfetched]
    refine List.forall_mem_cons.mpr ⟨?_, (List.forall_mem_cons.mp h.inOrder).2⟩
    refine List.pairwise_append.mpr ⟨(List.forall_mem_cons.mp h.inOrder).1, ?_, ?_⟩
    · exact List.pairwise_singleton _ _
    · intro n hn m hm
      obtain rfl := List.mem_singleton.mp hm
      exact h.id_lt hn
  · have hkept : ∀ l ∈ d.queue.pending :: d.fetched, ∀ n ∈ l,
        (d.posted ++ [(level, message, duration)])[n.id]? = some n.content := by
      intro l hl n hn
      have hfound := h.asPosted l hl n hn
      rw [List.getElem?_append_left (List.getElem?_eq_some_iff.mp hfound).1, hfound]
    rw [hpending, hfetched, hposted]
    refine List.forall_mem_cons.mpr ⟨?_, (List.forall_mem_cons.mp hkept).2⟩
    intro n hn
    rcases List.mem_append.mp hn with hold | hnew
    · exact hkept _ List.mem_cons_self n hold
    · obtain rfl := List.mem_singleton.mp hnew
      rw [← h.length_posted, List.getElem?_concat_length]
      rfl
  · intro id
    have hplace := h.place id
    have hdismissals : (d.ask (.post level message duration)).dismissals id = d.dismissals id :=
      d.dismissals_ask _ id
    have hwaiting : (d.ask (.post level message duration)).waiting id
        = d.waiting id + if d.queue.issued = id then 1 else 0 := by
      simp only [waiting, hpending, List.countP_append, List.countP_singleton, decide_eq_true_eq]
    rw [fetches, hfetched, ← fetches, hdismissals, hwaiting, hissued]
    split at hplace <;> split <;> split <;> omega

theorem Accounted.dismiss (h : d.Accounted) (v : Value) :
    (d.ask (.dismiss v)).Accounted := by
  have hfetched : (d.ask (.dismiss v)).fetched = d.fetched :=
    (d.fetched_ask _).trans (List.append_nil _)
  have hposted : (d.ask (.dismiss v)).posted = d.posted :=
    (d.posted_ask _).trans (List.append_nil _)
  have hpending : (d.ask (.dismiss v)).queue.pending
      = d.queue.pending.eraseP (NoticeQueue.isNumberOf v) := rfl
  have hissued : (d.ask (.dismiss v)).queue.issued = d.queue.issued := rfl
  have hsublist : (d.queue.pending.eraseP (NoticeQueue.isNumberOf v)).Sublist d.queue.pending :=
    List.eraseP_sublist
  refine ⟨?_, ?_, ?_, ?_, ?_⟩
  · rw [numbers_ask, h.numbers, hissued]
    exact List.append_nil _
  · rw [hposted, hissued, h.length_posted]
  · rw [hpending, hfetched]
    obtain ⟨hwaiting, hrest⟩ := List.forall_mem_cons.mp h.inOrder
    exact List.forall_mem_cons.mpr ⟨hwaiting.sublist hsublist, hrest⟩
  · rw [hpending, hfetched, hposted]
    obtain ⟨hwaiting, hrest⟩ := List.forall_mem_cons.mp h.asPosted
    exact List.forall_mem_cons.mpr ⟨fun n hn => hwaiting n (hsublist.subset hn), hrest⟩
  · intro id
    have hmoved : (d.ask (.dismiss v)).dismissals id + (d.ask (.dismiss v)).waiting id
        = d.dismissals id + d.waiting id := by
      rw [dismissals_ask, waiting, hpending, waiting]
      by_cases hfound : d.queue.pending.any (NoticeQueue.isNumberOf v) = true
      · have hreply : (d.queue.respond (.dismiss v)).1 = .dismissed true :=
          congrArg NoticeReply.dismissed hfound
        obtain ⟨n, hn, hnumber⟩ := List.any_eq_true.mp hfound
        obtain ⟨m, before, after, -, hm, hsplit, herase⟩ := List.exists_of_eraseP hn hnumber
        have hthis : Withdraws id (.dismiss v, .dismissed true) = decide (m.id = id) := by
          refine Bool.eq_iff_iff.mpr ⟨fun hv => decide_eq_true ?_, fun hid => ?_⟩
          · exact_mod_cast Value.int_inj_of_equals hm hv
          · exact of_decide_eq_true hid ▸ hm
        rw [hreply, hthis, herase, hsplit]
        simp only [List.countP_append, List.countP_cons]
        omega
      · have hreply : (d.queue.respond (.dismiss v)).1 = .dismissed false :=
          congrArg NoticeReply.dismissed (Bool.eq_false_iff.mpr hfound)
        have hnone : ∀ n ∈ d.queue.pending, ¬ NoticeQueue.isNumberOf v n = true :=
          fun n hn hv => hfound (List.any_eq_true.mpr ⟨n, hn, hv⟩)
        rw [hreply, List.eraseP_of_forall_not hnone]
        rfl
    rw [fetches, hfetched, ← fetches, hissued, Nat.add_assoc, hmoved, ← Nat.add_assoc]
    exact h.place id

theorem Accounted.drain (h : d.Accounted) : (d.ask .drain).Accounted := by
  have hfetched : (d.ask .drain).fetched = d.fetched ++ [d.queue.pending] := d.fetched_ask _
  have hposted : (d.ask .drain).posted = d.posted := (d.posted_ask _).trans (List.append_nil _)
  have hpending : (d.ask .drain).queue.pending = [] := rfl
  have hissued : (d.ask .drain).queue.issued = d.queue.issued := rfl
  have hlists : ∀ {p : List Notice → Prop}, p [] → (∀ l ∈ d.queue.pending :: d.fetched, p l) →
      ∀ l ∈ (d.ask .drain).queue.pending :: (d.ask .drain).fetched, p l := by
    intro p hempty hold
    obtain ⟨hwaiting, hrest⟩ := List.forall_mem_cons.mp hold
    rw [hpending, hfetched]
    exact List.forall_mem_cons.mpr
      ⟨hempty, List.forall_mem_append.mpr ⟨hrest, List.forall_mem_singleton.mpr hwaiting⟩⟩
  refine ⟨?_, ?_, hlists .nil h.inOrder, ?_, ?_⟩
  · rw [numbers_ask, h.numbers, hissued]
    exact List.append_nil _
  · rw [hposted, hissued, h.length_posted]
  · rw [hposted]
    exact hlists nofun h.asPosted
  · intro id
    have hplace := h.place id
    have hdismissals : (d.ask .drain).dismissals id = d.dismissals id := d.dismissals_ask _ id
    have hfetches : (d.ask .drain).fetches id
        = d.fetches id + if d.queue.pending.any (·.id = id) then 1 else 0 := by
      rw [fetches, hfetched, List.countP_append, List.countP_singleton, ← fetches]
    have hwaiting : (d.ask .drain).waiting id = 0 := rfl
    -- A number waits at most once, so that fetching it counts as often as it waited.
    have honce : (if d.queue.pending.any (·.id = id) then 1 else 0) = d.waiting id := by
      have hsome : d.queue.pending.any (·.id = id) = true ↔ 0 < d.waiting id := by
        rw [waiting, List.countP_pos_iff, List.any_eq_true]
      have hatMost : d.waiting id ≤ 1 := by split at hplace <;> omega
      by_cases hany : d.queue.pending.any (·.id = id) = true
      · have hpos := hsome.mp hany
        rw [if_pos hany]
        omega
      · have hzero := mt hsome.mpr hany
        rw [if_neg hany]
        omega
    rw [hfetches, hdismissals, honce, hwaiting, hissued]
    omega

/-- **Whatever is asked next, all numbers stay accounted for.** -/
theorem Accounted.ask (h : d.Accounted) (call : NoticeCall) : (d.ask call).Accounted := by
  cases call with
  | post level message duration => exact h.post level message duration
  | dismiss v => exact h.dismiss v
  | drain => exact h.drain

theorem accounted_askAll (calls : List NoticeCall) : (askAll calls).Accounted :=
  List.foldlRecOn calls _ accounted_start fun _ h call _ => h.ask call

/-- **Every notice is in one place.** Whatever is asked of a queue, the numbers it gave are
those from zero on in order, and each of them was fetched by one call, or dismissed by one
call, or waits once. What waits and what was fetched by one call stands in the order of the
numbers, and under each number stands what was posted for it. -/
theorem notices_in_one_place (calls : List NoticeCall) :
    (askAll calls).numbers = List.range (askAll calls).queue.issued
      ∧ (∀ id, (askAll calls).fetches id + (askAll calls).dismissals id + (askAll calls).waiting id
          = if id ∈ (askAll calls).numbers then 1 else 0)
      ∧ ∀ l ∈ (askAll calls).queue.pending :: (askAll calls).fetched,
          l.Pairwise (·.id < ·.id)
            ∧ ∀ n ∈ l, (calls.filterMap NoticeCall.content?)[n.id]?
                = some (n.level, n.message, n.duration) := by
  have h := accounted_askAll calls
  refine ⟨h.numbers, fun id => ?_, fun l hl => ⟨h.inOrder l hl, ?_⟩⟩
  · simp only [h.numbers, List.mem_range]
    exact h.place id
  · rw [← posted_askAll]
    exact h.asPosted l hl

end Dealings
end Workflow
