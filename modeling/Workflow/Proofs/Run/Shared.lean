import Workflow.Proofs.Run.Alone
import Workflow.Proofs.Run.Surroundings

/-!
# Runs that share an executor

Calls of one executor stand still at their signals, and whatever is resumed next goes on from
its signal to the following one at once. So the calls of an executor are interleaved signal
by signal: a move makes a new call or resumes an earlier one (`Shared.move`). A run within
which calls are made is one of the interleavings (`Environment.OnlyCalls.interleaved`).

The executor is held by a run from its announcement until it is closed, and what is between
the test for the flag and setting it is one move. The invariant (`Orderly`) is that the flag
is set just if one call holds the executor, and that each call is still going to end as it
would alone on the executor that it found. Resuming the holder changes the executor, and all
others are settled or were refused; resuming one of these changes nothing.

The headline is `Shared.each_as_alone`.
-/

namespace Workflow

/-- A call of an executor: what is to be run, the executor as the call found it, and where
its run stands. -/
structure Call where
  plan : Graph
  found : Executor
  turn : Turn

/-- An executor with the calls made of it, in the order in which they were made. -/
structure Shared where
  executor : Executor
  calls : List Call

def Call.NoneHolds (calls : List Call) : Prop := ∀ call ∈ calls, call.turn.holds = false

theorem Call.noneHolds_iff {calls : List Call} :
    NoneHolds calls ↔ calls.countP (·.turn.holds) = 0 := by
  unfold NoneHolds
  simp only [List.countP_eq_zero, Bool.not_eq_true]

/-- What happens next to an executor: it is called, or the call at a place is resumed. -/
inductive Move
  | call (plan : Graph)
  | resume (place : Nat)
  deriving DecidableEq

/-- Goes on from a signal to the next one. What is over stays over. -/
def Turn.resume (e : Executor) : Turn → Executor × Turn
  | .waits _ r => r.resume e
  | .ends ending => (e, .ends ending)

namespace Shared

def called (s : Shared) (plan : Graph) : Shared :=
  let opened := Run.start plan s.executor
  ⟨opened.1, s.calls ++ [⟨plan, s.executor, opened.2⟩]⟩

def resumed (s : Shared) (place : Nat) (call : Call) : Shared :=
  let next := call.turn.resume s.executor
  ⟨next.1, s.calls.set place { call with turn := next.2 }⟩

def move (s : Shared) : Move → Shared
  | .call plan => s.called plan
  | .resume place => (s.calls[place]?).elim s (s.resumed place)

def after (s : Shared) (moves : List Move) : Shared := moves.foldl move s

end Shared

/-! ## One step of a run that has the executor -/

/-- After a step that a run made which had the executor: the flag says whether it still has
it, and the capacity is the same. -/
structure Grips (e : Executor) (stage : Executor × Turn) : Prop where
  executing : stage.1.executing = stage.2.holds
  capacity : stage.1.capacity = e.capacity

namespace Grips

variable {e : Executor}

theorem of_conclude (r : Run) (e : Executor) : Grips e (r.conclude e) := ⟨rfl, rfl⟩

variable (hbusy : e.executing = true) (r : Run)
include hbusy

theorem of_noteSystem (status : LogStatus) (message : String) {stage : Stage}
    (hopen : stage.settled? = none) : Grips e (r.noteSystem e status message stage) := by
  refine ⟨hbusy.trans ?_, rfl⟩
  show true = stage.settled?.isNone
  rw [hopen]
  rfl

theorem of_stop : Grips e (r.stop e) := of_noteSystem hbusy _ _ _ rfl

theorem of_take (w : Work) (queue : List Work) (starts : List Node) :
    Grips e (r.take e w queue starts) := by
  unfold Run.take
  split
  · exact of_stop hbusy r
  · split
    · exact ⟨hbusy, rfl⟩
    · exact ⟨hbusy, rfl⟩

theorem of_walk (queue : List Work) (starts : List Node) :
    Grips e (r.walk e queue starts) := by
  cases queue with
  | cons w queue => exact of_take hbusy r w queue starts
  | nil =>
      cases starts with
      | cons n starts => exact of_take hbusy r _ [] starts
      | nil => exact of_conclude r e

theorem of_refuse (defects : List Defect) : Grips e (r.refuse e defects) := by
  cases defects with
  | cons d rest => exact of_noteSystem hbusy r _ _ rfl
  | nil => exact of_conclude _ e

theorem of_warn (warnings : List Warning) : Grips e (r.warn e warnings) := by
  cases warnings with
  | cons w rest => exact of_noteSystem hbusy r _ _ rfl
  | nil =>
      show Grips e (if r.plan.report.valid = true then _ else _)
      split
      · exact of_walk hbusy r [] _
      · exact of_refuse hbusy r _

theorem of_leave (w : Work) (o : Outcome) (queue : List Work) (starts : List Node) :
    Grips e (r.leave e w o queue starts) := by
  unfold Run.leave
  split
  · exact ⟨hbusy, rfl⟩
  · exact of_walk hbusy r _ starts

/-- **One step** of a run that has the executor. -/
theorem of_resume (hopen : r.stage.settled? = none) : Grips e (r.resume e) := by
  unfold Run.resume
  split
  · exact of_warn hbusy r _
  · exact of_warn hbusy r _
  · exact of_refuse hbusy r _
  · exact of_walk hbusy r _ _
  · split
    · exact of_stop hbusy r
    · exact ⟨hbusy, rfl⟩
  · exact ⟨hbusy, rfl⟩
  · exact ⟨hbusy, rfl⟩
  · exact of_leave hbusy r _ _ _ _
  · exact of_conclude r e
  · rename_i hstage
    rw [hstage] at hopen
    cases hopen

end Grips

/-! ## One move -/

/-- A step of a call. One that has the executor may change it; any other ends, or stays where
it is, and leaves the executor alone. -/
theorem Turn.resume_of_holds {t : Turn} {e : Executor} (h : t.holds = true)
    (hbusy : e.executing = true) : Grips e (t.resume e) := by
  cases t with
  | ends ending => cases h
  | waits signal r => exact Grips.of_resume hbusy r (Option.isNone_iff_eq_none.mp h)

theorem Turn.resume_of_not_holds {t : Turn} (h : t.holds = false) (e : Executor) :
    (t.resume e).1 = e ∧ (t.resume e).2.holds = false := by
  obtain ⟨ending, hsettled⟩ := Option.isSome_iff_exists.mp (Option.isNone_eq_false_iff.mp h)
  cases t with
  | ends ending' => exact ⟨rfl, rfl⟩
  | waits signal r =>
      show (r.resume e).1 = e ∧ (r.resume e).2.holds = false
      rw [Run.resume_of_settled hsettled]
      exact ⟨rfl, rfl⟩

theorem Turn.runOut_resume (t : Turn) (e : Executor) :
    runOut (t.resume e) = runOut (e, t) := by
  cases t with
  | ends ending => rfl
  | waits signal r => exact (runOut_waits e signal r).symm

theorem Turn.work_resume_le (t : Turn) (e : Executor) :
    (t.resume e).2.work ≤ t.work - 1 := by
  cases t with
  | ends ending => exact Nat.zero_le _
  | waits signal r => exact Nat.le_of_lt_succ (r.resume_work e)

theorem Run.start_of_busy (g : Graph) {e : Executor} (hbusy : e.executing = true) :
    start g e = (e, .ends (.returned ⟨.busy, [], e.logs, none, none⟩)) := if_pos hbusy

namespace Shared

/-- What holds of an executor and its calls however these are interleaved. -/
structure Orderly (bound : Option Nat) (s : Shared) : Prop where
  holders : s.calls.countP (·.turn.holds) = s.executor.executing.toNat
  capacity : s.executor.capacity = bound
  found : ∀ call ∈ s.calls, call.found.capacity = bound
  alone : ∀ call ∈ s.calls, (runOut (s.executor, call.turn)).1 = (call.plan.run call.found).1

namespace Orderly

variable {bound : Option Nat} {s : Shared}

theorem empty {e : Executor} (hidle : e.executing = false) : Orderly e.capacity ⟨e, []⟩ :=
  ⟨by rw [hidle]; rfl, rfl, List.forall_mem_nil _, List.forall_mem_nil _⟩

theorem free (h : Orderly bound s) (hidle : s.executor.executing = false) :
    Call.NoneHolds s.calls := by
  have hnone := h.holders
  rw [hidle] at hnone
  exact Call.noneHolds_iff.mpr hnone

theorem called (h : Orderly bound s) (plan : Graph) : Orderly bound (s.called plan) := by
  have hnew : (runOut (Run.start plan s.executor)).1 = (plan.run s.executor).1 := rfl
  unfold Shared.called
  cases hbusy : s.executor.executing with
  | true =>
      have hcount := h.holders
      rw [hbusy] at hcount
      rw [Run.start_of_busy plan hbusy] at hnew ⊢
      refine ⟨?_, h.capacity, ?_, ?_⟩
      · rw [List.countP_append, hcount, hbusy]
        rfl
      · exact List.forall_mem_append.mpr ⟨h.found, List.forall_mem_singleton.mpr h.capacity⟩
      · exact List.forall_mem_append.mpr ⟨h.alone, List.forall_mem_singleton.mpr hnew⟩
  | false =>
      have hfree := h.free hbusy
      have hcount := h.holders
      rw [hbusy] at hcount
      rw [Run.start_of_idle plan hbusy] at hnew ⊢
      refine ⟨?_, h.capacity, ?_, ?_⟩
      · rw [List.countP_append, hcount]
        rfl
      · exact List.forall_mem_append.mpr ⟨h.found, List.forall_mem_singleton.mpr h.capacity⟩
      · refine List.forall_mem_append.mpr ⟨fun call hcall => ?_, List.forall_mem_singleton.mpr hnew⟩
        rw [runOut_of_not_holds (hfree call hcall) _ s.executor]
        exact h.alone call hcall

section

variable {before behind : List Call} {call : Call} (hcalls : s.calls = before ++ call :: behind)
include hcalls

theorem only (h : Orderly bound s) (hholds : call.turn.holds = true) :
    s.executor.executing = true ∧ Call.NoneHolds (before ++ behind) := by
  have hcount := h.holders
  rw [hcalls, List.countP_append, List.countP_cons, if_pos hholds] at hcount
  cases hbusy : s.executor.executing with
  | false =>
      rw [hbusy] at hcount
      cases hcount
  | true =>
      rw [hbusy] at hcount
      have hone : before.countP (·.turn.holds) + (behind.countP (·.turn.holds) + 1) = 1 := hcount
      refine ⟨rfl, Call.noneHolds_iff.mpr ?_⟩
      rw [List.countP_append]
      omega

theorem runOut_other (h : Orderly bound s) :
    ∀ other ∈ before ++ behind,
      (runOut ((call.turn.resume s.executor).1, other.turn)).1
        = (other.plan.run other.found).1 := by
  intro other hother
  have hmem : other ∈ s.calls := by
    rw [hcalls]
    rcases List.mem_append.mp hother with hbefore | hbehind
    · exact List.mem_append_left _ hbefore
    · exact List.mem_append_right _ (List.mem_cons_of_mem _ hbehind)
  rw [← h.alone other hmem]
  cases hholds : call.turn.holds with
  | true => exact runOut_of_not_holds ((h.only hcalls hholds).2 other hother) _ _
  | false => rw [(Turn.resume_of_not_holds hholds s.executor).1]

/-- The flag says whether the call resumed still has the executor, if it had it. -/
theorem holders_resume (h : Orderly bound s) :
    (before ++ { call with turn := (call.turn.resume s.executor).2 } :: behind).countP
        (·.turn.holds)
      = (call.turn.resume s.executor).1.executing.toNat := by
  rw [List.countP_append, List.countP_cons]
  cases hholds : call.turn.holds with
  | true =>
      obtain ⟨hbusy, hothers⟩ := h.only hcalls hholds
      have hnone := Call.noneHolds_iff.mp hothers
      rw [List.countP_append] at hnone
      rw [(Turn.resume_of_holds hholds hbusy).executing, ← Nat.add_assoc, hnone, Nat.zero_add]
      dsimp only
      cases (call.turn.resume s.executor).2.holds <;> rfl
  | false =>
      obtain ⟨hsame, hstill⟩ := Turn.resume_of_not_holds hholds s.executor
      have hcount := h.holders
      rw [hcalls, List.countP_append, List.countP_cons, hholds] at hcount
      rw [hsame, hstill]
      exact hcount

end

theorem resumed (h : Orderly bound s) {place : Nat} {call : Call}
    (hplace : s.calls[place]? = some call) : Orderly bound (s.resumed place call) := by
  obtain ⟨hlt, hget⟩ := List.getElem?_eq_some_iff.mp hplace
  let next : Call := { call with turn := (call.turn.resume s.executor).2 }
  obtain ⟨before, behind, hcalls, hset⟩ : ∃ before behind, s.calls = before ++ call :: behind
      ∧ s.calls.set place next = before ++ next :: behind := by
    obtain ⟨before, behind, hcalls, -, hset⟩ := List.exists_of_set hlt
    exact ⟨before, behind, hget ▸ hcalls, hset⟩
  have hmem : call ∈ s.calls := List.mem_of_getElem? hplace
  have hothers := h.runOut_other hcalls
  have hfound := h.found
  rw [hcalls] at hfound
  rw [List.forall_mem_append] at hothers hfound
  unfold Shared.resumed
  dsimp only
  rw [hset]
  refine ⟨h.holders_resume hcalls, ?_, ?_, ?_⟩
  · cases hholds : call.turn.holds with
    | true => exact (Turn.resume_of_holds hholds (h.only hcalls hholds).1).capacity.trans h.capacity
    | false =>
        rw [(Turn.resume_of_not_holds hholds s.executor).1]
        exact h.capacity
  · rw [List.forall_mem_append, List.forall_mem_cons]
    exact ⟨hfound.1, h.found call hmem, fun other ho => hfound.2 other (List.mem_cons_of_mem _ ho)⟩
  · refine List.forall_mem_append.mpr ⟨hothers.1, List.forall_mem_cons.mpr ⟨?_, hothers.2⟩⟩
    rw [Turn.runOut_resume]
    exact h.alone call hmem

theorem move (h : Orderly bound s) (m : Move) : Orderly bound (s.move m) := by
  cases m with
  | call plan => exact h.called plan
  | resume place =>
      show Orderly bound ((s.calls[place]?).elim s (s.resumed place))
      cases hplace : s.calls[place]? with
      | none => exact h
      | some call => exact h.resumed hplace

/-- **However calls are interleaved**, the executor and its calls stay in order. -/
theorem after (h : Orderly bound s) (moves : List Move) : Orderly bound (s.after moves) := by
  induction moves generalizing s with
  | nil => exact h
  | cons m moves ih => exact ih (h.move m)

end Orderly
end Shared

/-! ## Calls made within a call -/

/-- The surroundings do nothing to the executor but call it and let calls of theirs go on. -/
def Environment.OnlyCalls {ω : Type} (env : Environment ω) (calls : ω → List Call) : Prop :=
  ∀ signal e w, (env.react signal e w).1 = .resume ∧ ∃ moves,
    Shared.after ⟨e, calls w⟩ moves = ⟨(env.react signal e w).2.1, calls (env.react signal e w).2.2⟩

/-- The same move when there is one call more before all others. -/
def Move.behind : Move → Move
  | .call plan => .call plan
  | .resume place => .resume (place + 1)

namespace Shared

theorem move_behind (e : Executor) (first : Call) (calls : List Call) (m : Move) :
    move ⟨e, first :: calls⟩ m.behind
      = ⟨(move ⟨e, calls⟩ m).executor, first :: (move ⟨e, calls⟩ m).calls⟩ := by
  cases m with
  | call plan => rfl
  | resume place =>
      unfold Move.behind move
      dsimp only
      rw [List.getElem?_cons_succ]
      cases calls[place]? <;> rfl

theorem after_behind (first : Call) :
    ∀ (moves : List Move) (e : Executor) (calls : List Call),
    after ⟨e, first :: calls⟩ (moves.map Move.behind)
      = ⟨(after ⟨e, calls⟩ moves).executor, first :: (after ⟨e, calls⟩ moves).calls⟩
  | [], _, _ => rfl
  | m :: moves, e, calls => by
      have hrest := after_behind first moves (move ⟨e, calls⟩ m).executor (move ⟨e, calls⟩ m).calls
      rw [← move_behind] at hrest
      exact hrest

theorem after_append (s : Shared) (moves further : List Move) :
    s.after (moves ++ further) = (s.after moves).after further := List.foldl_append

end Shared

/-- **A run within which calls are made is one of the interleavings**: the run is called, and
between its signals its surroundings make their moves. -/
theorem Environment.OnlyCalls.interleaved {ω : Type} {env : Environment ω}
    {calls : ω → List Call} (h : env.OnlyCalls calls) (g : Graph) (e : Executor) {w : ω}
    (hnone : calls w = []) :
    ∃ moves, Shared.after ⟨e, []⟩ (.call g :: moves)
      = ⟨(env.run g e w).2.1, ⟨g, e, .ends (env.run g e w).1⟩ :: calls (env.run g e w).2.2⟩ := by
  refine env.drive_keeps (P := fun e' w t => ∃ moves,
    Shared.after ⟨e, []⟩ (.call g :: moves) = ⟨e', ⟨g, e, t⟩ :: calls w⟩) ?_ _ w _ ⟨[], ?_⟩
  · rintro signal r e' w ⟨moves, hmoves⟩
    obtain ⟨hreply, further, hfurther⟩ := h signal e' w
    refine ⟨moves ++ (further.map Move.behind ++ [.resume 0]), ?_⟩
    rw [← List.cons_append, Shared.after_append, hmoves, Shared.after_append, Shared.after_behind,
      hfurther, hreply]
    rfl
  · rw [hnone]
    rfl

namespace Shared

/-! ## Calls that are resumed often enough -/

/-- A call as it is after a move: what it runs and the executor it found are the same. -/
theorem getElem?_move {s : Shared} {place : Nat} {call : Call}
    (hplace : s.calls[place]? = some call) (m : Move) : (s.move m).calls[place]?
      = some (if m = .resume place then { call with turn := (call.turn.resume s.executor).2 }
          else call) := by
  have hlt := (List.getElem?_eq_some_iff.mp hplace).1
  cases m with
  | call plan =>
      show (s.calls ++ [_])[place]? = _
      rw [List.getElem?_append_left hlt, hplace]
      rfl
  | resume place' =>
      show ((s.calls[place']?).elim s (s.resumed place')).calls[place]? = _
      by_cases hsame : place' = place
      · subst hsame
        rw [hplace, if_pos rfl]
        exact List.getElem?_set_self hlt
      · have hother : ¬ Move.resume place' = .resume place := fun h => hsame (Move.resume.inj h)
        rw [if_neg hother, ← hplace]
        cases s.calls[place']? with
        | none => rfl
        | some _ => exact List.getElem?_set_ne hsame

/-- A call that was resumed as often as it has signals left is over, whatever else happened
meanwhile. -/
theorem ends_of_resumed : ∀ {moves : List Move} {s : Shared} {place : Nat} {call : Call},
    s.calls[place]? = some call → call.turn.work ≤ moves.count (.resume place) →
      ∃ ending, (s.after moves).calls[place]? = some ⟨call.plan, call.found, .ends ending⟩
  | [], s, place, call, hplace, hwork => by
      obtain ⟨plan, found, turn⟩ := call
      cases turn with
      | waits signal r => cases hwork
      | ends ending => exact ⟨ending, hplace⟩
  | m :: moves, s, place, call, hplace, hwork => by
      have hnext := getElem?_move hplace m
      by_cases hresumed : m = .resume place
      · rw [if_pos hresumed] at hnext
        rw [hresumed, List.count_cons_self] at hwork
        have hrest := ends_of_resumed hnext
          (Nat.le_trans (call.turn.work_resume_le s.executor) (Nat.sub_le_of_le_add hwork))
        exact hrest
      · rw [if_neg hresumed] at hnext
        rw [List.count_cons_of_ne hresumed] at hwork
        have hrest := ends_of_resumed hnext hwork
        exact hrest

/-- **Calls that share an executor do not get in each other's way**, however they are
interleaved: one run has the executor while the flag is set and none while it is not, a call
that finds it set is refused and changes nothing, and any other, when it is resumed often
enough, returns what it would return alone on any idle executor of the capacity, but for
times. -/
theorem each_as_alone {e : Executor} (hidle : e.executing = false) (moves : List Move) :
    let s := after ⟨e, []⟩ moves
    s.calls.countP (·.turn.holds) = (if s.executor.executing then 1 else 0)
      ∧ (∀ plan, s.executor.executing = true → s.move (.call plan) = { s with
          calls := s.calls ++
            [⟨plan, s.executor, .ends (.returned ⟨.busy, [], s.executor.logs, none, none⟩)⟩] })
      ∧ ∀ (place : Nat) (call : Call) (e' : Executor), s.calls[place]? = some call →
        call.found.executing = false → e'.executing = false → e'.capacity = e.capacity →
          ∃ alone, (call.plan.run e').1 = .returned alone
            ∧ ∀ further : List Move, call.turn.work ≤ further.count (.resume place) →
              ∃ result, (s.after further).calls[place]?
                  = some ⟨call.plan, call.found, .ends (.returned result)⟩
                ∧ result.SameButTimes alone := by
  intro s
  have horderly : Orderly e.capacity s := (Orderly.empty hidle).after moves
  refine ⟨?_, fun plan hbusy => ?_, ?_⟩
  · rw [horderly.holders]
    cases s.executor.executing <;> rfl
  · show s.called plan = _
    unfold called
    rw [Run.start_of_busy plan hbusy]
  · intro place call e' hplace hfound hidle' hcapacity
    have hsame := hcapacity.trans (horderly.found call (List.mem_of_getElem? hplace)).symm
    obtain ⟨result, alone, hresult, halone, hbut⟩ :=
      call.plan.sameButTimes_run hfound hidle' hsame.symm
    refine ⟨alone, halone, fun further hoften => ?_⟩
    obtain ⟨ending, hends⟩ := ends_of_resumed hplace hoften
    have hending := (horderly.after further).alone _ (List.mem_of_getElem? hends)
    rw [runOut_ends, hresult] at hending
    obtain rfl : ending = .returned result := hending
    exact ⟨result, hends, hbut⟩

/-- Of two calls the second is refused, and so is a third one before the first has gone on,
which returns all the same. -/
theorem first_as_alone_of_three :
    let first : Node := ⟨"first", .start, .origin, "Start", some (.start (.record []))⟩
    let last : Node := ⟨"last", .finish, .origin, "End", some (.finish (.text "End"))⟩
    let g : Graph := ⟨[first, last], [⟨"edge", "first", "last", .null, .null, .null, true⟩]⟩
    let e := Executor.idle (some 1) 0
    let s := after ⟨e, []⟩ [.call g, .call g]
    let call : Call := ⟨g, e, (Run.start g e).2⟩
    let further : List Move := .call g :: .replicate call.turn.work (.resume 0)
    s.calls.countP (·.turn.holds) = 1 ∧ (s.move (.call g)).executor = s.executor
      ∧ s.calls[0]? = some call
      ∧ ∃ alone result, (g.run e).1 = .returned alone ∧ alone.status ≠ .busy
        ∧ (s.after further).calls[0]? = some ⟨g, e, .ends (.returned result)⟩
        ∧ result.SameButTimes alone := by
  intro first last g e s call further
  obtain ⟨hone, hbusy, heach⟩ := each_as_alone (e := e) rfl [.call g, .call g]
  have hcall : s.calls[0]? = some call := rfl
  obtain ⟨alone, halone, hends⟩ := heach 0 call e hcall rfl rfl rfl
  have hother : Move.call g ≠ .resume 0 := nofun
  have hoften : further.count (.resume 0) = call.turn.work :=
    (List.count_cons_of_ne hother).trans List.count_replicate_self
  obtain ⟨result, hresult, hbut⟩ := hends further (Nat.le_of_eq hoften.symm)
  obtain ⟨alone', halone', hstatus, -, -⟩ := g.run_alone (e := e) rfl
  obtain rfl : alone = alone' := Ending.returned.inj (halone.symm.trans halone')
  have hsame : (s.move (.call g)).executor = s.executor := by rw [hbusy g rfl]
  refine ⟨hone, hsame, hcall, alone, result, halone, ?_, hresult, hbut⟩
  rw [hstatus]
  split <;> nofun

end Shared
end Workflow
