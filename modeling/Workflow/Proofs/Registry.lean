import Workflow.Proofs.Fallible
import Workflow.Registry

/-!
# What an announcement calls

Listeners may change the registry while they are called. An announcement is not disturbed by
that: which listeners it calls was settled when it was made. Here are the two sides of it.
For every event a change of the registry is an edit of one list (`RegistryChange.on`), so
that all changes made on the way are found in the registry afterwards
(`Registry.listenersOf_applyAll`). And an announcement is a walk along a fixed list of calls,
up to the first that raises (`Registry.call_eq`).

The calls of an announcement are given by a list of listeners, one for each registration, so
that what is registered twice may behave in another way when it is called for the second
time.

The headline is `Registry.announces_registered`.
-/

namespace Workflow

/-- What a change of the registry makes of the listeners of an event. -/
def RegistryChange.on (event : String) (ids : List String) : RegistryChange → List String
  | .register e id => if e = event then ids ++ [id] else ids
  | .unregister e id => if e = event then ids.erase id else ids
  | .clear (some e) => if e = event then [] else ids
  | .clear none => []

namespace Registry

/-! ## Changes -/

/-- Where an event has a list of listeners, those of other events stay as they are. -/
theorem lookup_filter_ne {e event : String} (hne : event ≠ e) :
    ∀ entries : List (String × List String),
      (entries.filter (·.1 ≠ e)).lookup event = entries.lookup event
  | [] => rfl
  | (e', ids) :: entries => by
      have ih := lookup_filter_ne hne entries
      by_cases hdropped : e' = e
      · subst hdropped
        rw [List.filter_cons_of_neg (by simp), ih, List.lookup_cons, beq_false_of_ne hne]
      · rw [List.filter_cons_of_pos (by simpa using hdropped), List.lookup_cons,
          List.lookup_cons, ih]

theorem listenersOf_assign (r : Registry) (e event : String) (ids : List String) :
    (r.assign e ids).listenersOf event = if e = event then ids else r.listenersOf event := by
  unfold listenersOf assign
  by_cases hsame : e = event
  · subst hsame
    rw [if_pos rfl, List.lookup_cons, beq_self_eq_true]
    rfl
  · have hne := Ne.symm hsame
    rw [if_neg hsame, List.lookup_cons, beq_false_of_ne hne]
    dsimp only
    rw [lookup_filter_ne hne]

theorem listenersOf_apply (r : Registry) (c : RegistryChange) (event : String) :
    (r.apply c).listenersOf event = c.on event (r.listenersOf event) := by
  cases c with
  | register e id | unregister e id =>
      show (r.assign e _).listenersOf event = _
      rw [listenersOf_assign, RegistryChange.on]
      split
      · rename_i hsame
        rw [hsame]
      · rfl
  | clear e =>
      cases e with
      | none => rfl
      | some e => exact r.listenersOf_assign e event []

theorem listenersOf_applyAll (r : Registry) (changes : List RegistryChange) (event : String) :
    (r.applyAll changes).listenersOf event
      = changes.foldl (RegistryChange.on event) (r.listenersOf event) := by
  unfold applyAll
  induction changes generalizing r with
  | nil => rfl
  | cons c changes ih => rw [List.foldl_cons, ih, listenersOf_apply, List.foldl_cons]

end Registry

/-! ## Calls -/

namespace Listener

/-- Whether a listener raises in an announcement that waits or does not wait. -/
def raises (l : Listener) (waits : Bool) : Bool := !(l.answerIn waits).isOk

/-- The call of a listener that came back, unless it raises. -/
def invocation (l : Listener) (waits : Bool) (event : String) : Except String Invocation :=
  (l.answerIn waits).map (Invocation.mk event l.name)

/-- An announcement that waits is the same to a listener that answers at once. -/
theorem answerIn_of_immediate {l : Listener} (h : l.promptness = .immediate) (waits : Bool) :
    l.answerIn waits = l.answer.map .value := by
  unfold answerIn
  rw [h]
  cases waits <;> rfl

theorem acts_of_immediate {l : Listener} (h : l.promptness = .immediate) (waits : Bool) :
    l.acts waits = true := by
  unfold acts
  rw [h]
  cases waits <;> rfl

end Listener

namespace Registry

/-- The calls that are made: all up to the first that raises. -/
def reached (waits : Bool) (calls : List Listener) : List Listener :=
  calls.take (calls.findIdx (·.raises waits) + 1)

/-- The changes of those of the listeners that act. -/
def changesOf (waits : Bool) (calls : List Listener) : List RegistryChange :=
  (calls.filter (·.acts waits)).flatMap (·.changes)

theorem reached_cons (waits : Bool) (l : Listener) (ls : List Listener) :
    reached waits (l :: ls) = l :: if l.raises waits then [] else reached waits ls := by
  unfold reached
  rw [List.take_succ_cons, List.findIdx_cons]
  cases l.raises waits <;> rfl

theorem applyAll_append (r : Registry) (changes changes' : List RegistryChange) :
    r.applyAll (changes ++ changes') = (r.applyAll changes).applyAll changes' :=
  List.foldl_append

/-- **What the calls of an announcement give**, whatever they change in the registry on the
way. -/
theorem call_eq (waits : Bool) (event : String) : ∀ (calls : List Listener) (r : Registry),
    call waits event calls r
      = { ending := calls.mapM (·.invocation waits event)
          called := (reached waits calls).map (·.id)
          acted := ((reached waits calls).filter (·.acts waits)).map (·.id)
          registry := r.applyAll (changesOf waits (reached waits calls)) }
  | [], r => rfl
  | l :: ls, r => by
      have hacted : ∀ rest : List Listener, ((l :: rest).filter (·.acts waits)).map (·.id)
          = (if l.acts waits then [l.id] else []) ++ (rest.filter (·.acts waits)).map (·.id) := by
        intro rest
        by_cases hacts : l.acts waits = true <;> simp [hacts]
      have hchanged : ∀ rest : List Listener, r.applyAll (changesOf waits (l :: rest))
          = (if l.acts waits then r.applyAll l.changes else r).applyAll (changesOf waits rest) := by
        intro rest
        unfold changesOf
        by_cases hacts : l.acts waits = true <;> simp [hacts, applyAll_append]
      have hraises : l.raises waits = !(l.answerIn waits).isOk := rfl
      unfold call
      rw [reached_cons, hacted, hchanged, List.mapM_cons, Listener.invocation, hraises]
      cases l.answerIn waits with
      | error message => cases l.acts waits <;> rfl
      | ok answer =>
          dsimp only
          rw [call_eq waits event ls]
          cases ls.mapM (·.invocation waits event) <;> rfl

/-- To listeners that answer at once it is all the same whether the announcement waits. -/
theorem call_of_immediate {event : String} : ∀ {calls : List Listener} (r : Registry),
    (∀ l ∈ calls, l.promptness = .immediate) → call true event calls r = call false event calls r
  | [], _, _ => rfl
  | l :: ls, r, h => by
      obtain ⟨hl, hls⟩ := List.forall_mem_cons.mp h
      unfold call
      rw [Listener.acts_of_immediate hl, Listener.acts_of_immediate hl,
        Listener.answerIn_of_immediate hl, Listener.answerIn_of_immediate hl]
      dsimp only
      rw [call_of_immediate _ hls]

/-! ## Announcements -/

/-- **An announcement calls just the listeners that are registered when it is made**: each as
often as it is registered and in the order of the registrations, up to the first that raises.
What they change in the registry has no part in this, and all of it is found in the registry
afterwards. Where every listener answers at once, an announcement that waits and one that
does not are the same. -/
theorem announces_registered {r : Registry} {event : String} {calls : List Listener}
    (hcalls : calls.map (·.id) = r.listenersOf event) (waits : Bool) :
    (call waits event calls r).called
        = (r.listenersOf event).take (calls.findIdx (·.raises waits) + 1)
      ∧ (call waits event calls r).acted
        = ((reached waits calls).filter (·.acts waits)).map (·.id)
      ∧ (call waits event calls r).ending = calls.mapM (·.invocation waits event)
      ∧ (∀ e, (call waits event calls r).registry.listenersOf e
          = (changesOf waits (reached waits calls)).foldl (RegistryChange.on e) (r.listenersOf e))
      ∧ ((∀ l ∈ calls, l.promptness = .immediate) →
          call true event calls r = call false event calls r)
      ∧ ∀ find? : String → Option Listener, (∀ l ∈ calls, find? l.id = some l) →
          r.announce find? waits event = call waits event calls r := by
  rw [call_eq]
  refine ⟨?_, rfl, rfl, fun e => r.listenersOf_applyAll _ e, call_of_immediate r, ?_⟩
  · rw [← hcalls, ← List.map_take]
    rfl
  · intro find? hfind
    have hfound : (r.listenersOf event).filterMap find? = calls := by
      have hsome : ∀ l ∈ calls, (find? ∘ fun l => l.id) l = some l := hfind
      rw [← hcalls, List.filterMap_map, List.filterMap_congr hsome, List.filterMap_some]
    rw [announce, hfound, call_eq]

/-- Whoever is taken back on the way is called all the same, and whoever is registered on the
way is not; the last one is not called because another one raised. -/
theorem announces_registered_amid_changes :
    let edit : Listener := ⟨"edit", "edit", .immediate,
      [.unregister "change" "wipe", .register "change" "late"], .ok .null⟩
    let wipe : Listener := ⟨"wipe", "wipe", .suspended, [.clear none], .ok .null⟩
    let stop : Listener := ⟨"stop", "stop", .pending, [], .error "no"⟩
    let last : Listener := ⟨"last", "last", .immediate, [], .ok .null⟩
    let calls := [edit, wipe, edit, stop, last]
    let r := Registry.empty.applyAll (calls.map fun l => .register "change" l.id)
    calls.map (·.id) = r.listenersOf "change"
      ∧ (call true "change" calls r).called = ["edit", "wipe", "edit", "stop"]
      ∧ (call true "change" calls r).registry.listenersOf "change" = ["late"] := by
  intro edit wipe stop last calls r
  have hcalls : calls.map (·.id) = r.listenersOf "change" := by decide +kernel
  obtain ⟨hcalled, -, -, hregistry, -, -⟩ := announces_registered hcalls true
  refine ⟨hcalls, ?_, ?_⟩
  · rw [hcalled, ← hcalls]
    rfl
  · rw [hregistry "change", ← hcalls]
    decide +kernel

end Registry
end Workflow
