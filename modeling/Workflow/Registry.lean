import Workflow.Value.Basic

/-!
# Registries of listeners

Listeners register for events by name, as often as they like. Announcing an event calls those
registered at that moment in order; what they change in the registry meanwhile counts from
the next announcement on. A listener that raises keeps those after it from being called.

A listener may defer its answer: a suspended one does nothing until it is awaited, a pending
one acts at once and has only its answer awaited. Only an announcement that waits awaits
them; any other drops the suspended ones and reports a pending answer as such.
-/

namespace Workflow

/-- What a listener can do to the registry when it acts. -/
inductive RegistryChange
  | register (event listener : String)
  | unregister (event listener : String)
  /-- All registrations for an event, or for every event, are taken back. -/
  | clear (event : Option String)
  deriving DecidableEq, Repr

/-- When a listener acts and answers. -/
inductive Promptness
  | immediate
  /-- It acts and answers only when it is awaited. -/
  | suspended
  /-- It acts at once and answers when it is awaited. -/
  | pending
  deriving DecidableEq, Repr

/-- A listener: its identity, the name it is reported under, and how it behaves. -/
structure Listener where
  id : String
  name : String
  promptness : Promptness
  /-- What it does to the registry, in order. -/
  changes : List RegistryChange
  /-- What it answers, or the message with which it raises. -/
  answer : Except String Value
  deriving Repr

/-- The listeners of each event, by identity, in the order of registration. -/
structure Registry where
  entries : List (String × List String)
  deriving DecidableEq, Repr

namespace Registry

def empty : Registry := ⟨[]⟩

def listenersOf (r : Registry) (event : String) : List String :=
  (r.entries.lookup event).getD []

def assign (r : Registry) (event : String) (listeners : List String) : Registry :=
  ⟨(event, listeners) :: r.entries.filter (·.1 ≠ event)⟩

def register (r : Registry) (event listener : String) : Registry :=
  r.assign event (r.listenersOf event ++ [listener])

def unregister (r : Registry) (event listener : String) : Registry :=
  r.assign event ((r.listenersOf event).erase listener)

/-- Takes back all registrations for an event, or for every event if none is named. -/
def clear (r : Registry) : Option String → Registry
  | some event => r.assign event []
  | none => empty

def apply (r : Registry) : RegistryChange → Registry
  | .register event listener => r.register event listener
  | .unregister event listener => r.unregister event listener
  | .clear event => r.clear event

def applyAll (r : Registry) (changes : List RegistryChange) : Registry :=
  changes.foldl apply r

end Registry

/-- What a listener answered. -/
inductive Answer
  | value (v : Value)
  /-- The answer was not awaited. -/
  | unawaited
  deriving DecidableEq, Repr

/-- A call of a listener that came back. -/
structure Invocation where
  event : String
  listener : String
  answer : Answer
  deriving DecidableEq, Repr

/-- How an announcement ended: with the invocations, or with the message of the listener that
raised. -/
abbrev Announced := Except String (List Invocation)

/-- What an announcement gives: how it ended, the listeners called, those of them that acted,
and the registry after it. -/
structure Announcement where
  ending : Announced
  called : List String
  acted : List String
  registry : Registry
  deriving Repr

namespace Listener

/-- Whether a listener acts in an announcement that waits or does not wait. -/
def acts (l : Listener) (waits : Bool) : Bool := waits || l.promptness ≠ .suspended

/-- The answer of a listener in an announcement that waits or does not wait. -/
def answerIn (l : Listener) (waits : Bool) : Except String Answer :=
  match waits, l.promptness with
  | false, .suspended => .ok (.value .null)
  | false, .pending => .ok .unawaited
  | _, _ => l.answer.map .value

end Listener

namespace Registry

/-- Calls listeners in order. What they change in the registry has no part in the calls still
to be made. -/
def call (waits : Bool) (event : String) : List Listener → Registry → Announcement
  | [], r => ⟨.ok [], [], [], r⟩
  | l :: ls, r =>
    let acted := if l.acts waits then [l.id] else []
    let r := if l.acts waits then r.applyAll l.changes else r
    match l.answerIn waits with
    | .error message => ⟨.error message, [l.id], acted, r⟩
    | .ok answer =>
      let rest := call waits event ls r
      ⟨rest.ending.map (⟨event, l.name, answer⟩ :: ·), l.id :: rest.called, acted ++ rest.acted,
        rest.registry⟩

/-- Announces an event to its listeners, waiting for deferred answers or not. -/
def announce (r : Registry) (find? : String → Option Listener) (waits : Bool)
    (event : String) : Announcement :=
  call waits event ((r.listenersOf event).filterMap find?) r

end Registry
end Workflow
