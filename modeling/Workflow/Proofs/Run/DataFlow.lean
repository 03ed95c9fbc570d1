import Workflow.Proofs.Execution.Outcome
import Workflow.Proofs.Run.Carriage

/-!
# What reaches a node from the start before it

A start node hands on its payload, whatever it received. Any other node hands on what it
received, but for the key it writes: a condition its result, and a transform its field
(`Node.HandsOn`). So along a path, what the last start node put under a key stays there
unless a later transform has this field (`Framed`).

`Graph.Travels` are the paths on which a run reaches its work, and `framed_of_travels` is the
induction over them. The headline is `packets_framed_along_paths`.
-/

namespace Workflow

/-! ## One node -/

namespace Node

def payload (n : Node) : Packet :=
  match n.config with
  | some (.start payload) => payload.toPacket
  | _ => []

/-- A transform whose field is the key. -/
inductive Sets (n : Node) (k : Key) : Prop
  | intro {operation field operand : Value} {name : Key}
      (config : n.config = some (.transform operation field operand))
      (named : Key.ofValue field = .ok name) (same : name.same k = true) : Sets n k

/-- What a node may make of the packet that it received. -/
inductive HandsOn (n : Node) (input : Packet) : Packet → Prop
  | payload {payload : Value} (config : n.config = some (.start payload)) :
      HandsOn n input payload.toPacket
  | input (other : ∀ payload, n.config ≠ some (.start payload)) : HandsOn n input input
  | result {field operator operand : Value}
      (config : n.config = some (.condition field operator operand)) (met : Bool) :
      HandsOn n input (input.set conditionKey (.bool met))
  | field {operation field operand : Value} {name : Key}
      (config : n.config = some (.transform operation field operand))
      (named : Key.ofValue field = .ok name) (v : Value) : HandsOn n input (input.set name v)

theorem HandsOn.unchanged {n : Node} {input : Packet} {c : Config}
    (hconfig : n.config = some c) (hkind : c.kind ≠ .start) : n.HandsOn input input := by
  refine .input fun payload hstart => hkind ?_
  rw [Option.some.inj (hconfig.symm.trans hstart)]
  rfl

theorem handsOn_of_applyTransform {n : Node} {operation field operand : Value}
    {input output : Packet} (hconfig : n.config = some (.transform operation field operand))
    (h : applyTransform operation field operand input = .ok output) :
    n.HandsOn input output := by
  unfold applyTransform at h
  obtain ⟨name, hnamed, h⟩ := bind_eq_ok.mp h
  split at h
  · obtain ⟨_, -, h⟩ := bind_eq_ok.mp h
    cases h
  · obtain ⟨new, -, h⟩ := bind_eq_ok.mp h
    cases new with
    | none =>
        obtain rfl := Except.ok.inj h
        exact .unchanged hconfig nofun
    | some v =>
        obtain rfl := Except.ok.inj h
        exact .field hconfig hnamed v

/-- Whether a node succeeds or fails, it hands on one of the packets of `HandsOn`. -/
theorem handsOn_executeNode (n : Node) (input : Packet) :
    n.HandsOn input (executeNode n input).output := by
  unfold executeNode
  cases hconfig : n.config with
  | none => exact .input fun payload => by rw [hconfig]; exact nofun
  | some config =>
      cases config with
      | start payload => exact .payload hconfig
      | finish label => exact .unchanged hconfig nofun
      | transform operation field operand =>
          have hunchanged : n.HandsOn input input := .unchanged hconfig nofun
          dsimp only
          cases happly : applyTransform operation field operand input with
          | error fault => exact hunchanged
          | ok output =>
              cases operation.toText with
              | error fault => exact hunchanged
              | ok operation =>
                  cases field.toText with
                  | error fault => exact hunchanged
                  | ok field => exact handsOn_of_applyTransform hconfig happly
      | condition field operator operand =>
          dsimp only
          cases evaluateCondition field operator operand input with
          | error fault => exact .unchanged hconfig nofun
          | ok met =>
              dsimp only
              cases Outcome.conditionMessage field operator operand met with
              | error fault => exact .result hconfig met
              | ok message => exact .result hconfig met

theorem HandsOn.eq_payload {n : Node} {input output : Packet} (h : n.HandsOn input output)
    (hconfigured : n.Configured) (hstart : n.kind = .start) : output = n.payload := by
  obtain ⟨c, hconfig, hkind⟩ := hconfigured
  rw [hstart] at hkind
  cases c with
  | transform | condition | finish => cases hkind
  | start payload =>
      have hpayload : n.payload = payload.toPacket := by
        rw [Node.payload, hconfig]
      cases h with
      | payload config =>
          rw [hconfig] at config
          cases config
          exact hpayload.symm
      | input other => exact absurd hconfig (other payload)
      | result config | field config =>
          rw [hconfig] at config
          cases config

/-- A node that is no start node leaves all keys alone but the one that it writes. -/
theorem HandsOn.get?_eq {n : Node} {input output : Packet} (h : n.HandsOn input output)
    (hconfigured : n.Configured) (hother : n.kind ≠ .start) {k : Key}
    (hresult : ¬ conditionKey.same k = true) (hfield : ¬ n.Sets k) :
    output.get? k = input.get? k := by
  cases h with
  | payload config =>
      obtain ⟨c, hconfig, hkind⟩ := hconfigured
      rw [hconfig] at config
      cases config
      exact absurd hkind.symm hother
  | input other => rfl
  | result config met => rw [Packet.get?_set, if_neg hresult]
  | field config named v => rw [Packet.get?_set, if_neg fun hsame => hfield ⟨config, named, hsame⟩]

end Node

/-! ## Frames

Paths are given from their end: the node that was reached comes first. -/

def lastStart? (path : List Node) : Option Node := path.find? fun n => n.kind = .start

theorem kind_of_lastStart? {path : List Node} {start : Node}
    (h : lastStart? path = some start) :
    start.kind = .start := by
  have hfound := List.find?_some h
  exact of_decide_eq_true hfound

/-- The nodes of a path after its last start node. -/
def sinceStart (path : List Node) : List Node := path.takeWhile fun n => n.kind ≠ .start

/-- A packet holds what the last start node of the path put under each key that no later
transform has as its field. The key for the results of conditions is left out. -/
def Framed (path : List Node) (p : Packet) : Prop :=
  ∃ start, lastStart? path = some start ∧
    ∀ k, ¬ conditionKey.same k = true → (∀ n ∈ sinceStart path, ¬ n.Sets k) →
      p.get? k = start.payload.get? k

section

variable {n : Node} (hconfigured : n.Configured) {input output : Packet}
  (h : n.HandsOn input output)
include hconfigured h

theorem framed_of_start (hstart : n.kind = .start) (path : List Node) :
    Framed (n :: path) output := by
  have hlast : lastStart? (n :: path) = some n := List.find?_cons_of_pos (decide_eq_true hstart)
  refine ⟨n, hlast, fun k _ _ => ?_⟩
  rw [h.eq_payload hconfigured hstart]

/-- **Every node but a start node keeps a frame.** -/
theorem Framed.cons {path : List Node} (hframed : Framed path input)
    (hother : n.kind ≠ .start) :
    Framed (n :: path) output := by
  obtain ⟨start, hlast, hkeys⟩ := hframed
  have hlast' : lastStart? (n :: path) = lastStart? path :=
    List.find?_cons_of_neg (by simpa using hother)
  have hsince : sinceStart (n :: path) = n :: sinceStart path :=
    List.takeWhile_cons_of_pos (by simpa using hother)
  refine ⟨start, hlast'.trans hlast, fun k hresult hfields => ?_⟩
  rw [hsince] at hfields
  obtain ⟨hfield, hbefore⟩ := List.forall_mem_cons.mp hfields
  rw [h.get?_eq hconfigured hother hresult hfield, hkeys k hresult hbefore]

theorem Framed.step {path : List Node} (hframed : Framed path input) :
    Framed (n :: path) output := by
  by_cases hstart : n.kind = .start
  · exact framed_of_start hconfigured h hstart path
  · exact hframed.cons hconfigured h hstart

end

/-! ## Paths of work -/

namespace Graph

/-- Work that a run may reach, and the path on which it is reached. -/
inductive Travels (g : Graph) : List Node → Work → Prop
  | begins {n : Node} (hstart : n ∈ g.starts) : Travels g [n] (seed n)
  | goesOn {path : List Node} {w v : Work} (h : Travels g path w)
      (hfollows : v ∈ g.followers w (executeNode w.node w.input)) : Travels g (v.node :: path) v

theorem of_mem_followers {g : Graph} {w v : Work} {o : Outcome} (h : v ∈ g.followers w o) :
    v.node ∈ g.nodes ∧ v.input = o.output ∧ v.visited = w.node.id :: w.visited := by
  unfold followers at h
  split at h
  · cases h
  · obtain ⟨target, -, hnext⟩ := List.mem_filterMap.mp h
    unfold next? at hnext
    split at hnext
    · rename_i n hfound
      split at hnext
      · obtain rfl := Option.some.inj hnext
        exact ⟨(node?_mem hfound).1, rfl, rfl⟩
      · cases hnext
    · cases hnext

theorem inherits_travels (g : Graph) :
    g.Inherits g.starts fun w => ∃ path, g.Travels path w where
  seed n hn := ⟨[n], .begins hn⟩
  next w hw v hv := by
    obtain ⟨path, hpath⟩ := hw
    exact ⟨v.node :: path, hpath.goesOn hv⟩

namespace Travels

variable {g : Graph} {path : List Node} {w : Work}

theorem mem_nodes (h : g.Travels path w) : ∀ n ∈ path, n ∈ g.nodes := by
  induction h with
  | begins hstart => exact List.forall_mem_singleton.mpr (List.mem_filter.mp hstart).1
  | goesOn h hfollows ih =>
      exact List.forall_mem_cons.mpr ⟨(of_mem_followers hfollows).1, ih⟩

theorem head?_eq (h : g.Travels path w) : path.head? = some w.node := by
  cases h <;> rfl

/-- A path of nodes is the path of identities that work carries along. -/
theorem map_id_eq (h : g.Travels path w) : path.map (·.id) = w.path := by
  induction h with
  | begins hstart => rfl
  | goesOn h hfollows ih =>
      rw [List.map_cons, ih, Work.path, Work.path, (of_mem_followers hfollows).2.2]

theorem descends (h : g.Travels path w) : g.Descends w := by
  induction h with
  | begins hstart => exact descends_seed hstart
  | goesOn h hfollows ih => exact ih.followers hfollows

end Travels

/-- Whatever a node hands on, it is framed along the path on which the node was reached. -/
theorem framed_of_travels {g : Graph} (hconfigured : ∀ n ∈ g.nodes, n.Configured)
    {path : List Node} {w : Work} (h : g.Travels path w) :
    Framed path (executeNode w.node w.input).output := by
  induction h with
  | @begins n hstart =>
      obtain ⟨hmem, hkind⟩ := List.mem_filter.mp hstart
      exact framed_of_start (hconfigured n hmem) (n.handsOn_executeNode _)
        (of_decide_eq_true hkind) []
  | @goesOn path w v h hfollows ih =>
      obtain ⟨hmem, hinput, -⟩ := of_mem_followers hfollows
      rw [← hinput] at ih
      exact ih.step (hconfigured v.node hmem) (v.node.handsOn_executeNode v.input)

end Graph

/-! ## The headline theorem -/

/-- An entry notes what a node handed on that was executed without an error on a path of the
workflow, and this is framed along the path. -/
def LogEntry.FramedIn (g : Graph) (entry : LogEntry) : Prop :=
  ∃ path w, g.Travels path w ∧ entry.Notes w ∧ Framed path entry.output

theorem LogEntry.Vouched.framedIn {g : Graph} (hconfigured : ∀ n ∈ g.nodes, n.Configured)
    {entry : LogEntry} (h : entry.Vouched fun w => ∃ path, g.Travels path w)
    (hsuccess : entry.status = .success) : entry.FramedIn g := by
  obtain ⟨w, ⟨path, htravels⟩, -, hnotes⟩ := h hsuccess
  refine ⟨path, w, htravels, hnotes, ?_⟩
  obtain ⟨time, rfl⟩ := hnotes
  exact g.framed_of_travels hconfigured htravels

/-- **Packets are framed along paths.** On whatever path of a workflow a node is reached, it
hands on what the last start node of the path put under each key that no later transform of
the path has as its field, and nothing under such a key if this start node put nothing there.
All work before a run is on a path, whatever the surroundings of the run do; what the run
announces as done without an error, and all that it keeps of this in its log, is what was
handed on along a path. -/
theorem packets_framed_along_paths {g : Graph} (hconfigured : ∀ n ∈ g.nodes, n.Configured) :
    (∀ path w, g.Travels path w → path.head? = some w.node ∧ path.map (·.id) = w.path
      ∧ g.Descends w ∧ Framed path (executeNode w.node w.input).output)
    ∧ (∀ e t, Relation.ReflTransGen Turn.Follows (Run.start g e).2 t →
      (∀ w ∈ t.pending, ∃ path, g.Travels path w)
      ∧ ∀ entry, t.Announces entry → entry.status = .success → entry.FramedIn g)
    ∧ ∀ e, e.executing = false → ∃ result, (g.run e).1 = .returned result
      ∧ result.status = (if g.report.valid then .completed else .invalid)
      ∧ ∀ entry ∈ result.logs, entry.status = .success → entry.FramedIn g := by
  refine ⟨fun path w h => ?_, fun e t hreach => ?_, fun e hidle => ?_⟩
  · exact ⟨h.head?_eq, h.map_id_eq, h.descends, g.framed_of_travels hconfigured h⟩
  · have hcarries := Turn.Carries.of_reaches g.inherits_travels (Run.carries_start g _ e) hreach
    constructor
    · cases t with
      | waits signal r => exact hcarries.stage.pending g.inherits_travels
      | ends ending => exact fun w hw => absurd hw List.not_mem_nil
    · rintro entry ⟨r, rfl⟩ hsuccess
      exact (hcarries.entry entry rfl).framedIn hconfigured hsuccess
  · obtain ⟨result, hresult, hstatus, hlogs⟩ :=
      Graph.exists_result_vouched g.inherits_travels hidle
    exact ⟨result, hresult, hstatus, fun entry hentry hsuccess =>
      (hlogs entry hentry).framedIn hconfigured hsuccess⟩

/-- A transform that changes another key of the payload than the one that is looked at. -/
theorem packets_framed_along_paths_past_a_transform :
    let first : Node := ⟨"first", .start, .origin, "Start",
      some (.start (.record [("count", .int 1), ("message", .text "hello")]))⟩
    let shout : Node := ⟨"shout", .transform, .origin, "Shout",
      some (.transform (.text "uppercase") (.text "message") .null)⟩
    let last : Node := ⟨"last", .finish, .origin, "End", some (.finish (.text "End"))⟩
    let edge (a b : String) : Edge := ⟨Edge.idBetween a b, a, b, .null, .null, .null, true⟩
    let g : Graph := ⟨[first, shout, last], [edge "first" "shout", edge "shout" "last"]⟩
    let p : Packet := [(.text "count", .int 1), (.text "message", .text "HELLO")]
    (∀ n ∈ g.nodes, n.Configured)
      ∧ g.Travels [last, shout, first] ⟨last, p, ["shout", "first"]⟩
      ∧ Framed [last, shout, first] (executeNode last p).output
      ∧ ∃ result, (g.run (.idle none 0)).1 = .returned result ∧ result.status = .completed
        ∧ ∀ entry ∈ result.logs, entry.status = .success →
          entry.output.get? (.text "count") = some (.int 1) := by
  intro first shout last edge g p
  have hconfigured : ∀ n ∈ g.nodes, n.Configured := by
    simp [g, first, shout, last, Node.Configured, Config.kind]
  have htravels : g.Travels [last, shout, first] ⟨last, p, ["shout", "first"]⟩ := by
    have hfirst : g.Travels [first] (Graph.seed first) := .begins (by decide)
    have hshout : g.Travels [shout, first] ⟨shout, (Graph.seed first).input, ["first"]⟩ :=
      hfirst.goesOn (v := ⟨shout, (Graph.seed first).input, ["first"]⟩) (by decide)
    exact hshout.goesOn (v := ⟨last, p, ["shout", "first"]⟩) (by decide)
  have hvalid : g.report.valid = true :=
    Graph.report_valid_of_rank (["first", "shout", "last"].idxOf ·) (by decide) (by decide)
      (by decide)
  have hfree : ∀ n ∈ g.nodes, ¬ n.Sets (.text "count") := by
    rintro n hn ⟨hconfig, hnamed, hsame⟩
    simp only [g, List.mem_cons, List.not_mem_nil, or_false] at hn
    rcases hn with rfl | rfl | rfl
    · cases hconfig
    · cases hconfig
      cases hnamed
      exact absurd hsame (by decide)
    · cases hconfig
  have hstarts : ∀ n ∈ g.nodes, n.kind = .start → n = first := by
    simp [g, first, shout, last]
  obtain ⟨hpaths, -, hruns⟩ := packets_framed_along_paths hconfigured
  obtain ⟨result, hresult, hstatus, hlogs⟩ := hruns (.idle none 0) rfl
  rw [if_pos hvalid] at hstatus
  refine ⟨hconfigured, htravels, (hpaths _ _ htravels).2.2.2, result, hresult, hstatus, ?_⟩
  intro entry hentry hsuccess
  obtain ⟨path, w, hpath, -, start, hlast, hkeys⟩ := hlogs entry hentry hsuccess
  have hsince : ∀ n ∈ sinceStart path, ¬ n.Sets (.text "count") := fun n hn =>
    hfree n (hpath.mem_nodes n ((List.takeWhile_sublist _).subset hn))
  have hstart : start = first :=
    hstarts start (hpath.mem_nodes start (List.mem_of_find?_eq_some hlast))
      (kind_of_lastStart? hlast)
  rw [hkeys _ (by decide) hsince, hstart]
  rfl

end Workflow
