import Mathlib.Data.List.Chain
import Workflow.Proofs.Check.Report
import Workflow.Proofs.Fallible
import Workflow.Proofs.Run.BreadthFirst

/-!
# Runs of valid workflows never meet a node again

The check before a run and the guard within it look for the same thing from two sides. The
check finds a closed walk that can be reached from a node; the guard finds a node on its own
path. Every piece of work that a run queues has a path along edges that begins at a start
node (`Descends`), so a node met again lies on a closed walk that the check would have found
(`Descends.nodup_path`).

`Turn.Follows` is one step of a run, where the surroundings may leave any executor and give
any reply. `Turn.Guided` is what such steps keep. The headline is `never_revisits_of_valid`.
-/

namespace Workflow

/-! ## Paths -/

/-- The identities passed up to a piece of work, its own first. -/
def Work.path (w : Work) : List String := w.node.id :: w.visited

namespace Graph

/-- The path of a piece of work leads along edges from a start node. -/
structure Descends (g : Graph) (w : Work) : Prop where
  along : w.path.IsChain fun a b => Leads g.edges b a
  begins : ∃ n ∈ g.starts, w.path.getLast? = some n.id

theorem descends_seed {g : Graph} {n : Node} (h : n ∈ g.starts) : g.Descends (seed n) :=
  ⟨.singleton _, n, h, rfl⟩

theorem Descends.next {g : Graph} {w w' : Work} {o : Outcome} {target : String}
    (h : g.Descends w) (hleads : Leads g.edges w.node.id target)
    (hnext : g.next? w o target = some w') : g.Descends w' := by
  unfold next? at hnext
  split at hnext
  · rename_i n hfound
    split at hnext
    · obtain rfl := Option.some.inj hnext
      have hid : n.id = target := (node?_mem hfound).2
      obtain ⟨start, hstart, hlast⟩ := h.begins
      refine ⟨List.isChain_cons_cons.mpr ⟨hid ▸ hleads, h.along⟩, start, hstart, ?_⟩
      simpa only [Work.path, List.getLast?_cons_cons] using hlast
    · cases hnext
  · cases hnext

theorem Descends.followers {g : Graph} {w w' : Work} {o : Outcome} (h : g.Descends w)
    (hmem : w' ∈ g.followers w o) : g.Descends w' := by
  unfold Graph.followers at hmem
  split at hmem
  · cases hmem
  · obtain ⟨target, htarget, hnext⟩ := List.mem_filterMap.mp hmem
    exact h.next (mem_successors.mp htarget) hnext

/-- Everything on a path is reached from the start node at its end. -/
theorem reaches_of_isChain {edges : List Edge} {start : String} :
    ∀ {path : List String}, path.IsChain (fun a b => Leads edges b a) →
      path.getLast? = some start → ∀ id ∈ path, Reaches edges start id
  | [], _, _, _, hid => absurd hid List.not_mem_nil
  | [a], _, hlast, id, hid => by
      obtain rfl : a = start := by simpa using hlast
      obtain rfl : id = a := by simpa using hid
      exact .refl
  | a :: b :: path, hchain, hlast, id, hid => by
      obtain ⟨hba, hrest⟩ := List.isChain_cons_cons.mp hchain
      rw [List.getLast?_cons_cons] at hlast
      have hbelow := reaches_of_isChain hrest hlast
      rcases List.mem_cons.mp hid with rfl | hid
      · exact (hbelow b List.mem_cons_self).tail hba
      · exact hbelow id hid

theorem Descends.nodup_path {g : Graph} {w : Work} (h : g.Descends w)
    (hfree : ∀ n ∈ g.starts, ∀ id, Reaches g.edges n.id id → ¬ OnCycle g.edges id) :
    w.path.Nodup := by
  obtain ⟨start, hstart, hlast⟩ := h.begins
  have hreaches := reaches_of_isChain h.along hlast
  have hwalk : w.path.IsChain fun a b => Relation.TransGen (Leads g.edges) b a :=
    h.along.imp fun _ _ hba => .single hba
  have hpairs : w.path.Pairwise fun a b => Relation.TransGen (Leads g.edges) b a := by
    have : Trans (fun a b => Relation.TransGen (Leads g.edges) b a)
        (fun a b => Relation.TransGen (Leads g.edges) b a)
        (fun a b => Relation.TransGen (Leads g.edges) b a) := ⟨fun hba hcb => hcb.trans hba⟩
    exact hwalk.pairwise
  refine hpairs.imp_of_mem fun {a b} ha _ hba hsame => ?_
  subst hsame
  exact hfree start hstart a (hreaches a ha) hba

/-- What the check of a valid workflow says about its start nodes. -/
theorem free_of_valid {g : Graph} (hvalid : g.report.valid = true) :
    ∀ n ∈ g.starts, ∀ id, Reaches g.edges n.id id → ¬ OnCycle g.edges id := by
  have hnone := (report_valid_iff.mp hvalid).2
  intro n hn
  exact findCycle_eq_none_iff.mp hnone n.id (List.mem_map_of_mem (List.mem_filter.mp hn).1)

theorem Descends.not_revisits {g : Graph} {w : Work} (h : g.Descends w)
    (hvalid : g.report.valid = true) : ¬ w.revisits = true := fun hrevisits =>
  (List.nodup_cons.mp (h.nodup_path (free_of_valid hvalid))).1 (of_decide_eq_true hrevisits)

end Graph

/-! ## The wording for a node met again

No other note has it, for all of them differ from it within the first two letters. -/

/-- Whether characters begin with something else than `Cy`. -/
def beginOtherwise : List Char → Bool
  | [] => false
  | c :: cs => c != 'C' || match cs with
    | [] => false
    | d :: _ => d != 'y'

theorem beginOtherwise_append {cs : List Char} (h : beginOtherwise cs = true)
    (ds : List Char) :
    beginOtherwise (cs ++ ds) = true := by
  cases cs with
  | nil => cases h
  | cons c cs =>
      cases cs with
      | nil =>
          have hc : (c != 'C') = true := by simpa [beginOtherwise] using h
          simp [beginOtherwise, hc]
      | cons d cs => exact h

theorem beginOtherwise_append_text {s : String} (h : beginOtherwise s.toList = true)
    (t : String) :
    beginOtherwise (s ++ t).toList = true := by
  rw [String.toList_append]
  exact beginOtherwise_append h t.toList

theorem ne_cycleMessage {s : String} (h : beginOtherwise s.toList = true) :
    s ≠ cycleMessage := by
  rintro rfl
  exact absurd h (by decide)

theorem beginOtherwise_quoted (s : String) :
    beginOtherwise (Text.quoted s).toList = true := by
  have hquote : (Text.quoteFor s.toList != 'C') = true := by
    unfold Text.quoteFor
    split <;> rfl
  simp [Text.quoted, beginOtherwise, hquote]

theorem ModelFault.beginOtherwise_message (f : ModelFault) :
    beginOtherwise f.message.toList = true := by
  cases f <;> unfold message <;> (repeat' with_reducible apply beginOtherwise_append_text) <;> rfl

theorem Fault.beginOtherwise_message (f : Fault) :
    beginOtherwise f.message.toList = true := by
  cases f with
  | missingField name => exact beginOtherwise_quoted name
  | model fault => exact fault.beginOtherwise_message
  | _ =>
      unfold message
      repeat' with_reducible apply beginOtherwise_append_text
      all_goals rfl

theorem Outcome.ofResult_message_ne {output : Packet} {r : Except Fault Outcome}
    (h : ∀ o, r = .ok o → o.message ≠ cycleMessage) :
    (Outcome.ofResult output r).message ≠ cycleMessage := by
  cases r with
  | ok o => exact h o rfl
  | error f => exact ne_cycleMessage f.beginOtherwise_message

theorem executeNode_message_ne (n : Node) (input : Packet) :
    (executeNode n input).message ≠ cycleMessage := by
  unfold executeNode
  split
  · exact Outcome.ofResult_message_ne nofun
  · show "Started workflow execution" ≠ cycleMessage
    decide
  · refine Outcome.ofResult_message_ne fun o ho => ?_
    obtain ⟨output, -, ho⟩ := bind_eq_ok.mp ho
    obtain ⟨operation, -, ho⟩ := bind_eq_ok.mp ho
    obtain ⟨field, -, ho⟩ := bind_eq_ok.mp ho
    obtain rfl := Except.ok.inj ho
    refine ne_cycleMessage ?_
    iterate 3 refine beginOtherwise_append_text ?_ _
    rfl
  · split
    · exact Outcome.ofResult_message_ne nofun
    · refine Outcome.ofResult_message_ne fun o ho => ?_
      obtain ⟨message, hmessage, ho⟩ := bind_eq_ok.mp ho
      obtain rfl := Except.ok.inj ho
      obtain ⟨operand, -, hmessage⟩ := bind_eq_ok.mp hmessage
      obtain ⟨field, -, hmessage⟩ := bind_eq_ok.mp hmessage
      obtain ⟨operator, -, hmessage⟩ := bind_eq_ok.mp hmessage
      obtain rfl := Except.ok.inj hmessage
      refine ne_cycleMessage (beginOtherwise_append_text ?_ _)
      iterate 6 refine beginOtherwise_append_text ?_ _
      rfl
  · show "Workflow execution completed" ≠ cycleMessage
    decide

/-! ## Steps of a run -/

/-- What a run has before it at a stage: the work at hand, the queue, and the start nodes
behind it. -/
def Stage.pending : Stage → List Work
  | .walking queue starts => queue ++ starts.map Graph.seed
  | .paused w queue starts | .entered w queue starts | .noted w _ queue starts
  | .left w _ queue starts => w :: queue ++ starts.map Graph.seed
  | .opened | .warning _ | .refusing _ | .concluding | .closing _ => []

namespace Turn

def pending : Turn → List Work
  | .waits _ r => r.stage.pending
  | .ends _ => []

def Announces (t : Turn) (entry : LogEntry) : Prop := ∃ r, t = .waits (.event (.log entry)) r

/-- One step of a run: at a signal the surroundings leave some executor and reply. -/
inductive Follows : Turn → Turn → Prop
  | reply (signal : Signal) (r : Run) (e : Executor) (reply : Reply) :
      Follows (.waits signal r) (r.proceed e reply).2

/-- A run cannot go on for longer than its bound, whatever the surroundings do. -/
theorem length_le_work : ∀ {t : Turn} {ts : List Turn},
    (t :: ts).IsChain Follows → ts.length ≤ t.work
  | _, [], _ => Nat.zero_le _
  | _, t' :: ts, hchain => by
      obtain ⟨hstep, hrest⟩ := List.isChain_cons_cons.mp hchain
      have hbound := length_le_work hrest
      cases hstep with
      | reply signal r e reply =>
          have hless := r.proceed_work e reply
          rw [List.length_cons]
          exact Nat.succ_le_of_lt (Nat.lt_of_le_of_lt hbound hless)

end Turn

theorem Environment.reaches_ending {ω : Type} (env : Environment ω) (e : Executor) (w : ω)
    (turn : Turn) :
    Relation.ReflTransGen Turn.Follows turn (.ends (env.drive e w turn).1) := by
  fun_induction Environment.drive env e w turn with
  | case1 e w ending => exact .refl
  | case2 e w signal run answer next ih =>
      exact .head (.reply signal run answer.2.1 answer.1) ih

/-! ## What a run of a valid workflow keeps -/

def Ending.Accepted (ending : Ending) : Prop :=
  ∀ result, ending = .returned result → result.status ≠ .invalid

namespace Graph

/-- All work of a queue is on paths, and the start nodes behind it are start nodes. -/
def OnPaths (g : Graph) (queue : List Work) (starts : List Node) : Prop :=
  (∀ w ∈ queue, g.Descends w) ∧ ∀ n ∈ starts, n ∈ g.starts

theorem OnPaths.append {g : Graph} {queue rest : List Work} {starts : List Node}
    (h : g.OnPaths queue starts) (hrest : ∀ w ∈ rest, g.Descends w) :
    g.OnPaths (queue ++ rest) starts :=
  ⟨fun w hw => (List.mem_append.mp hw).elim (h.1 w) (hrest w), h.2⟩

theorem OnPaths.begin {g : Graph} {n : Node} {starts : List Node}
    (h : g.OnPaths [] (n :: starts)) : g.OnPaths [Graph.seed n] starts := by
  refine ⟨fun w hw => ?_, fun m hm => h.2 m (List.mem_cons_of_mem _ hm)⟩
  obtain rfl := List.mem_singleton.mp hw
  exact descends_seed (h.2 n List.mem_cons_self)

theorem OnPaths.tail {g : Graph} {w : Work} {queue : List Work} {starts : List Node}
    (h : g.OnPaths (w :: queue) starts) : g.OnPaths queue starts :=
  ⟨fun v hv => h.1 v (List.mem_cons_of_mem _ hv), h.2⟩

theorem OnPaths.pending {g : Graph} {queue : List Work} {starts : List Node}
    (h : g.OnPaths queue starts) : ∀ w ∈ queue ++ starts.map seed, g.Descends w := by
  intro w hw
  rcases List.mem_append.mp hw with hw | hw
  · exact h.1 w hw
  · obtain ⟨n, hn, rfl⟩ := List.mem_map.mp hw
    exact descends_seed (h.2 n hn)

end Graph

/-- What holds of a stage: work is on paths, and nothing is refused. -/
def Stage.Guided (g : Graph) : Stage → Prop
  | .walking queue starts => g.OnPaths queue starts
  | .paused w queue starts | .entered w queue starts | .noted w _ queue starts
  | .left w _ queue starts => g.OnPaths (w :: queue) starts
  | .refusing _ => False
  | .closing ending => ending.Accepted
  | .opened | .warning _ | .concluding => True

theorem Stage.Guided.descends {g : Graph} {stage : Stage} (h : stage.Guided g) :
    ∀ w ∈ stage.pending, g.Descends w := by
  cases stage with
  | walking | paused | entered | noted | left => exact Graph.OnPaths.pending h
  | refusing rest => exact h.elim
  | opened | warning | concluding | closing => exact fun w hw => absurd hw List.not_mem_nil

structure Run.Guided (g : Graph) (r : Run) : Prop where
  plan : r.plan = g
  status : r.status ≠ .invalid
  stage : r.stage.Guided g

def Turn.Guided (g : Graph) : Turn → Prop
  | .waits signal r =>
    r.Guided g ∧ ∀ entry, signal = .event (.log entry) → entry.message ≠ cycleMessage
  | .ends ending => ending.Accepted

namespace Run

section

variable {g : Graph} {r : Run} (hplan : r.plan = g) (hstatus : r.status ≠ .invalid)
include hplan

theorem guided_stop (e : Executor) : (r.stop e).2.Guided g := by
  refine ⟨⟨hplan, nofun, trivial⟩, ?_⟩
  rintro entry ⟨⟩
  show cancelMessage ≠ cycleMessage
  decide

include hstatus

theorem guided_noteSystem (e : Executor) (status : LogStatus) {message : String}
    (hmessage : message ≠ cycleMessage) {stage : Stage} (hstage : stage.Guided g) :
    (r.noteSystem e status message stage).2.Guided g := by
  refine ⟨⟨hplan, hstatus, hstage⟩, ?_⟩
  rintro entry ⟨⟩
  exact hmessage

theorem guided_close (e : Executor) {ending : Ending} (hending : ending.Accepted) :
    (r.close e ending).2.Guided g :=
  ⟨⟨hplan, hstatus, hending⟩, nofun⟩

theorem guided_conclude (e : Executor) : (r.conclude e).2.Guided g := by
  refine guided_close hplan hstatus _ ?_
  rintro result ⟨⟩
  exact hstatus

variable (hvalid : g.report.valid = true)
include hvalid

theorem guided_take (e : Executor) {w : Work} {queue : List Work} {starts : List Node}
    (hpaths : g.OnPaths (w :: queue) starts) : (r.take e w queue starts).2.Guided g := by
  have hfresh := (hpaths.1 w List.mem_cons_self).not_revisits hvalid
  unfold take
  split
  · exact guided_stop hplan e
  · exact ⟨⟨hplan, hstatus, hpaths⟩, nofun⟩

theorem guided_walk (e : Executor) {queue : List Work} {starts : List Node}
    (hpaths : g.OnPaths queue starts) : (r.walk e queue starts).2.Guided g := by
  cases queue with
  | cons w queue => exact guided_take hplan hstatus hvalid e hpaths
  | nil =>
      cases starts with
      | nil => exact guided_conclude hplan hstatus e
      | cons n starts => exact guided_take hplan hstatus hvalid e hpaths.begin

theorem guided_warn (e : Executor) (warnings : List Warning) :
    (r.warn e warnings).2.Guided g := by
  cases warnings with
  | cons w rest =>
      have hstage : Stage.Guided g (.warning rest) := trivial
      refine guided_noteSystem hplan hstatus e _ ?_ hstage
      exact ne_cycleMessage (beginOtherwise_append_text rfl _)
  | nil =>
      unfold warn
      rw [hplan, if_pos hvalid]
      exact guided_walk hplan hstatus hvalid e ⟨nofun, fun n hn => hn⟩

end

theorem Guided.resume {g : Graph} (hvalid : g.report.valid = true) {r : Run} (h : r.Guided g)
    (e : Executor) : (r.resume e).2.Guided g := by
  obtain ⟨hplan, hstatus, hstage⟩ := h
  unfold Run.resume
  cases hat : r.stage with
  | opened => exact guided_warn hplan hstatus hvalid e _
  | warning rest => exact guided_warn hplan hstatus hvalid e rest
  | refusing rest =>
      rw [hat] at hstage
      exact hstage.elim
  | walking queue starts =>
      rw [hat] at hstage
      exact guided_walk hplan hstatus hvalid e hstage
  | paused w queue starts =>
      rw [hat] at hstage
      dsimp only
      split
      · exact guided_stop hplan e
      · exact ⟨⟨hplan, hstatus, hstage⟩, nofun⟩
  | entered w queue starts =>
      rw [hat] at hstage
      refine ⟨⟨hplan, hstatus, hstage⟩, ?_⟩
      rintro entry ⟨⟩
      exact executeNode_message_ne w.node w.input
  | noted w o queue starts =>
      rw [hat] at hstage
      exact ⟨⟨hplan, hstatus, hstage⟩, nofun⟩
  | left w o queue starts =>
      rw [hat] at hstage
      have hrest : g.OnPaths queue starts := hstage.tail
      have hfollow : ∀ v ∈ r.plan.followers w o, g.Descends v := by
        intro v hv
        rw [hplan] at hv
        exact (hstage.1 w List.mem_cons_self).followers hv
      dsimp only [leave]
      split
      · exact ⟨⟨hplan, hstatus, hrest⟩, nofun⟩
      · exact guided_walk hplan hstatus hvalid e (hrest.append hfollow)
  | concluding => exact guided_conclude hplan hstatus e
  | closing ending =>
      rw [hat] at hstage
      exact hstage

theorem Guided.breakOff {g : Graph} {r : Run} (h : r.Guided g) (e : Executor) (i : Interrupt) :
    (r.breakOff e i).2.Guided g := by
  unfold Run.breakOff
  split
  · exact nofun
  · exact nofun
  · exact guided_close h.plan h.status e nofun

end Run

theorem Turn.Guided.step {g : Graph} (hvalid : g.report.valid = true) {t t' : Turn}
    (h : t.Guided g) (hstep : Turn.Follows t t') : t'.Guided g := by
  cases hstep with
  | reply signal r e reply =>
      cases reply with
      | resume => exact h.1.resume hvalid e
      | interrupt i => exact h.1.breakOff e i

theorem Turn.guided_of_reaches {g : Graph} (hvalid : g.report.valid = true) {t t' : Turn}
    (h : t.Guided g) (hreach : Relation.ReflTransGen Turn.Follows t t') : t'.Guided g := by
  induction hreach with
  | refl => exact h
  | tail _ hstep ih => exact ih.step hvalid hstep

theorem Run.guided_start (g : Graph) (e : Executor) : (Run.start g e).2.Guided g := by
  unfold start
  split
  · rintro result ⟨⟩
    exact nofun
  · exact ⟨⟨rfl, nofun, trivial⟩, nofun⟩

/-! ## Everything noted is announced -/

theorem Executor.mem_logs_append {e : Executor} {entry x : LogEntry}
    (h : x ∈ (e.append entry).logs) : x ∈ e.logs ∨ x = entry := by
  have hmem : x ∈ e.logs ++ [entry] := by
    unfold append keep at h
    dsimp only at h
    split at h
    · exact List.mem_of_mem_drop h
    · exact h
  rcases List.mem_append.mp hmem with hold | hnew
  · exact Or.inl hold
  · exact Or.inr (List.mem_singleton.mp hnew)

namespace Run

/-- Each entry of the log was there before, or the step announces it. -/
def Tells (e : Executor) (next : Executor × Turn) : Prop :=
  ∀ entry ∈ next.1.logs, entry ∈ e.logs ∨ next.2.Announces entry

theorem tells_of_logs_eq {e : Executor} {next : Executor × Turn} (h : next.1.logs = e.logs) :
    Tells e next := fun _ hentry => Or.inl (h ▸ hentry)

theorem tells_noteSystem (r : Run) (e : Executor) (status : LogStatus) (message : String)
    (stage : Stage) : Tells e (r.noteSystem e status message stage) := by
  intro entry hentry
  rcases Executor.mem_logs_append hentry with hold | rfl
  · exact Or.inl hold
  · exact Or.inr ⟨_, rfl⟩

theorem tells_take (r : Run) (e : Executor) (w : Work) (queue : List Work)
    (starts : List Node) :
    Tells e (r.take e w queue starts) := by
  unfold take
  split
  · exact tells_noteSystem _ e _ _ _
  · split
    · intro entry hentry
      rcases Executor.mem_logs_append hentry with hold | rfl
      · exact Or.inl hold
      · exact Or.inr ⟨_, rfl⟩
    · exact tells_of_logs_eq rfl

theorem tells_walk (r : Run) (e : Executor) (queue : List Work) (starts : List Node) :
    Tells e (r.walk e queue starts) := by
  cases queue with
  | cons w queue => exact r.tells_take e w queue starts
  | nil =>
      cases starts with
      | nil => exact tells_of_logs_eq rfl
      | cons n starts => exact r.tells_take e (Graph.seed n) [] starts

theorem tells_refuse (r : Run) (e : Executor) (defects : List Defect) :
    Tells e (r.refuse e defects) := by
  cases defects with
  | nil => exact tells_of_logs_eq rfl
  | cons d rest => exact r.tells_noteSystem e _ _ _

theorem tells_warn (r : Run) (e : Executor) (warnings : List Warning) :
    Tells e (r.warn e warnings) := by
  cases warnings with
  | cons w rest => exact r.tells_noteSystem e _ _ _
  | nil =>
      unfold warn
      dsimp only
      split
      · exact r.tells_walk e [] r.plan.starts
      · exact r.tells_refuse e r.plan.report.defects

theorem tells_proceed (r : Run) (e : Executor) (reply : Reply) :
    Tells e (r.proceed e reply) := by
  cases reply with
  | resume =>
      show Tells e (r.resume e)
      unfold resume
      split
      · exact r.tells_warn e _
      · exact r.tells_warn e _
      · exact r.tells_refuse e _
      · exact r.tells_walk e _ _
      · split
        · exact tells_noteSystem _ e _ _ _
        · exact tells_of_logs_eq rfl
      · intro entry hentry
        rcases Executor.mem_logs_append hentry with hold | rfl
        · exact Or.inl hold
        · exact Or.inr ⟨_, rfl⟩
      · exact tells_of_logs_eq rfl
      · unfold leave
        split
        · exact tells_of_logs_eq rfl
        · exact r.tells_walk e _ _
      · exact tells_of_logs_eq rfl
      · exact tells_of_logs_eq rfl
  | interrupt i =>
      show Tells e (r.breakOff e i)
      unfold breakOff
      split <;> exact tells_of_logs_eq rfl

end Run

/-! ## The headline theorem -/

/-- **A run of a valid workflow never meets a node again.** Whatever the surroundings do at
its signals, all work before it is on paths without repetition and nothing that it announces
or notes has the wording for a node met again. It ends within a bound, in whatever
surroundings, and left alone it completes. -/
theorem never_revisits_of_valid {g : Graph} (hvalid : g.report.valid = true) (e : Executor) :
    (∀ t, Relation.ReflTransGen Turn.Follows (Run.start g e).2 t →
      (∀ w ∈ t.pending, g.Descends w ∧ w.path.Nodup ∧ w.revisits = false)
        ∧ (∀ entry, t.Announces entry → entry.message ≠ cycleMessage)
        ∧ ∀ signal r, t = .waits signal r → ∀ e' reply, ∀ entry ∈ (r.proceed e' reply).1.logs,
            entry ∈ e'.logs ∨ entry.message ≠ cycleMessage)
    ∧ (∀ ts, ((Run.start g e).2 :: ts).IsChain Turn.Follows →
        ts.length ≤ (Run.start g e).2.work)
    ∧ (∀ (ω : Type) (env : Environment ω) (w : ω),
        Relation.ReflTransGen Turn.Follows (Run.start g e).2 (.ends (env.run g e w).1)
          ∧ (env.run g e w).1.Accepted)
    ∧ (e.executing = false → ∃ result, (g.run e).1 = .returned result
        ∧ result.status = .completed) := by
  have hfree := Graph.free_of_valid hvalid
  have hguided : ∀ {t}, Relation.ReflTransGen Turn.Follows (Run.start g e).2 t → t.Guided g :=
    Turn.guided_of_reaches hvalid (Run.guided_start g e)
  have hannounced : ∀ {t : Turn}, t.Guided g → ∀ entry, t.Announces entry →
      entry.message ≠ cycleMessage := by
    rintro _ ht entry ⟨r, rfl⟩
    exact ht.2 entry rfl
  refine ⟨fun t hreach => ⟨?_, hannounced (hguided hreach), ?_⟩, fun _ => Turn.length_le_work,
    fun ω env w => ?_, fun hidle => ?_⟩
  · intro w hw
    have hdescends : g.Descends w := by
      cases t with
      | waits signal r => exact (hguided hreach).1.stage.descends w hw
      | ends ending => exact absurd hw List.not_mem_nil
    have hnodup := hdescends.nodup_path hfree
    exact ⟨hdescends, hnodup, decide_eq_false (List.nodup_cons.mp hnodup).1⟩
  · rintro signal r rfl e' reply entry hentry
    refine (r.tells_proceed e' reply entry hentry).imp_right fun htold => ?_
    have hnext : Turn.Follows (.waits signal r) (r.proceed e' reply).2 := .reply signal r e' reply
    exact hannounced ((hguided hreach).step hvalid hnext) entry htold
  · have hends := env.reaches_ending (Run.start g e).1 w (Run.start g e).2
    exact ⟨hends, hguided hends⟩
  · obtain ⟨_, hresult⟩ := Graph.run_result hvalid hidle
    exact ⟨_, hresult, rfl⟩

/-- Two branches that lead to one node: it is executed on each of them. -/
theorem never_revisits_where_branches_join :
    let node (id : String) (kind : NodeKind) : Node :=
      ⟨id, kind, .origin, id, some (Config.initial kind)⟩
    let edge (a b : String) : Edge := ⟨Edge.idBetween a b, a, b, .null, .null, .null, true⟩
    let g : Graph :=
      ⟨[node "first" .start, node "left" .transform, node "right" .transform, node "last" .finish],
        [edge "first" "left", edge "first" "right", edge "left" "last", edge "right" "last"]⟩
    g.report.valid = true
      ∧ (∀ t, Relation.ReflTransGen Turn.Follows (Run.start g (.idle none 0)).2 t →
          ∀ w ∈ t.pending, w.path.Nodup)
      ∧ ∃ result, (g.run (.idle none 0)).1 = .returned result ∧ result.status = .completed := by
  intro node edge g
  have hacyclic : Acyclic g.edges :=
    acyclic_of_rank (["first", "left", "right", "last"].idxOf ·) (by decide)
  have hvalid : g.report.valid = true := by
    have hnone : findCycle (g.nodes.map (·.id)) g.edges = none :=
      findCycle_eq_none_iff.mpr fun _ _ id _ => hacyclic id
    show (findDefects g.nodes g.edges).isEmpty = true
    rw [findDefects, hnone]
    rfl
  obtain ⟨hsteps, -, -, hcompletes⟩ := never_revisits_of_valid hvalid (.idle none 0)
  exact ⟨hvalid, fun t hreach w hw => ((hsteps t hreach).1 w hw).2.1, hcompletes rfl⟩

end Workflow
