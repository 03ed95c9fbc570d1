import Workflow.Proofs.Files.Access
import Workflow.Proofs.Run.Callbacks
import Workflow.Proofs.Shell.Ends
import Workflow.Shell.Startup

/-!
# Every line is answered

A line that a shell carries out comes to its end, with a sturdy shell, unless it trips: it
meets a limit on what is read or written, it names what a node does by a list or a record, or
it works on a path, bytes or tables that cannot be used (`Shell.Trips`).

One lemma for each command says that it fails only if the model refuses it or it trips. What
a step of a session does follows, and with it what holds of every shell that is reached in
any way (`Shell.Reached.sturdy`). The headline is `Shell.handle_answers`.
-/

namespace Workflow

/-- A run returns when its surroundings do no more than cancel it. A busy executor refuses
it. -/
theorem Environment.returns_of_onlyCancels {ω : Type} {env : Environment ω} {may : Prop}
    {P : ω → Prop} (honly : env.OnlyCancels may P) (g : Graph) (e : Executor) {w : ω}
    (hw : P w) :
    ∃ r, (env.run g e w).1 = .returned r ∧ P (env.run g e w).2.2 := by
  cases hbusy : e.executing with
  | true =>
      rw [env.run_of_busy g hbusy w]
      exact ⟨_, rfl, hw⟩
  | false =>
      by_cases hvalid : g.report.valid = true
      · obtain ⟨r, -, -, hrun, -, -, hkept⟩ := Graph.run_stopped hvalid hbusy honly hw
        exact ⟨r, hrun, hkept⟩
      · obtain ⟨r, hrun, -, -, hkept⟩ := Graph.run_refused_of_onlyCancels hvalid hbusy honly hw
        exact ⟨r, hrun, hkept⟩

namespace Shell

/-- What a run of the workflow gives, if the shell starts it now. -/
def Gives (sh : Shell) (r : RunResult) : Prop :=
  ((Watched.environment (nestedOf sh)).run sh.store.graph sh.store.executor
    ⟨sh.hooks, sh.putOff, [], [], sh⟩).1 = .returned r

/-- A word stands for a path that can be looked up. -/
def LeadsTo (sh : Shell) (word : String) (p : Files.Path) : Prop :=
  (Files.Path.ofText word).expandHome sh.settings.home = .ok p ∧ p.hasNull = false

/-- The commands that trip a shell. -/
inductive Trips (sh : Shell) : Command → Prop
  /-- Settings meet a limit of the reader. -/
  | settings {id text : String} {rest : List String} {fault : Fault}
      (hread : Json.read text = .error (.fault fault)) : Trips sh (.config (id :: text :: rest))
  /-- Settings name what a node does by a list or a record. -/
  | naming {id text : String} {rest : List String} {changes : Record} {n : Node} {name : String}
      {v : Value} (hread : Json.read text = .ok (.record changes))
      (hfind : sh.store.graph.findNode? id = some n) (hname : name ∈ n.kind.namedBy?)
      (hmem : (name, v) ∈ changes) (hv : v.checkHashable ≠ .ok ()) :
      Trips sh (.config (id :: text :: rest))
  /-- A run leaves a log that cannot be written. -/
  | log {r : RunResult} {fault : Fault} (harchive : sh.store.archive ≠ none) (hgives : sh.Gives r)
      (hlog : Archive.writeLog (r.logs.map .ofEntry) = .error fault) : Trips sh .run
  /-- A document is to be written where no path leads. -/
  | exportPath {word : String} {rest : List String} (hpath : ∀ p, ¬ sh.LeadsTo word p) :
      Trips sh (.exportTo (word :: rest))
  /-- A document is to be read where no path leads. -/
  | importPath {word : String} (hpath : ∀ p, ¬ sh.LeadsTo word p) : Trips sh (.importFrom [word])
  /-- The bytes of a file are no text. -/
  | bytes {word : String} {p : Files.Path} {bytes : List UInt8} {fault : Text.Utf8Fault}
      (hpath : sh.LeadsTo word p) (hbytes : sh.tree.read p = .ok bytes)
      (hdecode : Text.decodeText bytes = .error fault) : Trips sh (.importFrom [word])
  /-- The text of a file meets a limit of the reader. -/
  | document {word : String} {p : Files.Path} {text : String} {fault : Fault}
      (hpath : sh.LeadsTo word p) (htext : sh.tree.readText p = .ok text)
      (hread : Json.read text = .error (.fault fault)) : Trips sh (.importFrom [word])
  /-- A node of a file names what it does by a list or a record. -/
  | documentNaming {word : String} {p : Files.Path} {text : String} {v : Value}
      (hpath : sh.LeadsTo word p) (htext : sh.tree.readText p = .ok text)
      (hread : Json.read text = .ok v) (hnames : ¬ Document.NamesPlainly v) :
      Trips sh (.importFrom [word])
  /-- The tables cannot be used. -/
  | tables (hstate : sh.tables.state ≠ .usable) : Trips sh .runs

/-- What makes a command fail: the model refuses it, or it trips. -/
def FailsBy (sh : Shell) (command : Command) (failure : Failure) : Prop :=
  failure.IsRefusal ∨ sh.Trips command

variable {sh : Shell}

/-! ## Settings and runs -/

theorem Sturdy.performConfig (h : sh.Sturdy) (args : List String) :
    (Shell.performConfig args).Ends (sh.FailsBy (.config args)) sh := by
  unfold Shell.performConfig
  split
  · rename_i id text rest
    split
    · rename_i fault hread
      exact Act.Ends.throw h (.inr (.settings (Document.fault_of_readJson hread)))
    · exact h.say _
    · rename_i changes hread
      have hjson := Document.read_of_readJson hread
      refine Act.Ends.bind ?_ fun found sh' h' => by cases found <;> exact h'.say _
      obtain ⟨result, s, hset, hs, hfails⟩ :=
        h.store.configure id (Json.withinDigits_of_read hjson)
      refine h.onStore hset hs fun failure hfailure => ?_
      rcases hfails failure hfailure with ⟨fault, rfl⟩ | ⟨n, name, v, hfind, hname, hmem, hv⟩
      · exact .inl trivial
      · exact .inr (.naming hjson hfind hname hmem hv)
    · exact h.say _
  · exact h.say _

theorem Sturdy.runIn (h : sh.Sturdy) :
    (Shell.runIn (nestedOf sh)).Ends (fun _ => sh.Trips .run) sh := by
  let watched : Watched Shell := ⟨sh.hooks, sh.putOff, [], [], sh⟩
  have hcalm : watched.Calm sh True := ⟨rfl, h.hooks, fun _ _ _ => trivial, fun _ => trivial⟩
  obtain ⟨r, hrun, hcalm'⟩ := Environment.returns_of_onlyCancels
    (Watched.onlyCancels_environment (nestedOf sh) sh True) sh.store.graph sh.store.executor hcalm
  have hgives : sh.Gives r := hrun
  rcases hran : (Watched.environment (nestedOf sh)).run sh.store.graph sh.store.executor watched
    with ⟨ending, e, w⟩
  rw [hran] at hrun hcalm'
  obtain rfl : ending = .returned r := hrun
  have hstate : w.state = sh := hcalm'.state
  have hexecutor : Store.Sturdy { sh.store with executor := e } :=
    h.store.of_eq rfl rfl rfl rfl rfl
  obtain ⟨settled, s, hsettle, hs, hfails⟩ := hexecutor.settle r
  let ended : Shell := { sh with store := s, hooks := w.hooks, putOff := w.putOff }
  have hended : (Shell.runIn (nestedOf sh)).run sh = (settled.map fun _ => r, ended) := by
    unfold Shell.runIn
    dsimp only [ExceptT.run, ExceptT.mk] at hsettle ⊢
    rw [hran]
    dsimp only
    rw [hstate, hsettle]
  refine ⟨_, ended, hended, ⟨hs, hcalm'.only⟩, fun failure hfailure => ?_⟩
  cases settled with
  | ok _ => cases hfailure
  | error failure' =>
      obtain ⟨harchive, fault, hlog⟩ := Store.writeLog_of_record (hfails failure' rfl)
      exact .log harchive hgives hlog

theorem Sturdy.performRun (h : sh.Sturdy) :
    (Shell.performRun (nestedOf sh)).Ends (fun _ => sh.Trips .run) sh := by
  refine Act.Ends.get ?_
  split
  · exact h.say _
  · exact h.runIn.bind fun _ _ h' => (h'.showAll _).bind fun _ _ h'' => h''.say _

/-! ## Files and tables -/

theorem givenPath_run (word : String) (sh : Shell) : (givenPath word).run sh
    = (((Files.Path.ofText word).expandHome sh.settings.home).mapError .file, sh) := rfl

theorem not_leadsTo_of_error {word : String} {fault : Files.FileFault}
    (h : (Files.Path.ofText word).expandHome sh.settings.home = .error fault)
    (p : Files.Path) :
    ¬ sh.LeadsTo word p := by
  rintro ⟨hp, -⟩
  rw [hp] at h
  cases h

theorem hasNull_of_trips {word : String} {p : Files.Path} {T : Prop}
    (hpath : (Files.Path.ofText word).expandHome sh.settings.home = .ok p)
    (htrips : (∀ q, ¬ sh.LeadsTo word q) → T) (hT : ¬ T) : p.hasNull = false := by
  by_contra hnull
  refine hT (htrips fun q hq => hnull ?_)
  obtain rfl : q = p := Except.ok.inj (hq.1.symm.trans hpath)
  exact hq.2

theorem Sturdy.withTree (h : sh.Sturdy) (tree : Files.Tree) : (sh.withTree tree).Sturdy :=
  ⟨h.store.of_eq rfl rfl rfl rfl rfl, h.hooks⟩

/-- The path given with a command that writes a file, if it leads anywhere. -/
theorem run_exportPath (sh : Shell) (args : List String) :
    ∃ result, (args.head?.mapM givenPath).run sh = (result, sh)
      ∧ (∀ failure, result = .error failure → sh.Trips (.exportTo args))
      ∧ ∀ path, result = .ok path → ¬ sh.Trips (.exportTo args) →
          ∀ p ∈ path, p.hasNull = false := by
  cases args with
  | nil => exact ⟨_, rfl, nofun, fun path hpath _ p hp => by cases hpath; cases hp⟩
  | cons word rest =>
      have hrun := givenPath_run word sh
      cases hpath : (Files.Path.ofText word).expandHome sh.settings.home with
      | error fault =>
          rw [hpath] at hrun
          refine ⟨_, Act.run_bind_error hrun, fun _ _ => ?_, nofun⟩
          exact .exportPath (not_leadsTo_of_error hpath)
      | ok q =>
          rw [hpath] at hrun
          refine ⟨_, (Act.run_bind_ok hrun).trans rfl, nofun, fun path hok hnot p hp => ?_⟩
          obtain rfl := Except.ok.inj hok
          obtain rfl := Option.some.inj hp
          exact hasNull_of_trips hpath .exportPath hnot

theorem Sturdy.performExport (h : sh.Sturdy) (args : List String) :
    (Shell.performExport args).Ends (sh.FailsBy (.exportTo args)) sh := by
  obtain ⟨result, hrun, herror, hnull⟩ := run_exportPath sh args
  cases result with
  | error failure =>
      exact ⟨_, sh, Act.run_bind_error hrun, h, fun _ _ => .inr (herror failure rfl)⟩
  | ok path =>
      refine Act.Ends.after hrun (Act.Ends.get ?_)
      rcases hsave : sh.tree.saveDocument sh.store.document path with ⟨saved, tree⟩
      refine Act.Ends.after rfl ?_
      have h' := h.withTree tree
      split
      · exact h'.tell _ _
      · exact h'.tell _ _
      · rename_i failure hother
        refine Act.Ends.throw h' (.inr ?_)
        by_contra hnot
        rcases Files.Tree.saveDocument_answers sh.tree h.store.document (hnull path rfl hnot) with
          ⟨q, hq⟩ | ⟨met, q, hq⟩
        · rw [hsave] at hq
          cases hq
        · rw [hsave] at hq
          exact hother met q (Except.error.inj hq)

/-- A file that cannot be loaded trips the command that is to load it. -/
theorem trips_of_loadDocument {word : String} {p : Files.Path} {failure : Failure}
    (hpath : (Files.Path.ofText word).expandHome sh.settings.home = .ok p)
    (hload : sh.tree.loadDocument p = .error failure) : sh.Trips (.importFrom [word]) := by
  by_contra hnot
  have hp : sh.LeadsTo word p := ⟨hpath, hasNull_of_trips hpath .importPath hnot⟩
  obtain ⟨imported, himported⟩ := Files.Tree.loadDocument_answers hp.2
    (fun _ _ hbytes hdecode => hnot (.bytes hp hbytes hdecode))
    (fun _ _ htext hread => hnot (.document hp htext hread))
    (fun _ _ htext hread => by
      by_contra hnames
      exact hnot (.documentNaming hp htext hread hnames))
  rw [himported] at hload
  cases hload

theorem Sturdy.importLoaded (h : sh.Sturdy) {allowed : Failure → Prop} {d : Document}
    (hd : d.Sturdy) :
    (Shell.onStore (·.importDocument d)).Ends allowed sh := by
  obtain ⟨s, hadopt, hs⟩ := h.store.importDocument hd
  exact h.onStore hadopt hs nofun

theorem Sturdy.performImport (h : sh.Sturdy) (args : List String) :
    (Shell.performImport args).Ends (sh.FailsBy (.importFrom args)) sh := by
  unfold Shell.performImport
  split
  · rename_i word
    have hrun := givenPath_run word sh
    cases hpath : (Files.Path.ofText word).expandHome sh.settings.home with
    | error fault =>
        rw [hpath] at hrun
        refine ⟨_, sh, Act.run_bind_error hrun, h, fun _ _ => .inr ?_⟩
        exact .importPath (not_leadsTo_of_error hpath)
    | ok p =>
        rw [hpath] at hrun
        refine Act.Ends.after hrun (Act.Ends.get ?_)
        cases hload : sh.tree.loadDocument p with
        | error failure =>
            refine ⟨_, sh, Act.run_bind_error rfl, h, fun _ _ => .inr ?_⟩
            exact trips_of_loadDocument hpath hload
        | ok imported =>
            refine Act.Ends.after (a := imported) rfl ?_
            cases imported with
            | refused problems => exact h.showAll _
            | document d =>
                refine (h.importLoaded (Files.Tree.sturdy_of_loadDocument hload)).bind
                  fun problems sh' h' => ?_
                cases problems with
                | nil => exact h'.tell _ _
                | cons _ _ => exact h'.showAll _
  · exact h.say _

theorem Sturdy.performRuns (h : sh.Sturdy) :
    Shell.performRuns.Ends (sh.FailsBy .runs) sh := by
  refine Act.Ends.get ?_
  by_cases husable : sh.archive.tables.state = .usable
  · have hruns : ∃ runs, sh.archive.listRuns Archive.defaultLimit = .ok runs := by
      have hlimit : Tables.rowCount Archive.defaultLimit = .ok 20 := by decide
      refine exists_bind ?_ fun _ _ => ⟨_, rfl⟩
      unfold Tables.listRuns Tables.access
      rw [husable]
      exact exists_bind ⟨_, hlimit⟩ fun _ _ => ⟨_, rfl⟩
    obtain ⟨runs, hruns⟩ := hruns
    rw [hruns]
    exact h.showAll _
  · split
    · exact h.showAll _
    · exact Act.Ends.throw h (.inr (.tables husable))

/-! ## Lines -/

theorem ends_showRefusal {act : Act Unit} {command : Command}
    (hact : act.Ends (sh.FailsBy command) sh) :
    (showRefusal act).Ends (fun _ => sh.Trips command) sh := by
  refine hact.tryCatch fun failure sh' h' hfails => ?_
  split
  · exact h'.say _
  · rename_i other
    refine Act.Ends.throw h' (hfails.resolve_left fun hrefusal => ?_)
    unfold Failure.IsRefusal at hrefusal
    split at hrefusal
    · exact other _ rfl
    · exact hrefusal

theorem Sturdy.performPlain (h : sh.Sturdy) (command : Command) :
    (Shell.performPlain command).Ends (fun _ => sh.Trips command) sh := by
  cases command with
  | nothing | quit | run | unknown => exact h.say _
  | help => exact (h.say _).bind fun _ _ h' => (h'.showAll _).bind fun _ _ h'' => h''.say _
  | add args => exact ends_showRefusal (h.performAdd args)
  | nodes => exact ends_showRefusal h.performNodes
  | edges => exact ends_showRefusal h.performEdges
  | connect args => exact ends_showRefusal (h.performConnect args)
  | disconnect args => exact ends_showRefusal (h.performDisconnect args)
  | remove args => exact ends_showRefusal (h.performRemove args)
  | label args => exact ends_showRefusal (h.performLabel args)
  | config args => exact ends_showRefusal (h.performConfig args)
  | validate => exact ends_showRefusal h.performValidate
  | logs => exact Act.Ends.get (h.showAll _)
  | undo => exact (h.withStore_ends h.store.undo).bind fun _ _ h' => h'.say _
  | redo => exact (h.withStore_ends h.store.redo).bind fun _ _ h' => h'.say _
  | exportTo args => exact ends_showRefusal (h.performExport args)
  | importFrom args => exact ends_showRefusal (h.performImport args)
  | clear =>
      exact (h.withStore_ends (f := fun s => ((), s.clear)) h.store.clear).bind
        fun _ _ h' => h'.say _
  | runs => exact ends_showRefusal h.performRuns

theorem Sturdy.handleWith (h : sh.Sturdy) (line : String) :
    (Shell.handleWith (nestedOf sh) line).Ends (fun _ => sh.Trips (.ofLine line)) sh := by
  unfold Shell.handleWith
  generalize Command.ofLine line = command
  split
  · exact Act.Ends.pure h
  · exact (h.say _).bind fun _ _ h' => Act.Ends.pure h'
  · exact h.performRun.bind fun _ _ h' => h'.showNotices.bind fun _ _ h'' => Act.Ends.pure h''
  · exact (h.performPlain _).bind fun _ _ h' =>
      h'.showNotices.bind fun _ _ h'' => Act.Ends.pure h''

theorem Sturdy.handle (h : sh.Sturdy) (line : String) :
    (Shell.handle line).Ends (fun _ => sh.Trips (.ofLine line)) sh :=
  Act.Ends.get (h.handleWith line)

/-- Nothing but the command to quit asks for the end of the session. -/
theorem handle_eq_ok {line : String} {b : Bool} {sh' : Shell}
    (hrun : (handle line).run sh = (.ok b, sh')) :
    b = decide (Command.ofLine line = .quit) := by
  obtain ⟨sh₁, sh₂, hget, hrun⟩ := Act.exists_of_run_bind hrun
  unfold Shell.handleWith at hrun
  generalize Command.ofLine line = command at hrun ⊢
  split at hrun
  · cases hrun
    rfl
  · obtain ⟨-, -, -, hrun⟩ := Act.exists_of_run_bind hrun
    cases hrun
    rfl
  · obtain ⟨-, _, -, hrun⟩ := Act.exists_of_run_bind hrun
    obtain ⟨-, _, -, hrun⟩ := Act.exists_of_run_bind hrun
    cases hrun
    rfl
  · rename_i hquit _
    obtain ⟨-, _, -, hrun⟩ := Act.exists_of_run_bind hrun
    obtain ⟨-, _, -, hrun⟩ := Act.exists_of_run_bind hrun
    cases hrun
    exact (decide_eq_false hquit).symm

theorem Sturdy.handleLine (h : sh.Sturdy) (text : String) :
    (Shell.handleLine text).Ends (fun _ => sh.Trips (.ofLine (Text.trim text))) sh := by
  unfold Shell.handleLine
  dsimp only
  split
  · exact Act.Ends.pure h
  · split
    · exact (h.say _).bind fun _ _ h' => Act.Ends.pure h'
    · refine (h.handle _).tryCatch fun failure sh' h' htrips => ?_
      split
      · have hcancel : (Shell.withStore fun s =>
            ((), { s with executor := s.executor.cancel })).Ends
              (fun _ => sh.Trips (.ofLine (Text.trim text))) sh' :=
          h'.withStore_ends (h'.store.of_eq rfl rfl rfl rfl rfl)
        exact hcancel.bind fun _ _ h₁ => (h₁.say _).bind fun _ _ h₂ => Act.Ends.pure h₂
      · exact Act.Ends.throw h' htrips

theorem handleLine_eq_ok {text : String} {b : Bool} {sh' : Shell}
    (hrun : (handleLine text).run sh = (.ok b, sh')) (hb : b = true) :
    Command.ofLine (Text.trim text) = .quit := by
  subst hb
  unfold Shell.handleLine at hrun
  dsimp only at hrun
  split at hrun
  · cases hrun
  · split at hrun
    · obtain ⟨-, _, -, hrun⟩ := Act.exists_of_run_bind hrun
      cases hrun
    · rcases Act.of_run_tryCatch hrun with hrun | ⟨failure, sh₁, hrun⟩
      · exact of_decide_eq_true (handle_eq_ok hrun).symm
      · split at hrun
        · obtain ⟨-, _, -, hrun⟩ := Act.exists_of_run_bind hrun
          obtain ⟨-, _, -, hrun⟩ := Act.exists_of_run_bind hrun
          cases hrun
        · cases hrun

/-! ## Sessions -/

theorem Sturdy.runAside (h : sh.Sturdy) : Shell.runAside.Ends (fun _ => True) sh := by
  unfold Shell.runAside
  have h₁ : Sturdy { sh with putOff := ⟨false, true⟩ } := ⟨h.store, h.hooks⟩
  refine Act.Ends.after rfl (Act.Ends.get ?_)
  have hrun := h₁.runIn.mono fun _ _ => trivial
  refine hrun.discarded.bind fun _ sh' h' => Act.Ends.of_ok rfl ⟨h'.store, h'.hooks⟩

theorem Sturdy.take (h : sh.Sturdy) (input : Input) :
    (Shell.take input).Ends (fun _ => True) sh := by
  cases input with
  | line text => exact (h.handleLine text).mono fun _ _ => trivial
  | finish => exact (h.say _).bind fun _ _ h' => Act.Ends.pure h'
  | interrupt =>
      have hcancel : (Shell.withStore fun s =>
          ((), { s with executor := s.executor.cancel })).Ends (fun _ => True) sh :=
        h.withStore_ends (h.store.of_eq rfl rfl rfl rfl rfl)
      exact hcancel.bind fun _ _ h' => Act.Ends.pure h'
  | interruptRun => exact h.runAside.bind fun _ _ h' => Act.Ends.pure h'

theorem Sturdy.loadDocument (h : sh.Sturdy) (path : Files.Path) :
    (Shell.loadDocument path).Ends (fun _ => True) sh := by
  refine Act.Ends.get ?_
  cases hload : sh.tree.loadDocument path with
  | error failure => exact ⟨_, sh, Act.run_bind_error rfl, h, fun _ _ => trivial⟩
  | ok imported =>
      refine Act.Ends.after (a := imported) rfl ?_
      cases imported with
      | refused problems => exact (h.showAll _).bind fun _ _ h' => Act.Ends.pure h'
      | document d =>
          refine (h.importLoaded (Files.Tree.sturdy_of_loadDocument hload)).bind
            fun problems sh' h' => ?_
          split
          · exact (h'.showAll _).bind fun _ _ h₁ =>
              h₁.fetchNotices.bind fun _ _ h₂ => Act.Ends.pure h₂
          · exact h'.fetchNotices.bind fun _ _ h₁ => Act.Ends.pure h₁

theorem Sturdy.welcome (h : sh.Sturdy) {allowed : Failure → Prop} :
    Shell.welcome.Ends allowed sh :=
  Act.Ends.get <| (h.showAll _).bind fun _ _ h₁ => (h₁.say _).bind fun _ _ h₂ => h₂.say _

theorem Sturdy.beginSession (h : sh.Sturdy) (initial : Option Files.Path) :
    (Shell.beginSession initial).Ends (fun _ => True) sh := by
  cases initial with
  | some path => exact (h.loadDocument path).bind fun _ _ h' => h'.welcome
  | none =>
      have hrestore : (Shell.onStore (·.restore)).Ends (fun _ => True) sh :=
        h.onStore rfl h.store.restore fun _ _ => trivial
      refine hrestore.bind fun found sh' h' => ?_
      split
      · exact h'.fetchNotices.bind fun _ _ h₁ => (h₁.say _).bind fun _ _ h₂ => h₂.welcome
      · exact h'.welcome

/-- The shells that are reached, whatever a session takes and however its steps end: the
program starts them, or they are started on a store without listeners of its own. Other
programs may write files meanwhile, and hooks may cancel runs. -/
inductive Reached : Shell → Prop
  | start {settings : Settings} {tree : Files.Tree} {tables : Tables} {clock issued : Nat}
      {sh : Shell} (hstart : Shell.start settings tree tables clock issued = .ok sh) : Reached sh
  | startOn {executor : Executor} {asked : Int} {archive : Option Archive}
      {notices : Option NoticeQueue} {autosave : Bool} {issued : Nat} {settings : Settings}
      {tree : Files.Tree} {tables : Tables} {sh : Shell}
      (hstart : Shell.startOn (.create executor (.ofCap asked) archive notices [] autosave issued)
        settings tree tables = .ok sh) : Reached sh
  | begun {sh : Shell} (h : Reached sh) (initial : Option Files.Path) :
      Reached ((beginSession initial).run sh).2
  | taken {sh : Shell} (h : Reached sh) (input : Input) : Reached ((take input).run sh).2
  | handled {sh : Shell} (h : Reached sh) (line : String) : Reached ((handle line).run sh).2
  | filed {sh : Shell} (h : Reached sh) (tree : Files.Tree) : Reached (sh.withTree tree)
  | hooked {sh : Shell} (h : Reached sh) {hooks : List Hook}
      (honly : ∀ hook ∈ hooks, hook.action.onlyCancels = true) (nestedLine : Option String) :
      Reached (sh.withHooks hooks nestedLine)

theorem Reached.sturdy (h : sh.Reached) : sh.Sturdy := by
  induction h with
  | start hstart =>
      obtain ⟨_, _, hstart⟩ := bind_eq_ok.mp hstart
      obtain ⟨_, _, hstart⟩ := bind_eq_ok.mp hstart
      obtain rfl := Except.ok.inj hstart
      exact ⟨Store.sturdy_create _ _ _ _ (List.forall_mem_nil _) _ _, List.forall_mem_nil _⟩
  | startOn hstart =>
      obtain ⟨_, _, hstart⟩ := bind_eq_ok.mp hstart
      obtain rfl := Except.ok.inj hstart
      exact ⟨Store.sturdy_create _ _ _ _ (List.forall_mem_nil _) _ _, List.forall_mem_nil _⟩
  | begun _ initial ih => exact (ih.beginSession initial).sturdy
  | taken _ input ih => exact (ih.take input).sturdy
  | handled _ line ih => exact (ih.handle line).sturdy
  | filed _ tree ih => exact ih.withTree tree
  | hooked _ honly _ ih => exact ⟨ih.store, honly⟩

/-! ## Naming by a list or a record -/

section

variable {id text : String} {rest : List String} {changes : Record} {n : Node} {name : String}
  {v : Value} {container : Container} (hread : Json.read text = .ok (.record changes))
  (hfind : sh.store.graph.findNode? id = some n) (hname : name ∈ n.kind.namedBy?)
  (hmem : (name, v) ∈ changes) (hv : v.checkHashable = .error (.unhashable container))
include hread hfind hname hmem hv

theorem configure_of_naming : sh.store.configure id (.settings (.record changes))
    = (.error (.fault (.unhashable container)), sh.store) := by
  have hdistinct : changes.DistinctNames := (Json.fits_of_read hread).everywhere.self.2
  have hconfig : n.changedConfig (.settings (.record changes))
      = .error (.unhashable container) :=
    Config.ofRecord_of_unhashable hname (Record.get?_merge_of_mem hdistinct hmem) hv
  unfold Store.configure
  rw [hfind]
  dsimp only
  rw [hconfig]

theorem performConfig_of_naming : (performConfig (id :: text :: rest)).run sh
    = (.error (.fault (.unhashable container)), sh) := by
  have hconfigure := configure_of_naming hread hfind hname hmem hv
  unfold performConfig
  dsimp only
  rw [Document.readJson_of_read hread]
  refine Act.run_bind_error ?_
  unfold Shell.onStore
  dsimp only [ExceptT.run, ExceptT.mk]
  rw [hconfigure]

/-- What names by a list or a record what a node does breaks the line off, and with it the
session: it is not refused by the model. -/
theorem handle_of_naming {line : String}
    (hline : Command.ofLine line = .config (id :: text :: rest)) :
    (handle line).run sh = (.error (.fault (.unhashable container)), sh) := by
  have hplain : (Shell.performPlain (.config (id :: text :: rest))).run sh
      = (.error (.fault (.unhashable container)), sh) :=
    Act.run_tryCatch_error (performConfig_of_naming hread hfind hname hmem hv)
  have hhandle : (Shell.handleWith (nestedOf sh) line).run sh
      = (.error (.fault (.unhashable container)), sh) := by
    unfold Shell.handleWith
    rw [hline]
    exact Act.run_bind_error hplain
  have hget : (get : Act Shell).run sh = (.ok sh, sh) := rfl
  unfold Shell.handle
  rw [Act.run_bind_ok hget]
  exact hhandle

end

/-! ## The headline theorem -/

/-- **Every line is answered**: in every shell that is reached, a line that does not trip is
carried out to its end, and nothing but the command to quit asks for the end of the session.
A line whose settings name by a list or a record what a node does is broken off. -/
theorem handle_answers (hreached : sh.Reached) :
    (∀ line, ¬ sh.Trips (.ofLine line) →
      ((handle line).run sh).1 = .ok (decide (Command.ofLine line = .quit)))
    ∧ (∀ text, ¬ sh.Trips (.ofLine (Text.trim text)) →
        ∃ b, ((handleLine text).run sh).1 = .ok b
          ∧ (b = true → Command.ofLine (Text.trim text) = .quit))
    ∧ ∀ (line id text : String) (rest : List String) (changes : Record) (n : Node) (name : String)
        (v : Value) (container : Container),
        Command.ofLine line = .config (id :: text :: rest) →
        Json.read text = .ok (.record changes) → sh.store.graph.findNode? id = some n →
        name ∈ n.kind.namedBy? → (name, v) ∈ changes →
        v.checkHashable = .error (.unhashable container) →
          ((handle line).run sh).1 = .error (.fault (.unhashable container)) := by
  have h := hreached.sturdy
  refine ⟨?_, ?_, ?_⟩
  · intro line htrips
    obtain ⟨b, sh', hrun, -⟩ := ((h.handle line).mono fun _ ht => htrips ht).exists_ok
    rw [hrun, handle_eq_ok hrun]
  · intro text htrips
    obtain ⟨b, sh', hrun, -⟩ := ((h.handleLine text).mono fun _ ht => htrips ht).exists_ok
    exact ⟨b, by rw [hrun], handleLine_eq_ok hrun⟩
  · intro line id text rest changes n name v container hline hread hfind hname hmem hv
    exact congrArg Prod.fst (handle_of_naming hread hfind hname hmem hv hline)

/-- A transform is added. An operation that does not exist is answered with an error, but a
list in the place of the operation ends the session. -/
theorem handle_answers_unless_named_by_a_list :
    let settings : Settings := { Settings.default with databasePath := ⟨"", ["workflow.db"]⟩ }
    let s : Store := .create (.idle (some 100) 0) (.ofCap 50) none (some .empty) [] false 0
    let started : Shell := ⟨settings, s, .ofTables .empty settings.storageKey, .empty,
      ⟨[(["workflow.db"], .file Files.databaseHead)]⟩, [], [], .nothing, none⟩
    let sh := ((handle "/add transform").run started).2
    startOn s settings .empty .empty = .ok started
      ∧ ((handle "/config node_000000000001 \x7b\"operation\": \"reverse\"\x7d").run sh).1
        = .ok false
      ∧ ((handle "/config node_000000000001 \x7b\"operation\": []\x7d").run sh).1
        = .error (.fault (.unhashable .list)) := by
  intro settings s started sh
  have hstarted : startOn s settings .empty .empty = .ok started := by
    unfold startOn openDatabase Files.Tree.openDatabase
    rw [Files.Tree.ensureDirectory]
    decide +kernel
  have hreached : sh.Reached := .handled (.startOn hstarted) _
  obtain ⟨hanswers, -, hbreaks⟩ := handle_answers hreached
  have hrefused : Command.ofLine "/config node_000000000001 \x7b\"operation\": \"reverse\"\x7d"
      = .config ["node_000000000001", "\x7b\"operation\": \"reverse\"\x7d"] := by decide +kernel
  have hreverse : Json.read "\x7b\"operation\": \"reverse\"\x7d"
      = .ok (.record [("operation", .text "reverse")]) := by decide +kernel
  have hbroken : Command.ofLine "/config node_000000000001 \x7b\"operation\": []\x7d"
      = .config ["node_000000000001", "\x7b\"operation\": []\x7d"] := by decide +kernel
  have hlist : Json.read "\x7b\"operation\": []\x7d"
      = .ok (.record [("operation", .list [])]) := by decide +kernel
  let added : Node := ⟨"node_000000000001", .transform, .origin, "Transform",
    some (Config.initial .transform)⟩
  have hfind : sh.store.graph.findNode? "node_000000000001" = some added := by decide +kernel
  refine ⟨hstarted, ?_, ?_⟩
  · refine (hanswers _ fun htrips => ?_).trans (congrArg _ (decide_eq_false ?_))
    · rw [hrefused] at htrips
      cases htrips with
      | settings hread =>
          rw [hreverse] at hread
          cases hread
      | naming hread _ _ hmem hv =>
          rw [hreverse] at hread
          cases hread
          obtain ⟨-, rfl⟩ := Prod.mk.inj (List.mem_singleton.mp hmem)
          exact hv rfl
    · rw [hrefused]
      intro hquit
      cases hquit
  · exact hbreaks _ _ _ [] _ added "operation" _ _ hbroken hlist hfind rfl (.head _) rfl

end Shell
end Workflow
