import Workflow.Proofs.Json.Writing
import Workflow.Proofs.Shell.Verdict
import Workflow.Proofs.Store.Sturdy

/-!
# Activities that come to their end

An activity comes to its end if it leaves a sturdy shell and fails only in a way that is
allowed (`Act.Ends`). There is one rule for each way to put activities together and one for
each thing that a shell does: showing, telling, acting on its store. From these the commands
that edit the workflow and those that list what there is are found to fail in no way at all.
-/

namespace Workflow

/-- A shell whose store can be written down, and whose hooks do no more than cancel its
runs. -/
structure Shell.Sturdy (sh : Shell) : Prop where
  store : sh.store.Sturdy
  hooks : ∀ hook ∈ sh.hooks, hook.action.onlyCancels = true

theorem Shell.Sturdy.withStore {sh : Shell} (h : sh.Sturdy) {s : Store} (hs : s.Sturdy) :
    Sturdy { sh with store := s } :=
  ⟨hs, h.hooks⟩

/-! ## Activities that end in a sturdy shell -/

/-- The model refused a configuration, which a shell shows as an error. -/
def Failure.IsRefusal : Failure → Prop
  | .fault (.model _) => True
  | _ => False

namespace Act

variable {α β : Type} {allowed : Failure → Prop} {sh : Shell}

theorem run_tryCatch_ok {x : Act α} {handler : Failure → Act α} {sh' : Shell} {a : α}
    (h : x.run sh = (.ok a, sh')) : (tryCatch x handler).run sh = (.ok a, sh') := by
  refine (congrFun (ExceptT.run_tryCatch x handler) sh).trans ?_
  dsimp only [bind, StateT.bind]
  rw [h]
  rfl

theorem run_tryCatch_error {x : Act α} {handler : Failure → Act α} {sh' : Shell}
    {failure : Failure} (h : x.run sh = (.error failure, sh')) :
    (tryCatch x handler).run sh = (handler failure).run sh' := by
  refine (congrFun (ExceptT.run_tryCatch x handler) sh).trans ?_
  dsimp only [bind, StateT.bind]
  rw [h]

theorem exists_of_run_bind {x : Act α} {f : α → Act β} {b : β} {sh' : Shell}
    (h : (x >>= f).run sh = (.ok b, sh')) :
    ∃ a sh₁, x.run sh = (.ok a, sh₁) ∧ (f a).run sh₁ = (.ok b, sh') := by
  rcases hx : x.run sh with ⟨failure | a, sh₁⟩
  · rw [run_bind_error hx] at h
    cases h
  · rw [run_bind_ok hx] at h
    exact ⟨a, sh₁, rfl, h⟩

theorem of_run_tryCatch {x : Act α} {handler : Failure → Act α} {a : α} {sh' : Shell}
    (h : (tryCatch x handler).run sh = (.ok a, sh')) : x.run sh = (.ok a, sh')
      ∨ ∃ failure sh₁, (handler failure).run sh₁ = (.ok a, sh') := by
  rcases hx : x.run sh with ⟨failure | b, sh₁⟩
  · rw [run_tryCatch_error hx] at h
    exact .inr ⟨failure, sh₁, h⟩
  · rw [run_tryCatch_ok hx] at h
    exact .inl h

/-- An activity leaves the shell sturdy, and fails only in a way that is allowed. -/
def Ends (allowed : Failure → Prop) (x : Act α) (sh : Shell) : Prop :=
  ∃ result sh', x.run sh = (result, sh') ∧ sh'.Sturdy
    ∧ ∀ failure, result = .error failure → allowed failure

theorem Ends.exists_ok {x : Act α} (h : x.Ends (fun _ => False) sh) :
    ∃ a sh', x.run sh = (.ok a, sh') ∧ sh'.Sturdy := by
  obtain ⟨result, sh', hrun, hsturdy, hallowed⟩ := h
  cases result with
  | error failure => exact (hallowed failure rfl).elim
  | ok a => exact ⟨a, sh', hrun, hsturdy⟩

theorem Ends.sturdy {x : Act α} (h : x.Ends allowed sh) : (x.run sh).2.Sturdy := by
  obtain ⟨result, sh', hrun, hsturdy, -⟩ := h
  rw [hrun]
  exact hsturdy

theorem Ends.mono {x : Act α} {allowed' : Failure → Prop} (h : x.Ends allowed sh)
    (himp : ∀ failure, allowed failure → allowed' failure) : x.Ends allowed' sh := by
  obtain ⟨result, sh', hrun, hsturdy, hallowed⟩ := h
  exact ⟨result, sh', hrun, hsturdy, fun failure hf => himp failure (hallowed failure hf)⟩

theorem Ends.of_ok {x : Act α} {a : α} {sh' : Shell} (hrun : x.run sh = (.ok a, sh'))
    (h : sh'.Sturdy) : x.Ends allowed sh :=
  ⟨_, _, hrun, h, nofun⟩

theorem Ends.bind {x : Act α} {f : α → Act β} (hx : x.Ends allowed sh)
    (hf : ∀ a sh', sh'.Sturdy → (f a).Ends allowed sh') :
    (x >>= f).Ends allowed sh := by
  obtain ⟨result, sh', hrun, hsturdy, hallowed⟩ := hx
  cases result with
  | error failure =>
      refine ⟨_, _, run_bind_error hrun, hsturdy, fun failure' hfailure => ?_⟩
      exact hallowed failure' (congrArg _ (Except.error.inj hfailure))
  | ok a =>
      obtain ⟨result, sh'', hrun', hsturdy', hallowed'⟩ := hf a sh' hsturdy
      exact ⟨result, sh'', (run_bind_ok hrun).trans hrun', hsturdy', hallowed'⟩

theorem Ends.after {x : Act α} {f : α → Act β} {a : α} {sh' : Shell}
    (hx : x.run sh = (.ok a, sh')) (hf : (f a).Ends allowed sh') :
    (x >>= f).Ends allowed sh := by
  obtain ⟨result, sh'', hrun, hrest⟩ := hf
  exact ⟨result, sh'', (run_bind_ok hx).trans hrun, hrest⟩

/-- What is thrown is caught, where the shell is as the failure left it. -/
theorem Ends.tryCatch {x : Act α} {handler : Failure → Act α} {met : Failure → Prop}
    (hx : x.Ends met sh)
    (hhandler : ∀ failure sh', sh'.Sturdy → met failure → (handler failure).Ends allowed sh') :
    (tryCatch x handler).Ends allowed sh := by
  obtain ⟨result, sh', hrun, hsturdy, hmet⟩ := hx
  cases result with
  | ok a =>
      exact ⟨.ok a, sh', run_tryCatch_ok hrun, hsturdy, nofun⟩
  | error failure =>
      obtain ⟨result, sh'', hrun', hrest⟩ := hhandler failure sh' hsturdy (hmet failure rfl)
      exact ⟨result, sh'', (run_tryCatch_error hrun).trans hrun', hrest⟩

theorem Ends.throw {failure : Failure} (h : sh.Sturdy) (hallowed : allowed failure) :
    (throw failure : Act α).Ends allowed sh :=
  ⟨_, _, rfl, h, fun _ hf => Except.error.inj hf ▸ hallowed⟩

theorem Ends.pure {a : α} (h : sh.Sturdy) : (pure a : Act α).Ends allowed sh :=
  Ends.of_ok rfl h

theorem Ends.discarded {x : Act α} (hx : x.Ends allowed sh) :
    (discard x : Act PUnit).Ends allowed sh := by
  have hbind : (discard x : Act PUnit) = x >>= fun _ => Pure.pure PUnit.unit := rfl
  rw [hbind]
  exact hx.bind fun _ _ h' => Ends.pure h'

theorem Ends.get {f : Shell → Act α} (h : (f sh).Ends allowed sh) :
    (get >>= f).Ends allowed sh :=
  Ends.after rfl h

end Act

namespace Shell

variable {α : Type} {allowed : Failure → Prop} {sh : Shell}

section

variable (h : sh.Sturdy)
include h

theorem Sturdy.showAll (l : List Shown) : (Shell.showAll l).Ends allowed sh :=
  Act.Ends.of_ok rfl ⟨h.store, h.hooks⟩

theorem Sturdy.say (line : String) : (Shell.say line).Ends allowed sh := h.showAll _

theorem Sturdy.onStore {f : Store → Except Failure α × Store} {result : Except Failure α}
    {s : Store} (hf : f sh.store = (result, s)) (hs : s.Sturdy)
    (hallowed : ∀ failure, result = .error failure → allowed failure) :
    (Shell.onStore f).Ends allowed sh := by
  refine ⟨result, { sh with store := s }, ?_, h.withStore hs, hallowed⟩
  unfold Shell.onStore
  dsimp only [ExceptT.run, ExceptT.mk]
  rw [hf]

theorem Sturdy.withStore_ends {f : Store → α × Store} (hs : (f sh.store).2.Sturdy) :
    (Shell.withStore f).Ends allowed sh :=
  h.onStore (f := fun s => (f s).map .ok id) rfl hs nofun

theorem Sturdy.tell (level : Level) (message : String) :
    (Shell.tell level message).Ends allowed sh := by
  refine Act.Ends.get ?_
  split
  · obtain ⟨s, hnotify, hs⟩ := h.store.notify level message
    exact h.onStore hnotify hs nofun
  · exact Act.Ends.of_ok rfl ⟨h.store, h.hooks⟩

theorem Sturdy.fetchNotices : Shell.fetchNotices.Ends allowed sh := by
  have hfetch := fetchNotices_run sh
  split at hfetch
  · exact Act.Ends.of_ok hfetch (h.withStore (h.store.of_eq rfl rfl rfl rfl rfl))
  · exact Act.Ends.of_ok hfetch ⟨h.store, h.hooks⟩

theorem Sturdy.showNotices : Shell.showNotices.Ends allowed sh :=
  h.fetchNotices.bind fun _ _ h' => h'.showAll _

end

/-! ## Editing the workflow -/

section

variable (h : sh.Sturdy)
include h

theorem Sturdy.addNode (kind : NodeKind) {position : Option Position}
    (hposition : ∀ p ∈ position, p.toValue.WithinDigits) :
    (Shell.addNode kind position).Ends allowed sh := by
  obtain ⟨id, s, hadd, hs⟩ := h.store.addNode kind hposition
  exact (h.onStore hadd hs nofun).bind fun _ _ h' => h'.say _

omit h in
theorem withinDigits_readPosition? {x y : String} {p : Position}
    (hp : readPosition? x y = some p) : p.toValue.WithinDigits := by
  unfold readPosition? at hp
  split at hp
  · obtain rfl := Option.some.inj hp
    refine Value.withinDigits_record.mpr (List.forall_mem_cons.mpr ⟨?_, ?_⟩)
    · exact Value.withinDigits_float _
    · exact List.forall_mem_singleton.mpr (Value.withinDigits_float _)
  · cases hp

theorem Sturdy.performAdd (args : List String) :
    (Shell.performAdd args).Ends allowed sh := by
  unfold Shell.performAdd
  split
  · exact h.say _
  · split
    · exact h.say _
    · split
      · rename_i p hp
        refine h.addNode _ fun q hq => ?_
        exact Option.some.inj hq ▸ withinDigits_readPosition? hp
      · exact h.say _
    · exact h.addNode _ fun p hp => absurd hp (Option.not_mem_none p)

theorem Sturdy.connect (source target : String) {handle : Value}
    (hhandle : handle.WithinDigits) :
    (Shell.connect source target handle).Ends allowed sh := by
  obtain ⟨answer, s, hconnect, hs⟩ :=
    h.store.connect source target hhandle Value.withinDigits_null
  refine (h.onStore hconnect hs nofun).bind fun reply sh' h' => ?_
  cases reply with
  | ok id => exact h'.say _
  | error _ => exact Act.Ends.of_ok rfl h'

theorem Sturdy.performConnect (args : List String) :
    (Shell.performConnect args).Ends allowed sh := by
  unfold Shell.performConnect
  split
  · exact h.connect _ _ Value.withinDigits_null
  · dsimp only
    split
    · exact h.connect _ _ (Value.withinDigits_text _)
    · exact h.say _
  · exact h.say _

theorem Sturdy.performDisconnect (args : List String) :
    (Shell.performDisconnect args).Ends allowed sh := by
  unfold Shell.performDisconnect
  split
  · refine (h.withStore_ends (h.store.disconnect _)).bind fun found sh' h' => ?_
    cases found <;> exact h'.say _
  · exact h.say _

theorem Sturdy.performRemove (args : List String) :
    (Shell.performRemove args).Ends allowed sh := by
  unfold Shell.performRemove
  split
  · exact h.say _
  · exact (h.withStore_ends (h.store.removeNodes _)).bind fun _ _ h' => h'.say _

theorem Sturdy.performLabel (args : List String) :
    (Shell.performLabel args).Ends allowed sh := by
  unfold Shell.performLabel
  split
  · refine (h.withStore_ends (h.store.rename _ _)).bind fun found sh' h' => ?_
    cases found <;> exact h'.say _
  · exact h.say _

theorem Sturdy.performValidate : Shell.performValidate.Ends allowed sh :=
  Act.Ends.get <| (h.say _).bind fun _ _ h' => (h'.showAll _).bind fun _ _ h'' => h''.showAll _

end

/-! ## Listing what there is -/

section

variable (h : sh.Sturdy)
include h

theorem Sturdy.exists_nodes : ∃ shown, Shown.nodes sh.store.graph.nodes = .ok shown := by
  unfold Shown.nodes
  split
  · exact ⟨_, rfl⟩
  · refine exists_bind (exists_mapM fun n hn => ?_) fun _ _ => ⟨_, rfl⟩
    have hdigits := (Node.withinDigits_toValue.mp (h.store.holds.graph.nodes n hn).digits).2
    refine exists_bind (Json.exists_write ?_) fun _ _ => ⟨_, rfl⟩
    cases hconfig : n.config with
    | none => decide
    | some c => exact hdigits c hconfig

theorem Sturdy.performNodes : Shell.performNodes.Ends allowed sh := by
  obtain ⟨shown, hshown⟩ := h.exists_nodes
  refine Act.Ends.get ?_
  rw [hshown]
  exact h.showAll _

theorem Sturdy.exists_edgeLines :
    ∃ lines, sh.store.graph.edges.mapM Shown.edgeLine = .ok lines := by
  refine exists_mapM fun e he => ?_
  have hhandle := (Edge.withinDigits_toValue.mp (h.store.holds.graph.edges e he)).1
  unfold Shown.edgeLine
  split
  · exact exists_bind (Value.exists_toText hhandle) fun _ _ => ⟨_, rfl⟩
  · exact ⟨_, rfl⟩

theorem Sturdy.performEdges : Shell.performEdges.Ends allowed sh := by
  obtain ⟨lines, hlines⟩ := h.exists_edgeLines
  refine Act.Ends.get ?_
  rw [hlines]
  exact h.showAll _

end

end Shell
end Workflow
