/-
  DependencyScope.Proofs.Session.Telling — when listeners are told of selections.

  Listeners that only put on record what they are told do not interfere with each other.  An
  operation that fails has told none of them anything: single writes announce a selection after all
  that may fail, and a batch that fails drops what it has noted.  A batch that succeeds first makes
  all of its writes, and then tells the listeners of each selection in turn, so that they all see
  what the batch has come to.

  Main definitions:
    * `Dependency.Recording` — the listeners of a dependency only put on record what they are told;
    * `Session.notices` — what they put on record;
    * `Operation.defers`, `Operation.body` — batches, and what they do before listeners are told.

  Main results:
    * `Session.foldl_fire` — listeners are told in turn, and nothing else happens;
    * `Session.events_of_error` — an operation that fails tells no listener;
    * `Session.noted_body` — a batch that succeeds has noted its selections, and told nobody yet;
    * `Session.told_in_order` — when listeners are told, and what.
-/
import DependencyScope.Proofs.Session.Noting
import DependencyScope.Proofs.Session.Partway

namespace DependencyScope

open DependencyScope.Text DependencyScope.Action

/-! ## §1. Listeners that only record. -/

/-- The listeners of the dependency pass no version on. -/
def Dependency.Recording (d : Dependency) : Prop := ∀ listener ∈ d.listeners, listener.chain = none

theorem Dependency.Recording.of_listeners {d d' : Dependency} (h : d.Recording)
    (hsame : d'.listeners = d.listeners) : d'.Recording := by
  unfold Recording
  rw [hsame]
  exact h

theorem Dependency.robust_recording :
    Dependency.Robust (fun _ => True) (fun _ => True) Dependency.Recording where
  declared _ _ _ _ _ := nofun
  group _ _ := nofun
  copied _ _ _ _ := nofun
  located _ _ h := h
  undefaulted h := h
  selected h hselect := by
    obtain ⟨selected, rfl⟩ := (Reselects.of_select hselect).rest
    exact h
  declares _ h hdeclare := by
    rw [declare_spec hdeclare]
    exact h
  chosen h hchoose := by
    obtain ⟨default, selected, hdependency⟩ := choose_spec hchoose
    rw [hdependency]
    exact h
  redeclared _ := trivial
  relocated _ _ _ := trivial
  read _ := trivial

namespace Session

variable {σ τ : Session}

/-- What the listeners of a dependency put on record when they are told of a selection: they are
told one after the other in the order in which they were added, and each sees the key and the spec
of the dependency at that time. -/
def notices (σ : Session) (id : DependencyId) : List Event :=
  let d := σ.store.dependency id
  d.listeners.map fun listener => .selected listener.label d.key (σ.store.spec id)

/-- Steps that only put events on record put these there one after the other. -/
theorem foldl_events {α : Type} {step : Session → α → Session} {note : α → List Event}
    (as : List α) : (∀ a ∈ as, ∀ events, step { σ with events := events } a
        = { σ with events := events ++ note a }) →
      ∀ events, as.foldl step { σ with events := events }
        = { σ with events := events ++ as.flatMap note } := by
  induction as with
  | nil => simp
  | cons a as ih =>
    intro hstep events
    rw [List.forall_mem_cons] at hstep
    rw [List.foldl_cons, hstep.1, ih hstep.2, List.flatMap_cons, List.append_assoc]

/-- Listeners that only record are told in turn. -/
theorem fire_of_recording (h : σ.Records Dependency.Recording) (id : DependencyId) :
    σ.fire id = { σ with events := σ.events ++ σ.notices id } := by
  unfold fire fireWithin notices
  rw [List.map_eq_flatMap]
  refine foldl_events (σ := σ) _ (fun listener hlistener events => ?_) σ.events
  dsimp only
  rw [h id listener hlistener]
  rfl

/-- So they are for several selections, and what they are told is about the last session. -/
theorem foldl_fire (h : σ.Records Dependency.Recording) (ids : List DependencyId) :
    ids.foldl Session.fire σ = { σ with events := σ.events ++ ids.flatMap σ.notices } :=
  foldl_events (σ := σ) ids
    (fun id _ events => fire_of_recording (σ := { σ with events := events }) h id) σ.events

end Session

/-! ## §2. Operations that fail. -/

namespace Namespace

/-- An alias selects nothing. -/
theorem mute_addAlias (n : Namespace) (key existing : String) : Mute (n.addAlias key existing) := by
  have hsource : Mute (n.aliasSource existing) := by
    unfold aliasSource useInherited
    refine (Idle.view _).mute.bind fun found => ?_
    rcases found with _ | ⟨id⟩ | ⟨sub⟩
    · refine (Idle.read _).mute.bind fun inherited => ?_
      cases inherited with
      | none => exact (Idle.throw _).mute
      | some _ =>
        refine (Idle.read _).mute.bind fun found => ?_
        rcases found with _ | ⟨source⟩ | ⟨sub⟩
        · exact (Idle.throw _).mute
        · exact (n.idle_ensureNoSub _).mute.bind fun _ => n.mute_storeCopy _ source
        · exact (Idle.throw _).mute
    · exact .pure id
    · exact (Idle.throw _).mute
  unfold addAlias
  refine hsource.bind fun id => (Idle.view _).mute.bind fun place => ?_
  exact (place.1.idle_ensureNoSub place.2).mute.bind fun _ => (Mute.update _).bind fun _ => .pure id

theorem mute_openSub (n : Namespace) (key : String) : Mute (n.openSub key) := by
  unfold openSub
  refine (Idle.view _).mute.bind fun found => ?_
  rcases found with _ | ⟨id⟩ | ⟨sub⟩
  · exact .change _
  · exact (Idle.throw _).mute
  · exact .pure sub

end Namespace

namespace Session

variable {σ τ : Session} {e : Error}

/-- What a batch that fails has noted is dropped. -/
theorem events_of_deferring_error {α : Type} {act : Action α} {undo : Session → Session → Session}
    {C : α → Session → Prop} (hact : Ends act C (fun τ => ∃ ids, (held σ).Noted ids τ) (held σ))
    (hrun : (deferring (restoring undo act)).run σ = (.error e, τ))
    (hundo : ∀ σ τ : Session, (undo σ τ).events = τ.events) : τ.events = σ.events := by
  obtain ⟨undone, waiting, hundone, rfl, -⟩ := exists_of_deferring_error hrun
  obtain ⟨mid, hmid, rfl⟩ := exists_of_restoring_error hundone
  obtain ⟨ids, hnoted⟩ := hact.2 e mid hmid
  exact (hundo _ mid).trans (hnoted _ rfl).2

/-- An operation that fails has told no listener of anything. -/
theorem events_of_error (hσ : σ.store.Sound) {operation : Operation}
    (hpresent : operation.Present σ.store)
    (hrun : (perform operation).run σ = (.error e, τ)) : τ.events = σ.events := by
  have huses {n : Namespace} {pairs : List (String × Value)} {σ : Session} (hσ : σ.store.Sound)
      (hrun : (n.useAll pairs).run σ = (.error e, τ)) : τ.events = σ.events :=
    events_of_deferring_error (Step.noted_setAll (σ := held σ) hσ rfl n pairs) hrun fun _ _ => rfl
  cases hchains : operation.chains with
  -- a single write announces last, when nothing can fail any more
  | false => exact (refuses_perform hchains σ e τ hrun).events
  | true =>
    cases operation with
    | addAlias n key existing =>
      have hmute := (n.mute_addAlias key existing σ).2
      rw [error_of_return hrun] at hmute
      exact hmute
    | useAll n pairs => exact huses hσ (error_of_return hrun)
    -- the sub-namespace is made before the batch begins, and that selects nothing
    | openSubUsing n key pairs =>
      have hfilled : (n.openSubUsing key pairs).run σ = (.error e, τ) := error_of_return hrun
      have hopened := (n.mute_openSub key σ).2
      have hsound := (growsAt_openSub hσ hpresent key).1.sound
      unfold Namespace.openSubUsing at hfilled
      rcases hopen : (n.openSub key).run σ with ⟨result, mid⟩
      rw [hopen] at hopened hsound
      cases result with
      | error e' =>
        rw [run_bind_error hopen] at hfilled
        cases hfilled
        exact hopened
      | ok sub =>
        rw [run_bind_ok hopen] at hfilled
        exact (huses hsound (error_of_return hfilled)).trans hopened
    | needAll n pairs =>
      have hneeds : (n.needAll pairs).run σ = (.error e, τ) := error_of_return hrun
      exact events_of_deferring_error (Step.noted_needsAll (σ := held σ) hσ rfl n pairs) hneeds
        fun _ _ => rfl
    | useSpec n text =>
      have huse : (n.useSpec text).run σ = (.error e, τ) := error_of_return hrun
      rw [Namespace.useSpec_eq] at huse
      exact events_of_deferring_error (Namespace.noted_ownUse (σ := held σ) hσ rfl text) huse
        fun _ _ => rfl
    | load profile =>
      have hload : (Registry.load profile).run σ = (.error e, τ) := error_of_return hrun
      exact events_of_deferring_error (Registry.noted_parts _ (σ := held σ) hσ rfl) hload
        fun _ _ => rfl
    | _ => exact nomatch hchains

/-- No batch is left open by an operation. -/
theorem waiting_after (h : σ.waiting = none) (operation : Operation) :
    (σ.after operation).waiting = none := by
  cases hnames : operation.asksNames with
  | true =>
    rw [after_of_asksNames hnames]
    exact h
  | false =>
    by_cases hclear : operation = .clearRegistry
    · subst hclear
      exact h
    · have hbatch := (oblivious_perform hnames hclear).batch σ
      rw [h] at hbatch
      exact Option.isSome_eq_false_iff.1 hbatch |> Option.isNone_iff_eq_none.1

theorem Reached.waiting {followsProjects : Bool} (h : Reached followsProjects σ) :
    σ.waiting = none := by
  induction h with
  | start => rfl
  | after _ _ ih => exact waiting_after ih _

end Session

/-! ## §3. Batches that succeed. -/

namespace Operation

/-- Whether an operation is a batch and holds its listeners back. -/
def defers : Operation → Bool
  | .useAll _ _ | .needAll _ _ | .useSpec _ _ | .load _ => true
  | _ => false

/-- What a batch does before listeners are told: all that it writes. -/
def body : Operation → Action Reply
  | .useAll n pairs => do return .entries (← pairs.mapM fun (key, value) => n.set key value)
  | .needAll n pairs => do
    return .dependencies (← pairs.mapM fun (key, value) => n.needAs key value)
  | .useSpec n text => do return .dependency (← n.ownUse text)
  | .load profile => do
    profile.artifacts.toList.forM fun (name, table) => Registry.applyTable name table
    return .done
  | operation => perform operation

end Operation

namespace Session

variable {σ τ : Session} {operation : Operation} {reply : Reply}

/-- A batch that succeeds does its writes, and then the listeners are told of what was noted. -/
theorem exists_of_body {α : Type} {act : Action α} {f : α → Reply}
    {undo : Session → Session → Session} (hwaiting : σ.waiting = none)
    (hrun : (do return f (← deferring (restoring undo act)) : Action Reply).run σ
      = (.ok reply, τ)) :
    ∃ mid, (do return f (← act) : Action Reply).run (held σ) = (.ok reply, mid) ∧
      τ = (mid.waiting.getD []).foldl Session.fire { mid with waiting := none } := by
  obtain ⟨a, υ, hact, hreply⟩ := run_bind_eq_ok.1 hrun
  cases hreply
  obtain ⟨mid, hmid, hτ⟩ := exists_of_deferring_success hact
  rw [hwaiting] at hτ
  exact ⟨mid, run_bind_ok (run_of_restoring_ok hmid) _, hτ⟩

theorem exists_of_defers (hwaiting : σ.waiting = none) (hdefers : operation.defers)
    (hrun : (perform operation).run σ = (.ok reply, τ)) :
    ∃ mid, operation.body.run (held σ) = (.ok reply, mid) ∧
      τ = (mid.waiting.getD []).foldl Session.fire { mid with waiting := none } := by
  cases operation with
  | useAll n pairs => exact exists_of_body hwaiting hrun
  | needAll n pairs => exact exists_of_body hwaiting hrun
  | useSpec n text => exact exists_of_body hwaiting hrun
  | load profile => exact exists_of_body hwaiting hrun
  | _ => exact nomatch hdefers

/-- Batches add no listeners. -/
theorem recording_after (h : σ.Records Dependency.Recording) (hdefers : operation.defers) :
    (σ.after operation).Records Dependency.Recording := by
  have hD := Dependency.robust_recording
  have hreply {α : Type} {act : Action α} {Q : α → Prop} {f : α → Reply}
      (hact : KeepsAt (Session.Records Dependency.Recording) act Q σ) :
      Session.Records Dependency.Recording ((do return f (← act) : Action Reply).run σ).2 := by
    rw [run_return]
    exact hact.1
  have hneed (n : Namespace) (pair : String × Value) :
      Keeps (Session.Records Dependency.Recording) (n.needAs pair.1 pair.2) fun _ => True :=
    Tolerates.keeps_needAs (landing_records hD n) hD (fun _ _ h => h) pair.1 fun _ _ => trivial
  cases operation with
  | useAll n pairs => exact hreply (Namespace.keepsAt_useAll hD h fun _ _ _ hrecord => hrecord)
  | needAll n pairs =>
    have hneeds := Keeps.mapM pairs fun pair _ => hneed n pair
    exact hreply ((hneeds (held σ) h).atomically (Namespace.endsBatch_records hD h))
  | useSpec n text =>
    exact hreply (Namespace.keepsAt_useSpec (landing_records hD n) hD h
      (Namespace.endsBatch_records hD h) (fun _ _ => trivial) fun _ _ _ hrecord => hrecord)
  | load profile =>
    exact hreply (f := fun _ => Reply.done)
      (Registry.keepsAt_load hD h fun _ _ _ hrecord => hrecord)
  | _ => exact nomatch hdefers

/-- Another listener that only records makes no difference to that. -/
theorem recording_listen (h : σ.Records Dependency.Recording) (id : DependencyId) (label : String) :
    (σ.after (.listen id ⟨label, none⟩)).Records Dependency.Recording := by
  refine Store.Records.putDependency h id fun listener hlistener => ?_
  rcases List.mem_append.1 hlistener with hold | hnew
  · exact h id listener hold
  · rw [List.mem_singleton.1 hnew]

/-- The body of a batch notes the selections of the batch. -/
theorem noted_body (hσ : σ.store.Sound) (hdefers : operation.defers) {mid : Session}
    (hbody : operation.body.run (held σ) = (.ok reply, mid))
    (hrun : (perform operation).run σ = (.ok reply, τ)) (hstore : τ.store = mid.store) :
    (held σ).Noted (operation.selections σ) mid := by
  cases operation with
  | useAll n pairs =>
    obtain ⟨es, υ, hwrites, hreply⟩ := run_bind_eq_ok.1 hbody
    cases hreply
    exact (Step.noted_setAll (σ := held σ) hσ rfl n pairs).1 es mid hwrites
  | needAll n pairs =>
    obtain ⟨ids, υ, hwrites, hreply⟩ := run_bind_eq_ok.1 hbody
    cases hreply
    exact (Step.noted_needsAll (σ := held σ) hσ rfl n pairs).1 ids mid hwrites
  | load profile =>
    obtain ⟨_, υ, hwrites, hreply⟩ := run_bind_eq_ok.1 hbody
    cases hreply
    exact (Registry.noted_parts _ (σ := held σ) hσ rfl).1 _ mid hwrites
  | useSpec n text =>
    obtain ⟨id, υ, hwrites, hreply⟩ := run_bind_eq_ok.1 hbody
    cases hreply
    have hnoted := (Namespace.noted_ownUse (σ := held σ) hσ rfl text).1 id mid hwrites
    -- the whole batch is one write, whose reply is that of the body
    have hselections : (Operation.useSpec n text).selections σ = [id].filter fun i =>
        (Operation.useSpec n text).selects ||
          (Operation.useSpec n text).declares && (!σ.store.picked i && mid.store.picked i) := by
      show ([⟨.useSpec n text, σ⟩] : List Step).flatMap Step.selections = _
      rw [List.flatMap_singleton]
      unfold Step.selections
      rw [hrun, ← hstore]
      rfl
    rw [hselections, List.filter_singleton, Bool.cond_eq_ite]
    exact hnoted
  | _ => exact nomatch hdefers

/-- An operation that fails tells no listener of anything.  A batch that succeeds makes all of its
writes before it tells one; then the listeners of each dependency that it has selected are told,
once for each time that it was, in the order of the selections, and what they see is how the batch
has ended. -/
theorem told_in_order {followsProjects : Bool} (hreached : Reached followsProjects σ)
    (hrecording : σ.Records Dependency.Recording) :
    (∀ operation e τ, operation.Present σ.store → (perform operation).run σ = (.error e, τ) →
      τ.events = σ.events ∧ τ.waiting = none) ∧
    ∀ operation reply τ, operation.defers → (perform operation).run σ = (.ok reply, τ) →
      ∃ mid, operation.body.run (held σ) = (.ok reply, mid) ∧ mid.events = σ.events ∧
        τ = { mid with
          waiting := none
          events := σ.events ++ (operation.selections σ).flatMap τ.notices } := by
  refine ⟨fun operation e τ hpresent hrun => ?_, fun operation reply τ hdefers hrun => ?_⟩
  · have hwaiting := waiting_after hreached.waiting operation
    unfold Session.after at hwaiting
    rw [hrun] at hwaiting
    exact ⟨events_of_error hreached.sound hpresent hrun, hwaiting⟩
  · obtain ⟨mid, hbody, hτ⟩ := exists_of_defers hreached.waiting hdefers hrun
    -- a batch adds no listeners, so those that are told at its end only record as well
    let told : Session := { mid with waiting := none }
    have hafter : τ.Records Dependency.Recording := by
      have hkept := recording_after hrecording hdefers
      unfold Session.after at hkept
      rwa [hrun] at hkept
    have hreselected : told.store.Reselected τ.store := by
      rw [hτ]
      exact .foldl_fire _ told
    have htold : told.Records Dependency.Recording := by
      intro id
      obtain ⟨selected, hrecord⟩ := (hreselected.records id).rest
      exact (hafter id).of_listeners (by rw [hrecord])
    rw [foldl_fire htold] at hτ
    have hstore : τ.store = mid.store := by rw [hτ]
    have hheld : (held σ).waiting = some [] := by
      unfold held
      rw [hreached.waiting]
      rfl
    obtain ⟨hwaiting, hevents⟩ :=
      noted_body hreached.sound hdefers hbody hrun hstore [] hheld
    have hnotices : told.notices = τ.notices := by
      funext id
      unfold notices
      rw [hstore]
    refine ⟨mid, hbody, hevents, ?_⟩
    calc τ = { told with events := mid.events ++ (mid.waiting.getD []).flatMap told.notices } := hτ
      _ = _ := by
        rw [hwaiting, hevents, hnotices]
        rfl

/-- Two listeners watch the one dependency that there is. -/
def observed : Session :=
  (((start true).after (.useAll (.registered "n" 0) [("k", .text "g:i:t:1")])).after
    (.listen 0 ⟨"first", none⟩)).after (.listen 0 ⟨"second", none⟩)

/-- Selects the dependency twice. -/
def selectingTwice : Operation := .useAll (.registered "n" 0) [("k", .text "2"), ("k", .text "3")]

/-- Selects it, and then has a text that is no version. -/
def selectingOnce : Operation := .useAll (.registered "n" 0) [("k", .text "2"), ("x", .text "?")]

/-- Each listener is told twice, and sees the last version only.  If the batch fails, none is
told. -/
theorem told_observed :
    (observed.after selectingTwice).events = [.selected "first" "k" "g:i:t:3",
      .selected "second" "k" "g:i:t:3", .selected "first" "k" "g:i:t:3",
      .selected "second" "k" "g:i:t:3"] ∧
    (observed.after selectingOnce).events = [] := by
  have hreached : Reached true observed :=
    .after (.after (.after .start trivial) trivial) trivial
  have hstart : (start true).Records Dependency.Recording := fun _ _ hlistener => by
    exact nomatch hlistener
  have hrecording : observed.Records Dependency.Recording :=
    recording_listen (recording_listen (recording_after hstart rfl) 0 "first") 0 "second"
  obtain ⟨hfailed, htold⟩ := told_in_order hreached hrecording
  constructor
  · have hsucceeds : ((perform selectingTwice).run observed).1.toOption.isSome := by decide +kernel
    have hselections : selectingTwice.selections observed = [0, 0] := by decide +kernel
    have hnotices : (observed.after selectingTwice).notices 0
        = [.selected "first" "k" "g:i:t:3", .selected "second" "k" "g:i:t:3"] := by decide +kernel
    have hempty : observed.events = [] := by decide +kernel
    obtain ⟨reply, τ, hrun⟩ := exists_of_isSome hsucceeds
    have hafter : observed.after selectingTwice = τ := congrArg Prod.snd hrun
    obtain ⟨mid, -, -, hτ⟩ := htold _ reply τ rfl hrun
    rw [hafter] at hnotices ⊢
    rw [hτ]
    show observed.events ++ (selectingTwice.selections observed).flatMap τ.notices = _
    rw [hselections, hempty, List.flatMap_cons, List.flatMap_cons, hnotices]
    rfl
  · have hfails : ((perform selectingOnce).run observed).1.toOption.isNone := by decide +kernel
    have hempty : observed.events = [] := by decide +kernel
    obtain ⟨e, τ, hrun⟩ := exists_of_isNone hfails
    have hafter : observed.after selectingOnce = τ := congrArg Prod.snd hrun
    rw [hafter, (hfailed selectingOnce e τ trivial hrun).1, hempty]

end Session

end DependencyScope
