/-
  DependencyScope.Proofs.Session.Keeps — actions that keep an invariant.

  `KeepsAt I act Q σ` says that from the session `σ` the action ends in a session with `I`, whether
  it fails or not, and that what it yields has `Q`.  `Keeps I act Q` says so for every session that
  has `I` itself.  There is a rule for each way of making an action, so an action keeps an invariant
  by the shape of its definition.

  Main definitions:
    * `Action.KeepsAt`, `Action.Keeps`, with their rules;
    * `Action.Leaves`, `Action.Ends` — what the end of an action has if it succeeds or fails.

  Main results:
    * `Action.run_bind`, `Action.run_read` — what the parts of an action do to a session;
    * `Keeps.bind`, `Keeps.mapM` — invariants are kept step by step;
    * `KeepsAt.atomically` — and by batches, if their ends keep them;
    * `Leaves.bind` — what comes last decides what a success leaves;
    * `exists_of_deferring_error`, `.exists_of_deferring_success` — what a batch has done.
-/
import DependencyScope.Proofs.Session.Discreet

namespace DependencyScope

/-! ## §1. Results and runs. -/

/-- Where a result is mapped to one, there was one. -/
theorem map_eq_ok {ε α β : Type} {x : Except ε α} {f : α → β} {b : β} :
    x.map f = .ok b ↔ ∃ a, x = .ok a ∧ f a = b := by
  cases x <;> simp [Except.map]

theorem bind_eq_ok {ε α β : Type} {x : Except ε α} {f : α → Except ε β} {b : β} :
    x >>= f = .ok b ↔ ∃ a, x = .ok a ∧ f a = .ok b := by
  cases x <;> simp [bind, Except.bind]

namespace Action

variable {α β : Type}

@[simp] theorem run_pure (a : α) (σ : Session) : (pure a : Action α).run σ = (.ok a, σ) := rfl

@[simp] theorem run_throw (e : Error) (σ : Session) :
    (throw e : Action α).run σ = (.error e, σ) := rfl

theorem run_bind (act : Action α) (f : α → Action β) (σ : Session) :
    (act >>= f).run σ = match act.run σ with
      | (.ok a, τ) => (f a).run τ
      | (.error e, τ) => (.error e, τ) := by
  -- the layers of the monad are opened here, and nowhere else
  show (act >>= f) σ = _
  simp only [bind, ExceptT.bind, ExceptT.mk, StateT.bind, ExceptT.bindCont]
  rcases h : act.run σ with ⟨result, τ⟩
  have h' : act σ = (result, τ) := h
  rw [h']
  cases result <;> rfl

theorem run_bind_ok {act : Action α} {σ τ : Session} {a : α} (h : act.run σ = (.ok a, τ))
    (f : α → Action β) : (act >>= f).run σ = (f a).run τ := by
  rw [run_bind, h]

theorem run_bind_error {act : Action α} {σ τ : Session} {e : Error}
    (h : act.run σ = (.error e, τ)) (f : α → Action β) :
    (act >>= f).run σ = (.error e, τ) := by
  rw [run_bind, h]

/-- A sequence succeeds if both of its parts do. -/
theorem run_bind_eq_ok {act : Action α} {f : α → Action β} {σ τ : Session} {b : β} :
    (act >>= f).run σ = (.ok b, τ) ↔
      ∃ a υ, act.run σ = (.ok a, υ) ∧ (f a).run υ = (.ok b, τ) := by
  rw [run_bind]
  rcases act.run σ with ⟨result, υ⟩
  cases result with
  | ok a => exact ⟨fun h => ⟨a, υ, rfl, h⟩, fun ⟨_, _, h, h'⟩ => by cases h; exact h'⟩
  | error e => exact ⟨fun h => (nomatch h), fun ⟨_, _, h, _⟩ => nomatch h⟩

/-- An action without a result has failed. -/
theorem exists_of_isNone {act : Action α} {σ : Session} (h : (act.run σ).1.toOption.isNone) :
    ∃ e τ, act.run σ = (.error e, τ) := by
  rcases hrun : act.run σ with ⟨result, τ⟩
  rw [hrun] at h
  cases result with
  | ok a => exact nomatch h
  | error e => exact ⟨e, τ, rfl⟩

/-- An action with a result has succeeded. -/
theorem exists_of_isSome {act : Action α} {σ : Session} (h : (act.run σ).1.toOption.isSome) :
    ∃ a τ, act.run σ = (.ok a, τ) := by
  rcases hrun : act.run σ with ⟨result, τ⟩
  rw [hrun] at h
  cases result with
  | ok a => exact ⟨a, τ, rfl⟩
  | error e => exact nomatch h

/-- What is made of a result does not touch the session. -/
theorem run_return (act : Action α) (f : α → β) (σ : Session) :
    ((do return f (← act) : Action β).run σ).2 = (act.run σ).2 := by
  rw [run_bind]
  rcases act.run σ with ⟨result, τ⟩
  cases result <;> rfl

theorem exists_of_return {act : Action α} {f : α → β} {σ τ : Session} {b : β}
    (h : (do return f (← act) : Action β).run σ = (.ok b, τ)) :
    ∃ a, act.run σ = (.ok a, τ) ∧ f a = b := by
  obtain ⟨a, υ, hact, hreturn⟩ := run_bind_eq_ok.1 h
  cases hreturn
  exact ⟨a, hact, rfl⟩

/-- Returning something after an action does not fail. -/
theorem error_of_return {act : Action α} {f : α → β} {σ τ : Session} {e : Error}
    (h : (do return f (← act) : Action β).run σ = (.error e, τ)) : act.run σ = (.error e, τ) := by
  rw [run_bind] at h
  rcases hact : act.run σ with ⟨result, mid⟩
  rw [hact] at h
  cases result with
  | ok a => exact nomatch h
  | error e' =>
    cases h
    rfl

/-- A question is answered, and all that it may leave are names that are listed in addition. -/
@[simp] theorem run_read (r : Reading α) [Reading.Discreet r] (σ : Session) :
    (read r).run σ = (.ok (r.answer σ.store), { σ with listed := r.listing σ }) := by
  show ((.ok (r σ).1, (r σ).2) : Except Error α × Session) = _
  rw [Reading.Discreet.run_eq (r := r)]

/-- What is made of the answer to a question. -/
theorem run_return_read (r : Reading α) [Reading.Discreet r] (f : α → β) (σ : Session) :
    (do return f (← read r) : Action β).run σ
      = (.ok (f (r.answer σ.store)), { σ with listed := r.listing σ }) := by
  rw [run_bind_ok (run_read r σ)]
  rfl

@[simp] theorem run_view (f : Store → α) (σ : Session) :
    (view f).run σ = (.ok (f σ.store), σ) := rfl

@[simp] theorem run_update (f : Store → Store) (σ : Session) :
    (update f).run σ = (.ok (), { σ with store := f σ.store }) := rfl

@[simp] theorem run_change (f : Store → α × Store) (σ : Session) :
    (change f).run σ = (.ok (f σ.store).1, { σ with store := (f σ.store).2 }) := rfl

@[simp] theorem run_ofExcept (result : Except Error α) (σ : Session) :
    (ofExcept result).run σ = (result, σ) := rfl

theorem run_bind_ofExcept {result : Except Error α} {a : α} (h : result = .ok a)
    (f : α → Action β) (σ : Session) : (ofExcept result >>= f).run σ = (f a).run σ := by
  subst h
  rfl

@[simp] theorem run_get (σ : Session) : (get : Action Session).run σ = (.ok σ, σ) := rfl

@[simp] theorem run_announce (id : DependencyId) (σ : Session) :
    (announce id).run σ = (.ok (), σ.announce id) := rfl

/-! ## §2. The judgement and its rules. -/

/-- From `σ` the action ends in a session with `I`, and what it yields has `Q`. -/
def KeepsAt (I : Session → Prop) (act : Action α) (Q : α → Prop) (σ : Session) : Prop :=
  I (act.run σ).2 ∧ ∀ a, (act.run σ).1 = .ok a → Q a

/-- The action keeps the invariant `I`, and what it yields has `Q`. -/
def Keeps (I : Session → Prop) (act : Action α) (Q : α → Prop) : Prop :=
  ∀ σ, I σ → KeepsAt I act Q σ

/-- An invariant that does not look at which names the registry lists. -/
def Unlisted (I : Session → Prop) : Prop :=
  ∀ (σ : Session) (names : Std.TreeSet String), I σ → I { σ with listed := names }

variable {I : Session → Prop} {Q : α → Prop} {S : β → Prop}

namespace KeepsAt

variable {σ τ : Session}

theorem of_error {act : Action α} {e : Error} (h : act.run σ = (.error e, τ)) (hτ : I τ) :
    KeepsAt I act Q σ := by
  unfold KeepsAt
  rw [h]
  exact ⟨hτ, fun a ha => nomatch ha⟩

theorem of_ok {act : Action α} {a : α} (h : act.run σ = (.ok a, τ)) (hτ : I τ) (ha : Q a) :
    KeepsAt I act Q σ := by
  unfold KeepsAt
  rw [h]
  exact ⟨hτ, fun b hb => Except.ok.inj hb ▸ ha⟩

/-- Goes on from the very session in which a step ends. -/
theorem bind_run {act : Action α} {f : α → Action β} (hact : KeepsAt I act Q σ)
    (hf : ∀ a τ, act.run σ = (.ok a, τ) → I τ → Q a → KeepsAt I (f a) S τ) :
    KeepsAt I (act >>= f) S σ := by
  obtain ⟨hI, hresult⟩ := hact
  unfold KeepsAt
  rw [run_bind]
  rcases hrun : act.run σ with ⟨result, τ⟩
  rw [hrun] at hI hresult
  cases result with
  | ok a => exact hf a τ hrun hI (hresult a rfl)
  | error e => exact ⟨hI, fun b hb => nomatch hb⟩

theorem bind {act : Action α} {f : α → Action β} (hact : KeepsAt I act Q σ)
    (hf : ∀ a, Q a → Keeps I (f a) S) : KeepsAt I (act >>= f) S σ :=
  hact.bind_run fun a τ _ hτ ha => hf a ha τ hτ

/-- Goes on behind a step whose outcome is known. -/
theorem bind_ok {act : Action α} {f : α → Action β} {a : α} (h : act.run σ = (.ok a, τ))
    (hf : KeepsAt I (f a) S τ) : KeepsAt I (act >>= f) S σ := by
  unfold KeepsAt
  rw [run_bind_ok h]
  exact hf

theorem bind_error {act : Action α} {f : α → Action β} {e : Error}
    (h : act.run σ = (.error e, τ)) (hτ : I τ) : KeepsAt I (act >>= f) S σ :=
  .of_error (run_bind_error h f) hτ

end KeepsAt

namespace Keeps

/-- So the invariant holds wherever a run ends. -/
theorem of_run {act : Action α} (h : Keeps I act Q) {σ τ : Session} {result : Except Error α}
    (hσ : I σ) (hrun : act.run σ = (result, τ)) : I τ := by
  have hend := (h σ hσ).1
  rw [hrun] at hend
  exact hend

theorem pure {a : α} (h : Q a) : Keeps I (pure a) Q := by
  intro σ hσ
  refine ⟨hσ, ?_⟩
  intro b hb
  cases hb
  exact h

theorem throw (e : Error) : Keeps I (throw e : Action α) Q := by
  intro σ hσ
  exact ⟨hσ, fun a ha => nomatch ha⟩

theorem bind {act : Action α} {f : α → Action β} (hact : Keeps I act Q)
    (hf : ∀ a, Q a → Keeps I (f a) S) : Keeps I (act >>= f) S :=
  fun σ hσ => (hact σ hσ).bind hf

/-- An action that is refused under a condition keeps what the rest of it keeps. -/
theorem guarded {c : Prop} [Decidable c] {e : Error} {f : PUnit → Action β}
    (h : ¬c → Keeps I (f ⟨⟩) S) :
    Keeps I (if c then (MonadExcept.throw e : Action PUnit) >>= f else f ⟨⟩) S := by
  split
  · exact (Keeps.throw e).bind fun (_ : PUnit) (hfalse : False) => hfalse.elim
  · next hc => exact h hc

theorem view {f : Store → α} (h : ∀ σ, I σ → Q (f σ.store)) : Keeps I (view f) Q := by
  intro σ hσ
  refine ⟨hσ, ?_⟩
  intro a ha
  cases ha
  exact h σ hσ

theorem read {r : Reading α} [Reading.Discreet r] (hI : Unlisted I)
    (h : ∀ σ, I σ → Q (r.answer σ.store)) : Keeps I (read r) Q :=
  fun σ hσ => .of_ok (run_read r σ) (hI σ _ hσ) (h σ hσ)

theorem ofExcept {result : Except Error α} (h : ∀ a, result = .ok a → Q a) :
    Keeps I (ofExcept result) Q :=
  fun _ hσ => ⟨hσ, h⟩

theorem update {f : Store → Store} (h : ∀ σ, I σ → I { σ with store := f σ.store }) :
    Keeps I (update f) fun _ => True :=
  fun σ hσ => ⟨h σ hσ, fun _ _ => True.intro⟩

theorem change {f : Store → α × Store}
    (h : ∀ σ, I σ → I { σ with store := (f σ.store).2 } ∧ Q (f σ.store).1) :
    Keeps I (change f) Q := by
  intro σ hσ
  obtain ⟨hI, hresult⟩ := h σ hσ
  refine ⟨hI, ?_⟩
  intro a ha
  cases ha
  exact hresult

/-- Steps that are taken for each of several values keep what each of them keeps. -/
theorem mapM {γ : Type} {f : γ → Action α} (cs : List γ) (h : ∀ c ∈ cs, Keeps I (f c) Q) :
    Keeps I (cs.mapM f) fun as => ∀ a ∈ as, Q a := by
  induction cs with
  | nil => exact .pure (by simp)
  | cons c cs ih =>
    rw [List.mapM_cons]
    refine (h c (by simp)).bind fun a ha => ?_
    refine (ih fun d hd => h d (by simp [hd])).bind fun as has => .pure ?_
    simpa using ⟨ha, has⟩

theorem forM {γ : Type} {f : γ → Action PUnit} (cs : List γ)
    (h : ∀ c ∈ cs, Keeps I (f c) fun _ => True) : Keeps I (cs.forM f) fun _ => True := by
  induction cs with
  | nil => exact .pure True.intro
  | cons c cs ih =>
    exact (h c (by simp)).bind fun _ _ => ih fun d hd => h d (by simp [hd])

end Keeps

/-! ## §3. What a success leaves. -/

/-- If the action succeeds from `σ`, its result and the session in which it ends have `C`. -/
def Leaves (act : Action α) (C : α → Session → Prop) (σ : Session) : Prop :=
  ∀ a τ, act.run σ = (.ok a, τ) → C a τ

namespace Leaves

variable {act : Action α} {f : α → Action β} {C : α → Session → Prop} {B : β → Session → Prop}
  {σ τ : Session}

theorem throw (e : Error) : Leaves (throw e : Action α) C σ := by
  intro a τ h
  exact nomatch h

theorem bind (h : ∀ a τ, act.run σ = (.ok a, τ) → Leaves (f a) B τ) : Leaves (act >>= f) B σ := by
  intro b υ hrun
  rw [run_bind] at hrun
  rcases hact : act.run σ with ⟨result, τ⟩
  rw [hact] at hrun
  cases result with
  | ok a => exact h a τ hact b υ hrun
  | error e => exact nomatch hrun

/-- What comes last decides. -/
theorem bind_all (h : ∀ a τ, Leaves (f a) B τ) : Leaves (act >>= f) B σ :=
  bind fun a τ _ => h a τ

theorem bind_ok {a : α} (hrun : act.run σ = (.ok a, τ)) (h : Leaves (f a) B τ) :
    Leaves (act >>= f) B σ := by
  intro b υ hlast
  rw [run_bind_ok hrun] at hlast
  exact h b υ hlast

theorem bind_ofExcept {result : Except Error α} (h : ∀ a, result = .ok a → Leaves (f a) B σ) :
    Leaves (Action.ofExcept result >>= f) B σ := by
  cases hresult : result with
  | error e => exact fun b υ hlast => nomatch (run_bind_error (run_ofExcept _ σ) f).symm.trans hlast
  | ok a => exact bind_ok (run_ofExcept _ σ) (h a hresult)

theorem map {g : α → β} (h : Leaves act (fun a τ => B (g a) τ) σ) :
    Leaves (do return g (← act)) B σ := by
  refine bind fun a τ hact => ?_
  intro b υ hrun
  cases hrun
  exact h a τ hact

theorem guarded {c : Prop} [Decidable c] {e : Error} {g : PUnit → Action β}
    (h : ¬c → Leaves (g ⟨⟩) B σ) :
    Leaves (if c then (MonadExcept.throw e : Action PUnit) >>= g else g ⟨⟩) B σ := by
  split
  · intro b υ hrun
    exact nomatch hrun
  · next hc => exact h hc

end Leaves

/-- From `σ` the action ends with `C` if it succeeds, and with `E` if it fails. -/
def Ends (act : Action α) (C : α → Session → Prop) (E : Session → Prop) (σ : Session) : Prop :=
  Leaves act C σ ∧ ∀ e τ, act.run σ = (.error e, τ) → E τ

namespace Ends

variable {act : Action α} {f : α → Action β} {C : α → Session → Prop} {B : β → Session → Prop}
  {E : Session → Prop} {σ τ : Session}

theorem of_ok {a : α} (h : act.run σ = (.ok a, τ)) (hC : C a τ) : Ends act C E σ := by
  unfold Ends Leaves
  rw [h]
  refine ⟨?_, fun _ _ heq => nomatch heq⟩
  intro b υ heq
  cases heq
  exact hC

theorem of_error {e : Error} (h : act.run σ = (.error e, τ)) (hE : E τ) : Ends act C E σ := by
  unfold Ends Leaves
  rw [h]
  refine ⟨fun _ _ heq => (nomatch heq), ?_⟩
  intro e' υ heq
  cases heq
  exact hE

/-- An action ends like one that does the same. -/
theorem of_run {act' : Action α} (h : act.run σ = act'.run τ) (hact : Ends act' C E τ) :
    Ends act C E σ := by
  unfold Ends Leaves at hact ⊢
  rw [h]
  exact hact

theorem bind (h : Ends act (fun a τ => Ends (f a) B E τ) E σ) : Ends (act >>= f) B E σ := by
  rcases hact : act.run σ with ⟨result, τ⟩
  cases result with
  | ok a => exact .of_run (run_bind_ok hact f) (h.1 a τ hact)
  | error e => exact .of_error (run_bind_error hact f) (h.2 e τ hact)

theorem map {g : α → β} (h : Ends act (fun a τ => B (g a) τ) E σ) :
    Ends (do return g (← act)) B E σ := by
  have hpure : Ends act (fun a τ => Ends (pure (g a) : Action β) B E τ) E σ :=
    ⟨fun a τ hact => .of_ok rfl (h.1 a τ hact), h.2⟩
  exact .bind hpure

end Ends

/-! ## §4. Batches. -/

section Batches

variable {act : Action α} {undo : Session → Session → Session} {σ τ : Session} {a : α} {e : Error}

theorem run_restoring_ok (h : act.run σ = (.ok a, τ)) :
    (restoring undo act).run σ = (.ok a, τ) := by
  show (match act.run σ with
    | (.ok a, τ) => (Except.ok a, τ)
    | (.error e, τ) => (.error e, undo σ τ)) = _
  rw [h]

theorem run_restoring_error (h : act.run σ = (.error e, τ)) :
    (restoring undo act).run σ = (.error e, undo σ τ) := by
  show (match act.run σ with
    | (.ok a, τ) => (Except.ok a, τ)
    | (.error e, τ) => (.error e, undo σ τ)) = _
  rw [h]

/-- A session in which listeners are held back, by the batch around it or by a new one. -/
def held (σ : Session) : Session := { σ with waiting := some (σ.waiting.getD []) }

/-- In a batch, an action is part of that batch. -/
theorem run_deferring_inner (h : σ.waiting.isSome) : (deferring act).run σ = act.run σ := by
  obtain ⟨ids, hids⟩ := Option.isSome_iff_exists.1 h
  show deferring act σ = act.run σ
  unfold deferring
  rw [hids]

theorem run_deferring_outer (h : σ.waiting = none) :
    (deferring act).run σ = match act.run (held σ) with
      | (.error error, τ) => (.error error, { τ with waiting := none })
      | (.ok a, τ) => (.ok a, (τ.waiting.getD []).foldl Session.fire { τ with waiting := none }) := by
  have hheld : held σ = { σ with waiting := some [] } := by rw [held, h]; rfl
  rw [hheld]
  show deferring act σ = _
  unfold deferring
  rewrite [h]
  rfl

theorem held_of_waiting (h : σ.waiting.isSome) : held σ = σ := by
  obtain ⟨ids, hids⟩ := Option.isSome_iff_exists.1 h
  unfold held
  rw [hids, Option.getD_some, ← hids]

/-- Only an action that fails is undone. -/
theorem run_of_restoring_ok (h : (restoring undo act).run σ = (.ok a, τ)) :
    act.run σ = (.ok a, τ) := by
  rcases hact : act.run σ with ⟨result, mid⟩
  cases result with
  | ok a' =>
    rw [run_restoring_ok hact] at h
    exact h
  | error e =>
    rw [run_restoring_error hact] at h
    exact nomatch h

/-- An action that fails and is undone has failed before. -/
theorem exists_of_restoring_error (h : (restoring undo act).run σ = (.error e, τ)) :
    ∃ mid, act.run σ = (.error e, mid) ∧ τ = undo σ mid := by
  rcases hact : act.run σ with ⟨result, mid⟩
  cases result with
  | ok a =>
    rw [run_restoring_ok hact] at h
    exact nomatch h
  | error e' =>
    rw [run_restoring_error hact] at h
    cases h
    exact ⟨mid, rfl, rfl⟩

/-- Holding listeners back does nothing else to an action that fails, and outside of a batch nothing
is left waiting. -/
theorem exists_of_deferring_error (h : (deferring act).run σ = (.error e, τ)) :
    ∃ mid waiting, act.run (held σ) = (.error e, mid) ∧ τ = { mid with waiting := waiting } ∧
      (σ.waiting = none → waiting = none) := by
  cases hwaiting : σ.waiting with
  | some ids =>
    have hsome : σ.waiting.isSome := by simp [hwaiting]
    rw [run_deferring_inner hsome] at h
    rw [held_of_waiting hsome]
    exact ⟨τ, τ.waiting, h, rfl, nofun⟩
  | none =>
    rw [run_deferring_outer hwaiting] at h
    rcases hact : act.run (held σ) with ⟨result, mid⟩
    rw [hact] at h
    cases result with
    | ok a => exact nomatch h
    | error e' =>
      cases h
      exact ⟨mid, none, rfl, rfl, fun _ => rfl⟩

/-- Listeners that were held back are told after a success, if no batch goes on around it. -/
theorem exists_of_deferring_success (h : (deferring act).run σ = (.ok a, τ)) :
    ∃ mid, act.run (held σ) = (.ok a, mid) ∧
      τ = if σ.waiting.isSome then mid
        else (mid.waiting.getD []).foldl Session.fire { mid with waiting := none } := by
  cases hwaiting : σ.waiting with
  | some ids =>
    have hsome : σ.waiting.isSome := by simp [hwaiting]
    rw [run_deferring_inner hsome] at h
    rw [held_of_waiting hsome]
    exact ⟨τ, h, rfl⟩
  | none =>
    rw [run_deferring_outer hwaiting] at h
    rcases hact : act.run (held σ) with ⟨result, mid⟩
    rw [hact] at h
    cases result with
    | error e => exact nomatch h
    | ok a' =>
      cases h
      exact ⟨mid, rfl, rfl⟩

end Batches

/-- The end of a batch on `n` that began in `σ` keeps `I`: what is put back, and the listeners that
are told. -/
structure EndsBatch (I : Session → Prop) (n : Namespace) (σ : Session) : Prop where
  undo (τ : Session) : I τ → I { τ with store := τ.store.restoreBelow σ.store [n] }
  waiting (τ : Session) : I τ → I { τ with waiting := none }
  fire (τ : Session) (id : DependencyId) : I τ → I (τ.fire id)

namespace KeepsAt

variable {act : Action α} {σ : Session}

/-- A batch that is undone when it fails keeps what the undoing keeps. -/
theorem restoring {undo : Session → Session → Session} (h : KeepsAt I act Q σ)
    (hundo : ∀ τ, I τ → I (undo σ τ)) : KeepsAt I (restoring undo act) Q σ := by
  obtain ⟨hI, hresult⟩ := h
  rcases hrun : act.run σ with ⟨result, τ⟩
  rw [hrun] at hI hresult
  cases result with
  | ok a =>
    unfold KeepsAt
    rw [run_restoring_ok hrun]
    exact ⟨hI, hresult⟩
  | error e => exact .of_error (run_restoring_error hrun) (hundo τ hI)

/-- Holding listeners back keeps what telling them keeps. -/
theorem deferring (h : KeepsAt I act Q (held σ))
    (hwaiting : ∀ τ, I τ → I { τ with waiting := none })
    (hfire : ∀ τ id, I τ → I (τ.fire id)) : KeepsAt I (deferring act) Q σ := by
  cases hnone : σ.waiting with
  | some ids =>
    have hsome : σ.waiting.isSome := by simp [hnone]
    rw [held_of_waiting hsome] at h
    unfold KeepsAt
    rw [run_deferring_inner hsome]
    exact h
  | none =>
    obtain ⟨hI, hresult⟩ := h
    unfold KeepsAt
    rw [run_deferring_outer hnone]
    rcases hrun : act.run (held σ) with ⟨result, τ⟩
    rw [hrun] at hI hresult
    cases result with
    | error e => exact ⟨hwaiting τ hI, fun a ha => nomatch ha⟩
    | ok a =>
      refine ⟨?_, hresult⟩
      -- the listeners are told one after the other
      show I ((τ.waiting.getD []).foldl Session.fire { τ with waiting := none })
      exact List.foldlRecOn _ _ (hwaiting τ hI) fun υ hυ id _ => hfire υ id hυ

/-- A batch keeps what its steps and its end keep. -/
theorem atomically {n : Namespace} (h : KeepsAt I act Q (held σ)) (hend : EndsBatch I n σ) :
    KeepsAt I (atomically n act) Q σ :=
  .deferring (.restoring h hend.undo) hend.waiting hend.fire

end KeepsAt

end Action

end DependencyScope
