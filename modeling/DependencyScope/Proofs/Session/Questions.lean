/-
  DependencyScope.Proofs.Session.Questions — the operations that only ask.

  A client asks either for the names that the registry lists or for something in the store.  What
  asks the store comes to one inquiry, however it is put together, and an inquiry changes nothing
  but the listed names.  So whatever rests on the store alone is kept by every question.

  Main definitions:
    * `Action.Asking` — what comes to an inquiry, with its rules;
    * `Operation.asks`, `Operation.asksNames` — questions, and those for the listed names.

  Main results:
    * `Action.inquire_bind` — one inquiry after the other is an inquiry;
    * `Session.asking_perform` — a question comes to an inquiry, unless it asks for listed names;
    * `Session.alike_after` — a question changes nothing but the listed names.
-/
import DependencyScope.Proofs.Namespace.Assign
import DependencyScope.Proofs.Session.Run

namespace DependencyScope

open DependencyScope.Action

/-! ## §1. Sessions that differ in the listed names. -/

namespace Session.Alike

variable {σ τ : Session}

theorem store (h : σ.Alike τ) : τ.store = σ.store := by
  obtain ⟨names, rfl⟩ := h
  rfl

theorem waiting (h : σ.Alike τ) : τ.waiting = σ.waiting := by
  obtain ⟨names, rfl⟩ := h
  rfl

theorem trans {υ : Session} (h : σ.Alike τ) (h' : τ.Alike υ) : σ.Alike υ := by
  obtain ⟨names, rfl⟩ := h
  obtain ⟨names', rfl⟩ := h'
  exact ⟨names', rfl⟩

end Session.Alike

/-! ## §2. Actions that come to an inquiry. -/

namespace Action

variable {α β : Type}

theorem run_inquire (r : Inquiry α) [Reading.Discreet r.run] (σ : Session) :
    (inquire r).run σ = (r.run.answer σ.store, { σ with listed := r.run.listing σ }) := by
  unfold inquire
  rw [run_bind_ok (run_read r.run σ)]
  rfl

theorem inquire_ask (r : Reading α) : inquire (Inquiry.ask r) = read r := rfl

/-- To inquire about one thing and then about another is to make one inquiry. -/
theorem inquire_bind (r : Inquiry α) (f : α → Inquiry β) :
    inquire (r >>= f) = inquire r >>= fun a => inquire (f a) := by
  funext σ
  show (inquire (r >>= f)).run σ = (inquire r >>= fun a => inquire (f a)).run σ
  have hfirst : (inquire r).run σ = r.run σ := rfl
  have hall : (inquire (r >>= f)).run σ = (r >>= f).run σ := rfl
  rw [run_bind, hfirst, hall, ExceptT.run_bind, Reading.run_bind]
  rcases r.run σ with ⟨result, τ⟩
  cases result <;> rfl

/-- The action comes to an inquiry, and to one that is discreet. -/
def Asking (act : Action α) : Prop := ∃ r : Inquiry α, Reading.Discreet r.run ∧ act = inquire r

namespace Asking

theorem pure (a : α) : Asking (pure a : Action α) := ⟨Pure.pure a, inferInstance, rfl⟩

theorem view (f : Store → α) : Asking (view f) := ⟨.view f, inferInstance, rfl⟩

theorem ofExcept (result : Except Error α) : Asking (ofExcept result) :=
  ⟨.ofExcept result, inferInstance, rfl⟩

theorem inquire (r : Inquiry α) [Reading.Discreet r.run] : Asking (inquire r) :=
  ⟨r, inferInstance, rfl⟩

theorem read (r : Reading α) [Reading.Discreet r] : Asking (read r) :=
  ⟨.ask r, inferInstance, (inquire_ask r).symm⟩

theorem bind {act : Action α} {f : α → Action β} (hact : Asking act) (hf : ∀ a, Asking (f a)) :
    Asking (act >>= f) := by
  obtain ⟨r, hdiscreet, rfl⟩ := hact
  refine ⟨r >>= fun a => (hf a).choose,
    Inquiry.discreet_bind hdiscreet fun a => (hf a).choose_spec.1, ?_⟩
  rw [inquire_bind]
  exact congrArg _ (funext fun a => (hf a).choose_spec.2)

theorem map {act : Action α} {f : α → β} (hact : Asking act) : Asking (do return f (← act)) :=
  hact.bind fun a => .pure (f a)

end Asking

end Action

/-! ## §3. Questions. -/

namespace Operation

/-- Whether an operation asks for the listed names, or for their number. -/
def asksNames : Operation → Bool
  | .listNames | .registrySize _ => true
  | _ => false

/-- Whether an operation is a question: it is asked for its answer and for nothing else. -/
def asks : Operation → Bool
  | .path | .instance _ | .resolveName _ | .listNames | .findArtifact _ | .findArtifacts _
  | .same _ _ | .registrySize _ | .parent _ | .ancestors _ | .lookup _ _ | .localEntry _ _
  | .lookupDependency _ _ | .lookupSub _ _ | .lookupMany _ _ | .keys _ | .probe _ _ | .values _ _
  | .valuesAt _ _ | .artifacts _ | .checkSelectable _ _ | .satisfiedBy _ _ | .artifactOf _
  | .artifactsOf _ => true
  | _ => false

end Operation

namespace Session

variable {σ τ : Session} {operation : Operation}

/-- A question comes to an inquiry, unless it asks for the listed names. -/
theorem asking_perform (h : operation.asks) (hnames : operation.asksNames = false) :
    Asking (perform operation) := by
  cases operation with
  | path => exact (Asking.view _).map
  | resolveName key => exact (Asking.view _).map
  | localEntry n key => exact (Asking.view _).map
  | keys n => exact (Asking.view _).map
  | satisfiedBy id candidates => exact (Asking.view _).map
  -- these may resolve names on the way
  | «instance» key => exact (Asking.read _).map
  | parent n => exact (Asking.read _).map
  | ancestors n => exact (Asking.read _).map
  | lookup n key => exact (Asking.read _).map
  | lookupDependency n key => exact (Asking.read _).map
  | lookupSub n key => exact (Asking.read _).map
  | lookupMany n keys => exact (Asking.read _).map
  | probe n keys => exact (Asking.read _).map
  | values n withAncestors =>
    cases withAncestors with
    | true => exact (Asking.read _).map
    | false => exact (Asking.view _).map
  -- these may fail
  | findArtifact key => exact (Asking.inquire _).map
  | findArtifacts keys => exact (Asking.inquire _).map
  | valuesAt n keys => exact (Asking.inquire _).map
  | artifacts n => exact (Asking.view _).bind fun _ => (Asking.ofExcept _).map
  | artifactOf id => exact (Asking.view _).bind fun _ => (Asking.ofExcept _).map
  | artifactsOf id => exact (Asking.view _).bind fun _ => (Asking.ofExcept _).map
  | checkSelectable id version => exact (Asking.view _).bind fun _ => (Asking.ofExcept _).map
  | same n m => exact .pure _
  | listNames => exact nomatch hnames
  | registrySize n => exact nomatch hnames
  | _ => exact nomatch h

/-- Asking for the listed names changes nothing at all. -/
theorem after_of_asksNames (h : operation.asksNames) : σ.after operation = σ := by
  cases operation with
  | listNames => rfl
  | registrySize n => rfl
  | _ => exact nomatch h

/-- A question changes nothing but the listed names. -/
theorem alike_after (h : operation.asks) (σ : Session) : σ.Alike (σ.after operation) := by
  cases hnames : operation.asksNames with
  | true =>
    rw [after_of_asksNames hnames]
    exact .refl σ
  | false =>
    obtain ⟨r, _, hr⟩ := asking_perform h hnames
    unfold after
    rw [hr, run_inquire]
    exact ⟨_, rfl⟩

end Session

end DependencyScope
