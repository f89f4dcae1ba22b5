/-
  DependencyScope.Proofs.Session.Undone — batches whose failure leaves nothing behind.

  A batch of assignments may store a namespace from elsewhere and write through it.  A batch of
  needs stores no namespaces, and neither does one for a spec under its own name.  So wherever their
  writes land, that is below the namespace on which the batch began, and what they write to is held
  there or has only just been made.  All of this a batch puts back when it fails.

  Main definitions:
    * `Session.Inside` — everything that a batch has written so far lies below its namespace.

  Main results:
    * `Session.landing_inside` — a write below the namespace stays there;
    * `Namespace.asBefore_atomically` — a batch of such writes puts everything back when it fails;
    * `Session.asBefore_declaring` — needs, and specs under their own names, are such batches.
-/
import DependencyScope.Proofs.Session.Outside

namespace DependencyScope

open DependencyScope.Text DependencyScope.Action

/-! ## §1. What a batch has written so far. -/

namespace Session

variable {s : Store} {n m : Namespace} {σ : Session}

/-- Within a batch on `n` that began with the store `s`, nothing has been written but what `n`
contained and the dependencies that were held there, and new ones; nor does anything lead elsewhere
from there. -/
structure Inside (s : Store) (n : Namespace) (σ : Session) : Prop where
  framed : s.Framed (s.Contains n) (s.Writable (s.Contains n)) σ.store
  waiting : σ.waiting.isSome
  closed : σ.store.Closed (s.Contains n)

theorem inside_start (σ : Session) (n : Namespace) : Inside σ.store n (held σ) where
  framed := .start σ.store (σ.store.Contains n)
  waiting := rfl
  closed := σ.store.closed_contains n

/-- A write to a namespace that `n` contained keeps the batch there. -/
theorem tolerates_inside (hm : s.Contains n m) :
    Tolerates (Inside s n) m (s.Writable (s.Contains n)) fun _ => True := by
  have hframed : Tolerates (fun σ => s.Framed (s.Contains n) (s.Writable (s.Contains n)) σ.store ∧
      σ.waiting.isSome) m (s.Writable (s.Contains n)) fun _ => True :=
    (tolerates_waiting m).framed hm fun _ id hwaiting => store_announce_of_waiting hwaiting id
  -- the three conditions are tolerated one by one
  have hinside : Inside s n = fun σ =>
      (s.Framed (s.Contains n) (s.Writable (s.Contains n)) σ.store ∧ σ.waiting.isSome) ∧
        σ.store.Closed (s.Contains n) := by
    funext σ
    apply propext
    constructor
    · intro h
      exact ⟨⟨h.framed, h.waiting⟩, h.closed⟩
    · rintro ⟨⟨hframed, hwaiting⟩, hclosed⟩
      exact ⟨hframed, hwaiting, hclosed⟩
  rw [hinside]
  exact hframed.and (tolerates_closed (s.Contains n) m)

/-- A key of `n` leads only to namespaces that `n` contained, at every moment of the batch. -/
theorem landing_inside (s : Store) (n : Namespace) :
    Tolerates.Landing (Inside s n) n (s.Writable (s.Contains n)) fun _ => True := by
  intro σ hσ key
  apply tolerates_inside
  exact Store.landing_mem hσ.closed n key (.refl s n)

/-- What such a batch has written is just what is put back. -/
theorem Inside.asBefore_restoreBelow (h : Inside s n σ) :
    s.AsBefore (σ.store.restoreBelow s [n]) := by
  apply Store.asBefore_restoreBelow_iff.2
  apply h.framed.asBeforeOutside
  intro id hid hwritable
  exact Store.mem_heldIn_of_writable hid hwritable

end Session

/-! ## §2. Batches that fail. -/

namespace Namespace

variable {n : Namespace} {σ τ : Session} {e : Error}

/-- A batch that stays below its namespace leaves everything as it was when it fails. -/
theorem asBefore_atomically {α : Type} {act : Action α} {Q : α → Prop}
    (hact : KeepsAt (Session.Inside σ.store n) act Q (held σ))
    (h : (atomically n act).run σ = (.error e, τ)) : σ.store.AsBefore τ.store := by
  rw [store_atomically_error h]
  exact hact.1.asBefore_restoreBelow

theorem asBefore_needAll {pairs : List (String × Value)}
    (h : (n.needAll pairs).run σ = (.error e, τ)) : σ.store.AsBefore τ.store := by
  have hneed (key : String) (value : Value) : Keeps (Session.Inside σ.store n)
      (n.needAs key value) (σ.store.Writable (σ.store.Contains n)) := by
    apply Tolerates.keeps_needAs (Session.landing_inside σ.store n)
      Dependency.lasting_true.toRobust
    · intro τ names hτ
      exact ⟨hτ.framed, hτ.waiting, hτ.closed⟩
    · intro declaration _
      trivial
  -- each need begins where the one before it has ended, still inside
  have hneeds := Keeps.mapM pairs fun pair _ => hneed pair.1 pair.2
  exact asBefore_atomically (hneeds (held σ) (Session.inside_start σ n)) h

theorem asBefore_useSpec {text : String} (h : (n.useSpec text).run σ = (.error e, τ)) :
    σ.store.AsBefore τ.store := by
  have huse : KeepsAt (Session.Inside σ.store n) (n.ownUse text) (fun _ => True) (held σ) :=
    keepsAt_ownUse (Session.landing_inside σ.store n) Dependency.lasting_true.toRobust
      (Session.inside_start σ n) (fun _ _ => trivial) fun _ _ _ _ => trivial
  rw [useSpec_eq] at h
  exact asBefore_atomically huse h

end Namespace

namespace Session

/-- Several needs, and a spec under its own name, leave every namespace and every dependency as it
was when they fail, whatever they had declared, taken over and selected by then. -/
theorem asBefore_declaring (σ : Session) (n : Namespace) :
    (∀ text e τ, (perform (.useSpec n text)).run σ = (.error e, τ) →
      σ.store.AsBefore τ.store) ∧
    ∀ pairs e τ, (perform (.needAll n pairs)).run σ = (.error e, τ) →
      σ.store.AsBefore τ.store := by
  constructor
  · intro text e τ h
    exact Namespace.asBefore_useSpec (error_of_return h)
  · intro pairs e τ h
    exact Namespace.asBefore_needAll (error_of_return h)

/-- A session in which the root has selected a version, and a key below `a` has a requirement. -/
def adopting : Session :=
  (start true).afterAll
    [.set (.registered "root" 0) "k" (.text "g:i:t:1"), .openSub (.registered "a" 0) "s",
      .needAs (.registered "a" 0) "s_p" (.text "g:j:t:>=1")]

/-- The first need takes over what the root has selected, the second one replaces a requirement in
the sub-namespace, and the last one cannot be read. -/
def unreadableNeeds : List (String × Value) :=
  [("s_x", .text "g:i:t:>=1"), ("s_p", .text "g:j:t:>=3"), ("y", .text "g:b:t:>>1")]

/-- Both requirements are as before, and what was taken over is gone: where a need fails, and where
a default does not meet the requirement that has been declared just before. -/
theorem asBefore_adopting :
    (∃ e τ, (perform (.needAll (.registered "a" 0) unreadableNeeds)).run adopting = (.error e, τ) ∧
      adopting.store.AsBefore τ.store) ∧
    ∃ e τ, (perform (.useSpec (.registered "a" 0) "s_p -> g:j:t:3 -> ~>2.0")).run adopting
      = (.error e, τ) ∧ adopting.store.AsBefore τ.store := by
  have hneeds : ((perform (.needAll (.registered "a" 0) unreadableNeeds)).run
      adopting).1.toOption.isNone := by decide +kernel
  have huse : ((perform (.useSpec (.registered "a" 0) "s_p -> g:j:t:3 -> ~>2.0")).run
      adopting).1.toOption.isNone := by decide +kernel
  obtain ⟨e, τ, hrun⟩ := exists_of_isNone hneeds
  obtain ⟨e', τ', hrun'⟩ := exists_of_isNone huse
  obtain ⟨hspec, hall⟩ := asBefore_declaring adopting (.registered "a" 0)
  exact ⟨⟨e, τ, hrun, hall _ e τ hrun⟩, e', τ', hrun', hspec _ e' τ' hrun'⟩

end Session

end DependencyScope
