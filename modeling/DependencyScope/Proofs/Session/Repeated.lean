/-
  DependencyScope.Proofs.Session.Repeated — assigning the same text to the same name again.

  The first assignment of a text may be made in many ways: to a dependency that is there, to a new one,
  to a copy from an ancestor, here or in a sub-namespace, with a requirement from above.  The same
  assignment right after it lands in the same place, finds the dependency there, and changes nothing
  but how its requirement is written.

  Main results:
    * `Session.restates_set_again` — the second assignment goes well and restates the first one.
-/
import DependencyScope.Proofs.Namespace.Repeat
import DependencyScope.Proofs.Session.Compound

namespace DependencyScope.Session

open DependencyScope.Text DependencyScope.Action

variable {σ τ : Session} {followsProjects : Bool} {n : Namespace} {key text : String} {e : Entry}

/-- If a text is assigned to a name, and nothing listens, then the same can be done right away once
more.  It answers with the same dependency; what all namespaces hold and find stays as it was, and so
does every record, but for a requirement that accepts the same versions on the one assigned to. -/
theorem restates_set_again (h : Reached followsProjects σ) (hsilent : σ.Records Dependency.Silent)
    (hplain : looksLikeSpec key = false)
    (hrun : (perform (.set n key (.text text))).run σ = (.ok (.entry e), τ)) :
    ∃ id υ, e = .dependency id ∧
      (perform (.set n key (.text text))).run τ = (.ok (.entry e), υ) ∧
      τ.store.Restates id υ.store := by
  obtain ⟨_, hset, heq⟩ := exists_of_return hrun
  cases heq
  rw [Namespace.run_set] at hset
  have hlands := (Store.landing_name (s := σ.store) n key hplain).2
  obtain ⟨id, υ, rfl, hagain, hrestates⟩ := Namespace.setHere_again h.sound hsilent hlands hset
  -- the second assignment lands where the first one did
  have hnames : (Value.text text).Names σ.store (σ.store.landing n key).1 := trivial
  obtain ⟨_, -, hfills⟩ := Namespace.leaves_setHere_filled h.sound hlands hnames _ τ hset
  refine ⟨id, υ, rfl, run_bind_ok ?_ _, hrestates⟩
  rw [Namespace.run_set, hfills.landing hplain]
  exact hagain

/-- The root requires a version between 1 and 4, and a sub-namespace of `a` is to have at least 2.  The
requirement of the root is taken over by the first assignment, and it is met by the second one. -/
theorem restates_set_narrowed :
    let root : Namespace := .registered rootName 0
    let a : Namespace := .registered "a" 0
    let σ := (start true).afterAll [.needAs root "k" (.text "g:i:t:>=1 <4"), .openSub a "s"]
    Reached true σ ∧ σ.Records Dependency.Silent ∧
      ∃ e τ, (perform (.set a "s_k" (.text "g:i:t:>=2"))).run σ = (.ok (.entry e), τ) ∧
        ∃ id υ, e = .dependency id ∧
          (perform (.set a "s_k" (.text "g:i:t:>=2"))).run τ = (.ok (.entry e), υ) ∧
          τ.store.Restates id υ.store := by
  intro root a σ
  have hreached : Reached true σ := .after (.after .start trivial) (Nat.zero_le _)
  have hsilent : σ.Records Dependency.Silent :=
    silent_after (silent_after (fun _ => rfl) (.needAs (n := root) "k" _)) (.openSub (n := a) "s")
  have hsucceeds : ((a.set "s_k" (.text "g:i:t:>=2")).run σ).1.toOption.isSome := by
    decide +kernel
  obtain ⟨e, τ, hset⟩ := exists_of_isSome hsucceeds
  have hrun : (perform (.set a "s_k" (.text "g:i:t:>=2"))).run σ = (.ok (.entry e), τ) :=
    run_bind_ok hset _
  exact ⟨hreached, hsilent, e, τ, hrun,
    restates_set_again hreached hsilent (by decide +kernel) hrun⟩

end DependencyScope.Session
