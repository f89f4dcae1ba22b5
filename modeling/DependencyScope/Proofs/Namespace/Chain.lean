/-
  DependencyScope.Proofs.Namespace.Chain — chains of parents.

  Where each namespace has at most one parent, the way upwards is a single chain.  If it comes to an
  end, no namespace is on it twice.  A walk with a bound finds the whole chain when the bound is not
  less than its length.

  Main definitions:
    * `Ascends` — the namespaces above one, nearest first, up to one without a parent.

  Main results:
    * `Ascends.nodup` — a chain that ends meets nothing twice;
    * `Ascends.exists_of_rewired` — other parents for some namespaces leave every chain finite, if
      these have finite chains;
    * `colons_impliedParent?` — the parent that a name implies has fewer parts or is the root.
-/
import DependencyScope.Name
import DependencyScope.Proofs.Text.Split

namespace DependencyScope

/-! ## §1. Chains. -/

/-- From `n` the chain of parents is `ms`, and the last namespace of it has no parent. -/
inductive Ascends {α : Type} (up : α → Option α) : α → List α → Prop where
  | top {n : α} : up n = none → Ascends up n []
  | step {n m : α} {ms : List α} : up n = some m → Ascends up m ms → Ascends up n (m :: ms)

namespace Ascends

variable {α : Type} {up up' : α → Option α} {n m : α} {ms ks : List α}

theorem unique (h : Ascends up n ms) : ∀ {ks : List α}, Ascends up n ks → ms = ks := by
  induction h with
  | top htop =>
    intro ks hks
    cases hks with
    | top => rfl
    | step hstep => exact nomatch htop.symm.trans hstep
  | step hstep _ ih =>
    intro ks hks
    cases hks with
    | top htop => exact nomatch htop.symm.trans hstep
    | step hstep' hrest =>
      cases hstep.symm.trans hstep'
      rw [ih hrest]

/-- The chain of a namespace further up is shorter. -/
theorem exists_of_mem (h : Ascends up n ms) :
    ∀ m ∈ ms, ∃ ks, Ascends up m ks ∧ ks.length < ms.length := by
  induction h with
  | top => simp
  | @step n m ms hstep hrest ih =>
    intro k hk
    rcases List.mem_cons.1 hk with rfl | hmem
    · exact ⟨ms, hrest, by simp⟩
    · obtain ⟨ks, hks, hlength⟩ := ih k hmem
      exact ⟨ks, hks, by simp only [List.length_cons]; omega⟩

theorem not_mem (h : Ascends up n ms) : n ∉ ms := by
  intro hmem
  obtain ⟨ks, hks, hlength⟩ := h.exists_of_mem n hmem
  rw [h.unique hks] at hlength
  exact Nat.lt_irrefl _ hlength

/-- A chain that ends meets nothing twice. -/
theorem nodup (h : Ascends up n ms) : (n :: ms).Nodup := by
  induction h with
  | top => simp
  | step hstep hrest ih => exact List.nodup_cons.2 ⟨(Ascends.step hstep hrest).not_mem, ih⟩

/-- What holds from one step to the next holds all the way up. -/
theorem forall_mem {P : α → Prop} (h : Ascends up n ms) (hn : P n)
    (hup : ∀ x y, P x → up x = some y → P y) : ∀ m ∈ ms, P m := by
  induction h with
  | top => simp
  | step hstep _ ih =>
    have hm := hup _ _ hn hstep
    exact List.forall_mem_cons.2 ⟨hm, ih hm⟩

/-- The chain depends on the parents of its namespaces only. -/
theorem congr (h : Ascends up n ms) (heq : ∀ x ∈ n :: ms, up' x = up x) : Ascends up' n ms := by
  induction h with
  | top htop => exact .top ((heq _ List.mem_cons_self).trans htop)
  | step hstep _ ih =>
    exact .step ((heq _ List.mem_cons_self).trans hstep)
      (ih fun x hx => heq x (List.mem_cons_of_mem _ hx))

/-- Where a chain goes on as another one did, or on a chain that ends, it ends. -/
theorem exists_of_rewired (hup : ∀ x, up' x = up x ∨ ∃ ks, Ascends up' x ks)
    (h : Ascends up n ms) : ∃ ks, Ascends up' n ks := by
  induction h with
  | @top n htop =>
    rcases hup n with heq | hends
    · exact ⟨[], .top (heq.trans htop)⟩
    · exact hends
  | @step n m _ hstep _ ih =>
    rcases hup n with heq | hends
    · obtain ⟨ks, hks⟩ := ih
      exact ⟨m :: ks, .step (heq.trans hstep) hks⟩
    · exact hends

end Ascends

/-! ## §2. Names of parents. -/

open DependencyScope.Text

/-- A name has no more parts when it is made canonical, unless it becomes that of the root. -/
theorem colons_canonicalName (raw : String) :
    canonicalName raw = rootName ∨ colons (canonicalName raw) ≤ colons raw := by
  unfold canonicalName
  split
  · exact .inl rfl
  · next pieces =>
    have hpieces : ∀ piece ∈ (splitOn ':' (trim raw)).filter (· ≠ ""), colons piece = 0 :=
      fun piece hpiece => colons_of_mem_splitOn (List.mem_filter.1 hpiece).1
    have hlength : ((splitOn ':' (trim raw)).filter (· ≠ "")).length ≤ colons (trim raw) + 1 := by
      rw [← length_splitOn_colon]
      exact List.length_filter_le _ _
    have htrim := colons_trim raw
    rw [colons_intercalate hpieces]
    exact .inr (by omega)

/-- The parent that a name implies has fewer parts or is the root. -/
theorem colons_impliedParent? {name parent : String} (h : impliedParent? name = some parent) :
    name ≠ rootName ∧ (parent = rootName ∨ colons parent < colons name) := by
  unfold impliedParent? at h
  split at h
  · exact nomatch h
  · next hroot =>
    refine ⟨hroot, ?_⟩
    have hlength := length_splitOn_colon name
    split at h
    · cases h
      exact .inl rfl
    · cases h
      exact .inl rfl
    · next parts hnil hone =>
      obtain rfl := Option.some.inj h
      have hpieces : ∀ piece ∈ (splitOn ':' name).dropLast, colons piece = 0 := fun piece hpiece =>
        colons_of_mem_splitOn (List.dropLast_subset _ hpiece)
      have hjoined := colons_intercalate hpieces
      rw [List.length_dropLast, hlength] at hjoined
      -- there are two parts at least, so the last one comes after a colon
      have hcolons : colons name ≠ 0 := by
        intro hzero
        rw [hzero] at hlength
        obtain ⟨part, hpart⟩ := List.length_eq_one_iff.1 hlength
        exact hone part hpart
      rcases colons_canonicalName (String.intercalate ":" (splitOn ':' name).dropLast)
        with hroot | hle
      · exact .inl hroot
      · exact .inr (by omega)

end DependencyScope
