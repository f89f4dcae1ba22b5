/-
  DependencyScope.Proofs.Namespace.Rollback — what is left behind by a batch of assignments that
  fails.

  A batch that fails puts back what the namespaces below its own held before, and the dependencies
  that they held.  That is all there is to put back as long as no assignment lands anywhere else.
  One that lands elsewhere goes through a namespace that the batch has stored before: such a
  namespace was not below the batch's own when the batch began, and what is written to it stays.

  Main definitions:
    * `Store.AsBefore` — every namespace and every dependency is as it was.

  Main results:
    * `Store.asBefore_restoreBelow_iff` — what is put back, and what is not;
    * `Namespace.asBefore_useAll_iff` — when a batch that fails leaves everything as it was.
-/
import DependencyScope.Proofs.Namespace.Frame
import DependencyScope.Proofs.Session.Run

namespace DependencyScope

open DependencyScope.Text DependencyScope.Action

/-! ## §1. What is put back. -/

namespace Store

variable {s t : Store} {n : Namespace}

/-- Each namespace holds what it held in `s`, and each dependency of `s` is what it was. -/
def AsBefore (s t : Store) : Prop :=
  (∀ m, t.contentsOf m = s.contentsOf m) ∧
    ∀ id < s.nextDependency, t.dependency id = s.dependency id

/-- A dependency is put back together with its members, itself at least. -/
theorem mem_heldIn_of_mem {m : Namespace} {id : DependencyId} (hm : s.Contains n m)
    (hid : id ∈ (s.entries m).filterMap Entry.dependency? ++ (s.contentsOf m).index.values) :
    id ∈ s.heldIn n := by
  have hself : id ∈ s.membersWithin id id := by
    unfold membersWithin
    split <;> simp
  unfold heldIn heldBy
  exact List.mem_flatMap.2 ⟨m, mem_subtree_iff.2 hm, List.mem_flatMap.2 ⟨id, hid, hself⟩⟩

/-- The namespaces below `n` hold only dependencies that are put back. -/
theorem mem_heldIn {m : Namespace} {key : String} {id : DependencyId} (hm : s.Contains n m)
    (hown : s.ownDependency? m key = some id) : id ∈ s.heldIn n := by
  have hentries : .dependency id ∈ s.entries m :=
    mem_entries_iff.2 ⟨key, ownDependency?_eq_some.1 hown⟩
  exact mem_heldIn_of_mem hm (List.mem_append.2 (.inl (List.mem_filterMap.2 ⟨_, hentries, rfl⟩)))

/-- So do their indexes. -/
theorem mem_heldIn_of_indexed? {m : Namespace} {unversioned : String} {id : DependencyId}
    (hm : s.Contains n m) (hid : s.indexed? m unversioned = some id) : id ∈ s.heldIn n :=
  mem_heldIn_of_mem hm (List.mem_append.2 (.inr (mem_values_iff.2 ⟨unversioned, hid⟩)))

theorem contentsOf_restoreBelow (s t : Store) (n m : Namespace) :
    (t.restoreBelow s [n]).contentsOf m
      = if m ∈ s.subtree n then s.contentsOf m else t.contentsOf m := by
  unfold restoreBelow
  rw [contentsOf_restore, List.flatMap_singleton]

theorem dependency_restoreBelow (s t : Store) (n : Namespace) (id : DependencyId) :
    (t.restoreBelow s [n]).dependency id
      = if id ∈ s.heldIn n then s.dependency id else t.dependency id := by
  unfold restoreBelow
  rw [dependency_restore, List.flatMap_singleton]

/-- Outside what `n` contains, namespaces and dependencies are what they were. -/
def AsBeforeOutside (s t : Store) (n : Namespace) : Prop :=
  (∀ m, ¬s.Contains n m → t.contentsOf m = s.contentsOf m) ∧
    ∀ id < s.nextDependency, id ∉ s.heldIn n → t.dependency id = s.dependency id

/-- Putting back what is below `n` is enough exactly if nothing else has changed. -/
theorem asBefore_restoreBelow_iff :
    s.AsBefore (t.restoreBelow s [n]) ↔ s.AsBeforeOutside t n := by
  refine and_congr ?_ ?_
  · refine forall_congr' fun m => ?_
    rw [contentsOf_restoreBelow, ← mem_subtree_iff]
    by_cases hm : m ∈ s.subtree n <;> simp [hm]
  · refine forall_congr' fun id => imp_congr_right fun _ => ?_
    rw [dependency_restoreBelow]
    by_cases hid : id ∈ s.heldIn n <;> simp [hid]

/-- Writes to the namespaces that `n` contains change nothing outside, if they write no other
dependencies than those that are held there and new ones. -/
theorem Framed.asBeforeOutside {W : DependencyId → Prop} (h : Framed s (s.Contains n) W t)
    (hW : ∀ id < s.nextDependency, W id → id ∈ s.heldIn n) : s.AsBeforeOutside t n :=
  ⟨h.contents, fun id hid hheld => h.dependency id fun hwritten => hheld (hW id hid hwritten)⟩

theorem mem_heldIn_of_writable {id : DependencyId} (hid : id < s.nextDependency)
    (h : s.Writable (s.Contains n) id) : id ∈ s.heldIn n := by
  rcases h with hnew | ⟨m, hm, key, hown⟩
  · exact (Nat.not_le_of_lt hid hnew).elim
  · exact mem_heldIn hm hown

end Store

/-! ## §2. Batches that fail. -/

namespace Namespace

variable {n : Namespace} {σ τ : Session} {pairs : List (String × Value)} {e : Error}

/-- A batch that fails ends where its steps have ended, with a part of the store put back. -/
theorem store_atomically_error {α : Type} {act : Action α}
    (h : (atomically n act).run σ = (.error e, τ)) :
    τ.store = ((act.run (held σ)).2.store).restoreBelow σ.store [n] := by
  unfold atomically at h
  -- undoing happens inside, while the listeners are still held back
  obtain ⟨undone, waiting, hundone, rfl, -⟩ := exists_of_deferring_error h
  obtain ⟨mid, hact, rfl⟩ := exists_of_restoring_error hundone
  rewrite [hact]
  rfl

/-- A batch that fails leaves everything as it was exactly if its assignments, up to the one that
fails, have changed nothing outside of what its namespace contains.  They have not if they all land
there, and they do if every namespace that they store is contained as well.  They have if one of
them lands elsewhere, succeeds, and is for a key that was free. -/
theorem asBefore_useAll_iff (h : (n.useAll pairs).run σ = (.error e, τ)) :
    (σ.store.AsBefore τ.store ↔ σ.store.AsBeforeOutside
      ((pairs.mapM fun (key, value) => n.set key value).run (held σ)).2.store n) ∧
    ((∀ a ∈ n.assignments pairs (held σ), σ.store.Contains n a.place) →
      σ.store.AsBefore τ.store) ∧
    ((∀ a ∈ n.assignments pairs (held σ), ∀ m ∈ a.stored?, σ.store.Contains n m) →
      ∀ a ∈ n.assignments pairs (held σ), σ.store.Contains n a.place) ∧
    ∀ a ∈ n.assignments pairs (held σ), a.Succeeds → ¬σ.store.Contains n a.place →
      ∀ key ∈ a.assigned?, σ.store.entryAt? a.place key = none → ¬σ.store.AsBefore τ.store := by
  have hheld : (held σ).waiting.isSome := rfl
  have hiff := Store.asBefore_restoreBelow_iff (s := σ.store) (n := n)
    (t := ((pairs.mapM fun (key, value) => n.set key value).run (held σ)).2.store)
  rw [← store_atomically_error h] at hiff
  refine ⟨hiff, ?_, fun hstored => place_contained hstored, ?_⟩
  · intro hplaces
    have hframed := framed_setAll hheld hplaces
    exact hiff.2 (hframed.asBeforeOutside fun _ => Store.mem_heldIn_of_writable)
  · intro a ha hsucceeds houtside key hkey hfree hbefore
    have hcontents := (hiff.1 hbefore).1 a.place houtside
    have hend := held_after_setAll pairs a ha hsucceeds key hkey
    unfold Store.entryAt? at hend hfree
    rw [hcontents, hfree] at hend
    exact nomatch hend

/-- A session in which a sub-namespace of `n` holds a dependency. -/
def nested : Session :=
  (Session.start true).afterAll
    [.openSub (.registered "n" 0) "s", .set (.registered "n" 0) "s_k" (.text "g:i:t:1")]

/-- Writes to the sub-namespace, and a text that is no version. -/
def nestedBatch : List (String × Value) :=
  [("s_k", .text "2"), ("s_l", .text "g:j:t:1"), ("x", .text "?")]

/-- What was selected through a compound key is put back. -/
theorem asBefore_nestedBatch :
    ∃ e τ, ((.registered "n" 0 : Namespace).useAll nestedBatch).run nested = (.error e, τ) ∧
      nested.store.AsBefore τ.store := by
  have hfails : (((.registered "n" 0 : Namespace).useAll nestedBatch).run nested).1.toOption.isNone
    := by decide +kernel
  have hstored : ((.registered "n" 0 : Namespace).assignments nestedBatch (held nested)).all
    (·.stored?.isNone) := by decide +kernel
  obtain ⟨e, τ, hrun⟩ := exists_of_isNone hfails
  refine ⟨e, τ, hrun, ?_⟩
  obtain ⟨-, hplaces, hcontained, -⟩ := asBefore_useAll_iff hrun
  refine hplaces (hcontained ?_)
  intro a ha m hm
  have hnone := List.all_eq_true.1 hstored a ha
  rw [Option.mem_def.1 hm] at hnone
  exact nomatch hnone

/-- A session in which the namespace `m` holds a dependency. -/
def beside : Session :=
  (Session.start true).after (.set (.registered "m" 0) "j" (.text "g:j:t:1"))

/-- Stores `m`, writes to it, and then fails. -/
def storedBatch : List (String × Value) :=
  [("x", .sub (.registered "m" 0)), ("x_k", .text "g:i:t:1"), ("y", .text "?")]

/-- What is written to a namespace that the batch itself has stored is not put back. -/
theorem not_asBefore_storedBatch :
    ∃ e τ, ((.registered "a" 0 : Namespace).useAll storedBatch).run beside = (.error e, τ) ∧
      ¬beside.store.AsBefore τ.store := by
  have hfails : (((.registered "a" 0 : Namespace).useAll storedBatch).run beside).1.toOption.isNone
    := by decide +kernel
  have hkeys : ((((.registered "a" 0 : Namespace).useAll storedBatch).run beside).2.store.keys
    (.registered "m" 0)) ≠ beside.store.keys (.registered "m" 0) := by decide +kernel
  obtain ⟨e, τ, hrun⟩ := exists_of_isNone hfails
  refine ⟨e, τ, hrun, ?_⟩
  rintro ⟨hcontents, -⟩
  rw [hrun] at hkeys
  exact hkeys (congrArg (·.entries.keys) (hcontents (.registered "m" 0)))

end Namespace

end DependencyScope
