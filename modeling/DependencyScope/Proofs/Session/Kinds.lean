/-
  DependencyScope.Proofs.Session.Kinds — a key keeps the kind of entry that it holds.

  A key holds a sub-namespace or a dependency.  Each single write puts an entry only where none of
  the other kind is held, and undoing a batch puts back an entry that was there, or leaves one that
  the batch has put.  So only what takes entries out ends what a key is for.

  Main definitions:
    * `Store.KeepsKinds` — every key that held an entry holds one of the same kind.

  Main results:
    * `Store.Wrote.keepsKinds` — every single write keeps the kinds;
    * `Session.kinds_after` — and so does every operation that takes nothing out.
-/
import DependencyScope.Proofs.Session.Parts

namespace DependencyScope

open DependencyScope.Action

/-- Both entries are for dependencies, or both are for namespaces. -/
def Entry.SameKind (e e' : Entry) : Prop := e.sub?.isSome = e'.sub?.isSome

namespace Store

variable {K : String → Prop} {r s t : Store} {n : Namespace} {key : String} {e : Entry}
  {id : DependencyId}

/-! ## §1. Single writes. -/

/-- Every key that holds an entry in `s` holds one of the same kind in `t`. -/
def KeepsKinds (s t : Store) : Prop :=
  ∀ n key e, s.entryAt? n key = some e → ∃ e', t.entryAt? n key = some e' ∧ e.SameKind e'

namespace KeepsKinds

theorem of_entryAt? (h : ∀ n key, t.entryAt? n key = s.entryAt? n key) : s.KeepsKinds t :=
  fun n key e hentry => ⟨e, (h n key).trans hentry, rfl⟩

theorem trans (h : r.KeepsKinds s) (h' : s.KeepsKinds t) : r.KeepsKinds t := by
  intro n key e hentry
  obtain ⟨e', hentry', hsame⟩ := h n key e hentry
  obtain ⟨e'', hentry'', hsame'⟩ := h' n key e' hentry'
  exact ⟨e'', hentry'', hsame.trans hsame'⟩

theorem of_quiet (h : s.Quiet t) : s.KeepsKinds t := .of_entryAt? h.entryAt?

/-- An entry may be put where the key holds none of the other kind. -/
theorem putEntry (h : ∀ e', s.entryAt? n key = some e' → e'.SameKind e) :
    s.KeepsKinds (s.putEntry n key e) := by
  intro m k e' hentry
  rw [entryAt?_putEntry]
  split
  · next heq =>
    obtain ⟨rfl, rfl⟩ := heq
    exact ⟨e, rfl, h e' hentry⟩
  · exact ⟨e', hentry, rfl⟩

/-- Placing a dependency fills the one key, and other keys that were free. -/
theorem of_placed (h : s.Placed K n key id t) : s.KeepsKinds t := by
  intro m k e hentry
  rcases h.entryAt?_cases m k with hsame | ⟨rfl, rfl | ⟨hnone, -⟩⟩
  · exact ⟨e, hsame.trans hentry, rfl⟩
  · refine ⟨.dependency id, h.entry, ?_⟩
    cases e with
    | sub sub => exact absurd hentry (h.free sub)
    | dependency i => rfl
  · exact nomatch hnone.symm.trans hentry

theorem of_put (h : s.Put K t) : s.KeepsKinds t := by
  cases h with
  | quiet hquiet => exact .of_quiet hquiet
  | placed hplaced => exact .of_placed hplaced
  | linked hquiet hfree =>
    refine (KeepsKinds.of_quiet hquiet).trans (.putEntry fun e hentry => ?_)
    cases e with
    | sub sub => rfl
    | dependency id => exact absurd hentry (hfree id)

/-- Undoing a batch puts back what a key held, or leaves what it holds. -/
theorem restoreBelow (h : r.KeepsKinds s) (h' : r.KeepsKinds t) (n : Namespace) :
    r.KeepsKinds (t.restoreBelow s [n]) := by
  intro m key e hentry
  unfold entryAt?
  rw [contentsOf_restoreBelow]
  split
  · exact h m key e hentry
  · exact h' m key e hentry

end KeepsKinds

theorem Wrote.keepsKinds (h : s.Wrote K t) : s.KeepsKinds t := by
  cases h with
  | put hput => exact .of_put hput
  | aliased hsourced hfree =>
    refine (KeepsKinds.of_put hsourced.put).trans (.putEntry fun e hentry => ?_)
    cases e with
    | sub sub => exact absurd hentry (hfree sub)
    | dependency id => rfl

end Store

/-! ## §2. Operations. -/

namespace Session

variable {σ : Session} {operation : Operation} {followsProjects : Bool}

/-- Whatever succeeds or fails, a key that held a sub-namespace holds a sub-namespace, and a key that
held a dependency holds a dependency, unless entries are taken out. -/
theorem kinds_after (h : Reached followsProjects σ) (hpresent : operation.Present σ.store)
    (hkeeps : operation.removes = false) (n : Namespace) (key : String) :
    (∀ sub, σ.store.entryAt? n key = some (.sub sub) →
      ∃ sub', (σ.after operation).store.entryAt? n key = some (.sub sub')) ∧
    ∀ id, σ.store.entryAt? n key = some (.dependency id) →
      ∃ id', (σ.after operation).store.entryAt? n key = some (.dependency id') := by
  -- the kinds of entries are kept by each single write, and by what a failed batch puts back
  have hafter : σ.store.KeepsKinds (σ.after operation).store := by
    refine keeps_of_parts (fun s t _ hquiet hs => hs.trans (.of_quiet hquiet)) h.sound hpresent ?_
      (fun batch _ _ _ _ hbefore hending => hbefore.restoreBelow hending batch.target)
      (.of_entryAt? fun _ _ => rfl)
    intro step hstep hsound hs
    obtain ⟨hsingle, -, hremoves⟩ := Step.single_of_mem_parts hpresent hstep
    have hwrote : step.session.store.Wrote (fun _ => True) step.after.store := by
      refine wrote_after (fun _ _ _ => trivial) hsound (.of_true _) (fun _ _ => trivial) hsingle ?_
      exact Bool.eq_false_iff.2 fun htakes => Bool.eq_false_iff.1 hkeeps (hremoves htakes)
    exact hs.trans hwrote.keepsKinds
  constructor
  · intro sub hsub
    obtain ⟨e', hentry, hsame⟩ := hafter n key _ hsub
    cases e' with
    | sub sub' => exact ⟨sub', hentry⟩
    | dependency id => exact nomatch hsame
  · intro id hid
    obtain ⟨e', hentry, hsame⟩ := hafter n key _ hid
    cases e' with
    | sub sub => exact nomatch hsame
    | dependency id' => exact ⟨id', hentry⟩

/-- Assigns a group to the key of a sub-namespace, after it has gone through that. -/
def mixedBatch : List (String × Value) :=
  [("s_k", .text "g:j:t:2"), ("i", .text "3"), ("s", .group ["g:i:t:1"])]

/-- Where a sub-namespace and a dependency are held, they are still held after a batch that fails. -/
theorem kinds_after_mixedBatch :
    let σ := (start true).afterAll
      [.openSub (.registered "n" 0) "s", .set (.registered "n" 0) "i" (.text "g:i:t:1")]
    let operation : Operation := .useAll (.registered "n" 0) mixedBatch
    Reached true σ ∧ ((perform operation).run σ).1.toOption.isNone ∧
      (∃ sub, (σ.after operation).store.entryAt? (.registered "n" 0) "s" = some (.sub sub)) ∧
      ∃ id, (σ.after operation).store.entryAt? (.registered "n" 0) "i"
        = some (.dependency id) := by
  intro σ operation
  have hreached : Reached true σ := .after (.after .start (Nat.le_refl _)) trivial
  have hpresent : operation.Present σ.store := trivial
  have hkinds := kinds_after hreached hpresent rfl (.registered "n" 0)
  refine ⟨hreached, by decide +kernel, (hkinds "s").1 (.single 0 "n:s" true) (by decide +kernel),
    (hkinds "i").2 0 (by decide +kernel)⟩

end Session

end DependencyScope
