/-
  DependencyScope.Proofs.Session.Compound — assignments and look-ups by compound keys.

  A compound key leads through sub-namespaces, to any depth and around in circles.  Whatever single
  dependency is assigned to such a key, the same key finds it afterwards, before any ancestor is
  asked.  (A group also puts its members under keys of their own, and a namespace that is stored
  becomes a part of other compound keys; both may turn the key aside.)

  A key that begins with the names of several sub-namespaces leads to the one with the shortest name.

  Main definitions:
    * `Value.Names` — the value stands for one dependency.

  Main results:
    * `Namespace.leaves_setHere_filled` — what such a value does to the entries;
    * `Session.localEntry_set` — what is assigned to a name is found by it;
    * `Session.compound_reaches` — which sub-namespace a compound key is read in and written to.
-/
import DependencyScope.Proofs.Namespace.Narrow
import DependencyScope.Proofs.Namespace.Replace
import DependencyScope.Proofs.Session.Listed
import DependencyScope.Proofs.Store.Paths

namespace DependencyScope

open DependencyScope.Text DependencyScope.Action

/-! ## §1. Values that stand for one dependency. -/

/-- The value is a text or a dependency, or a key that names a dependency in `n`. -/
def Value.Names (s : Store) (n : Namespace) : Value → Prop
  | .text _ | .dependency _ => True
  | .key other => ((n.lookupDependency other).answer s).isSome
  | .group _ | .sub _ => False

namespace Namespace

variable {n : Namespace} {key : String} {value : Value} {σ : Session}

theorem leaves_storeCopy_filled (hσ : σ.store.Sound) (n : Namespace) (key : String)
    (source : DependencyId) :
    Leaves (n.storeCopy key source) (fun id τ => ∀ m k, τ.store.entryAt? m k
      = if n = m ∧ key = k then some (.dependency id) else σ.store.entryAt? m k) σ := by
  have hcopied := Store.copy_spec hσ source key
  have hdone : (n.storeCopy key source).run σ
      = (.ok (σ.store.copy source key).1, { σ with store := n.replaced key source σ.store }) := rfl
  intro id τ hrun
  rw [hdone] at hrun
  cases hrun
  intro m k
  unfold replaced
  rw [Store.entryAt?_insert, Store.entryAt?_of_contents hcopied.contents]

/-- The key of an assignment is given the dependency, and that is all that becomes of the entries. -/
theorem leaves_setHere_filled (hσ : σ.store.Sound) (hplain : looksLikeSpec key = false)
    (hvalue : value.Names σ.store n) :
    Leaves (n.setHere key value)
      (fun e τ => ∃ id, e = .dependency id ∧ σ.store.Fills n key id τ.store) σ := by
  have hkey := σ.store.assignedKey?_of_name n hplain
  -- texts and copies differ only in the action that is guarded
  have hguarded {τ : Session} (hτ : τ.store = σ.store) {act : Action DependencyId}
      (hact : Leaves act (fun id υ => ∀ m k, υ.store.entryAt? m k
        = if n = m ∧ key = k then some (.dependency id) else σ.store.entryAt? m k) τ) :
      Leaves (do n.ensureNoSub key; return Entry.dependency (← act))
        (fun e υ => ∃ id, e = .dependency id ∧ σ.store.Fills n key id υ.store) τ := by
    have hensure := n.run_ensureNoSub key τ
    rw [hτ] at hensure
    -- where the key holds a sub-namespace, the assignment fails
    split at hensure
    · next hfree =>
      refine .bind_ok hensure (.map ?_)
      intro id υ hrun
      exact ⟨id, rfl, hfree, hact id υ hrun⟩
    · intro e υ hrun
      exact nomatch (run_bind_error hensure _).symm.trans hrun
  unfold setHere
  refine .bind_ok (run_localKey_of_assignedKey? hkey) ?_
  cases value with
  | text text =>
    apply hguarded rfl
    intro id υ hrun
    exact ((ends_useTextAs hσ n key text).1 id υ hrun).entries
  | dependency source => exact hguarded rfl (leaves_storeCopy_filled hσ n key source)
  | key other =>
    let τ : Session := { σ with listed := (n.lookup other).listing σ }
    obtain ⟨source, hsource⟩ := Option.isSome_iff_exists.1 hvalue
    have hlookup : ((n.lookup other).answer σ.store).bind Entry.dependency? = some source := hsource
    obtain ⟨e, hfound, he⟩ := Option.bind_eq_some_iff.1 hlookup
    refine .bind_ok (run_read _ σ) ?_
    rw [hfound, Entry.dependency?_eq_some.1 he]
    exact hguarded (τ := τ) rfl (leaves_storeCopy_filled (σ := τ) hσ n key source)
  | group specs => exact hvalue.elim
  | sub sub => exact hvalue.elim

end Namespace

/-! ## §2. What has been assigned is found. -/

theorem Namespace.lookup_of_localEntry {σ : Session} {n : Namespace} {key : String} {e : Entry}
    (h : σ.store.localEntry n key = some e) : n.lookup key σ = (some e, σ) := by
  have hview : Reading.view (Store.localEntry · n key) σ = (some e, σ) := Prod.ext h rfl
  unfold lookup
  rw [Reading.run_bind, hview]
  rfl

namespace Session

variable {σ τ : Session} {followsProjects : Bool} {n m sub : Namespace} {key : String}

/-- The entry that a text, a dependency or the name of one is made to under a name is what the name
finds from then on; no ancestor is asked for it, and nothing is written by looking it up. -/
theorem localEntry_set (h : Reached followsProjects σ) (hplain : looksLikeSpec key = false)
    {value : Value} (hvalue : value.Names σ.store (σ.store.landing n key).1) {e : Entry}
    (hrun : (perform (.set n key value)).run σ = (.ok (.entry e), τ)) :
    τ.store.localEntry n key = some e ∧ n.lookup key τ = (some e, τ) := by
  obtain ⟨e', hset, heq⟩ := exists_of_return hrun
  cases heq
  rw [Namespace.run_set] at hset
  -- what the key leads to is a name as well
  have hlands := (Store.landing_name (s := σ.store) n key hplain).2
  obtain ⟨id, rfl, hfills⟩ := Namespace.leaves_setHere_filled h.sound hlands hvalue e τ hset
  have hlocal : τ.store.localEntry n key = some (.dependency id) := hfills.localEntry hplain
  exact ⟨hlocal, Namespace.lookup_of_localEntry hlocal⟩

/-- A session in which `n` and its sub-namespace `a` contain each other. -/
def circular : Session :=
  (start true).afterAll
    [.openSub (.registered "n" 0) "a",
      .set (.single 0 "n:a" true) "b" (.sub (.registered "n" 0)),
      .set (.registered "n" 0) "k" (.text "g:i:t:1")]

/-- The key goes round once and lands in `a`, from where `k` is visible. -/
theorem localEntry_set_circular :
    ∃ e τ, (perform (.set (.registered "n" 0) "a_b_a_x" (.key "k"))).run circular
        = (.ok (.entry e), τ) ∧
      circular.store.landing (.registered "n" 0) "a_b_a_x" = (.single 0 "n:a" true, "x") ∧
      τ.store.localEntry (.registered "n" 0) "a_b_a_x" = some e ∧
      Namespace.lookup (.registered "n" 0) "a_b_a_x" τ = (some e, τ) := by
  have hreached : Reached true circular :=
    .after (.after (.after .start (Nat.le_refl _)) trivial) trivial
  have hsucceeds : ((Namespace.set (.registered "n" 0) "a_b_a_x" (.key "k")).run
      circular).1.toOption.isSome := by decide +kernel
  have hplace : circular.store.landing (.registered "n" 0) "a_b_a_x"
      = (.single 0 "n:a" true, "x") := by decide +kernel
  have hvalue : (Value.key "k").Names circular.store
      (circular.store.landing (.registered "n" 0) "a_b_a_x").1 := by
    show ((Namespace.lookupDependency _ "k").answer circular.store).isSome
    decide +kernel
  obtain ⟨e, τ, hset⟩ := exists_of_isSome hsucceeds
  have hrun : (perform (.set (.registered "n" 0) "a_b_a_x" (.key "k"))).run circular
      = (.ok (.entry e), τ) := run_bind_ok hset _
  exact ⟨e, τ, hrun, hplace, localEntry_set hreached (by decide +kernel) hvalue hrun⟩

/-! ## §3. Which sub-namespace a key leads to. -/

/-- In sessions that are reached, keys have no blanks at their ends. -/
theorem Reached.trim_key (h : Reached followsProjects σ) {e : Entry}
    (hentry : σ.store.entryAt? n key = some e) : trim key = key := by
  have hlabelled : σ.store.Labelled fun key => trim key = key :=
    h.through.labelled (fun _ htrim _ => htrim) fun _ _ _ _ _ name _ => trim_trim name
  exact hlabelled.entries n key e hentry

/-- Two names without blanks at their ends have none there when they are joined by a separator. -/
theorem trim_of_splits {text k e : String} (h : Splits text k e) (hk : trim k = k)
    (he : trim e = e) (hkblank : k ≠ "") (heblank : e ≠ "") : trim text = text := by
  obtain ⟨c, -, htext⟩ := h
  apply Trimmed.trim
  rw [htext]
  have hjoined := (trimmed_of_trim_eq hk).join (trimmed_of_trim_eq he)
    (fun hnil => hkblank (String.toList_eq_nil_iff.1 hnil))
    (fun hnil => heblank (String.toList_eq_nil_iff.1 hnil)) [c]
  exact hjoined

/-- Two names without colons have not the shape of a spec when they are joined by a separator. -/
theorem looksLikeSpec_of_splits {text k e : String} (h : Splits text k e) (hk : ':' ∉ k.toList)
    (he : ':' ∉ e.toList) : looksLikeSpec text = false := by
  obtain ⟨c, hc, htext⟩ := h
  have hcolon : ':' ∉ text.toList := by
    rw [htext, List.mem_append, List.mem_cons]
    rintro (hmem | rfl | hmem)
    · exact hk hmem
    · rcases hc with hc | hc <;> exact absurd hc (by decide)
    · exact he hmem
  unfold looksLikeSpec colons
  rw [List.count_eq_zero.2 hcolon]
  rfl

/-- What is behind a name and its separator is cut off together with what follows. -/
theorem rest_of_splits {text k e name r rest : String} (htext : Splits text k e)
    (hk : Splits k name r) (h : Splits text name rest) :
    ∃ c, rest.toList = r.toList ++ c :: e.toList := by
  obtain ⟨c, -, htext⟩ := htext
  obtain ⟨c', -, hk⟩ := hk
  obtain ⟨c'', -, h⟩ := h
  rw [htext, hk, List.append_assoc, List.cons_append] at h
  exact ⟨c, (List.cons.inj (List.append_cancel_left h)).2.symm⟩

/-- A key that is the name of a sub-namespace, a separator and a key of that is read there and
written to there, provided that the namespace holds no other one under a shorter name with which the
key begins.  Otherwise the shortest of these names decides. -/
theorem compound_reaches (h : Reached followsProjects σ) {k e text : String}
    (hk : σ.store.entryAt? n k = some (.sub sub)) (he : (σ.store.entryAt? sub e).isSome)
    (hkblank : trim k ≠ "") (heblank : trim e ≠ "") (hkplain : ':' ∉ k.toList)
    (heplain : ':' ∉ e.toList) (htext : Splits text k e)
    (hfree : σ.store.entryAt? n text = none) :
    ((∀ shorter r, Splits k shorter r → ∀ m, σ.store.entryAt? n shorter ≠ some (.sub m)) →
      σ.store.localEntry n text = σ.store.localEntry sub e ∧
        ∀ value, (n.set text value).run σ = (sub.set e value).run σ) ∧
    ∀ name r rest m, σ.store.LeadsTo n k name r m → Splits text name rest →
      σ.store.localEntry n text = σ.store.localEntry m rest ∧
        ∀ value, (n.set text value).run σ = (m.set rest value).run σ := by
  obtain ⟨entry, hentry⟩ := Option.isSome_iff_exists.1 he
  have hktrim := h.trim_key hk
  have hetrim := h.trim_key hentry
  rw [hktrim] at hkblank
  rw [hetrim] at heblank
  have htrim : trim text = text := trim_of_splits htext hktrim hetrim hkblank heblank
  have hplain : looksLikeSpec text = false := looksLikeSpec_of_splits htext hkplain heplain
  -- reading and writing go through the same split
  have hleads {name rest : String} {m : Namespace} (hleads : σ.store.LeadsTo n text name rest m)
      (hrest : rest ≠ "") : σ.store.localEntry n text = σ.store.localEntry m rest ∧
        ∀ value, (n.set text value).run σ = (m.set rest value).run σ := by
    refine ⟨hleads.localEntry htrim hplain hfree hrest, fun value => ?_⟩
    rw [Namespace.run_set, Namespace.run_set, hleads.landing htrim hplain hfree hrest]
  constructor
  -- the first sub-namespace is the one that was meant
  · intro hfirst
    exact hleads ⟨htext, hk, hfirst⟩ heblank
  -- a shorter name comes first: more than the separator and `e` is left
  · intro name r rest m hname hsplits
    obtain ⟨c, hcut⟩ := rest_of_splits htext hname.splits hsplits
    apply hleads ⟨hsplits, hname.entry, hname.first⟩
    rintro rfl
    rw [String.toList_empty] at hcut
    exact List.append_ne_nil_of_right_ne_nil _ (List.cons_ne_nil c _) hcut.symm

/-- A session in which `n` has the sub-namespaces `a` and `a_b`, the first one with the key `b_e` and
the second one with the key `e`. -/
def overlapping : Session :=
  (start true).afterAll
    [.openSub (.registered "n" 0) "a", .set (.registered "n" 0) "a_b_e" (.text "g:i:t:1"),
      .openSub (.registered "n" 0) "a_b", .set (.single 1 "n:a_b" true) "e" (.text "g:j:t:1")]

theorem reached_overlapping : Reached true overlapping :=
  .after (.after (.after (.after .start (Nat.zero_le _)) trivial) (Nat.zero_le _)) trivial

/-- The key is read in `a`, whether it is taken for `b_e` there or for `e` in `a_b`. -/
theorem compound_reaches_overlapping :
    overlapping.store.localEntry (.registered "n" 0) "a_b_e"
      = overlapping.store.localEntry (.single 0 "n:a" true) "b_e" ∧
    ∀ value, (Namespace.set (.registered "n" 0) "a_b_e" value).run overlapping
      = (Namespace.set (.single 0 "n:a" true) "b_e" value).run overlapping := by
  have hshort : Splits "a_b_e" "a" "b_e" := ⟨'_', .inl rfl, by decide⟩
  have hlong : Splits "a_b_e" "a_b" "e" := ⟨'_', .inl rfl, by decide⟩
  have hname : Splits "a_b" "a" "b" := ⟨'_', .inl rfl, by decide⟩
  -- no shorter name comes first: there is no separator in `a`
  have hfirst (shorter r : String) (h : Splits "a" shorter r) (m : Namespace) :
      overlapping.store.entryAt? (.registered "n" 0) shorter ≠ some (.sub m) := by
    obtain ⟨c, hc, htext⟩ := h
    have hmem : c ∈ "a".toList := by
      rw [htext]
      simp
    obtain rfl : c = 'a' := by simpa using hmem
    rcases hc with hc | hc <;> exact absurd hc (by decide)
  have ha : overlapping.store.entryAt? (.registered "n" 0) "a" = some (.sub (.single 0 "n:a" true)) :=
    by decide +kernel
  have hb : overlapping.store.entryAt? (.registered "n" 0) "a_b"
      = some (.sub (.single 1 "n:a_b" true)) := by decide +kernel
  obtain ⟨hdirect, -⟩ := compound_reaches reached_overlapping ha (by decide +kernel)
    (by decide +kernel) (by decide +kernel) (by decide) (by decide) hshort (by decide +kernel)
  obtain ⟨-, hothers⟩ := compound_reaches reached_overlapping hb (by decide +kernel)
    (by decide +kernel) (by decide +kernel) (by decide) (by decide) hlong (by decide +kernel)
  exact ⟨(hdirect hfirst).1, (hothers "a" "b" "b_e" _ ⟨hname, ha, hfirst⟩ hshort).2⟩

/-- So the key `e` of `a_b` is not what it finds. -/
theorem not_compound_reaches :
    Reached true overlapping ∧
    overlapping.store.entryAt? (.registered "n" 0) "a_b" = some (.sub (.single 1 "n:a_b" true)) ∧
    (overlapping.store.entryAt? (.single 1 "n:a_b" true) "e").isSome ∧
    overlapping.store.entryAt? (.registered "n" 0) "a_b_e" = none ∧
    overlapping.store.localEntry (.registered "n" 0) "a_b_e"
      ≠ overlapping.store.localEntry (.single 1 "n:a_b" true) "e" :=
  ⟨reached_overlapping, by decide +kernel, by decide +kernel, by decide +kernel,
    by decide +kernel⟩

end Session

end DependencyScope
