/-
  DependencyScope.Proofs.Namespace.Frame — where the assignments of a batch write.

  An assignment writes to the namespace where its key lands, and to the dependencies that this
  namespace holds.  Keys lead only through entries, so all assignments of a batch land below its own
  namespace, unless one of them stores a namespace from elsewhere there.

  Main definitions:
    * `Store.Framed` — only certain namespaces and dependencies are written;
    * `Assignment`, `Namespace.assignments` — the assignments of a batch as they are carried out.

  Main results:
    * `Namespace.keepsAt_setAll_of` — what each assignment keeps is kept by all;
    * `Namespace.framed_setAll` — assignments write only where they land;
    * `Namespace.place_contained` — they land below the batch's own namespace, unless a namespace
      from elsewhere is stored;
    * `Namespace.held_after_setAll` — the key of one that succeeds is held at the end.
-/
import DependencyScope.Proofs.Namespace.Held
import DependencyScope.Proofs.Store.Containment

namespace DependencyScope

open DependencyScope.Text DependencyScope.Action

/-! ## §1. Writing to some namespaces only. -/

namespace Store

variable {s₀ s : Store} {S : Namespace → Prop} {W : DependencyId → Prop}

/-- The dependencies that the namespaces in `S` hold, and those that are not yet made. -/
def Writable (s₀ : Store) (S : Namespace → Prop) (id : DependencyId) : Prop :=
  s₀.nextDependency ≤ id ∨ ∃ m, S m ∧ ∃ key, s₀.ownDependency? m key = some id

/-- From `s₀` to `s`, only the namespaces in `S` and the dependencies in `W` have changed, and those
namespaces hold no other dependencies.  New dependencies are in `W`. -/
structure Framed (s₀ : Store) (S : Namespace → Prop) (W : DependencyId → Prop) (s : Store) :
    Prop where
  contents : ∀ m, ¬S m → s.contentsOf m = s₀.contentsOf m
  dependency : ∀ id, ¬W id → s.dependency id = s₀.dependency id
  next : s₀.nextDependency ≤ s.nextDependency
  new : ∀ id, s₀.nextDependency ≤ id → W id
  own : ∀ m, S m → ∀ key id, s.ownDependency? m key = some id → W id

namespace Framed

variable {m : Namespace}

theorem refl (hnew : ∀ id, s₀.nextDependency ≤ id → W id)
    (hown : ∀ m, S m → ∀ key id, s₀.ownDependency? m key = some id → W id) : Framed s₀ S W s₀ where
  contents _ _ := rfl
  dependency _ _ := rfl
  next := Nat.le_refl _
  new := hnew
  own := hown

/-- What is writable is enough. -/
theorem start (s₀ : Store) (S : Namespace → Prop) : Framed s₀ S (s₀.Writable S) s₀ :=
  .refl (fun _ hnew => .inl hnew) fun m hm key _ hown => .inr ⟨m, hm, key, hown⟩

theorem putDependency (h : Framed s₀ S W s) {id : DependencyId} (hid : W id)
    (d : Dependency) : Framed s₀ S W (s.putDependency id d) where
  contents := h.contents
  dependency := by
    intro i hi
    have hne : id ≠ i := by
      rintro rfl
      exact hi hid
    rw [dependency_putDependency, if_neg hne]
    exact h.dependency i hi
  next := h.next
  new := h.new
  own := h.own

theorem addDependency (h : Framed s₀ S W s) (d : Dependency) :
    Framed s₀ S W (s.addDependency d).2 ∧ W s.nextDependency := by
  have hnew : W s.nextDependency := h.new _ h.next
  have hput := h.putDependency hnew d
  have hnext : s₀.nextDependency ≤ s.nextDependency + 1 := Nat.le_succ_of_le h.next
  exact ⟨{ hput with next := hnext }, hnew⟩

/-- An entry of a namespace in `S` may be any namespace and any dependency in `W`. -/
theorem putEntry (h : Framed s₀ S W s) (hm : S m) (key : String) {e : Entry}
    (he : ∀ id, e = .dependency id → W id) : Framed s₀ S W (s.putEntry m key e) where
  contents := by
    intro x hx
    have hne : m ≠ x := by
      rintro rfl
      exact hx hm
    rw [contentsOf_putEntry, if_neg hne]
    exact h.contents x hx
  dependency := h.dependency
  next := h.next
  new := h.new
  own := by
    intro x hx key' id hown
    rw [ownDependency?, entryAt?_putEntry] at hown
    split at hown
    · cases e with
      | dependency i =>
        cases hown
        exact he id rfl
      | sub k => cases hown
    · exact h.own x hx key' id hown

theorem putIndex (h : Framed s₀ S W s) (hm : S m) (id : DependencyId) :
    Framed s₀ S W (s.putIndex m id) where
  contents := by
    intro x hx
    have hne : m ≠ x := by
      rintro rfl
      exact hx hm
    rw [contentsOf_putIndex_of_ne s id hne]
    exact h.contents x hx
  dependency := by
    intro i hi
    rw [dependency_putIndex]
    exact h.dependency i hi
  next := by
    rw [nextDependency_putIndex]
    exact h.next
  new := h.new
  own := by
    intro x hx key i hown
    rw [ownDependency?, entryAt?_putIndex] at hown
    exact h.own x hx key i hown

end Framed

end Store

/-- As long as no listener makes a selection, writes to a namespace in `S` stay within `S`. -/
theorem Tolerates.framed {s₀ : Store} {S : Namespace → Prop} {W : DependencyId → Prop}
    {m : Namespace} (hm : S m) {J : Session → Prop} {D : Dependency → Prop}
    (hJ : Tolerates J m (fun _ => True) D)
    (hquiet : ∀ σ id, J σ → (σ.announce id).store = σ.store) :
    Tolerates (fun σ => Store.Framed s₀ S W σ.store ∧ J σ) m W D where
  unlisted σ names hσ := ⟨hσ.1, hJ.unlisted σ names hσ.2⟩
  record hσ := hJ.record hσ.2
  own hσ _ _ hown := hσ.1.own m hm _ _ hown
  put hσ _ _ hid hd := ⟨hσ.1.putDependency hid _, hJ.put hσ.2 trivial hd⟩
  add hσ d hd := by
    obtain ⟨hframed, hnew⟩ := hσ.1.addDependency d
    exact ⟨⟨hframed, (hJ.add hσ.2 hd).1⟩, hnew⟩
  entry hσ _ _ hid := ⟨hσ.1.putEntry hm _ (by rintro _ ⟨⟩; exact hid), hJ.entry hσ.2 _ trivial⟩
  index hσ _ _ := ⟨hσ.1.putIndex hm _, hJ.index hσ.2 trivial⟩
  announce := by
    intro σ hσ id _
    refine ⟨?_, hJ.announce hσ.2 trivial⟩
    rw [hquiet σ id hσ.2]
    exact hσ.1

/-- A batch goes on until its end. -/
theorem tolerates_waiting (m : Namespace) :
    Tolerates (fun σ => σ.waiting.isSome) m (fun _ => True) fun _ => True where
  unlisted _ _ hσ := hσ
  record _ _ := trivial
  own _ _ _ _ := trivial
  put hσ _ _ _ _ := hσ
  add hσ _ _ := ⟨hσ, trivial⟩
  entry hσ _ _ _ := hσ
  index hσ _ _ := hσ
  announce := by
    intro σ hσ id _
    obtain ⟨ids, hids⟩ := Option.isSome_iff_exists.1 hσ
    unfold Session.announce
    rw [hids]
    rfl

/-- In a batch, a selection is only noted. -/
theorem Session.store_announce_of_waiting {σ : Session} (h : σ.waiting.isSome)
    (id : DependencyId) : (σ.announce id).store = σ.store := by
  obtain ⟨ids, hids⟩ := Option.isSome_iff_exists.1 h
  unfold Session.announce
  rw [hids]

/-! ## §2. The assignments of a batch. -/

/-- An assignment to a key of a namespace, in a session. -/
structure Assignment where
  session : Session
  target : Namespace
  key : String
  value : Value

namespace Assignment

/-- The namespace in which the assignment lands. -/
def place (a : Assignment) : Namespace := (a.session.store.landing a.target a.key).1

/-- The key there that the assignment is for, if it is for one. -/
def assigned? (a : Assignment) : Option String :=
  a.session.store.assignedKey? a.place (a.session.store.landing a.target a.key).2

/-- The namespace that the assignment stores by reference, if it stores one. -/
def stored? (a : Assignment) : Option Namespace := a.session.store.stored? a.place a.value

/-- The assignment is not refused. -/
def Succeeds (a : Assignment) : Prop :=
  ∃ e τ, (a.target.set a.key a.value).run a.session = (.ok e, τ)

/-- An invariant that the place of the assignment tolerates is kept, if it stands the namespace
that is stored. -/
theorem keepsAt_set {a : Assignment} {I : Session → Prop} {P : DependencyId → Prop}
    (h : Tolerates I a.place P fun _ => True) (ha : I a.session)
    (hsub : ∀ sub, a.stored? = some sub → ∀ key τ, I τ →
      I { τ with store := τ.store.putEntry a.place key (.sub sub) }) :
    KeepsAt I (a.target.set a.key a.value) (fun _ => True) a.session := by
  unfold KeepsAt
  rw [Namespace.run_set]
  exact h.keepsAt_setHere Dependency.lasting_true.toRobust ha hsub fun _ _ _ _ => trivial

end Assignment

namespace Namespace

variable {n : Namespace} {σ τ : Session} {pairs : List (String × Value)}

/-- The assignments of a batch as far as they are carried out, up to one that fails. -/
def assignments (n : Namespace) : List (String × Value) → Session → List Assignment
  | [], _ => []
  | (key, value) :: rest, σ =>
    ⟨σ, n, key, value⟩ ::
      match (n.set key value).run σ with
      | (.ok _, τ) => n.assignments rest τ
      | (.error _, _) => []

/-- What each assignment keeps holds before each of them and at the end. -/
theorem keepsAt_setAll_of {I : Session → Prop} (pairs : List (String × Value)) :
    ∀ {σ : Session}, I σ →
      (∀ a ∈ n.assignments pairs σ, I a.session →
        KeepsAt I (a.target.set a.key a.value) (fun _ => True) a.session) →
      (∀ a ∈ n.assignments pairs σ, I a.session) ∧
        KeepsAt I (pairs.mapM fun (key, value) => n.set key value) (fun _ => True) σ := by
  induction pairs with
  | nil => exact fun hσ _ => ⟨by simp [assignments], hσ, fun _ _ => trivial⟩
  | cons pair pairs ih =>
    obtain ⟨key, value⟩ := pair
    intro σ hσ h
    rw [List.mapM_cons]
    unfold assignments at h ⊢
    rw [List.forall_mem_cons] at h ⊢
    have hset : KeepsAt I (n.set key value) (fun _ => True) σ := h.1 hσ
    -- the list of assignments ends where the run does
    rcases hrun : (n.set key value).run σ with ⟨result, τ⟩
    have hτ : I τ := by simpa [KeepsAt, hrun] using hset.1
    cases result with
    | error e => exact ⟨⟨hσ, by simp⟩, .bind_error hrun hτ⟩
    | ok e =>
      rw [hrun] at h
      obtain ⟨hsessions, hrest⟩ := ih hτ h.2
      exact ⟨⟨hσ, hsessions⟩, .bind_ok hrun (hrest.bind fun _ _ => .pure trivial)⟩

/-- What each assignment leaves behind as it finds it is left behind by all. -/
theorem leaves_setAll_of {I : Session → Prop} (pairs : List (String × Value)) :
    ∀ {σ : Session}, I σ →
      (∀ a ∈ n.assignments pairs σ, I a.session →
        Leaves (a.target.set a.key a.value) (fun _ => I) a.session) →
      Leaves (pairs.mapM fun (key, value) => n.set key value) (fun _ => I) σ := by
  induction pairs with
  | nil =>
    intro σ hσ _ es τ hrun
    cases hrun
    exact hσ
  | cons pair pairs ih =>
    obtain ⟨key, value⟩ := pair
    intro σ hσ h
    rw [List.mapM_cons]
    unfold assignments at h
    rw [List.forall_mem_cons] at h
    refine .bind fun e τ hrun => .map ?_
    rw [hrun] at h
    exact ih (h.1 hσ e τ hrun) h.2

/-- Assignments write only to the namespaces where they land, and to what those hold. -/
theorem framed_setAll {S : Namespace → Prop} (hσ : σ.waiting.isSome)
    (h : ∀ a ∈ n.assignments pairs σ, S a.place) :
    Store.Framed σ.store S (σ.store.Writable S)
      ((pairs.mapM fun (key, value) => n.set key value).run σ).2.store := by
  have hstart : Store.Framed σ.store S (σ.store.Writable S) σ.store ∧ σ.waiting.isSome :=
    ⟨.start σ.store S, hσ⟩
  have hkeeps := keepsAt_setAll_of (n := n) pairs hstart fun a ha hsession =>
    a.keepsAt_set ((tolerates_waiting a.place).framed (h a ha) fun _ id hτ =>
      Session.store_announce_of_waiting hτ id) hsession fun sub _ key τ hτ =>
        ⟨hτ.1.putEntry (h a ha) key (by simp), hτ.2⟩
  exact hkeeps.2.1.1

end Namespace

/-! ## §3. Where assignments land. -/

namespace Store

variable {s : Store} {S : Namespace → Prop}

/-- The namespaces in `S` hold only namespaces in `S`. -/
def Closed (s : Store) (S : Namespace → Prop) : Prop := ∀ m, S m → ∀ k, s.Holds m k → S k

/-- What a namespace contains holds nothing else. -/
theorem closed_contains (s : Store) (n : Namespace) : s.Closed (s.Contains n) :=
  fun _ hm _ hk => hm.tail hk

/-- From a closed set of namespaces no key leads out. -/
theorem landing_mem (h : s.Closed S) (n : Namespace) (key : String) (hn : S n) :
    S (s.landing n key).1 := by
  induction n, key using Store.landing.induct (s := s) with
  | case1 n key hhere =>
    rw [landing_of_direct hhere]
    exact hn
  | case2 n key hnot sub rest hfound ih =>
    rw [landing_of_some hnot hfound]
    obtain ⟨name, hname⟩ := exists_of_compoundSplit hfound
    have hholds : s.Holds n sub := mem_entries_iff.2 ⟨name, hname⟩
    exact ih (h n hn sub hholds)
  | case3 n key hnot hnone =>
    rw [landing_of_none hnot hnone]
    exact hn

/-- A set stays closed under every write but that of a namespace from outside. -/
theorem Closed.of_entryAt? {t : Store} (h : s.Closed S)
    (heq : ∀ m key k, t.entryAt? m key = some (.sub k) → s.entryAt? m key = some (.sub k) ∨ S k) :
    t.Closed S := by
  intro m hm k hk
  obtain ⟨key, hkey⟩ := mem_entries_iff.1 hk
  rcases heq m key k hkey with hbefore | hS
  · exact h m hm k (mem_entries_iff.2 ⟨key, hbefore⟩)
  · exact hS

theorem Closed.putEntry (h : s.Closed S) (n : Namespace) (key : String) {e : Entry}
    (he : ∀ k, e = .sub k → S k) : (s.putEntry n key e).Closed S := by
  refine h.of_entryAt? fun m key' k hk => ?_
  rw [entryAt?_putEntry] at hk
  split at hk
  · cases hk
    exact .inr (he k rfl)
  · exact .inl hk

end Store

theorem tolerates_closed (S : Namespace → Prop) (n : Namespace) :
    Tolerates (fun σ => σ.store.Closed S) n (fun _ => True) fun _ => True where
  unlisted _ _ hσ := hσ
  record _ _ := trivial
  put hσ _ _ _ _ := hσ
  announce := by
    intro σ hσ id _
    refine hσ.of_entryAt? fun m key k hk => ?_
    rw [Store.entryAt?_of_contents (Store.Reselected.announce σ id).contents] at hk
    exact .inl hk
  own _ _ _ _ := trivial
  add hσ _ _ := ⟨hσ, trivial⟩
  entry hσ _ _ _ := hσ.putEntry n _ (by simp)
  index hσ _ _ := by
    refine hσ.of_entryAt? fun m key k hk => ?_
    rw [Store.entryAt?_putIndex] at hk
    exact .inl hk

namespace Namespace

variable {n : Namespace} {σ τ : Session} {pairs : List (String × Value)}

theorem mem_assignments (pairs : List (String × Value)) : ∀ {σ : Session},
    ∀ a ∈ n.assignments pairs σ, a.target = n ∧ (a.key, a.value) ∈ pairs := by
  induction pairs with
  | nil => simp [assignments]
  | cons pair pairs ih =>
    intro σ a ha
    unfold assignments at ha
    rcases List.mem_cons.1 ha with rfl | hrest
    · exact ⟨rfl, List.mem_cons_self⟩
    · split at hrest
      · exact (ih a hrest).imp_right (List.mem_cons_of_mem pair)
      · exact nomatch hrest

/-- Assignments land below their namespace, unless one stores a namespace from elsewhere. -/
theorem place_contained
    (h : ∀ a ∈ n.assignments pairs σ, ∀ m ∈ a.stored?, σ.store.Contains n m) :
    ∀ a ∈ n.assignments pairs σ, σ.store.Contains n a.place := by
  have hkeeps := keepsAt_setAll_of (n := n) pairs (σ.store.closed_contains n) fun a ha hsession =>
    a.keepsAt_set (tolerates_closed (σ.store.Contains n) a.place) hsession fun sub hsub key τ hτ =>
      hτ.putEntry a.place key (by rintro _ ⟨⟩; exact h a ha sub hsub)
  -- each assignment lands according to the session that it finds
  intro a ha
  have hclosed := hkeeps.1 a ha
  have htarget : a.target = n := (mem_assignments pairs a ha).1
  have hn : σ.store.Contains n a.target := htarget ▸ Store.Contains.refl σ.store n
  exact Store.landing_mem hclosed a.target a.key hn

/-- The key of an assignment that succeeds is held when the batch ends. -/
theorem held_after_setAll (pairs : List (String × Value)) : ∀ {σ : Session},
    ∀ a ∈ n.assignments pairs σ, a.Succeeds → ∀ key ∈ a.assigned?,
      (((pairs.mapM fun (key, value) => n.set key value).run σ).2.store.entryAt? a.place
        key).isSome := by
  induction pairs with
  | nil => simp [assignments]
  | cons pair pairs ih =>
    obtain ⟨key, value⟩ := pair
    intro σ a ha hsucceeds key' hkey'
    unfold assignments at ha
    rcases hrun : (n.set key value).run σ with ⟨result, τ⟩
    rw [hrun] at ha
    cases result with
    | error e =>
      obtain rfl := List.mem_singleton.1 ha
      obtain ⟨e', τ', hok⟩ := hsucceeds
      rw [hrun] at hok
      exact nomatch hok
    | ok e =>
      rw [List.mapM_cons, run_bind_ok hrun, run_return]
      rcases List.mem_cons.1 ha with rfl | hrest
      -- the entry is there right after the assignment, and the others leave the key held
      · obtain ⟨key'', hassigned, hentry⟩ := n.leaves_set key value σ e τ hrun
        obtain rfl : key'' = key' := Option.some.inj (hassigned.symm.trans hkey')
        have hheld : (τ.store.entryAt? (σ.store.landing n key).1 key'').isSome := by
          rw [hentry]
          rfl
        have hkeeps := keepsAt_setAll_of (n := n) pairs hheld fun a _ hsession =>
          a.keepsAt_set (tolerates_held _ _ _) hsession fun _ _ _ _ hτ =>
            Store.isSome_entryAt?_putEntry hτ _ _ _
        exact hkeeps.2.1
      · exact ih a hrest hsucceeds key' hkey'

end Namespace

end DependencyScope
