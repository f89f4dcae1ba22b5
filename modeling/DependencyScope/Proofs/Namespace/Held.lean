/-
  DependencyScope.Proofs.Namespace.Held — an assignment that succeeds leaves its key held.

  Whatever the value is, the entry that an assignment gives back is what its key holds afterwards.
  No later assignment takes an entry away: it may put another one in its place.

  Main results:
    * `Namespace.leaves_setHere` — the entry of an assignment is held under its key;
    * `tolerates_held` — a key that is held stays held.
-/
import DependencyScope.Proofs.Namespace.Assign
import DependencyScope.Proofs.Session.Listeners

namespace DependencyScope

open DependencyScope.Text DependencyScope.Action

/-! ## §1. Steps on dependencies change no contents. -/

theorem toleratesRecords_contents (c : Std.TreeMap Namespace Contents) :
    ToleratesRecords (fun σ => σ.store.contents = c) (fun _ => True) fun _ => True where
  unlisted _ _ hσ := hσ
  record _ _ := trivial
  put hσ _ _ _ _ := hσ
  announce {σ} hσ id _ := (Store.Reselected.announce σ id).contents.trans hσ

theorem Dependency.lasting_true :
    Dependency.Lasting (fun _ => True) (fun _ => True) fun _ => True where
  declared _ _ _ _ _ := trivial
  group _ _ := trivial
  copied _ _ _ _ := trivial
  located _ _ _ := trivial
  listening _ _ := trivial
  undefaulted _ := trivial
  selected _ _ := trivial
  declares _ _ _ := trivial
  chosen _ _ := trivial
  redeclared _ := trivial
  relocated _ _ _ := trivial
  read _ := trivial

/-! ## §2. The entry of an assignment. -/

namespace Store

theorem entryAt?_of_contents {s t : Store} (h : t.contents = s.contents) (n : Namespace)
    (key : String) : t.entryAt? n key = s.entryAt? n key := by
  unfold entryAt? contentsOf
  rw [h]

theorem entryAt?_insert_self (s : Store) (n : Namespace) (key : String) (id : DependencyId) :
    (s.insert n key id).entryAt? n key = some (.dependency id) := by
  unfold insert
  rw [entryAt?_putIndex, entryAt?_putEntry, if_pos ⟨rfl, rfl⟩]

/-- Members are registered under keys that are free. -/
theorem entryAt?_registerMembers {n : Namespace} {byId : Bool} {key : String} {e : Entry}
    (members : List DependencyId) : ∀ {s : Store}, s.entryAt? n key = some e →
      (members.foldl (n.registerMember byId) s).entryAt? n key = some e := by
  induction members with
  | nil => exact fun h => h
  | cons member members ih =>
    intro s h
    refine ih ?_
    have hindex : (s.putIndex n member).entryAt? n key = some e := by
      rw [entryAt?_putIndex]
      exact h
    unfold Namespace.registerMember
    dsimp only
    split
    · next hfree =>
      obtain ⟨-, hnone⟩ := Bool.and_eq_true_iff.1 hfree
      rw [entryAt?_putEntry]
      split
      -- the key of the member would be the one that is held, but that is not free
      · next heq =>
        rw [heq.2, hindex] at hnone
        exact nomatch hnone
      · exact hindex
    · exact hindex

end Store

namespace Namespace

variable {n : Namespace} {σ : Session}

theorem leaves_insert (n : Namespace) (key : String) (id : DependencyId) (σ : Session) :
    Leaves (do Action.update (·.insert n key id); return id)
      (fun id τ => τ.store.entryAt? n key = some (.dependency id)) σ := by
  intro a τ h
  cases h
  exact σ.store.entryAt?_insert_self n key id

theorem leaves_storeCopy (n : Namespace) (key : String) (source : DependencyId) (σ : Session) :
    Leaves (n.storeCopy key source)
      (fun id τ => τ.store.entryAt? n key = some (.dependency id)) σ := by
  unfold storeCopy
  exact .bind_all fun copy τ => n.leaves_insert key copy τ

theorem leaves_storeSub (n : Namespace) (key : String) (sub : Namespace) (σ : Session) :
    Leaves (n.storeSub key sub) (fun e τ => τ.store.entryAt? n key = some e) σ := by
  unfold storeSub
  refine .guarded fun _ => .bind_all fun own τ => .guarded fun _ => ?_
  intro e υ h
  cases h
  rw [Store.entryAt?_putEntry, if_pos ⟨rfl, rfl⟩]

theorem leaves_storeGroup (n : Namespace) (key : String) (members : List Dependency) (byId : Bool)
    (σ : Session) : Leaves (n.storeGroup key members byId)
      (fun id τ => τ.store.entryAt? n key = some (.dependency id)) σ := by
  unfold storeGroup
  refine .bind_all fun ids τ => .bind_all fun group υ => ?_
  intro id φ h
  cases h
  refine Store.entryAt?_registerMembers ids ?_
  rw [Store.entryAt?_putEntry, if_pos ⟨rfl, rfl⟩]

theorem leaves_useSpecAs (n : Namespace) (key : String) (spec : Spec) (σ : Session) :
    Leaves (n.useSpecAs key spec)
      (fun id τ => τ.store.entryAt? n key = some (.dependency id)) σ := by
  obtain ⟨τ, -, hrun⟩ := n.run_useSpecAs key spec σ
  have hput (target : Option DependencyId) (d : Dependency) (outcome : Dependency.Outcome) :
      Leaves (n.putOutcome key spec.coordinate target d outcome)
        (fun id τ => τ.store.entryAt? n key = some (.dependency id)) τ := by
    unfold putOutcome
    exact .bind_all fun id _ => .bind_all fun _ _ => .bind_all fun _ υ => n.leaves_insert key id υ
  intro id υ h
  rw [hrun] at h
  split at h
  · exact nomatch h
  · exact hput _ _ _ id υ h

/-- A version that is used on a dependency which the key holds leaves it there. -/
theorem leaves_useVersionAs (n : Namespace) (key text : String) (σ : Session) :
    Leaves (n.useVersionAs key text)
      (fun id τ => τ.store.entryAt? n key = some (.dependency id)) σ := by
  unfold useVersionAs
  refine .bind_all fun version τ => .bind fun own υ hown => ?_
  cases own with
  | none =>
    exact .bind_all fun id _ => .bind_all fun _ φ => n.leaves_insert key id φ
  | some id =>
    -- nothing is inserted here: the entry is there before, and the choice leaves it
    refine .bind fun _ φ hchoose => ?_
    intro i ψ h
    cases h
    have hheld : υ.store.entryAt? n key = some (.dependency id) := by
      rw [run_view] at hown
      obtain ⟨hresult, rfl⟩ := Prod.mk.inj hown
      exact Store.ownDependency?_eq_some.1 (Except.ok.inj hresult)
    have hcontents : φ.store.contents = υ.store.contents := by
      have hkeeps : Keeps (fun φ => φ.store.contents = υ.store.contents) (chooseOn id version)
          fun _ => True :=
        (toleratesRecords_contents _).keeps_chooseOn Dependency.lasting_true.toRobust trivial version
      exact hkeeps.of_run rfl hchoose
    rw [Store.entryAt?_of_contents hcontents]
    exact hheld

/-- The entry that an assignment gives back is held under its key. -/
theorem leaves_setHere (n : Namespace) (key : String) (value : Value) (σ : Session) :
    Leaves (n.setHere key value)
      (fun e τ => ∃ key', σ.store.assignedKey? n key = some key' ∧
        τ.store.entryAt? n key' = some e) σ := by
  unfold setHere
  refine .bind fun key' τ hkey => ?_
  have hassigned : σ.store.assignedKey? n key = some key' := by
    rw [run_localKey] at hkey
    split at hkey
    · next found hfound =>
      cases hkey
      exact hfound
    · exact nomatch hkey
  -- from here on the key is fixed, and each kind of value is put under it
  have hheld {act : Action Entry} (hact : Leaves act (fun e υ => υ.store.entryAt? n key' = some e) τ) :
      Leaves act (fun e υ => ∃ key', σ.store.assignedKey? n key = some key' ∧
        υ.store.entryAt? n key' = some e) τ :=
    fun e υ h => ⟨key', hassigned, hact e υ h⟩
  refine hheld ?_
  cases value with
  | sub sub => exact n.leaves_storeSub key' sub τ
  | key other =>
    refine .bind_all fun found υ => ?_
    rcases found with _ | ⟨source⟩ | ⟨sub⟩
    · exact .throw _
    · exact .bind_all fun _ φ => .map (n.leaves_storeCopy key' source φ)
    · exact n.leaves_storeSub key' sub υ
  | text text =>
    refine .bind_all fun _ υ => .map ?_
    unfold useTextAs
    split
    · exact .bind_all fun spec φ => n.leaves_useSpecAs key' spec φ
    · exact n.leaves_useVersionAs key' text υ
  | group specs =>
    refine .bind_all fun _ υ => .map ?_
    unfold useGroupAs
    refine .guarded fun _ => .bind_all fun members φ => ?_
    exact n.leaves_storeGroup key' members true φ
  | dependency source => exact .bind_all fun _ υ => .map (n.leaves_storeCopy key' source υ)

/-- So it is where the key leads. -/
theorem leaves_set (n : Namespace) (key : String) (value : Value) (σ : Session) :
    Leaves (n.set key value)
      (fun e τ => ∃ key', σ.store.assignedKey? (σ.store.landing n key).1 (σ.store.landing n key).2
          = some key' ∧ τ.store.entryAt? (σ.store.landing n key).1 key' = some e) σ := by
  intro e τ h
  rw [run_set] at h
  exact leaves_setHere _ _ value σ e τ h

end Namespace

/-! ## §3. Keys that are held stay held. -/

namespace Store

theorem isSome_entryAt?_putEntry {s : Store} {m : Namespace} {key : String}
    (h : (s.entryAt? m key).isSome) (n : Namespace) (key' : String) (e : Entry) :
    ((s.putEntry n key' e).entryAt? m key).isSome := by
  rw [entryAt?_putEntry]
  split
  · rfl
  · exact h

end Store

/-- No write to a namespace takes an entry away. -/
theorem tolerates_held (m : Namespace) (key : String) (n : Namespace) :
    Tolerates (fun σ => (σ.store.entryAt? m key).isSome) n (fun _ => True) fun _ => True where
  unlisted _ _ hσ := hσ
  record _ _ := trivial
  put hσ _ _ _ _ := hσ
  announce := by
    intro σ hσ id _
    rw [Store.entryAt?_of_contents (Store.Reselected.announce σ id).contents]
    exact hσ
  own _ _ _ _ := trivial
  add hσ _ _ := ⟨hσ, trivial⟩
  entry hσ key' id _ := Store.isSome_entryAt?_putEntry hσ n key' (.dependency id)
  index hσ _ _ := by
    rw [Store.entryAt?_putIndex]
    exact hσ

end DependencyScope
