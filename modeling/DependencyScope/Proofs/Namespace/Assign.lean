/-
  DependencyScope.Proofs.Namespace.Assign — what an assignment to a key of a namespace does.

  An assignment reads first and writes then.  What it reads leaves the store alone, so each
  assignment is known by what it comes to: the key that it is for, the namespace that it stores by
  reference, or the outcome of using a spec.

  Main definitions:
    * `Store.assignedKey?`, `Store.stored?` — the key and the namespace of an assignment;
    * `Store.specOutcome` — what becomes of the dependency that a spec is used on.

  Main results:
    * `Namespace.run_useSpecAs` — using a spec is its outcome, written in one go;
    * `Tolerates.keepsAt_useSpecAs`, `Tolerates.keepsAt_setHere` — the writes of an assignment.
-/
import DependencyScope.Proofs.Session.Writes

namespace DependencyScope

open DependencyScope.Text DependencyScope.Action

/-! ## §1. What an assignment comes to. -/

namespace Store

/-- The key that an assignment to `key` is for, if it is for one. -/
def assignedKey? (s : Store) (n : Namespace) (key : String) : Option String :=
  if looksLikeSpec key then
    ((s.localEntry n key).bind Entry.dependency?).map fun id => (s.dependency id).key
  else some key

/-- A name is assigned to as it stands. -/
theorem assignedKey?_of_name (s : Store) (n : Namespace) {key : String}
    (h : looksLikeSpec key = false) : s.assignedKey? n key = some key := by
  unfold assignedKey?
  rw [h]
  rfl

/-- The namespace that an assignment of the value stores by reference. -/
def stored? (s : Store) (n : Namespace) : Value → Option Namespace
  | .sub sub => some sub
  | .key other => (n.lookupSub other).answer s
  | .text _ | .group _ | .dependency _ => none

/-- The key and the spec of an assignment that uses a spec. -/
def specUse? (s : Store) (n : Namespace) (key : String) (value : Value) :
    Option (String × Spec) :=
  match value, s.assignedKey? n key with
  | .text text, some key =>
    if looksLikeSpec text && ((s.entryAt? n key).bind Entry.sub?).isNone then
      (Spec.parse text).toOption.map (key, ·)
    else none
  | _, _ => none

/-- The inherited requirement where the record under the key declares none itself. -/
def requirementBeyond (s : Store) (n : Namespace) (key : String) (coordinate : Coordinate) :
    Option Requirement :=
  if (s.recordFor n key coordinate).requirement.isSome then none
  else (n.inheritedRequirement key coordinate).answer s

/-- What becomes of the record under a key when a spec is used on it. -/
def specOutcome (s : Store) (n : Namespace) (key : String) (spec : Spec) :
    Except Error Dependency.Outcome := do
  let version ← spec.version.mapM VersionText.parse
  s.checkCoordinate n key spec
  (s.recordFor n key spec.coordinate).choose (s.requirementBeyond n key spec.coordinate) version

end Store

/-- Two sessions that differ at most in which names are listed. -/
def Session.Alike (σ τ : Session) : Prop := ∃ names, τ = { σ with listed := names }

theorem Session.Alike.refl (σ : Session) : σ.Alike σ := ⟨σ.listed, rfl⟩

namespace Namespace

/-- Writes the outcome of using a spec. -/
def putOutcome (n : Namespace) (key : String) (coordinate : Coordinate)
    (target : Option DependencyId) (d : Dependency) (outcome : Dependency.Outcome) :
    Action DependencyId := do
  let id ← Action.orNew target d
  Action.settle id outcome
  Action.setCoordinate id coordinate
  Action.update (·.insert n key id)
  return id

theorem run_localKey (n : Namespace) (key : String) (σ : Session) :
    (n.localKey key).run σ = match σ.store.assignedKey? n key with
      | some key' => (.ok key', σ)
      | none => (.error (.lookup key (.coordinateUnregistered n.name)), σ) := by
  unfold localKey Store.assignedKey?
  split
  · rw [run_bind, run_view]
    dsimp only
    rcases σ.store.localEntry n key with _ | ⟨id⟩ | ⟨sub⟩ <;> rfl
  · rfl

theorem run_requirementBeyond (n : Namespace) (key : String) (coordinate : Coordinate)
    (σ : Session) : ∃ τ, σ.Alike τ ∧
      (n.requirementBeyond key coordinate (σ.store.recordFor n key coordinate)).run σ
        = (.ok (σ.store.requirementBeyond n key coordinate), τ) := by
  unfold requirementBeyond Store.requirementBeyond
  split
  · exact ⟨σ, .refl σ, rfl⟩
  · exact ⟨_, ⟨_, rfl⟩, run_read _ σ⟩

/-- Using a spec comes to its outcome, and the outcome is written if there is one. -/
theorem run_useSpecAs (n : Namespace) (key : String) (spec : Spec) (σ : Session) :
    ∃ τ, σ.Alike τ ∧ (n.useSpecAs key spec).run σ
      = match σ.store.specOutcome n key spec with
        | .error e => (.error e, τ)
        | .ok outcome =>
          (n.putOutcome key spec.coordinate (σ.store.ownFor? n key spec.coordinate)
            (σ.store.recordFor n key spec.coordinate) outcome).run τ := by
  unfold useSpecAs Store.specOutcome
  rw [run_bind, run_ofExcept]
  cases spec.version.mapM VersionText.parse with
  | error e => exact ⟨σ, .refl σ, rfl⟩
  | ok version =>
    dsimp only
    rw [run_bind_ok (run_view _ σ), run_bind, run_ofExcept]
    cases σ.store.checkCoordinate n key spec with
    | error e => exact ⟨σ, .refl σ, rfl⟩
    | ok _ =>
      -- only the question to the ancestors can list names
      obtain ⟨τ, halike, hrun⟩ := n.run_requirementBeyond key spec.coordinate σ
      refine ⟨τ, halike, ?_⟩
      dsimp only
      rw [run_bind_ok (run_view _ σ), run_bind_ok (run_view _ σ), run_bind_ok hrun, run_bind,
        run_ofExcept]
      show _ = match (σ.store.recordFor n key spec.coordinate).choose _ version with
        | .error e => _
        | .ok outcome => _
      cases (σ.store.recordFor n key spec.coordinate).choose
        (σ.store.requirementBeyond n key spec.coordinate) version <;> rfl

theorem run_ensureNoSub (n : Namespace) (key : String) (σ : Session) :
    (n.ensureNoSub key).run σ
      = if ((σ.store.entryAt? n key).bind Entry.sub?).isNone then (.ok (), σ)
        else (.error (.typeMismatch key .holdsNamespace), σ) := by
  unfold ensureNoSub
  rw [run_bind, run_view]
  dsimp only
  rcases σ.store.entryAt? n key with _ | ⟨id⟩ | ⟨sub⟩ <;> rfl

/-- A write happens where the key lands. -/
theorem run_set (n : Namespace) (key : String) (value : Value) (σ : Session) :
    (n.set key value).run σ
      = ((σ.store.landing n key).1.setHere (σ.store.landing n key).2 value).run σ := by
  unfold set
  rw [run_bind_ok (run_view _ σ)]

section Texts

variable {n : Namespace} {key key' : String} {σ : Session}

theorem run_localKey_of_assignedKey? (h : σ.store.assignedKey? n key = some key') :
    (n.localKey key).run σ = (.ok key', σ) := by
  rw [run_localKey, h]

/-- A text is used under the key that it is assigned to, unless that holds a sub-namespace. -/
theorem run_setHere_text (hkey : σ.store.assignedKey? n key = some key')
    (hfree : ((σ.store.entryAt? n key').bind Entry.sub?).isNone) (text : String) :
    (n.setHere key (.text text)).run σ
      = (do return Entry.dependency (← n.useTextAs key' text) : Action Entry).run σ := by
  have hensure : (n.ensureNoSub key').run σ = (.ok (), σ) := by rw [run_ensureNoSub, if_pos hfree]
  unfold setHere
  rw [run_bind_ok (run_localKey_of_assignedKey? hkey)]
  dsimp only
  rw [run_bind_ok hensure]

/-- An assignment of a text or a group that succeeds does its work under the key that it is for. -/
theorem exists_of_assigned (act : String → Action DependencyId) {e : Entry} {τ : Session}
    (hrun : (do
      let key ← n.localKey key
      n.ensureNoSub key
      return Entry.dependency (← act key) : Action Entry).run σ = (.ok e, τ)) :
    ∃ key' id, σ.store.assignedKey? n key = some key' ∧ e = .dependency id ∧
      (act key').run σ = (.ok id, τ) := by
  obtain ⟨key', υ, hlocal, hrest⟩ := run_bind_eq_ok.1 hrun
  obtain ⟨_, φ, hensure, hact⟩ := run_bind_eq_ok.1 hrest
  obtain ⟨id, ψ, hact, hlast⟩ := run_bind_eq_ok.1 hact
  cases hlast
  rw [run_localKey] at hlocal
  split at hlocal
  · next hkey =>
    cases hlocal
    rw [run_ensureNoSub] at hensure
    split at hensure
    · cases hensure
      exact ⟨key', id, hkey, rfl, hact⟩
    · exact nomatch hensure
  · exact nomatch hlocal

/-- A text that is assigned to a name is used under it. -/
theorem exists_of_setHere_text {text : String} {e : Entry} {τ : Session}
    (hname : looksLikeSpec key = false)
    (hrun : (n.setHere key (.text text)).run σ = (.ok e, τ)) :
    ∃ id, e = .dependency id ∧ (n.useTextAs key text).run σ = (.ok id, τ) := by
  obtain ⟨key', id, hkey, he, huse⟩ := exists_of_assigned (n.useTextAs · text) hrun
  obtain rfl := Option.some.inj ((σ.store.assignedKey?_of_name n hname).symm.trans hkey)
  exact ⟨id, he, huse⟩

/-- An assignment that uses a spec does nothing else. -/
theorem run_setHere_of_specUse {value : Value} {spec : Spec}
    (h : σ.store.specUse? n key value = some (key', spec)) :
    (n.setHere key value).run σ
      = (do return Entry.dependency (← n.useSpecAs key' spec) : Action Entry).run σ := by
  unfold Store.specUse? at h
  split at h
  · next text key'' hkey =>
    split at h
    · next hcond =>
      obtain ⟨hspec, hfree⟩ := Bool.and_eq_true_iff.1 hcond
      cases hparse : Spec.parse text with
      | error e =>
        rw [hparse] at h
        exact nomatch h
      | ok spec' =>
        rw [hparse] at h
        cases h
        rw [run_setHere_text hkey hfree]
        unfold useTextAs
        rw [if_pos hspec, hparse]
        rfl
    · exact nomatch h
  · exact nomatch h

end Texts

end Namespace

/-! ## §2. What an assignment keeps. -/

theorem Store.ownDependency?_eq_some {s : Store} {n : Namespace} {key : String}
    {id : DependencyId} :
    s.ownDependency? n key = some id ↔ s.entryAt? n key = some (.dependency id) := by
  unfold Store.ownDependency?
  rw [Option.bind_eq_some_iff]
  simp [Entry.dependency?_eq_some]

theorem Store.ownDependency?_of_ownFor? {s : Store} {n : Namespace} {key : String}
    {coordinate : Coordinate} {id : DependencyId} (h : s.ownFor? n key coordinate = some id) :
    s.ownDependency? n key = some id := by
  unfold Store.ownFor? Store.ownSingle? at h
  exact (Option.filter_eq_some_iff.1 (Option.filter_eq_some_iff.1 h).1).1

theorem Store.specOutcome_ok {s : Store} {n : Namespace} {key : String} {spec : Spec}
    {outcome : Dependency.Outcome} (h : s.specOutcome n key spec = .ok outcome) :
    ∃ version, spec.version.mapM VersionText.parse = .ok version ∧
      (s.recordFor n key spec.coordinate).choose (s.requirementBeyond n key spec.coordinate) version
        = .ok outcome := by
  unfold Store.specOutcome at h
  obtain ⟨version, hversion, hrest⟩ := bind_eq_ok.1 h
  obtain ⟨_, -, hchoose⟩ := bind_eq_ok.1 hrest
  exact ⟨version, hversion, hchoose⟩

/-- The dependency that may stand for a coordinate is no group. -/
theorem Store.members_of_ownFor? {s : Store} {n : Namespace} {key : String}
    {coordinate : Coordinate} {id : DependencyId} (h : s.ownFor? n key coordinate = some id) :
    (s.dependency id).members = [] := by
  unfold ownFor? ownSingle? at h
  have hsingle := (Option.filter_eq_some_iff.1 (Option.filter_eq_some_iff.1 h).1).2
  exact Dependency.members_of_not_isGroup (by simpa using hsingle)

theorem Store.members_recordFor (s : Store) (n : Namespace) (key : String)
    (coordinate : Coordinate) : (s.recordFor n key coordinate).members = [] := by
  unfold recordFor
  split
  · next id hown => exact members_of_ownFor? hown
  · rfl

theorem Store.members_of_specOutcome {s : Store} {n : Namespace} {key : String} {spec : Spec}
    {outcome : Dependency.Outcome} (h : s.specOutcome n key spec = .ok outcome) :
    outcome.dependency.members = [] := by
  obtain ⟨version, -, hchoose⟩ := specOutcome_ok h
  rw [Dependency.members_of_choose hchoose, members_recordFor]

/-- A spec that an assignment uses was read from a text. -/
theorem Store.exists_of_specUse? {s : Store} {n : Namespace} {key key' : String} {value : Value}
    {spec : Spec} (h : s.specUse? n key value = some (key', spec)) :
    ∃ text, value = .text text ∧ Spec.parse text = .ok spec := by
  unfold Store.specUse? at h
  split at h
  · next text key'' hkey =>
    split at h
    · cases hparse : Spec.parse text with
      | error e =>
        rw [hparse] at h
        exact nomatch h
      | ok spec' =>
        rw [hparse] at h
        cases h
        exact ⟨text, rfl, hparse⟩
    · exact nomatch h
  · exact nomatch h

/-- A version part that is there is read to one. -/
theorem version_eq_none_of_mapM {spec : Spec}
    (h : spec.version.mapM VersionText.parse = .ok none) : spec.version = none := by
  cases hversion : spec.version with
  | none => rfl
  | some text =>
    rw [hversion, Option.mapM_some] at h
    obtain ⟨version, -, hsome⟩ := map_eq_ok.1 h
    exact nomatch hsome

namespace Tolerates

variable {I : Session → Prop} {n : Namespace} {P : DependencyId → Prop} {A : Declaration → Prop}
  {C : Coordinate → Prop} {D : Dependency → Prop}

theorem alike (h : Tolerates I n P D) {σ τ : Session} (hτ : σ.Alike τ) (hσ : I σ) : I τ := by
  obtain ⟨names, rfl⟩ := hτ
  exact h.unlisted σ names hσ

theorem keeps_orNew (h : Tolerates I n P D) {target : Option DependencyId} {d : Dependency}
    (htarget : ∀ id, target = some id → P id) (hd : D d) : Keeps I (Action.orNew target d) P := by
  unfold Action.orNew
  cases target with
  | some id => exact .pure (htarget id rfl)
  | none => exact h.keeps_addDependency hd

theorem keeps_putOutcome (h : Tolerates I n P D) (hD : Dependency.Robust A C D) {key : String}
    {coordinate : Coordinate} {target : Option DependencyId} {d : Dependency}
    {outcome : Dependency.Outcome} (hC : C coordinate) (htarget : ∀ id, target = some id → P id)
    (hd : D d) (houtcome : D outcome.dependency) (hsingle : outcome.dependency.members = []) :
    Keeps I (n.putOutcome key coordinate target d outcome) P := by
  unfold Namespace.putOutcome
  refine (h.keeps_orNew htarget hd).bind fun id hid => ?_
  intro σ hσ
  refine (h.keeps_settle hid houtcome σ hσ).bind_run fun _ τ hsettle hτ _ => ?_
  -- the outcome is no group, and its listeners do not make it one
  have hmembers := (members_settle hsettle).trans hsingle
  refine (h.keepsAt_setCoordinate hD hτ hid hC hmembers).bind fun _ _ => ?_
  exact (h.keeps_insert hid key).bind fun _ _ => .pure hid

theorem recordFor (h : Tolerates I n P D) (hD : Dependency.Robust A C D) {σ : Session} (hσ : I σ)
    (key : String) {coordinate : Coordinate} (hC : C coordinate) :
    D (σ.store.recordFor n key coordinate) := by
  unfold Store.recordFor
  split
  · exact h.record hσ _
  · exact hD.fresh key fun c hc => Option.some.inj hc ▸ hC

/-- Using a spec keeps what using its outcome keeps.  Only a spec without a version may put a
requirement onto a record unasked. -/
theorem keepsAt_useSpecAs (h : Tolerates I n P D) (hD : Dependency.Robust A C D) {σ : Session}
    (hσ : I σ) {key : String} {spec : Spec} (hC : C spec.coordinate)
    (hinherit : spec.version = none → D ((σ.store.recordFor n key spec.coordinate).inheriting
      (σ.store.requirementBeyond n key spec.coordinate))) :
    KeepsAt I (n.useSpecAs key spec) P σ := by
  obtain ⟨τ, halike, hrun⟩ := n.run_useSpecAs key spec σ
  have hτ : I τ := h.alike halike hσ
  cases houtcome : σ.store.specOutcome n key spec with
  | error e =>
    rw [houtcome] at hrun
    exact .of_error hrun hτ
  | ok outcome =>
    rw [houtcome] at hrun
    have hrecord := h.recordFor hD hσ key hC
    have hd : D outcome.dependency := by
      obtain ⟨version, hversion, hchoose⟩ := Store.specOutcome_ok houtcome
      -- with a version the outcome was checked, without one it is the inherited requirement
      cases version with
      | none =>
        cases hchoose
        exact hinherit (version_eq_none_of_mapM hversion)
      | some version => exact hD.chosen hrecord hchoose
    have htarget : ∀ id, σ.store.ownFor? n key spec.coordinate = some id → P id :=
      fun id hown => h.own hσ (Store.ownDependency?_of_ownFor? hown)
    unfold KeepsAt
    rw [hrun]
    exact h.keeps_putOutcome hD hC htarget hrecord hd (Store.members_of_specOutcome houtcome) τ hτ

theorem keeps_ensureNoSub (n : Namespace) (key : String) :
    Keeps I (n.ensureNoSub key) fun _ => True := by
  intro σ hσ
  unfold KeepsAt
  rw [Namespace.run_ensureNoSub]
  split <;> exact ⟨hσ, fun _ _ => trivial⟩

theorem keeps_copyInherited (h : Tolerates I n P D) (hD : Dependency.Robust A C D) (key : String) :
    Keeps I (n.copyInherited key) P := by
  unfold Namespace.copyInherited
  have hread : Keeps I (Action.read (n.inheritedDependency key)) fun _ => True :=
    .read h.unlisted fun _ _ => trivial
  refine hread.bind fun inherited _ => ?_
  cases inherited with
  | some inherited => exact h.keeps_copy hD inherited key
  | none => exact h.keeps_addDependency (hD.unlocated key)

theorem keeps_useVersionAs (h : Tolerates I n P D) (hD : Dependency.Robust A C D)
    (key text : String) : Keeps I (n.useVersionAs key text) P := by
  unfold Namespace.useVersionAs
  have hparse : Keeps I (Action.ofExcept (VersionText.parse text)) fun _ => True :=
    .ofExcept fun _ _ => trivial
  refine hparse.bind fun version _ => ?_
  have hown : Keeps I (Action.view (·.ownDependency? n key)) fun own =>
      ∀ id, own = some id → P id :=
    .view fun _ hσ _ hown => h.own hσ hown
  refine hown.bind fun own hown => ?_
  cases own with
  | some id => exact (h.keeps_chooseOn hD (hown id rfl) version).bind fun _ _ => .pure (hown id rfl)
  | none =>
    refine (h.keeps_copyInherited hD key).bind fun id hid => ?_
    refine (h.keeps_chooseOn hD hid version).bind fun _ _ => ?_
    exact (h.keeps_insert hid key).bind fun _ _ => .pure hid

theorem lasting_groupMember (hD : Dependency.Robust A C D) {text : String} {member : Dependency}
    (h : Namespace.groupMember text = .ok member) : D member := by
  unfold Namespace.groupMember at h
  obtain ⟨spec, hspec, hrest⟩ := bind_eq_ok.1 h
  obtain ⟨version, -, hchosen⟩ := bind_eq_ok.1 hrest
  obtain ⟨outcome, hchoose, hmember⟩ := bind_eq_ok.1 hchosen
  have hC : ∀ c ∈ some spec.coordinate, C c := fun c hc => Option.some.inj hc ▸ hD.read hspec
  have hnew := hD.fresh spec.coordinate.id hC
  cases hmember
  cases version with
  | none =>
    cases hchoose
    exact hnew
  | some version => exact hD.chosen hnew hchoose

/-- What every result of reading several texts has. -/
theorem forall_of_mapM_ok {α β : Type} {f : α → Except Error β} {Q : β → Prop} :
    ∀ (as : List α) {bs : List β}, (∀ a ∈ as, ∀ b, f a = .ok b → Q b) →
      as.mapM f = .ok bs → ∀ b ∈ bs, Q b
  | [], bs, _, h => by
    cases h
    simp
  | a :: as, bs, hf, h => by
    rw [List.mapM_cons] at h
    obtain ⟨b, ha, htail⟩ := bind_eq_ok.1 h
    obtain ⟨rest, has, hbs⟩ := bind_eq_ok.1 htail
    cases hbs
    have hrest := forall_of_mapM_ok as (fun a ha => hf a (List.mem_cons_of_mem _ ha)) has
    simpa using ⟨hf a (by simp) b ha, hrest⟩

theorem keeps_useGroupAs (h : Tolerates I n P D) (hD : Dependency.Robust A C D) (key : String)
    (specs : List String) : Keeps I (n.useGroupAs key specs) P := by
  unfold Namespace.useGroupAs
  have hmembers : Keeps I (Action.ofExcept (specs.mapM Namespace.groupMember))
      fun members => ∀ d ∈ members, D d :=
    .ofExcept fun _ hparse => forall_of_mapM_ok specs (fun _ _ _ => lasting_groupMember hD) hparse
  refine .guarded fun _ => ?_
  exact hmembers.bind fun _ hd => h.keeps_storeGroup hD key hd true

/-- Storing a namespace keeps what its one entry keeps. -/
theorem keeps_storeSub (key : String) (sub : Namespace)
    (hentry : ∀ σ, I σ → I { σ with store := σ.store.putEntry n key (.sub sub) }) :
    Keeps I (n.storeSub key sub) fun _ => True := by
  unfold Namespace.storeSub
  refine .guarded fun _ => ?_
  have hown : Keeps I (Action.view (·.ownDependency? n key)) fun _ => True :=
    .view fun _ _ => trivial
  refine hown.bind fun own _ => ?_
  refine .guarded fun _ => ?_
  exact (Keeps.update hentry).bind fun _ _ => .pure trivial

/-- A text that is read to no spec is used as a version or refused. -/
theorem keeps_useTextAs (h : Tolerates I n P D) (hD : Dependency.Robust A C D) (key : String)
    {text : String} (hnone : looksLikeSpec text → ∀ spec, Spec.parse text ≠ .ok spec) :
    Keeps I (n.useTextAs key text) P := by
  unfold Namespace.useTextAs
  split
  · next hspec =>
    have hparse : Keeps I (Action.ofExcept (Spec.parse text)) fun _ => False :=
      .ofExcept fun spec hparse => hnone hspec spec hparse
    exact hparse.bind fun _ hfalse => hfalse.elim
  · exact h.keeps_useVersionAs hD key text

/-- An assignment keeps what its single writes keep.  Two of them are asked for: the entry for a
namespace that the value stores, and the requirement that a spec without a version brings along. -/
theorem keepsAt_setHere (h : Tolerates I n P D) (hD : Dependency.Robust A C D) {σ : Session}
    (hσ : I σ) {key : String} {value : Value}
    (hsub : ∀ sub, σ.store.stored? n value = some sub → ∀ key τ, I τ →
      I { τ with store := τ.store.putEntry n key (.sub sub) })
    (hspec : ∀ key' spec, σ.store.specUse? n key value = some (key', spec) → spec.version = none →
      D ((σ.store.recordFor n key' spec.coordinate).inheriting
        (σ.store.requirementBeyond n key' spec.coordinate))) :
    KeepsAt I (n.setHere key value) (fun _ => True) σ := by
  cases huse : σ.store.specUse? n key value with
  | some use =>
    obtain ⟨key', spec⟩ := use
    unfold KeepsAt
    rw [Namespace.run_setHere_of_specUse huse]
    have hC : C spec.coordinate := by
      obtain ⟨text, -, hparse⟩ := Store.exists_of_specUse? huse
      exact hD.read hparse
    exact (h.keepsAt_useSpecAs hD hσ hC (hspec key' spec huse)).bind fun _ _ => .pure trivial
  | none =>
    -- what is left stores a namespace, a copy, a group or a version, or is refused
    unfold Namespace.setHere
    cases hkey : σ.store.assignedKey? n key with
    | none => exact .bind_error (by rw [Namespace.run_localKey, hkey]) hσ
    | some key' =>
      refine .bind_ok (by rw [Namespace.run_localKey, hkey]) ?_
      have hensure : Keeps I (n.ensureNoSub key') fun _ => True := keeps_ensureNoSub n key'
      have hcopy (source : DependencyId) : Keeps I
          (do n.ensureNoSub key'; return Entry.dependency (← n.storeCopy key' source))
          fun _ => True :=
        hensure.bind fun _ _ => (h.keeps_storeCopy hD key' source).bind fun _ _ => .pure trivial
      cases value with
      | sub sub => exact keeps_storeSub key' sub (hsub sub rfl key') σ hσ
      | key other =>
        refine .bind_ok (run_read _ σ) ?_
        have hτ := h.unlisted σ ((n.lookup other).listing σ) hσ
        cases hfound : (n.lookup other).answer σ.store with
        | none => exact Keeps.throw _ _ hτ
        | some e =>
          cases e with
          | dependency source => exact hcopy source _ hτ
          | sub sub =>
            have hstored : σ.store.stored? n (.key other) = some sub := by
              simp [Store.stored?, Namespace.lookupSub, hfound, Entry.sub?]
            exact keeps_storeSub key' sub (hsub sub hstored key') _ hτ
      | text text =>
        by_cases hfree : ((σ.store.entryAt? n key').bind Entry.sub?).isNone
        · have hnone : looksLikeSpec text → ∀ spec, Spec.parse text ≠ .ok spec := by
            intro hspec spec hparse
            simp [Store.specUse?, hkey, hspec, hfree, hparse, Except.toOption] at huse
          exact (hensure.bind fun _ _ =>
            (h.keeps_useTextAs hD key' hnone).bind fun _ _ => .pure trivial) σ hσ
        · exact .bind_error (by rw [Namespace.run_ensureNoSub, if_neg hfree]) hσ
      | group specs =>
        exact (hensure.bind fun _ _ =>
          (h.keeps_useGroupAs hD key' specs).bind fun _ _ => .pure trivial) σ hσ
      | dependency source => exact hcopy source σ hσ

end Tolerates

end DependencyScope
