/-
  DependencyScope.Proofs.Session.Discreet — what questions write.

  A question may make namespaces in the registry's table, and it marks namespaces while it looks for
  their parents.  A discreet question takes all its marks away again, so that it leaves the store as
  it was and the table with more names at most; and what it answers rests on the store alone.  Each
  of the questions that there are is discreet, for it is put together from such questions.

  Main definitions:
    * `Reading.Discreet` — a question that writes nothing but further names into the table.

  Main results:
    * `Reading.answer_bind`, `Reading.answer_marking` — answers, by the parts of a question;
    * `Namespace.discreet_parentWithin` — finding a parent takes all marks away again;
    * the instances of `Discreet`, one for each question.
-/
import DependencyScope.Session.Operation

namespace DependencyScope

open DependencyScope.Text

namespace Reading

variable {α β γ : Type}

/-! ## §1. Discreet questions. -/

/-- The answer rests on the store alone, and the session that is left is the one before, except that
names may be listed in addition. -/
class Discreet (r : Reading α) : Prop where
  run_eq : ∀ σ : Session, r σ = (r.answer σ.store, { σ with listed := r.listing σ })
  listed : ∀ (σ : Session) (name : String), name ∈ σ.listed → name ∈ r.listing σ

theorem Discreet.intro {r : Reading α} (f : Store → α)
    (h : ∀ σ, ∃ names, r σ = (f σ.store, { σ with listed := names }) ∧
      ∀ name ∈ σ.listed, name ∈ names) : Discreet r := by
  have hanswer (s : Store) : r.answer s = f s := by
    obtain ⟨names, hrun, -⟩ := h { store := s }
    exact congrArg Prod.fst hrun
  refine ⟨fun σ => ?_, fun σ name hname => ?_⟩
  · obtain ⟨names, hrun, -⟩ := h σ
    have hlisting : r.listing σ = names := by rw [listing, hrun]
    rw [hrun, hanswer, hlisting]
  · obtain ⟨names, hrun, hnames⟩ := h σ
    rw [listing, hrun]
    exact hnames name hname

theorem run_bind (r : Reading α) (f : α → Reading β) (σ : Session) :
    (r >>= f) σ = f (r σ).1 (r σ).2 := rfl

/-- The answer of the second question is the one that it has by itself. -/
@[simp] theorem answer_bind (r : Reading α) [Discreet r] (f : α → Reading β)
    [∀ a, Discreet (f a)] (s : Store) : (r >>= f).answer s = (f (r.answer s)).answer s := by
  rw [answer, run_bind, Discreet.run_eq (r := r), Discreet.run_eq (r := f _)]

@[simp] theorem answer_pure (a : α) (s : Store) : (pure a : Reading α).answer s = a := rfl

@[simp] theorem answer_view (f : Store → α) (s : Store) : (view f).answer s = f s := rfl

theorem answer_view_bind (f : Store → α) (g : α → Reading β) (s : Store) :
    (view f >>= g).answer s = (g (f s)).answer s := rfl

@[simp] theorem answer_map (g : α → β) (r : Reading α) (s : Store) :
    (g <$> r).answer s = g (r.answer s) := rfl

@[simp] theorem answer_resolve (name : String) (s : Store) :
    (resolve name).answer s = .registered name s.generation := rfl

/-! ## §2. Questions that are put together. -/

instance (a : α) : Discreet (pure a : Reading α) :=
  .intro (fun _ => a) fun σ => ⟨σ.listed, rfl, fun _ h => h⟩

instance (f : Store → α) : Discreet (view f) :=
  .intro f fun σ => ⟨σ.listed, rfl, fun _ h => h⟩

/-- The table has all names that it had, and the name that was resolved. -/
instance (name : String) : Discreet (resolve name) := by
  refine .intro (.registered name ·.generation) fun σ => ?_
  by_cases hlisted : σ.listed.contains name
  · exact ⟨σ.listed, by rw [resolve, if_pos hlisted], fun _ h => h⟩
  · refine ⟨σ.listed.insert name, by rw [resolve, if_neg hlisted], fun other h => ?_⟩
    exact Std.TreeSet.mem_insert.2 (.inr h)

instance (r : Reading α) [Discreet r] (f : α → Reading β) [∀ a, Discreet (f a)] :
    Discreet (r >>= f) := by
  refine .intro (fun s => (f (r.answer s)).answer s) fun σ => ?_
  refine ⟨(f (r.answer σ.store)).listing { σ with listed := r.listing σ }, ?_, fun name h => ?_⟩
  · rw [run_bind, Discreet.run_eq (r := r), Discreet.run_eq (r := f _)]
  · exact Discreet.listed _ name (Discreet.listed σ name h)

theorem Discreet.bind {r : Reading α} {f : α → Reading β} (_hr : Discreet r)
    (_hf : ∀ a, Discreet (f a)) : Discreet (r >>= f) := inferInstance

instance (c : Prop) [Decidable c] (r q : Reading α) [Discreet r] [Discreet q] :
    Discreet (if c then r else q) := by
  split <;> infer_instance

instance (f : γ → Reading α) [∀ c, Discreet (f c)] (cs : List γ) : Discreet (cs.mapM f) := by
  induction cs with
  | nil => exact inferInstanceAs (Discreet (pure [] : Reading (List α)))
  | cons c cs ih =>
    rw [List.mapM_cons]
    infer_instance

/-- A name that is resolved is listed from then on. -/
theorem mem_listing_resolve (name : String) (σ : Session) : name ∈ (resolve name).listing σ := by
  unfold listing resolve
  dsimp only
  split
  · next h => exact h
  · exact Std.TreeSet.mem_insert_self

/-! ## §3. Questions that are put while a namespace is marked. -/

variable {n : Namespace} {r : Reading α}

/-- The mark is there while the question is answered, and gone afterwards. -/
instance [Discreet r] : Discreet (marking n r) := by
  refine .intro (fun s => r.answer (s.marked n)) fun σ => ?_
  let τ : Session := { σ with store := σ.store.marked n }
  refine ⟨r.listing τ, ?_, Discreet.listed (r := r) τ⟩
  have hrun : marking n r σ = ((r τ).1, (unmark n (r τ).2).2) := rfl
  rw [hrun, Discreet.run_eq (r := r)]
  show (_, ({ σ with store := (σ.store.marked n).unmarked n, listed := r.listing τ } : Session)) = _
  rw [Store.unmarked_marked]

@[simp] theorem answer_marking (n : Namespace) (r : Reading α) (s : Store) :
    (marking n r).answer s = r.answer (s.marked n) := rfl

end Reading

/-! ## §4. Namespaces. -/

namespace Namespace

open Reading

variable {parent : Namespace → Reading (Option Namespace)}

instance : Discreet currentScope := inferInstanceAs (Discreet (_ >>= _))

instance (key : NamespaceKey) : Discreet (ofKey key) := inferInstanceAs (Discreet (_ >>= _))

instance discreet_settledParent (n : Namespace) : Discreet n.settledParent := by
  unfold settledParent
  split
  · infer_instance
  · refine .bind inferInstance fun link => ?_
    cases link with
    | implied =>
      dsimp only
      cases impliedParent? n.name <;> infer_instance
    | _ => infer_instance

/-! A walk upwards is discreet if finding parents is. -/

instance [∀ m, Discreet (parent m)] (n : Namespace) (bound : Nat) (found : List Namespace)
    (next : Option Namespace) : Discreet (walk parent n bound found next) := by
  induction bound generalizing found next with
  | zero => cases next <;> exact inferInstanceAs (Discreet (pure found))
  | succ bound ih =>
    cases next with
    | none => exact inferInstanceAs (Discreet (pure found))
    | some m =>
      unfold walk
      infer_instance

instance [∀ m, Discreet (parent m)] (n : Namespace) : Discreet (ancestorsBy parent n) :=
  inferInstanceAs (Discreet (_ >>= _))

instance [∀ m, Discreet (parent m)] (n m : Namespace) : Discreet (enclosesBy parent n m) := by
  unfold enclosesBy
  infer_instance

/-- Finding a parent takes all marks away again that it has made, however deep it goes. -/
instance discreet_parentWithin (depth : Nat) (n : Namespace) :
    Discreet (parentWithin depth n) := by
  induction depth generalizing n with
  | zero => exact n.discreet_settledParent
  | succ depth ih =>
    unfold parentWithin
    infer_instance

instance (n : Namespace) : Discreet n.parent := inferInstanceAs (Discreet (_ >>= _))

instance (n : Namespace) : Discreet n.ancestors := inferInstanceAs (Discreet (ancestorsBy _ n))

instance (n m : Namespace) : Discreet (n.encloses m) := inferInstanceAs (Discreet (enclosesBy _ n m))

/-! ## §5. Keys. -/

variable (n : Namespace) (key : String)

instance : Discreet (n.inheritedEntry key) := inferInstanceAs (Discreet (_ >>= _))

instance : Discreet (n.lookup key) := by
  unfold lookup
  exact .bind inferInstance fun found => by cases found <;> infer_instance

instance : Discreet (n.lookupDependency key) := inferInstanceAs (Discreet (_ >>= _))

instance : Discreet (n.lookupSub key) := inferInstanceAs (Discreet (_ >>= _))

instance : Discreet (n.has key) := by
  unfold has
  exact .bind inferInstance fun found => by cases found <;> infer_instance

instance : Discreet (n.isSatisfied key) := by
  unfold isSatisfied
  exact .bind inferInstance fun found => by cases found <;> infer_instance

instance : Discreet (n.probe key) := inferInstanceAs (Discreet (_ >>= _))

instance (c : Coordinate) : Discreet (n.inheritedRequirement key c) :=
  inferInstanceAs (Discreet (_ >>= _))

instance : Discreet (n.inheritedDependency key) := inferInstanceAs (Discreet (_ >>= _))

instance (unversioned : String) : Discreet (n.inheritedSelection unversioned) :=
  inferInstanceAs (Discreet (_ >>= _))

instance : Discreet n.valuesThrough := inferInstanceAs (Discreet (_ >>= _))

/-! What is looked for through the ancestors is what the nearest of them has. -/

variable (s : Store)

theorem answer_inheritedEntry :
    (n.inheritedEntry key).answer s = (n.ancestors.answer s).findSome? (s.localEntry · key) :=
  Reading.answer_bind _ _ s

theorem answer_lookup :
    (n.lookup key).answer s = (s.localEntry n key).or
      ((n.ancestors.answer s).findSome? (s.localEntry · key)) := by
  unfold lookup
  rw [Reading.answer_view_bind]
  cases s.localEntry n key with
  | some e => rfl
  | none => exact answer_inheritedEntry n key s

theorem answer_inheritedRequirement (c : Coordinate) :
    (n.inheritedRequirement key c).answer s
      = (n.ancestors.answer s).findSome? (requirementFor? · key c s) :=
  Reading.answer_bind _ _ s

end Namespace

/-! ## §6. Questions that may fail. -/

namespace Inquiry

open Reading

variable {α β γ : Type}

theorem discreet_bind {r : Inquiry α} {f : α → Inquiry β} (hr : Discreet r.run)
    (hf : ∀ a, Discreet (f a).run) : Discreet (r >>= f).run := by
  rw [ExceptT.run_bind]
  exact .bind hr fun result => by cases result <;> infer_instance

instance (result : Except Error α) : Discreet (Inquiry.ofExcept result).run :=
  inferInstanceAs (Discreet (pure result))

instance (a : α) : Discreet (pure a : Inquiry α).run := inferInstanceAs (Discreet (pure (Except.ok a)))

instance (e : Error) : Discreet (throw e : Inquiry α).run :=
  inferInstanceAs (Discreet (pure (Except.error e)))

instance (r : Reading α) [Discreet r] : Discreet (Inquiry.ask r).run := by
  unfold Inquiry.ask
  rw [ExceptT.run_lift, map_eq_pure_bind]
  infer_instance

instance (f : Store → α) : Discreet (Inquiry.view f).run :=
  inferInstanceAs (Discreet (Inquiry.ask (Reading.view f)).run)

instance (r : Inquiry α) (f : α → Inquiry β) [Discreet r.run] [∀ a, Discreet (f a).run] :
    Discreet (r >>= f).run := discreet_bind inferInstance inferInstance

instance (c : Prop) [Decidable c] (r q : Inquiry α) [Discreet r.run] [Discreet q.run] :
    Discreet (if c then r else q).run := by
  split <;> infer_instance

instance (f : γ → Inquiry α) [∀ c, Discreet (f c).run] (cs : List γ) :
    Discreet (cs.mapM f).run := by
  induction cs with
  | nil => exact inferInstanceAs (Discreet (pure [] : Inquiry (List α)).run)
  | cons c cs ih =>
    rw [List.mapM_cons]
    infer_instance

/-! What a question answers that is put together from others comes from what these answer. -/

@[simp] theorem answer_pure (a : α) (s : Store) :
    (pure a : Inquiry α).run.answer s = .ok a := rfl

@[simp] theorem answer_throw (e : Error) (s : Store) :
    (throw e : Inquiry α).run.answer s = .error e := rfl

@[simp] theorem answer_ofExcept (result : Except Error α) (s : Store) :
    (Inquiry.ofExcept result).run.answer s = result := rfl

@[simp] theorem answer_ask (r : Reading α) (s : Store) :
    (Inquiry.ask r).run.answer s = .ok (r.answer s) := rfl

@[simp] theorem answer_view (f : Store → α) (s : Store) :
    (Inquiry.view f).run.answer s = .ok (f s) := rfl

theorem answer_bind (r : Inquiry α) (f : α → Inquiry β) (hr : Discreet r.run)
    (hf : ∀ a, Discreet (f a).run) (s : Store) :
    (r >>= f).run.answer s = r.run.answer s >>= fun a => (f a).run.answer s := by
  have hbind : (r >>= f).run = r.run >>= fun result => (ExceptT.bindCont f result) := rfl
  have hcont (result : Except Error α) : Discreet (ExceptT.bindCont f result) := by
    cases result with
    | ok a => exact hf a
    | error e => exact inferInstanceAs (Discreet (pure (Except.error e)))
  rw [hbind, Reading.answer_bind]
  cases r.run.answer s <;> rfl

theorem answer_ok_bind (a : α) (g : α → Inquiry β) (s : Store) :
    (Inquiry.ofExcept (.ok a) >>= g).run.answer s = (g a).run.answer s := rfl

theorem answer_view_bind (f : Store → α) (g : α → Inquiry β) (s : Store) :
    (Inquiry.view f >>= g).run.answer s = (g (f s)).run.answer s := rfl

theorem answer_ask_bind (r : Reading α) [Discreet r] (f : α → Inquiry β)
    (hf : ∀ a, Discreet (f a).run) (s : Store) :
    (Inquiry.ask r >>= f).run.answer s = (f (r.answer s)).run.answer s :=
  answer_bind (Inquiry.ask r) f inferInstance hf s

theorem answer_mapM (f : γ → Inquiry α) [∀ c, Discreet (f c).run] (cs : List γ) (s : Store) :
    (cs.mapM f).run.answer s = cs.mapM fun c => (f c).run.answer s := by
  induction cs with
  | nil => rfl
  | cons c cs ih =>
    rw [List.mapM_cons, List.mapM_cons, answer_bind _ _ inferInstance inferInstance]
    refine bind_congr fun a => ?_
    rw [answer_bind _ _ inferInstance inferInstance, ih]
    rfl

end Inquiry

namespace Namespace

open Reading

instance (n : Namespace) (key : String) : Discreet (n.pick key).run := by
  unfold pick
  split
  · refine Inquiry.discreet_bind inferInstance fun spec => ?_
    refine Inquiry.discreet_bind inferInstance fun chain => ?_
    cases spec.version <;> infer_instance
  · exact Inquiry.discreet_bind inferInstance fun found => by cases found <;> infer_instance

instance (n : Namespace) (keys : List String) : Discreet (n.valuesAt keys).run := by
  unfold valuesAt
  infer_instance

/-- What several keys pick is what each of them picks, one after the other. -/
theorem answer_valuesAt (n : Namespace) (keys : List String) (s : Store) :
    (n.valuesAt keys).run.answer s
      = (keys.mapM fun key => (n.pick (trim key)).run.answer s).map List.flatten := by
  unfold valuesAt
  rw [Inquiry.answer_ask_bind _ _ inferInstance,
    Inquiry.answer_bind _ _ inferInstance inferInstance, Inquiry.answer_mapM]
  cases keys.mapM fun key => (n.pick (trim key)).run.answer s <;> rfl

end Namespace

namespace Registry

open Reading

instance (key : String) : Discreet (artifact key).run := by
  unfold artifact
  dsimp only
  generalize trim key = trimmed
  cases concrete? trimmed with
  | some a => exact inferInstanceAs (Discreet (pure a : Inquiry Artifact).run)
  | none =>
    refine Inquiry.discreet_bind inferInstance fun current => ?_
    exact Inquiry.discreet_bind inferInstance fun found => by cases found <;> infer_instance

instance (key : String) : Discreet (artifactsFor key).run := by
  unfold artifactsFor
  refine Inquiry.discreet_bind inferInstance fun current => ?_
  refine Inquiry.discreet_bind inferInstance fun found => ?_
  rcases found with _ | ⟨id⟩ | ⟨sub⟩ <;> dsimp only <;> infer_instance

instance (keys : List String) : Discreet (artifacts keys).run := by
  unfold artifacts
  infer_instance

end Registry

end DependencyScope
