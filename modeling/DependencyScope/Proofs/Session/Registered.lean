/-
  DependencyScope.Proofs.Session.Registered — what a coordinate finds, and what a spec picks.

  A look-up by a coordinate gives what the nearest namespace has registered for its text.  Every write
  registers a dependency under the text of the coordinate that it has then, and a coordinate lasts, so
  what is found has the coordinate that was asked for.  Only a batch that fails may take a coordinate
  back that another namespace has registered meanwhile.

  Picking takes another way than looking up.  It reads a spec, prints its coordinate and looks the
  printed text up.  With a classifier and no version, that text is read to a version of the coordinate
  without the classifier, and so it is the coordinate without the classifier that is picked.

  Main definitions:
    * `Store.nearestRegistered?` — what a namespace or else its nearest ancestor has registered;
    * `Operation.Orderly` — coordinates are such as specs write, and batches do not reach out;
    * `Coordinate.unclassified` — the coordinate without its classifier.

  Main results:
    * `Namespace.lookupDependency_of_parse` — what a spec finds;
    * `Session.coordinate_of_nearestRegistered?` — in an orderly run it has the coordinate;
    * `Session.picked_unversioned_iff` — what a spec without a version picks is what it finds, unless
      it has a classifier and something is found.
-/
import DependencyScope.Proofs.Registry.Legible
import DependencyScope.Proofs.Session.Findable

namespace DependencyScope

open DependencyScope.Text DependencyScope.Action

/-! ## §1. Looking up by coordinate. -/

/-- What the namespace, or else its nearest ancestor that has any, has registered for the text of a
coordinate. -/
def Store.nearestRegistered? (s : Store) (n : Namespace) (c : Coordinate) : Option DependencyId :=
  (n :: n.ancestors.answer s).findSome? (s.indexed? · c.render)

/-- Blanks at the ends make no difference to what is read; they are in the texts of errors only. -/
theorem Spec.parse_trim {text : String} {p : Spec} (h : parse text = .ok p) :
    parse (trim text) = .ok p := by
  unfold parse at h ⊢
  rw [trim_trim]
  split at h
  · exact nomatch h
  · split at h
    · exact nomatch h
    · exact h

/-- A spec finds in a namespace what is registered there for its coordinate, whatever its version. -/
theorem Store.localEntry_of_parse {key : String} {p : Spec} (h : Spec.parse key = .ok p) (s : Store)
    (n : Namespace) : s.localEntry n key = (s.indexed? n p.coordinate.render).map .dependency := by
  unfold localEntry
  rw [if_pos (Spec.looksLikeSpec_of_parse h), Spec.parse_trim h]

namespace Namespace

theorem lookup_of_parse {key : String} {p : Spec} (h : Spec.parse key = .ok p) (n : Namespace)
    (s : Store) : (n.lookup key).answer s
      = (s.nearestRegistered? n p.coordinate).map .dependency := by
  have hlocal (m : Namespace) := s.localEntry_of_parse h m
  unfold Store.nearestRegistered?
  rw [answer_lookup, List.findSome?_cons, hlocal, funext hlocal]
  cases s.indexed? n p.coordinate.render with
  | some id => rfl
  | none => exact List.map_findSome?.symm

/-- A spec finds what is nearest of all that is registered for its coordinate. -/
theorem lookupDependency_of_parse {key : String} {p : Spec} (h : Spec.parse key = .ok p)
    (n : Namespace) (s : Store) :
    (n.lookupDependency key).answer s = s.nearestRegistered? n p.coordinate := by
  show ((n.lookup key).answer s).bind Entry.dependency? = _
  rw [lookup_of_parse h]
  cases s.nearestRegistered? n p.coordinate <;> rfl

end Namespace

/-! ## §2. What is registered, in an orderly run. -/

/-- A batch of assignments that fails has written to nothing but what its namespace contained, and a
dependency that is brought along has a coordinate that a spec writes. -/
structure Operation.Orderly (σ : Session) (operation : Operation) : Prop where
  contained : ∀ batch ∈ operation.batch? σ, batch.Fails → batch.Contained
  located : ∀ d, operation = .newDependency d → d.Located

namespace Session

variable {σ : Session} {followsProjects : Bool}

theorem registered_of_orderly
    (h : ReachedThrough followsProjects (fun σ operation => operation.Orderly σ) σ) :
    σ.store.Registered :=
  h.registered fun _ _ horderly => horderly.contained

/-- What is found by a coordinate that a spec writes has that coordinate. -/
theorem coordinate_of_nearestRegistered?
    (h : ReachedThrough followsProjects (fun σ operation => operation.Orderly σ) σ)
    {n : Namespace} {c : Coordinate} (hc : c.WellFormed) {id : DependencyId}
    (hfound : σ.store.nearestRegistered? n c = some id) :
    (σ.store.dependency id).coordinate = some c := by
  have hlocated : σ.Records Dependency.Located := h.located fun _ _ horderly => horderly.located
  obtain ⟨m, -, hindexed⟩ := List.exists_of_findSome?_eq_some hfound
  obtain ⟨c', hc', hrender⟩ :=
    Option.map_eq_some_iff.1 (registered_of_orderly h m c.render id hindexed)
  rw [hc', (hlocated id c' hc').render_injective hc hrender]

end Session

/-! ## §3. Picking by coordinate. -/

/-- The coordinate without its classifier. -/
def Coordinate.unclassified (c : Coordinate) : Coordinate := { c with classifier := none }

/-- The text that prints a coordinate is read to the coordinate without the classifier, which then
stands for the version. -/
theorem Coordinate.WellFormed.parse_render {c : Coordinate} (h : c.WellFormed) :
    ∃ version, Spec.parse c.render = .ok ⟨c.unclassified, version⟩ := by
  have hwell : Spec.WellFormed ⟨c, none⟩ := ⟨h, nofun⟩
  have hprint : c.render = String.intercalate ":" (Spec.parts ⟨c, none⟩) :=
    Spec.render_eq ⟨c, none⟩
  -- the fourth part, if there is one, is taken for a version
  have hpieces : Spec.pieces? (Spec.parts ⟨c, none⟩)
      = some (c.group, c.id, c.type, none, c.classifier) := by
    obtain ⟨g, i, t, classifier⟩ := c
    cases classifier <;> rfl
  rw [hprint]
  exact ⟨_, Spec.parse_intercalate hpieces hwell.isPart_of_mem⟩

/-- A spec without a version picks what the coordinate without the classifier finds. -/
theorem Namespace.valuesAt_of_parse {key : String} {c : Coordinate}
    (h : Spec.parse key = .ok ⟨c, none⟩) (n : Namespace) (s : Store) :
    (n.valuesAt [key]).run.answer s = .ok (s.nearestRegistered? n c.unclassified).toList := by
  have hwell : c.WellFormed := (Spec.wellFormed_of_parse h).coordinate
  obtain ⟨version, hprinted⟩ := hwell.parse_render
  have hlocal (m : Namespace) : (s.localEntry m c.render).bind Entry.dependency?
      = s.indexed? m c.unclassified.render := by
    rw [Store.localEntry_of_parse hprinted]
    cases s.indexed? m c.unclassified.render <;> rfl
  have hpick : (n.pick (trim key)).run.answer s
      = .ok (s.nearestRegistered? n c.unclassified).toList := by
    unfold pick Store.nearestRegistered?
    rw [if_pos (Spec.looksLikeSpec_of_parse h), Spec.parse_trim h, Inquiry.answer_ok_bind,
      Inquiry.answer_ask_bind _ _ inferInstance, ← funext hlocal]
    rfl
  rw [answer_valuesAt, List.mapM_cons, hpick]
  show Except.ok (_ ++ []) = _
  rw [List.append_nil]

namespace Session

variable {σ : Session} {followsProjects : Bool}

/-- What keys pick is what the session replies. -/
theorem reply_valuesAt {n : Namespace} {keys : List String} {found : List DependencyId}
    (h : (n.valuesAt keys).run.answer σ.store = .ok found) :
    ((perform (.valuesAt n keys)).run σ).1 = .ok (.dependencies found) := by
  have hrun := run_inquire (n.valuesAt keys) σ
  rw [h] at hrun
  unfold perform
  dsimp only
  rw [run_bind_ok hrun]
  rfl

/-- In an orderly run, the coordinates with and without a classifier never find the same. -/
theorem nearestRegistered?_unclassified_eq_iff
    (h : ReachedThrough followsProjects (fun σ operation => operation.Orderly σ) σ)
    {n : Namespace} {c : Coordinate} (hc : c.WellFormed) :
    σ.store.nearestRegistered? n c.unclassified = σ.store.nearestRegistered? n c ↔
      c.classifier = none ∨ σ.store.nearestRegistered? n c = none ∧
        σ.store.nearestRegistered? n c.unclassified = none := by
  have hbare : c.unclassified.WellFormed := ⟨hc.group, hc.id, hc.type, nofun⟩
  constructor
  · intro hsame
    cases hfound : σ.store.nearestRegistered? n c with
    | none => exact .inr ⟨rfl, hsame.trans hfound⟩
    | some id =>
      have hcoordinate := coordinate_of_nearestRegistered? h hc hfound
      have hunclassified := coordinate_of_nearestRegistered? h hbare (hsame.trans hfound)
      exact .inl (congrArg Coordinate.classifier
        (Option.some.inj (hcoordinate.symm.trans hunclassified)))
  · rintro (hnone | ⟨hc, hbare⟩)
    · have hsame : c.unclassified = c := by
        unfold Coordinate.unclassified
        rw [← hnone]
      rw [hsame]
    · rw [hc, hbare]

/-- A spec without a version picks at most one dependency, the nearest for its coordinate without the
classifier.  What the spec finds is the nearest for its coordinate.  So in an orderly run the spec
picks what it finds exactly if it has no classifier, or if nothing is found with or without it. -/
theorem picked_unversioned_iff {key : String} {c : Coordinate}
    (hparse : Spec.parse key = .ok ⟨c, none⟩) (σ : Session) (n : Namespace) :
    ∃ picked, ((perform (.valuesAt n [key])).run σ).1 = .ok (.dependencies picked) ∧
      picked = (σ.store.nearestRegistered? n c.unclassified).toList ∧
      (n.lookupDependency key).answer σ.store = σ.store.nearestRegistered? n c ∧
      (picked = ((n.lookupDependency key).answer σ.store).toList ↔
        σ.store.nearestRegistered? n c.unclassified = σ.store.nearestRegistered? n c) ∧
      ∀ followsProjects,
        ReachedThrough followsProjects (fun σ operation => operation.Orderly σ) σ →
        (picked = ((n.lookupDependency key).answer σ.store).toList ↔
          c.classifier = none ∨ σ.store.nearestRegistered? n c = none ∧
            σ.store.nearestRegistered? n c.unclassified = none) := by
  have hfound : (n.lookupDependency key).answer σ.store = σ.store.nearestRegistered? n c :=
    Namespace.lookupDependency_of_parse hparse n σ.store
  have hsame : (σ.store.nearestRegistered? n c.unclassified).toList
      = (σ.store.nearestRegistered? n c).toList ↔
        σ.store.nearestRegistered? n c.unclassified = σ.store.nearestRegistered? n c :=
    ⟨fun h => by simpa using congrArg List.head? h, congrArg Option.toList⟩
  refine ⟨_, reply_valuesAt (Namespace.valuesAt_of_parse hparse n σ.store), rfl, hfound, ?_,
    fun _ h => ?_⟩
  · rw [hfound, hsame]
  · rw [hfound, hsame]
    exact nearestRegistered?_unclassified_eq_iff h (Spec.wellFormed_of_parse hparse).coordinate

/-- A hyphen and an empty classifier are as good as none: the child picks what the root has. -/
theorem picked_hyphenated :
    let root : Namespace := .registered rootName 0
    let a : Namespace := .registered "a" 0
    let σ := (start true).afterAll
      [.set root "k" (.text "g:i:t:1"), .set a "l" (.text "g:i:t:c:2")]
    ReachedThrough true (fun σ operation => operation.Orderly σ) σ ∧
      Spec.parse "g:i:t::-" = .ok ⟨⟨"g", "i", "t", none⟩, none⟩ ∧
      (a.lookupDependency "g:i:t::-").answer σ.store = some 0 ∧
      ((perform (.valuesAt a ["g:i:t::-"])).run σ).1 = .ok (.dependencies [0]) := by
  intro root a σ
  have horderly {τ : Session} {n : Namespace} {key text : String} :
      (Operation.set n key (.text text)).Orderly τ :=
    ⟨(fun _ hbatch => nomatch hbatch), nofun⟩
  have hreached : ReachedThrough true (fun σ operation => operation.Orderly σ) σ :=
    .after (.after .start trivial horderly) trivial horderly
  have hparse : Spec.parse "g:i:t::-" = .ok ⟨⟨"g", "i", "t", none⟩, none⟩ := by decide +kernel
  have hfound : (a.lookupDependency "g:i:t::-").answer σ.store = some 0 := by decide +kernel
  obtain ⟨picked, hreply, -, -, -, horder⟩ := picked_unversioned_iff hparse σ a
  have hpicked := (horder true hreached).2 (.inl rfl)
  rw [hpicked, hfound] at hreply
  exact ⟨hreached, hparse, hfound, hreply⟩

/-- With a classifier, the spec finds one dependency and picks another. -/
theorem not_picked_classified :
    let n : Namespace := .registered "n" 0
    let σ := (start true).afterAll
      [.set n "k" (.text "g:i:t:c:1"), .set n "l" (.text "g:i:t:2")]
    Reached true σ ∧ Spec.parse "g:i:t:c:" = .ok ⟨⟨"g", "i", "t", some "c"⟩, none⟩ ∧
      (n.lookupDependency "g:i:t:c:").answer σ.store = some 0 ∧
      ((perform (.valuesAt n ["g:i:t:c:"])).run σ).1 = .ok (.dependencies [1]) := by
  intro n σ
  have hpicked : ((n.valuesAt ["g:i:t:c:"]).run.answer σ.store).toOption = some [1] := by
    decide +kernel
  exact ⟨.after (.after .start trivial) trivial, by decide +kernel, by decide +kernel,
    reply_valuesAt (eq_ok_of_toOption hpicked)⟩

end Session

end DependencyScope
