/-
  DependencyScope.Proofs.Session.Outside — what a write to a namespace leaves alone.

  Keys lead only through entries, so a write to a namespace lands in one that it contains.  The
  dependencies that are written are held there, by an entry or for a coordinate, or they are new.  A
  listener could pass a selection on to anywhere.  Without listeners, all that lies outside of what
  the namespace contains is as it was, also where a batch fails and is taken back.

  Main definitions:
    * `Operation.WritesTo` — the writes to a namespace;
    * `Session.Hushed` — nobody is told of a selection now;
    * `Session.Outside`, `Session.Enclosed` — what a write keeps on its way.

  Main results:
    * `Session.keepsAt_writesTo` — every write keeps what is outside.
-/
import DependencyScope.Proofs.Namespace.Rollback
import DependencyScope.Proofs.Session.Records
import DependencyScope.Proofs.Store.Narrow

namespace DependencyScope

open DependencyScope.Text DependencyScope.Action

/-! ## §1. Sessions without listeners. -/

/-- Nothing listens to the dependency. -/
def Dependency.Silent (d : Dependency) : Prop := d.listeners = []

theorem Dependency.robust_silent :
    Dependency.Robust (fun _ => True) (fun _ => True) Dependency.Silent where
  declared _ _ _ _ _ := rfl
  group _ _ := rfl
  copied _ _ _ _ := rfl
  located _ _ h := h
  undefaulted h := h
  selected h hselect := by
    obtain ⟨selected, rfl⟩ := (Reselects.of_select hselect).rest
    exact h
  declares _ h hdeclare := by
    rw [declare_spec hdeclare]
    exact h
  chosen h hchoose := by
    obtain ⟨default, selected, hdependency⟩ := choose_spec hchoose
    rw [hdependency]
    exact h
  redeclared _ := trivial
  relocated _ _ _ := trivial
  read _ := trivial

namespace Session

variable {σ : Session}

/-- A dependency without listeners tells nobody. -/
theorem fire_of_unheard {id : DependencyId} (h : (σ.store.dependency id).listeners = []) :
    σ.fire id = σ := by
  unfold fire fireWithin
  rw [h]
  rfl

theorem store_announce_of_unheard {id : DependencyId}
    (h : (σ.store.dependency id).listeners = []) : (σ.announce id).store = σ.store := by
  unfold announce
  split
  · rfl
  · rw [fire_of_unheard h]

/-- Where nothing listens, nothing is told. -/
theorem fire_of_silent (h : σ.Records Dependency.Silent) (id : DependencyId) : σ.fire id = σ :=
  fire_of_unheard (h id)

theorem store_announce_of_silent (h : σ.Records Dependency.Silent) (id : DependencyId) :
    (σ.announce id).store = σ.store :=
  store_announce_of_unheard (h id)

/-- Nobody is told of a selection now: a batch goes on, or nothing listens. -/
def Hushed (σ : Session) : Prop := σ.waiting = none → σ.Records Dependency.Silent

theorem Hushed.of_waiting (h : σ.waiting.isSome) : σ.Hushed :=
  fun hnone => absurd hnone (Option.isSome_iff_ne_none.1 h)

theorem Hushed.announce (h : σ.Hushed) (id : DependencyId) :
    (σ.announce id).store = σ.store ∧ (σ.announce id).Hushed := by
  cases hwaiting : σ.waiting with
  | some ids =>
    have hannounce : σ.announce id = { σ with waiting := some (ids ++ [id]) } := by
      unfold Session.announce
      rw [hwaiting]
    rw [hannounce]
    exact ⟨rfl, .of_waiting rfl⟩
  | none =>
    have hannounce : σ.announce id = σ := by
      unfold Session.announce
      rw [hwaiting]
      exact fire_of_silent (h hwaiting) id
    rw [hannounce]
    exact ⟨rfl, h⟩

end Session

/-- What is settled is all that changes, then. -/
theorem Action.settle_of_hushed {σ τ : Session} {id : DependencyId}
    {outcome : Dependency.Outcome}
    (h : Session.Hushed { σ with store := σ.store.putDependency id outcome.dependency })
    (hrun : (settle id outcome).run σ = (.ok (), τ)) :
    τ.store = σ.store.putDependency id outcome.dependency ∧ τ.Hushed := by
  let put : Session := { σ with store := σ.store.putDependency id outcome.dependency }
  unfold settle at hrun
  rw [run_bind_ok (run_update _ σ)] at hrun
  split at hrun
  · obtain rfl : put.announce id = τ := congrArg Prod.snd hrun
    exact h.announce id
  · obtain rfl : put = τ := congrArg Prod.snd hrun
    exact ⟨rfl, h⟩

/-! ## §2. What is held by a namespace. -/

namespace Store

variable {s t : Store} {n m : Namespace} {id : DependencyId}

/-- The dependencies that `n` and the namespaces below it hold, and those that are not yet made. -/
def HeldOrNew (s : Store) (n : Namespace) (id : DependencyId) : Prop :=
  s.nextDependency ≤ id ∨ id ∈ s.heldIn n

theorem heldOrNew_of_localEntry {key : String} (h : s.localEntry n key = some (.dependency id)) :
    s.HeldOrNew n id := by
  obtain ⟨m, hm, ⟨key', hown⟩ | ⟨unversioned, hindexed⟩⟩ := exists_of_localEntry h
  · exact .inr (mem_heldIn hm hown)
  · exact .inr (mem_heldIn_of_indexed? hm hindexed)

theorem nextDependency_restore (s saved : Store) (ns : List Namespace) (ids : List DependencyId) :
    (s.restore saved ns ids).nextDependency = s.nextDependency := by
  unfold restore
  refine List.foldlRecOn (motive := fun t : Store => t.nextDependency = s.nextDependency) _ _ ?_ ?_
  · exact List.foldlRecOn (motive := fun t : Store => t.nextDependency = s.nextDependency) _ _ rfl
      fun _ ht _ _ => ht
  · exact fun _ ht _ _ => ht

namespace Framed

theorem heldOrNew (s : Store) (n : Namespace) : Framed s (s.Contains n) (s.HeldOrNew n) s :=
  .refl (fun _ => .inl) fun _ hm _ _ hown => .inr (mem_heldIn hm hown)

/-- Putting back what was held below `n` writes nothing else. -/
theorem restoreBelow (h : Framed s (s.Contains n) (s.HeldOrNew n) t) :
    Framed s (s.Contains n) (s.HeldOrNew n) (t.restoreBelow s [n]) where
  contents := by
    intro m hm
    rw [contentsOf_restoreBelow, if_neg fun hmem => hm (mem_subtree_iff.1 hmem)]
    exact h.contents m hm
  dependency := by
    intro id hid
    rw [dependency_restoreBelow]
    split
    · rfl
    · exact h.dependency id hid
  next := by
    unfold Store.restoreBelow
    rw [nextDependency_restore]
    exact h.next
  new := h.new
  own := by
    intro m hm key id hown
    unfold ownDependency? entryAt? at hown
    rw [contentsOf_restoreBelow, if_pos (mem_subtree_iff.2 hm)] at hown
    exact .inr (mem_heldIn hm hown)

end Framed

/-- What is put back below `n` leads to nothing else. -/
theorem closed_restoreBelow (s t : Store) (n : Namespace) :
    (t.restoreBelow s [n]).Closed (s.Contains n) := by
  intro m hm k hk
  unfold Holds entries at hk
  rw [contentsOf_restoreBelow, if_pos (mem_subtree_iff.2 hm)] at hk
  exact s.closed_contains n m hm k hk

end Store

/-! ## §3. What a write keeps. -/

/-- Two invariants that both stand the writes. -/
theorem Tolerates.and {I J : Session → Prop} {n : Namespace} {P : DependencyId → Prop}
    {D : Dependency → Prop} (h : Tolerates I n P D)
    (h' : Tolerates J n (fun _ => True) fun _ => True) :
    Tolerates (fun σ => I σ ∧ J σ) n P D where
  unlisted σ names hσ := ⟨h.unlisted σ names hσ.1, h'.unlisted σ names hσ.2⟩
  record hσ := h.record hσ.1
  own hσ _ _ hown := h.own hσ.1 hown
  put hσ _ _ hid hd := ⟨h.put hσ.1 hid hd, h'.put hσ.2 trivial trivial⟩
  add hσ _ hd := ⟨⟨(h.add hσ.1 hd).1, (h'.add hσ.2 trivial).1⟩, (h.add hσ.1 hd).2⟩
  entry hσ key _ hid := ⟨h.entry hσ.1 key hid, h'.entry hσ.2 key trivial⟩
  index hσ _ hid := ⟨h.index hσ.1 hid, h'.index hσ.2 trivial⟩
  announce hσ _ hid := ⟨h.announce hσ.1 hid, h'.announce hσ.2 trivial⟩

namespace Session

variable {s : Store} {n m : Namespace} {σ : Session}

/-- Since the store was `s`, nothing has changed outside of what `n` contained, and nothing
listens. -/
def Outside (s : Store) (n : Namespace) (σ : Session) : Prop :=
  s.Framed (s.Contains n) (s.HeldOrNew n) σ.store ∧ σ.Records Dependency.Silent

/-- Nor has a namespace from elsewhere been stored there. -/
def Enclosed (s : Store) (n : Namespace) (σ : Session) : Prop :=
  Outside s n σ ∧ σ.store.Closed (s.Contains n)

theorem outside_start (h : σ.Records Dependency.Silent) (n : Namespace) : Outside σ.store n σ :=
  ⟨.heldOrNew σ.store n, h⟩

theorem enclosed_start (h : σ.Records Dependency.Silent) (n : Namespace) : Enclosed σ.store n σ :=
  ⟨outside_start h n, σ.store.closed_contains n⟩

theorem tolerates_outside (hm : s.Contains n m) :
    Tolerates (Outside s n) m (s.HeldOrNew n) Dependency.Silent :=
  (tolerates_records Dependency.robust_silent m).framed hm fun _ id h =>
    store_announce_of_silent h id

/-- Wherever a key leads, the writes stay below `n`. -/
theorem landing_enclosed (s : Store) (n : Namespace) :
    Tolerates.Landing (Enclosed s n) n (s.HeldOrNew n) Dependency.Silent := by
  intro σ hσ key
  have hplace := Store.landing_mem hσ.2 n key (.refl s n)
  exact (tolerates_outside hplace).and (tolerates_closed (s.Contains n) _)

theorem endsBatch_outside (h : σ.Records Dependency.Silent) :
    EndsBatch (Outside σ.store n) n σ where
  undo _ hτ := ⟨hτ.1.restoreBelow, hτ.2.restore h _ _⟩
  waiting _ hτ := hτ
  fire _ id hτ := by
    rw [fire_of_silent hτ.2]
    exact hτ

theorem endsBatch_enclosed (h : σ.Records Dependency.Silent) :
    EndsBatch (Enclosed σ.store n) n σ where
  undo τ hτ := ⟨(endsBatch_outside h).undo τ hτ.1, Store.closed_restoreBelow _ _ n⟩
  waiting _ hτ := hτ
  fire _ id hτ := by
    rw [fire_of_silent hτ.1.2]
    exact hτ

/-! ## §4. The writes. -/

/-- An assignment that lands below `n` may also store a namespace from elsewhere there. -/
theorem keepsAt_set_outside (hσ : Outside s n σ) {key : String} (value : Value)
    (hplace : s.Contains n (σ.store.landing m key).1) :
    KeepsAt (Outside s n) (m.set key value) (fun _ => True) σ := by
  have htolerates := tolerates_outside hplace
  unfold KeepsAt
  rw [Namespace.run_set]
  refine htolerates.keepsAt_setHere Dependency.robust_silent hσ ?_ fun key' spec _ _ => ?_
  · exact fun sub _ key τ hτ => ⟨hτ.1.putEntry hplace key (by simp), hτ.2.of_dependency fun _ => rfl⟩
  · exact htolerates.recordFor Dependency.robust_silent hσ key' trivial

theorem keepsAt_setAll_outside {pairs : List (String × Value)} (h : σ.Records Dependency.Silent)
    (hstored : ∀ a ∈ n.assignments pairs σ, a.stored? = none) :
    KeepsAt (Outside σ.store n) (pairs.mapM fun (key, value) => n.set key value)
      (fun _ => True) σ := by
  have hplaces : ∀ a ∈ n.assignments pairs σ, σ.store.Contains n a.place :=
    Namespace.place_contained fun a ha m hm => nomatch (hstored a ha).symm.trans hm
  exact (Namespace.keepsAt_setAll_of pairs (outside_start h n) fun a ha hsession =>
    keepsAt_set_outside hsession a.value (hplaces a ha)).2

theorem keeps_openSub_outside (s : Store) (n : Namespace) (key : String) :
    Keeps (Outside s n) (n.openSub key) fun _ => True := by
  unfold Namespace.openSub
  have hentry : Keeps (Outside s n) (Action.view (·.entryAt? n (trim key))) fun _ => True :=
    .view fun _ _ => trivial
  refine hentry.bind fun found _ => ?_
  rcases found with _ | ⟨id⟩ | ⟨sub⟩
  · refine .change fun σ hσ => ⟨⟨?_, hσ.2.of_dependency fun _ => rfl⟩, trivial⟩
    have hframed : s.Framed (s.Contains n) (s.HeldOrNew n)
        { σ.store with nextNamespace := σ.store.nextNamespace + 1 } := { hσ.1 with }
    have hlinked : s.Framed (s.Contains n) (s.HeldOrNew n)
        ({ σ.store with nextNamespace := σ.store.nextNamespace + 1 }.putLink
          (.single σ.store.nextNamespace (n.subName (trim key)) n.inRegistry) (.handle n)) :=
      { hframed with }
    exact hlinked.putEntry (.refl s n) (trim key) (by simp)
  · exact .throw _
  · exact .pure trivial

end Session

/-- The writes to a namespace, batches of assignments only where none of them stores a namespace. -/
inductive Operation.WritesTo (n : Namespace) (σ : Session) : Operation → Prop
  | set (key : String) (value : Value) : WritesTo n σ (.set n key value)
  | useSpec (text : String) : WritesTo n σ (.useSpec n text)
  | useAll {pairs : List (String × Value)} :
    (∀ a ∈ n.assignments pairs (held σ), a.stored? = none) → WritesTo n σ (.useAll n pairs)
  | useInherited (key : String) : WritesTo n σ (.useInherited n key)
  | addAlias (key existing : String) : WritesTo n σ (.addAlias n key existing)
  | need (text : String) : WritesTo n σ (.need n text)
  | needAs (key : String) (value : Value) : WritesTo n σ (.needAs n key value)
  | needAll (pairs : List (String × Value)) : WritesTo n σ (.needAll n pairs)
  | require (key text : String) (requirement : Option String) :
    WritesTo n σ (.require n key text requirement)
  | openSub (key : String) : WritesTo n σ (.openSub n key)

namespace Session

variable {n : Namespace} {σ : Session} {operation : Operation}

/-- A write keeps what is outside of the namespace, whether it succeeds or fails. -/
theorem keepsAt_writesTo (h : σ.Records Dependency.Silent) (hwrites : operation.WritesTo n σ) :
    KeepsAt (Outside σ.store n) (perform operation) (fun _ => True) σ := by
  have hD := Dependency.robust_silent
  -- outside of what `n` contains nothing is written, and what it contains stays closed
  have hn : Tolerates (Enclosed σ.store n) n (σ.store.HeldOrNew n) Dependency.Silent :=
    (tolerates_outside (.refl σ.store n)).and (tolerates_closed _ n)
  have hland := landing_enclosed σ.store n
  have hstart := enclosed_start h n
  have hlisted : Unlisted (Enclosed σ.store n) := fun _ _ hτ => hτ
  have hreply {α : Type} {act : Action α} {Q : α → Prop} {f : α → Reply}
      (hact : KeepsAt (Outside σ.store n) act Q σ) :
      KeepsAt (Outside σ.store n) (do return f (← act)) (fun _ => True) σ :=
    hact.bind fun _ _ => .pure trivial
  have henclosed {α : Type} {act : Action α} {Q : α → Prop} {f : α → Reply}
      (hact : KeepsAt (Enclosed σ.store n) act Q σ) :
      KeepsAt (Outside σ.store n) (do return f (← act)) (fun _ => True) σ :=
    hreply ⟨hact.1.1, hact.2⟩
  have hneed (key : String) (value : Value) :
      Keeps (Enclosed σ.store n) (n.needAs key value) (σ.store.HeldOrNew n) :=
    Tolerates.keeps_needAs hland hD hlisted key fun _ _ => trivial
  cases hwrites with
  | set key value =>
    exact hreply (keepsAt_set_outside hstart.1 value
      (Store.landing_mem (σ.store.closed_contains n) n key (.refl σ.store n)))
  | useSpec text =>
    exact henclosed (Namespace.keepsAt_useSpec hland hD hstart (endsBatch_enclosed h)
      (fun _ _ => trivial) fun _ _ _ hrecord => hrecord)
  | useAll hstored =>
    -- assignments store no namespace here, so that the next one stays inside as well
    have hheld : (held σ).Records Dependency.Silent := h
    exact hreply ((keepsAt_setAll_outside hheld hstored).atomically (endsBatch_outside h))
  | useInherited key => exact henclosed (hn.keeps_useInherited hD key σ hstart)
  | addAlias key existing =>
    exact henclosed (hn.keepsAt_addAlias hland hD hstart key fun _ => Store.heldOrNew_of_localEntry)
  | need text => exact henclosed (Tolerates.keeps_need hland hD (fun _ _ => trivial) σ hstart)
  | needAs key value => exact henclosed (hneed key value σ hstart)
  | needAll pairs =>
    have hneeds := Keeps.mapM pairs fun pair _ => hneed pair.1 pair.2
    exact henclosed ((hneeds (held σ) hstart).atomically (endsBatch_enclosed h))
  | require key text requirement =>
    exact henclosed (Tolerates.keeps_require hland hD key (fun _ _ _ _ => trivial) σ hstart)
  | openSub key => exact hreply (keeps_openSub_outside σ.store n key σ hstart.1)

/-- Nor does a write make anything listen. -/
theorem silent_after (h : σ.Records Dependency.Silent) (hwrites : operation.WritesTo n σ) :
    (σ.after operation).Records Dependency.Silent :=
  (keepsAt_writesTo h hwrites).1.2

end Session

end DependencyScope
