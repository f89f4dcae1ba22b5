/-
  DependencyScope.Proofs.Session.Charted — what the registry does not list is empty.

  A client knows a namespace of the registry once the registry has listed its name.  Asking may list
  names, and then there are namespaces that the client has never written to.  As long as operations
  name only namespaces that are known, these hold nothing: writes land in namespaces that are named,
  or to which the entries of known namespaces lead.

  Main definitions:
    * `Session.Knows` — the namespaces that a client can have been given;
    * `Operation.mentions` — the namespaces that an operation names;
    * `Store.Charted` — all other namespaces are empty, and no entry leads to them.

  Main results:
    * `tolerates_charted` — writes to a known namespace chart nothing new;
    * `Session.charted_after` — every operation that names known namespaces keeps this;
    * `Session.charted_reached` — so does every run.
-/
import DependencyScope.Proofs.Session.Parts
import DependencyScope.Proofs.Session.Unobserved

namespace DependencyScope

open DependencyScope.Text DependencyScope.Action

/-! ## §1. What a client knows. -/

namespace Session

variable {σ τ : Session} {n : Namespace}

/-- The namespaces that a client can have been given: the registry lists the name, or has done so
before it was cleared.  Namespaces outside of the registry are made when they are given. -/
def Knows (σ : Session) : Namespace → Prop
  | .registered name generation =>
    generation < σ.store.generation ∨ generation = σ.store.generation ∧ name ∈ σ.listed
  | .single _ _ _ => True

/-- What is known stays known, as long as names are only taken off the list when the registry is
cleared. -/
theorem Knows.mono (h : σ.Knows n) (hgeneration : σ.store.generation ≤ τ.store.generation)
    (hlisted : σ.store.generation = τ.store.generation → ∀ name ∈ σ.listed, name ∈ τ.listed) :
    τ.Knows n := by
  cases n with
  | single serial name inRegistry => trivial
  | registered name generation =>
    rcases h with hbefore | ⟨rfl, hname⟩
    · exact .inl (Nat.lt_of_lt_of_le hbefore hgeneration)
    · rcases Nat.lt_or_eq_of_le hgeneration with hlt | heq
      · exact .inl hlt
      · exact .inr ⟨heq, hlisted heq name hname⟩

end Session

/-- The namespaces that a value names. -/
def Value.mentions : Value → List Namespace
  | .sub m => [m]
  | _ => []

/-- The namespaces that an operation names. -/
def Operation.mentions : Operation → List Namespace
  | .same n m | .setParent n (.handle m) => [n, m]
  | .set n _ value | .needAs n _ value => n :: value.mentions
  | .useAll n pairs | .needAll n pairs | .openSubUsing n _ pairs =>
    n :: pairs.flatMap fun pair => pair.2.mentions
  | .registrySize n | .parent n | .ancestors n | .setParent n _ | .lookup n _ | .localEntry n _
  | .lookupDependency n _ | .lookupSub n _ | .lookupMany n _ | .keys n | .probe n _ | .useSpec n _
  | .useInherited n _ | .addAlias n _ _ | .need n _ | .require n _ _ _ | .openSub n _ | .values n _
  | .valuesAt n _ | .artifacts n | .delete n _ | .clear n => [n]
  | _ => []

/-! ## §2. Charted stores. -/

namespace Store

variable {K : Namespace → Prop} {s t : Store} {n : Namespace}

/-- Only namespaces with `K` hold anything, and entries lead only to namespaces with `K`. -/
structure Charted (K : Namespace → Prop) (s : Store) : Prop where
  empty : ∀ n, ¬K n → s.contentsOf n = {}
  entries : ∀ n key sub, s.entryAt? n key = some (.sub sub) → K sub

namespace Charted

theorem mono {K' : Namespace → Prop} (h : s.Charted K) (hK : ∀ n, K n → K' n) : s.Charted K' where
  empty n hn := h.empty n fun hknown => hn (hK n hknown)
  entries n key sub hentry := hK sub (h.entries n key sub hentry)

/-- Each namespace holds what it held in one of two charted stores. -/
theorem of_contents {r : Store} (hs : s.Charted K) (ht : t.Charted K)
    (h : ∀ n, r.contentsOf n = s.contentsOf n ∨ r.contentsOf n = t.contentsOf n) :
    r.Charted K where
  empty n hn := by
    rcases h n with heq | heq
    · rw [heq, hs.empty n hn]
    · rw [heq, ht.empty n hn]
  entries n key sub hentry := by
    unfold entryAt? at hentry
    rcases h n with heq | heq
    · rw [heq] at hentry
      exact hs.entries n key sub hentry
    · rw [heq] at hentry
      exact ht.entries n key sub hentry

theorem congr (h : s.Charted K) (hcontents : ∀ n, t.contentsOf n = s.contentsOf n) : t.Charted K :=
  .of_contents h h fun n => .inl (hcontents n)

/-- A namespace with `K` may hold whatever leads only to namespaces with `K`. -/
theorem putContents {c : Contents} (h : s.Charted K) (hn : K n)
    (hc : ∀ (key : String) sub, c.entries[key]? = some (Entry.sub sub) → K sub) :
    (s.putContents n c).Charted K where
  empty m hm := by
    have hne : n ≠ m := fun heq => hm (heq ▸ hn)
    rw [contentsOf_putContents, if_neg hne]
    exact h.empty m hm
  entries m key sub hentry := by
    unfold entryAt? at hentry
    rw [contentsOf_putContents] at hentry
    split at hentry
    · exact hc key sub hentry
    · exact h.entries m key sub hentry

theorem putEntry (h : s.Charted K) (hn : K n) (key : String) {e : Entry}
    (he : ∀ sub, e = .sub sub → K sub) : (s.putEntry n key e).Charted K := by
  refine h.putContents hn fun key' sub hentry => ?_
  rw [Std.TreeMap.getElem?_insert] at hentry
  split at hentry
  · exact he sub (Option.some.inj hentry)
  · exact h.entries n key' sub hentry

theorem putIndex (h : s.Charted K) (hn : K n) (id : DependencyId) :
    (s.putIndex n id).Charted K := by
  unfold Store.putIndex
  split
  · exact h.putContents hn fun key sub hentry => h.entries n key sub hentry
  · exact h

/-- Entries may be taken out of any namespace, as long as that adds nothing to an empty one. -/
theorem removed {c : Contents} (h : s.Charted K) (hempty : s.contentsOf n = {} → c = {})
    (hremoved : s.Removed (s.putContents n c)) : (s.putContents n c).Charted K where
  empty m hm := by
    rw [contentsOf_putContents]
    split
    · next heq => exact hempty (heq ▸ h.empty m hm)
    · exact h.empty m hm
  entries m key sub hentry := h.entries m key sub (hremoved.entries m key _ hentry)

/-- Entries lead only to namespaces with `K`. -/
theorem closed (h : s.Charted K) : s.Closed K := by
  intro m _ sub hholds
  obtain ⟨key, hentry⟩ := mem_entries_iff.1 hholds
  exact h.entries m key sub hentry

/-- A look-up finds only namespaces with `K`. -/
theorem localEntry (h : s.Charted K) {key : String} {sub : Namespace}
    (hfound : s.localEntry n key = some (.sub sub)) : K sub := by
  induction n, key using Store.localEntry.induct (s := s) with
  | case1 n key hspec spec hparse =>
    rw [Store.localEntry, if_pos hspec, hparse] at hfound
    obtain ⟨id, -, heq⟩ := Option.map_eq_some_iff.1 hfound
    cases heq
  | case2 n key hspec e hparse =>
    rw [Store.localEntry, if_pos hspec, hparse] at hfound
    cases hfound
  | case3 n key hplain e he =>
    rw [Store.localEntry_of_direct hplain he] at hfound
    obtain rfl := Option.some.inj hfound
    exact h.entries n _ sub he
  | case4 n key hplain hnone inner rest hsplit ih =>
    rw [Store.localEntry_of_some hplain hnone hsplit] at hfound
    exact ih hfound
  | case5 n key hplain hnone hfree =>
    rw [Store.localEntry_of_none hplain hnone hfree] at hfound
    cases hfound

/-- So an assignment stores only a namespace that it names, or one with `K`. -/
theorem stored? (h : s.Charted K) {value : Value} (hvalue : ∀ m ∈ value.mentions, K m)
    {sub : Namespace} (hstored : s.stored? n value = some sub) : K sub := by
  cases value with
  | sub m =>
    cases hstored
    exact hvalue sub (List.mem_singleton_self sub)
  | key other =>
    have hlookup : ((n.lookup other).answer s).bind Entry.sub? = some sub := hstored
    obtain ⟨e, hfound, he⟩ := Option.bind_eq_some_iff.1 hlookup
    obtain rfl := Entry.sub?_eq_some.1 he
    rw [Namespace.answer_lookup] at hfound
    rcases Option.or_eq_some_iff.1 hfound with hlocal | ⟨-, hfound⟩
    · exact h.localEntry hlocal
    · obtain ⟨m, -, hlocal⟩ := List.exists_of_findSome?_eq_some hfound
      exact h.localEntry hlocal
  | _ => cases hstored

end Charted

end Store

/-! ## §3. Writes. -/

section Writes

variable {K : Namespace → Prop} {n : Namespace} {σ : Session}

theorem tolerates_charted (hn : K n) :
    Tolerates (fun σ => σ.store.Charted K) n (fun _ => True) fun _ => True where
  unlisted _ _ hσ := hσ
  record _ _ := trivial
  put hσ _ _ _ _ := hσ.congr fun _ => rfl
  announce := by
    intro σ hσ id _
    refine hσ.congr fun m => ?_
    unfold Store.contentsOf
    rw [(Store.Reselected.announce σ id).contents]
  own _ _ _ _ := trivial
  add hσ _ _ := ⟨hσ.congr fun _ => rfl, trivial⟩
  entry hσ key _ _ := hσ.putEntry hn key (by simp)
  index hσ id _ := hσ.putIndex hn id

/-- Keys lead only to namespaces with `K`. -/
theorem landing_charted (hn : K n) :
    Tolerates.Landing (fun σ => σ.store.Charted K) n (fun _ => True) fun _ => True :=
  fun _ hσ key => tolerates_charted (Store.landing_mem hσ.closed n key hn)

namespace Namespace

theorem keeps_set_charted (hn : K n) (key : String) {value : Value}
    (hvalue : ∀ m ∈ value.mentions, K m) :
    Keeps (fun σ => σ.store.Charted K) (n.set key value) fun _ => True := by
  intro σ hσ
  have hplace : K (σ.store.landing n key).1 := Store.landing_mem hσ.closed n key hn
  unfold KeepsAt
  rw [run_set]
  refine (tolerates_charted hplace).keepsAt_setHere Dependency.lasting_true.toRobust hσ
    (fun sub hsub key τ hτ => ?_) fun _ _ _ _ => trivial
  refine hτ.putEntry hplace key ?_
  rintro _ ⟨⟩
  exact hσ.stored? hvalue hsub

theorem endsBatch_charted (hσ : σ.store.Charted K) :
    EndsBatch (fun σ => σ.store.Charted K) n σ where
  undo τ hτ := by
    refine .of_contents hσ hτ fun m => ?_
    rw [Store.contentsOf_restoreBelow]
    split
    · exact .inl rfl
    · exact .inr rfl
  waiting _ hτ := hτ
  fire τ id hτ := by
    refine hτ.congr fun m => ?_
    unfold Store.contentsOf
    rw [(Store.Reselected.fire τ id).contents]

theorem keeps_useAll_charted (hn : K n) {pairs : List (String × Value)}
    (hpairs : ∀ pair ∈ pairs, ∀ m ∈ pair.2.mentions, K m) :
    Keeps (fun σ => σ.store.Charted K) (n.useAll pairs) fun _ => True := by
  intro σ hσ
  have hheld : (held σ).store.Charted K := hσ
  have hsets := Keeps.mapM pairs fun pair hpair => keeps_set_charted hn pair.1 (hpairs pair hpair)
  have hbatch := (hsets (held σ) hheld).atomically (endsBatch_charted (n := n) hσ)
  exact ⟨hbatch.1, fun _ _ => trivial⟩

/-- A sub-namespace that is made is not in the registry. -/
theorem keeps_openSub_charted
    (hsingle : ∀ serial name inRegistry, K (.single serial name inRegistry)) (hn : K n)
    (key : String) : Keeps (fun σ => σ.store.Charted K) (n.openSub key) K := by
  unfold openSub
  have hview : Keeps (fun σ : Session => σ.store.Charted K) (Action.view (·.entryAt? n (trim key)))
      fun found => ∀ sub, found = some (.sub sub) → K sub :=
    .view fun σ hσ sub hfound => hσ.entries n _ sub hfound
  refine hview.bind fun found hfound => ?_
  rcases found with _ | ⟨id⟩ | ⟨sub⟩
  · refine .change fun σ hσ => ⟨?_, hsingle _ _ _⟩
    let linked : Store := ({ σ.store with nextNamespace := σ.store.nextNamespace + 1 }).putLink
      (.single σ.store.nextNamespace (n.subName (trim key)) n.inRegistry) (.handle n)
    have hlinked : linked.Charted K := hσ.congr fun _ => rfl
    refine hlinked.putEntry hn (trim key) ?_
    rintro _ ⟨⟩
    exact hsingle _ _ _
  · exact .throw _
  · exact .pure (hfound sub rfl)

end Namespace

end Writes

/-! ## §4. Loads. -/

namespace Session

variable {σ τ : Session} {n : Namespace}

/-- What clients do not know is empty. -/
def Charted (σ : Session) : Prop := σ.store.Charted σ.Knows

/-- More may be known in the meantime. -/
theorem Charted.of_knows (h : τ.store.Charted σ.Knows)
    (hgeneration : σ.store.generation ≤ τ.store.generation)
    (hlisted : σ.store.generation = τ.store.generation → ∀ name ∈ σ.listed, name ∈ τ.listed) :
    τ.Charted :=
  h.mono fun _ hn => hn.mono hgeneration hlisted

/-- The namespace of a table is known once its name has been resolved. -/
theorem keeps_applyTable_charted (name : String) (table : Std.TreeMap String ProfileValue) :
    Keeps (fun σ => σ.store.Sound ∧ σ.Charted) (Registry.applyTable name table) fun _ => True := by
  rintro σ ⟨hsound, hσ⟩
  let n := (Namespace.ofKey (.ofText name)).answer σ.store
  let τ : Session := { σ with listed := (Namespace.ofKey (.ofText name)).listing σ }
  have hτ : τ.Charted :=
    .of_knows (σ := σ) hσ (Nat.le_refl _) fun _ name => Reading.Discreet.listed σ name
  have hn : τ.Knows n := .inr ⟨rfl, Reading.mem_listing_resolve _ σ⟩
  have hvalues : ∀ pair ∈ Registry.assignments table, ∀ m ∈ pair.2.mentions, τ.Knows m := by
    intro pair hpair m hm
    obtain ⟨⟨key, value⟩, -, rfl⟩ := List.mem_map.1 hpair
    cases value <;> exact nomatch hm
  have hset (pair : String × Value) : Oblivious (n.set pair.1 pair.2) :=
    n.oblivious_set pair.1 pair.2
  have hsets : KeepsAt (fun σ => σ.store.Sound ∧ σ.Charted)
      ((Registry.assignments table).mapM fun pair => n.set pair.1 pair.2) (fun _ => True) τ := by
    have hgrows := (growsAt_setAll (σ := τ) hsound n (Registry.assignments table)).1
    have hcharted := (Keeps.mapM (Registry.assignments table) fun pair hpair =>
      Namespace.keeps_set_charted hn pair.1 (hvalues pair hpair)) τ hτ
    exact ⟨⟨hgrows.sound, .of_knows hcharted.1 hgrows.generation fun _ _ =>
      (Oblivious.mapM hset _).listed⟩, fun _ _ => trivial⟩
  unfold Registry.applyTable
  exact .bind_ok (run_read _ σ) (hsets.bind fun _ _ => .pure trivial)

/-- Listeners change neither contents nor the list. -/
theorem Charted.fire (hσ : σ.Charted) (id : DependencyId) : (σ.fire id).Charted := by
  have hreselected := Store.Reselected.fire σ id
  have hstore : (σ.fire id).store.Charted σ.Knows := by
    refine Store.Charted.congr hσ fun m => ?_
    unfold Store.contentsOf
    rw [hreselected.contents]
  refine .of_knows hstore ?_ fun _ name hname => ?_
  · obtain ⟨dependencies, hrest⟩ := hreselected.rest
    rw [hrest]
  · rw [σ.listed_fire id]
    exact hname

theorem charted_load (hsound : σ.store.Sound) (hσ : σ.Charted) (profile : Profile) :
    ((Registry.load profile).run σ).2.Charted := by
  have hgrows := (growsAt_load hsound profile).1
  have hlisted : ∀ name ∈ σ.listed, name ∈ ((Registry.load profile).run σ).2.listed :=
    fun _ => (Registry.oblivious_load profile).listed
  rcases hrun : (Registry.load profile).run σ with ⟨result, τ⟩
  rw [hrun] at hgrows hlisted
  cases result with
  | error e =>
    -- a load that fails leaves all contents as they were
    have hcontents := (Registry.asBefore_of_error hrun).1
    exact .of_knows (σ := σ) (hσ.congr hcontents) hgrows.generation fun _ => hlisted
  | ok _ =>
    unfold Registry.load at hrun
    obtain ⟨mid, hact, rfl⟩ := exists_of_deferring_success hrun
    have hmid := (Keeps.forM profile.artifacts.toList fun table _ =>
      keeps_applyTable_charted table.1 table.2).of_run (σ := held σ) ⟨hsound, hσ⟩
        (run_of_restoring_ok hact)
    split
    · exact hmid.2
    · exact List.foldlRecOn (motive := fun υ : Session => υ.Charted) _ _ hmid.2
        fun υ hυ id _ => hυ.fire id

/-! ## §5. All operations. -/

/-- What is held after an operation is held by namespaces that were known before, if it names only
such. -/
theorem charted_perform (hσ : σ.Charted) {operation : Operation}
    (hmentions : ∀ n ∈ operation.mentions, σ.Knows n)
    (hload : ∀ profile, operation ≠ .load profile) :
    (σ.after operation).store.Charted σ.Knows := by
  let I (τ : Session) : Prop := τ.store.Charted σ.Knows
  have hstart : I σ := hσ
  have hsingle : ∀ serial name inRegistry, σ.Knows (.single serial name inRegistry) :=
    fun _ _ _ => trivial
  have hD := Dependency.lasting_true.toRobust
  -- steps on a dependency by itself are as good as steps in any namespace
  have hanywhere : Tolerates I (.single 0 "" false) (fun _ => True) fun _ => True :=
    tolerates_charted (hsingle _ _ _)
  have hlisted : Unlisted I := fun _ _ hτ => hτ
  have hlink (n : Namespace) (link : ParentLink) (τ : Session) (hτ : I τ) :
      I { τ with store := τ.store.putLink n link } := hτ.congr fun _ => rfl
  have hreply {α : Type} {act : Action α} {Q : α → Prop} {f : α → Reply}
      (hact : KeepsAt I act Q σ) : KeepsAt I (do return f (← act)) (fun _ => True) σ :=
    hact.bind fun _ _ => .pure trivial
  have hdone {act : Action Unit} {Q : Unit → Prop} {reply : Reply} (hact : KeepsAt I act Q σ) :
      KeepsAt I (do act; return reply) (fun _ => True) σ := hact.bind fun _ _ => .pure trivial
  have hland {n : Namespace} (hn : σ.Knows n) :
      Tolerates.Landing I n (fun _ => True) fun _ => True := landing_charted hn
  have hneed {n : Namespace} (hn : σ.Knows n) (key : String) (value : Value) :
      Keeps I (n.needAs key value) fun _ => True :=
    Tolerates.keeps_needAs (hland hn) hD hlisted key fun _ _ => trivial
  cases hasks : operation.asks with
  | true =>
    rw [(alike_after hasks σ).store]
    exact hσ
  | false =>
    suffices hkept : KeepsAt I (perform operation) (fun _ => True) σ from hkept.1
    have hsame (h : I (σ.after operation)) : KeepsAt I (perform operation) (fun _ => True) σ :=
      ⟨h, fun _ _ => trivial⟩
    cases operation with
    -- assignments and what is made of them
    | set n key value =>
      obtain ⟨hn, hvalue⟩ := List.forall_mem_cons.1 hmentions
      exact hreply (Namespace.keeps_set_charted hn key hvalue σ hstart)
    | useSpec n text =>
      have hn := hmentions n List.mem_cons_self
      exact hreply (Namespace.keepsAt_useSpec (hland hn) hD hstart
        (Namespace.endsBatch_charted hstart) (fun _ _ => trivial) fun _ _ _ _ => trivial)
    | useAll n pairs =>
      obtain ⟨hn, hpairs⟩ := List.forall_mem_cons.1 hmentions
      rw [List.forall_mem_flatMap] at hpairs
      exact hreply (Namespace.keeps_useAll_charted hn hpairs σ hstart)
    | openSubUsing n key pairs =>
      obtain ⟨hn, hpairs⟩ := List.forall_mem_cons.1 hmentions
      rw [List.forall_mem_flatMap] at hpairs
      have hopen := Namespace.keeps_openSub_charted hsingle hn key
      have hfilled : Keeps I (n.openSubUsing key pairs) fun _ => True :=
        hopen.bind fun sub hsub => (Namespace.keeps_useAll_charted hsub hpairs).bind
          fun _ _ => .pure trivial
      exact hreply (hfilled σ hstart)
    | useInherited n key =>
      have hn := hmentions n List.mem_cons_self
      exact hreply ((tolerates_charted hn).keeps_useInherited hD key σ hstart)
    | addAlias n key existing =>
      have hn := hmentions n List.mem_cons_self
      exact hreply ((tolerates_charted hn).keepsAt_addAlias (hland hn) hD hstart key
        fun _ _ => trivial)
    | load profile => exact absurd rfl (hload profile)
    -- declarations
    | need n text =>
      have hn := hmentions n List.mem_cons_self
      exact hreply (Tolerates.keeps_need (hland hn) hD (fun _ _ => trivial) σ hstart)
    | needAs n key value =>
      obtain ⟨hn, -⟩ := List.forall_mem_cons.1 hmentions
      exact hreply (hneed hn key value σ hstart)
    | needAll n pairs =>
      obtain ⟨hn, -⟩ := List.forall_mem_cons.1 hmentions
      have hneeds := Keeps.mapM pairs fun pair _ => hneed hn pair.1 pair.2
      exact hreply ((hneeds (held σ) hstart).atomically (Namespace.endsBatch_charted hstart))
    | require n key text requirement =>
      have hn := hmentions n List.mem_cons_self
      have hrequire : Keeps I (n.require key text requirement) fun _ => True :=
        Tolerates.keeps_require (hland hn) hD key fun _ _ _ _ => trivial
      exact hreply (hrequire σ hstart)
    -- steps on one dependency
    | newDependency d => exact hsame (hstart.congr fun _ => rfl)
    | select id version =>
      have hselect : Keeps I (Action.select id version) fun _ => True :=
        hanywhere.keeps_select hD trivial version
      exact hdone (hselect σ hstart)
    | declare id declaration =>
      have hdeclare : Keeps I (Action.declare id declaration) fun _ => True :=
        hanywhere.keeps_declare hD trivial trivial
      exact hdone (hdeclare σ hstart)
    | copy id key => exact hreply (hanywhere.keeps_copy hD id _ σ hstart)
    | listen id listener => exact hsame (hstart.congr fun _ => rfl)
    -- links, entries taken out, the registry and the projects
    | setParent n parent => exact hdone (keeps_setParent hlisted hlink n parent σ hstart)
    | openSub n key =>
      have hn := hmentions n List.mem_cons_self
      exact hreply (Namespace.keeps_openSub_charted hsingle hn key σ hstart)
    | delete n key =>
      refine hsame (Store.Charted.removed hstart (fun hempty => ?_) (.without σ.store n (trim key)))
      rw [hempty]
      simp [Contents.without]
    | clear n => exact hsame (Store.Charted.removed hstart (fun _ => rfl) (.clear σ.store n))
    | attach path => exact hreply (keeps_attach hlisted hlink path σ hstart)
    | detached name => exact hsame (hstart.congr fun _ => rfl)
    | clearRegistry => exact hsame (hstart.congr fun _ => rfl)
    | releaseRegistry => exact hsame (hstart.congr fun _ => rfl)
    | enter project => exact hsame (hstart.congr fun _ => rfl)
    | exit => exact hsame (hstart.congr fun _ => rfl)
    | _ => exact nomatch hasks

/-- An operation that names only what is known leaves everything else empty. -/
theorem charted_after (hsound : σ.store.Sound) (hσ : σ.Charted) {operation : Operation}
    (hpresent : operation.Present σ.store) (hmentions : ∀ n ∈ operation.mentions, σ.Knows n) :
    (σ.after operation).Charted := by
  by_cases hload : ∃ profile, operation = .load profile
  · obtain ⟨profile, rfl⟩ := hload
    have hafter : σ.after (.load profile) = ((Registry.load profile).run σ).2 :=
      run_return (Registry.load profile) (fun _ => Reply.done) σ
    rw [hafter]
    exact charted_load hsound hσ profile
  · have hstore := charted_perform hσ hmentions fun profile heq => hload ⟨profile, heq⟩
    refine .of_knows hstore (growsAt_perform hsound hpresent).1.generation fun hgeneration => ?_
    by_cases hclear : operation = .clearRegistry
    · subst hclear
      exact absurd hgeneration (Nat.ne_of_lt (Nat.lt_succ_self _))
    · intro name hname
      cases hnames : operation.asksNames with
      | false => exact (oblivious_perform hnames hclear).listed hname
      | true =>
        rw [after_of_asksNames hnames]
        exact hname

/-- The sessions that are reached by operations that name only what is known. -/
def ReachedByKnown (followsProjects : Bool) : Session → Prop :=
  ReachedThrough followsProjects fun σ operation => ∀ n ∈ operation.mentions, σ.Knows n

/-- In them, what the registry does not list is empty. -/
theorem charted_reached {followsProjects : Bool} (h : ReachedByKnown followsProjects σ) :
    σ.Charted := by
  induction h with
  | start =>
    refine ⟨fun _ _ => rfl, fun n key sub hentry => ?_⟩
    rw [entryAt?_start] at hentry
    exact nomatch hentry
  | after hreached hpresent hmentions ih =>
    exact charted_after (hreached.reached.sound) ih hpresent hmentions

end Session

end DependencyScope
