/-
  DependencyScope.Proofs.Store.Sound — what holds of every store that a client can make.

  Serial numbers are handed out one after the other.  What a store refers to has been made, so it
  has a serial number below the next one; and the members of a group were made before the group.
  The links that were set lead to namespaces that have been made, and upwards they come to an end.

  Main definitions:
    * `Store.Made` — a namespace has been made;
    * `Store.Ordered` — dependencies refer to what was made before;
    * `Store.Grounded` — links lead upwards to an end;
    * `Store.Sound`, `Store.Grows` — both, and what a sound store becomes.

  Main results:
    * one lemma for each single write, such as `Store.Grows.putEntry`;
    * `Store.Grounded.putLink` — a link that leads to nothing below its namespace may be set;
    * `Store.Grounded.clear` — names may be given new namespaces.
-/
import DependencyScope.Proofs.Namespace.Ancestry
import DependencyScope.Namespace.Entries
import DependencyScope.Session.Batch

namespace DependencyScope.Store

variable {s t : Store} {n m : Namespace} {id : DependencyId} {d : Dependency}

/-! ## §1. Dependencies. -/

/-- The dependencies in the list were made before the one with the number `id`. -/
def Precede (s : Store) (ids : List DependencyId) (id : DependencyId) : Prop :=
  ∀ m ∈ ids, m < id ∧ m < s.nextDependency

/-- Dependencies refer to what was made before them, and namespaces to what was made. -/
structure Ordered (s : Store) : Prop where
  members : ∀ id, s.Precede (s.dependency id).members id
  entries : ∀ n key id, s.ownDependency? n key = some id → id < s.nextDependency
  index : ∀ n unversioned id, s.indexed? n unversioned = some id → id < s.nextDependency

namespace Ordered

theorem putDependency (h : s.Ordered) (hd : s.Precede d.members id) :
    (s.putDependency id d).Ordered where
  members := by
    intro i
    rw [dependency_putDependency]
    split
    · next heq => exact heq ▸ hd
    · exact h.members i
  entries := h.entries
  index := h.index

theorem addDependency (h : s.Ordered) (hd : ∀ m ∈ d.members, m < s.nextDependency) :
    (s.addDependency d).2.Ordered where
  members := by
    intro i m hm
    rw [dependency_addDependency] at hm
    have hprecede : m < i ∧ m < s.nextDependency := by
      split at hm
      · next heq => exact ⟨heq ▸ hd m hm, hd m hm⟩
      · exact h.members i m hm
    exact ⟨hprecede.1, Nat.lt_succ_of_lt hprecede.2⟩
  entries n key id hown := Nat.lt_succ_of_lt (h.entries n key id hown)
  index n unversioned id hid := Nat.lt_succ_of_lt (h.index n unversioned id hid)

/-- Other contents are in order if what they refer to has been made. -/
theorem putContents (h : s.Ordered) {c : Contents}
    (hentries : ∀ (key : String) id, c.entries[key]? = some (.dependency id) → id < s.nextDependency)
    (hindex : ∀ (unversioned : String) id, c.index[unversioned]? = some id → id < s.nextDependency) :
    (s.putContents n c).Ordered where
  members := h.members
  entries := by
    intro m key id hown
    rw [ownDependency?, entryAt?, contentsOf_putContents] at hown
    obtain ⟨e, hentry, he⟩ := Option.bind_eq_some_iff.1 hown
    rw [Entry.dependency?_eq_some.1 he] at hentry
    split at hentry
    · exact hentries key id hentry
    · refine h.entries m key id ?_
      rw [ownDependency?, entryAt?, hentry]
      rfl
  index := by
    intro m unversioned id hid
    rw [indexed?, contentsOf_putContents] at hid
    split at hid
    · exact hindex unversioned id hid
    · exact h.index m unversioned id hid

theorem lt_of_entry (h : s.Ordered) {key : String}
    (hentry : (s.contentsOf n).entries[key]? = some (.dependency id)) : id < s.nextDependency := by
  refine h.entries n key id ?_
  rw [ownDependency?, entryAt?, hentry]
  rfl

theorem putEntry (h : s.Ordered) (key : String) {e : Entry}
    (he : ∀ id, e = .dependency id → id < s.nextDependency) : (s.putEntry n key e).Ordered := by
  refine h.putContents ?_ (h.index n)
  intro key' id hentry
  rw [Std.TreeMap.getElem?_insert] at hentry
  split at hentry
  · exact he id (Option.some.inj hentry)
  · exact h.lt_of_entry hentry

theorem putIndex (h : s.Ordered) (hid : id < s.nextDependency) : (s.putIndex n id).Ordered := by
  unfold Store.putIndex
  split
  · refine h.putContents (fun _ _ => h.lt_of_entry) ?_
    intro unversioned i hi
    rw [Std.TreeMap.getElem?_insert] at hi
    split at hi
    · exact Option.some.inj hi ▸ hid
    · exact h.index n unversioned i hi
  · exact h

/-- The index and the entries of a contents without a key were there before. -/
theorem without (h : s.Ordered) (key : String) :
    (s.putContents n ((s.contentsOf n).without key)).Ordered := by
  unfold Contents.without
  split
  · exact h.putContents (fun _ _ => h.lt_of_entry) (h.index n)
  · refine h.putContents ?_ (h.index n)
    intro key' id hentry
    rw [Std.TreeMap.getElem?_erase] at hentry
    split at hentry
    · exact nomatch hentry
    · exact h.lt_of_entry hentry
  · refine h.putContents ?_ ?_
    · intro key' id hentry
      rw [Std.TreeMap.getElem?_filter'] at hentry
      obtain ⟨hbefore, -⟩ := Option.filter_eq_some_iff.1 hentry
      exact h.lt_of_entry hbefore
    · intro unversioned id hid
      rw [Std.TreeMap.getElem?_filter'] at hid
      obtain ⟨hbefore, -⟩ := Option.filter_eq_some_iff.1 hid
      exact h.index n unversioned id hbefore

end Ordered

/-- The members of what has been made have been made, at any depth. -/
theorem Ordered.lt_of_mem_membersWithin (h : s.Ordered) (depth : Nat) : ∀ {id i : DependencyId},
    id < s.nextDependency → i ∈ s.membersWithin depth id → i < s.nextDependency := by
  induction depth with
  | zero =>
    intro id i hid hi
    obtain rfl := List.mem_singleton.1 hi
    exact hid
  | succ depth ih =>
    intro id i hid hi
    rcases List.mem_cons.1 hi with rfl | hbelow
    · exact hid
    · obtain ⟨m, hm, hi⟩ := List.mem_flatMap.1 hbelow
      exact ih (h.members id m hm).2 hi

/-- What a namespace and those below it hold has been made. -/
theorem Ordered.lt_of_mem_heldIn (h : s.Ordered) (hid : id ∈ s.heldIn n) : id < s.nextDependency := by
  obtain ⟨m, -, hheld⟩ := List.mem_flatMap.1 hid
  obtain ⟨i, hi, hmember⟩ := List.mem_flatMap.1 hheld
  refine h.lt_of_mem_membersWithin i ?_ hmember
  rcases List.mem_append.1 hi with hentry | hindexed
  · obtain ⟨e, he, hdependency⟩ := List.mem_filterMap.1 hentry
    rw [Entry.dependency?_eq_some.1 hdependency] at he
    obtain ⟨key, hkey⟩ := mem_entries_iff.1 he
    exact h.lt_of_entry hkey
  · obtain ⟨unversioned, hunversioned⟩ := mem_values_iff.1 hindexed
    exact h.index m unversioned i hunversioned

/-! ## §2. Namespaces. -/

/-- A namespace has been made: for a name of the registry, in a generation that it has had. -/
def Made (s : Store) : Namespace → Prop
  | .registered _ generation => generation ≤ s.generation
  | .single serial _ _ => serial < s.nextNamespace

theorem Made.mono (h : s.Made n) (hgeneration : s.generation ≤ t.generation)
    (hnext : s.nextNamespace ≤ t.nextNamespace) : t.Made n := by
  cases n with
  | registered name generation => exact Nat.le_trans h hgeneration
  | single serial name inRegistry => exact Nat.lt_of_lt_of_le h hnext

/-- Links were set for namespaces that have been made, lead to such namespaces, and upwards come to
an end. -/
structure Grounded (s : Store) : Prop where
  ascending : s.Ascending
  linked : ∀ n ∈ s.links, s.Made n
  handles : ∀ n parent, s.linkOf n = .handle parent → s.Made parent

/-- The link leads `n` neither to itself nor to a namespace whose chain comes back to `n`. -/
def Clear (s : Store) (n : Namespace) : ParentLink → Prop
  | .implied => False
  | .current => True
  | .named name => ∀ ms, Ascends s.settledUp (.registered name s.generation) ms →
      n ∉ .registered name s.generation :: ms
  | .handle parent => s.Made parent ∧ ∀ ms, Ascends s.settledUp parent ms → n ∉ parent :: ms

/-- Where the registry's namespaces have no links of their own, their chains end by their names. -/
theorem exists_ascends_registered
    (h : ∀ name, s.linkOf (.registered name s.generation) = .implied) :
    ∀ (depth : Nat) (name : String), impliedDepth (.registered name s.generation) ≤ depth →
      ∃ ms, Ascends s.settledUp (.registered name s.generation) ms
  | 0, name, hdepth => by
    refine ⟨[], .top ?_⟩
    -- only the root has no name above it
    have hroot : (Namespace.registered name s.generation).isRoot := by
      by_contra hnot
      unfold impliedDepth nameDepth at hdepth
      rw [if_neg hnot] at hdepth
      omega
    rw [settledUp_eq, if_pos hroot]
  | depth + 1, name, hdepth => by
    cases hup : s.settledUp (.registered name s.generation) with
    | none => exact ⟨[], .top hup⟩
    | some parent =>
      have hstep := hup
      rw [settledUp_eq, h name] at hup
      split at hup
      · exact nomatch hup
      · next hroot =>
        dsimp only at hup
        split at hup
        -- the name above has fewer parts
        · obtain ⟨above, habove, rfl⟩ := Option.map_eq_some_iff.1 hup
          have hlt := impliedDepth_of_impliedParent? habove (by simpa using hroot) s.generation
          obtain ⟨ms, hms⟩ := exists_ascends_registered h depth above (by omega)
          exact ⟨_, .step hstep hms⟩
        · exact nomatch hup

namespace Grounded

theorem settledUp_congr (hlink : t.linkOf n = s.linkOf n) (hattached : t.attached n = s.attached n)
    (hgeneration : t.generation = s.generation) : t.settledUp n = s.settledUp n := by
  rw [settledUp_eq, settledUp_eq, hlink, hattached, hgeneration]

/-- Links and marks are all that matters, and which namespaces links may refer to. -/
theorem congr (h : s.Grounded) (hlinks : t.links = s.links) (hmarks : t.resolving = s.resolving)
    (hgeneration : t.generation = s.generation) (hregistry : t.hasRegistry = s.hasRegistry)
    (hnext : s.nextNamespace ≤ t.nextNamespace) : t.Grounded where
  ascending := by
    refine ⟨hmarks.trans h.ascending.unmarked, fun n => ?_⟩
    obtain ⟨ms, hms⟩ := h.ascending.ends n
    refine ⟨ms, hms.congr fun x _ => settledUp_congr ?_ ?_ hgeneration⟩
    · rw [linkOf, linkOf, hlinks]
    · rw [attached, attached, hregistry]
  linked := by
    rw [hlinks]
    exact fun n hn => (h.linked n hn).mono (Nat.le_of_eq hgeneration.symm) hnext
  handles := by
    unfold linkOf
    rw [hlinks]
    exact fun n parent hlink => (h.handles n parent hlink).mono (Nat.le_of_eq hgeneration.symm) hnext

/-- From a namespace that has been made, the chain goes through such namespaces. -/
theorem made_of_ascends (h : s.Grounded) {ms : List Namespace} (hn : s.Made n)
    (hms : Ascends s.settledUp n ms) : ∀ m ∈ ms, s.Made m := by
  refine hms.forall_mem hn fun x y _ hup => ?_
  rcases s.settledUp_cases x with ⟨parent, hlink⟩ | hnone | ⟨-, name, hname⟩
  · rw [settledUp_of_handle hlink] at hup
    split at hup
    · exact nomatch hup
    · obtain rfl := Option.some.inj hup
      exact h.handles x parent hlink
  · exact nomatch hnone.symm.trans hup
  · obtain rfl := Option.some.inj (hname.symm.trans hup)
    exact Nat.le_refl _

/-- The parent to which a clear link leads is not below the namespace. -/
theorem not_mem_of_clear {link : ParentLink} (hlink : s.Clear n link) {parent : Namespace}
    (hup : (s.putLink n link).settledUp n = some parent) {ms : List Namespace}
    (hms : Ascends s.settledUp parent ms) : n ∉ parent :: ms := by
  rw [settledUp_eq, linkOf_putLink, if_pos rfl] at hup
  cases link with
  | implied => exact hlink.elim
  | current => simp at hup
  | named name =>
    split at hup
    · exact nomatch hup
    · dsimp only at hup
      split at hup
      · obtain rfl := Option.some.inj hup
        exact hlink ms hms
      · exact nomatch hup
  | handle candidate =>
    split at hup
    · exact nomatch hup
    · obtain rfl := Option.some.inj hup
      exact hlink.2 ms hms

/-- A link may be set if it leads to nothing below its namespace. -/
theorem putLink (h : s.Grounded) {link : ParentLink} (hn : s.Made n) (hlink : s.Clear n link) :
    (s.putLink n link).Grounded where
  ascending := by
    have hother : ∀ x, x ≠ n → (s.putLink n link).settledUp x = s.settledUp x := by
      intro x hx
      have hlink : (s.putLink n link).linkOf x = s.linkOf x := by
        rw [linkOf_putLink, if_neg fun heq => hx heq.symm]
      exact settledUp_congr hlink rfl rfl
    -- the new parent, if there is one, has a chain that does not go through `n`
    have hparent : ∀ parent ms, Ascends s.settledUp parent ms → n ∉ parent :: ms →
        Ascends (s.putLink n link).settledUp parent ms := by
      intro parent ms hms hnot
      refine hms.congr fun x hx => hother x ?_
      rintro rfl
      exact hnot hx
    have hends : ∃ ks, Ascends (s.putLink n link).settledUp n ks := by
      cases hup : (s.putLink n link).settledUp n with
      | none => exact ⟨[], .top hup⟩
      | some parent =>
        obtain ⟨ms, hms⟩ := h.ascending.ends parent
        exact ⟨parent :: ms, .step hup (hparent parent ms hms (not_mem_of_clear hlink hup hms))⟩
    refine ⟨h.ascending.unmarked, fun x => ?_⟩
    obtain ⟨ms, hms⟩ := h.ascending.ends x
    refine hms.exists_of_rewired fun y => ?_
    by_cases hy : y = n
    · exact .inr (hy ▸ hends)
    · exact .inl (hother y hy)
  linked := by
    intro x hx
    rcases Std.TreeMap.mem_insert.1 hx with heq | hbefore
    · obtain rfl := Std.LawfulEqOrd.eq_of_compare heq
      exact hn
    · exact h.linked x hbefore
  handles := by
    intro x parent hx
    rw [linkOf_putLink] at hx
    split at hx
    · subst hx
      exact hlink.1
    · exact h.handles x parent hx

/-- New namespaces may be put in the place of all that the registry holds. -/
theorem clear (h : s.Grounded) : { s with generation := s.generation + 1 }.Grounded where
  ascending := by
    let t : Store := { s with generation := s.generation + 1 }
    -- the new namespaces have no links yet
    have hnew : ∀ name, ∃ ms, Ascends t.settledUp (.registered name t.generation) ms := by
      refine fun name => exists_ascends_registered (s := t) (fun name => ?_) _ name (Nat.le_refl _)
      refine Std.TreeMap.getD_eq_fallback fun hlinked => ?_
      exact Nat.not_succ_le_self _ (h.linked _ hlinked)
    refine ⟨h.ascending.unmarked, fun n => ?_⟩
    obtain ⟨ms, hms⟩ := h.ascending.ends n
    refine hms.exists_of_rewired fun x => ?_
    rcases t.settledUp_cases x with ⟨parent, hlink⟩ | hnone | ⟨-, name, hname⟩
    · have hlink' : s.linkOf x = .handle parent := hlink
      exact .inl ((settledUp_of_handle hlink).trans (settledUp_of_handle hlink').symm)
    · exact .inr ⟨[], .top hnone⟩
    · obtain ⟨ks, hks⟩ := hnew name
      exact .inr ⟨_, .step hname hks⟩
  linked n hn := (h.linked n hn).mono (Nat.le_succ _) (Nat.le_refl _)
  handles n parent hlink := (h.handles n parent hlink).mono (Nat.le_succ _) (Nat.le_refl _)

/-- Without the registry, the chains end where they would go on by a name. -/
theorem release (h : s.Grounded) : { s with hasRegistry := false }.Grounded where
  ascending := by
    let t : Store := { s with hasRegistry := false }
    refine ⟨h.ascending.unmarked, fun n => ?_⟩
    obtain ⟨ms, hms⟩ := h.ascending.ends n
    refine hms.exists_of_rewired fun x => ?_
    rcases t.settledUp_cases x with ⟨parent, hlink⟩ | hnone | ⟨hattached, -⟩
    · have hlink' : s.linkOf x = .handle parent := hlink
      exact .inl ((settledUp_of_handle hlink).trans (settledUp_of_handle hlink').symm)
    · exact .inr ⟨[], .top hnone⟩
    · exact nomatch hattached
  linked := h.linked
  handles := h.handles

end Grounded

/-! ## §3. Sound stores. -/

/-- What holds of every store that a client can make. -/
structure Sound (s : Store) : Prop where
  ordered : s.Ordered
  grounded : s.Grounded

/-- At the beginning there is nothing. -/
theorem sound_empty (followsProjects : Bool) :
    ({ followsProjects := followsProjects } : Store).Sound where
  ordered := {
    members := fun _ _ hm => nomatch hm
    entries := fun _ _ _ hown => nomatch hown
    index := fun _ _ _ hid => nomatch hid }
  grounded := {
    ascending := by
      refine ⟨rfl, fun n => ?_⟩
      let s : Store := { followsProjects := followsProjects }
      rcases s.settledUp_cases n with ⟨parent, hlink⟩ | hnone | ⟨-, name, hname⟩
      · exact nomatch hlink
      · exact ⟨[], .top hnone⟩
      · obtain ⟨ms, hms⟩ := exists_ascends_registered (s := s) (fun _ => rfl) _ name (Nat.le_refl _)
        exact ⟨_, .step hname hms⟩
    linked := by simp
    handles := fun _ _ hlink => nomatch hlink }

/-- What becomes of a store: it is sound, what has been made stays made, and dependencies keep their
members. -/
structure Grows (s t : Store) : Prop where
  sound : t.Sound
  dependencies : s.nextDependency ≤ t.nextDependency
  sameMembers : ∀ id < s.nextDependency, (t.dependency id).members = (s.dependency id).members
  namespaces : s.nextNamespace ≤ t.nextNamespace
  generation : s.generation ≤ t.generation

namespace Grows

variable {r : Store}

theorem refl (h : s.Sound) : s.Grows s where
  sound := h
  dependencies := Nat.le_refl _
  sameMembers _ _ := rfl
  namespaces := Nat.le_refl _
  generation := Nat.le_refl _

theorem trans (h : r.Grows s) (h' : s.Grows t) : r.Grows t where
  sound := h'.sound
  dependencies := Nat.le_trans h.dependencies h'.dependencies
  sameMembers id hid :=
    (h'.sameMembers id (Nat.lt_of_lt_of_le hid h.dependencies)).trans (h.sameMembers id hid)
  namespaces := Nat.le_trans h.namespaces h'.namespaces
  generation := Nat.le_trans h.generation h'.generation

theorem made (h : s.Grows t) (hn : s.Made n) : t.Made n := hn.mono h.generation h.namespaces

theorem lt (h : s.Grows t) (hid : id < s.nextDependency) : id < t.nextDependency :=
  Nat.lt_of_lt_of_le hid h.dependencies

/-- Writes that leave namespaces alone as such keep the links. -/
theorem of_ordered (h : s.Sound) (ht : t.Ordered) (hlinks : t.links = s.links)
    (hmarks : t.resolving = s.resolving) (hgeneration : t.generation = s.generation)
    (hregistry : t.hasRegistry = s.hasRegistry) (hnamespaces : s.nextNamespace ≤ t.nextNamespace)
    (hdependencies : s.nextDependency ≤ t.nextDependency)
    (hmembers : ∀ id < s.nextDependency, (t.dependency id).members = (s.dependency id).members) :
    s.Grows t where
  sound := ⟨ht, h.grounded.congr hlinks hmarks hgeneration hregistry hnamespaces⟩
  dependencies := hdependencies
  sameMembers := hmembers
  namespaces := hnamespaces
  generation := Nat.le_of_eq hgeneration.symm

/-- A record may be replaced by one with the same members. -/
theorem putDependency (h : s.Sound) (hd : d.members = (s.dependency id).members) :
    s.Grows (s.putDependency id d) := by
  have hordered : (s.putDependency id d).Ordered :=
    h.ordered.putDependency (hd ▸ h.ordered.members id)
  refine .of_ordered h hordered rfl rfl rfl rfl (Nat.le_refl _) (Nat.le_refl _) fun i _ => ?_
  rw [dependency_putDependency]
  split
  · next heq => exact heq ▸ hd
  · rfl

theorem addDependency (h : s.Sound) (hd : ∀ m ∈ d.members, m < s.nextDependency) :
    s.Grows (s.addDependency d).2 ∧
      (s.addDependency d).1 < (s.addDependency d).2.nextDependency := by
  have hordered := h.ordered.addDependency hd
  refine ⟨.of_ordered h hordered rfl rfl rfl rfl (Nat.le_refl _) (Nat.le_succ _) fun i hi => ?_,
    Nat.lt_succ_self _⟩
  rw [dependency_addDependency, if_neg (Nat.ne_of_gt hi)]

theorem putEntry (h : s.Sound) (n : Namespace) (key : String) {e : Entry}
    (he : ∀ id, e = .dependency id → id < s.nextDependency) : s.Grows (s.putEntry n key e) :=
  .of_ordered h (h.ordered.putEntry key he) rfl rfl rfl rfl (Nat.le_refl _) (Nat.le_refl _)
    fun _ _ => rfl

theorem putIndex (h : s.Sound) (n : Namespace) (hid : id < s.nextDependency) :
    s.Grows (s.putIndex n id) := by
  have hordered := h.ordered.putIndex (n := n) hid
  unfold Store.putIndex at hordered ⊢
  split
  · next unversioned hunversioned =>
    rw [hunversioned] at hordered
    exact .of_ordered h hordered rfl rfl rfl rfl (Nat.le_refl _) (Nat.le_refl _) fun _ _ => rfl
  · exact .refl h

theorem without (h : s.Sound) (n : Namespace) (key : String) :
    s.Grows (s.putContents n ((s.contentsOf n).without key)) :=
  .of_ordered h (h.ordered.without key) rfl rfl rfl rfl (Nat.le_refl _) (Nat.le_refl _) fun _ _ => rfl

/-- A link that leads to nothing below its namespace may be set. -/
theorem putLink (h : s.Sound) {link : ParentLink} (hn : s.Made n) (hlink : s.Clear n link) :
    s.Grows (s.putLink n link) where
  sound := ⟨⟨h.ordered.members, h.ordered.entries, h.ordered.index⟩, h.grounded.putLink hn hlink⟩
  dependencies := Nat.le_refl _
  sameMembers _ _ := rfl
  namespaces := Nat.le_refl _
  generation := Nat.le_refl _

/-- The next namespace is made by itself. -/
theorem nextNamespace (h : s.Sound) : s.Grows { s with nextNamespace := s.nextNamespace + 1 } :=
  .of_ordered h ⟨h.ordered.members, h.ordered.entries, h.ordered.index⟩ rfl rfl rfl rfl (Nat.le_succ _)
    (Nat.le_refl _) fun _ _ => rfl

/-- A sub-namespace is new, so its parent is not below it. -/
theorem makeSub (h : s.Sound) (hn : s.Made n) (key : String) : s.Grows (n.makeSub key s).2 := by
  have hnext := nextNamespace h
  let sub := Namespace.single s.nextNamespace (n.subName key) n.inRegistry
  have hsub : ¬s.Made sub := Nat.lt_irrefl s.nextNamespace
  have hclear : { s with nextNamespace := s.nextNamespace + 1 }.Clear sub (.handle n) := by
    refine ⟨hnext.made hn, fun ms hms hmem => hsub ?_⟩
    have hbefore : Ascends s.settledUp n ms := by
      refine hms.congr fun x _ => ?_
      exact Grounded.settledUp_congr rfl rfl rfl
    exact List.forall_mem_cons.2 ⟨hn, h.grounded.made_of_ascends hn hbefore⟩ sub hmem
  have hlink := hnext.trans (.putLink hnext.sound (Nat.lt_succ_self _) hclear)
  exact hlink.trans (.putEntry hlink.sound n key (by simp))

/-- Names may be given new namespaces. -/
theorem clear (h : s.Sound) : s.Grows { s with generation := s.generation + 1 } where
  sound := ⟨⟨h.ordered.members, h.ordered.entries, h.ordered.index⟩, h.grounded.clear⟩
  dependencies := Nat.le_refl _
  sameMembers _ _ := rfl
  namespaces := Nat.le_refl _
  generation := Nat.le_succ _

/-- The registry may be given up. -/
theorem release (h : s.Sound) : s.Grows { s with hasRegistry := false } where
  sound := ⟨⟨h.ordered.members, h.ordered.entries, h.ordered.index⟩, h.grounded.release⟩
  dependencies := Nat.le_refl _
  sameMembers _ _ := rfl
  namespaces := Nat.le_refl _
  generation := Nat.le_refl _

/-- Projects are entered and left. -/
theorem putProjects (h : s.Sound) (projects : List String) :
    s.Grows { s with projects := projects } :=
  .of_ordered h ⟨h.ordered.members, h.ordered.entries, h.ordered.index⟩ rfl rfl rfl rfl (Nat.le_refl _)
    (Nat.le_refl _) fun _ _ => rfl

theorem clearContents (h : s.Sound) (n : Namespace) : s.Grows (s.putContents n {}) :=
  .of_ordered h (h.ordered.putContents (fun _ _ hentry => nomatch hentry) fun _ _ hid => nomatch hid)
    rfl rfl rfl rfl (Nat.le_refl _) (Nat.le_refl _) fun _ _ => rfl

/-- What a namespace held in an earlier store may be put back. -/
theorem putBack (h : r.Grows s) (hr : r.Sound) (n : Namespace) :
    s.Grows (s.putContents n (r.contentsOf n)) := by
  refine .of_ordered h.sound (h.sound.ordered.putContents ?_ ?_) rfl rfl rfl rfl (Nat.le_refl _)
    (Nat.le_refl _) fun _ _ => rfl
  · exact fun key id hentry => h.lt (hr.ordered.lt_of_entry hentry)
  · exact fun unversioned id hid => h.lt (hr.ordered.index n unversioned id hid)

/-- So may dependencies that had been made then. -/
theorem restore (h : r.Grows s) (hr : r.Sound) (ns : List Namespace) {ids : List DependencyId}
    (hids : ∀ id ∈ ids, id < r.nextDependency) : s.Grows (s.restore r ns ids) := by
  unfold Store.restore
  have hcontents : s.Grows (ns.foldl (fun s n => s.putContents n (r.contentsOf n)) s) :=
    List.foldlRecOn (motive := s.Grows) ns _ (.refl h.sound) fun t ht n _ =>
      ht.trans ((h.trans ht).putBack hr n)
  refine List.foldlRecOn (motive := s.Grows) ids _ hcontents fun t ht id hid => ?_
  exact ht.trans (.putDependency ht.sound ((h.trans ht).sameMembers id (hids id hid)).symm)

/-- What is put back below a namespace had been made then. -/
theorem restoreBelow (h : r.Grows s) (hr : r.Sound) (roots : List Namespace) :
    s.Grows (s.restoreBelow r roots) := by
  refine h.restore hr _ fun id hid => ?_
  obtain ⟨n, -, hheld⟩ := List.mem_flatMap.1 hid
  exact hr.ordered.lt_of_mem_heldIn hheld

end Grows

end DependencyScope.Store
