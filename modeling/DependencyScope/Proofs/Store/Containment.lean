/-
  DependencyScope.Proofs.Store.Containment — the walk through sub-namespaces finds all there are.

  Namespaces hold each other by reference, in any shape, cycles included.  The walk does not enter a
  namespace twice, and it goes only so deep as the number of namespaces that were ever written.
  That is deep enough: the namespaces on a path of the walk are different ones, and each of them but
  the last holds something.

  Main definitions:
    * `Store.Holds`, `Store.Contains` — one entry, and any number of them;
    * `Store.Walked` — what a part of the walk has added.

  Main results:
    * `Store.mem_contained` — what is found is held by a contained namespace;
    * `Store.mem_subtree_iff` — a namespace and those below it are the ones that it contains;
    * `Store.localEntry_of_direct`, `_of_some`, `_of_none` — the steps of a look-up by a name;
    * `Store.exists_of_localEntry` — what a namespace finds under a key is held there.
-/
import DependencyScope.Namespace.Containment
import DependencyScope.Namespace.Lookup
import Mathlib.Data.List.Perm.Subperm
import Mathlib.Logic.Relation

namespace DependencyScope.Store

open DependencyScope.Text

variable {s : Store} {n m : Namespace}

/-! ## §1. Containment. -/

/-- An entry of `n` is the namespace `m`. -/
def Holds (s : Store) (n m : Namespace) : Prop := .sub m ∈ s.entries n

/-- `m` is `n` or is reached from it through entries. -/
def Contains (s : Store) : Namespace → Namespace → Prop := Relation.ReflTransGen s.Holds

theorem Contains.refl (s : Store) (n : Namespace) : s.Contains n n := Relation.ReflTransGen.refl

theorem Contains.tail {k : Namespace} (h : s.Contains n m) (hm : s.Holds m k) : s.Contains n k :=
  Relation.ReflTransGen.tail h hm

theorem Contains.head {k : Namespace} (hn : s.Holds n m) (h : s.Contains m k) : s.Contains n k :=
  Relation.ReflTransGen.head hn h

theorem values_eq_map {α β : Type} {cmp : α → α → Ordering} (t : Std.TreeMap α β cmp) :
    t.values = t.toList.map Prod.snd := by
  show t.foldr (fun _ b bs => b :: bs) [] = _
  rw [Std.TreeMap.foldr_eq_foldr_toList]
  induction t.toList with
  | nil => rfl
  | cons p ps ih => rw [List.foldr_cons, List.map_cons, ih]

/-- The values of a table are what its keys are mapped to. -/
theorem mem_values_iff {α β : Type} {cmp : α → α → Ordering} [Std.TransCmp cmp]
    [Std.LawfulEqCmp cmp] {t : Std.TreeMap α β cmp} {b : β} :
    b ∈ t.values ↔ ∃ a : α, t[a]? = some b := by
  rw [values_eq_map, List.mem_map]
  constructor
  · rintro ⟨⟨a, b'⟩, hmem, rfl⟩
    exact ⟨a, Std.TreeMap.mem_toList_iff_getElem?_eq_some.1 hmem⟩
  · rintro ⟨a, ha⟩
    exact ⟨(a, b), Std.TreeMap.mem_toList_iff_getElem?_eq_some.2 ha, rfl⟩

theorem mem_entries_iff {e : Entry} : e ∈ s.entries n ↔ ∃ key, s.entryAt? n key = some e :=
  mem_values_iff

theorem mem_keys_iff {key : String} : key ∈ s.keys n ↔ ∃ e, s.entryAt? n key = some e := by
  unfold keys entryAt?
  rw [Std.TreeMap.mem_keys, ← Std.TreeMap.isSome_getElem?_iff_mem, Option.isSome_iff_exists]

theorem mem_filterMap_sub? {es : List Entry} : m ∈ es.filterMap Entry.sub? ↔ .sub m ∈ es := by
  simp [Entry.sub?_eq_some]

/-- A namespace that holds something was written. -/
theorem mem_keys_of_mem_entries {e : Entry} (h : e ∈ s.entries n) : n ∈ s.contents.keys := by
  obtain ⟨key, hkey⟩ := mem_entries_iff.1 h
  rw [Std.TreeMap.mem_keys]
  by_cases hn : n ∈ s.contents
  · exact hn
  · rw [entryAt?, contentsOf, Std.TreeMap.getD_eq_fallback hn] at hkey
    simp at hkey

/-! ## §2. Parts of the walk. -/

/-- A part of the walk below `n` that goes through the entries `es` takes what was seen and found
before to what is seen and found after it, and adds `new`. -/
structure Walked (s : Store) (n : Namespace) (es : List Entry)
    (before after : List Namespace × List Entry) (new : List Entry) : Prop where
  after_eq : after = ((new.filterMap Entry.sub?).reverse ++ before.1, before.2 ++ new)
  /-- All that is new is held by a namespace which `n` contains. -/
  sound : ∀ e ∈ new, ∃ x, s.Contains n x ∧ e ∈ s.entries x
  /-- Each of the entries is new, or a namespace that was seen. -/
  here : ∀ e ∈ es, e ∈ new ∨ ∃ m ∈ before.1, e = .sub m
  /-- So is each entry of a namespace that is new. -/
  below : ∀ x, .sub x ∈ new → ∀ e ∈ s.entries x, e ∈ new ∨ ∃ m ∈ before.1, e = .sub m

namespace Walked

variable {before between after : List Namespace × List Entry}

theorem nil : Walked s n [] before before [] where
  after_eq := by simp
  sound := by simp
  here := by simp
  below := by simp

theorem mem_seen {es new : List Entry} (h : Walked s n es before after new) :
    m ∈ after.1 ↔ m ∈ before.1 ∨ .sub m ∈ new := by
  rw [h.after_eq]
  simp only [List.mem_append, List.mem_reverse, mem_filterMap_sub?]
  exact or_comm

/-- What is new later, or seen by then, is new or was seen from the start. -/
theorem seen_or_new {es new more : List Entry} {e : Entry} (h : Walked s n es before between new)
    (he : e ∈ more ∨ ∃ m ∈ between.1, e = .sub m) :
    e ∈ new ++ more ∨ ∃ m ∈ before.1, e = .sub m := by
  rcases he with hmore | ⟨m, hm, rfl⟩
  · exact .inl (List.mem_append_right new hmore)
  · rcases h.mem_seen.1 hm with hseen | hnew
    · exact .inr ⟨m, hseen, rfl⟩
    · exact .inl (List.mem_append_left more hnew)

/-- Parts of the walk follow each other. -/
theorem append {es fs new more : List Entry} (h : Walked s n es before between new)
    (h' : Walked s n fs between after more) : Walked s n (es ++ fs) before after (new ++ more) where
  after_eq := by
    rw [h'.after_eq, h.after_eq]
    simp
  sound := by
    intro e he
    rcases List.mem_append.1 he with hnew | hmore
    · exact h.sound e hnew
    · exact h'.sound e hmore
  here := by
    intro e he
    rcases List.mem_append.1 he with hes | hfs
    · rcases h.here e hes with hnew | hseen
      · exact .inl (List.mem_append_left more hnew)
      · exact .inr hseen
    · exact h.seen_or_new (h'.here e hfs)
  below := by
    intro x hx e he
    rcases List.mem_append.1 hx with hnew | hmore
    · rcases h.below x hnew e he with hold | hseen
      · exact .inl (List.mem_append_left more hold)
      · exact .inr hseen
    · exact h.seen_or_new (h'.below x hmore e he)

/-- A dependency is found where it stands. -/
theorem dependency {id : DependencyId} (h : .dependency id ∈ s.entries n) :
    Walked s n [.dependency id] before (before.1, before.2 ++ [.dependency id])
      [.dependency id] where
  after_eq := by simp [Entry.sub?]
  sound := by
    intro e he
    obtain rfl := List.mem_singleton.1 he
    exact ⟨n, .refl s n, h⟩
  here := fun e he => .inl he
  below := by
    intro x hx
    simp at hx

/-- A namespace that was seen is passed by. -/
theorem seen (h : m ∈ before.1) : Walked s n [.sub m] before before [] where
  after_eq := by simp
  sound := by simp
  here := by
    intro e he
    obtain rfl := List.mem_singleton.1 he
    exact .inr ⟨m, h, rfl⟩
  below := by simp

/-- A namespace that was not seen is found, and with it what the walk below it adds. -/
theorem sub {new : List Entry} (hm : s.Holds n m)
    (h : Walked s m (s.entries m) (m :: before.1, before.2 ++ [.sub m]) after new) :
    Walked s n [.sub m] before after (.sub m :: new) := by
  -- what was seen before the walk below `m` is `m` or was seen before
  have hstep : ∀ e : Entry, (e ∈ new ∨ ∃ k ∈ m :: before.1, e = .sub k) →
      e ∈ Entry.sub m :: new ∨ ∃ k ∈ before.1, e = .sub k := by
    rintro e (hnew | ⟨k, hk, rfl⟩)
    · exact .inl (List.mem_cons_of_mem _ hnew)
    · rcases List.mem_cons.1 hk with rfl | hseen
      · exact .inl List.mem_cons_self
      · exact .inr ⟨k, hseen, rfl⟩
  constructor
  · rw [h.after_eq]
    simp [Entry.sub?]
  · intro e he
    rcases List.mem_cons.1 he with rfl | hnew
    · exact ⟨n, .refl s n, hm⟩
    · obtain ⟨x, hx, hmem⟩ := h.sound e hnew
      exact ⟨x, .head hm hx, hmem⟩
  · intro e he
    obtain rfl := List.mem_singleton.1 he
    exact .inl List.mem_cons_self
  · intro x hx e he
    rcases List.mem_cons.1 hx with heq | hnew
    · cases heq
      exact hstep e (h.here e he)
    · exact hstep e (h.below x hnew e he)

end Walked

/-! ## §3. The whole walk. -/

/-- The namespaces on the way to `n` are different ones that were seen and hold something. -/
structure Path (s : Store) (path : List Namespace) (n : Namespace) (seen : List Namespace) :
    Prop where
  nodup : (n :: path).Nodup
  holding : ∀ x ∈ path, x ∈ s.contents.keys
  seen_of_mem : ∀ x ∈ n :: path, x ∈ seen

theorem Path.length_le {path seen : List Namespace} (h : Path s path n seen) :
    path.length ≤ s.contents.size := by
  have hnodup : path.Nodup := (List.nodup_cons.1 h.nodup).2
  rw [← Std.TreeMap.length_keys]
  exact hnodup.length_le_of_subset h.holding

/-- The way goes on to a namespace that was not seen. -/
theorem Path.cons {path seen : List Namespace} (h : Path s path n seen) (hm : s.Holds n m)
    (hnew : m ∉ seen) : Path s (n :: path) m (m :: seen) where
  nodup := List.nodup_cons.2 ⟨fun hmem => hnew (h.seen_of_mem m hmem), h.nodup⟩
  holding := by
    intro x hx
    rcases List.mem_cons.1 hx with rfl | hpath
    · exact mem_keys_of_mem_entries hm
    · exact h.holding x hpath
  seen_of_mem := by
    intro x hx
    rcases List.mem_cons.1 hx with rfl | hpath
    · exact List.mem_cons_self
    · exact List.mem_cons_of_mem m (h.seen_of_mem x hpath)

/-- What the walk does at one entry. -/
def visit (s : Store) (bound : Nat) (found : List Namespace × List Entry) (e : Entry) :
    List Namespace × List Entry :=
  match e with
  | .dependency _ => (found.1, found.2 ++ [e])
  | .sub m =>
    if found.1.contains m then (found.1, found.2)
    else s.gather bound m (m :: found.1, found.2 ++ [e])

/-- The walk below a namespace goes through all its entries. -/
theorem exists_walked (s : Store) (bound : Nat) : ∀ (n : Namespace) (path : List Namespace)
    (before : List Namespace × List Entry), Path s path n before.1 →
    s.contents.size < path.length + bound →
    ∃ new, Walked s n (s.entries n) before (s.gather bound n before) new := by
  induction bound with
  | zero =>
    intro n path before hpath hbound
    have hlength := hpath.length_le
    omega
  | succ bound ih =>
    intro n path before hpath hbound
    have hvisit : ∀ e ∈ s.entries n, ∀ before : List Namespace × List Entry,
        Path s path n before.1 → ∃ new, Walked s n [e] before (s.visit bound before e) new := by
      intro e he before hpath
      unfold visit
      cases e with
      | dependency id => exact ⟨_, .dependency he⟩
      | sub m =>
        by_cases hseen : m ∈ before.1
        · exact ⟨[], by simpa [hseen] using Walked.seen hseen⟩
        · obtain ⟨new, hnew⟩ := ih m (n :: path) (m :: before.1, before.2 ++ [.sub m])
            (hpath.cons he hseen) (by simp only [List.length_cons]; omega)
          exact ⟨_, by simpa [hseen] using Walked.sub he hnew⟩
    -- the entries are gone through one after the other, and what was seen stays seen
    have hentries : ∀ (es : List Entry), (∀ e ∈ es, e ∈ s.entries n) →
        ∀ before : List Namespace × List Entry, Path s path n before.1 →
        ∃ new, Walked s n es before (es.foldl (s.visit bound) before) new := by
      intro es
      induction es with
      | nil => exact fun _ before _ => ⟨[], .nil⟩
      | cons e es ihes =>
        intro hes before hpath
        obtain ⟨new, hwalked⟩ := hvisit e (hes e List.mem_cons_self) before hpath
        have hpath' : Path s path n (s.visit bound before e).1 :=
          { hpath with seen_of_mem := fun x hx => hwalked.mem_seen.2 (.inl (hpath.seen_of_mem x hx)) }
        obtain ⟨more, hmore⟩ :=
          ihes (fun e he => hes e (List.mem_cons_of_mem _ he)) (s.visit bound before e) hpath'
        exact ⟨new ++ more, hwalked.append hmore⟩
    exact hentries (s.entries n) (fun _ he => he) before hpath

/-- The walk from `n` goes through everything below it. -/
theorem walked_contained (s : Store) (n : Namespace) :
    ∃ seen, Walked s n (s.entries n) ([n], []) (seen, s.contained n) (s.contained n) := by
  have hpath : Path s [] n [n] := ⟨by simp, by simp, by simp⟩
  obtain ⟨new, hnew⟩ := exists_walked s (s.contents.size + 1) n [] ([n], []) hpath (by simp)
  have hfound : s.contained n = new := by
    have heq := congrArg Prod.snd hnew.after_eq
    simpa [contained] using heq
  refine ⟨(s.gather (s.contents.size + 1) n ([n], [])).1, ?_⟩
  rw [hfound]
  have hpair : s.gather (s.contents.size + 1) n ([n], [])
      = ((s.gather (s.contents.size + 1) n ([n], [])).1, new) := by
    rw [← hfound]
    rfl
  rw [← hpair]
  exact hnew

/-! ## §4. What the walk finds. -/

/-- What is found is held by a namespace that `n` contains. -/
theorem exists_of_mem_contained {e : Entry} (h : e ∈ s.contained n) :
    ∃ x, s.Contains n x ∧ e ∈ s.entries x := by
  obtain ⟨seen, hwalked⟩ := s.walked_contained n
  exact hwalked.sound e h

/-- What a contained namespace holds is found, unless it is the namespace where the walk began. -/
theorem mem_contained_of_contains {x : Namespace} (hx : s.Contains n x) :
    (x = n ∨ .sub x ∈ s.contained n) ∧
      ∀ e ∈ s.entries x, e ∈ s.contained n ∨ e = .sub n := by
  obtain ⟨seen, hwalked⟩ := s.walked_contained n
  have hseen : ∀ e : Entry, (e ∈ s.contained n ∨ ∃ m ∈ [n], e = .sub m) →
      e ∈ s.contained n ∨ e = .sub n := by
    rintro e (hfound | ⟨m, hm, rfl⟩)
    · exact .inl hfound
    · obtain rfl := List.mem_singleton.1 hm
      exact .inr rfl
  have hentries : ∀ x, (x = n ∨ .sub x ∈ s.contained n) →
      ∀ e ∈ s.entries x, e ∈ s.contained n ∨ e = .sub n := by
    rintro x (rfl | hfound) e he
    · exact hseen e (hwalked.here e he)
    · exact hseen e (hwalked.below x hfound e he)
  induction hx with
  | refl => exact ⟨.inl rfl, hentries n (.inl rfl)⟩
  | @tail y x _ hyx ih =>
    have hfound : x = n ∨ .sub x ∈ s.contained n := by
      rcases ih.2 _ hyx with hfound | heq
      · exact .inr hfound
      · cases heq
        exact .inl rfl
    exact ⟨hfound, hentries x hfound⟩

/-- A namespace and those below it are the ones that it contains. -/
theorem mem_subtree_iff : m ∈ s.subtree n ↔ s.Contains n m := by
  unfold subtree
  rw [List.mem_cons, mem_filterMap_sub?]
  constructor
  · rintro (rfl | hfound)
    · exact .refl s m
    · obtain ⟨x, hx, hm⟩ := exists_of_mem_contained hfound
      exact hx.tail hm
  · exact fun h => (mem_contained_of_contains h).1

/-! ## §5. What keys lead to. -/

theorem exists_of_splitCompound {entries : Std.TreeMap String Entry} {before key rest : List Char}
    {sub : Namespace} (h : splitCompound entries before key = some (sub, rest)) :
    ∃ name : String, entries[name]? = some (Entry.sub sub) := by
  induction key generalizing before with
  | nil => exact nomatch h
  | cons c key ih =>
    unfold splitCompound at h
    dsimp only at h
    split at h
    · split at h
      · next n hentry =>
        cases h
        exact ⟨_, hentry⟩
      · exact ih h
    · exact ih h

/-- A compound key leads to a namespace that is held. -/
theorem exists_of_compoundSplit {entries : Std.TreeMap String Entry} {key rest : String}
    {sub : Namespace} (h : compoundSplit entries key = some (sub, rest)) :
    ∃ name : String, entries[name]? = some (Entry.sub sub) := by
  unfold compoundSplit at h
  obtain ⟨⟨m, chars⟩, hsplit, heq⟩ := Option.map_eq_some_iff.1 h
  cases heq
  exact exists_of_splitCompound hsplit

/-- A name is looked up directly first. -/
theorem localEntry_of_direct {key : String} {e : Entry}
    (hplain : ¬looksLikeSpec (trim key) = true)
    (hentry : s.entryAt? n (trim key) = some e) :
    s.localEntry n key = some e := by
  rw [localEntry, if_neg hplain, hentry]

/-- A name that is not held leads on as a compound key. -/
theorem localEntry_of_some {key rest : String} {sub : Namespace}
    (hplain : ¬looksLikeSpec (trim key) = true)
    (hnone : s.entryAt? n (trim key) = none)
    (hfound : compoundSplit (s.contentsOf n).entries (trim key)
      = some (sub, rest)) : s.localEntry n key = s.localEntry sub rest := by
  rw [localEntry, if_neg hplain, hnone]
  dsimp only
  -- the definition keeps the split as a proof, so it is split anew and compared
  split
  · next hfound' =>
    cases hfound.symm.trans hfound'
    rfl
  · next hnone' => cases hfound.symm.trans hnone'

theorem localEntry_of_none {key : String}
    (hplain : ¬looksLikeSpec (trim key) = true)
    (hnone : s.entryAt? n (trim key) = none)
    (hfree : compoundSplit (s.contentsOf n).entries (trim key) = none) :
    s.localEntry n key = none := by
  rw [localEntry, if_neg hplain, hnone]
  dsimp only
  split
  · next hfound => cases hfree.symm.trans hfound
  · rfl

/-- What a namespace finds under a key is held by a namespace that it contains, under a key or for a
coordinate. -/
theorem exists_of_localEntry {key : String} {id : DependencyId}
    (h : s.localEntry n key = some (.dependency id)) :
    ∃ m, s.Contains n m ∧ ((∃ key, s.ownDependency? m key = some id) ∨
      ∃ unversioned, s.indexed? m unversioned = some id) := by
  induction n, key using Store.localEntry.induct (s := s) with
  | case1 n key hspec spec hparse =>
    rw [localEntry, if_pos hspec, hparse] at h
    obtain ⟨i, hindexed, heq⟩ := Option.map_eq_some_iff.1 h
    cases heq
    exact ⟨n, .refl s n, .inr ⟨_, hindexed⟩⟩
  | case2 n key hspec e hparse =>
    rw [localEntry, if_pos hspec, hparse] at h
    cases h
  | case3 n key hplain e he =>
    rw [localEntry_of_direct hplain he] at h
    obtain rfl := Option.some.inj h
    refine ⟨n, .refl s n, .inl ⟨trim key, ?_⟩⟩
    rw [ownDependency?, he]
    rfl
  | case4 n key hplain hnone sub rest hfound ih =>
    rw [localEntry_of_some hplain hnone hfound] at h
    obtain ⟨name, hname⟩ := exists_of_compoundSplit hfound
    obtain ⟨m, hm, hheld⟩ := ih h
    exact ⟨m, hm.head (mem_entries_iff.2 ⟨name, hname⟩), hheld⟩
  | case5 n key hplain hnone hfree =>
    rw [localEntry_of_none hplain hnone hfree] at h
    cases h

end DependencyScope.Store
