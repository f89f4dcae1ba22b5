/-
  DependencyScope.Proofs.Store.Paths — where compound keys lead, and what is found there.

  Reading a name and writing to it are two recursions over its text.  They take the same way: a
  name that is held is meant directly, and any other one is split after the first name of a
  sub-namespace.  Only which names hold sub-namespaces and which are held at all decides on the way,
  so a dependency that is put where a name leads turns no way aside, also where the way comes through
  the same namespace twice: what is written is shorter than all that was split before.

  Main definitions:
    * `Splits` — a text falls into a name, a separator and a rest;
    * `Store.LeadsTo` — the first sub-namespace that a name begins with, and the rest;
    * `Store.Fills` — a dependency has been put under a key, and nothing else has changed.

  Main results:
    * `splitCompound_of_first`, `Store.LeadsTo.localEntry`, `.landing` — the first split is taken;
    * `Store.localEntry_eq_entryAt?` — a name is read where a write to it lands;
    * `Store.Fills.landing`, `.localEntry` — what is put there is found by the same name.
-/
import DependencyScope.Proofs.Namespace.Writing

namespace DependencyScope

open DependencyScope.Text

/-! ## §1. Splits. -/

/-- A compound name may be split at an underscore and at a dot. -/
def IsSeparator (c : Char) : Prop := c = '_' ∨ c = '.'

/-- The text is the name `name`, a separator and the rest `rest`. -/
def Splits (text name rest : String) : Prop :=
  ∃ c, IsSeparator c ∧ text.toList = name.toList ++ c :: rest.toList

section Split

variable {entries entries' : Std.TreeMap String Entry} {before name rest : List Char} {c : Char}
  {sub : Namespace}

/-- A separator behind the name of a sub-namespace is passed over only for the last character. -/
theorem splitCompound_here (hc : IsSeparator c) (hrest : rest ≠ [])
    (hsub : entries[String.ofList before]? = some (.sub sub)) :
    splitCompound entries before (c :: rest) = some (sub, rest) := by
  have hsplit : ((c = '_' || c = '.') && !rest.isEmpty) = true := by
    have hseparates : (c = '_' || c = '.') = true := by simpa [IsSeparator] using hc
    rw [hseparates, List.isEmpty_eq_false_iff.2 hrest]
    rfl
  rw [splitCompound, if_pos hsplit, hsub]

/-- Any other character is passed over. -/
theorem splitCompound_later
    (h : IsSeparator c → rest ≠ [] → ∀ sub, entries[String.ofList before]? ≠ some (.sub sub)) :
    splitCompound entries before (c :: rest) = splitCompound entries (before ++ [c]) rest := by
  rw [splitCompound]
  split
  · next hsplit =>
    obtain ⟨hseparates, hmore⟩ := Bool.and_eq_true_iff.1 hsplit
    have hc : IsSeparator c := by simpa [IsSeparator] using hseparates
    have hrest : rest ≠ [] := by simpa using hmore
    split
    · next sub hsub => exact absurd hsub (h hc hrest sub)
    · rfl
  · rfl

/-- If the text behind `before` goes on with a name, a separator and a rest, and no shorter name
before a separator is that of a sub-namespace, then it is split there. -/
theorem splitCompound_of_first (hc : IsSeparator c) (hrest : rest ≠ [])
    (hsub : entries[String.ofList (before ++ name)]? = some (.sub sub))
    (hfirst : ∀ shorter c' rest', IsSeparator c' → name = shorter ++ c' :: rest' →
      ∀ sub', entries[String.ofList (before ++ shorter)]? ≠ some (.sub sub')) :
    splitCompound entries before (name ++ c :: rest) = some (sub, rest) := by
  induction name generalizing before with
  | nil =>
    rw [List.append_nil] at hsub
    exact splitCompound_here hc hrest hsub
  | cons d name ih =>
    rw [List.cons_append, splitCompound_later]
    · apply ih
      · rwa [List.append_assoc]
      · intro shorter c' rest' hc' heq
        rw [List.append_assoc]
        apply hfirst (d :: shorter) c' rest' hc'
        rw [heq, List.cons_append]
    · intro hd _
      have hbefore := hfirst [] d name hd rfl
      rwa [List.append_nil] at hbefore

/-- The split depends only on which names hold which sub-namespaces. -/
theorem splitCompound_congr
    (h : ∀ name : String, entries'[name]?.bind Entry.sub? = entries[name]?.bind Entry.sub?) :
    splitCompound entries' before rest = splitCompound entries before rest := by
  have hsub (name : String) (sub : Namespace) :
      entries'[name]? = some (.sub sub) ↔ entries[name]? = some (.sub sub) := by
    have hname := h name
    constructor
    · intro hentry
      rw [hentry] at hname
      obtain ⟨e, he, hesub⟩ := Option.bind_eq_some_iff.1 hname.symm
      rw [he, Entry.sub?_eq_some.1 hesub]
    · intro hentry
      rw [hentry] at hname
      obtain ⟨e, he, hesub⟩ := Option.bind_eq_some_iff.1 hname
      rw [he, Entry.sub?_eq_some.1 hesub]
  -- on the characters that are left, with the two searches side by side
  induction rest generalizing before with
  | nil => rfl
  | cons c rest ih =>
    by_cases hsplit : IsSeparator c ∧ rest ≠ [] ∧
        ∃ sub, entries[String.ofList before]? = some (.sub sub)
    · obtain ⟨hc, hrest, sub, hentry⟩ := hsplit
      rw [splitCompound_here hc hrest hentry, splitCompound_here hc hrest ((hsub _ _).2 hentry)]
    · have hpass (hc : IsSeparator c) (hrest : rest ≠ []) (sub : Namespace) :
          entries[String.ofList before]? ≠ some (.sub sub) :=
        fun hentry => hsplit ⟨hc, hrest, sub, hentry⟩
      rw [splitCompound_later hpass, splitCompound_later, ih]
      intro hc hrest sub hentry
      exact hpass hc hrest sub ((hsub _ _).1 hentry)

end Split

/-! ## §2. The first sub-namespace of a name. -/

namespace Store

variable {s t : Store} {n m sub : Namespace} {key name rest : String} {id : DependencyId}

/-- The text begins with the name of a sub-namespace of `n`, and none of the shorter names that it
begins with is that of a sub-namespace. -/
structure LeadsTo (s : Store) (n : Namespace) (text name rest : String) (sub : Namespace) :
    Prop where
  splits : Splits text name rest
  entry : s.entryAt? n name = some (.sub sub)
  first : ∀ shorter rest', Splits name shorter rest' →
    ∀ sub', s.entryAt? n shorter ≠ some (.sub sub')

namespace LeadsTo

/-- A name that leads to a sub-namespace is split behind the name of that. -/
theorem compoundSplit (h : s.LeadsTo n key name rest sub) (hrest : rest ≠ "") :
    compoundSplit (s.contentsOf n).entries key = some (sub, rest) := by
  obtain ⟨c, hc, htext⟩ := h.splits
  have hsplit : splitCompound (s.contentsOf n).entries [] (name.toList ++ c :: rest.toList)
      = some (sub, rest.toList) := by
    apply splitCompound_of_first hc
    · intro hnil
      exact hrest (String.toList_eq_nil_iff.1 hnil)
    · rw [List.nil_append, String.ofList_toList]
      exact h.entry
    · intro shorter c' rest' hc' heq
      rw [List.nil_append]
      apply h.first (String.ofList shorter) (String.ofList rest')
      refine ⟨c', hc', ?_⟩
      rw [heq, String.toList_ofList, String.toList_ofList]
  -- what was found is put together as a text again
  unfold DependencyScope.compoundSplit
  rw [htext, hsplit]
  show some (sub, String.ofList rest.toList) = some (sub, rest)
  rw [String.ofList_toList]

variable (htrim : trim key = key) (hplain : looksLikeSpec key = false)
  (hfree : s.entryAt? n key = none) (hrest : rest ≠ "")

include htrim hplain hfree hrest

/-- It is read in the sub-namespace. -/
theorem localEntry (h : s.LeadsTo n key name rest sub) :
    s.localEntry n key = s.localEntry sub rest := by
  apply localEntry_of_some
  · rw [htrim, hplain]
    exact Bool.false_ne_true
  · rw [htrim, hfree]
  · rw [htrim]
    exact h.compoundSplit hrest

/-- A write to it lands where one to the rest lands in the sub-namespace. -/
theorem landing (h : s.LeadsTo n key name rest sub) : s.landing n key = s.landing sub rest := by
  apply landing_of_some
  · rw [htrim, hplain, hfree]
    simp
  · rw [htrim]
    exact h.compoundSplit hrest

end LeadsTo

/-! ## §3. Reading and writing. -/

theorem not_spec_trim (hplain : looksLikeSpec key = false) : ¬looksLikeSpec (trim key) = true := by
  rw [looksLikeSpec_trim, hplain]
  exact Bool.false_ne_true

/-- A name to which a write does not land directly is not held. -/
theorem entryAt?_of_not_direct (hplain : looksLikeSpec key = false)
    (hnot : ¬(looksLikeSpec (trim key) || (s.entryAt? n (trim key)).isSome) = true) :
    s.entryAt? n (trim key) = none := by
  rw [looksLikeSpec_trim, hplain, Bool.false_or] at hnot
  exact Option.not_isSome_iff_eq_none.1 hnot

/-- A name is read where a write to it lands. -/
theorem localEntry_eq_entryAt? (hplain : looksLikeSpec key = false) :
    s.localEntry n key = s.entryAt? (s.landing n key).1 (s.landing n key).2 := by
  induction n, key using Store.landing.induct (s := s) with
  | case1 n key hheld =>
    rw [landing_of_direct hheld]
    rw [looksLikeSpec_trim, hplain, Bool.false_or] at hheld
    obtain ⟨e, he⟩ := Option.isSome_iff_exists.1 hheld
    rw [localEntry_of_direct (not_spec_trim hplain) he, he]
  | case2 n key hnot sub rest hfound ih =>
    have hnone := entryAt?_of_not_direct hplain hnot
    rw [landing_of_some hnot hfound, localEntry_of_some (not_spec_trim hplain) hnone hfound]
    exact ih (looksLikeSpec_of_compoundSplit hfound ((looksLikeSpec_trim key).trans hplain))
  | case3 n key hnot hfree =>
    have hnone := entryAt?_of_not_direct hplain hnot
    rw [landing_of_none hnot hfree, localEntry_of_none (not_spec_trim hplain) hnone hfree, hnone]

/-- What a name leads to is no longer than the name. -/
theorem length_landing_le (s : Store) (n : Namespace) (key : String) :
    (s.landing n key).2.length ≤ key.length := by
  induction n, key using Store.landing.induct (s := s) with
  | case1 n key hheld =>
    rw [landing_of_direct hheld]
    exact length_trim_le key
  | case2 n key hnot sub rest hfound ih =>
    rw [landing_of_some hnot hfound]
    have hrest := length_of_compoundSplit hfound
    have htrim := length_trim_le key
    omega
  | case3 n key hnot hnone =>
    rw [landing_of_none hnot hnone]
    exact length_trim_le key

/-- In the store `t`, a key that held no sub-namespace has been given a dependency; no other key of
any namespace holds anything else than before. -/
structure Fills (s : Store) (m : Namespace) (key : String) (id : DependencyId) (t : Store) :
    Prop where
  free : ((s.entryAt? m key).bind Entry.sub?).isNone
  entries : ∀ m' k, t.entryAt? m' k
    = if m = m' ∧ key = k then some (.dependency id) else s.entryAt? m' k

namespace Fills

variable {filled : String}

theorem entry (h : s.Fills m filled id t) : t.entryAt? m filled = some (.dependency id) := by
  rw [h.entries, if_pos ⟨rfl, rfl⟩]

/-- No sub-namespace comes or goes. -/
theorem sub? (h : s.Fills m filled id t) (m' : Namespace) (k : String) :
    (t.entryAt? m' k).bind Entry.sub? = (s.entryAt? m' k).bind Entry.sub? := by
  rw [h.entries]
  split
  · next heq =>
    obtain ⟨rfl, rfl⟩ := heq
    exact (Option.isNone_iff_eq_none.1 h.free).symm
  · rfl

theorem compoundSplit (h : s.Fills m filled id t) (n : Namespace) (key : String) :
    compoundSplit (t.contentsOf n).entries key = compoundSplit (s.contentsOf n).entries key := by
  unfold DependencyScope.compoundSplit
  rw [splitCompound_congr (h.sub? n)]

/-- A name goes on leading where it has led, if that is what has been filled. -/
theorem landing (h : s.Fills (s.landing n key).1 (s.landing n key).2 id t)
    (hplain : looksLikeSpec key = false) : t.landing n key = s.landing n key := by
  have hheld {n : Namespace} {key : String} (h : s.Fills n (trim key) id t) :
      t.landing n key = (n, trim key) := by
    apply landing_of_direct
    rw [h.entry]
    simp
  induction n, key using Store.landing.induct (s := s) with
  | case1 n key hdirect =>
    rw [landing_of_direct hdirect] at h ⊢
    exact hheld h
  | case2 n key hnot sub rest hfound ih =>
    rw [landing_of_some hnot hfound] at h ⊢
    -- what has been filled is shorter than the name, so the name itself is still not held
    have hshorter : (s.landing sub rest).2 ≠ trim key := by
      intro heq
      have hle := s.length_landing_le sub rest
      have hlt := length_of_compoundSplit hfound
      rw [heq] at hle
      omega
    have hsame : t.entryAt? n (trim key) = s.entryAt? n (trim key) := by
      rw [h.entries, if_neg fun heq => hshorter heq.2]
    have hnot' : ¬(looksLikeSpec (trim key) || (t.entryAt? n (trim key)).isSome) = true := by
      rw [hsame]
      exact hnot
    have hfound' : DependencyScope.compoundSplit (t.contentsOf n).entries (trim key)
        = some (sub, rest) := (h.compoundSplit n (trim key)).trans hfound
    rw [landing_of_some hnot' hfound']
    exact ih h (looksLikeSpec_of_compoundSplit hfound ((looksLikeSpec_trim key).trans hplain))
  | case3 n key hnot hnone =>
    rw [landing_of_none hnot hnone] at h ⊢
    exact hheld h

/-- What has been put where a name leads is found by the name. -/
theorem localEntry (h : s.Fills (s.landing n key).1 (s.landing n key).2 id t)
    (hplain : looksLikeSpec key = false) : t.localEntry n key = some (.dependency id) := by
  rw [localEntry_eq_entryAt? hplain, h.landing hplain, h.entry]

end Fills

end Store

end DependencyScope
