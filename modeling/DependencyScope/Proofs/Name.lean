/-
  DependencyScope.Proofs.Name — when a canonical name is its own canonical name.

  A name is trimmed before it is cut at its colons, and empty parts are dropped after that.  So a
  part that stands at an end of the name, once the colons there are gone, may begin or end with a
  blank, and so does the canonical name; making that canonical trims it again.

      a: :   becomes   a:_   becomes   a        (with _ for a blank)

  The registry knows a namespace by its canonical name.  Where that is not its own canonical name,
  the registry gives another namespace for it.

  Main definitions:
    * `Unpadded` — behind the colons at the ends of a name there is no blank;
    * `Store.rawName` — the text whose canonical name a key resolves to.

  Main results:
    * `canonicalName_canonicalName_iff` — the canonical name is canonical exactly if the name is
      unpadded;
    * `resolveName_ofText` — a text that is taken as a key resolves to its canonical name;
    * `Session.instance_again_iff` — for which keys the registry gives the same namespace again.
-/
import DependencyScope.Proofs.Session.Keeps
import DependencyScope.Proofs.Session.Run
import DependencyScope.Proofs.Text.Split

namespace DependencyScope

open DependencyScope.Text

/-! ## §1. The parts of a name. -/

/-- The parts of a name between its colons, without those that are empty. -/
def nameParts (cs : List Char) : List (List Char) := (splitChars ':' cs).filter (· ≠ [])

/-- The parts of a name with one colon between two of them. -/
def nameChars (cs : List Char) : List Char := [':'].intercalate (nameParts cs)

/-- The first character of a name stands in front of its first part, or is a part by itself. -/
theorem nameParts_cons {c : Char} (h : c ≠ ':') (rest : List Char) :
    (∃ part parts, nameParts rest = part :: parts ∧ nameParts (c :: rest) = (c :: part) :: parts)
      ∨ (rest = [] ∨ rest.head? = some ':') ∧ nameParts (c :: rest) = [c] :: nameParts rest := by
  obtain ⟨piece, pieces, hsplit⟩ : ∃ piece pieces, splitChars ':' rest = piece :: pieces :=
    List.exists_cons_of_length_pos (by simp [length_splitChars])
  have hparts : nameParts (c :: rest) = (c :: piece) :: pieces.filter (· ≠ []) := by
    rw [nameParts, splitChars, if_neg h, hsplit]
    rfl
  cases piece with
  | cons d piece =>
    exact .inl ⟨d :: piece, pieces.filter (· ≠ []), by rw [nameParts, hsplit]; rfl, hparts⟩
  | nil =>
    refine .inr ⟨?_, by rw [hparts, nameParts, hsplit]; rfl⟩
    cases rest with
    | nil => exact .inl rfl
    | cons d rest =>
      by_cases hd : d = ':'
      · exact .inr (by rw [hd]; rfl)
      · -- a first piece that is empty ends at a colon
        rw [splitChars, if_neg hd] at hsplit
        split at hsplit
        · cases hsplit
        · cases hsplit

theorem ne_nil_of_mem_nameParts {cs part : List Char} (h : part ∈ nameParts cs) : part ≠ [] := by
  simpa using (List.mem_filter.1 h).2

theorem not_mem_of_mem_nameParts {cs part : List Char} (h : part ∈ nameParts cs) : ':' ∉ part :=
  not_mem_of_mem_splitChars ':' cs part (List.mem_filter.1 h).1

theorem nameChars_eq_nil_iff {cs : List Char} : nameChars cs = [] ↔ nameParts cs = [] := by
  refine ⟨fun h => ?_, fun h => by rw [nameChars, h]; rfl⟩
  cases hparts : nameParts cs with
  | nil => rfl
  | cons part parts =>
    have hmem : part ∈ nameParts cs := by
      rw [hparts]
      exact List.mem_cons_self
    obtain ⟨c, part, rfl⟩ := List.exists_cons_of_ne_nil (ne_nil_of_mem_nameParts hmem)
    rw [nameChars, hparts] at h
    cases parts <;> simp at h

/-- A character goes before the name of what follows it, with a colon in between if one follows and
there is anything behind it. -/
theorem nameChars_cons {c : Char} (h : c ≠ ':') (rest : List Char) :
    nameChars (c :: rest) = c :: nameChars rest
      ∨ (∃ later, rest = ':' :: later) ∧ nameChars rest ≠ []
        ∧ nameChars (c :: rest) = c :: ':' :: nameChars rest := by
  rcases nameParts_cons h rest with ⟨part, parts, hrest, hparts⟩ | ⟨hcolon, hparts⟩
  · refine .inl ?_
    rw [nameChars, nameChars, hparts, hrest]
    cases parts <;> simp
  · cases hrest : nameParts rest with
    | nil =>
      refine .inl ?_
      rw [nameChars, nameChars, hparts, hrest]
      rfl
    | cons part parts =>
      have hlater : ∃ later, rest = ':' :: later := by
        rcases hcolon with rfl | hhead
        · exact nomatch hrest
        · exact List.head?_eq_some_iff.1 hhead
      refine .inr ⟨hlater, fun hnil => ?_, ?_⟩
      · rw [nameChars_eq_nil_iff, hrest] at hnil
        exact nomatch hnil
      · rw [nameChars, nameChars, hparts, hrest, List.intercalate_cons_cons]
        rfl

/-- A name begins with the first character that is no colon. -/
theorem head?_nameChars (cs : List Char) : (nameChars cs).head? = cs.find? (· ≠ ':') := by
  induction cs with
  | nil => rfl
  | cons c rest ih =>
    by_cases hc : c = ':'
    · rw [hc, List.find?_cons_of_neg (by simp), ← ih]
      rfl
    · rw [List.find?_cons_of_pos (by simpa using hc)]
      rcases nameChars_cons hc rest with hname | ⟨-, -, hname⟩ <;> rw [hname, List.head?_cons]

/-- A name ends with the last character that is no colon. -/
theorem getLast?_nameChars (cs : List Char) :
    (nameChars cs).getLast? = cs.reverse.find? (· ≠ ':') := by
  induction cs with
  | nil => rfl
  | cons c rest ih =>
    rw [List.reverse_cons, List.find?_append, ← ih]
    by_cases hc : c = ':'
    · rw [hc, List.find?_cons_of_neg (by simp), List.find?_nil, Option.or_none]
      rfl
    · rw [List.find?_cons_of_pos (by simpa using hc)]
      rcases nameChars_cons hc rest with hname | ⟨-, hne, hname⟩
      · rw [hname, List.getLast?_cons]
        cases (nameChars rest).getLast? <;> rfl
      · rw [hname, List.getLast?_cons, List.getLast?_cons, List.getLast?_eq_some_getLast hne]
        rfl

/-- A name is what is left when some colons are dropped. -/
theorem nameChars_sublist : ∀ cs : List Char, List.Sublist (nameChars cs) cs
  | [] => .slnil
  | c :: rest => by
    by_cases hc : c = ':'
    · rw [hc]
      exact (nameChars_sublist rest).cons _
    · rcases nameChars_cons hc rest with hname | ⟨⟨later, rfl⟩, -, hname⟩
      · rw [hname]
        exact (nameChars_sublist rest).cons_cons c
      · rw [hname]
        exact ((nameChars_sublist later).cons_cons ':').cons_cons c

/-! ## §2. Canonical names. -/

/-- The first and the last character of the trimmed name that are no colons are no blanks. -/
structure Unpadded (raw : String) : Prop where
  front : ∀ c ∈ (trimChars raw.toList).find? (· ≠ ':'), isBlank c = false
  back : ∀ c ∈ (trimChars raw.toList).reverse.find? (· ≠ ':'), isBlank c = false

theorem unpadded_iff_trimmed {raw : String} :
    Unpadded raw ↔ Trimmed (nameChars (trimChars raw.toList)) := by
  constructor
  · rintro ⟨hfront, hback⟩
    exact ⟨by rwa [head?_nameChars], by rwa [getLast?_nameChars]⟩
  · rintro ⟨hfront, hback⟩
    exact ⟨by rwa [head?_nameChars] at hfront, by rwa [getLast?_nameChars] at hback⟩

/-- The pieces of a name are its parts, as texts. -/
theorem filter_splitOn_trim (raw : String) :
    (splitOn ':' (trim raw)).filter (· ≠ "")
      = (nameParts (trimChars raw.toList)).map String.ofList := by
  have hempty : (fun s : String => decide (s ≠ "")) ∘ String.ofList
      = fun cs : List Char => decide (cs ≠ []) := by
    funext cs
    simp
  rw [splitOn, toList_trim, List.filter_map, hempty, nameParts]

/-- A name of colons alone is that of the root. -/
theorem canonicalName_of_nil {raw : String} (h : nameParts (trimChars raw.toList) = []) :
    canonicalName raw = rootName := by
  rw [canonicalName, filter_splitOn_trim, h]
  rfl

theorem toList_canonicalName {raw : String} (h : nameParts (trimChars raw.toList) ≠ []) :
    (canonicalName raw).toList = nameChars (trimChars raw.toList) := by
  obtain ⟨part, parts, hparts⟩ := List.exists_cons_of_ne_nil h
  rw [canonicalName, filter_splitOn_trim, nameChars, hparts, List.map_cons]
  change (String.intercalate ":" (String.ofList part :: parts.map String.ofList)).toList = _
  rw [String.toList_intercalate, ← List.map_cons, List.map_map]
  simp

/-- A trimmed name with one colon between its parts is canonical. -/
theorem canonicalName_of_trimmed {name : String} {cs : List Char} (hne : nameParts cs ≠ [])
    (hname : name.toList = nameChars cs) (htrimmed : Trimmed name.toList) :
    canonicalName name = name := by
  have hparts : nameParts name.toList = nameParts cs := by
    rw [nameParts, splitChars_eq_splitOn, hname, nameChars,
      List.splitOn_intercalate ':' (fun part hpart => not_mem_of_mem_nameParts hpart) hne,
      List.filter_eq_self]
    intro part hpart
    simpa using ne_nil_of_mem_nameParts hpart
  have hchars : nameParts (trimChars name.toList) ≠ [] := by
    rw [htrimmed.trimChars, hparts]
    exact hne
  apply String.toList_inj.1
  rw [toList_canonicalName hchars, htrimmed.trimChars, nameChars, hparts, hname, nameChars]

/-- What is its own canonical name has no blank at its ends. -/
theorem trimmed_of_canonicalName_eq {name : String} (h : canonicalName name = name) :
    Trimmed name.toList := by
  by_cases hparts : nameParts (trimChars name.toList) = []
  · rw [← h, canonicalName_of_nil hparts]
    exact ⟨by rintro c ⟨⟩; rfl, by rintro c ⟨⟩; rfl⟩
  · have hlength := (nameChars_sublist (trimChars name.toList)).length_le
    rw [← toList_canonicalName hparts, h] at hlength
    -- trimming drops nothing, as the name is no longer than what is left
    rw [← (trimChars_sublist name.toList).eq_of_length_le hlength]
    exact trimmed_trimChars name.toList

/-- The canonical name is its own canonical name exactly if the name is unpadded. -/
theorem canonicalName_canonicalName_iff (raw : String) :
    canonicalName (canonicalName raw) = canonicalName raw ↔ Unpadded raw := by
  rw [unpadded_iff_trimmed]
  by_cases hparts : nameParts (trimChars raw.toList) = []
  · rw [canonicalName_of_nil hparts, nameChars_eq_nil_iff.2 hparts]
    exact iff_of_true (by decide) ⟨nofun, nofun⟩
  · rw [← toList_canonicalName hparts]
    exact ⟨trimmed_of_canonicalName_eq,
      canonicalName_of_trimmed hparts (toList_canonicalName hparts)⟩

/-! ## §3. The namespace of a name. -/

/-- The text whose canonical name a key resolves to. -/
def Store.rawName (s : Store) : NamespaceKey → String
  | .root => rootName
  | .current => String.intercalate ":" s.activePath
  | .name name => name
  | .path parts => String.intercalate ":" parts

theorem resolveName_eq (s : Store) (key : NamespaceKey) :
    s.resolveName key = canonicalName (s.rawName key) := by
  cases key with
  | root =>
    have hroot : canonicalName rootName = rootName := by decide
    exact hroot.symm
  | current | name | path => rfl

/-- A text taken as a key resolves to its canonical name. -/
theorem resolveName_ofText (s : Store) (text : String) :
    s.resolveName (.ofText text) = canonicalName text := by
  have htrim : canonicalName (trim text) = canonicalName text := by
    rw [canonicalName, canonicalName, trim_trim]
  rw [NamespaceKey.ofText, resolveName_eq, ← htrim]
  split
  next hroot =>
    rcases hroot with hblank | hroot
    · have hempty : canonicalName "" = canonicalName rootName := by decide
      rw [hblank, hempty]
      rfl
    · rw [hroot]
      rfl
  next => rfl

namespace Session

open DependencyScope.Action

/-- The registry gives the namespace of the canonical name. -/
theorem run_instance (σ : Session) (key : NamespaceKey) :
    ((perform (.instance key)).run σ).1
        = .ok (.aNamespace (.registered (σ.store.resolveName key) σ.store.generation))
      ∧ (σ.after (.instance key)).store = σ.store := by
  have hrun := run_return_read (Namespace.ofKey key) Reply.aNamespace σ
  exact ⟨congrArg Prod.fst hrun, congrArg (fun τ => τ.2.store) hrun⟩

/-- Making a name canonical twice is making it canonical once exactly if the name is unpadded.  In
every session the registry gives a namespace for each key, and it gives the same one for the name of
that namespace exactly if the text that the key resolves is unpadded. -/
theorem instance_again_iff (raw : String) (σ : Session) (key : NamespaceKey) :
    (canonicalName (canonicalName raw) = canonicalName raw ↔ Unpadded raw)
      ∧ ∃ n m : Namespace,
        ((perform (.instance key)).run σ).1 = .ok (.aNamespace n)
          ∧ ((perform (.instance (.ofText n.name))).run (σ.after (.instance key))).1
            = .ok (.aNamespace m)
          ∧ (m = n ↔ Unpadded (σ.store.rawName key)) := by
  refine ⟨canonicalName_canonicalName_iff raw, ?_⟩
  obtain ⟨hfirst, hstore⟩ := run_instance σ key
  obtain ⟨hsecond, -⟩ := run_instance (σ.after (.instance key))
    (.ofText (σ.store.resolveName key))
  rw [hstore, resolveName_ofText] at hsecond
  refine ⟨_, _, hfirst, hsecond, ?_⟩
  rw [Namespace.registered.injEq, and_iff_left rfl, resolveName_eq,
    canonicalName_canonicalName_iff]

/-- The canonical name of two colons around a blank is blank, and a blank name is the root's: the
registry gives the root for the name of a namespace that is not the root. -/
theorem not_instance_again : canonicalName ": :" = " " ∧ canonicalName " " = rootName ∧
    ((perform (.instance (.ofText ": :"))).run (start false)).1
      = .ok (.aNamespace (.registered " " 0)) ∧
    ((perform (.instance (.ofText " "))).run
        ((start false).after (.instance (.ofText ": :")))).1
      = .ok (.aNamespace (.registered rootName 0)) ∧
    ¬ ∀ raw : String, canonicalName (canonicalName raw) = canonicalName raw := by
  have hraw : canonicalName ": :" = " " := by decide
  have hblank : canonicalName " " = rootName := by decide
  refine ⟨hraw, hblank, ?_, ?_, fun hall => ?_⟩
  · rw [(run_instance _ _).1, resolveName_ofText, hraw]
    rfl
  · rw [(run_instance _ _).1, resolveName_ofText, hblank]
    rfl
  · have hagain := hall ": :"
    rw [hraw, hblank] at hagain
    exact absurd hagain (by decide)

end Session

end DependencyScope
