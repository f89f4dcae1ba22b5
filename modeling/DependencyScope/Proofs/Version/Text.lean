/-
  DependencyScope.Proofs.Version.Text — which texts are versions, and why the others are none.

  Blanks at the ends of a text count for nothing.  What they enclose has to be a version; a text
  that is none is blamed at its first character that no version may hold, or else for lacking a
  digit.

      "\u00a0 1.0 2"    refused at ⟨6, 1⟩: the blank in between, behind blanks of three bytes
      "  alpha "       refused at ⟨2, 5⟩: the word

  Main definitions:
    * `Version.Offends` — a character between the blank ends that no version may hold;
    * `Version.Refusal` — what a text is refused for.

  Main results:
    * `Version.refused?_eq_some`, `Version.refused?_eq_none_iff` — the search finds the first
      character that offends, if there is one;
    * `Version.parse_eq_ok_iff` — reading succeeds on the versions;
    * `Version.refusal_of_parse` — where it fails, the error is the refusal of the text.
-/
import DependencyScope.Proofs.Text.Split
import DependencyScope.Version.Parser

namespace DependencyScope

open DependencyScope.Text

/-! ## §1. The characters of versions. -/

/-- The codes of the characters that a version may hold. -/
theorem toNat_of_isVersionChar {c : Char} (h : isVersionChar c = true) :
    (48 ≤ c.toNat ∧ c.toNat ≤ 57) ∨ (65 ≤ c.toNat ∧ c.toNat ≤ 90) ∨
      (97 ≤ c.toNat ∧ c.toNat ≤ 122) ∨ c.toNat = 46 ∨ c.toNat = 45 := by
  have hcodes : isVersionChar c
      = (decide (c.val ≥ 65 ∧ c.val ≤ 90) || (c.val ≥ 97 && c.val ≤ 122) ||
        (c.val ≥ 48 && c.val ≤ 57) || c = '.' || c = '-') := rfl
  rw [hcodes] at h
  simp only [Bool.or_eq_true, Bool.and_eq_true, decide_eq_true_eq, ge_iff_le,
    UInt32.le_iff_toNat_le] at h
  rcases h with (halphanum | rfl) | rfl
  · change ((65 ≤ c.toNat ∧ c.toNat ≤ 90) ∨ (97 ≤ c.toNat ∧ c.toNat ≤ 122)) ∨
      (48 ≤ c.toNat ∧ c.toNat ≤ 57) at halphanum
    omega
  · simp
  · simp

/-- What a version may hold is no blank. -/
theorem isBlank_of_isVersionChar {c : Char} (h : isVersionChar c = true) : isBlank c = false := by
  by_cases hblank : isBlank c = true
  · have hcode : c.toNat ∈ blankCodePoints := by simpa [isBlank] using hblank
    have hplain := toNat_of_isVersionChar h
    simp only [blankCodePoints, List.mem_cons, List.not_mem_nil, or_false] at hcode
    omega
  · simpa using hblank

theorem not_isVersionChar_of_isBlank {c : Char} (h : isBlank c = true) :
    isVersionChar c = false := by
  cases hchar : isVersionChar c with
  | false => rfl
  | true => exact absurd h (by simp [isBlank_of_isVersionChar hchar])

/-- Digits have no letter case. -/
theorem toLower_of_isDigit {c : Char} (h : c.isDigit = true) : c.toLower = c := by
  simp only [Char.isDigit, Bool.and_eq_true, decide_eq_true_eq, ge_iff_le,
    UInt32.le_iff_toNat_le] at h
  unfold Char.toLower
  split
  · rename_i hupper
    simp only [ge_iff_le, UInt32.le_iff_toNat_le] at hupper
    simp at h hupper
    omega
  · rfl

/-- A text without blanks has none at its ends. -/
theorem Text.trimmed_of_forall {cs : List Char} (h : ∀ c ∈ cs, isBlank c = false) : Trimmed cs where
  front c hc := h c (List.mem_of_mem_head? hc)
  back c hc := h c (List.mem_of_mem_getLast? hc)

/-! ## §2. The texts of versions. -/

namespace Version

theorem isVersionChar_of_mem_text (v : Version) : ∀ c ∈ v.text.toList, isVersionChar c = true := by
  have h := v.wellFormed
  unfold isVersionText at h
  exact List.all_eq_true.1 (Bool.and_eq_true_iff.1 h).1

theorem trim_text (v : Version) : trim v.text = v.text := by
  have hblank : ∀ c ∈ v.text.toList, isBlank c = false :=
    fun c hc => isBlank_of_isVersionChar (v.isVersionChar_of_mem_text c hc)
  exact (Text.trimmed_of_forall hblank).trim

theorem ofText?_text (v : Version) : ofText? v.text = some v := by
  unfold ofText?
  simp only [trim_text, v.wellFormed, dite_true]

theorem ofText?_eq_some_iff {text : String} {v : Version} :
    ofText? text = some v ↔ isValid text = true ∧ v.text = trim text := by
  obtain ⟨versionText, hv⟩ := v
  unfold ofText? isValid
  by_cases h : isVersionText (trim text) = true
  · simp [h, eq_comm]
  · simp [h]

/-! ## §3. The character a text is blamed at. -/

/-- A character that no version may hold, with more than blanks up to it and from it on. -/
structure Offends (text front : List Char) (c : Char) (back : List Char) : Prop where
  split : text = front ++ c :: back
  refused : isVersionChar c = false
  begun : ∃ d ∈ front ++ [c], isBlank d = false
  unfinished : ∃ d ∈ c :: back, isBlank d = false

section

variable {text front back inside beyond : List Char} {c : Char}

/-- What has begun when the character comes stands behind the blanks in front. -/
theorem exists_dropWhile (h : text = front ++ c :: back)
    (hbegun : ∃ d ∈ front ++ [c], isBlank d = false) :
    ∃ inside, front = text.takeWhile isBlank ++ inside ∧
      text.dropWhile isBlank = inside ++ c :: back := by
  induction front generalizing text with
  | nil =>
    have hc : isBlank c = false := by simpa using hbegun
    exact ⟨[], by simp [h, hc], by simp [h, hc]⟩
  | cons d front ih =>
    subst h
    cases hd : isBlank d with
    | false => exact ⟨d :: front, by simp [hd], by simp [hd]⟩
    | true =>
      obtain ⟨inside, hfront, hdrop⟩ := ih rfl (by simpa [hd] using hbegun)
      refine ⟨inside, ?_, by simpa [hd] using hdrop⟩
      rw [List.cons_append, List.takeWhile_cons_of_pos hd, List.cons_append, ← hfront]

/-- What offends is between the blank ends. -/
theorem Offends.exists_trimChars (h : Offends text front c back) :
    ∃ inside beyond, front = text.takeWhile isBlank ++ inside ∧
      trimChars text = inside ++ c :: beyond := by
  obtain ⟨inside, hfront, hdrop⟩ := exists_dropWhile h.split h.begun
  have hne : trimBack (c :: back) ≠ [] := by
    rw [Ne, trimBack_eq_nil_iff, not_forall]
    obtain ⟨d, hd, hblank⟩ := h.unfinished
    exact ⟨d, by simp [hd, hblank]⟩
  obtain ⟨d, beyond, hcons⟩ := List.exists_cons_of_ne_nil hne
  obtain rfl : d = c := by
    have hprefix : d :: beyond <+: c :: back := hcons ▸ trimBack_prefix_self (c :: back)
    exact (List.cons_prefix_cons.1 hprefix).1
  refine ⟨inside, beyond, hfront, ?_⟩
  rw [trimChars, trimFront, hdrop, trimBack_append h.unfinished, hcons]

theorem offends_of_trimChars (h : trimChars text = inside ++ c :: beyond)
    (hc : isVersionChar c = false) :
    ∃ back, Offends text (text.takeWhile isBlank ++ inside) c back := by
  obtain ⟨trail, -, htext⟩ := exists_append_trimChars text
  have htrimmed := trimmed_trimChars text
  rw [h] at htext htrimmed
  refine ⟨beyond ++ trail, by simpa using htext, hc, ?_, ?_⟩
  · cases inside with
    | nil => exact ⟨c, by simp, htrimmed.front c rfl⟩
    | cons d inside => exact ⟨d, by simp, htrimmed.front d rfl⟩
  · have hlast := List.getLast?_eq_some_getLast (List.cons_ne_nil c beyond)
    refine ⟨_, List.mem_append_left trail (List.getLast_mem (List.cons_ne_nil c beyond)), ?_⟩
    refine htrimmed.back _ ?_
    rw [List.getLast?_append, hlast]
    rfl

/-- Behind the blanks in front, the search stops at what offends. -/
theorem offends_iff_place (h : text.dropWhile isBlank = inside ++ c :: back) :
    Offends text (text.takeWhile isBlank ++ inside) c back ↔
      isVersionChar c = false ∧
        byteLength (text.takeWhile isBlank) + byteLength inside < byteLength (trimBack text) := by
  have hsplit : text = (text.takeWhile isBlank ++ inside) ++ c :: back := by
    rw [List.append_assoc, ← h, List.takeWhile_append_dropWhile]
  have hbegun : ∃ d ∈ (text.takeWhile isBlank ++ inside) ++ [c], isBlank d = false := by
    obtain ⟨d, rest, hcons⟩ := List.exists_cons_of_ne_nil (List.concat_ne_nil c inside)
    have hhead : (text.dropWhile isBlank).head? = some d := by
      rw [h, List.append_cons, hcons]
      rfl
    refine ⟨d, ?_, not_of_mem_head?_dropWhile d hhead⟩
    rw [List.append_assoc, hcons]
    exact List.mem_append_right _ List.mem_cons_self
  rw [← byteLength_append, lt_byteLength_trimBack_iff hsplit]
  constructor
  · rintro ⟨-, hrefused, -, hunfinished⟩
    exact ⟨hrefused, hunfinished⟩
  · rintro ⟨hrefused, hunfinished⟩
    exact ⟨hsplit, hrefused, hbegun, hunfinished⟩

/-- The search begins behind the blanks in front. -/
theorem refused?_eq (text : List Char) :
    refused? text = (charOffsets (byteLength (text.takeWhile isBlank))
      (text.dropWhile isBlank)).find? fun place =>
        !isVersionChar place.2 && decide (place.1 < byteLength (trimBack text)) := by
  rw [refused?, dropWhile_charOffsets, Nat.zero_add]

/-- What is found is the first character that offends, with its place. -/
theorem refused?_eq_some {offset : Nat} (h : refused? text = some (offset, c)) :
    ∃ front back, Offends text front c back ∧ offset = byteLength front ∧
      ∀ front' c' back', Offends text front' c' back' → front.length ≤ front'.length := by
  rw [refused?_eq] at h
  obtain ⟨hstops, before, after, hplaces, hpassed⟩ := List.find?_eq_some_iff_append.1 h
  obtain ⟨inside, back, hdrop, rfl, rfl⟩ := exists_of_charOffsets_eq hplaces
  refine ⟨text.takeWhile isBlank ++ inside, back,
    (offends_iff_place hdrop).2 (by simpa using hstops), (byteLength_append _ _).symm, ?_⟩
  intro front' c' back' hoffends
  obtain ⟨inside', rfl, hdrop'⟩ := exists_dropWhile hoffends.split hoffends.begun
  rw [List.length_append, List.length_append]
  refine Nat.add_le_add_left (Nat.le_of_not_lt fun hlt => ?_) _
  -- the search would have passed over it
  obtain ⟨between, hinside⟩ : inside' ++ [c'] <+: inside := by
    have hprefix : inside' ++ [c'] <+: text.dropWhile isBlank := ⟨back', by simp [hdrop']⟩
    refine List.prefix_of_prefix_length_le hprefix ⟨_, hdrop.symm⟩ ?_
    simpa [Nat.succ_le_iff] using hlt
  have hmem : (byteLength (text.takeWhile isBlank) + byteLength inside', c')
      ∈ charOffsets (byteLength (text.takeWhile isBlank)) inside := by
    rw [← hinside, List.append_assoc, charOffsets_append]
    exact List.mem_append_right _ List.mem_cons_self
  have hstops' := (offends_iff_place hdrop').1 hoffends
  exact absurd (hpassed _ hmem) (by simp [hstops'])

/-- The search finds nothing in the texts in which nothing offends. -/
theorem refused?_eq_none_iff : refused? text = none ↔ ∀ front c back, ¬ Offends text front c back := by
  constructor
  · intro hnone front c back hoffends
    obtain ⟨inside, rfl, hdrop⟩ := exists_dropWhile hoffends.split hoffends.begun
    have hstops := (offends_iff_place hdrop).1 hoffends
    rw [refused?_eq, hdrop, charOffsets_append, charOffsets] at hnone
    have hpassed := List.find?_eq_none.1 hnone _ (List.mem_append_right _ List.mem_cons_self)
    exact hpassed (by simp [hstops])
  · intro hnone
    cases hfound : refused? text with
    | none => rfl
    | some place =>
      obtain ⟨front, back, hoffends, -⟩ := refused?_eq_some hfound
      exact absurd hoffends (hnone _ _ _)

/-- Nothing offends if all between the blank ends may be in a version. -/
theorem not_offends_iff : (∀ front c back, ¬ Offends text front c back) ↔
    ∀ c ∈ trimChars text, isVersionChar c = true := by
  constructor
  · intro hnone c hc
    obtain ⟨inside, beyond, hbody⟩ := List.append_of_mem hc
    cases hchar : isVersionChar c with
    | true => rfl
    | false =>
      obtain ⟨back, hoffends⟩ := offends_of_trimChars hbody hchar
      exact absurd hoffends (hnone _ _ _)
  · intro hallowed front c back hoffends
    obtain ⟨inside, beyond, -, hbody⟩ := hoffends.exists_trimChars
    exact absurd (hallowed c (by simp [hbody])) (by simp [hoffends.refused])

end

/-! ## §4. Reading versions. -/

/-- What a text is refused for: its first character that offends, or, if there is none, that no
digit is between its blank ends. -/
inductive Refusal (text : String) : Error → Prop
  | character {front back : List Char} {c : Char} : Offends text.toList front c back →
      (∀ front' c' back', Offends text.toList front' c' back' → front.length ≤ front'.length) →
      Refusal text
        (.parse (.versionCharacter c (trim text)) text ⟨byteLength front, c.utf8Size⟩)
  | digitless : (∀ front c back, ¬ Offends text.toList front c back) →
      (∀ c ∈ (trim text).toList, c.isDigit = false) →
      Refusal text (.parse (.versionWithoutDigit (trim text)) text
        ⟨byteLength (text.toList.takeWhile isBlank), byteLength (trim text).toList⟩)

section

variable {text : String}

/-- Nothing is found in a text that is a version. -/
theorem refused?_of_isValid (h : isValid text = true) : refused? text.toList = none := by
  rw [refused?_eq_none_iff, not_offends_iff, ← toList_trim]
  unfold isValid isVersionText at h
  exact List.all_eq_true.1 (Bool.and_eq_true_iff.1 h).1

/-- Reading succeeds on the versions, and keeps what is between the blank ends. -/
theorem parse_eq_ok_iff {v : Version} :
    parse text = .ok v ↔ isValid text = true ∧ v.text = trim text := by
  have htrim : ofText? (trim text) = some v ↔ isValid text = true ∧ v.text = trim text := by
    rw [ofText?_eq_some_iff, isValid, isValid, trim_trim]
  constructor
  · intro h
    unfold parse at h
    split at h
    · exact nomatch h
    · split at h
      · rename_i hversion
        obtain rfl := Except.ok.inj h
        exact htrim.1 hversion
      · exact nomatch h
  · intro h
    simp only [parse, refused?_of_isValid h.1, htrim.2 h]

/-- Reading the text of a version gives the version. -/
theorem parse_text (v : Version) : parse v.text = .ok v :=
  parse_eq_ok_iff.2 (ofText?_eq_some_iff.1 v.ofText?_text)

/-- A text that is refused is refused for its first offending character or for lacking a digit. -/
theorem refusal_of_parse {e : Error} (h : parse text = .error e) : Refusal text e := by
  unfold parse at h
  split at h
  · rename_i offset c hrefused
    obtain rfl := Except.error.inj h
    obtain ⟨front, back, hoffends, rfl, hfirst⟩ := refused?_eq_some hrefused
    exact .character hoffends hfirst
  · rename_i hrefused
    split at h
    · exact nomatch h
    · rename_i hversion
      obtain rfl := Except.error.inj h
      have hnone := refused?_eq_none_iff.1 hrefused
      -- nothing offends, so it is the digits that are missing
      have hoffset : byteLength text.toList - byteLength (trimFront text.toList)
          = byteLength (text.toList.takeWhile isBlank) := by
        have hsplit := congrArg byteLength
          (List.takeWhile_append_dropWhile (p := isBlank) (l := text.toList))
        rw [byteLength_append] at hsplit
        exact Nat.sub_eq_of_eq_add hsplit.symm
      have hallowed := not_offends_iff.1 hnone
      have hinvalid : isVersionText (trim text) = false := by
        rw [Bool.eq_false_iff]
        intro hvalid
        simp [ofText?, trim_trim, hvalid] at hversion
      rw [hoffset]
      refine .digitless hnone ?_
      simpa [isVersionText, List.all_eq_true.2 hallowed] using hinvalid

end

end Version

end DependencyScope
