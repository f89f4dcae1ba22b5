/-
  DependencyScope.Proofs.Requirement.Lexing — which tokens a text has, wherever it stands.

  The tokens of a text carry the places they were read from.  Their kinds do not: they are the same
  for a text alone, behind other text, and with blanks around it.  Most characters, a blank and a
  closing bracket among them, never continue a token, so a text may be cut in front of one of them
  without a change to what is read.

  Main results:
    * `word?`, `word_eq` — a word that is taken for a version can be read as one;
    * `kinds?`, `kinds?_eq_scan` — the kinds of the tokens of a text;
    * `kinds?_append` — the kinds of a text that is cut where a token ends;
    * `kinds?_trimChars` — blank ends do not show;
    * `kinds?_brackets`, `kinds?_both`, `kinds?_text` — the kinds of a text in brackets, of two
      texts joined, and of a version.
-/
import DependencyScope.Requirement.Lexer
import DependencyScope.Proofs.Version.Text

namespace DependencyScope.Token

open DependencyScope.Text

/-! ## §1. Kinds without places. -/

/-- What a word is, wherever it stands: a connective, or else a version. -/
def word? (text : String) : Option TokenKind :=
  match lower text with
  | "and" => some .conjunction
  | "or" => some .disjunction
  | "not" => some .negation
  | _ => (Version.ofText? text).map .version

/-- Whatever is taken for a version can be read as one. -/
theorem parse_of_isValid (text : String) (e : Error) :
    (if Version.isValid text then (Version.parse text).map TokenKind.version else .error e)
      = ((Version.ofText? text).map TokenKind.version).elim (.error e) .ok := by
  unfold Version.ofText?
  by_cases hvalid : isVersionText (trim text) = true
  · have hread : Version.parse text = .ok ⟨trim text, hvalid⟩ :=
      Version.parse_eq_ok_iff.2 ⟨hvalid, rfl⟩
    rw [dif_pos hvalid, Version.isValid, if_pos hvalid, hread]
    rfl
  · rw [dif_neg hvalid, Version.isValid, if_neg hvalid]
    rfl

/-- So a word is refused only for being neither a connective nor a version. -/
theorem word_eq (input : String) (offset : Nat) (text : String) :
    word input offset text = (word? text).elim
      (.error (.parse (.operandInvalid text offset) input ⟨offset, byteLength text.toList⟩)) .ok := by
  unfold word
  rw [parse_of_isValid]
  fun_cases word? text with
  | case1 h | case2 h | case3 h =>
    rw [h]
    rfl
  | case4 hand hor hnot =>
    split
    · exact absurd ‹_› hand
    · exact absurd ‹_› hor
    · exact absurd ‹_› hnot
    · rfl

/-- What stands at the front of the text `c :: rest`: what `next` finds there, without its place. -/
def front? (c : Char) (rest : List Char) : Option (Option TokenKind × Nat) :=
  if isBlank c then some (none, 0)
  else if isVersionChar c then
    (word? (String.ofList (c :: rest.takeWhile isVersionChar))).map fun kind =>
      (some kind, (rest.takeWhile isVersionChar).length)
  else (operator? (c :: rest)).map fun found => (some found.1, found.2)

/-- The kinds of the tokens of a text, if it is cut into tokens at all. -/
def kinds? : List Char → Option (List TokenKind)
  | [] => some []
  | c :: rest =>
    match front? c rest with
    | none => none
    | some (found, extra) => (kinds? (rest.drop extra)).map (found.toList ++ ·)
termination_by text => text.length
decreasing_by simp only [List.length_drop, List.length_cons]; omega

theorem front?_eq_next (input : String) (offset : Nat) (c : Char) (rest : List Char) :
    front? c rest
      = (next input offset c rest).toOption.map fun found => (found.1.map Token.kind, found.2) := by
  unfold front? next
  split
  · rfl
  · split
    · dsimp only
      rw [word_eq]
      cases word? (String.ofList (c :: rest.takeWhile isVersionChar)) <;> rfl
    · cases operator? (c :: rest) with
      | none => by_cases h : c = '~' <;> simp [h, Except.toOption]
      | some found => rfl

/-- Scanning a text gives tokens of its kinds, wherever the text begins. -/
theorem kinds?_eq_scan (input : String) (offset : Nat) (text : List Char) :
    kinds? text = (scan input offset text).toOption.map (List.map Token.kind) := by
  fun_induction scan input offset text with
  | case1 => simp [kinds?, Except.toOption]
  | case2 offset c rest e h =>
    rw [kinds?, front?_eq_next input offset, h]
    rfl
  | case3 offset c rest found extra h e he ih =>
    rw [kinds?, front?_eq_next input offset, h]
    simp only [Except.toOption, Option.map_some, ih, he]
    rfl
  | case4 offset c rest found extra h later hlater ih =>
    rw [kinds?, front?_eq_next input offset, h]
    simp only [Except.toOption, Option.map_some, ih, hlater]
    cases found <;> rfl

/-- A text that has kinds is scanned, to tokens of these kinds. -/
theorem scan_of_kinds? {text : List Char} {ks : List TokenKind} (h : kinds? text = some ks)
    (input : String) (offset : Nat) :
    ∃ tokens, scan input offset text = .ok tokens ∧ tokens.map Token.kind = ks := by
  rw [kinds?_eq_scan input offset] at h
  cases hscan : scan input offset text with
  | error e => simp [hscan, Except.toOption] at h
  | ok tokens => exact ⟨tokens, rfl, by simpa [hscan, Except.toOption] using h⟩

/-! ## §2. Where a token ends. -/

/-- Whether a character never continues a token that has begun before it. -/
def separates (c : Char) : Bool :=
  !isVersionChar c && c ≠ '=' && c ≠ '&' && c ≠ '|' && c ≠ '>'

theorem separates_of_isBlank {c : Char} (h : isBlank c = true) : separates c = true := by
  have hoperator : c ≠ '=' ∧ c ≠ '&' ∧ c ≠ '|' ∧ c ≠ '>' := by
    refine ⟨?_, ?_, ?_, ?_⟩ <;> rintro rfl <;> exact absurd h (by decide)
  simp [separates, not_isVersionChar_of_isBlank h, hoperator]

/-- A text that does not begin with `e` does not come to by what is put behind it. -/
theorem append_ne_cons {d e : Char} {text ds : List Char}
    (h : ∀ tail, text = e :: tail → False) (hd : text = [] → d ≠ e) :
    ∀ tail, text ++ d :: ds = e :: tail → False := by
  intro tail heq
  cases text with
  | nil => exact hd rfl (List.cons.inj heq).1
  | cons c text => exact h text (by rw [(List.cons.inj heq).1])

/-- The operator at the front of a text ends before a separating character. -/
theorem operator?_append {d : Char} (hd : separates d = true) {text : List Char} (hne : text ≠ [])
    (ds : List Char) : operator? (text ++ d :: ds) = operator? text := by
  simp only [separates, Bool.and_eq_true, decide_eq_true_eq] at hd
  obtain ⟨⟨⟨⟨-, hequal⟩, hand⟩, hor⟩, habove⟩ := hd
  fun_cases operator? text with
  | case4 tail h | case6 tail h | case8 tail h | case10 tail h | case12 tail h | case14 tail h =>
    -- the operator has one character, and `d` does not make it one of two
    show operator? (_ :: (tail ++ d :: ds)) = _
    rw [operator?]
    exact append_ne_cons h fun _ => ‹_›
  | case16 =>
    have hfront : ∀ e, (∀ tail, text = e :: tail → False) →
        ∀ tail, text ++ d :: ds = e :: tail → False :=
      fun e h => append_ne_cons h fun hnil => absurd hnil hne
    have hpair : ∀ tail, text ++ d :: ds = '~' :: '>' :: tail → False := by
      intro tail heq
      obtain ⟨c, rest, rfl⟩ := List.exists_cons_of_ne_nil hne
      obtain ⟨rfl, hrest⟩ := List.cons.inj heq
      have hnone : ∀ tail, '~' :: rest = '~' :: '>' :: tail → False := ‹_›
      exact append_ne_cons (fun tail h => hnone tail (by rw [h])) (fun _ => habove) tail hrest
    rw [operator?]
    -- a pair other than "~>" begins with an operator, and there is none at the front
    all_goals first
      | exact hfront _ ‹_›
      | exact hpair
      | exact fun tail heq => hfront _ ‹_› _ heq
  | _ => rfl

theorem lt_length_of_operator? {text : List Char} {found : TokenKind × Nat}
    (h : operator? text = some found) : found.2 < text.length := by
  unfold operator? at h
  split at h <;> cases h <;> simp

theorem takeWhile_append_cons {p : Char → Bool} {d : Char} (hd : p d = false) (cs ds : List Char) :
    (cs ++ d :: ds).takeWhile p = cs.takeWhile p := by
  rw [List.takeWhile_append]
  split
  · rename_i hlength
    rw [(List.takeWhile_prefix p).eq_of_length hlength]
    simp [hd]
  · rfl

/-- What stands at the front of a text ends before a separating character. -/
theorem front?_append {d : Char} (hd : separates d = true) (c : Char) (rest ds : List Char) :
    front? c (rest ++ d :: ds) = front? c rest := by
  have hversion : isVersionChar d = false := by
    simp only [separates, Bool.and_eq_true] at hd
    simpa using hd.1.1.1.1
  have hoperator : operator? (c :: (rest ++ d :: ds)) = operator? (c :: rest) :=
    operator?_append hd (List.cons_ne_nil c rest) ds
  unfold front?
  rw [takeWhile_append_cons hversion, hoperator]

theorem le_length_of_front? {c : Char} {rest : List Char} {found : Option TokenKind} {extra : Nat}
    (h : front? c rest = some (found, extra)) : extra ≤ rest.length := by
  unfold front? at h
  split at h
  · cases h
    exact Nat.zero_le _
  · split at h
    · obtain ⟨kind, -, heq⟩ := Option.map_eq_some_iff.1 h
      cases heq
      exact (List.takeWhile_prefix _).length_le
    · obtain ⟨⟨kind, n⟩, hfound, heq⟩ := Option.map_eq_some_iff.1 h
      cases heq
      exact Nat.le_of_lt_succ (lt_length_of_operator? hfound)

/-! ## §3. Cutting a text. -/

theorem kinds?_cons {c : Char} {rest : List Char} {found : Option TokenKind} {extra : Nat}
    (h : front? c rest = some (found, extra)) :
    kinds? (c :: rest) = (kinds? (rest.drop extra)).map (found.toList ++ ·) := by
  rw [kinds?, h]

/-- A text that is cut in front of a separating character has the kinds of its two parts. -/
theorem kinds?_append {d : Char} (hd : separates d = true) (text ds : List Char) :
    kinds? (text ++ d :: ds)
      = (kinds? text).bind fun ks => (kinds? (d :: ds)).map (ks ++ ·) := by
  fun_induction kinds? text with
  | case1 => simp
  | case2 c rest h =>
    rw [List.cons_append, kinds?, front?_append hd, h]
    rfl
  | case3 c rest found extra h ih =>
    have hdrop : (rest ++ d :: ds).drop extra = rest.drop extra ++ d :: ds :=
      List.drop_append_of_le_length (le_length_of_front? h)
    rw [List.cons_append, kinds?_cons ((front?_append hd c rest ds).trans h), hdrop, ih]
    cases kinds? (rest.drop extra) <;> cases kinds? (d :: ds) <;> simp

/-- A blank at the front is skipped. -/
theorem kinds?_blank {c : Char} (h : isBlank c = true) (rest : List Char) :
    kinds? (c :: rest) = kinds? rest := by
  have hfront : front? c rest = some (none, 0) := by simp only [front?, h, if_true]
  rw [kinds?_cons hfront]
  simp

theorem kinds?_dropWhile (text : List Char) : kinds? (text.dropWhile isBlank) = kinds? text := by
  induction text with
  | nil => rfl
  | cons c rest ih =>
    rw [List.dropWhile_cons]
    split
    · rename_i h
      rw [ih, kinds?_blank h]
    · rfl

/-- Blanks alone are no tokens. -/
theorem kinds?_of_forall {text : List Char} (h : ∀ c ∈ text, isBlank c = true) :
    kinds? text = some [] := by
  induction text with
  | nil => simp [kinds?]
  | cons c rest ih =>
    rw [kinds?_blank (h c List.mem_cons_self)]
    exact ih fun d hd => h d (List.mem_cons_of_mem c hd)

theorem kinds?_trimBack (text : List Char) : kinds? (trimBack text) = kinds? text := by
  have hcut : trimBack text ++ (text.reverse.takeWhile isBlank).reverse = text := by
    rw [trimBack, ← List.reverse_append, List.takeWhile_append_dropWhile, List.reverse_reverse]
  have hblank : ∀ c ∈ (text.reverse.takeWhile isBlank).reverse, isBlank c = true :=
    fun c hc => List.all_eq_true.1 List.all_takeWhile c (List.mem_reverse.1 hc)
  generalize (text.reverse.takeWhile isBlank).reverse = blanks at hcut hblank
  generalize trimBack text = front at hcut
  subst hcut
  cases blanks with
  | nil => rw [List.append_nil]
  | cons d ds =>
    have hd : separates d = true := separates_of_isBlank (hblank d List.mem_cons_self)
    rw [kinds?_append hd, kinds?_of_forall hblank]
    cases kinds? front <;> simp

/-- A text has the kinds that it has without its blank ends. -/
theorem kinds?_trimChars (text : List Char) : kinds? (trimChars text) = kinds? text := by
  rw [trimChars, kinds?_trimBack, trimFront, kinds?_dropWhile]

/-! ## §4. Brackets and conjunctions. -/

/-- The kinds of a text in brackets. -/
theorem kinds?_brackets {text : List Char} {ks : List TokenKind} (h : kinds? text = some ks) :
    kinds? ('(' :: (text ++ [')'])) = some (.openBracket :: (ks ++ [.closeBracket])) := by
  have hclose : kinds? [')'] = some [.closeBracket] := by
    rw [kinds?_cons (rfl : front? ')' [] = some (some .closeBracket, 0))]
    simp [kinds?]
  rw [kinds?_cons (rfl : front? '(' _ = some (some .openBracket, 0)), List.drop_zero,
    kinds?_append (by decide), h, hclose]
  rfl

/-- The kinds of two texts with a connective of one character between them. -/
theorem kinds?_between {d : Char} {k : TokenKind} {text other : List Char} {ks ls : List TokenKind}
    (hd : front? d (' ' :: other) = some (some k, 0)) (h : kinds? text = some ks)
    (hother : kinds? other = some ls) :
    kinds? (text ++ ' ' :: d :: ' ' :: other) = some (ks ++ k :: ls) := by
  have hconnective : kinds? (d :: ' ' :: other) = some (k :: ls) := by
    rw [kinds?_cons hd, List.drop_zero, kinds?_blank (by decide), hother]
    rfl
  rw [kinds?_append (by decide), h, kinds?_blank (by decide), hconnective]
  rfl

/-- The kinds of two texts with a "&" between them. -/
theorem kinds?_both {text other : List Char} {ks ls : List TokenKind} (h : kinds? text = some ks)
    (hother : kinds? other = some ls) :
    kinds? (text ++ ' ' :: '&' :: ' ' :: other) = some (ks ++ .conjunction :: ls) :=
  kinds?_between rfl h hother

/-! ## §5. Versions. -/

/-- A version is no connective, since it has a digit. -/
theorem word?_text (v : Version) : word? v.text = some (.version v) := by
  have hdigit : (lower v.text).toList.any Char.isDigit = true := by
    obtain ⟨c, hc, hc'⟩ := List.any_eq_true.1 (Bool.and_eq_true_iff.1 v.wellFormed).2
    rw [lower, String.toList_ofList]
    exact List.any_eq_true.2 ⟨c, List.mem_map.2 ⟨c, hc, toLower_of_isDigit hc'⟩, hc'⟩
  have hconnective : ∀ word ∈ ["and", "or", "not"], lower v.text ≠ word := by
    intro word hword heq
    have hnone : ∀ word ∈ ["and", "or", "not"], word.toList.any Char.isDigit = false := by decide
    exact Bool.false_ne_true ((hnone word hword).symm.trans (heq ▸ hdigit))
  unfold word?
  split
  · exact absurd ‹_› (hconnective "and" (by simp))
  · exact absurd ‹_› (hconnective "or" (by simp))
  · exact absurd ‹_› (hconnective "not" (by simp))
  · rw [Version.ofText?_text]
    rfl

/-- The text of a version is one token. -/
theorem kinds?_text (v : Version) : kinds? v.text.toList = some [.version v] := by
  have hchars := v.isVersionChar_of_mem_text
  have hdigit : v.text.toList.any Char.isDigit = true := (Bool.and_eq_true_iff.1 v.wellFormed).2
  cases hcs : v.text.toList with
  | nil => exact absurd (hcs ▸ hdigit) (by decide)
  | cons c rest =>
    rw [hcs] at hchars
    have hc : isVersionChar c = true := hchars c List.mem_cons_self
    have hrest : rest.takeWhile isVersionChar = rest := by
      simpa using @List.takeWhile_append_of_pos _ isVersionChar rest []
        fun d hd => hchars d (List.mem_cons_of_mem c hd)
    have hword : word? (String.ofList (c :: rest)) = some (.version v) := by
      rw [← hcs, String.ofList_toList, word?_text]
    have hfront : front? c rest = some (some (.version v), rest.length) := by
      simp only [front?, isBlank_of_isVersionChar hc, hc, hrest, hword]
      rfl
    rw [kinds?_cons hfront, List.drop_length, kinds?]
    rfl

end DependencyScope.Token
