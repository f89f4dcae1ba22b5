/-
  DependencyScope.Proofs.Requirement.Spans — where the tokens of a requirement stand, and what a
  refusal points at.

  Places are counted in bytes, while a text is read by characters.  A place is sound if it is where
  some piece of the text stands: then it lies inside the text and does not split a character.

      "\u00a0>=1 é"     refused at ⟨6, 2⟩: the character, behind a blank of two bytes
      "1 | ~> )"        refused at ⟨7, 1⟩: the bracket, where a version has to come

  Main definitions:
    * `Token.Piece` — what may stand at the front of a text: one token or one blank;
    * `Token.Cuts` — a text is cut into pieces, up to a rest;
    * `Token.Offends` — a character or a word that begins no token;
    * `Requirement.Blames` — what the place of a refusal may be.

  Main results:
    * `Token.cuts_of_scan`, `Token.cuts_of_error` — scanning cuts a text, to its end or to what it
      cannot read;
    * `Condition.read_fault` — the parser points at a token or behind all of them;
    * `Requirement.spans_of_parse` — both, for the places that reading a requirement reports.
-/
import DependencyScope.Proofs.Requirement.Source

namespace DependencyScope

open DependencyScope.Text

/-! ## §1. Bytes. -/

theorem Text.byteLength_eq_utf8ByteSize (cs : List Char) :
    byteLength cs = (String.ofList cs).utf8ByteSize := by
  induction cs with
  | nil => rfl
  | cons c cs ih =>
    rw [byteLength_cons, ih, ← @String.utf8ByteSize_singleton c, ← String.utf8ByteSize_append,
      String.singleton_eq_ofList, ← String.ofList_append]
    rfl

theorem Text.byteLength_toList (s : String) : byteLength s.toList = s.utf8ByteSize := by
  rw [byteLength_eq_utf8ByteSize, String.ofList_toList]

namespace Token

/-! ## §2. Pieces. -/

/-- No version character stands on both sides of the cut. -/
def Parts (before after : List Char) : Prop :=
  ∀ d ∈ before.getLast?, ∀ e ∈ after.head?, isVersionChar d = true → isVersionChar e = false

theorem Parts.append {front before after : List Char} (h : Parts front (before ++ after))
    (h' : Parts before after) : Parts (front ++ before) after := by
  intro d hd
  rw [List.getLast?_append] at hd
  cases hlast : before.getLast? with
  | none =>
    obtain rfl := List.getLast?_eq_none_iff.1 hlast
    exact h d (by simpa using hd)
  | some e =>
    rw [hlast] at hd
    exact h' d (hlast.trans hd)

/-- The text `c :: tail` is one blank or one token, whatever it is part of and whatever is left of
`beyond` behind it. -/
structure Piece (offset : Nat) (c : Char) (tail beyond : List Char) (found : Option Token) :
    Prop where
  blank : found = none → isBlank c = true ∧ tail = []
  token : ∀ token ∈ found, token.span = ⟨offset, byteLength (c :: tail)⟩ ∧
    ∀ d ∈ c :: tail, isBlank d = false
  parts : Parts (c :: tail) beyond
  again : ∀ input before after, beyond = before ++ after →
    next input offset c (tail ++ before) = .ok (found, tail.length)

variable {input : String} {offset extra : Nat} {c : Char} {text tail beyond rest : List Char}
  {found : Option Token} {tokens : List Token}

theorem piece_blank (h : isBlank c = true) : Piece offset c [] beyond none where
  blank _ := ⟨h, rfl⟩
  token _ hnone := nomatch hnone
  parts d hd _ _ hversion := by
    obtain rfl : c = d := by simpa using hd
    exact absurd hversion (by simp [not_isVersionChar_of_isBlank h])
  again _ before _ _ := by simp [next, h]

theorem piece_word {kind : TokenKind} (h : isVersionChar c = true)
    (htail : ∀ d ∈ tail, isVersionChar d = true)
    (hbeyond : ∀ e ∈ beyond.head?, isVersionChar e = false)
    (hword : word? (String.ofList (c :: tail)) = some kind) :
    Piece offset c tail beyond (some ⟨kind, ⟨offset, byteLength (c :: tail)⟩⟩) where
  blank hnone := nomatch hnone
  token token htoken := by
    obtain rfl := Option.some.inj htoken
    refine ⟨rfl, List.forall_mem_cons.2 ⟨isBlank_of_isVersionChar h, ?_⟩⟩
    exact fun d hd => isBlank_of_isVersionChar (htail d hd)
  parts _ _ e he _ := hbeyond e he
  again input before after heq := by
    have hbefore : ∀ e ∈ before.head?, isVersionChar e = false := by
      intro e he
      refine hbeyond e ?_
      rw [heq, List.head?_append, Option.mem_def.1 he]
      rfl
    have hrun : (tail ++ before).takeWhile isVersionChar = tail :=
      takeWhile_append_eq_left htail hbefore
    simp only [next, isBlank_of_isVersionChar h, h, hrun, word_eq, hword]
    rfl

/-- What comes behind the first character of an operator is neither blank nor part of a word. -/
theorem operator?_second {kind : TokenKind} (h : operator? text = some (kind, extra)) :
    ∀ d ∈ text.tail.take extra, isBlank d = false ∧ isVersionChar d = false := by
  unfold operator? at h
  split at h <;> cases h <;> simp <;> decide

/-- An operator is found again when the text behind it is cut. -/
theorem operator?_cut {kind : TokenKind} {before after : List Char}
    (h : operator? (c :: (tail ++ (before ++ after))) = some (kind, tail.length)) :
    operator? (c :: (tail ++ before)) = some (kind, tail.length) := by
  generalize htext : c :: (tail ++ (before ++ after)) = text at h
  generalize hlength : tail.length = extra at h ⊢
  revert h
  fun_cases operator? text with
  | case1 | case2 =>
    rintro ⟨⟩
    cases htext
    rfl
  -- the operator has two characters, and the second one is kept
  | case3 | case5 | case7 | case9 | case11 | case13 | case15 =>
    rintro ⟨⟩
    obtain ⟨rfl, hrest⟩ := List.cons.inj htext
    obtain ⟨d, rfl⟩ := List.length_eq_one_iff.1 hlength
    cases hrest
    rfl
  -- it has one, and no second one comes to it
  | case4 _ hsecond | case6 _ hsecond | case8 _ hsecond | case10 _ hsecond | case12 _ hsecond
  | case14 _ hsecond =>
    rintro ⟨⟩
    obtain ⟨rfl, hrest⟩ := List.cons.inj htext
    rw [operator?]
    intro more heq
    apply hsecond (more ++ after)
    rw [← hrest, ← List.append_assoc, heq, List.cons_append]
  | case16 => rintro ⟨⟩

theorem piece_operator {kind : TokenKind} (hblank : isBlank c = false)
    (hversion : isVersionChar c = false)
    (h : operator? (c :: (tail ++ beyond)) = some (kind, tail.length)) :
    Piece offset c tail beyond (some ⟨kind, ⟨offset, byteLength (c :: tail)⟩⟩) where
  blank hnone := nomatch hnone
  token token htoken := by
    obtain rfl := Option.some.inj htoken
    refine ⟨rfl, List.forall_mem_cons.2 ⟨hblank, fun d hd => ?_⟩⟩
    exact (operator?_second h d (by simpa using hd)).1
  parts d hd _ _ hd' := by
    have hmem : d ∈ c :: tail := List.mem_of_mem_getLast? hd
    rcases List.mem_cons.1 hmem with rfl | htail
    · exact absurd hd' (by simp [hversion])
    · exact absurd hd' (by simp [(operator?_second h d (by simpa using htail)).2])
  again _ before after heq := by
    have hcut := operator?_cut (heq ▸ h)
    simp [next, hblank, hversion, hcut]

/-- Whatever is found at the front of a text is a piece of it. -/
theorem piece_of_next (h : next input offset c rest = .ok (found, extra)) :
    ∃ tail beyond, rest = tail ++ beyond ∧ extra = tail.length ∧
      Piece offset c tail beyond found := by
  unfold next at h
  split at h
  · obtain ⟨rfl, rfl⟩ := Prod.mk.inj (Except.ok.inj h)
    -- a blank
    exact ⟨[], rest, rfl, rfl, piece_blank ‹_›⟩
  · rename_i hblank
    split at h
    · rename_i hversion
      dsimp only at h
      rw [word_eq] at h
      -- a whole word, which is told apart by what comes behind it
      cases hword : word? (String.ofList (c :: rest.takeWhile isVersionChar)) with
      | some kind =>
        rw [hword] at h
        obtain ⟨rfl, rfl⟩ := Prod.mk.inj (Except.ok.inj h)
        exact ⟨_, rest.dropWhile isVersionChar, List.takeWhile_append_dropWhile.symm, rfl,
          piece_word hversion (List.all_eq_true.1 List.all_takeWhile)
            not_of_mem_head?_dropWhile hword⟩
      | none =>
        rw [hword] at h
        exact nomatch h
    · rename_i hversion
      split at h
      · rename_i kind extra' hoperator
        obtain ⟨rfl, rfl⟩ := Prod.mk.inj (Except.ok.inj h)
        -- an operator, which does not reach beyond the text
        have hle : extra' ≤ rest.length := Nat.le_of_lt_succ (lt_length_of_operator? hoperator)
        have hlength : (rest.take extra').length = extra' := List.length_take_of_le hle
        refine ⟨rest.take extra', rest.drop extra', (List.take_append_drop extra' rest).symm,
          hlength.symm, piece_operator (by simpa using hblank) (by simpa using hversion) ?_⟩
        rw [List.take_append_drop, hlength, hoperator]
      · split at h <;> exact nomatch h

/-! ## §3. Cutting a text into pieces. -/

/-- From `offset` on, the text is cut into pieces with these tokens, up to `rest`. -/
inductive Cuts : Nat → List Char → List Token → List Char → Prop
  | done (offset : Nat) (rest : List Char) : Cuts offset rest [] rest
  | piece {offset : Nat} {c : Char} {tail beyond rest : List Char} {found : Option Token}
      {tokens : List Token} : Piece offset c tail beyond found →
      Cuts (offset + byteLength (c :: tail)) beyond tokens rest →
      Cuts offset (c :: (tail ++ beyond)) (found.toList ++ tokens) rest

/-- A text that is scanned is cut to its end. -/
theorem cuts_of_scan (h : scan input offset text = .ok tokens) : Cuts offset text tokens [] := by
  fun_induction scan input offset text generalizing tokens with
  | case1 =>
    cases h
    exact .done _ _
  | case2 | case3 => cases h
  | case4 offset c rest found extra hnext later hlater ih =>
    cases h
    obtain ⟨tail, beyond, rfl, rfl, hpiece⟩ := piece_of_next hnext
    rw [List.take_left, List.drop_left] at ih hlater
    exact .piece hpiece (ih hlater)

/-- A text that is not scanned is cut up to where nothing can be read. -/
theorem cuts_of_error {e : Error} (h : scan input offset text = .error e) :
    ∃ before tokens c rest, text = before ++ c :: rest ∧ Cuts offset text tokens (c :: rest) ∧
      next input (offset + byteLength before) c rest = .error e := by
  fun_induction scan input offset text with
  | case1 | case4 => cases h
  | case2 offset c rest _ hnext =>
    cases h
    exact ⟨[], [], c, rest, rfl, .done _ _, hnext⟩
  | case3 offset c rest found extra hnext _ hlater ih =>
    cases h
    obtain ⟨tail, beyond, rfl, rfl, hpiece⟩ := piece_of_next hnext
    rw [List.take_left, List.drop_left] at ih hlater
    obtain ⟨before, tokens, d, rest, rfl, hcuts, he⟩ := ih hlater
    refine ⟨c :: tail ++ before, found.toList ++ tokens, d, rest, by simp, .piece hpiece hcuts, ?_⟩
    rw [byteLength_append, ← Nat.add_assoc, he]

/-- What is in front of the rest is scanned when it stands alone, and the rest does not begin
within a word. -/
theorem Cuts.front (input : String) (h : Cuts offset text tokens rest) :
    ∃ before, text = before ++ rest ∧ scan input offset before = .ok tokens ∧
      Parts before rest := by
  induction h with
  | done offset rest => exact ⟨[], rfl, by rw [scan], fun _ hd => nomatch hd⟩
  | @piece offset c tail beyond rest found tokens hpiece _ ih =>
    obtain ⟨before, rfl, hscan, hparts⟩ := ih
    refine ⟨c :: tail ++ before, by simp, ?_, hpiece.parts.append hparts⟩
    rw [List.cons_append, scan, hpiece.again input before rest rfl]
    simp only [List.take_left, List.drop_left, hscan]

/-- Every token is read from a piece of the text without blanks. -/
theorem Cuts.slices (h : Cuts offset text tokens rest) :
    ∀ token ∈ tokens, ∃ before piece after, text = before ++ piece ++ after ∧ piece ≠ [] ∧
      (∀ d ∈ piece, isBlank d = false) ∧
      token.span = ⟨offset + byteLength before, byteLength piece⟩ := by
  induction h with
  | done => simp
  | @piece offset c tail beyond rest found tokens hpiece _ ih =>
    intro token htoken
    rcases List.mem_append.1 htoken with hfound | hlater
    · obtain ⟨hspan, hblank⟩ := hpiece.token token (Option.mem_toList.1 hfound)
      exact ⟨[], c :: tail, beyond, rfl, by simp, hblank, hspan⟩
    · obtain ⟨before, piece, after, rfl, hne, hblank, hspan⟩ := ih token hlater
      refine ⟨c :: tail ++ before, piece, after, by simp, hne, hblank, ?_⟩
      rw [hspan, byteLength_append, Nat.add_assoc]

/-- A token ends before the next one begins. -/
theorem Cuts.pairwise (h : Cuts offset text tokens rest) :
    tokens.Pairwise fun s t => s.span.offset + s.span.length ≤ t.span.offset := by
  induction h with
  | done => exact .nil
  | @piece offset c tail beyond rest found tokens hpiece hcuts ih =>
    cases found with
    | none => exact ih
    | some token =>
      refine .cons ?_ ih
      intro later hlater
      obtain ⟨before, piece, after, -, -, -, hspan⟩ := hcuts.slices later hlater
      rw [(hpiece.token token rfl).1, hspan]
      exact Nat.le_add_right _ _

/-- In a text that is cut to its end, every character is a blank or within a token. -/
theorem Cuts.covers (h : Cuts offset text tokens []) {before after : List Char}
    (heq : text = before ++ c :: after) (hblank : isBlank c = false) :
    ∃ token ∈ tokens, token.span.offset ≤ offset + byteLength before ∧
      offset + byteLength before + c.utf8Size ≤ token.span.offset + token.span.length := by
  generalize hrest : [] = rest at h
  induction h generalizing before with
  | done =>
    subst hrest
    simp at heq
  | @piece offset d tail beyond rest found tokens hpiece _ ih =>
    -- the character is behind this piece or within it
    have hbehind : ∀ between, before = d :: tail ++ between → beyond = between ++ c :: after →
        ∃ token ∈ found.toList ++ tokens, token.span.offset ≤ offset + byteLength before ∧
          offset + byteLength before + c.utf8Size ≤ token.span.offset + token.span.length := by
      rintro between rfl hbeyond
      obtain ⟨token, htoken, hle, hge⟩ := ih hbeyond hrest
      rw [byteLength_append, ← Nat.add_assoc]
      exact ⟨token, List.mem_append_right _ htoken, hle, hge⟩
    rw [← List.cons_append] at heq
    rcases List.append_eq_append_iff.1 heq with ⟨between, hbefore, hbeyond⟩ | ⟨inside, hpre, hpost⟩
    · exact hbehind between hbefore hbeyond
    · rcases List.cons_eq_append_iff.1 hpost with ⟨rfl, hbeyond⟩ | ⟨inside', rfl, hafter⟩
      · exact hbehind [] (by simpa using hpre.symm) hbeyond
      · cases found with
        | none =>
          obtain ⟨hd, rfl⟩ := hpiece.blank rfl
          obtain rfl : c = d := by
            have hmem : c ∈ [d] := hpre ▸ List.mem_append_right before List.mem_cons_self
            exact List.mem_singleton.1 hmem
          exact absurd hd (by simp [hblank])
        | some token =>
          refine ⟨token, List.mem_cons_self, ?_⟩
          rw [(hpiece.token token rfl).1, hpre, byteLength_append, byteLength_cons]
          dsimp only
          omega

/-! ## §4. What cannot be read. -/

/-- Behind `before`, a character or a whole word stands that begins no token. -/
inductive Offends (before : List Char) : List Char → List Char → Prop
  | character {c : Char} {after : List Char} : isBlank c = false → isVersionChar c = false →
      operator? (c :: after) = none → Offends before [c] after
  | word {cs after : List Char} : cs ≠ [] → (∀ d ∈ cs, isVersionChar d = true) →
      (∀ d ∈ before.getLast?, isVersionChar d = false) →
      (∀ e ∈ after.head?, isVersionChar e = false) → word? (String.ofList cs) = none →
      Offends before cs after

/-- Where nothing can be read, a character or a word is blamed for it. -/
theorem offends_of_next {e : Error} {before : List Char}
    (h : next input offset c rest = .error e) (hparts : Parts before (c :: rest)) :
    ∃ reason blamed after, c :: rest = blamed ++ after ∧
      e = .parse reason input ⟨offset, byteLength blamed⟩ ∧ Offends before blamed after := by
  unfold next at h
  split at h
  · exact nomatch h
  · rename_i hblank
    split at h
    · rename_i hversion
      dsimp only at h
      rw [word_eq] at h
      cases hword : word? (String.ofList (c :: rest.takeWhile isVersionChar)) with
      | some kind =>
        rw [hword] at h
        exact nomatch h
      | none =>
        rw [hword, Option.elim_none, String.toList_ofList] at h
        obtain rfl := Except.error.inj h
        refine ⟨_, c :: rest.takeWhile isVersionChar, rest.dropWhile isVersionChar, by simp, rfl,
          .word (by simp) ?_ ?_ not_of_mem_head?_dropWhile hword⟩
        -- the word is a whole one: it ends before what is no version character,
        -- and none stands before it, as tokens in front have been cut off
        · exact List.forall_mem_cons.2 ⟨hversion, List.all_eq_true.1 List.all_takeWhile⟩
        · intro d hd
          cases hchar : isVersionChar d with
          | false => rfl
          | true => exact absurd hversion (by simp [hparts d hd c rfl hchar])
    · rename_i hversion
      split at h
      · exact nomatch h
      · rename_i hoperator
        have hoffends : Offends before [c] rest :=
          .character (by simpa using hblank) (by simpa using hversion) hoperator
        split at h
        -- an operator that is begun and one that there is not at all are blamed alike
        · rename_i htilde
          cases h
          subst htilde
          exact ⟨_, ['~'], rest, rfl, rfl, hoffends⟩
        · cases h
          exact ⟨_, [c], rest, rfl, rfl, hoffends⟩

/-- A text that is not scanned has a character or a word that begins no token, and the text before
it is scanned. -/
theorem offends_of_scan {e : Error} (h : scan input offset text = .error e) :
    ∃ reason before blamed after tokens, text = before ++ blamed ++ after ∧
      e = .parse reason input ⟨offset + byteLength before, byteLength blamed⟩ ∧
      scan input offset before = .ok tokens ∧ Offends before blamed after := by
  obtain ⟨before, tokens, c, rest, rfl, hcuts, hnext⟩ := cuts_of_error h
  obtain ⟨before', heq, hscan, hparts⟩ := hcuts.front input
  obtain rfl : before = before' := List.append_cancel_right heq
  obtain ⟨reason, blamed, after, hrest, he, hoffends⟩ := offends_of_next hnext hparts
  exact ⟨reason, before, blamed, after, tokens, by rw [hrest, List.append_assoc], he, hscan,
    hoffends⟩

end Token

/-! ## §5. What the parser points at. -/

/-- The parser points at one of the tokens, at a bracket that is open, or behind the text. -/
theorem Condition.read_fault {size : Nat} {tokens : List Token} {complete : Bool} {inner : Level}
    {outer : List (Span × Level)} {fault : Fault}
    (h : Condition.read size tokens complete inner outer = .error fault) :
    fault.span ∈ tokens.map Token.span ∨ fault.span ∈ outer.map Prod.fst ∨
      fault.span = ⟨size, 0⟩ := by
  fun_induction Condition.read size tokens complete inner outer with
  | case2 => cases h
  | case1 =>
    cases h
    exact .inr (.inr rfl)
  | case3 =>
    cases h
    exact .inr (.inl List.mem_cons_self)
  | case5 | case7 | case11 | case14 =>
    cases h
    simp
  | case4 _ _ _ _ _ _ ih | case6 _ _ _ _ _ _ _ _ ih | case8 _ _ _ _ _ ih
  | case12 _ _ _ _ ih | case13 _ _ _ _ ih =>
    rcases ih h with htoken | hrest
    · exact .inl (by simp [htoken])
    · exact .inr hrest
  -- a bracket that is opened is one of the tokens
  | case9 _ _ _ _ _ ih =>
    rcases ih h with htoken | hopening | hend
    · exact .inl (List.mem_cons_of_mem _ htoken)
    · rcases List.mem_cons.1 hopening with heq | houter
      · exact .inl (heq ▸ List.mem_cons_self)
      · exact .inr (.inl houter)
    · exact .inr (.inr hend)
  | case10 _ _ _ _ _ _ ih =>
    rcases ih h with htoken | hopening | hend
    · exact .inl (List.mem_cons_of_mem _ htoken)
    · exact .inr (.inl (List.mem_cons_of_mem _ hopening))
    · exact .inr (.inr hend)

/-! ## §6. Reading a requirement. -/

namespace Requirement

/-- What the stretch `blamed`, between `before` and `after`, is to a text that is refused. -/
inductive Blames (text : String) (before blamed after : List Char) : Prop
  /-- The first character or word that begins no token. -/
  | unreadable {e : Error} {tokens : List Token} : Token.scan text 0 text.toList = .error e →
      Token.scan text 0 before = .ok tokens → Token.Offends before blamed after →
      Blames text before blamed after
  /-- All of a text without tokens. -/
  | whole : Token.scan text 0 text.toList = .ok [] → before = [] → after = [] →
      Blames text before blamed after
  | token {tokens : List Token} {token : Token} : Token.scan text 0 text.toList = .ok tokens →
      token ∈ tokens → token.span = ⟨byteLength before, byteLength blamed⟩ →
      Blames text before blamed after
  /-- The empty stretch behind all tokens. -/
  | behind {token : Token} {tokens : List Token} :
      Token.scan text 0 text.toList = .ok (token :: tokens) → blamed = [] → after = [] →
      Blames text before blamed after

/-- Tokens stand one behind the other, each on a piece of the text without blanks, and every
character that is no blank is within one of them. -/
structure Covers (tokens : List Token) (text : List Char) : Prop where
  ordered : tokens.Pairwise fun s t => s.span.offset + s.span.length ≤ t.span.offset
  slices : ∀ token ∈ tokens, ∃ before piece after, text = before ++ piece ++ after ∧ piece ≠ [] ∧
    (∀ c ∈ piece, isBlank c = false) ∧ token.span = ⟨byteLength before, byteLength piece⟩
  covers : ∀ before c after, text = before ++ c :: after → isBlank c = false →
    ∃ token ∈ tokens, token.span.offset ≤ byteLength before ∧
      byteLength before + c.utf8Size ≤ token.span.offset + token.span.length

theorem covers_of_scan {input : String} {tokens : List Token} {text : List Char}
    (h : Token.scan input 0 text = .ok tokens) : Covers tokens text where
  ordered := (Token.cuts_of_scan h).pairwise
  slices := by simpa using (Token.cuts_of_scan h).slices
  covers before c after heq hblank := by simpa using (Token.cuts_of_scan h).covers heq hblank

/-- A text that is refused is refused for a stretch of it. -/
theorem blames_of_parse {text : String} {e : Error} (h : parse text = .error e) :
    ∃ reason before blamed after, text.toList = before ++ blamed ++ after ∧
      e = .parse reason text ⟨byteLength before, byteLength blamed⟩ ∧
      Blames text before blamed after := by
  unfold parse at h
  split at h
  · rename_i e' hscan
    obtain rfl := Except.error.inj h
    obtain ⟨reason, before, blamed, after, tokens, heq, he, hbefore, hoffends⟩ :=
      Token.offends_of_scan hscan
    rw [Nat.zero_add] at he
    exact ⟨reason, before, blamed, after, heq, he, .unreadable hscan hbefore hoffends⟩
  · rename_i hscan
    obtain rfl := Except.error.inj h
    refine ⟨.requirementEmpty, [], text.toList, [], by simp, ?_, .whole hscan rfl rfl⟩
    rw [Error.parseWhole, byteLength_toList]
    rfl
  · rename_i tokens hne hscan
    split at h
    · rename_i fault hread
      obtain rfl := Except.error.inj h
      rcases Condition.read_fault hread with htoken | hopening | hend
      · obtain ⟨token, htoken, hspan⟩ := List.mem_map.1 htoken
        obtain ⟨before, piece, after, heq, -, -, hslice⟩ := (covers_of_scan hscan).slices token htoken
        refine ⟨fault.reason, before, piece, after, heq, ?_, .token hscan htoken hslice⟩
        rw [Fault.toError, ← hspan, hslice]
      -- no bracket is open in the beginning
      · exact nomatch hopening
      · obtain ⟨token, later, rfl⟩ := List.exists_cons_of_ne_nil hne
        refine ⟨fault.reason, text.toList, [], [], by simp, ?_, .behind hscan rfl rfl⟩
        rw [Fault.toError, hend, byteLength_toList]
        rfl
    · exact nomatch h

/-- A refusal carries the text itself and a stretch of it, which is what could not be read, a token,
or the end.  The tokens of a text that has them stand in order and leave out blanks only. -/
theorem spans_of_parse (text : String) :
    (∀ e, parse text = .error e → ∃ reason before blamed after,
      text.toList = before ++ blamed ++ after ∧
      e = .parse reason text ⟨byteLength before, byteLength blamed⟩ ∧
      byteLength before + byteLength blamed ≤ text.utf8ByteSize ∧
      Blames text before blamed after) ∧
    ∀ tokens, Token.scan text 0 text.toList = .ok tokens → Covers tokens text.toList := by
  refine ⟨fun e h => ?_, fun tokens h => covers_of_scan h⟩
  obtain ⟨reason, before, blamed, after, heq, he, hblames⟩ := blames_of_parse h
  refine ⟨reason, before, blamed, after, heq, he, ?_, hblames⟩
  rw [← byteLength_toList, heq, byteLength_append, byteLength_append]
  exact Nat.le_add_right _ _

/-- A character that begins no token, behind a blank of two bytes, and a bracket where a version has
to come. -/
theorem spans_of_parse_refused :
    (∃ before blamed after, "\u00a0>=1 é".toList = before ++ blamed ++ after ∧
      byteLength before = 6 ∧ byteLength blamed = 2 ∧
      Blames "\u00a0>=1 é" before blamed after) ∧
    (∃ before blamed after, "1 | ~> )".toList = before ++ blamed ++ after ∧
      byteLength before = 7 ∧ byteLength blamed = 1 ∧
      Blames "1 | ~> )" before blamed after) ∧
    ∃ tokens, Token.scan "1 | ~> )" 0 "1 | ~> )".toList = .ok tokens ∧
      Covers tokens "1 | ~> )".toList := by
  have hscan : Token.scan "\u00a0>=1 é" 0 "\u00a0>=1 é".toList
      = .error (.parse (.requirementCharacter 'é' 6) "\u00a0>=1 é" ⟨6, 2⟩) := by decide +kernel
  have hscan' : Token.scan "1 | ~> )" 0 "1 | ~> )".toList
      = .ok [⟨.version ⟨"1", by decide⟩, ⟨0, 1⟩⟩, ⟨.disjunction, ⟨2, 1⟩⟩,
        ⟨.comparator .pessimistic, ⟨4, 2⟩⟩, ⟨.closeBracket, ⟨7, 1⟩⟩] := by decide +kernel
  have hparse : parse "\u00a0>=1 é"
      = .error (.parse (.requirementCharacter 'é' 6) "\u00a0>=1 é" ⟨6, 2⟩) := by
    simp only [parse, hscan]
  have hparse' : parse "1 | ~> )"
      = .error (.parse (.operandExpected .pessimistic .closeBracket) "1 | ~> )" ⟨7, 1⟩) := by
    simp only [parse, hscan']
    rfl
  obtain ⟨reason, before, blamed, after, heq, he, -, hblames⟩ := (spans_of_parse _).1 _ hparse
  obtain ⟨reason', before', blamed', after', heq', he', -, hblames'⟩ :=
    (spans_of_parse _).1 _ hparse'
  obtain ⟨-, -, hspan⟩ := Error.parse.inj he
  obtain ⟨-, -, hspan'⟩ := Error.parse.inj he'
  obtain ⟨hbefore, hblamed⟩ := Span.mk.inj hspan
  obtain ⟨hbefore', hblamed'⟩ := Span.mk.inj hspan'
  exact ⟨⟨before, blamed, after, heq, hbefore.symm, hblamed.symm, hblames⟩,
    ⟨before', blamed', after', heq', hbefore'.symm, hblamed'.symm, hblames'⟩,
    _, hscan', (spans_of_parse _).2 _ hscan'⟩

end Requirement

end DependencyScope
