/-
  DependencyScope.Proofs.Requirement.Suggested — the default of a requirement, read off its tokens.

  The default is looked for in the condition, that is, in what brackets, connectives and splicing
  have made of the text.  It can be read off the tokens instead, which show nothing of this: it is
  the version of the last comparator term that is an anchor and that no negation has in its operand.

      (>=1 | !(=2 >=3)) & ((<4))      suggests 1: the negation hides 2 and 3, and "<" is no anchor

  Main definitions:
    * `Negated` — a version stands in the operand of a negation;
    * `exposed` — the comparator terms of which this is not so;
    * `lastAnchored?` — the last anchor among them.

  Main results:
    * `Derives.suggests` — a derivable stretch exposes terms, and the reader makes of it what
      suggests the last anchor of them, whatever stands before it and behind it;
    * `Requirement.default?_of_parse` — the default of a requirement that was read.
-/
import DependencyScope.Proofs.Requirement.Intersect
import DependencyScope.Proofs.Requirement.Render

namespace DependencyScope

/-! ## §1. Comparator terms outside of negations. -/

/-- What a version behind these tokens is compared by: the comparator before it, or "=" if there is
none. -/
def comparedBy (front : List TokenKind) : Comparator :=
  match front.getLast? with
  | some (.comparator c) => c
  | _ => .equal

/-- The version between `front` and `back` stands in the operand of a negation: a negation in
`front` has a term behind it that reaches beyond the version. -/
def Negated (front : List TokenKind) (v : Version) (back : List TokenKind) : Prop :=
  ∃ before inside more after value, front = before ++ .negation :: inside ∧
    back = more ++ after ∧ Derives .term (inside ++ .version v :: more) value

open Classical in
/-- The comparator terms, in order, that stand behind `front` and in the operand of no negation. -/
noncomputable def exposedFrom (front : List TokenKind) :
    List TokenKind → List (Comparator × Version)
  | [] => []
  | .version v :: back =>
    (if Negated front v back then [] else [(comparedBy front, v)])
      ++ exposedFrom (front ++ [.version v]) back
  | k :: back => exposedFrom (front ++ [k]) back

/-- The comparator terms, in order, that stand in the operand of no negation. -/
noncomputable def exposed (ks : List TokenKind) : List (Comparator × Version) := exposedFrom [] ks

/-- The version of the last term whose comparator is an anchor. -/
def lastAnchored? (terms : List (Comparator × Version)) : Option Version :=
  (terms.filter (·.1.isAnchor)).getLast?.map Prod.snd

theorem lastAnchored?_append (ts us : List (Comparator × Version)) :
    lastAnchored? (ts ++ us) = (lastAnchored? us).or (lastAnchored? ts) := by
  rw [lastAnchored?, List.filter_append, List.getLast?_append, Option.map_or]
  rfl

theorem exposedFrom_skip {k : TokenKind} (hk : ∀ v, k ≠ .version v) (front back : List TokenKind) :
    exposedFrom front (k :: back) = exposedFrom (front ++ [k]) back := by
  cases k with
  | version v => exact absurd rfl (hk v)
  | _ => rfl

theorem exposedFrom_negated {front back : List TokenKind} {v : Version}
    (h : Negated front v back) :
    exposedFrom front (.version v :: back) = exposedFrom (front ++ [.version v]) back := by
  rw [exposedFrom, if_pos h, List.nil_append]

theorem exposedFrom_version {front back : List TokenKind} {v : Version}
    (h : ¬ Negated front v back) :
    exposedFrom front (.version v :: back)
      = (comparedBy front, v) :: exposedFrom (front ++ [.version v]) back := by
  rw [exposedFrom, if_neg h, List.singleton_append]

theorem comparedBy_concat {k : TokenKind} (hk : ∀ c, k ≠ .comparator c) (front : List TokenKind) :
    comparedBy (front ++ [k]) = .equal := by
  cases k with
  | comparator c => exact absurd rfl (hk c)
  | _ => simp [comparedBy]

/-! ## §2. The operand of a negation. -/

/-- What is left behind the first term, or behind as many brackets as are open. -/
def behindTerm : Nat → List TokenKind → List TokenKind
  | _, [] => []
  | depth, .openBracket :: ks => behindTerm (depth + 1) ks
  | depth + 2, .closeBracket :: ks => behindTerm (depth + 1) ks
  | _, .closeBracket :: ks => ks
  | 0, .version _ :: ks => ks
  | depth, _ :: ks => behindTerm depth ks

/-- In brackets, a derivable stretch is passed. -/
theorem behindTerm_within {symbol : Nonterminal} {ks : List TokenKind} {value : Version → Bool}
    (h : Derives symbol ks value) :
    ∀ depth rest, behindTerm (depth + 1) (ks ++ rest) = behindTerm (depth + 1) rest := by
  induction h with
  | group _ ih | term _ ih => exact ih
  | alternative _ _ ihleft ihright | joined _ _ ihleft ihright =>
    intro depth rest
    rw [List.append_assoc, ihleft]
    exact ihright depth rest
  | beside _ _ ihleft ihright =>
    intro depth rest
    rw [List.append_assoc, ihleft, ihright]
  | negation _ ih => exact ih
  | bare bound | comparison c bound => exact fun _ _ => rfl
  | bracketed _ ih =>
    intro depth rest
    rw [List.cons_append, List.append_assoc, behindTerm, ih]
    rfl

/-- What is left behind a term is what stands there. -/
theorem behindTerm_term {symbol : Nonterminal} {ks : List TokenKind} {value : Version → Bool}
    (h : Derives symbol ks value) (hterm : symbol = .term) :
    ∀ rest, behindTerm 0 (ks ++ rest) = rest := by
  induction h with
  | group | alternative | term | joined | beside => exact nomatch hterm
  | negation _ ih => exact ih rfl
  | bare bound | comparison c bound => exact fun _ => rfl
  | bracketed hinside _ =>
    intro rest
    rw [List.cons_append, List.append_assoc, behindTerm, behindTerm_within hinside]
    rfl

/-- No term is the beginning of another one. -/
theorem eq_nil_of_term_append {ks ls : List TokenKind} {value other : Version → Bool}
    (h : Derives .term ks value) (h' : Derives .term (ks ++ ls) other) : ls = [] := by
  have hleft : behindTerm 0 (ks ++ ls) = ls := behindTerm_term h rfl ls
  have hright : behindTerm 0 (ks ++ ls ++ []) = [] := behindTerm_term h' rfl []
  rw [List.append_nil] at hright
  exact hleft.symm.trans hright

/-- Every negation among the tokens has its operand among them. -/
def HasOperands (ks : List TokenKind) : Prop :=
  ∀ before inside, ks = before ++ .negation :: inside →
    ∃ operand more value, inside = operand ++ more ∧ Derives .term operand value

theorem hasOperands_nil : HasOperands [] := by
  intro before inside heq
  simp at heq

theorem HasOperands.append {ks ls : List TokenKind} (h : HasOperands ks) (h' : HasOperands ls) :
    HasOperands (ks ++ ls) := by
  intro before inside heq
  rcases List.append_eq_append_iff.1 heq with ⟨tail, rfl, htail⟩ | ⟨tail, rfl, htail⟩
  · exact h' tail inside htail
  · rcases List.cons_eq_append_iff.1 htail with ⟨rfl, rfl⟩ | ⟨tail', rfl, rfl⟩
    · exact h' [] inside rfl
    · obtain ⟨operand, more, value, rfl, hderives⟩ := h before tail' rfl
      exact ⟨operand, more ++ ls, value, by simp, hderives⟩

theorem hasOperands_single {k : TokenKind} (hk : k ≠ .negation) : HasOperands [k] := by
  intro before inside heq
  rcases List.cons_eq_append_iff.1 heq with ⟨-, hcons⟩ | ⟨tail, -, hnil⟩
  · exact absurd (List.cons.inj hcons).1.symm hk
  · simp at hnil

theorem HasOperands.negation {operand : List TokenKind} {value : Version → Bool}
    (h : HasOperands operand) (hterm : Derives .term operand value) :
    HasOperands (.negation :: operand) := by
  intro before inside heq
  rcases List.cons_eq_append_iff.1 heq with ⟨rfl, hcons⟩ | ⟨tail, rfl, htail⟩
  · obtain rfl : inside = operand := (List.cons.inj hcons).2
    exact ⟨inside, [], value, by simp, hterm⟩
  · exact h tail inside htail

/-- Behind tokens that have all their operands, a version stands in none of them. -/
theorem HasOperands.not_negated {front : List TokenKind} (h : HasOperands front) (v : Version)
    (back : List TokenKind) : ¬ Negated front v back := by
  rintro ⟨before, inside, more, after, value, rfl, rfl, hterm⟩
  obtain ⟨operand, tail, value', rfl, hoperand⟩ := h before inside rfl
  rw [List.append_assoc] at hterm
  have hnil := eq_nil_of_term_append hoperand hterm
  simp at hnil

/-! ## §3. What a stretch of tokens exposes. -/

/-- The stretch exposes the terms `own`, wherever all operands before it are complete. -/
structure Shows (ks : List TokenKind) (own : List (Comparator × Version)) : Prop where
  operands : HasOperands ks
  ends : ∀ front, comparedBy (front ++ ks) = .equal
  terms : ∀ front rest, HasOperands front → comparedBy front = .equal →
    exposedFrom front (ks ++ rest) = own ++ exposedFrom (front ++ ks) rest

variable {ks ls : List TokenKind} {own other : List (Comparator × Version)}

theorem Shows.append (h : Shows ks own) (h' : Shows ls other) :
    Shows (ks ++ ls) (own ++ other) where
  operands := h.operands.append h'.operands
  ends front := by rw [← List.append_assoc, h'.ends]
  terms front rest hfront hequal := by
    rw [List.append_assoc, h.terms front _ hfront hequal,
      h'.terms _ rest (hfront.append h.operands) (h.ends front), List.append_assoc,
      List.append_assoc]

/-- Brackets and connectives expose nothing. -/
theorem Shows.mark {k : TokenKind} (hversion : ∀ v, k ≠ .version v)
    (hcomparator : ∀ c, k ≠ .comparator c) (hnegation : k ≠ .negation) : Shows [k] [] where
  operands := hasOperands_single hnegation
  ends := comparedBy_concat hcomparator
  terms front rest _ _ := exposedFrom_skip hversion front rest

theorem Shows.bare (v : Version) : Shows [.version v] [(.equal, v)] where
  operands := hasOperands_single (by simp)
  ends := comparedBy_concat (by simp)
  terms front rest hfront hequal := by
    rw [List.singleton_append, exposedFrom_version (hfront.not_negated v rest), hequal,
      List.singleton_append]

theorem Shows.comparison (c : Comparator) (v : Version) :
    Shows [.comparator c, .version v] [(c, v)] where
  operands := (hasOperands_single (k := .comparator c) (by simp)).append
    (hasOperands_single (k := .version v) (by simp))
  ends front := by
    rw [← List.singleton_append, ← List.append_assoc]
    exact comparedBy_concat (by simp) _
  terms front rest hfront _ := by
    have hbehind : HasOperands (front ++ [.comparator c]) :=
      hfront.append (hasOperands_single (by simp))
    have hcompared : comparedBy (front ++ [.comparator c]) = c := by simp [comparedBy]
    show exposedFrom front (.comparator c :: .version v :: rest) = _
    rw [exposedFrom_skip (by simp), exposedFrom_version (hbehind.not_negated v rest), hcompared,
      List.append_assoc, List.singleton_append, List.singleton_append]

/-- All that stands in the operand of a negation is passed over. -/
theorem exposedFrom_operand {operand rest : List TokenKind} {value : Version → Bool}
    (hterm : Derives .term operand value) (front : List TokenKind) :
    ∀ inside more, operand = inside ++ more →
      exposedFrom (front ++ .negation :: inside) (more ++ rest)
        = exposedFrom (front ++ .negation :: operand) rest := by
  intro inside more
  induction more generalizing inside with
  | nil =>
    rintro rfl
    rw [List.append_nil, List.nil_append]
  | cons k more ih =>
    intro heq
    have hpassed : exposedFrom (front ++ .negation :: inside) (k :: (more ++ rest))
        = exposedFrom (front ++ .negation :: (inside ++ [k])) (more ++ rest) := by
      have hfront : front ++ .negation :: (inside ++ [k]) = (front ++ .negation :: inside) ++ [k] := by
        simp
      rw [hfront]
      by_cases hversion : ∃ v, k = .version v
      · obtain ⟨v, rfl⟩ := hversion
        exact exposedFrom_negated
          ⟨front, inside, more, rest, value, rfl, rfl, heq ▸ hterm⟩
      · exact exposedFrom_skip (fun v hk => hversion ⟨v, hk⟩) _ _
    rw [List.cons_append, hpassed, ih (inside ++ [k]) (by simpa using heq)]

theorem Shows.negation {value : Version → Bool} (h : Shows ks own)
    (hterm : Derives .term ks value) : Shows (.negation :: ks) [] where
  operands := h.operands.negation hterm
  ends front := by
    rw [← List.singleton_append, ← List.append_assoc, h.ends]
  terms front rest _ _ := by
    rw [List.cons_append, exposedFrom_skip (by simp), List.nil_append,
      exposedFrom_operand hterm front [] ks rfl]

/-! ## §4. What the reader makes of it. -/

namespace Condition

variable {cs : List Condition} {c d : Condition} {level : Level}

/-- Tokens of these kinds are read as these terms, whatever stands before them and behind them. -/
def WritesTerms (ks : List TokenKind) (cs : List Condition) : Prop :=
  ∀ size tokens, tokens.map Token.kind = ks → ∀ rest complete inner outer,
    Condition.read size (tokens ++ rest) complete inner outer
      = Condition.read size rest true (cs.foldl Level.push inner) outer

/-- Tokens of these kinds fill an empty level, whatever stands around it and behind them. -/
def FillsLevel (ks : List TokenKind) (level : Level) : Prop :=
  ∀ size tokens, tokens.map Token.kind = ks → ∀ rest complete outer,
    Condition.read size (tokens ++ rest) complete {} outer
      = Condition.read size rest true level outer

theorem writesTerm_bare (v : Version) : WritesTerm [.version v] (.literal .equal v) := by
  intro size tokens hkinds rest complete inner outer
  obtain ⟨⟨kind, span⟩, tail, rfl, rfl, htail⟩ := List.map_eq_cons_iff.1 hkinds
  obtain rfl := List.map_eq_nil_iff.1 htail
  rfl

theorem WritesTerms.beside (h : WritesTerms ks cs) (h' : WritesTerm ls d) :
    WritesTerms (ks ++ ls) (cs ++ [d]) := by
  intro size tokens hkinds rest complete inner outer
  obtain ⟨left, right, rfl, hleft, hright⟩ := List.map_eq_append_iff.1 hkinds
  rw [List.append_assoc, h size left hleft, h' size right hright, List.foldl_append]
  rfl

theorem WritesTerms.joined (h : WritesTerms ks cs) (h' : WritesTerm ls d) :
    WritesTerms (ks ++ .conjunction :: ls) (cs ++ [d]) := by
  intro size tokens hkinds rest complete inner outer
  obtain ⟨left, tail, rfl, hleft, htail⟩ := List.map_eq_append_iff.1 hkinds
  obtain ⟨⟨kind, span⟩, right, rfl, rfl, hright⟩ := List.map_eq_cons_iff.1 htail
  rw [List.append_assoc, h size left hleft, List.foldl_append]
  exact h' size right hright rest false _ outer

theorem FillsLevel.alternative (h : FillsLevel ks level) (h' : WritesTerms ls cs) :
    FillsLevel (ks ++ .disjunction :: ls) (cs.foldl Level.push level.endGroup) := by
  intro size tokens hkinds rest complete outer
  obtain ⟨left, tail, rfl, hleft, htail⟩ := List.map_eq_append_iff.1 hkinds
  obtain ⟨⟨kind, span⟩, right, rfl, rfl, hright⟩ := List.map_eq_cons_iff.1 htail
  rw [List.append_assoc, h size left hleft]
  exact h' size right hright rest false level.endGroup outer

theorem FillsLevel.writes (h : FillsLevel ks level) : Writes ks level.close :=
  fun size tokens hkinds => ofTokens_eq_close (h size tokens hkinds)

end Condition

/-- A level suggests the last anchor of the group that is being read, and else the last anchor of
the groups before. -/
theorem Level.anchor?_close (level : Level) :
    level.close.anchor?
      = (Condition.lastAnchor? level.terms).or (Condition.lastAnchor? level.alternatives) := by
  rw [close, Condition.anchor?_disjunction, endGroup, Condition.lastAnchor?_append,
    Condition.lastAnchor?_cons, Condition.anchor?_conjunction, Condition.lastAnchor?_nil,
    Option.none_or]

/-- What is read from the stretch suggests `suggested`. -/
def Suggests (ks : List TokenKind) (suggested : Option Version) : Nonterminal → Prop
  | .term => ∃ c, Condition.WritesTerm ks c ∧ c.anchor? = suggested
  | .group => ∃ cs, Condition.WritesTerms ks cs ∧ Condition.lastAnchor? cs = suggested
  | .requirement => ∃ level, Condition.FillsLevel ks level ∧ level.negations = 0 ∧
      level.close.anchor? = suggested

variable {suggested suggested' : Option Version}

theorem Suggests.group_of_term (h : Suggests ks suggested .term) : Suggests ks suggested .group := by
  obtain ⟨c, hwrites, hanchor⟩ := h
  exact ⟨[c], hwrites, by simp [hanchor]⟩

theorem Suggests.requirement_of_group (h : Suggests ks suggested .group) :
    Suggests ks suggested .requirement := by
  obtain ⟨cs, hwrites, hanchor⟩ := h
  refine ⟨cs.foldl Level.push {}, fun size tokens hkinds rest complete outer =>
    hwrites size tokens hkinds rest complete {} outer, ?_, ?_⟩
  · rw [Level.foldl_push rfl]
  · rw [Level.foldl_push rfl, Level.anchor?_close]
    simp [hanchor]

theorem Suggests.beside (h : Suggests ks suggested .group) (h' : Suggests ls suggested' .term) :
    Suggests (ks ++ ls) (suggested'.or suggested) .group := by
  obtain ⟨cs, hwrites, hanchor⟩ := h
  obtain ⟨d, hwrites', hanchor'⟩ := h'
  exact ⟨cs ++ [d], hwrites.beside hwrites',
    by simp [Condition.lastAnchor?_append, hanchor, hanchor']⟩

theorem Suggests.joined (h : Suggests ks suggested .group) (h' : Suggests ls suggested' .term) :
    Suggests (ks ++ .conjunction :: ls) (suggested'.or suggested) .group := by
  obtain ⟨cs, hwrites, hanchor⟩ := h
  obtain ⟨d, hwrites', hanchor'⟩ := h'
  exact ⟨cs ++ [d], hwrites.joined hwrites',
    by simp [Condition.lastAnchor?_append, hanchor, hanchor']⟩

theorem Suggests.alternative (h : Suggests ks suggested .requirement)
    (h' : Suggests ls suggested' .group) :
    Suggests (ks ++ .disjunction :: ls) (suggested'.or suggested) .requirement := by
  obtain ⟨level, hfills, hnone, hanchor⟩ := h
  obtain ⟨cs, hwrites, hanchor'⟩ := h'
  have hfresh : level.endGroup.negations = 0 := hnone
  refine ⟨cs.foldl Level.push level.endGroup, hfills.alternative hwrites, ?_, ?_⟩
  · rw [Level.foldl_push hfresh]
    exact hnone
  · rw [Level.foldl_push hfresh, Level.anchor?_close, ← hanchor, ← hanchor', Level.close,
      Condition.anchor?_disjunction]
    rfl

theorem Suggests.bracketed (h : Suggests ks suggested .requirement) :
    Suggests (.openBracket :: (ks ++ [.closeBracket])) suggested .term := by
  obtain ⟨level, hfills, -, hanchor⟩ := h
  exact ⟨level.close, hfills.writes.bracketed, hanchor⟩

theorem Suggests.negation (h : Suggests ks suggested .term) :
    Suggests (.negation :: ks) none .term := by
  obtain ⟨c, hwrites, -⟩ := h
  exact ⟨.negation c, hwrites.negation, rfl⟩

theorem lastAnchored?_single (c : Comparator) (v : Version) :
    lastAnchored? [(c, v)] = (Condition.literal c v).anchor? := by
  cases h : c.isAnchor <;> simp [lastAnchored?, Condition.anchor?, h]

/-- A derivable stretch exposes terms, and what is read from it suggests the last anchor of them. -/
theorem Derives.suggests {symbol : Nonterminal} {value : Version → Bool}
    (h : Derives symbol ks value) :
    ∃ own, Shows ks own ∧ Suggests ks (lastAnchored? own) symbol := by
  induction h with
  | group _ ih =>
    obtain ⟨own, hshows, hsuggests⟩ := ih
    exact ⟨own, hshows, hsuggests.requirement_of_group⟩
  | term _ ih =>
    obtain ⟨own, hshows, hsuggests⟩ := ih
    exact ⟨own, hshows, hsuggests.group_of_term⟩
  -- what stands on the right of a connective has the say
  | alternative _ _ ihleft ihright =>
    obtain ⟨own, hshows, hsuggests⟩ := ihleft
    obtain ⟨own', hshows', hsuggests'⟩ := ihright
    have hmark : Shows [.disjunction] [] := .mark (by simp) (by simp) (by simp)
    refine ⟨own ++ own', hshows.append (hmark.append hshows'), ?_⟩
    rw [lastAnchored?_append]
    exact hsuggests.alternative hsuggests'
  | joined _ _ ihleft ihright =>
    obtain ⟨own, hshows, hsuggests⟩ := ihleft
    obtain ⟨own', hshows', hsuggests'⟩ := ihright
    have hmark : Shows [.conjunction] [] := .mark (by simp) (by simp) (by simp)
    refine ⟨own ++ own', hshows.append (hmark.append hshows'), ?_⟩
    rw [lastAnchored?_append]
    exact hsuggests.joined hsuggests'
  | beside _ _ ihleft ihright =>
    obtain ⟨own, hshows, hsuggests⟩ := ihleft
    obtain ⟨own', hshows', hsuggests'⟩ := ihright
    refine ⟨own ++ own', hshows.append hshows', ?_⟩
    rw [lastAnchored?_append]
    exact hsuggests.beside hsuggests'
  | negation hterm ih =>
    obtain ⟨own, hshows, hsuggests⟩ := ih
    exact ⟨[], hshows.negation hterm, hsuggests.negation⟩
  | bare bound =>
    exact ⟨_, .bare bound, _, Condition.writesTerm_bare bound,
      (lastAnchored?_single .equal bound).symm⟩
  | comparison c bound =>
    exact ⟨_, .comparison c bound, _, Condition.writesTerm_literal c bound,
      (lastAnchored?_single c bound).symm⟩
  | bracketed _ ih =>
    obtain ⟨own, hshows, hsuggests⟩ := ih
    have hopen : Shows [.openBracket] [] := .mark (by simp) (by simp) (by simp)
    have hclose : Shows [.closeBracket] [] := .mark (by simp) (by simp) (by simp)
    have hboth := hopen.append (hshows.append hclose)
    rw [List.nil_append, List.append_nil] at hboth
    exact ⟨own, hboth, hsuggests.bracketed⟩

/-! ## §5. The default of a requirement that was read. -/

namespace Requirement

/-- A requirement suggests the version of the last comparator term of its text that is an anchor and
stands in the operand of no negation, and nothing if there is no such term.  So two texts that agree
in the terms outside of negations suggest the same, however they group and connect them. -/
theorem default?_of_parse {text : String} {r : Requirement} (h : parse text = .ok r) :
    ∃ ks, Token.kinds? text.toList = some ks ∧
      r.default? = (lastAnchored? (exposed ks)).map Version.text ∧
      ∀ text' r' ks', parse text' = .ok r' → Token.kinds? text'.toList = some ks' →
        exposed ks' = exposed ks → r'.default? = r.default? := by
  have hdefault : ∀ {text : String} {r : Requirement} {ks : List TokenKind}, parse text = .ok r →
      Token.kinds? text.toList = some ks →
        r.default? = (lastAnchored? (exposed ks)).map Version.text := by
    intro text r ks hparse hkinds
    obtain ⟨⟨ls, hls, hwrites⟩, -⟩ := parse_eq_ok_iff.1 hparse
    obtain rfl : ks = ls := Option.some.inj (hkinds.symm.trans hls)
    -- the tokens are derivable, so the condition is that of the level that they fill
    obtain ⟨tokens, -, hmap⟩ := Token.scan_of_kinds? hkinds "" 0
    have hread := hwrites 0 tokens hmap
    obtain ⟨value, hderives⟩ := Condition.derives_of_ofTokens hread
    rw [hmap] at hderives
    obtain ⟨own, hshows, level, hfills, -, hanchor⟩ := hderives.suggests
    have hcondition : level.close = r.condition :=
      Except.ok.inj ((hfills.writes 0 tokens hmap).symm.trans hread)
    have hexposed : exposed ks = own := by
      simpa [exposed, exposedFrom] using hshows.terms [] [] hasOperands_nil rfl
    rw [default?, ← hcondition, hanchor, hexposed]
  obtain ⟨⟨ks, hkinds, -⟩, -⟩ := parse_eq_ok_iff.1 h
  refine ⟨ks, hkinds, hdefault h hkinds, fun text' r' ks' h' hkinds' hsame => ?_⟩
  rw [hdefault h hkinds, hdefault h' hkinds', hsame]

/-- Two anchors in the operand of a negation, within a disjunction within a conjunction. -/
theorem default?_of_parse_hidden :
    ∃ r ks, parse "(>=1 | !(=2 >=3)) & ((<4))" = .ok r ∧ r.default? = some "1" ∧
      Token.kinds? "(>=1 | !(=2 >=3)) & ((<4))".toList = some ks ∧
      (lastAnchored? (exposed ks)).map Version.text = some "1" := by
  have hrun : (parse "(>=1 | !(=2 >=3)) & ((<4))").toOption.map default? = some (some "1") := by
    decide +kernel
  cases hparse : parse "(>=1 | !(=2 >=3)) & ((<4))" with
  | error e =>
    rw [hparse] at hrun
    exact nomatch hrun
  | ok r =>
    rw [hparse] at hrun
    have hdefault : r.default? = some "1" := Option.some.inj hrun
    obtain ⟨ks, hkinds, heq, -⟩ := default?_of_parse hparse
    exact ⟨r, ks, rfl, hdefault, hkinds, heq.symm.trans hdefault⟩

end Requirement

end DependencyScope
