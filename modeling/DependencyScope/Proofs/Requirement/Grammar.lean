/-
  DependencyScope.Proofs.Requirement.Grammar — reading accepts exactly the grammar of requirements.

      requirement := group ("|" group)*
      group       := term ("&"? term)*
      term        := "!" term | comparator? version | "(" requirement ")"

  The grammar is given as derivations: a derivation says that a list of tokens is a requirement, a
  group or a term, and which versions it stands for.  A derivation shows nothing of levels and open
  brackets, which is how the reader keeps its place.

  Completeness follows the derivation: whatever the reader has before it, a derivable stretch takes
  it to where the stretch ends, with the condition of the stretch put in place.  Soundness follows
  the tokens: a reader that gets through has a derivable stretch before it.

  Main results:
    * `Derives` — the grammar, with the meaning of what it derives;
    * `Condition.ofTokens_of_derives` — derivable tokens are read, to a normal condition that
      accepts what the derivation stands for;
    * `Condition.derives_of_ofTokens` — tokens that are read are derivable;
    * `Condition.ofTokens_iff_derives` — both together.
-/
import DependencyScope.Requirement.Basic
import DependencyScope.Proofs.Requirement.Normal

namespace DependencyScope

/-! ## §1. The grammar. -/

/-- What a stretch of tokens can be. -/
inductive Nonterminal where
  | requirement
  | group
  | term

/-- A stretch of tokens is a requirement, a group or a term, and stands for the versions that
`value` accepts. -/
inductive Derives : Nonterminal → List TokenKind → (Version → Bool) → Prop
  | group {ks : List TokenKind} {value : Version → Bool} :
      Derives .group ks value → Derives .requirement ks value
  | alternative {ks ls : List TokenKind} {value other : Version → Bool} :
      Derives .requirement ks value → Derives .group ls other →
      Derives .requirement (ks ++ .disjunction :: ls) (fun v => value v || other v)
  | term {ks : List TokenKind} {value : Version → Bool} :
      Derives .term ks value → Derives .group ks value
  | joined {ks ls : List TokenKind} {value other : Version → Bool} :
      Derives .group ks value → Derives .term ls other →
      Derives .group (ks ++ .conjunction :: ls) (fun v => value v && other v)
  /-- Neighbouring terms are joined as well. -/
  | beside {ks ls : List TokenKind} {value other : Version → Bool} :
      Derives .group ks value → Derives .term ls other →
      Derives .group (ks ++ ls) (fun v => value v && other v)
  | negation {ks : List TokenKind} {value : Version → Bool} :
      Derives .term ks value → Derives .term (.negation :: ks) (fun v => !value v)
  /-- A version alone stands for the versions equal to it. -/
  | bare (bound : Version) : Derives .term [.version bound] (Comparator.equal.holds · bound)
  | comparison (c : Comparator) (bound : Version) :
      Derives .term [.comparator c, .version bound] (c.holds · bound)
  | bracketed {ks : List TokenKind} {value : Version → Bool} :
      Derives .requirement ks value →
      Derives .term (.openBracket :: (ks ++ [.closeBracket])) value

/-! ## §2. Levels. -/

namespace Level

/-- A level at which a term has just ended, all of whose conditions are normal. -/
structure Settled (level : Level) : Prop where
  noNegation : level.negations = 0
  terms_ne : level.terms ≠ []
  terms_normal : ∀ c ∈ level.terms, c.Normal
  alternatives_normal : ∀ c ∈ level.alternatives, c.Normal

theorem negate_negation (n : Nat) (c : Condition) :
    negate n (.negation c) = .negation (negate n c) := by
  induction n with
  | zero => rfl
  | succ n ih => rw [negate, ih, negate]

/-- A term under one more negation is the negated term. -/
theorem push_negation (level : Level) (c : Condition) :
    Level.push { level with negations := level.negations + 1 } c = level.push (.negation c) := by
  simp only [push, negate, negate_negation]

/-- Terms that end one after the other stand at the end of the group. -/
theorem foldl_push {level : Level} (h : level.negations = 0) (cs : List Condition) :
    cs.foldl push level = { level with terms := level.terms ++ cs } := by
  induction cs generalizing level with
  | nil => simp
  | cons c cs ih =>
    have hpush : level.push c = { level with terms := level.terms ++ [c] } := by
      simp only [push, h, negate]
    -- a term uses its negations up, so the next one is appended as it is
    have hnone : (level.push c).negations = 0 := rfl
    rw [List.foldl_cons, ih hnone, hpush]
    simp

/-- A closed level accepts what one of its groups accepts. -/
theorem accepts_close (v : Version) (level : Level) :
    level.close.accepts v
      = (level.alternatives.any (Condition.accepts v) || level.terms.all (Condition.accepts v)) := by
  rw [close, Condition.accepts_disjunction, endGroup, List.any_append]
  simp [Condition.accepts_conjunction]

theorem Settled.close_normal {level : Level} (h : level.Settled) : level.close.Normal := by
  refine .disjunction (by simp [endGroup]) ?_
  intro c hc
  rcases List.mem_append.1 hc with halternative | hlast
  · exact h.alternatives_normal c halternative
  · obtain rfl := List.mem_singleton.1 hlast
    exact .conjunction h.terms_ne h.terms_normal

/-- The level that the terms `cs` leave behind in a fresh group. -/
theorem settled_foldl_push (level : Level) {cs : List Condition} (hnone : level.negations = 0)
    (hfresh : level.terms = []) (halternatives : ∀ c ∈ level.alternatives, c.Normal)
    (hne : cs ≠ []) (hcs : ∀ c ∈ cs, c.Normal) :
    (cs.foldl push level).Settled ∧ (cs.foldl push level).terms = cs
      ∧ (cs.foldl push level).alternatives = level.alternatives := by
  rw [foldl_push hnone, hfresh, List.nil_append]
  exact ⟨⟨hnone, hne, hcs, halternatives⟩, rfl, rfl⟩

/-- After a settled level has ended its group, a new group begins. -/
theorem Settled.endGroup {level : Level} (h : level.Settled) :
    level.endGroup.negations = 0 ∧ level.endGroup.terms = []
      ∧ ∀ c ∈ level.endGroup.alternatives, c.Normal := by
  refine ⟨h.noNegation, rfl, ?_⟩
  intro c hc
  rcases List.mem_append.1 hc with halternative | hlast
  · exact h.alternatives_normal c halternative
  · obtain rfl := List.mem_singleton.1 hlast
    exact .conjunction h.terms_ne h.terms_normal

end Level

/-! ## §3. Completeness. -/

namespace Condition

/-- What the reader makes of a stretch of tokens.  A term is pushed onto the level that the reader
is in, a group pushes all its terms, and a requirement fills the level that its bracket opened. -/
def Reads (size : Nat) (tokens : List Token) (value : Version → Bool) : Nonterminal → Prop
  | .term => ∃ c : Condition, c.Normal ∧ (∀ v, c.accepts v = value v) ∧
      ∀ rest complete inner outer, Condition.read size (tokens ++ rest) complete inner outer
        = Condition.read size rest true (inner.push c) outer
  | .group => ∃ cs : List Condition, cs ≠ [] ∧ (∀ c ∈ cs, c.Normal) ∧
      (∀ v, cs.all (accepts v) = value v) ∧
      ∀ rest complete inner outer, Condition.read size (tokens ++ rest) complete inner outer
        = Condition.read size rest true (cs.foldl Level.push inner) outer
  | .requirement => ∃ level : Level, level.Settled ∧ (∀ v, level.close.accepts v = value v) ∧
      ∀ rest complete outer, Condition.read size (tokens ++ rest) complete {} outer
        = Condition.read size rest true level outer

variable {size : Nat}

theorem Reads.group_of_term {tokens : List Token} {value : Version → Bool}
    (h : Reads size tokens value .term) : Reads size tokens value .group := by
  obtain ⟨c, hnormal, haccepts, hread⟩ := h
  refine ⟨[c], by simp, by simpa using hnormal, ?_, hread⟩
  intro v
  simp [haccepts]

theorem Reads.requirement_of_group {tokens : List Token} {value : Version → Bool}
    (h : Reads size tokens value .group) : Reads size tokens value .requirement := by
  obtain ⟨cs, hne, hnormal, haccepts, hread⟩ := h
  obtain ⟨hsettled, hterms, halternatives⟩ :=
    Level.settled_foldl_push {} rfl rfl (by simp) hne hnormal
  refine ⟨cs.foldl Level.push {}, hsettled, ?_,
    fun rest complete outer => hread rest complete {} outer⟩
  intro v
  rw [Level.accepts_close, hterms, halternatives, ← haccepts]
  simp

/-- A group is continued by a term.  What stands between them, a "&" or nothing, is passed without
a trace. -/
theorem Reads.continued {left between right : List Token} {value other : Version → Bool}
    {complete : Bool} (hleft : Reads size left value .group) (hright : Reads size right other .term)
    (hbetween : ∀ rest inner outer, Condition.read size (between ++ rest) true inner outer
      = Condition.read size rest complete inner outer) :
    Reads size (left ++ (between ++ right)) (fun v => value v && other v) .group := by
  obtain ⟨cs, hne, hnormal, hgroup, hread⟩ := hleft
  obtain ⟨c, hc, haccepts, hrest⟩ := hright
  refine ⟨cs ++ [c], by simp, ?_, ?_, ?_⟩
  · intro d hd
    rcases List.mem_append.1 hd with hmem | hlast
    · exact hnormal d hmem
    · exact List.mem_singleton.1 hlast ▸ hc
  · intro v
    rw [List.all_append, hgroup]
    simp [haccepts]
  · intro rest complete inner outer
    rw [List.append_assoc, hread, List.append_assoc, hbetween, hrest, List.foldl_append]
    rfl

/-- A requirement is continued by a "|" and a group. -/
theorem Reads.alternative {left right : List Token} {span : Span} {value other : Version → Bool}
    (hleft : Reads size left value .requirement) (hright : Reads size right other .group) :
    Reads size (left ++ ⟨.disjunction, span⟩ :: right) (fun v => value v || other v)
      .requirement := by
  obtain ⟨level, hsettled, haccepts, hread⟩ := hleft
  obtain ⟨cs, hne, hnormal, hgroup, hrest⟩ := hright
  obtain ⟨hnone, hfresh, halternatives⟩ := hsettled.endGroup
  obtain ⟨hsettled', hterms', halternatives'⟩ :=
    Level.settled_foldl_push level.endGroup hnone hfresh halternatives hne hnormal
  refine ⟨cs.foldl Level.push level.endGroup, hsettled', ?_, ?_⟩
  · intro v
    show _ = (value v || other v)
    rw [Level.accepts_close, hterms', halternatives', hgroup, ← haccepts, Level.accepts_close]
    simp [Level.endGroup, accepts_conjunction]
  · intro rest complete outer
    rw [List.append_assoc, hread, ← hrest rest false]
    rfl

/-- Tokens that are derivable are read, whatever stands before them and after them. -/
theorem reads_of_derives {symbol : Nonterminal} {ks : List TokenKind} {value : Version → Bool}
    (h : Derives symbol ks value) :
    ∀ tokens : List Token, tokens.map Token.kind = ks → Reads size tokens value symbol := by
  induction h with
  | group _ ih => exact fun tokens hkinds => (ih tokens hkinds).requirement_of_group
  | term _ ih => exact fun tokens hkinds => (ih tokens hkinds).group_of_term
  -- the tokens are cut where the derivation cuts their kinds
  | alternative _ _ ihleft ihright =>
    intro tokens hkinds
    obtain ⟨left, tail, rfl, hleft, htail⟩ := List.map_eq_append_iff.1 hkinds
    obtain ⟨⟨kind, span⟩, right, rfl, rfl, hright⟩ := List.map_eq_cons_iff.1 htail
    exact (ihleft left hleft).alternative (ihright right hright)
  | joined _ _ ihleft ihright =>
    intro tokens hkinds
    obtain ⟨left, tail, rfl, hleft, htail⟩ := List.map_eq_append_iff.1 hkinds
    obtain ⟨⟨kind, span⟩, right, rfl, rfl, hright⟩ := List.map_eq_cons_iff.1 htail
    have hbetween : ∀ rest inner outer,
        Condition.read size ([⟨.conjunction, span⟩] ++ rest) true inner outer
          = Condition.read size rest false inner outer := fun _ _ _ => rfl
    exact (ihleft left hleft).continued (ihright right hright) hbetween
  | beside _ _ ihleft ihright =>
    intro tokens hkinds
    obtain ⟨left, right, rfl, hleft, hright⟩ := List.map_eq_append_iff.1 hkinds
    have hbetween : ∀ rest inner outer, Condition.read size ([] ++ rest) true inner outer
        = Condition.read size rest true inner outer := fun _ _ _ => rfl
    exact (ihleft left hleft).continued (ihright right hright) hbetween
  | @negation ks value _ ih =>
    intro tokens hkinds
    obtain ⟨⟨kind, span⟩, tail, rfl, rfl, htail⟩ := List.map_eq_cons_iff.1 hkinds
    obtain ⟨c, hnormal, haccepts, hread⟩ := ih tail htail
    -- the level counts the negation until the term ends
    refine ⟨.negation c, .negation hnormal, ?_, ?_⟩
    · intro v
      show _ = !value v
      rw [← haccepts]
      rfl
    · intro rest complete inner outer
      rw [← Level.push_negation, ← hread rest false]
      rfl
  | bare bound =>
    intro tokens hkinds
    obtain ⟨⟨kind, span⟩, tail, rfl, rfl, htail⟩ := List.map_eq_cons_iff.1 hkinds
    obtain rfl := List.map_eq_nil_iff.1 htail
    exact ⟨.literal .equal bound, .literal _ _, fun _ => rfl, fun _ _ _ _ => rfl⟩
  | comparison c bound =>
    intro tokens hkinds
    obtain ⟨⟨kind, span⟩, tail, rfl, rfl, htail⟩ := List.map_eq_cons_iff.1 hkinds
    obtain ⟨⟨kind, span'⟩, tail', rfl, rfl, htail'⟩ := List.map_eq_cons_iff.1 htail
    obtain rfl := List.map_eq_nil_iff.1 htail'
    exact ⟨.literal c bound, .literal _ _, fun _ => rfl, fun _ _ _ _ => rfl⟩
  | @bracketed ks value _ ih =>
    intro tokens hkinds
    obtain ⟨⟨kind, span⟩, tail, rfl, rfl, htail⟩ := List.map_eq_cons_iff.1 hkinds
    obtain ⟨inside, last, rfl, hinside, hlast⟩ := List.map_eq_append_iff.1 htail
    obtain ⟨⟨kind, span'⟩, tail', rfl, rfl, htail'⟩ := List.map_eq_cons_iff.1 hlast
    obtain rfl := List.map_eq_nil_iff.1 htail'
    obtain ⟨level, hsettled, haccepts, hread⟩ := ih inside hinside
    -- the bracket opens an empty level, and its partner pushes what that has become as one term
    refine ⟨level.close, hsettled.close_normal, haccepts, ?_⟩
    intro rest complete inner outer
    show Condition.read size ((inside ++ [⟨.closeBracket, span'⟩]) ++ rest) false {}
        ((span, inner) :: outer) = _
    rw [List.append_assoc, hread]
    rfl

/-! ## §4. Soundness. -/

/-- What may stand behind a stretch that was read as far as it goes. -/
def Stops : Nonterminal → List Token → Prop
  | .term, _ => True
  | .group, rest => ∀ token ∈ rest.head?, token.kind = .disjunction ∨ token.kind = .closeBracket
  | .requirement, rest => ∀ token ∈ rest.head?, token.kind = .closeBracket

/-- The tokens begin with a derivable stretch, and the reader gets from behind it to `result`. -/
def Begins (size : Nat) (symbol : Nonterminal) (tokens : List Token)
    (outer : List (Span × Level)) (result : Condition) : Prop :=
  ∃ front rest value inner, tokens = front ++ rest ∧ Derives symbol (front.map Token.kind) value ∧
    Stops symbol rest ∧ rest.length < tokens.length ∧
    Condition.read size rest true inner outer = .ok result

/-- The stretch `ks` goes on with the first of the tokens, and the reader gets from behind it to
`result`. -/
def Continues (size : Nat) (symbol : Nonterminal) (ks : List TokenKind) (tokens : List Token)
    (outer : List (Span × Level)) (result : Condition) : Prop :=
  ∃ more rest value inner, tokens = more ++ rest ∧
    Derives symbol (ks ++ more.map Token.kind) value ∧ Stops symbol rest ∧
    rest.length ≤ tokens.length ∧ Condition.read size rest true inner outer = .ok result

/-- A stretch that has begun and goes on has begun with all of it. -/
theorem Begins.of_continues {symbol : Nonterminal} {front rest : List Token} {tokens : List Token}
    {outer : List (Span × Level)} {result : Condition} (heq : tokens = front ++ rest)
    (hlt : rest.length < tokens.length)
    (h : Continues size symbol (front.map Token.kind) rest outer result) :
    Begins size symbol tokens outer result := by
  obtain ⟨more, rest', value, inner, rfl, hderives, hstops, hle, hread⟩ := h
  refine ⟨front ++ more, rest', value, inner, by simp [heq], ?_, hstops, by omega, hread⟩
  rw [List.map_append]
  exact hderives

/-- The first of the tokens is one that a term can start with. -/
def StartsTerm : List Token → Prop
  | ⟨.version _, _⟩ :: _ | ⟨.comparator _, _⟩ :: _ | ⟨.negation, _⟩ :: _
  | ⟨.openBracket, _⟩ :: _ => True
  | _ => False

/-- What starts a term is read alike whether or not a term has just ended. -/
theorem read_of_startsTerm {tokens : List Token} {inner : Level} {outer : List (Span × Level)}
    (h : StartsTerm tokens) :
    Condition.read size tokens true inner outer = Condition.read size tokens false inner outer := by
  match tokens with
  | ⟨.version _, _⟩ :: _ => rfl
  | [⟨.comparator _, _⟩] => rfl
  | ⟨.comparator _, _⟩ :: ⟨kind, _⟩ :: _ => cases kind <;> rfl
  | ⟨.negation, _⟩ :: _ => rfl
  | ⟨.openBracket, _⟩ :: _ => rfl

mutual

/-- Where a term has to come, the reader gets through only if one comes. -/
theorem begins_term (tokens : List Token) (inner : Level) (outer : List (Span × Level))
    (result : Condition) (h : Condition.read size tokens false inner outer = .ok result) :
    Begins size .term tokens outer result := by
  match tokens with
  | [] => exact nomatch h
  | ⟨.version bound, span⟩ :: rest =>
    exact ⟨[⟨.version bound, span⟩], rest, _, _, rfl, .bare bound, trivial, by simp, h⟩
  | [⟨.comparator _, _⟩] => exact nomatch h
  | ⟨.comparator c, span⟩ :: ⟨.version bound, span'⟩ :: rest =>
    exact ⟨[⟨.comparator c, span⟩, ⟨.version bound, span'⟩], rest, _, _, rfl, .comparison c bound,
      trivial, by simp only [List.length_cons]; omega, h⟩
  | ⟨.comparator _, _⟩ :: ⟨.openBracket, _⟩ :: _ | ⟨.comparator _, _⟩ :: ⟨.closeBracket, _⟩ :: _
  | ⟨.comparator _, _⟩ :: ⟨.conjunction, _⟩ :: _ | ⟨.comparator _, _⟩ :: ⟨.disjunction, _⟩ :: _
  | ⟨.comparator _, _⟩ :: ⟨.negation, _⟩ :: _ | ⟨.comparator _, _⟩ :: ⟨.comparator _, _⟩ :: _ =>
    exact nomatch h
  -- a term still has to come, and the level inside is another one
  | ⟨.negation, span⟩ :: rest =>
    obtain ⟨front, rest', value, inner', heq, hderives, -, hlt, hread⟩ :=
      begins_term rest { inner with negations := inner.negations + 1 } outer result h
    refine ⟨⟨.negation, span⟩ :: front, rest', _, inner', by simp [heq], .negation hderives,
      trivial, ?_, hread⟩
    simp only [List.length_cons]
    omega
  | ⟨.openBracket, span⟩ :: rest =>
    obtain ⟨front, rest', value, inner', heq, hderives, hstops, hlt, hread⟩ :=
      begins_requirement rest {} ((span, inner) :: outer) result h
    -- the bracket is still open, so neither the end nor anything but its partner can follow
    match rest', hstops, hread with
    | [], _, hread => exact nomatch hread
    | ⟨kind, span'⟩ :: rest'', hstops, hread =>
      obtain rfl : kind = .closeBracket := hstops ⟨kind, span'⟩ rfl
      refine ⟨⟨.openBracket, span⟩ :: (front ++ [⟨.closeBracket, span'⟩]), rest'', value, _,
        by simp [heq], ?_, trivial, ?_, hread⟩
      · rw [List.map_cons, List.map_append]
        exact .bracketed hderives
      · simp only [List.length_cons] at hlt ⊢
        omega
  | ⟨.closeBracket, _⟩ :: _ | ⟨.conjunction, _⟩ :: _ | ⟨.disjunction, _⟩ :: _ => exact nomatch h
termination_by (tokens.length, 0)

/-- Behind a group, terms are read as parts of it as long as they come. -/
theorem continues_group (ks : List TokenKind) (value : Version → Bool)
    (hgroup : Derives .group ks value) (tokens : List Token) (inner : Level)
    (outer : List (Span × Level)) (result : Condition)
    (h : Condition.read size tokens true inner outer = .ok result) :
    Continues size .group ks tokens outer result := by
  by_cases hstarts : StartsTerm tokens
  · rw [read_of_startsTerm hstarts] at h
    obtain ⟨front, rest', other, inner', heq, hderives, -, hlt, hread⟩ :=
      begins_term tokens inner outer result h
    obtain ⟨more, rest'', value', inner'', heq', hderives', hstops, hle, hread'⟩ :=
      continues_group _ _ (.beside hgroup hderives) rest' inner' outer result hread
    refine ⟨front ++ more, rest'', value', inner'', by simp [heq, heq'], ?_, hstops, by omega,
      hread'⟩
    simpa using hderives'
  -- no term starts here: the group ends, unless a "&" asks for one more
  · match tokens, hstarts with
    | [], _ =>
      exact ⟨[], [], value, inner, rfl, by simpa using hgroup, by simp [Stops], by simp, h⟩
    | ⟨.disjunction, span⟩ :: rest, _ =>
      exact ⟨[], _, value, inner, rfl, by simpa using hgroup, by simp [Stops], by simp, h⟩
    | ⟨.closeBracket, span⟩ :: rest, _ =>
      exact ⟨[], _, value, inner, rfl, by simpa using hgroup, by simp [Stops], by simp, h⟩
    | ⟨.conjunction, span⟩ :: rest, _ =>
      obtain ⟨front, rest', other, inner', heq, hderives, -, hlt, hread⟩ :=
        begins_term rest inner outer result h
      obtain ⟨more, rest'', value', inner'', heq', hderives', hstops, hle, hread'⟩ :=
        continues_group _ _ (.joined hgroup hderives) rest' inner' outer result hread
      refine ⟨⟨.conjunction, span⟩ :: (front ++ more), rest'', value', inner'',
        by simp [heq, heq'], ?_, hstops, ?_, hread'⟩
      · simpa using hderives'
      · simp only [List.length_cons]
        omega
    | ⟨.version _, _⟩ :: _, hstarts | ⟨.comparator _, _⟩ :: _, hstarts
    | ⟨.negation, _⟩ :: _, hstarts | ⟨.openBracket, _⟩ :: _, hstarts => exact (hstarts trivial).elim
termination_by (tokens.length, 1)

/-- Where a group has to come, the reader gets through only if one comes. -/
theorem begins_group (tokens : List Token) (inner : Level) (outer : List (Span × Level))
    (result : Condition) (h : Condition.read size tokens false inner outer = .ok result) :
    Begins size .group tokens outer result := by
  obtain ⟨front, rest, value, inner', heq, hderives, -, hlt, hread⟩ :=
    begins_term tokens inner outer result h
  exact .of_continues heq hlt
    (continues_group _ _ (.term hderives) rest inner' outer result hread)
termination_by (tokens.length, 2)

/-- Behind a requirement, groups are read as parts of it as long as they come. -/
theorem continues_requirement (ks : List TokenKind) (value : Version → Bool)
    (hrequirement : Derives .requirement ks value) (tokens : List Token)
    (hstops : Stops .group tokens) (inner : Level) (outer : List (Span × Level))
    (result : Condition) (h : Condition.read size tokens true inner outer = .ok result) :
    Continues size .requirement ks tokens outer result := by
  match tokens, hstops with
  | [], _ =>
    exact ⟨[], [], value, inner, rfl, by simpa using hrequirement, by simp [Stops], by simp, h⟩
  | ⟨.closeBracket, span⟩ :: rest, _ =>
    exact ⟨[], _, value, inner, rfl, by simpa using hrequirement, by simp [Stops], by simp, h⟩
  | ⟨.disjunction, span⟩ :: rest, _ =>
    obtain ⟨front, rest', other, inner', heq, hderives, hstops', hlt, hread⟩ :=
      begins_group rest inner.endGroup outer result h
    obtain ⟨more, rest'', value', inner'', heq', hderives', hstops'', hle, hread'⟩ :=
      continues_requirement _ _ (.alternative hrequirement hderives) rest' hstops' inner' outer
        result hread
    refine ⟨⟨.disjunction, span⟩ :: (front ++ more), rest'', value', inner'',
      by simp [heq, heq'], ?_, hstops'', ?_, hread'⟩
    · simpa using hderives'
    · simp only [List.length_cons]
      omega
  | ⟨.openBracket, _⟩ :: _, hstops | ⟨.conjunction, _⟩ :: _, hstops | ⟨.negation, _⟩ :: _, hstops
  | ⟨.comparator _, _⟩ :: _, hstops | ⟨.version _, _⟩ :: _, hstops => simp [Stops] at hstops
termination_by (tokens.length, 3)

/-- Where a requirement has to come, the reader gets through only if one comes. -/
theorem begins_requirement (tokens : List Token) (inner : Level) (outer : List (Span × Level))
    (result : Condition) (h : Condition.read size tokens false inner outer = .ok result) :
    Begins size .requirement tokens outer result := by
  obtain ⟨front, rest, value, inner', heq, hderives, hstops, hlt, hread⟩ :=
    begins_group tokens inner outer result h
  exact .of_continues heq hlt
    (continues_requirement _ _ (.group hderives) rest hstops inner' outer result hread)
termination_by (tokens.length, 4)

end

/-! ## §5. Reading accepts exactly the grammar. -/

/-- A derivable list of tokens is read to the end, and to the meaning of its derivation. -/
theorem ofTokens_of_derives (size : Nat) {tokens : List Token} {value : Version → Bool}
    (h : Derives .requirement (tokens.map Token.kind) value) :
    ∃ c, ofTokens size tokens = .ok c ∧ c.Normal ∧ ∀ v, c.accepts v = value v := by
  obtain ⟨level, hsettled, haccepts, hread⟩ : Reads size tokens value .requirement :=
    reads_of_derives h tokens rfl
  refine ⟨level.close, ?_, hsettled.close_normal, haccepts⟩
  have hend : Condition.read size [] true level [] = .ok level.close := rfl
  rw [ofTokens, ← hend, ← hread [] false [], List.append_nil]

/-- A list of tokens that is read to the end is derivable. -/
theorem derives_of_ofTokens {tokens : List Token} {c : Condition}
    (h : ofTokens size tokens = .ok c) :
    ∃ value, Derives .requirement (tokens.map Token.kind) value := by
  obtain ⟨front, rest, value, inner, heq, hderives, hstops, -, hread⟩ :=
    begins_requirement tokens {} [] c h
  -- only a bracket could stand behind the requirement, and there is none to close
  match rest, hstops, hread with
  | [], _, _ =>
    refine ⟨value, ?_⟩
    rw [heq, List.append_nil]
    exact hderives
  | ⟨kind, span⟩ :: _, hstops, hread =>
    obtain rfl : kind = .closeBracket := hstops ⟨kind, span⟩ rfl
    exact nomatch hread

/-- Exactly the tokens that the grammar derives are read.  What they are read to is normal, and it
accepts the versions that any derivation of them stands for. -/
theorem ofTokens_iff_derives (size : Nat) (tokens : List Token) :
    ((∃ c, ofTokens size tokens = .ok c) ↔
      ∃ value, Derives .requirement (tokens.map Token.kind) value) ∧
    ∀ c, ofTokens size tokens = .ok c →
      c.Normal ∧ ∀ value, Derives .requirement (tokens.map Token.kind) value →
        ∀ v, c.accepts v = value v := by
  refine ⟨⟨fun ⟨c, h⟩ => derives_of_ofTokens h, ?_⟩, ?_⟩
  · rintro ⟨value, h⟩
    obtain ⟨c, hread, -, -⟩ := ofTokens_of_derives size h
    exact ⟨c, hread⟩
  · intro c h
    -- reading has one result, so it is the one that completeness gives
    obtain ⟨value, hderives⟩ := derives_of_ofTokens h
    obtain ⟨d, hread, hnormal, -⟩ := ofTokens_of_derives size hderives
    obtain rfl : d = c := Except.ok.inj (hread.symm.trans h)
    refine ⟨hnormal, ?_⟩
    intro value' hderives' v
    -- every derivation is read to the same condition, so all of them mean the same
    obtain ⟨d', hread', -, haccepts⟩ := ofTokens_of_derives size hderives'
    obtain rfl : d' = d := Except.ok.inj (hread'.symm.trans h)
    exact haccepts v

/-- The tokens of `1 | !(2 3)`. -/
def nestedTokens : List Token :=
  [⟨.version ⟨"1", by decide⟩, ⟨0, 1⟩⟩, ⟨.disjunction, ⟨2, 1⟩⟩, ⟨.negation, ⟨4, 1⟩⟩,
    ⟨.openBracket, ⟨5, 1⟩⟩, ⟨.version ⟨"2", by decide⟩, ⟨6, 1⟩⟩,
    ⟨.version ⟨"3", by decide⟩, ⟨8, 1⟩⟩, ⟨.closeBracket, ⟨9, 1⟩⟩]

theorem ofTokens_nestedTokens :
    (∃ value, Derives .requirement (nestedTokens.map Token.kind) value) ∧
      ∃ c, ofTokens 10 nestedTokens = .ok c ∧ c.Normal :=
  ⟨(ofTokens_iff_derives 10 nestedTokens).1.1 ⟨_, rfl⟩, _, rfl,
    ((ofTokens_iff_derives 10 nestedTokens).2 _ rfl).1⟩

end Condition

end DependencyScope
