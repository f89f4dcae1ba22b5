/-
  DependencyScope.Proofs.Requirement.Render — the text of a condition is read back.

  The text of a condition brackets every join and puts "!" straight in front of what it negates.
  Reading it takes the longest operator it can, so a "!" in front of "=" makes the comparator "!=":
  a negated equality comes back as an inequality.  Nothing else fuses: the text of a condition
  begins with "=" only if the condition is an equality, and no other character behind "!" makes it
  longer.

  Main definitions:
    * `Condition.reread` — what the text of a condition is read to.

  Main results:
    * `accepts_reread`, `anchor?_reread` — it accepts the same versions and suggests the same one;
    * `Normal.isTerm_render` — the text of a normal condition is one term, read to `reread`;
    * `Requirement.Built.parse_condition` — the requirement that is read from the text of a condition.
-/
import DependencyScope.Proofs.Requirement.Source

namespace DependencyScope

/-! ## §1. What the text of a condition is read to. -/

namespace Condition

mutual

/-- The condition with every negation that stands directly before an equality turned into the
comparator "!=". -/
def reread : Condition → Condition
  | .literal comparator v => .literal comparator v
  | .all children => .all (rereadEach children)
  | .any children => .any (rereadEach children)
  | .negation (.literal .equal v) => .literal .different v
  | .negation child => .negation child.reread

/-- The conditions of a list as they are read back. -/
def rereadEach : List Condition → List Condition
  | [] => []
  | child :: rest => child.reread :: rereadEach rest

end

theorem rereadEach_eq (children : List Condition) : rereadEach children = children.map reread := by
  induction children with
  | nil => rfl
  | cons child rest ih => rw [rereadEach, ih, List.map_cons]

/-- An equality is what a "!" fuses with. -/
def IsEquality (c : Condition) : Prop := ∃ v, c = .literal .equal v

theorem reread_negation {child : Condition} (h : ¬ child.IsEquality) :
    (Condition.negation child).reread = .negation child.reread := by
  rw [reread]
  exact fun v heq => h ⟨v, heq⟩

mutual

/-- What is read back accepts the same versions. -/
theorem accepts_reread (v : Version) : ∀ c : Condition, c.reread.accepts v = c.accepts v
  | .literal _ _ => rfl
  | .all children => acceptsAll_rereadEach v children
  | .any children => acceptsAny_rereadEach v children
  | .negation child => by
    by_cases hequality : child.IsEquality
    · obtain ⟨bound, rfl⟩ := hequality
      rfl
    · rw [reread_negation hequality, accepts, accepts_reread v child, accepts]

theorem acceptsAll_rereadEach (v : Version) :
    ∀ cs : List Condition, acceptsAll v (rereadEach cs) = acceptsAll v cs
  | [] => rfl
  | c :: rest => by
    rw [rereadEach, acceptsAll, accepts_reread v c, acceptsAll_rereadEach v rest, acceptsAll]

theorem acceptsAny_rereadEach (v : Version) :
    ∀ cs : List Condition, acceptsAny v (rereadEach cs) = acceptsAny v cs
  | [] => rfl
  | c :: rest => by
    rw [rereadEach, acceptsAny, accepts_reread v c, acceptsAny_rereadEach v rest, acceptsAny]

end

mutual

/-- What is read back suggests the same version: neither a negation nor a "!=" is an anchor. -/
theorem anchor?_reread : ∀ c : Condition, c.reread.anchor? = c.anchor?
  | .literal _ _ => rfl
  | .all children => lastAnchor?_rereadEach children
  | .any children => lastAnchor?_rereadEach children
  | .negation child => by
    by_cases hequality : child.IsEquality
    · obtain ⟨bound, rfl⟩ := hequality
      rfl
    · rw [reread_negation hequality, anchor?, anchor?]

theorem lastAnchor?_rereadEach :
    ∀ cs : List Condition, lastAnchor? (rereadEach cs) = lastAnchor? cs
  | [] => rfl
  | c :: rest => by
    rw [rereadEach, lastAnchor?, anchor?_reread c, lastAnchor?_rereadEach rest, lastAnchor?]

end

/-- Only a conjunction is read back as one. -/
theorem reread_ne_all {c : Condition} (h : ∀ inner, c ≠ .all inner) :
    ∀ inner, c.reread ≠ .all inner := by
  intro inner
  cases c with
  | all children => exact absurd rfl (h children)
  | literal _ _ => exact fun heq => nomatch heq
  | any _ => exact fun heq => nomatch heq
  | negation child =>
    by_cases hequality : child.IsEquality
    · obtain ⟨bound, rfl⟩ := hequality
      exact fun heq => nomatch heq
    · rw [reread_negation hequality]
      exact fun heq => nomatch heq

/-- Only a disjunction is read back as one. -/
theorem reread_ne_any {c : Condition} (h : ∀ inner, c ≠ .any inner) :
    ∀ inner, c.reread ≠ .any inner := by
  intro inner
  cases c with
  | any children => exact absurd rfl (h children)
  | literal _ _ => exact fun heq => nomatch heq
  | all _ => exact fun heq => nomatch heq
  | negation child =>
    by_cases hequality : child.IsEquality
    · obtain ⟨bound, rfl⟩ := hequality
      exact fun heq => nomatch heq
    · rw [reread_negation hequality]
      exact fun heq => nomatch heq

end Condition

/-! ## §2. The tokens of operators in front of other text. -/

namespace Token

/-- An operator of one character stands for itself, unless a "=" behind it makes it longer. -/
theorem front?_single {c : Char} {k : TokenKind} {rest : List Char}
    (hc : (c, k) ∈ [('=', .comparator .equal), ('>', .comparator .above), ('<', .comparator .below),
      ('!', TokenKind.negation)])
    (hrest : rest.head? ≠ some '=') : front? c rest = some (some k, 0) := by
  have hne : ∀ tail, rest = '=' :: tail → False := by
    rintro tail rfl
    exact hrest rfl
  simp only [List.mem_cons, Prod.mk.injEq, List.not_mem_nil, or_false] at hc
  rcases hc with ⟨rfl, rfl⟩ | ⟨rfl, rfl⟩ | ⟨rfl, rfl⟩ | ⟨rfl, rfl⟩
  all_goals
    show (operator? (_ :: rest)).map _ = _
    rw [operator?]
    · rfl
    · exact hne

/-- The text of a version does not begin with an operator. -/
theorem head?_text_ne (v : Version) : v.text.toList.head? ≠ some '=' := by
  intro hhead
  have hequals : isVersionChar '=' = true :=
    v.isVersionChar_of_mem_text '=' (List.mem_of_head? hhead)
  exact absurd hequals (by decide)

/-- The kinds of a comparison. -/
theorem kinds?_literal (c : Comparator) (v : Version) :
    kinds? (c.symbol ++ v.text).toList = some [.comparator c, .version v] := by
  have hversion := kinds?_text v
  have hhead := head?_text_ne v
  have hsingle : ∀ d : Char, front? d v.text.toList = some (some (.comparator c), 0) →
      kinds? (d :: v.text.toList) = some [.comparator c, .version v] := by
    intro d hd
    rw [kinds?_cons hd, List.drop_zero, hversion]
    rfl
  have hdouble : ∀ d : Char, front? d ('=' :: v.text.toList) = some (some (.comparator c), 1) →
      kinds? (d :: '=' :: v.text.toList) = some [.comparator c, .version v] := by
    intro d hd
    rw [kinds?_cons hd, List.drop_one, List.tail_cons, hversion]
    rfl
  rw [String.toList_append]
  cases c with
  | equal => exact hsingle '=' (front?_single (by simp) hhead)
  | above => exact hsingle '>' (front?_single (by simp) hhead)
  | below => exact hsingle '<' (front?_single (by simp) hhead)
  | different => exact hdouble '!' rfl
  | atLeast => exact hdouble '>' rfl
  | atMost => exact hdouble '<' rfl
  | pessimistic =>
    rw [show Comparator.pessimistic.symbol.toList = ['~', '>'] from rfl]
    show kinds? ('~' :: '>' :: v.text.toList) = _
    rw [kinds?_cons (rfl : front? '~' ('>' :: _) = some (some (.comparator .pessimistic), 1)),
      List.drop_one, List.tail_cons, hversion]
    rfl

end Token

/-! ## §3. Texts that are terms. -/

namespace Condition

/-- The text of the condition is one term wherever it stands, and it is read to `reread`. -/
def IsTerm (c : Condition) : Prop :=
  ∃ ks, Token.kinds? c.render.toList = some ks ∧ WritesTerm ks c.reread

theorem writesTerm_literal (comparator : Comparator) (v : Version) :
    WritesTerm [.comparator comparator, .version v] (.literal comparator v) := by
  intro size tokens hkinds rest complete inner outer
  obtain ⟨⟨kind, span⟩, tail, rfl, rfl, htail⟩ := List.map_eq_cons_iff.1 hkinds
  obtain ⟨⟨kind, span'⟩, tail', rfl, rfl, htail'⟩ := List.map_eq_cons_iff.1 htail
  obtain rfl := List.map_eq_nil_iff.1 htail'
  rfl

theorem WritesTerm.negation {ks : List TokenKind} {c : Condition} (h : WritesTerm ks c) :
    WritesTerm (.negation :: ks) (.negation c) := by
  intro size tokens hkinds rest complete inner outer
  obtain ⟨⟨kind, span⟩, tail, rfl, rfl, htail⟩ := List.map_eq_cons_iff.1 hkinds
  rw [← Level.push_negation, ← h size tail htail rest false]
  rfl

/-- The text of a condition begins with "=" only if the condition is an equality. -/
theorem head?_render_ne {c : Condition} (h : ¬ c.IsEquality) :
    c.render.toList.head? ≠ some '=' := by
  have hbegins : ∀ (s t : String) (d : Char), s.toList.head? = some d → d ≠ '=' →
      (s ++ t).toList.head? ≠ some '=' := by
    intro s t d hs hd heq
    rw [String.toList_append, List.head?_append, hs] at heq
    exact hd (Option.some.inj heq)
  cases c with
  | literal comparator v =>
    cases comparator with
    | equal => exact absurd ⟨v, rfl⟩ h
    | different => exact hbegins _ _ '!' rfl (by decide)
    | above => exact hbegins _ _ '>' rfl (by decide)
    | atLeast => exact hbegins _ _ '>' rfl (by decide)
    | below => exact hbegins _ _ '<' rfl (by decide)
    | atMost => exact hbegins _ _ '<' rfl (by decide)
    | pessimistic => exact hbegins _ _ '~' rfl (by decide)
  | all children =>
    rw [render, String.append_assoc]
    exact hbegins _ _ '(' rfl (by decide)
  | any children =>
    rw [render, String.append_assoc]
    exact hbegins _ _ '(' rfl (by decide)
  | negation child => exact hbegins _ _ '!' rfl (by decide)

theorem isTerm_literal (comparator : Comparator) (v : Version) :
    IsTerm (.literal comparator v) :=
  ⟨_, Token.kinds?_literal comparator v, writesTerm_literal comparator v⟩

/-- A "!" in front of a term makes a term, fused with the "=" of an equality. -/
theorem IsTerm.negation {child : Condition} (h : child.IsTerm) : IsTerm (.negation child) := by
  by_cases hequality : child.IsEquality
  · obtain ⟨v, rfl⟩ := hequality
    have hrender : (Condition.negation (.literal .equal v)).render
        = (Condition.literal .different v).render := by
      simp only [render, ← String.append_assoc]
      rfl
    unfold IsTerm
    rw [hrender]
    exact isTerm_literal .different v
  · obtain ⟨ks, hkinds, hwrites⟩ := h
    refine ⟨.negation :: ks, ?_, (reread_negation hequality).symm ▸ hwrites.negation⟩
    have hfront : Token.front? '!' child.render.toList = some (some .negation, 0) :=
      Token.front?_single (by simp) (head?_render_ne hequality)
    rw [render, String.toList_append]
    show Token.kinds? ('!' :: child.render.toList) = _
    rw [Token.kinds?_cons hfront, List.drop_zero, hkinds]
    rfl

/-! ## §4. Texts of joins. -/

/-- A connective that is written as `symbol`: in front of it, the reader has joined `before` at the
level `level before`, and behind it the next term is joined to them. -/
structure Connects (symbol : Char) (kind : TokenKind) (level : List Condition → Level)
    (join : List Condition → Condition) : Prop where
  front : ∀ rest, Token.front? symbol (' ' :: rest) = some (some kind, 0)
  next : ∀ size span rest before c, Condition.read size (⟨kind, span⟩ :: rest) true
    ((level before).push c) [] = Condition.read size rest false (level (before ++ [c])) []
  close : ∀ before c, ((level before).push c).close = join (before ++ [c])

theorem connects_conjunction :
    Connects '&' .conjunction (fun before => { terms := before }) conjunction where
  front := fun _ => rfl
  next := fun _ _ _ _ _ => rfl
  close := fun _ _ => rfl

theorem connects_disjunction :
    Connects '|' .disjunction (fun before => { alternatives := before }) disjunction where
  front := fun _ => rfl
  next := fun _ _ _ _ _ => rfl
  close := fun _ _ => rfl

variable {symbol : Char} {kind : TokenKind} {level : List Condition → Level}
  {join : List Condition → Condition}

/-- Texts of terms with a connective between them are read to the join of the terms. -/
theorem Connects.joined (h : Connects symbol kind level join) {separator : String}
    (hseparator : separator.toList = [' ', symbol, ' ']) :
    ∀ cs : List Condition, cs ≠ [] → (∀ c ∈ cs, c.IsTerm) →
      ∃ ks, Token.kinds? (renderJoined separator cs).toList = some ks ∧
        ∀ size tokens, tokens.map Token.kind = ks → ∀ before,
          Condition.read size tokens false (level before) []
            = .ok (join (before ++ cs.map reread))
  | [], hne, _ => absurd rfl hne
  | [c], _, hterms => by
    obtain ⟨ks, hkinds, hwrites⟩ := hterms c (by simp)
    refine ⟨ks, hkinds, ?_⟩
    intro size tokens htokens before
    have hread := hwrites size tokens htokens [] false (level before) []
    rw [List.append_nil] at hread
    rw [hread, List.map_cons, List.map_nil, ← h.close]
    rfl
  | c :: d :: rest, _, hterms => by
    obtain ⟨ks, hkinds, hwrites⟩ := hterms c (by simp)
    obtain ⟨ls, hlater, hread⟩ :=
      h.joined hseparator (d :: rest) (by simp) fun e he => hterms e (List.mem_cons_of_mem c he)
    refine ⟨ks ++ kind :: ls, ?_, ?_⟩
    -- the text of the first term, the connective and the texts of the others
    · have hchars : (renderJoined separator (c :: d :: rest)).toList
          = c.render.toList ++ ' ' :: symbol :: ' ' :: (renderJoined separator (d :: rest)).toList := by
        rw [renderJoined, String.toList_append, String.toList_append, hseparator]
        · simp
        · simp
      rw [hchars]
      exact Token.kinds?_between (h.front _) hkinds hlater
    · intro size tokens htokens before
      -- the tokens fall into three parts in the same way
      obtain ⟨left, tail, rfl, hleft, htail⟩ := List.map_eq_append_iff.1 htokens
      obtain ⟨⟨kind', span⟩, right, rfl, rfl, hright⟩ := List.map_eq_cons_iff.1 htail
      rw [hwrites size left hleft, h.next, hread size right hright, List.append_assoc]
      rfl

/-- In brackets, texts of terms with a connective between them are one term. -/
theorem Connects.bracketed (h : Connects symbol kind level join) (hlevel : level [] = {})
    {separator : String} (hseparator : separator.toList = [' ', symbol, ' '])
    {cs : List Condition} (hne : cs ≠ []) (hterms : ∀ c ∈ cs, c.IsTerm) :
    ∃ ks, Token.kinds? ("(" ++ renderJoined separator cs ++ ")").toList = some ks ∧
      WritesTerm ks (join (cs.map reread)) := by
  obtain ⟨ks, hkinds, hread⟩ := h.joined hseparator cs hne hterms
  have hwrites : Writes ks (join (cs.map reread)) := by
    intro size tokens htokens
    rw [ofTokens, ← hlevel, hread size tokens htokens, List.nil_append]
  refine ⟨_, ?_, hwrites.bracketed⟩
  have hchars : ("(" ++ renderJoined separator cs ++ ")").toList
      = '(' :: ((renderJoined separator cs).toList ++ [')']) := by simp
  rw [hchars]
  exact Token.kinds?_brackets hkinds

theorem exists_cons_cons {cs : List Condition} (h : 2 ≤ cs.length) :
    ∃ c d rest, cs = c :: d :: rest := by
  cases cs with
  | nil => exact absurd h (by decide)
  | cons c rest =>
    obtain ⟨d, rest, rfl⟩ := List.exists_cons_of_length_pos (Nat.le_of_succ_le_succ h)
    exact ⟨c, d, rest, rfl⟩

/-- Splicing that leaves every condition whole leaves the list as it is. -/
theorem flatMap_eq_self {split : Condition → List Condition} {cs : List Condition}
    (h : ∀ c ∈ cs, split c = [c]) : cs.flatMap split = cs := by
  induction cs with
  | nil => rfl
  | cons c rest ih =>
    rw [List.flatMap_cons, h c List.mem_cons_self, ih fun d hd => h d (List.mem_cons_of_mem c hd)]
    rfl

/-- Joining conditions of which none is a conjunction splices nothing in. -/
theorem conjunction_eq_all {cs : List Condition} (hlength : 2 ≤ cs.length)
    (hkind : ∀ c ∈ cs, ∀ inner, c ≠ .all inner) : conjunction cs = .all cs := by
  have hsplice : cs.flatMap conjuncts = cs := by
    refine flatMap_eq_self fun c hc => ?_
    cases c with
    | all inner => exact absurd rfl (hkind _ hc inner)
    | literal _ _ => rfl
    | any _ => rfl
    | negation _ => rfl
  obtain ⟨c, d, rest, rfl⟩ := exists_cons_cons hlength
  rw [conjunction_cons_cons, hsplice]

/-- Joining conditions of which none is a disjunction splices nothing in. -/
theorem disjunction_eq_any {cs : List Condition} (hlength : 2 ≤ cs.length)
    (hkind : ∀ c ∈ cs, ∀ inner, c ≠ .any inner) : disjunction cs = .any cs := by
  have hsplice : cs.flatMap disjuncts = cs := by
    refine flatMap_eq_self fun c hc => ?_
    cases c with
    | any inner => exact absurd rfl (hkind _ hc inner)
    | literal _ _ => rfl
    | all _ => rfl
    | negation _ => rfl
  obtain ⟨c, d, rest, rfl⟩ := exists_cons_cons hlength
  rw [disjunction_cons_cons, hsplice]

/-- The text of a normal condition is one term. -/
theorem Normal.isTerm_render {c : Condition} (h : c.Normal) : c.IsTerm := by
  induction h with
  | literal comparator v => exact isTerm_literal comparator v
  | negation _ ih => exact ih.negation
  | @all children hlength hnormal hkind ih =>
    have hne : children ≠ [] := by
      rintro rfl
      exact absurd hlength (by decide)
    have hjoin : Condition.conjunction (children.map reread) = (Condition.all children).reread := by
      rw [reread, rereadEach_eq]
      refine conjunction_eq_all (by simpa using hlength) ?_
      intro c hc
      obtain ⟨d, hd, rfl⟩ := List.mem_map.1 hc
      exact reread_ne_all (hkind d hd)
    rw [IsTerm, render, ← hjoin]
    exact connects_conjunction.bracketed rfl rfl hne ih
  | @any children hlength hnormal hkind ih =>
    have hne : children ≠ [] := by
      rintro rfl
      exact absurd hlength (by decide)
    have hjoin : Condition.disjunction (children.map reread) = (Condition.any children).reread := by
      rw [reread, rereadEach_eq]
      refine disjunction_eq_any (by simpa using hlength) ?_
      intro c hc
      obtain ⟨d, hd, rfl⟩ := List.mem_map.1 hc
      exact reread_ne_any (hkind d hd)
    rw [IsTerm, render, ← hjoin]
    exact connects_disjunction.bracketed rfl rfl hne ih

end Condition

/-! ## §5. The conditions of requirements. -/

namespace Requirement

/-- What is read from a text is normal. -/
theorem normal_of_parse {text : String} {r : Requirement} (h : parse text = .ok r) :
    r.condition.Normal := by
  obtain ⟨⟨ks, hkinds, hwrites⟩, -⟩ := parse_eq_ok_iff.1 h
  obtain ⟨tokens, -, rfl⟩ := Token.scan_of_kinds? hkinds "" 0
  have hread := hwrites 0 tokens rfl
  obtain ⟨value, hderives⟩ := Condition.derives_of_ofTokens hread
  obtain ⟨c, hc, hnormal, -⟩ := Condition.ofTokens_of_derives 0 hderives
  obtain rfl : c = r.condition := Except.ok.inj (hc.symm.trans hread)
  exact hnormal

/-- The condition of a requirement that was built is normal. -/
theorem Built.normal {r : Requirement} (h : r.Built) : r.condition.Normal := by
  induction h with
  | parsed hparse => exact normal_of_parse hparse
  | exact v => exact .literal .equal v
  | @intersect r s _ _ ihr ihs =>
    have hoperands : ∀ c ∈ [r.condition, s.condition], c.Normal := by
      intro c hc
      rcases List.mem_cons.1 hc with rfl | hc
      · exact ihr
      · exact List.mem_singleton.1 hc ▸ ihs
    exact .conjunction (List.cons_ne_nil _ _) hoperands

/-- The text of the condition of a requirement that was built is read: to the same condition, but
for negated equalities, which come back as inequalities.  So it accepts the same versions and
suggests the same one. -/
theorem Built.parse_condition {r : Requirement} (h : r.Built) :
    ∃ r', parse r.condition.render = .ok r' ∧ r'.condition = r.condition.reread ∧
      (∀ v, r'.accepts v = r.accepts v) ∧ r'.default? = r.default? := by
  obtain ⟨ks, hkinds, hwrites⟩ := h.normal.isTerm_render
  refine ⟨⟨Text.trim r.condition.render, r.condition.reread⟩,
    parse_eq_ok_iff.2 ⟨⟨ks, hkinds, hwrites.writes⟩, rfl⟩, rfl, ?_, ?_⟩
  · exact fun v => Condition.accepts_reread v r.condition
  · rw [default?, default?, Condition.anchor?_reread]

/-- Single and doubled negations of an equality, below a disjunction within a conjunction. -/
theorem parse_condition_negated :
    ∃ r, parse "!1 | !!2" = .ok r ∧
      (r.intersect (.exact ⟨"3", by decide⟩)).condition.render = "((!=1 | !!=2) & =3)" ∧
      ∃ r', parse "((!=1 | !!=2) & =3)" = .ok r' ∧
        r'.condition = (r.intersect (.exact ⟨"3", by decide⟩)).condition.reread ∧
        (∀ v, r'.accepts v = (r.intersect (.exact ⟨"3", by decide⟩)).accepts v) ∧
        r'.default? = (r.intersect (.exact ⟨"3", by decide⟩)).default? := by
  have hrun : (parse "!1 | !!2").toOption.map
      (fun r => (r.intersect (.exact ⟨"3", by decide⟩)).condition.render)
        = some "((!=1 | !!=2) & =3)" := by
    decide +kernel
  obtain ⟨r, hsome, hrender⟩ := Option.map_eq_some_iff.1 hrun
  have hr : parse "!1 | !!2" = .ok r := by
    cases hparse : parse "!1 | !!2" with
    | error e => simp [hparse, Except.toOption] at hsome
    | ok r' => simpa [hparse, Except.toOption] using hsome
  have hread := Built.parse_condition (.intersect (.parsed hr) (.exact ⟨"3", by decide⟩))
  rw [hrender] at hread
  exact ⟨r, hr, hrender, hread⟩

end Requirement

end DependencyScope
