/-
  DependencyScope.Proofs.Requirement.Source — the text of a requirement is read back to it.

  A requirement holds a text and a condition side by side, and an intersection joins both on its
  own: the texts with "&", in brackets where the condition of an operand is composed, and the
  conditions by splicing.  The two stay in step.  What has to be known for that is which texts are
  read as one term wherever they stand: a text in brackets always is, and a text without brackets
  is if its condition is not composed.

  Main definitions:
    * `Writes`, `WritesTerm` — what tokens of certain kinds are read to;
    * `Requirement.Built` — the requirements that parsing, `exact` and `intersect` make.

  Main results:
    * `Writes.term`, `Writes.bracketed` — the two ways to be a term;
    * `Requirement.parse_eq_ok_iff` — reading a text depends on the kinds of its tokens alone;
    * `Requirement.Built.parse_source` — a requirement that was built is read back from its text.
-/
import DependencyScope.Proofs.Text.Split
import DependencyScope.Proofs.Requirement.Grammar
import DependencyScope.Proofs.Requirement.Lexing

namespace DependencyScope

open DependencyScope.Text

/-! ## §1. Composed conditions. -/

namespace Level

/-- A settled level whose condition is not composed holds this condition and nothing else. -/
theorem Settled.single {level : Level} (h : level.Settled)
    (hclose : level.close.isComposed = false) :
    level.alternatives = [] ∧ level.terms = [level.close] := by
  obtain ⟨alternatives, terms, negations⟩ := level
  cases alternatives with
  | nil =>
    -- the only group is the one that has just been read
    have hgroup : (Condition.conjunction terms).isComposed = false := hclose
    cases terms with
    | nil => exact absurd rfl h.terms_ne
    | cons t rest =>
      cases rest with
      | nil => exact ⟨rfl, rfl⟩
      | cons u rest =>
        rw [Condition.isComposed_conjunction h.terms_normal] at hgroup
        exact nomatch hgroup
  | cons a rest =>
    obtain ⟨b, later, heq⟩ : ∃ b later, rest ++ [.conjunction terms] = b :: later :=
      List.exists_cons_of_ne_nil (by simp)
    have hgroups : (Condition.disjunction (a :: (rest ++ [.conjunction terms]))).isComposed = false :=
      hclose
    have hnormal : ∀ p ∈ a :: (rest ++ [.conjunction terms]), p.Normal := h.endGroup.2.2
    rw [heq] at hgroups hnormal
    rw [Condition.isComposed_disjunction hnormal] at hgroups
    exact nomatch hgroups

end Level

/-! ## §2. What tokens write. -/

namespace Condition

variable {c d : Condition} {ks ls : List TokenKind}

/-- Tokens of these kinds are read to the condition. -/
def Writes (ks : List TokenKind) (c : Condition) : Prop :=
  ∀ size tokens, tokens.map Token.kind = ks → ofTokens size tokens = .ok c

/-- Tokens of these kinds are read as one term, whatever stands before them and behind them. -/
def WritesTerm (ks : List TokenKind) (c : Condition) : Prop :=
  ∀ size tokens, tokens.map Token.kind = ks → ∀ rest complete inner outer,
    Condition.read size (tokens ++ rest) complete inner outer
      = Condition.read size rest true (inner.push c) outer

/-- What the reader gets to depends on the kinds of the tokens alone. -/
theorem read_congr {size size' : Nat} {tokens tokens' : List Token} {complete : Bool}
    {inner : Level} {outer outer' : List (Span × Level)}
    (h : Condition.read size tokens complete inner outer = .ok c)
    (hkinds : tokens'.map Token.kind = tokens.map Token.kind)
    (houter : outer'.map Prod.snd = outer.map Prod.snd) :
    Condition.read size' tokens' complete inner outer' = .ok c := by
  fun_induction Condition.read size tokens complete inner outer generalizing tokens' outer' with
  -- the reader does not get through
  | case1 | case3 | case5 | case7 | case11 | case14 => exact nomatch h
  | case2 inner =>
    obtain rfl := List.map_eq_nil_iff.1 hkinds
    obtain rfl := List.map_eq_nil_iff.1 houter
    exact h
  -- a comparator takes the version behind it along
  | case6 k span complete inner outer v span' rest ih =>
    obtain ⟨⟨kind, span₁⟩, tail, rfl, rfl, htail⟩ := List.map_eq_cons_iff.1 hkinds
    obtain ⟨⟨kind, span₂⟩, tail', rfl, rfl, htail'⟩ := List.map_eq_cons_iff.1 htail
    exact ih h htail' houter
  | case9 span rest complete inner outer ih =>
    obtain ⟨⟨kind, span'⟩, tail, rfl, rfl, htail⟩ := List.map_eq_cons_iff.1 hkinds
    exact ih h htail (congrArg (inner :: ·) houter)
  | case10 span rest inner opening level outer ih =>
    obtain ⟨⟨kind, span'⟩, tail, rfl, rfl, htail⟩ := List.map_eq_cons_iff.1 hkinds
    obtain ⟨⟨opening', level'⟩, outer', rfl, rfl, houter'⟩ := List.map_eq_cons_iff.1 houter
    exact ih h htail houter'
  | case4 _ _ _ _ _ _ ih | case8 _ _ _ _ _ ih | case12 _ _ _ _ ih | case13 _ _ _ _ ih =>
    obtain ⟨⟨kind, span'⟩, tail, rfl, rfl, htail⟩ := List.map_eq_cons_iff.1 hkinds
    exact ih h htail houter

theorem writes_of_ofTokens {size : Nat} {tokens : List Token} (h : ofTokens size tokens = .ok c) :
    Writes (tokens.map Token.kind) c :=
  fun _ _ hkinds => read_congr h hkinds rfl

/-- Tokens that are read as one term are read to the condition of the term. -/
theorem WritesTerm.writes (h : WritesTerm ks c) : Writes ks c := by
  intro size tokens hkinds
  have hread := h size tokens hkinds [] false {} []
  rw [List.append_nil] at hread
  rw [ofTokens, hread]
  rfl

/-- Two terms with a "&" between them are read to their conjunction. -/
theorem WritesTerm.both (h : WritesTerm ks c) (h' : WritesTerm ls d) :
    Writes (ks ++ .conjunction :: ls) (conjunction [c, d]) := by
  intro size tokens hkinds
  obtain ⟨left, tail, rfl, hleft, htail⟩ := List.map_eq_append_iff.1 hkinds
  obtain ⟨⟨kind, span⟩, right, rfl, rfl, hright⟩ := List.map_eq_cons_iff.1 htail
  have hread := h' size right hright [] false (Level.push {} c) []
  rw [List.append_nil] at hread
  rw [ofTokens, h size left hleft]
  show Condition.read size right false (Level.push {} c) [] = _
  rw [hread]
  rfl

/-- A reader that comes to a level at the end closes it. -/
theorem ofTokens_eq_close {size : Nat} {tokens : List Token} {level : Level}
    (h : ∀ rest complete outer, Condition.read size (tokens ++ rest) complete {} outer
      = Condition.read size rest true level outer) : ofTokens size tokens = .ok level.close := by
  have hend : Condition.read size [] true level [] = .ok level.close := rfl
  rw [ofTokens, ← hend, ← h [] false [], List.append_nil]

/-- In brackets, what writes a condition is one term. -/
theorem Writes.bracketed (h : Writes ks c) :
    WritesTerm (.openBracket :: (ks ++ [.closeBracket])) c := by
  intro size tokens hkinds rest complete inner outer
  obtain ⟨⟨kind, span⟩, tail, rfl, rfl, htail⟩ := List.map_eq_cons_iff.1 hkinds
  obtain ⟨inside, last, rfl, hinside, hlast⟩ := List.map_eq_append_iff.1 htail
  obtain ⟨⟨kind, span'⟩, tail', rfl, rfl, htail'⟩ := List.map_eq_cons_iff.1 hlast
  obtain rfl := List.map_eq_nil_iff.1 htail'
  obtain ⟨value, hderives⟩ := derives_of_ofTokens (h size inside hinside)
  obtain ⟨level, -, -, hread⟩ : Reads size inside value .requirement :=
    reads_of_derives hderives inside rfl
  obtain rfl : level.close = c :=
    Except.ok.inj ((ofTokens_eq_close hread).symm.trans (h size inside hinside))
  show Condition.read size ((inside ++ [⟨.closeBracket, span'⟩]) ++ rest) false {}
      ((span, inner) :: outer) = _
  rw [List.append_assoc, hread]
  rfl

/-- A group that a term continues has a composed condition. -/
theorem isComposed_of_continued {size : Nat} {left between right : List Token}
    {value other : Version → Bool} {complete : Bool} (hleft : Reads size left value .group)
    (hright : Reads size right other .term)
    (hbetween : ∀ rest inner outer, Condition.read size (between ++ rest) true inner outer
      = Condition.read size rest complete inner outer)
    (h : ofTokens size (left ++ (between ++ right)) = .ok c) : c.isComposed = true := by
  obtain ⟨cs, hne, hnormal, -, hread⟩ := hleft
  obtain ⟨d, hd, -, hrest⟩ := hright
  have hall : ∀ p ∈ cs ++ [d], p.Normal := by
    intro p hp
    rcases List.mem_append.1 hp with hmem | hlast
    · exact hnormal p hmem
    · exact List.mem_singleton.1 hlast ▸ hd
  obtain ⟨hsettled, hterms, -⟩ :=
    Level.settled_foldl_push {} rfl rfl (by simp) (List.concat_ne_nil d cs) hall
  have hclose : ofTokens size (left ++ (between ++ right))
      = .ok ((cs ++ [d]).foldl Level.push {}).close := by
    apply ofTokens_eq_close
    intro rest complete outer
    rw [List.append_assoc, hread, List.append_assoc, hbetween, hrest, List.foldl_append]
    rfl
  obtain rfl := Except.ok.inj (hclose.symm.trans h)
  cases hcomposed : ((cs ++ [d]).foldl Level.push {}).close.isComposed with
  | true => rfl
  | false =>
    -- a level with one term only would have no group before it
    have hone := congrArg List.length (hterms.symm.trans (hsettled.single hcomposed).2)
    rw [List.length_append] at hone
    exact absurd (List.eq_nil_of_length_eq_zero (Nat.succ.inj hone)) hne

/-- A requirement that a "|" and a group continue has a composed condition. -/
theorem isComposed_of_alternative {size : Nat} {left right : List Token} {span : Span}
    {value other : Version → Bool} (hleft : Reads size left value .requirement)
    (hright : Reads size right other .group)
    (h : ofTokens size (left ++ ⟨.disjunction, span⟩ :: right) = .ok c) :
    c.isComposed = true := by
  obtain ⟨level, hlevel, -, hread⟩ := hleft
  obtain ⟨cs, hne, hnormal, -, hrest⟩ := hright
  obtain ⟨hnone, hfresh, hbefore⟩ := hlevel.endGroup
  obtain ⟨hsettled, -, halternatives⟩ :=
    Level.settled_foldl_push level.endGroup hnone hfresh hbefore hne hnormal
  have hclose : ofTokens size (left ++ ⟨.disjunction, span⟩ :: right)
      = .ok (cs.foldl Level.push level.endGroup).close := by
    apply ofTokens_eq_close
    intro rest complete outer
    rw [List.append_assoc, hread, ← hrest rest false]
    rfl
  obtain rfl := Except.ok.inj (hclose.symm.trans h)
  cases hcomposed : (cs.foldl Level.push level.endGroup).close.isComposed with
  | true => rfl
  | false =>
    have hempty := halternatives.symm.trans (hsettled.single hcomposed).1
    exact absurd hempty (List.concat_ne_nil _ _)

/-- What writes a condition that is not composed is one term, without brackets as well. -/
theorem Writes.term (h : Writes ks c) (hc : c.isComposed = false) : WritesTerm ks c := by
  intro size tokens hkinds
  have hwhole : ofTokens size tokens = .ok c := h size tokens hkinds
  have hfalse : ¬ c.isComposed = true := by simp [hc]
  obtain ⟨value, hderives⟩ := derives_of_ofTokens hwhole
  rw [hkinds] at hderives
  -- of all derivations, only that of a term is left
  cases hderives with
  | group hgroup =>
    cases hgroup with
    | term hterm =>
      obtain ⟨d, -, -, hread⟩ : Reads size tokens value .term := reads_of_derives hterm tokens hkinds
      have hlevel : ofTokens size tokens = .ok (Level.push {} d).close :=
        ofTokens_eq_close fun rest complete outer => hread rest complete {} outer
      obtain rfl : d = c := Except.ok.inj (hlevel.symm.trans hwhole)
      exact hread
    | joined hleft hright =>
      obtain ⟨left, tail, rfl, hkleft, htail⟩ := List.map_eq_append_iff.1 hkinds
      obtain ⟨⟨kind, span⟩, right, rfl, rfl, hkright⟩ := List.map_eq_cons_iff.1 htail
      have hbetween : ∀ rest inner outer,
          Condition.read size ([⟨.conjunction, span⟩] ++ rest) true inner outer
            = Condition.read size rest false inner outer := fun _ _ _ => rfl
      exact absurd (isComposed_of_continued (reads_of_derives hleft left hkleft)
        (reads_of_derives hright right hkright) hbetween hwhole) hfalse
    | beside hleft hright =>
      obtain ⟨left, right, rfl, hkleft, hkright⟩ := List.map_eq_append_iff.1 hkinds
      have hbetween : ∀ rest inner outer, Condition.read size ([] ++ rest) true inner outer
          = Condition.read size rest true inner outer := fun _ _ _ => rfl
      exact absurd (isComposed_of_continued (reads_of_derives hleft left hkleft)
        (reads_of_derives hright right hkright) hbetween hwhole) hfalse
  | alternative hleft hright =>
    obtain ⟨left, tail, rfl, hkleft, htail⟩ := List.map_eq_append_iff.1 hkinds
    obtain ⟨⟨kind, span⟩, right, rfl, rfl, hkright⟩ := List.map_eq_cons_iff.1 htail
    exact absurd (isComposed_of_alternative (reads_of_derives hleft left hkleft)
      (reads_of_derives hright right hkright) hwhole) hfalse

end Condition

/-! ## §3. Reading requirements. -/

namespace Requirement

/-- A text is read to a requirement exactly if the kinds of its tokens write the condition and the
requirement keeps the text without its blank ends. -/
theorem parse_eq_ok_iff {text : String} {r : Requirement} :
    parse text = .ok r ↔
      (∃ ks, Token.kinds? text.toList = some ks ∧ Condition.Writes ks r.condition) ∧
        r.source = trim text := by
  constructor
  · intro h
    unfold parse at h
    cases hscan : Token.scan text 0 text.toList with
    | error e => simp [hscan] at h
    | ok tokens =>
      have hkinds : Token.kinds? text.toList = some (tokens.map Token.kind) := by
        rw [Token.kinds?_eq_scan text 0, hscan]
        rfl
      cases tokens with
      | nil => simp [hscan] at h
      | cons token rest =>
        cases hread : Condition.ofTokens text.utf8ByteSize (token :: rest) with
        | error fault => simp [hscan, hread] at h
        | ok c =>
          simp only [hscan, hread] at h
          obtain rfl := Except.ok.inj h
          exact ⟨⟨_, hkinds, Condition.writes_of_ofTokens hread⟩, rfl⟩
  · rintro ⟨⟨ks, hkinds, hwrites⟩, hsource⟩
    -- whatever the places are, tokens of these kinds are scanned and read to the condition
    obtain ⟨tokens, hscan, rfl⟩ := Token.scan_of_kinds? hkinds text 0
    have hread := hwrites text.utf8ByteSize tokens rfl
    unfold parse
    cases tokens with
    | nil => exact nomatch hread
    | cons token rest =>
      simp only [hscan, hread, ← hsource]

/-- The text of a requirement as an operand is trimmed, and it is one term. -/
theorem operand_spec {r : Requirement} (h : parse r.source = .ok r) :
    Trimmed r.operand.toList ∧
      ∃ ks, Token.kinds? r.operand.toList = some ks ∧ Condition.WritesTerm ks r.condition := by
  obtain ⟨⟨ks, hkinds, hwrites⟩, hsource⟩ := parse_eq_ok_iff.1 h
  unfold operand
  split
  · have hchars : ("(" ++ r.source ++ ")").toList = '(' :: (r.source.toList ++ [')']) := by simp
    rw [hchars]
    refine ⟨⟨?_, ?_⟩, _, Token.kinds?_brackets hkinds, hwrites.bracketed⟩
    · rintro c ⟨⟩
      decide
    · intro c hc
      rw [← List.cons_append, List.getLast?_concat] at hc
      cases hc
      decide
  · rename_i hcomposed
    exact ⟨trimmed_of_trim_eq hsource.symm, ks, hkinds, hwrites.term (by simpa using hcomposed)⟩

/-- A text that is one term is not empty. -/
theorem ne_nil_of_term {cs : List Char} {ks : List TokenKind} {c : Condition}
    (hkinds : Token.kinds? cs = some ks) (hterm : Condition.WritesTerm ks c) : cs ≠ [] := by
  rintro rfl
  obtain rfl : [] = ks := by simpa [Token.kinds?] using hkinds
  cases hterm.writes 0 [] rfl

/-- Two requirements that are read back from their texts are so as an intersection. -/
theorem parse_intersect {r s : Requirement} (hr : parse r.source = .ok r)
    (hs : parse s.source = .ok s) : parse (r.intersect s).source = .ok (r.intersect s) := by
  obtain ⟨hrtrim, ks, hks, hrterm⟩ := operand_spec hr
  obtain ⟨hstrim, ls, hls, hsterm⟩ := operand_spec hs
  have hchars : (r.intersect s).source.toList
      = r.operand.toList ++ ([' ', '&', ' '] ++ s.operand.toList) := by
    simp [intersect]
  have htrim : Trimmed (r.intersect s).source.toList := by
    rw [hchars]
    exact hrtrim.join hstrim (ne_nil_of_term hks hrterm) (ne_nil_of_term hls hsterm) _
  refine parse_eq_ok_iff.2 ⟨⟨_, ?_, hrterm.both hsterm⟩, htrim.trim.symm⟩
  rw [hchars]
  exact Token.kinds?_both hks hls

/-! ## §4. Requirements that are built. -/

/-- A requirement that parsing, `exact` and `intersect` make. -/
inductive Built : Requirement → Prop
  | parsed {text : String} {r : Requirement} : parse text = .ok r → Built r
  | exact (v : Version) : Built (.exact v)
  | intersect {r s : Requirement} : Built r → Built s → Built (r.intersect s)

/-- A requirement that was built is read back from its text, with the condition that it has. -/
theorem Built.parse_source {r : Requirement} (h : r.Built) : parse r.source = .ok r := by
  induction h with
  | @parsed text r h =>
    obtain ⟨⟨ks, hkinds, hwrites⟩, hsource⟩ := parse_eq_ok_iff.1 h
    have htrim : Trimmed r.source.toList := by
      rw [hsource, toList_trim]
      exact trimmed_trimChars text.toList
    refine parse_eq_ok_iff.2 ⟨⟨ks, ?_, hwrites⟩, htrim.trim.symm⟩
    rw [hsource, toList_trim, Token.kinds?_trimChars, hkinds]
  | exact v =>
    have hwrites : Condition.Writes [.version v] (.literal .equal v) :=
      Condition.writes_of_ofTokens (rfl : Condition.ofTokens 0 [⟨.version v, ⟨0, 0⟩⟩] = _)
    exact parse_eq_ok_iff.2 ⟨⟨_, Token.kinds?_text v, hwrites⟩, (Version.trim_text v).symm⟩
  | intersect _ _ ihr ihs => exact parse_intersect ihr ihs

/-- An intersection whose first operand needs brackets. -/
theorem parse_source_bracketed :
    ∃ r, parse " 1 or >=2 " = .ok r ∧
      (r.intersect (.exact ⟨"3", by decide⟩)).source = "(1 or >=2) & 3" ∧
      parse "(1 or >=2) & 3" = .ok (r.intersect (.exact ⟨"3", by decide⟩)) := by
  have hrun : (parse " 1 or >=2 ").toOption.map
      (fun r => (r.intersect (.exact ⟨"3", by decide⟩)).source) = some "(1 or >=2) & 3" := by
    decide +kernel
  obtain ⟨r, hsome, hsource⟩ := Option.map_eq_some_iff.1 hrun
  have hr : parse " 1 or >=2 " = .ok r := by
    cases hparse : parse " 1 or >=2 " with
    | error e => simp [hparse, Except.toOption] at hsome
    | ok r' => simpa [hparse, Except.toOption] using hsome
  have hread := Built.parse_source (.intersect (.parsed hr) (.exact ⟨"3", by decide⟩))
  rw [hsource] at hread
  exact ⟨r, hr, hsource, hread⟩

end Requirement

end DependencyScope
