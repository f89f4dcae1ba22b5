/-
  DependencyScope.Proofs.Text.Split — trimmed texts, and texts cut at a character.

  Main definitions:
    * `Trimmed` — no blank at either end.

  Main results:
    * `trimmed_trimChars`, `Trimmed.trim` — trimming makes texts trimmed, and keeps those that are;
    * `splitOn_intercalate` — joined pieces are found again, if the separator is in none of them.
-/
import DependencyScope.Text.Blank
import DependencyScope.Text.Split
import Mathlib.Data.List.Count
import Mathlib.Data.List.TakeWhile

namespace DependencyScope.Text

/-! ## §1. Trimmed texts. -/

/-- What is left begins with nothing that is dropped. -/
theorem not_of_mem_head?_dropWhile {α : Type} {p : α → Bool} {cs : List α} :
    ∀ c ∈ (cs.dropWhile p).head?, p c = false := by
  intro c hc
  have hhead := List.head?_dropWhile_not p cs
  rw [Option.mem_def.1 hc] at hhead
  exact hhead

/-- What is kept from the front ends where something is not kept. -/
theorem takeWhile_append_eq_left {α : Type} {p : α → Bool} {front rest : List α}
    (h : ∀ c ∈ front, p c = true) (hrest : ∀ c ∈ rest.head?, p c = false) :
    (front ++ rest).takeWhile p = front := by
  have hnone : rest.takeWhile p = [] := by
    cases rest with
    | nil => rfl
    | cons c rest => simp [hrest c rfl]
  rw [List.takeWhile_append_of_pos h, hnone, List.append_nil]

/-- A text with no blank at either end. -/
structure Trimmed (cs : List Char) : Prop where
  front : ∀ c ∈ cs.head?, isBlank c = false
  back : ∀ c ∈ cs.getLast?, isBlank c = false

theorem dropWhile_eq_self {cs : List Char} (h : ∀ c ∈ cs.head?, isBlank c = false) :
    cs.dropWhile isBlank = cs := by
  cases cs with
  | nil => rfl
  | cons c rest =>
    rw [List.dropWhile_cons, h c rfl]
    rfl

theorem Trimmed.trimChars {cs : List Char} (h : Trimmed cs) : trimChars cs = cs := by
  have hback : cs.reverse.dropWhile isBlank = cs.reverse :=
    dropWhile_eq_self (by simpa using h.back)
  rw [Text.trimChars, trimFront, dropWhile_eq_self h.front, trimBack, hback, List.reverse_reverse]

theorem Trimmed.trim {s : String} (h : Trimmed s.toList) : trim s = s := by
  rw [Text.trim, h.trimChars, String.ofList_toList]

/-- Dropping blanks at the back keeps the front. -/
theorem trimBack_prefix_self (cs : List Char) : trimBack cs <+: cs :=
  List.reverse_suffix.1 (by simpa [trimBack] using List.dropWhile_suffix isBlank)

theorem trimBack_eq_nil_iff {cs : List Char} : trimBack cs = [] ↔ ∀ c ∈ cs, isBlank c = true := by
  simp [trimBack]

/-- Only what stands at the back is trimmed there. -/
theorem trimBack_append {front back : List Char} (h : ∃ d ∈ back, isBlank d = false) :
    trimBack (front ++ back) = front ++ trimBack back := by
  have hne : (back.reverse.dropWhile isBlank).isEmpty = false := by simpa using h
  rw [trimBack, List.reverse_append, List.dropWhile_append, hne, if_neg Bool.false_ne_true,
    List.reverse_append, List.reverse_reverse, ← trimBack]

/-- Trimming leaves no blank at either end. -/
theorem trimmed_trimChars (cs : List Char) : Trimmed (trimChars cs) where
  front := by
    intro c hc
    obtain ⟨blanks, hcut⟩ : trimChars cs <+: trimFront cs := trimBack_prefix_self _
    have hfront : (trimFront cs).head? = some c := by
      rw [← hcut, List.head?_append, hc]
      rfl
    exact not_of_mem_head?_dropWhile c hfront
  back := by
    intro c hc
    rw [trimChars, trimBack, List.getLast?_reverse] at hc
    exact not_of_mem_head?_dropWhile c hc

theorem trim_trim (s : String) : Text.trim (Text.trim s) = Text.trim s := by
  refine Trimmed.trim ?_
  rw [toList_trim]
  exact trimmed_trimChars s.toList

/-- Trimming only drops blanks at the two ends. -/
theorem exists_append_trimChars (cs : List Char) :
    ∃ trail, (∀ c ∈ trail, isBlank c = true) ∧
      cs = cs.takeWhile isBlank ++ (trimChars cs ++ trail) := by
  refine ⟨((trimFront cs).reverse.takeWhile isBlank).reverse, fun c hc => ?_, ?_⟩
  · exact List.mem_takeWhile_imp (List.mem_reverse.1 hc)
  · rw [trimChars, trimBack, ← List.reverse_append, List.takeWhile_append_dropWhile,
      List.reverse_reverse, trimFront, List.takeWhile_append_dropWhile]

/-- Trimming only drops characters. -/
theorem trimChars_sublist (cs : List Char) : List.Sublist (trimChars cs) cs := by
  exact (trimBack_prefix_self _).sublist.trans (List.dropWhile_sublist isBlank)

theorem trimmed_of_trim_eq {s : String} (h : Text.trim s = s) : Trimmed s.toList := by
  rw [← h, toList_trim]
  exact trimmed_trimChars s.toList

/-- What stands between two trimmed texts does not come to an end. -/
theorem Trimmed.join {cs ds : List Char} (hcs : Trimmed cs) (hds : Trimmed ds) (hcne : cs ≠ [])
    (hdne : ds ≠ []) (between : List Char) : Trimmed (cs ++ (between ++ ds)) where
  front := by
    intro c hc
    obtain ⟨d, rest, rfl⟩ := List.exists_cons_of_ne_nil hcne
    exact hcs.front c hc
  back := by
    intro c hc
    have hlast : ds.getLast? = some (ds.getLast hdne) := List.getLast?_eq_some_getLast hdne
    rw [← List.append_assoc, List.getLast?_append, hlast, Option.some_or, ← hlast] at hc
    exact hds.back c hc

/-! ## §2. Places. -/

theorem dropWhile_charOffsets (p : Char → Bool) (cs : List Char) :
    ∀ offset, (charOffsets offset cs).dropWhile (fun place => p place.2)
      = charOffsets (offset + byteLength (cs.takeWhile p)) (cs.dropWhile p) := by
  induction cs with
  | nil => exact fun _ => rfl
  | cons c cs ih =>
    intro offset
    rw [charOffsets, List.dropWhile_cons, List.takeWhile_cons, List.dropWhile_cons]
    cases hc : p c with
    | false => simp [charOffsets]
    | true => simp [ih, Nat.add_assoc]

theorem charOffsets_append (cs ds : List Char) : ∀ offset, charOffsets offset (cs ++ ds)
    = charOffsets offset cs ++ charOffsets (offset + byteLength cs) ds := by
  induction cs with
  | nil => exact fun _ => rfl
  | cons c cs ih =>
    intro offset
    rw [List.cons_append, charOffsets, charOffsets, ih, byteLength_cons, List.cons_append,
      Nat.add_assoc]

/-- A place among those of a text is where one of its characters stands. -/
theorem exists_of_charOffsets_eq {cs : List Char} {before after : List (Nat × Char)} {i : Nat}
    {c : Char} : ∀ {offset}, charOffsets offset cs = before ++ (i, c) :: after →
      ∃ front back, cs = front ++ c :: back ∧ before = charOffsets offset front ∧
        i = offset + byteLength front := by
  induction cs generalizing before with
  | nil =>
    intro offset h
    exact absurd h.symm (by simp [charOffsets])
  | cons d cs ih =>
    intro offset h
    rw [charOffsets] at h
    cases before with
    | nil =>
      cases h
      exact ⟨[], cs, rfl, rfl, rfl⟩
    | cons place before =>
      obtain ⟨rfl, hrest⟩ := List.cons.inj h
      obtain ⟨front, back, rfl, rfl, rfl⟩ := ih hrest
      exact ⟨d :: front, back, rfl, rfl, by rw [byteLength_cons, Nat.add_assoc]⟩

theorem byteLength_pos {cs : List Char} (h : cs ≠ []) : 0 < byteLength cs := by
  obtain ⟨c, rest, rfl⟩ := List.exists_cons_of_ne_nil h
  exact Nat.lt_of_lt_of_le c.utf8Size_pos (Nat.le_add_right _ _)

/-- A place is in front of the blanks at the end if something else stands there or behind it. -/
theorem lt_byteLength_trimBack_iff {cs front back : List Char} (h : cs = front ++ back) :
    byteLength front < byteLength (trimBack cs) ↔ ∃ d ∈ back, isBlank d = false := by
  subst h
  by_cases hback : ∃ d ∈ back, isBlank d = false
  · refine iff_of_true ?_ hback
    rw [trimBack_append hback, byteLength_append]
    refine Nat.lt_add_of_pos_right (byteLength_pos ?_)
    simpa [trimBack_eq_nil_iff] using hback
  · -- with nothing but blanks behind it, the front is trimmed as well
    refine iff_of_false (Nat.not_lt_of_le ?_) hback
    have hblank : ∀ d ∈ back.reverse, isBlank d = true := by simpa using hback
    obtain ⟨blanks, hcut⟩ := trimBack_prefix_self front
    rw [trimBack, List.reverse_append, List.dropWhile_append_of_pos hblank, ← trimBack]
    conv_rhs => rw [← hcut, byteLength_append]
    exact Nat.le_add_right _ _

/-! ## §3. Colons. -/

theorem count_dropWhile_isBlank (cs : List Char) :
    (cs.dropWhile isBlank).count ':' = cs.count ':' := by
  have hblank : (cs.takeWhile isBlank).count ':' = 0 := by
    rw [List.count_eq_zero]
    intro hmem
    exact absurd (List.mem_takeWhile_imp hmem) (by decide)
  conv_rhs => rw [← List.takeWhile_append_dropWhile (p := isBlank) (l := cs)]
  rw [List.count_append, hblank, Nat.zero_add]

/-- No colon is blank. -/
theorem colons_trim (s : String) : colons (trim s) = colons s := by
  unfold colons
  rw [toList_trim]
  unfold trimChars trimBack trimFront
  rw [List.count_reverse, count_dropWhile_isBlank, List.count_reverse, count_dropWhile_isBlank]

/-- No piece between separators has a separator in it. -/
theorem not_mem_of_mem_splitChars (sep : Char) : ∀ (cs : List Char),
    ∀ piece ∈ splitChars sep cs, sep ∉ piece
  | [] => by simp [splitChars]
  | c :: rest => by
    have ih := not_mem_of_mem_splitChars sep rest
    unfold splitChars
    split
    · simpa using ih
    · next hc =>
      have hne : ¬sep = c := fun h => hc h.symm
      split
      · simpa using hne
      · next piece pieces hsplit =>
        rw [hsplit, List.forall_mem_cons] at ih
        simpa [hne] using ih

theorem length_splitChars (sep : Char) : ∀ (cs : List Char),
    (splitChars sep cs).length = cs.count sep + 1
  | [] => rfl
  | c :: rest => by
    have ih := length_splitChars sep rest
    unfold splitChars
    split
    · next hc => simp [hc, ih]
    · next hc =>
      rw [List.count_cons_of_ne hc, ← ih]
      split
      · next hsplit => simp [hsplit] at ih
      · next piece pieces hsplit => simp [hsplit]

theorem length_splitOn_colon (s : String) : (splitOn ':' s).length = colons s + 1 := by
  unfold splitOn colons
  rw [List.length_map, length_splitChars]

theorem colons_of_mem_splitOn {s piece : String} (h : piece ∈ splitOn ':' s) :
    colons piece = 0 := by
  unfold splitOn at h
  obtain ⟨cs, hcs, rfl⟩ := List.mem_map.1 h
  unfold colons
  rw [String.toList_ofList]
  exact List.count_eq_zero.2 (not_mem_of_mem_splitChars ':' _ cs hcs)

/-- Pieces without colons are joined by one colon less than there are pieces. -/
theorem colons_intercalate : ∀ {pieces : List String}, (∀ piece ∈ pieces, colons piece = 0) →
    colons (String.intercalate ":" pieces) = pieces.length - 1
  | [], _ => rfl
  | [piece], h => by
    unfold colons at h ⊢
    rw [String.toList_intercalate]
    simpa using h piece List.mem_cons_self
  | piece :: next :: rest, h => by
    have ih := @colons_intercalate (next :: rest) fun p hp =>
      h p (List.mem_cons_of_mem _ hp)
    have hpiece := h piece List.mem_cons_self
    unfold colons at ih hpiece ⊢
    rw [String.toList_intercalate] at ih ⊢
    rw [List.map_cons, List.map_cons, List.intercalate_cons_cons, List.count_append,
      List.count_append, hpiece, ← List.map_cons, ih]
    simp [Nat.add_comm]

/-! ## §4. Joined pieces. -/

/-- Cutting at a character is what the library does. -/
theorem splitChars_eq_splitOn (sep : Char) (cs : List Char) : splitChars sep cs = cs.splitOn sep := by
  induction cs with
  | nil => rw [splitChars, List.splitOn_nil]
  | cons c rest ih =>
    rw [splitChars, List.splitOn_cons_eq_if_modifyHead, ← ih]
    obtain ⟨piece, pieces, hsplit⟩ : ∃ piece pieces, splitChars sep rest = piece :: pieces :=
      List.exists_cons_of_length_pos (by simp [length_splitChars])
    rw [hsplit]
    by_cases hc : c = sep <;> simp [hc]

/-- Joined pieces are found again, if the separator is in none of them. -/
theorem splitOn_intercalate {sep : Char} {pieces : List String} (hne : pieces ≠ [])
    (h : ∀ piece ∈ pieces, sep ∉ piece.toList) :
    splitOn sep (String.intercalate (String.singleton sep) pieces) = pieces := by
  have hchars : ∀ cs ∈ pieces.map String.toList, sep ∉ cs := by simpa using h
  have hcut := List.splitOn_intercalate sep hchars (by simpa using hne)
  rw [splitOn, String.toList_intercalate, String.toList_singleton, splitChars_eq_splitOn, hcut]
  simp

end DependencyScope.Text
