/-
  DependencyScope.Proofs.Store.Reports — what is said of a group.

  The spec of a group and whether it is selected are read off its members, at any depth, and never off
  its own record.  So neither changes when only that record is written, and a copy, which is made with
  copies of all members, says what its source says.

  Main definitions:
    * `Store.foldWithin`, `Store.fold` — what is read off a record, or else off the members;
    * `Store.Echoes` — the members of one dependency say what those of another one say.

  Main results:
    * `Store.fold_eq` — the number that bounds the depth is no part of what is said;
    * `Store.Echoes.of_below` — what is said of the members does not depend on the record;
    * `Store.echoes_copy` — the members of a copy say what those of its source say;
    * `Store.Echoes.specs`, `.isSelected` — so do the groups themselves.
-/
import DependencyScope.Proofs.Store.Copy

namespace DependencyScope

/-- What is read off a record does not depend on members and listeners. -/
def Dependency.Solitary {α : Type} (own : Dependency → α) : Prop :=
  ∀ d : Dependency, own { d.core with key := d.key } = own d

theorem Dependency.Solitary.congr {α : Type} {own : Dependency → α} (h : Solitary own)
    {d d' : Dependency} (hcore : d.core = d'.core) (hkey : d.key = d'.key) : own d = own d' := by
  rw [← h d, ← h d', hcore, hkey]

namespace Store

variable {α : Type} {own : Dependency → α} {joint : List α → α} {s t u : Store}
  {id i j k : DependencyId}

/-! ## §1. Reading off records and members. -/

/-- What is said of a dependency whose groups nest at most `depth` deep: what `own` reads off its
record, or what `joint` makes of what is said of its members. -/
def foldWithin (s : Store) (own : Dependency → α) (joint : List α → α) : Nat → DependencyId → α
  | 0, id => own (s.dependency id)
  | depth + 1, id =>
    let d := s.dependency id
    if d.isGroup then joint (d.members.map (s.foldWithin own joint depth)) else own d

/-- What is said of a dependency. -/
def fold (s : Store) (own : Dependency → α) (joint : List α → α) (id : DependencyId) : α :=
  s.foldWithin own joint id id

theorem specWithin_eq_fold (s : Store) (depth : Nat) :
    s.specWithin depth = s.foldWithin Dependency.spec (String.intercalate ",") depth := by
  induction depth with
  | zero => rfl
  | succ depth ih =>
    funext id
    unfold specWithin foldWithin
    rw [ih]

theorem spec_eq_fold (s : Store) : s.spec = s.fold Dependency.spec (String.intercalate ",") :=
  funext fun id => congrFun (s.specWithin_eq_fold id) id

theorem isSelectedWithin_eq_fold (s : Store) (depth : Nat) :
    s.isSelectedWithin depth
      = s.foldWithin (fun d => d.selected.isSome) (fun answers => answers.all (·)) depth := by
  induction depth with
  | zero => rfl
  | succ depth ih =>
    funext id
    unfold isSelectedWithin foldWithin
    dsimp only
    rw [ih, List.all_map]
    rfl

theorem isSelected_eq_fold (s : Store) :
    s.isSelected = s.fold (fun d => d.selected.isSome) (fun answers => answers.all (·)) :=
  funext fun id => congrFun (s.isSelectedWithin_eq_fold id) id

/-- The number of a dependency bounds the depth, and so does any greater one: members are older than
their group. -/
theorem foldWithin_eq (hs : s.Ordered) {depth : Nat} (hid : id ≤ depth) :
    s.foldWithin own joint depth id
      = if (s.dependency id).isGroup then joint ((s.dependency id).members.map (s.fold own joint))
        else own (s.dependency id) := by
  induction depth using Nat.strongRecOn generalizing id with
  | ind depth ih =>
    cases depth with
    | zero =>
      -- nothing is older than the dependency 0, so it has no members
      have hsingle : ¬(s.dependency id).isGroup = true := by
        have hnone : (s.dependency id).members = [] :=
          List.eq_nil_iff_forall_not_mem.2 fun m hm =>
            absurd (Nat.lt_of_lt_of_le (hs.members id m hm).1 hid) (Nat.not_lt_zero m)
        simp [Dependency.isGroup, hnone]
      rw [if_neg hsingle]
      rfl
    | succ depth =>
      -- members are older, so the depth that is left is enough for them
      have hmembers : (s.dependency id).members.map (s.foldWithin own joint depth)
          = (s.dependency id).members.map (s.fold own joint) := by
        refine List.map_congr_left fun m hm => ?_
        have hm : m ≤ depth := Nat.le_of_lt_succ (Nat.lt_of_lt_of_le (hs.members id m hm).1 hid)
        rw [fold, ih depth (Nat.lt_succ_self depth) hm,
          ih m (Nat.lt_succ_of_le hm) (Nat.le_refl m)]
      unfold foldWithin
      dsimp only
      rw [hmembers]

/-- What is said of a group is made of what is said of its members, and what is said of any other
dependency is read off its record. -/
theorem fold_eq (hs : s.Ordered) (id : DependencyId) :
    s.fold own joint id
      = if (s.dependency id).isGroup then joint ((s.dependency id).members.map (s.fold own joint))
        else own (s.dependency id) :=
  foldWithin_eq hs (Nat.le_refl id)

/-- What is said of a dependency depends on no newer one. -/
theorem fold_of_below (hs : s.Ordered) (ht : t.Ordered) {b : DependencyId}
    (hbelow : ∀ i < b, t.dependency i = s.dependency i) (hid : id < b) :
    t.fold own joint id = s.fold own joint id := by
  induction id using Nat.strongRecOn with
  | ind id ih =>
    have hmembers : (s.dependency id).members.map (t.fold own joint)
        = (s.dependency id).members.map (s.fold own joint) := by
      refine List.map_congr_left fun m hm => ?_
      have hlt : m < id := (hs.members id m hm).1
      exact ih m hlt (Nat.lt_trans hlt hid)
    rw [fold_eq hs, fold_eq ht, hbelow id hid, hmembers]

/-! ## §2. Members that say the same. -/

/-- In `t` the members of `j` say what those of `i` say in `s`. -/
structure Echoes (s : Store) (i : DependencyId) (t : Store) (j : DependencyId) : Prop where
  members : ∀ {α : Type} (own : Dependency → α) (joint : List α → α), Dependency.Solitary own →
    (t.dependency j).members.map (t.fold own joint)
      = (s.dependency i).members.map (s.fold own joint)

namespace Echoes

theorem trans (h : s.Echoes i t j) (h' : t.Echoes j u k) : s.Echoes i u k where
  members own joint hown := (h'.members own joint hown).trans (h.members own joint hown)

/-- What is said of the members of a dependency does not depend on its record. -/
theorem of_below (hs : s.Ordered) (ht : t.Ordered)
    (hmembers : (t.dependency id).members = (s.dependency id).members)
    (hbelow : ∀ i < id, t.dependency i = s.dependency i) : s.Echoes id t id where
  members := by
    intro α own joint _
    rw [hmembers]
    exact List.map_congr_left fun m hm => fold_of_below hs ht hbelow (hs.members id m hm).1

theorem isGroup (h : s.Echoes i t j) :
    (t.dependency j).isGroup = (s.dependency i).isGroup := by
  have hempty := congrArg List.isEmpty (h.members (fun _ => ()) (fun _ => ()) fun _ => rfl)
  rw [List.isEmpty_map, List.isEmpty_map] at hempty
  unfold Dependency.isGroup
  rw [hempty]

/-- Groups with members that say the same say the same. -/
theorem fold (h : s.Echoes i t j) (hs : s.Ordered) (ht : t.Ordered)
    (hown : Dependency.Solitary own)
    (hsingle : (s.dependency i).isGroup = false → own (t.dependency j) = own (s.dependency i)) :
    t.fold own joint j = s.fold own joint i := by
  rw [fold_eq hs, fold_eq ht, h.members own joint hown, h.isGroup]
  split
  · rfl
  · next hnot => exact hsingle (Bool.eq_false_iff.2 hnot)

/-- They give the same specs. -/
theorem specs (h : s.Echoes i t j) (hgroup : (s.dependency i).isGroup = true) :
    t.specs j = s.specs i := by
  unfold Store.specs
  dsimp only
  rw [if_pos hgroup, if_pos (h.isGroup.trans hgroup), spec_eq_fold, spec_eq_fold]
  exact h.members _ _ fun _ => rfl

/-- They are selected at the same time. -/
theorem isSelected (h : s.Echoes i t j) (hs : s.Ordered) (ht : t.Ordered)
    (hgroup : (s.dependency i).isGroup = true) : t.isSelected j = s.isSelected i := by
  rw [isSelected_eq_fold, isSelected_eq_fold]
  refine h.fold hs ht (fun _ => rfl) fun hsingle => ?_
  rw [hgroup] at hsingle
  exact nomatch hsingle

end Echoes

/-! ## §3. Copies. -/

theorem Extends.fold (h : s.Extends t) (hs : s.Sound) (hid : id < s.nextDependency) :
    t.fold own joint id = s.fold own joint id :=
  fold_of_below hs.ordered h.sound.ordered h.kept hid

/-- New dependencies change nothing in what is said of the members of one that is there. -/
theorem Extends.echoes (h : s.Extends t) (hs : s.Sound) (hid : id < s.nextDependency) :
    s.Echoes id t id :=
  .of_below hs.ordered h.sound.ordered (congrArg Dependency.members (h.kept id hid))
    fun i hi => h.kept i (Nat.lt_trans hi hid)

/-- The members of a new record go on to say what they say. -/
theorem Echoes.of_addDependency {d : Dependency} (hs : s.Sound)
    (hd : ∀ m ∈ d.members, m < s.nextDependency)
    (hmembers : ∀ {α : Type} (own : Dependency → α) (joint : List α → α),
      Dependency.Solitary own →
        d.members.map (s.fold own joint) = (u.dependency i).members.map (u.fold own joint)) :
    u.Echoes i (s.addDependency d).2 (s.addDependency d).1 where
  members := by
    intro α own joint hown
    rw [dependency_added, ← hmembers own joint hown]
    exact List.map_congr_left fun m hm => (Extends.addDependency hs hd).fold hs (hd m hm)

theorem map_fold_copyAll {depth : Nat}
    (hcopy : ∀ {s : Store}, s.Sound → ∀ id ≤ depth, ∀ key,
      s.Echoes id (s.copyWithin depth id key).2 (s.copyWithin depth id key).1)
    (hown : Dependency.Solitary own) : ∀ (members : List DependencyId) {s : Store}, s.Sound →
      (∀ m ∈ members, m < s.nextDependency ∧ m ≤ depth) →
      (copyAll depth members s).1.map ((copyAll depth members s).2.fold own joint)
        = members.map (s.fold own joint)
  | [], _, _, _ => rfl
  | member :: rest, s, h, hmembers => by
    rw [List.forall_mem_cons] at hmembers
    obtain ⟨⟨hmade, hdepth⟩, hrest⟩ := hmembers
    have hfirst := copyWithin_spec depth h member (s.dependency member).key
    have hothers := (copyAll_spec (copyWithin_spec depth) rest hfirst.sound fun m hm =>
      hfirst.lt (hrest m hm).1).1
    obtain ⟨ids, hrecord⟩ := s.dependency_copyWithin depth member (s.dependency member).key
    have hkey := congrArg Dependency.key hrecord
    have hmember : (s.copyWithin depth member (s.dependency member).key).2.fold own joint
        (s.copyWithin depth member (s.dependency member).key).1 = s.fold own joint member :=
      (hcopy h member hdepth _).fold h.ordered hfirst.sound.ordered hown fun _ =>
        hown.congr hfirst.core hkey
    have hlater := map_fold_copyAll hcopy hown rest hfirst.sound fun m hm =>
      ⟨hfirst.lt (hrest m hm).1, (hrest m hm).2⟩
    rw [copyAll, List.map_cons, List.map_cons]
    -- the first copy is older than the others, and these are copied in a store with the first one
    refine congrArg₂ List.cons ((hothers.fold hfirst.sound hfirst.made).trans hmember) ?_
    refine hlater.trans (List.map_congr_left fun m hm => ?_)
    exact hfirst.toExtends.fold h (hrest m hm).1

/-- With all members copied, the copies say what the members say. -/
theorem echoes_copyWithin (depth : Nat) : ∀ {s : Store}, s.Sound → ∀ id ≤ depth, ∀ key,
    s.Echoes id (s.copyWithin depth id key).2 (s.copyWithin depth id key).1 := by
  induction depth with
  | zero =>
    intro s h id _ key
    exact .of_addDependency (d := { s.dependency id with key := key, listeners := [] }) h
      (fun m hm => (h.ordered.members id m hm).2) fun _ _ _ => rfl
  | succ depth ih =>
    intro s h id hid key
    have hmembers : ∀ m ∈ (s.dependency id).members, m < s.nextDependency ∧ m ≤ depth := by
      intro m hm
      obtain ⟨hlt, hmade⟩ := h.ordered.members id m hm
      exact ⟨hmade, Nat.le_of_lt_succ (Nat.lt_of_lt_of_le hlt hid)⟩
    obtain ⟨hextends, hmade, -⟩ := copyAll_spec (copyWithin_spec depth) (s.dependency id).members h
      fun m hm => (hmembers m hm).1
    rw [copyWithin_succ]
    refine .of_addDependency hextends.sound hmade fun own joint hown => ?_
    exact map_fold_copyAll ih hown (s.dependency id).members h hmembers

theorem echoes_copy (h : s.Sound) (id : DependencyId) (key : String) :
    s.Echoes id (s.copy id key).2 (s.copy id key).1 :=
  echoes_copyWithin id h id (Nat.le_refl id) key

end Store

end DependencyScope
