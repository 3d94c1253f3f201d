import ModBuild.Declarations
import ModBuild.Proofs.Text.Cut
import ModBuild.Proofs.Text.Infix

/-!
# Module names on a line

A name stands between two quotes, so it is a part of the line split at its quotes, and the word that
introduces it ends the part before (`stands_iff`). Dropping a scope folder sets one part
(`parts_dropScopeAfter`); all other parts are left, and with them every name that another word
introduces.
-/

namespace ModBuild

set_option autoImplicit false

/-- The name is `t` in the folder of a scope. -/
def Scope.Contains (r t : List Char) : Prop := ∃ s ∈ owners, r = s.label.toList ++ '/' :: t

theorem Scope.slash_not_mem_label (s : Scope) : '/' ∉ s.label.toList := by
  cases s <;> decide

theorem Scope.quote_not_mem_label (s : Scope) : '"' ∉ s.label.toList := by
  cases s <;> decide

theorem Scope.break_not_mem_label (s : Scope) : '\n' ∉ s.label.toList := by
  cases s <;> decide

theorem Scope.Contains.unique {r t t' : List Char} (h : Contains r t) (h' : Contains r t') :
    t = t' := by
  obtain ⟨s, -, rfl⟩ := h
  obtain ⟨s', -, hr⟩ := h'
  have hcut := Text.cut?_singleton_append (r := t) s.slash_not_mem_label
  rw [hr, Text.cut?_singleton_append s'.slash_not_mem_label] at hcut
  exact (congrArg Prod.snd (Option.some.inj hcut)).symm

theorem Scope.Contains.quote_mem_iff {r t : List Char} (h : Contains r t) : '"' ∈ r ↔ '"' ∈ t := by
  obtain ⟨s, -, rfl⟩ := h
  simp [s.quote_not_mem_label]

theorem Scope.Contains.break_mem_iff {r t : List Char} (h : Contains r t) :
    '\n' ∈ r ↔ '\n' ∈ t := by
  obtain ⟨s, -, rfl⟩ := h
  simp [s.break_not_mem_label]

namespace Declarations

/-- A name after the word `w`, each quoted name being followed by `z`. -/
def Stands (w z r line : List Char) : Prop := w ++ '"' :: r ++ '"' :: z <:+: line

section Parts
variable {parts : List (List Char)} {w u z r t : List Char} {i j : Nat}

/-- The part ends in the word, so that the next part is a name. -/
def OpensAt (w : List Char) (parts : List (List Char)) (i : Nat) : Prop :=
  ∃ a ∈ parts[i]?, w <:+ a

/-- The name `r` is the part after the word, and `z` follows its quote. -/
structure StandsAt (w z r : List Char) (parts : List (List Char)) (i : Nat) : Prop where
  opens : OpensAt w parts i
  name : parts[i + 1]? = some r
  closes : ∃ c ∈ parts[i + 2]?, z <+: c

/-- The part after the word starts with a scope folder, before `t`. -/
structure ScopedAt (w : List Char) (parts : List (List Char)) (i : Nat) (t : List Char) : Prop where
  opens : OpensAt w parts i
  name : ∃ r ∈ parts[i + 1]?, Scope.Contains r t

/-- Two parts after the word start with a scope folder. -/
def Twice (w : List Char) (parts : List (List Char)) : Prop :=
  ∃ i k t t', i < k ∧ ScopedAt w parts i t ∧ ScopedAt w parts k t'

/-- Neither word ends in the other one. -/
def WordsApart (w u : List Char) : Prop := ¬ w <:+ u ∧ ¬ u <:+ w

instance (w u : List Char) : Decidable (WordsApart w u) := inferInstanceAs (Decidable (_ ∧ _))

theorem OpensAt.absurd (h : OpensAt w parts i) (h' : OpensAt u parts i) (hapart : WordsApart w u) :
    False := by
  obtain ⟨a, ha, hw⟩ := h
  obtain ⟨b, hb, hu⟩ := h'
  cases Option.mem_unique ha hb
  rcases List.suffix_or_suffix_of_suffix hw hu with hs | hs
  · exact hapart.1 hs
  · exact hapart.2 hs

theorem twice_of_ne {t t' : List Char} (h : ScopedAt w parts i t) (h' : ScopedAt w parts j t')
    (hne : i ≠ j) : Twice w parts := by
  rcases Nat.lt_or_gt_of_ne hne with hlt | hgt
  · exact ⟨i, j, t, t', hlt, h, h'⟩
  · exact ⟨j, i, t', t, hgt, h', h⟩

variable (hj : ScopedAt w parts j t)
include hj

theorem ScopedAt.length_lt : j + 1 < parts.length := by
  obtain ⟨r, hr, -⟩ := hj.name
  exact (List.getElem?_eq_some_iff.mp hr).1

theorem opensAt_set_iff (hslash : '/' ∉ u) :
    OpensAt u (parts.set (j + 1) t) i ↔ OpensAt u parts i := by
  by_cases hi : j + 1 = i
  · subst hi
    obtain ⟨r, hr, s, -, rfl⟩ := hj.name
    rw [Option.mem_def] at hr
    simp [OpensAt, List.getElem?_set_self hj.length_lt, hr, Text.suffix_append_cons_iff hslash]
  · simp [OpensAt, List.getElem?_set_ne hi]

theorem standsAt_set_iff (hslash : '/' ∉ u) (hi : i ≠ j) (hz : z = [] ∨ i + 1 ≠ j) :
    StandsAt u z r (parts.set (j + 1) t) i ↔ StandsAt u z r parts i := by
  have hcloses : (∃ c ∈ (parts.set (j + 1) t)[i + 2]?, z <+: c) ↔ ∃ c ∈ parts[i + 2]?, z <+: c := by
    rcases hz with rfl | hz
    · simp [List.getElem?_eq_some_iff]
    · rw [List.getElem?_set_ne fun h => hz (Nat.succ.inj h).symm]
  have hname : (parts.set (j + 1) t)[i + 1]? = parts[i + 1]? :=
    List.getElem?_set_ne fun h => hi (Nat.succ.inj h).symm
  constructor
  · rintro ⟨ho, hn, hc⟩
    exact ⟨(opensAt_set_iff hj hslash).mp ho, hname.symm.trans hn, hcloses.mp hc⟩
  · rintro ⟨ho, hn, hc⟩
    exact ⟨(opensAt_set_iff hj hslash).mpr ho, hname.trans hn, hcloses.mpr hc⟩

theorem ScopedAt.ne_of_opensAt (ho : OpensAt u parts i) (hapart : WordsApart w u) : i ≠ j := by
  rintro rfl
  exact hj.opens.absurd ho hapart

theorem ScopedAt.of_set (hslash : '/' ∉ u) (hapart : WordsApart w u) {t' : List Char}
    (h : ScopedAt u (parts.set (j + 1) t) i t') : ScopedAt u parts i t' := by
  have ho := (opensAt_set_iff hj hslash).mp h.opens
  have hi := hj.ne_of_opensAt ho hapart
  refine ⟨ho, ?_⟩
  rw [← List.getElem?_set_ne (l := parts) (a := t) fun he => hi (Nat.succ.inj he).symm]
  exact h.name

/-- A name after the word loses its folder, or it stays and is not the only one in a folder. -/
theorem StandsAt.set (hslash : '/' ∉ w) (h : StandsAt w [] r parts i) :
    (Scope.Contains r t ∧ StandsAt w [] t (parts.set (j + 1) t) i) ∨
    (StandsAt w [] r (parts.set (j + 1) t) i ∧ ∀ t', Scope.Contains r t' → Twice w parts) := by
  by_cases hi : i = j
  · subst hi
    obtain ⟨r', hr', hcontains⟩ := hj.name
    rw [h.name, Option.mem_some_iff] at hr'
    obtain ⟨c, hc, -⟩ := h.closes
    rw [Option.mem_def] at hc
    refine Or.inl ⟨hr' ▸ hcontains, (opensAt_set_iff hj hslash).mpr h.opens,
      List.getElem?_set_self hj.length_lt, c, ?_, List.nil_prefix⟩
    rw [Option.mem_def, List.getElem?_set_ne (by omega), hc]
  · exact Or.inr ⟨(standsAt_set_iff hj hslash hi (Or.inl rfl)).mpr h,
      fun t' ht' => twice_of_ne ⟨h.opens, r, h.name, ht'⟩ hj hi⟩

/-- A name after the word had its folder before, or it stood there and is not the only one in a
folder. -/
theorem StandsAt.of_set (hslash : '/' ∉ w) (h : StandsAt w [] r (parts.set (j + 1) t) i) :
    (∃ r', Scope.Contains r' r ∧ StandsAt w [] r' parts i) ∨
    (StandsAt w [] r parts i ∧ ∀ t', Scope.Contains r t' → Twice w parts) := by
  by_cases hi : i = j
  · subst hi
    have hr := h.name
    rw [List.getElem?_set_self hj.length_lt, Option.some.injEq] at hr
    obtain ⟨r', hr', hcontains⟩ := hj.name
    obtain ⟨c, hc, -⟩ := h.closes
    rw [Option.mem_def, List.getElem?_set_ne (by omega)] at hc
    exact Or.inl ⟨r', hr ▸ hcontains, hj.opens, hr', c, hc, List.nil_prefix⟩
  · have hbefore := (standsAt_set_iff hj hslash hi (Or.inl rfl)).mp h
    exact Or.inr ⟨hbefore, fun t' ht' => twice_of_ne ⟨hbefore.opens, r, hbefore.name, ht'⟩ hj hi⟩

/-- Of another word only the names whose last word opens the changed name can be new. -/
theorem StandsAt.of_set_of_apart (hslash : '/' ∉ u) (hapart : WordsApart w u)
    (h : StandsAt u z r (parts.set (j + 1) t) i) : StandsAt u z r parts i ∨ w <:+ r := by
  have hi := hj.ne_of_opensAt ((opensAt_set_iff hj hslash).mp h.opens) hapart
  by_cases hnext : i + 1 = j
  · right
    have hr := h.name
    rw [List.getElem?_set_ne (by omega), hnext] at hr
    obtain ⟨a, ha, hw⟩ := hj.opens
    rw [hr, Option.mem_some_iff] at ha
    exact ha ▸ hw
  · exact Or.inl ((standsAt_set_iff hj hslash hi (Or.inr hnext)).mp h)

end Parts

section Line
variable {w u z r line : List Char} {i : Nat}

theorem exists_split_of_word (hw : '"' ∉ w) (a : List Char) :
    ∃ before part, w <:+ part ∧
      ∀ b, Text.split '"' (a ++ w ++ '"' :: b) = before ++ part :: Text.split '"' b := by
  obtain ⟨before, last, -, hsplit⟩ := Text.exists_split_append '"' a
  refine ⟨before, last ++ w, List.suffix_append last w, fun b => ?_⟩
  rw [Text.split_append_sep, hsplit w hw, List.append_assoc, List.singleton_append]

theorem exists_of_opensAt (h : OpensAt w (Text.split '"' line) i)
    (hi : i + 1 < (Text.split '"' line).length) :
    ∃ before after, line = before ++ w ++ '"' :: after ∧
      Text.split '"' (before ++ w) = (Text.split '"' line).take (i + 1) ∧
      Text.split '"' after = (Text.split '"' line).drop (i + 1) := by
  obtain ⟨before, after, hline, htake, hdrop⟩ := Text.eq_take_append_drop hi
  obtain ⟨part, hpart, hw⟩ := h
  have hlast : (Text.split '"' before).getLast? = some part := by
    rw [htake, List.getLast?_take, if_neg (Nat.succ_ne_zero i), Nat.add_sub_cancel,
      Option.mem_def.mp hpart]
    rfl
  obtain ⟨before, rfl⟩ := hw.trans (Text.suffix_of_getLast?_split hlast)
  exact ⟨before, after, hline, htake, hdrop⟩

theorem stands_iff (hw : '"' ∉ w) (hz : '"' ∉ z) (hr : '"' ∉ r) :
    Stands w z r line ↔ ∃ i, StandsAt w z r (Text.split '"' line) i := by
  constructor
  · rintro ⟨a, b, rfl⟩
    obtain ⟨before, part, hpart, hsplit⟩ := exists_split_of_word hw a
    obtain ⟨next, rest, -, hb⟩ := Text.exists_split_of_append hz b
    refine ⟨before.length, ?_⟩
    have hline :
        a ++ (w ++ '"' :: r ++ '"' :: z) ++ b = a ++ w ++ '"' :: (r ++ '"' :: (z ++ b)) := by
      simp
    rw [hline, hsplit, Text.split_append_sep, Text.split_of_not_mem hr, hb]
    exact ⟨⟨part, by simp, hpart⟩, by simp, ⟨z ++ next, by simp, List.prefix_append z next⟩⟩
  · rintro ⟨i, ho, hn, c, hc, hz⟩
    rw [Option.mem_def] at hc
    obtain ⟨before, after, hline, -, hafter⟩ :=
      exists_of_opensAt ho (List.getElem?_eq_some_iff.mp hn).1
    have hdrop : (Text.split '"' line).drop (i + 1) =
        r :: c :: (Text.split '"' line).drop (i + 3) := by
      rw [List.drop_eq_getElem?_toList_append, hn, List.drop_eq_getElem?_toList_append, hc]
      rfl
    have hjoin := Text.joinWith_split '"' after
    rw [hafter, hdrop, Text.joinWith_cons_cons, List.append_assoc, List.singleton_append] at hjoin
    obtain ⟨rest, hrest⟩ :=
      hz.trans (Text.prefix_joinWith ['"'] c ((Text.split '"' line).drop (i + 3)))
    refine ⟨before, rest, ?_⟩
    rw [hline, ← hjoin, ← hrest]
    simp

theorem toList_scoped {opening : String} (ho : opening.toList = w ++ ['"']) (s : Scope) :
    (opening ++ s.label ++ "/").toList = w ++ '"' :: (s.label.toList ++ ['/']) := by
  have hslash : "/".toList = ['/'] := rfl
  rw [String.toList_append, String.toList_append, ho, hslash]
  simp

theorem exists_of_scopedAt {t : List Char} (h : ScopedAt w (Text.split '"' line) i t) :
    ∃ s ∈ Scope.owners, ∃ before after,
      line = before ++ w ++ '"' :: (s.label.toList ++ ['/']) ++ after ∧
      Text.split '"' (before ++ w) = (Text.split '"' line).take (i + 1) := by
  obtain ⟨r, hr, s, hs, rfl⟩ := h.name
  rw [Option.mem_def] at hr
  obtain ⟨before, after, hline, hbefore, hafter⟩ := exists_of_opensAt h.opens h.length_lt
  have hparts : Text.split '"' after =
      (s.label.toList ++ '/' :: t) :: (Text.split '"' line).drop (i + 2) := by
    rw [hafter, List.drop_eq_getElem?_toList_append, hr]
    rfl
  obtain ⟨rest, hrest⟩ : s.label.toList ++ '/' :: t <+: after := by
    rw [← Text.joinWith_split '"' after, hparts]
    exact Text.prefix_joinWith _ _ _
  refine ⟨s, hs, before, t ++ rest, ?_, hbefore⟩
  rw [hline, ← hrest]
  simp

/-- Either a name after the word loses its folder, or there is no such name. -/
theorem parts_dropScopeAfter {opening : String} (ho : opening.toList = w ++ ['"']) (hw : '"' ∉ w)
    (line : List Char) :
    (∃ j t, ScopedAt w (Text.split '"' line) j t ∧
      Text.split '"' (dropScopeAfter opening line) = (Text.split '"' line).set (j + 1) t) ∨
    ((∀ j t, ¬ ScopedAt w (Text.split '"' line) j t) ∧ dropScopeAfter opening line = line) := by
  unfold dropScopeAfter
  dsimp only
  split
  · next found hfound =>
    obtain ⟨s, hs, rfl⟩ := List.mem_map.mp (List.mem_of_find?_eq_some hfound)
    have hcontains := List.find?_some hfound
    obtain ⟨⟨a, b⟩, hcut⟩ := Option.isSome_iff_exists.mp hcontains
    have hline := Text.eq_of_cut? hcut
    have hline' : line = a ++ w ++ '"' :: (s.label.toList ++ ['/'] ++ b) := by
      rw [hline, toList_scoped ho]
      simp
    have hnew : a ++ opening.toList ++ b = a ++ w ++ '"' :: b := by
      rw [ho]
      simp
    obtain ⟨before, part, hpart, hsplit⟩ := exists_split_of_word hw a
    have hfolder : '"' ∉ s.label.toList ++ ['/'] := by simp [s.quote_not_mem_label]
    obtain ⟨next, rest, hb, hname⟩ := Text.exists_split_of_append hfolder b
    have hparts := hsplit (s.label.toList ++ ['/'] ++ b)
    rw [← hline', hname] at hparts
    refine Or.inl ⟨before.length, next,
      ⟨⟨part, ?_, hpart⟩, s.label.toList ++ ['/'] ++ next, ?_, s, hs, ?_⟩, ?_⟩
    · simp [hparts]
    · simp [hparts]
    · simp
    · rw [Text.replaceFirst, hcut]
      dsimp only
      rw [hnew, hsplit b, hb, hparts]
      simp
  · next hnone =>
    right
    refine ⟨fun j t h => ?_, rfl⟩
    obtain ⟨s, hs, before, after, hline, -⟩ := exists_of_scopedAt h
    have hnot := List.find?_eq_none.mp hnone _ (List.mem_map.mpr ⟨s, hs, rfl⟩)
    rw [toList_scoped ho, Text.contains, Option.not_isSome_iff_eq_none,
      Text.cut?_eq_none_iff (by simp)] at hnot
    exact hnot ⟨before, after, by simp [hline]⟩

/-- Two scope folders stand on the line, each after the same opening. -/
def Doubled (opening : String) (line : List Char) : Prop :=
  ∃ s ∈ Scope.owners, ∃ s' ∈ Scope.owners, ∃ a b c,
    line = a ++ (opening ++ s.label ++ "/").toList ++ b ++ (opening ++ s'.label ++ "/").toList ++ c

theorem doubled_of_twice {opening : String} (ho : opening.toList = w ++ ['"']) (hslash : '/' ∉ w)
    (h : Twice w (Text.split '"' line)) : Doubled opening line := by
  obtain ⟨i, k, t, t', hik, hi, hk⟩ := h
  obtain ⟨s', hs', before, after, hline, hparts⟩ := exists_of_scopedAt hk
  have htake : ScopedAt w (Text.split '"' (before ++ w)) i t := by
    rw [hparts]
    constructor
    · rw [OpensAt, List.getElem?_take_of_lt (by omega)]
      exact hi.opens
    · rw [List.getElem?_take_of_lt (by omega)]
      exact hi.name
  obtain ⟨s, hs, a, b, hfirst, -⟩ := exists_of_scopedAt htake
  obtain ⟨b, rfl⟩ : w <:+ b := by
    rw [← Text.suffix_append_cons_iff (a := a ++ w ++ '"' :: s.label.toList) hslash]
    have hw : w <:+ a ++ w ++ '"' :: (s.label.toList ++ ['/']) ++ b :=
      hfirst ▸ List.suffix_append before w
    simpa using hw
  refine ⟨s, hs, s', hs', a, b, after, ?_⟩
  rw [hline, hfirst, toList_scoped ho, toList_scoped ho]
  simp

end Line

section Drop
variable {opening : String} {w u z r line : List Char}
variable (ho : opening.toList = w ++ ['"']) (hw : '"' ∉ w) (hslash : '/' ∉ w)
include ho hw

section Own
include hslash

theorem Stands.drop_cases (hr : '"' ∉ r) (h : Stands w [] r line) :
    (∃ t, Scope.Contains r t ∧ Stands w [] t (dropScopeAfter opening line)) ∨
    (Stands w [] r (dropScopeAfter opening line) ∧
      ∀ t, Scope.Contains r t → Doubled opening line) := by
  obtain ⟨i, hi⟩ := (stands_iff hw List.not_mem_nil hr).mp h
  rcases parts_dropScopeAfter ho hw line with ⟨j, t, hj, hparts⟩ | ⟨hnone, hline⟩
  · rcases hi.set hj hslash with ⟨hcontains, hset⟩ | ⟨hset, htwice⟩ <;> rw [← hparts] at hset
    · have ht : '"' ∉ t := mt hcontains.quote_mem_iff.mpr hr
      exact Or.inl ⟨t, hcontains, (stands_iff hw List.not_mem_nil ht).mpr ⟨i, hset⟩⟩
    · exact Or.inr ⟨(stands_iff hw List.not_mem_nil hr).mpr ⟨i, hset⟩,
        fun t' ht' => doubled_of_twice ho hslash (htwice t' ht')⟩
  · rw [hline]
    exact Or.inr ⟨h, fun t ht => absurd ⟨hi.opens, r, hi.name, ht⟩ (hnone i t)⟩

theorem Stands.cases_of_drop (hr : '"' ∉ r) (h : Stands w [] r (dropScopeAfter opening line)) :
    (∃ r', Scope.Contains r' r ∧ Stands w [] r' line) ∨
    (Stands w [] r line ∧ ∀ t, Scope.Contains r t → Twice w (Text.split '"' line)) := by
  obtain ⟨i, hi⟩ := (stands_iff hw List.not_mem_nil hr).mp h
  rcases parts_dropScopeAfter ho hw line with ⟨j, t, hj, hparts⟩ | ⟨hnone, hline⟩
  · rw [hparts] at hi
    rcases hi.of_set hj hslash with ⟨r', hcontains, hset⟩ | ⟨hset, htwice⟩
    · have hr' : '"' ∉ r' := mt hcontains.quote_mem_iff.mp hr
      exact Or.inl ⟨r', hcontains, (stands_iff hw List.not_mem_nil hr').mpr ⟨i, hset⟩⟩
    · exact Or.inr ⟨(stands_iff hw List.not_mem_nil hr).mpr ⟨i, hset⟩, htwice⟩
  · rw [hline] at h hi
    exact Or.inr ⟨h, fun t ht => absurd ⟨hi.opens, r, hi.name, ht⟩ (hnone i t)⟩

end Own

section Other
variable (hu : '"' ∉ u) (huslash : '/' ∉ u) (hapart : WordsApart w u)
include hu huslash hapart

theorem stands_dropScopeAfter_iff (hr : '"' ∉ r) :
    Stands u [] r (dropScopeAfter opening line) ↔ Stands u [] r line := by
  rcases parts_dropScopeAfter ho hw line with ⟨j, t, hj, hparts⟩ | ⟨-, hline⟩
  · rw [stands_iff hu List.not_mem_nil hr, stands_iff hu List.not_mem_nil hr, hparts]
    refine exists_congr fun i => ⟨fun h => ?_, fun h => ?_⟩
    · have hi := hj.ne_of_opensAt ((opensAt_set_iff hj huslash).mp h.opens) hapart
      exact (standsAt_set_iff hj huslash hi (Or.inl rfl)).mp h
    · exact (standsAt_set_iff hj huslash (hj.ne_of_opensAt h.opens hapart) (Or.inl rfl)).mpr h
  · rw [hline]

theorem Stands.of_drop_of_apart (hz : '"' ∉ z) (hr : '"' ∉ r)
    (h : Stands u z r (dropScopeAfter opening line)) : Stands u z r line ∨ w <:+ r := by
  rcases parts_dropScopeAfter ho hw line with ⟨j, t, hj, hparts⟩ | ⟨-, hline⟩
  · obtain ⟨i, hi⟩ := (stands_iff hu hz hr).mp h
    rw [hparts] at hi
    exact (hi.of_set_of_apart hj huslash hapart).imp_left fun hset =>
      (stands_iff hu hz hr).mpr ⟨i, hset⟩
  · exact Or.inl (hline ▸ h)

omit hu in
theorem Twice.of_drop (h : Twice u (Text.split '"' (dropScopeAfter opening line))) :
    Twice u (Text.split '"' line) := by
  rcases parts_dropScopeAfter ho hw line with ⟨j, t, hj, hparts⟩ | ⟨-, hline⟩
  · obtain ⟨i, k, ti, tk, hik, hi, hk⟩ := h
    rw [hparts] at hi hk
    exact ⟨i, k, ti, tk, hik, hj.of_set huslash hapart hi, hj.of_set huslash hapart hk⟩
  · rwa [hline] at h

end Other

end Drop

end Declarations

end ModBuild
