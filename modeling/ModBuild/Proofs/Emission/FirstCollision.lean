import ModBuild.Emission
import ModBuild.Proofs.Emission.Collision

/-!
# The collision that is reported

The search stops at the first unit that claims a place again. The units before it have different
places, so exactly one of them claims this place, and it is the one that the report names. A batch
with a collision is rejected as a whole: the disk stays as it was.
-/

namespace ModBuild

set_option autoImplicit false

namespace Collision

variable {l : Layout} {u v : CompiledUnit} {us before : List CompiledUnit} {c : Collision}

/-- What the search remembers of units without a collision, in their order. -/
def claims (l : Layout) (us : List CompiledUnit) : List (FilePath × String) :=
  (us.filter fun u => Claims l u).map fun u => ((l.place u.path).path, u.path)

theorem mem_claims {claim : FilePath × String} :
    claim ∈ claims l us ↔
      ∃ u ∈ us, Claims l u ∧ claim = ((l.place u.path).path, u.path) := by
  simp [claims, and_assoc, eq_comm]

theorem claims_cons (l : Layout) (u : CompiledUnit) (us : List CompiledUnit) :
    claims l (u :: us) = claims l [u] ++ claims l us := by
  unfold claims
  rw [← List.map_append, ← List.filter_append, List.singleton_append]

/-- The search stops at a unit whose place was claimed, and else remembers what the unit claims. -/
theorem search_step (l : Layout) (claimed : List (FilePath × String)) (u : CompiledUnit) :
    (∃ claim, Claims l u ∧
        (claimed.find? fun c => c.1.Same (l.place u.path).path) = some claim ∧
        ∀ us, search l claimed (u :: us) = some ⟨(l.place u.path).path, claim.2, u.path⟩) ∨
      ∀ us, search l claimed (u :: us) = search l ((claims l [u]).reverse ++ claimed) us := by
  by_cases hu : Claims l u
  · cases hfind : claimed.find? fun c => c.1.Same (l.place u.path).path with
    | some claim =>
      refine Or.inl ⟨claim, hu, rfl, fun us => ?_⟩
      rw [search_cons, if_pos hu, hfind]
    | none =>
      refine Or.inr fun us => ?_
      rw [search_cons, if_pos hu, hfind]
      simp [claims, hu]
  · refine Or.inr fun us => ?_
    rw [search_cons, if_neg hu]
    simp [claims, hu]

theorem search_append {claimed : List (FilePath × String)} (h : search l claimed before = none)
    (us : List CompiledUnit) :
    search l claimed (before ++ us) = search l ((claims l before).reverse ++ claimed) us := by
  induction before generalizing claimed with
  | nil => rfl
  | cons first before ih =>
    rcases search_step l claimed first with ⟨claim, -, -, hstop⟩ | hgo
    · rw [hstop] at h
      cases h
    · rw [hgo] at h
      rw [List.cons_append, hgo, ih h, claims_cons l first before, List.reverse_append,
        List.append_assoc]

theorem search_eq_some_iff {claimed : List (FilePath × String)} :
    search l claimed us = some c ↔
      ∃ before v after claim, us = before ++ v :: after ∧ search l claimed before = none ∧
        Claims l v ∧
        (((claims l before).reverse ++ claimed).find? fun c => c.1.Same (l.place v.path).path) =
          some claim ∧
        c = ⟨(l.place v.path).path, claim.2, v.path⟩ := by
  constructor
  · intro h
    induction us generalizing claimed with
    | nil => cases h
    | cons u us ih =>
      rcases search_step l claimed u with ⟨claim, hu, hclaim, hstop⟩ | hgo
      · rw [hstop] at h
        exact ⟨[], u, us, claim, rfl, rfl, hu, hclaim, (Option.some.inj h).symm⟩
      · rw [hgo] at h
        obtain ⟨before, v, after, claim, rfl, hnone, hv, hclaim, hc⟩ := ih h
        refine ⟨u :: before, v, after, claim, rfl, (hgo before).trans hnone, hv, ?_, hc⟩
        rw [claims_cons l u before, List.reverse_append, List.append_assoc]
        exact hclaim
  · rintro ⟨before, v, after, claim, rfl, hnone, hv, hclaim, rfl⟩
    rw [search_append hnone, search_cons, if_pos hv, hclaim]

theorem Clash.trans {w : CompiledUnit} (h : Clash l u v) (h' : Clash l v w) : Clash l u w :=
  ⟨h.1, h'.2.1, h.2.2.trans h'.2.2⟩

theorem find?_claims_iff {claim : FilePath × String} (hv : Claims l v)
    (hnone : find? l before = none) :
    ((claims l before).reverse.find? fun c => c.1.Same (l.place v.path).path) = some claim ↔
      ∃ u ∈ before, Clash l u v ∧ claim = ((l.place u.path).path, u.path) := by
  have hfound : ∀ claim,
      ((claims l before).reverse.find? fun c => c.1.Same (l.place v.path).path) = some claim →
      ∃ u ∈ before, Clash l u v ∧ claim = ((l.place u.path).path, u.path) := by
    intro claim hclaim
    have hmem := List.mem_reverse.mp (List.mem_of_find?_eq_some hclaim)
    have hsame : claim.1.Same (l.place v.path).path := by simpa using List.find?_some hclaim
    obtain ⟨u, hu, huclaims, rfl⟩ := mem_claims.mp hmem
    dsimp only at hsame
    exact ⟨u, hu, ⟨huclaims, hv, hsame⟩, rfl⟩
  refine ⟨hfound claim, ?_⟩
  rintro ⟨u, hu, hclash, rfl⟩
  cases hfind : (claims l before).reverse.find? fun c => c.1.Same (l.place v.path).path with
  | none =>
    have hmem := List.mem_reverse.mpr (mem_claims.mpr ⟨u, hu, hclash.1, rfl⟩)
    have hfree : ¬(l.place u.path).path.Same (l.place v.path).path := by
      simpa using List.find?_eq_none.mp hfind _ hmem
    exact absurd hclash.2.2 hfree
  | some claim =>
    obtain ⟨w, hw, hwclash, rfl⟩ := hfound claim hfind
    rw [eq_of_clash hnone hw hu (hwclash.trans hclash.symm)]

/-- `c` is the first collision of the batch: `c.second` is the first unit that claims a place again,
and `c.first` the only unit before it that claims this place. -/
def IsFirst (l : Layout) (us : List CompiledUnit) (c : Collision) : Prop :=
  ∃ above u between v below, us = above ++ u :: between ++ v :: below ∧ Clash l u v ∧
    ((above ++ u :: between).Pairwise fun u v => ¬Clash l u v) ∧
    (∀ w ∈ above ++ between, ¬Clash l w v) ∧
    (l.place u.path).path = (l.place v.path).path ∧ c = ⟨(l.place v.path).path, u.path, v.path⟩

theorem find?_eq_some_iff : find? l us = some c ↔ IsFirst l us c := by
  unfold find?
  rw [search_eq_some_iff]
  simp only [List.append_nil]
  constructor
  · rintro ⟨before, v, below, claim, rfl, hnone, hv, hclaim, rfl⟩
    obtain ⟨u, hu, hclash, rfl⟩ := (find?_claims_iff hv hnone).mp hclaim
    have hpairs := find?_eq_none_iff.mp hnone
    obtain ⟨above, between, rfl⟩ := List.append_of_mem hu
    refine ⟨above, u, between, v, below, rfl, hclash, hpairs, ?_,
      Layout.path_eq_of_same hclash.2.2, rfl⟩
    intro w hw hwclash
    have hwu := hwclash.trans hclash.symm
    obtain ⟨-, hbetween, habove⟩ := List.pairwise_append.mp hpairs
    rcases List.mem_append.mp hw with hw | hw
    · exact habove w hw u List.mem_cons_self hwu
    · exact (List.pairwise_cons.mp hbetween).1 w hw hwu.symm
  · rintro ⟨above, u, between, v, below, rfl, hclash, hpairs, -, -, rfl⟩
    have hnone : find? l (above ++ u :: between) = none := find?_eq_none_iff.mpr hpairs
    exact ⟨above ++ u :: between, v, below, _, rfl, hnone, hclash.2.1,
      (find?_claims_iff hclash.2.1 hnone).mpr ⟨u, by simp, hclash, rfl⟩, rfl⟩

theorem find?_eq_none_iff_places :
    find? l us = none ↔
      ((us.filter fun u => Claims l u).map fun u => (l.place u.path).path).Pairwise
        fun p q => ¬p.Same q := by
  rw [find?_eq_none_iff, List.pairwise_map, List.pairwise_filter]
  simp only [decide_eq_true_eq, Clash, not_and]

end Collision

namespace Emission

/-- A batch is let through exactly when its units claim different places. Otherwise it is rejected
for its first collision, before anything is written. -/
theorem rejected_at_first_collision (e : Emission) (units : List CompiledUnit) :
    (Collision.find? e.layout units = none ↔
      ((units.filter fun u => u.Kept ∧ (e.place u).rule ≠ .bundle).map
        fun u => (e.place u).path).Pairwise fun p q => ¬p.Same q) ∧
      ∀ c, (Collision.find? e.layout units = some c ↔ Collision.IsFirst e.layout units c) ∧
        (Collision.find? e.layout units = some c →
          ∀ schedule d, e.emitScheduled schedule units d = (.error (.collision c), d)) := by
  refine ⟨Collision.find?_eq_none_iff_places, fun c => ⟨Collision.find?_eq_some_iff, ?_⟩⟩
  intro hfind schedule d
  unfold emitScheduled
  rw [hfind]
  rfl

end Emission

end ModBuild
