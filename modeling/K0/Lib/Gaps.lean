import Mathlib.Data.List.Sort
import Mathlib.Data.Set.Card
import Mathlib.Order.Interval.Finset.Nat
import Mathlib.Tactic.Linarith

set_option relaxedAutoImplicit false
set_option autoImplicit false

/-!
# The maximal intervals of a set of numbers

A set of natural numbers is given by the predicate `free`. Its maximal intervals, written
`(base, size)`, are the nonempty intervals of `free` that cannot be extended on either side. A
set has at most one ascending list of its maximal intervals. The list can be built from the left:
an interval that ends at a number that is not free comes before the list of the rest. A search
that moves a cursor past marks ends because ever fewer marks lie ahead of it.

## Main definitions

* `Gaps.ahead`: the number of marks ahead of a cursor.
* `Gaps.Maximal`: a maximal interval of a set.
* `Gaps.IsGaps`: the ascending list of the maximal intervals of a set.

## Main results

* `Gaps.IsGaps.unique`: the list is determined by the set.
* `Gaps.IsGaps.cons`: the list is built from the left.
* `Gaps.cover_finite_and_ncard`: intervals that do not meet cover as many numbers as their sizes add
  up to.
-/

namespace Gaps

/-! ### Marks ahead of a cursor -/

/-- The number of marks that lie ahead of a cursor. -/
def ahead (marks : List ℕ) (cursor : ℕ) : ℕ := marks.countP fun a => decide (cursor < a)

/-- No mark comes to lie ahead when the cursor moves on. -/
lemma ahead_anti (marks : List ℕ) {c c' : ℕ} (h : c ≤ c') : ahead marks c' ≤ ahead marks c := by
  apply List.countP_mono_left
  intro a _ ha
  simp only [decide_eq_true_eq] at ha ⊢
  omega

/-- A cursor that passes a mark has fewer of them ahead. -/
lemma ahead_lt {marks : List ℕ} {c c' a : ℕ} (ha : a ∈ marks) (hc : c < a) (hc' : a ≤ c') :
    ahead marks c' < ahead marks c := by
  obtain ⟨l, l', rfl⟩ := List.append_of_mem ha
  have h1 := ahead_anti l (hc.le.trans hc')
  have h2 := ahead_anti l' (hc.le.trans hc')
  unfold ahead at h1 h2 ⊢
  rw [List.countP_append, List.countP_append, List.countP_cons_of_neg (by simpa using hc'),
    List.countP_cons_of_pos (by simpa using hc)]
  omega

/-! ### Maximal intervals -/

variable {free free' : ℕ → Prop}

/-- The nonempty interval `[g.1, g.1 + g.2)` lies in the set and cannot be extended. -/
structure Maximal (free : ℕ → Prop) (g : ℕ × ℕ) : Prop where
  pos : 0 < g.2
  inside : ∀ x, g.1 ≤ x → x < g.1 + g.2 → free x
  left : ∀ x, x + 1 = g.1 → ¬ free x
  right : ¬ free (g.1 + g.2)

/-- The list holds exactly the maximal intervals of the set, in ascending order. -/
structure IsGaps (free : ℕ → Prop) (l : List (ℕ × ℕ)) : Prop where
  sorted : l.Pairwise fun g g' => g.1 < g'.1
  mem_iff : ∀ g, g ∈ l ↔ Maximal free g

/-- Two maximal intervals with bases in order do not even touch. -/
lemma Maximal.lt_of_lt {g g' : ℕ × ℕ} (h : Maximal free g) (h' : Maximal free g')
    (hlt : g.1 < g'.1) : g.1 + g.2 < g'.1 := by
  by_contra hn
  obtain ⟨x, hx⟩ : ∃ x, x + 1 = g'.1 := ⟨g'.1 - 1, by omega⟩
  exact h'.left x hx (h.inside x (by omega) (by omega))

/-- Maximal intervals with the same base are equal. -/
lemma Maximal.eq_of_fst_eq {g g' : ℕ × ℕ} (h : Maximal free g) (h' : Maximal free g')
    (he : g.1 = g'.1) : g = g' := by
  have h1 := h.pos
  have h2 := h'.pos
  apply Prod.ext he
  rcases lt_trichotomy g.2 g'.2 with hlt | heq | hgt
  · exact absurd (h'.inside _ (by omega) (by omega)) h.right
  · exact heq
  · exact absurd (h.inside _ (by omega) (by omega)) h'.right

/-- In a set that is bounded above every number lies in a maximal interval.

**Proof sketch.** The interval starts at the least `b` from which everything up to `x` is free
and ends at the first number above `x` that is not free. -/
lemma exists_maximal {hi : ℕ} (hb : ∀ x, free x → x < hi) {x : ℕ} (hx : free x) :
    ∃ g, Maximal free g ∧ g.1 ≤ x ∧ x < g.1 + g.2 := by
  classical
  have hlow : ∃ b, b ≤ x ∧ ∀ y, b ≤ y → y ≤ x → free y := by
    refine ⟨x, le_rfl, fun y h1 h2 => ?_⟩
    rwa [le_antisymm h2 h1]
  have hhigh : ∃ e, x ≤ e ∧ ¬ free e := ⟨max x hi, le_max_left _ _, fun h => by
    have := hb _ h
    omega⟩
  obtain ⟨hbx, hbfree⟩ := Nat.find_spec hlow
  obtain ⟨hxe, hend⟩ := Nat.find_spec hhigh
  have hne : Nat.find hhigh ≠ x := fun h => hend ((congrArg free h).mpr hx)
  set b := Nat.find hlow with hbdef
  set e := Nat.find hhigh with hedef
  refine ⟨(b, e - b), ⟨?_, ?_, ?_, ?_⟩, hbx, ?_⟩
  · show 0 < e - b
    omega
  · intro y h1 h2
    rcases le_or_gt y x with hyx | hxy
    · exact hbfree y h1 hyx
    · -- everything from `x` to the first gap is free
      by_contra hn
      have hle : e ≤ y := Nat.find_min' hhigh ⟨hxy.le, hn⟩
      simp only at h1 h2
      omega
  · intro y hy hfree
    -- otherwise the interval could start at `y`
    have hle : b ≤ y := Nat.find_min' hlow ⟨by simp only at hy; omega, fun z h1 h2 => by
      rcases Nat.eq_or_lt_of_le h1 with rfl | hlt
      · exact hfree
      · exact hbfree z (by simp only at hy; omega) h2⟩
    simp only at hy
    omega
  · show ¬ free (b + (e - b))
    rwa [show b + (e - b) = e by omega]
  · show x < b + (e - b)
    omega

namespace IsGaps

variable {l l' : List (ℕ × ℕ)}

/-- A set has at most one list of its maximal intervals. -/
lemma unique (h : IsGaps free l) (h' : IsGaps free l') : l = l' := by
  have hnodup : ∀ {k : List (ℕ × ℕ)}, IsGaps free k → k.Nodup := fun hk =>
    hk.sorted.imp fun hlt he => absurd (he ▸ hlt) (lt_irrefl _)
  have hperm : l.Perm l' :=
    (List.perm_ext_iff_of_nodup (hnodup h) (hnodup h')).mpr fun g => by
      rw [h.mem_iff, h'.mem_iff]
  refine hperm.eq_of_pairwise (fun g g' _ _ h1 h2 => ?_) h.sorted h'.sorted
  exact absurd (h1.trans h2) (lt_irrefl _)

/-- Equal sets have the same list. -/
lemma congr (h : IsGaps free l) (he : ∀ x, free x ↔ free' x) : IsGaps free' l := by
  have : free = free' := funext fun x => propext (he x)
  exact this ▸ h

/-- The list of a set without elements. -/
lemma nil (h : ∀ x, ¬ free x) : IsGaps free [] where
  sorted := List.Pairwise.nil
  mem_iff g := by
    refine ⟨fun hg => absurd hg (by simp), fun hg => ?_⟩
    exact absurd (hg.inside g.1 le_rfl (by have := hg.pos; omega)) (h _)

/-- An interval that ends before the rest of the set comes before the list of the rest. -/
lemma cons {b s : ℕ} (hs : 0 < s) (h : IsGaps free' l) (hlow : ∀ x, free' x → b + s < x)
    (he : ∀ x, free x ↔ (b ≤ x ∧ x < b + s) ∨ free' x) : IsGaps free ((b, s) :: l) := by
  have hhead : Maximal free (b, s) := by
    refine ⟨hs, fun x h1 h2 => (he x).mpr (.inl ⟨h1, h2⟩), fun x hx hfree => ?_, fun hfree => ?_⟩
    · rcases (he x).mp hfree with ⟨h1, -⟩ | h1
      · simp only at hx
        omega
      · have := hlow x h1
        simp only at hx
        omega
    · rcases (he _).mp hfree with ⟨-, h1⟩ | h1
      · exact lt_irrefl _ h1
      · exact lt_irrefl _ (hlow _ h1)
  -- away from the first interval the two sets have the same maximal intervals
  have htail : ∀ g : ℕ × ℕ, Maximal free' g ↔ Maximal free g ∧ b < g.1 := by
    intro g
    constructor
    · intro hg
      have hpos := hg.pos
      have hgt := hlow g.1 (hg.inside _ le_rfl (by omega))
      refine ⟨⟨hpos, fun x h1 h2 => (he x).mpr (.inr (hg.inside x h1 h2)), ?_, ?_⟩, by omega⟩
      · intro x hx hfree
        rcases (he x).mp hfree with ⟨-, h1⟩ | h1
        · omega
        · exact hg.left x hx h1
      · intro hfree
        rcases (he _).mp hfree with ⟨-, h1⟩ | h1
        · omega
        · exact hg.right h1
    · rintro ⟨hg, hlt⟩
      have hgt := hhead.lt_of_lt hg hlt
      simp only at hgt
      refine ⟨hg.pos, fun x h1 h2 => ?_, fun x hx h1 => hg.left x hx ((he x).mpr (.inr h1)),
        fun h1 => hg.right ((he _).mpr (.inr h1))⟩
      rcases (he x).mp (hg.inside x h1 h2) with ⟨-, h3⟩ | h3
      · omega
      · exact h3
  refine ⟨List.Pairwise.cons (fun g hg => ?_) h.sorted, fun g => ?_⟩
  · exact ((htail g).mp ((h.mem_iff g).mp hg)).2
  · rw [List.mem_cons, h.mem_iff, htail]
    constructor
    · rintro (rfl | hg)
      · exact hhead
      · exact hg.1
    · intro hg
      rcases lt_trichotomy b g.1 with hlt | heq | hgt
      · exact .inr ⟨hg, hlt⟩
      · exact .inl (hg.eq_of_fst_eq hhead heq.symm)
      · -- no free number lies before the first interval
        rcases (he g.1).mp (hg.inside _ le_rfl (by have := hg.pos; omega)) with ⟨h1, -⟩ | h1
        · omega
        · have := hlow _ h1
          omega

/-- The list of a single interval. -/
lemma single {b s : ℕ} (hs : 0 < s) (he : ∀ x, free x ↔ b ≤ x ∧ x < b + s) :
    IsGaps free [(b, s)] := by
  have hempty : IsGaps (fun _ => False) [] := nil fun _ h => h
  exact cons hs hempty (fun _ h => h.elim) fun x => by rw [he, or_false]

/-- The intervals of a list follow each other without touching. -/
lemma separated (h : IsGaps free l) : l.Pairwise fun g g' => g.1 + g.2 < g'.1 := by
  refine h.sorted.imp_of_mem fun {g g'} hg hg' hlt => ?_
  exact ((h.mem_iff g).mp hg).lt_of_lt ((h.mem_iff g').mp hg') hlt

/-- The numbers of a bounded set are those that some interval of the list covers. -/
lemma free_iff {hi : ℕ} (h : IsGaps free l) (hb : ∀ x, free x → x < hi) (x : ℕ) :
    free x ↔ ∃ g ∈ l, g.1 ≤ x ∧ x < g.1 + g.2 := by
  constructor
  · intro hx
    obtain ⟨g, hg, h1, h2⟩ := exists_maximal hb hx
    exact ⟨g, (h.mem_iff g).mpr hg, h1, h2⟩
  · rintro ⟨g, hg, h1, h2⟩
    exact ((h.mem_iff g).mp hg).inside x h1 h2

end IsGaps

/-- The numbers that an interval of the list covers. -/
def cover (l : List (ℕ × ℕ)) : Set ℕ := {x | ∃ g ∈ l, g.1 ≤ x ∧ x < g.1 + g.2}

/-- A list of intervals covers finitely many numbers, and if no two of them meet, as many as
their sizes add up to. -/
lemma cover_finite_and_ncard : ∀ {l : List (ℕ × ℕ)},
    (l.Pairwise fun g g' => g.1 + g.2 ≤ g'.1 ∨ g'.1 + g'.2 ≤ g.1) →
    (cover l).Finite ∧ (cover l).ncard = (l.map Prod.snd).sum
  | [], _ => by
    have : cover [] = ∅ := Set.eq_empty_iff_forall_notMem.mpr fun x hx => by
      obtain ⟨g, hg, -⟩ := hx
      simp at hg
    simp [this]
  | g :: l, h => by
    obtain ⟨hhead, htail⟩ := List.pairwise_cons.mp h
    obtain ⟨hfin, hcard⟩ := cover_finite_and_ncard htail
    have hunion : cover (g :: l) = Set.Ico g.1 (g.1 + g.2) ∪ cover l := by
      ext x
      simp [cover]
    have hdisj : Disjoint (Set.Ico g.1 (g.1 + g.2)) (cover l) := by
      rw [Set.disjoint_left]
      rintro x ⟨h1, h2⟩ ⟨g', hg', h3, h4⟩
      rcases hhead g' hg' with hs | hs <;> omega
    rw [hunion]
    refine ⟨(Set.finite_Ico _ _).union hfin, ?_⟩
    rw [Set.ncard_union_eq hdisj (Set.finite_Ico _ _) hfin, hcard, List.map_cons, List.sum_cons,
      ← Finset.coe_Ico, Set.ncard_coe_finset, Nat.card_Ico, Nat.add_sub_cancel_left]

end Gaps
