import K0.Mm.UserBuild

set_option relaxedAutoImplicit false
set_option autoImplicit false

/-!
# Mapping ranges of user pages

What a successful `mapRange` of the builder maps, and how many frames it takes. The tables stand
for a map from page numbers to frames and permissions, and a range is laid over it. Consecutive
pages share their leaf table up to the next multiple of the table size, so a range of at most one
table's pages crosses at most one boundary and takes at most six frames for tables.

## Main definitions

* `K0.UserTables.Stands`: the page map that the tables stand for.
* `K0.UserTables.layPages`: a page map with a range laid over it.

## Main results

* `K0.UserTables.Inv.mapPages_cases`, `K0.UserTables.Inv.mapRange_cases`: what mapping a range does.
-/

namespace K0

open Word Memory Outcome

/-- The path of an address depends on the number of its leaf table only. -/
lemma path_eq_of_div {P : Platform} {va va' : ℕ}
    (h : pageKey P va / P.entries = pageKey P va' / P.entries) : path P va = path P va' := by
  unfold path
  unfold pageKey at h
  simp only [List.map_cons, List.map_nil, List.cons.injEq, and_true, index_eq]
  cases P <;> simp [Platform.pageShift, Platform.bitsPerLevel, Platform.granule,
    Platform.entries] at h ⊢ <;> omega

namespace UserTables

variable {P : Platform} {m m' : Mem} {root : ℕ} {live live' : Set ℕ} {lvl : ℕ → ℕ}
  {fa fa' : FrameAlloc} {pm : ℕ → Option (ℕ × UserPerm)}

/-- The tables under `root` stand for a map from page numbers to frames and permissions. -/
def Stands (P : Platform) (m : Mem) (root : ℕ) (pm : ℕ → Option (ℕ × UserPerm)) : Prop :=
  ∀ va, translate P m root va = (pm (pageKey P va)).map fun x => (x.1, x.2.attrs)

/-- A cleared root table stands for no pages. -/
lemma Stands.empty (hz : ∀ i < P.entries, word m root i = 0) :
    Stands P m root fun _ => none := by
  intro va
  refine translate_of_missing fun hm => ?_
  obtain ⟨s, hw⟩ := Radix.missing_eq_zero_iff.mp hm
  have hchild : child P m root (index P va 0) = none := child_of_zero fun e => hz _ e.2
  unfold path at hw
  rw [List.map_cons, Radix.walk_cons, hchild, Option.bind_none] at hw
  cases hw

/-- A page map with `n` pages from page number `key` on, mapped to the frames from number `frame`
on. -/
def layPages (P : Platform) (pm : ℕ → Option (ℕ × UserPerm)) (key n frame : ℕ) (perm : UserPerm) :
    ℕ → Option (ℕ × UserPerm) := fun k =>
  if key ≤ k ∧ k < key + n then some ((frame + (k - key)) * P.granule, perm) else pm k

/-- The frames that mapping `n` pages from `va` on may take for tables: those that the first path
lacks, and three at each boundary between leaf tables. -/
def cost (P : Platform) (m : Mem) (root va : ℕ) : ℕ → ℕ
  | 0 => 0
  | n + 1 => missing P m root va +
      3 * ((pageKey P va + n) / P.entries - pageKey P va / P.entries)

/-- The cost of at least one page. -/
lemma cost_succ_eq (P : Platform) (m : Mem) (root va n : ℕ) :
    cost P m root va (n + 1) = missing P m root va +
      3 * ((pageKey P va + n) / P.entries - pageKey P va / P.entries) :=
  rfl

/-- A path lacks at most three tables. -/
lemma missing_le_three (P : Platform) (m : Mem) (root va : ℕ) : missing P m root va ≤ 3 :=
  Radix.missing_le _ _ _

/-- The pages of one table's size cost at most six frames. -/
lemma cost_le_six {va n : ℕ} (hn : n ≤ P.entries) : cost P m root va n ≤ 6 := by
  cases n with
  | zero => exact Nat.zero_le _
  | succ n =>
    have hE : 0 < P.entries := by omega
    have h3 := missing_le_three P m root va
    have hdiv : (pageKey P va + n) / P.entries ≤ pageKey P va / P.entries + 1 := by
      rw [← Nat.add_div_right _ hE]
      exact Nat.div_le_div_right (by omega)
    rw [cost_succ_eq]
    omega

/-- The first page and the rest. -/
lemma cost_succ {va va' n : ℕ} (hkey : 0 < n → pageKey P va' = pageKey P va + 1)
    (hdone : missing P m' root va = 0) :
    missing P m root va + cost P m' root va' n ≤ cost P m root va (n + 1) := by
  have hE : 0 < P.entries := by cases P <;> decide
  cases n with
  | zero => exact Nat.le_add_right _ _
  | succ n =>
    have hkey := hkey (Nat.succ_pos n)
    rw [cost_succ_eq, cost_succ_eq, hkey]
    have h1 : pageKey P va / P.entries ≤ (pageKey P va + 1) / P.entries :=
      Nat.div_le_div_right (Nat.le_succ _)
    have h2 : (pageKey P va + 1) / P.entries ≤ (pageKey P va + 1 + n) / P.entries :=
      Nat.div_le_div_right (Nat.le_add_right _ _)
    have hassoc : pageKey P va + 1 + n = pageKey P va + (n + 1) := by omega
    rw [hassoc] at h2 ⊢
    by_cases e : pageKey P va / P.entries = (pageKey P va + 1) / P.entries
    · -- the next page has the same path, which is complete
      have hpath : path P va' = path P va := path_eq_of_div (by rw [hkey, e])
      have hzero : missing P m' root va' = 0 := by
        unfold missing
        rw [hpath]
        exact hdone
      omega
    · have h3 := missing_le_three P m' root va'
      omega

/-- Laying one page and then the rest. -/
lemma layPages_succ (key n frame : ℕ) (perm : UserPerm) :
    layPages P (layPages P pm key 1 frame perm) (key + 1) n (frame + 1) perm =
      layPages P pm key (n + 1) frame perm := by
  funext k
  unfold layPages
  by_cases h1 : key + 1 ≤ k ∧ k < key + 1 + n
  · rw [if_pos h1, if_pos (by omega), show frame + 1 + (k - (key + 1)) = frame + (k - key) by omega]
  · rw [if_neg h1]
    by_cases h2 : key ≤ k ∧ k < key + 1
    · rw [if_pos h2, if_pos (by omega)]
    · rw [if_neg h2, if_neg (by omega)]

/-- **The loop of `mapRange`.** It maps all pages, none of which was mapped before, with at most
`cost` frames for tables; or it finds a page that is mapped already; or it runs out of frames; or
the window of the allocator ends beyond the range of aliases.

**Proof sketch.** Induction on the number of pages, by `Inv.mapPage_cases`. -/
theorem Inv.mapPages_cases {va pa : ℕ} (perm : UserPerm) (n : ℕ) :
    ∀ {off key frame : ℕ} {m : Mem} {live : Set ℕ} {lvl : ℕ → ℕ} {fa : FrameAlloc}
      {pm : ℕ → Option (ℕ × UserPerm)}, va + off = key * P.granule →
      pa + off = frame * P.granule → (key + n) * P.granule ≤ 2 ^ 48 →
      (frame + n) * P.granule ≤ 2 ^ 48 → Inv P m root live lvl → Supply P fa live →
      Stands P m root pm →
      (∃ fa' m' live', UserSpace.mapPages P ⟨root⟩ va pa perm.attrs n off fa m = pure (fa', m') ∧
        Grown P root fa fa' m m' live live' ∧
        fa'.next ≤ fa.next + cost P m root (va + off) n * P.granule ∧
        Stands P m' root (layPages P pm key n frame perm) ∧
        ∀ k, key ≤ k → k < key + n → pm k = none) ∨
      ((∃ k, key ≤ k ∧ k < key + n ∧ pm k ≠ none) ∧
        UserSpace.mapPages P ⟨root⟩ va pa perm.attrs n off fa m = throw .overlap) ∨
      (fa.stop < fa.next + cost P m root (va + off) n * P.granule ∧
        UserSpace.mapPages P ⟨root⟩ va pa perm.attrs n off fa m = throw .outOfFrames) ∨
      (2 ^ 48 < fa.stop ∧ UserSpace.mapPages P ⟨root⟩ va pa perm.attrs n off fa m = none) := by
  induction n with
  | zero =>
    intro off key frame m live lvl fa pm hva hpa hk hf h hs hst
    refine .inl ⟨fa, m, live, rfl, .refl h hs, Nat.le_add_right _ _, ?_, by omega⟩
    intro va'
    rw [hst va']
    unfold layPages
    rw [if_neg (by omega)]
  | succ n ih =>
    intro off key frame m live lvl fa pm hva hpa hk hf h hs hst
    have hg := P.granule_pos
    have hk1 : key * P.granule + P.granule ≤ 2 ^ 48 := by
      rw [← Nat.succ_mul]
      exact (Nat.mul_le_mul_right _ (by omega)).trans hk
    have hf1 : frame * P.granule + P.granule ≤ 2 ^ 48 := by
      rw [← Nat.succ_mul]
      exact (Nat.mul_le_mul_right _ (by omega)).trans hf
    have hkey : pageKey P (va + off) = key := by
      rw [pageKey_of_lt (by omega), hva, Nat.mul_div_cancel _ hg]
    have hva' : va + (off + P.granule) = (key + 1) * P.granule := by
      rw [Nat.succ_mul]
      omega
    have hpa' : pa + (off + P.granule) = (frame + 1) * P.granule := by
      rw [Nat.succ_mul]
      omega
    have hnone : translate P m root (va + off) = none ↔ pm key = none := by
      rw [hst, hkey, Option.map_eq_none_iff]
    have hloop : UserSpace.mapPages P ⟨root⟩ va pa perm.attrs (n + 1) off fa m =
        UserSpace.mapPage P ⟨root⟩ (va + off) (pa + off) perm.attrs fa m >>= fun x =>
          UserSpace.mapPages P ⟨root⟩ va pa perm.attrs n (off + P.granule) x.1 x.2 := by
      rw [UserSpace.mapPages, pure_bind_eq (orPanic_eq_pure.mpr (checkedAdd_of_lt (by omega))),
        pure_bind_eq (orPanic_eq_pure.mpr (checkedAdd_of_lt (by omega)))]
    have hmiss : missing P m root (va + off) ≤ cost P m root (va + off) (n + 1) :=
      Nat.le_add_right _ _
    rw [hloop]
    rcases h.mapPage_cases hs (va + off) (Dvd.intro_left _ hpa.symm) (by omega) perm with
      ⟨htr, hmap⟩ | ⟨hlt, hmap⟩ | ⟨hlt, hmap⟩ | ⟨htr, fa₁, m₁, live₁, hmap, hgr, hnext, hdone, htr₁⟩
    · rw [hmap]
      exact .inr (.inl ⟨⟨key, le_rfl, by omega, fun e => htr (hnone.mpr e)⟩, rfl⟩)
    · rw [hmap]
      refine .inr (.inr (.inl ⟨lt_of_lt_of_le hlt ?_, rfl⟩))
      exact Nat.add_le_add_left (Nat.mul_le_mul_right _ hmiss) _
    · rw [hmap]
      exact .inr (.inr (.inr ⟨hlt, rfl⟩))
    · rw [pure_bind_eq hmap]
      obtain ⟨lvl₁, h₁⟩ := hgr.tree
      -- the page is mapped, and the rest of the loop starts from here
      have hst₁ : Stands P m₁ root (layPages P pm key 1 frame perm) := by
        intro va'
        rw [htr₁, hst va', hkey]
        unfold layPages
        by_cases e : pageKey P va' = key
        · rw [if_pos e, if_pos (by omega), e, Nat.sub_self, add_zero, Option.map_some, hpa]
        · rw [if_neg e, if_neg (by omega)]
      have hkey' : 0 < n → pageKey P (va + (off + P.granule)) = pageKey P (va + off) + 1 := by
        intro hn
        have hk2 : (key + 1) * P.granule + P.granule ≤ 2 ^ 48 := by
          rw [← Nat.succ_mul]
          exact (Nat.mul_le_mul_right _ (by omega)).trans hk
        rw [hkey, hva', pageKey_of_lt (by omega), Nat.mul_div_cancel _ hg]
      have hsucc : missing P m root (va + off) + cost P m₁ root (va + (off + P.granule)) n ≤
          cost P m root (va + off) (n + 1) := cost_succ hkey' hdone
      have hcost := Nat.mul_le_mul_right P.granule hsucc
      rw [Nat.add_mul] at hcost
      have hfree : pm key = none := hnone.mp htr
      rcases ih hva' hpa' (by rw [show key + 1 + n = key + (n + 1) by omega]; exact hk)
        (by rw [show frame + 1 + n = frame + (n + 1) by omega]; exact hf) h₁ hgr.supply hst₁ with
        ⟨fa', m', live', hd, hgr', hle, hst', hfree'⟩ | ⟨⟨k, h1, h2, h3⟩, hd⟩ | ⟨hlt, hd⟩ |
        ⟨hlt, hd⟩
      · refine .inl ⟨fa', m', live', hd, hgr.trans hgr', by omega, ?_, fun k h1 h2 => ?_⟩
        · rw [layPages_succ] at hst'
          exact hst'
        · by_cases e : k = key
          · rw [e]
            exact hfree
          · have := hfree' k (by omega) (by omega)
            unfold layPages at this
            rwa [if_neg (by omega)] at this
      · refine .inr (.inl ⟨⟨k, by omega, by omega, ?_⟩, hd⟩)
        unfold layPages at h3
        rwa [if_neg (by omega)] at h3
      · refine .inr (.inr (.inl ⟨?_, hd⟩))
        rw [hgr.stop] at hlt
        omega
      · refine .inr (.inr (.inr ⟨?_, hd⟩))
        rw [hgr.stop] at hlt
        exact hlt

/-- A computation fails under the given conditions: for a reason other than frames, because frames
are short, or by a panic. -/
def Stuck {α : Type} (clash short wide : Prop) (x : Fallible MmuError α) : Prop :=
  (clash ∧ ∃ e, e ≠ .outOfFrames ∧ x = throw e) ∨ (short ∧ x = throw .outOfFrames) ∨
    (wide ∧ x = none)

/-- **Mapping a range.** For an aligned range of pages and frames in the 48-bit space. It maps all
pages, none of which was mapped before, with at most `cost` frames for tables, or it is stuck. It
clashes with the first page, with the end of the space, or with a page that is mapped already. -/
theorem Inv.mapRange_cases {va pa n : ℕ} (perm : UserPerm) {key frame : ℕ}
    (hva : va = key * P.granule) (hpa : pa = frame * P.granule) (hn : 0 < n)
    (hf : (frame + n) * P.granule ≤ 2 ^ 48)
    (h : Inv P m root live lvl) (hs : Supply P fa live) (hst : Stands P m root pm) :
    (∃ fa' m' live', UserSpace.mapRange P ⟨root⟩ va pa (n * P.granule) perm fa m =
        pure (fa', m') ∧ Grown P root fa fa' m m' live live' ∧
      fa'.next ≤ fa.next + cost P m root va n * P.granule ∧
      Stands P m' root (layPages P pm key n frame perm) ∧
      (∀ k, key ≤ k → k < key + n → pm k = none) ∧ 0 < key ∧ (key + n) * P.granule ≤ 2 ^ 48) ∨
    Stuck (key = 0 ∨ 2 ^ 48 < (key + n) * P.granule ∨ ∃ k, key ≤ k ∧ k < key + n ∧ pm k ≠ none)
      (fa.stop < fa.next + cost P m root va n * P.granule) (2 ^ 48 < fa.stop)
      (UserSpace.mapRange P ⟨root⟩ va pa (n * P.granule) perm fa m) := by
  have hg := P.granule_pos
  have hpos : 0 < n * P.granule := Nat.mul_pos hn hg
  have hmod : ¬ (va % P.granule ≠ 0 ∨ pa % P.granule ≠ 0 ∨ n * P.granule % P.granule ≠ 0 ∨
      n * P.granule = 0) := by
    rw [hva, hpa, Nat.mul_mod_left, Nat.mul_mod_left, Nat.mul_mod_left]
    omega
  have hsum : va + n * P.granule = (key + n) * P.granule := by
    rw [hva, ← Nat.add_mul]
  unfold UserSpace.mapRange
  rw [if_neg hmod]
  by_cases hlo : va < P.granule
  · rw [if_pos hlo]
    have hkey : key = 0 := by
      by_contra hne
      have := Nat.mul_le_mul_right P.granule (Nat.one_le_iff_ne_zero.mpr hne)
      omega
    exact .inr (.inl ⟨.inl hkey, .nullPage, by decide, rfl⟩)
  · rw [if_neg hlo]
    have hkey : 0 < key := by
      rcases Nat.eq_zero_or_pos key with rfl | hkey
      · omega
      · exact hkey
    by_cases hhi : (key + n) * P.granule ≤ 2 ^ 48
    · rw [pure_bind_eq (orError_eq_pure.mpr (checkedAdd_of_lt (by omega))), if_neg (by omega),
        Nat.mul_div_cancel _ hg]
      rcases Inv.mapPages_cases perm n (show va + 0 = _ from hva) (show pa + 0 = _ from hpa) hhi hf
        h hs hst with
        ⟨fa', m', live', hd, hgr, hle, hst', hfree⟩ | ⟨hmet, hd⟩ | ⟨hlt, hd⟩ | ⟨hlt, hd⟩
      · exact .inl ⟨fa', m', live', hd, hgr, hle, hst', hfree, hkey, hhi⟩
      · exact .inr (.inl ⟨.inr (.inr hmet), .overlap, by decide, hd⟩)
      · exact .inr (.inr (.inl ⟨hlt, hd⟩))
      · exact .inr (.inr (.inr ⟨hlt, hd⟩))
    · refine .inr (.inl ⟨.inr (.inl (not_le.mp hhi)), .misaligned, by decide, ?_⟩)
      cases hadd : checkedAdd va (n * P.granule) with
      | none => rfl
      | some stop =>
        obtain ⟨-, rfl⟩ := checkedAdd_eq_some.mp hadd
        rw [pure_bind_eq (orError_eq_pure.mpr rfl), if_pos (by omega)]

end UserTables

end K0
