import K0.Mm.UserTables

set_option relaxedAutoImplicit false
set_option autoImplicit false

/-!
# The builder of user tables

The builder of `K0.Mm.User` in terms of the tree of `K0.Mm.UserTables`. Its descent is a sequence
of links at the first gap of a path, each to the next frame of the allocator, and that is what the
system call walker does with a table that user space supplies. So the two agree, and a mapping
takes exactly as many frames as tables are missing.

## Main definitions

* `K0.UserTables.Supply`: an allocator whose frames are no tables yet.
* `K0.UserTables.Grown`: what building does to the tree, the allocator and memory.
* `K0.UserTables.installAll`: link several tables on one path.

## Main results

* `K0.UserTables.Inv.descend_gap`: the descent is a link at the gap and a descent.
* `K0.UserTables.Inv.mapPage_cases`: what mapping one page does.
* `K0.builder_eq_walkers`: the builder and the walkers write the same tables.
-/

namespace K0

open Word Memory Outcome

/-! ### The allocator -/

namespace FrameAlloc

variable {P : Platform} {fa : FrameAlloc} {m : Mem} {n : ℕ}

/-- What taking consecutive frames does: it succeeds, the window is too small, or the window ends
beyond the range of aliases. -/
lemma allocContig_cases (hn : 0 < n) (ha : P.granule ∣ fa.next) (hstop : fa.stop < 2 ^ 64) :
    (fa.next + n * P.granule ≤ fa.stop ∧ fa.next + P.granule ≤ 2 ^ 48 ∧
      fa.allocContig P n m = pure (fa.next, { fa with next := fa.next + n * P.granule },
        clear m fa.next (n * P.granule))) ∨
    (fa.stop < fa.next + n * P.granule ∧ fa.allocContig P n m = throw .outOfFrames) ∨
    (2 ^ 48 < fa.stop ∧ fa.allocContig P n m = none) := by
  have hg := P.granule_pos
  have hpos : 0 < n * P.granule := Nat.mul_pos hn hg
  have hoff : Abi.kernelVaOffset + 2 ^ 48 = 2 ^ 64 := by decide
  by_cases hfit : fa.next + n * P.granule ≤ fa.stop
  · have hmul : checkedMul n P.granule = some (n * P.granule) := if_pos (by omega)
    have hadd : checkedAdd fa.next (n * P.granule) = some (fa.next + n * P.granule) :=
      checkedAdd_of_lt (by omega)
    have heq : fa.allocContig P n m =
        (orPanic (checkedAdd fa.next Abi.kernelVaOffset) : Fallible MmuError ℕ) >>= fun kva =>
          pure (fa.next, { fa with next := fa.next + n * P.granule },
            clear m (physOf kva) (n * P.granule)) := by
      unfold allocContig
      rw [pure_bind_eq (orError_eq_pure.mpr hmul), if_neg (by omega),
        pure_bind_eq (orError_eq_pure.mpr hadd), if_neg (by omega)]
    by_cases hlt : fa.next < 2 ^ 48
    · left
      refine ⟨hfit, add_granule_le ha P.granule_dvd hlt, ?_⟩
      have hkva : checkedAdd fa.next Abi.kernelVaOffset = some (fa.next + Abi.kernelVaOffset) :=
        checkedAdd_of_lt (by omega)
      rw [heq, pure_bind_eq (orPanic_eq_pure.mpr hkva)]
      unfold physOf
      rw [Nat.add_sub_cancel]
    · refine .inr (.inr ⟨by omega, ?_⟩)
      have hkva : checkedAdd fa.next Abi.kernelVaOffset = none := checkedAdd_eq_none.mpr (by omega)
      rw [heq, hkva]
      rfl
  · refine .inr (.inl ⟨by omega, ?_⟩)
    unfold allocContig
    cases hmul : checkedMul n P.granule with
    | none => rfl
    | some len =>
      obtain ⟨-, rfl⟩ := checkedMul_eq_some.mp hmul
      rw [pure_bind_eq (orError_eq_pure.mpr rfl), if_neg (by omega)]
      cases hadd : checkedAdd fa.next (n * P.granule) with
      | none => rfl
      | some stop =>
        obtain ⟨-, rfl⟩ := checkedAdd_eq_some.mp hadd
        rw [pure_bind_eq (orError_eq_pure.mpr rfl), if_pos (by omega)]

end FrameAlloc

namespace UserTables

variable {P : Platform} {m m' : Mem} {root : ℕ} {live live' : Set ℕ} {lvl : ℕ → ℕ}
  {t i s va : ℕ} {fa fa' : FrameAlloc}

/-- A cleared root table is a tree. -/
lemma Inv.empty (ha : P.granule ∣ root) (hf : root + P.granule ≤ 2 ^ 48)
    (hz : ∀ i < P.entries, word m root i = 0) : Inv P m root {root} fun _ => 0 := by
  have hchild : ∀ t i, t ∈ ({root} : Set ℕ) → child P m t i = none := by
    rintro t i rfl
    exact child_of_zero fun e => hz i e.2
  refine ⟨rfl, rfl, fun i _ hi => hz i hi, ?_, ?_, fun _ _ => Nat.zero_le _, ?_, ?_, ⟨?_, ?_⟩, ?_⟩
  · rintro t rfl
    exact ha
  · rintro t rfl
    exact hf
  · rintro t rfl i hi - hne
    exact absurd (hz i hi) hne
  · rintro t rfl i hi - hne
    exact absurd (hz i hi) hne
  · intro t i s ht _ hc
    rw [hchild t i ht] at hc
    cases hc
  · intro t t' i i' s ht _ _ _ hc
    rw [hchild t i ht] at hc
    cases hc
  · rintro s rfl hne
    exact absurd rfl hne

/-- The frames that the allocator still has are aligned and no tables. -/
structure Supply (P : Platform) (fa : FrameAlloc) (live : Set ℕ) : Prop where
  aligned : P.granule ∣ fa.next
  next_le : fa.next ≤ fa.stop
  stop_lt : fa.stop < 2 ^ 64
  apart : ∀ t ∈ live, t < fa.next ∨ fa.stop ≤ t

/-- The next frame of a supply, cleared, can become a table. -/
lemma Inv.fresh_alloc (h : Inv P m root live lvl) (hs : Supply P fa live)
    (hfit : fa.next + P.granule ≤ fa.stop) (h48 : fa.next + P.granule ≤ 2 ^ 48) :
    Inv P (clear m fa.next P.granule) root live lvl ∧
      Fresh P (clear m fa.next P.granule) live fa.next ∧
      ∀ t ∈ live, ∀ i < P.entries, word (clear m fa.next P.granule) t i = word m t i := by
  have hg := P.granule_pos
  have hnot : fa.next ∉ live := fun hmem => by
    have := hs.apart _ hmem
    omega
  have hword : ∀ t ∈ live, ∀ i < P.entries, word (clear m fa.next P.granule) t i = word m t i := by
    intro t ht i hi
    have hle := entry_le hi
    have hsep := frame_sep (h.aligned t ht) hs.aligned (ne_of_mem_of_not_mem ht hnot)
    exact read64_clear_of_sep (by omega)
  refine ⟨h.congr hword, ⟨hs.aligned, h48, hnot, fun i hi => ?_⟩, hword⟩
  have := entry_le hi
  exact read64_clear (by omega) (by omega)

/-! ### The descent -/

/-- The descent from a table of the tree, by its first entry: an empty one is linked to a new
table, another one is followed. -/
lemma Inv.descend_cons (h : Inv P m root live lvl) (va : ℕ) (fa : FrameAlloc) {level : ℕ}
    {rest : List ℕ} (ht : t ∈ live) (hl : lvl t < 3) :
    UserSpace.descend P va (level :: rest) t fa m =
      match child P m t (index P va level) with
      | none => fa.alloc P m >>= fun x =>
          UserSpace.descend P va rest x.1 x.2.1 (setLink x.2.2 t (index P va level) x.1)
      | some s => UserSpace.descend P va rest s fa m := by
  have hi := index_lt P va level
  obtain ⟨p, hp, hphys⟩ := entryPtr_eq (h.fits t ht) hi
  rw [UserSpace.descend, pure_bind_eq (orPanic_eq_pure.mpr hp), hphys]
  change (if word m t (index P va level) = 0 then _
    else if word m t (index P va level) &&& 0b11 = descTable then
      UserSpace.descend P va rest (word m t (index P va level) &&& P.addrMask) fa m else _) = _
  by_cases hz : word m t (index P va level) = 0
  · rw [if_pos hz, child_of_zero fun _ => hz]
    rfl
  · obtain ⟨s, -, -, hc, hbits, hmask⟩ := h.table_of_word ht hl hi hz
    rw [if_neg hz, if_pos hbits, hmask, hc]

/-- A complete path needs no new table. -/
lemma Inv.descend_complete (h : Inv P m root live lvl) (va : ℕ) (fa : FrameAlloc)
    {levels : List ℕ} (ht : t ∈ live) (hlen : lvl t + levels.length ≤ 3)
    (hw : Radix.walk (child P m) t (levels.map (index P va)) = some s) :
    UserSpace.descend P va levels t fa m = pure (s, fa, m) := by
  induction levels generalizing t with
  | nil =>
    obtain rfl := Option.some.inj hw
    rfl
  | cons level rest ih =>
    rw [List.length_cons] at hlen
    rw [List.map_cons, Radix.walk_cons] at hw
    obtain ⟨c, hc, hw⟩ := Option.bind_eq_some_iff.mp hw
    obtain ⟨hlc, hlvl⟩ := h.forest.child_lvl ht (by omega) hc
    rw [h.descend_cons va fa ht (by omega), hc]
    exact ih hlc (by omega) hw

/-- The descent allocates at the gap of its path. -/
lemma Inv.descend_alloc (h : Inv P m root live lvl) (va : ℕ) (fa : FrameAlloc) {levels : List ℕ}
    {u : ℕ} (hu : u ∈ live) (hlen : lvl u + levels.length ≤ 3)
    (hg : Radix.gap (child P m) u (levels.map (index P va)) = some (t, i)) :
    ∃ rest, UserSpace.descend P va levels u fa m = fa.alloc P m >>= fun x =>
      UserSpace.descend P va rest x.1 x.2.1 (setLink x.2.2 t i x.1) := by
  induction levels generalizing u with
  | nil => cases hg
  | cons level rest ih =>
    rw [List.length_cons] at hlen
    rw [List.map_cons, Radix.gap] at hg
    rw [h.descend_cons va fa hu (by omega)]
    cases hc : child P m u (index P va level) with
    | none =>
      rw [hc] at hg
      obtain ⟨rfl, rfl⟩ := Prod.mk.inj (Option.some.inj hg)
      exact ⟨rest, rfl⟩
    | some s =>
      rw [hc] at hg
      obtain ⟨hs, hls⟩ := h.forest.child_lvl hu (by omega) hc
      exact ih hs (by omega) hg

/-- **The descent fills the first gap and starts over.** With a gap at entry `i` of `t` the next
frame becomes a table there, and from then on the descent is one in the new tree.

**Proof sketch.** Induction on the levels. Above the gap the entries are the same in the new tree;
at the gap the new tree has a link to the new table, where the descent goes on. -/
lemma Inv.descend_gap {f : ℕ} {m₁ : Mem} {live₁ : Set ℕ} {lvl₁ : ℕ → ℕ}
    (h : Inv P m root live lvl) (h₁ : Inv P m₁ root live₁ lvl₁) (hsub : live ⊆ live₁)
    (hlvl : ∀ u ∈ live, lvl₁ u = lvl u) (hnew : child P m₁ t i = some f)
    (hold : ∀ u ∈ live, ∀ j, ¬ (u = t ∧ j = i) → child P m₁ u j = child P m u j)
    (halloc : fa.alloc P m = pure (f, fa', m')) (hm₁ : m₁ = setLink m' t i f) (va : ℕ)
    {levels : List ℕ} {u : ℕ} (hu : u ∈ live) (hlen : lvl u + levels.length ≤ 3)
    (hg : Radix.gap (child P m) u (levels.map (index P va)) = some (t, i)) :
    UserSpace.descend P va levels u fa m = UserSpace.descend P va levels u fa' m₁ := by
  induction levels generalizing u with
  | nil => cases hg
  | cons level rest ih =>
    rw [List.length_cons] at hlen
    rw [List.map_cons, Radix.gap] at hg
    have hl₁ : lvl₁ u < 3 := by
      rw [hlvl u hu]
      omega
    rw [h.descend_cons va fa hu (by omega), h₁.descend_cons va fa' (hsub hu) hl₁]
    cases hc : child P m u (index P va level) with
    | none =>
      rw [hc] at hg
      obtain ⟨rfl, rfl⟩ := Prod.mk.inj (Option.some.inj hg)
      rw [hnew, pure_bind_eq halloc, hm₁]
    | some s =>
      rw [hc] at hg
      have hne : ¬ (u = t ∧ index P va level = i) := by
        rintro ⟨rfl, rfl⟩
        rw [(Radix.of_gap hg).1] at hc
        cases hc
      obtain ⟨hs, hls⟩ := h.forest.child_lvl hu (by omega) hc
      rw [hold u hu _ hne, hc]
      exact ih hs (by omega) hg

/-- What building does: some of the next frames become tables of the tree, complete paths stay
complete, and no byte changes outside the tables. -/
structure Grown (P : Platform) (root : ℕ) (fa fa' : FrameAlloc) (m m' : Mem)
    (live live' : Set ℕ) : Prop where
  tree : ∃ lvl, Inv P m' root live' lvl
  supply : Supply P fa' live'
  start : fa'.start = fa.start
  stop : fa'.stop = fa.stop
  next : fa.next ≤ fa'.next
  fits : fa'.next = fa.next ∨ fa'.next ≤ fa.stop ∧ fa'.next ≤ 2 ^ 48
  live_iff : ∀ t, t ∈ live' ↔ t ∈ live ∨ (fa.next ≤ t ∧ t < fa'.next ∧ P.granule ∣ t)
  complete : ∀ va, missing P m root va = 0 → missing P m' root va = 0
  frame : ∀ a, (∀ t ∈ live', a < t ∨ t + P.granule ≤ a) → m' a = m a

/-- Nothing was built. -/
lemma Grown.refl (h : Inv P m root live lvl) (hs : Supply P fa live) :
    Grown P root fa fa m m live live where
  tree := ⟨lvl, h⟩
  supply := hs
  start := rfl
  stop := rfl
  next := le_rfl
  fits := .inl rfl
  live_iff t := ⟨.inl, fun e => e.resolve_right fun e' => by omega⟩
  complete _ e := e
  frame _ _ := rfl

/-- Building goes on. -/
lemma Grown.trans {fa'' : FrameAlloc} {m'' : Mem} {live'' : Set ℕ}
    (h : Grown P root fa fa' m m' live live') (h' : Grown P root fa' fa'' m' m'' live' live'') :
    Grown P root fa fa'' m m'' live live'' where
  tree := h'.tree
  supply := h'.supply
  start := h'.start.trans h.start
  stop := h'.stop.trans h.stop
  next := h.next.trans h'.next
  fits := by
    have h1 := h.fits
    have h2 := h'.fits
    rw [h.stop] at h2
    omega
  live_iff t := by
    have h1 := h.next
    have h2 := h'.next
    rw [h'.live_iff, h.live_iff]
    constructor
    · rintro ((e | ⟨e1, e2, e3⟩) | ⟨e1, e2, e3⟩)
      · exact .inl e
      · exact .inr ⟨e1, by omega, e3⟩
      · exact .inr ⟨by omega, e2, e3⟩
    · rintro (e | ⟨e1, e2, e3⟩)
      · exact .inl (.inl e)
      · by_cases hlt : t < fa'.next
        · exact .inl (.inr ⟨e1, hlt, e3⟩)
        · exact .inr ⟨by omega, e2, e3⟩
  complete va e := h'.complete va (h.complete va e)
  frame a ha := by
    rw [h'.frame a ha]
    exact h.frame a fun t ht => ha t ((h'.live_iff t).mpr (.inl ht))

/-- One link to the next frame, at the gap of the path of `va`. -/
lemma Inv.grown_link (h : Inv P m root live lvl) (hs : Supply P fa live)
    (hfit : fa.next + P.granule ≤ fa.stop) (h48 : fa.next + P.granule ≤ 2 ^ 48)
    (hg : Radix.gap (child P m) root (path P va) = some (t, i)) :
    let m₁ := setLink (clear m fa.next P.granule) t i fa.next
    let fa₁ := { fa with next := fa.next + P.granule }
    Inv P m₁ root (insert fa.next live) (Function.update lvl fa.next (lvl t + 1)) ∧
      child P m₁ t i = some fa.next ∧
      (∀ u ∈ live, ∀ j, ¬ (u = t ∧ j = i) → child P m₁ u j = child P m u j) ∧
      Grown P root fa fa₁ m m₁ live (insert fa.next live) ∧
      missing P m root va = missing P m₁ root va + 1 ∧
      ∀ va', translate P m₁ root va' = translate P m root va' := by
  intro m₁ fa₁
  have hg0 := P.granule_pos
  obtain ⟨ht, hi, hl, hroot, hz, -⟩ := h.of_gap hg
  obtain ⟨h0, hfresh, hword⟩ := h.fresh_alloc hs hfit h48
  have hz0 : word (clear m fa.next P.granule) t i = 0 := (hword t ht i hi).trans hz
  have hne : fa.next ≠ t := fun e => hfresh.notMem (e ▸ ht)
  have hinv := h0.link ht hi hl hroot hz0 hfresh
  have hlink := linked_setLink (h0.entry ht hi) hz0 hne hfresh.aligned hfresh.fits hfresh.zero
  -- clearing the frame leaves the links of the tree
  have hchild : ∀ u ∈ live, ∀ j, child P (clear m fa.next P.granule) u j = child P m u j :=
    fun u hu j => child_congr fun e => hword u hu j e.2
  have hgap : Radix.gap (child P (clear m fa.next P.granule)) root (path P va) = some (t, i) := by
    rw [h.forest.gap_congr (fun u j hu _ => hchild u hu j) h.root_live
      (by rw [h.root_lvl]; exact le_rfl), hg]
  refine ⟨hinv, hlink.link, ?_, ?_, ?_, ?_⟩
  · intro u hu j hn
    rw [hlink.frame u j hn, hchild u hu j]
  · refine ⟨⟨_, hinv⟩, ⟨?_, hfit, hs.stop_lt, ?_⟩, rfl, rfl, Nat.le_add_right _ _,
      .inr ⟨hfit, h48⟩, ?_, ?_, ?_⟩
    · exact Nat.dvd_add hs.aligned dvd_rfl
    · rintro u (rfl | hu)
      · exact .inl (Nat.lt_add_of_pos_right hg0)
      · rcases hs.apart u hu with e | e
        · exact .inl (Nat.lt_add_right _ e)
        · exact .inr e
    · intro u
      constructor
      · rintro (rfl | hu)
        · exact .inr ⟨le_rfl, Nat.lt_add_of_pos_right hg0, hs.aligned⟩
        · exact .inl hu
      · rintro (hu | ⟨e1, e2, e3⟩)
        · exact .inr hu
        · left
          by_contra hne'
          have := add_granule_le hs.aligned e3 (lt_of_le_of_ne e1 (Ne.symm hne'))
          have : u < fa.next + P.granule := e2
          omega
    · intro va' e
      rw [← h.missing_congr hword va'] at e
      obtain ⟨u, hu⟩ := Radix.missing_eq_zero_iff.mp e
      exact Radix.missing_eq_zero_iff.mpr ⟨u, hlink.walk_mono hu⟩
    · intro a ha
      have ha1 := ha fa.next (.inl rfl)
      have ha2 := ha t (.inr ht)
      have := entry_le hi
      show write64 _ _ _ a = m a
      unfold write64
      rw [if_neg (by omega)]
      exact if_neg (by omega)
  · rw [← h.missing_congr hword va]
    exact hlink.missing_of_gap hgap
  · intro va'
    rw [← h.translate_congr hword va']
    exact h0.translate_link ht hi hl hz0 hne hfresh.aligned hfresh.fits hfresh.zero va'

/-- The descent along a path that lacks a table: the next frame becomes the first one that is
missing and the descent starts over in the new tree, or there is no such frame. -/
lemma Inv.descend_succ {n : ℕ} (h : Inv P m root live lvl) (hs : Supply P fa live)
    (hm : missing P m root va = n + 1) :
    ∃ t i, Radix.gap (child P m) root (path P va) = some (t, i) ∧
      ((∃ fa₁ m₁ lvl₁, fa.next + P.granule ≤ fa.stop ∧
          fa₁ = { fa with next := fa.next + P.granule } ∧
          m₁ = setLink (clear m fa.next P.granule) t i fa.next ∧
          Inv P m₁ root (insert fa.next live) lvl₁ ∧
          Grown P root fa fa₁ m m₁ live (insert fa.next live) ∧ missing P m₁ root va = n ∧
          (∀ va', translate P m₁ root va' = translate P m root va') ∧
          UserSpace.descend P va [0, 1, 2] root fa m =
            UserSpace.descend P va [0, 1, 2] root fa₁ m₁) ∨
        (fa.stop < fa.next + P.granule ∧
          UserSpace.descend P va [0, 1, 2] root fa m = throw .outOfFrames) ∨
        (2 ^ 48 < fa.stop ∧ UserSpace.descend P va [0, 1, 2] root fa m = none)) := by
  have hlen : lvl root + [0, 1, 2].length ≤ 3 := by
    rw [h.root_lvl]
    exact le_rfl
  obtain ⟨⟨t, i⟩, hg⟩ : ∃ x, Radix.gap (child P m) root (path P va) = some x := by
    refine Option.ne_none_iff_exists'.mp fun e => ?_
    have : missing P m root va = 0 := Radix.gap_eq_none_iff.mp e
    omega
  obtain ⟨rest, hrest⟩ := h.descend_alloc va fa h.root_live hlen hg
  refine ⟨t, i, hg, ?_⟩
  rcases FrameAlloc.allocContig_cases (n := 1) (m := m) one_pos hs.aligned hs.stop_lt with
    ⟨hfit, h48, halloc⟩ | ⟨hshort, halloc⟩ | ⟨hwide, halloc⟩
  · rw [one_mul] at hfit halloc
    obtain ⟨h₁, hnew, hold, hgrown, hmiss, htr⟩ := h.grown_link hs hfit h48 hg
    have hnot := (h.fresh_alloc hs hfit h48).2.1.notMem
    exact .inl ⟨_, _, _, hfit, rfl, rfl, h₁, hgrown, by omega, htr,
      h.descend_gap h₁ (Set.subset_insert _ _)
        (fun u hu => Function.update_of_ne (ne_of_mem_of_not_mem hu hnot) _ _)
        hnew hold halloc rfl va h.root_live hlen hg⟩
  · refine .inr (.inl ⟨by omega, ?_⟩)
    rw [hrest]
    exact congrArg (· >>= _) halloc
  · refine .inr (.inr ⟨hwide, ?_⟩)
    rw [hrest]
    exact congrArg (· >>= _) halloc

/-- **The descent of the builder.** It ends at the leaf table of the path, with a frame for each
table that was missing, and changes no translation; or the allocator is short of frames; or its
window ends beyond the range of aliases.

**Proof sketch.** Induction on the number of missing tables, by `Inv.descend_succ`. -/
theorem Inv.descend_cases (va n : ℕ) : ∀ {m : Mem} {live : Set ℕ} {lvl : ℕ → ℕ} {fa : FrameAlloc},
    Inv P m root live lvl → Supply P fa live → missing P m root va = n →
    (fa.next + n * P.granule ≤ fa.stop ∧ ∃ s fa' m' live',
      UserSpace.descend P va [0, 1, 2] root fa m = pure (s, fa', m') ∧
      Grown P root fa fa' m m' live live' ∧ fa'.next = fa.next + n * P.granule ∧
      Radix.walk (child P m') root (path P va) = some s ∧
      ∀ va', translate P m' root va' = translate P m root va') ∨
    (fa.stop < fa.next + n * P.granule ∧
      UserSpace.descend P va [0, 1, 2] root fa m = throw .outOfFrames) ∨
    (2 ^ 48 < fa.stop ∧ UserSpace.descend P va [0, 1, 2] root fa m = none) := by
  induction n with
  | zero =>
    intro m live lvl fa h hs hm
    left
    obtain ⟨s, hw⟩ := Radix.missing_eq_zero_iff.mp hm
    have hdesc : UserSpace.descend P va [0, 1, 2] root fa m = pure (s, fa, m) :=
      h.descend_complete va fa h.root_live (by rw [h.root_lvl]; exact le_rfl) hw
    have hle := hs.next_le
    exact ⟨by omega, s, fa, m, live, hdesc, .refl h hs, by omega, hw, fun _ => rfl⟩
  | succ n ih =>
    intro m live lvl fa h hs hm
    have hmul : (n + 1) * P.granule = n * P.granule + P.granule := Nat.succ_mul _ _
    obtain ⟨t, i, -, ⟨fa₁, m₁, lvl₁, hfit, rfl, rfl, h₁, hgrown, hmiss, htr, hdesc⟩ | ⟨hlt, hd⟩ |
      ⟨hlt, hd⟩⟩ := h.descend_succ hs hm
    · rw [hdesc]
      rcases ih h₁ hgrown.supply hmiss with
        ⟨hle, s, fa', m', live', hd, hgr, hnext, hw, htr'⟩ | ⟨hlt, hd⟩ | ⟨hlt, hd⟩
      · refine .inl ⟨?_, s, fa', m', live', hd, hgrown.trans hgr, ?_, hw, fun va' => ?_⟩
        · dsimp only at hle
          omega
        · dsimp only at hnext
          omega
        · rw [htr', htr]
      · refine .inr (.inl ⟨?_, hd⟩)
        dsimp only at hlt
        omega
      · exact .inr (.inr ⟨hlt, hd⟩)
    · exact .inr (.inl ⟨by omega, hd⟩)
    · exact .inr (.inr ⟨hlt, hd⟩)

/-! ### Mapping pages -/

/-- The last step of `mapPage`. -/
lemma Inv.mapPage_eq (h : Inv P m' root live lvl) (pa attrs : ℕ)
    (hd : UserSpace.descend P va [0, 1, 2] root fa m = pure (s, fa', m'))
    (hw : Radix.walk (child P m') root (path P va) = some s) :
    UserSpace.mapPage P ⟨root⟩ va pa attrs fa m =
      if word m' s (index P va 3) ≠ 0 then throw .overlap
      else pure (fa', write64 m' (s + index P va 3 * 8) (pa ||| attrs)) := by
  obtain ⟨p, hp, hphys⟩ := entryPtr_eq (h.fits s (h.walk_lvl hw).1) (index_lt P va 3)
  unfold UserSpace.mapPage
  rw [pure_bind_eq hd]
  dsimp only
  rw [pure_bind_eq (orPanic_eq_pure.mpr hp), hphys]
  rfl

/-- Writing a page descriptor is a part of building. -/
lemma Grown.writePage (h : Grown P root fa fa' m m' live live') {pa : ℕ}
    (hw : Radix.walk (child P m') root (path P va) = some s) (ha : P.granule ∣ pa)
    (hpa : pa < 2 ^ 48) (perm : UserPerm) :
    Grown P root fa fa' m (write64 m' (s + index P va 3 * 8) (pa ||| perm.attrs)) live live' := by
  obtain ⟨lvl, hinv⟩ := h.tree
  obtain ⟨hs, hl⟩ := hinv.walk_lvl hw
  have hi := index_lt P va 3
  refine ⟨⟨lvl, hinv.writePage hs hl hi ha hpa perm⟩, h.supply, h.start, h.stop, h.next, h.fits,
    h.live_iff, fun va' e => ?_, fun a hap => ?_⟩
  · rw [hinv.missing_writePage hs hl hi hpa perm]
    exact h.complete va' e
  · rw [← h.frame a hap]
    have := hap s hs
    have := entry_le hi
    exact if_neg (by omega)

/-- **One call of `mapPage`.** A page that is mapped already is an overlap; a page whose path lacks
more tables than the allocator has frames is out of frames; any other page is mapped, with a frame
for each table that was missing, and exactly one translation is added. -/
theorem Inv.mapPage_cases (h : Inv P m root live lvl) (hs : Supply P fa live) (va : ℕ) {pa : ℕ}
    (ha : P.granule ∣ pa) (hpa : pa < 2 ^ 48) (perm : UserPerm) :
    (translate P m root va ≠ none ∧
      UserSpace.mapPage P ⟨root⟩ va pa perm.attrs fa m = throw .overlap) ∨
    (fa.stop < fa.next + missing P m root va * P.granule ∧
      UserSpace.mapPage P ⟨root⟩ va pa perm.attrs fa m = throw .outOfFrames) ∨
    (2 ^ 48 < fa.stop ∧ UserSpace.mapPage P ⟨root⟩ va pa perm.attrs fa m = none) ∨
    (translate P m root va = none ∧ ∃ fa' m' live',
      UserSpace.mapPage P ⟨root⟩ va pa perm.attrs fa m = pure (fa', m') ∧
      Grown P root fa fa' m m' live live' ∧
      fa'.next = fa.next + missing P m root va * P.granule ∧ missing P m' root va = 0 ∧
      ∀ va', translate P m' root va' =
        if pageKey P va' = pageKey P va then some (pa, perm.attrs)
        else translate P m root va') := by
  rcases Inv.descend_cases va _ h hs rfl with
    ⟨-, s, fa', m', live', hd, hgr, hnext, hw, htr⟩ | ⟨hlt, hd⟩ | ⟨hlt, hd⟩
  · obtain ⟨lvl', hinv⟩ := hgr.tree
    have heq := hinv.mapPage_eq pa perm.attrs hd hw
    have hnone := hinv.translate_eq_none_iff hw
    rw [htr] at hnone
    by_cases hz : word m' s (index P va 3) = 0
    · rw [if_neg (not_not.mpr hz)] at heq
      obtain ⟨hs', hl'⟩ := hinv.walk_lvl hw
      refine .inr (.inr (.inr ⟨hnone.mpr hz, fa', _, live', heq, hgr.writePage hw ha hpa perm,
        hnext, ?_, fun va' => ?_⟩))
      · rw [hinv.missing_writePage hs' hl' (index_lt P va 3) hpa perm]
        exact Radix.missing_eq_zero_iff.mpr ⟨s, hw⟩
      · rw [hinv.translate_writePage hw ha hpa perm, htr]
    · rw [if_pos hz] at heq
      exact .inl ⟨fun e => hz (hnone.mp e), heq⟩
  · refine .inr (.inl ⟨hlt, ?_⟩)
    unfold UserSpace.mapPage
    exact congrArg (· >>= _) hd
  · refine .inr (.inr (.inl ⟨hlt, ?_⟩))
    unfold UserSpace.mapPage
    exact congrArg (· >>= _) hd

/-! ### The builder and the walkers -/

/-- Link the given frames, one after the other, on the path of an address. -/
def installAll (P : Platform) (root va : ℕ) : List ℕ → Mem → Fallible MmuError Mem
  | [], m => pure m
  | f :: fs, m => do
    let (_, m) ← userInstallTable P root va f m
    installAll P root va fs m

/-- The next `k` frames of an allocator. -/
def nextFrames (P : Platform) (fa : FrameAlloc) (k : ℕ) : List ℕ :=
  (List.range k).map fun j => fa.next + j * P.granule

/-- The first of the next frames. -/
lemma nextFrames_succ (fa : FrameAlloc) (k : ℕ) :
    nextFrames P fa (k + 1) =
      fa.next :: nextFrames P { fa with next := fa.next + P.granule } k := by
  unfold nextFrames
  rw [List.range_succ_eq_map, List.map_cons, List.map_map, zero_mul, add_zero]
  congr 1
  refine List.map_congr_left fun j _ => ?_
  show fa.next + (j + 1) * P.granule = fa.next + P.granule + j * P.granule
  rw [Nat.succ_mul]
  omega

/-- A descent that succeeds on cleared frames does what installing these frames does.

**Proof sketch.** Induction on the number of missing tables. Both link the next frame at the gap of
the path; clearing it is no change. -/
lemma Inv.installAll_of_descend (va n : ℕ) : ∀ {m : Mem} {live : Set ℕ} {lvl : ℕ → ℕ}
    {fa : FrameAlloc}, Inv P m root live lvl → Supply P fa live → missing P m root va = n →
    va < 2 ^ 48 → (∀ a, fa.next ≤ a → a < fa.stop → m a = 0) →
    UserSpace.descend P va [0, 1, 2] root fa m = pure (s, fa', m') →
    installAll P root va (nextFrames P fa n) m = pure m' := by
  induction n with
  | zero =>
    intro m live lvl fa h hs hm hva hzero hd
    obtain ⟨u, hw⟩ := Radix.missing_eq_zero_iff.mp hm
    have hdesc : UserSpace.descend P va [0, 1, 2] root fa m = pure (u, fa, m) :=
      h.descend_complete va fa h.root_live (by rw [h.root_lvl]; exact le_rfl) hw
    rw [hdesc, pure_inj, Prod.mk.injEq, Prod.mk.injEq] at hd
    rw [← hd.2.2]
    rfl
  | succ n ih =>
    intro m live lvl fa h hs hm hva hzero hd
    obtain ⟨t, i, hg, ⟨fa₁, m₁, lvl₁, hfit, rfl, hm₁, h₁, hgrown, hmiss, -, hdesc⟩ | ⟨-, hfail⟩ |
      ⟨-, hfail⟩⟩ := h.descend_succ hs hm
    · have hclear : clear m fa.next P.granule = m := by
        funext a
        unfold clear
        split_ifs with ha
        · exact (hzero a ha.1 (by omega)).symm
        · rfl
      rw [hclear] at hm₁
      subst hm₁
      rw [hdesc] at hd
      obtain ⟨ht, hi, -, -, -, -⟩ := h.of_gap hg
      have hinstall : userInstallTable P root va fa.next m =
          pure (lvl t, setLink m t i fa.next) := by
        rw [h.userInstallTable_eq hs.aligned hva, hg]
      rw [nextFrames_succ, installAll, pure_bind_eq hinstall]
      refine ih h₁ hgrown.supply hmiss hva (fun a h1 h2 => ?_) hd
      -- the entry that was written lies in a table, and no table in the frames that are left
      have h1' : fa.next + P.granule ≤ a := h1
      have h2' : a < fa.stop := h2
      have hle := entry_le hi
      have hsep : t + P.granule ≤ fa.next ∨ fa.stop ≤ t := by
        rcases hs.apart t ht with e | e
        · exact .inl (add_granule_le (h.aligned t ht) hs.aligned e)
        · exact .inr e
      rw [← hzero a (by omega) h2']
      exact if_neg (by omega)
    · exact absurd (hfail.symm.trans hd) throw_ne_pure
    · cases hfail.symm.trans hd

end UserTables

/-- Mapping a range of one page is mapping that page, if its address is aligned and a 64-bit
value. -/
lemma UserSpace.mapRange_page {P : Platform} (us : UserSpace) {va : ℕ} (pa : ℕ) (fa : FrameAlloc)
    (m : Mem) (perm : UserPerm) (hva : P.granule ∣ va) (hlo : P.granule ≤ va)
    (hhi : va + P.granule ≤ 2 ^ 48) :
    us.mapRange P va pa P.granule perm fa m =
      if ¬ P.granule ∣ pa then throw .misaligned
      else if pa < 2 ^ 64 then us.mapPage P va pa perm.attrs fa m else none := by
  have hg := P.granule_pos
  have hmod : va % P.granule = 0 := Nat.mod_eq_zero_of_dvd hva
  unfold mapRange
  by_cases hpa : P.granule ∣ pa
  · have hmod' : pa % P.granule = 0 := Nat.mod_eq_zero_of_dvd hpa
    rw [if_neg (not_not.mpr hpa), if_neg (by rw [hmod, hmod', Nat.mod_self]; omega),
      if_neg (by omega), pure_bind_eq (orError_eq_pure.mpr (checkedAdd_of_lt (by omega))),
      if_neg (by omega), Nat.div_self hg, mapPages,
      pure_bind_eq (orPanic_eq_pure.mpr (checkedAdd_of_lt (by omega)))]
    by_cases h64 : pa < 2 ^ 64
    · rw [if_pos h64, pure_bind_eq (orPanic_eq_pure.mpr (checkedAdd_of_lt (by omega))), add_zero,
        add_zero]
      rcases us.mapPage P va pa perm.attrs fa m with _ | (e | x) <;> rfl
    · rw [if_neg h64, checkedAdd_eq_none.mpr (by omega)]
      rfl
  · have hmod' : pa % P.granule ≠ 0 := fun e => hpa (Nat.dvd_of_mod_eq_zero e)
    rw [if_pos hpa, if_pos (.inr (.inl hmod'))]

open UserTables in
/-- **The builder and the walkers agree.** In every tree of user tables, with an allocator whose
frames are cleared and no tables: if the builder maps a page, it has taken a frame for each table
that was missing on the path of the address, and installing these frames in turn and mapping the
page by the system call walkers succeeds with the same memory. If the builder finds an overlap,
so do both walkers.

**Proof sketch.** The descent and the installs link the same frames at the gap of the same path
(`Inv.installAll_of_descend`), and at its end both write the same leaf entry. An overlap of the
builder means that the leaf entry was taken before the call, so that no table was missing. -/
theorem builder_eq_walkers {P : Platform} {m : Mem} {root : ℕ} {live : Set ℕ} {lvl : ℕ → ℕ}
    {fa : FrameAlloc} (h : Inv P m root live lvl) (hs : Supply P fa live)
    (hzero : ∀ a, fa.next ≤ a → a < fa.stop → m a = 0) {va : ℕ} (hva : P.granule ∣ va)
    (hlo : P.granule ≤ va) (hhi : va + P.granule ≤ 2 ^ 48) (pa : ℕ) (perm : UserPerm) :
    (∀ fa' m', UserSpace.mapRange P ⟨root⟩ va pa P.granule perm fa m = pure (fa', m') →
      ∃ k m₁, fa'.next = fa.next + k * P.granule ∧ k = missing P m root va ∧
        installAll P root va (nextFrames P fa k) m = pure m₁ ∧
        userMapFrame P root va pa perm m₁ = pure m') ∧
    (UserSpace.mapRange P ⟨root⟩ va pa P.granule perm fa m = throw .overlap →
      (∀ f, P.granule ∣ f → userInstallTable P root va f m = throw .overlap) ∧
        userMapFrame P root va pa perm m = throw .overlap) := by
  have hg := P.granule_pos
  have hlt : va < 2 ^ 48 := by omega
  rw [UserSpace.mapRange_page ⟨root⟩ pa fa m perm hva hlo hhi]
  by_cases hpa : P.granule ∣ pa
  · rw [if_neg (not_not.mpr hpa)]
    by_cases h64 : pa < 2 ^ 64
    · rw [if_pos h64]
      rcases Inv.descend_cases va _ h hs rfl with
        ⟨-, s, fa₁, m₁, live₁, hd, hgr, hnext, hw, htr⟩ | ⟨-, hd⟩ | ⟨-, hd⟩
      · obtain ⟨lvl₁, hinv⟩ := hgr.tree
        rw [hinv.mapPage_eq pa perm.attrs hd hw]
        have hmap := hinv.userMapFrame_eq hva hpa hlo hhi perm
        rw [hw] at hmap
        dsimp only at hmap
        constructor
        · intro fa' m' hok
          by_cases hz : word m₁ s (index P va 3) = 0
          · rw [if_neg (not_not.mpr hz), pure_inj, Prod.mk.injEq] at hok
            obtain ⟨rfl, rfl⟩ := hok
            refine ⟨missing P m root va, m₁, hnext, rfl,
              Inv.installAll_of_descend va _ h hs rfl hlt hzero hd, ?_⟩
            rw [hmap, if_neg (not_not.mpr hz)]
          · rw [if_pos hz] at hok
            exact absurd hok throw_ne_pure
        · intro hover
          have htaken : translate P m root va ≠ none := by
            rw [← htr, Ne, hinv.translate_eq_none_iff hw]
            intro hz
            rw [if_neg (not_not.mpr hz)] at hover
            exact throw_ne_pure hover.symm
          have hmiss : missing P m root va = 0 := by
            by_contra hne
            exact htaken (translate_of_missing hne)
          obtain ⟨u, hu⟩ := Radix.missing_eq_zero_iff.mp hmiss
          refine ⟨fun f hf => ?_, ?_⟩
          · rw [h.userInstallTable_eq hf hlt, Radix.gap_eq_none_iff.mpr hmiss]
          · rw [h.userMapFrame_eq hva hpa hlo hhi perm, hu]
            exact if_pos fun hz' => htaken ((h.translate_eq_none_iff hu).mpr hz')
      · have heq : UserSpace.mapPage P ⟨root⟩ va pa perm.attrs fa m = throw .outOfFrames := by
          unfold UserSpace.mapPage
          exact congrArg (· >>= _) hd
        rw [heq]
        exact ⟨fun _ _ e => absurd e throw_ne_pure, nofun⟩
      · have heq : UserSpace.mapPage P ⟨root⟩ va pa perm.attrs fa m = none := by
          unfold UserSpace.mapPage
          exact congrArg (· >>= _) hd
        rw [heq]
        exact ⟨nofun, nofun⟩
    · rw [if_neg h64]
      exact ⟨nofun, nofun⟩
  · rw [if_pos hpa]
    exact ⟨fun _ _ e => absurd e throw_ne_pure, nofun⟩

open UserTables in
/-- The hypotheses hold for an empty root table with four cleared frames behind it. The builder
maps a page there, and the walkers do the same. -/
theorem builder_eq_walkers_empty :
    ∃ fa' m' m₁, UserSpace.mapRange .virt ⟨0x1000⟩ 0x1000 0 (Platform.granule .virt) .roUser
        ⟨0x2000, 0x2000, 0x6000⟩ (fun _ => 0) = pure (fa', m') ∧
      installAll .virt 0x1000 0x1000 (nextFrames .virt ⟨0x2000, 0x2000, 0x6000⟩
        (missing .virt (fun _ => 0) 0x1000 0x1000)) (fun _ => 0) = pure m₁ ∧
      userMapFrame .virt 0x1000 0x1000 0 .roUser m₁ = pure m' := by
  have hsome : (toOption (UserSpace.mapRange .virt ⟨0x1000⟩ 0x1000 0 (Platform.granule .virt)
      .roUser ⟨0x2000, 0x2000, 0x6000⟩ (fun _ => 0))).isSome = true := by decide +kernel
  obtain ⟨⟨fa', m'⟩, hx⟩ := Option.isSome_iff_exists.mp hsome
  have hok := toOption_eq_some.mp hx
  have hinv : UserTables.Inv .virt (fun _ => 0) 0x1000 {0x1000} fun _ => 0 :=
    .empty (by decide) (by decide) fun i _ => by simp [word, read64]
  have hsupply : Supply .virt ⟨0x2000, 0x2000, 0x6000⟩ {0x1000} := by
    refine ⟨by decide, by decide, by decide, ?_⟩
    rintro t rfl
    exact .inl (by decide)
  obtain ⟨k, m₁, -, rfl, h1, h2⟩ := (builder_eq_walkers hinv hsupply (fun _ _ _ => rfl)
    (by decide) (by decide) (by decide) 0 .roUser).1 fa' m' hok
  exact ⟨fa', m', m₁, hok, h1, h2⟩

end K0
