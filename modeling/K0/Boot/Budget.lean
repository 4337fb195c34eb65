import K0.Boot.Elf

set_option relaxedAutoImplicit false
set_option autoImplicit false

/-!
# The budget of the boot window

The boot window has two megabytes. Everything that the boot takes from it fits, for every root task
that the build accepts: the bootinfo page, the image, the stack and the tables, wherever the image
lies. The frames are handed out one run after the other, so no two of them meet.

## Main definitions

* `K0.Handed`: the runs of frames that a sequence of allocations hands out.

## Main results

* `K0.Handed.spec`: such runs are aligned, apart and inside the window.
* `K0.spawnRoot_handed`: loading only takes frames by such a sequence.
* `K0.mapKernelWindow_first`: the first frame of a mapped window.
* `K0.boot_window_suffices`: the boot never runs out of frames.
-/

namespace K0

open Word Memory Outcome

/-- A sequence of successful allocations, with the runs of frames that it hands out. -/
inductive Handed (P : Platform) : FrameAlloc → List Span → FrameAlloc → Prop
  | nil (fa : FrameAlloc) : Handed P fa [] fa
  | cons {fa fa' fa'' : FrameAlloc} {n f : ℕ} {m m' : Mem} {runs : List Span}
      (h : fa.allocContig P n m = pure (f, fa', m')) (ht : Handed P fa' runs fa'') :
      Handed P fa (⟨f, f + n * P.granule⟩ :: runs) fa''

/-- A run of frames inside a range. -/
structure RunIn (P : Platform) (lo hi : ℕ) (r : Span) : Prop where
  start_aligned : P.granule ∣ r.start
  stop_aligned : P.granule ∣ r.stop
  lo_le : lo ≤ r.start
  lt : r.start < r.stop
  le_hi : r.stop ≤ hi

section Handed

variable {P : Platform} {fa fa' fa'' : FrameAlloc} {m m' : Mem} {runs runs' : List Span}

/-- What a successful allocation returns. -/
lemma FrameAlloc.allocContig_eq_pure {n f : ℕ} (h : fa.allocContig P n m = pure (f, fa', m')) :
    f = fa.next ∧ fa' = { fa with next := fa.next + n * P.granule } ∧ 0 < n * P.granule ∧
      fa.next + n * P.granule ≤ fa.stop := by
  unfold FrameAlloc.allocContig at h
  obtain ⟨len, hlen, h⟩ := bind_eq_pure.mp h
  obtain ⟨-, rfl⟩ := checkedMul_eq_some.mp (orError_eq_pure.mp hlen)
  by_cases hz : n * P.granule = 0
  · rw [if_pos hz] at h
    exact absurd h throw_ne_pure
  rw [if_neg hz] at h
  obtain ⟨stop, hstop, h⟩ := bind_eq_pure.mp h
  obtain ⟨-, rfl⟩ := checkedAdd_eq_some.mp (orError_eq_pure.mp hstop)
  by_cases hfit : fa.next + n * P.granule > fa.stop
  · rw [if_pos hfit] at h
    exact absurd h throw_ne_pure
  rw [if_neg hfit] at h
  obtain ⟨kva, -, h⟩ := bind_eq_pure.mp h
  obtain ⟨rfl, hrest⟩ := Prod.mk.inj (pure_inj.mp h)
  obtain ⟨rfl, -⟩ := Prod.mk.inj hrest
  exact ⟨rfl, rfl, by omega, by omega⟩

/-- One sequence after the other. -/
lemma Handed.append (h : Handed P fa runs fa') (h' : Handed P fa' runs' fa'') :
    Handed P fa (runs ++ runs') fa'' := by
  induction h with
  | nil fa => exact h'
  | cons ha _ ih => exact .cons ha (ih h')

/-- A single frame. -/
lemma Handed.alloc {f : ℕ} (h : fa.alloc P m = pure (f, fa', m')) :
    Handed P fa [⟨f, f + 1 * P.granule⟩] fa' :=
  .cons h (.nil _)

/-- **The runs of a sequence of allocations** are aligned, lie between the old and the new mark of
the allocator, inside its window, and come in ascending order without meeting.

**Proof sketch.** Induction on the sequence: the first run starts at the old mark and the others
start at the mark behind it. -/
theorem Handed.spec (h : Handed P fa runs fa') (ha : P.granule ∣ fa.next)
    (hle : fa.next ≤ fa.stop) :
    fa'.start = fa.start ∧ fa'.stop = fa.stop ∧ P.granule ∣ fa'.next ∧ fa.next ≤ fa'.next ∧
      fa'.next ≤ fa.stop ∧ (∀ r ∈ runs, RunIn P fa.next fa'.next r) ∧
      runs.Pairwise fun r s => r.stop ≤ s.start := by
  induction h with
  | nil fa => exact ⟨rfl, rfl, ha, le_rfl, hle, nofun, .nil⟩
  | @cons fa _ _ n _ _ _ _ halloc _ ih =>
    obtain ⟨rfl, rfl, hpos, hfit⟩ := FrameAlloc.allocContig_eq_pure halloc
    have ha' : P.granule ∣ fa.next + n * P.granule := Nat.dvd_add ha (Dvd.intro_left _ rfl)
    obtain ⟨h1, h2, h3, h4, h5, h6, h7⟩ := ih ha' hfit
    dsimp only at h1 h2 h4 h5 h6
    refine ⟨h1, h2, h3, by omega, h5, List.forall_mem_cons.mpr ⟨?_, fun r hr => ?_⟩, ?_⟩
    · exact ⟨ha, ha', le_rfl, by dsimp only; omega, h4⟩
    · have hr := h6 r hr
      exact { hr with lo_le := by have := hr.lo_le; omega }
    · exact List.pairwise_cons.mpr ⟨fun r hr => (h6 r hr).lo_le, h7⟩

/-! ### The allocations of loading -/

/-- The descent of the builder. -/
lemma descend_handed {va : ℕ} {levels : List ℕ} : ∀ {t s : ℕ} {fa : FrameAlloc} {m : Mem},
    UserSpace.descend P va levels t fa m = pure (s, fa', m') → ∃ runs, Handed P fa runs fa' := by
  induction levels with
  | nil =>
    intro t s fa m h
    obtain ⟨-, h⟩ := Prod.mk.inj (pure_inj.mp h)
    obtain ⟨rfl, -⟩ := Prod.mk.inj h
    exact ⟨[], .nil _⟩
  | cons level rest ih =>
    intro t s fa m h
    obtain ⟨p, -, h⟩ := bind_eq_pure.mp h
    dsimp only at h
    by_cases hz : read64 m (physOf p) = 0
    · rw [if_pos hz] at h
      obtain ⟨⟨child, fa₁, m₁⟩, halloc, h⟩ := bind_eq_pure.mp h
      obtain ⟨runs, hruns⟩ := ih h
      exact ⟨_, (Handed.alloc halloc).append hruns⟩
    · rw [if_neg hz] at h
      by_cases hbits : read64 m (physOf p) &&& 0b11 = descTable
      · rw [if_pos hbits] at h
        exact ih h
      · rw [if_neg hbits] at h
        exact absurd h throw_ne_pure

/-- One page. -/
lemma mapPage_handed {us : UserSpace} {va pa attrs : ℕ}
    (h : us.mapPage P va pa attrs fa m = pure (fa', m')) : ∃ runs, Handed P fa runs fa' := by
  obtain ⟨⟨t, fa₁, m₁⟩, hdesc, h⟩ := bind_eq_pure.mp h
  obtain ⟨p, -, h⟩ := bind_eq_pure.mp h
  by_cases hz : read64 m₁ (physOf p) ≠ 0
  · rw [if_pos hz] at h
    exact absurd h throw_ne_pure
  · rw [if_neg hz] at h
    obtain ⟨rfl, -⟩ := Prod.mk.inj (pure_inj.mp h)
    exact descend_handed hdesc

/-- The loop over the pages of a range. -/
lemma mapPages_handed {us : UserSpace} {va pa attrs n : ℕ} :
    ∀ {off : ℕ} {fa : FrameAlloc} {m : Mem},
    us.mapPages P va pa attrs n off fa m = pure (fa', m') → ∃ runs, Handed P fa runs fa' := by
  induction n with
  | zero =>
    intro off fa m h
    obtain ⟨rfl, -⟩ := Prod.mk.inj (pure_inj.mp h)
    exact ⟨[], .nil _⟩
  | succ n ih =>
    intro off fa m h
    obtain ⟨v, -, h⟩ := bind_eq_pure.mp h
    obtain ⟨a, -, h⟩ := bind_eq_pure.mp h
    obtain ⟨⟨fa₁, m₁⟩, hpage, h⟩ := bind_eq_pure.mp h
    obtain ⟨runs, hruns⟩ := mapPage_handed hpage
    obtain ⟨runs', hruns'⟩ := ih h
    exact ⟨_, hruns.append hruns'⟩

/-- A range. -/
lemma mapRange_handed {us : UserSpace} {va pa len : ℕ} {perm : UserPerm}
    (h : us.mapRange P va pa len perm fa m = pure (fa', m')) : ∃ runs, Handed P fa runs fa' := by
  unfold UserSpace.mapRange at h
  by_cases hbad : va % P.granule ≠ 0 ∨ pa % P.granule ≠ 0 ∨ len % P.granule ≠ 0 ∨ len = 0
  · rw [if_pos hbad] at h
    exact absurd h throw_ne_pure
  rw [if_neg hbad] at h
  by_cases hnull : va < P.granule
  · rw [if_pos hnull] at h
    exact absurd h throw_ne_pure
  rw [if_neg hnull] at h
  obtain ⟨stop, -, h⟩ := bind_eq_pure.mp h
  by_cases hstop : stop > 2 ^ 48
  · rw [if_pos hstop] at h
    exact absurd h throw_ne_pure
  rw [if_neg hstop] at h
  exact mapPages_handed h

/-- The loop over the segments. -/
lemma mapSegs_handed {us : UserSpace} {base imageEnd frames entry : ℕ} {segs : List LoadSeg} :
    ∀ {fa : FrameAlloc} {m : Mem}, mapSegs P us base imageEnd frames entry segs fa m =
      pure (fa', m') → ∃ runs, Handed P fa runs fa' := by
  induction segs with
  | nil =>
    intro fa m h
    obtain ⟨rfl, -⟩ := Prod.mk.inj (pure_inj.mp h)
    exact ⟨[], .nil _⟩
  | cons s rest ih =>
    intro fa m h
    obtain ⟨segEnd, -, h⟩ := bind_eq_pure.mp h
    by_cases hbad : s.va < base ∨ segEnd > imageEnd ∨ s.va % P.granule ≠ 0 ∨ s.memsz = 0
    · rw [if_pos hbad] at h
      exact absurd h throw_ne_pure
    rw [if_neg hbad] at h
    obtain ⟨pa, -, h⟩ := bind_eq_pure.mp h
    obtain ⟨⟨fa₁, m₁⟩, hrange, h⟩ := bind_eq_pure.mp h
    dsimp only at h
    by_cases hentry : s.va ≤ entry ∧ entry < segEnd ∧ s.kind ≠ .text
    · rw [if_pos hentry] at h
      exact absurd h throw_ne_pure
    rw [if_neg hentry] at h
    obtain ⟨runs, hruns⟩ := mapRange_handed (mapError_eq_pure.mp hrange)
    obtain ⟨runs', hruns'⟩ := ih h
    exact ⟨_, hruns.append hruns'⟩

/-- **Loading takes its frames by a sequence of allocations**, of which the image is the first and
the root table the second. -/
theorem spawnRoot_handed {rootTcb bootinfoPa root : ℕ} {rt : RootTask} {s s' : Tasks}
    (h : spawnRoot P rootTcb rt bootinfoPa fa m s = pure (root, fa', m', s')) :
    ∃ image runs, Handed P fa
      (⟨image, image + rt.image.length / P.granule * P.granule⟩ ::
        ⟨root, root + 1 * P.granule⟩ :: runs) fa' := by
  unfold spawnRoot at h
  dsimp only at h
  by_cases hbad : rt.base % P.granule ≠ 0 ∨ rt.image.length % P.granule ≠ 0 ∨
      rt.image.length = 0 ∨ rt.segments = []
  · rw [if_pos hbad] at h
    exact absurd h throw_ne_pure
  rw [if_neg hbad] at h
  obtain ⟨imageEnd, -, h⟩ := bind_eq_pure.mp h
  obtain ⟨⟨frames, fa₁, m₁⟩, himage, h⟩ := bind_eq_pure.mp h
  obtain ⟨kva, -, h⟩ := bind_eq_pure.mp h
  obtain ⟨_, -, h⟩ := bind_eq_pure.mp h
  obtain ⟨⟨us, fa₂, m₂⟩, hroot, h⟩ := bind_eq_pure.mp h
  obtain ⟨⟨fa₃, m₃⟩, hsegs, h⟩ := bind_eq_pure.mp h
  dsimp only at h
  by_cases hentry : ¬ (rt.base ≤ rt.entry ∧ rt.entry < imageEnd)
  · rw [if_pos hentry] at h
    exact absurd h throw_ne_pure
  rw [if_neg hentry] at h
  obtain ⟨⟨stack, fa₄, m₄⟩, hstack, h⟩ := bind_eq_pure.mp h
  obtain ⟨⟨fa₅, m₅⟩, hrange, h⟩ := bind_eq_pure.mp h
  obtain ⟨⟨fa₆, m₆⟩, hinfo, h⟩ := bind_eq_pure.mp h
  obtain ⟨rfl, hrest⟩ := Prod.mk.inj (pure_inj.mp h)
  obtain ⟨rfl, -⟩ := Prod.mk.inj hrest
  obtain ⟨⟨r, fa₂', m₂'⟩, hnew, hspace⟩ := bind_eq_pure.mp (mapError_eq_pure.mp hroot)
  obtain ⟨rfl, hrest'⟩ := Prod.mk.inj (pure_inj.mp hspace)
  obtain ⟨rfl, -⟩ := Prod.mk.inj hrest'
  obtain ⟨runs, hruns⟩ := mapSegs_handed hsegs
  obtain ⟨runs', hruns'⟩ := mapRange_handed (mapError_eq_pure.mp hrange)
  obtain ⟨runs'', hruns''⟩ := mapRange_handed (mapError_eq_pure.mp hinfo)
  exact ⟨frames, _, .cons (mapError_eq_pure.mp himage) (.cons hnew (hruns.append
    (.cons (mapError_eq_pure.mp hstack) (hruns'.append hruns''))))⟩

end Handed

/-! ### The budget -/

/-- The bootinfo page and a root task of the build fit in the window. -/
lemma granule_add_loadSize_le {P : Platform} {rt : RootTask} (h : rt.Laid) :
    P.granule + loadSize P rt ≤ windowSize := by
  have hlen := h.len_le
  have hsegs : rt.segments.length * 6 * P.granule ≤ 4 * 6 * P.granule :=
    Nat.mul_le_mul_right _ (Nat.mul_le_mul_right _ h.few)
  have hmax : P.granule + (maxFlatSize + P.granule + 4 * 6 * P.granule + userStackSize +
      9 * P.granule) ≤ windowSize := by cases P <;> decide
  unfold loadSize
  omega

/-- The first frame of a window that the kernel has mapped is there, with the rest of the window
behind it. -/
lemma mapKernelWindow_first {P : Platform} {B : PoolBase P} {p q : Pool} {window : Span}
    (hsize : window.stop = window.start + windowSize)
    (hmap : mapKernelWindow B window p = some (.ok (), q)) (m : Mem) :
    FrameAlloc.new P window = .ok ⟨window.start, window.start, window.stop⟩ ∧
      FrameAlloc.alloc P ⟨window.start, window.start, window.stop⟩ m =
        pure (window.start, ⟨window.start, window.start + P.granule, window.stop⟩,
          clear m window.start P.granule) ∧
      P.granule ∣ window.start ∧ window.start + P.granule ≤ window.stop ∧
      window.stop ≤ 2 ^ 48 := by
  obtain ⟨hlt, hs, ht, hstop⟩ := mapKernelWindow_bounds hmap
  have hgw : P.granule ≤ windowSize := by cases P <;> decide
  have hbad : ¬ (window.start % P.granule ≠ 0 ∨ window.stop % P.granule ≠ 0 ∨
      window.stop ≤ window.start) := by
    rw [Nat.mod_eq_zero_of_dvd hs, Nat.mod_eq_zero_of_dvd ht]
    omega
  refine ⟨if_neg hbad, ?_, hs, by omega, hstop⟩
  rcases @FrameAlloc.allocContig_cases P ⟨window.start, window.start, window.stop⟩ m 1
    Nat.one_pos hs (by dsimp only; omega) with ⟨-, -, hbi⟩ | ⟨hshort, -⟩ | ⟨hwide, -⟩
  · rw [Nat.one_mul] at hbi
    exact hbi
  · dsimp only at hshort
    omega
  · dsimp only at hwide
    omega

/-- **The boot window suffices.** For every ELF file that the build accepts, both granules and
every window of the window size that the kernel has mapped: the bootinfo page and the root task
are loaded without running out of frames and without a panic. Whatever frames are handed out on the
way are aligned, inside the window and pairwise apart; and a root task that was loaded has taken
its frames that way, from the bootinfo page on. -/
theorem boot_window_suffices {P : Platform} {elf : List UInt8} {rt : RootTask} {B : PoolBase P}
    {p q : Pool} {window : Span} (helf : Elf.flatten elf = some rt)
    (hsize : window.stop = window.start + windowSize)
    (hmap : mapKernelWindow B window p = some (.ok (), q)) (m : Mem) (rootTcb : ℕ)
    (tasks : Tasks) :
    ∃ fa bi fa₁ m₁, FrameAlloc.new P window = .ok fa ∧ fa.alloc P m = pure (bi, fa₁, m₁) ∧
      spawnRoot P rootTcb rt bi fa₁ m₁ tasks ≠ throw (.mmu .outOfFrames) ∧
      spawnRoot P rootTcb rt bi fa₁ m₁ tasks ≠ none ∧
      (∀ runs fa', Handed P fa runs fa' → (∀ r ∈ runs, RunIn P window.start window.stop r) ∧
        runs.Pairwise fun r s => r.stop ≤ s.start) ∧
      ∀ root fa' m' tasks',
        spawnRoot P rootTcb rt bi fa₁ m₁ tasks = pure (root, fa', m', tasks') →
        ∃ image runs, Handed P fa (⟨bi, bi + 1 * P.granule⟩ ::
          ⟨image, image + rt.image.length / P.granule * P.granule⟩ ::
          ⟨root, root + 1 * P.granule⟩ :: runs) fa' := by
  obtain ⟨segs, hflat⟩ := Elf.flatten_eq_some helf
  have hbudget := granule_add_loadSize_le (P := P) hflat.laid
  obtain ⟨hfa, hbi, hs, hfirst, hstop⟩ := mapKernelWindow_first hsize hmap m
  refine ⟨_, _, _, _, hfa, hbi, ?_⟩
  have hinside : ∀ runs fa', Handed P ⟨window.start, window.start, window.stop⟩ runs fa' →
      (∀ r ∈ runs, RunIn P window.start window.stop r) ∧
      runs.Pairwise fun r s => r.stop ≤ s.start := by
    intro runs fa' hruns
    obtain ⟨-, -, -, -, hend, hin, hpair⟩ := hruns.spec hs (by dsimp only; omega)
    exact ⟨fun r hr => { hin r hr with le_hi := (hin r hr).le_hi.trans hend }, hpair⟩
  have hhanded : ∀ root fa' m' tasks', spawnRoot P rootTcb rt window.start
      ⟨window.start, window.start + P.granule, window.stop⟩ (clear m window.start P.granule)
      tasks = pure (root, fa', m', tasks') →
      ∃ image runs, Handed P ⟨window.start, window.start, window.stop⟩
        (⟨window.start, window.start + 1 * P.granule⟩ ::
          ⟨image, image + rt.image.length / P.granule * P.granule⟩ ::
          ⟨root, root + 1 * P.granule⟩ :: runs) fa' := by
    intro root fa' m' tasks' e
    obtain ⟨image, runs, hruns⟩ := spawnRoot_handed e
    exact ⟨image, runs, .cons hbi hruns⟩
  rcases @spawnRoot_cases P rt ⟨window.start, window.start + P.granule, window.stop⟩
    (clear m window.start P.granule) hflat.laid (Nat.dvd_add hs dvd_rfl) hstop
    _ hs (hfirst.trans hstop) rootTcb tasks with ⟨fa', m', root, stack, heq, -⟩ |
    ⟨-, e, he, heq⟩ | ⟨hshort, -⟩
  · refine ⟨?_, ?_, hinside, hhanded⟩
    · rw [heq]
      exact nofun
    · rw [heq]
      exact nofun
  · refine ⟨?_, ?_, hinside, hhanded⟩
    · rw [heq]
      intro e'
      injection e' with e'
      injection e' with e'
      injection e' with e'
      exact he e'
    · rw [heq]
      exact nofun
  · dsimp only at hshort
    omega

/-- The hypotheses hold in the boot of the small image. -/
theorem boot_window_suffices_smallElf :
    ∃ (b : Stages smallImage smallMachine) (fa : FrameAlloc) (bi : ℕ) (fa₁ : FrameAlloc) (m₁ : Mem),
      Elf.flatten smallElf = some smallImage.rootTask ∧
      b.window.stop = b.window.start + windowSize ∧ FrameAlloc.new .apple b.window = .ok fa ∧
      fa.alloc .apple smallMachine.mem = pure (bi, fa₁, m₁) ∧
      spawnRoot .apple smallImage.rootTcb smallImage.rootTask bi fa₁ m₁
        (smallMachine.tasks smallImage) ≠ throw (.mmu .outOfFrames) := by
  obtain ⟨k, hk⟩ := boot_smallMachine
  obtain ⟨b, -⟩ := boot_eq_some hk
  have hsize : b.window.stop = b.window.start + windowSize := (pickWindow_ok b.window_eq).size
  obtain ⟨fa, bi, fa₁, m₁, hfa, hbi, hne, -⟩ := boot_window_suffices flatten_smallElf hsize
    b.pool_eq smallMachine.mem smallImage.rootTcb (smallMachine.tasks smallImage)
  exact ⟨b, fa, bi, fa₁, m₁, flatten_smallElf, hsize, hfa, hbi, hne⟩

end K0
