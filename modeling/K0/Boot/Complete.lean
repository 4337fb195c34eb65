import K0.Boot.Budget
import K0.Boot.Memory
import K0.Boot.Space

set_option relaxedAutoImplicit false
set_option autoImplicit false

/-!
# When the boot reaches the handoff

Once the memory map is settled and the boot window is mapped, little can still stop the boot of a
root task that the build accepts. The build does not look at where the image is linked, and the
parser does not look for overlapping banks of memory; these are the two conditions that are left,
besides the answer of the processor to the last check.

## Main definitions

* `K0.LoadSeg.Loadable`: a segment in the user space, apart from the stack and the bootinfo page.

## Main results

* `K0.spawnRoot_eq_pure_iff`: loading succeeds exactly if every segment is loadable.
* `K0.bootstrap_eq_ok_iff`: the bootstrap succeeds exactly if the banks of memory are apart.
* `K0.boot_completes_iff`: the boot reaches the handoff exactly if both hold.
-/

namespace K0

open Word Memory Outcome UserTables

/-! ### The place of a segment -/

/-- A segment in the user space, apart from the stack and the bootinfo page. -/
structure LoadSeg.Loadable (P : Platform) (s : LoadSeg) : Prop where
  fits : s.Fits P
  stack : s.va + s.memsz ≤ userStackTop - userStackSize ∨ userStackTop ≤ s.va
  bootinfo : s.va + s.memsz ≤ Abi.bootinfoVa ∨ Abi.bootinfoVa + P.granule ≤ s.va

section Place

variable {P : Platform} {s t : LoadSeg}

/-- Two aligned segments share a page exactly if their ranges meet. -/
lemma LoadSeg.covers_both_iff (hs : P.granule ∣ s.va) (ht : P.granule ∣ t.va) (hs' : 0 < s.memsz)
    (ht' : 0 < t.memsz) :
    (∃ k, s.Covers P k ∧ t.Covers P k) ↔ s.va < t.va + t.memsz ∧ t.va < s.va + s.memsz := by
  unfold Covers
  constructor
  · rintro ⟨k, ⟨h1, h2⟩, h3, h4⟩
    omega
  · rintro ⟨h1, h2⟩
    -- the first page of the segment that starts later
    rcases Nat.le_total s.va t.va with hle | hle
    · obtain ⟨k, hk⟩ := ht
      rw [Nat.mul_comm] at hk
      exact ⟨k, by omega, by omega⟩
    · obtain ⟨k, hk⟩ := hs
      rw [Nat.mul_comm] at hk
      exact ⟨k, by omega, by omega⟩

/-- A segment is loadable exactly if it fits and shares no page with the stack and the bootinfo
page. -/
lemma LoadSeg.loadable_iff (hs : P.granule ∣ s.va) (hs' : 0 < s.memsz) :
    s.Loadable P ↔
      s.Fits P ∧ ∀ k, s.Covers P k → ¬ (stackSeg.Covers P k ∨ (bootinfoSeg P).Covers P k) := by
  have hstack : stackSeg.va + stackSeg.memsz = userStackTop := by decide
  have hstack' : stackSeg.va = userStackTop - userStackSize := rfl
  have hinfo : (bootinfoSeg P).va = Abi.bootinfoVa := rfl
  have hinfo' : (bootinfoSeg P).memsz = P.granule := rfl
  have h1 := covers_both_iff (t := stackSeg) hs (by cases P <;> decide) hs' (by decide)
  have h2 := covers_both_iff (t := bootinfoSeg P) hs (by cases P <;> decide) hs' P.granule_pos
  constructor
  · rintro ⟨hfit, hst, hbi⟩
    refine ⟨hfit, fun k hk hcov => ?_⟩
    rcases hcov with hcov | hcov
    · have := h1.mp ⟨k, hk, hcov⟩
      omega
    · have := h2.mp ⟨k, hk, hcov⟩
      omega
  · rintro ⟨hfit, hfree⟩
    have hn1 : ¬ (s.va < stackSeg.va + stackSeg.memsz ∧ stackSeg.va < s.va + s.memsz) :=
      fun e => (h1.mpr e).elim fun k hk => hfree k hk.1 (.inl hk.2)
    have hn2 : ¬ (s.va < (bootinfoSeg P).va + (bootinfoSeg P).memsz ∧
        (bootinfoSeg P).va < s.va + s.memsz) :=
      fun e => (h2.mpr e).elim fun k hk => hfree k hk.1 (.inr hk.2)
    exact ⟨hfit, by omega, by omega⟩

end Place

/-! ### Loading -/

section Load

variable {P : Platform} {rt : RootTask} {fa fa' : FrameAlloc} {m m' : Mem}
  {bootinfoPa root stack : ℕ}

/-- The segments of a root task that was loaded are loadable: a page that a segment shared with the
stack or the bootinfo page would have two frames. -/
lemma Loaded.loadable (h : Loaded P rt bootinfoPa fa fa' m m' root stack) (hrt : rt.Laid)
    (hbi : bootinfoPa + P.granule ≤ fa.next) : ∀ s ∈ rt.segments, s.Loadable P := by
  intro s hs
  have hva := (granule_dvd_segAlign P).trans (hrt.aligned s hs)
  obtain ⟨pm, -, hpm⟩ := h.pages
  have hroot := h.root_eq
  have hge := h.stack_ge
  have hend := hrt.end_le s hs
  refine (LoadSeg.loadable_iff hva (hrt.memsz_pos s hs)).mpr ⟨h.space s hs, fun k hk hcov => ?_⟩
  have hseg := (hpm k _).mpr (.inl ⟨s, hs, hk.1, hk.2, rfl⟩)
  have hlt := hk.2
  rcases hcov with hcov | hcov
  · have hpage := (hpm k _).mpr (.inr (.inl ⟨hcov.1, hcov.2, rfl⟩))
    have heq := congrArg Prod.fst (Option.some.inj (hseg.symm.trans hpage))
    dsimp only at heq
    have := hrt.base_le s hs
    have := hk.1
    have := P.granule_pos
    omega
  · have hpage := (hpm k _).mpr (.inr (.inr ⟨hcov.1, hcov.2, rfl⟩))
    have heq := congrArg Prod.fst (Option.some.inj (hseg.symm.trans hpage))
    have hsize : (bootinfoSeg P).memsz = P.granule := rfl
    have := hcov.2
    have := P.granule_pos
    dsimp only at heq
    omega

/-- **When loading succeeds.** With enough frames behind the bootinfo page, the root task is loaded
exactly if every segment is loadable. -/
theorem spawnRoot_eq_pure_iff (hrt : rt.Laid) (ha : P.granule ∣ fa.next) (hstop : fa.stop ≤ 2 ^ 48)
    (hbi : P.granule ∣ bootinfoPa) (hbi' : bootinfoPa + P.granule ≤ fa.next)
    (hfit : fa.next + loadSize P rt ≤ fa.stop) (rootTcb : ℕ) (tasks : Tasks) :
    (∃ x, spawnRoot P rootTcb rt bootinfoPa fa m tasks = pure x) ↔
      ∀ s ∈ rt.segments, s.Loadable P := by
  rcases spawnRoot_cases (m := m) hrt ha hstop hbi (by omega) rootTcb tasks with
    ⟨fa', m', root, stack, heq, hload, -⟩ | ⟨⟨s, hs, hclash⟩, e, -, heq⟩ | ⟨hshort, -⟩
  · exact ⟨fun _ => hload.loadable hrt hbi', fun _ => ⟨_, heq⟩⟩
  · rw [heq]
    constructor
    · rintro ⟨x, hx⟩
      exact absurd hx throw_ne_pure
    · intro hall
      have hva := (granule_dvd_segAlign P).trans (hrt.aligned s hs)
      obtain ⟨hfits, hfree⟩ := (LoadSeg.loadable_iff hva (hrt.memsz_pos s hs)).mp (hall s hs)
      rcases hclash with hbad | ⟨k, hk, hcov⟩
      · exact absurd hfits hbad
      · exact absurd hcov (hfree k hk)
  · omega

end Load

/-! ### The bootstrap -/

/-- A nonempty range below `2 ^ 64` is a good reservation. -/
lemma Span.bad_eq_false {s : Span} (hlt : s.start < s.stop) (hstop : s.stop < 2 ^ 64) :
    PhysRegion.bad ⟨s.start, s.stop - s.start⟩ = false :=
  PhysRegion.bad_eq_false.mpr ⟨Nat.sub_pos_of_lt hlt, by dsimp only; omega⟩

/-- **When the bootstrap succeeds.** With what the parser accepts, the bootstrap succeeds exactly
if no two banks of memory overlap. -/
theorem bootstrap_eq_ok_iff {read : ℕ → UInt8} {dtbPhys readOffset : ℕ} {img window : Span}
    {info : BootInfo} (hparse : parse read dtbPhys img readOffset = .ok info)
    (himg : img.start < img.stop ∧ img.stop < 2 ^ 64)
    (hwin : window.start < window.stop ∧ window.stop < 2 ^ 64) (root : ℕ) :
    (∃ c, bootstrap info img window root = some (.ok (), c)) ↔ Apart info.memory := by
  obtain ⟨hok, -, -, hlen, hstop, -⟩ := parse_ok hparse
  constructor
  · rintro ⟨c, hc⟩
    exact (bootstrap_ok hc).2.1
  · intro hapart
    have hres : ∀ r ∈ fixedReserved img info.dtb window ++ info.reserved, r.bad = false := by
      unfold fixedReserved
      simp only [List.cons_append, List.nil_append, List.forall_mem_cons]
      refine ⟨Span.bad_eq_false himg.1 himg.2, Span.bad_eq_false ?_ hstop,
        Span.bad_eq_false hwin.1 hwin.2, fun r hr => PhysRegion.proper_iff.mp (hok.reserved r hr)⟩
      unfold Fdt.headerSize at hlen
      omega
    obtain ⟨c, hc, -⟩ := populate_of_proper root
      (fun r hr => PhysRegion.proper_iff.mp (hok.memory r hr)) hapart hres
      ((hok.slots_le img window).trans (by decide : 23 ≤ cnodeSlots))
    exact ⟨c, by rw [hok.bootstrap_eq, hc]⟩

/-! ### The boot -/

section Boot

variable {P : Platform} {I : Image P} {i : Machine}

/-- The processor has passed the last check of a boot that reaches the handoff. -/
lemma boot_userWxOk {k : Kernel} (h : boot I i = some k) : i.userWxOk = true := by
  unfold boot at h
  obtain ⟨⟨info, window, pool⟩, -, h⟩ := Option.bind_eq_some_iff.mp h
  unfold bootRoot at h
  obtain ⟨_, -, h⟩ := Option.bind_eq_some_iff.mp h
  obtain ⟨_, -, h⟩ := Option.bind_eq_some_iff.mp h
  obtain ⟨_, -, h⟩ := Option.bind_eq_some_iff.mp h
  obtain ⟨_, -, h⟩ := Option.bind_eq_some_iff.mp h
  obtain ⟨_, -, h⟩ := Option.bind_eq_some_iff.mp h
  obtain ⟨_, -, h⟩ := Option.bind_eq_some_iff.mp h
  obtain ⟨_, -, h⟩ := Option.bind_eq_some_iff.mp h
  obtain ⟨_, hwx, -⟩ := Option.bind_eq_some_iff.mp h
  exact (Option.guard_eq_some' _).mp hwx

/-- The kernel image is not empty. -/
lemma Image.span_lt (I : Image P) : I.span.start < I.span.stop ∧ I.span.stop < 2 ^ 64 := by
  have hg := P.granule_pos
  have h1 := I.start_le
  have h2 := I.rodata_le
  have h3 := I.data_le
  have h4 := I.bottom_le
  have h5 := I.top_le
  have h6 := I.fits
  unfold Image.span
  dsimp only
  omega

/-- **When the boot completes.** Once the memory map is settled and the boot window is mapped, the
boot of a root task that the build accepts reaches the handoff exactly if no two banks of memory
overlap, every segment is in the user space and apart from the stack and the bootinfo page, and
the processor refuses user access as the last check demands. Frames, slots, addresses and the
layout of the image never stop it.

**Proof sketch.** The window has room for everything, so loading fails only if a segment is not
loadable (`spawnRoot_eq_pure_iff`), and the bootstrap only on overlapping memory
(`bootstrap_eq_ok_iff`). Conversely, a boot that reaches the handoff has gone through both. -/
theorem boot_completes_iff {elf : List UInt8} (helf : Elf.flatten elf = some I.rootTask)
    {info : BootInfo} {window : Span} {pool : Pool}
    (hmem : bootMemory I i = some (info, window, pool)) :
    (∃ k, boot I i = some k) ↔
      i.userWxOk = true ∧ Apart info.memory ∧ ∀ s ∈ I.rootTask.segments, s.Loadable P := by
  obtain ⟨segs, hflat⟩ := Elf.flatten_eq_some helf
  have hrt := hflat.laid
  obtain ⟨dtb, roots, paged, -, -, hparse, -, hwindow, hpool⟩ := bootMemory_eq_some hmem
  have hsize := (pickWindow_ok hwindow).size
  obtain ⟨hfa, hbi, hs, hfirst, hstop⟩ := mapKernelWindow_first hsize hpool i.mem
  have hg := P.granule_pos
  have hbudget := granule_add_loadSize_le (P := P) hrt
  have hload := @spawnRoot_eq_pure_iff P I.rootTask
    ⟨window.start, window.start + P.granule, window.stop⟩ (clear i.mem window.start P.granule)
    window.start hrt (Nat.dvd_add hs dvd_rfl) hstop hs le_rfl (by dsimp only; omega) I.rootTcb
    (i.tasks I)
  have hwin : window.start < window.stop ∧ window.stop < 2 ^ 64 := by omega
  have hcaps := bootstrap_eq_ok_iff hparse I.span_lt hwin
  have hboot : boot I i = bootRoot I i info window pool := by
    unfold boot
    rw [hmem]
    rfl
  constructor
  · rintro ⟨k, hk⟩
    obtain ⟨b, -⟩ := boot_eq_some hk
    obtain rfl : b.info = info := Except.ok.inj (b.info_eq.symm.trans hparse)
    obtain ⟨stack, hl⟩ := b.loaded hrt
    obtain ⟨-, -, -, hbi', hfa', -⟩ := b.window_spec
    exact ⟨boot_userWxOk hk, (bootstrap_ok b.cnode_eq).2.1,
      hl.loadable hrt (by rw [hbi', hfa'])⟩
  · rintro ⟨hwx, hapart, hloadable⟩
    obtain ⟨⟨userRoot, faRoot, mRoot, tasks⟩, hspawn⟩ := hload.mpr hloadable
    obtain ⟨cnode, hcnode⟩ := (hcaps userRoot).mpr hapart
    have hoff : Abi.kernelVaOffset + 2 ^ 48 = 2 ^ 64 := by decide
    have htext : ∃ s ∈ I.rootTask.segments, s.kind = .text := by
      obtain ⟨s, hs, hk, -⟩ := hrt.entry
      exact ⟨s, hs, hk⟩
    rw [hboot]
    unfold bootRoot writeBootinfo
    rw [hfa]
    simp only [Except.toOption, Option.bind_eq_bind, Option.bind_some, toOption_eq_some.mpr hbi,
      toOption_eq_some.mpr hspawn, accept_eq_some.mpr hcnode, guard, hrt.few, htext, hwx,
      checkedAdd_of_lt (show window.start + Abi.kernelVaOffset < 2 ^ 64 by omega)]
    exact ⟨_, rfl⟩

/-- The boot of the small image reaches the handoff, so its machine and its segment meet the
conditions. -/
theorem boot_completes_iff_smallElf :
    ∃ info window pool, Elf.flatten smallElf = some smallImage.rootTask ∧
      bootMemory smallImage smallMachine = some (info, window, pool) ∧
      (∃ k, boot smallImage smallMachine = some k) ∧ Apart info.memory ∧
      ∀ s ∈ smallImage.rootTask.segments, s.Loadable .apple := by
  obtain ⟨k, hk⟩ := boot_smallMachine
  have hboot := hk
  unfold boot at hboot
  obtain ⟨⟨info, window, pool⟩, hmem, -⟩ := Option.bind_eq_some_iff.mp hboot
  have hiff := boot_completes_iff flatten_smallElf hmem
  obtain ⟨-, hapart, hloadable⟩ := hiff.mp ⟨k, hk⟩
  exact ⟨info, window, pool, flatten_smallElf, hmem, ⟨k, hk⟩, hapart, hloadable⟩

end Boot

end K0
