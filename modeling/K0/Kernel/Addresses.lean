import K0.Kernel.Derive
import K0.Kernel.Walkers

set_option relaxedAutoImplicit false
set_option autoImplicit false

/-!
# Physical addresses and their aliases

The kernel reaches the physical address `p` at `p + KERNEL_VA_OFFSET`, which is a 64-bit address
exactly for `p < 2 ^ 48`, and descriptors hold 48 bits of an address. The device tree is accepted
without a check of this bound. If no granule of untyped memory lies above `2 ^ 48` at the handoff,
which holds if all memory above it is reserved or if there is none, then no address computation of
`RETYPE` and `MAP` overflows and every descriptor gives its address back, in every run. A `RETYPE`
that comes to a granule above the bound panics.

## Main definitions

* `K0.Pool.Readable`, `K0.Kernel.Readable`: masking a descriptor gives its address back.

## Main results

* `K0.mapKernelWindow_ne_none`, `K0.Kernel.sysRetype_eq_none_iff`: when the arithmetic overflows.
* `K0.addresses_fit`: nothing overflows in a run with untyped memory below `2 ^ 48`.
* `K0.retype_panics_farMachine`: a board with memory at `2 ^ 48` on which `RETYPE` panics.
-/

namespace K0

open Word Memory Outcome

/-! ### Aliases -/

/-- A window below `2 ^ 48` has an alias. -/
lemma mapKernelWindow_ne_none {P : Platform} (B : PoolBase P) {window : Span} (p : Pool)
    (hstop : window.stop ≤ 2 ^ 48) : mapKernelWindow B window p ≠ none := by
  have hoff : Abi.kernelVaOffset + 2 ^ 48 = 2 ^ 64 := by decide
  unfold mapKernelWindow
  by_cases hbad : window.stop ≤ window.start ∨ window.start % P.granule ≠ 0 ∨
      window.stop % P.granule ≠ 0
  · rw [if_pos hbad]
    exact nofun
  by_cases hen : p.enabled = false
  · rw [if_neg hbad, if_pos hen]
    exact nofun
  have hlt : window.start < window.stop := by omega
  have hsum : checkedAdd window.start Abi.kernelVaOffset =
      some (window.start + Abi.kernelVaOffset) := checkedAdd_of_lt (by omega)
  rw [if_neg hbad, if_neg hen]
  generalize checkedAdd window.start Abi.kernelVaOffset = o at hsum
  subst hsum
  have hsome : (p.mapRange B p.root1 (window.start + Abi.kernelVaOffset) window.start
      (window.stop - window.start) .rw).isSome = true :=
    Pool.mapRange_isSome (by omega) (by omega)
  intro hnone
  rw [Option.isSome_iff_ne_none] at hsome
  exact hsome hnone

namespace Kernel

variable {P : Platform} {B : PoolBase P} {k : Kernel}

/-- Preparing an aligned granule overflows exactly if it lies at or above `2 ^ 48`. -/
lemma prepGranule_eq_none_iff {pa : ℕ} {w : Pool × Mem × Tasks} (hpa : P.granule ∣ pa)
    (hen : w.1.enabled = true) : prepGranule B pa w = none ↔ 2 ^ 48 ≤ pa := by
  have hoff : Abi.kernelVaOffset + 2 ^ 48 = 2 ^ 64 := by decide
  have hg := P.granule_pos
  constructor
  · intro hnone
    by_contra hlt
    have hfit := add_granule_le hpa P.granule_dvd (Nat.lt_of_not_le hlt)
    have hpage := mapKernelWindow_page (B := B) hpa hen (by omega)
    generalize w.1.mapPage B w.1.root1 (pa + Abi.kernelVaOffset) pa Perm.rw.attrs = o at hpage
    have hsum : checkedAdd pa Abi.kernelVaOffset = some (pa + Abi.kernelVaOffset) :=
      checkedAdd_of_lt (by omega)
    unfold prepGranule at hnone
    rw [checkedAdd_of_lt (show pa + P.granule < 2 ^ 64 by omega)] at hnone
    change (mapKernelWindow B ⟨pa, pa + P.granule⟩ w.1).bind _ = none at hnone
    rw [hpage, Option.bind_some] at hnone
    obtain ⟨r, pool⟩ := o
    cases r with
    | error e => cases hnone
    | ok _ =>
      change (checkedAdd pa Abi.kernelVaOffset).bind _ = none at hnone
      rw [hsum, Option.bind_some] at hnone
      cases hnone
  · intro hge
    unfold prepGranule
    cases hsum : checkedAdd pa P.granule with
    | none => rfl
    | some stop =>
      obtain ⟨-, rfl⟩ := checkedAdd_eq_some.mp hsum
      change (mapKernelWindow B ⟨pa, pa + P.granule⟩ w.1).bind _ = none
      rw [mapKernelWindow_page_eq_none hpa hen (by omega), Option.bind_none]

/-- `RETYPE` panics exactly when it would carve a granule at or above `2 ^ 48`. -/
theorem sysRetype_eq_none_iff (hv : k.cnode.Valid) (hen : k.pool.enabled = true)
    {slot kind : UInt64} :
    sysRetype B k slot kind = none ↔ (objKind kind).isSome = true ∧ k.cnode.used < cnodeSlots ∧
      ∃ base size used, k.cnode.cap slot.toNat = some (.untyped base size used) ∧
        GranuleLeft P.granule base size used ∧ 2 ^ 48 ≤ roundUp P.granule (base + used) := by
  unfold sysRetype
  cases hkind : objKind kind with
  | none =>
    constructor
    · exact nofun
    · rintro ⟨h, -⟩
      cases h
  | some kind' =>
    have hprep : ∀ pa, P.granule ∣ pa →
        (prepGranule B pa (k.pool, k.mem, k.tasks) = none ↔ 2 ^ 48 ≤ pa) :=
      fun pa hpa => prepGranule_eq_none_iff hpa hen
    have hout := CNode.retype_cases P.pageShift_lt hv slot.toNat kind' (prepGranule B)
      (k.pool, k.mem, k.tasks)
    change CNode.RetypeOutcome _ _ _ P.granule _ _ (k.cnode.retype slot.toNat kind' P.granule
      (prepGranule B) (k.pool, k.mem, k.tasks)) at hout
    dsimp only
    generalize k.cnode.retype slot.toNat kind' P.granule (prepGranule B)
      (k.pool, k.mem, k.tasks) = o at hout ⊢
    cases hout with
    | panicked base size used hcap hroom hleft hp =>
      refine iff_of_true rfl ⟨rfl, hroom, base, size, used, hcap, hleft, ?_⟩
      exact (hprep _ (dvd_roundUp _ _)).mp hp
    | badSlot hle =>
      refine iff_of_false nofun ?_
      rintro ⟨-, -, base, size, used, hcap, -⟩
      have := CNode.lt_used_of_cap hcap
      omega
    | notUntyped v hcap hne =>
      refine iff_of_false nofun ?_
      rintro ⟨-, -, base, size, used, hcap', -⟩
      exact hne base size used (Option.some.inj (hcap.symm.trans hcap'))
    | outOfSlots base size used hcap hfull =>
      refine iff_of_false nofun ?_
      rintro ⟨-, hroom, -⟩
      omega
    | exhausted base size used hcap hroom hleft =>
      refine iff_of_false nofun ?_
      rintro ⟨-, -, base', size', used', hcap', hleft', -⟩
      rw [hcap] at hcap'
      cases hcap'
      exact hleft hleft'
    | prepFailed base size used w' hcap hroom hleft hp =>
      refine iff_of_false nofun ?_
      rintro ⟨-, -, base', size', used', hcap', -, hge⟩
      rw [hcap] at hcap'
      cases hcap'
      rw [(hprep _ (dvd_roundUp _ _)).mpr hge] at hp
      cases hp
    | ok base size used w' d hcap hroom hleft hp hd =>
      refine iff_of_false nofun ?_
      rintro ⟨-, -, base', size', used', hcap', -, hge⟩
      rw [hcap] at hcap'
      cases hcap'
      rw [(hprep _ (dvd_roundUp _ _)).mpr hge] at hp
      cases hp

end Kernel

/-! ### Descriptors -/

section Tables

open UserTables

/-- A descriptor that carries the address `a`: masking gives it back, and the page or table at `a`
ends within 48 bits. -/
def Carries (P : Platform) (w a : ℕ) : Prop :=
  w &&& P.addrMask = a ∧ P.granule ∣ a ∧ a + P.granule ≤ 2 ^ 48

/-- An address with the attributes of a descriptor. -/
lemma carries_of_or {P : Platform} {a w : ℕ} (ha : P.granule ∣ a) (hlt : a < 2 ^ 48)
    (hw : w &&& P.addrMask = 0) : Carries P (a ||| w) a :=
  ⟨desc_and_addrMask ha hlt hw, ha, add_granule_le ha P.granule_dvd hlt⟩

/-- Every entry of the kernel tables is empty, the descriptor of a table of the pool, or that of a
page, and carries the address that was written. -/
def Pool.Readable {P : Platform} (B : PoolBase P) (p : Pool) : Prop :=
  ∀ t i, p.tables t i = 0 ∨ (∃ s < p.used, p.tables t i = B.pa s ||| descTable ∧
    Carries P (p.tables t i) (B.pa s)) ∨
    ∃ pa perm, p.tables t i = pa ||| Perm.attrs perm ∧ Carries P (p.tables t i) pa

/-- Every entry of the user tables that the MMU can reach is empty, the descriptor of a table that
it can reach, or that of a page, and carries the address that was written. -/
def Kernel.Readable (P : Platform) (k : Kernel) (root : ℕ) : Prop :=
  ∀ n t i, LevelTable P k.mem root n t → i < P.entries → read64 k.mem (t + i * 8) = 0 ∨
    (∃ s, LevelTable P k.mem root (n + 1) s ∧ read64 k.mem (t + i * 8) = s ||| descTable ∧
      Carries P (read64 k.mem (t + i * 8)) s) ∨
    ∃ pa perm, read64 k.mem (t + i * 8) = pa ||| UserPerm.attrs perm ∧
      Carries P (read64 k.mem (t + i * 8)) pa

/-- Kernel tables in order are readable. -/
lemma Pool.Inv.readable {P : Platform} {B : PoolBase P} {p : Pool} {lvl : ℕ → ℕ}
    (h : p.Inv B lvl) : p.Readable B := by
  intro t i
  by_cases hz : p.tables t i = 0
  · exact .inl hz
  right
  by_cases ht : p.used ≤ t
  · exact absurd (h.free t i ht) hz
  by_cases hl : lvl t = 3
  · obtain ⟨pa, perm, ha, hlt, he⟩ := h.page t i (by omega) hl hz
    rw [he]
    exact .inr ⟨pa, perm, rfl, carries_of_or ha hlt (by cases perm <;> cases P <;> decide)⟩
  · have hle := h.lvl_le t (by omega)
    obtain ⟨s, hs, he⟩ := h.desc t i (by omega) (by omega) hz
    rw [he]
    have hused := h.used_le
    exact .inl ⟨s, hs, rfl,
      carries_of_or (B.pa_aligned s) (B.pa_lt (by omega)) (by cases P <;> decide)⟩

/-- User tables that form a tree are readable. -/
lemma UserTables.Inv.readable {P : Platform} {k : Kernel} {root : ℕ} {live : Set ℕ} {lvl : ℕ → ℕ}
    (h : UserTables.Inv P k.mem root live lvl) : k.Readable P root := by
  intro n t i ht hi
  by_cases hz : read64 k.mem (t + i * 8) = 0
  · exact .inl hz
  right
  obtain ⟨hlive, rfl⟩ := h.levelTable_iff.mp ht
  have hg := P.granule_pos
  by_cases hl : lvl t = 3
  · obtain ⟨pa, perm, ha, hlt, he⟩ := h.page t hlive i hi hl hz
    have hread : read64 k.mem (t + i * 8) = pa ||| perm.attrs := he
    rw [hread]
    exact .inr ⟨pa, perm, rfl, carries_of_or ha hlt perm.attrs_spec.2.1⟩
  · have hle := h.lvl_le t hlive
    obtain ⟨s, hs, he, hc⟩ := h.child_eq_some hlive (by omega) hi hz
    have hread : read64 k.mem (t + i * 8) = s ||| descTable := he
    have hlvl := (h.forest.child_lvl hlive (by omega) hc).2
    have hfits := h.fits s hs
    rw [hread]
    exact .inl ⟨s, h.levelTable_iff.mpr ⟨hs, hlvl⟩, rfl,
      carries_of_or (h.aligned s hs) (by omega) (by cases P <;> decide)⟩

/-! ### Runs -/

/-- **Addresses fit.** The boot window has an alias. If at the handoff every whole granule of
untyped memory that is left ends at or below `2 ^ 48`, then in every state that a run reaches
neither `RETYPE` nor `MAP` panics, every object and the next granule of every untyped have an alias
that ends within 64 bits, and every descriptor in the kernel and user tables gives back the address
that was written.

**Proof sketch.** Untyped memory of a later state is untyped memory of the handoff with a higher
watermark. The tables are trees, in which entries are descriptors of aligned addresses below
`2 ^ 48`. -/
theorem addresses_fit {P : Platform} {I : Image P} {i : Machine} {k₀ k : Kernel} {elf : List UInt8}
    (helf : Elf.flatten elf = some I.rootTask) (hboot : boot I i = some k₀)
    (hram : ∀ j base size used, k₀.cnode.cap j = some (.untyped base size used) →
      ∀ p, P.granule ∣ p → base + used ≤ p → p + P.granule ≤ base + size → p + P.granule ≤ 2 ^ 48)
    (hr : k₀.Reaches I.pool k) :
    (∀ info window p, parse (fun va => i.mem (physOf va)) i.dtbPhys I.span Abi.kernelVaOffset =
        .ok info → pickWindow P info I.span = some window →
      mapKernelWindow I.pool window p ≠ none) ∧
    (∀ slot kind, Kernel.sysRetype I.pool k slot kind ≠ none) ∧
    (∀ slot va perm aspace, Kernel.sysMap P k slot va perm aspace ≠ none) ∧
    (∀ j v p, k.cnode.cap j = some v → v.object? = some p →
      p + P.granule + Abi.kernelVaOffset ≤ 2 ^ 64) ∧
    (∀ j base size used, k.cnode.cap j = some (.untyped base size used) →
      GranuleLeft P.granule base size used →
      roundUp P.granule (base + used) + P.granule + Abi.kernelVaOffset ≤ 2 ^ 64) ∧
    k.pool.Readable I.pool ∧ k.Readable P k.tasks.currentUserRoot := by
  obtain ⟨segs, hflat⟩ := Elf.flatten_eq_some helf
  obtain ⟨b, stack, s, live, lvl, pm, hk, hload, hsim, h⟩ :=
    Kernel.paged_of_reaches hflat.laid hboot hr
  obtain ⟨b', s', hi, hk', hsim', hmap⟩ := Kernel.mapped_of_reaches hboot hr
  have hoff : Abi.kernelVaOffset + 2 ^ 48 = 2 ^ 64 := by decide
  have hacc : Kernel.Accounted b k := hsim.accounts
  have hroot := h.tree.aligned _ h.tree.root_live
  have hfits := h.tree.fits _ h.tree.root_live
  have hcur := Kernel.currentUserRoot_eq hsim hroot (by have := P.granule_pos; omega)
  have hnext : ∀ j base size used, k.cnode.cap j = some (.untyped base size used) →
      GranuleLeft P.granule base size used →
      roundUp P.granule (base + used) + P.granule ≤ 2 ^ 48 := by
    intro j base size used hcap hleft
    obtain ⟨used₀, hle, hcap₀⟩ := (Kernel.derives_of_reaches hboot hr).untyped hcap
    have hge : base + used ≤ roundUp P.granule (base + used) := le_roundUp P.granule_pos
    exact hram j base size used₀ hcap₀ _ (dvd_roundUp _ _) (by omega)
      ((granuleLeft_iff P.granule_pos).mp hleft)
  refine ⟨?_, ?_, Kernel.sysMap_ne_none h.tree hacc, ?_, ?_, ?_, hcur ▸ h.tree.readable⟩
  · intro info window p hinfo hwin
    obtain ⟨-, -, hstop, -⟩ := b.window_spec
    obtain rfl : b.info = info := Except.ok.inj (b.info_eq.symm.trans hinfo)
    obtain rfl : b.window = window := Option.some.inj (b.window_eq.symm.trans hwin)
    exact mapKernelWindow_ne_none _ _ hstop
  · intro slot kind hnone
    obtain ⟨-, -, base, size, used, hcap, hleft, hge⟩ :=
      (Kernel.sysRetype_eq_none_iff hacc.ledger.valid hmap.enabled).mp hnone
    have hle := hnext _ base size used hcap hleft
    have hg := P.granule_pos
    omega
  · intro j v p hj hp
    have hle := (hacc.object_frame hj hp).2
    omega
  · intro j base size used hcap hleft
    have hle := hnext j base size used hcap hleft
    omega
  · obtain ⟨lvl', hinv, -⟩ := hmap.linear.rooted
    exact hinv.readable

/-- The hypotheses hold for the small machine at its handoff, where untyped memory lies in one bank
of 1 GiB. -/
theorem addresses_fit_smallMachine :
    ∃ k, boot smallImage smallMachine = some k ∧
      ∀ slot kind, Kernel.sysRetype smallImage.pool k slot kind ≠ none := by
  obtain ⟨k, hk⟩ := boot_smallMachine
  refine ⟨k, hk, (addresses_fit flatten_smallElf hk (fun j base size used hcap p _ _ hp => ?_)
    .refl).2.1⟩
  obtain ⟨b, s, h⟩ := Kernel.sim_of_reaches hk .refl
  obtain ⟨m, hm, -, hm2⟩ := h.accounts.ledger.inside j base size used hcap
  rw [memory_smallMachine b.info_eq] at hm
  rw [List.mem_singleton.mp hm] at hm2
  have hend : (⟨0x800000000, 0x40000000⟩ : PhysRegion).endAddr = 0x840000000 := rfl
  omega

end Tables

/-! ### Memory at `2 ^ 48` -/

section Far

open Fdt

/-- A device tree with a bank of memory at `0x8_0000_0000` and one at `2 ^ 48`. -/
def farBlob : List UInt8 :=
  word 0xd00dfeed ++ word 128 ++ word 56 ++ word 124 ++ word 40 ++ word 17 ++ word 16 ++ word 0 ++
    word 4 ++ word 68 ++ (dword 0 ++ dword 0) ++
    (word 1 ++ word 0 ++ word 1 ++ (ascii "memory" ++ [0, 0]) ++ word 3 ++ word 24 ++ word 0 ++
      (dword 0x800000000 ++ word 0x40000000) ++ (dword 0x1000000000000 ++ word 0x40000000) ++
      word 2 ++ word 2 ++ word 9) ++
    (ascii "reg" ++ [0])

/-- The small machine with that device tree. -/
def farMachine : Machine :=
  { smallMachine with
    mem := fun a => if 0x820000000 ≤ a then farBlob.getD (a - 0x820000000) 0 else 0 }

/-- The registers of a `RETYPE` of slot 7 into a frame. -/
def retypeFar : Context :=
  { Tcb.zeroed.ctx with
    x := fun n => if n = 8 then Abi.Syscall.retype else if n = 0 then 7 else
      if n = 1 then Abi.Obj.frame else 0 }

set_option maxRecDepth 100000 in
/-- The boot accepts this device tree, and then the root task's `RETYPE` of the memory at `2 ^ 48`
panics. -/
theorem retype_panics_farMachine :
    ∃ k, boot smallImage farMachine = some k ∧
      k.cnode.cap 7 = some (.untyped (2 ^ 48) 0x40000000 0) ∧
      Kernel.sysRetype smallImage.pool k 7 Abi.Obj.frame = none ∧
      k.step smallImage.pool (.sync retypeFar 0x54000000) = none := by
  have hrun : ((boot smallImage farMachine).map fun k =>
      (k.cnode.cap 7 == some (.untyped (2 ^ 48) 0x40000000 0)) &&
      (Kernel.sysRetype smallImage.pool k 7 Abi.Obj.frame).isNone &&
      (k.step smallImage.pool (.sync retypeFar 0x54000000)).isNone) = some true := by
    decide +kernel
  obtain ⟨k, hk, hall⟩ := Option.map_eq_some_iff.mp hrun
  simp only [Bool.and_eq_true, beq_iff_eq, Option.isNone_iff_eq_none] at hall
  exact ⟨k, hk, hall.1.1, hall.1.2, hall.2⟩

end Far

end K0
