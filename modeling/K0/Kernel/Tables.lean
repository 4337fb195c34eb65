import K0.Boot.Tables
import K0.Kernel.Simulation

set_option relaxedAutoImplicit false
set_option autoImplicit false

/-!
# The kernel tables in every run

After the handoff the table pool changes only when an object is carved out of untyped memory: its
granule is mapped at its alias. So in every reachable state the lower half has the regions of the
boot, and the upper half has these, the boot window and the granules of the objects, and nothing
else. The ledger of the capabilities keeps the next granule of every untyped apart from all of
them, so carving never meets a mapped page.

## Main definitions

* `K0.CNode.objects`: the granules of the objects that the capabilities name.
* `K0.Kernel.Mapped`: what the kernel tables map, in terms of the boot and the capabilities.

## Main results

* `K0.Kernel.Mapped.step`, `K0.Kernel.mapped_of_reaches`: the invariant, over runs.
* `K0.retype_unmapped`: carving meets no mapped page, and no page is writable and executable.
-/

namespace K0

open Word Memory

/-! ### The granules of objects -/

namespace CNode

/-- The physical addresses of the objects that the capabilities name. -/
def objects (c : CNode) : Set ℕ := {p | ∃ i v, c.cap i = some v ∧ v.object? = some p}

variable {c d : CNode} {i : ℕ} {v v' : Cap}

/-- Overwriting a capability by one of the same object keeps the objects. -/
lemma objects_set (hi : c.cap i = some v) (ho : v'.object? = v.object?) :
    (c.set i v').objects = c.objects := by
  have hlt := lt_used_of_cap hi
  ext p
  constructor
  · rintro ⟨j, u, hj, hp⟩
    rw [cap_set hlt] at hj
    by_cases e : j = i
    · rw [if_pos e] at hj
      obtain rfl := Option.some.inj hj
      exact ⟨i, v, hi, ho ▸ hp⟩
    · rw [if_neg e] at hj
      exact ⟨j, u, hj, hp⟩
  · rintro ⟨j, u, hj, hp⟩
    by_cases e : j = i
    · subst e
      obtain rfl : v = u := Option.some.inj (hi.symm.trans hj)
      exact ⟨j, v', by rw [cap_set hlt, if_pos rfl], ho.trans hp⟩
    · exact ⟨j, u, by rw [cap_set hlt, if_neg e, hj], hp⟩

/-- Carving an object adds its granule. -/
lemma mem_objects_retyped {slot base size used g carve : ℕ} {kind : ObjKind}
    (hcap : c.cap slot = some (.untyped base size used))
    (h : c.retyped d slot base size g carve kind) {p : ℕ} :
    p ∈ d.objects ↔ p ∈ c.objects ∨ p = carve := by
  constructor
  · rintro ⟨j, u, hj, hp⟩
    rcases (cap_retyped_object hcap h (by rw [hp]; rfl) j).mp hj with hj | ⟨-, rfl⟩
    · exact .inl ⟨j, u, hj, hp⟩
    · rw [ObjKind.object?_cap] at hp
      exact .inr (Option.some.inj hp).symm
  · rintro (⟨j, u, hj, hp⟩ | rfl)
    · exact ⟨j, u, (cap_retyped_object hcap h (by rw [hp]; rfl) j).mpr (.inl hj), hp⟩
    · exact ⟨c.used, kind.cap p,
        (cap_retyped_object hcap h (by rw [ObjKind.object?_cap]; rfl) c.used).mpr (.inr ⟨rfl, rfl⟩),
        kind.object?_cap p⟩

end CNode

/-! ### What is mapped -/

namespace Kernel

variable {P : Platform} {I : Image P} {i : Machine} {b : Stages I i} {k k' : Kernel}

/-- What the kernel tables map. The lower half has the regions of the boot; the upper half has
these and, writable, the boot window and the granules of the objects. -/
structure Mapped (b : Stages I i) (k : Kernel) (hi : ℕ → Option Perm) : Prop where
  linear : k.pool.Linear I.pool 0 1 (permAt P b.regions) hi
  enabled : k.pool.enabled = true
  root1 : k.pool.root1 = 1
  upper : ∀ key perm, hi key = some perm ↔ permAt P b.regions key = some perm ∨
    (perm = .rw ∧ (key ∈ b.window.pages P ∨ key * P.granule ∈ k.cnode.objects))

/-- The next granule of an untyped shares no page with what is mapped. -/
lemma Mapped.next_unmapped {hi : ℕ → Option Perm} (h : Mapped b k hi)
    (hacc : Accounts I b.info.memory
      (fixedReserved I.span b.info.dtb b.window ++ b.info.reserved) b.userRoot k.cnode)
    {slot base size used : ℕ} (hcap : k.cnode.cap slot = some (.untyped base size used))
    (hleft : GranuleLeft P.granule base size used) :
    hi (roundUp P.granule (base + used) / P.granule) = none := by
  have hg := P.granule_pos
  have hself : roundUp P.granule (base + used) / P.granule * P.granule =
      roundUp P.granule (base + used) := Nat.div_mul_cancel (dvd_roundUp _ _)
  have hfit := (granuleLeft_iff hg).mp hleft
  have hle : base + used ≤ roundUp P.granule (base + used) := le_roundUp hg
  -- the untyped keeps clear of the fixed reservations
  have hsep : ∀ r ∈ fixedReserved I.span b.info.dtb b.window,
      Sep (roundUp P.granule (base + used)) P.granule r.base r.size := fun r hr =>
    (hacc.ledger.clear slot base size used hcap r (List.mem_append_left _ hr)).mono_left
      (by omega) (by omega)
  have himg := hsep ⟨I.kernelStart, I.kernelEnd - I.kernelStart⟩
    (by simp [fixedReserved, Image.span])
  have hdtb := hsep ⟨b.info.dtb.start, b.info.dtb.stop - b.info.dtb.start⟩ (by simp [fixedReserved])
  have hwin := hsep ⟨b.window.start, b.window.stop - b.window.start⟩ (by simp [fixedReserved])
  by_contra hne
  obtain ⟨perm, hperm⟩ := Option.ne_none_iff_exists'.mp hne
  rcases (h.upper _ _).mp hperm with hreg | ⟨-, hw | ⟨j, v, hj, hp⟩⟩
  · obtain ⟨-, hap, -⟩ := b.linear_paged
    obtain ⟨r, hr, hk, -⟩ := hap.permAt_eq_some_iff.mp hreg
    have hmem := b.mem_regions hr hk
    rw [hself] at hmem
    unfold Word.Sep at himg hdtb
    rcases hmem with hmem | hmem | ⟨d, hd, h1, h2⟩
    · have := I.start_le
      have := I.rodata_le
      have := I.data_le
      have := I.bottom_le
      have := I.top_le
      dsimp only at himg
      omega
    · dsimp only at hdtb
      omega
    · -- the untyped lies in a memory region, and no region meets a device window
      obtain ⟨m, hm, hm1, hm2⟩ := hacc.ledger.inside slot base size used hcap
      have hdev := checkMemoryMap_ok b.checked d hd (by omega) m hm
      have hend : m.endAddr = m.base + m.size := rfl
      unfold Word.Sep at hdev
      omega
  · obtain ⟨h1, h2⟩ : b.window.start ≤ _ ∧ _ < b.window.stop := hw
    rw [hself] at h1 h2
    unfold Word.Sep at hwin
    dsimp only at hwin
    omega
  · rw [hself] at hp
    have := hacc.ledger.sep_next hg hcap hleft hj hp
    unfold Word.Sep at this
    omega

/-- The tables at the handoff. -/
lemma mapped_handoff (b : Stages I i) :
    Mapped b b.kernel (overlay P (permAt P b.regions) b.window .rw) := by
  obtain ⟨hlin, hfree, -, hen, hr1⟩ := b.linear
  obtain ⟨-, -, hpop⟩ := bootstrap_ok b.cnode_eq
  have hobj : ∀ p, p ∉ b.kernel.cnode.objects := by
    rintro p ⟨j, v, hj, hp⟩
    rw [object?_populate hpop hj] at hp
    cases hp
  refine ⟨hlin, hen, hr1, fun key perm => ?_⟩
  unfold overlay
  by_cases hk : key ∈ b.window.pages P
  · rw [if_pos hk, hfree key hk]
    constructor
    · intro e
      exact .inr ⟨(Option.some.inj e).symm, .inl hk⟩
    · rintro (e | ⟨rfl, -⟩)
      · cases e
      · rfl
  · rw [if_neg hk]
    constructor
    · exact .inl
    · rintro (e | ⟨-, e | e⟩)
      · exact e
      · exact absurd e hk
      · exact absurd e (hobj _)

/-- The tables depend on the pool and on the objects only. -/
lemma Mapped.congr {hi : ℕ → Option Perm} (h : Mapped b k hi) (hpool : k'.pool = k.pool)
    (hobj : k'.cnode.objects = k.cnode.objects) : Mapped b k' hi := by
  obtain ⟨h1, h2, h3, h4⟩ := h
  rw [← hpool] at h1 h2 h3
  rw [← hobj] at h4
  exact ⟨h1, h2, h3, h4⟩

/-- What a handler does to the tables. -/
lemma Mapped.handled {hi : ℕ → Option Perm} {v : ℤ} (h : Mapped b k hi)
    (hh : Handled I.pool k v k') : ∃ hi', Mapped b k' hi' := by
  cases hh with
  | fail _ _ => exact ⟨hi, h⟩
  | print out => exact ⟨hi, h.congr rfl rfl⟩
  | configure i j base root t ctx hs hc ht hst => exact ⟨hi, h.congr rfl rfl⟩
  | resume j base t hc ht hst => exact ⟨hi, h.congr rfl rfl⟩
  | mapFrame i j root base va perm m hs hc hp hm =>
    exact ⟨hi, h.congr rfl (CNode.objects_set hc rfl)⟩
  | mapTable i j root base va level m hs hc hm =>
    exact ⟨hi, h.congr rfl (CNode.objects_set hc rfl)⟩
  | unprepared slot base size used e pool hcap hroom hleft hmap =>
    have hpool := (h.linear.mapKernelWindow_error h.root1 h.enabled (dvd_roundUp _ _) hmap).1
    exact ⟨hi, h.congr hpool rfl⟩
  | carve slot base size used kind pool d hcap hroom hleft hmap hlt hd =>
    obtain ⟨hlin, hfree, -, hen, hr1⟩ := h.linear.mapKernelWindow h.root1 hmap
    refine ⟨_, hlin, hen.trans h.enabled, hr1.trans h.root1, fun key perm => ?_⟩
    -- the new page is the granule of the new object
    have hpage : ∀ {key}, key ∈ Span.pages P ⟨roundUp P.granule (base + used),
        roundUp P.granule (base + used) + P.granule⟩ ↔
        key * P.granule = roundUp P.granule (base + used) := by
      intro key
      obtain ⟨a, ha⟩ := dvd_roundUp P.granule (base + used)
      rw [mem_pages_iff (dvd_roundUp _ _) dvd_rfl, Nat.div_self P.granule_pos, ha,
        Nat.mul_div_cancel_left _ P.granule_pos, mul_comm key,
        Nat.mul_left_cancel_iff P.granule_pos]
      omega
    unfold overlay
    rw [CNode.mem_objects_retyped hcap hd]
    by_cases hk : key ∈ Span.pages P ⟨roundUp P.granule (base + used),
        roundUp P.granule (base + used) + P.granule⟩
    · have hnone := hfree key hk
      rw [if_pos hk]
      constructor
      · intro e
        exact .inr ⟨(Option.some.inj e).symm, .inr (.inr (hpage.mp hk))⟩
      · rintro (e | ⟨rfl, -⟩)
        · rw [(h.upper key perm).mpr (.inl e)] at hnone
          cases hnone
        · rfl
    · rw [if_neg hk, h.upper]
      have hne := fun e => hk (hpage.mpr e)
      constructor
      · rintro (e | ⟨e, e' | e'⟩)
        · exact .inl e
        · exact .inr ⟨e, .inl e'⟩
        · exact .inr ⟨e, .inr (.inl e')⟩
      · rintro (e | ⟨e, e' | e' | e'⟩)
        · exact .inl e
        · exact .inr ⟨e, .inl e'⟩
        · exact .inr ⟨e, .inr e'⟩
        · exact absurd e' hne

/-- What a step does to the tables. -/
theorem Mapped.step {hi : ℕ → Option Perm} {ev : Event} (h : Mapped b k hi)
    (hv : k.cnode.Valid) (hs : k.step I.pool ev = some k') : ∃ hi', Mapped b k' hi' := by
  have hnext := step_next hv hs
  cases hnext with
  | store va byte =>
    obtain ⟨m, hm⟩ := k.userStore_eq (P := P) va byte
    rw [hm]
    exact ⟨hi, h.congr rfl rfl⟩
  | spurious regs => exact ⟨hi, h.congr rfl rfl⟩
  | tick regs => exact ⟨hi, h.congr rfl rfl⟩
  | skip regs esr elr hec helr => exact ⟨hi, h.congr rfl rfl⟩
  | yield regs esr hec hx => exact ⟨hi, h.congr rfl rfl⟩
  | die regs esr _ hd hk =>
    obtain ⟨rfl, -⟩ := killCurrent_eq_some hk
    exact ⟨hi, h.congr rfl rfl⟩
  | ret regs esr v k₁ hec hx hi' hh =>
    have hsave : Mapped b (k.save regs) hi := h.congr rfl rfl
    obtain ⟨hi₁, h₁⟩ := hsave.handled hh
    exact ⟨hi₁, h₁.congr rfl rfl⟩
  | ipc esr c s hi' hs' => exact ⟨hi, h.congr rfl rfl⟩

end Kernel

/-- In every state that a run from the handoff reaches, the kernel stands for an abstract system
and its tables map what they should. -/
theorem Kernel.mapped_of_reaches {P : Platform} {I : Image P} {i : Machine} {k₀ k : Kernel}
    (hboot : boot I i = some k₀) (hr : k₀.Reaches I.pool k) :
    ∃ (b : Stages I i) (s : Sys) (hi : ℕ → Option Perm), b.kernel = k₀ ∧
      k.Sim I b.info.memory (fixedReserved I.span b.info.dtb b.window ++ b.info.reserved)
        b.userRoot s ∧ Mapped b k hi := by
  obtain ⟨b, rfl⟩ := boot_eq_some hboot
  refine ⟨b, ?_⟩
  induction hr with
  | refl => exact ⟨b.sys, _, rfl, b.sim, mapped_handoff b⟩
  | step ev _ hs ih =>
    obtain ⟨s, hi, -, hsim, hmap⟩ := ih
    obtain ⟨-, s', -, hsim', -⟩ := hsim.step hs
    obtain ⟨hi', hmap'⟩ := hmap.step hsim.accounts.ledger.valid hs
    exact ⟨s', hi', rfl, hsim', hmap'⟩

/-! ### Carving an object -/

/-- Register values determine the returned numbers. -/
lemma Abi.asU64_inj {v w : ℤ} (hv : -2 ^ 63 ≤ v ∧ v < 2 ^ 63) (hw : -2 ^ 63 ≤ w ∧ w < 2 ^ 63)
    (h : Abi.asU64 v = Abi.asU64 w) : v = w := by
  have ht := congrArg UInt64.toNat h
  unfold Abi.asU64 at ht
  rw [UInt64.toNat_ofNat', UInt64.toNat_ofNat'] at ht
  omega

namespace Kernel

variable {P : Platform} {I : Image P} {i : Machine} {b : Stages I i} {k k' : Kernel}

/-- `RETYPE` as an event. -/
lemma step_of_retype {B : PoolBase P} {regs : Context} {esr : UInt64}
    (hec : exceptionClass esr = 0x15) (hx : regs.x 8 = Abi.Syscall.retype) :
    k.step B (.sync regs esr) =
      returning k.tasks.currentContext (sysRetype B (k.save regs) (regs.x 0) (regs.x 1)) := by
  have hctx : ((k.save regs).tasks.tcb (k.save regs).tasks.currentContext).ctx = regs :=
    k.ctx_save regs
  show (k.save regs).el0Sync B esr = _
  unfold el0Sync k0Syscall
  dsimp only
  rw [if_pos hec, hctx, hx, if_neg (by decide), if_neg (by decide), if_neg (by decide),
    if_pos rfl]
  rfl

/-- If `RETYPE` returns `KERNEL_RESOURCE`, the mapping of the next granule failed. -/
lemma sysRetype_kernelResource (hv : k.cnode.Valid) {slot kind : UInt64} {v : ℤ}
    (h : sysRetype I.pool k slot kind = some (v, k'))
    (he : Abi.asU64 v = Abi.asU64 Abi.Err.kernelResource) :
    ∃ base size used e pool, k.cnode.cap slot.toNat = some (.untyped base size used) ∧
      GranuleLeft P.granule base size used ∧
      mapKernelWindow I.pool ⟨roundUp P.granule (base + used),
        roundUp P.granule (base + used) + P.granule⟩ k.pool = some (.error e, pool) := by
  unfold sysRetype at h
  split at h
  · obtain ⟨rfl, -⟩ := Prod.mk.inj (Option.some.inj h)
    exact absurd he (by decide)
  · rename_i kind' _
    have hout := CNode.retype_cases P.pageShift_lt hv slot.toNat kind' (prepGranule I.pool)
      (k.pool, k.mem, k.tasks)
    change CNode.RetypeOutcome _ _ _ _ _ _ (k.cnode.retype slot.toNat kind' P.granule
      (prepGranule I.pool) (k.pool, k.mem, k.tasks)) at hout
    split at h
    · cases h
    · rename_i r cnode pool mem tasks hr
      rw [hr] at hout
      cases hout with
      | prepFailed base size used _ hcap hroom hleft hp =>
        rcases prepGranule_eq_some hp with ⟨-, e, hmap, -⟩ | ⟨hb, -⟩
        · exact ⟨base, size, used, e, _, hcap, hleft, hmap⟩
        · cases hb
      | ok base size used _ _ hcap hroom hleft hp hd =>
        obtain ⟨rfl, -⟩ := Prod.mk.inj (Option.some.inj h)
        have hle := hroom
        have hslots : cnodeSlots = 32 := rfl
        have := Abi.asU64_inj ⟨by omega, by omega⟩ (by decide) he
        have hneg : Abi.Err.kernelResource < 0 := by decide
        omega
      | badSlot =>
        obtain ⟨rfl, -⟩ := Prod.mk.inj (Option.some.inj h)
        exact absurd he (by decide)
      | notUntyped =>
        obtain ⟨rfl, -⟩ := Prod.mk.inj (Option.some.inj h)
        exact absurd he (by decide)
      | outOfSlots =>
        obtain ⟨rfl, -⟩ := Prod.mk.inj (Option.some.inj h)
        exact absurd he (by decide)
      | exhausted =>
        obtain ⟨rfl, -⟩ := Prod.mk.inj (Option.some.inj h)
        exact absurd he (by decide)

/-- The granules that `retype` passes to its preparation. -/
lemma mem_recorded (hv : k.cnode.Valid) {slot : ℕ} {kind : ObjKind} {ok : Bool}
    {r : Except RetypeError ℕ} {d : CNode} {seen : List ℕ}
    (h : k.cnode.retype slot kind P.granule (fun pa l => some (ok, l ++ [pa])) [] =
      some (r, d, seen)) {pa : ℕ} (hpa : pa ∈ seen) :
    ∃ base size used, k.cnode.cap slot = some (.untyped base size used) ∧
      GranuleLeft P.granule base size used ∧ pa = roundUp P.granule (base + used) := by
  have hout := CNode.retype_cases P.pageShift_lt hv slot kind
    (fun pa l => some (ok, l ++ [pa])) ([] : List ℕ)
  change CNode.RetypeOutcome _ _ _ _ _ _ (k.cnode.retype slot kind P.granule
    (fun pa l => some (ok, l ++ [pa])) []) at hout
  rw [h] at hout
  cases hout with
  | badSlot => cases hpa
  | notUntyped => cases hpa
  | outOfSlots => cases hpa
  | exhausted => cases hpa
  | prepFailed base size used _ hcap hroom hleft hp =>
    obtain ⟨-, rfl⟩ := Prod.mk.inj (Option.some.inj hp)
    exact ⟨base, size, used, hcap, hleft, List.mem_singleton.mp hpa⟩
  | ok base size used _ _ hcap hroom hleft hp hd =>
    obtain ⟨-, rfl⟩ := Prod.mk.inj (Option.some.inj hp)
    exact ⟨base, size, used, hcap, hleft, List.mem_singleton.mp hpa⟩

end Kernel

/-- No physical page is mapped writable while it is mapped executable, in either half. -/
def Pool.WritableXorExecutable {P : Platform} (B : PoolBase P) (p : Pool) : Prop :=
  ∀ r ∈ [0, p.root1], ∀ r' ∈ [0, p.root1], ∀ va va' pa a a',
    p.translate B r va = some (pa, a) → p.translate B r' va' = some (pa, a') →
    a = Perm.text.attrs → a' ≠ Perm.rw.attrs ∧ a' ≠ Perm.device.attrs

/-- Tables that stand for two maps, the upper one larger, never mix the two. -/
lemma Pool.Linear.writableXorExecutable {P : Platform} {B : PoolBase P} {p : Pool}
    {lo hi : ℕ → Option Perm} (h : p.Linear B 0 1 lo hi) (hroot : p.root1 = 1)
    (hsub : ∀ key perm, lo key = some perm → hi key = some perm) :
    p.WritableXorExecutable B := by
  intro r hr r' hr' va va' pa a a' hm hm' ha
  rw [hroot] at hr hr'
  obtain ⟨perm, h1, h2⟩ := h.attrs_eq hsub hr hr' hm hm'
  rw [h2, ← h1, ha]
  decide

/-- **Carving meets no mapped page.** In every state that a run from the handoff reaches, with all
memory below `2 ^ 48`, the granule that `retype` passes to its preparation is not mapped in the
upper half. So its mapping can only fail because the pool lacks the tables for it, and that is the
only reason for which `RETYPE` returns `KERNEL_RESOURCE`. From the moment the MMU is switched on no
physical page is writable and executable in the kernel's halves.

**Proof sketch.** In every reachable state the upper half has the regions of the boot, the boot
window and the granules of the objects (`Kernel.mapped_of_reaches`); the ledger keeps the next
granule of every untyped apart from all of these. -/
theorem retype_unmapped {P : Platform} {I : Image P} {i : Machine} {k₀ k : Kernel}
    (hboot : boot I i = some k₀)
    (hram : ∀ info, parse (fun va => i.mem (physOf va)) i.dtbPhys I.span Abi.kernelVaOffset =
      .ok info → ∀ m ∈ info.memory, m.base + m.size ≤ 2 ^ 48)
    (hr : k₀.Reaches I.pool k) :
    (∀ slot kind ok r d seen,
      k.cnode.retype slot kind P.granule (fun pa l => some (ok, l ++ [pa])) [] =
        some (r, d, seen) → ∀ pa ∈ seen,
      k.pool.translate I.pool k.pool.root1 (pa + Abi.kernelVaOffset) = none ∧
      ∃ q res, mapKernelWindow I.pool ⟨pa, pa + P.granule⟩ k.pool = some (res, q) ∧
        ∀ e, res = .error e → e = .outOfTables ∧
          32 < k.pool.used + k.pool.missing I.pool k.pool.root1 (pa + Abi.kernelVaOffset)) ∧
    (∀ regs esr k', Kernel.exceptionClass esr = 0x15 → regs.x 8 = Abi.Syscall.retype →
      k.step I.pool (.sync regs esr) = some k' →
      (k'.tasks.tcb k.tasks.currentContext).ctx.x 0 = Abi.asU64 Abi.Err.kernelResource →
      ∃ base size used, k.cnode.cap (regs.x 0).toNat = some (.untyped base size used) ∧
        32 < k.pool.used + k.pool.missing I.pool k.pool.root1
          (roundUp P.granule (base + used) + Abi.kernelVaOffset)) ∧
    k.pool.WritableXorExecutable I.pool ∧
    ∀ b : Stages I i,
      b.paged.WritableXorExecutable I.pool ∧ b.pool.WritableXorExecutable I.pool := by
  obtain ⟨b, s, hi, -, hsim, hmap⟩ := Kernel.mapped_of_reaches hboot hr
  have hg := P.granule_pos
  have hacc := hsim.accounts
  have hoff : Abi.kernelVaOffset + 2 ^ 48 = 2 ^ 64 := by decide
  refine ⟨?_, ?_, ?_, ?_⟩
  · intro slot kind ok r d seen hret pa hpa
    obtain ⟨base, size, used, hcap, hleft, rfl⟩ :=
      Kernel.mem_recorded hacc.ledger.valid hret hpa
    have hnone := hmap.next_unmapped hacc hcap hleft
    -- the granule lies in a memory region
    have hlt : roundUp P.granule (base + used) < 2 ^ 48 := by
      obtain ⟨m, hm, -, hm2⟩ := hacc.ledger.inside slot base size used hcap
      have := hram b.info b.info_eq m hm
      have := (granuleLeft_iff hg).mp hleft
      have hend : m.endAddr = m.base + m.size := rfl
      omega
    refine ⟨?_, ?_⟩
    · rw [hmap.root1, hmap.linear.translate_high (dvd_roundUp _ _) hlt, hnone]
      rfl
    · have hpage := mapKernelWindow_page (B := I.pool) (dvd_roundUp P.granule (base + used))
        hmap.enabled (by omega)
      generalize k.pool.mapPage I.pool _ _ _ _ = o at hpage
      refine ⟨o.2, o.1, hpage, ?_⟩
      intro e he
      have herr : mapKernelWindow I.pool ⟨roundUp P.granule (base + used),
          roundUp P.granule (base + used) + P.granule⟩ k.pool = some (.error e, o.2) := by
        rw [hpage, ← he]
      rcases (hmap.linear.mapKernelWindow_error hmap.root1 hmap.enabled (dvd_roundUp _ _) herr).2
        with ⟨hne, -⟩ | ⟨-, rfl, hover⟩
      · exact absurd hnone hne
      · rw [hmap.root1]
        exact ⟨rfl, hover⟩
  · intro regs esr k' hec hx hstep h0
    rw [Kernel.step_of_retype hec hx] at hstep
    obtain ⟨v, k₁, hret, rfl⟩ := Kernel.returning_eq_some hstep
    have hv : Abi.asU64 v = Abi.asU64 Abi.Err.kernelResource := by
      rw [← h0]
      unfold Kernel.ret Tasks.setX Tasks.setCtx Tasks.modTcb
      dsimp only
      rw [Function.update_self]
      rfl
    have hvalid : (k.save regs).cnode.Valid := hacc.ledger.valid
    obtain ⟨base, size, used, e, pool, hcap, hleft, herr⟩ :=
      Kernel.sysRetype_kernelResource hvalid hret hv
    refine ⟨base, size, used, hcap, ?_⟩
    rcases (hmap.linear.mapKernelWindow_error hmap.root1 hmap.enabled (dvd_roundUp _ _) herr).2
      with ⟨hne, -⟩ | ⟨-, -, hover⟩
    · exact absurd (hmap.next_unmapped hacc hcap hleft) hne
    · rw [hmap.root1]
      exact hover
  · exact hmap.linear.writableXorExecutable hmap.root1 fun key perm e =>
      (hmap.upper key perm).mpr (.inl e)
  · intro b
    obtain ⟨hpaged, -, -, hr1⟩ := b.linear_paged
    refine ⟨hpaged.writableXorExecutable hr1 fun _ _ e => e, ?_⟩
    have hmap := Kernel.mapped_handoff b
    exact hmap.linear.writableXorExecutable hmap.root1 fun key perm e =>
      (hmap.upper key perm).mpr (.inl e)

/-- The memory of the small machine. -/
lemma memory_smallMachine {info : BootInfo}
    (h : parse (fun va => smallMachine.mem (physOf va)) smallMachine.dtbPhys smallImage.span
      Abi.kernelVaOffset = .ok info) : info.memory = [⟨0x800000000, 0x40000000⟩] := by
  have hmem : (parse (fun va => smallMachine.mem (physOf va)) smallMachine.dtbPhys smallImage.span
      Abi.kernelVaOffset).toOption.map BootInfo.memory = some [⟨0x800000000, 0x40000000⟩] := by
    decide +kernel
  rw [h] at hmem
  exact Option.some.inj hmem

/-- The hypotheses of `retype_unmapped` hold for the small machine at its handoff. -/
theorem retype_unmapped_smallMachine :
    ∃ k, boot smallImage smallMachine = some k ∧
      k.pool.WritableXorExecutable smallImage.pool := by
  obtain ⟨k, hk⟩ := boot_smallMachine
  refine ⟨k, hk, (retype_unmapped hk (fun info h m hm => ?_) .refl).2.2.1⟩
  rw [memory_smallMachine h] at hm
  rw [List.mem_singleton.mp hm]
  decide

end K0
