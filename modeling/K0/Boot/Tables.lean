import K0.Boot.Main
import K0.Boot.FdtSound
import K0.Mm.Linear

set_option relaxedAutoImplicit false
set_option autoImplicit false

/-!
# The first tables of the kernel

What the tables that `K0.enablePaging` builds translate. A page is mapped exactly if it lies in
one of the regions of the layout, at its own address in the lower half and at its linear alias in
the upper half, with the attributes of the region; regions that share a page are an error.

## Main definitions

* `K0.KernelLayout.Below`: the addresses of a layout are physical ones.

## Main results

* `K0.enablePaging_exact`: what the tables translate, and when their construction fails.
* `K0.Stages.linear`: the tables at the handoff, with the boot window.
-/

namespace K0

open Word

variable {P : Platform} {B : PoolBase P} {q : Pool}

/-- The addresses of a layout lie within 48 bits. -/
def KernelLayout.Below (layout : KernelLayout) : Prop :=
  ∀ s ∈ [layout.text, layout.rodata, layout.rw0, layout.rw1, layout.dtb] ++ layout.devices,
    s.start < 2 ^ 48 ∧ s.stop ≤ 2 ^ 48

/-- Two ranges have addresses in one page. -/
def SharePage (P : Platform) (r r' : ℕ × ℕ × Perm) : Prop :=
  ∃ x y, r.1 ≤ x ∧ x < r.2.1 ∧ r'.1 ≤ y ∧ y < r'.2.1 ∧ x / P.granule = y / P.granule

/-- The regions of a layout within 48 bits lie within 48 bits. -/
lemma KernelLayout.Below.regions {layout : KernelLayout} (h : layout.Below) :
    ∀ r ∈ layout.regions P, r.1 < 2 ^ 48 ∧ r.2.1 ≤ 2 ^ 48 := by
  have hg := P.granule_pos
  have hdtb := h layout.dtb (by simp)
  have hround : roundUp P.granule layout.dtb.stop ≤ 2 ^ 48 :=
    (roundUp_le_iff hg (by rw [two_pow_48_eq P]; exact Dvd.intro_left _ rfl)).mpr hdtb.2
  intro r hr
  rcases List.mem_append.mp hr with hr | hr
  · simp only [KernelLayout.imageRegions, List.mem_cons, List.not_mem_nil, or_false] at hr
    rcases hr with rfl | rfl | rfl | rfl | rfl
    · exact h layout.text (by simp)
    · exact h layout.rodata (by simp)
    · exact h layout.rw0 (by simp)
    · exact h layout.rw1 (by simp)
    · exact ⟨lt_of_le_of_lt (Nat.div_mul_le_self _ _) hdtb.1, hround⟩
  · obtain ⟨d, hd, rfl⟩ := List.mem_map.mp hr
    exact h d (List.mem_append_right _ (List.mem_filter.mp hd).1)

/-- An address of an aligned range lies in a page of the range. -/
lemma Apart48.div_mem {rs : List (ℕ × ℕ × Perm)} (h : Apart48 P rs) {r : ℕ × ℕ × Perm}
    (hr : r ∈ rs) {x : ℕ} (h1 : r.1 ≤ x) (h2 : x < r.2.1) :
    x / P.granule ∈ regionPages P r := by
  have hg := P.granule_pos
  obtain ⟨⟨a, ha⟩, -⟩ := h.aligned r hr (lt_of_le_of_lt h1 h2)
  refine ⟨?_, lt_of_le_of_lt (Nat.div_mul_le_self _ _) h2⟩
  show r.1 ≤ x / P.granule * P.granule
  rw [ha, mul_comm]
  refine Nat.mul_le_mul_right _ ((Nat.le_div_iff_mul_le hg).mpr ?_)
  rwa [mul_comm, ← ha]

/-- No two of these ranges share a page. -/
lemma Apart48.not_sharePage {rs : List (ℕ × ℕ × Perm)} (h : Apart48 P rs) {i j : ℕ}
    {r r' : ℕ × ℕ × Perm} (hij : i < j) (hi : rs[i]? = some r) (hj : rs[j]? = some r') :
    ¬ SharePage P r r' := by
  rintro ⟨x, y, h1, h2, h3, h4, he⟩
  obtain ⟨hi', rfl⟩ := List.getElem?_eq_some_iff.mp hi
  obtain ⟨hj', rfl⟩ := List.getElem?_eq_some_iff.mp hj
  have hd := List.pairwise_iff_getElem.mp h.apart i j hi' hj' hij
  have hx := h.div_mem (List.getElem_mem hi') h1 h2
  rw [he] at hx
  exact Set.disjoint_left.mp hd hx (h.div_mem (List.getElem_mem hj') h3 h4)

/-- A page of the rounded device tree has a byte of the device tree. -/
lemma exists_byte_of_rounded {dtb : Span} (hlt : dtb.start < dtb.stop) {p : ℕ}
    (hp : P.granule ∣ p) (h1 : dtb.start / P.granule * P.granule ≤ p)
    (h2 : p < roundUp P.granule dtb.stop) :
    ∃ x, p ≤ x ∧ x < p + P.granule ∧ dtb.start ≤ x ∧ x < dtb.stop := by
  have hg := P.granule_pos
  have hstop : p < dtb.stop := by
    by_contra hge
    exact absurd ((roundUp_le_iff hg hp).mpr (Nat.le_of_not_lt hge)) (Nat.not_le.mpr h2)
  have hstart : dtb.start < p + P.granule := by
    have := Nat.lt_div_mul_add hg (a := dtb.start)
    omega
  exact ⟨max p dtb.start, le_max_left _ _, by omega, le_max_right _ _, by omega⟩

/-- Tables that stand for the same map in both halves translate a page exactly if it lies in a
region, to itself and with the attributes of the region. -/
lemma Pool.Linear.translate_iff {rs : List (ℕ × ℕ × Perm)}
    (hlin : q.Linear B 0 1 (permAt P rs) (permAt P rs)) (hap : Apart48 P rs) {p : ℕ}
    (hp : P.granule ∣ p) (hlt : p < 2 ^ 48) :
    q.translate B 0 p = q.translate B 1 (p + Abi.kernelVaOffset) ∧
    ∀ v, q.translate B 0 p = some v ↔
      ∃ r ∈ rs, r.1 ≤ p ∧ p < r.2.1 ∧ v = (p, r.2.2.attrs) := by
  rw [hlin.translate_low hp hlt, hlin.translate_high hp hlt]
  refine ⟨rfl, fun v => ?_⟩
  rw [Option.map_eq_some_iff]
  have hmem : ∀ r, p / P.granule ∈ regionPages P r ↔ r.1 ≤ p ∧ p < r.2.1 := by
    intro r
    show r.1 ≤ p / P.granule * P.granule ∧ p / P.granule * P.granule < r.2.1 ↔ _
    rw [Nat.div_mul_cancel hp]
  constructor
  · rintro ⟨perm, hperm, rfl⟩
    obtain ⟨r, hr, hk, rfl⟩ := hap.permAt_eq_some_iff.mp hperm
    exact ⟨r, hr, ((hmem r).mp hk).1, ((hmem r).mp hk).2, rfl⟩
  · rintro ⟨r, hr, h1, h2, rfl⟩
    exact ⟨r.2.2, hap.permAt_eq_some_iff.mpr ⟨r, hr, (hmem r).mpr ⟨h1, h2⟩, rfl⟩, rfl⟩

/-- The guard page lies in no region of the kernel's layout unless it holds a byte of the device
tree or of a device window. -/
lemma Image.guard_free (I : Image P) {dtb : Span} (hdtb : dtb.start < dtb.stop)
    (hfree : ∀ x, I.stackBottom - P.granule ≤ x → x < I.stackBottom →
      ¬ (dtb.start ≤ x ∧ x < dtb.stop) ∧ ∀ d ∈ deviceWindows P, ¬ (d.start ≤ x ∧ x < d.stop))
    {r : ℕ × ℕ × Perm} (hr : r ∈ (I.layout dtb).regions P) :
    ¬ (r.1 ≤ I.stackBottom - P.granule ∧ I.stackBottom - P.granule < r.2.1) := by
  have hg := P.granule_pos
  have h1 := I.rodata_le
  have h2 := I.data_le
  have hpage : P.granule ∣ I.stackBottom - P.granule := Nat.dvd_sub I.bottom_aligned dvd_rfl
  rintro ⟨hr1, hr2⟩
  rcases List.mem_append.mp hr with hr | hr
  · simp only [KernelLayout.imageRegions, Image.layout, List.mem_cons, List.not_mem_nil,
      or_false] at hr
    rcases hr with rfl | rfl | rfl | rfl | rfl
    · dsimp only at hr2
      omega
    · dsimp only at hr2
      omega
    · dsimp only at hr2
      omega
    · dsimp only at hr1
      omega
    · obtain ⟨x, hx1, hx2, hx3, hx4⟩ := exists_byte_of_rounded hdtb hpage hr1 hr2
      exact (hfree x hx1 (by omega)).1 ⟨hx3, hx4⟩
  · obtain ⟨d, hd, rfl⟩ := List.mem_map.mp hr
    exact (hfree _ le_rfl (by omega)).2 d (List.mem_filter.mp hd).1 ⟨hr1, hr2⟩

/-- **The first tables.** If their construction succeeds, a page below `2 ^ 48` is translated in
the lower half as its alias is in the upper half, and it is mapped, to itself, exactly if it lies
in a region of the layout, with the attributes of this region. If two regions share a page, the
construction returns an error. In the layout of the kernel the guard page below the boot stack is
not mapped unless it holds a byte of the device tree or of a device window.

**Proof sketch.** The loops over the regions lay them over two maps of page numbers, one for each
half, and no two regions that were laid share a page (`Pool.Linear.enablePaging`). With all
addresses within 48 bits no address overflows, so a construction that does not succeed returns an
error. -/
theorem enablePaging_exact (layout : KernelLayout) (hlow : layout.Below) (granuleOk : Bool) :
    (∀ ttbr0 ttbr1 q,
      enablePaging B granuleOk layout Pool.zero = some (.ok (ttbr0, ttbr1), q) →
      ∃ root0 root1, ttbr0 = B.pa root0 ∧ ttbr1 = B.pa root1 ∧ q.root1 = root1 ∧
        ∀ p, P.granule ∣ p → p < 2 ^ 48 →
          q.translate B root0 p = q.translate B root1 (p + Abi.kernelVaOffset) ∧
          ∀ v, q.translate B root0 p = some v ↔
            ∃ r ∈ layout.regions P, r.1 ≤ p ∧ p < r.2.1 ∧ v = (p, r.2.2.attrs)) ∧
    (∀ (i j : ℕ) (r r' : ℕ × ℕ × Perm), i < j → (layout.regions P)[i]? = some r →
      (layout.regions P)[j]? = some r' → SharePage P r r' →
      ∃ e q, enablePaging B granuleOk layout Pool.zero = some (.error e, q)) ∧
    ∀ (I : Image P) (read : ℕ → UInt8) (dtbPhys : ℕ) (dtb : Span) (root0 root1 : ℕ) (q : Pool),
      dtbSpan read dtbPhys = .ok dtb →
      enablePaging I.pool granuleOk (I.layout dtb) Pool.zero =
        some (.ok (I.pool.pa root0, I.pool.pa root1), q) →
      (∀ x, I.stackBottom - P.granule ≤ x → x < I.stackBottom →
        ¬ (dtb.start ≤ x ∧ x < dtb.stop) ∧
        ∀ d ∈ deviceWindows P, ¬ (d.start ≤ x ∧ x < d.stop)) →
      q.translate I.pool root0 (I.stackBottom - P.granule) = none ∧
      q.translate I.pool root1 (I.stackBottom - P.granule + Abi.kernelVaOffset) = none := by
  have hdtb : layout.dtb.start < 2 ^ 64 := by
    have := (hlow layout.dtb (by simp)).1
    omega
  refine ⟨?_, ?_, ?_⟩
  · intro ttbr0 ttbr1 q h
    obtain ⟨hroots, hlin, hap, -, hr1⟩ := Pool.Linear.enablePaging hdtb h
    obtain ⟨rfl, rfl⟩ := Prod.mk.inj hroots
    exact ⟨0, 1, rfl, rfl, hr1, fun p hp hlt => hlin.translate_iff hap hp hlt⟩
  · intro i j r r' hij hi hj hshare
    obtain ⟨⟨res, q⟩, hres⟩ := Option.isSome_iff_exists.mp
      (enablePaging_isSome (B := B) granuleOk hlow.regions hdtb)
    cases res with
    | error e => exact ⟨e, q, hres⟩
    | ok roots =>
      obtain ⟨-, -, hap, -⟩ := Pool.Linear.enablePaging hdtb hres
      exact absurd hshare (hap.not_sharePage hij hi hj)
  · intro I read dtbPhys dtb root0 root1 q hspan h hfree
    obtain ⟨-, hsize, hd64⟩ := dtbSpan_ok hspan
    have hdlt : dtb.start < dtb.stop := lt_of_lt_of_le (Nat.lt_add_of_pos_right (by decide)) hsize
    have hstart : (I.layout dtb).dtb.start < 2 ^ 64 := hdlt.trans hd64
    obtain ⟨hroots, hlin, hap, -, hr1⟩ := Pool.Linear.enablePaging hstart h
    obtain rfl : root0 = 0 := I.pool.pa_injective (Prod.mk.inj hroots).1
    obtain rfl : root1 = 1 := I.pool.pa_injective (Prod.mk.inj hroots).2
    have hpage : P.granule ∣ I.stackBottom - P.granule := Nat.dvd_sub I.bottom_aligned dvd_rfl
    have hlt : I.stackBottom - P.granule < 2 ^ 48 := by
      have := P.granule_pos
      have := I.data_le
      have := I.bottom_le
      have := I.top_le
      have := I.fits
      omega
    obtain ⟨heq, hiff⟩ := hlin.translate_iff hap hpage hlt
    have hnone : q.translate I.pool 0 (I.stackBottom - P.granule) = none := by
      by_contra hne
      obtain ⟨v, hv⟩ := Option.ne_none_iff_exists'.mp hne
      obtain ⟨r, hr, h1, h2, -⟩ := (hiff v).mp hv
      exact I.guard_free hdlt hfree hr ⟨h1, h2⟩
    exact ⟨hnone, by rw [← heq, hnone]⟩

/-- A layout in which text and read-only data share a page. -/
def clashingLayout : KernelLayout :=
  ⟨⟨0, 0x4000⟩, ⟨0, 0x4000⟩, ⟨0, 0⟩, ⟨0, 0⟩, ⟨0, 0⟩, []⟩

/-- The guard page of the small image holds no byte of its device tree or of a device window. -/
lemma smallImage_guard_free (x : ℕ) (h1 : smallImage.stackBottom - Platform.apple.granule ≤ x)
    (h2 : x < smallImage.stackBottom) :
    ¬ (0x820000000 ≤ x ∧ x < 0x820000074) ∧
      ∀ d ∈ deviceWindows .apple, ¬ (d.start ≤ x ∧ x < d.stop) := by
  have h1' : 0x810008000 + 34 * 0x4000 ≤ x := h1
  have h2' : x < 0x810008000 + 34 * 0x4000 + 0x4000 := h2
  have hdev : deviceWindows .apple = [⟨0x235200000, 0x235204000⟩, ⟨0, 0⟩, ⟨0, 0⟩] := by decide
  rw [hdev]
  simp only [List.forall_mem_cons, List.not_mem_nil, false_imp_iff, implies_true, and_true]
  omega

/-- The hypotheses of `enablePaging_exact` hold for the small image: its text is mapped, its guard
page is not. A layout whose ranges clash is refused. -/
theorem enablePaging_exact_smallImage :
    (∃ dtb roots q root0,
      enablePaging smallImage.pool true (smallImage.layout dtb) Pool.zero = some (.ok roots, q) ∧
      roots.1 = smallImage.pool.pa root0 ∧
      q.translate smallImage.pool root0 0x810000000 = some (0x810000000, Perm.text.attrs) ∧
      q.translate smallImage.pool root0 (smallImage.stackBottom - 0x4000) = none) ∧
    ∃ e q, enablePaging smallImage.pool true clashingLayout Pool.zero = some (.error e, q) := by
  obtain ⟨k, hk⟩ := boot_smallMachine
  obtain ⟨b, -⟩ := boot_eq_some hk
  have hdtb : b.dtb = ⟨0x820000000, 0x820000074⟩ :=
    Except.ok.inj (b.dtb_eq.symm.trans (by decide +kernel))
  have hpaged : enablePaging smallImage.pool true (smallImage.layout b.dtb) Pool.zero =
    some (.ok b.roots, b.paged) := b.paged_eq
  have hlow : (smallImage.layout b.dtb).Below := by
    rw [hdtb]
    unfold KernelLayout.Below
    decide
  have hclash : clashingLayout.Below := by
    unfold KernelLayout.Below
    decide
  obtain ⟨h1, -, h3⟩ := enablePaging_exact (B := smallImage.pool) _ hlow true
  obtain ⟨root0, root1, hr0, hr1, -, hiff⟩ := h1 b.roots.1 b.roots.2 b.paged hpaged
  have hroots : b.roots = (smallImage.pool.pa root0, smallImage.pool.pa root1) := Prod.ext hr0 hr1
  refine ⟨⟨b.dtb, b.roots, b.paged, root0, hpaged, hr0, ?_, ?_⟩, ?_⟩
  · refine ((hiff 0x810000000 (by decide) (by decide)).2 _).mpr
      ⟨(0x810000000, 0x810004000, .text), List.mem_cons_self, by decide, by decide, rfl⟩
  · rw [hroots] at hpaged
    rw [hdtb] at hpaged
    exact (h3 smallImage _ _ _ root0 root1 b.paged (hdtb ▸ b.dtb_eq) hpaged
      smallImage_guard_free).1
  · exact (enablePaging_exact (B := smallImage.pool) _ hclash true).2.1 0 1 (0, 0x4000, .text)
      (0, 0x4000, .ro) (by decide) rfl rfl ⟨0, 0, by decide, by decide, by decide, by decide, rfl⟩

/-! ### The tables at the handoff -/

section Handoff

variable {I : Image P} {i : Machine}

/-- The device tree that was mapped is the one that was parsed: its header reads the same at its
own address and at its alias. -/
lemma Stages.dtb_info (b : Stages I i) : b.info.dtb = b.dtb := by
  obtain ⟨hstart, -, -⟩ := dtbSpan_ok b.dtb_eq
  have hstop := dtbSpan_stop b.dtb_eq
  rw [parse_dtb b.info_eq]
  have hread : ∀ j, physOf (i.dtbPhys + Abi.kernelVaOffset + 4 + j) = i.dtbPhys + 4 + j := by
    intro j
    unfold physOf
    omega
  have hword : readBe32Phys (fun va => i.mem (physOf va)) (i.dtbPhys + Abi.kernelVaOffset + 4) =
      readBe32Phys i.mem (i.dtbPhys + 4) := by
    unfold readBe32Phys
    have h0 := hread 0
    rw [add_zero, add_zero] at h0
    simp only [h0, hread]
  rw [hword, ← hstop, ← hstart]

/-- The regions that are mapped at boot. -/
def Stages.regions (b : Stages I i) : List (ℕ × ℕ × Perm) := (I.layout b.dtb).regions P

/-- The tables when the MMU is switched on: both halves map the regions. -/
lemma Stages.linear_paged (b : Stages I i) :
    b.paged.Linear I.pool 0 1 (permAt P b.regions) (permAt P b.regions) ∧
      Apart48 P b.regions ∧ b.paged.enabled = true ∧ b.paged.root1 = 1 := by
  obtain ⟨-, hsize, h64⟩ := dtbSpan_ok b.dtb_eq
  have hstart : (I.layout b.dtb).dtb.start < 2 ^ 64 :=
    lt_of_le_of_lt (le_trans (Nat.le_add_right _ _) hsize) h64
  exact (Pool.Linear.enablePaging hstart b.paged_eq).2

/-- The tables at the handoff: the upper half has the boot window besides the regions. -/
lemma Stages.linear (b : Stages I i) :
    b.pool.Linear I.pool 0 1 (permAt P b.regions)
        (overlay P (permAt P b.regions) b.window .rw) ∧
      (∀ key ∈ b.window.pages P, permAt P b.regions key = none) ∧ b.window.stop ≤ 2 ^ 48 ∧
      b.pool.enabled = true ∧ b.pool.root1 = 1 := by
  obtain ⟨hlin, -, hen, hr1⟩ := b.linear_paged
  obtain ⟨hlin', hfree, hle, hen', hr1'⟩ := hlin.mapKernelWindow hr1 b.pool_eq
  exact ⟨hlin', hfree, hle, hen'.trans hen, hr1'.trans hr1⟩

/-- The addresses of a region lie in the kernel image, in a page with a byte of the device tree,
or in a device window. -/
lemma Stages.mem_regions (b : Stages I i) {r : ℕ × ℕ × Perm} (hr : r ∈ b.regions) {key : ℕ}
    (hk : key ∈ regionPages P r) :
    (I.kernelStart ≤ key * P.granule ∧ key * P.granule < I.kernelEnd) ∨
    (b.info.dtb.start < key * P.granule + P.granule ∧ key * P.granule < b.info.dtb.stop) ∨
    ∃ d ∈ deviceWindows P, d.start ≤ key * P.granule ∧ key * P.granule < d.stop := by
  obtain ⟨h1, h2⟩ : r.1 ≤ key * P.granule ∧ key * P.granule < r.2.1 := hk
  have := I.start_le
  have := I.rodata_le
  have := I.data_le
  have := I.bottom_le
  have := I.top_le
  rcases List.mem_append.mp hr with hr | hr
  · simp only [KernelLayout.imageRegions, Image.layout, List.mem_cons, List.not_mem_nil,
      or_false] at hr
    rcases hr with rfl | rfl | rfl | rfl | rfl
    · dsimp only at h1 h2
      omega
    · dsimp only at h1 h2
      omega
    · dsimp only at h1 h2
      omega
    · dsimp only at h1 h2
      omega
    · obtain ⟨-, hsize, -⟩ := dtbSpan_ok b.dtb_eq
      have hlt : b.dtb.start < b.dtb.stop :=
        lt_of_lt_of_le (Nat.lt_add_of_pos_right (by decide)) hsize
      obtain ⟨x, hx1, hx2, hx3, hx4⟩ := exists_byte_of_rounded hlt (dvd_mul_left _ _) h1 h2
      rw [b.dtb_info]
      exact .inr (.inl ⟨by omega, by omega⟩)
  · obtain ⟨d, hd, rfl⟩ := List.mem_map.mp hr
    exact .inr (.inr ⟨d, (List.mem_filter.mp hd).1, h1, h2⟩)

end Handoff

end K0
