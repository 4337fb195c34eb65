import K0.Boot.Space
import K0.Boot.Tables

set_option relaxedAutoImplicit false
set_option autoImplicit false

/-!
# The self-checks of the boot

The kernel asks the processor twice whether its tables do what they should: after the MMU is
switched on (`check_wx`), and after the user tables are installed (`check_user_wx`). The processor
answers an `AT` instruction by walking the tables. With these answers the outcome of the checks is
known: they pass for every boot, up to the few cases that the layout leaves open.

In the boot itself the outcomes are part of the input (`K0.Machine`), since nothing ties the answers
of a processor to the tables.

## Main definitions

* `K0.AddressMap`: the page descriptors that the processor finds.
* `K0.checkWx`, `K0.checkUserWx`: the self-checks, with the answers of an address map.
* `K0.bootMap`, `K0.Stages.userMap`: the address maps at the two checks.

## Main results

* `K0.checkWx_iff`: when the check of the kernel's mappings passes.
* `K0.checkUserWx_iff`: when the check of the user mappings passes.
-/

namespace K0

open Word Memory UserTables

/-! ### The answers of the processor -/

/-- EL0 may read through a page descriptor. -/
def el0Readable (w : ℕ) : Prop := w &&& (0b01 <<< 6) ≠ 0

instance (w : ℕ) : Decidable (el0Readable w) := inferInstanceAs (Decidable (_ ≠ _))

/-- EL1 may write through a page descriptor. -/
def el1Writable (w : ℕ) : Prop := w &&& (0b10 <<< 6) = 0

instance (w : ℕ) : Decidable (el1Writable w) := inferInstanceAs (Decidable (_ = _))

/-- The page descriptor that the processor finds for an address, if there is one. -/
def AddressMap : Type := ℕ → Option ℕ

/-- The lower half of the addresses goes through one table, the upper half through another. -/
def AddressMap.halves (low high : ℕ → Option ℕ) : AddressMap := fun va =>
  if va < 2 ^ 48 then low va else if Abi.kernelVaOffset ≤ va then high va else none

namespace AddressMap

variable (a : AddressMap) (va : ℕ)

/-- EL1 can read, as `AT S1E1R` finds. This instruction does not know of PAN. -/
def canRead : Bool := (a va).isSome

/-- EL1 can write, as `AT S1E1W` finds. -/
def canWrite : Bool := (a va).any fun w => el1Writable w

/-- EL0 can read, as `AT S1E0R` finds. -/
def canUserRead : Bool := (a va).any fun w => el0Readable w

/-- EL0 can write, as `AT S1E0W` finds. -/
def canUserWrite : Bool := (a va).any fun w => el0Writable w

/-- EL1 can read with PAN, as `AT S1E1RP` finds: PAN keeps EL1 from what EL0 can access. -/
def canReadPanChecked : Bool := (a va).any fun w => ¬ el0Readable w

end AddressMap

/-! ### The checks -/

/-- A table of checks, each with its name, the answer and the answer that is expected, passes if
all answers are the expected ones. -/
def checksPass (checks : List (String × Bool × Bool)) : Bool := checks.all fun c => c.2.1 == c.2.2

section Checks

variable {P : Platform} (I : Image P)

/-- The check of the kernel's mappings after the jump to the upper half. -/
def checkWx (a : AddressMap) : Bool :=
  let text := I.kernelStart + Abi.kernelVaOffset
  let rodata := I.rodataStart + Abi.kernelVaOffset
  let stackBottom := I.stackBottom + Abi.kernelVaOffset
  let stackTop := I.stackTop + Abi.kernelVaOffset
  checksPass
    [("text+r", a.canRead text, true),
      ("text+w", a.canWrite text, false),
      ("rodata+w", a.canWrite rodata, false),
      ("guard+r", a.canRead (stackBottom - P.granule), false),
      ("stack+w", a.canWrite (stackTop - P.granule), true),
      ("id+r", a.canRead (text - Abi.kernelVaOffset), true)]

/-- The check of the user mappings after the user tables are installed. Whether PAN is enforced can
be asked only with FEAT_PAN2. -/
def checkUserWx (pan2 : Bool) (segs : List LoadSeg) (a : AddressMap) : Bool :=
  match segs.find? fun s => s.kind = .text with
  | none => false
  | some s =>
    let text := s.va
    let ktextVa := I.kernelStart + Abi.kernelVaOffset
    let stackTop := userStackTop
    let guard := stackTop - userStackSize - P.granule
    let utextK : String × Bool × Bool :=
      if pan2 then ("utext+kp", a.canReadPanChecked text, false)
      else ("utext+k", a.canRead text, true)
    checksPass
      [("utext+r", a.canUserRead text, true),
        ("utext+w", a.canUserWrite text, false),
        ("ustack+w", a.canUserWrite (stackTop - P.granule), true),
        ("uguard+r", a.canUserRead guard, false),
        ("ktext+u", a.canUserRead ktextVa, false),
        ("binfo+r", a.canUserRead Abi.bootinfoVa, true),
        ("binfo+w", a.canUserWrite Abi.bootinfoVa, false),
        utextK,
        ("id+r", a.canRead (ktextVa - Abi.kernelVaOffset), false)]

/-! ### The address maps -/

/-- The attributes that kernel tables give an address under one root. -/
def Pool.attrsAt (B : PoolBase P) (p : Pool) (root va : ℕ) : Option ℕ :=
  (p.translate B root va).map Prod.snd

/-- The address map when the MMU has been switched on. -/
def bootMap (B : PoolBase P) (p : Pool) (root0 root1 : ℕ) : AddressMap :=
  .halves (p.attrsAt B root0) (p.attrsAt B root1)

variable {I} {i : Machine}

/-- The address map when the user tables have been installed. -/
def Stages.userMap (b : Stages I i) : AddressMap :=
  .halves (mmuLeaf P b.mem b.userRoot) (b.pool.attrsAt I.pool b.pool.root1)

end Checks

namespace AddressMap

variable {low high : ℕ → Option ℕ} {va : ℕ}

/-- An address of the lower half. -/
lemma halves_low (h : va < 2 ^ 48) : halves low high va = low va := if_pos h

/-- An address of the upper half. -/
lemma halves_high : halves low high (va + Abi.kernelVaOffset) = high (va + Abi.kernelVaOffset) := by
  have hoff : 2 ^ 48 ≤ Abi.kernelVaOffset := by decide
  unfold halves
  rw [if_neg (by omega), if_pos (Nat.le_add_left _ _)]

end AddressMap

/-! ### The kernel's mappings -/

section Kernel

variable {P : Platform} {I : Image P} {q : Pool} {dtb : Span}

/-- The check passes if every line of its table does. -/
lemma checkWx_eq_true {a : AddressMap} :
    checkWx I a = true ↔
      a.canRead (I.kernelStart + Abi.kernelVaOffset) = true ∧
      ¬ a.canWrite (I.kernelStart + Abi.kernelVaOffset) = true ∧
      ¬ a.canWrite (I.rodataStart + Abi.kernelVaOffset) = true ∧
      ¬ a.canRead (I.stackBottom + Abi.kernelVaOffset - P.granule) = true ∧
      a.canWrite (I.stackTop + Abi.kernelVaOffset - P.granule) = true ∧
      a.canRead (I.kernelStart + Abi.kernelVaOffset - Abi.kernelVaOffset) = true := by
  simp [checkWx, checksPass]

/-- The order of the sections; the data segment holds the table pool, so it is not empty. -/
lemma Image.order (I : Image P) :
    I.kernelStart ≤ I.rodataStart ∧ I.rodataStart ≤ I.dataStart ∧
      I.dataStart < I.stackBottom - P.granule ∧ I.stackBottom ≤ I.stackTop ∧
      I.stackTop ≤ I.kernelEnd ∧ I.kernelEnd ≤ 2 ^ 48 := by
  have hpool : 0 < poolLen * P.granule := Nat.mul_pos (by decide) P.granule_pos
  have hge := I.pool_ge
  have hle := I.pool_le
  exact ⟨I.start_le, I.rodata_le, by omega, I.bottom_le, I.top_le, I.fits⟩

/-- EL0 has no access through the attributes of a kernel mapping. -/
lemma not_el0Readable_attrs (perm : Perm) : ¬ el0Readable perm.attrs := by
  cases perm <;> decide

/-- What the processor finds at the alias of a page, and at its own address, when both halves map
the regions of a layout. -/
lemma bootMap_eq (hlin : q.Linear I.pool 0 1 (permAt P ((I.layout dtb).regions P))
    (permAt P ((I.layout dtb).regions P))) {p : ℕ} (hp : P.granule ∣ p) (hlt : p < 2 ^ 48) :
    bootMap I.pool q 0 1 (p + Abi.kernelVaOffset) =
      (permAt P ((I.layout dtb).regions P) (p / P.granule)).map Perm.attrs ∧
    bootMap I.pool q 0 1 p =
      (permAt P ((I.layout dtb).regions P) (p / P.granule)).map Perm.attrs := by
  unfold bootMap Pool.attrsAt
  rw [AddressMap.halves_high, AddressMap.halves_low hlt, hlin.translate_high hp hlt,
    hlin.translate_low hp hlt, Option.map_map]
  exact ⟨rfl, rfl⟩

/-- The permission of a page of a region. -/
lemma permAt_of_region {rs : List (ℕ × ℕ × Perm)} (h : Apart48 P rs) {r : ℕ × ℕ × Perm}
    (hr : r ∈ rs) {p : ℕ} (hp : P.granule ∣ p) (h1 : r.1 ≤ p) (h2 : p < r.2.1) :
    permAt P rs (p / P.granule) = some r.2.2 := by
  refine h.permAt_eq_some_iff.mpr ⟨r, hr, ?_, rfl⟩
  show r.1 ≤ p / P.granule * P.granule ∧ p / P.granule * P.granule < r.2.1
  rw [Nat.div_mul_cancel hp]
  exact ⟨h1, h2⟩

/-- Device windows are made of pages. -/
lemma deviceWindows_aligned (P : Platform) :
    ∀ d ∈ deviceWindows P, P.granule ∣ d.start ∧ P.granule ∣ d.stop := by
  cases P <;> decide

/-- The guard page is mapped exactly if it holds a byte of the device tree or of a device
window. -/
lemma Image.permAt_guard_eq_none_iff (I : Image P) (hdtb : dtb.start < dtb.stop) :
    permAt P ((I.layout dtb).regions P) ((I.stackBottom - P.granule) / P.granule) = none ↔
      ∀ x, I.stackBottom - P.granule ≤ x → x < I.stackBottom →
        ¬ (dtb.start ≤ x ∧ x < dtb.stop) ∧
        ∀ d ∈ deviceWindows P, ¬ (d.start ≤ x ∧ x < d.stop) := by
  have hg := P.granule_pos
  have hle := I.data_le
  have hpage : P.granule ∣ I.stackBottom - P.granule := Nat.dvd_sub I.bottom_aligned dvd_rfl
  rw [permAt_eq_none_iff]
  have hmem : ∀ r : ℕ × ℕ × Perm, (I.stackBottom - P.granule) / P.granule ∈ regionPages P r ↔
      r.1 ≤ I.stackBottom - P.granule ∧ I.stackBottom - P.granule < r.2.1 := by
    intro r
    show r.1 ≤ (I.stackBottom - P.granule) / P.granule * P.granule ∧
      (I.stackBottom - P.granule) / P.granule * P.granule < r.2.1 ↔ _
    rw [Nat.div_mul_cancel hpage]
  constructor
  · intro hfree x h1 h2
    constructor
    · rintro ⟨h3, h4⟩
      refine hfree (dtb.start / P.granule * P.granule, roundUp P.granule dtb.stop, .ro)
        (by simp [KernelLayout.regions, KernelLayout.imageRegions, Image.layout])
        ((hmem _).mpr ⟨?_, ?_⟩)
      · -- the page that the device tree starts in is not above the guard page
        have hdvd : P.granule ∣ dtb.start / P.granule * P.granule := Dvd.intro_left _ rfl
        have := Nat.div_mul_le_self dtb.start P.granule
        by_contra hlt
        have := add_granule_le hpage hdvd (not_le.mp hlt)
        omega
      · have := le_roundUp (x := dtb.stop) hg
        dsimp only
        omega
    · rintro d hd ⟨h3, h4⟩
      obtain ⟨hs, -⟩ := deviceWindows_aligned P d hd
      refine hfree (d.start, d.stop, .device) ?_ ((hmem _).mpr ⟨?_, by dsimp only; omega⟩)
      · refine List.mem_append_right _ (List.mem_map.mpr ⟨d, List.mem_filter.mpr ⟨hd, ?_⟩, rfl⟩)
        rw [decide_eq_true_eq]
        omega
      · by_contra hlt
        have := add_granule_le hpage hs (not_le.mp hlt)
        omega
  · exact fun hfree r hr hk => I.guard_free hdtb hfree hr ((hmem r).mp hk)

/-- EL1 can write through the kernel mappings of data and devices. -/
lemma el1Writable_attrs (perm : Perm) : el1Writable perm.attrs ↔ perm = .rw ∨ perm = .device := by
  cases perm <;> decide

/-- The answer to a read of EL1, by the permission of the page. -/
lemma AddressMap.canRead_of_perm {a : AddressMap} {va : ℕ} {o : Option Perm}
    (h : a va = o.map Perm.attrs) : a.canRead va = true ↔ o ≠ none := by
  unfold canRead
  rw [h, Option.isSome_map, Option.isSome_iff_ne_none]

/-- The answer to a write of EL1, by the permission of the page. -/
lemma AddressMap.canWrite_of_perm {a : AddressMap} {va : ℕ} {o : Option Perm}
    (h : a va = o.map Perm.attrs) : a.canWrite va = true ↔ o = some .rw ∨ o = some .device := by
  unfold canWrite
  rw [h]
  cases o with
  | none => simp
  | some perm => simp [el1Writable_attrs]

/-- The permissions of the first pages of the sections and of the last page of the stack, as far as
these sections are not empty. -/
lemma Image.permAt_sections (I : Image P) (hap : Apart48 P ((I.layout dtb).regions P)) :
    permAt P ((I.layout dtb).regions P) (I.dataStart / P.granule) = some .rw ∧
      (I.rodataStart < I.dataStart →
        permAt P ((I.layout dtb).regions P) (I.rodataStart / P.granule) = some .ro) ∧
      (I.kernelStart < I.rodataStart →
        permAt P ((I.layout dtb).regions P) (I.kernelStart / P.granule) = some .text) ∧
      (I.stackBottom < I.stackTop →
        permAt P ((I.layout dtb).regions P) ((I.stackTop - P.granule) / P.granule) =
          some .rw) := by
  have hg := P.granule_pos
  obtain ⟨-, -, hdata, -⟩ := I.order
  have hregion : ∀ {r : ℕ × ℕ × Perm}, r ∈ (I.layout dtb).imageRegions P → ∀ {p : ℕ},
      P.granule ∣ p → r.1 ≤ p → p < r.2.1 →
      permAt P ((I.layout dtb).regions P) (p / P.granule) = some r.2.2 :=
    fun hr _ hp => permAt_of_region hap (List.mem_append_left _ hr) hp
  refine ⟨?_, fun hlt => ?_, fun hlt => ?_, fun hlt => ?_⟩
  · exact hregion (r := (I.dataStart, I.stackBottom - P.granule, .rw))
      (by simp [KernelLayout.imageRegions, Image.layout]) I.data_aligned le_rfl hdata
  · exact hregion (r := (I.rodataStart, I.dataStart, .ro))
      (by simp [KernelLayout.imageRegions, Image.layout]) I.rodata_aligned le_rfl hlt
  · exact hregion (r := (I.kernelStart, I.rodataStart, .text))
      (by simp [KernelLayout.imageRegions, Image.layout]) I.start_aligned le_rfl hlt
  · have hle := add_granule_le I.bottom_aligned I.top_aligned hlt
    refine hregion (r := (I.stackBottom, I.stackTop, .rw))
      (by simp [KernelLayout.imageRegions, Image.layout]) (Nat.dvd_sub I.top_aligned dvd_rfl) ?_ ?_
    · dsimp only
      omega
    · dsimp only
      omega

/-- **When the check of the kernel's mappings passes**, with the answers that the first tables give:
exactly if the image has read-only data and a boot stack, and no byte of the device tree and of the
device windows lies in the guard page below the stack.

**Proof sketch.** Every answer is the permission of one page in the map of the regions. The data
segment is never empty, so a start without read-only data is writable; and without a stack the
last page of the stack is the guard page. -/
theorem checkWx_iff {read : ℕ → UInt8} {dtbPhys root0 root1 : ℕ} {granuleOk : Bool}
    (hspan : dtbSpan read dtbPhys = .ok dtb)
    (h : enablePaging I.pool granuleOk (I.layout dtb) Pool.zero =
      some (.ok (I.pool.pa root0, I.pool.pa root1), q)) :
    checkWx I (bootMap I.pool q root0 root1) = true ↔
      I.rodataStart < I.dataStart ∧ I.stackBottom < I.stackTop ∧
      ∀ x, I.stackBottom - P.granule ≤ x → x < I.stackBottom →
        ¬ (dtb.start ≤ x ∧ x < dtb.stop) ∧
        ∀ d ∈ deviceWindows P, ¬ (d.start ≤ x ∧ x < d.stop) := by
  have hg := P.granule_pos
  obtain ⟨-, hsize, hd64⟩ := dtbSpan_ok hspan
  have hdlt : dtb.start < dtb.stop := lt_of_lt_of_le (Nat.lt_add_of_pos_right (by decide)) hsize
  obtain ⟨hroots, hlin, hap, -⟩ := Pool.Linear.enablePaging (hdlt.trans hd64) h
  obtain rfl : root0 = 0 := I.pool.pa_injective (Prod.mk.inj hroots).1
  obtain rfl : root1 = 1 := I.pool.pa_injective (Prod.mk.inj hroots).2
  obtain ⟨o1, o2, o3, o4, o5, o6⟩ := I.order
  have hguard := I.permAt_guard_eq_none_iff hdlt
  obtain ⟨hdata, hrodata, htext, hstack⟩ := I.permAt_sections hap
  -- the answers, by the permissions of the pages
  have hbottom : P.granule ∣ I.stackBottom - P.granule := Nat.dvd_sub I.bottom_aligned dvd_rfl
  have htop : P.granule ∣ I.stackTop - P.granule := Nat.dvd_sub I.top_aligned dvd_rfl
  obtain ⟨m1, m2⟩ := bootMap_eq hlin I.start_aligned (by omega)
  obtain ⟨m3, -⟩ := bootMap_eq hlin I.rodata_aligned (by omega)
  obtain ⟨m4, -⟩ := bootMap_eq hlin hbottom (by omega)
  obtain ⟨m5, -⟩ := bootMap_eq hlin htop (by omega)
  have e4 : I.stackBottom + Abi.kernelVaOffset - P.granule =
      I.stackBottom - P.granule + Abi.kernelVaOffset := by omega
  have e5 : I.stackTop + Abi.kernelVaOffset - P.granule =
      I.stackTop - P.granule + Abi.kernelVaOffset := by omega
  rw [checkWx_eq_true, e4, e5, Nat.add_sub_cancel, AddressMap.canRead_of_perm m1,
    AddressMap.canRead_of_perm m2, AddressMap.canRead_of_perm m4, AddressMap.canWrite_of_perm m1,
    AddressMap.canWrite_of_perm m3, AddressMap.canWrite_of_perm m5, not_not, hguard]
  constructor
  · rintro ⟨-, -, hro, hfree, hst, -⟩
    refine ⟨lt_of_le_of_ne o2 fun e => ?_, lt_of_le_of_ne o4 fun e => ?_, hfree⟩
    · rw [e, hdata] at hro
      exact hro (.inl rfl)
    · rw [← e, hguard.mpr hfree] at hst
      rcases hst with hst | hst
      · cases hst
      · cases hst
  · rintro ⟨hro, hst, hfree⟩
    rw [hrodata hro, hstack hst]
    have hfirst : permAt P ((I.layout dtb).regions P) (I.kernelStart / P.granule) = some .text ∨
        permAt P ((I.layout dtb).regions P) (I.kernelStart / P.granule) = some .ro := by
      rcases Nat.eq_or_lt_of_le o1 with e | hlt
      · exact .inr (e ▸ hrodata hro)
      · exact .inl (htext hlt)
    rcases hfirst with e | e
    · rw [e]
      exact ⟨by simp, by simp, by simp, hfree, .inl rfl, by simp⟩
    · rw [e]
      exact ⟨by simp, by simp, by simp, hfree, .inl rfl, by simp⟩

/-- The check passes on the small machine, whose image has all of these. -/
theorem checkWx_iff_smallImage :
    ∃ (b : Stages smallImage smallMachine) (root0 root1 : ℕ),
      b.roots = (smallImage.pool.pa root0, smallImage.pool.pa root1) ∧
      checkWx smallImage (bootMap smallImage.pool b.paged root0 root1) = true := by
  obtain ⟨k, hk⟩ := boot_smallMachine
  obtain ⟨b, -⟩ := boot_eq_some hk
  have hdtb : b.dtb = ⟨0x820000000, 0x820000074⟩ :=
    Except.ok.inj (b.dtb_eq.symm.trans (by decide +kernel))
  obtain ⟨-, hsize, h64⟩ := dtbSpan_ok b.dtb_eq
  have hstart : (smallImage.layout b.dtb).dtb.start < 2 ^ 64 :=
    lt_of_le_of_lt (le_trans (Nat.le_add_right _ _) hsize) h64
  have hroots := (Pool.Linear.enablePaging hstart b.paged_eq).1
  have hpaged := b.paged_eq
  rw [hroots] at hpaged
  refine ⟨b, 0, 1, hroots, (checkWx_iff b.dtb_eq hpaged).mpr ⟨by decide, by decide, ?_⟩⟩
  rw [hdtb]
  exact smallImage_guard_free

end Kernel

/-! ### The user mappings -/

section User

variable {P : Platform} {I : Image P} {i : Machine}

/-- EL0 can read through every user mapping. -/
lemma el0Readable_desc (pa : ℕ) (perm : UserPerm) : el0Readable (pa ||| perm.attrs) := by
  have hbit : perm.attrs &&& (0b01 <<< 6) = 0b01 <<< 6 := by cases perm <;> decide
  unfold el0Readable
  rw [Nat.and_or_distrib_right, hbit]
  exact fun h => absurd (Nat.or_eq_zero_iff.mp h).2 (by decide)

/-- The answers for an address of the lower half, by its page in the user tables. -/
structure AddressMap.Answers (a : AddressMap) (va : ℕ) (o : Option (ℕ × UserPerm)) : Prop where
  read : a.canRead va = true ↔ o ≠ none
  userRead : a.canUserRead va = true ↔ o ≠ none
  userWrite : a.canUserWrite va = true ↔ ∃ x, o = some x ∧ x.2 = .rwUser
  readPanChecked : a.canReadPanChecked va = false

/-- The answers of user tables that stand for a page map. -/
lemma UserTables.Stands.answers {m : Mem} {root : ℕ} {live : Set ℕ} {lvl : ℕ → ℕ}
    {pm : ℕ → Option (ℕ × UserPerm)} (hst : Stands P m root pm)
    (h : UserTables.Inv P m root live lvl) (high : ℕ → Option ℕ) {va : ℕ} (hva : va < 2 ^ 48) :
    AddressMap.Answers (.halves (mmuLeaf P m root) high) va (pm (va / P.granule)) := by
  have hmap : AddressMap.halves (mmuLeaf P m root) high va = mmuLeaf P m root va :=
    AddressMap.halves_low hva
  rw [← pageKey_of_lt hva]
  cases hx : pm (pageKey P va) with
  | none =>
    rw [hst.mmuLeaf_none h hx] at hmap
    constructor <;> simp [AddressMap.canRead, AddressMap.canUserRead, AddressMap.canUserWrite,
      AddressMap.canReadPanChecked, hmap]
  | some x =>
    obtain ⟨w, hw, hdescr⟩ := hst.mmuLeaf_some h hva hx
    obtain ⟨rfl, -⟩ := hst.mmuLeaf_desc h hw hx
    have hread := el0Readable_desc x.1 x.2
    rw [hw] at hmap
    constructor
    · simp [AddressMap.canRead, hmap]
    · simp [AddressMap.canUserRead, hmap, hread]
    · simp [AddressMap.canUserWrite, hmap, hdescr.writable]
    · simp [AddressMap.canReadPanChecked, hmap, hread]

/-- The kernel's mappings are not for EL0. -/
lemma Stages.canUserRead_alias (b : Stages I i) {p : ℕ} (hp : P.granule ∣ p) (hlt : p < 2 ^ 48) :
    b.userMap.canUserRead (p + Abi.kernelVaOffset) = false := by
  obtain ⟨hlin, -, -, -, hroot⟩ := b.linear
  have hmap : b.userMap (p + Abi.kernelVaOffset) =
      (overlay P (permAt P b.regions) b.window .rw (p / P.granule)).map Perm.attrs := by
    unfold Stages.userMap Pool.attrsAt
    rw [AddressMap.halves_high, hroot, hlin.translate_high hp hlt, Option.map_map]
    rfl
  unfold AddressMap.canUserRead
  rw [hmap]
  cases overlay P (permAt P b.regions) b.window .rw (p / P.granule) with
  | none => rfl
  | some perm => simp [not_el0Readable_attrs]

/-- The check passes if every line of its table does. -/
lemma checkUserWx_eq_true {pan2 : Bool} {segs : List LoadSeg} {s : LoadSeg} {a : AddressMap}
    (hs : segs.find? (fun s => s.kind = .text) = some s) :
    checkUserWx I pan2 segs a = true ↔
      a.canUserRead s.va = true ∧ ¬ a.canUserWrite s.va = true ∧
      a.canUserWrite (userStackTop - P.granule) = true ∧
      ¬ a.canUserRead (userStackTop - userStackSize - P.granule) = true ∧
      a.canUserRead (I.kernelStart + Abi.kernelVaOffset) = false ∧
      a.canUserRead Abi.bootinfoVa = true ∧ ¬ a.canUserWrite Abi.bootinfoVa = true ∧
      (if pan2 then a.canReadPanChecked s.va = false else a.canRead s.va = true) ∧
      ¬ a.canRead (I.kernelStart + Abi.kernelVaOffset - Abi.kernelVaOffset) = true := by
  unfold checkUserWx
  rw [hs]
  cases pan2 <;> simp [checksPass]

/-- A segment covers a page if it has its first byte. -/
lemma LoadSeg.covers_div {s : LoadSeg} {p : ℕ} (hp : P.granule ∣ p) :
    s.Covers P (p / P.granule) ↔ s.va ≤ p ∧ p < s.va + s.memsz := by
  unfold Covers
  rw [Nat.div_mul_cancel hp]

/-- The pages that user code has at the handoff, as the processor answers for them: those of the
segments, the stack and the bootinfo page, each with the permission of its kind. -/
structure Stages.UserPages (b : Stages I i) (pm : ℕ → Option (ℕ × UserPerm)) : Prop where
  answers : ∀ va < 2 ^ 48, b.userMap.Answers va (pm (va / P.granule))
  page : ∀ s ∈ stackSeg :: bootinfoSeg P :: I.rootTask.segments, ∀ p, P.granule ∣ p →
    s.va ≤ p → p < s.va + s.memsz → ∃ pa, pm (p / P.granule) = some (pa, s.kind.perm)
  none_iff : ∀ p, P.granule ∣ p → (pm (p / P.granule) = none ↔
    ∀ s ∈ stackSeg :: bootinfoSeg P :: I.rootTask.segments, p < s.va ∨ s.va + s.memsz ≤ p)

/-- Every boot makes such pages. -/
lemma Stages.exists_userPages (b : Stages I i) (hrt : I.rootTask.Laid) : ∃ pm, b.UserPages pm := by
  obtain ⟨stack, hload⟩ := b.loaded hrt
  obtain ⟨lvl, pm, htree, hst, hpm⟩ := b.tree_handoff hload
  have hpage : ∀ s ∈ stackSeg :: bootinfoSeg P :: I.rootTask.segments, ∀ p, P.granule ∣ p →
      s.va ≤ p → p < s.va + s.memsz → ∃ pa, pm (p / P.granule) = some (pa, s.kind.perm) := by
    intro s hs p hp h1 h2
    obtain ⟨hc1, hc2⟩ := (LoadSeg.covers_div hp).mpr ⟨h1, h2⟩
    rcases List.mem_cons.mp hs with rfl | hs
    · exact ⟨_, (hpm _ _).mpr (.inr (.inl ⟨hc1, hc2, rfl⟩))⟩
    rcases List.mem_cons.mp hs with rfl | hs
    · exact ⟨_, (hpm _ _).mpr (.inr (.inr ⟨hc1, hc2, rfl⟩))⟩
    · exact ⟨_, (hpm _ _).mpr (.inl ⟨s, hs, hc1, hc2, rfl⟩)⟩
  refine ⟨pm, fun va hva => hst.answers htree _ hva, hpage, fun p hp => ⟨fun hnone s hs => ?_,
    fun hfree => ?_⟩⟩
  · by_contra hn
    obtain ⟨pa, hpa⟩ := hpage s hs p hp (by omega) (by omega)
    rw [hnone] at hpa
    cases hpa
  · cases hx : pm (p / P.granule) with
    | none => rfl
    | some x =>
      have hcov : ∃ s ∈ stackSeg :: bootinfoSeg P :: I.rootTask.segments,
          s.Covers P (p / P.granule) := by
        rcases (hpm _ x).mp hx with ⟨s, hs, h1, h2, -⟩ | ⟨h1, h2, -⟩ | ⟨h1, h2, -⟩
        · exact ⟨s, List.mem_cons_of_mem _ (List.mem_cons_of_mem _ hs), h1, h2⟩
        · exact ⟨_, List.mem_cons_self, h1, h2⟩
        · exact ⟨_, List.mem_cons_of_mem _ List.mem_cons_self, h1, h2⟩
      obtain ⟨s, hs, hc⟩ := hcov
      have := hfree s hs
      have := (LoadSeg.covers_div hp).mp hc
      omega

/-- A root task has a text segment to check. -/
lemma RootTask.Laid.find_text {rt : RootTask} (h : rt.Laid) :
    ∃ s ∈ rt.segments, rt.segments.find? (fun s => s.kind = .text) = some s ∧ s.kind = .text := by
  obtain ⟨s, hs, hk, -⟩ := h.entry
  obtain ⟨t, ht⟩ := Option.isSome_iff_exists.mp (List.find?_isSome
    (p := fun s : LoadSeg => decide (s.kind = .text)).mpr ⟨s, hs, decide_eq_true hk⟩)
  exact ⟨t, List.mem_of_find?_eq_some ht, ht, by simpa using List.find?_some ht⟩

/-- The guard page below the stack is free exactly if no segment reaches into it. -/
lemma RootTask.Laid.guard_free_iff {rt : RootTask} (h : rt.Laid) :
    (∀ s ∈ stackSeg :: bootinfoSeg P :: rt.segments,
      userStackTop - userStackSize - P.granule < s.va ∨
        s.va + s.memsz ≤ userStackTop - userStackSize - P.granule) ↔
      ∀ s ∈ rt.segments, s.va + s.memsz ≤ userStackTop - userStackSize - P.granule ∨
        userStackTop - userStackSize ≤ s.va := by
  have hg := P.granule_pos
  have hguard : P.granule ∣ userStackTop - userStackSize - P.granule := by cases P <;> decide
  have hstack : userStackTop - userStackSize - P.granule < stackSeg.va := by cases P <;> decide
  have hinfo : (bootinfoSeg P).va + (bootinfoSeg P).memsz ≤
      userStackTop - userStackSize - P.granule := by cases P <;> decide
  have hsize : userStackTop - userStackSize - P.granule + P.granule =
      userStackTop - userStackSize := by cases P <;> decide
  rw [List.forall_mem_cons, List.forall_mem_cons]
  refine ⟨fun ⟨_, _, hfree⟩ s hs => ?_, fun hfree => ⟨.inl hstack, .inr hinfo, fun s hs => ?_⟩⟩
  · rcases hfree s hs with hlt | hle
    · have hva := (granule_dvd_segAlign P).trans (h.aligned s hs)
      exact .inr (hsize ▸ add_granule_le hguard hva hlt)
    · exact .inl hle
  · rcases hfree s hs with hle | hge
    · exact .inr hle
    · exact .inl (by omega)

/-- **When the check of the user mappings passes**, with the answers that the tables at the handoff
give: exactly if no segment of the root task reaches into the guard page below the user stack, and
no user page has the physical address of the kernel's text as its address. The other lines of the
table, among them the one on PAN, pass for every boot.

**Proof sketch.** The user tables have the pages of the boot and nothing else
(`Stages.exists_userPages`), and the attributes of the kernel's mappings give no access to EL0. -/
theorem checkUserWx_iff {elf : List UInt8} (helf : Elf.flatten elf = some I.rootTask)
    (b : Stages I i) (pan2 : Bool) :
    checkUserWx I pan2 I.rootTask.segments b.userMap = true ↔
      (∀ s ∈ I.rootTask.segments, s.va + s.memsz ≤ userStackTop - userStackSize - P.granule ∨
        userStackTop - userStackSize ≤ s.va) ∧
      ∀ s ∈ stackSeg :: bootinfoSeg P :: I.rootTask.segments,
        I.kernelStart < s.va ∨ s.va + s.memsz ≤ I.kernelStart := by
  obtain ⟨segs, hflat⟩ := Elf.flatten_eq_some helf
  have hrt := hflat.laid
  obtain ⟨stack, hload⟩ := b.loaded hrt
  obtain ⟨pm, hpm⟩ := b.exists_userPages hrt
  obtain ⟨text, hmem, hfind, hkind⟩ := hrt.find_text
  obtain ⟨o1, o2, o3, o4, o5, o6⟩ := I.order
  have hg := P.granule_pos
  -- the text page, the last page of the stack and the bootinfo page are there
  have hva := (granule_dvd_segAlign P).trans (hrt.aligned text hmem)
  have hpos := hrt.memsz_pos text hmem
  have hspace : text.va < 2 ^ 48 := by
    have h48 : text.va + text.pages P * P.granule ≤ 2 ^ 48 := (hload.space text hmem).2
    have hround : text.memsz ≤ text.pages P * P.granule := le_roundUp hg
    omega
  obtain ⟨p1, h1⟩ := hpm.page text (by simp [hmem]) text.va hva le_rfl (by omega)
  obtain ⟨p2, h2⟩ := hpm.page stackSeg (by simp) (userStackTop - P.granule)
    (by cases P <;> decide) (by cases P <;> decide) (by cases P <;> decide)
  obtain ⟨p3, h3⟩ := hpm.page (bootinfoSeg P) (by simp) Abi.bootinfoVa
    (by cases P <;> decide) (by cases P <;> decide) (by cases P <;> decide)
  rw [hkind] at h1
  have a1 := hpm.answers text.va hspace
  have a2 := hpm.answers (userStackTop - P.granule) (by cases P <;> decide)
  have a3 := hpm.answers Abi.bootinfoVa (by decide)
  have a4 := hpm.answers (userStackTop - userStackSize - P.granule) (by cases P <;> decide)
  have a5 := hpm.answers I.kernelStart (by omega)
  -- two lines are left
  have hguard : P.granule ∣ userStackTop - userStackSize - P.granule := by cases P <;> decide
  rw [checkUserWx_eq_true hfind, Nat.add_sub_cancel,
    b.canUserRead_alias I.start_aligned (by omega), a1.userRead, a1.userWrite, a2.userWrite,
    a3.userRead, a3.userWrite, a4.userRead, a5.read, a1.read, a1.readPanChecked, h1, h2, h3,
    not_not, not_not, hpm.none_iff _ hguard, hpm.none_iff _ I.start_aligned, hrt.guard_free_iff]
  have htextPerm : SegKind.text.perm ≠ .rwUser := by decide
  have hinfoPerm : (bootinfoSeg P).kind.perm ≠ .rwUser := by
    show SegKind.ro.perm ≠ .rwUser
    decide
  have hstackPerm : stackSeg.kind.perm = .rwUser := rfl
  simp [htextPerm, hinfoPerm, hstackPerm]

/-- The check passes on the small machine, whether PAN can be asked for or not. -/
theorem checkUserWx_iff_smallElf :
    ∃ b : Stages smallImage smallMachine, Elf.flatten smallElf = some smallImage.rootTask ∧
      ∀ pan2, checkUserWx smallImage pan2 smallImage.rootTask.segments b.userMap = true := by
  obtain ⟨k, hk⟩ := boot_smallMachine
  obtain ⟨b, -⟩ := boot_eq_some hk
  refine ⟨b, flatten_smallElf, fun pan2 => (checkUserWx_iff flatten_smallElf b pan2).mpr ?_⟩
  have hsegs : smallImage.rootTask.segments = [⟨0x400000, 0x4000, .text⟩] := rfl
  rw [hsegs]
  decide

end User

end K0
