import K0.Cap.Ledger
import K0.Boot.FdtCorrect
import K0.Boot.Main

set_option relaxedAutoImplicit false
set_option autoImplicit false

/-!
# How much memory the bootstrap hands out

Two counting arguments about the untyped capabilities. Every gap ends where its memory region ends
or where a reserved region starts, and no two gaps end at the same address; so there are at most as
many gaps as regions, and the limits of the parser keep the bootstrap within its slots. The sizes
of the gaps add up to the bytes of memory that are not reserved; the boot window is always 2 MiB of
them, wherever it lies, so more reservations never hand out more memory.

## Main definitions

* `K0.BootInfo.Available`: a byte of memory outside the kernel image and all reservations.
* `K0.CNode.untypedBytes`: the sum of the sizes of the untyped capabilities.

## Main results

* `K0.bootstrap_slots`: the number of untyped capabilities, and the slots that a boot uses.
* `K0.bootstrap_conserves`: the untyped bytes are the available bytes without the boot window.
-/

namespace K0

open Word

/-! ### Where gaps end -/

section Count

variable {memory reserved : List PhysRegion} {gapss : List (List (ℕ × ℕ))}

/-- A gap ends at the end of its memory region or at the start of a reserved region. -/
lemma gap_end {m : PhysRegion} {g : ℕ × ℕ} (h : Gaps.Maximal (m.Free reserved) g) :
    g.1 + g.2 = m.endAddr ∨ ∃ r ∈ reserved, g.1 + g.2 = r.base := by
  have hpos := h.pos
  obtain ⟨hlow, hhigh, hfree⟩ := h.inside (g.1 + g.2 - 1) (by omega) (by omega)
  rcases Classical.em (g.1 + g.2 = m.endAddr) with he | hne
  · exact .inl he
  · -- the byte behind the gap belongs to a reserved region, the byte before it does not
    have hright := h.right
    unfold PhysRegion.Free PhysRegion.FreeFrom at hright
    push Not at hright
    obtain ⟨r, hr, hle, hlt⟩ := hright (by omega) (by omega)
    have hbefore := hfree r hr
    clear hright
    exact .inr ⟨r, hr, by omega⟩

/-- There are at most as many gaps as regions.

**Proof sketch.** The ends of disjoint nonempty gaps are distinct, and each of them is the end of a
memory region or the start of a reserved one. -/
lemma gapss_length_le (hgood : ∀ r ∈ reserved, r.bad = false) (hapart : Apart memory)
    (hf : List.Forall₂ (fun m gaps => Gaps.IsGaps (m.Free reserved) gaps) memory gapss) :
    gapss.flatten.length ≤ memory.length + reserved.length := by
  have hfrom := hf.imp fun _ _ hg => GapsFrom.of_isGaps hgood hg
  have hmax : ∀ g ∈ gapss.flatten, ∃ m ∈ memory, Gaps.Maximal (m.Free reserved) g := by
    intro g hg
    clear hfrom hapart
    induction hf with
    | nil => simp at hg
    | @cons m gaps _ _ hm _ ih =>
      rcases List.mem_append.mp (List.flatten_cons ▸ hg) with hg | hg
      · exact ⟨m, by simp, (hm.mem_iff g).mp hg⟩
      · obtain ⟨m', hm', h⟩ := ih hg
        exact ⟨m', List.mem_cons_of_mem _ hm', h⟩
  have hnodup : (gapss.flatten.map fun g => g.1 + g.2).Nodup := by
    refine List.pairwise_map.mpr ((gaps_pairwise hfrom hapart).imp_of_mem ?_)
    intro g g' hg hg' hsep
    obtain ⟨_, -, h⟩ := hmax g hg
    obtain ⟨_, -, h'⟩ := hmax g' hg'
    have hpos := h.pos
    have hpos' := h'.pos
    unfold Word.Sep at hsep
    omega
  have hsub : (gapss.flatten.map fun g => g.1 + g.2) ⊆
      memory.map PhysRegion.endAddr ++ reserved.map PhysRegion.base := by
    intro e he
    obtain ⟨g, hg, rfl⟩ := List.mem_map.mp he
    obtain ⟨m, hm, h⟩ := hmax g hg
    rcases gap_end h with he | ⟨r, hr, he⟩
    · exact List.mem_append_left _ (List.mem_map.mpr ⟨m, hm, he.symm⟩)
    · exact List.mem_append_right _ (List.mem_map.mpr ⟨r, hr, he.symm⟩)
  have hlen := (List.subperm_of_subset hnodup hsub).length_le
  rwa [List.length_map, List.length_append, List.length_map, List.length_map] at hlen

/-- The sizes of the gaps add up to the free bytes of all memory regions. -/
lemma gapss_sum (hgood : ∀ r ∈ reserved, r.bad = false) (hapart : Apart memory)
    (hf : List.Forall₂ (fun m gaps => Gaps.IsGaps (m.Free reserved) gaps) memory gapss) :
    (gapss.flatten.map Prod.snd).sum = {x | ∃ m ∈ memory, m.Free reserved x}.ncard := by
  have hfrom := hf.imp fun _ _ hg => GapsFrom.of_isGaps hgood hg
  have hset : {x | ∃ m ∈ memory, m.Free reserved x} = Gaps.cover gapss.flatten := by
    ext x
    clear hfrom hapart
    induction hf with
    | nil => simp [Gaps.cover]
    | @cons m gaps rest _ hm _ ih =>
      have hhead := hm.free_iff (fun y hy => (hy.2.1 : y < m.endAddr)) x
      show (∃ m' ∈ m :: rest, m'.Free reserved x) ↔ ∃ g ∈ (gaps :: _).flatten, _
      rw [List.exists_mem_cons_iff, hhead, List.flatten_cons]
      simp only [List.mem_append, or_and_right, exists_or]
      exact or_congr_right ih
  rw [hset, (Gaps.cover_finite_and_ncard (gaps_pairwise hfrom hapart)).2]

end Count

/-! ### The slots of a boot -/

/-- Whether a capability is untyped memory. -/
def Cap.isUntyped : Cap → Bool
  | .untyped _ _ _ => true
  | _ => false

/-- Regions that fit in the buffer are copied unchanged. -/
lemma copyRegions_eq {n : ℕ} {regions : List MemRegion} (h : regions.length ≤ n) :
    copyRegions n regions = some regions := by
  unfold copyRegions
  rw [if_pos h, List.take_of_length_le h, List.take_left]

/-- The untyped capabilities among the fixed ones and a list of gaps are the gaps. -/
lemma countP_take_caps (root k : ℕ) (gaps : List (ℕ × ℕ)) :
    ((fixedCaps root ++ gaps.map gapCap).take k).countP Cap.isUntyped ≤ gaps.length := by
  calc ((fixedCaps root ++ gaps.map gapCap).take k).countP Cap.isUntyped
      ≤ (fixedCaps root ++ gaps.map gapCap).countP Cap.isUntyped :=
        (List.take_sublist _ _).countP_le
    _ = (gaps.map gapCap).countP Cap.isUntyped := by
        rw [List.countP_append]
        simp [fixedCaps, Cap.isUntyped]
    _ ≤ gaps.length := by
        simpa using List.countP_le_length (p := Cap.isUntyped) (l := gaps.map gapCap)

/-- The bootstrap of an empty node with proper, disjoint regions succeeds if there is a slot for
every region besides the fixed capabilities. -/
lemma populate_of_proper {memory reserved : List PhysRegion} (root : ℕ)
    (hmem : ∀ m ∈ memory, m.bad = false) (hapart : Apart memory)
    (hres : ∀ r ∈ reserved, r.bad = false)
    (hfit : 4 + (memory.length + reserved.length) ≤ cnodeSlots) :
    ∃ d, populate CNode.init memory reserved root = some (.ok (), d) ∧
      d.used ≤ 4 + (memory.length + reserved.length) := by
  obtain ⟨gapss, hf, hpop⟩ := populate_eq root hmem hapart hres
  have hcount := gapss_length_le hres hapart hf
  have hlen : (fixedCaps root ++ gapss.flatten.map gapCap).length ≤
      4 + (memory.length + reserved.length) := by
    rw [List.length_append, List.length_map]
    exact Nat.add_le_add_left hcount 4
  obtain ⟨d, hd, hds⟩ := pushCaps_of_le (c := CNode.init)
    (l := fixedCaps root ++ gapss.flatten.map gapCap)
    ((Nat.zero_add _).trans_le (hlen.trans hfit))
  refine ⟨d, by rw [hpop, hd], ?_⟩
  unfold CNode.used
  rw [hds]
  exact hlen

/-- If there is a slot for every region besides the fixed capabilities, the bootstrap of an empty
node does not run out of slots.

**Proof sketch.** With proper regions it succeeds; improper or overlapping ones are refused before
any untyped capability is appended. -/
lemma populate_slots {memory reserved : List PhysRegion} (root : ℕ) (hne : memory ≠ [])
    (hfit : 4 + (memory.length + reserved.length) ≤ cnodeSlots) :
    ∃ r d, populate CNode.init memory reserved root = some (r, d) ∧ r ≠ .error .outOfSlots ∧
      d.used ≤ 4 + (memory.length + reserved.length) := by
  by_cases hall : (∀ m ∈ memory, m.bad = false) ∧ Apart memory ∧ ∀ r ∈ reserved, r.bad = false
  · obtain ⟨hmem, hapart, hres⟩ := hall
    obtain ⟨d, hd, hused⟩ := populate_of_proper root hmem hapart hres hfit
    exact ⟨.ok (), d, hd, by simp, hused⟩
  · have hbad : (∃ m ∈ memory, m.bad = true) ∨ ¬ Apart memory ∨
        (memory ≠ [] ∧ ∃ r ∈ reserved, r.bad = true) := by
      by_contra hn
      push Not at hn
      exact hall ⟨fun m hm => Bool.eq_false_iff.mpr (hn.1 m hm), hn.2.1,
        fun r hr => Bool.eq_false_iff.mpr (hn.2.2 hne r hr)⟩
    obtain ⟨d, hd, hslots⟩ := populate_bad root (c := CNode.init) (by decide) hbad
    refine ⟨_, d, hd, by simp, ?_⟩
    unfold CNode.used
    rcases hslots with hs | hs <;> rw [hs] <;> simp [CNode.init, fixedCaps]

/-- The regions of an accepted device tree and the fixed capabilities need at most 23 slots. -/
lemma BootInfo.Ok.slots_le {dtb : Span} {info : BootInfo} (h : info.Ok dtb)
    (kernelImage window : Span) :
    4 + (info.memory.length +
      (fixedReserved kernelImage info.dtb window ++ info.reserved).length) ≤ 23 := by
  have h1 := h.memory_le
  have h2 := h.reserved_le
  rw [List.length_append]
  unfold Fdt.maxMemRegions at h1
  unfold Fdt.maxRsvRegions at h2
  simp only [fixedReserved, List.length_cons, List.length_nil]
  omega

/-- No region of an accepted device tree is lost on the way to the bootstrap. -/
lemma BootInfo.Ok.bootstrap_eq {dtb : Span} {info : BootInfo} (h : info.Ok dtb)
    (kernelImage window : Span) (root : ℕ) :
    bootstrap info kernelImage window root = populate CNode.init info.memory
      (fixedReserved kernelImage info.dtb window ++ info.reserved) root := by
  unfold bootstrap
  rw [copyRegions_eq h.memory_le, copyRegions_eq h.reserved_le]
  rfl

/-- The bootstrap appends at most one untyped capability for every memory and every reserved
region. A boot therefore never runs out of slots: whatever blob the parser accepts and wherever
the kernel image and the window lie, no region is lost on the way to the bootstrap, which uses at
most 23 of the 32 slots. -/
theorem bootstrap_slots :
    (∀ (memory reserved : List PhysRegion) (root : ℕ) (c d : CNode) (r : Except CapError Unit),
      (∀ m ∈ memory, m.Proper) → Apart memory → (∀ q ∈ reserved, q.Proper) →
      populate c memory reserved root = some (r, d) →
      d.slots.countP Cap.isUntyped ≤
        c.slots.countP Cap.isUntyped + (memory.length + reserved.length)) ∧
    (∀ (blob : List UInt8) (dtb kernelImage window : Span) (info : BootInfo) (root : ℕ),
      Fdt.parseBlob blob dtb = .ok info →
      copyRegions Fdt.maxMemRegions info.memory = some info.memory ∧
      copyRegions Fdt.maxRsvRegions info.reserved = some info.reserved ∧
      ∃ r d, bootstrap info kernelImage window root = some (r, d) ∧
        r ≠ .error .outOfSlots ∧ d.used ≤ 23) := by
  refine ⟨fun memory reserved root c d r hmem hapart hres h => ?_,
    fun blob dtb kernelImage window info root h => ?_⟩
  · have hres' : ∀ q ∈ reserved, q.bad = false := fun q hq => PhysRegion.proper_iff.mp (hres q hq)
    obtain ⟨gapss, hf, hpop⟩ :=
      populate_eq root (fun m hm => PhysRegion.proper_iff.mp (hmem m hm)) hapart hres'
    rw [hpop, Option.some.injEq] at h
    obtain ⟨k, hk, -⟩ := pushCaps_prefix (c := c) (l := fixedCaps root ++ gapss.flatten.map gapCap)
    rw [h] at hk
    rw [hk, List.countP_append]
    exact Nat.add_le_add_left
      ((countP_take_caps root k gapss.flatten).trans (gapss_length_le hres' hapart hf)) _
  · obtain ⟨hok, hne⟩ := Fdt.parseBlob_ok h
    have hmem := copyRegions_eq hok.memory_le
    have hres := copyRegions_eq hok.reserved_le
    have hlen := hok.slots_le kernelImage window
    obtain ⟨r, d, hpop, hr, hd⟩ := populate_slots root hne
      (hlen.trans (by decide : 23 ≤ cnodeSlots))
    refine ⟨hmem, hres, r, d, ?_, hr, hd.trans hlen⟩
    rw [hok.bootstrap_eq]
    exact hpop

/-- A board with one bank of memory, by its reserved regions. -/
def oneBankInfo (reserved : List MemRegion) : BootInfo :=
  ⟨⟨0x48000000, 0x48000080⟩, [⟨0x40000000, 0x40000000⟩], reserved, []⟩

/-- The capabilities of one bank of memory: what is left around the fixed reservations. -/
theorem bootstrap_slots_oneBank :
    (∃ d, populate CNode.init [⟨0, 10⟩, ⟨20, 5⟩] [⟨3, 2⟩] 0 = some (.ok (), d) ∧
      d.slots.countP Cap.isUntyped ≤ 3) ∧
    ∃ r d, bootstrap (oneBankInfo []) ⟨0x40200000, 0x40300000⟩ ⟨0x40300000, 0x40500000⟩ 0 =
      some (r, d) ∧ d.used ≤ 23 := by
  constructor
  · obtain ⟨d, hd⟩ : ∃ d, populate CNode.init [⟨0, 10⟩, ⟨20, 5⟩] [⟨3, 2⟩] 0 = some (.ok (), d) :=
      ⟨_, rfl⟩
    refine ⟨d, hd, bootstrap_slots.1 _ _ _ _ _ _ ?_ ?_ ?_ hd⟩
    · unfold PhysRegion.Proper
      decide
    · unfold Apart Word.Sep
      decide
    · unfold PhysRegion.Proper
      decide
  · obtain ⟨-, -, r, d, h, -, hd⟩ := bootstrap_slots.2 Fdt.oneBankBlob ⟨0x48000000, 0x48000080⟩
      ⟨0x40200000, 0x40300000⟩ ⟨0x40300000, 0x40500000⟩ (oneBankInfo []) 0 (by decide +kernel)
    exact ⟨r, d, h, hd⟩

/-! ### The bytes of a boot -/

/-- A byte of a region. -/
def PhysRegion.Holds (r : PhysRegion) (x : ℕ) : Prop := r.base ≤ x ∧ x < r.base + r.size

/-- A byte of a range. -/
def Span.Holds (s : Span) (x : ℕ) : Prop := s.start ≤ x ∧ x < s.stop

/-- A byte of memory outside the kernel image, the device tree and the reserved regions. -/
def BootInfo.Available (info : BootInfo) (kernelImage : Span) (x : ℕ) : Prop :=
  (∃ m ∈ info.memory, m.Holds x) ∧ ¬ kernelImage.Holds x ∧ ¬ info.dtb.Holds x ∧
    ∀ r ∈ info.reserved, ¬ r.Holds x

/-- The size of an untyped capability. -/
def Cap.untypedSize : Cap → ℕ
  | .untyped _ size _ => size
  | _ => 0

/-- The sum of the sizes of the untyped capabilities. -/
def CNode.untypedBytes (c : CNode) : ℕ := (c.slots.map Cap.untypedSize).sum

/-- The untyped bytes of a node after the bootstrap are the sizes of its gaps. -/
lemma untypedBytes_eq {c : CNode} {root : ℕ} {gaps : List (ℕ × ℕ)}
    (h : c.slots = fixedCaps root ++ gaps.map gapCap) :
    c.untypedBytes = (gaps.map Prod.snd).sum := by
  unfold CNode.untypedBytes
  rw [h, List.map_append, List.sum_append, List.map_map]
  simp [fixedCaps, Cap.untypedSize, gapCap, Function.comp_def]

section Bytes

variable {P : Platform} {info : BootInfo} {img w : Span} {root : ℕ} {c : CNode}

/-- What a successful bootstrap has checked and appended. -/
lemma bootstrap_ok (h : bootstrap info img w root = some (.ok (), c)) :
    (∀ r ∈ fixedReserved img info.dtb w ++ info.reserved, info.memory ≠ [] → r.bad = false) ∧
    Apart info.memory ∧ populate CNode.init info.memory
      (fixedReserved img info.dtb w ++ info.reserved) root = some (.ok (), c) := by
  unfold bootstrap at h
  obtain ⟨memory, hmem, h⟩ := Option.bind_eq_some_iff.mp h
  obtain ⟨reserved, hres, h⟩ := Option.bind_eq_some_iff.mp h
  have hcopy : ∀ {n : ℕ} {regions regions' : List MemRegion},
      copyRegions n regions = some regions' → regions' = regions := by
    intro n regions regions' hc
    by_cases hle : regions.length ≤ n
    · rw [copyRegions_eq hle] at hc
      exact (Option.some.inj hc).symm
    · simp [copyRegions, hle] at hc
  obtain rfl := hcopy hmem
  obtain rfl := hcopy hres
  refine ⟨fun r hr hne => Bool.eq_false_iff.mpr fun hb => ?_, (populate_ok h).2.1, h⟩
  obtain ⟨d, hd, -⟩ := populate_bad root (c := CNode.init) (by decide)
    (.inr (.inr ⟨hne, r, hr, hb⟩))
  rw [hd] at h
  simp at h

/-- A reservation of a nonempty range holds its bytes. -/
lemma Span.holds_iff {s : Span} {x : ℕ} (h : PhysRegion.bad ⟨s.start, s.stop - s.start⟩ = false) :
    (s.start ≤ x ∧ x < PhysRegion.endAddr ⟨s.start, s.stop - s.start⟩) ↔ s.Holds x := by
  have hpos := (PhysRegion.bad_eq_false.mp h).1
  unfold Span.Holds PhysRegion.endAddr
  dsimp only at hpos ⊢
  omega

/-- The bytes that the bootstrap finds free are the available ones outside the window. -/
lemma free_iff_available
    (hgood : ∀ r ∈ fixedReserved img info.dtb w ++ info.reserved, r.bad = false) (x : ℕ) :
    (∃ m ∈ info.memory, m.Free (fixedReserved img info.dtb w ++ info.reserved) x) ↔
      info.Available img x ∧ ¬ w.Holds x := by
  have himg := Span.holds_iff (s := img) (x := x) (hgood _ (by simp [fixedReserved]))
  have hdtb := Span.holds_iff (s := info.dtb) (x := x) (hgood _ (by simp [fixedReserved]))
  have hw := Span.holds_iff (s := w) (x := x) (hgood _ (by simp [fixedReserved]))
  have hclear : (∀ r ∈ fixedReserved img info.dtb w ++ info.reserved,
      ¬ (r.base ≤ x ∧ x < r.endAddr)) ↔
      ¬ img.Holds x ∧ ¬ info.dtb.Holds x ∧ ¬ w.Holds x ∧ ∀ r ∈ info.reserved, ¬ r.Holds x := by
    simp only [fixedReserved, List.cons_append, List.nil_append, List.forall_mem_cons]
    rw [himg, hdtb, hw]
    rfl
  unfold PhysRegion.Free PhysRegion.FreeFrom BootInfo.Available
  constructor
  · rintro ⟨m, hm, h1, h2, h3⟩
    obtain ⟨h4, h5, h6, h7⟩ := hclear.mp h3
    exact ⟨⟨⟨m, hm, h1, h2⟩, h4, h5, h7⟩, h6⟩
  · rintro ⟨⟨⟨m, hm, h1, h2⟩, h4, h5, h7⟩, h6⟩
    exact ⟨m, hm, h1, h2, hclear.mpr ⟨h4, h5, h6, h7⟩⟩

/-- Finitely many bytes are available. -/
lemma available_finite (info : BootInfo) (img : Span) : {x | info.Available img x}.Finite := by
  refine Set.Finite.subset (Set.finite_Iio
    ((info.memory.map fun m => m.base + m.size).foldr max 0)) fun x hx => ?_
  obtain ⟨⟨m, hm, -, hlt⟩, -⟩ := hx
  exact hlt.trans_le (List.le_max_of_le' 0 (List.mem_map.mpr ⟨m, hm, rfl⟩) le_rfl)

/-- A boot window consists of available bytes. -/
lemma available_of_window (hw : pickWindow P info img = some w)
    (hgood : ∀ r ∈ fixedReserved img info.dtb w ++ info.reserved, r.bad = false) {x : ℕ}
    (hx : w.Holds x) : info.Available img x := by
  have hok := pickWindow_ok hw
  have hdtb := (PhysRegion.bad_eq_false.mp
    (hgood ⟨info.dtb.start, info.dtb.stop - info.dtb.start⟩ (by simp [fixedReserved]))).1
  obtain ⟨m, hm, h1, h2⟩ := hok.inside
  have habove := hok.above
  unfold Span.Holds at hx
  refine ⟨⟨m, hm, ?_⟩, ?_, ?_, fun r hr => ?_⟩
  · unfold PhysRegion.Holds
    omega
  · unfold Span.Holds
    omega
  · have hclear := hok.clear _ (List.mem_cons_self ..)
    unfold Span.Holds
    dsimp only at hclear hdtb
    omega
  · have hclear := hok.clear r (List.mem_cons_of_mem _ hr)
    unfold PhysRegion.Holds
    omega

/-- The untyped bytes and the window make up the available bytes. -/
lemma untypedBytes_add_window (hw : pickWindow P info img = some w)
    (h : bootstrap info img w root = some (.ok (), c)) :
    c.untypedBytes + windowSize = {x | info.Available img x}.ncard := by
  obtain ⟨hbad, hapart, hpop⟩ := bootstrap_ok h
  have hok := pickWindow_ok hw
  have hne : info.memory ≠ [] := by
    obtain ⟨m, hm, -⟩ := hok.inside
    exact List.ne_nil_of_mem hm
  have hgood : ∀ r ∈ fixedReserved img info.dtb w ++ info.reserved, r.bad = false :=
    fun r hr => hbad r hr hne
  obtain ⟨gapss, hf, hall⟩ := populate_eq root (populate_ok hpop).1 hapart hgood
  rw [hall, Option.some.injEq] at hpop
  have hslots : c.slots = fixedCaps root ++ gapss.flatten.map gapCap := pushCaps_ok hpop
  have hsum : c.untypedBytes =
      ({x | info.Available img x} \ Set.Ico w.start w.stop).ncard := by
    rw [untypedBytes_eq hslots, gapss_sum hgood hapart hf]
    congr 1
    ext x
    exact free_iff_available hgood x
  have hcard : (Set.Ico w.start w.stop).ncard = windowSize := by
    rw [← Finset.coe_Ico, Set.ncard_coe_finset, Nat.card_Ico, hok.size, Nat.add_sub_cancel_left]
  rw [hsum, ← hcard]
  exact Set.ncard_sdiff_add_ncard_of_subset
    (fun x hx => available_of_window hw hgood hx) (available_finite info img)

end Bytes

/-- Reservations only remove memory. After a successful choice of the window and a successful
bootstrap every untyped byte lies in memory and outside the kernel image, the device tree, the
window and the reserved regions, and the untyped sizes add up to the available bytes minus the
2 MiB of the window. A second boot that differs in additional reservations, and perhaps in the
window, hands out at most as much. -/
theorem bootstrap_conserves {P : Platform} {info : BootInfo} {img w : Span} {root : ℕ} {c : CNode}
    (hw : pickWindow P info img = some w) (h : bootstrap info img w root = some (.ok (), c)) :
    (∀ base size used, .untyped base size used ∈ c.slots → ∀ x, base ≤ x → x < base + size →
      info.Available img x ∧ ¬ w.Holds x) ∧
    c.untypedBytes = {x | info.Available img x}.ncard - 2 * 1024 * 1024 ∧
    2 * 1024 * 1024 ≤ {x | info.Available img x}.ncard ∧
    ∀ (info' : BootInfo) (w' : Span) (root' : ℕ) (c' : CNode),
      info'.dtb = info.dtb → info'.memory = info.memory → info.reserved ⊆ info'.reserved →
      pickWindow P info' img = some w' → bootstrap info' img w' root' = some (.ok (), c') →
      c'.untypedBytes ≤ c.untypedBytes := by
  have hsum := untypedBytes_add_window hw h
  have hsize : windowSize = 2 * 1024 * 1024 := rfl
  refine ⟨fun base size used hmem x h1 h2 => ?_, by omega, by omega,
    fun info' w' root' c' hdtb hmemory hsub hw' h' => ?_⟩
  · obtain ⟨hbad, hapart, hpop⟩ := bootstrap_ok h
    have hne : info.memory ≠ [] := by
      obtain ⟨m, hm, -⟩ := (pickWindow_ok hw).inside
      exact List.ne_nil_of_mem hm
    have hgood : ∀ r ∈ fixedReserved img info.dtb w ++ info.reserved, r.bad = false :=
      fun r hr => hbad r hr hne
    obtain ⟨i, hi, hslot⟩ := List.getElem_of_mem hmem
    have hledger := Ledger.populate (g := 1) hpop
    have hcap : c.cap i = some (.untyped base size used) := by
      unfold CNode.cap
      rw [List.getElem?_eq_getElem hi, hslot]
    obtain ⟨m, hm, hin1, hin2⟩ := hledger.inside i base size used hcap
    refine (free_iff_available hgood x).mp ⟨m, hm, by omega, by omega, fun r hr hx => ?_⟩
    have hsep := hledger.clear i base size used hcap r hr
    unfold PhysRegion.endAddr at hx
    unfold Word.Sep at hsep
    omega
  · have hsum' := untypedBytes_add_window hw' h'
    have hle : {x | info'.Available img x}.ncard ≤ {x | info.Available img x}.ncard := by
      refine Set.ncard_le_ncard (fun x hx => ?_) (available_finite info img)
      obtain ⟨h1, h2, h3, h4⟩ := hx
      exact ⟨hmemory ▸ h1, h2, hdtb ▸ h3, fun r hr => h4 r (hsub hr)⟩
    omega

/-- Two boots of one bank, the second with a reserved region that moves the window. -/
theorem bootstrap_conserves_oneBank :
    ∃ c c', bootstrap (oneBankInfo []) ⟨0x40200000, 0x40300000⟩ ⟨0x40300000, 0x40500000⟩ 0 =
        some (.ok (), c) ∧
      bootstrap (oneBankInfo [⟨0x40400000, 16⟩]) ⟨0x40200000, 0x40300000⟩
        ⟨0x40401000, 0x40601000⟩ 0 = some (.ok (), c') ∧
      c'.untypedBytes ≤ c.untypedBytes := by
  obtain ⟨c, hc⟩ : ∃ c, bootstrap (oneBankInfo []) ⟨0x40200000, 0x40300000⟩
      ⟨0x40300000, 0x40500000⟩ 0 = some (.ok (), c) := ⟨_, rfl⟩
  obtain ⟨c', hc'⟩ : ∃ c, bootstrap (oneBankInfo [⟨0x40400000, 16⟩]) ⟨0x40200000, 0x40300000⟩
      ⟨0x40401000, 0x40601000⟩ 0 = some (.ok (), c) := ⟨_, rfl⟩
  have hw : pickWindow .virt (oneBankInfo []) ⟨0x40200000, 0x40300000⟩ =
      some ⟨0x40300000, 0x40500000⟩ := by decide +kernel
  have hw' : pickWindow .virt (oneBankInfo [⟨0x40400000, 16⟩]) ⟨0x40200000, 0x40300000⟩ =
      some ⟨0x40401000, 0x40601000⟩ := by decide +kernel
  obtain ⟨-, -, -, hmono⟩ := bootstrap_conserves hw hc
  refine ⟨c, c', hc, hc', hmono (oneBankInfo [⟨0x40400000, 16⟩]) _ _ c' rfl rfl ?_ hw' hc'⟩
  exact List.nil_subset _

end K0
