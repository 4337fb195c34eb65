import K0.Boot.FdtSound

set_option relaxedAutoImplicit false
set_option autoImplicit false

/-!
# The memory map and the boot window

The checks of `kernel/src/main.rs` on the parsed memory map: no memory region may meet a device
window of the board, and the boot window is a free aligned range above the kernel image. The root
task and the user page tables are built from the frames of that window.

## Main definitions

* `K0.deviceWindows`: the device windows of a board.
* `K0.checkMemoryMap`: the check of the memory map.
* `K0.pickWindow`: the search for the boot window.

## Main results

* `K0.checkMemoryMap_ok`: accepted memory lies apart from the devices.
* `K0.pickWindow_ok`: where a boot window lies.
* `K0.pickWindow_eq_some_iff`: the boot window is the lowest range that fits.
-/

namespace K0

open Word

/-! ### Devices -/

/-- The address of the console device. -/
def Platform.mmioBase : Platform → ℕ
  | virt => 0x09000000
  | apple => 0x235200000

/-- The device windows of a board. Empty windows are placeholders. -/
def deviceWindows (P : Platform) : List Span :=
  match P with
  | .virt =>
    [⟨P.mmioBase, P.mmioBase + P.granule⟩, ⟨0x08000000, 0x08000000 + 0x10000⟩,
      ⟨0x080A0000, 0x080A0000 + 0x20000⟩]
  | .apple => [⟨P.mmioBase, P.mmioBase + P.granule⟩, ⟨0, 0⟩, ⟨0, 0⟩]

/-- No memory region meets a nonempty device window. -/
def checkMemoryMap (P : Platform) (i : BootInfo) : Bool :=
  (deviceWindows P).all fun dev =>
    decide (dev.stop ≤ dev.start) ||
      i.memory.all fun m => !(decide (m.base < dev.stop) && decide (dev.start < m.base + m.size))

/-- Accepted memory lies apart from the devices. -/
lemma checkMemoryMap_ok {P : Platform} {i : BootInfo} (h : checkMemoryMap P i = true) :
    ∀ dev ∈ deviceWindows P, dev.start < dev.stop → ∀ m ∈ i.memory,
      Sep m.base m.size dev.start (dev.stop - dev.start) := by
  intro dev hdev hne m hm
  have hall := List.all_eq_true.mp h dev hdev
  rw [Bool.or_eq_true, decide_eq_true_eq] at hall
  rcases hall with hle | hall
  · omega
  · have hmeet := List.all_eq_true.mp hall m hm
    simp only [Bool.not_eq_true', Bool.and_eq_false_iff, decide_eq_false_iff_not] at hmeet
    unfold Word.Sep
    omega

/-! ### The boot window -/

/-- The size of the boot window. -/
def windowSize : ℕ := 2 * 1024 * 1024

/-- Round up to the granule; `none` on overflow. -/
def alignUp (P : Platform) (v : ℕ) : Option ℕ :=
  (checkedAdd v (P.granule - 1)).map (maskDown P.granule)

section Search

variable (P : Platform)

/-- One pass over the obstacles: the start moves behind each one that it meets, while the end
stays where it was. -/
def bump (stop : ℕ) : List MemRegion → ℕ → Bool → Option (ℕ × Bool)
  | [], start, bumped => some (start, bumped)
  | r :: rest, start, bumped =>
    match checkedAdd r.base r.size with
    | none => none
    | some rEnd =>
      if rEnd > start ∧ r.base < stop then
        match alignUp P rEnd with
        | none => none
        | some up => bump stop rest (max start up) true
      else bump stop rest start bumped

/-- The lowest memory base above an address. -/
def nextBase (memory : List MemRegion) (start : ℕ) : Option ℕ :=
  ((memory.map PhysRegion.base).filter fun b => decide (b > start)).min?

/-- The rounds of the search. -/
def searchWindow (obstacles memory : List MemRegion) : ℕ → ℕ → Option Span
  | 0, _ => none
  | rounds + 1, start => do
    let stop ← checkedAdd start windowSize
    let (start, bumped) ← bump P stop obstacles start false
    if bumped then searchWindow obstacles memory rounds start
    else if memory.any fun m => decide (start ≥ m.base) && decide (stop ≤ m.base + m.size) then
      some ⟨start, stop⟩
    else do
      let next ← nextBase memory start
      let start ← alignUp P next
      searchWindow obstacles memory rounds start

/-- Choose the boot window: the first fitting range above the kernel image. -/
def pickWindow (i : BootInfo) (kernelImage : Span) : Option Span :=
  (alignUp P kernelImage.stop).bind
    (searchWindow P (⟨i.dtb.start, i.dtb.stop - i.dtb.start⟩ :: i.reserved) i.memory 64)

end Search

section Spec

variable {P : Platform}

/-- Rounding up gives the least multiple of the granule that is not below. -/
lemma alignUp_eq_some {v w : ℕ} (h : alignUp P v = some w) :
    w = roundUp P.granule v ∧ v + (P.granule - 1) < 2 ^ 64 := by
  unfold alignUp at h
  obtain ⟨u, hu, rfl⟩ := Option.map_eq_some_iff.mp h
  obtain ⟨hlt, rfl⟩ := checkedAdd_eq_some.mp hu
  exact ⟨maskDown_eq P.pageShift_lt.le hlt, hlt⟩

/-- A pass over the obstacles never moves the start back, and keeps it aligned. If it reports no
bump, the start has not moved and no obstacle meets the range. -/
lemma bump_spec {stop : ℕ} {obstacles : List MemRegion} {start start' : ℕ} {bumped bumped' : Bool}
    (h : bump P stop obstacles start bumped = some (start', bumped')) (ha : P.granule ∣ start) :
    P.granule ∣ start' ∧ start ≤ start' ∧
      (bumped' = false → bumped = false ∧ start' = start ∧
        ∀ r ∈ obstacles, r.base + r.size ≤ start ∨ stop ≤ r.base) := by
  induction obstacles generalizing start bumped with
  | nil =>
    simp only [bump, Option.some.injEq, Prod.mk.injEq] at h
    obtain ⟨rfl, rfl⟩ := h
    exact ⟨ha, le_rfl, fun hb => ⟨hb, rfl, by simp⟩⟩
  | cons r rest ih =>
    unfold bump at h
    split at h
    · cases h
    · rename_i rEnd hend
      obtain ⟨-, rfl⟩ := checkedAdd_eq_some.mp hend
      split_ifs at h with hmeet
      · split at h
        · cases h
        · rename_i up hup
          obtain ⟨rfl, -⟩ := alignUp_eq_some hup
          have hmax : P.granule ∣ max start (roundUp P.granule (r.base + r.size)) := by
            rcases max_choice start (roundUp P.granule (r.base + r.size)) with he | he
            · rw [he]
              exact ha
            · rw [he]
              exact dvd_roundUp _ _
          obtain ⟨h1, h2, h3⟩ := ih h hmax
          refine ⟨h1, (le_max_left _ _).trans h2, fun hb => ?_⟩
          -- the pass has already reported a bump
          exact absurd (h3 hb).1 (by simp)
      · obtain ⟨h1, h2, h3⟩ := ih h ha
        refine ⟨h1, h2, fun hb => ?_⟩
        obtain ⟨hb', rfl, hrest⟩ := h3 hb
        refine ⟨hb', rfl, fun r' hr' => ?_⟩
        rcases List.mem_cons.mp hr' with rfl | hr'
        · omega
        · exact hrest r' hr'

/-- What holds of a window that was found from `low` on. -/
structure WindowOk (P : Platform) (obstacles memory : List MemRegion) (low : ℕ) (w : Span) :
    Prop where
  aligned : P.granule ∣ w.start
  size : w.stop = w.start + windowSize
  above : low ≤ w.start
  clear : ∀ r ∈ obstacles, r.base + r.size ≤ w.start ∨ w.stop ≤ r.base
  inside : ∃ m ∈ memory, m.base ≤ w.start ∧ w.stop ≤ m.base + m.size

/-- The start of a window is a bound that may be lowered. -/
lemma WindowOk.mono {obstacles memory : List MemRegion} {low low' : ℕ} {w : Span}
    (h : WindowOk P obstacles memory low w) (hle : low' ≤ low) :
    WindowOk P obstacles memory low' w :=
  ⟨h.aligned, h.size, hle.trans h.above, h.clear, h.inside⟩

/-- The search finds a window at or above its start.

**Proof sketch.** By induction on the rounds. A round moves the start up, behind an obstacle or
to the next memory region, and keeps it aligned; the round that ends the search has checked all
obstacles and found a region. -/
lemma searchWindow_ok {obstacles memory : List MemRegion} {w : Span} (rounds : ℕ) {start : ℕ}
    (h : searchWindow P obstacles memory rounds start = some w) (ha : P.granule ∣ start) :
    WindowOk P obstacles memory start w := by
  induction rounds generalizing start with
  | zero => cases h
  | succ rounds ih =>
    unfold searchWindow at h
    obtain ⟨stop, hstop, hpass⟩ := Option.bind_eq_some_iff.mp h
    clear h
    obtain ⟨-, hsize⟩ := checkedAdd_eq_some.mp hstop
    obtain ⟨⟨start', bumped⟩, hbump, h⟩ := Option.bind_eq_some_iff.mp hpass
    clear hpass
    obtain ⟨ha', hle, hclear⟩ := bump_spec hbump ha
    dsimp only at h
    split_ifs at h with hb hany
    · exact (ih h ha').mono hle
    · obtain ⟨-, rfl, hclear⟩ := hclear (Bool.eq_false_iff.mpr hb)
      obtain rfl := Option.some.inj h
      obtain ⟨m, hm, hin⟩ := List.any_eq_true.mp hany
      rw [Bool.and_eq_true, decide_eq_true_eq, decide_eq_true_eq] at hin
      exact ⟨ha, hsize, le_rfl, hclear, m, hm, hin⟩
    · obtain ⟨b, hb, h⟩ := Option.bind_eq_some_iff.mp h
      obtain ⟨next, hup, h⟩ := Option.bind_eq_some_iff.mp h
      obtain ⟨rfl, -⟩ := alignUp_eq_some hup
      -- the next base lies above the start
      have hgt : b > start' := by simpa using (List.mem_filter.mp (List.min?_mem hb)).2
      have hround := le_roundUp (x := b) P.granule_pos
      exact (ih h (dvd_roundUp _ _)).mono (by omega)

/-- A boot window is aligned, lies above the kernel image in one memory region, and meets neither
the device tree nor a reserved region. -/
theorem pickWindow_ok {i : BootInfo} {img w : Span} (h : pickWindow P i img = some w) :
    WindowOk P (⟨i.dtb.start, i.dtb.stop - i.dtb.start⟩ :: i.reserved) i.memory img.stop w := by
  obtain ⟨start, hstart, h⟩ := Option.bind_eq_some_iff.mp h
  obtain ⟨rfl, -⟩ := alignUp_eq_some hstart
  exact (searchWindow_ok 64 h (dvd_roundUp _ _)).mono (le_roundUp P.granule_pos)

/-! ### Completeness of the search -/

/-- Rounding up does not overflow below an aligned address that leaves room for a granule. -/
lemma alignUp_of_le {v a : ℕ} (ha : P.granule ∣ a) (hle : v ≤ a) (hlt : a + windowSize < 2 ^ 64) :
    ∃ u, alignUp P v = some u ∧ u = roundUp P.granule v ∧ u ≤ a := by
  have hg : P.granule ≤ windowSize := by cases P <;> decide
  have hsum : v + (P.granule - 1) < 2 ^ 64 := by omega
  refine ⟨maskDown P.granule (v + (P.granule - 1)), ?_, ?_, ?_⟩
  · unfold alignUp
    rw [checkedAdd_eq_some.mpr ⟨hsum, rfl⟩]
    rfl
  · exact maskDown_eq P.pageShift_lt.le hsum
  · rw [show maskDown P.granule (v + (P.granule - 1)) = roundUp P.granule v from
      maskDown_eq P.pageShift_lt.le hsum]
    exact (roundUp_le_iff P.granule_pos ha).mpr hle

section Complete

variable {obstacles memory : List MemRegion} {low : ℕ} {w : Span}

/-- A window ends below `2 ^ 64`, as the memory region around it does. -/
lemma WindowOk.stop_lt (hw : WindowOk P obstacles memory low w) (hm : ∀ m ∈ memory, m.Proper) :
    w.start + windowSize < 2 ^ 64 := by
  obtain ⟨m, hmem, -, hstop⟩ := hw.inside
  have := (hm m hmem).2
  rw [← hw.size]
  omega

/-- A pass over the obstacles does not move the start beyond a window, although it compares with
an end that may be stale: an obstacle before that end cannot lie behind the window. A reported bump
has passed the end of an obstacle. -/
lemma bump_complete (hw : WindowOk P obstacles memory low w) (hm : ∀ m ∈ memory, m.Proper)
    (hr : ∀ r ∈ obstacles, r.Proper) {stop : ℕ} (hstop : stop ≤ w.stop) :
    ∀ {rest : List MemRegion} {start : ℕ} (bumped : Bool), rest ⊆ obstacles → start ≤ w.start →
      ∃ start' bumped', bump P stop rest start bumped = some (start', bumped') ∧
        start ≤ start' ∧ start' ≤ w.start ∧
        (bumped' = true → bumped = true ∨
          ∃ r ∈ rest, start < r.endAddr ∧ r.endAddr ≤ start') := by
  intro rest
  induction rest with
  | nil => exact fun _ _ hle => ⟨_, _, rfl, le_rfl, hle, fun h => .inl h⟩
  | cons r rest ih =>
    intro start bumped hsub hle
    have hmem : r ∈ obstacles := hsub (List.mem_cons_self ..)
    have hrest : rest ⊆ obstacles := fun q hq => hsub (List.mem_cons_of_mem _ hq)
    unfold bump
    rw [checkedAdd_eq_some.mpr ⟨(hr r hmem).2, rfl⟩]
    dsimp only
    split_ifs with hmeet
    · -- the window lies behind this obstacle
      have hbehind : r.base + r.size ≤ w.start := by
        have := hw.clear r hmem
        omega
      obtain ⟨u, hu, hround, hule⟩ := alignUp_of_le hw.aligned hbehind (hw.stop_lt hm)
      rw [hu]
      dsimp only
      obtain ⟨start', bumped', hbump, h1, h2, -⟩ := ih true hrest (max_le hle hule)
      refine ⟨start', bumped', hbump, (le_max_left _ _).trans h1, h2, fun _ => .inr ?_⟩
      have hge := le_roundUp (x := r.base + r.size) P.granule_pos
      refine ⟨r, List.mem_cons_self .., hmeet.1, ?_⟩
      show r.base + r.size ≤ start'
      omega
    · obtain ⟨start', bumped', hbump, h1, h2, h3⟩ := ih bumped hrest hle
      refine ⟨start', bumped', hbump, h1, h2, fun hb => ?_⟩
      rcases h3 hb with h | ⟨q, hq, hlt⟩
      · exact .inl h
      · exact .inr ⟨q, List.mem_cons_of_mem _ hq, hlt⟩

/-- The lowest base above the start is not above that of a given region above the start. -/
lemma nextBase_le {m : MemRegion} {start : ℕ} (hm : m ∈ memory) (hlt : start < m.base) :
    ∃ b, nextBase memory start = some b ∧ start < b ∧ b ≤ m.base ∧
      b ∈ memory.map PhysRegion.base := by
  have hmem : m.base ∈ (memory.map PhysRegion.base).filter fun b => decide (b > start) :=
    List.mem_filter.mpr ⟨List.mem_map.mpr ⟨m, hm, rfl⟩, by simpa using hlt⟩
  obtain ⟨b, hb⟩ := Option.isSome_iff_exists.mp (List.isSome_min?_of_mem hmem)
  obtain ⟨hin, hgt⟩ := List.mem_filter.mp (List.min?_mem hb)
  exact ⟨b, hb, by simpa using hgt, (List.min?_eq_some_iff.mp hb).2 _ hmem, hin⟩

/-- The search finds a window that is not above a given one, if it has more rounds than there are
ends of obstacles and bases of memory regions ahead.

**Proof sketch.** Induction on the rounds. A pass that bumps the start passes the end of an
obstacle. A pass that does not, at a start in no region, moves to a base above the start: a region
around the given window that starts before would contain the range at the start as well. Neither
move leaves the given window behind. -/
lemma searchWindow_complete (hw : WindowOk P obstacles memory low w)
    (hm : ∀ m ∈ memory, m.Proper) (hr : ∀ r ∈ obstacles, r.Proper) :
    ∀ {rounds start : ℕ}, P.granule ∣ start → start ≤ w.start →
      Gaps.ahead (obstacles.map PhysRegion.endAddr) start +
        Gaps.ahead (memory.map PhysRegion.base) start < rounds →
      ∃ v, searchWindow P obstacles memory rounds start = some v ∧ v.start ≤ w.start := by
  intro rounds
  induction rounds with
  | zero => exact fun _ _ h => absurd h (Nat.not_lt_zero _)
  | succ rounds ih =>
    intro start ha hle hrounds
    have hlt := hw.stop_lt hm
    have hstop : start + windowSize ≤ w.stop := by
      rw [hw.size]
      omega
    obtain ⟨start', bumped, hbump, hge, hle', hpass⟩ :=
      bump_complete hw hm hr hstop false (List.Subset.refl _) hle
    obtain ⟨ha', -, hclear⟩ := bump_spec hbump ha
    unfold searchWindow
    rw [checkedAdd_eq_some.mpr ⟨by omega, rfl⟩]
    simp only [Option.bind_eq_bind, Option.bind_some, hbump]
    have hbases := Gaps.ahead_anti (memory.map PhysRegion.base) hge
    have hends := Gaps.ahead_anti (obstacles.map PhysRegion.endAddr) hge
    by_cases hb : bumped = true
    · -- the start has passed an obstacle
      rw [if_pos hb]
      obtain ⟨r, hmem, hlt, hend⟩ := (hpass hb).resolve_left (by simp)
      have hless := Gaps.ahead_lt (List.mem_map.mpr ⟨r, hmem, rfl⟩) hlt hend
      exact ih ha' hle' (by omega)
    · rw [if_neg hb]
      obtain ⟨-, rfl, hclear⟩ := hclear (Bool.eq_false_iff.mpr hb)
      split_ifs with hany
      · exact ⟨_, rfl, hle⟩
      · -- the region of the window starts above the start
        obtain ⟨m, hmem, hbase, hin⟩ := hw.inside
        have hgt : start' < m.base := by
          by_contra hn
          refine hany (List.any_eq_true.mpr ⟨m, hmem, ?_⟩)
          rw [Bool.and_eq_true, decide_eq_true_eq, decide_eq_true_eq]
          exact ⟨not_lt.mp hn, hstop.trans hin⟩
        obtain ⟨b, hnext, hblt, hble, hbmem⟩ := nextBase_le hmem hgt
        obtain ⟨u, hu, rfl, hule⟩ := alignUp_of_le hw.aligned (hble.trans hbase) hlt
        rw [hnext, Option.bind_some, hu, Option.bind_some]
        have hbu := le_roundUp (x := b) P.granule_pos
        have hless := Gaps.ahead_lt hbmem hblt hbu
        have hmore := Gaps.ahead_anti (obstacles.map PhysRegion.endAddr) (hblt.le.trans hbu)
        exact ih (dvd_roundUp _ _) hule (by omega)

end Complete

/-- The boot window exists exactly if some aligned 2 MiB range above the kernel image lies in one
memory region and apart from the device tree and the reserved regions, and it is then the lowest
such range: neither the limit on the rounds nor a checked addition loses one. -/
theorem pickWindow_eq_some_iff (P : Platform) (i : BootInfo) (img : Span)
    (hmem : i.memory.length ≤ Fdt.maxMemRegions) (hrsv : i.reserved.length ≤ Fdt.maxRsvRegions)
    (hmp : ∀ m ∈ i.memory, m.Proper) (hrp : ∀ r ∈ i.reserved, r.Proper)
    (hdtb : i.dtb.start < i.dtb.stop ∧ i.dtb.stop < 2 ^ 64) :
    ((∃ w, pickWindow P i img = some w) ↔
      ∃ w, WindowOk P (⟨i.dtb.start, i.dtb.stop - i.dtb.start⟩ :: i.reserved) i.memory
        img.stop w) ∧
    ∀ w, pickWindow P i img = some w ↔
      WindowOk P (⟨i.dtb.start, i.dtb.stop - i.dtb.start⟩ :: i.reserved) i.memory img.stop w ∧
      ∀ w', WindowOk P (⟨i.dtb.start, i.dtb.stop - i.dtb.start⟩ :: i.reserved) i.memory
        img.stop w' → w.start ≤ w'.start := by
  -- a window bounds the result of the search
  have key : ∀ w', WindowOk P (⟨i.dtb.start, i.dtb.stop - i.dtb.start⟩ :: i.reserved) i.memory
      img.stop w' → ∃ w, pickWindow P i img = some w ∧ w.start ≤ w'.start := by
    intro w' hw'
    obtain ⟨u, hu, rfl, hle⟩ := alignUp_of_le hw'.aligned hw'.above (hw'.stop_lt hmp)
    have hobs : ∀ r ∈ (⟨i.dtb.start, i.dtb.stop - i.dtb.start⟩ : MemRegion) :: i.reserved,
        r.Proper := by
      intro r hr
      rcases List.mem_cons.mp hr with rfl | hr
      · exact ⟨by simp only [ne_eq]; omega, by dsimp only; omega⟩
      · exact hrp r hr
    unfold pickWindow
    rw [hu, Option.bind_some]
    refine searchWindow_complete hw' hmp hobs (dvd_roundUp _ _) hle ?_
    have h1 := List.countP_le_length (p := fun a => decide (roundUp P.granule img.stop < a))
      (l := List.map PhysRegion.endAddr (⟨i.dtb.start, i.dtb.stop - i.dtb.start⟩ :: i.reserved))
    have h2 := List.countP_le_length (p := fun a => decide (roundUp P.granule img.stop < a))
      (l := i.memory.map PhysRegion.base)
    rw [List.length_map, List.length_cons] at h1
    rw [List.length_map] at h2
    unfold Fdt.maxMemRegions at hmem
    unfold Fdt.maxRsvRegions at hrsv
    unfold Gaps.ahead
    omega
  have huniq : ∀ {w w' : Span} {obstacles memory : List MemRegion} {low : ℕ},
      WindowOk P obstacles memory low w → WindowOk P obstacles memory low w' →
      w.start = w'.start → w = w' := by
    intro w w' obstacles memory low h h' he
    cases w
    cases w'
    have h1 := h.size
    have h2 := h'.size
    simp_all
  refine ⟨⟨fun ⟨w, hw⟩ => ⟨w, pickWindow_ok hw⟩, fun ⟨w', hw'⟩ => ?_⟩, fun w => ⟨fun hw => ?_, ?_⟩⟩
  · obtain ⟨w, hw, -⟩ := key w' hw'
    exact ⟨w, hw⟩
  · refine ⟨pickWindow_ok hw, fun w' hw' => ?_⟩
    obtain ⟨v, hv, hle⟩ := key w' hw'
    rw [hw, Option.some.injEq] at hv
    exact hv ▸ hle
  · rintro ⟨hw, hleast⟩
    obtain ⟨v, hv, hle⟩ := key w hw
    rw [hv, huniq (pickWindow_ok hv) hw (le_antisymm hle (hleast v (pickWindow_ok hv)))]

/-- A reserved region behind the kernel image moves the window past it. -/
theorem pickWindow_eq_some_iff_oneBank :
    pickWindow .virt ⟨⟨0x48000000, 0x48000080⟩, [⟨0x40000000, 0x40000000⟩], [⟨0x40400000, 16⟩], []⟩
      ⟨0x40200000, 0x40300000⟩ = some ⟨0x40401000, 0x40601000⟩ ∧
    ∃ w, WindowOk .virt [⟨0x48000000, 0x80⟩, ⟨0x40400000, 16⟩] [⟨0x40000000, 0x40000000⟩]
      0x40300000 w := by
  have hw : pickWindow .virt
      ⟨⟨0x48000000, 0x48000080⟩, [⟨0x40000000, 0x40000000⟩], [⟨0x40400000, 16⟩], []⟩
      ⟨0x40200000, 0x40300000⟩ = some ⟨0x40401000, 0x40601000⟩ := by decide +kernel
  refine ⟨hw, (pickWindow_eq_some_iff .virt
    ⟨⟨0x48000000, 0x48000080⟩, [⟨0x40000000, 0x40000000⟩], [⟨0x40400000, 16⟩], []⟩
    ⟨0x40200000, 0x40300000⟩ (by decide) (by decide) ?_ ?_ (by decide)).1.mp ⟨_, hw⟩⟩
  · unfold PhysRegion.Proper
    decide
  · unfold PhysRegion.Proper
    decide

end Spec

end K0
