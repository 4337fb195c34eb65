import K0.Lib.Outcome
import K0.Cap.Bootstrap
import K0.Boot.FdtScan

set_option relaxedAutoImplicit false
set_option autoImplicit false

/-!
# What the parser accepts is well formed

Whatever the blob, a result of the parser satisfies the bounds that the rest of the boot relies
on: no region is empty or wraps around, the lists keep their limits, and the device tree does not
meet the kernel image.

## Main results

* `K0.Fdt.parseBlob_ok`: the regions and limits of an accepted blob.
* `K0.parse_ok`: the same for a device tree in memory, with its place.
-/

namespace K0

open Word Bytes Outcome

/-- The bounds on the contents of a device tree in the range `dtb`. -/
structure BootInfo.Ok (dtb : Span) (i : BootInfo) : Prop where
  dtb_eq : i.dtb = dtb
  memory : ∀ r ∈ i.memory, r.Proper
  memory_le : i.memory.length ≤ Fdt.maxMemRegions
  reserved : ∀ r ∈ i.reserved, r.Proper
  reserved_le : i.reserved.length ≤ Fdt.maxRsvRegions
  entropy_le : i.entropy.length ≤ Fdt.maxEntropy

namespace Fdt

variable {dtb : Span}

/-- An appended region is proper and there was room for it. -/
lemma parseEntries_ok {addrBytes entry limit n : ℕ} {value : List UInt8}
    {out out' : List MemRegion} (h : parseEntries addrBytes entry limit n value out = .ok out')
    (hout : ∀ r ∈ out, r.Proper) (hle : out.length ≤ limit) :
    (∀ r ∈ out', r.Proper) ∧ out'.length ≤ limit := by
  induction n generalizing value out with
  | zero =>
    simp only [parseEntries, Except.ok.injEq] at h
    exact h ▸ ⟨hout, hle⟩
  | succ n ih =>
    simp only [parseEntries] at h
    split_ifs at h with hsize hwrap hfull
    · exact ih h hout hle
    · set base := readCells ((value.take entry).take addrBytes)
      set size := readCells ((value.take entry).drop addrBytes)
      have hproper : PhysRegion.Proper ⟨base, size⟩ :=
        ⟨hsize, not_le.mp fun h => hwrap (checkedAdd_isNone.mpr h)⟩
      refine ih h (fun r hr => ?_) ?_
      · rcases List.mem_append.mp hr with hr | hr
        · exact hout r hr
        · rw [List.mem_singleton.mp hr]
          exact hproper
      · rw [List.length_append, List.length_singleton]
        omega

/-- A `reg` property appends proper regions within the limit. -/
lemma parseReg_ok {value : List UInt8} {ac sc limit : ℕ} {out out' : List MemRegion}
    (h : parseReg value ac sc limit out = .ok out') (hout : ∀ r ∈ out, r.Proper)
    (hle : out.length ≤ limit) : (∀ r ∈ out', r.Proper) ∧ out'.length ≤ limit := by
  unfold parseReg at h
  dsimp only at h
  split_ifs at h
  exact parseEntries_ok h hout hle

/-- A property keeps the bounds. -/
lemma Scan.read_ok {s s' : Scan} {name value : List UInt8} (h : s.read name value = .ok s')
    (hi : s.info.Ok dtb) : s'.info.Ok dtb := by
  -- a branch that only writes cell sizes
  have hcells : ∀ {e : Except BootError ℕ} {f : ℕ → Scan}, e.map f = .ok s' →
      (∀ n, (f n).info = s.info) → s'.info.Ok dtb := by
    intro e f he hf
    cases e with
    | error _ => cases he
    | ok n =>
      obtain rfl : f n = s' := Except.ok.inj he
      rw [hf]
      exact hi
  unfold Scan.read at h
  split_ifs at h
  · exact hcells h fun _ => rfl
  · exact hcells h fun _ => rfl
  · exact Except.ok.inj h ▸ hi
  · unfold pushRegions at h
    cases hp : parseReg value s.addrCells s.sizeCells maxMemRegions s.info.memory with
    | error e => simp [hp, Except.map] at h
    | ok out =>
      obtain ⟨h1, h2⟩ := parseReg_ok hp hi.memory hi.memory_le
      simp only [hp, Except.map, Except.ok.injEq] at h
      rw [← h]
      exact ⟨hi.dtb_eq, h1, h2, hi.reserved, hi.reserved_le, hi.entropy_le⟩
  · exact hcells h fun _ => rfl
  · exact hcells h fun _ => rfl
  · exact Except.ok.inj h ▸ hi
  · unfold pushReservedRegions at h
    cases hp : parseReg value s.rsvAddrCells s.rsvSizeCells maxRsvRegions s.info.reserved with
    | error e => simp [hp, Except.map] at h
    | ok out =>
      obtain ⟨h1, h2⟩ := parseReg_ok hp hi.reserved hi.reserved_le
      simp only [hp, Except.map, Except.ok.injEq] at h
      rw [← h]
      exact ⟨hi.dtb_eq, hi.memory, hi.memory_le, h1, h2, hi.entropy_le⟩
  · simp only [Except.ok.injEq] at h
    rw [← h]
    refine ⟨hi.dtb_eq, hi.memory, hi.memory_le, hi.reserved, hi.reserved_le, ?_⟩
    have := hi.entropy_le
    simp only [pushEntropy, List.length_append, List.length_take]
    omega
  · exact Except.ok.inj h ▸ hi

/-- Entering a node does not change what was found. -/
lemma Scan.enter_info (s : Scan) (name : List UInt8) : (s.enter name).info = s.info := by
  unfold Scan.enter
  dsimp only
  split_ifs <;> rfl

/-- Leaving a node does not change what was found. -/
lemma Scan.leave_info (s : Scan) : s.leave.info = s.info := by
  unfold Scan.leave
  dsimp only
  split_ifs <;> rfl

/-- Entering a node counts a level. -/
lemma Scan.enter_depth (s : Scan) (name : List UInt8) : (s.enter name).depth = s.depth + 1 := by
  unfold Scan.enter
  dsimp only
  split_ifs <;> rfl

/-- Leaving a node counts back. -/
lemma Scan.leave_depth (s : Scan) : s.leave.depth = s.depth - 1 := by
  unfold Scan.leave
  dsimp only
  split_ifs <;> rfl

/-- A property does not change the depth. -/
lemma Scan.read_depth {s s' : Scan} {name value : List UInt8} (h : s.read name value = .ok s') :
    s'.depth = s.depth := by
  have hmap : ∀ {α : Type} {e : Except BootError α} {f : α → Scan}, e.map f = .ok s' →
      (∀ a, (f a).depth = s.depth) → s'.depth = s.depth := by
    intro α e f he hf
    cases e with
    | error _ => cases he
    | ok a => exact Except.ok.inj he ▸ hf a
  unfold Scan.read at h
  split_ifs at h
  all_goals first
    | exact hmap h fun _ => rfl
    | exact Except.ok.inj h ▸ rfl

/-- The branch of `FDT_BEGIN_NODE` does not change what was found. -/
lemma beginNode_info {d : Blocks} {s s' : Scan} (h : beginNode d s = .ok s') :
    s'.info = s.info := by
  unfold beginNode at h
  split_ifs at h
  split at h
  · cases h
  · split at h
    · cases h
    · dsimp only at h
      split_ifs at h
      split at h
      · cases h
      · simp only [Except.ok.injEq] at h
        rw [← h]
        exact s.enter_info _

/-- The branch of `FDT_PROP` keeps the bounds. -/
lemma prop_ok {d : Blocks} {s s' : Scan} (h : prop d s = .ok s') (hi : s.info.Ok dtb) :
    s'.info.Ok dtb := by
  unfold prop at h
  split_ifs at h
  simp only [bind, Except.bind] at h
  split at h
  · cases h
  · split at h
    · cases h
    · split at h
      · cases h
      · split_ifs at h
        split at h
        · cases h
        · split at h
          · cases h
          · rename_i hread
            split at h
            · cases h
            · simp only [Except.ok.injEq] at h
              have hs := Scan.read_ok hread hi
              rw [← h]
              exact hs

/-- The token loop keeps the bounds. -/
lemma tokenLoop_ok {d : Blocks} {fuel : ℕ} {s : Scan} {i : BootInfo}
    (h : tokenLoop d fuel s = .ok i) (hi : s.info.Ok dtb) : i.Ok dtb := by
  induction fuel generalizing s with
  | zero => cases h
  | succ fuel ih =>
    rw [tokenLoop] at h
    split_ifs at h
    cases hw : be32 d.blob s.off with
    | error e => simp [hw, bind, Except.bind] at h
    | ok token =>
      simp only [hw, bind, Except.bind] at h
      split_ifs at h
      · cases hb : beginNode d { s with off := s.off + 4 } with
        | error e => simp [hb] at h
        | ok s' =>
          rw [hb] at h
          exact ih h (beginNode_info hb ▸ hi)
      · unfold endNode at h
        split_ifs at h
        exact ih h (by rw [Scan.leave_info]; exact hi)
      · cases hb : prop d { s with off := s.off + 4 } with
        | error e => simp [hb] at h
        | ok s' =>
          rw [hb] at h
          exact ih h (prop_ok hb hi)
      · exact ih h hi
      · exact Except.ok.inj h ▸ hi

/-- The reservation loop keeps the bounds. -/
lemma rsvLoop_ok {blob : List UInt8} {fuel off : ℕ} {info i : BootInfo}
    (h : rsvLoop blob fuel off info = .ok i) (hi : info.Ok dtb) : i.Ok dtb := by
  induction fuel generalizing off info with
  | zero => cases h
  | succ fuel ih =>
    rw [rsvLoop] at h
    simp only [bind, Except.bind] at h
    split at h
    · cases h
    · split at h
      · cases h
      · rename_i base _ size _
        split_ifs at h with hz hs
        · exact Except.ok.inj h ▸ hi
        · exact ih h hi
        · unfold pushReserved at h
          split_ifs at h with hwrap hfull
          refine ih h ⟨hi.dtb_eq, hi.memory, hi.memory_le, fun r hr => ?_, ?_, hi.entropy_le⟩
          · rcases List.mem_append.mp hr with hr | hr
            · exact hi.reserved r hr
            · rw [List.mem_singleton.mp hr]
              exact ⟨hs, not_le.mp fun h => hwrap (checkedAdd_isNone.mpr h)⟩
          · have := hi.reserved_le
            rw [List.length_append, List.length_singleton]
            omega

/-- An accepted blob has some memory, and its regions and limits are in bounds. -/
theorem parseBlob_ok {blob : List UInt8} {i : BootInfo}
    (h : parseBlob blob dtb = .ok i) : i.Ok dtb ∧ i.memory ≠ [] := by
  unfold parseBlob at h
  obtain ⟨_, -, h⟩ := except_bind_eq_ok.mp h
  obtain ⟨_, -, h⟩ := except_bind_eq_ok.mp h
  obtain ⟨_, -, h⟩ := except_bind_eq_ok.mp h
  obtain ⟨_, -, h⟩ := except_bind_eq_ok.mp h
  obtain ⟨_, -, h⟩ := except_bind_eq_ok.mp h
  obtain ⟨_, -, h⟩ := except_bind_eq_ok.mp h
  split_ifs at h
  obtain ⟨_, -, h⟩ := except_bind_eq_ok.mp h
  obtain ⟨_, -, h⟩ := except_bind_eq_ok.mp h
  obtain ⟨_, -, h⟩ := except_bind_eq_ok.mp h
  split_ifs at h
  obtain ⟨info₁, hrsv, h⟩ := except_bind_eq_ok.mp h
  obtain ⟨info₂, htok, h⟩ := except_bind_eq_ok.mp h
  split_ifs at h with hne
  obtain rfl := Except.ok.inj h
  have hempty : BootInfo.Ok dtb ⟨dtb, [], [], []⟩ := by constructor <;> simp
  exact ⟨tokenLoop_ok htok (rsvLoop_ok hrsv hempty), hne⟩

end Fdt

/-- The range that the header of a device tree gives. -/
lemma dtbSpan_ok {read : ℕ → UInt8} {dtbPhys : ℕ} {d : Span} (h : dtbSpan read dtbPhys = .ok d) :
    d.start = dtbPhys ∧ d.start + Fdt.headerSize ≤ d.stop ∧ d.stop < 2 ^ 64 := by
  unfold dtbSpan at h
  dsimp only at h
  split_ifs at h with h0 hal hmagic hsize
  split at h
  · cases h
  · rename_i dtbEnd he
    obtain ⟨hlt, rfl⟩ := checkedAdd_eq_some.mp he
    obtain rfl := Except.ok.inj h
    refine ⟨rfl, ?_, hlt⟩
    have := hsize.1
    dsimp only
    omega

/-- An accepted device tree lies where it should, holds a header and does not meet the kernel
image; its contents are in bounds and there is some memory. -/
theorem parse_ok {read : ℕ → UInt8} {dtbPhys readOffset : ℕ} {img : Span} {i : BootInfo}
    (h : parse read dtbPhys img readOffset = .ok i) :
    i.Ok i.dtb ∧ i.memory ≠ [] ∧ i.dtb.start = dtbPhys ∧
      i.dtb.start + Fdt.headerSize ≤ i.dtb.stop ∧ i.dtb.stop < 2 ^ 64 ∧
      (img.stop ≤ i.dtb.start ∨ i.dtb.stop ≤ img.start) := by
  unfold parse at h
  split at h
  · cases h
  · obtain ⟨dtbRead, hspan, h⟩ := except_bind_eq_ok.mp h
    obtain ⟨-, hlen, -⟩ := dtbSpan_ok hspan
    dsimp only at h
    split at h
    · cases h
    · rename_i dtbEnd he
      obtain ⟨hlt, rfl⟩ := checkedAdd_eq_some.mp he
      split_ifs at h with hmeet
      obtain ⟨hok, hne⟩ := Fdt.parseBlob_ok h
      have hdtb := hok.dtb_eq
      rw [hdtb]
      refine ⟨hok, hne, rfl, ?_, hlt, ?_⟩
      · dsimp only
        omega
      · dsimp only
        omega

/-- The end of an accepted header follows from its second word. -/
lemma dtbSpan_stop {read : ℕ → UInt8} {dtbPhys : ℕ} {s : Span} (h : dtbSpan read dtbPhys = .ok s) :
    s.stop = dtbPhys + readBe32Phys read (dtbPhys + 4) := by
  unfold dtbSpan at h
  dsimp only at h
  split_ifs at h
  split at h
  · cases h
  · rename_i dtbEnd he
    obtain ⟨-, rfl⟩ := checkedAdd_eq_some.mp he
    obtain rfl := Except.ok.inj h
    rfl

/-- The range of an accepted device tree follows from the second word of the header that was
read. -/
lemma parse_dtb {read : ℕ → UInt8} {dtbPhys readOffset : ℕ} {img : Span} {i : BootInfo}
    (h : parse read dtbPhys img readOffset = .ok i) :
    i.dtb = ⟨dtbPhys, dtbPhys + readBe32Phys read (dtbPhys + readOffset + 4)⟩ := by
  unfold parse at h
  split at h
  · cases h
  · rename_i readBase hbase
    obtain ⟨-, rfl⟩ := checkedAdd_eq_some.mp hbase
    obtain ⟨dtbRead, hspan, h⟩ := except_bind_eq_ok.mp h
    have hstart := (dtbSpan_ok hspan).1
    have hstop := dtbSpan_stop hspan
    dsimp only at h
    split at h
    · cases h
    · rename_i dtbEnd he
      obtain ⟨-, rfl⟩ := checkedAdd_eq_some.mp he
      split_ifs at h
      obtain ⟨hok, -⟩ := Fdt.parseBlob_ok h
      rw [hok.dtb_eq, hstart, hstop, Nat.add_sub_cancel_left]

end K0
