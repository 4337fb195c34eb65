import K0.Lib.Bytes
import K0.Task.Load
import K0.Kernel.Mmu
import K0.Mm.Linear
import K0.Boot.Main
import Mathlib.Data.List.Sort
import Mathlib.Tactic.IntervalCases

set_option relaxedAutoImplicit false
set_option autoImplicit false

/-!
# The root task as the build makes it

The part of `crates/k0-boot/build.rs` that turns the ELF file of the root task into the flat image
and the segments that are embedded in the kernel. It runs on the build machine, where a violated
check and an arithmetic overflow end the build; here they give no result. The kernel has no ELF
loader and trusts the outcome.

## Main definitions

* `K0.Elf.parseElf`: the entry point and the loadable segments of an ELF file.
* `K0.Elf.flatten`: the embedded root task.
* `K0.Elf.Loads`: the segments that the file asks to be loaded.

## Main results

* `K0.Elf.flatten_eq_some`: the result keeps the layout that loading relies on, and its image has
  the bytes of the segments, with zeros behind them.
* `K0.spawnRoot_refines_elf`: loading the result lays out user memory as the ELF file says.
-/

namespace K0

open Word Memory Outcome

namespace Elf

/-! ### Reading the file -/

/-- The little-endian number in `n` bytes. To read beyond the file is a panic. -/
def le (n : ℕ) (b : List UInt8) (off : ℕ) : Option ℕ :=
  (Bytes.slice b off (off + n)).map fun bs => Bytes.fromBeBytes bs.reverse

/-- A 16-bit number. -/
def le16 : List UInt8 → ℕ → Option ℕ := le 2

/-- A 32-bit number. -/
def le32 : List UInt8 → ℕ → Option ℕ := le 4

/-- A 64-bit number. -/
def le64 : List UInt8 → ℕ → Option ℕ := le 8

/-- A loadable segment of the file. -/
structure LoadSeg where
  vaddr : ℕ
  offset : ℕ
  filesz : ℕ
  memsz : ℕ
  flags : ℕ
deriving DecidableEq, Repr

/-- The fields of the program header at `p`. -/
def readSeg (elf : List UInt8) (p : ℕ) : Option LoadSeg := do
  let flags ← le32 elf (p + 4)
  let offset ← le64 elf (p + 8)
  let vaddr ← le64 elf (p + 16)
  let filesz ← le64 elf (p + 32)
  let memsz ← le64 elf (p + 40)
  some ⟨vaddr, offset, filesz, memsz, flags⟩

/-- One round of the loop over the program headers. Only `PT_LOAD` headers count, and of these only
the ones with a size. -/
def readPhdr (elf : List UInt8) (p : ℕ) : Option (Option LoadSeg) := do
  let type ← le32 elf p
  if type ≠ 1 then some none
  else do
    let seg ← readSeg elf p
    guard (seg.filesz ≤ seg.memsz)
    let stop ← checkedAdd seg.offset seg.filesz
    guard (stop ≤ elf.length)
    let _ ← checkedAdd seg.vaddr seg.memsz
    if seg.memsz > 0 then some (some seg) else some none

/-- The loop over the program headers, for the remaining number of headers from number `i` on. -/
def readPhdrs (elf : List UInt8) (phoff phentsize : ℕ) : ℕ → ℕ → Option (List LoadSeg)
  | 0, _ => some []
  | n + 1, i => do
    let seg ← readPhdr elf (phoff + i * phentsize)
    let segs ← readPhdrs elf phoff phentsize n (i + 1)
    some (seg.toList ++ segs)

/-- The entry point and the loadable segments, by address. -/
def parseElf (elf : List UInt8) : Option (ℕ × List LoadSeg) := do
  guard (64 ≤ elf.length)
  guard (elf.take 4 = [0x7f, 0x45, 0x4c, 0x46])
  guard (elf[4]? = some 2)
  guard (elf[5]? = some 1)
  guard (le16 elf 18 = some 183)
  guard (le16 elf 16 = some 2)
  let entry ← le64 elf 24
  let phoff ← le64 elf 32
  let phentsize ← le16 elf 54
  let phnum ← le16 elf 56
  guard (phentsize = 56)
  let stop ← checkedAdd phoff (phentsize * phnum)
  guard (stop ≤ elf.length)
  let segs ← readPhdrs elf phoff phentsize phnum 0
  some (entry, segs.insertionSort fun s t => s.vaddr ≤ t.vaddr)

/-! ### The flat image -/

/-- The loop over the layout checks: the end of the last segment, and whether an executable segment
holds the entry point. -/
def checkLayout (entry : ℕ) : List LoadSeg → ℕ → Bool → Option (ℕ × Bool)
  | [], prevEnd, entryInText => some (prevEnd, entryInText)
  | s :: rest, prevEnd, entryInText => do
    guard (s.vaddr % segAlign = 0)
    guard (s.vaddr ≥ prevEnd)
    let stop ← checkedAdd s.vaddr s.memsz
    guard (s.flags &&& 0b011 ≠ 0b011)
    checkLayout entry rest stop
      (entryInText || decide (s.flags &&& 1 ≠ 0 ∧ s.vaddr ≤ entry ∧ entry < stop))

/-- The loop that copies the segments into the image. -/
def fill (elf : List UInt8) (base : ℕ) : List LoadSeg → List UInt8 → Option (List UInt8)
  | [], flat => some flat
  | s :: rest, flat => do
    let bytes ← Bytes.slice elf s.offset (s.offset + s.filesz)
    let flat ← Bytes.patch flat (s.vaddr - base) bytes
    fill elf base rest flat

/-- The kind of a segment with the given flags. -/
def segKind (flags : ℕ) : SegKind :=
  if flags &&& 1 ≠ 0 then .text else if flags &&& 2 ≠ 0 then .rw else .ro

/-- The segment as it is embedded in the kernel. -/
def LoadSeg.toSegment (s : LoadSeg) : K0.LoadSeg := ⟨s.vaddr, s.memsz, segKind s.flags⟩

/-- The conversion of the ELF file to the embedded root task. -/
def flatten (elf : List UInt8) : Option RootTask := do
  let (entry, segs) ← parseElf elf
  let first ← segs.head?
  guard (segs.length ≤ 4)
  let base := first.vaddr
  guard (base % segAlign = 0)
  let (prevEnd, entryInText) ← checkLayout entry segs base false
  guard (entryInText = true)
  let stop ← checkedMul ((prevEnd + (segAlign - 1)) / segAlign) segAlign
  let span := stop - base
  guard (span ≤ maxFlatSize)
  let flat ← fill elf base segs (List.replicate span 0)
  some ⟨flat, base, entry, segs.map LoadSeg.toSegment⟩

/-- A segment that the file asks to be loaded: a `PT_LOAD` program header with a size. -/
def Loads (elf : List UInt8) (s : LoadSeg) : Prop :=
  ∃ phoff phnum i, le64 elf 32 = some phoff ∧ le16 elf 56 = some phnum ∧ i < phnum ∧
    le32 elf (phoff + i * 56) = some 1 ∧ readSeg elf (phoff + i * 56) = some s ∧ 0 < s.memsz

/-! ### What the checks guarantee -/

variable {elf : List UInt8}

/-- What is checked of a segment when it is read. -/
structure LoadSeg.Ok (elf : List UInt8) (s : LoadSeg) : Prop where
  filesz_le : s.filesz ≤ s.memsz
  data_le : s.offset + s.filesz ≤ elf.length
  fits : s.vaddr + s.memsz < 2 ^ 64
  memsz_pos : 0 < s.memsz

/-- A header that is read is either no segment to load or a checked one. -/
lemma readPhdr_eq_some {p : ℕ} {o : Option LoadSeg} (h : readPhdr elf p = some o) :
    (∀ s, o = some s ↔ le32 elf p = some 1 ∧ readSeg elf p = some s ∧ 0 < s.memsz) ∧
      ∀ s, o = some s → s.Ok elf := by
  unfold readPhdr at h
  obtain ⟨type, htype, h⟩ := Option.bind_eq_some_iff.mp h
  by_cases ht : type = 1
  · rw [if_neg (not_not.mpr ht)] at h
    obtain ⟨seg, hseg, h⟩ := Option.bind_eq_some_iff.mp h
    obtain ⟨⟨⟩, hfile, h⟩ := Option.bind_eq_some_iff.mp h
    obtain ⟨stop, hstop, h⟩ := Option.bind_eq_some_iff.mp h
    obtain ⟨-, rfl⟩ := checkedAdd_eq_some.mp hstop
    obtain ⟨⟨⟩, hdata, h⟩ := Option.bind_eq_some_iff.mp h
    obtain ⟨_, hadd, h⟩ := Option.bind_eq_some_iff.mp h
    have hfits := (checkedAdd_eq_some.mp hadd).1
    have hfile := (Option.guard_eq_some' _).mp hfile
    have hdata := (Option.guard_eq_some' _).mp hdata
    rw [htype, ht]
    by_cases hpos : seg.memsz > 0
    · rw [if_pos hpos] at h
      obtain rfl := Option.some.inj h
      refine ⟨fun s => ⟨?_, ?_⟩, ?_⟩
      · rintro e
        obtain rfl := Option.some.inj e
        exact ⟨rfl, hseg, hpos⟩
      · rintro ⟨-, hs, -⟩
        rw [← hs, hseg]
      · intro s e
        obtain rfl := Option.some.inj e
        exact ⟨hfile, hdata, hfits, hpos⟩
    · rw [if_neg hpos] at h
      obtain rfl := Option.some.inj h
      refine ⟨fun s => ⟨nofun, ?_⟩, nofun⟩
      rintro ⟨-, hs, hpos'⟩
      rw [hseg] at hs
      obtain rfl := Option.some.inj hs
      exact absurd hpos' hpos
  · rw [if_pos ht] at h
    obtain rfl := Option.some.inj h
    refine ⟨fun s => ⟨nofun, ?_⟩, nofun⟩
    rintro ⟨htype', -⟩
    rw [htype] at htype'
    exact absurd (Option.some.inj htype') ht

/-- The loop over the headers finds the segments of all of them. -/
lemma readPhdrs_eq_some {phoff phentsize n : ℕ} : ∀ {i : ℕ} {segs : List LoadSeg},
    readPhdrs elf phoff phentsize n i = some segs →
    (∀ s, s ∈ segs ↔ ∃ j, i ≤ j ∧ j < i + n ∧ le32 elf (phoff + j * phentsize) = some 1 ∧
      readSeg elf (phoff + j * phentsize) = some s ∧ 0 < s.memsz) ∧ ∀ s ∈ segs, s.Ok elf := by
  induction n with
  | zero =>
    intro i segs h
    obtain rfl := Option.some.inj h
    refine ⟨fun s => ⟨nofun, ?_⟩, nofun⟩
    rintro ⟨j, h1, h2, -⟩
    omega
  | succ n ih =>
    intro i segs h
    obtain ⟨o, ho, h⟩ := Option.bind_eq_some_iff.mp h
    obtain ⟨rest, hrest, h⟩ := Option.bind_eq_some_iff.mp h
    obtain rfl := Option.some.inj h
    obtain ⟨hmem, hok⟩ := ih hrest
    obtain ⟨hmem₀, hok₀⟩ := readPhdr_eq_some ho
    refine ⟨fun s => ?_, fun s hs => ?_⟩
    · rw [List.mem_append, Option.mem_toList, hmem₀, hmem]
      constructor
      · rintro (e | ⟨j, h1, h2, e⟩)
        · exact ⟨i, le_rfl, by omega, e⟩
        · exact ⟨j, by omega, by omega, e⟩
      · rintro ⟨j, h1, h2, e⟩
        rcases Nat.eq_or_lt_of_le h1 with rfl | h1
        · exact .inl e
        · exact .inr ⟨j, h1, by omega, e⟩
    · rcases List.mem_append.mp hs with hs | hs
      · exact hok₀ s (Option.mem_toList.mp hs)
      · exact hok s hs

/-- The parser finds the entry point and the segments to load. -/
lemma parseElf_eq_some {entry : ℕ} {segs : List LoadSeg} (h : parseElf elf = some (entry, segs)) :
    le64 elf 24 = some entry ∧ (∀ s, s ∈ segs ↔ Loads elf s) ∧ ∀ s ∈ segs, s.Ok elf := by
  unfold parseElf at h
  obtain ⟨⟨⟩, -, h⟩ := Option.bind_eq_some_iff.mp h
  obtain ⟨⟨⟩, -, h⟩ := Option.bind_eq_some_iff.mp h
  obtain ⟨⟨⟩, -, h⟩ := Option.bind_eq_some_iff.mp h
  obtain ⟨⟨⟩, -, h⟩ := Option.bind_eq_some_iff.mp h
  obtain ⟨⟨⟩, -, h⟩ := Option.bind_eq_some_iff.mp h
  obtain ⟨⟨⟩, -, h⟩ := Option.bind_eq_some_iff.mp h
  obtain ⟨entry', hentry, h⟩ := Option.bind_eq_some_iff.mp h
  obtain ⟨phoff, hphoff, h⟩ := Option.bind_eq_some_iff.mp h
  obtain ⟨phentsize, -, h⟩ := Option.bind_eq_some_iff.mp h
  obtain ⟨phnum, hphnum, h⟩ := Option.bind_eq_some_iff.mp h
  obtain ⟨⟨⟩, hsize, h⟩ := Option.bind_eq_some_iff.mp h
  obtain ⟨stop, -, h⟩ := Option.bind_eq_some_iff.mp h
  obtain ⟨⟨⟩, -, h⟩ := Option.bind_eq_some_iff.mp h
  obtain ⟨segs', hsegs, h⟩ := Option.bind_eq_some_iff.mp h
  obtain ⟨rfl, rfl⟩ := Prod.mk.inj (Option.some.inj h)
  obtain rfl := (Option.guard_eq_some' _).mp hsize
  obtain ⟨hmem, hok⟩ := readPhdrs_eq_some hsegs
  refine ⟨hentry, fun s => ?_, fun s hs => hok s ((List.mem_insertionSort _).mp hs)⟩
  rw [List.mem_insertionSort, hmem]
  constructor
  · rintro ⟨j, -, hj, e⟩
    exact ⟨phoff, phnum, j, hphoff, hphnum, by omega, e⟩
  · rintro ⟨phoff', phnum', j, h1, h2, hj, e⟩
    obtain rfl := Option.some.inj (hphoff.symm.trans h1)
    obtain rfl := Option.some.inj (hphnum.symm.trans h2)
    exact ⟨j, Nat.zero_le _, by omega, e⟩

/-- What the layout checks guarantee of a segment between two addresses. -/
structure LoadSeg.Placed (lo hi : ℕ) (s : LoadSeg) : Prop where
  aligned : segAlign ∣ s.vaddr
  lo_le : lo ≤ s.vaddr
  le_hi : s.vaddr + s.memsz ≤ hi
  safe : s.flags &&& 0b011 ≠ 0b011

/-- The layout checks. -/
lemma checkLayout_eq_some {entry : ℕ} : ∀ {segs : List LoadSeg} {lo hi : ℕ} {b b' : Bool},
    checkLayout entry segs lo b = some (hi, b') → lo ≤ hi ∧ (∀ s ∈ segs, s.Placed lo hi) ∧
      segs.Pairwise (fun s t => s.vaddr + s.memsz ≤ t.vaddr) ∧
      (b' = true → b = true ∨ ∃ s ∈ segs, s.flags &&& 1 ≠ 0 ∧ s.vaddr ≤ entry ∧
        entry < s.vaddr + s.memsz) := by
  intro segs
  induction segs with
  | nil =>
    intro lo hi b b' h
    obtain ⟨rfl, rfl⟩ := Prod.mk.inj (Option.some.inj h)
    exact ⟨le_rfl, nofun, .nil, .inl⟩
  | cons s rest ih =>
    intro lo hi b b' h
    obtain ⟨⟨⟩, halign, h⟩ := Option.bind_eq_some_iff.mp h
    obtain ⟨⟨⟩, hge, h⟩ := Option.bind_eq_some_iff.mp h
    obtain ⟨stop, hstop, h⟩ := Option.bind_eq_some_iff.mp h
    obtain ⟨⟨⟩, hsafe, h⟩ := Option.bind_eq_some_iff.mp h
    have halign := (Option.guard_eq_some' _).mp halign
    have hge := (Option.guard_eq_some' _).mp hge
    have hsafe := (Option.guard_eq_some' _).mp hsafe
    obtain ⟨-, rfl⟩ := checkedAdd_eq_some.mp hstop
    obtain ⟨h1, h3, h4, h5⟩ := ih h
    refine ⟨by omega, ?_, ?_, fun hb => ?_⟩
    · refine List.forall_mem_cons.mpr ⟨⟨Nat.dvd_of_mod_eq_zero halign, hge, h1, hsafe⟩, ?_⟩
      exact fun t ht => { h3 t ht with lo_le := by have := (h3 t ht).lo_le; omega }
    · exact List.pairwise_cons.mpr ⟨fun t ht => (h3 t ht).lo_le, h4⟩
    · rcases h5 hb with hb | ⟨t, ht, e⟩
      · rcases Bool.or_eq_true_iff.mp hb with hb | hb
        · exact .inl hb
        · exact .inr ⟨s, List.mem_cons_self, of_decide_eq_true hb⟩
      · exact .inr ⟨t, List.mem_cons_of_mem _ ht, e⟩

/-- Copying the segments: each has its bytes at its place, and the other bytes stay. -/
lemma fill_eq_some {base : ℕ} : ∀ {segs : List LoadSeg} {flat flat' : List UInt8},
    fill elf base segs flat = some flat' → (∀ s ∈ segs, base ≤ s.vaddr) →
    (∀ s ∈ segs, s.filesz ≤ s.memsz) →
    segs.Pairwise (fun s t => s.vaddr + s.memsz ≤ t.vaddr) →
    flat'.length = flat.length ∧
      (∀ s ∈ segs, ∀ i < s.filesz, flat'[s.vaddr - base + i]? = elf[s.offset + i]?) ∧
      ∀ j, (∀ s ∈ segs, j < s.vaddr - base ∨ s.vaddr - base + s.filesz ≤ j) →
        flat'[j]? = flat[j]? := by
  intro segs
  induction segs with
  | nil =>
    intro flat flat' h _ _ _
    obtain rfl := Option.some.inj h
    exact ⟨rfl, nofun, fun _ _ => rfl⟩
  | cons s rest ih =>
    intro flat flat' h hbase hfile hpair
    obtain ⟨bytes, hbytes, h⟩ := Option.bind_eq_some_iff.mp h
    obtain ⟨flat₁, hpatch, h⟩ := Option.bind_eq_some_iff.mp h
    obtain ⟨-, -, hlen, hget⟩ := Bytes.slice_eq_some hbytes
    obtain ⟨-, hlen₁, hget₁⟩ := Bytes.patch_eq_some hpatch
    rw [Nat.add_sub_cancel_left] at hlen hget
    obtain ⟨hbase₀, hbase⟩ := List.forall_mem_cons.mp hbase
    obtain ⟨hfile₀, hfile⟩ := List.forall_mem_cons.mp hfile
    obtain ⟨hpair₀, hpair⟩ := List.pairwise_cons.mp hpair
    obtain ⟨h1, h2, h3⟩ := ih h hbase hfile hpair
    refine ⟨by omega, List.forall_mem_cons.mpr ⟨fun i hi => ?_, h2⟩, fun j hj => ?_⟩
    · -- the later segments lie behind this one
      have hother : ∀ t ∈ rest, s.vaddr - base + i < t.vaddr - base ∨
          t.vaddr - base + t.filesz ≤ s.vaddr - base + i := by
        intro t ht
        have := hpair₀ t ht
        omega
      rw [h3 _ hother, hget₁, if_pos (by omega), Nat.add_sub_cancel_left, hget i hi]
    · obtain ⟨hj₀, hj⟩ := List.forall_mem_cons.mp hj
      rw [h3 j hj, hget₁, if_neg (by omega)]

/-- What the conversion makes of the segments of the file. -/
structure Flattened (elf : List UInt8) (rt : RootTask) (segs : List LoadSeg) : Prop where
  laid : rt.Laid
  entry : le64 elf 24 = some rt.entry
  loads : ∀ s, s ∈ segs ↔ Loads elf s
  segments : rt.segments = segs.map LoadSeg.toSegment
  safe : ∀ s ∈ segs, s.flags &&& 0b011 ≠ 0b011
  data : ∀ s ∈ segs, ∀ i < s.memsz, rt.image[s.vaddr - rt.base + i]? =
    some (if i < s.filesz then elf.getD (s.offset + i) 0 else 0)

/-- **The conversion of the ELF file** keeps the layout that loading relies on, and its image has
the bytes of each segment, with zeros behind them. -/
theorem flatten_eq_some {rt : RootTask} (h : flatten elf = some rt) :
    ∃ segs, Flattened elf rt segs := by
  unfold flatten at h
  obtain ⟨⟨entry, segs⟩, hparse, h⟩ := Option.bind_eq_some_iff.mp h
  obtain ⟨first, hfirst, h⟩ := Option.bind_eq_some_iff.mp h
  obtain ⟨⟨⟩, hfew, h⟩ := Option.bind_eq_some_iff.mp h
  obtain ⟨⟨⟩, hbase, h⟩ := Option.bind_eq_some_iff.mp h
  obtain ⟨⟨prevEnd, inText⟩, hlayout, h⟩ := Option.bind_eq_some_iff.mp h
  obtain ⟨⟨⟩, htext, h⟩ := Option.bind_eq_some_iff.mp h
  obtain ⟨stop, hstop, h⟩ := Option.bind_eq_some_iff.mp h
  obtain ⟨⟨⟩, hspan, h⟩ := Option.bind_eq_some_iff.mp h
  obtain ⟨flat, hfill, h⟩ := Option.bind_eq_some_iff.mp h
  obtain rfl := Option.some.inj h
  have hfew := (Option.guard_eq_some' _).mp hfew
  have hbase := (Option.guard_eq_some' _).mp hbase
  have htext := (Option.guard_eq_some' _).mp htext
  have hspan := (Option.guard_eq_some' _).mp hspan
  obtain ⟨hentry, hloads, hok⟩ := parseElf_eq_some hparse
  have hmem : first ∈ segs := List.mem_of_head? hfirst
  obtain ⟨hle, hplaced, hpair, hexec⟩ := checkLayout_eq_some hlayout
  obtain ⟨hlt, hstop_eq⟩ := checkedMul_eq_some.mp hstop
  have hround : stop = roundUp segAlign prevEnd := hstop_eq
  have hend : prevEnd ≤ stop := by
    rw [hround]
    exact le_roundUp (by decide)
  obtain ⟨hlen, hdata, hzero⟩ := fill_eq_some hfill (fun s hs => (hplaced s hs).lo_le)
    (fun s hs => (hok s hs).filesz_le) hpair
  rw [List.length_replicate] at hlen
  have hdvd : segAlign ∣ first.vaddr := Nat.dvd_of_mod_eq_zero hbase
  have hdvd' : segAlign ∣ stop := by
    rw [hround]
    exact dvd_roundUp _ _
  refine ⟨segs, ⟨?_, hentry, hloads, rfl, fun s hs => (hplaced s hs).safe, ?_⟩⟩
  · refine
      { few := (List.length_map _).trans_le hfew
        nonempty := ?_
        base_aligned := hdvd
        len_aligned := ?_
        len_le := hlen.trans_le hspan
        fits := ?_
        aligned := List.forall_mem_map.mpr fun s hs => (hplaced s hs).aligned
        memsz_pos := List.forall_mem_map.mpr fun s hs => (hok s hs).memsz_pos
        base_le := List.forall_mem_map.mpr fun s hs => (hplaced s hs).lo_le
        end_le := List.forall_mem_map.mpr fun s hs => ?_
        apart := List.pairwise_map.mpr hpair
        entry := ?_ }
    · exact List.ne_nil_of_mem (List.mem_map_of_mem hmem)
    · dsimp only
      rw [hlen]
      exact Nat.dvd_sub hdvd' hdvd
    · dsimp only
      omega
    · have := (hplaced s hs).le_hi
      dsimp only [LoadSeg.toSegment]
      omega
    · obtain ⟨s, hs, h1, h2, h3⟩ := (hexec htext).resolve_left nofun
      exact ⟨s.toSegment, List.mem_map_of_mem hs, if_pos h1, h2, h3⟩
  · intro s hs i hi
    dsimp only
    by_cases hfile : i < s.filesz
    · have := (hok s hs).data_le
      rw [if_pos hfile, hdata s hs i hfile, List.getElem?_eq_getElem (by omega),
        List.getD_eq_getElem _ _ (by omega)]
    · -- behind the data of a segment no other segment has any
      have hother : ∀ t ∈ segs, s.vaddr - first.vaddr + i < t.vaddr - first.vaddr ∨
          t.vaddr - first.vaddr + t.filesz ≤ s.vaddr - first.vaddr + i := by
        intro t ht
        have := (hplaced s hs).lo_le
        have := (hplaced t ht).lo_le
        have := (hok t ht).filesz_le
        rcases eq_or_apart_of_pairwise hpair hs ht with rfl | h' | h'
        · omega
        · omega
        · omega
      have := (hplaced s hs).lo_le
      have := (hplaced s hs).le_hi
      rw [if_neg hfile, hzero _ hother, List.getElem?_replicate_of_lt (by omega)]

/-- The permission flags of a checked segment and its mapping permission. -/
lemma segKind_perm {flags : ℕ} (h : flags &&& 0b011 ≠ 0b011) :
    ((segKind flags).perm = .textUser ↔ flags &&& 1 ≠ 0) ∧
      ((segKind flags).perm = .rwUser ↔ flags &&& 2 ≠ 0) := by
  have h1 : flags &&& 1 = (flags &&& 0b011) &&& 1 := by rw [Nat.and_assoc]; rfl
  have h2 : flags &&& 2 = (flags &&& 0b011) &&& 2 := by rw [Nat.and_assoc]; rfl
  have hlt : flags &&& 0b011 < 2 ^ 2 := Nat.and_lt_two_pow _ (by decide)
  unfold segKind
  rw [h1, h2]
  generalize flags &&& 0b011 = f at h hlt
  interval_cases f
  · decide
  · decide
  · decide
  · exact absurd rfl h

end Elf

/-! ### The loaded file -/

section Loaded

open UserTables

variable {P : Platform} {rt : RootTask} {bootinfoPa root stack : ℕ} {fa fa' : FrameAlloc}
  {m m' : Mem}

/-- The pages of a segment lie in the range of the image. -/
lemma RootTask.Laid.page_le (hl : rt.Laid) {s : LoadSeg} (hs : s ∈ rt.segments) {va : ℕ}
    (h1 : s.va ≤ va) (h2 : va < s.va + s.pages P * P.granule) :
    rt.base ≤ va / P.granule * P.granule ∧
      va / P.granule * P.granule + P.granule ≤ rt.base + rt.image.length := by
  have hg := P.granule_pos
  have hseg := granule_dvd_segAlign P
  have hbase : P.granule ∣ rt.base := hseg.trans hl.base_aligned
  have hlen : P.granule ∣ rt.image.length := hseg.trans hl.len_aligned
  have hle := hl.base_le s hs
  have hend := hl.end_le s hs
  have hround : s.pages P * P.granule ≤ rt.base + rt.image.length - s.va :=
    (roundUp_le_iff hg (Nat.dvd_sub (Nat.dvd_add hbase hlen)
      (hseg.trans (hl.aligned s hs)))).mpr (by omega)
  have hdown := Nat.div_mul_le_self va P.granule
  constructor
  · rw [← Nat.div_mul_cancel hbase]
    exact Nat.mul_le_mul_right _ (Nat.div_le_div_right (by omega))
  · exact add_granule_le (Dvd.intro_left _ rfl) (Nat.dvd_add hbase hlen) (by omega)

/-- The MMU finds the pages of a segment of a loaded task. -/
lemma Loaded.mmuLeaf_seg (h : Loaded P rt bootinfoPa fa fa' m m' root stack) (hl : rt.Laid)
    {s : LoadSeg} (hs : s ∈ rt.segments) {va : ℕ} (h1 : s.va ≤ va)
    (h2 : va < s.va + s.pages P * P.granule) :
    ∃ w, mmuLeaf P m' root va = some w ∧
      Descr P w (fa.next + (va / P.granule * P.granule - rt.base), s.kind.perm) := by
  obtain ⟨pm, hst, hpm⟩ := h.pages
  obtain ⟨lvl, htree⟩ := h.tree
  have hspace := (h.space s hs).2
  have hva : va < 2 ^ 48 := by omega
  have hpage := (LoadSeg.mem_pages_iff
    ((granule_dvd_segAlign P).trans (hl.aligned s hs))).mpr ⟨h1, h2⟩
  refine hst.mmuLeaf_some htree hva ((hpm _ _).mpr (.inl ⟨s, hs, ?_⟩))
  rw [pageKey_of_lt hva]
  exact ⟨hpage.1, hpage.2, rfl⟩

/-- The byte that user code reads at an address of a segment is a byte of the image. -/
lemma Loaded.byte_seg (h : Loaded P rt bootinfoPa fa fa' m m' root stack) (hl : rt.Laid)
    {s : LoadSeg} (hs : s ∈ rt.segments) {va : ℕ} (h1 : s.va ≤ va) (h2 : va < s.va + s.memsz) :
    some (m' (fa.next + (va / P.granule * P.granule - rt.base) + va % P.granule)) =
      rt.image[va - rt.base]? := by
  have hround : s.memsz ≤ s.pages P * P.granule := le_roundUp P.granule_pos
  have hend := hl.end_le s hs
  have hle := (hl.page_le (P := P) hs h1 (by omega)).1
  have hsum := Nat.div_add_mod' va P.granule
  have hoff : fa.next + (va / P.granule * P.granule - rt.base) + va % P.granule =
      fa.next + (va - rt.base) := by omega
  rw [hoff, h.image (va - rt.base) (by omega), List.getElem?_eq_getElem (by omega)]

/-- The MMU finds no pages but those of the segments, the stack and the bootinfo page. -/
lemma Loaded.mmuLeaf_none (h : Loaded P rt bootinfoPa fa fa' m m' root stack) (hl : rt.Laid)
    {va : ℕ} (hseg : ∀ s ∈ rt.segments, ¬ (s.va ≤ va ∧ va < s.va + s.pages P * P.granule))
    (hstack : ¬ (userStackTop - userStackSize ≤ va ∧ va < userStackTop))
    (hinfo : ¬ (Abi.bootinfoVa ≤ va ∧ va < Abi.bootinfoVa + P.granule)) :
    mmuLeaf P m' root va = none := by
  by_cases hva : va < 2 ^ 48
  swap
  · exact if_neg hva
  obtain ⟨pm, hst, hpm⟩ := h.pages
  obtain ⟨lvl, htree⟩ := h.tree
  refine hst.mmuLeaf_none htree ?_
  cases hx : pm (pageKey P va) with
  | none => rfl
  | some x =>
    rw [pageKey_of_lt hva] at hx
    rcases (hpm _ _).mp hx with ⟨s, hs, h1, h2, -⟩ | ⟨h1, h2, -⟩ | ⟨h1, h2, -⟩
    · have hdvd : P.granule ∣ s.va := (granule_dvd_segAlign P).trans (hl.aligned s hs)
      exact absurd ((LoadSeg.mem_pages_iff hdvd).mp ⟨h1, h2⟩) (hseg s hs)
    · have hrange := (LoadSeg.mem_pages_iff (P := P) (s := stackSeg) (by cases P <;> decide)).mp
        ⟨h1, h2⟩
      have hsize : stackSeg.pages P * P.granule = userStackSize := by cases P <;> decide
      have htop : stackSeg.va + userStackSize = userStackTop := by decide
      rw [hsize, htop] at hrange
      exact absurd hrange hstack
    · have hrange := (LoadSeg.mem_pages_iff (P := P) (s := bootinfoSeg P)
        (by cases P <;> decide)).mp ⟨h1, h2⟩
      have hone : (bootinfoSeg P).pages P = 1 := by cases P <;> decide
      rw [hone, Nat.one_mul] at hrange
      exact absurd hrange hinfo

/-- The first frame of the window, which becomes the bootinfo page. -/
lemma FrameAlloc.new_alloc {window : Span} {bi : ℕ} (hfa : FrameAlloc.new P window = .ok fa)
    (hbi : fa.alloc P m = pure (bi, fa', m')) (hstop : window.stop ≤ 2 ^ 48) :
    P.granule ∣ window.start ∧ bi = window.start ∧
      fa' = ⟨window.start, window.start + P.granule, window.stop⟩ ∧
      m' = clear m window.start P.granule ∧ window.start + P.granule ≤ window.stop := by
  unfold FrameAlloc.new at hfa
  split_ifs at hfa with hbad
  obtain rfl := Except.ok.inj hfa
  have hdvd : P.granule ∣ window.start :=
    Nat.dvd_of_mod_eq_zero (not_not.mp fun e => hbad (.inl e))
  unfold FrameAlloc.alloc at hbi
  rcases @FrameAlloc.allocContig_cases P ⟨window.start, window.start, window.stop⟩ m 1
    Nat.one_pos hdvd (by dsimp only; omega) with ⟨hfit, -, h⟩ | ⟨-, h⟩ | ⟨-, h⟩
  · rw [h, pure_inj, Nat.one_mul] at hbi
    obtain ⟨rfl, hrest⟩ := Prod.mk.inj hbi
    obtain ⟨rfl, rfl⟩ := Prod.mk.inj hrest
    rw [Nat.one_mul] at hfit
    exact ⟨hdvd, rfl, rfl, rfl, hfit⟩
  · rw [h] at hbi
    exact absurd hbi throw_ne_pure
  · rw [h] at hbi
    cases hbi

/-- **Loading implements the ELF file.** For every file that the build accepts and every window
that the kernel has mapped: loading never fails because of the layout. When it succeeds, user code
finds the bytes of each segment with zeros behind them, and may write or execute them as the flags
say; the entry point is executable; the frames of the segments lie in the image and hold no table;
and nothing is mapped outside the rounded segments, the stack and the bootinfo page.

**Proof sketch.** `flatten_eq_some` says what the build makes of the file, `spawnRoot_cases` what
loading makes of that, and the `Loaded` lemmas what the MMU reads. -/
theorem spawnRoot_refines_elf {elf : List UInt8} {B : PoolBase P} {p q : Pool} {window : Span}
    {bi : ℕ} (helf : Elf.flatten elf = some rt)
    (hmap : mapKernelWindow B window p = some (.ok (), q))
    (hfa : FrameAlloc.new P window = .ok fa) (hbi : fa.alloc P m = pure (bi, fa', m'))
    (rootTcb : ℕ) (tasks : Tasks) :
    spawnRoot P rootTcb rt bi fa' m' tasks ≠ throw .badLayout ∧
    ∀ root faEnd mEnd tasksEnd,
      spawnRoot P rootTcb rt bi fa' m' tasks = pure (root, faEnd, mEnd, tasksEnd) →
      (∀ s, Elf.Loads elf s → ∀ va, s.vaddr ≤ va → va < s.vaddr + s.memsz →
        ∃ w, mmuLeaf P mEnd root va = some w ∧
          mEnd ((w &&& P.addrMask) + va % P.granule) =
            (if va - s.vaddr < s.filesz then elf.getD (s.offset + (va - s.vaddr)) 0 else 0) ∧
          (el0Executable w ↔ s.flags &&& 1 ≠ 0) ∧ (el0Writable w ↔ s.flags &&& 2 ≠ 0)) ∧
      (∃ entry w, Elf.le64 elf 24 = some entry ∧ mmuLeaf P mEnd root entry = some w ∧
        el0Executable w ∧ (tasksEnd.tcb rootTcb).ctx.elr = UInt64.ofNat entry) ∧
      (∀ s, Elf.Loads elf s → ∀ va, s.vaddr ≤ va → va < s.vaddr + roundUp P.granule s.memsz →
        ∃ w, mmuLeaf P mEnd root va = some w ∧ fa'.next ≤ w &&& P.addrMask ∧
          (w &&& P.addrMask) + P.granule ≤ fa'.next + rt.image.length ∧
          ∀ t, TableAt P mEnd root t → t ≠ w &&& P.addrMask) ∧
      ∀ va, (∀ s, Elf.Loads elf s →
          ¬ (s.vaddr ≤ va ∧ va < s.vaddr + roundUp P.granule s.memsz)) →
        ¬ (userStackTop - userStackSize ≤ va ∧ va < userStackTop) →
        ¬ (Abi.bootinfoVa ≤ va ∧ va < Abi.bootinfoVa + P.granule) →
        mmuLeaf P mEnd root va = none := by
  have hg := P.granule_pos
  obtain ⟨segs, hflat⟩ := Elf.flatten_eq_some helf
  have hlaid := hflat.laid
  obtain ⟨-, -, -, hstop⟩ := mapKernelWindow_bounds hmap
  obtain ⟨hdvd, rfl, rfl, rfl, hfit⟩ := FrameAlloc.new_alloc hfa hbi hstop
  rcases @spawnRoot_cases P rt ⟨window.start, window.start + P.granule, window.stop⟩
    (clear m window.start P.granule) hlaid (Nat.dvd_add hdvd dvd_rfl) hstop
    _ hdvd (by omega) rootTcb tasks with ⟨fa₁, m₁, root₁, stack, heq, hload, -⟩ | hstuck
  swap
  · refine ⟨hstuck.ne_badLayout, fun root faEnd mEnd tasksEnd e => ?_⟩
    rcases hstuck with ⟨-, _, -, h⟩ | ⟨-, h | h⟩
    · exact absurd (h.symm.trans e) throw_ne_pure
    · exact absurd (h.symm.trans e) throw_ne_pure
    · cases h.symm.trans e
  rw [heq]
  refine ⟨nofun, fun root faEnd mEnd tasksEnd e => ?_⟩
  obtain ⟨rfl, hrest⟩ := Prod.mk.inj (pure_inj.mp e)
  obtain ⟨rfl, hrest'⟩ := Prod.mk.inj hrest
  obtain ⟨rfl, rfl⟩ := Prod.mk.inj hrest'
  -- a segment of the file is a segment of the root task
  have hseg : ∀ s, Elf.Loads elf s → s ∈ segs ∧ s.toSegment ∈ rt.segments := by
    intro s hs
    rw [hflat.segments]
    exact ⟨(hflat.loads s).mpr hs, List.mem_map_of_mem ((hflat.loads s).mpr hs)⟩
  have hround : ∀ s : Elf.LoadSeg, s.memsz ≤ roundUp P.granule s.memsz := fun s => le_roundUp hg
  refine ⟨fun s hs va h1 h2 => ?_, ?_, fun s hs va h1 h2 => ?_, fun va hout => ?_⟩
  · obtain ⟨hmem, hmem'⟩ := hseg s hs
    obtain ⟨w, hw, hframe, hwrite, hexec⟩ := hload.mmuLeaf_seg hlaid hmem' h1
      (h2.trans_le (Nat.add_le_add_left (hround s) _))
    have hbyte := hload.byte_seg hlaid hmem' h1 h2
    have hbase := hlaid.base_le _ hmem'
    have hdata := hflat.data s hmem (va - s.vaddr) (by omega)
    have hoff : s.vaddr - rt.base + (va - s.vaddr) = va - rt.base := by
      dsimp only [Elf.LoadSeg.toSegment] at hbase
      omega
    obtain ⟨hx, hw'⟩ := Elf.segKind_perm (hflat.safe s hmem)
    rw [hoff, ← hbyte] at hdata
    refine ⟨w, hw, ?_, hexec.trans hx, hwrite.trans hw'⟩
    rw [hframe]
    exact Option.some.inj hdata
  · obtain ⟨s, hs, hkind, h1, h2⟩ := hlaid.entry
    have hle : s.memsz ≤ s.pages P * P.granule := le_roundUp hg
    obtain ⟨w, hw, -, -, hexec⟩ := hload.mmuLeaf_seg hlaid hs h1 (by omega)
    refine ⟨rt.entry, w, hflat.entry, hw, hexec.mpr ?_, ?_⟩
    · dsimp only
      rw [hkind]
      rfl
    · simp [rootTasks, Tasks.setCtx, Tasks.modTcb]
  · obtain ⟨hmem, hmem'⟩ := hseg s hs
    obtain ⟨w, hw, hframe, -⟩ := hload.mmuLeaf_seg hlaid hmem' h1 h2
    obtain ⟨hlo, hhi⟩ := hlaid.page_le (P := P) hmem' h1 h2
    have hroot := hload.root_eq
    obtain ⟨lvl, htree⟩ := hload.tree
    dsimp only at hframe hroot ⊢
    refine ⟨w, hw, by omega, by omega, fun t ht => ?_⟩
    have hmem_t := htree.mem_of_tableAt ht
    have hge := hmem_t.2.1
    omega
  · intro hstack hinfo
    refine hload.mmuLeaf_none hlaid (fun s hs => ?_) hstack hinfo
    rw [hflat.segments] at hs
    obtain ⟨t, ht, rfl⟩ := List.mem_map.mp hs
    exact hout t ((hflat.loads t).mp ht)

end Loaded

section Small

open UserTables

/-- An ELF file with one executable segment of a page, of which eight bytes are in the file. -/
def smallElf : List UInt8 :=
  [0x7f, 0x45, 0x4c, 0x46, 2, 1] ++ List.replicate 10 0 ++ le 2 2 ++ le 2 183 ++ le 4 1 ++
    le 8 0x400000 ++ le 8 64 ++ le 8 0 ++ le 4 0 ++ le 2 64 ++ le 2 56 ++ le 2 1 ++
    List.replicate 6 0 ++
    (le 4 1 ++ le 4 5 ++ le 8 120 ++ le 8 0x400000 ++ le 8 0x400000 ++ le 8 8 ++ le 8 0x4000 ++
      le 8 0x4000) ++
    List.replicate 8 0
where
  /-- The bytes of a number, least significant first. -/
  le (k n : ℕ) : List UInt8 := (Bytes.beBytes k n).reverse

deriving instance DecidableEq for RootTask

set_option maxRecDepth 100000 in
/-- The build makes the small root task from it. -/
lemma flatten_smallElf : Elf.flatten smallElf = some smallImage.rootTask := by decide +kernel

/-- The hypotheses hold in the boot of the small image, where loading succeeds. -/
theorem spawnRoot_refines_elf_smallElf :
    ∃ b : Stages smallImage smallMachine, ∃ entry w,
      Elf.flatten smallElf = some smallImage.rootTask ∧
      Elf.le64 smallElf 24 = some entry ∧ mmuLeaf .apple b.memRoot b.userRoot entry = some w ∧
      el0Executable w := by
  obtain ⟨k, hk⟩ := boot_smallMachine
  obtain ⟨b, -⟩ := boot_eq_some hk
  obtain ⟨-, hok⟩ := spawnRoot_refines_elf flatten_smallElf b.pool_eq b.frames_eq b.bi_eq
    smallImage.rootTcb (smallMachine.tasks smallImage)
  obtain ⟨-, ⟨entry, w, hentry, hw, hexec, -⟩, -⟩ := hok _ _ _ _ b.root_eq
  exact ⟨b, entry, w, flatten_smallElf, hentry, hw, hexec⟩

end Small

end K0
