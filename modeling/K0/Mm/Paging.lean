import K0.Lib.Word
import K0.Abi

set_option relaxedAutoImplicit false
set_option autoImplicit false

/-!
# The kernel's page-table pool

The table pool of `crates/k0-mm/src/paging.rs`: thirty-two static tables from which the two
kernel halves are built. Words are natural numbers below `2 ^ 64`. The pool keeps the mutations
that were made before a failure, so every function returns it beside the result; an outer
`Option` is `none` where a plain addition would overflow and panic.

The array accesses of the source are total functions here. Every table that the walk indexes is
a root, comes from `alloc` or has passed the bound check of `indexOf`, and `index` is below the
number of entries, so no bounds check of the source can fail.

## Main definitions

* `K0.Platform`: the two boards, with their translation granule.
* `K0.index`: the index of an address in a table of a level.
* `K0.Pool`, `K0.Pool.mapPage`, `K0.Pool.mapRange`: the pool and its mapping functions.
* `K0.enablePaging`, `K0.mapKernelWindow`: the initial tables, and later kernel mappings.
-/

namespace K0

open Word

/-- The boards the kernel is built for (`plat-virt` and `plat-apple`). -/
inductive Platform where
  | virt
  | apple
deriving DecidableEq, Repr

namespace Platform

/-- The binary logarithm of the translation granule. -/
def pageShift : Platform → ℕ
  | virt => 12
  | apple => 14

/-- The translation granule (page size). -/
def granule (P : Platform) : ℕ := 2 ^ P.pageShift

/-- The granule is positive. -/
lemma granule_pos (P : Platform) : 0 < P.granule := Nat.two_pow_pos _

/-- The granule is a 64-bit value. -/
lemma pageShift_lt (P : Platform) : P.pageShift < 64 := by
  cases P <;> decide

/-- The index bits of one table. -/
def bitsPerLevel (P : Platform) : ℕ := P.pageShift - 3

/-- The entries of one table. -/
def entries (P : Platform) : ℕ := P.granule / 8

/-- The address field of a descriptor, `((1 << 48) - 1) & !(GRANULE - 1)`. -/
def addrMask (P : Platform) : ℕ := (2 ^ 48 - 1) &&& (2 ^ 64 - P.granule)

end Platform

/-- The number of tables in the static pool. -/
def poolLen : ℕ := 32

/-! ### Descriptor bits -/

/-- A table descriptor of levels 0 to 2. -/
def descTable : ℕ := 0b11

/-- A page descriptor of level 3. -/
def descPage : ℕ := 0b11

/-- The access flag. -/
def attrAf : ℕ := 1 <<< 10

/-- Inner shareable. -/
def shInner : ℕ := 0b11 <<< 8

/-- Outer shareable. -/
def shOuter : ℕ := 0b10 <<< 8

/-- Read-only at EL1. -/
def apRo : ℕ := 0b10 <<< 6

/-- Read-write at EL1. -/
def apRw : ℕ := 0b00 <<< 6

/-- Read-only at EL1 and EL0. -/
def apRoAll : ℕ := 0b11 <<< 6

/-- Read-write at EL1 and EL0. -/
def apRwAll : ℕ := 0b01 <<< 6

/-- No execution at EL1. -/
def pxn : ℕ := 1 <<< 53

/-- No execution at EL0. -/
def uxn : ℕ := 1 <<< 54

/-- Normal memory. -/
def idxNormal : ℕ := 0 <<< 2

/-- Device memory. -/
def idxDevice : ℕ := 1 <<< 2

/-- The permissions of kernel mappings. -/
inductive Perm where
  | text
  | ro
  | rw
  | device
deriving DecidableEq, Repr

/-- The attribute bits of a kernel mapping. -/
def Perm.attrs : Perm → ℕ
  | text => descPage ||| attrAf ||| shInner ||| apRo ||| idxNormal ||| uxn
  | ro => descPage ||| attrAf ||| shInner ||| apRo ||| idxNormal ||| uxn ||| pxn
  | rw => descPage ||| attrAf ||| shInner ||| apRw ||| idxNormal ||| uxn ||| pxn
  | device => descPage ||| attrAf ||| shOuter ||| apRw ||| idxDevice ||| uxn ||| pxn

/-- The failures of the mapping functions. -/
inductive MmuError where
  | alreadyEnabled
  | notEnabled
  | granuleUnsupported
  | outOfTables
  | outOfFrames
  | misaligned
  | overlap
  | nullPage
  | badTable
  | missingTable
deriving DecidableEq, Repr

/-- The index of `va` in a table of the given level. The root level has the bits that are left
of 48. -/
def index (P : Platform) (va level : ℕ) : ℕ :=
  let shift := P.pageShift + P.bitsPerLevel * (3 - level)
  let bits := if level = 0 then 48 - shift else P.bitsPerLevel
  (va >>> shift) &&& (2 ^ bits - 1)

/-! ### The pool -/

/-- Where the static pool lies in physical memory: aligned to the granule by its type, and in
the 48-bit physical space, where the kernel image is loaded. -/
structure PoolBase (P : Platform) where
  base : ℕ
  aligned : P.granule ∣ base
  fits : base + poolLen * P.granule ≤ 2 ^ 48

/-- The table pool. -/
structure Pool where
  tables : ℕ → ℕ → ℕ
  used : ℕ
  enabled : Bool
  root1 : ℕ

namespace Pool

/-- The pool in `.bss`. -/
def zero : Pool := ⟨fun _ _ => 0, 0, false, 0⟩

/-- Overwrite one table entry. -/
def write (p : Pool) (t idx w : ℕ) : Pool :=
  { p with tables := fun t' i => if t' = t ∧ i = idx then w else p.tables t' i }

/-- Take the next table. -/
def alloc (p : Pool) : Except MmuError ℕ × Pool :=
  if p.used = poolLen then (.error .outOfTables, p)
  else (.ok p.used, { p with used := p.used + 1 })

end Pool

section Walk

variable {P : Platform} (B : PoolBase P)

/-- The physical address of a pool table. -/
def PoolBase.pa (i : ℕ) : ℕ := B.base + i * P.granule

/-- Different tables have different addresses. -/
lemma PoolBase.pa_injective : Function.Injective B.pa := by
  intro i j h
  exact Nat.eq_of_mul_eq_mul_right P.granule_pos (Nat.add_left_cancel h)

namespace Pool

/-- The allocated table at a physical address. -/
def indexOf (p : Pool) (pa : ℕ) : Except MmuError ℕ :=
  if pa < B.pa 0 then .error .badTable
  else
    let off := pa - B.pa 0
    let i := off / P.granule
    if off % P.granule ≠ 0 ∨ p.used ≤ i then .error .badTable else .ok i

/-- The descent of `mapPage` through the given levels from table `t`. It allocates and links
absent tables on its way, and records each new link (parent table, index). -/
def descend (va : ℕ) : List ℕ → ℕ → List (ℕ × ℕ) → Pool →
    Except MmuError ℕ × List (ℕ × ℕ) × Pool
  | [], t, links, p => (.ok t, links, p)
  | level :: rest, t, links, p =>
    let idx := index P va level
    let entry := p.tables t idx
    if entry = 0 then
      match p.alloc with
      | (.error e, p) => (.error e, links, p)
      | (.ok child, p) =>
        descend va rest child (links ++ [(t, idx)]) (p.write t idx (B.pa child ||| descTable))
    else if entry &&& 0b11 = descTable then
      match p.indexOf B (entry &&& P.addrMask) with
      | .error e => (.error e, links, p)
      | .ok i => descend va rest i links p
    else (.error .badTable, links, p)

/-- Write a leaf entry that is still empty. -/
def writeLeaf (P : Platform) (va w t : ℕ) (p : Pool) : Except MmuError Unit × Pool :=
  let idx := index P va 3
  if p.tables t idx ≠ 0 then (.error .overlap, p) else (.ok (), p.write t idx w)

/-- Clear the recorded links and set the allocation counter back. -/
def rollback (usedBefore : ℕ) (links : List (ℕ × ℕ)) (p : Pool) : Pool :=
  { links.foldl (fun p l => p.write l.1 l.2 0) p with used := usedBefore }

/-- Map one page. On failure the links of this call are undone. -/
def mapPage (root va pa attrs : ℕ) (p : Pool) : Except MmuError Unit × Pool :=
  match p.descend B va [0, 1, 2] root [] with
  | (.error e, links, q) => (.error e, q.rollback p.used links)
  | (.ok t, links, q) =>
    match q.writeLeaf P va (pa ||| attrs) t with
    | (.error e, q) => (.error e, q.rollback p.used links)
    | (.ok _, q) => (.ok (), q)

/-- The loop of `mapRange`, for the remaining number of pages and the offset of the next one. -/
def mapPages (root va pa attrs : ℕ) : ℕ → ℕ → Pool → Option (Except MmuError Unit × Pool)
  | 0, _, p => some (.ok (), p)
  | n + 1, off, p =>
    match checkedAdd va off, checkedAdd pa off with
    | some v, some a =>
      match p.mapPage B root v a attrs with
      | (.error e, p) => some (.error e, p)
      | (.ok _, p) => mapPages root va pa attrs n (off + P.granule) p
    | _, _ => none

/-- Map the range `[va, va + len)` to `[pa, pa + len)`, page by page. -/
def mapRange (root va pa len : ℕ) (perm : Perm) (p : Pool) :
    Option (Except MmuError Unit × Pool) :=
  if va % P.granule ≠ 0 ∨ pa % P.granule ≠ 0 ∨ len % P.granule ≠ 0 then
    some (.error .misaligned, p)
  else p.mapPages B root va pa perm.attrs (len / P.granule) 0

end Pool

/-! ### The initial tables and later kernel mappings -/

/-- A half-open range of addresses. -/
structure Span where
  start : ℕ
  stop : ℕ
deriving DecidableEq, Repr

/-- The regions of the kernel image, the device tree and the devices that are mapped at boot.
The two parts of `rw` leave out the guard page below the boot stack. -/
structure KernelLayout where
  text : Span
  rodata : Span
  rw0 : Span
  rw1 : Span
  dtb : Span
  devices : List Span

/-- Map a range at its own address in root 0 and at its linear alias in root 1. -/
def mapBoth (root0 root1 : ℕ) (start len : ℕ) (perm : Perm) (p : Pool) :
    Option (Except MmuError Unit × Pool) :=
  match p.mapRange B root0 start start len perm with
  | none => none
  | some (.error e, p) => some (.error e, p)
  | some (.ok _, p) =>
    match checkedAdd start Abi.kernelVaOffset with
    | none => none
    | some kva => p.mapRange B root1 kva start len perm

/-- The loop over the image segments. An inverted segment is an error and an empty one is
skipped. -/
def mapSegments (root0 root1 : ℕ) : List (ℕ × ℕ × Perm) → Pool →
    Option (Except MmuError Unit × Pool)
  | [], p => some (.ok (), p)
  | (start, stop, perm) :: rest, p =>
    if stop < start then some (.error .misaligned, p)
    else if stop - start = 0 then mapSegments root0 root1 rest p
    else
      match mapBoth B root0 root1 start (stop - start) perm p with
      | some (.ok _, p) => mapSegments root0 root1 rest p
      | r => r

/-- The loop over the device windows. Empty and inverted windows are skipped. -/
def mapDevices (root0 root1 : ℕ) : List Span → Pool → Option (Except MmuError Unit × Pool)
  | [], p => some (.ok (), p)
  | dev :: rest, p =>
    if dev.stop ≤ dev.start then mapDevices root0 root1 rest p
    else
      match mapBoth B root0 root1 dev.start (dev.stop - dev.start) .device p with
      | some (.ok _, p) => mapDevices root0 root1 rest p
      | r => r

/-- The image segments in the order in which they are mapped; the device tree is rounded outward
to whole pages. `none` if the rounding overflows. -/
def segments (P : Platform) (layout : KernelLayout) : Option (List (ℕ × ℕ × Perm)) :=
  let g := P.granule
  let dtbBase := maskDown g layout.dtb.start
  let dtbEnd := (layout.dtb.stop + (g - 1)) / g * g
  if dtbEnd < 2 ^ 64 then
    some [(layout.text.start, layout.text.stop, .text),
      (layout.rodata.start, layout.rodata.stop, .ro),
      (layout.rw0.start, layout.rw0.stop, .rw),
      (layout.rw1.start, layout.rw1.stop, .rw),
      (dtbBase, dtbEnd, .ro)]
  else none

/-- Build the initial tables and switch the MMU on; `granuleOk` is what `check_features` reads
from the processor. On success the result holds the physical addresses that are loaded into
TTBR0 and TTBR1. -/
def enablePaging (granuleOk : Bool) (layout : KernelLayout) (p : Pool) :
    Option (Except MmuError (ℕ × ℕ) × Pool) :=
  if granuleOk = false then some (.error .granuleUnsupported, p)
  else if p.enabled then some (.error .alreadyEnabled, p)
  else
    match p.alloc with
    | (.error e, p) => some (.error e, p)
    | (.ok root0, p) =>
      match p.alloc with
      | (.error e, p) => some (.error e, p)
      | (.ok root1, p) =>
        match segments P layout with
        | none => none
        | some segs =>
          match mapSegments B root0 root1 segs p with
          | none => none
          | some (.error e, p) => some (.error e, p)
          | some (.ok _, p) =>
            match mapDevices B root0 root1 layout.devices p with
            | none => none
            | some (.error e, p) => some (.error e, p)
            | some (.ok _, p) =>
              some (.ok (B.pa root0, B.pa root1), { p with enabled := true, root1 := root1 })

/-- Add a writable kernel mapping of a physical window at its alias in root 1. -/
def mapKernelWindow (window : Span) (p : Pool) : Option (Except MmuError Unit × Pool) :=
  if window.stop ≤ window.start ∨ window.start % P.granule ≠ 0 ∨ window.stop % P.granule ≠ 0 then
    some (.error .misaligned, p)
  else if p.enabled = false then some (.error .notEnabled, p)
  else
    match checkedAdd window.start Abi.kernelVaOffset with
    | none => none
    | some kva =>
      p.mapRange B p.root1 kva window.start (window.stop - window.start) .rw

end Walk

end K0
