import K0.Mm.User
import K0.Task.Basic

set_option relaxedAutoImplicit false
set_option autoImplicit false

/-!
# The root task

The loading of the root task (`spawn_root` in `crates/k0-task/src/lib.rs`): the image is copied
into consecutive frames of the boot window, its segments, a stack and the bootinfo page are
mapped, and the static control block of the root task is prepared.

## Main definitions

* `K0.RootTask`: the image that is embedded in the kernel, with its segments.
* `K0.spawnRoot`: load it.
-/

namespace K0

open Word Memory Outcome

/-- The top of the user stack. -/
def userStackTop : ℕ := 0x10000000

/-- The size of the user stack. -/
def userStackSize : ℕ := 64 * 1024

/-- The permission of a segment. -/
inductive SegKind where
  | text
  | ro
  | rw
deriving DecidableEq, Repr

/-- The mapping permission of a segment. -/
def SegKind.perm : SegKind → UserPerm
  | text => .textUser
  | ro => .roUser
  | rw => .rwUser

/-- A segment to load. -/
structure LoadSeg where
  va : ℕ
  memsz : ℕ
  kind : SegKind
deriving DecidableEq, Repr

/-- The root task that the build embeds in the kernel: its flat image, the user address of the
image, the entry point and the segments. -/
structure RootTask where
  image : List UInt8
  base : ℕ
  entry : ℕ
  segments : List LoadSeg

/-- Why a task cannot be loaded. -/
inductive SpawnError where
  | badLayout
  | mmu (e : MmuError)
deriving DecidableEq, Repr

section Spawn

variable (P : Platform)

/-- The loop over the segments. Only a text segment may hold the entry point. -/
def mapSegs (us : UserSpace) (base imageEnd frames entry : ℕ) :
    List LoadSeg → FrameAlloc → Mem → Fallible SpawnError (FrameAlloc × Mem)
  | [], fa, m => pure (fa, m)
  | s :: rest, fa, m => do
    let segEnd ← orError .badLayout (checkedAdd s.va s.memsz)
    if s.va < base ∨ segEnd > imageEnd ∨ s.va % P.granule ≠ 0 ∨ s.memsz = 0 then throw .badLayout
    else do
      let mapped := (s.memsz + (P.granule - 1)) / P.granule * P.granule
      let pa ← orPanic (checkedAdd frames (s.va - base))
      let (fa, m) ← mapError .mmu (us.mapRange P s.va pa mapped s.kind.perm fa m)
      if s.va ≤ entry ∧ entry < segEnd ∧ s.kind ≠ .text then throw .badLayout
      else mapSegs us base imageEnd frames entry rest fa m

/-- Load the root task. `rootTcb` is the address of the static control block, of which the
context and the address space are written. The result holds the user root table. -/
def spawnRoot (rootTcb : ℕ) (rt : RootTask) (bootinfoPa : ℕ) (fa : FrameAlloc) (m : Mem)
    (s : Tasks) : Fallible SpawnError (ℕ × FrameAlloc × Mem × Tasks) :=
  let len := rt.image.length
  if rt.base % P.granule ≠ 0 ∨ len % P.granule ≠ 0 ∨ len = 0 ∨ rt.segments = [] then
    throw .badLayout
  else do
    let imageEnd ← orError .badLayout (checkedAdd rt.base len)
    let (frames, fa, m) ← mapError .mmu (fa.allocContig P (len / P.granule) m)
    let kva ← orPanic (checkedAdd frames Abi.kernelVaOffset)
    let m := copy m (physOf kva) rt.image
    -- the cache maintenance runs up to `kva + len`
    let _ ← orPanic (checkedAdd kva len)
    let (us, fa, m) ← mapError .mmu (UserSpace.new P fa m)
    let (fa, m) ← mapSegs P us rt.base imageEnd frames rt.entry rt.segments fa m
    if ¬ (rt.base ≤ rt.entry ∧ rt.entry < imageEnd) then throw .badLayout
    else do
      let stackBase := userStackTop - userStackSize
      let (stackFrames, fa, m) ← mapError .mmu (fa.allocContig P (userStackSize / P.granule) m)
      let (fa, m) ← mapError .mmu
        (us.mapRange P stackBase stackFrames userStackSize .rwUser fa m)
      let (fa, m) ← mapError .mmu
        (us.mapRange P Abi.bootinfoVa bootinfoPa P.granule .roUser fa m)
      let s := s.setCtx rootTcb { Context.zeroed with
        elr := UInt64.ofNat rt.entry, sp := UInt64.ofNat userStackTop, spsr := 0 }
      let s := s.modTcb .ttbr0Pa rootTcb fun t => { t with ttbr0Pa := us.root }
      pure (us.root, fa, m, s)

end Spawn

end K0
