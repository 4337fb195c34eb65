import K0.Lib.Outcome
import K0.Lib.Memory
import K0.Mm.Paging

set_option relaxedAutoImplicit false
set_option autoImplicit false

/-!
# User address spaces

The user page tables of `crates/k0-mm/src/user.rs`. They lie in physical memory, and the kernel
reaches them at the linear alias of their physical address. At boot a bump allocator supplies
frames from one window and a builder makes tables from them on demand; later the system calls
only walk the tables, and link tables that user space provides.

The functions are computations of `Outcome.Fallible`: they return the new memory, fail with an
`MmuError`, or panic where an unchecked addition overflows. The memory after a failure is not
returned. The callers of the boot functions park on any failure, and the system call functions
write nothing before they succeed.

## Main definitions

* `K0.UserPerm`: the permissions of user mappings.
* `K0.FrameAlloc`: the bump allocator of the boot window.
* `K0.UserSpace.mapPage`, `K0.UserSpace.mapRange`: the builder.
* `K0.userMapFrame`, `K0.userInstallTable`: the walkers of the system calls.
-/

namespace K0

open Word Memory Outcome

/-- The permissions of user mappings. Only `textUser` is executable, and only at EL0. -/
inductive UserPerm where
  | textUser
  | roUser
  | rwUser
deriving DecidableEq, Repr

/-- The attribute bits of a user mapping. -/
def UserPerm.attrs : UserPerm → ℕ
  | textUser => descPage ||| attrAf ||| shInner ||| apRoAll ||| idxNormal ||| pxn
  | roUser => descPage ||| attrAf ||| shInner ||| apRoAll ||| idxNormal ||| uxn ||| pxn
  | rwUser => descPage ||| attrAf ||| shInner ||| apRwAll ||| idxNormal ||| uxn ||| pxn

/-- The physical address behind a kernel address of the linear alias. -/
def physOf (kva : ℕ) : ℕ := kva - Abi.kernelVaOffset

/-! ### The frame allocator -/

/-- The bump allocator: frames are cut off at `next`. -/
structure FrameAlloc where
  start : ℕ
  next : ℕ
  stop : ℕ
deriving DecidableEq, Repr

namespace FrameAlloc

variable (P : Platform)

/-- An allocator over a window that is mapped at its alias. -/
def new (window : Span) : Except MmuError FrameAlloc :=
  if window.start % P.granule ≠ 0 ∨ window.stop % P.granule ≠ 0 ∨ window.stop ≤ window.start then
    .error .misaligned
  else .ok ⟨window.start, window.start, window.stop⟩

/-- Take `n` consecutive frames and clear them. -/
def allocContig (n : ℕ) (fa : FrameAlloc) (m : Mem) : Fallible MmuError (ℕ × FrameAlloc × Mem) :=
  do
  let len ← orError .outOfFrames (checkedMul n P.granule)
  if len = 0 then throw .outOfFrames
  else do
    let stop ← orError .outOfFrames (checkedAdd fa.next len)
    if stop > fa.stop then throw .outOfFrames
    else do
      let kva ← orPanic (checkedAdd fa.next Abi.kernelVaOffset)
      pure (fa.next, { fa with next := stop }, clear m (physOf kva) len)

/-- Take one frame. -/
def alloc (fa : FrameAlloc) (m : Mem) : Fallible MmuError (ℕ × FrameAlloc × Mem) :=
  allocContig P 1 fa m

end FrameAlloc

/-- The kernel address of a table entry. -/
def entryPtr (tablePa idx : ℕ) : Option ℕ :=
  (checkedAdd tablePa Abi.kernelVaOffset).bind fun kva => checkedAdd kva (idx * 8)

/-! ### The builder -/

/-- A user address space under construction. -/
structure UserSpace where
  root : ℕ
deriving DecidableEq, Repr

namespace UserSpace

variable (P : Platform)

/-- An address space with an empty root table. -/
def new (fa : FrameAlloc) (m : Mem) : Fallible MmuError (UserSpace × FrameAlloc × Mem) := do
  let (root, fa, m) ← fa.alloc P m
  pure (⟨root⟩, fa, m)

/-- The descent of `mapPage` through the given levels from table `t`, which allocates and links
absent tables. -/
def descend (va : ℕ) : List ℕ → ℕ → FrameAlloc → Mem → Fallible MmuError (ℕ × FrameAlloc × Mem)
  | [], t, fa, m => pure (t, fa, m)
  | level :: rest, t, fa, m => do
    let p ← orPanic (entryPtr t (index P va level))
    let entry := read64 m (physOf p)
    if entry = 0 then do
      let (child, fa, m) ← fa.alloc P m
      descend va rest child fa (write64 m (physOf p) (child ||| descTable))
    else if entry &&& 0b11 = descTable then descend va rest (entry &&& P.addrMask) fa m
    else throw .badTable

/-- Map one page. -/
def mapPage (us : UserSpace) (va pa attrs : ℕ) (fa : FrameAlloc) (m : Mem) :
    Fallible MmuError (FrameAlloc × Mem) := do
  let (t, fa, m) ← descend P va [0, 1, 2] us.root fa m
  let p ← orPanic (entryPtr t (index P va 3))
  if read64 m (physOf p) ≠ 0 then throw .overlap
  else pure (fa, write64 m (physOf p) (pa ||| attrs))

/-- The loop of `mapRange`, for the remaining number of pages and the offset of the next one. -/
def mapPages (us : UserSpace) (va pa attrs : ℕ) :
    ℕ → ℕ → FrameAlloc → Mem → Fallible MmuError (FrameAlloc × Mem)
  | 0, _, fa, m => pure (fa, m)
  | n + 1, off, fa, m => do
    let v ← orPanic (checkedAdd va off)
    let a ← orPanic (checkedAdd pa off)
    let (fa, m) ← mapPage P us v a attrs fa m
    mapPages us va pa attrs n (off + P.granule) fa m

/-- Map the user range `[va, va + len)` to `[pa, pa + len)`. -/
def mapRange (us : UserSpace) (va pa len : ℕ) (perm : UserPerm) (fa : FrameAlloc) (m : Mem) :
    Fallible MmuError (FrameAlloc × Mem) :=
  if va % P.granule ≠ 0 ∨ pa % P.granule ≠ 0 ∨ len % P.granule ≠ 0 ∨ len = 0 then
    throw .misaligned
  else if va < P.granule then throw .nullPage
  else do
    let stop ← orError .misaligned (checkedAdd va len)
    if stop > 2 ^ 48 then throw .misaligned
    else mapPages P us va pa perm.attrs (len / P.granule) 0 fa m

end UserSpace

/-! ### The walkers of the system calls -/

section Walkers

variable (P : Platform)

/-- The walk of `userMapFrame` through the given levels from table `t`. -/
def userWalk (va : ℕ) (m : Mem) : List ℕ → ℕ → Fallible MmuError ℕ
  | [], t => pure t
  | level :: rest, t => do
    let p ← orPanic (entryPtr t (index P va level))
    let entry := read64 m (physOf p)
    if entry = 0 then throw .missingTable
    else if entry &&& 0b11 = descTable then userWalk va m rest (entry &&& P.addrMask)
    else throw .badTable

/-- Map one frame as a leaf. Absent tables are an error. -/
def userMapFrame (root va pa : ℕ) (perm : UserPerm) (m : Mem) : Fallible MmuError Mem :=
  if va % P.granule ≠ 0 ∨ pa % P.granule ≠ 0 then throw .misaligned
  else if va < P.granule then throw .nullPage
  else do
    let stop ← orError .misaligned (checkedAdd va P.granule)
    if stop > 2 ^ 48 then throw .misaligned
    else do
      let t ← userWalk P va m [0, 1, 2] root
      let p ← orPanic (entryPtr t (index P va 3))
      if read64 m (physOf p) ≠ 0 then throw .overlap
      else pure (write64 m (physOf p) (pa ||| perm.attrs))

/-- The walk of `userInstallTable`: link the table at the first absent entry and return its
level. -/
def installWalk (va tablePa : ℕ) (m : Mem) : List ℕ → ℕ → Fallible MmuError (ℕ × Mem)
  | [], _ => throw .overlap
  | level :: rest, t => do
    let p ← orPanic (entryPtr t (index P va level))
    let entry := read64 m (physOf p)
    if entry = 0 then pure (level, write64 m (physOf p) (tablePa ||| descTable))
    else if entry &&& 0b11 = descTable then installWalk va tablePa m rest (entry &&& P.addrMask)
    else throw .badTable

/-- Link a table at the first absent level of the path of `va`. -/
def userInstallTable (root va tablePa : ℕ) (m : Mem) : Fallible MmuError (ℕ × Mem) :=
  if tablePa % P.granule ≠ 0 ∨ va ≥ 2 ^ 48 then throw .misaligned
  else installWalk P va tablePa m [0, 1, 2] root

end Walkers

end K0
