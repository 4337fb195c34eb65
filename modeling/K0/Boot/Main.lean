import K0.Boot.Window
import K0.Task.Spawn
import K0.Kernel.Basic

set_option relaxedAutoImplicit false
set_option autoImplicit false

/-!
# The boot

The boot of `kernel/src/main.rs`, from the entry of the kernel to the handoff to the root task:
the first page tables, the device tree and its memory map, the boot window, the root task, the
capabilities and the bootinfo page. It has a result only if it reaches the handoff; every failure
parks.

What the processor or the hash function answers is part of the input. The derivation of the
pointer authentication keys, the log and the initialisation of the interrupt controller leave no
trace in the state.

## Main definitions

* `K0.Image`: the layout of the kernel image in memory.
* `K0.Machine`: the machine at the entry of the kernel.
* `K0.bootstrap`: the capabilities of the root task.
* `K0.writeBootinfo`: the contents of the bootinfo page.
* `K0.boot`: the boot.
* `K0.Stages`: the intermediate results of a boot that reaches the handoff.

## Main results

* `K0.bootMemory_eq_some`, `K0.boot_eq_some`: what the first part of the boot has done, and a boot
  that reaches the handoff has gone through its stages.
* `K0.boot_smallMachine`: there is such a boot.
-/

namespace K0

open Word Memory Outcome

/-- The kernel image, by the symbols of the linker script as physical addresses, with the static
data that the model names: the table pool and the control block of the root task, both in the
data segment, and the embedded root task. -/
structure Image (P : Platform) where
  kernelStart : ℕ
  rodataStart : ℕ
  dataStart : ℕ
  stackBottom : ℕ
  stackTop : ℕ
  kernelEnd : ℕ
  pool : PoolBase P
  rootTcb : ℕ
  rootTask : RootTask
  start_aligned : P.granule ∣ kernelStart
  rodata_aligned : P.granule ∣ rodataStart
  data_aligned : P.granule ∣ dataStart
  bottom_aligned : P.granule ∣ stackBottom
  top_aligned : P.granule ∣ stackTop
  end_aligned : P.granule ∣ kernelEnd
  start_le : kernelStart ≤ rodataStart
  rodata_le : rodataStart ≤ dataStart
  data_le : dataStart + P.granule ≤ stackBottom
  bottom_le : stackBottom ≤ stackTop
  top_le : stackTop ≤ kernelEnd
  fits : kernelEnd ≤ 2 ^ 48
  pool_ge : dataStart ≤ pool.base
  pool_le : pool.base + poolLen * P.granule + P.granule ≤ stackBottom
  rootTcb_ge : dataStart + Abi.kernelVaOffset ≤ rootTcb
  rootTcb_lt : rootTcb + P.granule < stackBottom + Abi.kernelVaOffset

/-- The machine at the entry of the kernel: memory, the device tree that the boot loader passes,
whatever the bytes of memory mean as records, and the answers of the processor and of the hash
function to the checks of the boot. -/
structure Machine where
  mem : Mem
  dtbPhys : ℕ
  tcb : ℕ → Tcb
  ep : ℕ → Endpoint
  granuleOk : Bool
  wxOk : Bool
  hashOk : Bool
  irqOk : Bool
  userWxOk : Bool

namespace Image

variable {P : Platform} (I : Image P)

/-- The physical range of the kernel image. -/
def span : Span := ⟨I.kernelStart, I.kernelEnd⟩

/-- The regions that are mapped at boot. -/
def layout (dtb : Span) : KernelLayout where
  text := ⟨I.kernelStart, I.rodataStart⟩
  rodata := ⟨I.rodataStart, I.dataStart⟩
  rw0 := ⟨I.dataStart, I.stackBottom - P.granule⟩
  rw1 := ⟨I.stackBottom, I.stackTop⟩
  dtb := dtb
  devices := deviceWindows P

end Image

/-! ### The capabilities -/

/-- Copy regions into a zeroed buffer of `n` entries and take the part that was filled. The copy
stops at the end of the buffer; to take more than the buffer holds is a panic. -/
def copyRegions (n : ℕ) (regions : List MemRegion) : Option (List PhysRegion) :=
  let buf := regions.take n ++ List.replicate (n - regions.length) ⟨0, 0⟩
  if regions.length ≤ n then some (buf.take regions.length) else none

/-- The fixed reservations: the kernel image, the device tree and the boot window. The ends of
these ranges are never before their starts. -/
def fixedReserved (kernelImage dtb window : Span) : List PhysRegion :=
  [⟨kernelImage.start, kernelImage.stop - kernelImage.start⟩, ⟨dtb.start, dtb.stop - dtb.start⟩,
    ⟨window.start, window.stop - window.start⟩]

/-- The capabilities of the root task: the memory map outside the fixed reservations and those of
the device tree. -/
def bootstrap (info : BootInfo) (kernelImage window : Span) (userRoot : ℕ) :
    Option (Except CapError Unit × CNode) := do
  let memory ← copyRegions Fdt.maxMemRegions info.memory
  let reserved ← copyRegions Fdt.maxRsvRegions info.reserved
  populate CNode.init memory (fixedReserved kernelImage info.dtb window ++ reserved) userRoot

/-! ### The bootinfo page -/

/-- The description of a capability: its kind, base and size. Only untyped memory shows where it
is. -/
def capDesc : Cap → List ℕ
  | .empty => [0, 0, 0]
  | .rootTcb => [1, 0, 0]
  | .tcb _ => [1, 0, 0]
  | .addrSpace _ => [2, 0, 0]
  | .untyped base size _ => [3, base, size]
  | .frame _ _ => [4, 0, 0]
  | .pageTable _ _ => [5, 0, 0]
  | .endpoint _ => [6, 0, 0]
  | .console => [7, 0, 0]

/-- Store consecutive words. -/
def writeWords (m : Mem) (a : ℕ) : List ℕ → Mem
  | [] => m
  | w :: ws => writeWords (write64 m a w) (a + 8) ws

/-- The words of the bootinfo page: version, frame size, number of capabilities, and their
descriptions. -/
def bootinfoWords (P : Platform) (c : CNode) : List ℕ :=
  [1, P.granule, c.slots.length] ++ c.slots.flatMap capDesc

/-- Write the bootinfo page at its alias. -/
def writeBootinfo (P : Platform) (framePa : ℕ) (c : CNode) (m : Mem) : Option Mem :=
  (checkedAdd framePa Abi.kernelVaOffset).map fun kva =>
    writeWords m (physOf kva) (bootinfoWords P c)

/-! ### From entry to handoff -/

section Boot

variable {P : Platform} (I : Image P)

/-- The tasks before the boot: the control block of the root task is cleared static data. -/
def Machine.tasks (i : Machine) : Tasks where
  tcb := Function.update i.tcb I.rootTcb Tcb.zeroed
  ep := i.ep
  sched := ⟨⟨0, 0⟩, 0⟩
  currentContext := 0
  ttbr0 := 0
  log := ()

/-- The part of the boot that settles the memory map: page tables, device tree, boot window. -/
def bootMemory (i : Machine) : Option (BootInfo × Span × Pool) := do
  let dtb ← (dtbSpan i.mem i.dtbPhys).toOption
  let (_, pool) ← accept (enablePaging I.pool i.granuleOk (I.layout dtb) Pool.zero)
  guard (i.wxOk = true)
  -- the device tree is read again, now at the alias
  let info ← (parse (fun va => i.mem (physOf va)) i.dtbPhys I.span Abi.kernelVaOffset).toOption
  guard (checkMemoryMap P info = true)
  guard (i.hashOk = true)
  guard (i.irqOk = true)
  let window ← pickWindow P info I.span
  let (_, pool) ← accept (mapKernelWindow I.pool window pool)
  some (info, window, pool)

/-- The part of the boot that loads the root task and hands over. -/
def bootRoot (i : Machine) (info : BootInfo) (window : Span) (pool : Pool) : Option Kernel := do
  let fa ← (FrameAlloc.new P window).toOption
  let (biFrame, fa, m) ← toOption (fa.alloc P i.mem)
  guard (I.rootTask.segments.length ≤ 4)
  let (userRoot, _, m, tasks) ←
    toOption (spawnRoot P I.rootTcb I.rootTask biFrame fa m (i.tasks I))
  let (_, cnode) ← accept (bootstrap info I.span window userRoot)
  let m ← writeBootinfo P biFrame cnode m
  let tasks := tasks.installUserTtbr0 userRoot
  guard (∃ s ∈ I.rootTask.segments, s.kind = .text)
  guard (i.userWxOk = true)
  some ⟨cnode, pool, m, tasks.handoff I.rootTcb, []⟩

/-- The boot; no result unless it reaches the handoff. -/
def boot (i : Machine) : Option Kernel := do
  let (info, window, pool) ← bootMemory I i
  bootRoot I i info window pool

/-- The intermediate results of a boot that reaches the handoff. -/
structure Stages (i : Machine) where
  dtb : Span
  paged : Pool
  roots : ℕ × ℕ
  info : BootInfo
  window : Span
  pool : Pool
  frames : FrameAlloc
  biFrame : ℕ
  framesBi : FrameAlloc
  memBi : Mem
  userRoot : ℕ
  framesRoot : FrameAlloc
  memRoot : Mem
  tasks : Tasks
  cnode : CNode
  mem : Mem
  dtb_eq : dtbSpan i.mem i.dtbPhys = .ok dtb
  paged_eq : enablePaging I.pool i.granuleOk (I.layout dtb) Pool.zero = some (.ok roots, paged)
  info_eq :
    parse (fun va => i.mem (physOf va)) i.dtbPhys I.span Abi.kernelVaOffset = .ok info
  checked : checkMemoryMap P info = true
  window_eq : pickWindow P info I.span = some window
  pool_eq : mapKernelWindow I.pool window paged = some (.ok (), pool)
  frames_eq : FrameAlloc.new P window = .ok frames
  bi_eq : frames.alloc P i.mem = pure (biFrame, framesBi, memBi)
  few : I.rootTask.segments.length ≤ 4
  root_eq : spawnRoot P I.rootTcb I.rootTask biFrame framesBi memBi (i.tasks I) =
    pure (userRoot, framesRoot, memRoot, tasks)
  cnode_eq : bootstrap info I.span window userRoot = some (.ok (), cnode)
  mem_eq : writeBootinfo P biFrame cnode memRoot = some mem
  text : ∃ s ∈ I.rootTask.segments, s.kind = .text

/-- The state at the handoff. -/
def Stages.kernel {i : Machine} (b : Stages I i) : Kernel :=
  ⟨b.cnode, b.pool, b.mem, (b.tasks.installUserTtbr0 b.userRoot).handoff I.rootTcb, []⟩

variable {I}

/-- A computation whose error is dropped has a value when it returned one. -/
lemma except_toOption_eq_some {ε α : Type} {x : Except ε α} {a : α}
    (h : x.toOption = some a) : x = .ok a := by
  cases x with
  | error e => cases h
  | ok b => exact congrArg _ (Option.some.inj h)

/-- What the first part of the boot has checked and computed. -/
lemma bootMemory_eq_some {i : Machine} {info : BootInfo} {window : Span} {pool : Pool}
    (h : bootMemory I i = some (info, window, pool)) :
    ∃ dtb roots paged, dtbSpan i.mem i.dtbPhys = .ok dtb ∧
      enablePaging I.pool i.granuleOk (I.layout dtb) Pool.zero = some (.ok roots, paged) ∧
      parse (fun va => i.mem (physOf va)) i.dtbPhys I.span Abi.kernelVaOffset = .ok info ∧
      checkMemoryMap P info = true ∧ pickWindow P info I.span = some window ∧
      mapKernelWindow I.pool window paged = some (.ok (), pool) := by
  unfold bootMemory at h
  obtain ⟨dtb, hdtb, h⟩ := Option.bind_eq_some_iff.mp h
  obtain ⟨⟨roots, paged⟩, hpaged, h⟩ := Option.bind_eq_some_iff.mp h
  obtain ⟨⟨⟩, -, h⟩ := Option.bind_eq_some_iff.mp h
  obtain ⟨info', hinfo, h⟩ := Option.bind_eq_some_iff.mp h
  obtain ⟨⟨⟩, hcheck, h⟩ := Option.bind_eq_some_iff.mp h
  obtain ⟨⟨⟩, -, h⟩ := Option.bind_eq_some_iff.mp h
  obtain ⟨⟨⟩, -, h⟩ := Option.bind_eq_some_iff.mp h
  obtain ⟨window', hwindow, h⟩ := Option.bind_eq_some_iff.mp h
  obtain ⟨⟨⟨⟩, pool'⟩, hpool, h⟩ := Option.bind_eq_some_iff.mp h
  obtain ⟨rfl, hrest⟩ := Prod.mk.inj (Option.some.inj h)
  obtain ⟨rfl, rfl⟩ := Prod.mk.inj hrest
  exact ⟨dtb, roots, paged, except_toOption_eq_some hdtb, accept_eq_some.mp hpaged,
    except_toOption_eq_some hinfo, (Option.guard_eq_some' _).mp hcheck, hwindow,
    accept_eq_some.mp hpool⟩

/-- A boot that reaches the handoff has gone through its stages. -/
theorem boot_eq_some {i : Machine} {k : Kernel} (h : boot I i = some k) :
    ∃ b : Stages I i, b.kernel = k := by
  unfold boot at h
  obtain ⟨⟨info, window, pool⟩, hmem, hroot⟩ := Option.bind_eq_some_iff.mp h
  obtain ⟨dtb, roots, paged, hdtb, hpaged, hinfo, hcheck, hwindow, hpool⟩ :=
    bootMemory_eq_some hmem
  unfold bootRoot at hroot
  obtain ⟨fa, hfa, hroot⟩ := Option.bind_eq_some_iff.mp hroot
  obtain ⟨⟨biFrame, faBi, mBi⟩, hbi, hroot⟩ := Option.bind_eq_some_iff.mp hroot
  obtain ⟨⟨⟩, hfew, hroot⟩ := Option.bind_eq_some_iff.mp hroot
  obtain ⟨⟨userRoot, faRoot, mRoot, tasks⟩, hspawn, hroot⟩ := Option.bind_eq_some_iff.mp hroot
  obtain ⟨⟨⟨⟩, cnode⟩, hcnode, hroot⟩ := Option.bind_eq_some_iff.mp hroot
  obtain ⟨m, hm, hroot⟩ := Option.bind_eq_some_iff.mp hroot
  obtain ⟨⟨⟩, htext, hroot⟩ := Option.bind_eq_some_iff.mp hroot
  obtain ⟨⟨⟩, -, hroot⟩ := Option.bind_eq_some_iff.mp hroot
  exact ⟨{ dtb := dtb, paged := paged, roots := roots, info := info, window := window,
           pool := pool, frames := fa, biFrame := biFrame, framesBi := faBi, memBi := mBi,
           userRoot := userRoot, framesRoot := faRoot, memRoot := mRoot, tasks := tasks,
           cnode := cnode, mem := m
           dtb_eq := hdtb
           paged_eq := hpaged
           info_eq := hinfo
           checked := hcheck
           window_eq := hwindow
           pool_eq := hpool
           frames_eq := except_toOption_eq_some hfa
           bi_eq := toOption_eq_some.mp hbi
           few := (Option.guard_eq_some' _).mp hfew
           root_eq := toOption_eq_some.mp hspawn
           cnode_eq := accept_eq_some.mp hcnode
           mem_eq := hm
           text := (Option.guard_eq_some' _).mp htext }, Option.some.inj hroot⟩

end Boot

/-! ### A boot that reaches the handoff -/

section Small

open Fdt

/-- A kernel image of 36 pages with a root task of one page. -/
def smallImage : Image .apple where
  kernelStart := 0x810000000
  rodataStart := 0x810004000
  dataStart := 0x810008000
  stackBottom := 0x810008000 + 34 * 0x4000 + 0x4000
  stackTop := 0x810008000 + 34 * 0x4000 + 0x8000
  kernelEnd := 0x810008000 + 34 * 0x4000 + 0x8000
  pool := ⟨0x810008000, by decide, by decide⟩
  rootTcb := 0xFFFF000810008000 + 32 * 0x4000
  rootTask := ⟨List.replicate 0x4000 0, 0x400000, 0x400000, [⟨0x400000, 0x4000, .text⟩]⟩
  start_aligned := by decide
  rodata_aligned := by decide
  data_aligned := by decide
  bottom_aligned := by decide
  top_aligned := by decide
  end_aligned := by decide
  start_le := by decide
  rodata_le := by decide
  data_le := by decide
  bottom_le := by decide
  top_le := by decide
  fits := by decide
  pool_ge := by decide
  pool_le := by decide
  rootTcb_ge := by decide
  rootTcb_lt := by decide

/-- A device tree with one bank of memory at `0x8_0000_0000`. -/
def smallBlob : List UInt8 :=
  word 0xd00dfeed ++ word 116 ++ word 56 ++ word 112 ++ word 40 ++ word 17 ++ word 16 ++ word 0 ++
    word 4 ++ word 56 ++ (dword 0 ++ dword 0) ++
    (word 1 ++ word 0 ++ word 1 ++ (ascii "memory" ++ [0, 0]) ++ word 3 ++ word 12 ++ word 0 ++
      (dword 0x800000000 ++ word 0x40000000) ++ word 2 ++ word 2 ++ word 9) ++
    (ascii "reg" ++ [0])

/-- A machine with that device tree at `0x8_2000_0000`, on which every check passes. -/
def smallMachine : Machine where
  mem := fun a => if 0x820000000 ≤ a then smallBlob.getD (a - 0x820000000) 0 else 0
  dtbPhys := 0x820000000
  tcb := fun _ => Tcb.zeroed
  ep := fun _ => Endpoint.zeroed
  granuleOk := true
  wxOk := true
  hashOk := true
  irqOk := true
  userWxOk := true

set_option maxRecDepth 100000 in
/-- The boot of the small image reaches the handoff. -/
lemma boot_smallMachine : ∃ k, boot smallImage smallMachine = some k :=
  Option.isSome_iff_exists.mp (by decide +kernel)

end Small

end K0
