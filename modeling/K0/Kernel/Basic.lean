import K0.Mm.User
import K0.Ipc.Basic

set_option relaxedAutoImplicit false
set_option autoImplicit false

/-!
# The kernel after the handoff

The system calls, faults and ticks of `kernel/src/main.rs`, on top of the exception entry of
`crates/k0-arch`. The kernel runs on one core and is never preempted, so a run of the system is a
sequence of events: the processor traps into the kernel with some registers, or user code writes
to memory that it has mapped writable.

Physical memory is one byte map, except that the control blocks and endpoints which lie in it are
read and written as records through `K0.Tasks`; clearing a granule clears both views. The table
pool and the root CNode are static data of the kernel and have their own fields.

A step has no result when the kernel parks or panics. Diagnostics on the console are not
modelled; `console` holds the bytes that tasks print.

## Main definitions

* `K0.Kernel`: the state.
* `K0.Kernel.k0Syscall` and the handlers that it dispatches to.
* `K0.Event`, `K0.Kernel.step`, `K0.Kernel.run`, `K0.Kernel.Reaches`: events, steps and runs.
-/

namespace K0

open Word Memory

/-- The state of the machine that the kernel works on. -/
structure Kernel (ω : Type := Unit) where
  cnode : CNode
  pool : Pool
  mem : Mem
  tasks : Tasks ω
  console : List UInt8

/-- The error code of a failed mapping. A corrupt table parks the kernel. -/
def mmuErr : MmuError → Option ℤ
  | .misaligned | .nullPage => some Abi.Err.badVa
  | .overlap => some Abi.Err.overlap
  | .missingTable => some Abi.Err.missingTable
  | .badTable => none
  | _ => some Abi.Err.kernelResource

/-- The object kind with a given number. -/
def objKind (kind : UInt64) : Option ObjKind :=
  if kind = Abi.Obj.frame then some .frame
  else if kind = Abi.Obj.pageTable then some .pageTable
  else if kind = Abi.Obj.tcb then some .tcb
  else if kind = Abi.Obj.endpoint then some .endpoint
  else none

/-- The user permission with a given number. -/
def userPerm (perm : UInt64) : Option UserPerm :=
  if perm = Abi.Perm.ro then some .roUser
  else if perm = Abi.Perm.rw then some .rwUser
  else none

/-- The error code of a failed `retype`. -/
def retypeErr : RetypeError → ℤ
  | .badSlot => Abi.Err.badSlot
  | .notUntyped => Abi.Err.notUntyped
  | .exhausted => Abi.Err.exhausted
  | .outOfSlots => Abi.Err.outOfSlots
  | .prepFailed => Abi.Err.kernelResource

/-- The address space that a slot holds. -/
def addrSpaceAt (c : CNode) (slot : UInt64) : Except ℤ ℕ :=
  match c.cap slot.toNat with
  | some (.addrSpace root) => .ok root
  | some _ => .error Abi.Err.badCap
  | none => .error Abi.Err.badSlot

/-- The control block that a slot holds, by its physical base. The root task's own control block
is not one of them. -/
def tcbAt (c : CNode) (slot : UInt64) : Except ℤ ℕ :=
  match c.cap slot.toNat with
  | some (.tcb base) => .ok base
  | some _ => .error Abi.Err.badCap
  | none => .error Abi.Err.badSlot

namespace Kernel

variable {ω : Type} [Recorder ω]

/-- Write the saved register `x0` of the task with context `me`. -/
def ret (k : Kernel ω) (me : ℕ) (v : ℤ) : Kernel ω :=
  { k with tasks := k.tasks.setX me 0 (Abi.asU64 v) }

/-! ### Handlers -/

/-- End the running task; its pending caller is woken first. -/
def killCurrent (k : Kernel ω) : Option (Kernel ω) :=
  match (abortReply k.tasks k.tasks.sched.current).exitCurrent with
  | (_, false) => none
  | (s, true) => some { k with tasks := s }

/-- `DEBUG_PUTC`: print a byte, with the unprintable ones replaced. -/
def sysPutc (k : Kernel ω) (slot byte : UInt64) : ℤ × Kernel ω :=
  match k.cnode.cap slot.toNat with
  | some .console =>
    let b := byte.toUInt8
    let safe := if b = 0x0A ∨ (0x20 ≤ b ∧ b ≤ 0x7E) then b else 0x3F
    (0, { k with console := k.console ++ [safe] })
  | some _ => (Abi.Err.badCap, k)
  | none => (Abi.Err.badSlot, k)

/-- Write the first context of a task, its address space and its state. -/
def configureTcb (k : Kernel ω) (t : ℕ) (entry stack : UInt64) (root : ℕ) : Kernel ω :=
  let s := k.tasks.setCtx t { Context.zeroed with elr := entry, sp := stack, spsr := 0 }
  let s := s.modTcb .ttbr0Pa t fun v => { v with ttbr0Pa := root }
  let s := s.setState t .stopped
  { k with tasks := s }

/-- `TCB_CONFIGURE`. -/
def sysTcbConfigure (P : Platform) (k : Kernel ω) (slot entry stack aspace : UInt64) :
    Option (ℤ × Kernel ω) :=
  if entry.toNat % 4 ≠ 0 ∨ entry.toNat < P.granule ∨ 2 ^ 48 ≤ entry.toNat then
    some (Abi.Err.badVa, k)
  else if stack.toNat % 16 ≠ 0 ∨ stack.toNat < P.granule ∨ 2 ^ 48 < stack.toNat then
    some (Abi.Err.badVa, k)
  else
    match addrSpaceAt k.cnode aspace, tcbAt k.cnode slot with
    | .error e, _ => some (e, k)
    | .ok _, .error e => some (e, k)
    | .ok root, .ok base =>
      (checkedAdd base Abi.kernelVaOffset).map fun t =>
        if (k.tasks.tcb t).state ≠ .inactive then (Abi.Err.badState, k)
        else (0, configureTcb k t entry stack root)

/-- `TCB_RESUME`. -/
def sysTcbResume (k : Kernel ω) (slot : UInt64) : Option (ℤ × Kernel ω) :=
  match tcbAt k.cnode slot with
  | .error e => some (e, k)
  | .ok base =>
    (checkedAdd base Abi.kernelVaOffset).map fun t =>
      if (k.tasks.tcb t).state ≠ .stopped then (Abi.Err.badState, k)
      else (0, { k with tasks := k.tasks.enqueue t })

section Memory

variable {P : Platform} (B : PoolBase P)

/-- The preparation of a new object: map its granule at the alias, then clear it. -/
def prepGranule (pa : ℕ) (w : Pool × Mem × Tasks ω) : Option (Bool × Pool × Mem × Tasks ω) := do
  let stop ← checkedAdd pa P.granule
  let (r, pool) ← mapKernelWindow B ⟨pa, stop⟩ w.1
  match r with
  | .error _ => some (false, pool, w.2)
  | .ok _ => do
    let kva ← checkedAdd pa Abi.kernelVaOffset
    some (true, pool, clear w.2.1 (physOf kva) P.granule, w.2.2.clear kva P.granule)

/-- `RETYPE`. -/
def sysRetype (k : Kernel ω) (slot kind : UInt64) : Option (ℤ × Kernel ω) :=
  match objKind kind with
  | none => some (Abi.Err.badType, k)
  | some kind =>
    match k.cnode.retype slot.toNat kind P.granule (prepGranule B) (k.pool, k.mem, k.tasks) with
    | none => none
    | some (r, cnode, pool, mem, tasks) =>
      let k := { k with cnode := cnode, pool := pool, mem := mem, tasks := tasks }
      match r with
      | .ok newSlot => some ((newSlot : ℤ), k)
      | .error e => some (retypeErr e, k)

variable (P)

/-- `MAP` of a frame capability in `slot` that is not mapped yet. -/
def mapFrame (k : Kernel ω) (slot root base : ℕ) (va perm : UInt64) : Option (ℤ × Kernel ω) :=
  match userPerm perm with
  | none => some (Abi.Err.badPerm, k)
  | some perm =>
    match userMapFrame P root va.toNat base perm k.mem with
    | none => none
    | some (.error e) => (mmuErr e).map fun v => (v, k)
    | some (.ok mem) =>
      some (0, { k with mem := mem, cnode := k.cnode.set slot (.frame base true) })

/-- `MAP` of a page table capability in `slot` that is not installed yet. -/
def mapTable (k : Kernel ω) (slot root base : ℕ) (va : UInt64) : Option (ℤ × Kernel ω) :=
  match userInstallTable P root va.toNat base k.mem with
  | none => none
  | some (.error e) => (mmuErr e).map fun v => (v, k)
  | some (.ok (_, mem)) =>
    some (0, { k with mem := mem, cnode := k.cnode.set slot (.pageTable base true) })

/-- `MAP`. -/
def sysMap (k : Kernel ω) (slot va perm aspace : UInt64) : Option (ℤ × Kernel ω) :=
  match addrSpaceAt k.cnode aspace with
  | .error e => some (e, k)
  | .ok root =>
    match k.cnode.cap slot.toNat with
    | some (.frame base mapped) =>
      if mapped then some (Abi.Err.alreadyMapped, k)
      else mapFrame P k slot.toNat root base va perm
    | some (.pageTable base installed) =>
      if installed then some (Abi.Err.alreadyMapped, k)
      else mapTable P k slot.toNat root base va
    | some _ => some (Abi.Err.badCap, k)
    | none => some (Abi.Err.badSlot, k)

/-! ### Dispatch -/

variable {P}

/-- Return the result of a handler in the caller's `x0`. -/
def returning (me : ℕ) (r : Option (ℤ × Kernel ω)) : Option (Kernel ω) :=
  match r with
  | none => none
  | some (v, k) => some (k.ret me v)

/-- Run an IPC handler, and park if it leaves no task to run. -/
def ipcOrPark (k : Kernel ω) (r : Option (Tasks ω × Bool)) : Option (Kernel ω) :=
  match r with
  | none => none
  | some (_, false) => none
  | some (s, true) => some { k with tasks := s }

/-- The system call dispatcher, on the saved registers of the running task. -/
def k0Syscall (k : Kernel ω) : Option (Kernel ω) :=
  let me := k.tasks.currentContext
  let x := (k.tasks.tcb me).ctx.x
  let number := x 8
  if number = Abi.Syscall.debugPutc then returning me (some (sysPutc k (x 0) (x 1)))
  else if number = Abi.Syscall.yield then
    some { k with tasks := (k.tasks.setX me 0 0).rotate }
  else if number = Abi.Syscall.exit then k.killCurrent
  else if number = Abi.Syscall.retype then returning me (sysRetype B k (x 0) (x 1))
  else if number = Abi.Syscall.map then returning me (sysMap P k (x 0) (x 1) (x 2) (x 3))
  else if number = Abi.Syscall.tcbConfigure then
    returning me (sysTcbConfigure P k (x 0) (x 1) (x 2) (x 3))
  else if number = Abi.Syscall.tcbResume then returning me (sysTcbResume k (x 0))
  else if number = Abi.Syscall.send then k.ipcOrPark (sysSend k.cnode k.tasks)
  else if number = Abi.Syscall.recv then k.ipcOrPark (sysRecv k.cnode k.tasks)
  else if number = Abi.Syscall.call then k.ipcOrPark (sysCall k.cnode k.tasks)
  else if number = Abi.Syscall.replyRecv then k.ipcOrPark (sysReplyRecv k.cnode k.tasks)
  else k.killCurrent

end Memory

/-! ### Events -/

/-- The fault policy: the task ends. -/
def k0Fault (k : Kernel ω) : Option (Kernel ω) := k.killCurrent

/-- The tick policy: the next task runs. -/
def k0Preempt (k : Kernel ω) : Kernel ω := { k with tasks := k.tasks.rotate }

/-- The exception vectors save the user registers in the current context. -/
def save (k : Kernel ω) (regs : Context) : Kernel ω :=
  { k with tasks := k.tasks.setCtx k.tasks.currentContext regs }

/-- The exception class in a syndrome. -/
def exceptionClass (esr : UInt64) : UInt64 := (esr >>> 26) &&& 0x3F

/-- The dispatcher of synchronous exceptions, on the syndrome. A trapped `WFI` or `WFE` is
skipped; advancing the return address panics on overflow. -/
def el0Sync {P : Platform} (B : PoolBase P) (k : Kernel ω) (esr : UInt64) : Option (Kernel ω) :=
  let ec := exceptionClass esr
  if ec = 0x15 then k.k0Syscall B
  else if ec = 0x01 then
    let me := k.tasks.currentContext
    let ctx := (k.tasks.tcb me).ctx
    match checkedAdd ctx.elr.toNat 4 with
    | none => none
    | some elr =>
      some { k with tasks := k.tasks.setCtx me { ctx with elr := UInt64.ofNat elr } }
  else k.k0Fault

end Kernel

/-- What the interrupt controller reports. -/
inductive Interrupt where
  | timer
  | spurious
  | unexpected
deriving DecidableEq, Repr

/-- What the processor can do while user code runs: take a synchronous exception or an
interrupt with the given user registers, or store a byte at a user address. -/
inductive Event where
  | sync (regs : Context) (esr : UInt64)
  | irq (regs : Context) (int : Interrupt)
  | store (va : ℕ) (b : UInt8)

/-! ### Stores by user code -/

section Mmu

variable (P : Platform)

/-- The table that the MMU reaches from `t` through the given levels. -/
def mmuWalk (m : Mem) (va : ℕ) : List ℕ → ℕ → Option ℕ
  | [], t => some t
  | level :: rest, t =>
    let w := read64 m (t + index P va level * 8)
    if w &&& 0b11 = descTable then mmuWalk m va rest (w &&& P.addrMask) else none

/-- The page descriptor that the MMU finds for a user address. -/
def mmuLeaf (m : Mem) (root va : ℕ) : Option ℕ :=
  if va < 2 ^ 48 then
    (mmuWalk P m va [0, 1, 2] root).bind fun t =>
      let w := read64 m (t + index P va 3 * 8)
      if w &&& 0b11 = descPage then some w else none
  else none

/-- EL0 may write through a page descriptor. -/
def el0Writable (w : ℕ) : Prop := w &&& (0b11 <<< 6) = apRwAll

instance (w : ℕ) : Decidable (el0Writable w) := inferInstanceAs (Decidable (_ = _))

/-- EL0 may execute through a page descriptor. -/
def el0Executable (w : ℕ) : Prop := w &&& uxn = 0

instance (w : ℕ) : Decidable (el0Executable w) := inferInstanceAs (Decidable (_ = _))

/-- A store by user code. One that the tables do not allow changes nothing; the exception that it
raises is an event of its own. -/
def Kernel.userStore {ω : Type} (k : Kernel ω) (va : ℕ) (b : UInt8) : Kernel ω :=
  match mmuLeaf P k.mem k.tasks.currentUserRoot va with
  | none => k
  | some w =>
    if el0Writable w then
      { k with mem := Function.update k.mem ((w &&& P.addrMask) + va % P.granule) b }
    else k

end Mmu

/-- One event; no result if the kernel parks or panics. -/
def Kernel.step {ω : Type} [Recorder ω] {P : Platform} (B : PoolBase P) (k : Kernel ω) :
    Event → Option (Kernel ω)
  | .sync regs esr => (k.save regs).el0Sync B esr
  | .irq regs .timer => some (k.save regs).k0Preempt
  | .irq regs .spurious => some (k.save regs)
  | .irq _ .unexpected => none
  | .store va b => some (k.userStore P va b)

/-- Some sequence of events leads from one state to another. -/
inductive Kernel.Reaches {P : Platform} (B : PoolBase P) (k : Kernel) : Kernel → Prop
  | refl : Reaches B k k
  | step {k' k'' : Kernel} (ev : Event) (h : Reaches B k k') (hs : k'.step B ev = some k'') :
      Reaches B k k''

/-- The events of a list, one after the other. -/
def Kernel.run {P : Platform} (B : PoolBase P) (k : Kernel) : List Event → Option Kernel
  | [] => some k
  | ev :: evs => (k.step B ev).bind fun k' => k'.run B evs

/-- Events of one list after those of another. -/
lemma Kernel.run_append {P : Platform} (B : PoolBase P) (k : Kernel) (evs evs' : List Event) :
    k.run B (evs ++ evs') = (k.run B evs).bind fun k' => k'.run B evs' := by
  induction evs generalizing k with
  | nil => rfl
  | cons ev evs ih =>
    simp only [List.cons_append, Kernel.run, Option.bind_assoc, ih]

/-- One more event. -/
lemma Kernel.run_concat {P : Platform} {B : PoolBase P} {k k' k'' : Kernel} {evs : List Event}
    {ev : Event} (h : k.run B evs = some k') (hs : k'.step B ev = some k'') :
    k.run B (evs ++ [ev]) = some k'' := by
  rw [run_append, h, Option.bind_some]
  simp only [Kernel.run, hs, Option.bind_some]

/-- The state after a list of events is reached. -/
lemma Kernel.Reaches.run {P : Platform} {B : PoolBase P} {evs : List Event} {k k' k'' : Kernel}
    (h : k.Reaches B k') (hr : k'.run B evs = some k'') : k.Reaches B k'' := by
  induction evs generalizing k' with
  | nil =>
    obtain rfl := Option.some.inj hr
    exact h
  | cons ev evs ih =>
    obtain ⟨k₁, hs, hr⟩ := Option.bind_eq_some_iff.mp hr
    exact ih (h.step ev hs) hr

end K0
