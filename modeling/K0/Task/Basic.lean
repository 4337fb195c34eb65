import K0.Abi
import K0.Lib.Intrusive

set_option relaxedAutoImplicit false
set_option autoImplicit false

/-!
# Tasks, endpoints and the scheduler

The task control blocks and endpoints of `crates/k0-task/src/lib.rs` and the round-robin
scheduler of `crates/k0-sched/src/lib.rs`. A pointer is the kernel virtual address of the object
and zero is the null pointer; the objects are read and written through the total maps `tcb` and
`ep`, whose values at addresses that hold no object are arbitrary.

`currentContext` stands for `__current_context`. It points to the context inside a control
block, and is represented by the address of that block.

The tasks come with a record of the writes to control blocks, which the code has no counterpart of
and nothing reads. The kernel keeps none: its record is the trivial one, of type `Unit`. Statements
about single writes use the same operations with a log as the record.

## Main definitions

* `K0.TaskState`, `K0.Context`, `K0.Tcb`, `K0.Endpoint`, `K0.Sched`: the data.
* `K0.Access`, `K0.Recorder`: writes to control blocks, and what keeps a record of them.
* `K0.Tasks`: the part of the kernel state that the scheduler and IPC work on.
* `K0.Tasks.epPush`, `K0.Tasks.epPop`: the wait queue of an endpoint.
* `K0.Tasks.enqueue`, `K0.Tasks.rotate`, `K0.Tasks.blockAndSwitch`, `K0.Tasks.exitCurrent`: the
  scheduler.
-/

namespace K0

/-- The state of a task. The zero state is `inactive`, so a cleared granule is an inactive
task. -/
inductive TaskState where
  | inactive
  | stopped
  | ready
  | running
  | dead
  | blockedSend
  | blockedRecv
  | blockedReply
  | blockedCall
deriving DecidableEq, Repr

/-- Register numbers may be written as numerals. -/
instance instNeZeroRegisters : @NeZero ℕ Zero.ofOfNat0 31 := ⟨by decide⟩

/-- The user registers that the exception vectors save and restore. -/
structure Context where
  x : Fin 31 → UInt64
  sp : UInt64
  elr : UInt64
  spsr : UInt64
  tpidr : UInt64
  tpidrro : UInt64

/-- The cleared context. -/
def Context.zeroed : Context := ⟨fun _ => 0, 0, 0, 0, 0, 0⟩

/-- Overwrite a general register. -/
def Context.setX (c : Context) (i : Fin 31) (v : UInt64) : Context :=
  { c with x := Function.update c.x i v }

/-- The register that has been written. -/
lemma Context.x_setX_self (c : Context) (i : Fin 31) (v : UInt64) : (c.setX i v).x i = v :=
  Function.update_self _ _ _

/-- A task control block. -/
structure Tcb where
  ctx : Context
  ttbr0Pa : ℕ
  state : TaskState
  next : ℕ
  replyTo : ℕ

/-- The control block in a cleared granule. -/
def Tcb.zeroed : Tcb := ⟨Context.zeroed, 0, .inactive, 0, 0⟩

/-- An endpoint: the head and tail of its wait queue. -/
abbrev Endpoint := Intrusive.Ends ℕ

/-- The endpoint in a cleared granule. -/
def Endpoint.zeroed : Endpoint := ⟨0, 0⟩

/-- The scheduler: the ready queue and the running task. -/
structure Sched extends Intrusive.Ends ℕ where
  current : ℕ

/-! ### Records of writes -/

/-- The fields of a control block. -/
inductive Field where
  | ctx
  | ttbr0Pa
  | state
  | next
  | replyTo
deriving DecidableEq, Repr

/-- A write to one field of a control block, with the whole block before and after. -/
structure Write where
  task : ℕ
  field : Field
  old : Tcb
  new : Tcb

/-- An access to control blocks: a write to a field, or the clearing of a range of kernel
addresses. -/
inductive Access where
  | write (w : Write)
  | clear (a n : ℕ)

/-- A record that accesses can be added to. -/
class Recorder (ω : Type) where
  record : ω → Access → ω

/-- The record of a kernel that keeps none. -/
instance instRecorderUnit : Recorder Unit := ⟨fun _ _ => ()⟩

/-- The log of all accesses. -/
instance instRecorderLog : Recorder (List Access) := ⟨fun log a => log ++ [a]⟩

/-! ### Tasks -/

/-- What the scheduler and IPC read and write, with a record of the accesses to control blocks. -/
structure Tasks (ω : Type := Unit) where
  tcb : ℕ → Tcb
  ep : ℕ → Endpoint
  sched : Sched
  currentContext : ℕ
  ttbr0 : ℕ
  log : ω

namespace Tasks

variable {ω : Type}

/-- Write an endpoint. -/
def setEp (s : Tasks ω) (e : ℕ) (q : Endpoint) : Tasks ω :=
  { s with ep := Function.update s.ep e q }

/-- Write the scheduler. -/
def setSched (s : Tasks ω) (q : Sched) : Tasks ω := { s with sched := q }

/-- The physical address of the installed user root: TTBR0 without ASID and CnP. -/
def currentUserRoot (s : Tasks ω) : ℕ := s.ttbr0 &&& 0x0000FFFFFFFFFFFE

/-- Install a user root. -/
def installUserTtbr0 (s : Tasks ω) (root : ℕ) : Tasks ω := { s with ttbr0 := root }

/-! ### Writes to control blocks -/

variable [Recorder ω]

/-- Overwrite a field of a control block through a function of the old block. -/
def modTcb (s : Tasks ω) (f : Field) (t : ℕ) (g : Tcb → Tcb) : Tasks ω :=
  { s with
    tcb := Function.update s.tcb t (g (s.tcb t))
    log := Recorder.record s.log (.write ⟨t, f, s.tcb t, g (s.tcb t)⟩) }

/-- Write the state of a task. -/
def setState (s : Tasks ω) (t : ℕ) (st : TaskState) : Tasks ω :=
  s.modTcb .state t fun v => { v with state := st }

/-- Write the queue link of a task. -/
def setNext (s : Tasks ω) (t n : ℕ) : Tasks ω := s.modTcb .next t fun v => { v with next := n }

/-- Write the reply right of a task. -/
def setReplyTo (s : Tasks ω) (t c : ℕ) : Tasks ω :=
  s.modTcb .replyTo t fun v => { v with replyTo := c }

/-- Write the saved context of a task. -/
def setCtx (s : Tasks ω) (t : ℕ) (c : Context) : Tasks ω :=
  s.modTcb .ctx t fun v => { v with ctx := c }

/-- Write a saved general register of a task. -/
def setX (s : Tasks ω) (t : ℕ) (i : Fin 31) (v : UInt64) : Tasks ω :=
  s.setCtx t ((s.tcb t).ctx.setX i v)

/-- Clear the records that start in the `n` bytes from kernel address `kva` on. -/
def clear (s : Tasks ω) (kva n : ℕ) : Tasks ω :=
  { s with
    tcb := fun t => if kva ≤ t ∧ t < kva + n then Tcb.zeroed else s.tcb t
    ep := fun e => if kva ≤ e ∧ e < kva + n then Endpoint.zeroed else s.ep e
    log := Recorder.record s.log (.clear kva n) }

/-! ### Wait queues of endpoints -/

/-- `Endpoint::push`. -/
def epPush (s : Tasks ω) (e tcb : ℕ) : Tasks ω :=
  let s := s.setNext tcb 0
  let s :=
    if (s.ep e).tail = 0 then s.setEp e { s.ep e with head := tcb }
    else s.setNext (s.ep e).tail tcb
  s.setEp e { s.ep e with tail := tcb }

/-- `Endpoint::pop`; zero if the queue is empty. -/
def epPop (s : Tasks ω) (e : ℕ) : ℕ × Tasks ω :=
  let head := (s.ep e).head
  if head = 0 then (0, s)
  else
    let s := s.setEp e { s.ep e with head := (s.tcb head).next }
    let s := s.setNext head 0
    let s := if (s.ep e).head = 0 then s.setEp e { s.ep e with tail := 0 } else s
    (head, s)

/-! ### The scheduler -/

/-- `push` of the ready queue. -/
def push (s : Tasks ω) (tcb : ℕ) : Tasks ω :=
  let s := s.setState tcb .ready
  let s := s.setNext tcb 0
  let s :=
    if s.sched.tail = 0 then s.setSched { s.sched with head := tcb }
    else s.setNext s.sched.tail tcb
  s.setSched { s.sched with tail := tcb }

/-- `pop` of the ready queue; zero if it is empty. -/
def pop (s : Tasks ω) : ℕ × Tasks ω :=
  let head := s.sched.head
  if head = 0 then (0, s)
  else
    let s := s.setSched { s.sched with head := (s.tcb head).next }
    let s := s.setNext head 0
    let s := if s.sched.head = 0 then s.setSched { s.sched with tail := 0 } else s
    (head, s)

/-- Make `next` the running task. -/
def switchTo (s : Tasks ω) (next : ℕ) : Tasks ω :=
  let s := s.setState next .running
  let s := s.setSched { s.sched with current := next }
  let s := { s with currentContext := next }
  if (s.tcb next).ttbr0Pa ≠ s.currentUserRoot then s.installUserTtbr0 (s.tcb next).ttbr0Pa else s

/-- Hand control to the root task. -/
def handoff (s : Tasks ω) (tcb : ℕ) : Tasks ω :=
  let s := s.setState tcb .running
  let s := s.setSched { s.sched with current := tcb }
  { s with currentContext := tcb }

/-- Put a task on the ready queue. -/
def enqueue (s : Tasks ω) (tcb : ℕ) : Tasks ω := s.push tcb

/-- Move the running task to the end of the ready queue and run the next one, if there is one. -/
def rotate (s : Tasks ω) : Tasks ω :=
  let (next, s) := s.pop
  if next = 0 then s
  else
    let s := s.push s.sched.current
    s.switchTo next

/-- Leave the running task, which has been marked as blocked, and run the next one. -/
def blockAndSwitch (s : Tasks ω) : Tasks ω × Bool :=
  let (next, s) := s.pop
  if next = 0 then (s, false) else (s.switchTo next, true)

/-- End the running task and run the next one. -/
def exitCurrent (s : Tasks ω) : Tasks ω × Bool :=
  let s := s.setState s.sched.current .dead
  let (next, s) := s.pop
  if next = 0 then (s, false) else (s.switchTo next, true)

end Tasks

end K0
