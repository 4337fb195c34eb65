import K0.Cap.Basic
import K0.Task.Basic

set_option relaxedAutoImplicit false
set_option autoImplicit false

/-!
# Synchronous IPC

The rendezvous IPC of `crates/k0-ipc/src/lib.rs`. There is no message buffer: a message stays in
the saved registers `x2` to `x5` of the blocked sender. The right to answer a caller is the field
`replyTo` of the task that received the call.

The four system calls share one prologue, which resolves the slot in `x0` and reads the flag in
`x1`; here it is `K0.withEp`. A handler returns `false` when no task is left to run.

## Main definitions

* `K0.epOf`, `K0.deliver`, `K0.abortReply`: the helpers.
* `K0.sysSend`, `K0.sysRecv`, `K0.sysCall`, `K0.sysReplyRecv`: the handlers.
* `K0.IpcOp`, `K0.ipcOn`: the four calls on an endpoint as one family.
* `K0.Tasks.waitOn`, `K0.Tasks.callTo`, `K0.Tasks.answer`: phases of the calls.
-/

namespace K0

open Word

variable {ω : Type} [Recorder ω]

/-- The endpoint in a slot, by its kernel address; `none` if the address overflows, which
panics. -/
def epOf (cnode : CNode) (slot : UInt64) : Option (Except ℤ ℕ) :=
  match cnode.cap slot.toNat with
  | some (.endpoint base) => (checkedAdd base Abi.kernelVaOffset).map .ok
  | some _ => some (.error Abi.Err.badCap)
  | none => some (.error Abi.Err.badSlot)

/-- Copy the message registers `x2` to `x5` and report success without a badge. -/
def deliver (src dst : Context) : Context :=
  { dst with
    x := fun i => if i = 0 ∨ i = 1 then 0 else if 2 ≤ i ∧ i ≤ 5 then src.x i else dst.x i }

/-- Drop the reply right of `holder` and wake the waiting caller, if any, with `NO_REPLY`. -/
def abortReply (s : Tasks ω) (holder : ℕ) : Tasks ω :=
  let caller := (s.tcb holder).replyTo
  let s := s.setReplyTo holder 0
  if caller = 0 then s
  else
    let s := s.setX caller 0 (Abi.asU64 Abi.Err.noReply)
    s.enqueue caller

/-- The common prologue of the IPC calls: resolve the endpoint in `x0`, read the flag in `x1`. -/
def withEp (cnode : CNode) (body : Tasks ω → ℕ → Bool → Tasks ω × Bool) (s : Tasks ω) :
    Option (Tasks ω × Bool) :=
  let ctx := (s.tcb s.currentContext).ctx
  match epOf cnode (ctx.x 0) with
  | none => none
  | some (.error e) => some (s.setX s.currentContext 0 (Abi.asU64 e), true)
  | some (.ok ep) => some (body s ep (ctx.x 1 &&& Abi.nonblock ≠ 0))

/-- The receive phase of `RECV` and `REPLY_RECV`. -/
def recvInner (s : Tasks ω) (ep : ℕ) (nonblock : Bool) : Tasks ω × Bool :=
  let me := s.currentContext
  let head := (s.ep ep).head
  if head ≠ 0 ∧ (s.tcb head).state ≠ .blockedRecv then
    let (snd, s) := s.epPop ep
    let s := s.setCtx me (deliver (s.tcb snd).ctx (s.tcb me).ctx)
    if (s.tcb snd).state = .blockedCall then
      let cur := s.sched.current
      let s := abortReply s cur
      let s := s.setState snd .blockedReply
      (s.setReplyTo cur snd, true)
    else
      let s := s.setX snd 0 0
      (s.enqueue snd, true)
  else if nonblock then (s.setX me 0 (Abi.asU64 Abi.Err.wouldBlock), true)
  else
    let cur := s.sched.current
    let s := s.setState cur .blockedRecv
    let s := s.epPush ep cur
    s.blockAndSwitch

/-- `SEND` on an endpoint. -/
def sendOn (s : Tasks ω) (ep : ℕ) (nonblock : Bool) : Tasks ω × Bool :=
  let me := s.currentContext
  let head := (s.ep ep).head
  if head ≠ 0 ∧ (s.tcb head).state = .blockedRecv then
    let (rcv, s) := s.epPop ep
    let s := s.setCtx rcv (deliver (s.tcb me).ctx (s.tcb rcv).ctx)
    let s := s.enqueue rcv
    (s.setX me 0 0, true)
  else if nonblock then (s.setX me 0 (Abi.asU64 Abi.Err.wouldBlock), true)
  else
    let cur := s.sched.current
    let s := s.setState cur .blockedSend
    let s := s.epPush ep cur
    s.blockAndSwitch

/-- `CALL` on an endpoint. -/
def callOn (s : Tasks ω) (ep : ℕ) (nonblock : Bool) : Tasks ω × Bool :=
  let me := s.currentContext
  let cur := s.sched.current
  let head := (s.ep ep).head
  if head ≠ 0 ∧ (s.tcb head).state = .blockedRecv then
    let (rcv, s) := s.epPop ep
    let s := s.setCtx rcv (deliver (s.tcb me).ctx (s.tcb rcv).ctx)
    let s := abortReply s rcv
    let s := s.setReplyTo rcv cur
    let s := s.setState cur .blockedReply
    let s := s.enqueue rcv
    s.blockAndSwitch
  else if nonblock then (s.setX me 0 (Abi.asU64 Abi.Err.wouldBlock), true)
  else
    let s := s.setState cur .blockedCall
    let s := s.epPush ep cur
    s.blockAndSwitch

/-- `REPLY_RECV` on an endpoint: answer the pending caller, if any, then receive. -/
def replyRecvOn (s : Tasks ω) (ep : ℕ) (nonblock : Bool) : Tasks ω × Bool :=
  let me := s.currentContext
  let cur := s.sched.current
  let caller := (s.tcb cur).replyTo
  let s :=
    if caller ≠ 0 then
      let s := s.setReplyTo cur 0
      let s := s.setCtx caller (deliver (s.tcb me).ctx (s.tcb caller).ctx)
      s.enqueue caller
    else s
  recvInner s ep nonblock

/-- The `SEND` system call. -/
def sysSend (cnode : CNode) (s : Tasks ω) : Option (Tasks ω × Bool) := withEp cnode sendOn s

/-- The `RECV` system call. -/
def sysRecv (cnode : CNode) (s : Tasks ω) : Option (Tasks ω × Bool) := withEp cnode recvInner s

/-- The `CALL` system call. -/
def sysCall (cnode : CNode) (s : Tasks ω) : Option (Tasks ω × Bool) := withEp cnode callOn s

/-- The `REPLY_RECV` system call. -/
def sysReplyRecv (cnode : CNode) (s : Tasks ω) : Option (Tasks ω × Bool) :=
  withEp cnode replyRecvOn s

/-- The IPC calls. -/
inductive IpcOp where
  | send
  | recv
  | call
  | replyRecv
deriving DecidableEq, Repr

/-- The four IPC calls on an endpoint. -/
def ipcOn : IpcOp → Tasks ω → ℕ → Bool → Tasks ω × Bool
  | .send => sendOn
  | .recv => recvInner
  | .call => callOn
  | .replyRecv => replyRecvOn

namespace Tasks

/-! ### Phases of the calls -/

/-- The running task marks itself as blocked and joins the queue of an endpoint. -/
def waitOn (s : Tasks ω) (st : TaskState) (ep : ℕ) : Tasks ω :=
  (s.setState s.sched.current st).epPush ep s.sched.current

/-- A call to the waiting receiver, up to the switch to the next task. -/
def callTo (s : Tasks ω) (ep : ℕ) : Tasks ω :=
  let me := s.currentContext
  let cur := s.sched.current
  let (rcv, s) := s.epPop ep
  let s := s.setCtx rcv (deliver (s.tcb me).ctx (s.tcb rcv).ctx)
  let s := abortReply s rcv
  let s := s.setReplyTo rcv cur
  let s := s.setState cur .blockedReply
  s.enqueue rcv

/-- The answer to the pending caller, if there is one. -/
def answer (s : Tasks ω) : Tasks ω :=
  let me := s.currentContext
  let cur := s.sched.current
  let caller := (s.tcb cur).replyTo
  if caller ≠ 0 then
    let s := s.setReplyTo cur 0
    let s := s.setCtx caller (deliver (s.tcb me).ctx (s.tcb caller).ctx)
    s.enqueue caller
  else s

/-- The call by its phases. -/
lemma callOn_eq (s : Tasks ω) (ep : ℕ) (nonblock : Bool) :
    callOn s ep nonblock =
      if (s.ep ep).head ≠ 0 ∧ (s.tcb (s.ep ep).head).state = .blockedRecv then
        (s.callTo ep).blockAndSwitch
      else if nonblock then
        (s.setX s.currentContext 0 (Abi.asU64 Abi.Err.wouldBlock), true)
      else (s.waitOn .blockedCall ep).blockAndSwitch :=
  rfl

end Tasks

end K0
