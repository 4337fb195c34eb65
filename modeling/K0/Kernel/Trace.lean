import K0.Kernel.Erasure

set_option relaxedAutoImplicit false
set_option autoImplicit false

/-!
# The writes of an event

A step of the kernel may write the same field of the same control block more than once, and it may
write before it parks. The kernel that keeps a log as its record has all these writes, in order: it
runs the same code, and forgetting the log gives the step of the kernel back.

## Main definitions

* `K0.Kernel.recording`: the kernel with an empty log.
* `K0.Kernel.halted`: the tasks when an event parks or panics.
* `K0.Kernel.trace`: the tasks after an event, with the log of its writes.

## Main results

* `K0.Kernel.tasks_trace`: the trace leads to the same tasks as the event.
-/

namespace K0

namespace Kernel

/-- The kernel with an empty log of the accesses to control blocks. -/
def recording (k : Kernel) : Kernel (List Access) where
  cnode := k.cnode
  pool := k.pool
  mem := k.mem
  tasks := ⟨k.tasks.tcb, k.tasks.ep, k.tasks.sched, k.tasks.currentContext, k.tasks.ttbr0, []⟩
  console := k.console

/-- The tasks when an event parks or panics. An IPC call and the end of the running task have made
all their writes when they find no task to run; every panic comes before any write but that of the
saved registers. -/
def halted {ω : Type} [Recorder ω] (k : Kernel ω) (ev : Event) : Tasks ω :=
  match ev.ipc? k.cnode with
  | some c => (ipcOn c.op (k.save c.regs).tasks c.ep c.nonblock).1
  | none =>
    match ev.dies? with
    | some regs =>
      (abortReply (k.save regs).tasks (k.save regs).tasks.sched.current).exitCurrent.1
    | none => (k.entered ev).tasks

/-- The tasks after an event, with the log of its writes, also if there is no next state. -/
def trace {P : Platform} (B : PoolBase P) (k : Kernel) (ev : Event) : Tasks (List Access) :=
  match k.recording.step B ev with
  | some k' => k'.tasks
  | none => k.recording.halted ev

/-- The trace of an event that has a next state leads to the tasks of that state. -/
theorem tasks_trace {P : Platform} {B : PoolBase P} {k k' : Kernel} {ev : Event}
    (h : k.step B ev = some k') : (k.trace B ev).erase .record = k'.tasks := by
  have hrec : k.recording.erase .record = k := rfl
  have hstep := k.recording.step_record (B := B) ev
  rw [hrec, h] at hstep
  obtain ⟨r, hr, hr'⟩ := Option.map_eq_some_iff.mp hstep.symm
  unfold trace
  rw [hr]
  exact congrArg Kernel.tasks hr'

end Kernel

end K0
