import K0.Ipc.Basic

set_option relaxedAutoImplicit false
set_option autoImplicit false

/-!
# Erasing what the operations do not look at

An erasure forgets the record of the accesses to control blocks and a part of every saved context,
but none of the registers that the kernel reads. The scheduler and IPC commute with it: erasing
before an operation erases nothing else from its result.

## Main definitions

* `K0.Erasure`: what is left of a context, with the laws that the operations need.
* `K0.Erasure.record`: the erasure that forgets the record only.
* `K0.Tasks.erase`: the tasks after erasing.

## Main results

* `K0.Tasks.rotate_erase`, `K0.Tasks.exitCurrent_erase`, `K0.Tasks.ipcOn_erase`,
  `K0.Tasks.clear_erase`: the operations commute with erasing.
-/

namespace K0

/-- What an erasure leaves of a saved context: at least the registers `x0` to `x5` and `x8`, in such
a way that delivering a message and writing `x0` do not look at the rest. -/
structure Erasure where
  ctx : Context → Context
  idem : ∀ c, ctx (ctx c) = ctx c
  zeroed : ctx Context.zeroed = Context.zeroed
  x : ∀ c {i : Fin 31}, i ≤ 5 ∨ i = 8 → (ctx c).x i = c.x i
  setX : ∀ c v, (ctx c).setX 0 v = ctx (c.setX 0 v)
  deliver : ∀ a b, K0.deliver (ctx a) (ctx b) = ctx (K0.deliver a b)

/-- The contexts stay; only the record is forgotten. -/
def Erasure.record : Erasure where
  ctx := id
  idem _ := rfl
  zeroed := rfl
  x _ _ _ := rfl
  setX _ _ := rfl
  deliver _ _ := rfl

/-- The control block after erasing. -/
def Tcb.erase (E : Erasure) (v : Tcb) : Tcb := { v with ctx := E.ctx v.ctx }

/-- The tasks after erasing. -/
def Tasks.erase {ω : Type} (E : Erasure) (s : Tasks ω) : Tasks :=
  ⟨fun t => (s.tcb t).erase E, s.ep, s.sched, s.currentContext, s.ttbr0, ()⟩

namespace Tasks

variable {ω : Type} (s : Tasks ω) (E : Erasure) (t e : ℕ)

/-- Erasing twice is erasing once. -/
lemma erase_erase : (s.erase E).erase E = s.erase E := by
  unfold erase Tcb.erase
  congr 1
  funext u
  dsimp only
  rw [E.idem]

/-! ### Writes -/

variable [Recorder ω]

/-- Overwriting a control block by a function that commutes with erasing. -/
lemma modTcb_erase {f : Field} {g g' : Tcb → Tcb} (h : ∀ v, g' (v.erase E) = (g v).erase E) :
    (s.erase E).modTcb f t g' = (s.modTcb f t g).erase E := by
  unfold modTcb erase
  congr 1
  funext u
  by_cases hu : u = t
  · subst hu
    simp only [Function.update_self]
    exact h _
  · simp only [Function.update_of_ne hu]

/-- Writing a state. -/
lemma setState_erase (st : TaskState) : (s.erase E).setState t st = (s.setState t st).erase E :=
  s.modTcb_erase E t fun _ => rfl

/-- Writing a link. -/
lemma setNext_erase (n : ℕ) : (s.erase E).setNext t n = (s.setNext t n).erase E :=
  s.modTcb_erase E t fun _ => rfl

/-- Writing a reply right. -/
lemma setReplyTo_erase (c : ℕ) : (s.erase E).setReplyTo t c = (s.setReplyTo t c).erase E :=
  s.modTcb_erase E t fun _ => rfl

/-- Writing a context. -/
lemma setCtx_erase (c : Context) : (s.erase E).setCtx t (E.ctx c) = (s.setCtx t c).erase E :=
  s.modTcb_erase E t fun _ => rfl

/-- Writing `x0`. -/
lemma setX_erase (v : UInt64) : (s.erase E).setX t 0 v = (s.setX t 0 v).erase E := by
  unfold setX
  rw [← setCtx_erase, ← E.setX]
  rfl

/-- Delivering a message. -/
lemma setCtx_deliver_erase (a b : ℕ) :
    (s.erase E).setCtx t (deliver ((s.erase E).tcb a).ctx ((s.erase E).tcb b).ctx) =
      (s.setCtx t (deliver (s.tcb a).ctx (s.tcb b).ctx)).erase E := by
  rw [← setCtx_erase, ← E.deliver]
  rfl

/-- Clearing a granule. -/
lemma clear_erase (a n : ℕ) : (s.erase E).clear a n = (s.clear a n).erase E := by
  unfold clear erase
  congr 1
  funext u
  dsimp only
  split_ifs
  · unfold Tcb.erase Tcb.zeroed
    rw [E.zeroed]
  · rfl

/-! ### Queues and scheduling -/

/-- Appending to the queue of an endpoint. -/
lemma epPush_erase : (s.erase E).epPush e t = (s.epPush e t).erase E := by
  unfold epPush
  dsimp only
  rw [setNext_erase]
  by_cases h : ((s.setNext t 0).ep e).tail = 0
  · have h' : (((s.setNext t 0).erase E).ep e).tail = 0 := h
    rw [if_pos h, if_pos h']
    rfl
  · have h' : ¬ (((s.setNext t 0).erase E).ep e).tail = 0 := h
    rw [if_neg h, if_neg h', setNext_erase]
    rfl

/-- Removing the head of the queue of an endpoint. -/
lemma epPop_erase : (s.erase E).epPop e = ((s.epPop e).1, (s.epPop e).2.erase E) := by
  unfold epPop
  dsimp only
  by_cases h : (s.ep e).head = 0
  · rw [if_pos h]
    exact if_pos h
  rw [if_neg h]
  refine (if_neg h).trans (congrArg (Prod.mk _) ?_)
  have hs := setNext_erase (s.setEp e { s.ep e with head := (s.tcb (s.ep e).head).next })
    E (s.ep e).head 0
  dsimp only
  generalize (s.setEp e _).setNext _ 0 = s₁ at hs ⊢
  by_cases hl : (s₁.ep e).head = 0
  · have hl' : ((s₁.erase E).ep e).head = 0 := hl
    rw [← hs] at hl'
    rw [if_pos hl]
    exact (if_pos hl').trans (congrArg (fun a => a.setEp e { a.ep e with tail := 0 }) hs)
  · have hl' : ¬ ((s₁.erase E).ep e).head = 0 := hl
    rw [← hs] at hl'
    rw [if_neg hl]
    exact (if_neg hl').trans hs

/-- Putting a task on the ready queue. -/
lemma enqueue_erase : (s.erase E).enqueue t = (s.enqueue t).erase E := by
  unfold enqueue push
  dsimp only
  rw [setState_erase, setNext_erase]
  by_cases h : ((s.setState t .ready).setNext t 0).sched.tail = 0
  · have h' : (((s.setState t .ready).setNext t 0).erase E).sched.tail = 0 := h
    rw [if_pos h, if_pos h']
    rfl
  · have h' : ¬ (((s.setState t .ready).setNext t 0).erase E).sched.tail = 0 := h
    rw [if_neg h, if_neg h', setNext_erase]
    rfl

/-- Removing the head of the ready queue. -/
lemma pop_erase : (s.erase E).pop = (s.pop.1, s.pop.2.erase E) := by
  unfold pop
  dsimp only
  by_cases h : s.sched.head = 0
  · rw [if_pos h]
    exact if_pos h
  rw [if_neg h]
  refine (if_neg h).trans (congrArg (Prod.mk _) ?_)
  have hs := setNext_erase (s.setSched { s.sched with head := (s.tcb s.sched.head).next })
    E s.sched.head 0
  dsimp only
  generalize (s.setSched _).setNext _ 0 = s₁ at hs ⊢
  by_cases hl : s₁.sched.head = 0
  · have hl' : (s₁.erase E).sched.head = 0 := hl
    rw [← hs] at hl'
    rw [if_pos hl]
    exact (if_pos hl').trans (congrArg (fun a => a.setSched { a.sched with tail := 0 }) hs)
  · have hl' : ¬ (s₁.erase E).sched.head = 0 := hl
    rw [← hs] at hl'
    rw [if_neg hl]
    exact (if_neg hl').trans hs

/-- Switching to a task. -/
lemma switchTo_erase : (s.erase E).switchTo t = (s.switchTo t).erase E := by
  unfold switchTo
  dsimp only
  rw [setState_erase]
  generalize s.setState t .running = s₁
  rw [apply_ite (erase E)]
  rfl

/-- Leaving a blocked task. -/
lemma blockAndSwitch_erase :
    (s.erase E).blockAndSwitch = (s.blockAndSwitch.1.erase E, s.blockAndSwitch.2) := by
  unfold blockAndSwitch
  rw [pop_erase]
  dsimp only
  by_cases h : s.pop.1 = 0
  · rw [if_pos h, if_pos h]
  · rw [if_neg h, if_neg h, switchTo_erase]

/-- Preemption. -/
lemma rotate_erase : (s.erase E).rotate = s.rotate.erase E := by
  unfold rotate
  rw [pop_erase]
  dsimp only
  by_cases h : s.pop.1 = 0
  · rw [if_pos h, if_pos h]
  · rw [if_neg h, if_neg h, ← switchTo_erase]
    congr 1
    exact enqueue_erase ..

/-- Ending a task. -/
lemma exitCurrent_erase :
    (s.erase E).exitCurrent = (s.exitCurrent.1.erase E, s.exitCurrent.2) := by
  show ((s.erase E).setState s.sched.current .dead).blockAndSwitch = _
  rw [setState_erase, blockAndSwitch_erase]
  rfl

/-! ### IPC -/

/-- Revoking a reply right. -/
lemma abortReply_erase : abortReply (s.erase E) t = (abortReply s t).erase E := by
  unfold abortReply
  dsimp only
  rw [setReplyTo_erase]
  by_cases h : (s.tcb t).replyTo = 0
  · rw [if_pos h]
    exact if_pos h
  · rw [if_neg h, ← enqueue_erase, ← setX_erase]
    exact if_neg h

/-- Waiting on an endpoint. -/
lemma waitOn_erase (st : TaskState) : (s.erase E).waitOn st e = (s.waitOn st e).erase E := by
  unfold waitOn
  rw [← epPush_erase, ← setState_erase]
  rfl

/-- Answering. -/
lemma answer_erase : (s.erase E).answer = s.answer.erase E := by
  unfold answer
  dsimp only
  by_cases h : (s.tcb s.sched.current).replyTo ≠ 0
  · rw [if_pos h, ← enqueue_erase, ← setCtx_deliver_erase, ← setReplyTo_erase]
    exact if_pos h
  · rw [if_neg h]
    exact if_neg h

/-- Calling a waiting receiver. -/
lemma callTo_erase : (s.erase E).callTo e = (s.callTo e).erase E := by
  unfold callTo
  rw [epPop_erase]
  dsimp only
  rw [← enqueue_erase, ← setState_erase, ← setReplyTo_erase, ← abortReply_erase,
    ← setCtx_deliver_erase]
  rfl

/-- Receiving. -/
lemma recvInner_erase (nonblock : Bool) :
    recvInner (s.erase E) e nonblock =
      ((recvInner s e nonblock).1.erase E, (recvInner s e nonblock).2) := by
  unfold recvInner
  rw [epPop_erase]
  dsimp only
  by_cases h : (s.ep e).head ≠ 0 ∧ (s.tcb (s.ep e).head).state ≠ .blockedRecv
  · rw [if_pos h]
    refine (if_pos h).trans ?_
    have hd := (s.epPop e).2.setCtx_deliver_erase E s.currentContext (s.epPop e).1 s.currentContext
    refine (congrArg (fun a : Tasks => if (a.tcb (s.epPop e).1).state = .blockedCall then
      (((abortReply a a.sched.current).setState (s.epPop e).1 .blockedReply).setReplyTo
        a.sched.current (s.epPop e).1, true)
      else ((a.setX (s.epPop e).1 0 0).enqueue (s.epPop e).1, true)) hd).trans ?_
    generalize (s.epPop e).2.setCtx _ _ = s₁
    by_cases hc : (s₁.tcb (s.epPop e).1).state = .blockedCall
    · rw [if_pos hc]
      refine (if_pos hc).trans ?_
      rw [← setReplyTo_erase, ← setState_erase, ← abortReply_erase]
      rfl
    · rw [if_neg hc]
      refine (if_neg hc).trans ?_
      rw [← enqueue_erase, ← setX_erase]
  · rw [if_neg h]
    refine (if_neg h).trans ?_
    cases nonblock with
    | true =>
      simp only [↓reduceIte]
      rw [← setX_erase]
      rfl
    | false =>
      simp only [Bool.false_eq_true, ↓reduceIte]
      rw [← blockAndSwitch_erase]
      congr 1
      exact s.waitOn_erase E e .blockedRecv

/-- Sending. -/
lemma sendOn_erase (nonblock : Bool) :
    sendOn (s.erase E) e nonblock =
      ((sendOn s e nonblock).1.erase E, (sendOn s e nonblock).2) := by
  unfold sendOn
  rw [epPop_erase]
  dsimp only
  by_cases h : (s.ep e).head ≠ 0 ∧ (s.tcb (s.ep e).head).state = .blockedRecv
  · rw [if_pos h]
    refine (if_pos h).trans ?_
    rw [← setX_erase, ← enqueue_erase, ← setCtx_deliver_erase]
    rfl
  · rw [if_neg h]
    refine (if_neg h).trans ?_
    cases nonblock with
    | true =>
      simp only [↓reduceIte]
      rw [← setX_erase]
      rfl
    | false =>
      simp only [Bool.false_eq_true, ↓reduceIte]
      rw [← blockAndSwitch_erase]
      congr 1
      exact s.waitOn_erase E e .blockedSend

/-- Calling. -/
lemma callOn_erase (nonblock : Bool) :
    callOn (s.erase E) e nonblock =
      ((callOn s e nonblock).1.erase E, (callOn s e nonblock).2) := by
  rw [callOn_eq, callOn_eq]
  by_cases h : (s.ep e).head ≠ 0 ∧ (s.tcb (s.ep e).head).state = .blockedRecv
  · rw [if_pos h]
    refine (if_pos h).trans ?_
    rw [callTo_erase, blockAndSwitch_erase]
  · rw [if_neg h]
    refine (if_neg h).trans ?_
    cases nonblock with
    | true =>
      simp only [↓reduceIte]
      rw [← setX_erase]
      rfl
    | false =>
      simp only [Bool.false_eq_true, ↓reduceIte]
      rw [waitOn_erase, blockAndSwitch_erase]

/-- An IPC call commutes with erasing. -/
theorem ipcOn_erase (op : IpcOp) (nonblock : Bool) :
    ipcOn op (s.erase E) e nonblock =
      ((ipcOn op s e nonblock).1.erase E, (ipcOn op s e nonblock).2) := by
  cases op with
  | send => exact s.sendOn_erase E e nonblock
  | recv => exact s.recvInner_erase E e nonblock
  | call => exact s.callOn_erase E e nonblock
  | replyRecv =>
    show recvInner (s.erase E).answer e nonblock = _
    rw [answer_erase]
    exact s.answer.recvInner_erase E e nonblock

end Tasks

end K0
