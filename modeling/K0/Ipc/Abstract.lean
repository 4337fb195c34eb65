import K0.Ipc.Basic
import Mathlib.Data.Set.Basic

set_option relaxedAutoImplicit false
set_option autoImplicit false

/-!
# The abstract task system

What the scheduler and IPC are for, with lists in place of linked queues: one running task, a
ready list, a wait list per endpoint, and for every task its state, its reply right, its saved
registers and its address space. The operations are those of the source; the invariant says
which state goes with which list, and that reply rights are unique and acyclic.

The control part `K0.Skel` is kept apart from the registers, since no register decides where a
task is queued.

## Main definitions

* `K0.Skel`, `K0.Sys`: the control state, and the whole abstract state.
* `K0.Sys.send`, `K0.Sys.recv`, `K0.Sys.call`, `K0.Sys.replyRecv`, `K0.Sys.kill`,
  `K0.Sys.rotate`: the operations.
* `K0.Skel.Inv`: the invariant, for a set of tasks that are on their way between two lists.
-/

namespace K0

open Set

/-- The states in which a task waits in the queue of an endpoint. -/
def TaskState.Queued (st : TaskState) : Prop :=
  st = .blockedSend ∨ st = .blockedRecv ∨ st = .blockedCall

/-- The states of a task that has been started and has not ended. -/
def TaskState.Alive (st : TaskState) : Prop := st ≠ .inactive ∧ st ≠ .stopped ∧ st ≠ .dead

instance (st : TaskState) : Decidable st.Queued := inferInstanceAs (Decidable (_ ∨ _))

instance (st : TaskState) : Decidable st.Alive := inferInstanceAs (Decidable (_ ∧ _))

/-- The control state of the tasks. -/
structure Skel where
  current : ℕ
  ready : List ℕ
  queue : ℕ → List ℕ
  state : ℕ → TaskState
  replyTo : ℕ → ℕ

/-- The abstract state: control, saved registers and address spaces. -/
structure Sys extends Skel where
  ctx : ℕ → Context
  ttbr0Pa : ℕ → ℕ

namespace Sys

/-! ### Elementary operations -/

/-- Write the state of a task. -/
def setState (s : Sys) (t : ℕ) (st : TaskState) : Sys :=
  { s with state := Function.update s.state t st }

/-- Write the reply right of a task. -/
def setReplyTo (s : Sys) (t c : ℕ) : Sys := { s with replyTo := Function.update s.replyTo t c }

/-- Write the saved context of a task. -/
def setCtx (s : Sys) (t : ℕ) (c : Context) : Sys := { s with ctx := Function.update s.ctx t c }

/-- Write a saved general register of a task. -/
def setX (s : Sys) (t : ℕ) (i : Fin 31) (v : UInt64) : Sys := s.setCtx t ((s.ctx t).setX i v)

/-- Append a task to the queue of an endpoint. -/
def pushQueue (s : Sys) (e t : ℕ) : Sys :=
  { s with queue := Function.update s.queue e (s.queue e ++ [t]) }

/-- Remove the first task of the queue of an endpoint. -/
def popQueue (s : Sys) (e : ℕ) : Sys :=
  { s with queue := Function.update s.queue e (s.queue e).tail }

/-- Make a task ready. -/
def enqueue (s : Sys) (t : ℕ) : Sys :=
  { s with state := Function.update s.state t .ready, ready := s.ready ++ [t] }

/-- Remove the first ready task. -/
def popReady (s : Sys) : Sys := { s with ready := s.ready.tail }

/-- Make a task the running one. -/
def switchTo (s : Sys) (t : ℕ) : Sys :=
  { s with state := Function.update s.state t .running, current := t }

/-! ### Scheduling -/

/-- Run the first ready task; `false` if there is none. -/
def blockAndSwitch (s : Sys) : Sys × Bool :=
  match s.ready with
  | [] => (s, false)
  | t :: _ => (s.popReady.switchTo t, true)

/-- Move the running task to the end of the ready list and run the first ready task, if there is
one. -/
def rotate (s : Sys) : Sys :=
  match s.ready with
  | [] => s
  | t :: _ => (s.popReady.enqueue s.current).switchTo t

/-- Drop the reply right of `h` and wake the waiting caller with `NO_REPLY`. -/
def abortReply (s : Sys) (h : ℕ) : Sys :=
  let c := s.replyTo h
  let s := s.setReplyTo h 0
  if c = 0 then s else (s.setX c 0 (Abi.asU64 Abi.Err.noReply)).enqueue c

/-- End the running task. -/
def kill (s : Sys) : Sys × Bool :=
  let s := s.abortReply s.current
  (s.setState s.current .dead).blockAndSwitch

/-- Block the running task on an endpoint. -/
def blockOn (s : Sys) (st : TaskState) (e : ℕ) : Sys × Bool :=
  ((s.setState s.current st).pushQueue e s.current).blockAndSwitch

/-! ### Rendezvous -/

/-- The first task in the queue of `e`, if it waits in the given direction. -/
def receiver? (s : Sys) (e : ℕ) : Option ℕ :=
  s.queue e |>.head?.filter fun t => s.state t = .blockedRecv

/-- The first task in the queue of `e`, if it waits for a receiver. -/
def sender? (s : Sys) (e : ℕ) : Option ℕ :=
  s.queue e |>.head?.filter fun t => s.state t ≠ .blockedRecv

/-- The first task of the queue of `e` is taken off and its message goes to the running task. -/
def takeFrom (s : Sys) (e t : ℕ) : Sys :=
  (s.popQueue e).setCtx s.current (deliver (s.ctx t) (s.ctx s.current))

/-- The first task of the queue of `e` is taken off and gets the message of the running task. -/
def giveTo (s : Sys) (e t : ℕ) : Sys :=
  (s.popQueue e).setCtx t (deliver (s.ctx s.current) (s.ctx t))

/-- Return a value in `x0` of the running task. -/
def ret (s : Sys) (v : UInt64) : Sys := s.setX s.current 0 v

/-- Receive on an endpoint. -/
def recv (s : Sys) (e : ℕ) (nonblock : Bool) : Sys × Bool :=
  match s.sender? e with
  | some t =>
    let s := s.popQueue e
    let s := s.setCtx s.current (deliver (s.ctx t) (s.ctx s.current))
    if s.state t = .blockedCall then
      let s := s.abortReply s.current
      ((s.setState t .blockedReply).setReplyTo s.current t, true)
    else ((s.setX t 0 0).enqueue t, true)
  | none =>
    if nonblock then (s.ret (Abi.asU64 Abi.Err.wouldBlock), true) else s.blockOn .blockedRecv e

/-- Send on an endpoint. -/
def send (s : Sys) (e : ℕ) (nonblock : Bool) : Sys × Bool :=
  match s.receiver? e with
  | some t =>
    let s := s.popQueue e
    let s := s.setCtx t (deliver (s.ctx s.current) (s.ctx t))
    ((s.enqueue t).ret 0, true)
  | none =>
    if nonblock then (s.ret (Abi.asU64 Abi.Err.wouldBlock), true) else s.blockOn .blockedSend e

/-- Call on an endpoint: send, and wait for the answer. -/
def call (s : Sys) (e : ℕ) (nonblock : Bool) : Sys × Bool :=
  match s.receiver? e with
  | some t =>
    let s := s.popQueue e
    let s := s.setCtx t (deliver (s.ctx s.current) (s.ctx t))
    let s := s.abortReply t
    let s := (s.setReplyTo t s.current).setState s.current .blockedReply
    (s.enqueue t).blockAndSwitch
  | none =>
    if nonblock then (s.ret (Abi.asU64 Abi.Err.wouldBlock), true) else s.blockOn .blockedCall e

/-- Answer the caller whose reply right the running task holds, if any. -/
def reply (s : Sys) : Sys :=
  let c := s.replyTo s.current
  if c = 0 then s
  else
    let s := s.setReplyTo s.current 0
    (s.setCtx c (deliver (s.ctx s.current) (s.ctx c))).enqueue c

/-- Answer the pending caller and receive. -/
def replyRecv (s : Sys) (e : ℕ) (nonblock : Bool) : Sys × Bool := s.reply.recv e nonblock

/-! ### Creating and starting tasks -/

/-- Clear the control blocks that start in the `n` addresses from `a` on. -/
def clear (s : Sys) (a n : ℕ) : Sys :=
  { s with
    state := fun t => if a ≤ t ∧ t < a + n then .inactive else s.state t
    replyTo := fun t => if a ≤ t ∧ t < a + n then 0 else s.replyTo t
    ctx := fun t => if a ≤ t ∧ t < a + n then Context.zeroed else s.ctx t
    ttbr0Pa := fun t => if a ≤ t ∧ t < a + n then 0 else s.ttbr0Pa t }

/-- Give an inactive task its first context and its address space. -/
def configure (s : Sys) (t : ℕ) (c : Context) (root : ℕ) : Sys :=
  { s with
    state := Function.update s.state t .stopped
    ctx := Function.update s.ctx t c
    ttbr0Pa := Function.update s.ttbr0Pa t root }

end Sys

/-! ### The invariant -/

/-- Which state goes with which list. `live` are the control blocks and `eps` the endpoints; the
tasks in `off` have been taken from one list and not yet put on another. -/
structure Skel.Placed (live eps off : Set ℕ) (s : Skel) : Prop where
  zero : 0 ∉ live
  current_live : s.current ∈ live
  running_eq : ∀ {t}, t ∈ live → s.state t = .running → t = s.current
  ready_live : ∀ {t}, t ∈ s.ready → t ∈ live
  ready_state : ∀ {t}, t ∈ s.ready → s.state t = .ready
  ready_nodup : s.ready.Nodup
  mem_ready : ∀ {t}, t ∈ live → t ∉ off → s.state t = .ready → t ∈ s.ready
  queue_eps : ∀ {e t}, t ∈ s.queue e → e ∈ eps
  queue_live : ∀ {e t}, t ∈ s.queue e → t ∈ live
  queue_state : ∀ {e t}, t ∈ s.queue e → (s.state t).Queued
  queue_nodup : ∀ e, (s.queue e).Nodup
  queue_inj : ∀ {e e' t}, t ∈ s.queue e → t ∈ s.queue e' → e = e'
  queue_side : ∀ {e t t'}, t ∈ s.queue e → t' ∈ s.queue e →
    (s.state t = .blockedRecv ↔ s.state t' = .blockedRecv)
  mem_queue : ∀ {t}, t ∈ live → t ∉ off → (s.state t).Queued → ∃ e, t ∈ s.queue e
  off_ready : ∀ {t}, t ∈ off → t ∉ s.ready
  off_queue : ∀ {t e}, t ∈ off → t ∉ s.queue e

/-- What reply rights exist: each is held by one started task and leads to a task that waits for
an answer, every such task has a holder, and the holders are ranked, so rights form no cycle. -/
structure Rights (live : Set ℕ) (state : ℕ → TaskState) (replyTo : ℕ → ℕ) : Prop where
  live_caller : ∀ {h}, h ∈ live → replyTo h ≠ 0 → replyTo h ∈ live
  waiting : ∀ {h}, h ∈ live → replyTo h ≠ 0 → state (replyTo h) = .blockedReply
  alive : ∀ {h}, h ∈ live → replyTo h ≠ 0 → (state h).Alive
  unique : ∀ {h h'}, h ∈ live → h' ∈ live → replyTo h ≠ 0 → replyTo h = replyTo h' → h = h'
  holder : ∀ {c}, c ∈ live → state c = .blockedReply → ∃ h ∈ live, replyTo h = c
  ranked : ∃ rank : ℕ → ℕ, ∀ h ∈ live, replyTo h ≠ 0 → rank h < rank (replyTo h)

/-- The invariant of the control state. -/
structure Skel.Inv (live eps off : Set ℕ) (s : Skel) : Prop where
  placed : s.Placed live eps off
  rights : Rights live s.state s.replyTo

/-! ### Reply rights under elementary operations -/

namespace Rights

variable {live : Set ℕ} {state : ℕ → TaskState} {replyTo : ℕ → ℕ}

/-- A task that does not wait for an answer is nobody's caller. -/
lemma ne_of_not_waiting (h : Rights live state replyTo) {c : ℕ} (hc : state c ≠ .blockedReply)
    {u : ℕ} (hu : u ∈ live) (h0 : replyTo u ≠ 0) : replyTo u ≠ c := by
  rintro rfl
  exact hc (h.waiting hu h0)

/-- Changing the state of a task from and to a state without a pending answer. -/
lemma setState (h : Rights live state replyTo) {t : ℕ} {st : TaskState}
    (hold : state t ≠ .blockedReply) (hnew : st ≠ .blockedReply)
    (halive : t ∈ live → replyTo t ≠ 0 → st.Alive) :
    Rights live (Function.update state t st) replyTo := by
  refine ⟨h.live_caller, ?_, ?_, h.unique, ?_, h.ranked⟩
  · intro u hu h0
    rw [Function.update_of_ne (h.ne_of_not_waiting hold hu h0)]
    exact h.waiting hu h0
  · intro u hu h0
    by_cases e : u = t
    · subst e
      rw [Function.update_self]
      exact halive hu h0
    · rw [Function.update_of_ne e]
      exact h.alive hu h0
  · intro c hc hst
    by_cases e : c = t
    · rw [e, Function.update_self] at hst
      exact absurd hst hnew
    · rw [Function.update_of_ne e] at hst
      exact h.holder hc hst

/-- Taking the right of `u` away and moving its caller on to another state. -/
lemma release (h : Rights live state replyTo) {u : ℕ} (hu : u ∈ live) (h0 : replyTo u ≠ 0)
    {st : TaskState} (hst : st ≠ .blockedReply) (halive : st.Alive) :
    Rights live (Function.update state (replyTo u) st) (Function.update replyTo u 0) := by
  -- the remaining rights are the old ones of the other holders, to other callers
  have hold : ∀ {v}, v ∈ live → Function.update replyTo u 0 v ≠ 0 →
      v ≠ u ∧ replyTo v ≠ 0 ∧ replyTo v ≠ replyTo u := by
    intro v hv hne
    by_cases e : v = u
    · rw [e, Function.update_self] at hne
      exact absurd rfl hne
    · rw [Function.update_of_ne e] at hne
      exact ⟨e, hne, fun e' => e (h.unique hv hu hne e')⟩
  refine ⟨?_, ?_, ?_, ?_, ?_, ?_⟩
  · intro v hv hne
    obtain ⟨e, h1, -⟩ := hold hv hne
    rw [Function.update_of_ne e]
    exact h.live_caller hv h1
  · intro v hv hne
    obtain ⟨e, h1, h2⟩ := hold hv hne
    rw [Function.update_of_ne e, Function.update_of_ne h2]
    exact h.waiting hv h1
  · intro v hv hne
    obtain ⟨-, h1, -⟩ := hold hv hne
    by_cases e : v = replyTo u
    · rw [e, Function.update_self]
      exact halive
    · rw [Function.update_of_ne e]
      exact h.alive hv h1
  · intro v v' hv hv' hne he
    have hne' : Function.update replyTo u 0 v' ≠ 0 := he ▸ hne
    obtain ⟨e, h1, -⟩ := hold hv hne
    obtain ⟨e', -, -⟩ := hold hv' hne'
    rw [Function.update_of_ne e, Function.update_of_ne e'] at he
    exact h.unique hv hv' h1 he
  · intro c hc hcs
    by_cases e : c = replyTo u
    · rw [e, Function.update_self] at hcs
      exact absurd hcs hst
    · rw [Function.update_of_ne e] at hcs
      obtain ⟨v, hv, rfl⟩ := h.holder hc hcs
      refine ⟨v, hv, Function.update_of_ne ?_ _ _⟩
      rintro rfl
      exact e rfl
  · obtain ⟨rank, hrank⟩ := h.ranked
    refine ⟨rank, fun v hv hne => ?_⟩
    obtain ⟨e, h1, -⟩ := hold hv hne
    rw [Function.update_of_ne e]
    exact hrank v hv h1

/-- Giving `u`, which holds no right and waits for no answer, the right to answer `c`.

**Proof sketch.** The new right is the only one into `c` and the only one of `u`. It closes no
cycle because nobody holds a right to answer `u`: ranking `u` below everything else and shifting
the other ranks up by one orders all rights. -/
lemma grant (h : Rights live state replyTo) (hz : 0 ∉ live) {u c : ℕ} (hu : u ∈ live)
    (hc : c ∈ live) (huc : u ≠ c) (h0 : replyTo u = 0) (hus : state u ≠ .blockedReply)
    (hua : (state u).Alive) (hcs : state c ≠ .blockedReply) :
    Rights live (Function.update state c .blockedReply) (Function.update replyTo u c) := by
  have hother : ∀ {v}, v ∈ live → v ≠ u → replyTo v ≠ 0 → replyTo v ≠ c ∧ replyTo v ≠ u :=
    fun hv _ hne => ⟨h.ne_of_not_waiting hcs hv hne, h.ne_of_not_waiting hus hv hne⟩
  refine ⟨?_, ?_, ?_, ?_, ?_, ?_⟩
  · intro v hv hne
    by_cases e : v = u
    · rw [e, Function.update_self]
      exact hc
    · rw [Function.update_of_ne e] at hne ⊢
      exact h.live_caller hv hne
  · intro v hv hne
    by_cases e : v = u
    · rw [e, Function.update_self, Function.update_self]
    · rw [Function.update_of_ne e] at hne ⊢
      rw [Function.update_of_ne (hother hv e hne).1]
      exact h.waiting hv hne
  · intro v hv hne
    by_cases e : v = c
    · rw [e, Function.update_self]
      exact ⟨by decide, by decide, by decide⟩
    · rw [Function.update_of_ne e]
      by_cases e' : v = u
      · rw [e']
        exact hua
      · rw [Function.update_of_ne e'] at hne
        exact h.alive hv hne
  · intro v v' hv hv' hne he
    by_cases e : v = u
    · by_cases e' : v' = u
      · rw [e, e']
      · rw [e, Function.update_self, Function.update_of_ne e'] at he
        exact absurd he.symm (hother hv' e' (he ▸ ne_of_mem_of_not_mem hc hz)).1
    · rw [Function.update_of_ne e] at hne he
      by_cases e' : v' = u
      · rw [e', Function.update_self] at he
        exact absurd he (hother hv e hne).1
      · rw [Function.update_of_ne e'] at he
        exact h.unique hv hv' hne he
  · intro d hd hds
    by_cases e : d = c
    · exact ⟨u, hu, by rw [e, Function.update_self]⟩
    · rw [Function.update_of_ne e] at hds
      obtain ⟨v, hv, hvd⟩ := h.holder hd hds
      refine ⟨v, hv, ?_⟩
      have hvu : v ≠ u := by
        rintro rfl
        exact hz (h0 ▸ hvd ▸ hd)
      rw [Function.update_of_ne hvu, hvd]
  · obtain ⟨rank, hrank⟩ := h.ranked
    refine ⟨fun v => if v = u then 0 else rank v + 1, fun v hv hne => ?_⟩
    by_cases e : v = u
    · simp only [e, Function.update_self, ↓reduceIte, if_neg huc.symm]
      exact Nat.succ_pos _
    · rw [Function.update_of_ne e] at hne ⊢
      simp only [if_neg e, if_neg (hother hv e hne).2]
      exact Nat.succ_lt_succ (hrank v hv hne)

end Rights

end K0
