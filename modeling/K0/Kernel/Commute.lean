import K0.Ipc.Commute
import K0.Kernel.Order
import K0.Kernel.Park

set_option relaxedAutoImplicit false
set_option autoImplicit false

/-!
# A rendezvous of two tasks of the kernel in either order

Two tasks that can run meet on an endpoint without waiting tasks, one to send or to call and the
other to receive. Whoever gets the processor first waits for the other; the kernel is in the same
state in the end, up to the order of the ready queue and the running task.

## Main definitions

* `K0.Kernel.Turn`: after some ticks a task has its turn and causes an event.
* `K0.Kernel.Meet`: two tasks do so one after the other.

## Main results

* `K0.Kernel.Sim.first`, `K0.Kernel.Sim.second`: the two halves of a meeting.
* `K0.Kernel.rendezvous_commutes`: the order of the two tasks does not matter.
-/

namespace K0

open Set

/-- A task that waits on an endpoint cannot run. -/
lemma IpcOp.not_runnable_waiting (op : IpcOp) : ¬ op.waiting.Runnable := by
  cases op <;> (rintro (h | h) <;> cases h)

/-- A blocking call on an endpoint without waiting tasks waits there. -/
lemma Sys.ipc_of_empty {s : Sys} {e : ℕ} (hq : s.queue e = []) {op : IpcOp}
    (hop : op ≠ .replyRecv) : s.ipc op e false = s.blockOn op.waiting e := by
  have hr : s.receiver? e = none := by
    unfold Sys.receiver?
    rw [hq]
    rfl
  have hs : s.sender? e = none := by
    unfold Sys.sender?
    rw [hq]
    rfl
  cases op with
  | send => exact Sys.send_of_none hr false
  | recv => exact Sys.recv_of_none hs false
  | call => exact Sys.call_of_none hr false
  | replyRecv => exact absurd rfl hop

namespace Kernel

variable {P : Platform} {I : Image P} {i : Machine} {memory reserved : List PhysRegion} {root : ℕ}
  {k k' k₀ : Kernel} {s s' : Sys} {ev : Event} {c : IpcTrap} {a b e t : ℕ}

/-- After some ticks the task `t` has its turn and causes the event. -/
def Turn (B : PoolBase P) (k : Kernel) (t : ℕ) (ev : Event) (k' : Kernel) : Prop :=
  ∃ j, (k0Preempt^[j] k).tasks.sched.current = t ∧ (k0Preempt^[j] k).step B ev = some k'

/-- First `t` causes the event `ev` and then `u` the event `ev'`, with ticks before both. -/
def Meet (B : PoolBase P) (k : Kernel) (t : ℕ) (ev : Event) (u : ℕ) (ev' : Event) (k' : Kernel) :
    Prop :=
  ∃ k₁, k.Turn B t ev k₁ ∧ k₁.Turn B u ev' k'

/-- Ticks change no capability. -/
lemma cnode_iterate_preempt (k : Kernel) (j : ℕ) : (k0Preempt^[j] k).cnode = k.cnode := by
  induction j with
  | zero => rfl
  | succ j ih =>
    rw [Function.iterate_succ_apply', ← ih]
    rfl

/-- The state after an IPC call in which the kernel does not park. -/
lemma step_ipc_eq_some (h : ev.ipc? k.cnode = some c) (B : PoolBase P) :
    k.step B ev = some k' ↔ ipcOn c.op (k.save c.regs).tasks c.ep c.nonblock = (k'.tasks, true) ∧
      k' = { k with tasks := k'.tasks } := by
  rw [step_of_ipc h]
  unfold ipcOrPark
  generalize ipcOn c.op (k.save c.regs).tasks c.ep c.nonblock = r
  obtain ⟨t, f⟩ := r
  cases f with
  | false => simp
  | true =>
    simp only [Option.some.injEq, Prod.mk.injEq, and_true]
    constructor
    · rintro rfl
      exact ⟨rfl, rfl⟩
    · rintro ⟨rfl, hk⟩
      exact hk.symm

/-- An IPC call after some ticks, in the abstract system. -/
lemma Sim.turn (h : k.Sim I memory reserved root s) (hev : ev.ipc? k.cnode = some c)
    (hturn : k.Turn I.pool t ev k') :
    ∃ s₁, s.Ticked s₁ ∧ s₁.Ok (k.cnode.tcbs I.rootTcb) k.cnode.endpoints ∧ s₁.current = t ∧
      k'.cnode = k.cnode ∧
      k'.Sim I memory reserved root ((s₁.save c.regs).ipc c.op c.ep c.nonblock).1 := by
  obtain ⟨j, hcur, hstep⟩ := hturn
  have hsim := h.iterate_preempt j
  have hcn := cnode_iterate_preempt k j
  obtain ⟨htick, hok⟩ := Sys.Ticked.iterate h.sysOk j
  have hev' : ev.ipc? (k0Preempt^[j] k).cnode = some c := by rw [hcn, hev]
  obtain ⟨hrun, hk'⟩ := (step_ipc_eq_some hev' I.pool).mp hstep
  have hep : c.ep ∈ (k0Preempt^[j] k).cnode.endpoints :=
    mem_endpoints_of_epOf (ipc?_eq_some hev').2.2.1
  refine ⟨_, htick, hok, hsim.refines.current.symm.trans hcur, ?_, ?_⟩
  · rw [hk']
    exact hcn
  · rw [hk']
    exact (hsim.of_ipc c hep hrun).2

/-- A task that can run has its turn after some ticks, and its IPC call is done unless the kernel
parks. -/
lemma Sim.exists_turn (h : k.Sim I memory reserved root s) (hev : ev.ipc? k.cnode = some c)
    (ht : t ∈ k.cnode.tcbs I.rootTcb) (hrun : (s.state t).Runnable)
    (hgo : ∀ s₁, s.Ticked s₁ → s₁.Ok (k.cnode.tcbs I.rootTcb) k.cnode.endpoints →
      s₁.current = t → ((s₁.save c.regs).ipc c.op c.ep c.nonblock).2 = true) :
    ∃ k', k.Turn I.pool t ev k' := by
  obtain ⟨j, hcur⟩ := h.sysOk.exists_turn ht hrun
  have hsim := h.iterate_preempt j
  have hcn := cnode_iterate_preempt k j
  obtain ⟨htick, hok⟩ := Sys.Ticked.iterate h.sysOk j
  have hev' : ev.ipc? (k0Preempt^[j] k).cnode = some c := by rw [hcn, hev]
  have hep : c.ep ∈ (k0Preempt^[j] k).cnode.endpoints :=
    mem_endpoints_of_epOf (ipc?_eq_some hev').2.2.1
  have hflag := ((hsim.refines_save c.regs).ipcOn (hsim.sysOk.save c.regs) hep c.op c.nonblock).1
  rw [hgo _ htick hok hcur] at hflag
  refine ⟨{ k0Preempt^[j] k with
    tasks := (ipcOn c.op ((k0Preempt^[j] k).save c.regs).tasks c.ep c.nonblock).1 }, j,
    hsim.refines.current.trans hcur, (step_ipc_eq_some hev' I.pool).mpr ⟨?_, rfl⟩⟩
  exact Prod.ext rfl hflag

/-! ### The two halves of a meeting -/

section Halves

variable {op : IpcOp} {ra rb : Context}

/-- The first task waits on the endpoint. -/
lemma Sim.first (h : k.Sim I memory reserved root s) (hq : s.queue e = [])
    (hop : op ≠ .replyRecv) (hev : ev.ipc? k.cnode = some ⟨op, ra, e, false⟩)
    (hturn : k.Turn I.pool a ev k') :
    ∃ s', k'.Sim I memory reserved root s' ∧ k'.cnode = k.cnode ∧
      s.Parked a ra op.waiting e s' := by
  obtain ⟨s₁, htick, hok, hcur, hcn, hsim⟩ := h.turn hev hturn
  have hq₁ : (s₁.save ra).queue e = [] := by
    change s₁.queue e = []
    rw [htick.queue, hq]
  rw [Sys.ipc_of_empty hq₁ hop] at hsim
  exact ⟨_, hsim, hcn, .of_blockOn htick hok hcur hq⟩

/-- The first task gets there if the other one can run. -/
lemma Sim.exists_first (h : k.Sim I memory reserved root s) (hq : s.queue e = [])
    (hop : op ≠ .replyRecv) (hev : ev.ipc? k.cnode = some ⟨op, ra, e, false⟩)
    (ha : a ∈ k.cnode.tcbs I.rootTcb) (hb : b ∈ k.cnode.tcbs I.rootTcb) (hne : b ≠ a)
    (hra : (s.state a).Runnable) (hrb : (s.state b).Runnable) : ∃ k', k.Turn I.pool a ev k' := by
  refine h.exists_turn hev ha hra fun s₁ htick hok hcur => ?_
  have hq₁ : (s₁.save ra).queue e = [] := by
    change s₁.queue e = []
    rw [htick.queue, hq]
  rw [Sys.ipc_of_empty hq₁ hop]
  exact (hok.save ra).blockOn_true hb (fun hc => hne (hc.trans hcur)) (htick.runnable hrb)

/-- The second task finds the first one: what holds of the abstract system after its call, whenever
its turn comes, holds here. -/
lemma Sim.second {D : Sys → Prop} (h : k.Sim I memory reserved root s') {st : TaskState}
    (hst : ¬ st.Runnable) (hp : s.Parked a ra st e s')
    (hev : ev.ipc? k.cnode = some ⟨op, rb, e, false⟩)
    (hdone : ∀ s₁, s.Parked a ra st e s₁ → s₁.Ok (k.cnode.tcbs I.rootTcb) k.cnode.endpoints →
      s₁.current = b → ((s₁.save rb).ipc op e false).2 = true ∧ D ((s₁.save rb).ipc op e false).1)
    (hb : b ∈ k.cnode.tcbs I.rootTcb) (hne : b ≠ a) (hrb : (s.state b).Runnable) :
    (∃ k', k.Turn I.pool b ev k') ∧ ∀ k', k.Turn I.pool b ev k' →
      ∃ s'', k'.Sim I memory reserved root s'' ∧ k'.cnode = k.cnode ∧ D s'' := by
  constructor
  · refine h.exists_turn hev hb (hp.runnable hne hrb) fun s₁ htick hok hcur => ?_
    exact (hdone s₁ (hp.tick hst htick) hok hcur).1
  · intro k' hturn
    obtain ⟨s₁, htick, hok, hcur, hcn, hsim⟩ := h.turn hev hturn
    exact ⟨_, hsim, hcn, (hdone s₁ (hp.tick hst htick) hok hcur).2⟩

/-- A meeting of two tasks takes place, and what holds after the second call holds then. -/
lemma Sim.meet {D : Sys → Prop} {ev' : Event} {op' : IpcOp} (h : k.Sim I memory reserved root s)
    (hq : s.queue e = []) (hop : op ≠ .replyRecv)
    (hev : ev.ipc? k.cnode = some ⟨op, ra, e, false⟩)
    (hev' : ev'.ipc? k.cnode = some ⟨op', rb, e, false⟩)
    (ha : a ∈ k.cnode.tcbs I.rootTcb) (hb : b ∈ k.cnode.tcbs I.rootTcb) (hne : b ≠ a)
    (hra : (s.state a).Runnable) (hrb : (s.state b).Runnable)
    (hdone : ∀ s₁, s.Parked a ra op.waiting e s₁ →
      s₁.Ok (k.cnode.tcbs I.rootTcb) k.cnode.endpoints → s₁.current = b →
      ((s₁.save rb).ipc op' e false).2 = true ∧ D ((s₁.save rb).ipc op' e false).1) :
    (∃ k', k.Meet I.pool a ev b ev' k') ∧ ∀ k', k.Meet I.pool a ev b ev' k' →
      ∃ s'', k'.Sim I memory reserved root s'' ∧ k'.cnode = k.cnode ∧ D s'' := by
  have hsecond : ∀ k₁, k.Turn I.pool a ev k₁ → (∃ k', k₁.Turn I.pool b ev' k') ∧
      ∀ k', k₁.Turn I.pool b ev' k' →
        ∃ s'', k'.Sim I memory reserved root s'' ∧ k'.cnode = k.cnode ∧ D s'' := by
    intro k₁ hturn
    obtain ⟨s₁, hsim, hcn, hp⟩ := h.first hq hop hev hturn
    rw [← hcn] at hev' hdone hb ⊢
    exact hsim.second op.not_runnable_waiting hp hev' hdone hb hne hrb
  constructor
  · obtain ⟨k₁, hturn⟩ := h.exists_first hq hop hev ha hb hne hra hrb
    obtain ⟨k', hturn'⟩ := (hsecond k₁ hturn).1
    exact ⟨k', k₁, hturn, hturn'⟩
  · rintro k' ⟨k₁, hturn, hturn'⟩
    exact (hsecond k₁ hturn).2 k' hturn'

end Halves

/-! ### Both orders -/

/-- The state after a meeting on `e`: whatever was sent has been received, and the endpoint is empty
again. -/
structure Met (k : Kernel) (op : IpcOp) (a b e : ℕ) (ra rb : Context) (k' : Kernel) : Prop where
  empty : k'.tasks.Linked (k'.tasks.ep e) []
  received : (k'.tasks.tcb b).ctx = deliver ra rb
  receiver : (k'.tasks.tcb b).state.Runnable
  sender : op = .send → (k'.tasks.tcb a).state.Runnable
  caller : op = .call → (k'.tasks.tcb a).state = .blockedReply ∧ (k'.tasks.tcb b).replyTo = a
  dropped : op = .call → (k.tasks.tcb b).replyTo ≠ 0 →
    (k'.tasks.tcb (k.tasks.tcb b).replyTo).state.Runnable ∧
      (k'.tasks.tcb (k.tasks.tcb b).replyTo).ctx.x 0 = Abi.asU64 Abi.Err.noReply

section Done

variable {ra rb : Context} {s₁ s₂ : Sys} {k₁ k₂ : Kernel}

/-- The queue of an endpoint that is empty in the abstract system. -/
lemma Sim.linked_nil (h : k.Sim I memory reserved root s) (he : e ∈ k.cnode.endpoints)
    (hq : s.queue e = []) : k.tasks.Linked (k.tasks.ep e) [] := by
  have hl := h.refines.linked (q := some e) he
  have hlist : s.toSkel.lists (some e) = [] := hq
  rw [hlist] at hl
  exact hl

/-- A send and a receive have met. -/
lemma Sim.met_send (h : k.Sim I memory reserved root s₁) (he : e ∈ k.cnode.endpoints)
    (hd : s.SendDone a b e ra rb s₁) : k₀.Met .send a b e ra rb k := by
  refine ⟨h.linked_nil he hd.queue, ?_, ?_, fun _ => ?_, nofun, nofun⟩
  · refine (congrFun h.refines.ctx b).trans ?_
    rw [hd.ctx, if_pos rfl]
  · rw [show (k.tasks.tcb b).state = _ from congrFun h.refines.state b]
    exact hd.receiver
  · rw [show (k.tasks.tcb a).state = _ from congrFun h.refines.state a]
    exact hd.sender

/-- A call and a receive have met. -/
lemma Sim.met_call (h₀ : k₀.Sim I memory reserved root s) (h : k.Sim I memory reserved root s₁)
    (he : e ∈ k.cnode.endpoints) (hd : s.CallDone a b e ra rb s₁)
    (hdrop : s.replyTo b ≠ 0 → s.replyTo b ≠ a ∧ s.replyTo b ≠ b) :
    k₀.Met .call a b e ra rb k := by
  have hright : (k₀.tasks.tcb b).replyTo = s.replyTo b := congrFun h₀.refines.replyTo b
  refine ⟨h.linked_nil he hd.queue, ?_, ?_, nofun, fun _ => ⟨?_, ?_⟩, fun _ h0 => ?_⟩
  · refine (congrFun h.refines.ctx b).trans ?_
    rw [hd.ctx, if_pos rfl]
  · rw [show (k.tasks.tcb b).state = _ from congrFun h.refines.state b]
    exact hd.receiver
  · exact (congrFun h.refines.state a).trans hd.caller
  · refine (congrFun h.refines.replyTo b).trans ?_
    rw [hd.replyTo, Function.update_self]
  · rw [hright] at h0 ⊢
    have hctx : (k.tasks.tcb (s.replyTo b)).ctx = s₁.ctx (s.replyTo b) :=
      congrFun h.refines.ctx (s.replyTo b)
    have hst : (k.tasks.tcb (s.replyTo b)).state = s₁.state (s.replyTo b) :=
      congrFun h.refines.state (s.replyTo b)
    rw [hctx, hst, hd.ctx, if_neg (hdrop h0).2, if_neg (hdrop h0).1, if_pos ⟨h0, rfl⟩]
    refine ⟨hd.dropped h0, ?_⟩
    change Function.update (s.ctx (s.replyTo b)).x 0 (Abi.asU64 Abi.Err.noReply) 0 = _
    exact Function.update_self _ _ _

/-- Kernels that stand for systems with the same registers and reply rights have the same. -/
lemma Sim.saved_eq (h₁ : k₁.Sim I memory reserved root s₁) (h₂ : k₂.Sim I memory reserved root s₂)
    (hctx : ∀ t, s₁.ctx t = s₂.ctx t) (hreply : s₁.replyTo = s₂.replyTo) (t : ℕ) :
    (k₁.tasks.tcb t).ctx = (k₂.tasks.tcb t).ctx ∧
      (k₁.tasks.tcb t).replyTo = (k₂.tasks.tcb t).replyTo := by
  constructor
  · exact (congrFun h₁.refines.ctx t).trans ((hctx t).trans (congrFun h₂.refines.ctx t).symm)
  · refine (congrFun h₁.refines.replyTo t).trans ?_
    rw [hreply]
    exact (congrFun h₂.refines.replyTo t).symm

end Done

/-- **The order of a rendezvous does not matter.** Let `a` and `b` be two tasks that can run, in a
state that a run from the handoff reaches and in which nobody waits on the endpoint `e`. When `a`
sends or calls on `e`, with the registers `ra`, and `b` receives there, with the registers `rb`,
each in its turn and with only ticks around, then both orders come to an end; they end with the same
saved registers and reply rights of all tasks; and in both the endpoint is empty, `b` has the
message and can run, and `a` can run if it has sent and waits for the answer of `b` if it has
called, while the task whose answer `b` owed before can run and has been told `NO_REPLY`.

**Proof sketch.** The first task finds an empty queue and waits; ticks leave it there. The second
one finds it, through the handler of the sender in one order and through that of the receiver in the
other one. Both handlers write the same registers and rights. -/
theorem rendezvous_commutes {eva evb : Event} {op : IpcOp} {ra rb : Context}
    (hboot : boot I i = some k₀) (hr : k₀.Reaches I.pool k)
    (ha : a ∈ k.cnode.tcbs I.rootTcb) (hb : b ∈ k.cnode.tcbs I.rootTcb) (hne : a ≠ b)
    (hra : (k.tasks.tcb a).state.Runnable) (hrb : (k.tasks.tcb b).state.Runnable)
    (he : (k.tasks.ep e).head = 0) (hop : op = .send ∨ op = .call)
    (heva : eva.ipc? k.cnode = some ⟨op, ra, e, false⟩)
    (hevb : evb.ipc? k.cnode = some ⟨.recv, rb, e, false⟩) :
    (∃ k₁, k.Meet I.pool a eva b evb k₁) ∧ (∃ k₂, k.Meet I.pool b evb a eva k₂) ∧
    ∀ k₁ k₂, k.Meet I.pool a eva b evb k₁ → k.Meet I.pool b evb a eva k₂ →
      (∀ t, (k₁.tasks.tcb t).ctx = (k₂.tasks.tcb t).ctx ∧
        (k₁.tasks.tcb t).replyTo = (k₂.tasks.tcb t).replyTo) ∧
      k.Met op a b e ra rb k₁ ∧ k.Met op a b e ra rb k₂ := by
  obtain ⟨_, s, h⟩ := sim_of_reaches hboot hr
  have hep : e ∈ k.cnode.endpoints := mem_endpoints_of_epOf (ipc?_eq_some heva).2.2.1
  have hq : s.queue e = [] := (h.refines.holds.queue (some e) hep).head_eq_null_iff.mp he
  rw [show (k.tasks.tcb a).state = _ from congrFun h.refines.state a] at hra
  rw [show (k.tasks.tcb b).state = _ from congrFun h.refines.state b] at hrb
  have hrecv : IpcOp.recv ≠ .replyRecv := nofun
  rcases hop with rfl | rfl
  · have hsend : IpcOp.send ≠ .replyRecv := nofun
    obtain ⟨hex, hall⟩ := h.meet (D := s.SendDone a b e ra rb) hq hsend heva hevb ha hb hne.symm
      hra hrb fun s₁ hp hok hcur => hp.recv_send hok hcur hne false
    obtain ⟨hex', hall'⟩ := h.meet (D := s.SendDone a b e ra rb) hq hrecv hevb heva hb ha hne
      hrb hra fun s₁ hp hok hcur => hp.send hok hcur hne false
    refine ⟨hex, hex', fun k₁ k₂ hm hm' => ?_⟩
    obtain ⟨s₁, h₁, hc₁, hd₁⟩ := hall k₁ hm
    obtain ⟨s₂, h₂, hc₂, hd₂⟩ := hall' k₂ hm'
    refine ⟨h₁.saved_eq h₂ (fun t => ?_) (hd₁.replyTo.trans hd₂.replyTo.symm),
      h₁.met_send (hc₁.symm ▸ hep) hd₁, h₂.met_send (hc₂.symm ▸ hep) hd₂⟩
    rw [hd₁.ctx, hd₂.ctx]
  · have hdrop : s.replyTo b ≠ 0 → s.replyTo b ≠ a ∧ s.replyTo b ≠ b :=
      Sys.Parked.dropped_ne h.sysOk hb hra hrb
    have hcall : IpcOp.call ≠ .replyRecv := nofun
    obtain ⟨hex, hall⟩ := h.meet (D := s.CallDone a b e ra rb) hq hcall heva hevb ha hb hne.symm
      hra hrb fun s₁ hp hok hcur => hp.recv_call hok hcur hne hdrop false
    obtain ⟨hex', hall'⟩ := h.meet (D := s.CallDone a b e ra rb) hq hrecv hevb heva hb ha hne
      hrb hra fun s₁ hp hok hcur => hp.call hok hcur hne hdrop false
    refine ⟨hex, hex', fun k₁ k₂ hm hm' => ?_⟩
    obtain ⟨s₁, h₁, hc₁, hd₁⟩ := hall k₁ hm
    obtain ⟨s₂, h₂, hc₂, hd₂⟩ := hall' k₂ hm'
    refine ⟨h₁.saved_eq h₂ (fun t => ?_) (hd₁.replyTo.trans hd₂.replyTo.symm),
      h.met_call h₁ (hc₁.symm ▸ hep) hd₁ hdrop, h.met_call h₂ (hc₂.symm ▸ hep) hd₂ hdrop⟩
    rw [hd₁.ctx, hd₂.ctx]

/-- A blocking call on the endpoint in slot 8. -/
lemma ipc?_syscall {cnode : CNode} {base : ℕ} {number : UInt64} {op : IpcOp}
    (h8 : cnode.cap 8 = some (.endpoint base)) (hlt : base + Abi.kernelVaOffset < 2 ^ 64)
    (hop : ipcOp? number = some op) :
    (syscall number [8]).ipc? cnode =
      some ⟨op, callRegs number [8], base + Abi.kernelVaOffset, false⟩ := by
  have hep : epOf cnode ((callRegs number [8]).x 0) =
      some (.ok (base + Abi.kernelVaOffset)) := by
    change epOf cnode 8 = _
    unfold epOf
    rw [show (8 : UInt64).toNat = 8 from rfl, h8]
    dsimp only
    rw [Word.checkedAdd_of_lt hlt, Option.map_some]
  have hop' : ipcOp? ((callRegs number [8]).x 8) = some op := hop
  have hflag : (callRegs number [8]).x 1 &&& Abi.nonblock = 0 := by
    change (0 : UInt64) &&& Abi.nonblock = 0
    decide
  unfold syscall Event.ipc?
  dsimp only
  rw [if_pos (by decide), hop', hep]
  simp only [hflag, ne_eq, not_true_eq_false, decide_false]

/-- The hypotheses hold for the two tasks of the small machine, and both orders of a send and of a
call take place there. -/
theorem rendezvous_commutes_smallMachine :
    ∃ k₀ k, boot smallImage smallMachine = some k₀ ∧ k₀.Reaches smallImage.pool k ∧
      ∀ number ∈ [Abi.Syscall.send, Abi.Syscall.call],
        (∃ k₁, k.Meet smallImage.pool smallImage.rootTcb (syscall number [8]) secondTcb
          (syscall Abi.Syscall.recv [8]) k₁) ∧
        ∃ k₂, k.Meet smallImage.pool secondTcb (syscall Abi.Syscall.recv [8]) smallImage.rootTcb
          (syscall number [8]) k₂ := by
  obtain ⟨k₀, k, _, _, h⟩ := exists_callFirst
  obtain ⟨-, h8⟩ := h.slots k (by simp)
  have hfit : 0x800004000 + Abi.kernelVaOffset < 2 ^ 64 := by decide
  have hrecv : ipcOp? Abi.Syscall.recv = some .recv := by decide
  refine ⟨k₀, k, h.boot, h.reaches₄, fun number hnumber => ?_⟩
  obtain ⟨op, hside, hop⟩ : ∃ op, (op = .send ∨ op = .call) ∧ ipcOp? number = some op := by
    rcases List.mem_pair.mp hnumber with rfl | rfl
    · exact ⟨.send, .inl rfl, rfl⟩
    · exact ⟨.call, .inr rfl, rfl⟩
  have hmeet := rendezvous_commutes h.boot h.reaches₄ (a := smallImage.rootTcb) (b := secondTcb)
    (.inl rfl) (h.second_mem (by simp)) (by decide) (.inr h.root) (.inl h.ready) h.empty hside
    (ipc?_syscall h8 hfit hop) (ipc?_syscall h8 hfit hrecv)
  exact ⟨hmeet.1, hmeet.2.1⟩

end Kernel

end K0
