import K0.Kernel.Simulation

set_option relaxedAutoImplicit false
set_option autoImplicit false

/-!
# When the kernel parks

The kernel parks in an event in which the running task blocks or ends and no task is left to run.
The handlers of such events first wake other tasks and then ask the scheduler for the next one;
what counts is whether some task is ready at that moment.

## Main definitions

* `K0.ipcLeaves?`: the tasks at the moment when an IPC call in which the running task blocks asks
  the scheduler.
* `K0.Kernel.leaves?`: the same for an event, in which the running task may also end.
* `K0.Kernel.Parks`: the event reaches `killCurrent` or `ipcOrPark` and has no next state.

## Main results

* `K0.parks_iff`: exactly the events park in which the running task leaves and nobody is ready.
-/

namespace K0

open Set

/-! ### Leaving the processor -/

/-- The tasks when the running one waits to receive and the scheduler is asked for the next one;
`none` if the running task goes on. -/
def recvLeaves? (s : Tasks) (ep : ℕ) (nonblock : Bool) : Option Tasks :=
  if (s.ep ep).head ≠ 0 ∧ (s.tcb (s.ep ep).head).state ≠ .blockedRecv then none
  else if nonblock then none
  else some (s.waitOn .blockedRecv ep)

/-- The tasks when the running one has blocked in an IPC call and the scheduler is asked for the
next one; `none` if the running task goes on. -/
def ipcLeaves? : IpcOp → Tasks → ℕ → Bool → Option Tasks
  | .send, s, ep, nonblock =>
    if (s.ep ep).head ≠ 0 ∧ (s.tcb (s.ep ep).head).state = .blockedRecv then none
    else if nonblock then none
    else some (s.waitOn .blockedSend ep)
  | .recv, s, ep, nonblock => recvLeaves? s ep nonblock
  | .call, s, ep, nonblock =>
    if (s.ep ep).head ≠ 0 ∧ (s.tcb (s.ep ep).head).state = .blockedRecv then some (s.callTo ep)
    else if nonblock then none
    else some (s.waitOn .blockedCall ep)
  | .replyRecv, s, ep, nonblock => recvLeaves? s.answer ep nonblock

/-- A receive that blocks ends in the switch to the next task; another one leaves the running task
in place. -/
lemma recvInner_eq (s : Tasks) (e : ℕ) (nonblock : Bool) :
    (∃ s₁, recvLeaves? s e nonblock = some s₁ ∧ recvInner s e nonblock = s₁.blockAndSwitch) ∨
      (recvLeaves? s e nonblock = none ∧ (recvInner s e nonblock).2 = true) := by
  unfold recvLeaves? recvInner
  dsimp only
  split_ifs
  · exact .inr ⟨rfl, rfl⟩
  · exact .inr ⟨rfl, rfl⟩
  · exact .inr ⟨rfl, rfl⟩
  · exact .inl ⟨_, rfl, rfl⟩

/-- An IPC call that blocks ends in the switch to the next task; another one leaves the running
task in place. -/
lemma ipcOn_eq (op : IpcOp) (s : Tasks) (e : ℕ) (nonblock : Bool) :
    (∃ s₁, ipcLeaves? op s e nonblock = some s₁ ∧ ipcOn op s e nonblock = s₁.blockAndSwitch) ∨
      (ipcLeaves? op s e nonblock = none ∧ (ipcOn op s e nonblock).2 = true) := by
  cases op with
  | send =>
    show (∃ s₁, _ ∧ sendOn s e nonblock = _) ∨ _ ∧ (sendOn s e nonblock).2 = true
    unfold ipcLeaves? sendOn
    dsimp only
    split_ifs
    · exact .inr ⟨rfl, rfl⟩
    · exact .inr ⟨rfl, rfl⟩
    · exact .inl ⟨_, rfl, rfl⟩
  | recv => exact recvInner_eq s e nonblock
  | call =>
    show (∃ s₁, _ ∧ callOn s e nonblock = _) ∨ _ ∧ (callOn s e nonblock).2 = true
    rw [Tasks.callOn_eq]
    unfold ipcLeaves?
    dsimp only
    split_ifs
    · exact .inl ⟨_, rfl, rfl⟩
    · exact .inr ⟨rfl, rfl⟩
    · exact .inl ⟨_, rfl, rfl⟩
  | replyRecv => exact recvInner_eq s.answer e nonblock

/-- The states in which a task has left the processor and waits for another task, or has ended. -/
def TaskState.Left (st : TaskState) : Prop := st.Queued ∨ st = .blockedReply ∨ st = .dead

instance (st : TaskState) : Decidable st.Left := inferInstanceAs (Decidable (_ ∨ _))

/-- From `s`, in which a task runs, to `s₁` this task has left the processor, and every task that
was ready still is. -/
structure Sys.Leaving (live eps : Set ℕ) (s s₁ : Sys) : Prop where
  inv : s₁.toSkel.Inv live eps ∅
  left : (s₁.state s.current).Left
  ready : ∀ t, s.state t = .ready → s₁.state t = .ready

section Leaving

variable {live eps : Set ℕ} {s s₁ : Sys} {c c₁ : Tasks} {e t : ℕ}

/-- When the running task joins the queue of an endpoint. -/
lemma Sys.Ok.leaving_waitOn (h : s.Ok live eps) (he : e ∈ eps) {st : TaskState} (hst : st.Queued)
    (hside : ∀ u ∈ s.queue e, (s.state u = .blockedRecv ↔ st = .blockedRecv)) :
    Sys.Leaving live eps s ((s.setState s.current st).pushQueue e s.current) := by
  refine ⟨(h.waiting he hst hside).1, .inl ?_, fun t ht => ?_⟩
  · show (Function.update s.state s.current st s.current).Queued
    rw [Function.update_self]
    exact hst
  · have hne : t ≠ s.current := by
      rintro rfl
      rw [h.running] at ht
      cases ht
    exact (Function.update_of_ne hne _ _).trans ht

/-- A ready task is still ready after a reply right was revoked. -/
lemma Sys.abortReply_ready {u : ℕ} (ht : s.state t = .ready) :
    (s.abortReply u).state t = .ready := by
  unfold Sys.abortReply
  by_cases hc : s.replyTo u = 0
  · simp only [hc, ↓reduceIte]
    exact ht
  · simp only [hc, ↓reduceIte]
    by_cases e' : t = s.replyTo u
    · rw [e']
      exact Function.update_self _ _ _
    · exact (Function.update_of_ne e' _ _).trans ht

/-- The caller whose right is revoked is ready afterwards. -/
lemma Sys.abortReply_woken {u : ℕ} (hc : s.replyTo u ≠ 0) :
    (s.abortReply u).state (s.replyTo u) = .ready := by
  unfold Sys.abortReply
  simp only [hc, ↓reduceIte]
  exact Function.update_self _ _ _

/-- When the running task ends. -/
lemma Sys.Ok.leaving_ended (h : s.Ok live eps) :
    Sys.Leaving live eps s ((s.abortReply s.current).setState s.current .dead) := by
  refine ⟨h.ended.1, .inr (.inr (Function.update_self _ _ _)), fun t ht => ?_⟩
  have hne : t ≠ s.current := by
    rintro rfl
    rw [h.running] at ht
    cases ht
  exact (Function.update_of_ne hne _ _).trans (Sys.abortReply_ready ht)

/-- The states after a call to a waiting receiver. -/
lemma Sys.callTo_state (s : Sys) (e t : ℕ) :
    (s.callTo e t).state = Function.update (Function.update ((s.giveTo e t).abortReply t).state
      s.current .blockedReply) t .ready :=
  rfl

/-- When the running task calls a waiting receiver, which becomes ready. -/
lemma Sys.Ok.leaving_callTo (h : s.Ok live eps) (hr : s.receiver? e = some t) :
    Sys.Leaving live eps s (s.callTo e t) ∧ (s.callTo e t).state t = .ready := by
  obtain ⟨⟨l, hl⟩, -⟩ := Sys.receiver?_eq_some.mp hr
  have ht : t ∈ s.queue e := by rw [hl]; simp
  have hne : s.current ≠ t := (ne_of_mem_of_not_mem ht (h.current_not_mem.2 e)).symm
  refine ⟨⟨(h.called hr).1, .inr (.inl ?_), fun u hu => ?_⟩, Function.update_self _ _ _⟩
  · rw [Sys.callTo_state, Function.update_of_ne hne, Function.update_self]
  · have hcur : u ≠ s.current := by
      rintro rfl
      rw [h.running] at hu
      cases hu
    rw [Sys.callTo_state]
    by_cases e' : u = t
    · rw [e', Function.update_self]
    · rw [Function.update_of_ne e', Function.update_of_ne hcur]
      exact Sys.abortReply_ready hu

/-- A ready task is still ready after an answer. -/
lemma Sys.reply_ready (ht : s.state t = .ready) : s.reply.state t = .ready := by
  unfold Sys.reply
  by_cases hc : s.replyTo s.current = 0
  · simp only [hc, ↓reduceIte]
    exact ht
  · simp only [hc, ↓reduceIte]
    by_cases e' : t = s.replyTo s.current
    · rw [e']
      exact Function.update_self _ _ _
    · exact (Function.update_of_ne e' _ _).trans ht

/-- The answered caller is ready. -/
lemma Sys.reply_woken (hc : s.replyTo s.current ≠ 0) :
    s.reply.state (s.replyTo s.current) = .ready := by
  unfold Sys.reply
  simp only [hc, ↓reduceIte]
  exact Function.update_self _ _ _

/-- An answer leaves the running task in place. -/
lemma Sys.reply_current (s : Sys) : s.reply.current = s.current := by
  unfold Sys.reply
  by_cases hc : s.replyTo s.current = 0
  · simp only [hc, ↓reduceIte]
  · simp only [hc, ↓reduceIte]
    rfl

/-- A receive in which the running task blocks. -/
lemma Refines.recvLeaves (h : Refines live eps c s) (hok : s.Ok live eps) (he : e ∈ eps)
    {nonblock : Bool} (hc : recvLeaves? c e nonblock = some c₁) :
    ∃ s₁, Refines live eps c₁ s₁ ∧ Sys.Leaving live eps s s₁ := by
  have htest := h.head_sender hok.inv.placed he
  unfold recvLeaves? at hc
  split_ifs at hc with hhead hflag
  obtain rfl := Option.some.inj hc
  have hnone : s.sender? e = none := by
    cases hs : s.sender? e with
    | none => rfl
    | some t => exact absurd (htest.mpr ⟨t, hs⟩) hhead
  have hall := hok.inv.placed.no_sender hnone
  exact ⟨_, h.waitOn hok he .blockedRecv, hok.leaving_waitOn he (.inr (.inl rfl))
    fun u hu => ⟨fun _ => rfl, fun _ => hall u hu⟩⟩

/-- An IPC call in which the running task blocks, with the tasks that it wakes. -/
lemma Refines.ipcLeaves (h : Refines live eps c s) (hok : s.Ok live eps) (he : e ∈ eps)
    {op : IpcOp} {nonblock : Bool} (hc : ipcLeaves? op c e nonblock = some c₁) :
    ∃ s₁, Refines live eps c₁ s₁ ∧ Sys.Leaving live eps s s₁ ∧
      (op = .call → (c.ep e).head ≠ 0 ∧ (c.tcb (c.ep e).head).state = .blockedRecv →
        ∃ t ∈ live, s₁.state t = .ready) ∧
      (op = .replyRecv → s.replyTo s.current ≠ 0 → ∃ t ∈ live, s₁.state t = .ready) := by
  have htest := h.head_receiver hok.inv.placed he
  -- the running task joins the senders
  have hwait : ∀ {st : TaskState}, st.Queued → st ≠ .blockedRecv →
      ¬ ((c.ep e).head ≠ 0 ∧ (c.tcb (c.ep e).head).state = .blockedRecv) →
      Sys.Leaving live eps s ((s.setState s.current st).pushQueue e s.current) := by
    intro st hq hne hhead
    have hnone : s.receiver? e = none := by
      cases hs : s.receiver? e with
      | none => rfl
      | some t => exact absurd (htest.mpr ⟨t, hs⟩) hhead
    have hall := hok.inv.placed.no_receiver hnone
    exact hok.leaving_waitOn he hq
      fun u hu => ⟨fun h' => absurd h' (hall u hu), fun h' => absurd h' hne⟩
  cases op with
  | send =>
    unfold ipcLeaves? at hc
    dsimp only at hc
    split_ifs at hc with hhead hflag
    obtain rfl := Option.some.inj hc
    exact ⟨_, h.waitOn hok he .blockedSend, hwait (.inl rfl) (by decide) hhead, nofun, nofun⟩
  | recv =>
    obtain ⟨s₁, h1, h2⟩ := h.recvLeaves hok he hc
    exact ⟨s₁, h1, h2, nofun, nofun⟩
  | call =>
    unfold ipcLeaves? at hc
    dsimp only at hc
    split_ifs at hc with hhead hflag
    · obtain rfl := Option.some.inj hc
      obtain ⟨t, ht⟩ := htest.mp hhead
      obtain ⟨⟨l, hl⟩, -⟩ := Sys.receiver?_eq_some.mp ht
      obtain ⟨h1, h2⟩ := hok.leaving_callTo ht
      have hlive : t ∈ live := hok.inv.placed.queue_live (by rw [hl]; exact List.mem_cons_self)
      exact ⟨_, h.callTo hok he ht, h1, fun _ _ => ⟨t, hlive, h2⟩, nofun⟩
    · obtain rfl := Option.some.inj hc
      exact ⟨_, h.waitOn hok he .blockedCall, hwait (.inr (.inr rfl)) (by decide) hhead,
        fun _ h' => absurd h' hhead, nofun⟩
  | replyRecv =>
    obtain ⟨s₁, h1, h2⟩ := (h.answer hok).recvLeaves hok.reply he hc
    refine ⟨s₁, h1, ⟨h2.inv, ?_, fun t ht => h2.ready t (Sys.reply_ready ht)⟩, nofun, ?_⟩
    · rw [← s.reply_current]
      exact h2.left
    · intro _ h0
      exact ⟨_, hok.inv.rights.live_caller hok.inv.placed.current_live h0,
        h2.ready _ (Sys.reply_woken h0)⟩

/-- A receive in which the running task does not block leaves it running. -/
lemma Refines.recvStays (h : Refines live eps c s) (hok : s.Ok live eps) (he : e ∈ eps)
    {nonblock : Bool} (hc : recvLeaves? c e nonblock = none) :
    (s.recv e nonblock).1.state s.current = .running := by
  have htest := h.head_sender hok.inv.placed he
  cases hs : s.sender? e with
  | some t =>
    obtain ⟨⟨l, hl⟩, -⟩ := Sys.sender?_eq_some.mp hs
    have ht : t ∈ s.queue e := by rw [hl]; simp
    have hne : s.current ≠ t := (ne_of_mem_of_not_mem ht (hok.current_not_mem.2 e)).symm
    by_cases hcall : s.state t = .blockedCall
    · rw [Sys.recv_of_caller hs hcall]
      refine (Function.update_of_ne hne _ _).trans ?_
      rw [Sys.abortReply_state]
      · exact hok.running
      · by_cases h0 : s.replyTo s.current = 0
        · exact .inl h0
        · refine .inr fun he' => ?_
          have hw := hok.inv.rights.waiting hok.inv.placed.current_live h0
          have he'' : s.current = s.replyTo s.current := he'
          rw [← he'', hok.running] at hw
          cases hw
    · rw [Sys.recv_of_sender hs hcall]
      exact (Function.update_of_ne hne _ _).trans hok.running
  | none =>
    have hhead : ¬ ((c.ep e).head ≠ 0 ∧ (c.tcb (c.ep e).head).state ≠ .blockedRecv) := by
      intro hh
      obtain ⟨t, ht⟩ := htest.mp hh
      rw [hs] at ht
      cases ht
    unfold recvLeaves? at hc
    rw [if_neg hhead] at hc
    rw [Sys.recv_of_none hs]
    cases nonblock with
    | true => exact hok.running
    | false => cases hc

/-- An IPC call in which the running task does not block leaves it running. -/
lemma Refines.ipcStays (h : Refines live eps c s) (hok : s.Ok live eps) (he : e ∈ eps)
    {op : IpcOp} {nonblock : Bool} (hc : ipcLeaves? op c e nonblock = none) :
    (s.ipc op e nonblock).1.state s.current = .running := by
  have htest := h.head_receiver hok.inv.placed he
  cases op with
  | recv => exact h.recvStays hok he hc
  | replyRecv =>
    have hstay := (h.answer hok).recvStays hok.reply he hc
    rw [s.reply_current] at hstay
    exact hstay
  | send =>
    show (s.send e nonblock).1.state s.current = .running
    unfold ipcLeaves? at hc
    dsimp only at hc
    cases hs : s.receiver? e with
    | some t =>
      obtain ⟨⟨l, hl⟩, -⟩ := Sys.receiver?_eq_some.mp hs
      have ht : t ∈ s.queue e := by rw [hl]; simp
      have hne : s.current ≠ t := (ne_of_mem_of_not_mem ht (hok.current_not_mem.2 e)).symm
      rw [Sys.send_of_receiver hs]
      exact (Function.update_of_ne hne _ _).trans hok.running
    | none =>
      rw [if_neg fun hh => by obtain ⟨t, ht⟩ := htest.mp hh; simp [hs] at ht] at hc
      rw [Sys.send_of_none hs]
      cases nonblock with
      | true => exact hok.running
      | false => cases hc
  | call =>
    show (s.call e nonblock).1.state s.current = .running
    unfold ipcLeaves? at hc
    dsimp only at hc
    cases hs : s.receiver? e with
    | some t =>
      rw [if_pos (htest.mpr ⟨t, hs⟩)] at hc
      cases hc
    | none =>
      rw [if_neg fun hh => by obtain ⟨t, ht⟩ := htest.mp hh; simp [hs] at ht] at hc
      rw [Sys.call_of_none hs]
      cases nonblock with
      | true => exact hok.running
      | false => cases hc

/-- The switch to the next task finds one exactly if some task is ready. -/
lemma Refines.blockAndSwitch_eq_false_iff (h : Refines live eps c₁ s₁)
    (hi : s₁.toSkel.Inv live eps ∅) :
    c₁.blockAndSwitch.2 = false ↔ ∀ t ∈ live, (c₁.tcb t).state ≠ .ready := by
  have hflag := (h.blockAndSwitch (Refines.ready_ne_zero hi.placed)).1
  rw [hflag]
  unfold Sys.blockAndSwitch
  cases hl : s₁.ready with
  | nil =>
    refine ⟨fun _ t ht hs => ?_, fun _ => rfl⟩
    rw [h.state_eq] at hs
    have hmem := hi.placed.mem_ready ht (notMem_empty t) hs
    rw [hl] at hmem
    cases hmem
  | cons t l =>
    have hmem : t ∈ s₁.ready := by
      rw [hl]
      exact List.mem_cons_self
    constructor
    · nofun
    · intro hnone
      refine absurd ?_ (hnone t (hi.placed.ready_live hmem))
      rw [h.state_eq]
      exact hi.placed.ready_state hmem

end Leaving

/-! ### Events -/

namespace Kernel

variable {P : Platform} (B : PoolBase P)

/-- The tasks when the running one has blocked or ended in an event and the scheduler is asked for
the next one; `none` if the running task stays where it is. -/
def leaves? (k : Kernel) (ev : Event) : Option Tasks :=
  match ev.dies? with
  | some regs =>
    let s := abortReply (k.save regs).tasks (k.save regs).tasks.sched.current
    some (s.setState s.sched.current .dead)
  | none =>
    match ev.ipc? k.cnode with
    | some c => ipcLeaves? c.op (k.save c.regs).tasks c.ep c.nonblock
    | none => none

/-- The event reaches `killCurrent` or `ipcOrPark`, and the kernel stops there. -/
def Parks (k : Kernel) (ev : Event) : Prop :=
  (ev.dies?.isSome = true ∨ (ev.ipc? k.cnode).isSome = true) ∧ k.step B ev = none

variable {B} {k : Kernel} {ev : Event}

/-- An event that ends the running task ends in `killCurrent`. -/
lemma step_of_dies {regs : Context} (h : ev.dies? = some regs) :
    k.step B ev = (k.save regs).killCurrent := by
  cases ev with
  | store va b => cases h
  | irq regs int => cases h
  | sync regs' esr =>
    unfold Event.dies? at h
    unfold step el0Sync
    dsimp only at h ⊢
    by_cases hec : exceptionClass esr = 0x15
    · rw [if_pos hec] at h ⊢
      by_cases hx : regs'.x 8 ∈ returningCalls
      · rw [if_pos hx] at h
        cases h
      · rw [if_neg hx] at h
        obtain rfl := Option.some.inj h
        simp only [returningCalls, List.mem_cons, List.not_mem_nil, or_false, not_or] at hx
        obtain ⟨h1, h2, h4, h5, h6, h7, h8, h9, h10, h11⟩ := hx
        have hctx : ((k.save regs').tasks.tcb (k.save regs').tasks.currentContext).ctx = regs' :=
          k.ctx_save regs'
        unfold k0Syscall
        dsimp only
        rw [hctx, if_neg h1, if_neg h2, if_neg h4, if_neg h5, if_neg h6, if_neg h7, if_neg h8,
          if_neg h9, if_neg h10, if_neg h11, ite_self]
    · rw [if_neg hec] at h ⊢
      by_cases hec' : exceptionClass esr = 0x01
      · rw [if_pos hec'] at h
        cases h
      · rw [if_neg hec'] at h ⊢
        obtain rfl := Option.some.inj h
        rfl

/-- The dispatcher on the number of an IPC call. -/
lemma k0Syscall_of_ipc {op : IpcOp} {regs : Context} (hop : ipcOp? (regs.x 8) = some op) :
    (k.save regs).k0Syscall B =
      (k.save regs).ipcOrPark (withEp k.cnode (ipcOn op) (k.save regs).tasks) := by
  have hctx : ((k.save regs).tasks.tcb (k.save regs).tasks.currentContext).ctx = regs :=
    k.ctx_save regs
  -- the numbers before those of IPC
  have hskip : ∀ {n : UInt64}, regs.x 8 = n → n ∉ [Abi.Syscall.debugPutc, Abi.Syscall.yield,
      Abi.Syscall.exit, Abi.Syscall.retype, Abi.Syscall.map, Abi.Syscall.tcbConfigure,
      Abi.Syscall.tcbResume] → (k.save regs).k0Syscall B =
        if n = Abi.Syscall.send then
          (k.save regs).ipcOrPark (sysSend k.cnode (k.save regs).tasks)
        else if n = Abi.Syscall.recv then
          (k.save regs).ipcOrPark (sysRecv k.cnode (k.save regs).tasks)
        else if n = Abi.Syscall.call then
          (k.save regs).ipcOrPark (sysCall k.cnode (k.save regs).tasks)
        else if n = Abi.Syscall.replyRecv then
          (k.save regs).ipcOrPark (sysReplyRecv k.cnode (k.save regs).tasks)
        else (k.save regs).killCurrent := by
    intro n hn hnot
    simp only [List.mem_cons, List.not_mem_nil, or_false, not_or] at hnot
    obtain ⟨h1, h2, h3, h4, h5, h6, h7⟩ := hnot
    unfold k0Syscall
    dsimp only
    rw [hctx, hn, if_neg h1, if_neg h2, if_neg h3, if_neg h4, if_neg h5, if_neg h6, if_neg h7]
    rfl
  unfold ipcOp? at hop
  by_cases h8 : regs.x 8 = Abi.Syscall.send
  · rw [if_pos h8] at hop
    obtain rfl := Option.some.inj hop
    rw [hskip h8 (by decide), if_pos rfl]
    rfl
  rw [if_neg h8] at hop
  by_cases h9 : regs.x 8 = Abi.Syscall.recv
  · rw [if_pos h9] at hop
    obtain rfl := Option.some.inj hop
    rw [hskip h9 (by decide), if_neg (by decide), if_pos rfl]
    rfl
  rw [if_neg h9] at hop
  by_cases h10 : regs.x 8 = Abi.Syscall.call
  · rw [if_pos h10] at hop
    obtain rfl := Option.some.inj hop
    rw [hskip h10 (by decide), if_neg (by decide), if_neg (by decide), if_pos rfl]
    rfl
  rw [if_neg h10] at hop
  by_cases h11 : regs.x 8 = Abi.Syscall.replyRecv
  · rw [if_pos h11] at hop
    obtain rfl := Option.some.inj hop
    rw [hskip h11 (by decide), if_neg (by decide), if_neg (by decide), if_neg (by decide),
      if_pos rfl]
    rfl
  rw [if_neg h11] at hop
  cases hop

/-- An IPC call on a valid endpoint ends in `ipcOrPark`. -/
lemma step_of_ipc {c : IpcTrap} (h : ev.ipc? k.cnode = some c) :
    k.step B ev = (k.save c.regs).ipcOrPark
      (some (ipcOn c.op (k.save c.regs).tasks c.ep c.nonblock)) := by
  obtain ⟨⟨esr, rfl, hec⟩, hop, hep, hflag⟩ := ipc?_eq_some h
  have hctx : ((k.save c.regs).tasks.tcb (k.save c.regs).tasks.currentContext).ctx = c.regs :=
    k.ctx_save c.regs
  show (k.save c.regs).el0Sync B esr = _
  unfold el0Sync
  dsimp only
  rw [if_pos hec, k0Syscall_of_ipc hop]
  congr 1
  unfold withEp
  simp only [hctx, hep, hflag]

/-- The handlers, seen from the scheduler: the event goes through the switch to the next task
exactly if the running task leaves. -/
lemma parks_iff_leaves :
    k.Parks B ev ↔ ∃ s₁, k.leaves? ev = some s₁ ∧ s₁.blockAndSwitch.2 = false := by
  unfold Parks leaves?
  cases hd : ev.dies? with
  | some regs =>
    rw [step_of_dies hd]
    simp only [Option.isSome_some, true_or, true_and, Option.some.injEq, exists_eq_left']
    show killCurrent _ = none ↔ (Tasks.exitCurrent _).2 = false
    unfold killCurrent
    split
    · rename_i s heq
      rw [heq]
      exact ⟨fun _ => rfl, fun _ => rfl⟩
    · rename_i s heq
      rw [heq]
      exact ⟨nofun, nofun⟩
  | none =>
    cases hi : ev.ipc? k.cnode with
    | none => simp
    | some c =>
      rw [step_of_ipc hi]
      simp only [Option.isSome_none, Bool.false_eq_true, Option.isSome_some, or_true, true_and]
      rcases ipcOn_eq c.op (k.save c.regs).tasks c.ep c.nonblock with ⟨s₁, h1, h2⟩ | ⟨h1, h2⟩
      · rw [h1, h2]
        simp only [Option.some.injEq, exists_eq_left']
        unfold ipcOrPark
        rcases s₁.blockAndSwitch with ⟨s, b⟩
        cases b with
        | false => exact ⟨fun _ => rfl, fun _ => rfl⟩
        | true => exact ⟨nofun, nofun⟩
      · rw [h1]
        constructor
        · intro hp
          unfold ipcOrPark at hp
          rcases hr : ipcOn c.op (k.save c.regs).tasks c.ep c.nonblock with ⟨s, b⟩
          rw [hr] at h2 hp
          cases b with
          | false => cases h2
          | true => cases hp
        · rintro ⟨s₁, h3, -⟩
          cases h3

end Kernel

section Reaches

variable {P : Platform} {I : Image P} {i : Machine} {k₀ k : Kernel}

/-- What the abstract system says about an event in which the running task leaves. -/
lemma Kernel.Sim.leaves {memory reserved : List PhysRegion} {root : ℕ} {s : Sys} {ev : Event}
    {c₁ : Tasks} (h : k.Sim I memory reserved root s) (hl : k.leaves? ev = some c₁) :
    ∃ s₁, Refines (k.cnode.tcbs I.rootTcb) k.cnode.endpoints c₁ s₁ ∧
      Sys.Leaving (k.cnode.tcbs I.rootTcb) k.cnode.endpoints s s₁ ∧
      (∀ c, ev.ipc? k.cnode = some c → c.op = .call → (k.tasks.ep c.ep).head ≠ 0 ∧
        (k.tasks.tcb (k.tasks.ep c.ep).head).state = .blockedRecv →
        ∃ t ∈ k.cnode.tcbs I.rootTcb, s₁.state t = .ready) ∧
      (∀ c, ev.ipc? k.cnode = some c → c.op = .replyRecv → s.replyTo s.current ≠ 0 →
        ∃ t ∈ k.cnode.tcbs I.rootTcb, s₁.state t = .ready) ∧
      (ev.dies?.isSome = true → s.replyTo s.current ≠ 0 →
        ∃ t ∈ k.cnode.tcbs I.rootTcb, s₁.state t = .ready) := by
  unfold leaves? at hl
  split at hl
  · rename_i regs hd
    obtain rfl := Option.some.inj hl
    have hsave := h.refines_save regs
    have hok := h.sysOk.save regs
    have ha := hsave.abortReply hok.inv hok.inv.placed.current_live
    have hend := ha.setState (s.save regs).current .dead
    obtain ⟨-, hcur, -, -⟩ := (s.save regs).abortReply_frame (s.save regs).current
    refine ⟨((s.save regs).abortReply (s.save regs).current).setState (s.save regs).current .dead,
      ?_, ?_, ?_, ?_, ?_⟩
    · have hc : (k.save regs).tasks.sched.current = (s.save regs).current := hsave.current
      have hc' : (abortReply (k.save regs).tasks (k.save regs).tasks.sched.current).sched.current =
          (s.save regs).current := by
        rw [hc, ha.current, hcur]
      rw [hc', hc]
      exact hend
    · have hleft := hok.leaving_ended
      exact ⟨hleft.inv, hleft.left, hleft.ready⟩
    · intro c hi
      rw [ipc?_of_dies? hd] at hi
      cases hi
    · intro c hi
      rw [ipc?_of_dies? hd] at hi
      cases hi
    · intro _ h0
      have hlive := hok.inv.rights.live_caller hok.inv.placed.current_live h0
      refine ⟨_, hlive, ?_⟩
      refine (Function.update_of_ne ?_ _ _).trans (Sys.abortReply_woken h0)
      intro he
      have hw := hok.inv.rights.waiting hok.inv.placed.current_live h0
      rw [he, hok.running] at hw
      cases hw
  · rename_i hd
    split at hl
    · rename_i c hi
      obtain ⟨-, -, hep, -⟩ := ipc?_eq_some hi
      have hok := h.sysOk.save c.regs
      obtain ⟨s₁, h1, h2, h3, h4⟩ :=
        (h.refines_save c.regs).ipcLeaves hok (mem_endpoints_of_epOf hep) hl
      refine ⟨s₁, h1, ⟨h2.inv, h2.left, h2.ready⟩, ?_, ?_, ?_⟩
      · intro c' hc' hop hhead
        rw [hi] at hc'
        obtain rfl := Option.some.inj hc'
        refine h3 hop ?_
        have hst : ((k.save c.regs).tasks.tcb (k.tasks.ep c.ep).head).state =
            (k.tasks.tcb (k.tasks.ep c.ep).head).state := by
          rw [(h.refines_save c.regs).state_eq, h.refines.state_eq]
          rfl
        exact ⟨hhead.1, hst.trans hhead.2⟩
      · intro c' hc' hop h0
        rw [hi] at hc'
        obtain rfl := Option.some.inj hc'
        exact h4 hop h0
      · rw [hd]
        nofun
    · cases hl

/-- In a step in which the running task neither ends nor blocks, it goes on running or becomes
ready. -/
lemma World.Step.stays {w w' : World} {a : Act} (hs : w.Step a w') (h : w.Ok)
    (hdies : a.dies? = none)
    (hipc : ∀ op regs e nonblock, a = .ipc op regs e nonblock →
      ((w.sys.save regs).ipc op e nonblock).1.state w.sys.current = .running) :
    w'.sys.state w.sys.current = .running ∨ w'.sys.state w.sys.current = .ready := by
  have hrun : w.sys.state w.sys.current = .running := h.running
  cases hs with
  | idle => exact .inl hrun
  | run regs => exact .inl hrun
  | tick regs =>
    dsimp only
    unfold Sys.rotate
    cases hready : (w.sys.save regs).ready with
    | nil => exact .inl hrun
    | cons t l =>
      have hne : w.sys.current ≠ t := by
        rintro rfl
        exact (Sys.Ok.current_not_mem (h.save regs)).1 (by rw [hready]; exact List.mem_cons_self)
      exact .inr ((Function.update_of_ne hne _ _).trans (Function.update_self _ _ _))
  | die regs _ => cases hdies
  | ipc op regs e nonblock he htrue => exact .inl (hipc op regs e nonblock rfl)
  | configure regs t ctx r ht hst =>
    have hne : w.sys.current ≠ t := by
      rintro rfl
      rw [hst] at hrun
      cases hrun
    exact .inl ((Function.update_of_ne hne _ _).trans hrun)
  | resume regs t ht hst =>
    have hne : w.sys.current ≠ t := by
      rintro rfl
      rw [hst] at hrun
      cases hrun
    exact .inl ((Function.update_of_ne hne _ _).trans hrun)
  | clear regs a n result live' eps' hlive heps hsub hsub' h0 hnew hnew' =>
    exact .inl ((if_neg (hlive _ h.inv.placed.current_live)).trans hrun)

/-- In an event in which the running task does not leave, it goes on running or becomes ready. -/
lemma Kernel.Sim.stays {memory reserved : List PhysRegion} {root : ℕ} {s : Sys} {ev : Event}
    {k' : Kernel} (h : k.Sim I memory reserved root s) (hl : k.leaves? ev = none)
    (hs : k.step I.pool ev = some k') :
    (k'.tasks.tcb k.tasks.sched.current).state = .running ∨
      (k'.tasks.tcb k.tasks.sched.current).state = .ready := by
  obtain ⟨a, s', hstep, hsim, hipc, hdies⟩ := h.step hs
  rw [hsim.refines.state_eq, h.refines.current]
  unfold leaves? at hl
  rw [← hdies, ← hipc] at hl
  refine hstep.stays h.ok ?_ ?_
  · cases hd : a.dies? with
    | none => rfl
    | some regs =>
      rw [hd] at hl
      cases hl
  · rintro op regs e nonblock rfl
    obtain ⟨-, -, hep, -⟩ := ipc?_eq_some hipc.symm
    exact (h.refines_save regs).ipcStays (h.sysOk.save regs) (mem_endpoints_of_epOf hep) hl

/-- In every state that a run from the handoff reaches, and for every event: the kernel parks
exactly if the running task blocks or ends in the event and, after the wake-ups of the event, no
task is ready. In particular none of the following parks: a call that finds a waiting receiver; an
answer by a task that holds a reply right; the end of such a task; and any event while a task is
ready. -/
theorem parks_iff (hboot : boot I i = some k₀) (hr : k₀.Reaches I.pool k) (ev : Event) :
    (k.Parks I.pool ev ↔ ∃ s₁, k.leaves? ev = some s₁ ∧
      ∀ t ∈ k.cnode.tcbs I.rootTcb, (s₁.tcb t).state ≠ .ready) ∧
    (∀ s₁, k.leaves? ev = some s₁ → (s₁.tcb k.tasks.sched.current).state.Left) ∧
    (k.leaves? ev = none → ∀ k', k.step I.pool ev = some k' →
      (k'.tasks.tcb k.tasks.sched.current).state = .running ∨
        (k'.tasks.tcb k.tasks.sched.current).state = .ready) ∧
    (∀ c, ev.ipc? k.cnode = some c → c.op = .call → (k.tasks.ep c.ep).head ≠ 0 →
      (k.tasks.tcb (k.tasks.ep c.ep).head).state = .blockedRecv → ¬ k.Parks I.pool ev) ∧
    (∀ c, ev.ipc? k.cnode = some c → c.op = .replyRecv →
      (k.tasks.tcb k.tasks.sched.current).replyTo ≠ 0 → ¬ k.Parks I.pool ev) ∧
    (ev.dies?.isSome = true → (k.tasks.tcb k.tasks.sched.current).replyTo ≠ 0 →
      ¬ k.Parks I.pool ev) ∧
    ((∃ t ∈ k.cnode.tcbs I.rootTcb, (k.tasks.tcb t).state = .ready) → ¬ k.Parks I.pool ev) := by
  obtain ⟨b, s, h⟩ := Kernel.sim_of_reaches hboot hr
  have hcur := h.refines.current
  -- a task that is ready when the scheduler is asked
  have hnot : (∀ c₁ s₁, k.leaves? ev = some c₁ →
      Refines (k.cnode.tcbs I.rootTcb) k.cnode.endpoints c₁ s₁ →
      s₁.toSkel.Inv (k.cnode.tcbs I.rootTcb) k.cnode.endpoints ∅ →
      c₁.blockAndSwitch.2 = false → ∀ t ∈ k.cnode.tcbs I.rootTcb, s₁.state t ≠ .ready) := by
    intro c₁ s₁ _ href hi hflag t ht
    rw [← href.state_eq]
    exact (href.blockAndSwitch_eq_false_iff hi).mp hflag t ht
  refine ⟨?_, ?_, fun hl k' hs => h.stays hl hs, ?_, ?_, ?_, ?_⟩
  · rw [Kernel.parks_iff_leaves]
    constructor
    · rintro ⟨c₁, hl, hflag⟩
      obtain ⟨s₁, href, hleft, -⟩ := h.leaves hl
      exact ⟨c₁, hl, (href.blockAndSwitch_eq_false_iff hleft.inv).mp hflag⟩
    · rintro ⟨c₁, hl, hnone⟩
      obtain ⟨s₁, href, hleft, -⟩ := h.leaves hl
      exact ⟨c₁, hl, (href.blockAndSwitch_eq_false_iff hleft.inv).mpr hnone⟩
  · intro c₁ hl
    obtain ⟨s₁, href, hleft, -⟩ := h.leaves hl
    rw [href.state_eq, hcur]
    exact hleft.left
  · intro c hi hop h0 hst hp
    obtain ⟨c₁, hl, hflag⟩ := Kernel.parks_iff_leaves.mp hp
    obtain ⟨s₁, href, hleft, hcall, -, -⟩ := h.leaves hl
    obtain ⟨t, ht, hready⟩ := hcall c hi hop ⟨h0, hst⟩
    exact hnot c₁ s₁ hl href hleft.inv hflag t ht hready
  · intro c hi hop h0 hp
    obtain ⟨c₁, hl, hflag⟩ := Kernel.parks_iff_leaves.mp hp
    obtain ⟨s₁, href, hleft, -, hreply, -⟩ := h.leaves hl
    rw [h.refines.replyTo_eq, hcur] at h0
    obtain ⟨t, ht, hready⟩ := hreply c hi hop h0
    exact hnot c₁ s₁ hl href hleft.inv hflag t ht hready
  · intro hd h0 hp
    obtain ⟨c₁, hl, hflag⟩ := Kernel.parks_iff_leaves.mp hp
    obtain ⟨s₁, href, hleft, -, -, hend⟩ := h.leaves hl
    rw [h.refines.replyTo_eq, hcur] at h0
    obtain ⟨t, ht, hready⟩ := hend hd h0
    exact hnot c₁ s₁ hl href hleft.inv hflag t ht hready
  · rintro ⟨t, ht, hst⟩ hp
    obtain ⟨c₁, hl, hflag⟩ := Kernel.parks_iff_leaves.mp hp
    obtain ⟨s₁, href, hleft, -⟩ := h.leaves hl
    rw [h.refines.state_eq] at hst
    exact hnot c₁ s₁ hl href hleft.inv hflag t ht (hleft.ready t hst)

/-- The hypotheses hold at the handoff of the small image. -/
theorem parks_iff_smallMachine :
    ∃ k, boot smallImage smallMachine = some k ∧
      (k.Parks smallImage.pool (.sync Context.zeroed 0) ↔
        ∃ s₁, k.leaves? (.sync Context.zeroed 0) = some s₁ ∧
          ∀ t ∈ k.cnode.tcbs smallImage.rootTcb, (s₁.tcb t).state ≠ .ready) := by
  obtain ⟨k, hk⟩ := boot_smallMachine
  exact ⟨k, hk, (parks_iff hk .refl _).1⟩

end Reaches

end K0
