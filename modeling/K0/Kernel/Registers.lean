import K0.Kernel.Private
import K0.Kernel.Simulation

set_option relaxedAutoImplicit false
set_option autoImplicit false

/-!
# The registers of tasks

Which saved registers a step of the kernel writes. Of a started task only `x0` to `x5` are ever
written, apart from the return address at a skipped `WFI` or `WFE`; those of another task than the
running one only if it is the partner of an IPC call or the caller of a reply right that ends, and
its message registers become those of the running task if they change.

## Main definitions

* `K0.Context.Kept`: two contexts that differ in `x0` to `x5` only.
* `K0.Sys.Writes`: what the operations of the abstract system may do to saved registers.
* `K0.Kernel.Partner`, `K0.Kernel.Released`: the tasks whose registers a step may write.

## Main results

* `K0.Sys.Ok.writes_ipc`, `K0.Sys.Ok.writes_kill`: the registers that an operation writes.
* `K0.registers_of_reaches`: the frame of a step, and its independence of private registers.
-/

namespace K0

open Word Memory

/-! ### Contexts -/

namespace Context

/-- From `c` to `c'` at most `x0` to `x5` have changed. -/
structure Kept (c c' : Context) : Prop where
  x : ∀ i, 6 ≤ i → c'.x i = c.x i
  sp : c'.sp = c.sp
  elr : c'.elr = c.elr
  spsr : c'.spsr = c.spsr
  tpidr : c'.tpidr = c.tpidr
  tpidrro : c'.tpidrro = c.tpidrro

/-- The message registers of `c'` are those of `c`. -/
def Words (c c' : Context) : Prop := ∀ i, 2 ≤ i → i ≤ 5 → c'.x i = c.x i

/-- Nothing has changed. -/
lemma Kept.refl (c : Context) : c.Kept c := ⟨fun _ _ => rfl, rfl, rfl, rfl, rfl, rfl⟩

/-- One change after the other. -/
lemma Kept.trans {c c' c'' : Context} (h : c.Kept c') (h' : c'.Kept c'') : c.Kept c'' :=
  ⟨fun i hi => (h'.x i hi).trans (h.x i hi), h'.sp.trans h.sp, h'.elr.trans h.elr,
    h'.spsr.trans h.spsr, h'.tpidr.trans h.tpidr, h'.tpidrro.trans h.tpidrro⟩

/-- Writing `x0`. -/
lemma kept_setX (c : Context) (v : UInt64) : c.Kept (c.setX 0 v) := by
  refine ⟨fun i hi => Function.update_of_ne ?_ _ _, rfl, rfl, rfl, rfl, rfl⟩
  rintro rfl
  exact absurd hi (by decide)

/-- Writing `x0` is no change of the message. -/
lemma words_setX (c : Context) (v : UInt64) : c.Words (c.setX 0 v) := by
  intro i hi _
  refine Function.update_of_ne ?_ _ _
  rintro rfl
  exact absurd hi (by decide)

/-- Delivering a message. -/
lemma kept_deliver (src dst : Context) : dst.Kept (deliver src dst) := by
  refine ⟨fun i hi => ?_, rfl, rfl, rfl, rfl, rfl⟩
  have h1 : ¬ (i = 0 ∨ i = 1) := by
    rintro (rfl | rfl) <;> exact absurd hi (by decide)
  have h2 : ¬ (2 ≤ i ∧ i ≤ 5) := fun h => absurd (hi.trans h.2) (by decide)
  unfold deliver
  dsimp only
  rw [if_neg h1, if_neg h2]

/-- A delivered message is the one of the sender. -/
lemma words_deliver (src dst : Context) : src.Words (deliver src dst) := by
  intro i hi hi'
  have h1 : ¬ (i = 0 ∨ i = 1) := by
    rintro (rfl | rfl) <;> exact absurd hi (by decide)
  unfold deliver
  dsimp only
  rw [if_neg h1, if_pos ⟨hi, hi'⟩]

end Context

/-! ### The abstract operations -/

namespace Sys

/-- From `s` to `s'` at most `x0` to `x5` have been written; of the tasks besides the one that
runs in `s`, only those of `T`, and their messages are the old ones or that of the running task. -/
structure Writes (T : Set ℕ) (s s' : Sys) : Prop where
  kept : ∀ t, (s.ctx t).Kept (s'.ctx t)
  other : ∀ t, t ≠ s.current → t ∉ T → s'.ctx t = s.ctx t
  words : ∀ t, t ≠ s.current → (s.ctx t).Words (s'.ctx t) ∨ (s.ctx s.current).Words (s'.ctx t)

namespace Writes

variable {T : Set ℕ} {s s' s'' : Sys} {t e : ℕ}

/-- An operation that writes no registers. -/
lemma of_ctx_eq (h : s'.ctx = s.ctx) : Writes T s s' := by
  rw [show s' = { s' with ctx := s.ctx } by rw [← h]]
  exact ⟨fun t => .refl _, fun _ _ _ => rfl, fun _ _ => .inl fun _ _ _ => rfl⟩

/-- Only the registers matter. -/
lemma congr (h : Writes T s s') (he : s''.ctx = s'.ctx) : Writes T s s'' :=
  ⟨fun t => he ▸ h.kept t, fun t => he ▸ h.other t, fun t => he ▸ h.words t⟩

/-- Writing the registers of one task, in a way that is allowed for it. -/
lemma setCtx (h : Writes T s s') {c : Context} (hk : (s'.ctx t).Kept c)
    (hT : t = s.current ∨ t ∈ T)
    (hw : t ≠ s.current → (s'.ctx t).Words c ∨ (s.ctx s.current).Words c) :
    Writes T s (s'.setCtx t c) := by
  have hself : (s'.setCtx t c).ctx t = c := Function.update_self _ _ _
  have hold : ∀ u, u ≠ t → (s'.setCtx t c).ctx u = s'.ctx u :=
    fun u hu => Function.update_of_ne hu _ _
  refine ⟨fun u => ?_, fun u hu hn => ?_, fun u hu => ?_⟩
  · by_cases hut : u = t
    · rw [hut, hself]
      exact (h.kept t).trans hk
    · rw [hold u hut]
      exact h.kept u
  · have hut : u ≠ t := by
      rintro rfl
      exact hT.elim hu hn
    rw [hold u hut]
    exact h.other u hu hn
  · by_cases hut : u = t
    · subst hut
      rw [hself]
      rcases hw hu with hw | hw
      · refine (h.words u hu).imp ?_ ?_
        · exact fun h' i hi hi' => (hw i hi hi').trans (h' i hi hi')
        · exact fun h' i hi hi' => (hw i hi hi').trans (h' i hi hi')
      · exact .inr hw
    · rw [hold u hut]
      exact h.words u hu

/-- Writing `x0`. -/
lemma setX (h : Writes T s s') (hT : t = s.current ∨ t ∈ T) (v : UInt64) :
    Writes T s (s'.setX t 0 v) :=
  h.setCtx (Context.kept_setX _ _) hT fun _ => .inl (Context.words_setX _ _)

/-- Delivering a message to the running task. -/
lemma take (h : Writes T s s') (src : Context) :
    Writes T s (s'.setCtx s.current (deliver src (s'.ctx s.current))) :=
  h.setCtx (Context.kept_deliver _ _) (.inl rfl) fun hne => absurd rfl hne

/-- Delivering the message of the running task. -/
lemma give (h : Writes T s s') (hT : t ∈ T) :
    Writes T s (s'.setCtx t (deliver (s.ctx s.current) (s'.ctx t))) :=
  h.setCtx (Context.kept_deliver _ _) (.inr hT) fun _ => .inr (Context.words_deliver _ _)

/-- Revoking a reply right. -/
lemma abortReply (h : Writes T s s') {u : ℕ} (hT : s'.replyTo u ≠ 0 → s'.replyTo u ∈ T) :
    Writes T s (s'.abortReply u) := by
  unfold Sys.abortReply
  by_cases hc : s'.replyTo u = 0
  · simp only [hc, ↓reduceIte]
    exact h.congr rfl
  · simp only [hc, ↓reduceIte]
    have h1 : Writes T s (s'.setReplyTo u 0) := h.congr rfl
    exact (h1.setX (.inr (hT hc)) _).congr rfl

/-- Running the first ready task. -/
lemma blockAndSwitch (h : Writes T s s') : Writes T s s'.blockAndSwitch.1 := by
  unfold Sys.blockAndSwitch
  cases s'.ready with
  | nil => exact h
  | cons t l => exact h.congr rfl

end Writes

/-- The first task in the queue of `e`, if it waits no more in `s'`. -/
def popped (s s' : Sys) (e : ℕ) : Set ℕ :=
  {t | (s.queue e).head? = some t ∧ (s.state t).Queued ∧ ¬ (s'.state t).Queued}

/-- The callers whose reply rights are gone in `s'`. -/
def released (live : Set ℕ) (s s' : Sys) : Set ℕ :=
  {t | t ≠ 0 ∧ ∃ h ∈ live, s.replyTo h = t ∧ s'.replyTo h ≠ t}

section Ops

variable {live eps : Set ℕ} {s : Sys} {t e : ℕ}

/-- Preemption writes no registers. -/
lemma ctx_rotate (s : Sys) : s.rotate.ctx = s.ctx := by
  unfold rotate
  cases s.ready with
  | nil => rfl
  | cons t l => rfl

/-- The end of the running task writes at most the registers of its caller. -/
lemma Ok.writes_kill (h : s.Ok live eps) : Writes (released live s s.kill.1) s s.kill.1 := by
  have hreply : s.kill.1.replyTo s.current = 0 := by
    unfold Sys.kill
    rw [replyTo_blockAndSwitch]
    show (s.abortReply s.current).replyTo s.current = 0
    rw [(s.abortReply_frame s.current).2.2.1, Function.update_self]
  have h0 : Writes (released live s s.kill.1) s s := .of_ctx_eq rfl
  have h1 : Writes (released live s s.kill.1) s (s.abortReply s.current) := by
    refine h0.abortReply fun hc => ⟨hc, s.current, h.inv.placed.current_live, rfl, ?_⟩
    rw [hreply]
    exact hc.symm
  exact Writes.blockAndSwitch (h1.congr rfl)

/-- A call that cannot go on at once writes no registers but `x0` of the running task. -/
lemma writes_orBlock (T : Set ℕ) (s : Sys) (st : TaskState) (e : ℕ) (nonblock : Bool) :
    Writes T s (if nonblock then (s.ret (Abi.asU64 Abi.Err.wouldBlock), true)
      else s.blockOn st e).1 := by
  have h0 : Writes T s s := .of_ctx_eq rfl
  cases nonblock with
  | true => exact h0.setX (.inl rfl) _
  | false => exact Writes.blockAndSwitch (h0.congr rfl)

/-- A send writes the registers of the receiver. -/
lemma writes_send (s : Sys) (e : ℕ) (nonblock : Bool) :
    Writes (popped s (s.send e nonblock).1 e) s (s.send e nonblock).1 := by
  cases hr : s.receiver? e with
  | none =>
    rw [send_of_none hr]
    exact writes_orBlock _ s .blockedSend e nonblock
  | some t =>
    obtain ⟨⟨l, hl⟩, hst⟩ := receiver?_eq_some.mp hr
    rw [send_of_receiver hr]
    set s' := ((s.giveTo e t).enqueue t).ret 0
    have hpop : t ∈ popped s s' e := by
      refine ⟨by rw [hl]; rfl, .inr (.inl hst), ?_⟩
      have hready : s'.state t = .ready := Function.update_self _ _ _
      rw [hready]
      decide
    have h0 : Writes (popped s s' e) s (s.popQueue e) := .of_ctx_eq rfl
    have h1 : Writes (popped s s' e) s ((s.giveTo e t).enqueue t) := (h0.give hpop).congr rfl
    exact h1.setX (.inl rfl) 0

/-- A receive writes the registers of the sender, of the caller whose right is revoked, and of the
running task. -/
lemma Ok.writes_recv (h : s.Ok live eps) (e : ℕ) (nonblock : Bool) :
    Writes (popped s (s.recv e nonblock).1 e ∪ released live s (s.recv e nonblock).1) s
      (s.recv e nonblock).1 := by
  cases hr : s.sender? e with
  | none =>
    rw [recv_of_none hr]
    exact writes_orBlock _ s .blockedRecv e nonblock
  | some t =>
    obtain ⟨⟨l, hl⟩, hst⟩ := sender?_eq_some.mp hr
    have ht : t ∈ s.queue e := by rw [hl]; simp
    have hq := h.inv.placed.queue_state ht
    have hhead : (s.queue e).head? = some t := by
      rw [hl]
      rfl
    have hcur := h.inv.placed.current_live
    by_cases hc : s.state t = .blockedCall
    · rw [recv_of_caller hr hc]
      set s' := (((s.takeFrom e t).abortReply s.current).setState t .blockedReply).setReplyTo
        s.current t
      have hq0 : Writes (popped s s' e ∪ released live s s') s (s.popQueue e) := .of_ctx_eq rfl
      have h0 : Writes (popped s s' e ∪ released live s s') s (s.takeFrom e t) := hq0.take _
      have h1 := h0.abortReply (u := s.current) fun hne => by
        -- the right of the running task now leads to the new caller
        refine .inr ⟨hne, s.current, hcur, rfl, ?_⟩
        have hself : s'.replyTo s.current = t := Function.update_self _ _ _
        rw [hself]
        intro he
        have hnq := h.replyTo_not_queued hcur hne
        rw [show s.replyTo s.current = t from he.symm] at hnq
        exact hnq hq
      exact h1.congr rfl
    · rw [recv_of_sender hr hc]
      set s' := ((s.takeFrom e t).setX t 0 0).enqueue t
      have hpop : t ∈ popped s s' e := by
        refine ⟨hhead, hq, ?_⟩
        have hready : s'.state t = .ready := Function.update_self _ _ _
        rw [hready]
        decide
      have hq0 : Writes (popped s s' e ∪ released live s s') s (s.popQueue e) := .of_ctx_eq rfl
      have h0 : Writes (popped s s' e ∪ released live s s') s (s.takeFrom e t) := hq0.take _
      exact (h0.setX (.inr (.inl hpop)) 0).congr rfl

/-- A call writes the registers of the receiver and of the caller whose right it held. -/
lemma Ok.writes_call (h : s.Ok live eps) (e : ℕ) (nonblock : Bool) :
    Writes (popped s (s.call e nonblock).1 e ∪ released live s (s.call e nonblock).1) s
      (s.call e nonblock).1 := by
  cases hr : s.receiver? e with
  | none =>
    rw [call_of_none hr]
    exact writes_orBlock _ s .blockedCall e nonblock
  | some t =>
    obtain ⟨⟨l, hl⟩, hst⟩ := receiver?_eq_some.mp hr
    have ht : t ∈ s.queue e := by rw [hl]; simp
    have hlive := h.inv.placed.queue_live ht
    rw [call_of_receiver hr]
    show Writes (popped s (s.callTo e t).blockAndSwitch.1 e ∪
      released live s (s.callTo e t).blockAndSwitch.1) s (s.callTo e t).blockAndSwitch.1
    set s' := (s.callTo e t).blockAndSwitch.1
    have hpop : t ∈ popped s s' e := by
      refine ⟨by rw [hl]; rfl, .inr (.inl hst), ?_⟩
      have hready : (s.callTo e t).state t = .ready := Function.update_self _ _ _
      rcases (s.callTo e t).state_blockAndSwitch t with hs | hs
      · rw [hs, hready]
        decide
      · rw [hs]
        decide
    have hq0 : Writes (popped s s' e ∪ released live s s') s (s.popQueue e) := .of_ctx_eq rfl
    have h0 : Writes (popped s s' e ∪ released live s s') s (s.giveTo e t) :=
      hq0.give (.inl hpop)
    have h1 := h0.abortReply (u := t) fun hne => by
      -- the right of the receiver now leads to the running task
      refine .inr ⟨hne, t, hlive, rfl, ?_⟩
      have hself : s'.replyTo t = s.current := by
        show (s.callTo e t).blockAndSwitch.1.replyTo t = _
        rw [replyTo_blockAndSwitch]
        exact Function.update_self _ _ _
      rw [hself]
      exact (h.replyTo_ne_current hlive hne).symm
    exact Writes.blockAndSwitch (h1.congr rfl)

/-- One operation after the other, if the first one leaves the running task and its message. -/
lemma Writes.trans {T : Set ℕ} {s₁ s₂ : Sys} (h : Writes T s s₁) (h' : Writes T s₁ s₂)
    (hcur : s₁.current = s.current) (hctx : s₁.ctx s.current = s.ctx s.current) :
    Writes T s s₂ := by
  refine ⟨fun t => (h.kept t).trans (h'.kept t), fun t ht hn => ?_, fun t ht => ?_⟩
  · exact (h'.other t (hcur ▸ ht) hn).trans (h.other t ht hn)
  · rcases h'.words t (hcur ▸ ht) with hw | hw
    · refine (h.words t ht).imp ?_ ?_
      · exact fun h' i hi hi' => (hw i hi hi').trans (h' i hi hi')
      · exact fun h' i hi hi' => (hw i hi hi').trans (h' i hi hi')
    · rw [hcur, hctx] at hw
      exact .inr hw

/-- Fewer tasks are written. -/
lemma Writes.mono {T T' : Set ℕ} {s₁ : Sys} (h : Writes T s s₁) (hT : T ⊆ T') : Writes T' s s₁ :=
  ⟨h.kept, fun t ht hn => h.other t ht fun hm => hn (hT hm), h.words⟩

/-- An answer and a receive write the registers of the answered caller, besides those that the
receive writes. -/
lemma Ok.writes_replyRecv (h : s.Ok live eps) (e : ℕ) (nonblock : Bool) :
    Writes (popped s (s.replyRecv e nonblock).1 e ∪ released live s (s.replyRecv e nonblock).1) s
      (s.replyRecv e nonblock).1 := by
  have hrecv := h.reply.writes_recv e nonblock
  have hlive := h.inv.placed.current_live
  by_cases hc : s.replyTo s.current = 0
  · have hsame : s.reply = s := by
      unfold Sys.reply
      simp only [hc, ↓reduceIte]
    unfold Sys.replyRecv
    rw [hsame] at hrecv ⊢
    exact hrecv
  · have hans : s.reply = ((s.setReplyTo s.current 0).setCtx (s.replyTo s.current)
        (deliver (s.ctx s.current) (s.ctx (s.replyTo s.current)))).enqueue
          (s.replyTo s.current) := by
      unfold Sys.reply
      simp only [hc, ↓reduceIte]
      rfl
    have hne := h.replyTo_ne_current hlive hc
    have hst : ∀ u, u ≠ s.replyTo s.current → s.reply.state u = s.state u := by
      intro u hu
      rw [hans]
      exact Function.update_of_ne hu _ _
    have hready : s.reply.state (s.replyTo s.current) = .ready := by
      rw [hans]
      exact Function.update_self _ _ _
    have hself : s.reply.replyTo s.current = 0 := by
      rw [hans]
      exact Function.update_self _ _ _
    have hqueue : s.reply.queue = s.queue := by rw [hans]; rfl
    have hcur : s.reply.current = s.current := by rw [hans]; rfl
    show Writes (popped s (s.reply.recv e nonblock).1 e ∪
      released live s (s.reply.recv e nonblock).1) s (s.reply.recv e nonblock).1
    set s' := (s.reply.recv e nonblock).1 with hs'
    -- the right of the running task is used: a new one leads to a task that was queued
    have hused : s.replyTo s.current ∈ released live s s' := by
      refine ⟨hc, s.current, hlive, rfl, fun he => ?_⟩
      rcases s.reply.replyTo_recv e nonblock s.current with hr | ⟨-, hr⟩
      · rw [← hs', hself, he] at hr
        exact hc hr
      · rw [← hs', he] at hr
        obtain ⟨⟨l, hl⟩, -⟩ := sender?_eq_some.mp hr
        have hq := h.reply.inv.placed.queue_state (t := s.replyTo s.current) (e := e)
          (by rw [hl]; simp)
        rw [hready] at hq
        exact absurd hq (by decide)
    have hfirst : Writes (popped s s' e ∪ released live s s') s s.reply := by
      rw [hans]
      have h0 : Writes (popped s s' e ∪ released live s s') s (s.setReplyTo s.current 0) :=
        .of_ctx_eq rfl
      exact (h0.give (.inr hused)).congr rfl
    refine hfirst.trans (hrecv.mono ?_) hcur ?_
    · rintro t (⟨h1, h2, h3⟩ | ⟨h0, u, hu, h1, h2⟩)
      · refine .inl ⟨hqueue ▸ h1, ?_, h3⟩
        by_cases ht : t = s.replyTo s.current
        · rw [ht, hready] at h2
          exact absurd h2 (by decide)
        · rwa [hst t ht] at h2
      · refine .inr ⟨h0, u, hu, ?_, h2⟩
        have hne' : u ≠ s.current := by
          rintro rfl
          exact h0 (h1.symm.trans hself)
        rw [← h1, hans]
        exact (Function.update_of_ne hne' _ _).symm
    · rw [hans]
      exact Function.update_of_ne hne.symm _ _

/-- An IPC call writes registers of the running task, of the task that it takes off the queue and
of the callers whose reply rights end. -/
theorem Ok.writes_ipc (h : s.Ok live eps) (op : IpcOp) (e : ℕ) (nonblock : Bool) :
    Writes (popped s (s.ipc op e nonblock).1 e ∪ released live s (s.ipc op e nonblock).1) s
      (s.ipc op e nonblock).1 := by
  cases op with
  | send => exact (s.writes_send e nonblock).mono Set.subset_union_left
  | recv => exact h.writes_recv e nonblock
  | call => exact h.writes_call e nonblock
  | replyRecv => exact h.writes_replyRecv e nonblock

end Ops

end Sys

/-! ### Kernel states -/

namespace Kernel

/-- The task `t` is the first one in the queue of the endpoint that the event calls, and it waits
there no longer in `k'`. -/
def Partner (k k' : Kernel) (ev : Event) (t : ℕ) : Prop :=
  ∃ c, ev.ipc? k.cnode = some c ∧ (k.tasks.ep c.ep).head = t ∧
    (k.tasks.tcb t).state.Queued ∧ ¬ (k'.tasks.tcb t).state.Queued

/-- The reply right to answer `t` has been used or revoked in `k'`. -/
def Released (rootTcb : ℕ) (k k' : Kernel) (t : ℕ) : Prop :=
  ∃ h ∈ k.cnode.tcbs rootTcb, (k.tasks.tcb h).replyTo = t ∧ (k'.tasks.tcb h).replyTo ≠ t

end Kernel

/-- The event skips a `WFI` or `WFE`. -/
def Event.skips : Event → Prop
  | .sync _ esr => Kernel.exceptionClass esr = 0x01
  | _ => False

namespace Kernel

/-- What an event may do to the saved registers of the task `t`, compared with those that it has
when the kernel is entered. -/
structure Frame (rootTcb : ℕ) (k : Kernel) (ev : Event) (k' : Kernel) (t : ℕ) : Prop where
  x : ∀ i, 6 ≤ i → (k'.tasks.tcb t).ctx.x i = ((k.entered ev).tasks.tcb t).ctx.x i
  sp : (k'.tasks.tcb t).ctx.sp = ((k.entered ev).tasks.tcb t).ctx.sp
  spsr : (k'.tasks.tcb t).ctx.spsr = ((k.entered ev).tasks.tcb t).ctx.spsr
  tpidr : (k'.tasks.tcb t).ctx.tpidr = ((k.entered ev).tasks.tcb t).ctx.tpidr
  tpidrro : (k'.tasks.tcb t).ctx.tpidrro = ((k.entered ev).tasks.tcb t).ctx.tpidrro
  elr : (k'.tasks.tcb t).ctx.elr = ((k.entered ev).tasks.tcb t).ctx.elr ∨
    ev.skips ∧ t = k.tasks.sched.current
  other : t ≠ k.tasks.sched.current → ¬ k.Partner k' ev t → ¬ Released rootTcb k k' t →
    (k'.tasks.tcb t).ctx = ((k.entered ev).tasks.tcb t).ctx
  words : t ≠ k.tasks.sched.current →
    (∀ i, 2 ≤ i → i ≤ 5 →
      (k'.tasks.tcb t).ctx.x i = ((k.entered ev).tasks.tcb t).ctx.x i) ∨
    ∀ i, 2 ≤ i → i ≤ 5 →
      (k'.tasks.tcb t).ctx.x i = ((k.entered ev).tasks.tcb k.tasks.sched.current).ctx.x i

variable {P : Platform} {I : Image P} {memory reserved : List PhysRegion} {root : ℕ}
  {k k' : Kernel} {s : Sys} {ev : Event} {t : ℕ}

/-- An event that writes registers of the running task only. -/
lemma Frame.of_kept {rootTcb : ℕ}
    (hk : ((k.entered ev).tasks.tcb t).ctx.Kept (k'.tasks.tcb t).ctx)
    (ho : t ≠ k.tasks.sched.current →
      (k'.tasks.tcb t).ctx = ((k.entered ev).tasks.tcb t).ctx) : Frame rootTcb k ev k' t :=
  ⟨hk.x, hk.sp, hk.spsr, hk.tpidr, hk.tpidrro, .inl hk.elr, fun ht _ _ => ho ht,
    fun ht => .inl fun i _ _ => by rw [ho ht]⟩

/-- An event that the abstract system performs with the registers of the running task saved. -/
lemma Sim.frame_of_writes {live eps T : Set ℕ} {s' : Sys} {regs : Context}
    (h : k.Sim I memory reserved root s) (hent : k.entered ev = k.save regs)
    (href : Refines live eps k'.tasks s') (hw : Sys.Writes T (s.save regs) s')
    (hT : ∀ t ∈ T, k.Partner k' ev t ∨ Released I.rootTcb k k' t) (t : ℕ) :
    Frame I.rootTcb k ev k' t := by
  have hold : ∀ u, ((k.entered ev).tasks.tcb u).ctx = (s.save regs).ctx u := by
    intro u
    rw [hent]
    exact (h.refines_save regs).ctx_eq u
  have hnew : (k'.tasks.tcb t).ctx = s'.ctx t := href.ctx_eq t
  have hcur : k.tasks.sched.current = (s.save regs).current := h.refines.current
  have hkept := hw.kept t
  rw [← hold, ← hnew] at hkept
  refine ⟨hkept.x, hkept.sp, hkept.spsr, hkept.tpidr, hkept.tpidrro, .inl hkept.elr, ?_, ?_⟩
  · intro ht hp hr
    rw [hold, hnew]
    exact hw.other t (hcur ▸ ht) fun hm => (hT t hm).elim hp hr
  · intro ht
    have hwords := hw.words t (hcur ▸ ht)
    rw [hold, hnew, hold, hcur]
    exact hwords

/-- Making a task ready writes no registers. -/
lemma ctx_enqueue (c : Tasks) (u t : ℕ) : ((c.enqueue u).tcb t).ctx = (c.tcb t).ctx := by
  unfold Tasks.enqueue
  rw [Tasks.push_eq]
  exact congrFun (Tasks.field_modTcb_of_eq c u _ Tcb.ctx rfl) t

/-- A handler writes no registers of started tasks. -/
lemma Sim.ctx_of_handled {k₁ : Kernel} {regs : Context} {v : ℤ}
    (h : k.Sim I memory reserved root s) (hh : Handled I.pool (k.save regs) v k₁)
    (ht : t ∈ k.cnode.tcbs I.rootTcb) (hst : (k.tasks.tcb t).state ≠ .inactive) :
    (k₁.tasks.tcb t).ctx = ((k.save regs).tasks.tcb t).ctx := by
  have hstate : ((k.save regs).tasks.tcb t).state = (k.tasks.tcb t).state :=
    congrFun (Tasks.field_modTcb_of_eq k.tasks (f := .ctx) k.tasks.currentContext
      (fun v => { v with ctx := regs }) Tcb.state rfl) t
  cases hh with
  | fail _ hv => rfl
  | print out => rfl
  | mapFrame i j r base va perm m hs hc hp hm => rfl
  | mapTable i j r base va level m hs hc hm => rfl
  | unprepared slot base size used e pool hcap hroom hleft hmap => rfl
  | resume j base u hc hu hsu => exact ctx_enqueue _ u t
  | configure i j base r u ctx hs hc hu hsu =>
    have hne : t ≠ u := by
      rintro rfl
      exact hst (hstate ▸ hsu)
    have hmod : ∀ (c : Tasks) f g, ((c.modTcb f u g).tcb t) = c.tcb t :=
      fun c f g => Function.update_of_ne hne _ _
    dsimp only
    unfold Tasks.setState Tasks.setCtx
    rw [hmod, hmod, hmod]
  | carve slot base size used kind pool d hcap hroom hleft hmap hlt hd =>
    have hout := h.accounts.tcb_apart hcap hleft ht
    exact congrArg Tcb.ctx (if_neg hout)

/-- Saving other registers of the running task. -/
lemma ctx_save_of_ne (k : Kernel) (regs : Context) (ht : t ≠ k.tasks.currentContext) :
    ((k.save regs).tasks.tcb t).ctx = (k.tasks.tcb t).ctx :=
  congrArg Tcb.ctx (Function.update_of_ne ht _ _)

/-- The registers that an event writes. -/
theorem Sim.frame (h : k.Sim I memory reserved root s) (hs : k.step I.pool ev = some k')
    (ht : t ∈ k.cnode.tcbs I.rootTcb) (hst : (k.tasks.tcb t).state ≠ .inactive) :
    Frame I.rootTcb k ev k' t := by
  have hcc : k.tasks.currentContext = k.tasks.sched.current :=
    h.refines.context.trans h.refines.current.symm
  have hrel : ∀ {regs : Context} {live eps : Set ℕ} {s' : Sys}, Refines live eps k'.tasks s' →
      ∀ u ∈ Sys.released (k.cnode.tcbs I.rootTcb) (s.save regs) s', Released I.rootTcb k k' u := by
    rintro regs live eps s' href u ⟨-, v, hv, h1, h2⟩
    refine ⟨v, hv, ?_, ?_⟩
    · rw [h.refines.replyTo_eq]
      exact h1
    · rw [href.replyTo_eq]
      exact h2
  cases step_next h.accounts.ledger.valid hs with
  | store va b =>
    obtain ⟨m, hm⟩ := k.userStore_eq (P := P) va b
    rw [hm]
    exact .of_kept (.refl _) fun _ => rfl
  | spurious regs => exact .of_kept (.refl _) fun _ => rfl
  | tick regs =>
    have href := (h.refines_save regs).rotate (h.sysOk.save regs)
    refine h.frame_of_writes (T := ∅) rfl href (.of_ctx_eq (Sys.ctx_rotate _)) ?_ t
    exact fun u hu => absurd hu (Set.notMem_empty u)
  | yield regs esr hec hx =>
    rw [k.save_ret]
    have href := (h.refines_save (regs.setX 0 (Abi.asU64 0))).rotate
      (h.sysOk.save (regs.setX 0 (Abi.asU64 0)))
    refine h.frame_of_writes (T := ∅) rfl href ?_ ?_ t
    · have h0 : Sys.Writes ∅ (s.save regs) (s.save regs) := .of_ctx_eq rfl
      refine (h0.setX (t := s.current) (.inl rfl) 0).congr ?_
      rw [Sys.ctx_rotate]
      have hctx : (s.save regs).ctx s.current = regs := Function.update_self _ _ _
      unfold Sys.setX
      rw [hctx]
      exact (Function.update_idem _ _ _).symm
    · exact fun u hu => absurd hu (Set.notMem_empty u)
  | skip regs esr elr hec helr =>
    rw [k.save_save]
    by_cases hcur : t = k.tasks.currentContext
    · have hold : ((k.entered (.sync regs esr)).tasks.tcb t).ctx = regs := by
        rw [hcur]
        exact k.ctx_save regs
      have hnew := k.ctx_save { regs with elr := UInt64.ofNat elr }
      rw [← hcur] at hnew
      have hcur' : t = k.tasks.sched.current := hcur.trans hcc
      refine ⟨?_, ?_, ?_, ?_, ?_, .inr ⟨hec, hcur'⟩, fun hne => absurd hcur' hne,
        fun hne => absurd hcur' hne⟩
      · intro i _
        rw [hold, hnew]
      all_goals rw [hold, hnew]
    · have hctx : ((k.save { regs with elr := UInt64.ofNat elr }).tasks.tcb t).ctx =
          ((k.entered (.sync regs esr)).tasks.tcb t).ctx :=
        (k.ctx_save_of_ne _ hcur).trans (k.ctx_save_of_ne regs hcur).symm
      refine .of_kept ?_ fun _ => hctx
      rw [hctx]
      exact .refl _
  | die regs esr k' hd hk =>
    obtain ⟨-, hsim⟩ := h.of_kill regs hk
    exact h.frame_of_writes rfl hsim.refines (h.sysOk.save regs).writes_kill
      (fun u hu => .inr (hrel hsim.refines u hu)) t
  | ret regs esr v k₁ hec hx hi hh =>
    have hctx := h.ctx_of_handled hh ht hst
    have hold : ∀ u, ((k.entered (.sync regs esr)).tasks.tcb u).ctx =
        ((k.save regs).tasks.tcb u).ctx := fun _ => rfl
    by_cases hcur : t = k.tasks.currentContext
    · have hnew : ((k₁.ret k.tasks.currentContext v).tasks.tcb t).ctx =
          (k₁.tasks.tcb t).ctx.setX 0 (Abi.asU64 v) := by
        rw [hcur]
        unfold ret Tasks.setX Tasks.setCtx Tasks.modTcb
        dsimp only
        rw [Function.update_self]
      refine .of_kept ?_ fun hne => absurd (hcur.trans hcc) hne
      rw [hnew, hctx, hold]
      exact Context.kept_setX _ _
    · have hnew : ((k₁.ret k.tasks.currentContext v).tasks.tcb t).ctx = (k₁.tasks.tcb t).ctx :=
        congrArg Tcb.ctx (Function.update_of_ne hcur _ _)
      have hsame := hnew.trans hctx
      refine .of_kept ?_ fun _ => hsame
      rw [hsame, hold]
      exact .refl _
  | ipc esr c tasks hi hc =>
    obtain ⟨-, -, hep, -⟩ := ipc?_eq_some hi
    have he := mem_endpoints_of_epOf hep
    obtain ⟨-, hsim⟩ := h.of_ipc c he hc
    refine h.frame_of_writes rfl hsim.refines
      ((h.sysOk.save c.regs).writes_ipc c.op c.ep c.nonblock) ?_ t
    rintro u (⟨h1, h2, h3⟩ | hu)
    · refine .inl ⟨c, hi, ?_, ?_, ?_⟩
      · rw [h.refines.ep_head he, List.headD_eq_head?_getD]
        exact congrArg (Option.getD · 0) h1
      · rw [h.refines.state_eq]
        exact h2
      · rw [hsim.refines.state_eq]
        exact h3
    · exact .inr (hrel hsim.refines u hu)

end Kernel

section Reaches

variable {P : Platform} {I : Image P} {i : Machine} {k₀ k : Kernel}

/-- In every state `k` that a run from the handoff reaches, and for every event. First: of every
control block that is not inactive the event leaves `x6` to `x30`, the stack pointer, the processor
state and the thread registers, and the return address unless it skips a `WFI` or `WFE` of the
running task; of a task other than the running one it leaves all registers unless the task is the
partner that is taken from the queue of the endpoint which the running task names, or the caller
whose reply right is used or revoked; and its message registers stay or become those of the running
task. Second: the event does not depend on private registers. From a state that differs from `k` in
these only, the same event, with registers of the running task that differ in these only, leads to
a state that differs in these only; and it has a next state there exactly if it has one from `k`,
unless one of the two events skips a `WFI` or `WFE` at the very end of the address space, which
panics, and the other does not. -/
theorem registers_of_reaches (hboot : boot I i = some k₀) (hr : k₀.Reaches I.pool k) :
    (∀ ev k', k.step I.pool ev = some k' → ∀ t ∈ k.cnode.tcbs I.rootTcb,
      (k.tasks.tcb t).state ≠ .inactive → Kernel.Frame I.rootTcb k ev k' t) ∧
    ∀ (k₂ : Kernel) (ev ev₂ : Event), k.pub = k₂.pub → ev.pub = ev₂.pub →
      (∀ k' k₂', k.step I.pool ev = some k' → k₂.step I.pool ev₂ = some k₂' →
        k'.pub = k₂'.pub) ∧
      ((ev.wraps ↔ ev₂.wraps) →
        (k.step I.pool ev).map Kernel.pub = (k₂.step I.pool ev₂).map Kernel.pub) := by
  constructor
  · intro ev k' hs t ht hst
    obtain ⟨b, s, h⟩ := Kernel.sim_of_reaches hboot hr
    exact h.frame hs ht hst
  · intro k₂ ev ev₂ hk hev
    refine ⟨fun k' k₂' hs hs₂ => ?_, Kernel.step_alike hk hev⟩
    -- an event with a next state does not skip past the end of the address space
    have hw : ∀ {k k' : Kernel} {ev : Event}, k.step I.pool ev = some k' → ¬ ev.wraps := by
      intro k k' ev hs hw
      rw [k.step_of_wraps hw] at hs
      cases hs
    have hmap := Kernel.step_alike (B := I.pool) hk hev (iff_of_false (hw hs) (hw hs₂))
    rw [hs, hs₂] at hmap
    exact Option.some.inj hmap

/-- On the small machine the second task receives the call of the root task, whose registers from
`x6` on stay. If `x9` of the root task had another value, and `x9` of the second task at the trap
too, then the receive would leave the same public registers. -/
theorem registers_of_reaches_smallMachine :
    ∃ k₀ k k' : Kernel, boot smallImage smallMachine = some k₀ ∧ k₀.Reaches smallImage.pool k ∧
      k.step smallImage.pool (Kernel.syscall Abi.Syscall.recv [8]) = some k' ∧
      Kernel.Frame smallImage.rootTcb k (Kernel.syscall Abi.Syscall.recv [8]) k'
        smallImage.rootTcb ∧
      ∀ v w : UInt64, ∃ k₂', { k with tasks := k.tasks.setX smallImage.rootTcb 9 v }.step
          smallImage.pool (.sync ((Kernel.callRegs Abi.Syscall.recv [8]).setX 9 w) 0x54000000) =
            some k₂' ∧ k'.pub = k₂'.pub := by
  obtain ⟨k₀, _, k, k', h⟩ := Kernel.exists_callFirst
  obtain ⟨hframe, halike⟩ := registers_of_reaches h.boot h.reaches₅
  refine ⟨k₀, k, k', h.boot, h.reaches₅, h.recv, hframe _ k' h.recv _ (.inl rfl) ?_, fun v w => ?_⟩
  · rw [h.calling]
    decide
  · have hprivate : ¬ ((9 : Fin 31) ≤ 5 ∨ (9 : Fin 31) = 8) := by decide
    have hk : k.pub = Kernel.pub { k with tasks := k.tasks.setX smallImage.rootTcb 9 v } :=
      congrArg (fun s => { k with tasks := s })
        (k.tasks.pub_setX smallImage.rootTcb hprivate v).symm
    have hev : (Kernel.syscall Abi.Syscall.recv [8]).pub =
        (Event.sync ((Kernel.callRegs Abi.Syscall.recv [8]).setX 9 w) 0x54000000).pub :=
      congrArg (Event.sync · 0x54000000) (Context.pub_setX _ hprivate w).symm
    have hec : ¬ Kernel.exceptionClass 0x54000000 = 0x01 := by decide
    have hmap := (halike _ _ _ hk hev).2 (iff_of_false (fun h => hec h.1) fun h => hec h.1)
    rw [h.recv] at hmap
    obtain ⟨k₂', hs, hpub⟩ := Option.map_eq_some_iff.mp hmap.symm
    exact ⟨k₂', hs, hpub.symm⟩

end Reaches

end K0
