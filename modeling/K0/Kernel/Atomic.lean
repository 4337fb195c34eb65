import K0.Kernel.Park
import K0.Kernel.Registers
import K0.Kernel.Tables

set_option relaxedAutoImplicit false
set_option autoImplicit false

/-!
# Failed system calls

A system call that fails in its own trap leaves the kernel as it was, up to the caller's `x0`. For
most handlers the checks come before the first write. `RETYPE` is the exception: it may have linked
tables for the alias of the new granule when the pool runs out, and takes them back. `REPLY_RECV`
answers before it receives, so an answer stands when the receive would block.

## Main results

* `K0.Refines.ipc_failed`: an IPC call that returns an error to the running task.
* `K0.failed_call_atomic`: every system call that fails.
-/

namespace K0

open Set Word

/-! ### Leaving and staying -/

section Ipc

variable {live eps : Set ℕ} {s s₁ : Sys} {c c₁ t : Tasks} {e : ℕ}

/-- After the running task has left, another task runs. -/
lemma Sys.Leaving.current_ne (h : Sys.Leaving live eps s s₁) (htrue : s₁.blockAndSwitch.2 = true) :
    s₁.blockAndSwitch.1.current ≠ s.current := by
  have hl := h.left
  have hready := h.inv.placed.ready_state (t := s.current)
  unfold Sys.blockAndSwitch at htrue ⊢
  cases hr : s₁.ready with
  | nil =>
    rw [hr] at htrue
    cases htrue
  | cons u l =>
    intro he
    have hu : u = s.current := he
    have hst : s₁.state s.current = .ready := hready (by rw [hr, ← hu]; exact List.mem_cons_self)
    rw [hst] at hl
    exact absurd hl (by decide)

/-- A context into which a message was delivered reports success. -/
lemma deliver_x0 (src dst : Context) : (deliver src dst).x 0 = 0 := rfl

/-- A receive that finds a sender returns zero.

The running task gets its registers when the message is taken. What follows writes the registers of
the sender or of a caller that waits for an answer, which are other tasks. -/
lemma Sys.Ok.recv_x0 (h : s.Ok live eps) {u : ℕ} (hs : s.sender? e = some u) (nonblock : Bool) :
    ((s.recv e nonblock).1.ctx s.current).x 0 = 0 := by
  obtain ⟨⟨l, hl⟩, -⟩ := Sys.sender?_eq_some.mp hs
  have hu : u ∈ s.queue e := by rw [hl]; simp
  have hne : s.current ≠ u := (ne_of_mem_of_not_mem hu (h.current_not_mem.2 e)).symm
  have htake : (s.takeFrom e u).ctx s.current = deliver (s.ctx u) (s.ctx s.current) :=
    Function.update_self _ _ _
  by_cases hcall : s.state u = .blockedCall
  · rw [Sys.recv_of_caller hs hcall]
    show (((s.takeFrom e u).abortReply s.current).ctx s.current).x 0 = 0
    unfold Sys.abortReply
    by_cases h0 : s.replyTo s.current = 0
    · have h0' : (s.takeFrom e u).replyTo s.current = 0 := h0
      simp only [h0', ↓reduceIte]
      exact (congrArg (fun c : Context => c.x 0) htake).trans (deliver_x0 _ _)
    · have h0' : (s.takeFrom e u).replyTo s.current ≠ 0 := h0
      simp only [h0', ↓reduceIte]
      have hcaller := (h.replyTo_ne_current h.inv.placed.current_live h0).symm
      refine (congrArg (fun c : Context => c.x 0)
        ((Function.update_of_ne hcaller _ _).trans htake)).trans (deliver_x0 _ _)
  · rw [Sys.recv_of_sender hs hcall]
    exact (congrArg (fun c : Context => c.x 0)
      ((Function.update_of_ne hne _ _).trans htake)).trans (deliver_x0 _ _)

/-- A send that finds a receiver returns zero. -/
lemma Sys.send_x0 {u : ℕ} (hr : s.receiver? e = some u) (nonblock : Bool) :
    ((s.send e nonblock).1.ctx s.current).x 0 = 0 := by
  rw [Sys.send_of_receiver hr]
  have hctx : (((s.giveTo e u).enqueue u).ret 0).ctx s.current =
      (((s.giveTo e u).enqueue u).ctx s.current).setX 0 0 := Function.update_self _ _ _
  rw [hctx]
  exact Context.x_setX_self _ _ _

/-- A receive that does not block and returns something other than zero was asked not to block,
and has written nothing else. -/
lemma Refines.recv_failed (h : Refines live eps c s) (hok : s.Ok live eps) (he : e ∈ eps)
    {nonblock : Bool} (hstay : recvLeaves? c e nonblock = none)
    (hx : ((s.recv e nonblock).1.ctx s.current).x 0 ≠ 0) :
    K0.recvInner c e nonblock =
      (c.setX c.currentContext 0 (Abi.asU64 Abi.Err.wouldBlock), true) := by
  have hhead : ¬ ((c.ep e).head ≠ 0 ∧ (c.tcb (c.ep e).head).state ≠ .blockedRecv) := by
    intro hh
    obtain ⟨u, hu⟩ := (h.head_sender hok.inv.placed he).mp hh
    exact hx (hok.recv_x0 hu nonblock)
  unfold recvLeaves? at hstay
  rw [if_neg hhead] at hstay
  unfold K0.recvInner
  dsimp only
  rw [if_neg hhead]
  cases nonblock with
  | true => rfl
  | false => cases hstay

/-- A call of the running task that returns to it, with a value other than zero: it was asked not
to block and would have. Apart from that value only an answer has been written. -/
lemma Refines.ipc_failed (h : Refines live eps c s) (hok : s.Ok live eps) (he : e ∈ eps)
    {op : IpcOp} {nonblock : Bool} (ht : K0.ipcOn op c e nonblock = (t, true))
    (hcur : t.sched.current = c.sched.current) (hx : (t.tcb c.currentContext).ctx.x 0 ≠ 0) :
    t = c.setX c.currentContext 0 (Abi.asU64 Abi.Err.wouldBlock) ∨
      (op = .replyRecv ∧
        t = c.answer.setX c.currentContext 0 (Abi.asU64 Abi.Err.wouldBlock)) := by
  obtain ⟨hflag, href⟩ := h.ipcOn hok he op nonblock
  rw [ht] at hflag href
  have hx' : ((s.ipc op e nonblock).1.ctx s.current).x 0 ≠ 0 := by
    rw [← href.ctx, ← h.context]
    exact hx
  rcases ipcOn_eq op c e nonblock with ⟨c₁, hleaves, heq⟩ | ⟨hstay, -⟩
  · -- the running task has left, so another one runs
    obtain ⟨s₁, h1, hl, -⟩ := h.ipcLeaves hok he hleaves
    obtain ⟨h2, h3⟩ := h1.blockAndSwitch fun u hu h0 =>
      hl.inv.placed.zero (h0 ▸ hl.inv.placed.ready_live hu)
    rw [← heq, ht] at h2 h3
    refine absurd ?_ (hl.current_ne h2.symm)
    rw [← h3.current, hcur, h.current]
  · have htest := h.head_receiver hok.inv.placed he
    cases op with
    | send =>
      left
      have hhead : ¬ ((c.ep e).head ≠ 0 ∧ (c.tcb (c.ep e).head).state = .blockedRecv) := by
        intro hh
        obtain ⟨u, hu⟩ := htest.mp hh
        exact hx' (Sys.send_x0 hu nonblock)
      change K0.sendOn c e nonblock = (t, true) at ht
      unfold ipcLeaves? at hstay
      unfold K0.sendOn at ht
      dsimp only at hstay ht
      rw [if_neg hhead] at hstay ht
      cases nonblock with
      | true => exact (Prod.mk.inj ht).1.symm
      | false => cases hstay
    | recv =>
      left
      have hrecv := h.recv_failed hok he hstay hx'
      exact (Prod.mk.inj (ht.symm.trans hrecv)).1
    | call =>
      left
      change K0.callOn c e nonblock = (t, true) at ht
      unfold ipcLeaves? at hstay
      unfold K0.callOn at ht
      dsimp only at hstay ht
      split_ifs at hstay with hhead hflag'
      rw [if_neg hhead, if_pos hflag'] at ht
      exact (Prod.mk.inj ht).1.symm
    | replyRecv =>
      right
      refine ⟨rfl, ?_⟩
      have hx'' : ((s.reply.recv e nonblock).1.ctx s.reply.current).x 0 ≠ 0 := by
        rw [s.reply_current]
        exact hx'
      have hrecv := (h.answer hok).recv_failed hok.reply he hstay hx''
      have hctx : c.answer.currentContext = c.currentContext := by
        rw [(h.answer hok).context, s.reply_current, h.context]
      rw [hctx] at hrecv
      exact (Prod.mk.inj (ht.symm.trans hrecv)).1

/-- The answer of a task that holds a reply right. -/
lemma Refines.answer_eq (h : Refines live eps c s)
    (h0 : s.replyTo s.current ≠ 0) :
    c.answer = ((c.setReplyTo s.current 0).setCtx (s.replyTo s.current)
      (deliver (s.ctx s.current) (s.ctx (s.replyTo s.current)))).enqueue (s.replyTo s.current) := by
  have hctx : ∀ u, ((c.setReplyTo s.current 0).tcb u).ctx = s.ctx u := fun u =>
    congrFun (h.setReplyTo s.current 0).ctx u
  have hcaller : (c.tcb s.current).replyTo = s.replyTo s.current := congrFun h.replyTo s.current
  unfold Tasks.answer
  dsimp only
  rw [h.current, h.context, hcaller, if_pos h0, hctx, hctx]

/-- A task without a reply right answers nobody. -/
lemma Refines.answer_of_zero (h : Refines live eps c s) (h0 : s.replyTo s.current = 0) :
    c.answer = c := by
  have hcaller : (c.tcb s.current).replyTo = s.replyTo s.current := congrFun h.replyTo s.current
  unfold Tasks.answer
  dsimp only
  rw [h.current, hcaller, if_neg (not_not.mpr h0)]

end Ipc

/-! ### Failed calls -/

namespace Kernel

variable {P : Platform} {I : Image P} {i : Machine} {b : Stages I i} {k k' : Kernel}

/-- The error codes are numbers of the register width, and none is zero or a slot number. -/
lemma ownErrors_bounds {v : ℤ} (hv : v ∈ ownErrors) : -2 ^ 63 ≤ v ∧ v < 0 := by
  have hall : ∀ u ∈ ownErrors, -2 ^ 63 ≤ u ∧ u < 0 := by decide
  exact hall v hv

/-- A register that holds an error code holds no other one and no slot number. -/
lemma eq_of_asU64_error {v w : ℤ} (hv : v ∈ ownErrors) (hw : -2 ^ 63 ≤ w ∧ w < 2 ^ 63)
    (h : Abi.asU64 w = Abi.asU64 v) : w = v := by
  obtain ⟨h1, h2⟩ := ownErrors_bounds hv
  exact Abi.asU64_inj hw ⟨h1, by omega⟩ h

/-- A handler that returns an error has changed nothing. -/
lemma Mapped.handled_failed {hi : ℕ → Option Perm} {v w : ℤ} (h : Mapped b k hi)
    (hh : Handled I.pool k w k') (hv : v ∈ ownErrors) (hx : Abi.asU64 w = Abi.asU64 v) :
    k' = k ∧ w = v := by
  have hzero : Abi.asU64 0 ≠ Abi.asU64 v := fun h0 =>
    asU64_ne_zero hv (h0.symm.trans (by decide))
  cases hh with
  | fail _ hw =>
    obtain ⟨h1, h2⟩ := ownErrors_bounds hw
    exact ⟨rfl, eq_of_asU64_error hv ⟨h1, by omega⟩ hx⟩
  | print out => exact absurd hx hzero
  | configure i j base root t ctx hs hc ht hst => exact absurd hx hzero
  | resume j base t hc ht hst => exact absurd hx hzero
  | mapFrame i j root base va perm m hs hc hp hm => exact absurd hx hzero
  | mapTable i j root base va level m hs hc hm => exact absurd hx hzero
  | unprepared slot base size used e pool hcap hroom hleft hmap =>
    -- the tables that were linked before the pool ran out are taken back
    have hpool := (h.linear.mapKernelWindow_error h.root1 h.enabled (dvd_roundUp _ _) hmap).1
    subst hpool
    exact ⟨rfl, eq_of_asU64_error hv (by decide) hx⟩
  | carve slot base size used kind pool d hcap hroom hleft hmap hlt hd =>
    have hslots : cnodeSlots = 32 := rfl
    have hw := eq_of_asU64_error hv ⟨by omega, by omega⟩ hx
    have := ownErrors_bounds hv
    omega

end Kernel

/-- **Failed calls are atomic.** In every state that a run from the handoff reaches, a system call
with any arguments that returns an error to its caller leaves the whole state as it was, except for
the caller's `x0`. The one exception is `REPLY_RECV` with `WOULD_BLOCK` by a task that holds a reply
right: this right has been used, which delivers the message to the waiting caller and puts it on the
ready queue, and nothing else has changed.

**Proof sketch.** Handlers other than IPC write nothing before their last check, up to the tables
for the alias of a carved granule, and these are taken back because the kernel tables are in order
(`Kernel.mapped_of_reaches`). An IPC call that finds its partner returns zero; one that blocks
leaves another task running; what is left is the call that was asked not to block. -/
theorem failed_call_atomic {P : Platform} {I : Image P} {i : Machine} {k₀ k k' : Kernel}
    (hboot : boot I i = some k₀) (hr : k₀.Reaches I.pool k) {regs : Context} {esr : UInt64}
    (hec : Kernel.exceptionClass esr = 0x15) (hstep : k.step I.pool (.sync regs esr) = some k')
    (hcur : k'.tasks.sched.current = k.tasks.sched.current) {v : ℤ} (hv : v ∈ Kernel.ownErrors)
    (hx : (k'.tasks.tcb k.tasks.currentContext).ctx.x 0 = Abi.asU64 v) :
    k' = k.save (regs.setX 0 (Abi.asU64 v)) ∨
      (v = Abi.Err.wouldBlock ∧ regs.x 8 = Abi.Syscall.replyRecv ∧
        ∃ me caller, me = k.tasks.sched.current ∧ caller = (k.tasks.tcb me).replyTo ∧
          caller ≠ 0 ∧
          k' = { k with
            tasks := ((((k.save regs).tasks.setReplyTo me 0).setCtx caller
              (deliver regs (k.tasks.tcb caller).ctx)).enqueue caller).setX me 0
                (Abi.asU64 v) }) := by
  obtain ⟨b, s, hi, -, hsim, hmap⟩ := Kernel.mapped_of_reaches hboot hr
  have hne := Kernel.asU64_ne_zero hv
  generalize hev : Event.sync regs esr = ev at hstep
  have hnext := Kernel.step_next hsim.accounts.ledger.valid hstep
  cases hnext with
  | store va byte => cases hev
  | spurious regs' => cases hev
  | tick regs' => cases hev
  | skip regs' esr' elr hec' helr =>
    cases hev
    rw [hec] at hec'
    cases hec'
  | yield regs' esr' hec' hx8 =>
    cases hev
    refine absurd ?_ hne
    rw [k.save_ret] at hx
    have hctx := (hsim.of_preempt (regs.setX 0 (Abi.asU64 0))).2.refines.ctx
    rw [Sys.ctx_rotate] at hctx
    have hme := congrFun hctx k.tasks.currentContext
    rw [← hx, congrArg (fun c : Context => c.x 0) hme, hsim.refines.context]
    show (Function.update s.ctx s.current (regs.setX 0 (Abi.asU64 0)) s.current).x 0 = 0
    rw [Function.update_self]
    exact Context.x_setX_self _ _ _
  | die regs' esr' _ hd hk =>
    cases hev
    obtain ⟨hflag, -⟩ := (hsim.refines_save regs).kill (hsim.sysOk.save regs)
    have hsim' := (hsim.of_kill regs hk).2
    unfold Kernel.killCurrent at hk
    split at hk
    · cases hk
    · rename_i t ht
      rw [ht] at hflag
      have hkill : (s.save regs).kill = (((s.save regs).abortReply s.current).setState s.current
          .dead).blockAndSwitch := by
        unfold Sys.kill
        dsimp only
        rw [((s.save regs).abortReply_frame _).2.1]
        rfl
      rw [hkill] at hflag hsim'
      refine absurd ?_ ((hsim.sysOk.save regs).leaving_ended.current_ne hflag.symm)
      exact hsim'.refines.current.symm.trans (hcur.trans hsim.refines.current)
  | ret regs' esr' w k₁ hec' hx8 hi' hh =>
    cases hev
    left
    have hsave : Kernel.Mapped b (k.save regs) hi := hmap.congr rfl rfl
    rw [Kernel.x_ret] at hx
    obtain ⟨rfl, rfl⟩ := hsave.handled_failed hh hv hx
    exact k.save_ret regs w
  | ipc esr' c t hi' ht =>
    cases hev
    obtain ⟨-, hop, hep, -⟩ := Kernel.ipc?_eq_some hi'
    have hfail := (hsim.refines_save c.regs).ipc_failed (hsim.sysOk.save c.regs)
      (Kernel.mem_endpoints_of_epOf hep) ht hcur (hx ▸ hne)
    have hwould : ∀ u : Tasks, t = u.setX k.tasks.currentContext 0
        (Abi.asU64 Abi.Err.wouldBlock) → v = Abi.Err.wouldBlock := by
      rintro u rfl
      refine (Kernel.eq_of_asU64_error hv (by decide) ?_).symm
      rw [← hx]
      exact (Kernel.x_ret { k with tasks := u } k.tasks.currentContext Abi.Err.wouldBlock).symm
    rcases hfail with hfail | ⟨hrr, hfail⟩
    · left
      obtain rfl := hwould _ hfail
      rw [← Kernel.save_ret, hfail]
      rfl
    · obtain rfl := hwould _ hfail
      have hop' : c.regs.x 8 = Abi.Syscall.replyRecv := by
        unfold ipcOp? at hop
        rw [hrr] at hop
        split_ifs at hop with h1 h2 h3 h4 <;> first | exact h4 | cases hop
      by_cases h0 : s.replyTo s.current = 0
      · left
        rw [← Kernel.save_ret, hfail, (hsim.refines_save c.regs).answer_of_zero h0]
        rfl
      · have hcaller : (k.tasks.tcb s.current).replyTo = s.replyTo s.current :=
          congrFun hsim.refines.replyTo s.current
        have hself : (s.save c.regs).ctx s.current = c.regs := Function.update_self _ _ _
        have hother : (s.save c.regs).ctx (s.replyTo s.current) =
            (k.tasks.tcb (s.replyTo s.current)).ctx := by
          rw [congrFun hsim.refines.ctx (s.replyTo s.current)]
          exact Function.update_of_ne
            (hsim.sysOk.replyTo_ne_current hsim.sysOk.inv.placed.current_live h0) _ _
        refine .inr ⟨rfl, hop', s.current, s.replyTo s.current, hsim.refines.current.symm,
          hcaller.symm, h0, ?_⟩
        have hans := (hsim.refines_save c.regs).answer_eq h0
        have hctx : (k.save c.regs).tasks.currentContext = s.current := hsim.refines.context
        have hcur' : (s.save c.regs).current = s.current := rfl
        have hrep' : (s.save c.regs).replyTo = s.replyTo := rfl
        rw [hcur', hrep', hself, hother] at hans
        rw [hans, hctx] at hfail
        rw [hfail]

/-- The hypotheses hold at the handoff of the small image, for a `RETYPE` of an unknown kind. -/
theorem failed_call_atomic_smallMachine :
    ∃ k k' regs, boot smallImage smallMachine = some k ∧
      k.step smallImage.pool (.sync regs 0x54000000) = some k' ∧
      k' = k.save (regs.setX 0 (Abi.asU64 Abi.Err.badType)) := by
  obtain ⟨k, hk⟩ := boot_smallMachine
  let regs := (Context.zeroed.setX 8 Abi.Syscall.retype).setX 1 99
  have hec : Kernel.exceptionClass 0x54000000 = 0x15 := by decide
  have hstep : k.step smallImage.pool (.sync regs 0x54000000) =
      some ((k.save regs).ret k.tasks.currentContext Abi.Err.badType) :=
    Kernel.step_of_retype hec rfl
  refine ⟨k, _, regs, hk, hstep, ?_⟩
  rcases failed_call_atomic hk .refl hec hstep rfl (v := Abi.Err.badType) (by decide)
    (Kernel.x_ret _ _ _) with h | ⟨h, -⟩
  · exact h
  · exact absurd h (by decide)

end K0
