import K0.Ipc.Refinement

set_option relaxedAutoImplicit false
set_option autoImplicit false

/-!
# The task system as a transition system

A world is an abstract task system together with the control blocks and endpoints that exist. Its
steps are labelled by what happens: the running task goes on, is preempted, ends or makes an IPC
call, or it configures or starts another task or has memory cleared for a new object. Every step
begins with the registers with which the running task enters the kernel.

## Main definitions

* `K0.Sys.ipc`: the four IPC calls on the abstract system.
* `K0.World`, `K0.Act`, `K0.World.Step`: worlds, labels and steps.

## Main results

* `K0.World.Step.ok`: every step keeps the invariant.
* `K0.World.Step.space`: the started tasks stay in the one address space.
* `K0.Refines.ipcOn`: the linked calls refine the abstract ones.
-/

namespace K0

open Set

/-- An IPC call of the running task on an endpoint. -/
def Sys.ipc (s : Sys) : IpcOp → ℕ → Bool → Sys × Bool
  | .send => s.send
  | .recv => s.recv
  | .call => s.call
  | .replyRecv => s.replyRecv

/-- The entry of the kernel saves the registers of the running task. -/
def Sys.save (s : Sys) (regs : Context) : Sys := s.setCtx s.current regs

/-- What happens in one step, with the registers at the entry of the kernel. -/
inductive Act where
  | idle
  | run (regs : Context)
  | tick (regs : Context)
  | die (regs : Context)
  | ipc (op : IpcOp) (regs : Context) (e : ℕ) (nonblock : Bool)
  | configure (regs : Context) (t : ℕ) (ctx : Context) (root : ℕ)
  | resume (regs : Context) (t : ℕ)
  | clear (regs : Context) (a n : ℕ) (result : UInt64)

/-- The tasks of the system with the control blocks and the endpoints that exist. -/
structure World where
  live : Set ℕ
  eps : Set ℕ
  sys : Sys

namespace World

/-- The steps of a world. A step that leaves no task to run is none. -/
inductive Step : World → Act → World → Prop
  | idle (w : World) : Step w .idle w
  | run (w : World) (regs : Context) :
      Step w (.run regs) { w with sys := w.sys.save regs }
  | tick (w : World) (regs : Context) :
      Step w (.tick regs) { w with sys := (w.sys.save regs).rotate }
  | die (w : World) (regs : Context) (h : (w.sys.save regs).kill.2 = true) :
      Step w (.die regs) { w with sys := (w.sys.save regs).kill.1 }
  | ipc (w : World) (op : IpcOp) (regs : Context) (e : ℕ) (nonblock : Bool) (he : e ∈ w.eps)
      (h : ((w.sys.save regs).ipc op e nonblock).2 = true) :
      Step w (.ipc op regs e nonblock)
        { w with sys := ((w.sys.save regs).ipc op e nonblock).1 }
  | configure (w : World) (regs : Context) (t : ℕ) (ctx : Context) (root : ℕ) (ht : t ∈ w.live)
      (h : w.sys.state t = .inactive) :
      Step w (.configure regs t ctx root)
        { w with sys := ((w.sys.save regs).configure t ctx root).ret 0 }
  | resume (w : World) (regs : Context) (t : ℕ) (ht : t ∈ w.live) (h : w.sys.state t = .stopped) :
      Step w (.resume regs t) { w with sys := ((w.sys.save regs).enqueue t).ret 0 }
  | clear (w : World) (regs : Context) (a n : ℕ) (result : UInt64) (live' eps' : Set ℕ)
      (hlive : ∀ u ∈ w.live, ¬ (a ≤ u ∧ u < a + n)) (heps : ∀ e ∈ w.eps, ¬ (a ≤ e ∧ e < a + n))
      (hsub : w.live ⊆ live') (hsub' : w.eps ⊆ eps') (h0 : 0 ∉ live')
      (hnew : ∀ u ∈ live', u ∉ w.live → a ≤ u ∧ u < a + n)
      (hnew' : ∀ e ∈ eps', e ∉ w.eps → a ≤ e ∧ e < a + n) :
      Step w (.clear regs a n result) ⟨live', eps', ((w.sys.save regs).clear a n).ret result⟩

/-- The invariant of a world. -/
def Ok (w : World) : Prop := w.sys.Ok w.live w.eps

/-- Every started task lives in the address space with the given root. -/
def Space (root : ℕ) (w : World) : Prop :=
  ∀ t ∈ w.live, w.sys.state t ≠ .inactive → w.sys.ttbr0Pa t = root

end World

/-- The control blocks of a world stay. -/
lemma World.Step.live_subset {w w' : World} {a : Act} (hs : w.Step a w') : w.live ⊆ w'.live := by
  cases hs with
  | clear regs a n result live' eps' hlive heps hsub hsub' h0 hnew hnew' => exact hsub
  | _ => exact fun _ ht => ht

section Keep

variable {live eps : Set ℕ} {s : Sys}

/-- More endpoints may be counted in. -/
lemma Sys.Ok.mono_eps {eps' : Set ℕ} (h : s.Ok live eps) (hsub : eps ⊆ eps') : s.Ok live eps' := by
  have hp := h.inv.placed
  exact ⟨⟨⟨hp.zero, hp.current_live, hp.running_eq, hp.ready_live, hp.ready_state, hp.ready_nodup,
    hp.mem_ready, fun hu => hsub (hp.queue_eps hu), hp.queue_live, hp.queue_state,
    hp.queue_nodup, hp.queue_inj, hp.queue_side, hp.mem_queue, hp.off_ready, hp.off_queue⟩,
    h.inv.rights⟩, h.running⟩

/-- The registers do not matter to the invariant. -/
lemma Sys.Ok.save (h : s.Ok live eps) (regs : Context) : (s.save regs).Ok live eps :=
  ⟨h.inv, h.running⟩

/-- An IPC call that leaves a task to run keeps the invariant. -/
lemma Sys.Ok.ipc (h : s.Ok live eps) {op : IpcOp} {e : ℕ} (he : e ∈ eps) {nonblock : Bool}
    (htrue : (s.ipc op e nonblock).2 = true) : (s.ipc op e nonblock).1.Ok live eps := by
  cases op with
  | send => exact h.send he htrue
  | recv => exact h.recv he htrue
  | call => exact h.call he htrue
  | replyRecv => exact h.replyRecv he htrue

/-- Every step keeps the invariant. -/
theorem World.Step.ok {w w' : World} {a : Act} (hs : w.Step a w') (h : w.Ok) : w'.Ok := by
  cases hs with
  | idle => exact h
  | run regs => exact Sys.Ok.save h regs
  | tick regs => exact (Sys.Ok.save h regs).rotate
  | die regs htrue => exact (Sys.Ok.save h regs).kill htrue
  | ipc op regs e nonblock he htrue => exact (Sys.Ok.save h regs).ipc he htrue
  | configure regs t ctx root ht hst => exact ((Sys.Ok.save h regs).configure hst ctx root).ret 0
  | resume regs t ht hst => exact ((Sys.Ok.save h regs).resume ht hst).ret 0
  | clear regs a n result live' eps' hlive heps hsub hsub' h0 hnew hnew' =>
    exact (((Sys.Ok.save h regs).clear hlive hsub h0 hnew).mono_eps hsub').ret result

end Keep

/-! ### Address spaces -/

namespace Sys

/-- From `s` to `s'` no address space has changed, no inactive task has been started, and the
ready tasks are tasks that `s` had started. -/
structure Started (s s' : Sys) : Prop where
  ttbr0Pa : s'.ttbr0Pa = s.ttbr0Pa
  state : ∀ t, s'.state t ≠ .inactive → s.state t ≠ .inactive
  ready : ∀ t ∈ s'.ready, s.state t ≠ .inactive

namespace Started

variable {live eps : Set ℕ} {s s' s'' : Sys} {t e : ℕ}

/-- Nothing has happened yet. -/
lemma refl (h : s.Ok live eps) : Started s s :=
  ⟨rfl, fun _ hs => hs, fun t ht => by rw [h.inv.placed.ready_state ht]; decide⟩

/-- One development after the other. -/
lemma trans (h : Started s s') (h' : Started s' s'') : Started s s'' :=
  ⟨h'.ttbr0Pa.trans h.ttbr0Pa, fun t hs => h.state t (h'.state t hs),
    fun t ht => h.state t (h'.ready t ht)⟩

/-- Writing the state of a started task. -/
lemma setState (h : Started s s') (ht : s.state t ≠ .inactive) (st : TaskState) :
    Started s (s'.setState t st) := by
  refine ⟨h.ttbr0Pa, fun u hu => ?_, h.ready⟩
  by_cases e : u = t
  · rw [e]
    exact ht
  · have hold : (s'.setState t st).state u = s'.state u := Function.update_of_ne e _ _
    apply h.state u
    rwa [hold] at hu

/-- Making a started task ready. -/
lemma enqueue (h : Started s s') (ht : s.state t ≠ .inactive) : Started s (s'.enqueue t) := by
  refine ⟨h.ttbr0Pa, (h.setState ht .ready).state, fun u hu => ?_⟩
  rcases List.mem_append.mp hu with hu | hu
  · exact h.ready u hu
  · rw [List.mem_singleton.mp hu]
    exact ht

/-- Running the first ready task. -/
lemma blockAndSwitch (h : Started s s') : Started s s'.blockAndSwitch.1 := by
  unfold Sys.blockAndSwitch
  cases hl : s'.ready with
  | nil => exact h
  | cons t l =>
    have ht : s.state t ≠ .inactive := h.ready t (by rw [hl]; simp)
    refine ⟨h.ttbr0Pa, (h.setState ht .running).state, fun u hu => h.ready u ?_⟩
    exact List.mem_of_mem_tail hu

/-- Revoking a right whose caller has been started. -/
lemma abortReply (h : Started s s') {u : ℕ}
    (hc : s'.replyTo u ≠ 0 → s.state (s'.replyTo u) ≠ .inactive) : Started s (s'.abortReply u) := by
  unfold Sys.abortReply
  by_cases h0 : s'.replyTo u = 0
  · simp only [h0, ↓reduceIte]
    exact ⟨h.ttbr0Pa, h.state, h.ready⟩
  · simp only [h0, ↓reduceIte]
    have h' : Started s
        ((s'.setReplyTo u 0).setX (s'.replyTo u) 0 (Abi.asU64 Abi.Err.noReply)) :=
      ⟨h.ttbr0Pa, h.state, h.ready⟩
    exact h'.enqueue (hc h0)

/-- The caller of a live task has been started. -/
lemma caller (h : s.Ok live eps) {u : ℕ} (hu : u ∈ live) (h0 : s.replyTo u ≠ 0) :
    s.state (s.replyTo u) ≠ .inactive := by
  have hw : s.state (s.replyTo u) = .blockedReply := h.inv.rights.waiting hu h0
  rw [hw]
  decide

/-- The running task has been started. -/
lemma current (h : s.Ok live eps) : s.state s.current ≠ .inactive := by
  rw [h.running]
  decide

/-- Preemption starts no inactive task. -/
lemma rotate (h : s.Ok live eps) : Started s s.rotate := by
  unfold Sys.rotate
  cases hl : s.ready with
  | nil => exact refl h
  | cons t l =>
    have h0 := refl h
    have h1 : Started s s.popReady :=
      ⟨rfl, fun _ hs => hs, fun u hu => h0.ready u (List.mem_of_mem_tail hu)⟩
    have h2 := h1.enqueue (current h)
    have ht : s.state t ≠ .inactive := h0.ready t (by rw [hl]; simp)
    exact ⟨rfl, (h2.setState ht .running).state, h2.ready⟩

/-- The end of the running task starts no inactive task. -/
lemma kill (h : s.Ok live eps) : Started s s.kill.1 := by
  have h1 := (refl h).abortReply (caller h h.inv.placed.current_live)
  have hcur : (s.abortReply s.current).current = s.current := (s.abortReply_frame _).2.1
  refine (h1.setState ?_ .dead).blockAndSwitch
  rw [hcur]
  exact current h

/-- Blocking the running task starts no inactive task. -/
lemma blockOn (h : s.Ok live eps) (st : TaskState) (e : ℕ) : Started s (s.blockOn st e).1 := by
  have h1 := (refl h).setState (current h) st
  have h2 : Started s ((s.setState s.current st).pushQueue e s.current) :=
    ⟨h1.ttbr0Pa, h1.state, h1.ready⟩
  exact h2.blockAndSwitch

/-- A task in a queue has been started. -/
lemma queued (h : s.Ok live eps) (ht : t ∈ s.queue e) : s.state t ≠ .inactive := by
  intro hs
  have hq := h.inv.placed.queue_state ht
  rw [hs] at hq
  exact absurd hq (by decide)

/-- The first task of a queue is in it. -/
lemma head_mem {l : List ℕ} (hl : s.queue e = t :: l) : t ∈ s.queue e := by
  rw [hl]
  simp

/-- A call that cannot go on at once starts no inactive task. -/
lemma orBlock (h : s.Ok live eps) (st : TaskState) (e : ℕ) (nonblock : Bool) :
    Started s (if nonblock then (s.ret (Abi.asU64 Abi.Err.wouldBlock), true)
      else s.blockOn st e).1 := by
  have h0 := refl h
  cases nonblock with
  | true => exact ⟨h0.ttbr0Pa, h0.state, h0.ready⟩
  | false => exact blockOn h st e

/-- A send starts no inactive task. -/
lemma send (h : s.Ok live eps) (e : ℕ) (nonblock : Bool) : Started s (s.send e nonblock).1 := by
  have h0 := refl h
  cases hr : s.receiver? e with
  | some t =>
    obtain ⟨⟨l, hl⟩, -⟩ := Sys.receiver?_eq_some.mp hr
    have h1 : Started s (s.giveTo e t) := ⟨h0.ttbr0Pa, h0.state, h0.ready⟩
    have h2 := h1.enqueue (queued h (head_mem hl))
    rw [Sys.send_of_receiver hr]
    exact ⟨h2.ttbr0Pa, h2.state, h2.ready⟩
  | none =>
    rw [Sys.send_of_none hr]
    exact orBlock h .blockedSend e nonblock

/-- A receive starts no inactive task. -/
lemma recv (h : s.Ok live eps) (e : ℕ) (nonblock : Bool) : Started s (s.recv e nonblock).1 := by
  have h0 := refl h
  cases hr : s.sender? e with
  | some t =>
    obtain ⟨⟨l, hl⟩, -⟩ := Sys.sender?_eq_some.mp hr
    have ht := queued h (head_mem hl)
    have h1 : Started s (s.takeFrom e t) := ⟨h0.ttbr0Pa, h0.state, h0.ready⟩
    by_cases hc : s.state t = .blockedCall
    · have h2 := h1.abortReply (u := s.current) (caller h h.inv.placed.current_live)
      have h3 := h2.setState ht .blockedReply
      rw [Sys.recv_of_caller hr hc]
      exact ⟨h3.ttbr0Pa, h3.state, h3.ready⟩
    · have h2 : Started s ((s.takeFrom e t).setX t 0 0) := ⟨h1.ttbr0Pa, h1.state, h1.ready⟩
      rw [Sys.recv_of_sender hr hc]
      exact h2.enqueue ht
  | none =>
    rw [Sys.recv_of_none hr]
    exact orBlock h .blockedRecv e nonblock

/-- A call starts no inactive task. -/
lemma call (h : s.Ok live eps) (e : ℕ) (nonblock : Bool) : Started s (s.call e nonblock).1 := by
  have h0 := refl h
  cases hr : s.receiver? e with
  | some t =>
    obtain ⟨⟨l, hl⟩, -⟩ := Sys.receiver?_eq_some.mp hr
    have hmem := head_mem hl
    have h1 : Started s (s.giveTo e t) := ⟨h0.ttbr0Pa, h0.state, h0.ready⟩
    have h2 := h1.abortReply (u := t) (caller h (h.inv.placed.queue_live hmem))
    have h3 : Started s (((s.giveTo e t).abortReply t).setReplyTo t s.current) :=
      ⟨h2.ttbr0Pa, h2.state, h2.ready⟩
    rw [Sys.call_of_receiver hr]
    exact ((h3.setState (current h) .blockedReply).enqueue (queued h hmem)).blockAndSwitch
  | none =>
    rw [Sys.call_of_none hr]
    exact orBlock h .blockedCall e nonblock

/-- An answer starts no inactive task. -/
lemma reply (h : s.Ok live eps) : Started s s.reply := by
  unfold Sys.reply
  have h0 := refl h
  by_cases hc : s.replyTo s.current = 0
  · simp only [hc, ↓reduceIte]
    exact h0
  · simp only [hc, ↓reduceIte]
    refine enqueue ⟨h0.ttbr0Pa, h0.state, h0.ready⟩ (caller h h.inv.placed.current_live hc)

/-- No IPC call starts an inactive task. -/
lemma ipc (h : s.Ok live eps) (op : IpcOp) (e : ℕ) (nonblock : Bool) :
    Started s (s.ipc op e nonblock).1 := by
  cases op with
  | send => exact send h e nonblock
  | recv => exact recv h e nonblock
  | call => exact call h e nonblock
  | replyRecv => exact (reply h).trans (recv h.reply e nonblock)

end Started

end Sys

/-- The tasks that a step leaves started are in the address space with the given root, if those
before the step are and a configured task gets this root. -/
theorem World.Step.space {w w' : World} {a : Act} {root : ℕ} (hs : w.Step a w') (h : w.Ok)
    (hroot : ∀ regs t ctx r, a = .configure regs t ctx r → r = root) (hw : w.Space root) :
    w'.Space root := by
  -- a step that starts nothing
  have hkeep : ∀ {s : Sys} {regs : Context}, Sys.Started (w.sys.save regs) s →
      Space root { w with sys := s } := by
    intro s regs hst t ht hne
    have hpa : s.ttbr0Pa t = w.sys.ttbr0Pa t := congrFun hst.ttbr0Pa t
    rw [hpa]
    exact hw t ht (hst.state t hne)
  cases hs with
  | idle => exact hw
  | run regs => exact hw
  | tick regs => exact hkeep (Sys.Started.rotate (Sys.Ok.save h regs))
  | die regs htrue => exact hkeep (Sys.Started.kill (Sys.Ok.save h regs))
  | ipc op regs e nonblock he htrue =>
    exact hkeep (Sys.Started.ipc (Sys.Ok.save h regs) op e nonblock)
  | configure regs t ctx r ht hst =>
    obtain rfl := hroot regs t ctx r rfl
    intro u hu hne
    by_cases e : u = t
    · rw [e]
      exact Function.update_self _ _ _
    · have hpa : (((w.sys.save regs).configure t ctx r).ret 0).ttbr0Pa u = w.sys.ttbr0Pa u :=
        Function.update_of_ne e _ _
      have hsu : (((w.sys.save regs).configure t ctx r).ret 0).state u = w.sys.state u :=
        Function.update_of_ne e _ _
      dsimp only at hne ⊢
      rw [hpa]
      exact hw u hu (hsu ▸ hne)
  | resume regs t ht hst =>
    have h1 := (Sys.Started.refl (Sys.Ok.save h regs)).enqueue (t := t) (by
      change w.sys.state t ≠ .inactive
      rw [hst]
      decide)
    exact hkeep ⟨h1.ttbr0Pa, h1.state, h1.ready⟩
  | clear regs a n result live' eps' hlive heps hsub hsub' h0 hnew hnew' =>
    intro u hu hne
    by_cases hin : a ≤ u ∧ u < a + n
    · exact absurd (if_pos hin) hne
    · have hu' : u ∈ w.live := by
        by_contra hn
        exact hin (hnew u hu hn)
      have hpa : (((w.sys.save regs).clear a n).ret result).ttbr0Pa u = w.sys.ttbr0Pa u :=
        if_neg hin
      have hsu : (((w.sys.save regs).clear a n).ret result).state u = w.sys.state u := if_neg hin
      dsimp only at hne ⊢
      rw [hpa]
      exact hw u hu' (hsu ▸ hne)

/-- An IPC call on the linked queues refines the abstract one. -/
theorem Refines.ipcOn {live eps : Set ℕ} {c : Tasks} {s : Sys} {e : ℕ}
    (h : Refines live eps c s) (hok : s.Ok live eps) (he : e ∈ eps) (op : IpcOp)
    (nonblock : Bool) :
    (K0.ipcOn op c e nonblock).2 = (s.ipc op e nonblock).2 ∧
      Refines live eps (K0.ipcOn op c e nonblock).1 (s.ipc op e nonblock).1 := by
  cases op with
  | send => exact h.sendOn hok he nonblock
  | recv => exact h.recvInner hok he nonblock
  | call => exact h.callOn hok he nonblock
  | replyRecv => exact h.replyRecvOn hok he nonblock

end K0
