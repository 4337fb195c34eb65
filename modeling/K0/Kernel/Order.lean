import K0.Ipc.Order
import K0.Kernel.Queues

set_option relaxedAutoImplicit false
set_option autoImplicit false

/-!
# The ready queue of the kernel is fair

What the order of the abstract ready list says about the kernel's ready queue, in every run. As many
timer ticks as there are ready and running tasks give each of them one turn, in the order of the
queue, and restore the queue. Whatever happens, a task that waits in the queue moves up by one place
with every switch, so it gets its turn at the switch that its place tells.

## Main definitions

* `K0.Kernel.Switches`: a run with the number of its switches.

## Main results

* `K0.Kernel.Sim.advance`: every event advances the queue.
* `K0.Kernel.Sim.place`: the places in the queue after a run.
* `K0.Kernel.ready_queue_fair`: rotation and order, in every run.
-/

namespace K0

namespace Kernel

/-- A run with the number of events in it that give another task its turn. -/
inductive Switches {P : Platform} (B : PoolBase P) (k : Kernel) : ℕ → Kernel → Prop
  | refl : Switches B k 0 k
  | stay {n : ℕ} {k' k'' : Kernel} (ev : Event) (h : Switches B k n k')
      (hs : k'.step B ev = some k'') (hc : k''.tasks.sched.current = k'.tasks.sched.current) :
      Switches B k n k''
  | switch {n : ℕ} {k' k'' : Kernel} (ev : Event) (h : Switches B k n k')
      (hs : k'.step B ev = some k'') (hc : k''.tasks.sched.current ≠ k'.tasks.sched.current) :
      Switches B k (n + 1) k''

variable {P : Platform} {I : Image P} {i : Machine} {memory reserved : List PhysRegion} {root : ℕ}
  {k k' k₀ : Kernel} {s s' : Sys}

/-! ### Ticks -/

/-- Saving the registers that are saved already. -/
lemma save_self (k : Kernel) : k.save (k.tasks.tcb k.tasks.currentContext).ctx = k := by
  unfold save Tasks.setCtx Tasks.modTcb
  rw [Function.update_eq_self]

/-- A tick at which the registers are those that the kernel restored. -/
lemma step_tick_self (B : PoolBase P) (k : Kernel) :
    k.step B (.irq (k.tasks.tcb k.tasks.currentContext).ctx .timer) = some k.k0Preempt := by
  change some (k.save _).k0Preempt = _
  rw [save_self]

/-- Preemption is that of the abstract system. -/
lemma Sim.preempt (h : k.Sim I memory reserved root s) :
    k.k0Preempt.Sim I memory reserved root s.rotate := by
  have hctx : s.save (k.tasks.tcb k.tasks.currentContext).ctx = s := by
    have hsaved : (k.tasks.tcb k.tasks.currentContext).ctx = s.ctx s.current := by
      rw [h.refines.context]
      exact congrFun h.refines.ctx s.current
    unfold Sys.save Sys.setCtx
    rw [hsaved, Function.update_eq_self]
  have hp := (h.of_preempt (k.tasks.tcb k.tasks.currentContext).ctx).2
  rw [save_self, hctx] at hp
  exact hp

/-- Preemption, several times. -/
lemma Sim.iterate_preempt (h : k.Sim I memory reserved root s) (j : ℕ) :
    (k0Preempt^[j] k).Sim I memory reserved root (Sys.rotate^[j] s) := by
  induction j with
  | zero => exact h
  | succ j ih =>
    rw [Function.iterate_succ_apply', Function.iterate_succ_apply']
    exact ih.preempt

/-- The ready queue is the abstract ready list. -/
lemma Sim.ready_linked (h : k.Sim I memory reserved root s) :
    k.tasks.Linked k.tasks.sched.toEnds s.ready :=
  h.refines.linked (q := none) trivial

/-- The `j`-th tick gives the `j`-th ready task its turn, and after the last of them the running
task. -/
lemma Sim.current_iterate (h : k.Sim I memory reserved root s) {j t : ℕ}
    (ht : (s.ready ++ [s.current])[j]? = some t) :
    (k0Preempt^[j + 1] k).tasks.sched.current = t := by
  have hrot : (s.current :: s.ready).rotate (j + 1) = (s.ready ++ [s.current]).rotate j := by
    rw [List.rotate_cons_succ]
  have hlt := (List.getElem?_eq_some_iff.mp ht).1
  have hhead : ((s.ready ++ [s.current]).rotate j)[0]? = some t := by
    rw [List.getElem?_rotate (by omega), Nat.zero_add, Nat.mod_eq_of_lt hlt, ht]
  rw [(h.iterate_preempt (j + 1)).refines.current, h.sysOk.iterate_rotate, hrot]
  cases hl : (s.ready ++ [s.current]).rotate j with
  | nil =>
    rw [hl] at hhead
    cases hhead
  | cons u l =>
    rw [hl] at hhead
    exact Option.some.inj hhead

/-- After a full turn of the ring the abstract system is what it was. -/
lemma Sim.full_turn (h : k.Sim I memory reserved root s) :
    (k0Preempt^[s.ready.length + 1] k).Sim I memory reserved root s := by
  have hturn : Sys.rotate^[s.ready.length + 1] s = s := by
    have hlen : s.ready.length + 1 = (s.current :: s.ready).length := rfl
    rw [h.sysOk.iterate_rotate, hlen, List.rotate_length, h.sysOk.ofRing_self]
  have hsim := h.iterate_preempt (s.ready.length + 1)
  rw [hturn] at hsim
  exact hsim

/-! ### Events -/

/-- Every event advances the ready queue. -/
lemma Sim.advance {ev : Event} (h : k.Sim I memory reserved root s)
    (hs : k.step I.pool ev = some k') :
    ∃ s', k'.Sim I memory reserved root s' ∧ s.Advance s' := by
  obtain ⟨a, s', hstep, hsim, -⟩ := h.step hs
  exact ⟨s', hsim, hstep.advance h.ok⟩

/-- **Places in the queue.** After `n` switches a task is `n` places further in front.

**Proof sketch.** Induction on the run: an event without a switch keeps the places, and a switch
moves every task up by one. -/
theorem Sim.place (h : k.Sim I memory reserved root s) {n : ℕ} (hr : k.Switches I.pool n k') :
    ∃ s', k'.Sim I memory reserved root s' ∧
      ∀ p t, s.ready[n + p]? = some t → s'.ready[p]? = some t := by
  induction hr with
  | refl =>
    refine ⟨s, h, fun p t ht => ?_⟩
    rw [Nat.zero_add] at ht
    exact ht
  | stay ev _ hs hc ih =>
    obtain ⟨s₁, hsim, hplace⟩ := ih
    obtain ⟨s₂, hsim', hadv⟩ := hsim.advance hs
    rw [hsim.refines.current, hsim'.refines.current] at hc
    exact ⟨s₂, hsim', fun p t ht => hadv.place_of_stay hc (hplace p t ht)⟩
  | @switch n _ _ ev _ hs hc ih =>
    obtain ⟨s₁, hsim, hplace⟩ := ih
    obtain ⟨s₂, hsim', hadv⟩ := hsim.advance hs
    rw [hsim.refines.current, hsim'.refines.current] at hc
    refine ⟨s₂, hsim', fun p t ht => hadv.place_of_switch hc (hplace (p + 1) t ?_)⟩
    rw [← ht]
    congr 1
    omega

/-- **The ready queue is fair.** In every state that a run from the handoff reaches, with the ready
queue `ready` and the running task `c`:

* as many ticks as there are tasks in `ready` and one more give the tasks of `ready` and then `c`
  their turn, in this order, and restore the queue, the running task and all saved contexts, states
  and reply rights;
* at every event the tasks `woken` that become ready go to the end of the queue, and then the
  running task goes on or the first task of the queue takes its place;
* so in every run a task at place `p` is at place `p - n` after `n ≤ p` switches, and gets its turn
  at the next one after the `p`-th. -/
theorem ready_queue_fair (hboot : boot I i = some k₀) (hr : k₀.Reaches I.pool k) :
    ∃ ready, k.tasks.Linked k.tasks.sched.toEnds ready ∧
      (∀ j, (k0Preempt^[j] k).step I.pool
        (.irq ((k0Preempt^[j] k).tasks.tcb (k0Preempt^[j] k).tasks.currentContext).ctx .timer) =
          some (k0Preempt^[j + 1] k)) ∧
      (∀ j t, (ready ++ [k.tasks.sched.current])[j]? = some t →
        (k0Preempt^[j + 1] k).tasks.sched.current = t) ∧
      (∀ k', k' = k0Preempt^[ready.length + 1] k →
        k'.tasks.Linked k'.tasks.sched.toEnds ready ∧
        k'.tasks.sched.current = k.tasks.sched.current ∧
        ∀ t, (k'.tasks.tcb t).ctx = (k.tasks.tcb t).ctx ∧
          (k'.tasks.tcb t).state = (k.tasks.tcb t).state ∧
          (k'.tasks.tcb t).replyTo = (k.tasks.tcb t).replyTo) ∧
      (∀ ev k', k.step I.pool ev = some k' →
        ∃ woken ready', k'.tasks.Linked k'.tasks.sched.toEnds ready' ∧
          (∀ t ∈ woken, t ∉ ready) ∧
          ((k'.tasks.sched.current = k.tasks.sched.current ∧ ready' = ready ++ woken) ∨
            (k'.tasks.sched.current ≠ k.tasks.sched.current ∧
              ready ++ woken = k'.tasks.sched.current :: ready'))) ∧
      ∀ n p k' t, ready[n + p]? = some t → k.Switches I.pool n k' →
        ∃ ready', k'.tasks.Linked k'.tasks.sched.toEnds ready' ∧ ready'[p]? = some t ∧
          ∀ ev k'', p = 0 → k'.step I.pool ev = some k'' →
            k''.tasks.sched.current ≠ k'.tasks.sched.current →
            k''.tasks.sched.current = t := by
  obtain ⟨b, s, h⟩ := sim_of_reaches hboot hr
  refine ⟨s.ready, h.ready_linked, fun j => ?_, fun j t ht => ?_, ?_, ?_, ?_⟩
  · rw [step_tick_self, Function.iterate_succ_apply']
  · rw [h.refines.current] at ht
    exact h.current_iterate ht
  · rintro k' rfl
    have h' := h.full_turn
    refine ⟨h'.ready_linked, h'.refines.current.trans h.refines.current.symm, fun t => ?_⟩
    exact ⟨(congrFun h'.refines.ctx t).trans (congrFun h.refines.ctx t).symm,
      (congrFun h'.refines.state t).trans (congrFun h.refines.state t).symm,
      (congrFun h'.refines.replyTo t).trans (congrFun h.refines.replyTo t).symm⟩
  · intro ev k' hs
    obtain ⟨s', h', woken, hfresh, hadv⟩ := h.advance hs
    rw [h.refines.current, h'.refines.current]
    exact ⟨woken, s'.ready, h'.ready_linked, hfresh, hadv⟩
  · intro n p k' t ht hrun
    obtain ⟨s', h', hplace⟩ := h.place hrun
    have hp := hplace p t ht
    refine ⟨s'.ready, h'.ready_linked, hp, ?_⟩
    rintro ev k'' rfl hs hc
    obtain ⟨s'', h'', hadv⟩ := h'.advance hs
    rw [h'.refines.current, h''.refines.current] at hc
    rw [h''.refines.current]
    exact hadv.current_of_switch hc hp

/-- When the second task of the small machine has been started, it waits in the ready queue and the
first tick makes it the running task. -/
theorem ready_queue_fair_smallMachine :
    ∃ k₀ k ready, boot smallImage smallMachine = some k₀ ∧ k₀.Reaches smallImage.pool k ∧
      k.tasks.Linked k.tasks.sched.toEnds ready ∧ ready.head? = some secondTcb ∧
      k.k0Preempt.tasks.sched.current = secondTcb := by
  obtain ⟨k₀, k, _, _, h⟩ := exists_callFirst
  obtain ⟨ready, hlink, -, hturn, -⟩ := ready_queue_fair h.boot h.reaches₄
  obtain ⟨l, rfl⟩ : ∃ l, ready = secondTcb :: l := by
    have hhead : k.tasks.sched.toEnds.head = secondTcb := h.head
    have hchain := hlink.chain
    rw [hhead] at hchain
    cases ready with
    | nil => exact absurd (show secondTcb = 0 from hchain) (by decide)
    | cons t l => exact ⟨l, by rw [hchain.1]⟩
  exact ⟨k₀, k, _, h.boot, h.reaches₄, hlink, rfl, hturn 0 secondTcb rfl⟩

end Kernel

end K0
