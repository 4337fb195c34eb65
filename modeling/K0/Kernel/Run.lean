import K0.Ipc.Effect
import K0.Kernel.Simulation

set_option relaxedAutoImplicit false
set_option autoImplicit false

/-!
# Runs of the kernel, step by step

A run is a finite sequence of states with the events between them, in any interleaving of system
calls, faults and ticks. Since the linked queues determine the abstract queues, a run from the
handoff has exactly one abstract run beside it, and each of its steps is a call on an endpoint with
its outcome, or the end of a task, or quiet.

## Main definitions

* `K0.Kernel.Run`: runs, with what can be observed of them.
* `K0.Kernel.Run.Shadow`: the abstract run beside a run of the kernel.
* `K0.Kernel.Run.Kind`: what one step of a run does to the tasks.

## Main results

* `K0.Kernel.Sim.unique`: the kernel stands for one abstract system only.
* `K0.Kernel.Run.exists_shadow`: every run from the handoff has a shadow.
* `K0.Kernel.Run.Shadow.kind`: every step is of one of the kinds.
-/

namespace K0

open Set

/-- The linked tasks determine the abstract ones. -/
lemma Refines.unique {live eps : Set ℕ} {c : Tasks} {s s' : Sys} (h : Refines live eps c s)
    (h' : Refines live eps c s') : s = s' := by
  have hlists : s.toSkel.lists = s'.toSkel.lists := by
    funext q
    by_cases hq : validQueue eps q
    · exact (h.holds.queue q hq).1.unique (h'.holds.queue q hq).1
    · rw [h.holds.empty q hq, h'.holds.empty q hq]
  have hready : s.ready = s'.ready := congrFun hlists none
  have hqueue : s.queue = s'.queue := funext fun e => congrFun hlists (some e)
  have hcur := h.current.symm.trans h'.current
  have hstate := h.state.symm.trans h'.state
  have hreply := h.replyTo.symm.trans h'.replyTo
  have hctx := h.ctx.symm.trans h'.ctx
  have hroot := h.ttbr0Pa.symm.trans h'.ttbr0Pa
  obtain ⟨⟨_, _, _, _, _⟩, _, _⟩ := s
  obtain ⟨⟨_, _, _, _, _⟩, _, _⟩ := s'
  subst hready hqueue hcur hstate hreply hctx hroot
  rfl

namespace Kernel

variable {P : Platform} {I : Image P} {i : Machine} {memory reserved : List PhysRegion} {root : ℕ}
  {k k₀ : Kernel}

/-- The kernel stands for one abstract system only. -/
lemma Sim.unique {s s' : Sys} (h : k.Sim I memory reserved root s)
    (h' : k.Sim I memory reserved root s') : s = s' :=
  h.refines.unique h'.refines

/-- A finite run from `k₀`: the states, and the events that lead from each one to the next. -/
structure Run (B : PoolBase P) (k₀ : Kernel) where
  len : ℕ
  state : ℕ → Kernel
  event : ℕ → Event
  start : state 0 = k₀
  next : ∀ n < len, (state n).step B (event n) = some (state (n + 1))

namespace Run

section Observers

variable {B : PoolBase P} (r : Run B k₀)

/-- The task that runs before step `n`, which is the one that causes it. -/
def task (n : ℕ) : ℕ := (r.state n).tasks.sched.current

/-- The call on a valid endpoint with which step `n` begins, if it is one. -/
def trap (n : ℕ) : Option IpcTrap := (r.event n).ipc? (r.state n).cnode

/-- The running task ends in step `n`: it exits, faults or makes an unknown system call. -/
def Ends (n : ℕ) : Prop := (r.event n).dies?.isSome = true

/-- The state of the task `t` before step `n`. -/
def status (n t : ℕ) : TaskState := ((r.state n).tasks.tcb t).state

/-- The saved registers of the task `t` before step `n`. -/
def regs (n t : ℕ) : Context := ((r.state n).tasks.tcb t).ctx

/-- The caller that the task `t` owes an answer before step `n`, or zero. -/
def owes (n t : ℕ) : ℕ := ((r.state n).tasks.tcb t).replyTo

/-- The states of a run are reached. -/
lemma reaches {n : ℕ} (hn : n ≤ r.len) : k₀.Reaches B (r.state n) := by
  induction n with
  | zero =>
    rw [r.start]
    exact .refl
  | succ n ih => exact (ih (Nat.le_of_succ_le hn)).step _ (r.next n hn)

/-- The run of a list of events. -/
def ofEvents (B : PoolBase P) (k₀ : Kernel) (evs : List Event) (h : (k₀.run B evs).isSome = true) :
    Run B k₀ where
  len := evs.length
  state n := (k₀.run B (evs.take n)).getD k₀
  event n := evs.getD n (.irq .zeroed .spurious)
  start := rfl
  next n hn := by
    obtain ⟨k, hk⟩ := Option.isSome_iff_exists.mp h
    rw [← List.take_append_drop (n + 1) evs, run_append] at hk
    obtain ⟨k', hk', -⟩ := Option.bind_eq_some_iff.mp hk
    have hlast : evs.take (n + 1) = evs.take n ++ [evs.getD n (.irq .zeroed .spurious)] := by
      rw [List.take_add_one, List.getD_eq_getElem?_getD, List.getElem?_eq_getElem hn]
      rfl
    have hstep := hk'
    rw [hlast, run_append] at hstep
    obtain ⟨k'', hk'', hstep⟩ := Option.bind_eq_some_iff.mp hstep
    simp only [Kernel.run, Option.bind_fun_some] at hstep
    rw [hk', hk'']
    exact hstep

end Observers

variable {r : Run I.pool k₀} {s : ℕ → Sys} {n t : ℕ}

/-- The control blocks before step `n`. -/
def live (r : Run I.pool k₀) (n : ℕ) : Set ℕ := (r.state n).cnode.tcbs I.rootTcb

/-- The abstract run beside a run of the kernel. -/
structure Shadow (r : Run I.pool k₀) (memory reserved : List PhysRegion) (root : ℕ) (s : ℕ → Sys) :
    Prop where
  sim : ∀ n ≤ r.len, (r.state n).Sim I memory reserved root (s n)
  step : ∀ n < r.len, ∃ a,
    ((r.state n).world I (s n)).Step a ((r.state (n + 1)).world I (s (n + 1))) ∧
    a.ipc? = r.trap n ∧ a.dies? = (r.event n).dies?

/-- Every run from the handoff has an abstract run beside it, in which nobody waits at first. -/
theorem exists_shadow (hboot : boot I i = some k₀) (r : Run I.pool k₀) :
    ∃ memory reserved root s, r.Shadow memory reserved root s ∧ ∀ e, (s 0).queue e = [] := by
  obtain ⟨b, rfl⟩ := boot_eq_some hboot
  have hex : ∀ n, ∃ s, n ≤ r.len → (r.state n).Sim I b.info.memory
      (fixedReserved I.span b.info.dtb b.window ++ b.info.reserved) b.userRoot s := by
    intro n
    by_cases hn : n ≤ r.len
    · obtain ⟨s, hs⟩ := b.sim.reaches (r.reaches hn)
      exact ⟨s, fun _ => hs⟩
    · exact ⟨b.sys, fun hc => absurd hc hn⟩
  choose s hs using hex
  refine ⟨_, _, _, s, ⟨hs, fun n hn => ?_⟩, fun e => ?_⟩
  · obtain ⟨a, s', hstep, hsim, hipc, hdies⟩ := (hs n hn.le).step (r.next n hn)
    obtain rfl := hsim.unique (hs (n + 1) hn)
    exact ⟨a, hstep, hipc, hdies⟩
  · have h0 := hs 0 (Nat.zero_le _)
    rw [r.start] at h0
    rw [h0.unique b.sim]
    rfl

/-- What step `n` does to the tasks: a call on an endpoint takes its course, or the running task
ends, or the step is quiet. -/
inductive Kind (r : Run I.pool k₀) (s : ℕ → Sys) (n : ℕ) : Prop
  | call (c : IpcTrap) (htrap : r.trap n = some c) (s₁ : Sys)
      (hbegin : (s n).Begun (r.live n) (r.state n).cnode.endpoints c.regs c.op s₁)
      (hran : s₁.Ran (r.live n) c.op c.ep c.nonblock (s (n + 1)))
      (hep : c.ep ∈ (r.state n).cnode.endpoints) (hends : ¬ r.Ends n)
  | ends (htrap : r.trap n = none) (hends : r.Ends n) (regs : Context)
      (h : ((s n).save regs).Ended (r.live n) (s (n + 1)))
  | quiet (htrap : r.trap n = none) (hends : ¬ r.Ends n)
      (hqueue : (s (n + 1)).queue = (s n).queue)
      (hreply : ∀ t ∈ r.live n, (s (n + 1)).replyTo t = (s n).replyTo t)
      (hstill : (s n).Still (r.live n) ∅ (s (n + 1)))

namespace Shadow

variable (h : r.Shadow memory reserved root s)
include h

/-- The abstract system is in order. -/
lemma ok (hn : n ≤ r.len) : (s n).Ok (r.live n) (r.state n).cnode.endpoints := (h.sim n hn).sysOk

/-- The running task. -/
lemma task_eq (hn : n ≤ r.len) : r.task n = (s n).current := (h.sim n hn).refines.current

/-- The state of a task. -/
lemma status_eq (hn : n ≤ r.len) (t : ℕ) : r.status n t = (s n).state t :=
  (h.sim n hn).refines.state_eq t

/-- The registers of a task. -/
lemma regs_eq (hn : n ≤ r.len) (t : ℕ) : r.regs n t = (s n).ctx t :=
  (h.sim n hn).refines.ctx_eq t

/-- The caller that a task owes an answer. -/
lemma owes_eq (hn : n ≤ r.len) (t : ℕ) : r.owes n t = (s n).replyTo t :=
  (h.sim n hn).refines.replyTo_eq t

/-- The running task exists. -/
lemma task_live (hn : n ≤ r.len) : r.task n ∈ r.live n := by
  rw [h.task_eq hn]
  exact (h.ok hn).inv.placed.current_live

/-- The running task runs. -/
lemma status_task (hn : n ≤ r.len) : r.status n (r.task n) = .running := by
  rw [h.status_eq hn, h.task_eq hn]
  exact (h.ok hn).running

/-- Control blocks stay. -/
lemma live_mono {m : ℕ} (hm : m ≤ r.len) (hnm : n ≤ m) : r.live n ⊆ r.live m := by
  induction m, hnm using Nat.le_induction with
  | base => exact fun _ ht => ht
  | succ m _ ih =>
    obtain ⟨a, hstep, -⟩ := h.step m hm
    have hsub : r.live m ⊆ r.live (m + 1) := hstep.live_subset
    exact (ih (Nat.le_of_succ_le hm)).trans hsub

/-- Every step is of one of the kinds. -/
theorem kind (hn : n < r.len) : r.Kind s n := by
  obtain ⟨a, hstep, hipc, hdies⟩ := h.step n hn
  have hok := h.ok hn.le
  by_cases hi : ∃ op regs e nonblock, a = .ipc op regs e nonblock
  · obtain ⟨op, regs, e, nonblock, rfl⟩ := hi
    have hs : s (n + 1) = (((s n).save regs).ipc op e nonblock).1 ∧
        e ∈ (r.state n).cnode.endpoints := by
      generalize hw : (r.state n).world I (s n) = w at hstep
      generalize hw' : (r.state (n + 1)).world I (s (n + 1)) = w' at hstep
      cases hstep with
      | ipc _ _ _ _ he htrue =>
        subst hw
        exact ⟨congrArg World.sys hw', he⟩
    refine .call ⟨op, regs, e, nonblock⟩ hipc.symm _ (hok.begun regs op) ?_ hs.2 ?_
    · rw [hs.1]
      exact (hok.save regs).ran op e nonblock
    · unfold Ends
      rw [← hdies]
      exact nofun
  · have htrap : r.trap n = none := by
      rw [← hipc]
      cases a with
      | ipc op regs e nonblock => exact absurd ⟨op, regs, e, nonblock, rfl⟩ hi
      | _ => rfl
    by_cases hd : ∃ regs, a = .die regs
    · obtain ⟨regs, rfl⟩ := hd
      have hs : s (n + 1) = ((s n).save regs).kill.1 := by
        generalize hw : (r.state n).world I (s n) = w at hstep
        generalize hw' : (r.state (n + 1)).world I (s (n + 1)) = w' at hstep
        cases hstep with
        | die _ htrue =>
          subst hw
          exact congrArg World.sys hw'
      refine .ends htrap ?_ regs ?_
      · unfold Ends
        rw [← hdies]
        rfl
      · rw [hs]
        exact (hok.save regs).ended_kill
    · have hq := hstep.quiet (h.sim n hn.le).ok
        (fun op regs e nonblock hc => hi ⟨op, regs, e, nonblock, hc⟩)
        fun regs hc => hd ⟨regs, hc⟩
      refine .quiet htrap ?_ hq.queue hq.replyTo hq.still
      unfold Ends
      rw [← hdies]
      cases a with
      | die regs => exact absurd ⟨regs, rfl⟩ hd
      | _ => exact nofun

end Shadow

end Run

end Kernel

end K0
