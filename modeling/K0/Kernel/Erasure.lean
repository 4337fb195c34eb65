import K0.Ipc.Erasure
import K0.Kernel.Steps

set_option relaxedAutoImplicit false
set_option autoImplicit false

/-!
# Erasing and the steps of the kernel

Every handler of the kernel commutes with an erasure, since the registers that it reads are among
those that the erasure leaves. A step therefore does not depend on what is erased: erasing first
erases nothing else from its result. The one exception is the return address, to which a skipped
`WFI` or `WFE` adds four.

## Main definitions

* `K0.Kernel.erase`, `K0.Event.erase`: the state and the registers of an event after erasing.
* `K0.Event.SkipsAlike`: erasing does not interfere with skipping an instruction.

## Main results

* `K0.Kernel.step_erase`: a step does not depend on what is erased.
* `K0.Kernel.step_record`: a step does not depend on the record.
-/

namespace K0

open Word Memory

/-- The kernel state after erasing. -/
def Kernel.erase {ω : Type} (E : Erasure) (k : Kernel ω) : Kernel :=
  ⟨k.cnode, k.pool, k.mem, k.tasks.erase E, k.console⟩

namespace Event

/-- The event with its registers after erasing. -/
def erase (E : Erasure) : Event → Event
  | .sync regs esr => .sync (E.ctx regs) esr
  | .irq regs int => .irq (E.ctx regs) int
  | .store va b => .store va b

/-- If the event skips an instruction, then erasing its registers changes nothing else in those
that it leaves behind. -/
def SkipsAlike (E : Erasure) : Event → Prop
  | .sync regs esr => Kernel.exceptionClass esr = 0x01 →
      (checkedAdd (E.ctx regs).elr.toNat 4).map
          (fun a => E.ctx { E.ctx regs with elr := UInt64.ofNat a }) =
        (checkedAdd regs.elr.toNat 4).map fun a => E.ctx { regs with elr := UInt64.ofNat a }
  | _ => True

end Event

namespace Kernel

variable {ω : Type} {P : Platform} {B : PoolBase P} (k : Kernel ω) (E : Erasure)

/-! ### Handlers -/

/-- The result of a handler after erasing. -/
def eraseResult (r : ℤ × Kernel ω) : ℤ × Kernel := (r.1, r.2.erase E)

/-- Erasing twice is erasing once. -/
lemma erase_erase : (k.erase E).erase E = k.erase E :=
  congrArg (fun s => (⟨k.cnode, k.pool, k.mem, s, k.console⟩ : Kernel)) (k.tasks.erase_erase E)

/-- A result that commutes with erasing agrees with the other after erasing. -/
lemma map_erase_of_eq {r : Option Kernel} {r' : Option (Kernel ω)} (h : r = r'.map (erase E)) :
    r.map (erase E) = r'.map (erase E) := by
  rw [h, Option.map_map]
  congr 1
  funext a
  exact a.erase_erase E

/-- The registers that the dispatcher reads. -/
lemma x_erase {i : Fin 31} (hi : i ≤ 5 ∨ i = 8) :
    ((k.erase E).tasks.tcb (k.erase E).tasks.currentContext).ctx.x i =
      (k.tasks.tcb k.tasks.currentContext).ctx.x i :=
  E.x _ hi

/-- Printing. -/
lemma sysPutc_erase (slot byte : UInt64) :
    sysPutc (k.erase E) slot byte = eraseResult E (sysPutc k slot byte) := by
  have hc : (k.erase E).cnode = k.cnode := rfl
  unfold sysPutc
  rw [hc]
  split <;> rfl

/-- A store reads the tables, not the registers. -/
lemma userStore_erase (va : ℕ) (b : UInt8) :
    (k.erase E).userStore P va b = (k.userStore P va b).erase E := by
  have hm : (k.erase E).mem = k.mem := rfl
  have hr : (k.erase E).tasks.currentUserRoot = k.tasks.currentUserRoot := rfl
  unfold userStore
  rw [hm, hr]
  split
  · rfl
  · split_ifs
    · rfl
    · rfl

/-- Mapping. -/
lemma sysMap_erase (slot va perm aspace : UInt64) :
    sysMap P (k.erase E) slot va perm aspace =
      (sysMap P k slot va perm aspace).map (eraseResult E) := by
  have hc : (k.erase E).cnode = k.cnode := rfl
  have hm : (k.erase E).mem = k.mem := rfl
  unfold sysMap
  rw [hc]
  split
  · rfl
  · split
    · split_ifs
      · rfl
      · unfold mapFrame
        rw [hm]
        split
        · rfl
        · split
          · rfl
          · rename_i e _
            cases mmuErr e <;> rfl
          · rfl
    · split_ifs
      · rfl
      · unfold mapTable
        rw [hm]
        split
        · rfl
        · rename_i e _
          cases mmuErr e <;> rfl
        · rfl
    · rfl
    · rfl

variable [Recorder ω]

/-- The preparation of a granule. -/
lemma prepGranule_erase (pa : ℕ) (w : Pool × Mem × Tasks ω) :
    prepGranule B pa (w.1, w.2.1, w.2.2.erase E) =
      (prepGranule B pa w).map fun r => (r.1, r.2.1, r.2.2.1, r.2.2.2.erase E) := by
  unfold prepGranule
  generalize checkedAdd pa Abi.kernelVaOffset = kva
  cases checkedAdd pa P.granule with
  | none => rfl
  | some stop =>
    dsimp only [Option.bind_eq_bind, Option.bind_some]
    rcases mapKernelWindow B ⟨pa, stop⟩ w.1 with _ | ⟨r, pool⟩
    · rfl
    · cases r with
      | error e => rfl
      | ok u =>
        cases kva with
        | none => rfl
        | some a =>
          dsimp only [Option.bind_some, Option.map_some]
          rw [Tasks.clear_erase]

/-- Carving an object. -/
lemma sysRetype_erase (slot kind : UInt64) :
    sysRetype B (k.erase E) slot kind = (sysRetype B k slot kind).map (eraseResult E) := by
  unfold sysRetype
  cases objKind kind with
  | none => rfl
  | some kind =>
    have hmap := CNode.retype_map (fun w : Pool × Mem × Tasks ω => (w.1, w.2.1, w.2.2.erase E))
      (prepGranule B) (prepGranule B) (prepGranule_erase E) k.cnode slot.toNat kind P.granule
      (k.pool, k.mem, k.tasks)
    have hk : (k.erase E).cnode.retype slot.toNat kind P.granule (prepGranule B)
        ((k.erase E).pool, (k.erase E).mem, (k.erase E).tasks) = _ := hmap
    dsimp only
    rw [hk]
    rcases k.cnode.retype slot.toNat kind P.granule (prepGranule B) (k.pool, k.mem, k.tasks) with
      _ | ⟨r, cnode, pool, mem, tasks⟩
    · rfl
    · cases r <;> rfl

/-- The new context of a configured task is written as a whole. -/
lemma configureTcb_erase (t : ℕ) (entry stack : UInt64) (root : ℕ) :
    (configureTcb (k.erase E) t entry stack root).erase E =
      (configureTcb k t entry stack root).erase E := by
  have hroot : ∀ {ω : Type} [Recorder ω] (s : Tasks ω),
      (s.modTcb .ttbr0Pa t fun v => { v with ttbr0Pa := root }).erase E =
        (s.erase E).modTcb .ttbr0Pa t fun v => { v with ttbr0Pa := root } :=
    fun s => Eq.symm (s.modTcb_erase E t fun _ => rfl)
  have htasks : (configureTcb (k.erase E) t entry stack root).tasks.erase E =
      (configureTcb k t entry stack root).tasks.erase E := by
    unfold configureTcb
    dsimp only
    rw [← Tasks.setState_erase, ← Tasks.setState_erase, hroot, hroot, ← Tasks.setCtx_erase,
      ← Tasks.setCtx_erase]
    have hp : (k.erase E).tasks.erase E = k.tasks.erase E := k.tasks.erase_erase E
    rw [hp]
  exact congrArg (fun s => (⟨k.cnode, k.pool, k.mem, s, k.console⟩ : Kernel)) htasks

/-- Configuring a task. -/
lemma sysTcbConfigure_erase (slot entry stack aspace : UInt64) :
    (sysTcbConfigure P (k.erase E) slot entry stack aspace).map (eraseResult E) =
      (sysTcbConfigure P k slot entry stack aspace).map (eraseResult E) := by
  have hc : (k.erase E).cnode = k.cnode := rfl
  have hres : ∀ v : ℤ, eraseResult E (v, k.erase E) = eraseResult E (v, k) := by
    intro v
    unfold eraseResult
    rw [k.erase_erase]
  unfold sysTcbConfigure
  rw [hc]
  split_ifs
  · exact congrArg some (hres _)
  · exact congrArg some (hres _)
  · split
    · exact congrArg some (hres _)
    · exact congrArg some (hres _)
    · rename_i root base _ _
      generalize checkedAdd base Abi.kernelVaOffset = kva
      cases kva with
      | none => rfl
      | some t =>
        have hst : ((k.erase E).tasks.tcb t).state = (k.tasks.tcb t).state := rfl
        simp only [Option.map_some, Option.some.injEq]
        rw [hst]
        split_ifs
        · exact hres _
        · unfold eraseResult
          rw [configureTcb_erase]

/-- Starting a task. -/
lemma sysTcbResume_erase (slot : UInt64) :
    sysTcbResume (k.erase E) slot = (sysTcbResume k slot).map (eraseResult E) := by
  have hc : (k.erase E).cnode = k.cnode := rfl
  unfold sysTcbResume
  rw [hc]
  split
  · rfl
  · rename_i base _
    generalize checkedAdd base Abi.kernelVaOffset = kva
    cases kva with
    | none => rfl
    | some t =>
      have hst : ((k.erase E).tasks.tcb t).state = (k.tasks.tcb t).state := rfl
      have henq : (k.erase E).tasks.enqueue t = (k.tasks.enqueue t).erase E :=
        k.tasks.enqueue_erase E t
      simp only [Option.map_some, Option.some.injEq]
      rw [hst, henq]
      split_ifs
      · rfl
      · rfl

/-- Returning a value. -/
lemma ret_erase (me : ℕ) (v : ℤ) : (k.ret me v).erase E = (k.erase E).ret me v :=
  congrArg (fun s => (⟨k.cnode, k.pool, k.mem, s, k.console⟩ : Kernel))
    (k.tasks.setX_erase E me (Abi.asU64 v)).symm

/-- Saving registers. -/
lemma save_erase (regs : Context) : (k.save regs).erase E = (k.erase E).save (E.ctx regs) :=
  congrArg (fun s => (⟨k.cnode, k.pool, k.mem, s, k.console⟩ : Kernel))
    (k.tasks.setCtx_erase E k.tasks.currentContext regs).symm

/-- Preemption. -/
lemma k0Preempt_erase : (k.erase E).k0Preempt = k.k0Preempt.erase E :=
  congrArg (fun s => (⟨k.cnode, k.pool, k.mem, s, k.console⟩ : Kernel)) (k.tasks.rotate_erase E)

/-- Ending the running task. -/
lemma killCurrent_erase : (k.erase E).killCurrent = k.killCurrent.map (erase E) := by
  have hk : (abortReply (k.erase E).tasks (k.erase E).tasks.sched.current).exitCurrent =
      ((abortReply k.tasks k.tasks.sched.current).exitCurrent.1.erase E,
        (abortReply k.tasks k.tasks.sched.current).exitCurrent.2) := by
    show (abortReply (k.tasks.erase E) k.tasks.sched.current).exitCurrent = _
    rw [Tasks.abortReply_erase, Tasks.exitCurrent_erase]
  unfold killCurrent
  rw [hk]
  rcases (abortReply k.tasks k.tasks.sched.current).exitCurrent with ⟨s, _ | _⟩
  · rfl
  · rfl

/-- The IPC calls. -/
lemma withEp_erase (op : IpcOp) :
    (k.erase E).ipcOrPark (withEp (k.erase E).cnode (ipcOn op) (k.erase E).tasks) =
      (k.ipcOrPark (withEp k.cnode (ipcOn op) k.tasks)).map (erase E) := by
  have hc : (k.erase E).cnode = k.cnode := rfl
  unfold withEp
  dsimp only
  rw [k.x_erase E (i := 0) (by decide), k.x_erase E (i := 1) (by decide), hc]
  rcases epOf k.cnode ((k.tasks.tcb k.tasks.currentContext).ctx.x 0) with _ | e | ep
  · rfl
  · have hs : (k.erase E).tasks.setX (k.erase E).tasks.currentContext 0 (Abi.asU64 e) =
        (k.tasks.setX k.tasks.currentContext 0 (Abi.asU64 e)).erase E := k.tasks.setX_erase E _ _
    dsimp only
    rw [hs]
    rfl
  · have hi : ∀ b, ipcOn op (k.erase E).tasks ep b =
        ((ipcOn op k.tasks ep b).1.erase E, (ipcOn op k.tasks ep b).2) :=
      fun b => k.tasks.ipcOn_erase E ep op b
    dsimp only
    rw [hi]
    rcases ipcOn op k.tasks ep _ with ⟨s, _ | _⟩
    · rfl
    · rfl

/-! ### Events -/

/-- Returning the result of a handler. -/
lemma returning_erase (me : ℕ) {r : Option (ℤ × Kernel)} {r' : Option (ℤ × Kernel ω)}
    (h : r.map (eraseResult E) = r'.map (eraseResult E)) :
    (returning me r).map (erase E) = (returning me r').map (erase E) := by
  cases r with
  | none =>
    cases r' with
    | none => rfl
    | some b => cases h
  | some a =>
    cases r' with
    | none => cases h
    | some b =>
      obtain ⟨hv, hk⟩ := Prod.mk.inj (Option.some.inj h)
      show some ((a.2.ret me a.1).erase E) = some ((b.2.ret me b.1).erase E)
      rw [ret_erase, ret_erase, hv, hk]

/-- Returning the result of a handler that commutes with erasing. -/
lemma returning_erase_of_eq (me : ℕ) {r : Option (ℤ × Kernel)} {r' : Option (ℤ × Kernel ω)}
    (h : r = r'.map (eraseResult E)) :
    (returning me r).map (erase E) = (returning me r').map (erase E) := by
  refine returning_erase E me ?_
  rw [h, Option.map_map]
  congr 1
  funext a
  show (a.1, (a.2.erase E).erase E) = (a.1, a.2.erase E)
  rw [erase_erase]

/-- A system call. -/
lemma k0Syscall_erase :
    ((k.erase E).k0Syscall B).map (erase E) = (k.k0Syscall B).map (erase E) := by
  have hcur : (k.erase E).tasks.currentContext = k.tasks.currentContext := rfl
  have hyield : ((k.erase E).tasks.setX k.tasks.currentContext 0 0).rotate =
      (k.tasks.setX k.tasks.currentContext 0 0).rotate.erase E := by
    rw [← Tasks.rotate_erase, ← Tasks.setX_erase]
    rfl
  -- both sides take the same branch
  have hite : ∀ {c : Prop} [Decidable c] {a b : Option Kernel} {a' b' : Option (Kernel ω)},
      a.map (erase E) = a'.map (erase E) → b.map (erase E) = b'.map (erase E) →
      (if c then a else b).map (erase E) = (if c then a' else b').map (erase E) := by
    intro c _ a b a' b' ha hb
    by_cases hc : c
    · rw [if_pos hc, if_pos hc, ha]
    · rw [if_neg hc, if_neg hc, hb]
  unfold k0Syscall
  dsimp only
  rw [k.x_erase E (i := 0) (by decide), k.x_erase E (i := 1) (by decide),
    k.x_erase E (i := 2) (by decide), k.x_erase E (i := 3) (by decide),
    k.x_erase E (i := 8) (by decide), hcur]
  refine hite (returning_erase_of_eq E _ ?_)
    (hite ?_ (hite (map_erase_of_eq E (k.killCurrent_erase E)) ?_))
  · rw [sysPutc_erase]
    rfl
  · rw [hyield]
    exact map_erase_of_eq E rfl
  refine hite (returning_erase_of_eq E _ (k.sysRetype_erase E _ _)) ?_
  refine hite (returning_erase_of_eq E _ (k.sysMap_erase E _ _ _ _)) ?_
  refine hite (returning_erase E _ (k.sysTcbConfigure_erase E _ _ _ _)) ?_
  refine hite (returning_erase_of_eq E _ (k.sysTcbResume_erase E _)) ?_
  refine hite (map_erase_of_eq E (k.withEp_erase E .send)) ?_
  refine hite (map_erase_of_eq E (k.withEp_erase E .recv)) ?_
  refine hite (map_erase_of_eq E (k.withEp_erase E .call)) ?_
  refine hite (map_erase_of_eq E (k.withEp_erase E .replyRecv)) ?_
  exact map_erase_of_eq E (k.killCurrent_erase E)

/-- Skipping an instruction. -/
lemma skip_erase {regs : Context} {esr : UInt64} (hec : exceptionClass esr = 0x01)
    (h : (Event.sync regs esr).SkipsAlike E) :
    (((k.erase E).save (E.ctx regs)).el0Sync B esr).map (erase E) =
      ((k.save regs).el0Sync B esr).map (erase E) := by
  have h15 : ¬ exceptionClass esr = 0x15 := by
    rw [hec]
    decide
  -- the registers after the skip are written over the saved ones
  have hsave : ∀ {ω : Type} [Recorder ω] (k : Kernel ω) (regs : Context),
      ((k.save regs).el0Sync B esr).map (erase E) =
        ((checkedAdd regs.elr.toNat 4).map
          fun a => E.ctx { regs with elr := UInt64.ofNat a }).map
            ((k.erase E).save (E.ctx regs)).save := by
    intro ω _ k regs
    have hctx : ((k.save regs).tasks.tcb (k.save regs).tasks.currentContext).ctx = regs :=
      k.ctx_save regs
    unfold el0Sync
    dsimp only
    rw [if_neg h15, if_pos hec, hctx]
    cases checkedAdd regs.elr.toNat 4 with
    | none => rfl
    | some a =>
      refine congrArg some ?_
      rw [← save_erase, ← save_erase]
      rfl
  rw [hsave, hsave, erase_erase, E.idem, h hec]

/-- A step does not depend on what is erased.

**Proof sketch.** Every handler commutes with erasing, and every register that a handler reads is
left. The return address is read only to skip a `WFI` or `WFE`. -/
theorem step_erase {ev : Event} (hev : ev.SkipsAlike E) :
    ((k.erase E).step B (ev.erase E)).map (erase E) = (k.step B ev).map (erase E) := by
  cases ev with
  | store va b => exact map_erase_of_eq E (congrArg some (k.userStore_erase E va b))
  | irq regs int =>
    cases int with
    | timer =>
      refine map_erase_of_eq E (congrArg some ?_)
      rw [← save_erase, k0Preempt_erase]
    | spurious => exact map_erase_of_eq E (congrArg some (k.save_erase E regs).symm)
    | unexpected => rfl
  | sync regs esr =>
    by_cases hec : exceptionClass esr = 0x01
    · exact k.skip_erase E hec hev
    show (((k.erase E).save (E.ctx regs)).el0Sync B esr).map (erase E) =
      ((k.save regs).el0Sync B esr).map (erase E)
    rw [← save_erase]
    unfold el0Sync
    dsimp only
    rw [if_neg hec, if_neg hec]
    by_cases h15 : exceptionClass esr = 0x15
    · rw [if_pos h15, if_pos h15]
      exact (k.save regs).k0Syscall_erase E
    · rw [if_neg h15, if_neg h15]
      exact map_erase_of_eq E ((k.save regs).killCurrent_erase E)

/-- A step does not depend on the record. -/
theorem step_record (ev : Event) :
    (k.erase .record).step B ev = (k.step B ev).map (erase .record) := by
  have hev : ev.SkipsAlike .record := by
    cases ev with
    | sync regs esr => exact fun _ => rfl
    | irq regs int => trivial
    | store va b => trivial
  have herase : ev.erase .record = ev := by cases ev <;> rfl
  have h := k.step_erase (B := B) .record hev
  rw [herase] at h
  exact Option.map_id'.symm.trans h

end Kernel

end K0
