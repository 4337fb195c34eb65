import K0.Kernel.Erasure

set_option relaxedAutoImplicit false
set_option autoImplicit false

/-!
# Private registers

No step of the kernel depends on the private registers of a task: `x6`, `x7`, `x9` to `x30`, the
stack pointer, the return address and the thread registers. Erasing them is one of the erasures of
`K0.Kernel.Erasure`.

## Main definitions

* `K0.Context.pub`, `K0.Tasks.pub`, `K0.Kernel.pub`, `K0.Event.pub`: private registers erased.
* `K0.Erasure.registers`: the erasure of private registers.
* `K0.Event.wraps`: the one event for which the return address matters.

## Main results

* `K0.Kernel.step_pub`, `K0.Kernel.step_alike`: a step does not depend on private registers.
-/

namespace K0

open Word Memory

/-! ### Erasing private registers -/

/-- The context without its private registers. -/
def Context.pub (c : Context) : Context :=
  ⟨fun i => if i ≤ 5 ∨ i = 8 then c.x i else 0, 0, 0, c.spsr, 0, 0⟩

/-- The control block without private registers. -/
def Tcb.pub (v : Tcb) : Tcb := { v with ctx := v.ctx.pub }

/-- The tasks without private registers. -/
def Tasks.pub (s : Tasks) : Tasks := { s with tcb := fun t => (s.tcb t).pub }

/-- The kernel state without private registers. -/
def Kernel.pub (k : Kernel) : Kernel := { k with tasks := k.tasks.pub }

/-- The event without private registers. -/
def Event.pub : Event → Event
  | .sync regs esr => .sync regs.pub esr
  | .irq regs int => .irq regs.pub int
  | .store va b => .store va b

namespace Context

/-- A register that is not private is read as it is. -/
lemma pub_x (c : Context) {i : Fin 31} (hi : i ≤ 5 ∨ i = 8) : c.pub.x i = c.x i := if_pos hi

/-- Writing `x0` commutes with erasing. -/
lemma setX_pub (c : Context) (v : UInt64) : c.pub.setX 0 v = (c.setX 0 v).pub := by
  unfold pub setX
  congr 1
  funext i
  by_cases hi : i = 0
  · subst hi
    simp
  · simp [Function.update_of_ne hi]

/-- Delivering a message commutes with erasing. -/
lemma deliver_pub (src dst : Context) : deliver src.pub dst.pub = (deliver src dst).pub := by
  unfold pub deliver
  congr 1
  funext i
  dsimp only
  by_cases h1 : i = 0 ∨ i = 1
  · have hle : i ≤ 5 := by
      rcases h1 with rfl | rfl <;> decide
    simp [h1, hle]
  · by_cases h2 : 2 ≤ i ∧ i ≤ 5
    · simp [h1, h2]
    · simp [h1, h2]

/-- Erasing twice is erasing once. -/
lemma pub_pub (c : Context) : c.pub.pub = c.pub := by
  unfold pub
  congr 1
  funext i
  dsimp only
  split_ifs <;> rfl

/-- The context of a new control block. -/
lemma pub_zeroed : zeroed.pub = zeroed := by
  unfold pub zeroed
  congr 1
  funext i
  exact ite_self 0

/-- Writing a private register. -/
lemma pub_setX (c : Context) {i : Fin 31} (hi : ¬ (i ≤ 5 ∨ i = 8)) (v : UInt64) :
    (c.setX i v).pub = c.pub := by
  unfold pub setX
  congr 1
  funext j
  dsimp only
  by_cases hj : j = i
  · subst hj
    rw [if_neg hi, if_neg hi]
  · rw [Function.update_of_ne hj]

end Context

/-- Writing a private register of a task. -/
lemma Tasks.pub_setX (s : Tasks) (t : ℕ) {i : Fin 31} (hi : ¬ (i ≤ 5 ∨ i = 8)) (v : UInt64) :
    (s.setX t i v).pub = s.pub := by
  unfold pub setX setCtx modTcb
  congr 1
  funext u
  by_cases hu : u = t
  · subst hu
    simp only [Function.update_self]
    unfold Tcb.pub
    rw [Context.pub_setX _ hi]
  · simp only [Function.update_of_ne hu]

/-- Private registers can be erased. -/
def Erasure.registers : Erasure where
  ctx := Context.pub
  idem := Context.pub_pub
  zeroed := Context.pub_zeroed
  x c _ hi := c.pub_x hi
  setX := Context.setX_pub
  deliver := Context.deliver_pub

/-! ### The independence of a step -/

/-- The event skips an instruction at the very end of the address space, which panics. -/
def Event.wraps : Event → Prop
  | .sync regs esr => Kernel.exceptionClass esr = 0x01 ∧ checkedAdd regs.elr.toNat 4 = none
  | _ => False

/-- Such an event has no next state. -/
lemma Kernel.step_of_wraps {P : Platform} {B : PoolBase P} (k : Kernel) {ev : Event}
    (h : ev.wraps) : k.step B ev = none := by
  cases ev with
  | store va b => exact h.elim
  | irq regs int => exact h.elim
  | sync regs esr =>
    obtain ⟨hec, helr⟩ := h
    have hctx : ((k.save regs).tasks.tcb (k.save regs).tasks.currentContext).ctx = regs :=
      k.ctx_save regs
    unfold step el0Sync
    dsimp only
    rw [hctx, if_neg (by rw [hec]; decide), if_pos hec, helr]

/-- Erasing the return address does not interfere with skipping an instruction elsewhere. -/
lemma Event.skipsAlike_of_not_wraps {ev : Event} (h : ¬ ev.wraps) : ev.SkipsAlike .registers := by
  cases ev with
  | store va b => trivial
  | irq regs int => trivial
  | sync regs esr =>
    intro hec
    obtain ⟨elr, helr⟩ : ∃ elr, checkedAdd regs.elr.toNat 4 = some elr := by
      cases he : checkedAdd regs.elr.toNat 4 with
      | none => exact absurd ⟨hec, he⟩ h
      | some elr => exact ⟨elr, rfl⟩
    have hzero : checkedAdd regs.pub.elr.toNat 4 = some 4 := rfl
    show (checkedAdd regs.pub.elr.toNat 4).map _ = _
    rw [helr, hzero]
    exact congrArg some regs.pub_pub

/-- A step does not depend on private registers: erasing them first changes nothing else. -/
theorem Kernel.step_pub {P : Platform} {B : PoolBase P} (k : Kernel) (ev : Event)
    (hev : ¬ ev.wraps) : (k.pub.step B ev.pub).map pub = (k.step B ev).map pub := by
  have hpub : ev.erase .registers = ev.pub := by cases ev <;> rfl
  rw [← hpub]
  exact k.step_erase .registers (ev.skipsAlike_of_not_wraps hev)

/-- Two states that differ in private registers only take steps to such states, at events that
differ in private registers only and both skip past the end of the address space or neither. -/
theorem Kernel.step_alike {P : Platform} {B : PoolBase P} {k k₂ : Kernel} {ev ev₂ : Event}
    (hk : k.pub = k₂.pub) (hev : ev.pub = ev₂.pub) (hw : ev.wraps ↔ ev₂.wraps) :
    (k.step B ev).map pub = (k₂.step B ev₂).map pub := by
  by_cases h : ev.wraps
  · rw [k.step_of_wraps h, k₂.step_of_wraps (hw.mp h)]
  · rw [← k.step_pub ev h, ← k₂.step_pub ev₂ fun h₂ => h (hw.mpr h₂), hk, hev]

end K0
