import K0.Cap.Ledger
import K0.Ipc.World
import K0.Kernel.Basic

set_option relaxedAutoImplicit false
set_option autoImplicit false

/-!
# What a step of the kernel can do

The inversion of `K0.Kernel.step`. A system call that returns to its caller either fails and
changes nothing but the caller's `x0`, or does one of the other things listed in
`K0.Kernel.Handled`; an event is such a call, ends the running task, is an IPC call on an
endpoint, or needs no handler at all. Every invariant of the kernel is proved by cases on these.

## Main definitions

* `K0.Event.ipc?`, `K0.Event.dies?`: which events are IPC calls, and which end the task.
* `K0.Kernel.Handled`, `K0.Kernel.Next`: what handlers and steps can do.
* `K0.Kernel.entered`: the state in which the kernel starts to handle an event.

## Main results

* `K0.Kernel.step_next`: every step is one of these.
-/

namespace K0

open Word Memory

/-! ### Events -/

/-- The IPC call with a given number. -/
def ipcOp? (number : UInt64) : Option IpcOp :=
  if number = Abi.Syscall.send then some .send
  else if number = Abi.Syscall.recv then some .recv
  else if number = Abi.Syscall.call then some .call
  else if number = Abi.Syscall.replyRecv then some .replyRecv
  else none

/-- The numbers of the system calls that return to a task. -/
def returningCalls : List UInt64 :=
  [Abi.Syscall.debugPutc, Abi.Syscall.yield, Abi.Syscall.retype, Abi.Syscall.map,
    Abi.Syscall.tcbConfigure, Abi.Syscall.tcbResume, Abi.Syscall.send, Abi.Syscall.recv,
    Abi.Syscall.call, Abi.Syscall.replyRecv]

/-- An IPC call: the operation, the registers at the trap, the endpoint and the flag. -/
structure IpcTrap where
  op : IpcOp
  regs : Context
  ep : ℕ
  nonblock : Bool

namespace Event

/-- The IPC call on a valid endpoint that an event is, if it is one. -/
def ipc? (c : CNode) : Event → Option IpcTrap
  | .sync regs esr =>
    if Kernel.exceptionClass esr = 0x15 then
      match ipcOp? (regs.x 8), epOf c (regs.x 0) with
      | some op, some (.ok e) => some ⟨op, regs, e, regs.x 1 &&& Abi.nonblock ≠ 0⟩
      | _, _ => none
    else none
  | _ => none

/-- The registers of the running task at an event that ends it: a fault, `EXIT` or an unknown
system call. -/
def dies? : Event → Option Context
  | .sync regs esr =>
    if Kernel.exceptionClass esr = 0x15 then
      if regs.x 8 ∈ returningCalls then none else some regs
    else if Kernel.exceptionClass esr = 0x01 then none else some regs
  | _ => none

end Event

/-! ### Handlers -/

namespace Kernel

variable {ω : Type} [Recorder ω] {P : Platform} (B : PoolBase P)

/-- The error codes that a system call can return from its own trap. -/
def ownErrors : List ℤ :=
  [Abi.Err.badSlot, Abi.Err.notUntyped, Abi.Err.exhausted, Abi.Err.outOfSlots, Abi.Err.badType,
    Abi.Err.badVa, Abi.Err.badPerm, Abi.Err.alreadyMapped, Abi.Err.missingTable, Abi.Err.overlap,
    Abi.Err.kernelResource, Abi.Err.badCap, Abi.Err.badState, Abi.Err.wouldBlock]

/-- No error code is zero. -/
lemma asU64_ne_zero {v : ℤ} (hv : v ∈ ownErrors) : Abi.asU64 v ≠ 0 := by
  revert v
  decide

/-- The value that a call has returned. -/
lemma x_ret (k : Kernel ω) (me : ℕ) (v : ℤ) :
    ((k.ret me v).tasks.tcb me).ctx.x 0 = Abi.asU64 v := by
  unfold ret Tasks.setX Tasks.setCtx Tasks.modTcb
  dsimp only
  rw [Function.update_self]
  exact Context.x_setX_self _ _ _

/-- What a handler other than an IPC call can do, with the value that it returns. -/
inductive Handled (k : Kernel ω) : ℤ → Kernel ω → Prop
  | fail (v : ℤ) (hv : v ∈ ownErrors) : Handled k v k
  | print (out : List UInt8) : Handled k 0 { k with console := out }
  | configure (i j base root t : ℕ) (ctx : Context) (hs : k.cnode.cap i = some (.addrSpace root))
      (hc : k.cnode.cap j = some (.tcb base)) (ht : checkedAdd base Abi.kernelVaOffset = some t)
      (hst : (k.tasks.tcb t).state = .inactive) :
      Handled k 0 { k with
        tasks := ((k.tasks.setCtx t ctx).modTcb .ttbr0Pa t
          fun v => { v with ttbr0Pa := root }).setState t .stopped }
  | resume (j base t : ℕ) (hc : k.cnode.cap j = some (.tcb base))
      (ht : checkedAdd base Abi.kernelVaOffset = some t)
      (hst : (k.tasks.tcb t).state = .stopped) :
      Handled k 0 { k with tasks := k.tasks.enqueue t }
  | mapFrame (i j root base va : ℕ) (perm : UserPerm) (m : Mem)
      (hs : k.cnode.cap i = some (.addrSpace root)) (hc : k.cnode.cap j = some (.frame base false))
      (hp : perm ≠ .textUser) (hm : userMapFrame P root va base perm k.mem = pure m) :
      Handled k 0 { k with mem := m, cnode := k.cnode.set j (.frame base true) }
  | mapTable (i j root base va level : ℕ) (m : Mem) (hs : k.cnode.cap i = some (.addrSpace root))
      (hc : k.cnode.cap j = some (.pageTable base false))
      (hm : userInstallTable P root va base k.mem = pure (level, m)) :
      Handled k 0 { k with mem := m, cnode := k.cnode.set j (.pageTable base true) }
  | unprepared (slot base size used : ℕ) (e : MmuError) (pool : Pool)
      (hcap : k.cnode.cap slot = some (.untyped base size used))
      (hroom : k.cnode.used < cnodeSlots) (hleft : GranuleLeft P.granule base size used)
      (hmap : mapKernelWindow B
        ⟨roundUp P.granule (base + used), roundUp P.granule (base + used) + P.granule⟩ k.pool =
          some (.error e, pool)) :
      Handled k Abi.Err.kernelResource { k with pool := pool }
  | carve (slot base size used : ℕ) (kind : ObjKind) (pool : Pool) (d : CNode)
      (hcap : k.cnode.cap slot = some (.untyped base size used))
      (hroom : k.cnode.used < cnodeSlots) (hleft : GranuleLeft P.granule base size used)
      (hmap : mapKernelWindow B
        ⟨roundUp P.granule (base + used), roundUp P.granule (base + used) + P.granule⟩ k.pool =
          some (.ok (), pool))
      (hlt : roundUp P.granule (base + used) + Abi.kernelVaOffset < 2 ^ 64)
      (hd : k.cnode.retyped d slot base size P.granule (roundUp P.granule (base + used)) kind) :
      Handled k k.cnode.used
        { k with
          cnode := d
          pool := pool
          mem := clear k.mem (roundUp P.granule (base + used)) P.granule
          tasks := k.tasks.clear (roundUp P.granule (base + used) + Abi.kernelVaOffset) P.granule }

variable {B} {k k' : Kernel ω} {v : ℤ}

/-- Printing. -/
lemma sysPutc_handled (k : Kernel ω) (slot byte : UInt64) :
    Handled B k (sysPutc k slot byte).1 (sysPutc k slot byte).2 := by
  have hcap : Abi.Err.badCap ∈ ownErrors := by decide
  have hslot : Abi.Err.badSlot ∈ ownErrors := by decide
  unfold sysPutc
  split
  · exact .print _
  · exact .fail _ hcap
  · exact .fail _ hslot

/-- A slot with an address space. -/
lemma addrSpaceAt_eq {c : CNode} {s : UInt64} {r : Except ℤ ℕ} (h : addrSpaceAt c s = r) :
    (∃ root, r = .ok root ∧ c.cap s.toNat = some (.addrSpace root)) ∨
      ∃ e ∈ ownErrors, r = .error e := by
  unfold addrSpaceAt at h
  split at h
  · rename_i root hc
    exact .inl ⟨root, h.symm, hc⟩
  · exact .inr ⟨_, by decide, h.symm⟩
  · exact .inr ⟨_, by decide, h.symm⟩

/-- A slot with a control block. -/
lemma tcbAt_eq {c : CNode} {s : UInt64} {r : Except ℤ ℕ} (h : tcbAt c s = r) :
    (∃ base, r = .ok base ∧ c.cap s.toNat = some (.tcb base)) ∨
      ∃ e ∈ ownErrors, r = .error e := by
  unfold tcbAt at h
  split at h
  · rename_i base hc
    exact .inl ⟨base, h.symm, hc⟩
  · exact .inr ⟨_, by decide, h.symm⟩
  · exact .inr ⟨_, by decide, h.symm⟩

/-- A result without any effect but an error. -/
lemma handled_of_error {e : ℤ} (he : e ∈ ownErrors) (h : some (e, k) = some (v, k')) :
    Handled B k v k' := by
  obtain ⟨rfl, rfl⟩ := Prod.mk.inj (Option.some.inj h)
  exact .fail _ he

/-- Configuring a task. -/
lemma sysTcbConfigure_handled {slot entry stack aspace : UInt64}
    (h : sysTcbConfigure P k slot entry stack aspace = some (v, k')) : Handled B k v k' := by
  unfold sysTcbConfigure at h
  split_ifs at h
  · exact handled_of_error (by decide) h
  · exact handled_of_error (by decide) h
  · rcases addrSpaceAt_eq (c := k.cnode) (s := aspace) rfl with ⟨root, hr, hs⟩ | ⟨e, he, hr⟩
    · rcases tcbAt_eq (c := k.cnode) (s := slot) rfl with ⟨base, hb, hc⟩ | ⟨e, he, hb⟩
      · rw [hr, hb] at h
        obtain ⟨t, ht, h⟩ := Option.map_eq_some_iff.mp h
        split_ifs at h with hst
        · exact handled_of_error (by decide) (congrArg some h)
        · obtain ⟨rfl, rfl⟩ := Prod.mk.inj h
          exact .configure _ _ base root t _ hs hc ht (not_not.mp hst)
      · rw [hr, hb] at h
        exact handled_of_error he h
    · rw [hr] at h
      exact handled_of_error he h

/-- Starting a task. -/
lemma sysTcbResume_handled {slot : UInt64} (h : sysTcbResume k slot = some (v, k')) :
    Handled B k v k' := by
  unfold sysTcbResume at h
  rcases tcbAt_eq (c := k.cnode) (s := slot) rfl with ⟨base, hb, hc⟩ | ⟨e, he, hb⟩
  · rw [hb] at h
    obtain ⟨t, ht, h⟩ := Option.map_eq_some_iff.mp h
    split_ifs at h with hst
    · exact handled_of_error (by decide) (congrArg some h)
    · obtain ⟨rfl, rfl⟩ := Prod.mk.inj h
      exact .resume _ base t hc ht (not_not.mp hst)
  · rw [hb] at h
    exact handled_of_error he h

/-- The error code of a failed mapping is one of those that a call can return. -/
lemma mmuErr_mem {e : MmuError} (h : mmuErr e = some v) : v ∈ ownErrors := by
  cases e <;> simp only [mmuErr, Option.some.injEq, reduceCtorEq] at h <;> subst h <;> decide

/-- Mapping. -/
lemma sysMap_handled {slot va perm aspace : UInt64}
    (h : sysMap P k slot va perm aspace = some (v, k')) : Handled B k v k' := by
  unfold sysMap at h
  rcases addrSpaceAt_eq (c := k.cnode) (s := aspace) rfl with ⟨root, hr, hs⟩ | ⟨e, he, hr⟩
  · rw [hr] at h
    dsimp only at h
    split at h
    · rename_i base mapped hc
      cases mapped with
      | true =>
        cases h
        exact .fail _ (by decide)
      | false =>
        simp only [Bool.false_eq_true, ↓reduceIte, mapFrame] at h
        split at h
        · cases h
          exact .fail _ (by decide)
        · rename_i p hp
          have hne : p ≠ .textUser := by
            rintro rfl
            unfold userPerm at hp
            split_ifs at hp <;> simp at hp
          split at h
          · cases h
          · obtain ⟨u, hu, he⟩ := Option.map_eq_some_iff.mp h
            cases he
            exact .fail _ (mmuErr_mem hu)
          · rename_i m hm
            cases h
            exact .mapFrame _ _ root base _ p m hs hc hne hm
    · rename_i base installed hc
      cases installed with
      | true =>
        cases h
        exact .fail _ (by decide)
      | false =>
        simp only [Bool.false_eq_true, ↓reduceIte, mapTable] at h
        split at h
        · cases h
        · obtain ⟨u, hu, he⟩ := Option.map_eq_some_iff.mp h
          cases he
          exact .fail _ (mmuErr_mem hu)
        · rename_i level m hm
          cases h
          exact .mapTable _ _ root base _ level m hs hc hm
    · exact handled_of_error (by decide) h
    · exact handled_of_error (by decide) h
  · rw [hr] at h
    exact handled_of_error he h

/-- The preparation of a granule: the mapping of its alias decides, and on success the granule is
cleared. -/
lemma prepGranule_eq_some {pa : ℕ} {w w' : Pool × Mem × Tasks ω} {b : Bool}
    (h : prepGranule B pa w = some (b, w')) :
    (b = false ∧ ∃ e, mapKernelWindow B ⟨pa, pa + P.granule⟩ w.1 = some (.error e, w'.1) ∧
      w'.2 = w.2) ∨
    (b = true ∧ mapKernelWindow B ⟨pa, pa + P.granule⟩ w.1 = some (.ok (), w'.1) ∧
      pa + Abi.kernelVaOffset < 2 ^ 64 ∧ w'.2.1 = clear w.2.1 pa P.granule ∧
      w'.2.2 = w.2.2.clear (pa + Abi.kernelVaOffset) P.granule) := by
  unfold prepGranule at h
  obtain ⟨stop, hstop, h⟩ := Option.bind_eq_some_iff.mp h
  obtain ⟨-, rfl⟩ := checkedAdd_eq_some.mp hstop
  obtain ⟨⟨r, pool⟩, hmap, h⟩ := Option.bind_eq_some_iff.mp h
  cases r with
  | error e =>
    obtain ⟨rfl, rfl⟩ := Prod.mk.inj (Option.some.inj h)
    exact .inl ⟨rfl, e, hmap, rfl⟩
  | ok u =>
    obtain ⟨kva, hkva, h⟩ := Option.bind_eq_some_iff.mp h
    obtain ⟨hlt, hsum⟩ := checkedAdd_eq_some.mp hkva
    obtain ⟨rfl, rfl⟩ := Prod.mk.inj (Option.some.inj h)
    refine .inr ⟨rfl, hmap, hlt, ?_, ?_⟩
    · rw [hsum, physOf, Nat.add_sub_cancel]
    · rw [hsum]

/-- Carving an object. -/
lemma sysRetype_handled (hv : k.cnode.Valid) {slot kind : UInt64}
    (h : sysRetype B k slot kind = some (v, k')) : Handled B k v k' := by
  unfold sysRetype at h
  split at h
  · cases h
    exact .fail _ (by decide)
  · rename_i kind' hkind
    have hout := CNode.retype_cases P.pageShift_lt hv slot.toNat kind' (prepGranule B)
      (k.pool, k.mem, k.tasks)
    change CNode.RetypeOutcome _ _ _ _ _ _
      (k.cnode.retype slot.toNat kind' P.granule (prepGranule B) (k.pool, k.mem, k.tasks)) at hout
    split at h
    · cases h
    · rename_i r cnode pool mem tasks hr
      rw [hr] at hout
      cases hout with
      | badSlot =>
        cases h
        exact .fail _ (by decide)
      | notUntyped =>
        cases h
        exact .fail _ (by decide)
      | outOfSlots =>
        cases h
        exact .fail _ (by decide)
      | exhausted =>
        cases h
        exact .fail _ (by decide)
      | prepFailed base size used _ hcap hroom hleft hp =>
        rcases prepGranule_eq_some hp with ⟨-, e, hmap, hrest⟩ | ⟨hb, -⟩
        · cases hrest
          cases h
          exact .unprepared _ base size used e pool hcap hroom hleft hmap
        · cases hb
      | ok base size used _ _ hcap hroom hleft hp hd =>
        rcases prepGranule_eq_some hp with ⟨hb, -⟩ | ⟨-, hmap, hlt, hm, ht⟩
        · cases hb
        · dsimp only at hmap hm ht
          subst hm ht
          cases h
          exact .carve _ base size used kind' pool cnode hcap hroom hleft hmap hlt hd

/-! ### Events -/

variable (B)

/-- What an event can do. The running task goes on, with or without the next one getting its turn;
it ends; a call other than IPC returns to it; or it makes an IPC call on an endpoint. -/
inductive Next (k : Kernel ω) : Event → Kernel ω → Prop
  | store (va : ℕ) (b : UInt8) : Next k (.store va b) (k.userStore P va b)
  | spurious (regs : Context) : Next k (.irq regs .spurious) (k.save regs)
  | tick (regs : Context) : Next k (.irq regs .timer) (k.save regs).k0Preempt
  | skip (regs : Context) (esr : UInt64) (elr : ℕ) (hec : exceptionClass esr = 0x01)
      (helr : checkedAdd regs.elr.toNat 4 = some elr) :
      Next k (.sync regs esr) ((k.save regs).save { regs with elr := UInt64.ofNat elr })
  | yield (regs : Context) (esr : UInt64) (hec : exceptionClass esr = 0x15)
      (hx : regs.x 8 = Abi.Syscall.yield) :
      Next k (.sync regs esr) ((k.save regs).ret k.tasks.currentContext 0).k0Preempt
  | die (regs : Context) (esr : UInt64) (k' : Kernel ω)
      (hd : (Event.sync regs esr).dies? = some regs)
      (hk : (k.save regs).killCurrent = some k') : Next k (.sync regs esr) k'
  | ret (regs : Context) (esr : UInt64) (v : ℤ) (k' : Kernel ω)
      (hec : exceptionClass esr = 0x15) (hx : regs.x 8 ∈ returningCalls)
      (hi : (Event.sync regs esr).ipc? k.cnode = none) (hh : Handled B (k.save regs) v k') :
      Next k (.sync regs esr) (k'.ret k.tasks.currentContext v)
  | ipc (esr : UInt64) (c : IpcTrap) (s : Tasks ω)
      (hi : (Event.sync c.regs esr).ipc? k.cnode = some c)
      (hs : ipcOn c.op (k.save c.regs).tasks c.ep c.nonblock = (s, true)) :
      Next k (.sync c.regs esr) { k with tasks := s }

variable {B}

/-- The state in which the kernel starts to handle an event: the registers of the running task
have been saved. -/
def entered (k : Kernel ω) : Event → Kernel ω
  | .sync regs _ => k.save regs
  | .irq regs _ => k.save regs
  | .store _ _ => k

/-- The registers of the running task after they were saved. -/
lemma ctx_save (k : Kernel ω) (regs : Context) :
    ((k.save regs).tasks.tcb k.tasks.currentContext).ctx = regs := by
  unfold save Tasks.setCtx Tasks.modTcb
  dsimp only
  rw [Function.update_self]

/-- Saving the registers twice. -/
lemma save_save (k : Kernel) (regs regs' : Context) :
    (k.save regs).save regs' = k.save regs' := by
  unfold save Tasks.setCtx Tasks.modTcb
  dsimp only
  rw [Function.update_self, Function.update_idem]

/-- Writing a saved general register of the running task. -/
lemma save_setX (k : Kernel) (regs : Context) (i : Fin 31) (v : UInt64) :
    { k.save regs with tasks := (k.save regs).tasks.setX k.tasks.currentContext i v } =
      k.save (regs.setX i v) := by
  rw [← k.save_save regs (regs.setX i v)]
  unfold Tasks.setX
  rw [ctx_save]
  rfl

/-- Returning from the trap without any other effect. -/
lemma save_ret (k : Kernel) (regs : Context) (v : ℤ) :
    (k.save regs).ret k.tasks.currentContext v = k.save (regs.setX 0 (Abi.asU64 v)) :=
  k.save_setX regs 0 (Abi.asU64 v)

/-- A handler that returns to the running task, with its registers saved. -/
lemma returning_eq_some {me : ℕ} {r : Option (ℤ × Kernel ω)} (h : returning me r = some k') :
    ∃ v k₁, r = some (v, k₁) ∧ k' = k₁.ret me v := by
  unfold returning at h
  split at h
  · cases h
  · rename_i v k₁
    exact ⟨v, k₁, rfl, (Option.some.inj h).symm⟩

omit [Recorder ω] in
/-- A store changes nothing but memory. -/
lemma userStore_eq (k : Kernel ω) (va : ℕ) (b : UInt8) :
    ∃ m, k.userStore P va b = { k with mem := m } := by
  unfold userStore
  split
  · exact ⟨k.mem, rfl⟩
  · split_ifs
    · exact ⟨_, rfl⟩
    · exact ⟨k.mem, rfl⟩

/-- The end of the running task changes nothing but the tasks. -/
lemma killCurrent_eq_some (h : k.killCurrent = some k') :
    k' = { k with tasks := (abortReply k.tasks k.tasks.sched.current).exitCurrent.1 } ∧
      (abortReply k.tasks k.tasks.sched.current).exitCurrent.2 = true := by
  unfold killCurrent at h
  split at h
  · cases h
  · rename_i s hs
    obtain rfl := Option.some.inj h
    rw [hs]
    exact ⟨rfl, rfl⟩

omit [Recorder ω] in
/-- An IPC call that leaves a task to run. -/
lemma ipcOrPark_eq_some {r : Option (Tasks ω × Bool)} (h : k.ipcOrPark r = some k') :
    ∃ s, r = some (s, true) ∧ k' = { k with tasks := s } := by
  unfold ipcOrPark at h
  split at h
  · cases h
  · cases h
  · rename_i s
    exact ⟨s, rfl, (Option.some.inj h).symm⟩

/-- The errors of an endpoint slot are those of a call that fails. -/
lemma epOf_error {c : CNode} {slot : UInt64} {e : ℤ} (h : epOf c slot = some (.error e)) :
    e ∈ ownErrors := by
  unfold epOf at h
  split at h
  · obtain ⟨_, -, h⟩ := Option.map_eq_some_iff.mp h
    cases h
  · cases h
    decide
  · cases h
    decide

/-- The prologue of an IPC call with the registers just saved: it fails on the slot or goes on to
the call on the endpoint. -/
lemma next_of_withEp (op : IpcOp) {regs : Context} {esr : UInt64}
    (hec : exceptionClass esr = 0x15) (hop : ipcOp? (regs.x 8) = some op)
    (hx : regs.x 8 ∈ returningCalls)
    (h : (k.save regs).ipcOrPark (withEp k.cnode (ipcOn op) (k.save regs).tasks) = some k') :
    Next B k (.sync regs esr) k' := by
  obtain ⟨s, hr, rfl⟩ := ipcOrPark_eq_some h
  unfold withEp at hr
  have hctx : ((k.save regs).tasks.tcb (k.save regs).tasks.currentContext).ctx = regs :=
    k.ctx_save regs
  simp only [hctx] at hr
  split at hr
  · cases hr
  · rename_i e he
    obtain ⟨rfl, -⟩ := Prod.mk.inj (Option.some.inj hr)
    refine .ret regs esr e (k.save regs) hec hx ?_ (.fail e (epOf_error he))
    simp only [Event.ipc?, hec, ↓reduceIte, hop, he]
  · rename_i ep he
    refine .ipc esr ⟨op, regs, ep, regs.x 1 &&& Abi.nonblock ≠ 0⟩ s ?_ (Option.some.inj hr)
    simp only [Event.ipc?, hec, ↓reduceIte, hop, he]

/-- A system call. -/
lemma k0Syscall_next (hv : k.cnode.Valid) {regs : Context} {esr : UInt64}
    (hec : exceptionClass esr = 0x15) (h : (k.save regs).k0Syscall B = some k') :
    Next B k (.sync regs esr) k' := by
  unfold k0Syscall at h
  have hctx : ((k.save regs).tasks.tcb (k.save regs).tasks.currentContext).ctx = regs :=
    k.ctx_save regs
  dsimp only at h
  rw [hctx] at h
  -- a call that is neither IPC nor the end of the task
  have hret : ∀ {r : Option (ℤ × Kernel ω)}, regs.x 8 ∈ returningCalls →
      ipcOp? (regs.x 8) = none → (∀ v k₁, r = some (v, k₁) → Handled B (k.save regs) v k₁) →
      returning (k.save regs).tasks.currentContext r = some k' → Next B k (.sync regs esr) k' := by
    intro r hx hop hr hk
    obtain ⟨v, k₁, hv', rfl⟩ := returning_eq_some hk
    refine .ret regs esr v k₁ hec hx ?_ (hr v k₁ hv')
    simp only [Event.ipc?, hec, ↓reduceIte, hop]
  have hdies : regs.x 8 ∉ returningCalls → (Event.sync regs esr).dies? = some regs := by
    intro hnot
    simp only [Event.dies?, hec, ↓reduceIte, hnot]
  by_cases h1 : regs.x 8 = Abi.Syscall.debugPutc
  · rw [if_pos h1] at h
    refine hret (by rw [h1]; decide) (by rw [h1]; decide) (fun v k₁ hr => ?_) h
    obtain ⟨rfl, rfl⟩ := Prod.mk.inj (Option.some.inj hr)
    exact sysPutc_handled _ _ _
  rw [if_neg h1] at h
  by_cases h2 : regs.x 8 = Abi.Syscall.yield
  · rw [if_pos h2] at h
    obtain rfl := Option.some.inj h
    exact .yield regs esr hec h2
  rw [if_neg h2] at h
  by_cases h3 : regs.x 8 = Abi.Syscall.exit
  · rw [if_pos h3] at h
    exact .die regs esr k' (hdies (by rw [h3]; decide)) h
  rw [if_neg h3] at h
  by_cases h4 : regs.x 8 = Abi.Syscall.retype
  · rw [if_pos h4] at h
    exact hret (by rw [h4]; decide) (by rw [h4]; decide)
      (fun v k₁ hr => sysRetype_handled hv hr) h
  rw [if_neg h4] at h
  by_cases h5 : regs.x 8 = Abi.Syscall.map
  · rw [if_pos h5] at h
    exact hret (by rw [h5]; decide) (by rw [h5]; decide) (fun v k₁ hr => sysMap_handled hr) h
  rw [if_neg h5] at h
  by_cases h6 : regs.x 8 = Abi.Syscall.tcbConfigure
  · rw [if_pos h6] at h
    exact hret (by rw [h6]; decide) (by rw [h6]; decide)
      (fun v k₁ hr => sysTcbConfigure_handled hr) h
  rw [if_neg h6] at h
  by_cases h7 : regs.x 8 = Abi.Syscall.tcbResume
  · rw [if_pos h7] at h
    exact hret (by rw [h7]; decide) (by rw [h7]; decide)
      (fun v k₁ hr => sysTcbResume_handled hr) h
  rw [if_neg h7] at h
  by_cases h8 : regs.x 8 = Abi.Syscall.send
  · rw [if_pos h8] at h
    exact next_of_withEp .send hec (by rw [h8]; decide) (by rw [h8]; decide) h
  rw [if_neg h8] at h
  by_cases h9 : regs.x 8 = Abi.Syscall.recv
  · rw [if_pos h9] at h
    exact next_of_withEp .recv hec (by rw [h9]; decide) (by rw [h9]; decide) h
  rw [if_neg h9] at h
  by_cases h10 : regs.x 8 = Abi.Syscall.call
  · rw [if_pos h10] at h
    exact next_of_withEp .call hec (by rw [h10]; decide) (by rw [h10]; decide) h
  rw [if_neg h10] at h
  by_cases h11 : regs.x 8 = Abi.Syscall.replyRecv
  · rw [if_pos h11] at h
    exact next_of_withEp .replyRecv hec (by rw [h11]; decide) (by rw [h11]; decide) h
  rw [if_neg h11] at h
  refine .die regs esr k' (hdies ?_) h
  simp only [returningCalls, List.mem_cons, List.not_mem_nil, or_false, not_or]
  exact ⟨h1, h2, h4, h5, h6, h7, h8, h9, h10, h11⟩

/-- Every step is one of those listed in `Next`. -/
theorem step_next (hv : k.cnode.Valid) {ev : Event} (h : k.step B ev = some k') :
    Next B k ev k' := by
  cases ev with
  | store va b =>
    obtain rfl := Option.some.inj h
    exact .store va b
  | irq regs int =>
    cases int with
    | timer =>
      obtain rfl := Option.some.inj h
      exact .tick regs
    | spurious =>
      obtain rfl := Option.some.inj h
      exact .spurious regs
    | unexpected => cases h
  | sync regs esr =>
    unfold step el0Sync at h
    dsimp only at h
    split_ifs at h with h1 h2
    · exact k0Syscall_next hv h1 h
    · have hctx : ((k.save regs).tasks.tcb (k.save regs).tasks.currentContext).ctx = regs :=
        k.ctx_save regs
      simp only [hctx] at h
      split at h
      · cases h
      · rename_i elr helr
        obtain rfl := Option.some.inj h
        exact .skip regs esr elr h2 helr
    · refine .die regs esr k' ?_ h
      simp only [Event.dies?, h1, h2, ↓reduceIte]

end Kernel

end K0
