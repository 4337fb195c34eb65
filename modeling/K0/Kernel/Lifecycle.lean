import K0.Kernel.Lawful
import K0.Kernel.Queues

set_option relaxedAutoImplicit false
set_option autoImplicit false

/-!
# The life of a task

Along every run the states that a control block goes through, counting every single write, form a
path of the allowed steps: `inactive`, `stopped`, then the states of a started task from `ready`
on, then `dead`. It is configured and started at most once each, and a control block whose task
has ended is never written again.

## Main definitions

* `K0.Kernel.Runs`: runs of the kernel with the log of their writes.
* `K0.history`: the states that are written to a control block in a log.
* `K0.Kernel.Configures`, `K0.Kernel.Resumes`: successful `TCB_CONFIGURE` and `TCB_RESUME`.

## Main results

* `K0.Kernel.Sim.lawful_trace`: every write of an event is lawful.
* `K0.lifecycle_of_runs`: the life of a task, in every run.
-/

namespace K0

open Word Memory

/-! ### Events -/

namespace Kernel

variable {P : Platform} {I : Image P} {memory reserved : List PhysRegion} {root : ℕ}
  {k k' : Kernel} {s : Sys}

/-- Saving the registers at the trap is a lawful write. -/
lemma Sim.obeys_save (h : k.Sim I memory reserved root s) (regs : Context) :
    (k.recording.save regs).tasks.Obeys (k.cnode.tcbs I.rootTcb) k.cnode.endpoints k.tasks.tcb
      (s.save regs) := by
  have hd : s.state s.current ≠ .dead := by
    rw [h.sysOk.running]
    decide
  have h0 : k.recording.tasks.Obeys (k.cnode.tcbs I.rootTcb) k.cnode.endpoints k.tasks.tcb s :=
    ⟨.of_erase h.refines, ⟨List.forall_mem_nil _, rfl⟩⟩
  have h1 := h0.setCtx h.sysOk.inv.placed.current_live hd regs
  rw [← h.refines.context] at h1
  unfold Sys.save
  rw [← h.refines.context]
  exact h1

/-- Returning a value to a task that has not ended is a lawful write. -/
lemma lawful_ret {k : Kernel (List Access)} {live : Set ℕ} {b : ℕ → Tcb} {me : ℕ}
    (h : k.tasks.Lawful live b) (hme : me ∈ live) (hd : (k.tasks.tcb me).state ≠ .dead) (v : ℤ) :
    (k.ret me v).tasks.Lawful live b := by
  show (k.tasks.setCtx me ((k.tasks.tcb me).ctx.setX 0 (Abi.asU64 v))).Lawful live b
  exact h.write hme hd nofun fun _ => rfl

/-- A handler makes lawful writes, and its caller goes on. -/
lemma Sim.lawful_handled (h : k.Sim I memory reserved root s) {regs : Context} {v : ℤ}
    {k₁ : Kernel (List Access)} (hh : Handled I.pool (k.recording.save regs) v k₁) :
    k₁.tasks.Lawful (k.cnode.tcbs I.rootTcb) k.tasks.tcb ∧
      (k₁.tasks.tcb k.tasks.currentContext).state ≠ .dead := by
  have hx := h.obeys_save regs
  have hok := h.sysOk.save regs
  have hp := hok.inv.placed
  have hcur : k.tasks.currentContext = (s.save regs).current := h.refines.context
  have hrun : (s.save regs).state k.tasks.currentContext = .running := by
    rw [hcur]
    exact hok.running
  have hd : ((k.recording.save regs).tasks.tcb k.tasks.currentContext).state ≠ .dead := by
    rw [hx.refines.state_eq, hrun]
    decide
  -- the control block in a slot exists
  have htcb : ∀ {i base t}, k.cnode.cap i = some (.tcb base) →
      checkedAdd base Abi.kernelVaOffset = some t → t ∈ k.cnode.tcbs I.rootTcb := by
    intro i base t hc ht
    obtain ⟨-, rfl⟩ := checkedAdd_eq_some.mp ht
    exact .inr ⟨i, base, hc, rfl⟩
  -- another task than the caller takes a step
  have hother : ∀ {x : Tasks (List Access)} {s' : Sys} {t : ℕ} {st : TaskState},
      x.Obeys (k.cnode.tcbs I.rootTcb) k.cnode.endpoints k.tasks.tcb s' →
      (s.save regs).state t ≠ .running →
      s'.state = Function.update (s.save regs).state t st →
      x.Lawful (k.cnode.tcbs I.rootTcb) k.tasks.tcb ∧
        (x.tcb k.tasks.currentContext).state ≠ .dead := by
    intro x s' t st hx' hst hs'
    have hne : k.tasks.currentContext ≠ t := by
      rintro rfl
      exact hst hrun
    refine ⟨hx'.lawful, ?_⟩
    rw [hx'.refines.state_eq, hs', Function.update_of_ne hne, hrun]
    decide
  cases hh with
  | fail _ hv => exact ⟨hx.lawful, hd⟩
  | print out => exact ⟨hx.lawful, hd⟩
  | mapFrame i j r base va perm m hs hc hp hm => exact ⟨hx.lawful, hd⟩
  | mapTable i j r base va level m hs hc hm => exact ⟨hx.lawful, hd⟩
  | unprepared slot base size used e pool hcap hroom hleft hmap => exact ⟨hx.lawful, hd⟩
  | configure i j base r t ctx hs hc ht hst =>
    have hst' : (s.save regs).state t = .inactive := (hx.refines.state_eq t).symm.trans hst
    exact hother (hx.configure (htcb hc ht) hst' ctx r) (by rw [hst']; decide) rfl
  | resume j base t hc ht hst =>
    have hst' : (s.save regs).state t = .stopped := (hx.refines.state_eq t).symm.trans hst
    have hb : ((s.save regs).state t).Becomes .ready := by
      rw [hst']
      rfl
    exact hother (hx.enqueue hp (htcb hc ht) hb (hp.not_mem_ready (by rw [hst']; decide))
      (hp.not_mem_queue (by rw [hst']; decide))) (by rw [hst']; decide) rfl
  | carve slot base size used kind pool d hcap hroom hleft hmap hlt hd' =>
    have hout := fun t ht => h.accounts.tcb_apart (t := t) hcap hleft ht
    refine ⟨hx.lawful.clear hout, ?_⟩
    have hlive : k.tasks.currentContext ∈ k.cnode.tcbs I.rootTcb := by
      rw [hcur]
      exact hp.current_live
    have hsame := congrArg Tcb.state (if_neg (hout _ hlive) :
      ((k.recording.save regs).tasks.clear _ P.granule).tcb k.tasks.currentContext = _)
    exact fun hdead => hd (hsame.symm.trans hdead)

/-- Every write of an event to a control block is lawful, and the writes lead from the states
before the event to those after it. -/
theorem Sim.lawful_trace (h : k.Sim I memory reserved root s) (ev : Event) :
    (k.trace I.pool ev).Lawful (k.cnode.tcbs I.rootTcb) k.tasks.tcb := by
  have hlive : k.tasks.currentContext ∈ k.cnode.tcbs I.rootTcb := by
    rw [h.refines.context]
    exact h.sysOk.inv.placed.current_live
  have hd : ∀ regs, (s.save regs).state k.tasks.currentContext ≠ .dead := by
    intro regs
    have hrun : s.state s.current = .running := h.sysOk.running
    rw [h.refines.context]
    show s.state s.current ≠ .dead
    rw [hrun]
    decide
  have hstart : k.recording.tasks.Lawful (k.cnode.tcbs I.rootTcb) k.tasks.tcb :=
    ⟨List.forall_mem_nil _, rfl⟩
  have hv : k.recording.cnode.Valid := h.accounts.ledger.valid
  unfold trace
  cases hs : k.recording.step I.pool ev with
  | some r =>
    cases step_next hv hs with
    | store va b =>
      obtain ⟨m, hm⟩ := k.recording.userStore_eq (P := P) va b
      dsimp only
      rw [hm]
      exact hstart
    | spurious regs => exact (h.obeys_save regs).lawful
    | tick regs => exact ((h.obeys_save regs).rotate (h.sysOk.save regs)).lawful
    | skip regs esr elr hec helr =>
      exact ((h.obeys_save regs).setCtx hlive (hd regs)
        { regs with elr := UInt64.ofNat elr }).lawful
    | yield regs esr hec hx =>
      have hret := (h.obeys_save regs).setX hlive (hd regs) 0 (Abi.asU64 0)
      exact (hret.rotate ⟨(h.sysOk.save regs).inv, (h.sysOk.save regs).running⟩).lawful
    | die regs esr r hdies hk =>
      obtain ⟨rfl, -⟩ := killCurrent_eq_some hk
      exact ((h.obeys_save regs).kill (h.sysOk.save regs)).lawful
    | ret regs esr v k₁ hec hx hi hh =>
      obtain ⟨hlaw, hme⟩ := h.lawful_handled hh
      exact lawful_ret hlaw hlive hme v
    | ipc esr c x hi hc =>
      obtain ⟨-, -, hep, -⟩ := ipc?_eq_some hi
      have hipc := ((h.obeys_save c.regs).ipcOn (h.sysOk.save c.regs)
        (mem_endpoints_of_epOf hep) c.op c.nonblock).lawful
      rw [hc] at hipc
      exact hipc
  | none =>
    dsimp only
    unfold halted
    split
    · rename_i c hi
      obtain ⟨-, -, hep, -⟩ := ipc?_eq_some hi
      exact ((h.obeys_save c.regs).ipcOn (h.sysOk.save c.regs) (mem_endpoints_of_epOf hep) c.op
        c.nonblock).lawful
    · split
      · rename_i regs _
        exact ((h.obeys_save regs).kill (h.sysOk.save regs)).lawful
      · cases ev with
        | sync regs esr => exact (h.obeys_save regs).lawful
        | irq regs int => exact (h.obeys_save regs).lawful
        | store va b => exact hstart

end Kernel

/-! ### Histories -/

/-- The state that an access writes to the control block `t`, if it writes one. -/
def Access.stateOf? (t : ℕ) : Access → Option TaskState
  | .write w => if w.task = t ∧ w.field = .state then some w.new.state else none
  | .clear _ _ => none

/-- The access writes the control block `t`. -/
def Access.Writes (t : ℕ) : Access → Prop
  | .write w => w.task = t
  | .clear a n => a ≤ t ∧ t < a + n

/-- The states that are written to the control block `t`, in order. -/
def history (t : ℕ) (log : List Access) : List TaskState := log.filterMap (Access.stateOf? t)

/-- A path of allowed steps, with its first and its last state. -/
inductive Life : TaskState → List TaskState → TaskState → Prop
  | refl (a : TaskState) : Life a [] a
  | step {a b c : TaskState} {l : List TaskState} (h : a.Becomes b) (hl : Life b l c) :
      Life a (b :: l) c

namespace Life

variable {a b c : TaskState} {l l' : List TaskState}

/-- One path after the other. -/
lemma append (h : Life a l b) (h' : Life b l' c) : Life a (l ++ l') c := by
  induction h with
  | refl a => exact h'
  | step h _ ih => exact .step h (ih h')

/-- From `dead` no step leads on. -/
lemma of_dead (h : Life .dead l b) : l = [] ∧ b = .dead := by
  cases h with
  | refl => exact ⟨rfl, rfl⟩
  | step h _ => exact h.elim

/-- No step leads back to `inactive`. -/
lemma ne_inactive (h : Life a l b) (ha : a ≠ .inactive) : b ≠ .inactive := by
  induction h with
  | refl => exact ha
  | @step a b c l hb _ ih =>
    refine ih ?_
    rintro rfl
    cases a <;> simp [TaskState.Becomes] at hb

/-- Only `inactive` leads to `stopped`. -/
lemma ne_stopped (h : Life a l b) (ha : a ≠ .inactive) (ha' : a ≠ .stopped) : b ≠ .stopped := by
  induction h with
  | refl => exact ha'
  | @step a b c l hb hl ih =>
    refine ih ?_ ?_
    · rintro rfl
      cases a <;> simp [TaskState.Becomes] at hb
    · rintro rfl
      cases a <;> simp_all [TaskState.Becomes]

end Life

/-- The states of a started task, perhaps with the end of the task. -/
def Lived (l : List TaskState) : Prop :=
  ∃ mid, (l = mid ∨ l = mid ++ [.dead]) ∧ ∀ st ∈ mid, st.Alive

/-- The path from the state of a started task. -/
lemma Life.lived {a b : TaskState} {l : List TaskState} (h : Life a l b) (ha : a.Alive) :
    Lived l := by
  induction h with
  | refl a => exact ⟨[], .inl rfl, nofun⟩
  | @step a b c l hb hl ih =>
    by_cases hdead : b = .dead
    · subst hdead
      rw [hl.of_dead.1]
      exact ⟨[], .inr rfl, nofun⟩
    · have hb' : b.Alive := by
        obtain ⟨h1, h2, h3⟩ := ha
        refine ⟨?_, ?_, hdead⟩
        · rintro rfl
          cases a <;> simp [TaskState.Becomes] at hb
        · rintro rfl
          cases a <;> simp_all [TaskState.Becomes]
      obtain ⟨mid, hmid, hall⟩ := ih hb'
      refine ⟨b :: mid, hmid.imp ?_ ?_, fun st hst => ?_⟩
      · rintro rfl
        rfl
      · rintro rfl
        rfl
      · rcases List.mem_cons.mp hst with rfl | hst
        · exact hb'
        · exact hall st hst

/-- The path from `inactive`. -/
lemma Life.of_inactive {b : TaskState} {l : List TaskState} (h : Life .inactive l b) :
    l = [] ∨ l = [.stopped] ∨ ∃ l', l = .stopped :: .ready :: l' ∧ Lived l' := by
  cases h with
  | refl => exact .inl rfl
  | step hb hl =>
    obtain rfl := hb
    cases hl with
    | refl => exact .inr (.inl rfl)
    | step hb hl =>
      obtain rfl := hb
      exact .inr (.inr ⟨_, rfl, hl.lived (by decide)⟩)

section Log

variable {live : Set ℕ} {b b' : ℕ → Tcb} {log : List Access} {t : ℕ}

/-- A lawful log writes to an existing control block a path of allowed steps. -/
lemma Leads.life (h : Leads b log b') (hl : ∀ a ∈ log, a.Lawful live) (ht : t ∈ live) :
    Life (b t).state (history t log) (b' t).state := by
  induction log generalizing b with
  | nil =>
    rw [show b = b' from h]
    exact .refl _
  | cons a log ih =>
    have hnext := ih h.2 fun a ha => hl a (List.mem_cons_of_mem _ ha)
    have hlaw := hl a List.mem_cons_self
    have hfind := h.1
    unfold history
    cases a with
    | clear c n =>
      have hout : ¬ (c ≤ t ∧ t < c + n) := hlaw t ht
      rw [show (Access.clear c n).apply b t = b t from if_neg hout] at hnext
      exact hnext
    | write w =>
      have hold : w.old = b w.task := hfind
      by_cases hw : w.task = t
      · subst hw
        rw [show (Access.write w).apply b w.task = w.new from Function.update_self _ _ _] at hnext
        by_cases hf : w.field = .state
        · have hs : (Access.write w).stateOf? w.task = some w.new.state := if_pos ⟨rfl, hf⟩
          rw [List.filterMap_cons_some hs, ← hold]
          exact .step (hlaw.state hf) hnext
        · have hs : (Access.write w).stateOf? w.task = none := if_neg fun hc => hf hc.2
          rw [List.filterMap_cons_none hs, ← hold, ← hlaw.other hf]
          exact hnext
      · have hs : (Access.write w).stateOf? t = none := if_neg fun hc => hw hc.1
        rw [List.filterMap_cons_none hs]
        rw [show (Access.write w).apply b t = b t from
          Function.update_of_ne (Ne.symm hw) _ _] at hnext
        exact hnext

/-- A lawful log does not write a control block whose task has ended. -/
lemma Leads.dead (h : Leads b log b') (hl : ∀ a ∈ log, a.Lawful live) (ht : t ∈ live)
    (hd : (b t).state = .dead) : (∀ a ∈ log, ¬ a.Writes t) ∧ b' t = b t := by
  induction log generalizing b with
  | nil =>
    rw [show b = b' from h]
    exact ⟨List.forall_mem_nil _, rfl⟩
  | cons a log ih =>
    have hlaw := hl a List.mem_cons_self
    have hfind := h.1
    have hnot : ¬ a.Writes t := by
      cases a with
      | clear c n => exact hlaw t ht
      | write w =>
        intro hw
        have hold : w.old = b w.task := hfind
        have hw' : w.task = t := hw
        rw [hw'] at hold
        exact hlaw.not_dead (hold ▸ hd)
    have hsame : a.apply b t = b t := by
      cases a with
      | clear c n => exact if_neg hnot
      | write w => exact Function.update_of_ne (Ne.symm hnot) _ _
    obtain ⟨h1, h2⟩ := ih h.2 (fun a ha => hl a (List.mem_cons_of_mem _ ha)) (by rwa [hsame])
    refine ⟨fun a' ha' => ?_, h2.trans hsame⟩
    rcases List.mem_cons.mp ha' with rfl | ha'
    · exact hnot
    · exact h1 a' ha'

/-- A lawful log writes nothing to a control block that does not exist. -/
lemma history_eq_nil (hl : ∀ a ∈ log, a.Lawful live) (ht : t ∉ live) : history t log = [] := by
  unfold history
  rw [List.filterMap_eq_nil_iff]
  intro a ha
  cases a with
  | clear c n => rfl
  | write w =>
    refine if_neg fun hc => ht ?_
    rw [← hc.1]
    exact (hl _ ha).live

/-- The history in two logs. -/
lemma history_append (t : ℕ) (l l' : List Access) :
    history t (l ++ l') = history t l ++ history t l' :=
  List.filterMap_append

end Log

/-! ### Runs -/

/-- Some sequence of events leads from one state to another and writes the log. -/
inductive Kernel.Runs {P : Platform} (B : PoolBase P) (k : Kernel) : List Access → Kernel → Prop
  | refl : Runs B k [] k
  | step {log : List Access} {k' k'' : Kernel} (ev : Event) (h : Runs B k log k')
      (hs : k'.step B ev = some k'') : Runs B k (log ++ (k'.trace B ev).log) k''

namespace Kernel

variable {P : Platform} {B : PoolBase P} {k k' : Kernel} {log : List Access}

/-- Every state that is reached is the last one of a run. -/
lemma exists_runs (h : k.Reaches B k') : ∃ log, k.Runs B log k' := by
  induction h with
  | refl => exact ⟨[], .refl⟩
  | step ev _ hs ih =>
    obtain ⟨log, hlog⟩ := ih
    exact ⟨_, hlog.step ev hs⟩

end Kernel

/-- New control blocks are inactive. -/
lemma World.Step.new_inactive {w w' : World} {a : Act} (hs : w.Step a w') {t : ℕ}
    (ht : t ∈ w'.live) (hn : t ∉ w.live) : w'.sys.state t = .inactive := by
  cases hs with
  | clear regs a n result live' eps' hlive heps hsub hsub' h0 hnew hnew' =>
    exact if_pos (hnew t ht hn)
  | _ => exact absurd ht hn

namespace Kernel

variable {P : Platform} {I : Image P} {memory reserved : List PhysRegion} {root : ℕ}
  {k k' : Kernel} {s : Sys} {log : List Access}

/-- What a run does to control blocks, from a state that stands for the abstract system. -/
structure Lives (rootTcb : ℕ) (k : Kernel) (log : List Access) (k' : Kernel) : Prop where
  mono : k.cnode.tcbs rootTcb ⊆ k'.cnode.tcbs rootTcb
  old : ∀ t ∈ k.cnode.tcbs rootTcb,
    Life (k.tasks.tcb t).state (history t log) (k'.tasks.tcb t).state
  new : ∀ t ∈ k'.cnode.tcbs rootTcb, t ∉ k.cnode.tcbs rootTcb →
    Life .inactive (history t log) (k'.tasks.tcb t).state
  none : ∀ t ∉ k'.cnode.tcbs rootTcb, history t log = []
  dead : ∀ t ∈ k.cnode.tcbs rootTcb, (k.tasks.tcb t).state = .dead →
    (∀ a ∈ log, ¬ a.Writes t) ∧ k'.tasks.tcb t = k.tasks.tcb t

/-- The control blocks in every run.

**Proof sketch.** By induction on the run. The writes of the last event are lawful for the control
blocks that exist before it, and lead to those after it; so they extend the path of each existing
control block by allowed steps, leave those alone whose tasks have ended, and write nothing to
control blocks that do not exist yet. A control block that the event creates is inactive. -/
lemma Sim.lives (h : k.Sim I memory reserved root s) (hr : k.Runs I.pool log k') :
    Lives I.rootTcb k log k' ∧ ∃ s', k'.Sim I memory reserved root s' := by
  induction hr with
  | refl =>
    refine ⟨⟨fun _ ht => ht, fun t _ => .refl _, fun t ht hn => absurd ht hn, fun _ _ => rfl,
      fun t _ _ => ⟨List.forall_mem_nil _, rfl⟩⟩, s, h⟩
  | @step log k' k'' ev _ hs ih =>
    obtain ⟨hl, s', hsim⟩ := ih
    obtain ⟨a, s'', hstep, hsim', -, -⟩ := hsim.step hs
    have hlaw := hsim.lawful_trace ev
    have hleads := hlaw.leads
    have htcb : (k'.trace I.pool ev).tcb = k''.tasks.tcb := congrArg Tasks.tcb (tasks_trace hs)
    rw [htcb] at hleads
    have hsub : k'.cnode.tcbs I.rootTcb ⊆ k''.cnode.tcbs I.rootTcb := hstep.live_subset
    refine ⟨⟨hl.mono.trans hsub, fun t ht => ?_, fun t ht hn => ?_, fun t ht => ?_,
      fun t ht hd => ?_⟩, s'', hsim'⟩
    · rw [history_append]
      exact (hl.old t ht).append (hleads.life hlaw.lawful (hl.mono ht))
    · rw [history_append]
      by_cases ht' : t ∈ k'.cnode.tcbs I.rootTcb
      · exact (hl.new t ht' hn).append (hleads.life hlaw.lawful ht')
      · have hst : (k''.tasks.tcb t).state = .inactive := by
          rw [hsim'.refines.state_eq]
          exact hstep.new_inactive ht ht'
        rw [hl.none t ht', history_eq_nil hlaw.lawful ht', hst]
        exact .refl _
    · have ht' : t ∉ k'.cnode.tcbs I.rootTcb := fun hm => ht (hsub hm)
      rw [history_append, hl.none t ht', history_eq_nil hlaw.lawful ht']
      rfl
    · obtain ⟨h1, h2⟩ := hl.dead t ht hd
      obtain ⟨h3, h4⟩ := hleads.dead hlaw.lawful (hl.mono ht) (by rw [h2]; exact hd)
      refine ⟨fun a ha => ?_, h4.trans h2⟩
      rcases List.mem_append.mp ha with ha | ha
      · exact h1 a ha
      · exact h3 a ha

/-! ### Configuring and starting -/

/-- The event is a successful system call with the given number on the control block `t`. -/
def Succeeds (number : UInt64) (k : Kernel) (ev : Event) (k' : Kernel) (t : ℕ) : Prop :=
  ∃ regs esr base, ev = .sync regs esr ∧ exceptionClass esr = 0x15 ∧ regs.x 8 = number ∧
    k.cnode.cap (regs.x 0).toNat = some (.tcb base) ∧ t = base + Abi.kernelVaOffset ∧
    (k'.tasks.tcb k.tasks.currentContext).ctx.x 0 = 0

/-- A successful `TCB_CONFIGURE` of the control block `t`. -/
def Configures : Kernel → Event → Kernel → ℕ → Prop := Succeeds Abi.Syscall.tcbConfigure

/-- A successful `TCB_RESUME` of the control block `t`. -/
def Resumes : Kernel → Event → Kernel → ℕ → Prop := Succeeds Abi.Syscall.tcbResume

/-- A task on the ready queue is ready. -/
lemma state_enqueue (c : Tasks) (t : ℕ) : ((c.enqueue t).tcb t).state = .ready := by
  have hst := congrFun (Tasks.field_modTcb c (f := .state) t (fun v => { v with state := .ready })
    Tcb.state) t
  rw [Function.update_self] at hst
  unfold Tasks.enqueue
  rw [Tasks.push_eq]
  exact hst

/-- Returning a value writes no state. -/
lemma state_ret (k : Kernel) (me : ℕ) (v : ℤ) (t : ℕ) :
    ((k.ret me v).tasks.tcb t).state = (k.tasks.tcb t).state :=
  congrFun (Tasks.field_modTcb_of_eq k.tasks (f := .ctx) me
    (fun b => { b with ctx := (k.tasks.tcb me).ctx.setX 0 (Abi.asU64 v) }) Tcb.state rfl) t

/-- Saving registers writes no state. -/
lemma state_save (k : Kernel) (regs : Context) (t : ℕ) :
    ((k.save regs).tasks.tcb t).state = (k.tasks.tcb t).state :=
  congrFun (Tasks.field_modTcb_of_eq k.tasks (f := .ctx) k.tasks.currentContext
    (fun b => { b with ctx := regs }) Tcb.state rfl) t

/-- `TCB_CONFIGURE` succeeds on inactive tasks only, which are stopped afterwards. -/
lemma Configures.state {B : PoolBase P} {ev : Event} {t : ℕ} (h : k.Configures ev k' t)
    (hs : k.step B ev = some k') :
    (k.tasks.tcb t).state = .inactive ∧ (k'.tasks.tcb t).state = .stopped := by
  obtain ⟨regs, esr, base, rfl, hec, hx, hcap, rfl, h0⟩ := h
  have hctx : ((k.save regs).tasks.tcb (k.save regs).tasks.currentContext).ctx = regs :=
    k.ctx_save regs
  unfold step el0Sync at hs
  dsimp only at hs
  rw [if_pos hec] at hs
  unfold k0Syscall at hs
  dsimp only at hs
  rw [hctx, if_neg (by rw [hx]; decide), if_neg (by rw [hx]; decide),
    if_neg (by rw [hx]; decide), if_neg (by rw [hx]; decide), if_neg (by rw [hx]; decide),
    if_pos hx] at hs
  obtain ⟨v, k₁, hr, rfl⟩ := returning_eq_some hs
  have hv : Abi.asU64 v = 0 := (x_ret k₁ _ v).symm.trans h0
  have hfail : ∀ {e : ℤ} {k₂ : Kernel}, e ∈ ownErrors → some (e, k₂) ≠ some (v, k₁) := by
    intro e k₂ he heq
    obtain ⟨rfl, -⟩ := Prod.mk.inj (Option.some.inj heq)
    exact asU64_ne_zero he hv
  unfold sysTcbConfigure at hr
  split_ifs at hr
  · exact absurd hr (hfail (by decide))
  · exact absurd hr (hfail (by decide))
  · have htcb : tcbAt (k.save regs).cnode (regs.x 0) = .ok base := by
      unfold tcbAt
      rw [show (k.save regs).cnode = k.cnode from rfl, hcap]
    rcases addrSpaceAt_eq (c := (k.save regs).cnode) (s := regs.x 3) rfl with
      ⟨r, ha, -⟩ | ⟨e, he, ha⟩
    · rw [ha, htcb] at hr
      obtain ⟨t, ht, hr⟩ := Option.map_eq_some_iff.mp hr
      obtain ⟨-, rfl⟩ := checkedAdd_eq_some.mp ht
      split_ifs at hr with hst
      · exact absurd (congrArg some hr) (hfail (by decide))
      · obtain ⟨-, rfl⟩ := Prod.mk.inj hr
        rw [state_ret, ← k.state_save regs]
        refine ⟨not_not.mp hst, ?_⟩
        unfold configureTcb Tasks.setState Tasks.modTcb
        dsimp only
        rw [Function.update_self]
    · rw [ha] at hr
      exact absurd hr (hfail he)

/-- `TCB_RESUME` succeeds on stopped tasks only, which are ready afterwards. -/
lemma Resumes.state {B : PoolBase P} {ev : Event} {t : ℕ} (h : k.Resumes ev k' t)
    (hs : k.step B ev = some k') :
    (k.tasks.tcb t).state = .stopped ∧ (k'.tasks.tcb t).state = .ready := by
  obtain ⟨regs, esr, base, rfl, hec, hx, hcap, rfl, h0⟩ := h
  have hctx : ((k.save regs).tasks.tcb (k.save regs).tasks.currentContext).ctx = regs :=
    k.ctx_save regs
  unfold step el0Sync at hs
  dsimp only at hs
  rw [if_pos hec] at hs
  unfold k0Syscall at hs
  dsimp only at hs
  rw [hctx, if_neg (by rw [hx]; decide), if_neg (by rw [hx]; decide),
    if_neg (by rw [hx]; decide), if_neg (by rw [hx]; decide), if_neg (by rw [hx]; decide),
    if_neg (by rw [hx]; decide), if_pos hx] at hs
  obtain ⟨v, k₁, hr, rfl⟩ := returning_eq_some hs
  have hv : Abi.asU64 v = 0 := (x_ret k₁ _ v).symm.trans h0
  have htcb : tcbAt (k.save regs).cnode (regs.x 0) = .ok base := by
    unfold tcbAt
    rw [show (k.save regs).cnode = k.cnode from rfl, hcap]
  unfold sysTcbResume at hr
  rw [htcb] at hr
  obtain ⟨t, ht, hr⟩ := Option.map_eq_some_iff.mp hr
  obtain ⟨-, rfl⟩ := checkedAdd_eq_some.mp ht
  split_ifs at hr with hst
  · obtain ⟨rfl, -⟩ := Prod.mk.inj hr
    exact absurd hv (asU64_ne_zero (by decide))
  · obtain ⟨-, rfl⟩ := Prod.mk.inj hr
    rw [state_ret, ← k.state_save regs]
    exact ⟨not_not.mp hst, state_enqueue _ _⟩

end Kernel

section Reaches

variable {P : Platform} {I : Image P} {i : Machine} {k₀ k : Kernel} {log : List Access}

/-- For every run from the handoff, with the log of all writes to control blocks, and every
control block `t` that exists at its end, retyped or that of the root task:

* the states written to it, from `inactive` (the root task: from `running`) to the one that it has
  now, are a path of allowed steps, also with the writes of a next event, which may park: a retyped
  control block is `stopped` first, then `ready`, and then goes through states of a started task
  until it is `dead`;
* if its task has ended, it holds no reply right, its link is null, it is in no queue and not the
  running task, and no later event writes any field of it;
* `TCB_CONFIGURE` succeeds on it only if it is inactive and leaves it stopped, and never succeeds
  again; `TCB_RESUME` succeeds on it only if it is stopped and leaves it ready, and afterwards
  neither of them ever succeeds again. -/
theorem lifecycle_of_runs (hboot : boot I i = some k₀) (hr : k₀.Runs I.pool log k) :
    ∀ t ∈ k.cnode.tcbs I.rootTcb,
      Life (if t = I.rootTcb then .running else .inactive) (history t log)
        (k.tasks.tcb t).state ∧
      (∀ ev, Life (if t = I.rootTcb then .running else .inactive)
        (history t (log ++ (k.trace I.pool ev).log)) ((k.trace I.pool ev).tcb t).state) ∧
      (t = I.rootTcb → Lived (history t log)) ∧
      (t ≠ I.rootTcb → history t log = [] ∨ history t log = [.stopped] ∨
        ∃ l, history t log = .stopped :: .ready :: l ∧ Lived l) ∧
      ((k.tasks.tcb t).state = .dead →
        ((k.tasks.tcb t).replyTo = 0 ∧ (k.tasks.tcb t).next = 0 ∧
          (∀ l, k.tasks.Linked k.tasks.sched.toEnds l → t ∉ l) ∧
          (∀ e ∈ k.cnode.endpoints, ∀ l, k.tasks.Linked (k.tasks.ep e) l → t ∉ l) ∧
          t ≠ k.tasks.sched.current) ∧
        ∀ log' k', k.Runs I.pool log' k' → k'.tasks.tcb t = k.tasks.tcb t ∧
          (∀ a ∈ log', ¬ a.Writes t) ∧ ∀ ev, ∀ a ∈ (k'.trace I.pool ev).log, ¬ a.Writes t) ∧
      (∀ ev k', k.step I.pool ev = some k' → k.Configures ev k' t →
        ((k.tasks.tcb t).state = .inactive ∧ (k'.tasks.tcb t).state = .stopped) ∧
        ∀ k₁ ev₁ k₂, k'.Reaches I.pool k₁ → k₁.step I.pool ev₁ = some k₂ →
          ¬ k₁.Configures ev₁ k₂ t) ∧
      ∀ ev k', k.step I.pool ev = some k' → k.Resumes ev k' t →
        ((k.tasks.tcb t).state = .stopped ∧ (k'.tasks.tcb t).state = .ready) ∧
        ∀ k₁ ev₁ k₂, k'.Reaches I.pool k₁ → k₁.step I.pool ev₁ = some k₂ →
          ¬ k₁.Configures ev₁ k₂ t ∧ ¬ k₁.Resumes ev₁ k₂ t := by
  obtain ⟨b, rfl⟩ := boot_eq_some hboot
  obtain ⟨hl, s, h⟩ := b.sim.lives hr
  have hp := h.sysOk.inv.placed
  intro t ht
  -- the state of `t` after the next event and a further run
  have hlater : ∀ {ev k' k₁}, k.step I.pool ev = some k' → k'.Reaches I.pool k₁ →
      ∃ l, Life (k'.tasks.tcb t).state l (k₁.tasks.tcb t).state := by
    intro ev k' k₁ hs hr₁
    obtain ⟨hl', s', h'⟩ := h.lives (Kernel.Runs.refl.step ev hs)
    obtain ⟨log₁, hlog₁⟩ := Kernel.exists_runs hr₁
    obtain ⟨hl₁, -⟩ := h'.lives hlog₁
    exact ⟨_, hl₁.old t (hl'.mono ht)⟩
  have hlife : Life (if t = I.rootTcb then .running else .inactive) (history t log)
      (k.tasks.tcb t).state := by
    have hone : t ∈ b.kernel.cnode.tcbs I.rootTcb ↔ t = I.rootTcb := by
      rw [show b.kernel.cnode.tcbs I.rootTcb = {I.rootTcb} from b.tcbs_eq]
      exact Iff.rfl
    by_cases hroot : t = I.rootTcb
    · obtain ⟨ctx, htcb⟩ := b.tcb_rootTcb
      have hold := hl.old t (hone.mpr hroot)
      rw [hroot, htcb] at hold
      rw [if_pos hroot, hroot]
      exact hold
    · rw [if_neg hroot]
      exact hl.new t ht fun hm => hroot (hone.mp hm)
  refine ⟨hlife, fun ev => ?_, fun hroot => ?_, fun hroot => ?_,
    fun hd => ⟨?_, fun log' k' hr' => ?_⟩, ?_, ?_⟩
  · have hlaw := h.lawful_trace ev
    rw [history_append]
    exact hlife.append (hlaw.leads.life hlaw.lawful ht)
  · rw [if_pos hroot] at hlife
    exact hlife.lived (by decide)
  · rw [if_neg hroot] at hlife
    exact hlife.of_inactive
  · have hst : s.state t = .dead := by
      rw [← h.refines.state_eq]
      exact hd
    have hnr : t ∉ s.ready := hp.not_mem_ready (by rw [hst]; decide)
    have hnq : ∀ e, t ∉ s.queue e := hp.not_mem_queue (by rw [hst]; decide)
    refine ⟨?_, h.refines.holds.idle t ht fun q => ?_, fun l hlist => ?_, fun e he l hlist => ?_,
      fun hcur => ?_⟩
    · rw [h.refines.replyTo_eq]
      by_contra h0
      exact (h.sysOk.inv.rights.alive ht h0).2.2 hst
    · cases q with
      | none => exact hnr
      | some e => exact hnq e
    · rw [hlist.chain.unique (h.refines.linked (q := none) trivial).chain]
      exact hnr
    · rw [hlist.chain.unique (h.refines.linked (q := some e) he).chain]
      exact hnq e
    · rw [hcur, h.refines.current, h.sysOk.running] at hst
      cases hst
  · obtain ⟨hl', s', h'⟩ := h.lives hr'
    obtain ⟨h1, h2⟩ := hl'.dead t ht hd
    refine ⟨h2, h1, fun ev => ?_⟩
    have hlaw := h'.lawful_trace ev
    exact (hlaw.leads.dead hlaw.lawful (hl'.mono ht) (by rw [h2]; exact hd)).1
  · intro ev k' hs hc
    have hst := hc.state hs
    refine ⟨hst, fun k₁ ev₁ k₂ hr₁ hs₁ hc₁ => ?_⟩
    obtain ⟨l, hl₁⟩ := hlater hs hr₁
    exact hl₁.ne_inactive (by rw [hst.2]; decide) (hc₁.state hs₁).1
  · intro ev k' hs hc
    have hst := hc.state hs
    refine ⟨hst, fun k₁ ev₁ k₂ hr₁ hs₁ => ?_⟩
    obtain ⟨l, hl₁⟩ := hlater hs hr₁
    rw [hst.2] at hl₁
    exact ⟨fun hc₁ => hl₁.ne_inactive (by decide) (hc₁.state hs₁).1,
      fun hc₁ => hl₁.ne_stopped (by decide) (by decide) (hc₁.state hs₁).1⟩

/-- The second task of the small machine has been stopped and then made ready in the run that starts
it. -/
theorem lifecycle_of_runs_smallMachine :
    ∃ k₀ log k, boot smallImage smallMachine = some k₀ ∧ k₀.Runs smallImage.pool log k ∧
      (k.tasks.tcb Kernel.secondTcb).state = .ready ∧
      ∃ l, history Kernel.secondTcb log = .stopped :: .ready :: l ∧ Lived l := by
  obtain ⟨k₀, k, _, _, h⟩ := Kernel.exists_callFirst
  obtain ⟨log, hr⟩ := Kernel.exists_runs h.reaches₄
  have hroot : Kernel.secondTcb ≠ smallImage.rootTcb := by decide
  obtain ⟨hlife, -, -, hnew, -⟩ := lifecycle_of_runs h.boot hr _ (h.second_mem (by simp))
  refine ⟨k₀, log, k, h.boot, hr, h.ready, ?_⟩
  rw [if_neg hroot, h.ready] at hlife
  -- a shorter path from `inactive` does not lead to `ready`
  rcases hnew hroot with hl | hl | hl
  · rw [hl] at hlife
    cases hlife
  · rw [hl] at hlife
    cases hlife with
    | step hb hlife => cases hlife
  · exact hl

end Reaches

end K0
