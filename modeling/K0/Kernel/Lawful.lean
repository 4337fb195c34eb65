import K0.Kernel.Trace

set_option relaxedAutoImplicit false
set_option autoImplicit false

/-!
# What may be written to control blocks

Every write of the scheduler and of IPC to a control block goes to a block that exists and whose
task has not ended, and every write of a state is one of the steps from `inactive` over `stopped`
to `ready`, between the states of a started task, and finally to `dead`.

A link is written in the middle of a queue operation, where the queues do not stand for lists; the
lemmas about the log alone, `K0.Tasks.Lawful`, come first, and those that relate whole operations
to the abstract system, `K0.Tasks.Obeys`, use them.

## Main definitions

* `K0.TaskState.Becomes`: the steps between states.
* `K0.Write.Lawful`, `K0.Access.Lawful`: what may be written.
* `K0.Leads`: a log that leads from some contents of all control blocks to others.
* `K0.Tasks.Lawful`, `K0.Tasks.Obeys`: the log so far is lawful and leads to the control blocks
  as they are, and the tasks are those of the abstract system.

## Main results

* `K0.Tasks.Obeys.rotate`, `K0.Tasks.Obeys.kill`, `K0.Tasks.Obeys.ipcOn`: the operations make
  lawful writes only.
-/

namespace K0

open Word Set

/-! ### The law -/

/-- The steps from one state to the next. -/
def TaskState.Becomes : TaskState → TaskState → Prop
  | .inactive, st => st = .stopped
  | .stopped, st => st = .ready
  | .ready, st => st = .running
  | .running, st => st = .ready ∨ st = .blockedSend ∨ st = .blockedRecv ∨ st = .blockedCall ∨
      st = .blockedReply ∨ st = .dead
  | .blockedSend, st => st = .ready
  | .blockedRecv, st => st = .ready
  | .blockedCall, st => st = .blockedReply
  | .blockedReply, st => st = .ready
  | .dead, _ => False

/-- A write to a field of a control block in `live` whose task has not ended; the state field takes
one of the steps, and no other write changes it. -/
structure Write.Lawful (live : Set ℕ) (w : Write) : Prop where
  live : w.task ∈ live
  not_dead : w.old.state ≠ .dead
  state : w.field = .state → w.old.state.Becomes w.new.state
  other : w.field ≠ .state → w.new.state = w.old.state

/-- Cleared memory holds no control block in `live`. -/
def Access.Lawful (live : Set ℕ) : Access → Prop
  | .write w => w.Lawful live
  | .clear a n => ∀ t ∈ live, ¬ (a ≤ t ∧ t < a + n)

/-- A state that takes a step is not that of a task that has ended. -/
lemma TaskState.Becomes.not_dead {a b : TaskState} (h : a.Becomes b) : a ≠ .dead := by
  rintro rfl
  exact h

/-! ### Logs -/

/-- The control blocks after an access. -/
def Access.apply (b : ℕ → Tcb) : Access → ℕ → Tcb
  | .write w => Function.update b w.task w.new
  | .clear a n => fun t => if a ≤ t ∧ t < a + n then Tcb.zeroed else b t

/-- The access finds the control blocks `b`. -/
def Access.Finds (b : ℕ → Tcb) : Access → Prop
  | .write w => w.old = b w.task
  | .clear _ _ => True

/-- The log leads from the control blocks `b` to `b'`. -/
def Leads : (ℕ → Tcb) → List Access → (ℕ → Tcb) → Prop
  | b, [], b' => b = b'
  | b, a :: l, b' => a.Finds b ∧ Leads (a.apply b) l b'

/-- One log after the other. -/
lemma Leads.append {b b' b'' : ℕ → Tcb} {l l' : List Access} (h : Leads b l b')
    (h' : Leads b' l' b'') : Leads b (l ++ l') b'' := by
  induction l generalizing b with
  | nil =>
    rw [show b = b' from h]
    exact h'
  | cons a l ih => exact ⟨h.1, ih h.2⟩

/-- All writes so far are lawful, and lead from the control blocks `b` to those of the tasks. -/
structure Tasks.Lawful (live : Set ℕ) (b : ℕ → Tcb) (x : Tasks (List Access)) : Prop where
  lawful : ∀ a ∈ x.log, a.Lawful live
  leads : Leads b x.log x.tcb

/-- A control block that has just been written. -/
lemma Tasks.tcb_modTcb (x : Tasks (List Access)) (f : Field) (t : ℕ) (g : Tcb → Tcb) :
    (x.modTcb f t g).tcb t = g (x.tcb t) :=
  Function.update_self _ _ _

namespace Tasks.Lawful

variable {live : Set ℕ} {b : ℕ → Tcb} {x : Tasks (List Access)} {t e : ℕ}

/-- Only the log and the control blocks matter. -/
lemma congr {y : Tasks (List Access)} (h : x.Lawful live b) (hlog : y.log = x.log)
    (htcb : y.tcb = x.tcb) : y.Lawful live b :=
  ⟨hlog ▸ h.lawful, hlog ▸ htcb ▸ h.leads⟩

/-- One more access. -/
lemma access {y : Tasks (List Access)} {a : Access} (h : x.Lawful live b)
    (hlog : y.log = x.log ++ [a])
    (htcb : y.tcb = a.apply x.tcb) (ha : a.Lawful live)
    (hf : a.Finds x.tcb) : y.Lawful live b := by
  constructor
  · intro a' ha'
    rw [hlog] at ha'
    rcases List.mem_append.mp ha' with ha' | ha'
    · exact h.lawful a' ha'
    · rw [List.mem_singleton.mp ha']
      exact ha
  · rw [hlog, htcb]
    exact h.leads.append ⟨hf, rfl⟩

/-- One more write. -/
lemma write {f : Field} {g : Tcb → Tcb} (h : x.Lawful live b) (ht : t ∈ live)
    (hd : (x.tcb t).state ≠ .dead)
    (hs : f = .state → (x.tcb t).state.Becomes (g (x.tcb t)).state)
    (ho : f ≠ .state → (g (x.tcb t)).state = (x.tcb t).state) :
    (x.modTcb f t g).Lawful live b :=
  h.access rfl rfl ⟨ht, hd, hs, ho⟩ rfl

/-! ### Writes of links -/

/-- Writing a link. -/
lemma setNext (h : x.Lawful live b) (ht : t ∈ live) (hd : (x.tcb t).state ≠ .dead) (n : ℕ) :
    (x.setNext t n).Lawful live b :=
  h.write ht hd nofun fun _ => rfl

/-- A link is not a state. -/
lemma state_setNext (x : Tasks (List Access)) (t n u : ℕ) :
    ((x.setNext t n).tcb u).state = (x.tcb u).state :=
  congrFun (Tasks.field_modTcb_of_eq x t (fun v => { v with next := n }) Tcb.state rfl) u

/-- Appending to the queue of an endpoint writes the links of the new task and of the last one. -/
lemma epPush (h : x.Lawful live b) (ht : t ∈ live) (hd : (x.tcb t).state ≠ .dead)
    (htail : (x.ep e).tail ≠ 0 → (x.ep e).tail ∈ live ∧
      (x.tcb (x.ep e).tail).state ≠ .dead) : (x.epPush e t).Lawful live b := by
  have h1 := h.setNext ht hd 0
  unfold Tasks.epPush
  dsimp only
  by_cases h0 : ((x.setNext t 0).ep e).tail = 0
  · rw [if_pos h0]
    exact h1.congr rfl rfl
  · rw [if_neg h0]
    obtain ⟨hl, hst⟩ := htail h0
    refine (h1.setNext hl ?_ t).congr rfl rfl
    rw [state_setNext]
    exact hst

/-- Removing the head of the queue of an endpoint writes its link. -/
lemma epPop (h : x.Lawful live b)
    (hhead : (x.ep e).head ≠ 0 → (x.ep e).head ∈ live ∧
      (x.tcb (x.ep e).head).state ≠ .dead) : (x.epPop e).2.Lawful live b := by
  unfold Tasks.epPop
  dsimp only
  by_cases h0 : (x.ep e).head = 0
  · rw [if_pos h0]
    exact h
  · rw [if_neg h0]
    obtain ⟨hl, hst⟩ := hhead h0
    have h1 : (x.setEp e { x.ep e with
        head := (x.tcb (x.ep e).head).next }).Lawful live b :=
      h.congr rfl rfl
    have h2 := h1.setNext hl hst 0
    dsimp only
    split_ifs
    · exact h2.congr rfl rfl
    · exact h2.congr rfl rfl

/-- Putting a task on the ready queue writes its state, its link and the link of the last one. -/
lemma push (h : x.Lawful live b) (ht : t ∈ live) (hb : (x.tcb t).state.Becomes .ready)
    (htail : x.sched.tail ≠ 0 → x.sched.tail ∈ live ∧
      (x.tcb x.sched.tail).state ≠ .dead) : (x.push t).Lawful live b := by
  have h1 : (x.setState t .ready).Lawful live b :=
    h.write ht hb.not_dead (fun _ => hb) fun hf => absurd rfl hf
  have hself : ((x.setState t .ready).tcb t).state = .ready :=
    congrArg Tcb.state (tcb_modTcb x .state t _)
  have h2 := h1.setNext ht (by rw [hself]; decide) 0
  unfold Tasks.push
  dsimp only
  by_cases h0 : ((x.setState t .ready).setNext t 0).sched.tail = 0
  · rw [if_pos h0]
    exact h2.congr rfl rfl
  · rw [if_neg h0]
    obtain ⟨hl, hst⟩ := htail h0
    refine (h2.setNext hl ?_ t).congr rfl rfl
    rw [state_setNext]
    by_cases he : x.sched.tail = t
    · have htt : ((x.setState t .ready).tcb x.sched.tail).state = .ready := by
        rw [he]
        exact hself
      exact fun hdead => absurd (htt.symm.trans hdead) (by decide)
    · have hold : ((x.setState t .ready).tcb x.sched.tail).state =
          (x.tcb x.sched.tail).state :=
        congrArg Tcb.state (Function.update_of_ne he _ _)
      exact fun hdead => hst (hold.symm.trans hdead)

/-- Removing the head of the ready queue writes its link. -/
lemma pop (h : x.Lawful live b)
    (hhead : x.sched.head ≠ 0 → x.sched.head ∈ live ∧
      (x.tcb x.sched.head).state ≠ .dead) : x.pop.2.Lawful live b := by
  unfold Tasks.pop
  dsimp only
  by_cases h0 : x.sched.head = 0
  · rw [if_pos h0]
    exact h
  · rw [if_neg h0]
    obtain ⟨hl, hst⟩ := hhead h0
    have h1 : (x.setSched { x.sched with
        head := (x.tcb x.sched.head).next }).Lawful live b :=
      h.congr rfl rfl
    have h2 := h1.setNext hl hst 0
    dsimp only
    split_ifs
    · exact h2.congr rfl rfl
    · exact h2.congr rfl rfl

end Tasks.Lawful

/-! ### The ends of queues -/

namespace Refines

variable {ω : Type} {live eps : Set ℕ} {c : Tasks ω} {s : Sys}

/-- The tail of a queue that is not empty is in it. -/
lemma tail_mem (h : Refines live eps c s) {q : Option ℕ} (hq : validQueue eps q)
    (h0 : (c.ends q).tail ≠ 0) : (c.ends q).tail ∈ s.toSkel.lists q := by
  have hqueue := h.holds.queue q hq
  have hne : s.toSkel.lists q ≠ [] := fun he => h0 (hqueue.tail_eq_null_iff.mpr he)
  rw [hqueue.tail_eq hne]
  exact List.getLast_mem hne

/-- The head of a queue that is not empty is in it. -/
lemma head_mem (h : Refines live eps c s) {q : Option ℕ} (hq : validQueue eps q)
    (h0 : (c.ends q).head ≠ 0) : (c.ends q).head ∈ s.toSkel.lists q := by
  have hqueue := h.holds.queue q hq
  cases hl : s.toSkel.lists q with
  | nil => exact absurd (hqueue.head_eq_null_iff.mpr hl) h0
  | cons a l =>
    rw [hl] at hqueue
    rw [hqueue.head_eq]
    exact List.mem_cons_self

end Refines

/-- The tasks in queues exist and have not ended. -/
lemma Skel.Placed.queued {live eps off : Set ℕ} {s : Sys} (h : s.toSkel.Placed live eps off)
    {q : Option ℕ} {t : ℕ} (ht : t ∈ s.toSkel.lists q) : t ∈ live ∧ s.state t ≠ .dead := by
  cases q with
  | none =>
    refine ⟨h.ready_live ht, ?_⟩
    rw [h.ready_state ht]
    decide
  | some e =>
    refine ⟨h.queue_live ht, fun hd => ?_⟩
    have hq := h.queue_state ht
    rw [hd] at hq
    exact absurd hq (by decide)

/-! ### Operations -/

/-- The log is lawful and the tasks stand for the abstract system `s`. -/
structure Tasks.Obeys (live eps : Set ℕ) (b : ℕ → Tcb) (x : Tasks (List Access)) (s : Sys) :
    Prop where
  refines : Refines live eps x s
  lawful : x.Lawful live b

namespace Tasks.Obeys

variable {live eps off : Set ℕ} {b : ℕ → Tcb} {x : Tasks (List Access)} {s : Sys} {t e : ℕ}
  {l : List ℕ}

/-- Writing a state. -/
lemma setState {st : TaskState} (h : x.Obeys live eps b s) (ht : t ∈ live)
    (hb : (s.state t).Becomes st) : (x.setState t st).Obeys live eps b (s.setState t st) := by
  rw [← h.refines.state_eq] at hb
  exact ⟨h.refines.setState t st,
    h.lawful.write ht hb.not_dead (fun _ => hb) fun hf => absurd rfl hf⟩

/-- Writing a reply right. -/
lemma setReplyTo (h : x.Obeys live eps b s) (ht : t ∈ live) (hd : s.state t ≠ .dead) (c : ℕ) :
    (x.setReplyTo t c).Obeys live eps b (s.setReplyTo t c) := by
  rw [← h.refines.state_eq] at hd
  exact ⟨h.refines.setReplyTo t c, h.lawful.write ht hd nofun fun _ => rfl⟩

/-- Writing a context. -/
lemma setCtx (h : x.Obeys live eps b s) (ht : t ∈ live) (hd : s.state t ≠ .dead) (c : Context) :
    (x.setCtx t c).Obeys live eps b (s.setCtx t c) := by
  rw [← h.refines.state_eq] at hd
  exact ⟨h.refines.setCtx t c, h.lawful.write ht hd nofun fun _ => rfl⟩

/-- Writing a register. -/
lemma setX (h : x.Obeys live eps b s) (ht : t ∈ live) (hd : s.state t ≠ .dead) (i : Fin 31)
    (v : UInt64) : (x.setX t i v).Obeys live eps b (s.setX t i v) := by
  unfold Tasks.setX Sys.setX
  rw [h.refines.ctx_eq]
  exact h.setCtx ht hd _

/-- Appending to the queue of an endpoint. -/
lemma epPush (h : x.Obeys live eps b s) (hp : s.toSkel.Placed live eps off) (he : e ∈ eps)
    (ht : t ∈ live) (hd : s.state t ≠ .dead) (hr : t ∉ s.ready) (hq : ∀ e, t ∉ s.queue e) :
    (x.epPush e t).Obeys live eps b (s.pushQueue e t) := by
  constructor
  · exact h.refines.epPush he (ne_of_mem_of_not_mem ht hp.zero) hr hq
  · refine h.lawful.epPush ht (by rwa [h.refines.state_eq]) fun h0 => ?_
    have hm := hp.queued (h.refines.tail_mem (q := some e) he h0)
    exact ⟨hm.1, by rw [h.refines.state_eq]; exact hm.2⟩

/-- Removing the head of the queue of an endpoint. -/
lemma epPop (h : x.Obeys live eps b s) (hp : s.toSkel.Placed live eps off) (he : e ∈ eps)
    (hl : s.queue e = t :: l) :
    (x.epPop e).1 = t ∧ (x.epPop e).2.Obeys live eps b (s.popQueue e) := by
  obtain ⟨h1, h2⟩ := h.refines.epPop he hl
  refine ⟨h1, h2, h.lawful.epPop fun h0 => ?_⟩
  have hm := hp.queued (h.refines.head_mem (q := some e) he h0)
  exact ⟨hm.1, by rw [h.refines.state_eq]; exact hm.2⟩

/-- Putting a task on the ready queue. -/
lemma enqueue (h : x.Obeys live eps b s) (hp : s.toSkel.Placed live eps off) (ht : t ∈ live)
    (hb : (s.state t).Becomes .ready) (hr : t ∉ s.ready) (hq : ∀ e, t ∉ s.queue e) :
    (x.enqueue t).Obeys live eps b (s.enqueue t) := by
  constructor
  · exact h.refines.enqueue (ne_of_mem_of_not_mem ht hp.zero) hr hq
  · refine h.lawful.push ht (by rwa [h.refines.state_eq]) fun h0 => ?_
    have hm := hp.queued (h.refines.tail_mem (q := none) trivial h0)
    exact ⟨hm.1, by rw [h.refines.state_eq]; exact hm.2⟩

/-- Removing the head of the ready queue. -/
lemma pop (h : x.Obeys live eps b s) (hp : s.toSkel.Placed live eps off) (hl : s.ready = t :: l) :
    x.pop.1 = t ∧ x.pop.2.Obeys live eps b s.popReady := by
  obtain ⟨h1, h2⟩ := h.refines.pop hl
  refine ⟨h1, h2, h.lawful.pop fun h0 => ?_⟩
  have hm := hp.queued (h.refines.head_mem (q := none) trivial h0)
  exact ⟨hm.1, by rw [h.refines.state_eq]; exact hm.2⟩

/-- Making a ready task the running one. -/
lemma switchTo (h : x.Obeys live eps b s) (ht : t ∈ live) (hst : s.state t = .ready) :
    (x.switchTo t).Obeys live eps b (s.switchTo t) := by
  have hb : (s.state t).Becomes .running := by
    rw [hst]
    rfl
  have h1 := (h.setState ht hb).lawful
  constructor
  · exact h.refines.switchTo t
  · unfold Tasks.switchTo
    dsimp only
    split_ifs
    · exact h1.congr rfl rfl
    · exact h1.congr rfl rfl

/-- Running the first ready task. -/
lemma blockAndSwitch (h : x.Obeys live eps b s) (hp : s.toSkel.Placed live eps off) :
    x.blockAndSwitch.1.Obeys live eps b s.blockAndSwitch.1 := by
  unfold Tasks.blockAndSwitch Sys.blockAndSwitch
  cases hl : s.ready with
  | nil =>
    rw [h.refines.pop_nil hl]
    exact h
  | cons t l =>
    have ht : t ∈ s.ready := by rw [hl]; simp
    obtain ⟨h1, h2⟩ := h.pop hp hl
    have h0 : t ≠ 0 := ne_of_mem_of_not_mem (hp.ready_live ht) hp.zero
    dsimp only
    rw [h1, if_neg h0]
    exact h2.switchTo (hp.ready_live ht) (hp.ready_state ht)

/-- Moving the running task to the end of the ready queue. -/
lemma rotate (h : x.Obeys live eps b s) (hok : s.Ok live eps) :
    x.rotate.Obeys live eps b s.rotate := by
  have hp := hok.inv.placed
  unfold Tasks.rotate Sys.rotate
  cases hl : s.ready with
  | nil =>
    rw [h.refines.pop_nil hl]
    exact h
  | cons t l =>
    have ht : t ∈ s.ready := by rw [hl]; simp
    obtain ⟨h1, h2⟩ := h.pop hp hl
    have h0 : t ≠ 0 := ne_of_mem_of_not_mem (hp.ready_live ht) hp.zero
    obtain ⟨hr, hq⟩ := hok.current_not_mem
    have hne : t ≠ s.current := ne_of_mem_of_not_mem ht hr
    have hr' : s.current ∉ s.popReady.ready := fun hm => hr (List.mem_of_mem_tail hm)
    have hb : (s.popReady.state s.current).Becomes .ready := by
      show (s.state s.current).Becomes .ready
      rw [hok.running]
      exact .inl rfl
    have h3 := h2.enqueue (hp.popReady hl) hp.current_live hb hr' hq
    have hst : (s.popReady.enqueue s.current).state t = .ready :=
      (Function.update_of_ne hne _ _).trans (hp.ready_state ht)
    dsimp only
    rw [h1, if_neg h0, h2.refines.current]
    exact h3.switchTo (hp.ready_live ht) hst

/-- Revoking a reply right. -/
lemma abortReply (h : x.Obeys live eps b s) (hi : s.toSkel.Inv live eps off) {u : ℕ}
    (hu : u ∈ live) (hd : s.state u ≠ .dead) :
    (K0.abortReply x u).Obeys live eps b (s.abortReply u) := by
  have h1 := h.setReplyTo hu hd 0
  unfold K0.abortReply Sys.abortReply
  dsimp only
  rw [h.refines.replyTo_eq]
  by_cases hc : s.replyTo u = 0
  · rw [if_pos hc, if_pos hc]
    exact h1
  · rw [if_neg hc, if_neg hc]
    have hw : s.state (s.replyTo u) = .blockedReply := hi.rights.waiting hu hc
    have hlive := hi.rights.live_caller hu hc
    have hdc : (s.setReplyTo u 0).state (s.replyTo u) ≠ .dead := by
      show s.state (s.replyTo u) ≠ .dead
      rw [hw]
      decide
    have h2 := h1.setX hlive hdc 0 (Abi.asU64 Abi.Err.noReply)
    have hp2 : ((s.setReplyTo u 0).setX (s.replyTo u) 0
        (Abi.asU64 Abi.Err.noReply)).toSkel.Placed live eps off := hi.placed.setReplyTo u 0
    refine h2.enqueue hp2 hlive ?_ ?_ ?_
    · show (s.state (s.replyTo u)).Becomes .ready
      rw [hw]
      rfl
    · exact hi.placed.not_mem_ready (by rw [hw]; decide)
    · exact hi.placed.not_mem_queue (by rw [hw]; decide)

/-- Ending the running task. -/
lemma kill (h : x.Obeys live eps b s) (hok : s.Ok live eps) :
    (K0.abortReply x x.sched.current).exitCurrent.1.Obeys live eps b s.kill.1 := by
  have hcur := hok.inv.placed.current_live
  have hd : s.state s.current ≠ .dead := by
    rw [hok.running]
    decide
  have ha := h.abortReply hok.inv hcur hd
  have hi := hok.inv.abortReply hcur (by simp)
  have hcurrent : (s.abortReply s.current).current = s.current := (s.abortReply_frame _).2.1
  have hb : ((s.abortReply s.current).state s.current).Becomes .dead := by
    rw [hok.abortReply_running]
    exact .inr (.inr (.inr (.inr (.inr rfl))))
  have hdead := ha.setState hcur hb
  have hkill : (K0.abortReply x x.sched.current).exitCurrent.1 =
      ((K0.abortReply x s.current).setState s.current .dead).blockAndSwitch.1 := by
    unfold Tasks.exitCurrent
    rw [h.refines.current, ha.refines.current, hcurrent]
    rfl
  have hsys : s.kill.1 = ((s.abortReply s.current).setState s.current .dead).blockAndSwitch.1 := by
    unfold Sys.kill
    dsimp only
    rw [hcurrent]
  rw [hkill, hsys]
  exact hdead.blockAndSwitch hok.ended.1.placed

/-- The running task joins the queue of an endpoint. -/
lemma waitOn {st : TaskState} (h : x.Obeys live eps b s) (hok : s.Ok live eps) (he : e ∈ eps)
    (hst : st.Queued) :
    (x.waitOn st e).Obeys live eps b ((s.setState s.current st).pushQueue e s.current) := by
  have hp := hok.inv.placed
  obtain ⟨hr, hq⟩ := hok.current_not_mem
  have hb : (s.state s.current).Becomes st := by
    rw [hok.running]
    rcases hst with rfl | rfl | rfl
    · exact .inr (.inl rfl)
    · exact .inr (.inr (.inl rfl))
    · exact .inr (.inr (.inr (.inl rfl)))
  have h1 := h.setState hp.current_live hb
  have hself : (s.setState s.current st).state s.current = st := Function.update_self _ _ _
  constructor
  · exact h.refines.waitOn hok he st
  · unfold Tasks.waitOn
    rw [h.refines.current]
    refine h1.lawful.epPush hp.current_live ?_ fun h0 => ?_
    · rw [h1.refines.state_eq, hself]
      rcases hst with rfl | rfl | rfl <;> decide
    · -- the last task of the queue is not the running one
      have hm : (x.ep e).tail ∈ s.queue e := h.refines.tail_mem (q := some e) he h0
      have hne : (x.ep e).tail ≠ s.current := ne_of_mem_of_not_mem hm (hq e)
      refine ⟨hp.queue_live hm, ?_⟩
      rw [h1.refines.state_eq]
      have hold : (s.setState s.current st).state (x.ep e).tail =
          s.state (x.ep e).tail := Function.update_of_ne hne _ _
      have hqd := (hp.queued (q := some e) hm).2
      exact fun hd => hqd (hold.symm.trans hd)

/-- The running task blocks on an endpoint. -/
lemma blockOn {st : TaskState} (h : x.Obeys live eps b s) (hok : s.Ok live eps) (he : e ∈ eps)
    (hst : st.Queued)
    (hside : ∀ u ∈ s.queue e, (s.state u = .blockedRecv ↔ st = .blockedRecv)) :
    (x.waitOn st e).blockAndSwitch.1.Obeys live eps b (s.blockOn st e).1 :=
  (h.waitOn hok he hst).blockAndSwitch (hok.waiting he hst hside).1.placed

/-- Receiving. -/
lemma recvInner (h : x.Obeys live eps b s) (hok : s.Ok live eps) (he : e ∈ eps)
    (nonblock : Bool) :
    (K0.recvInner x e nonblock).1.Obeys live eps b (s.recv e nonblock).1 := by
  have hp := hok.inv.placed
  have htest := h.refines.head_sender hp he
  have hd : s.state s.current ≠ .dead := by
    rw [hok.running]
    decide
  unfold K0.recvInner
  dsimp only
  cases hr : s.sender? e with
  | some t =>
    obtain ⟨⟨l, hl⟩, hside⟩ := Sys.sender?_eq_some.mp hr
    have ht : t ∈ s.queue e := by rw [hl]; simp
    have htl := hp.queue_live ht
    obtain ⟨h1, h2⟩ := h.epPop hp he hl
    have hpop := hp.popQueue hl
    have hoff : t ∈ insert t (∅ : Set ℕ) := mem_insert _ _
    have hctx : (s.popQueue e).ctx = s.ctx := rfl
    rw [if_pos (htest.mpr ⟨t, hr⟩), h1, h2.refines.ctx_eq, h2.refines.ctx_eq, h.refines.context,
      hctx]
    have h3 : Obeys live eps b _ (s.takeFrom e t) := h2.setCtx hp.current_live hd
      (deliver (s.ctx t) (s.ctx s.current))
    have hst3 : (((x.epPop e).2.setCtx s.current
        (deliver (s.ctx t) (s.ctx s.current))).tcb t).state = s.state t :=
      h3.refines.state_eq t
    by_cases hcall : s.state t = .blockedCall
    · rw [Sys.recv_of_caller hr hcall, if_pos (hst3.trans hcall)]
      have hi₁ : (s.takeFrom e t).toSkel.Inv live eps (insert t ∅) := ⟨hpop, hok.inv.rights⟩
      have h4 := h3.abortReply hi₁ hp.current_live hd
      have hst4 : ((s.takeFrom e t).abortReply s.current).state t = .blockedCall := by
        rw [Sys.abortReply_state]
        · exact hcall
        · by_cases hc : s.replyTo s.current = 0
          · exact .inl hc
          · refine .inr fun hte => hok.replyTo_not_queued hp.current_live hc ?_
            have hte' : t = s.replyTo s.current := hte
            rw [← hte']
            exact hp.queue_state ht
      have hb : (((s.takeFrom e t).abortReply s.current).state t).Becomes .blockedReply := by
        rw [hst4]
        rfl
      have h5 := h4.setState htl hb
      have hne : s.current ≠ t := (ne_of_mem_of_not_mem ht (hok.current_not_mem.2 e)).symm
      have hd5 : (((s.takeFrom e t).abortReply s.current).setState t .blockedReply).state
          s.current ≠ .dead := by
        have hold : (((s.takeFrom e t).abortReply s.current).setState t .blockedReply).state
            s.current = ((s.takeFrom e t).abortReply s.current).state s.current :=
          Function.update_of_ne hne _ _
        rw [hold, Sys.abortReply_state]
        · exact hd
        · by_cases hc : s.replyTo s.current = 0
          · exact .inl hc
          · exact .inr (hok.replyTo_ne_current hp.current_live hc).symm
      have h6 := h5.setReplyTo hp.current_live hd5 t
      have hcur : ((x.epPop e).2.setCtx s.current
          (deliver (s.ctx t) (s.ctx s.current))).sched.current = s.current :=
        h3.refines.current
      rw [hcur]
      exact h6
    · rw [Sys.recv_of_sender hr hcall, if_neg fun hc => hcall (hst3.symm.trans hc)]
      have hst : s.state t = .blockedSend := by
        rcases hp.queue_state ht with h' | h' | h'
        · exact h'
        · exact absurd h' hside
        · exact absurd h' hcall
      have hdt : (s.takeFrom e t).state t ≠ .dead := by
        show s.state t ≠ .dead
        rw [hst]
        decide
      have h4 := h3.setX htl hdt 0 0
      have hp4 : ((s.takeFrom e t).setX t 0 0).toSkel.Placed live eps (insert t ∅) := hpop
      refine h4.enqueue hp4 htl ?_ (hpop.off_ready hoff) fun e => hpop.off_queue hoff
      show (s.state t).Becomes .ready
      rw [hst]
      rfl
  | none =>
    rw [if_neg fun hc => by obtain ⟨t, ht⟩ := htest.mp hc; simp [hr] at ht, Sys.recv_of_none hr]
    cases nonblock with
    | true =>
      rw [h.refines.context]
      exact h.setX hp.current_live hd 0 _
    | false =>
      have hall := hp.no_sender hr
      exact h.blockOn hok he (.inr (.inl rfl)) fun u hu => ⟨fun _ => rfl, fun _ => hall u hu⟩

/-- Sending. -/
lemma sendOn (h : x.Obeys live eps b s) (hok : s.Ok live eps) (he : e ∈ eps) (nonblock : Bool) :
    (K0.sendOn x e nonblock).1.Obeys live eps b (s.send e nonblock).1 := by
  have hp := hok.inv.placed
  have htest := h.refines.head_receiver hp he
  have hd : s.state s.current ≠ .dead := by
    rw [hok.running]
    decide
  unfold K0.sendOn
  dsimp only
  cases hr : s.receiver? e with
  | some t =>
    obtain ⟨⟨l, hl⟩, hst⟩ := Sys.receiver?_eq_some.mp hr
    have ht : t ∈ s.queue e := by rw [hl]; simp
    have htl := hp.queue_live ht
    obtain ⟨h1, h2⟩ := h.epPop hp he hl
    have hpop := hp.popQueue hl
    have hoff : t ∈ insert t (∅ : Set ℕ) := mem_insert _ _
    rw [if_pos (htest.mpr ⟨t, hr⟩), h1, h2.refines.ctx_eq, h2.refines.ctx_eq, h.refines.context,
      Sys.send_of_receiver hr]
    have hdt : (s.popQueue e).state t ≠ .dead := by
      show s.state t ≠ .dead
      rw [hst]
      decide
    have h3 : Obeys live eps b _ (s.giveTo e t) := h2.setCtx htl hdt
      (deliver (s.ctx s.current) (s.ctx t))
    have hp3 : (s.giveTo e t).toSkel.Placed live eps (insert t ∅) := hpop
    have hb : ((s.giveTo e t).state t).Becomes .ready := by
      show (s.state t).Becomes .ready
      rw [hst]
      rfl
    have h4 := h3.enqueue hp3 htl hb (hpop.off_ready hoff) fun e => hpop.off_queue hoff
    have hne : s.current ≠ t := (ne_of_mem_of_not_mem ht (hok.current_not_mem.2 e)).symm
    have hd4 : ((s.giveTo e t).enqueue t).state s.current ≠ .dead := by
      have hold : ((s.giveTo e t).enqueue t).state s.current = s.state s.current :=
        Function.update_of_ne hne _ _
      rw [hold]
      exact hd
    exact h4.setX hp.current_live hd4 0 0
  | none =>
    rw [if_neg fun hc => by obtain ⟨t, ht⟩ := htest.mp hc; simp [hr] at ht, Sys.send_of_none hr]
    cases nonblock with
    | true =>
      rw [h.refines.context]
      exact h.setX hp.current_live hd 0 _
    | false =>
      have hall := hp.no_receiver hr
      exact h.blockOn hok he (.inl rfl)
        fun u hu => ⟨fun h' => absurd h' (hall u hu), fun h' => absurd h' (by decide)⟩

/-- Answering the pending caller. -/
lemma answer (h : x.Obeys live eps b s) (hok : s.Ok live eps) :
    x.answer.Obeys live eps b s.reply := by
  have hp := hok.inv.placed
  have hd : s.state s.current ≠ .dead := by
    rw [hok.running]
    decide
  unfold Tasks.answer Sys.reply
  dsimp only
  rw [h.refines.current, h.refines.context, h.refines.replyTo_eq]
  by_cases hc : s.replyTo s.current = 0
  · rw [if_neg (not_not.mpr hc), if_pos hc]
    exact h
  · have hw := hok.inv.rights.waiting hp.current_live hc
    have hlive := hok.inv.rights.live_caller hp.current_live hc
    have h1 := h.setReplyTo hp.current_live hd 0
    have hd1 : (s.setReplyTo s.current 0).state (s.replyTo s.current) ≠ .dead := by
      show s.state (s.replyTo s.current) ≠ .dead
      rw [hw]
      decide
    rw [if_pos hc, if_neg hc, h1.refines.ctx_eq, h1.refines.ctx_eq]
    have h2 := h1.setCtx hlive hd1 (deliver ((s.setReplyTo s.current 0).ctx s.current)
      ((s.setReplyTo s.current 0).ctx (s.replyTo s.current)))
    have hp2 : ((s.setReplyTo s.current 0).setCtx (s.replyTo s.current)
        (deliver ((s.setReplyTo s.current 0).ctx s.current)
          ((s.setReplyTo s.current 0).ctx (s.replyTo s.current)))).toSkel.Placed live eps ∅ :=
      hp.setReplyTo s.current 0
    refine h2.enqueue hp2 hlive ?_ ?_ ?_
    · show (s.state (s.replyTo s.current)).Becomes .ready
      rw [hw]
      rfl
    · exact hp.not_mem_ready (by rw [hw]; decide)
    · exact hp.not_mem_queue (by rw [hw]; decide)

/-- The call to a waiting receiver, up to the switch. -/
lemma callTo (h : x.Obeys live eps b s) (hok : s.Ok live eps) (he : e ∈ eps)
    (hr : s.receiver? e = some t) : (x.callTo e).Obeys live eps b (s.callTo e t) := by
  have hp := hok.inv.placed
  obtain ⟨⟨l, hl⟩, hrecv⟩ := Sys.receiver?_eq_some.mp hr
  have ht : t ∈ s.queue e := by rw [hl]; simp
  have htl := hp.queue_live ht
  have hne : s.current ≠ t := (ne_of_mem_of_not_mem ht (hok.current_not_mem.2 e)).symm
  obtain ⟨h1, h2⟩ := h.epPop hp he hl
  have hpop := hp.popQueue hl
  have hoff : t ∈ insert t (∅ : Set ℕ) := mem_insert _ _
  unfold Tasks.callTo
  dsimp only
  rw [h1, h2.refines.ctx_eq, h2.refines.ctx_eq, h.refines.context, h.refines.current]
  have hdt : (s.popQueue e).state t ≠ .dead := by
    show s.state t ≠ .dead
    rw [hrecv]
    decide
  have h3 : Obeys live eps b _ (s.giveTo e t) := h2.setCtx htl hdt
    (deliver (s.ctx s.current) (s.ctx t))
  have hi₁ : (s.giveTo e t).toSkel.Inv live eps (insert t ∅) := ⟨hpop, hok.inv.rights⟩
  have h4 := h3.abortReply hi₁ htl hdt
  have ha : ((s.giveTo e t).abortReply t).toSkel.Inv live eps (insert t ∅) := by
    refine hi₁.abortReply htl fun v hv => ?_
    rw [insert_empty_eq, mem_singleton_iff] at hv
    rw [hv]
    change s.state t ≠ .blockedReply
    rw [hrecv]
    decide
  -- neither the receiver nor the running task is the caller that is woken
  have hcaller : ∀ u, s.state u ≠ .blockedReply →
      ((s.giveTo e t).abortReply t).state u = s.state u := by
    intro u hu
    rw [Sys.abortReply_state]
    · rfl
    · by_cases hc : s.replyTo t = 0
      · exact .inl hc
      · refine .inr fun hue => hu ?_
        have hue' : u = s.replyTo t := hue
        rw [hue']
        exact hok.inv.rights.waiting htl hc
  have hst4 : ((s.giveTo e t).abortReply t).state t = .blockedRecv := by
    rw [hcaller t (by rw [hrecv]; decide), hrecv]
  have hcur4 : ((s.giveTo e t).abortReply t).state s.current = .running := by
    rw [hcaller s.current (by rw [hok.running]; decide), hok.running]
  have h5 := h4.setReplyTo htl (by rw [hst4]; decide) s.current
  have hb : ((((s.giveTo e t).abortReply t).setReplyTo t s.current).state s.current).Becomes
      .blockedReply := by
    show (((s.giveTo e t).abortReply t).state s.current).Becomes .blockedReply
    rw [hcur4]
    exact .inr (.inr (.inr (.inr (.inl rfl))))
  have h6 := h5.setState hp.current_live hb
  have hst6 : ((((s.giveTo e t).abortReply t).setReplyTo t s.current).setState s.current
      .blockedReply).state t = .blockedRecv :=
    (Function.update_of_ne hne.symm _ _).trans hst4
  constructor
  · exact h6.refines.enqueue (ne_of_mem_of_not_mem htl hp.zero) (ha.placed.off_ready hoff)
      fun e => ha.placed.off_queue hoff
  · refine h6.lawful.push htl ?_ fun h0 => ?_
    · rw [h6.refines.state_eq, hst6]
      rfl
    · -- the last ready task is not the running one
      have hm := h6.refines.tail_mem (q := none) trivial h0
      have hq := ha.placed.queued (q := none) hm
      refine ⟨hq.1, ?_⟩
      rw [h6.refines.state_eq]
      by_cases hu : ((K0.abortReply ((x.epPop e).2.setCtx t
          (deliver (s.ctx s.current) (s.ctx t))) t).setReplyTo t s.current |>.setState s.current
            .blockedReply).sched.tail = s.current
      · rw [hu]
        have hself : ((((s.giveTo e t).abortReply t).setReplyTo t s.current).setState s.current
            .blockedReply).state s.current = .blockedReply := Function.update_self _ _ _
        rw [hself]
        decide
      · exact fun hdead => hq.2 ((Function.update_of_ne hu _ _).symm.trans hdead)

/-- The IPC calls. -/
theorem ipcOn (h : x.Obeys live eps b s) (hok : s.Ok live eps) (he : e ∈ eps) (op : IpcOp)
    (nonblock : Bool) : (K0.ipcOn op x e nonblock).1.Obeys live eps b (s.ipc op e nonblock).1 := by
  cases op with
  | send => exact h.sendOn hok he nonblock
  | recv => exact h.recvInner hok he nonblock
  | replyRecv => exact (h.answer hok).recvInner hok.reply he nonblock
  | call =>
    have hp := hok.inv.placed
    have htest := h.refines.head_receiver hp he
    show (K0.callOn x e nonblock).1.Obeys live eps b (s.call e nonblock).1
    unfold K0.callOn
    dsimp only
    cases hr : s.receiver? e with
    | some t =>
      rw [if_pos (htest.mpr ⟨t, hr⟩), Sys.call_of_receiver hr]
      exact (h.callTo hok he hr).blockAndSwitch (hok.called hr).1.placed
    | none =>
      rw [if_neg fun hc => by obtain ⟨t, ht⟩ := htest.mp hc; simp [hr] at ht, Sys.call_of_none hr]
      cases nonblock with
      | true =>
        rw [h.refines.context]
        exact h.setX hp.current_live (by rw [hok.running]; decide) 0 _
      | false =>
        have hall := hp.no_receiver hr
        exact h.blockOn hok he (.inr (.inr rfl))
          fun u hu => ⟨fun h' => absurd h' (hall u hu), fun h' => absurd h' (by decide)⟩

/-! ### Creating and starting tasks -/

/-- Configuring an inactive task. -/
lemma configure (h : x.Obeys live eps b s) (ht : t ∈ live) (hst : s.state t = .inactive)
    (c : Context) (root : ℕ) :
    (((x.setCtx t c).modTcb .ttbr0Pa t fun v => { v with ttbr0Pa := root }).setState t
      .stopped).Obeys live eps b (s.configure t c root) := by
  have hd : s.state t ≠ .dead := by
    rw [hst]
    decide
  have h1 := h.setCtx ht hd c
  have hst1 : ((x.setCtx t c).tcb t).state = .inactive := (h1.refines.state_eq t).trans hst
  have h2 : ((x.setCtx t c).modTcb .ttbr0Pa t fun v => { v with ttbr0Pa := root }).Lawful live b :=
    h1.lawful.write ht (by rw [hst1]; decide) nofun fun _ => rfl
  refine ⟨h.refines.configure t c root, h2.write ht ?_ (fun _ => ?_) fun hf => absurd rfl hf⟩
  · rw [tcb_modTcb, hst1]
    decide
  · rw [tcb_modTcb, hst1]
    rfl

end Tasks.Obeys

/-- Clearing memory that holds no control block. -/
lemma Tasks.Lawful.clear {live : Set ℕ} {b : ℕ → Tcb} {x : Tasks (List Access)} {a n : ℕ}
    (h : x.Lawful live b) (hout : ∀ t ∈ live, ¬ (a ≤ t ∧ t < a + n)) :
    (x.clear a n).Lawful live b :=
  h.access rfl rfl hout trivial

end K0
