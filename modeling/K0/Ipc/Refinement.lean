import K0.Ipc.Erasure
import K0.Ipc.Invariant

set_option relaxedAutoImplicit false
set_option autoImplicit false

/-!
# The linked queues refine the abstract lists

The tasks of `K0.Task.Basic`, with their one link field, stand for a state of the abstract
system: the ready queue and the queues of all endpoints form one family of intrusive queues.
Each operation of the scheduler and of IPC on the linked queues is matched by the operation of
the same name on lists.

## Main definitions

* `K0.Refines`: the linked state stands for the abstract one.

## Main results

* `K0.Refines.enqueue`, `K0.Refines.epPush`, `K0.Refines.epPop`, `K0.Refines.pop`: the elementary
  operations.
* `K0.Refines.sendOn`, `K0.Refines.recvInner`, `K0.Refines.callOn`, `K0.Refines.replyRecvOn`,
  `K0.Refines.kill`, `K0.Refines.rotate`: whole operations.
* `K0.Refines.clear`, `K0.Refines.configure`: new objects.
-/

namespace K0

open Set

namespace Tasks

variable {ω : Type}

/-! ### Links -/

/-- Replace all links. -/
def withNext (c : Tasks ω) (n : ℕ → ℕ) : Tasks ω :=
  { c with tcb := fun u => { c.tcb u with next := n u } }

/-- The links of the tasks. -/
def nextOf (c : Tasks ω) (t : ℕ) : ℕ := (c.tcb t).next

variable [Recorder ω]

/-- A field of the control blocks after one of them was overwritten. -/
lemma field_modTcb {β : Type} (c : Tasks ω) {f : Field} (t : ℕ) (m : Tcb → Tcb) (g : Tcb → β) :
    (fun u => g ((c.modTcb f t m).tcb u)) =
      Function.update (fun u => g (c.tcb u)) t (g (m (c.tcb t))) := by
  funext u
  unfold modTcb
  by_cases h : u = t
  · subst h
    rw [Function.update_self]
    simp
  · rw [Function.update_of_ne h]
    simp [Function.update_of_ne h]

/-- A field that the overwriting leaves alone. -/
lemma field_modTcb_of_eq {β : Type} (c : Tasks ω) {f : Field} (t : ℕ) (m : Tcb → Tcb)
    (g : Tcb → β) (h : g (m (c.tcb t)) = g (c.tcb t)) :
    (fun u => g ((c.modTcb f t m).tcb u)) = fun u => g (c.tcb u) := by
  rw [field_modTcb, h]
  exact Function.update_eq_self t (fun u => g (c.tcb u))

/-- Writing one link. -/
lemma setNext_eq (c : Tasks) (t n : ℕ) :
    c.setNext t n = c.withNext (Function.update c.nextOf t n) := by
  unfold setNext modTcb withNext
  congr 1
  funext u
  by_cases h : u = t
  · subst h
    simp
  · simp [Function.update_of_ne h, nextOf]

/-- Replacing the links twice. -/
lemma withNext_withNext (c : Tasks) (n m : ℕ → ℕ) : (c.withNext n).withNext m = c.withNext m := rfl

/-- The links after replacing them. -/
@[simp] lemma nextOf_withNext (c : Tasks) (n : ℕ → ℕ) : (c.withNext n).nextOf = n := rfl

/-- Links and endpoints are separate. -/
@[simp] lemma ep_withNext (c : Tasks) (n : ℕ → ℕ) : (c.withNext n).ep = c.ep := rfl

/-- Appending to the queue of an endpoint is the queue operation on the one link field. -/
lemma epPush_eq (c : Tasks) (e t : ℕ) :
    c.epPush e t =
      (c.withNext (Intrusive.push 0 c.nextOf (c.ep e) t).1).setEp e
        (Intrusive.push 0 c.nextOf (c.ep e) t).2 := by
  unfold epPush Intrusive.push
  by_cases h : (c.ep e).tail = 0
  · simp only [setNext_eq, ep_withNext, h, ↓reduceIte]
    unfold setEp
    simp
  · simp only [setNext_eq, ep_withNext, h, ↓reduceIte, nextOf_withNext, withNext_withNext]

/-- Removing the head of the queue of an endpoint is the queue operation. -/
lemma epPop_eq (c : Tasks) (e : ℕ) :
    c.epPop e =
      ((Intrusive.pop 0 c.nextOf (c.ep e)).1,
        (c.withNext (Intrusive.pop 0 c.nextOf (c.ep e)).2.1).setEp e
          (Intrusive.pop 0 c.nextOf (c.ep e)).2.2) := by
  unfold epPop Intrusive.pop
  by_cases h : (c.ep e).head = 0
  · simp only [h, ↓reduceIte]
    unfold setEp withNext nextOf
    simp
  · simp only [setNext_eq, h, ↓reduceIte]
    unfold setEp withNext nextOf
    by_cases h' : (c.tcb (c.ep e).head).next = 0
    · simp [h']
    · simp [h']

/-- Putting a task on the ready queue is the queue operation, with the state set first. -/
lemma push_eq (c : Tasks) (t : ℕ) :
    c.push t =
      (((c.setState t .ready).withNext (Intrusive.push 0 c.nextOf c.sched.toEnds t).1).setSched
        { toEnds := (Intrusive.push 0 c.nextOf c.sched.toEnds t).2,
          current := c.sched.current }) := by
  have hnext : (c.setState t .ready).nextOf = c.nextOf :=
    field_modTcb_of_eq c t _ Tcb.next rfl
  have hsched : (c.setState t .ready).sched = c.sched := rfl
  have hsched' : ∀ (d : Tasks) n, (d.withNext n).sched = d.sched := fun _ _ => rfl
  unfold push Intrusive.push
  by_cases h : c.sched.tail = 0
  · simp only [setNext_eq, hsched', hsched, h, ↓reduceIte, hnext]
    rfl
  · simp only [setNext_eq, hsched', hsched, h, ↓reduceIte, hnext, nextOf_withNext,
      withNext_withNext]

/-- Removing the head of the ready queue is the queue operation. -/
lemma pop_eq (c : Tasks) :
    c.pop =
      ((Intrusive.pop 0 c.nextOf c.sched.toEnds).1,
        (c.withNext (Intrusive.pop 0 c.nextOf c.sched.toEnds).2.1).setSched
          { toEnds := (Intrusive.pop 0 c.nextOf c.sched.toEnds).2.2,
            current := c.sched.current }) := by
  unfold pop Intrusive.pop
  by_cases h : c.sched.head = 0
  · simp only [h, ↓reduceIte]
    rfl
  · simp only [setNext_eq, h, ↓reduceIte]
    unfold setSched withNext nextOf
    by_cases h' : (c.tcb c.sched.head).next = 0
    · simp [h']
    · simp [h']

end Tasks

/-! ### The relation -/

section Relation

variable {ω : Type}

/-- The anchors of the ready queue (`none`) and of the endpoints. -/
def Tasks.ends (c : Tasks ω) : Option ℕ → Intrusive.Ends ℕ
  | none => c.sched.toEnds
  | some e => c.ep e

/-- The ready list (`none`) and the waiting lists of the endpoints. -/
def Skel.lists (s : Skel) : Option ℕ → List ℕ
  | none => s.ready
  | some e => s.queue e

/-- The ready queue always exists; the queue of an endpoint, if the endpoint does. -/
def validQueue (eps : Set ℕ) : Option ℕ → Prop
  | none => True
  | some e => e ∈ eps

/-- The linked state `c` stands for the abstract state `s`. -/
structure Refines (live eps : Set ℕ) (c : Tasks ω) (s : Sys) : Prop where
  current : c.sched.current = s.current
  context : c.currentContext = s.current
  state : (fun t => (c.tcb t).state) = s.state
  replyTo : (fun t => (c.tcb t).replyTo) = s.replyTo
  ctx : (fun t => (c.tcb t).ctx) = s.ctx
  ttbr0Pa : (fun t => (c.tcb t).ttbr0Pa) = s.ttbr0Pa
  holds : Intrusive.Holds 0 (· ∈ live) (validQueue eps) c.nextOf c.ends s.toSkel.lists

/-- The anchors after writing one endpoint. -/
lemma Tasks.ends_setEp (c : Tasks ω) (e : ℕ) (q : Endpoint) :
    (c.setEp e q).ends = Function.update c.ends (some e) q := by
  funext k
  cases k with
  | none => rfl
  | some e' =>
    by_cases h : e' = e
    · subst h
      rw [Function.update_self]
      exact Function.update_self _ _ _
    · rw [Function.update_of_ne (by simpa using h)]
      exact Function.update_of_ne h _ _

/-- The anchors after writing the scheduler. -/
lemma Tasks.ends_setSched (c : Tasks ω) (q : Sched) :
    (c.setSched q).ends = Function.update c.ends none q.toEnds := by
  funext k
  cases k with
  | none => rw [Function.update_self]; rfl
  | some e => rw [Function.update_of_ne (by simp)]; rfl

/-- The lists after replacing one waiting list. -/
lemma Skel.lists_queue (s : Skel) (e : ℕ) (l : List ℕ) :
    Skel.lists { s with queue := Function.update s.queue e l } =
      Function.update s.lists (some e) l := by
  funext k
  cases k with
  | none => rfl
  | some e' =>
    by_cases h : e' = e
    · subst h
      rw [Function.update_self]
      exact Function.update_self _ _ _
    · rw [Function.update_of_ne (by simpa using h)]
      exact Function.update_of_ne h _ _

/-- The lists after replacing the ready list. -/
lemma Skel.lists_ready (s : Skel) (l : List ℕ) :
    Skel.lists { s with ready := l } = Function.update s.lists none l := by
  funext k
  cases k with
  | none => rw [Function.update_self]; rfl
  | some e => rw [Function.update_of_ne (by simp)]; rfl

end Relation

namespace Refines

variable {ω : Type} {live eps off : Set ℕ} {c : Tasks ω} {s : Sys} {t e : ℕ} {l : List ℕ}

/-- The record does not matter. -/
lemma of_erase (h : Refines live eps (c.erase .record) s) : Refines live eps c s :=
  ⟨h.current, h.context, h.state, h.replyTo, h.ctx, h.ttbr0Pa, h.holds⟩

/-- The record does not matter. -/
lemma erase (h : Refines live eps c s) : Refines live eps (c.erase .record) s :=
  ⟨h.current, h.context, h.state, h.replyTo, h.ctx, h.ttbr0Pa, h.holds⟩

/-- The state of a task. -/
lemma state_eq (h : Refines live eps c s) (t : ℕ) : (c.tcb t).state = s.state t :=
  congrFun h.state t

/-- The reply right of a task. -/
lemma replyTo_eq (h : Refines live eps c s) (t : ℕ) : (c.tcb t).replyTo = s.replyTo t :=
  congrFun h.replyTo t

/-- The saved context of a task. -/
lemma ctx_eq (h : Refines live eps c s) (t : ℕ) : (c.tcb t).ctx = s.ctx t := congrFun h.ctx t

/-- The head of the queue of an endpoint. -/
lemma ep_head (h : Refines live eps c s) (he : e ∈ eps) :
    (c.ep e).head = (s.queue e).headD 0 := by
  have hq := h.holds.queue (some e) he
  cases hl : s.queue e with
  | nil => exact hq.head_eq_null_iff.mpr hl
  | cons t l =>
    have hq' : Intrusive.IsQueue 0 c.nextOf (c.ep e) (t :: l) := hl ▸ hq
    exact hq'.head_eq

/-- The test for a waiting receiver. -/
lemma head_receiver (h : Refines live eps c s) (hi : s.toSkel.Placed live eps off)
    (he : e ∈ eps) :
    ((c.ep e).head ≠ 0 ∧ (c.tcb (c.ep e).head).state = .blockedRecv) ↔
      ∃ t, s.receiver? e = some t := by
  rw [h.ep_head he, h.state_eq]
  cases hl : s.queue e with
  | nil => simp [Sys.receiver?, hl]
  | cons t l =>
    have ht : t ∈ s.queue e := by rw [hl]; simp
    have h0 : t ≠ 0 := ne_of_mem_of_not_mem (hi.queue_live ht) hi.zero
    rw [List.headD_cons]
    constructor
    · exact fun h' => ⟨t, Sys.receiver?_eq_some.mpr ⟨⟨l, hl⟩, h'.2⟩⟩
    · rintro ⟨u, hu⟩
      obtain ⟨⟨m, hm⟩, hst⟩ := Sys.receiver?_eq_some.mp hu
      rw [hl, List.cons.injEq] at hm
      exact ⟨h0, hm.1 ▸ hst⟩

/-- The test for a waiting sender. -/
lemma head_sender (h : Refines live eps c s) (hi : s.toSkel.Placed live eps off)
    (he : e ∈ eps) :
    ((c.ep e).head ≠ 0 ∧ (c.tcb (c.ep e).head).state ≠ .blockedRecv) ↔
      ∃ t, s.sender? e = some t := by
  rw [h.ep_head he, h.state_eq]
  cases hl : s.queue e with
  | nil => simp [Sys.sender?, hl]
  | cons t l =>
    have ht : t ∈ s.queue e := by rw [hl]; simp
    have h0 : t ≠ 0 := ne_of_mem_of_not_mem (hi.queue_live ht) hi.zero
    rw [List.headD_cons]
    constructor
    · exact fun h' => ⟨t, Sys.sender?_eq_some.mpr ⟨⟨l, hl⟩, h'.2⟩⟩
    · rintro ⟨u, hu⟩
      obtain ⟨⟨m, hm⟩, hst⟩ := Sys.sender?_eq_some.mp hu
      rw [hl, List.cons.injEq] at hm
      exact ⟨h0, hm.1 ▸ hst⟩

/-! ### Elementary operations -/

variable [Recorder ω]

/-- Writing a state. -/
lemma setState (h : Refines live eps c s) (t : ℕ) (st : TaskState) :
    Refines live eps (c.setState t st) (s.setState t st) where
  current := h.current
  context := h.context
  state := by
    rw [Tasks.setState, Tasks.field_modTcb, h.state]
    rfl
  replyTo := (Tasks.field_modTcb_of_eq c t _ Tcb.replyTo rfl).trans h.replyTo
  ctx := (Tasks.field_modTcb_of_eq c t _ Tcb.ctx rfl).trans h.ctx
  ttbr0Pa := (Tasks.field_modTcb_of_eq c t _ Tcb.ttbr0Pa rfl).trans h.ttbr0Pa
  holds := by
    have hnext : (c.setState t st).nextOf = c.nextOf := Tasks.field_modTcb_of_eq c t _ Tcb.next rfl
    rw [hnext]
    exact h.holds

/-- Writing a reply right. -/
lemma setReplyTo (h : Refines live eps c s) (t r : ℕ) :
    Refines live eps (c.setReplyTo t r) (s.setReplyTo t r) where
  current := h.current
  context := h.context
  state := (Tasks.field_modTcb_of_eq c t _ Tcb.state rfl).trans h.state
  replyTo := by
    rw [Tasks.setReplyTo, Tasks.field_modTcb, h.replyTo]
    rfl
  ctx := (Tasks.field_modTcb_of_eq c t _ Tcb.ctx rfl).trans h.ctx
  ttbr0Pa := (Tasks.field_modTcb_of_eq c t _ Tcb.ttbr0Pa rfl).trans h.ttbr0Pa
  holds := by
    have hnext : (c.setReplyTo t r).nextOf = c.nextOf :=
      Tasks.field_modTcb_of_eq c t _ Tcb.next rfl
    rw [hnext]
    exact h.holds

/-- Writing a context. -/
lemma setCtx (h : Refines live eps c s) (t : ℕ) (v : Context) :
    Refines live eps (c.setCtx t v) (s.setCtx t v) where
  current := h.current
  context := h.context
  state := (Tasks.field_modTcb_of_eq c t _ Tcb.state rfl).trans h.state
  replyTo := (Tasks.field_modTcb_of_eq c t _ Tcb.replyTo rfl).trans h.replyTo
  ctx := by
    rw [Tasks.setCtx, Tasks.field_modTcb, h.ctx]
    rfl
  ttbr0Pa := (Tasks.field_modTcb_of_eq c t _ Tcb.ttbr0Pa rfl).trans h.ttbr0Pa
  holds := by
    have hnext : (c.setCtx t v).nextOf = c.nextOf := Tasks.field_modTcb_of_eq c t _ Tcb.next rfl
    rw [hnext]
    exact h.holds

/-- Writing a register. -/
lemma setX (h : Refines live eps c s) (t : ℕ) (i : Fin 31) (v : UInt64) :
    Refines live eps (c.setX t i v) (s.setX t i v) := by
  unfold Tasks.setX Sys.setX
  rw [h.ctx_eq]
  exact h.setCtx t _

/-- Appending to the queue of an endpoint. -/
lemma epPush (h : Refines live eps c s) (he : e ∈ eps) (h0 : t ≠ 0) (hr : t ∉ s.ready)
    (hq : ∀ e, t ∉ s.queue e) : Refines live eps (c.epPush e t) (s.pushQueue e t) := by
  have hout : ∀ k, t ∉ s.toSkel.lists k := fun k => by
    cases k with
    | none => exact hr
    | some e => exact hq e
  have hpush := h.erase.holds.push (k := some e) he h0 hout
  rw [← Tasks.ends_setEp, ← Skel.lists_queue] at hpush
  refine of_erase ?_
  rw [← Tasks.epPush_erase, Tasks.epPush_eq]
  exact ⟨h.current, h.context, h.state, h.replyTo, h.ctx, h.ttbr0Pa, hpush⟩

/-- Removing the head of the queue of an endpoint. -/
lemma epPop (h : Refines live eps c s) (he : e ∈ eps) (hl : s.queue e = t :: l) :
    (c.epPop e).1 = t ∧ Refines live eps (c.epPop e).2 (s.popQueue e) := by
  obtain ⟨h1, hpop⟩ := h.erase.holds.pop (k := some e) he hl
  rw [← Tasks.ends_setEp, ← Skel.lists_queue] at hpop
  have hs : s.popQueue e = { s with queue := Function.update s.queue e l } := by
    rw [Sys.popQueue, hl]
    rfl
  obtain ⟨hfst, hsnd⟩ := Prod.mk.inj ((c.epPop_erase .record e).symm.trans (Tasks.epPop_eq _ e))
  refine ⟨hfst.trans h1, of_erase ?_⟩
  rw [hsnd, hs]
  exact ⟨h.current, h.context, h.state, h.replyTo, h.ctx, h.ttbr0Pa, hpop⟩

/-- Putting a task on the ready queue. -/
lemma enqueue (h : Refines live eps c s) (h0 : t ≠ 0) (hr : t ∉ s.ready)
    (hq : ∀ e, t ∉ s.queue e) : Refines live eps (c.enqueue t) (s.enqueue t) := by
  have hout : ∀ k, t ∉ s.toSkel.lists k := fun k => by
    cases k with
    | none => exact hr
    | some e => exact hq e
  have hpush := h.erase.holds.push (k := none) trivial h0 hout
  rw [← Skel.lists_ready] at hpush
  have hst := h.erase.setState t .ready
  refine of_erase ?_
  rw [← Tasks.enqueue_erase, Tasks.enqueue, Tasks.push_eq]
  refine ⟨h.current, h.context, hst.state, hst.replyTo, hst.ctx, hst.ttbr0Pa, ?_⟩
  rw [Tasks.ends_setSched]
  exact hpush

/-- Removing the head of the ready queue. -/
lemma pop (h : Refines live eps c s) (hl : s.ready = t :: l) :
    c.pop.1 = t ∧ Refines live eps c.pop.2 s.popReady := by
  obtain ⟨h1, hpop⟩ := h.erase.holds.pop (k := none) trivial hl
  rw [← Skel.lists_ready] at hpop
  have hs : s.popReady = { s with ready := l } := by
    rw [Sys.popReady, hl]
    rfl
  obtain ⟨hfst, hsnd⟩ := Prod.mk.inj ((c.pop_erase .record).symm.trans (Tasks.pop_eq _))
  refine ⟨hfst.trans h1, of_erase ?_⟩
  rw [hsnd, hs]
  refine ⟨h.current, h.context, h.state, h.replyTo, h.ctx, h.ttbr0Pa, ?_⟩
  rw [Tasks.ends_setSched]
  exact hpop

/-- An empty ready queue pops nothing. -/
lemma pop_nil (h : Refines live eps c s) (hl : s.ready = []) : c.pop = (0, c) := by
  have hhead : c.sched.head = 0 := (h.holds.queue none trivial).head_eq_null_iff.mpr hl
  unfold Tasks.pop
  rw [if_pos hhead]

/-- Making a task the running one. -/
lemma switchTo (h : Refines live eps c s) (t : ℕ) :
    Refines live eps (c.switchTo t) (s.switchTo t) := by
  have hst := h.setState t .running
  have key : Refines live eps
      { (c.setState t .running).setSched { c.sched with current := t } with currentContext := t }
      (s.switchTo t) :=
    ⟨rfl, rfl, hst.state, hst.replyTo, hst.ctx, hst.ttbr0Pa, by
      have hends : Tasks.ends
          { (c.setState t .running).setSched { c.sched with current := t } with
            currentContext := t } = c.ends := by
        funext k
        cases k <;> rfl
      rw [hends]
      exact hst.holds⟩
  unfold Tasks.switchTo
  dsimp only
  split_ifs
  · exact ⟨key.current, key.context, key.state, key.replyTo, key.ctx, key.ttbr0Pa, key.holds⟩
  · exact key

/-! ### Whole operations -/

/-- Running the first ready task. -/
lemma blockAndSwitch (h : Refines live eps c s) (hz : ∀ u ∈ s.ready, u ≠ 0) :
    c.blockAndSwitch.2 = s.blockAndSwitch.2 ∧
      Refines live eps c.blockAndSwitch.1 s.blockAndSwitch.1 := by
  unfold Tasks.blockAndSwitch Sys.blockAndSwitch
  cases hl : s.ready with
  | nil =>
    rw [h.pop_nil hl]
    exact ⟨rfl, h⟩
  | cons t l =>
    obtain ⟨h1, h2⟩ := h.pop hl
    have h0 : c.pop.1 ≠ 0 := by
      rw [h1]
      exact hz t (by rw [hl]; simp)
    simp only [h0, ↓reduceIte]
    rw [h1]
    exact ⟨trivial, h2.switchTo t⟩

/-- The tasks on the ready list are not null. -/
lemma ready_ne_zero (h : s.toSkel.Placed live eps off) : ∀ u ∈ s.ready, u ≠ 0 :=
  fun _ hu => ne_of_mem_of_not_mem (h.ready_live hu) h.zero

/-- Revoking a reply right. -/
lemma abortReply (h : Refines live eps c s) (hi : s.toSkel.Inv live eps off) {u : ℕ}
    (hu : u ∈ live) : Refines live eps (K0.abortReply c u) (s.abortReply u) := by
  unfold K0.abortReply Sys.abortReply
  rw [h.replyTo_eq]
  by_cases hc : s.replyTo u = 0
  · simp only [hc, ↓reduceIte]
    exact h.setReplyTo u 0
  · simp only [hc, ↓reduceIte]
    have hw : s.state (s.replyTo u) = .blockedReply := hi.rights.waiting hu hc
    refine ((h.setReplyTo u 0).setX _ _ _).enqueue hc ?_ ?_
    · exact hi.placed.not_mem_ready (by rw [hw]; decide)
    · exact hi.placed.not_mem_queue (by rw [hw]; decide)

/-- Moving the running task to the end of the ready queue. -/
theorem rotate (h : Refines live eps c s) (hok : s.Ok live eps) :
    Refines live eps c.rotate s.rotate := by
  unfold Tasks.rotate Sys.rotate
  cases hl : s.ready with
  | nil =>
    rw [h.pop_nil hl]
    exact h
  | cons t l =>
    obtain ⟨h1, h2⟩ := h.pop hl
    have h0 : c.pop.1 ≠ 0 := by
      rw [h1]
      exact ready_ne_zero hok.inv.placed t (by rw [hl]; simp)
    obtain ⟨hr, hq⟩ := hok.current_not_mem
    have hcur : c.pop.2.sched.current = s.current := h2.current
    have hr' : s.current ∉ s.popReady.ready := by
      rw [Sys.popReady, hl]
      rw [hl] at hr
      exact fun hm => hr (List.mem_cons_of_mem _ hm)
    simp only [h0, ↓reduceIte]
    rw [h1, hcur]
    refine (h2.enqueue ?_ hr' hq).switchTo t
    exact ne_of_mem_of_not_mem hok.inv.placed.current_live hok.inv.placed.zero

/-- Ending the running task. -/
theorem kill (h : Refines live eps c s) (hok : s.Ok live eps) :
    (K0.abortReply c c.sched.current).exitCurrent.2 = s.kill.2 ∧
      Refines live eps (K0.abortReply c c.sched.current).exitCurrent.1 s.kill.1 := by
  rw [h.current]
  have ha := h.abortReply hok.inv hok.inv.placed.current_live
  have hi := hok.inv.abortReply hok.inv.placed.current_live (by simp)
  have hd := ha.setState (s.abortReply s.current).current .dead
  have hz := ready_ne_zero hi.placed
  have hexit : (K0.abortReply c s.current).exitCurrent =
      ((K0.abortReply c s.current).setState (s.abortReply s.current).current
        .dead).blockAndSwitch := by
    rw [← ha.current]
    rfl
  rw [hexit]
  exact hd.blockAndSwitch hz

/-- The running task joins the queue of an endpoint. -/
lemma waitOn (h : Refines live eps c s) (hok : s.Ok live eps) (he : e ∈ eps) (st : TaskState) :
    Refines live eps (c.waitOn st e) ((s.setState s.current st).pushQueue e s.current) := by
  unfold Tasks.waitOn
  rw [h.current]
  obtain ⟨hr, hq⟩ := hok.current_not_mem
  have h0 : s.current ≠ 0 :=
    ne_of_mem_of_not_mem hok.inv.placed.current_live hok.inv.placed.zero
  exact (h.setState s.current st).epPush he h0 hr hq

/-- Blocking the running task on an endpoint. -/
lemma blockOn (h : Refines live eps c s) (hok : s.Ok live eps) (he : e ∈ eps)
    (st : TaskState) :
    (c.waitOn st e).blockAndSwitch.2 = (s.blockOn st e).2 ∧
      Refines live eps (c.waitOn st e).blockAndSwitch.1 (s.blockOn st e).1 := by
  have hz : ∀ u ∈ s.ready, u ≠ 0 := ready_ne_zero hok.inv.placed
  exact (h.waitOn hok he st).blockAndSwitch hz

/-- Sending on an endpoint. -/
theorem sendOn (h : Refines live eps c s) (hok : s.Ok live eps) (he : e ∈ eps)
    (nonblock : Bool) :
    (K0.sendOn c e nonblock).2 = (s.send e nonblock).2 ∧
      Refines live eps (K0.sendOn c e nonblock).1 (s.send e nonblock).1 := by
  have htest := h.head_receiver hok.inv.placed he
  unfold K0.sendOn Sys.send
  cases hr : s.receiver? e with
  | some t =>
    obtain ⟨⟨l, hl⟩, -⟩ := Sys.receiver?_eq_some.mp hr
    have ht : t ∈ s.queue e := by rw [hl]; simp
    have h0 : t ≠ 0 := ne_of_mem_of_not_mem (hok.inv.placed.queue_live ht) hok.inv.placed.zero
    obtain ⟨h1, h2⟩ := h.epPop he hl
    have hpop := hok.inv.placed.popQueue hl
    rw [if_pos (htest.mpr ⟨t, hr⟩)]
    dsimp only
    rw [h1, h2.ctx_eq, h2.ctx_eq, h.context]
    refine ⟨rfl, (Refines.enqueue (h2.setCtx t _) h0 (hpop.off_ready (mem_insert _ _))
      fun e => hpop.off_queue (mem_insert _ _)).setX s.current 0 0⟩
  | none =>
    rw [if_neg fun hc => by obtain ⟨t, ht⟩ := htest.mp hc; simp [hr] at ht]
    cases nonblock with
    | true =>
      simp only [↓reduceIte]
      rw [h.context]
      exact ⟨trivial, h.setX s.current 0 _⟩
    | false =>
      simp only [Bool.false_eq_true, ↓reduceIte]
      exact h.blockOn hok he .blockedSend

/-- Receiving on an endpoint. -/
theorem recvInner (h : Refines live eps c s) (hok : s.Ok live eps) (he : e ∈ eps)
    (nonblock : Bool) :
    (K0.recvInner c e nonblock).2 = (s.recv e nonblock).2 ∧
      Refines live eps (K0.recvInner c e nonblock).1 (s.recv e nonblock).1 := by
  have htest := h.head_sender hok.inv.placed he
  unfold K0.recvInner Sys.recv
  cases hr : s.sender? e with
  | some t =>
    obtain ⟨⟨l, hl⟩, -⟩ := Sys.sender?_eq_some.mp hr
    have ht : t ∈ s.queue e := by rw [hl]; simp
    have h0 : t ≠ 0 := ne_of_mem_of_not_mem (hok.inv.placed.queue_live ht) hok.inv.placed.zero
    obtain ⟨h1, h2⟩ := h.epPop he hl
    have hpop := hok.inv.placed.popQueue hl
    rw [if_pos (htest.mpr ⟨t, hr⟩)]
    dsimp only
    rw [h1, h2.ctx_eq, h2.ctx_eq, h.context]
    have hc' : (s.popQueue e).current = s.current := rfl
    simp only [hc']
    set s₁ := (s.popQueue e).setCtx s.current (deliver ((s.popQueue e).ctx t)
      ((s.popQueue e).ctx s.current)) with hs₁
    have h3 : Refines live eps _ s₁ := h2.setCtx s.current _
    have hc₁ : s₁.current = s.current := rfl
    rw [h3.state_eq, h3.current]
    by_cases hcall : s₁.state t = .blockedCall
    · -- the calling sender now waits for its answer
      rw [if_pos hcall, if_pos hcall]
      have hi₁ : s₁.toSkel.Inv live eps (insert t ∅) := ⟨hpop, hok.inv.rights⟩
      have h4 := h3.abortReply hi₁ hok.inv.placed.current_live
      obtain ⟨-, hcurrent, -, -⟩ := s₁.abortReply_frame s.current
      simp only [hc₁, hcurrent]
      exact ⟨trivial, (h4.setState t .blockedReply).setReplyTo s.current t⟩
    · rw [if_neg hcall, if_neg hcall]
      exact ⟨rfl, Refines.enqueue (h3.setX t 0 0) h0 (hpop.off_ready (mem_insert _ _))
        fun e => hpop.off_queue (mem_insert _ _)⟩
  | none =>
    rw [if_neg fun hc => by obtain ⟨t, ht⟩ := htest.mp hc; simp [hr] at ht]
    cases nonblock with
    | true =>
      simp only [↓reduceIte]
      rw [h.context]
      exact ⟨trivial, h.setX s.current 0 _⟩
    | false =>
      simp only [Bool.false_eq_true, ↓reduceIte]
      exact h.blockOn hok he .blockedRecv

/-- Answering the pending caller. -/
lemma answer (h : Refines live eps c s) (hok : s.Ok live eps) :
    Refines live eps c.answer s.reply := by
  unfold Tasks.answer Sys.reply
  dsimp only
  rw [h.current, h.context, h.replyTo_eq]
  by_cases hc : s.replyTo s.current = 0
  · simp only [hc, ne_eq, not_true_eq_false, ↓reduceIte]
    exact h
  · have hw := hok.inv.rights.waiting hok.inv.placed.current_live hc
    have h1 := h.setReplyTo s.current 0
    simp only [hc, ne_eq, not_false_eq_true, ↓reduceIte]
    rw [h1.ctx_eq, h1.ctx_eq]
    refine (h1.setCtx _ _).enqueue hc ?_ ?_
    · exact hok.inv.placed.not_mem_ready (by rw [hw]; decide)
    · exact hok.inv.placed.not_mem_queue (by rw [hw]; decide)

/-- Answering the pending caller and receiving. -/
theorem replyRecvOn (h : Refines live eps c s) (hok : s.Ok live eps) (he : e ∈ eps)
    (nonblock : Bool) :
    (K0.replyRecvOn c e nonblock).2 = (s.replyRecv e nonblock).2 ∧
      Refines live eps (K0.replyRecvOn c e nonblock).1 (s.replyRecv e nonblock).1 :=
  (h.answer hok).recvInner hok.reply he nonblock

/-- The call to a waiting receiver, up to the switch. -/
lemma callTo (h : Refines live eps c s) (hok : s.Ok live eps) (he : e ∈ eps)
    (hr : s.receiver? e = some t) : Refines live eps (c.callTo e) (s.callTo e t) := by
  obtain ⟨⟨l, hl⟩, hrecv⟩ := Sys.receiver?_eq_some.mp hr
  have ht : t ∈ s.queue e := by rw [hl]; simp
  have htl := hok.inv.placed.queue_live ht
  have h0 : t ≠ 0 := ne_of_mem_of_not_mem htl hok.inv.placed.zero
  obtain ⟨h1, h2⟩ := h.epPop he hl
  have hpop := hok.inv.placed.popQueue hl
  unfold Tasks.callTo
  dsimp only
  rw [h1, h2.ctx_eq, h2.ctx_eq, h.context, h.current]
  have h3 : Refines live eps _ (s.giveTo e t) := h2.setCtx t _
  have hi₁ : (s.giveTo e t).toSkel.Inv live eps (insert t ∅) := ⟨hpop, hok.inv.rights⟩
  have h4 := h3.abortReply hi₁ htl
  have ha : ((s.giveTo e t).abortReply t).toSkel.Inv live eps (insert t ∅) := by
    refine hi₁.abortReply htl fun v hv => ?_
    rw [insert_empty_eq, mem_singleton_iff] at hv
    rw [hv]
    change s.state t ≠ .blockedReply
    rw [hrecv]
    decide
  have hoff : t ∈ insert t (∅ : Set ℕ) := mem_insert _ _
  have h5 := (h4.setReplyTo t s.current).setState s.current .blockedReply
  exact h5.enqueue h0 (ha.placed.off_ready hoff) fun e => ha.placed.off_queue hoff

/-- Calling on an endpoint. -/
theorem callOn (h : Refines live eps c s) (hok : s.Ok live eps) (he : e ∈ eps)
    (nonblock : Bool) :
    (K0.callOn c e nonblock).2 = (s.call e nonblock).2 ∧
      Refines live eps (K0.callOn c e nonblock).1 (s.call e nonblock).1 := by
  have htest := h.head_receiver hok.inv.placed he
  rw [Tasks.callOn_eq]
  cases hr : s.receiver? e with
  | some t =>
    rw [if_pos (htest.mpr ⟨t, hr⟩), Sys.call_of_receiver hr]
    exact (h.callTo hok he hr).blockAndSwitch (ready_ne_zero (hok.called hr).1.placed)
  | none =>
    rw [if_neg fun hc => by obtain ⟨t, ht⟩ := htest.mp hc; simp [hr] at ht, Sys.call_of_none hr]
    cases nonblock with
    | true =>
      simp only [↓reduceIte]
      rw [h.context]
      exact ⟨trivial, h.setX s.current 0 _⟩
    | false =>
      simp only [Bool.false_eq_true, ↓reduceIte]
      exact h.blockOn hok he .blockedCall

/-! ### New objects -/

/-- Configuring a task. -/
lemma configure (h : Refines live eps c s) (t : ℕ) (v : Context) (root : ℕ) :
    Refines live eps
      (((c.setCtx t v).modTcb .ttbr0Pa t fun b => { b with ttbr0Pa := root }).setState t .stopped)
      (s.configure t v root) := by
  have h1 := h.setCtx t v
  have h2 : Refines live eps ((c.setCtx t v).modTcb .ttbr0Pa t fun b => { b with ttbr0Pa := root })
      { s.setCtx t v with ttbr0Pa := Function.update s.ttbr0Pa t root } :=
    { current := h1.current
      context := h1.context
      state := (Tasks.field_modTcb_of_eq _ t _ Tcb.state rfl).trans h1.state
      replyTo := (Tasks.field_modTcb_of_eq _ t _ Tcb.replyTo rfl).trans h1.replyTo
      ctx := (Tasks.field_modTcb_of_eq _ t _ Tcb.ctx rfl).trans h1.ctx
      ttbr0Pa := by
        rw [Tasks.field_modTcb, h1.ttbr0Pa]
        rfl
      holds := by
        have hnext := Tasks.field_modTcb_of_eq (c.setCtx t v) (f := .ttbr0Pa) t
          (fun b => { b with ttbr0Pa := root }) Tcb.next rfl
        unfold Tasks.nextOf
        rw [hnext]
        exact h1.holds }
  exact h2.setState t .stopped

/-- Clearing memory that holds no live record. Control blocks and endpoints in it may then count
as live. -/
lemma clear {live' eps' : Set ℕ} {a n : ℕ} (h : Refines live eps c s)
    (hp : s.toSkel.Placed live eps off) (hlive : ∀ u ∈ live, ¬ (a ≤ u ∧ u < a + n))
    (heps : ∀ e ∈ eps, ¬ (a ≤ e ∧ e < a + n)) (hsub : eps ⊆ eps')
    (hnew : ∀ u ∈ live', u ∉ live → a ≤ u ∧ u < a + n)
    (hnew' : ∀ e ∈ eps', e ∉ eps → a ≤ e ∧ e < a + n) :
    Refines live' eps' (c.clear a n) (s.clear a n) := by
  have hfield : ∀ {β : Type} (f : Tcb → β) {g : ℕ → β}, (fun u => f (c.tcb u)) = g →
      (fun u => f ((c.clear a n).tcb u)) =
        fun u => if a ≤ u ∧ u < a + n then f Tcb.zeroed else g u := by
    rintro β f g rfl
    funext u
    exact apply_ite f _ _ _
  refine ⟨h.current, h.context, hfield Tcb.state h.state, hfield Tcb.replyTo h.replyTo,
    hfield Tcb.ctx h.ctx, hfield Tcb.ttbr0Pa h.ttbr0Pa, ?_⟩
  · refine h.holds.extend ?_ ?_ ?_ ?_ ?_ ?_
    · intro k u hu
      cases k with
      | none => exact hp.ready_live hu
      | some e => exact hp.queue_live hu
    · intro u hu
      exact congrArg Tcb.next (if_neg (hlive u hu))
    · intro k hk
      cases k with
      | none => rfl
      | some e => exact if_neg (heps e hk)
    · intro u hu hn
      exact congrArg Tcb.next (if_pos (hnew u hu hn))
    · intro k hk
      cases k with
      | none => trivial
      | some e => exact hsub hk
    · intro k hk hn
      cases k with
      | none => exact absurd trivial hn
      | some e => exact if_pos (hnew' e hk hn)

end Refines

end K0
