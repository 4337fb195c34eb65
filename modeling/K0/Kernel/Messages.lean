import K0.Kernel.Commute
import K0.Kernel.Registers
import K0.Kernel.Run

set_option relaxedAutoImplicit false
set_option autoImplicit false

/-!
# Every message is received once, in order

In every run of the kernel each completed receive gets the message of exactly one send or call on
the same endpoint, with the words that the sender had when it made the call, however long it has
waited. Senders that wait are served in the order in which they began to wait, and so are receivers.

## Main definitions

* `K0.Kernel.Run.Sent`, `K0.Kernel.Run.Received`: the calls that complete in a step.
* `K0.Kernel.Run.Move`: what one step does to the waiting tasks.
* `K0.Kernel.Run.Since`, `K0.Kernel.Run.Lined`: since when a task waits, and the order of the
  queues.

## Main results

* `K0.Kernel.Run.Shadow.lined`: the queues are ordered by time in every state of a run.
* `K0.Kernel.Run.messages_matched`: sends and receives match one to one, in order.
-/

namespace K0

open Set

/-- The calls that send a message. -/
def IpcOp.Sends (op : IpcOp) : Prop := op = .send ∨ op = .call

/-- The calls that receive a message. -/
def IpcOp.Receives (op : IpcOp) : Prop := op = .recv ∨ op = .replyRecv

/-- Every call sends or receives. -/
lemma IpcOp.sends_or_receives (op : IpcOp) : op.Sends ∨ op.Receives := by
  cases op
  · exact .inl (.inl rfl)
  · exact .inr (.inl rfl)
  · exact .inl (.inr rfl)
  · exact .inr (.inr rfl)

/-- No call does both. -/
lemma IpcOp.Sends.not_receives {op : IpcOp} (h : op.Sends) : ¬ op.Receives := by
  rcases h with rfl | rfl <;> rintro (h | h) <;> cases h

/-- A call that receives waits as a receiver. -/
lemma IpcOp.Receives.waiting_eq {op : IpcOp} (h : op.Receives) : op.waiting = .blockedRecv := by
  rcases h with rfl | rfl <;> rfl

/-- A call that waits as a receiver receives. -/
lemma IpcOp.receives_of_waiting {op : IpcOp} (h : op.waiting = .blockedRecv) : op.Receives := by
  cases op
  · cases h
  · exact .inl rfl
  · cases h
  · exact .inr rfl

/-- A task in a call waits in a queue. -/
lemma IpcOp.queued_waiting (op : IpcOp) : op.waiting.Queued := by
  cases op <;> decide

/-- The caller of a task is in no queue. -/
lemma Sys.Ok.caller_not_mem {live eps : Set ℕ} {s : Sys} (h : s.Ok live eps) {u e : ℕ}
    (hu : u ∈ live) (h0 : s.replyTo u ≠ 0) : s.replyTo u ∉ s.queue e :=
  h.inv.placed.not_mem_queue (h.replyTo_not_queued hu h0) e

namespace Sys

variable {live eps : Set ℕ} {s s' : Sys} {e t : ℕ}

/-- A task in a queue is left alone. -/
lemma Still.queued {T : Set ℕ} (h : Still live T s s') (hok : s.Ok live eps) (ht : t ∈ s.queue e)
    (hT : t ∉ T) : s'.state t = s.state t ∧ s'.ctx t = s.ctx t :=
  h.waiting hok (hok.inv.placed.queue_live ht) hT (.inl (hok.inv.placed.queue_state ht))

/-- The answer of `REPLY_RECV` touches no task in a queue. -/
lemma Begun.queued {regs : Context} {op : IpcOp} (h : Begun live eps s regs op s')
    (hok : s.Ok live eps) (ht : t ∈ s.queue e) : s'.state t = s.state t ∧ s'.ctx t = s.ctx t := by
  refine h.still.queued hok ht ?_
  rintro ⟨-, h0, rfl⟩
  exact hok.caller_not_mem hok.inv.placed.current_live h0 ht

end Sys

namespace Kernel.Run

variable {P : Platform} {I : Image P} {i : Machine} {memory reserved : List PhysRegion} {root : ℕ}
  {k₀ : Kernel} {r : Run I.pool k₀} {s : ℕ → Sys} {c d : IpcTrap} {e j m n t u : ℕ}

/-! ### One step -/

/-- The tasks in queues before step `n`, except `t`, have the same state and registers after it. -/
def Keeps (r : Run I.pool k₀) (s : ℕ → Sys) (n t : ℕ) : Prop :=
  ∀ e, ∀ u ∈ (s n).queue e, u ≠ t →
    r.status (n + 1) u = r.status n u ∧ r.regs (n + 1) u = r.regs n u

/-- What step `n` does to the waiting tasks. -/
inductive Move (r : Run I.pool k₀) (s : ℕ → Sys) (n : ℕ) : Prop
  /-- Nobody begins or ends to wait; a call, if there is one, is refused. -/
  | rest (hqueue : (s (n + 1)).queue = (s n).queue) (hkeep : ∀ t, r.Keeps s n t)
      (hcall : ∀ c, r.trap n = some c → (r.status (n + 1) (r.task n)).Runnable ∧
        r.regs (n + 1) (r.task n) = c.regs.setX 0 (Abi.asU64 Abi.Err.wouldBlock))
  /-- The running task begins to wait. -/
  | wait (c : IpcTrap) (htrap : r.trap n = some c)
      (hqueue : (s (n + 1)).queue =
        Function.update (s n).queue c.ep ((s n).queue c.ep ++ [r.task n]))
      (hkeep : ∀ t, r.Keeps s n t) (hstate : r.status (n + 1) (r.task n) = c.op.waiting)
      (hregs : r.regs (n + 1) (r.task n) = c.regs)
  /-- The message of the running task goes to the receiver `t`. -/
  | give (c : IpcTrap) (htrap : r.trap n = some c) (hop : c.op.Sends) (t : ℕ) (rest : List ℕ)
      (hhead : (s n).queue c.ep = t :: rest)
      (hqueue : (s (n + 1)).queue = Function.update (s n).queue c.ep rest) (hkeep : r.Keeps s n t)
      (hwait : r.status n t = .blockedRecv) (hrun : (r.status (n + 1) t).Runnable)
      (hregs : r.regs (n + 1) t = deliver c.regs (r.regs n t))
      (hsend : c.op = .send → (r.status (n + 1) (r.task n)).Runnable ∧
        r.regs (n + 1) (r.task n) = c.regs.setX 0 0)
      (hcall : c.op = .call → r.status (n + 1) (r.task n) = .blockedReply ∧
        r.owes (n + 1) t = r.task n)
  /-- The running task takes the message of the sender `t`. -/
  | take (c : IpcTrap) (htrap : r.trap n = some c) (hop : c.op.Receives) (t : ℕ) (rest : List ℕ)
      (hhead : (s n).queue c.ep = t :: rest)
      (hqueue : (s (n + 1)).queue = Function.update (s n).queue c.ep rest) (hkeep : r.Keeps s n t)
      (hwait : r.status n t = .blockedSend ∨ r.status n t = .blockedCall)
      (hrun : (r.status (n + 1) (r.task n)).Runnable)
      (hregs : r.regs (n + 1) (r.task n) = deliver (r.regs n t) c.regs)
      (hsend : r.status n t = .blockedSend → (r.status (n + 1) t).Runnable ∧
        r.regs (n + 1) t = (r.regs n t).setX 0 0)
      (hcall : r.status n t = .blockedCall → r.status (n + 1) t = .blockedReply ∧
        r.owes (n + 1) (r.task n) = t)

namespace Shadow

variable (h : r.Shadow memory reserved root s)
include h

/-- What a set of exceptions without tasks in queues means for the observers. -/
lemma keeps {T : Set ℕ} (hn : n < r.len) (hstill : (s n).Still (r.live n) T (s (n + 1)))
    (hT : ∀ e, ∀ u ∈ (s n).queue e, u ≠ t → u ∉ T) : r.Keeps s n t := by
  intro e u hu hne
  rw [h.status_eq hn, h.status_eq hn.le, h.regs_eq hn, h.regs_eq hn.le]
  exact hstill.queued (h.ok hn.le) hu (hT e u hu hne)

/-- The same after the beginning of a call. -/
lemma keeps_call {T : Set ℕ} {s₁ : Sys} (hn : n < r.len)
    (hbegin : (s n).Begun (r.live n) (r.state n).cnode.endpoints c.regs c.op s₁)
    (hstill : s₁.Still (r.live n) T (s (n + 1)))
    (hT : ∀ e, ∀ u ∈ s₁.queue e, u ≠ t → u ∉ T) : r.Keeps s n t := by
  intro e u hu hne
  rw [h.status_eq hn, h.status_eq hn.le, h.regs_eq hn, h.regs_eq hn.le]
  have hu' : u ∈ s₁.queue e := hbegin.queue ▸ hu
  obtain ⟨hst, hctx⟩ := hbegin.queued (h.ok hn.le) hu
  obtain ⟨hst', hctx'⟩ := hstill.queued hbegin.ok hu' (hT e u hu' hne)
  exact ⟨hst'.trans hst, hctx'.trans hctx⟩

/-- Every step is such a move. -/
theorem move (hn : n < r.len) : r.Move s n := by
  have hok := h.ok hn.le
  have htask := h.task_eq hn.le
  cases h.kind hn with
  | ends htrap _ regs hended =>
    refine .rest hended.queue (fun t => h.keeps hn
      ((Sys.still_save (r.live n) _ (s n) regs).trans hended.still rfl) fun e u hu _ => ?_) ?_
    · rintro ⟨h0, rfl⟩
      exact hok.caller_not_mem hok.inv.placed.current_live h0 hu
    · intro c hc
      rw [htrap] at hc
      cases hc
  | quiet htrap _ hqueue _ hstill =>
    refine .rest hqueue (fun t => h.keeps hn hstill fun _ _ _ _ => id) fun c hc => ?_
    rw [htrap] at hc
    cases hc
  | call c htrap s₁ hbegin hran =>
    have hok₁ := hbegin.ok
    have hcur : s₁.current = r.task n := hbegin.current.trans htask.symm
    have hctx : s₁.ctx (r.task n) = c.regs := by
      rw [htask]
      exact hbegin.ctx
    cases hran with
    | refused _ hr =>
      refine .rest (hr.queue.trans hbegin.queue)
        (fun t => h.keeps_call (c := c) (T := ∅) hn hbegin ?_
        fun _ _ _ _ => id) fun c' hc' => ?_
      · intro u _ _ hu
        rw [hr.state, hr.ctx, Function.update_of_ne hu]
        exact ⟨fun _ => ⟨rfl, rfl⟩, fun h => ⟨h, rfl⟩⟩
      · obtain rfl := Option.some.inj (htrap.symm.trans hc')
        rw [h.status_eq hn, h.regs_eq hn, hr.state, hr.ctx, ← hcur, Function.update_self,
          hok₁.running,
          hcur, hctx]
        exact ⟨.inr rfl, rfl⟩
    | waited _ hw =>
      have hqueue := hw.queue
      rw [hbegin.queue, hcur] at hqueue
      refine .wait c htrap hqueue (fun t => h.keeps_call (c := c) hn hbegin hw.still
        fun _ _ _ _ => id) ?_ ?_
      · rw [h.status_eq hn, ← hcur]
        exact hw.state
      · rw [h.regs_eq hn, hw.ctx, hctx]
    | given hop t hg =>
      obtain ⟨rest, hhead, hqueue⟩ := hg.queue
      have hmem : t ∈ s₁.queue c.ep := hhead ▸ List.mem_cons_self
      rw [hbegin.queue] at hhead hqueue
      obtain ⟨hst, hregs⟩ := hbegin.queued hok (hbegin.queue ▸ hmem)
      refine .give c htrap hop t rest hhead hqueue (h.keeps_call (c := c) hn hbegin hg.still ?_)
        ?_ ?_ ?_ (fun hs => ?_) fun hs => ?_
      · rintro e u hu hne (hc | ⟨-, h0, rfl⟩)
        · exact hne hc
        · exact hok₁.caller_not_mem (hok₁.inv.placed.queue_live hmem) h0 hu
      · rw [h.status_eq hn.le, ← hst]
        exact hg.receiver
      · rw [h.status_eq hn]
        exact hg.woken
      · rw [h.regs_eq hn, h.regs_eq hn.le, ← hregs, hg.received, hcur, hctx]
      · obtain ⟨hrun, hx, -⟩ := hg.sent (by rw [hs]; nofun)
        rw [h.status_eq hn, h.regs_eq hn, ← hcur]
        rw [hcur, hctx] at hx
        exact ⟨hrun, hcur ▸ hx⟩
      · obtain ⟨hreply, -, hright⟩ := hg.called hs
        rw [h.status_eq hn, h.owes_eq hn, hright, Function.update_self, ← hcur]
        exact ⟨hreply, rfl⟩
    | taken hop t ht =>
      obtain ⟨rest, hhead, hqueue⟩ := ht.queue
      have hmem : t ∈ s₁.queue c.ep := hhead ▸ List.mem_cons_self
      rw [hbegin.queue] at hhead hqueue
      obtain ⟨hst, hregs⟩ := hbegin.queued hok (hbegin.queue ▸ hmem)
      refine .take c htrap hop t rest hhead hqueue (h.keeps_call (c := c) hn hbegin ht.still ?_)
        ?_ ?_ ?_ (fun hs => ?_) fun hs => ?_
      · rintro e u hu hne (hc | ⟨-, h0, rfl⟩)
        · exact hne hc
        · exact hok₁.caller_not_mem hok₁.inv.placed.current_live h0 hu
      · rw [h.status_eq hn.le, ← hst]
        exact ht.sender
      · rw [h.status_eq hn, ← hcur]
        exact ht.receiver
      · rw [h.regs_eq hn, h.regs_eq hn.le, ← hregs, ← hcur, ht.received, hcur, hctx]
      · rw [h.status_eq hn.le, ← hst] at hs
        rw [h.status_eq hn, h.regs_eq hn, h.regs_eq hn.le, ← hregs]
        exact ⟨(ht.sent hs).1, (ht.sent hs).2.1⟩
      · rw [h.status_eq hn.le, ← hst] at hs
        obtain ⟨hreply, -, hright⟩ := ht.called hs
        rw [h.status_eq hn, h.owes_eq hn, hright, ← hcur, Function.update_self]
        exact ⟨hreply, rfl⟩

end Shadow

/-! ### Since when a task waits -/

/-- The task of step `j` is in the state `st` after that step and until step `n`. -/
def Waits (r : Run I.pool k₀) (j n : ℕ) (st : TaskState) : Prop :=
  ∀ l, j < l → l ≤ n → r.status l (r.task j) = st

/-- The call `c` of step `j` waits for the other side until step `n`. -/
structure Since (r : Run I.pool k₀) (n j : ℕ) (c : IpcTrap) : Prop where
  lt : j < n
  trap : r.trap j = some c
  waits : r.Waits j n c.op.waiting
  regs : r.regs n (r.task j) = c.regs

/-- The tasks `t` and `u` wait before step `n`, and `t` has begun before `u`. -/
def Before (r : Run I.pool k₀) (n t u : ℕ) : Prop :=
  ∃ j c j' c', r.Since n j c ∧ r.task j = t ∧ r.Since n j' c' ∧ r.task j' = u ∧ j < j'

/-- Every task in a queue waits there with a call that it has made, and the queues are ordered by
the steps of these calls. -/
structure Lined (r : Run I.pool k₀) (s : ℕ → Sys) (n : ℕ) : Prop where
  since : ∀ e, ∀ t ∈ (s n).queue e, ∃ j c, r.Since n j c ∧ r.task j = t ∧ c.ep = e
  order : ∀ e, ((s n).queue e).Pairwise (r.Before n)

/-- A task that is left alone waits on. -/
lemma Since.keep (h : r.Since n j c)
    (hkeep : r.status (n + 1) (r.task j) = r.status n (r.task j) ∧
      r.regs (n + 1) (r.task j) = r.regs n (r.task j)) : r.Since (n + 1) j c := by
  refine ⟨h.lt.trans n.lt_succ_self, h.trap, fun l hl hln => ?_, hkeep.2.trans h.regs⟩
  rcases Nat.lt_or_ge n l with hlt | hge
  · obtain rfl : l = n + 1 := by omega
    exact hkeep.1.trans (h.waits n h.lt le_rfl)
  · exact h.waits l hl hge

/-- The tasks of a queue that stay in it, in their order. -/
lemma Lined.sublist (h : r.Lined s n) {l : List ℕ} (hl : l.Sublist ((s n).queue e))
    (hkeep : ∀ u ∈ l, r.status (n + 1) u = r.status n u ∧ r.regs (n + 1) u = r.regs n u) :
    (∀ t ∈ l, ∃ j c, r.Since (n + 1) j c ∧ r.task j = t ∧ c.ep = e) ∧
      l.Pairwise (r.Before (n + 1)) := by
  constructor
  · intro t ht
    obtain ⟨j, c, hs, rfl, he⟩ := h.since e t (hl.subset ht)
    exact ⟨j, c, hs.keep (hkeep _ ht), rfl, he⟩
  · refine ((h.order e).sublist hl).imp_of_mem ?_
    rintro _ _ ht hu ⟨j, c, j', c', hs, rfl, hs', rfl, hlt⟩
    exact ⟨j, c, j', c', hs.keep (hkeep _ ht), rfl, hs'.keep (hkeep _ hu), rfl, hlt⟩

namespace Shadow

variable (h : r.Shadow memory reserved root s)
include h

/-- The queues stay in order when one loses its head. -/
lemma lined_pop (hn : n < r.len) (hl : r.Lined s n) {rest : List ℕ}
    (hhead : (s n).queue e = t :: rest)
    (hqueue : (s (n + 1)).queue = Function.update (s n).queue e rest) (hkeep : r.Keeps s n t) :
    r.Lined s (n + 1) := by
  have hplaced := (h.ok hn.le).inv.placed
  have hmem : t ∈ (s n).queue e := hhead ▸ List.mem_cons_self
  have hboth : ∀ e', (∀ u ∈ (s (n + 1)).queue e', ∃ j c, r.Since (n + 1) j c ∧ r.task j = u ∧
      c.ep = e') ∧ ((s (n + 1)).queue e').Pairwise (r.Before (n + 1)) := by
    intro e'
    rw [hqueue]
    by_cases he : e' = e
    · subst he
      rw [Function.update_self]
      have hsub : rest.Sublist ((s n).queue e') := hhead ▸ List.sublist_cons_self t rest
      have hnot : t ∉ rest := by
        have hnodup := hplaced.queue_nodup e'
        rw [hhead] at hnodup
        exact (List.nodup_cons.mp hnodup).1
      refine hl.sublist hsub fun u hu => hkeep e' u (hsub.subset hu) ?_
      rintro rfl
      exact hnot hu
    · rw [Function.update_of_ne he]
      refine hl.sublist (List.Sublist.refl _) fun u hu => hkeep e' u hu ?_
      rintro rfl
      exact he (hplaced.queue_inj hu hmem)
  exact ⟨fun e' => (hboth e').1, fun e' => (hboth e').2⟩

/-- The queues stay in order in every step. -/
lemma lined_step (hn : n < r.len) (hl : r.Lined s n) : r.Lined s (n + 1) := by
  cases h.move hn with
  | rest hqueue hkeep =>
    have hboth := fun e => hl.sublist (List.Sublist.refl ((s n).queue e)) fun u hu =>
      hkeep (u + 1) e u hu u.succ_ne_self.symm
    rw [← hqueue] at hboth
    exact ⟨fun e => (hboth e).1, fun e => (hboth e).2⟩
  | wait c htrap hqueue hkeep hstate hregs =>
    have hboth := fun e => hl.sublist (List.Sublist.refl ((s n).queue e)) fun u hu =>
      hkeep (u + 1) e u hu u.succ_ne_self.symm
    have hnew : r.Since (n + 1) n c := by
      refine ⟨n.lt_succ_self, htrap, fun l hl hle => ?_, hregs⟩
      obtain rfl : l = n + 1 := by omega
      exact hstate
    constructor
    · intro e t ht
      rw [hqueue] at ht
      by_cases he : e = c.ep
      · subst he
        rw [Function.update_self] at ht
        rcases List.mem_append.mp ht with ht | ht
        · exact (hboth c.ep).1 t ht
        · exact ⟨n, c, hnew, (List.mem_singleton.mp ht).symm, rfl⟩
      · rw [Function.update_of_ne he] at ht
        exact (hboth e).1 t ht
    · intro e
      rw [hqueue]
      by_cases he : e = c.ep
      · subst he
        rw [Function.update_self]
        refine List.pairwise_append.mpr ⟨(hboth c.ep).2, List.pairwise_singleton _ _, ?_⟩
        intro t ht u hu
        obtain rfl := List.mem_singleton.mp hu
        obtain ⟨j, d, hs, hj, -⟩ := hl.since c.ep t ht
        obtain ⟨j', d', hs', hj', -⟩ := (hboth c.ep).1 t ht
        refine ⟨j', d', n, c, hs', hj', hnew, rfl, ?_⟩
        -- a task that waits already is not the running one
        refine lt_of_le_of_ne (Nat.le_of_lt_succ hs'.lt) ?_
        rintro rfl
        have hrun := h.status_task hn.le
        rw [hj', ← hj, hs.waits _ hs.lt le_rfl] at hrun
        have hq := d.op.queued_waiting
        rw [hrun] at hq
        exact absurd hq (by decide)
      · rw [Function.update_of_ne he]
        exact (hboth e).2
  | give c htrap hop t rest hhead hqueue hkeep => exact h.lined_pop hn hl hhead hqueue hkeep
  | take c htrap hop t rest hhead hqueue hkeep => exact h.lined_pop hn hl hhead hqueue hkeep

/-- **Queues are ordered by time.** In every state of a run each task in a queue waits there with a
call that it has made, and the queues are ordered by the steps of these calls. -/
theorem lined (h0 : ∀ e, (s 0).queue e = []) (hn : n ≤ r.len) : r.Lined s n := by
  induction n with
  | zero =>
    refine ⟨fun e t ht => ?_, fun e => ?_⟩
    · rw [h0] at ht
      cases ht
    · rw [h0]
      exact .nil
  | succ n ih => exact h.lined_step hn (ih (Nat.le_of_succ_le hn))

/-- A task waits with one call at a time. -/
lemma waits_unique (hn : n ≤ r.len) {j' : ℕ} {st st' : TaskState} (hst : st.Queued)
    (hst' : st'.Queued) (hj : j < n) (hj' : j' < n) (hw : r.Waits j n st) (hw' : r.Waits j' n st')
    (htask : r.task j = r.task j') : j = j' := by
  have hlt : ∀ {a b : ℕ} {st : TaskState}, st.Queued → a < b → b < n → r.Waits a n st →
      r.task a ≠ r.task b := by
    intro a b st hst hab hb hw he
    have hrun := h.status_task (hb.le.trans hn)
    rw [← he, hw b hab hb.le] at hrun
    rw [hrun] at hst
    exact absurd hst (by decide)
  rcases Nat.lt_trichotomy j j' with hlt' | he | hgt
  · exact absurd htask (hlt hst hlt' hj' hw)
  · exact he
  · exact absurd htask.symm (hlt hst' hgt hj hw')

end Shadow

/-! ### Calls that complete -/

/-- The call `c` of step `j` ends to wait in step `n`, or does not wait at all and `j` is `n`. -/
structure Completes (r : Run I.pool k₀) (j n : ℕ) (c : IpcTrap) : Prop where
  lt : n < r.len
  le : j ≤ n
  trap : r.trap j = some c
  waits : r.Waits j n c.op.waiting
  done : r.status (n + 1) (r.task j) ≠ c.op.waiting

/-- The message of the send or call of step `j` leaves its task in step `n`: the send returns zero,
or the call waits for the answer from then on. -/
structure Sent (r : Run I.pool k₀) (j n : ℕ) (c : IpcTrap) : Prop extends r.Completes j n c where
  sends : c.op.Sends
  send : c.op = .send → (r.regs (n + 1) (r.task j)).x 0 = 0
  call : c.op = .call → r.status (n + 1) (r.task j) = .blockedReply

/-- The receive of step `j`, which may be that of `REPLY_RECV`, returns zero in step `n`. -/
structure Received (r : Run I.pool k₀) (j n : ℕ) (c : IpcTrap) : Prop extends
    r.Completes j n c where
  receives : c.op.Receives
  ret : (r.regs (n + 1) (r.task j)).x 0 = 0

/-- A call completes once. -/
lemma Completes.unique (h : r.Completes j n c) (h' : r.Completes j m d) : n = m := by
  obtain rfl := Option.some.inj (h.trap.symm.trans h'.trap)
  rcases Nat.lt_trichotomy n m with hlt | he | hgt
  · exact absurd (h'.waits (n + 1) (Nat.lt_succ_of_le h.le) hlt) h.done
  · exact he
  · exact absurd (h.waits (m + 1) (Nat.lt_succ_of_le h'.le) hgt) h'.done

/-- A call that waits when it is made and completes has waited until then. -/
lemma exists_completes (hn : n ≤ r.len) (htrap : r.trap j = some c)
    (hw : ¬ r.Waits j n c.op.waiting) : ∃ m, m < n ∧ r.Completes j m c := by
  classical
  have hex : ∃ l, j < l ∧ l ≤ n ∧ r.status l (r.task j) ≠ c.op.waiting := by
    by_contra hc
    push Not at hc
    exact hw hc
  obtain ⟨hlt, hle, hne⟩ := Nat.find_spec hex
  obtain ⟨m, hm⟩ : ∃ m, Nat.find hex = m + 1 := ⟨Nat.find hex - 1, by omega⟩
  rw [hm] at hlt hle hne
  refine ⟨m, hle, by omega, Nat.le_of_lt_succ hlt, htrap, fun l hl hlm => ?_, hne⟩
  by_contra hc
  exact Nat.find_min hex (by omega) ⟨hl, by omega, hc⟩

namespace Shadow

variable (h : r.Shadow memory reserved root s)
include h

/-- A task that waits is in a queue. -/
lemma mem_queue (hn : n ≤ r.len) (hj : j < n) (hw : r.Waits j n c.op.waiting) :
    ∃ e, r.task j ∈ (s n).queue e := by
  have hlive : r.task j ∈ r.live n :=
    h.live_mono hn hj.le (h.task_live (hj.le.trans hn))
  refine (h.ok hn).inv.placed.mem_queue hlive (notMem_empty _) ?_
  rw [← h.status_eq hn, hw n hj le_rfl]
  exact c.op.queued_waiting

/-- The call that completes is that of the step, or it is the one whose task the step does not leave
alone. -/
lemma completes_cases (hkeep : r.Keeps s n t) (hc : r.Completes j n c) :
    j = n ∨ j < n ∧ r.task j = t := by
  rcases Nat.eq_or_lt_of_le hc.le with he | hlt
  · exact .inl he
  · refine .inr ⟨hlt, ?_⟩
    by_contra hne
    obtain ⟨e, he⟩ := h.mem_queue hc.lt.le hlt hc.waits
    exact hc.done ((hkeep e _ he hne).1.trans (hc.waits n hlt le_rfl))

end Shadow

/-- In step `n` the message of step `j` passes to the receive of step `j'`, and no other one
passes. -/
structure Passes (r : Run I.pool k₀) (n j j' : ℕ) (c c' : IpcTrap) : Prop where
  sent : r.Sent j n c
  received : r.Received j' n c'
  ep : c.ep = c'.ep
  x1 : (r.regs (n + 1) (r.task j')).x 1 = 0
  words : c.regs.Words (r.regs (n + 1) (r.task j'))
  right : c.op = .call → r.owes (n + 1) (r.task j') = r.task j
  sent_unique : ∀ i d, r.Sent i n d → i = j
  received_unique : ∀ i d, r.Received i n d → i = j'

/-- The call of a step that does not wait completes in it. -/
lemma completes_self (hn : n < r.len) (htrap : r.trap n = some c)
    (hdone : r.status (n + 1) (r.task n) ≠ c.op.waiting) : r.Completes n n c :=
  ⟨hn, le_rfl, htrap, fun _ hl hle => absurd hl (Nat.not_lt.mpr hle), hdone⟩

/-- The call that waits completes in a step after which it does not. -/
lemma Since.completes (h : r.Since n j c) (hn : n < r.len)
    (hdone : r.status (n + 1) (r.task j) ≠ c.op.waiting) : r.Completes j n c :=
  ⟨hn, h.lt.le, h.trap, h.waits, hdone⟩

/-- A task that can run does not wait in a call. -/
lemma ne_waiting_of_runnable {st : TaskState} (h : st.Runnable) (op : IpcOp) : st ≠ op.waiting := by
  rintro rfl
  exact h.not_waiting (.inl op.queued_waiting)

namespace Shadow

variable (h : r.Shadow memory reserved root s)
include h

/-- The message of the running task goes to a receiver. -/
lemma passes_of_give (hn : n < r.len) (hl : r.Lined s n) (htrap : r.trap n = some c)
    (hop : c.op.Sends) {rest : List ℕ} (hhead : (s n).queue c.ep = t :: rest)
    (hkeep : r.Keeps s n t) (hwait : r.status n t = .blockedRecv)
    (hrun : (r.status (n + 1) t).Runnable) (hregs : r.regs (n + 1) t = deliver c.regs (r.regs n t))
    (hsend : c.op = .send → (r.status (n + 1) (r.task n)).Runnable ∧
      r.regs (n + 1) (r.task n) = c.regs.setX 0 0)
    (hcall : c.op = .call → r.status (n + 1) (r.task n) = .blockedReply ∧
      r.owes (n + 1) t = r.task n) :
    ∃ j d, r.Since n j d ∧ r.task j = t ∧ r.Passes n n j c d := by
  obtain ⟨j, d, hs, rfl, hep⟩ := hl.since c.ep t (hhead ▸ List.mem_cons_self)
  have hrecv : d.op.Receives :=
    IpcOp.receives_of_waiting ((hs.waits n hs.lt le_rfl).symm.trans hwait)
  have hself : r.status (n + 1) (r.task n) ≠ c.op.waiting := by
    rcases hop with ho | ho
    · exact ne_waiting_of_runnable (hsend ho).1 _
    · rw [(hcall ho).1, ho]
      nofun
  have hother : r.status (n + 1) (r.task j) ≠ d.op.waiting := ne_waiting_of_runnable hrun _
  refine ⟨j, d, hs, rfl,
    ⟨⟨completes_self hn htrap hself, hop, fun ho => ?_, fun ho => (hcall ho).1⟩,
    ⟨hs.completes hn hother, hrecv, ?_⟩, hep.symm, ?_, ?_, fun ho => (hcall ho).2,
    fun i d' hi => ?_, fun i d' hi => ?_⟩⟩
  · rw [(hsend ho).2, Context.x_setX_self]
  · rw [hregs]
    rfl
  · rw [hregs]
    rfl
  · rw [hregs]
    exact Context.words_deliver _ _
  · -- a sender does not wait where a receiver does
    rcases h.completes_cases hkeep hi.toCompletes with he | ⟨hlt, he⟩
    · exact he
    · have hw := hi.waits n hlt le_rfl
      rw [he, hwait] at hw
      exact absurd (IpcOp.receives_of_waiting hw.symm) hi.sends.not_receives
  · rcases h.completes_cases hkeep hi.toCompletes with he | ⟨hlt, he⟩
    · rw [he] at hi
      obtain rfl := Option.some.inj (htrap.symm.trans hi.trap)
      exact absurd hi.receives hop.not_receives
    · exact h.waits_unique hn.le d'.op.queued_waiting d.op.queued_waiting hlt hs.lt hi.waits
        hs.waits he

/-- The running task takes the message of a sender. -/
lemma passes_of_take (hn : n < r.len) (hl : r.Lined s n) (htrap : r.trap n = some c)
    (hop : c.op.Receives) {rest : List ℕ} (hhead : (s n).queue c.ep = t :: rest)
    (hkeep : r.Keeps s n t) (hwait : r.status n t = .blockedSend ∨ r.status n t = .blockedCall)
    (hrun : (r.status (n + 1) (r.task n)).Runnable)
    (hregs : r.regs (n + 1) (r.task n) = deliver (r.regs n t) c.regs)
    (hsend : r.status n t = .blockedSend → (r.status (n + 1) t).Runnable ∧
      r.regs (n + 1) t = (r.regs n t).setX 0 0)
    (hcall : r.status n t = .blockedCall → r.status (n + 1) t = .blockedReply ∧
      r.owes (n + 1) (r.task n) = t) :
    ∃ j d, r.Since n j d ∧ r.task j = t ∧ r.Passes n j n d c := by
  obtain ⟨j, d, hs, rfl, hep⟩ := hl.since c.ep t (hhead ▸ List.mem_cons_self)
  have hw := hs.waits n hs.lt le_rfl
  have hne : ¬ d.op.Receives := by
    intro hc
    rw [hw, hc.waiting_eq] at hwait
    rcases hwait with hc | hc <;> cases hc
  have hsends : d.op.Sends := d.op.sends_or_receives.resolve_right hne
  have hstate : (d.op = .send → r.status n (r.task j) = .blockedSend) ∧
      (d.op = .call → r.status n (r.task j) = .blockedCall) := by
    rw [hw]
    exact ⟨fun ho => by rw [ho]; rfl, fun ho => by rw [ho]; rfl⟩
  have hself : r.status (n + 1) (r.task n) ≠ c.op.waiting := ne_waiting_of_runnable hrun _
  have hother : r.status (n + 1) (r.task j) ≠ d.op.waiting := by
    rcases hsends with ho | ho
    · exact ne_waiting_of_runnable (hsend (hstate.1 ho)).1 _
    · rw [(hcall (hstate.2 ho)).1, ho]
      nofun
  refine ⟨j, d, hs, rfl, ⟨⟨hs.completes hn hother, hsends, fun ho => ?_,
    fun ho => (hcall (hstate.2 ho)).1⟩, ⟨completes_self hn htrap hself, hop, ?_⟩, hep, ?_, ?_,
    fun ho => (hcall (hstate.2 ho)).2, fun i d' hi => ?_, fun i d' hi => ?_⟩⟩
  · rw [(hsend (hstate.1 ho)).2, Context.x_setX_self]
  · rw [hregs]
    rfl
  · rw [hregs]
    rfl
  · rw [hregs, hs.regs]
    exact Context.words_deliver _ _
  · rcases h.completes_cases hkeep hi.toCompletes with he | ⟨hlt, he⟩
    · rw [he] at hi
      obtain rfl := Option.some.inj (htrap.symm.trans hi.trap)
      exact absurd hop hi.sends.not_receives
    · exact h.waits_unique hn.le d'.op.queued_waiting d.op.queued_waiting hlt hs.lt hi.waits
        hs.waits he
  · rcases h.completes_cases hkeep hi.toCompletes with he | ⟨hlt, he⟩
    · exact he
    · have hw' := hi.waits n hlt le_rfl
      rw [he, hi.receives.waiting_eq] at hw'
      rw [hw'] at hwait
      rcases hwait with hc | hc <;> cases hc

/-- A step in which a call completes lets a message pass, or it refuses the call with which it
begins. -/
lemma passes_or_refused (hl : r.Lined s n) (hc : r.Completes j n c) :
    (∃ a b d d', r.Passes n a b d d' ∧ (j = a ∨ j = b)) ∨
      (j = n ∧ (∀ i d, ¬ r.Sent i n d) ∧ (∀ i d, ¬ r.Received i n d) ∧
        (r.status (n + 1) (r.task n)).Runnable ∧
        r.regs (n + 1) (r.task n) = c.regs.setX 0 (Abi.asU64 Abi.Err.wouldBlock)) := by
  have hn := hc.lt
  cases h.move hn with
  | rest _ hkeep hcall =>
    have hself : ∀ {i d}, r.Completes i n d → i = n := by
      intro i d hd
      rcases h.completes_cases (hkeep (r.task i + 1)) hd with he | ⟨-, he⟩
      · exact he
      · exact absurd he (Nat.succ_ne_self _).symm
    obtain rfl := hself hc
    obtain ⟨hrun, hregs⟩ := hcall c hc.trap
    have hx : (r.regs (j + 1) (r.task j)).x 0 ≠ 0 := by
      rw [hregs, Context.x_setX_self]
      decide
    refine .inr ⟨rfl, fun i d hi => ?_, fun i d hi => ?_, hrun, hregs⟩
    · obtain rfl := hself hi.toCompletes
      rcases hi.sends with ho | ho
      · exact hx (hi.send ho)
      · have hst := hi.call ho
        rw [hst] at hrun
        rcases hrun with hrun | hrun <;> cases hrun
    · obtain rfl := hself hi.toCompletes
      exact hx hi.ret
  | wait d htrap _ hkeep hstate _ =>
    rcases h.completes_cases (hkeep (r.task j + 1)) hc with he | ⟨-, he⟩
    · subst he
      obtain rfl := Option.some.inj (htrap.symm.trans hc.trap)
      exact absurd hstate hc.done
    · exact absurd he (Nat.succ_ne_self _).symm
  | give d htrap hop t rest hhead _ hkeep hwait hrun hregs hsend hcall =>
    obtain ⟨b, d', hs, ht, hp⟩ :=
      h.passes_of_give hn hl htrap hop hhead hkeep hwait hrun hregs hsend hcall
    refine .inl ⟨n, b, d, d', hp, ?_⟩
    rcases h.completes_cases hkeep hc with he | ⟨hlt, he⟩
    · exact .inl he
    · exact .inr (h.waits_unique hn.le c.op.queued_waiting d'.op.queued_waiting hlt hs.lt hc.waits
        hs.waits (he.trans ht.symm))
  | take d htrap hop t rest hhead _ hkeep hwait hrun hregs hsend hcall =>
    obtain ⟨a, d', hs, ht, hp⟩ :=
      h.passes_of_take hn hl htrap hop hhead hkeep hwait hrun hregs hsend hcall
    refine .inl ⟨a, n, d', d, hp, ?_⟩
    rcases h.completes_cases hkeep hc with he | ⟨hlt, he⟩
    · exact .inr he
    · exact .inl (h.waits_unique hn.le c.op.queued_waiting d'.op.queued_waiting hlt hs.lt hc.waits
        hs.waits (he.trans ht.symm))

/-- The message of a send or call that leaves its task passes to a receive. -/
lemma passes_of_sent (hl : r.Lined s n) (hs : r.Sent j n c) :
    ∃ b d, r.Passes n j b c d := by
  rcases h.passes_or_refused hl hs.toCompletes with ⟨a, b, d, d', hp, -⟩ | ⟨-, hno, -⟩
  · obtain rfl := hp.sent_unique j c hs
    obtain rfl := Option.some.inj (hs.trap.symm.trans hp.sent.trap)
    exact ⟨b, d', hp⟩
  · exact absurd hs (hno j c)

/-- A receive that completes gets the message of a send or call. -/
lemma passes_of_received (hl : r.Lined s n) (hr : r.Received j n c) :
    ∃ a d, r.Passes n a j d c := by
  rcases h.passes_or_refused hl hr.toCompletes with ⟨a, b, d, d', hp, -⟩ | ⟨-, -, hno, -⟩
  · obtain rfl := hp.received_unique j c hr
    obtain rfl := Option.some.inj (hr.trap.symm.trans hp.received.trap)
    exact ⟨a, d, hp⟩
  · exact absurd hr (hno j c)

/-- Of two calls that wait on one endpoint, the one that has begun first completes first. -/
lemma completes_before {j' : ℕ} (hl : r.Lined s m) (hlt : j < j') (htrap : r.trap j = some c)
    (hep : c.ep = d.ep) (hc : r.Completes j' m d) (hwait : j' < m) :
    ∃ n < m, r.Completes j n c := by
  by_contra hcon
  have hm := hc.lt
  have hjm : j < m := hlt.trans hwait
  have hw : r.Waits j m c.op.waiting := by
    by_contra hw
    obtain ⟨n, hn, hcn⟩ := exists_completes hm.le htrap hw
    exact hcon ⟨n, hn, hcn⟩
  have huniq : ∀ {a b : ℕ} {c c' : IpcTrap}, a < m → r.Waits a m c.op.waiting → r.Since m b c' →
      r.task b = r.task a → b = a := fun ha hw hs he =>
    h.waits_unique hm.le (IpcOp.queued_waiting _) (IpcOp.queued_waiting _) hs.lt ha hs.waits hw he
  -- the task of the earlier call is still in the queue
  obtain ⟨e, he⟩ := h.mem_queue hm.le hjm hw
  obtain ⟨a, c', hs, ha, hep'⟩ := hl.since e _ he
  obtain rfl := huniq hjm hw hs ha
  obtain rfl := Option.some.inj (htrap.symm.trans hs.trap)
  -- and that of the later one at its head
  have hhead : ∀ {t rest}, ∀ {c₀ : IpcTrap}, (s m).queue c₀.ep = t :: rest → r.Keeps s m t →
      False := by
    intro t rest c₀ hq hkeep
    rcases h.completes_cases hkeep hc with hcc | ⟨-, ht⟩
    · exact absurd hcc hwait.ne
    · obtain ⟨b, c'', hs', hb, hep''⟩ := hl.since c₀.ep t (hq ▸ List.mem_cons_self)
      obtain rfl := huniq hwait hc.waits hs' (hb.trans ht.symm)
      obtain rfl := Option.some.inj (hc.trap.symm.trans hs'.trap)
      have hmem : r.task a ∈ t :: rest := by
        rw [← hq, ← hep'', ← hep, hep']
        exact he
      have hord := hl.order c₀.ep
      rw [hq] at hord
      rcases List.mem_cons.mp hmem with hmem | hmem
      · exact hlt.ne (huniq hwait hc.waits hs (hmem.trans ht.symm))
      · obtain ⟨x, c₁, y, c₂, hx, hxt, hy, hyt, hxy⟩ := (List.pairwise_cons.mp hord).1 _ hmem
        rw [huniq hwait hc.waits hx (hxt.trans ht.symm), huniq hjm hw hy hyt] at hxy
        exact hlt.not_gt hxy
  cases h.move hm with
  | rest _ hkeep _ =>
    rcases h.completes_cases (hkeep (r.task j' + 1)) hc with hcc | ⟨-, hcc⟩
    · exact hwait.ne hcc
    · exact Nat.succ_ne_self _ hcc.symm
  | wait _ _ _ hkeep _ _ =>
    rcases h.completes_cases (hkeep (r.task j' + 1)) hc with hcc | ⟨-, hcc⟩
    · exact hwait.ne hcc
    · exact Nat.succ_ne_self _ hcc.symm
  | give c₀ _ _ t rest hq _ hkeep => exact hhead hq hkeep
  | take c₀ _ _ t rest hq _ hkeep => exact hhead hq hkeep

end Shadow

/-- The task of step `j` has to wait with its call `c`. -/
def Blocks (r : Run I.pool k₀) (j : ℕ) (c : IpcTrap) : Prop :=
  r.trap j = some c ∧ r.status (j + 1) (r.task j) = c.op.waiting

/-- **Messages.** In every run from the handoff,
* every receive that completes does so with the message of exactly one send or call, and the message
  of every send or call that leaves its task is received by exactly one receive, in the same step;
* every call does so once;
* the endpoint is the same on both sides, and the receiver has zero in `x1` and the words that the
  sender had when it made its call in `x2` to `x5`;
* senders that have to wait on an endpoint are served in the order in which they began to wait, and
  so are receivers;
* a call that neither is refused nor waits until the end of the run is one of these sends and
  receives.

**Proof sketch.** By induction on the run every queue is ordered by the steps in which its tasks
have made their calls, and their registers are those of these calls. A call can complete in two ways
only: the step begins with it, or its task is the one at the head of a queue that the step takes;
the partner is the other one of the two. -/
theorem messages_matched (hboot : boot I i = some k₀) (r : Run I.pool k₀) :
    (∀ j n c, r.Received j n c → ∃! j', ∃ c', r.Sent j' n c') ∧
    (∀ j n c, r.Sent j n c → ∃! j', ∃ c', r.Received j' n c') ∧
    (∀ j n m c d, r.Received j n c → r.Received j m d → n = m) ∧
    (∀ j n m c d, r.Sent j n c → r.Sent j m d → n = m) ∧
    (∀ n j j' c c', r.Sent j n c → r.Received j' n c' → c.ep = c'.ep ∧
      (r.regs (n + 1) (r.task j')).x 1 = 0 ∧ c.regs.Words (r.regs (n + 1) (r.task j'))) ∧
    (∀ j j' m c c', r.Blocks j c → c.op.Sends → r.Blocks j' c' → c.ep = c'.ep → j < j' →
      r.Sent j' m c' → ∃ n < m, r.Sent j n c) ∧
    (∀ j j' m c c', r.Blocks j c → c.op.Receives → r.Blocks j' c' → c.ep = c'.ep → j < j' →
      r.Received j' m c' → ∃ n < m, r.Received j n c) ∧
    (∀ j c, j < r.len → r.trap j = some c →
      ((r.status (j + 1) (r.task j)).Runnable ∧
        r.regs (j + 1) (r.task j) = c.regs.setX 0 (Abi.asU64 Abi.Err.wouldBlock)) ∨
      r.Waits j r.len c.op.waiting ∨ ∃ n, r.Sent j n c ∨ r.Received j n c) := by
  obtain ⟨memory, reserved, root, s, h, h0⟩ := exists_shadow hboot r
  have hl : ∀ {j n c}, r.Completes j n c → r.Lined s n := fun hc => h.lined h0 hc.lt.le
  have hdone : ∀ {j n c}, r.Completes j n c → j < n → r.Sent j n c ∨ r.Received j n c := by
    intro j n c hc hlt
    rcases h.passes_or_refused (hl hc) hc with ⟨a, b, d, d', hp, rfl | rfl⟩ | ⟨he, -⟩
    · obtain rfl := Option.some.inj (hc.trap.symm.trans hp.sent.trap)
      exact .inl hp.sent
    · obtain rfl := Option.some.inj (hc.trap.symm.trans hp.received.trap)
      exact .inr hp.received
    · exact absurd he hlt.ne
  have hblocks : ∀ {j m c}, r.Blocks j c → r.Completes j m c → j < m := by
    intro j m c hb hc
    refine lt_of_le_of_ne hc.le ?_
    rintro rfl
    exact hc.done hb.2
  refine ⟨fun j n c hr => ?_, fun j n c hs => ?_, fun j n m c d h1 h2 => h1.unique h2.toCompletes,
    fun j n m c d h1 h2 => h1.unique h2.toCompletes, fun n j j' c c' hs hr => ?_,
    fun j j' m c c' hb hop hb' hep hlt hs => ?_, fun j j' m c c' hb hop hb' hep hlt hs => ?_,
    fun j c hj htrap => ?_⟩
  · obtain ⟨a, d, hp⟩ := h.passes_of_received (hl hr.toCompletes) hr
    exact ⟨a, ⟨d, hp.sent⟩, fun j' ⟨c', hs⟩ => hp.sent_unique j' c' hs⟩
  · obtain ⟨b, d, hp⟩ := h.passes_of_sent (hl hs.toCompletes) hs
    exact ⟨b, ⟨d, hp.received⟩, fun j' ⟨c', hr⟩ => hp.received_unique j' c' hr⟩
  · obtain ⟨b, d, hp⟩ := h.passes_of_sent (hl hs.toCompletes) hs
    obtain rfl := hp.received_unique j' c' hr
    obtain rfl := Option.some.inj (hr.trap.symm.trans hp.received.trap)
    exact ⟨hp.ep, hp.x1, hp.words⟩
  · obtain ⟨n, hn, hc⟩ := h.completes_before (hl hs.toCompletes) hlt hb.1 hep hs.toCompletes
      (hblocks hb' hs.toCompletes)
    rcases hdone hc (hblocks hb hc) with hs' | hr'
    · exact ⟨n, hn, hs'⟩
    · exact absurd hr'.receives hop.not_receives
  · obtain ⟨n, hn, hc⟩ := h.completes_before (hl hs.toCompletes) hlt hb.1 hep hs.toCompletes
      (hblocks hb' hs.toCompletes)
    rcases hdone hc (hblocks hb hc) with hs' | hr'
    · exact absurd hop hs'.sends.not_receives
    · exact ⟨n, hn, hr'⟩
  · by_cases hw : r.Waits j r.len c.op.waiting
    · exact .inr (.inl hw)
    · obtain ⟨n, -, hc⟩ := exists_completes le_rfl htrap hw
      rcases h.passes_or_refused (hl hc) hc with
        ⟨a, b, d, d', hp, rfl | rfl⟩ | ⟨rfl, -, -, hrun, hregs⟩
      · obtain rfl := Option.some.inj (htrap.symm.trans hp.sent.trap)
        exact .inr (.inr ⟨n, .inl hp.sent⟩)
      · obtain rfl := Option.some.inj (htrap.symm.trans hp.received.trap)
        exact .inr (.inr ⟨n, .inr hp.received⟩)
      · exact .inl ⟨hrun, hregs⟩

/-- The root task sends a message, for which the second task waits not yet, and then this one
receives. -/
def sendFirst : List Event :=
  startSecond ++ [syscall Abi.Syscall.send [8, 0, 5, 6, 7, 9], syscall Abi.Syscall.recv [8]]

set_option maxRecDepth 100000 in
/-- On the small machine these events are a run, in which the receive completes in its own step. -/
lemma received_sendFirst : ∃ k₀, boot smallImage smallMachine = some k₀ ∧
    ∃ (r : Run smallImage.pool k₀) (c : IpcTrap), r.Received 5 5 c := by
  have hrun : ((boot smallImage smallMachine).bind fun k₀ =>
      (k₀.run smallImage.pool (sendFirst.take 5)).bind fun k =>
        (k₀.run smallImage.pool sendFirst).map fun k' =>
        (k.cnode.cap 8 == some (.endpoint 0x800004000)) &&
        ((k'.tasks.tcb k.tasks.sched.current).state == .running) &&
        ((k'.tasks.tcb k.tasks.sched.current).ctx.x 0 == 0)) = some true := by
    decide +kernel
  obtain ⟨k₀, hboot, hrun⟩ := Option.bind_eq_some_iff.mp hrun
  obtain ⟨k, hk, hrun⟩ := Option.bind_eq_some_iff.mp hrun
  obtain ⟨k', hk', hall⟩ := Option.map_eq_some_iff.mp hrun
  simp only [Bool.and_eq_true, beq_iff_eq] at hall
  obtain ⟨⟨h8, hstate⟩, hx⟩ := hall
  have hsome : (k₀.run smallImage.pool sendFirst).isSome = true := by
    rw [hk']
    rfl
  have h5 : (ofEvents smallImage.pool k₀ sendFirst hsome).state 5 = k := by
    change (k₀.run smallImage.pool (sendFirst.take 5)).getD k₀ = k
    rw [hk]
    rfl
  have h6 : (ofEvents smallImage.pool k₀ sendFirst hsome).state 6 = k' := by
    change (k₀.run smallImage.pool sendFirst).getD k₀ = k'
    rw [hk']
    rfl
  have hlen : 5 < sendFirst.length := by decide
  have htrap : (ofEvents smallImage.pool k₀ sendFirst hsome).trap 5 =
      some ⟨.recv, callRegs Abi.Syscall.recv [8], 0x800004000 + Abi.kernelVaOffset, false⟩ := by
    unfold trap
    rw [h5]
    exact ipc?_syscall h8 (by decide) rfl
  refine ⟨k₀, hboot, ofEvents smallImage.pool k₀ sendFirst hsome, _,
    ⟨completes_self hlen htrap ?_, .inl rfl, ?_⟩⟩
  · unfold status task
    rw [h5, h6, hstate]
    nofun
  · unfold regs task
    rw [h5, h6]
    exact hx

/-- The message that the second task receives there is that of one send. -/
theorem messages_matched_sendFirst : ∃ k₀, boot smallImage smallMachine = some k₀ ∧
    ∃ r : Run smallImage.pool k₀, (∃ c, r.Received 5 5 c) ∧ ∃! j, ∃ c, r.Sent j 5 c := by
  obtain ⟨k₀, hboot, r, c, hr⟩ := received_sendFirst
  exact ⟨k₀, hboot, r, ⟨c, hr⟩, (messages_matched hboot r).1 5 5 c hr⟩

end Kernel.Run

end K0
