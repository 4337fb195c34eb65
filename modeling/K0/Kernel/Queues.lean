import K0.Kernel.Simulation

set_option relaxedAutoImplicit false
set_option autoImplicit false

/-!
# The queues and the reply rights of the kernel

What the simulation says about the kernel's own pointers, in every state that a run reaches: the
ready queue and the queues of the endpoints are linked lists without repetition, every control
block is where its state says, and the reply rights lead from each task that waits for an answer
to exactly one holder and finally to a task that can give it.

## Main definitions

* `K0.Tasks.Linked`: an anchor and the link field stand for a list.
* `K0.Kernel.AnsweredBy`: one task holds the right to answer another.

## Main results

* `K0.queues_of_reaches`: the scheduler and all queues, in every reachable state.
* `K0.rights_of_reaches`: the reply rights, in every reachable state.
-/

namespace K0

/-! ### Queues -/

/-- The anchor `q` stands for the list `l`: following the links from the head gives `l`, which has
no repetition and ends at the tail with a null link. -/
structure Tasks.Linked (s : Tasks) (q : Endpoint) (l : List ℕ) : Prop where
  chain : Intrusive.Chain 0 s.nextOf q.head l
  nodup : l.Nodup
  tail : q.tail = l.getLastD 0
  last : ∀ h : l ≠ [], s.nextOf (l.getLast h) = 0
  null : q.head = 0 ↔ q.tail = 0

/-- A valid queue of the kernel is linked. -/
lemma Refines.linked {live eps : Set ℕ} {c : Tasks} {s : Sys} (h : Refines live eps c s)
    {q : Option ℕ} (hq : validQueue eps q) : c.Linked (c.ends q) (s.toSkel.lists q) := by
  have hqueue := h.holds.queue q hq
  refine ⟨hqueue.1, h.holds.nodup q, hqueue.2, fun hne => hqueue.1.next_last hne, ?_⟩
  rw [hqueue.head_eq_null_iff, hqueue.tail_eq_null_iff]

section Reaches

variable {P : Platform} {I : Image P} {i : Machine} {k₀ k : Kernel}

/-- In every state that a run from the handoff reaches:

* the scheduler's current task is the one control block in state `running`, the saved context is
  its context and the installed user root is its address space;
* the ready queue is linked and holds exactly the ready tasks;
* the queue of every endpoint is linked, its tasks wait all to receive or all to send, and every
  task that waits in this way is in exactly one of these queues;
* a task in another state is in no queue and its link is null;
* different capabilities stand for disjoint objects. -/
theorem queues_of_reaches (hboot : boot I i = some k₀) (hr : k₀.Reaches I.pool k) :
    (k.tasks.sched.current ∈ k.cnode.tcbs I.rootTcb ∧
      (∀ t ∈ k.cnode.tcbs I.rootTcb,
        (k.tasks.tcb t).state = .running ↔ t = k.tasks.sched.current) ∧
      k.tasks.currentContext = k.tasks.sched.current ∧
      k.tasks.ttbr0 = (k.tasks.tcb k.tasks.sched.current).ttbr0Pa) ∧
    (∃ (ready : List ℕ) (queue : ℕ → List ℕ),
      (k.tasks.Linked k.tasks.sched.toEnds ready ∧
        ∀ t, t ∈ ready ↔ t ∈ k.cnode.tcbs I.rootTcb ∧ (k.tasks.tcb t).state = .ready) ∧
      (∀ e ∈ k.cnode.endpoints, k.tasks.Linked (k.tasks.ep e) (queue e) ∧
        (∀ t ∈ queue e, t ∈ k.cnode.tcbs I.rootTcb) ∧
        ((∀ t ∈ queue e, (k.tasks.tcb t).state = .blockedRecv) ∨
          ∀ t ∈ queue e, (k.tasks.tcb t).state = .blockedSend ∨
            (k.tasks.tcb t).state = .blockedCall)) ∧
      (∀ t ∈ k.cnode.tcbs I.rootTcb, (k.tasks.tcb t).state.Queued →
        ∃! e, e ∈ k.cnode.endpoints ∧ t ∈ queue e) ∧
      ∀ t ∈ k.cnode.tcbs I.rootTcb, (k.tasks.tcb t).state ∈
          [TaskState.inactive, .stopped, .running, .blockedReply, .dead] →
        t ∉ ready ∧ (∀ e ∈ k.cnode.endpoints, t ∉ queue e) ∧ (k.tasks.tcb t).next = 0) ∧
    ∀ j j' v v' p p', j ≠ j' → k.cnode.cap j = some v → k.cnode.cap j' = some v' →
      v.object? = some p → v'.object? = some p' → Word.Sep p P.granule p' P.granule := by
  obtain ⟨b, s, h⟩ := Kernel.sim_of_reaches hboot hr
  have hok := h.sysOk
  have hp := hok.inv.placed
  have href := h.refines
  refine ⟨⟨?_, ?_, ?_, ?_⟩, ⟨s.ready, s.queue, ⟨href.linked (q := none) trivial, ?_⟩, ?_, ?_, ?_⟩,
    h.accounts.ledger.distinct⟩
  · rw [href.current]
    exact hp.current_live
  · intro t ht
    rw [href.current, href.state_eq]
    constructor
    · exact hp.running_eq ht
    · rintro rfl
      exact hok.running
  · rw [href.current, href.context]
  · have hspace : s.ttbr0Pa s.current = b.userRoot := by
      refine h.space s.current hp.current_live ?_
      show s.state s.current ≠ .inactive
      rw [hok.running]
      decide
    rw [h.ttbr0, ← hspace, href.current]
    exact (congrFun href.ttbr0Pa s.current).symm
  · intro t
    rw [href.state_eq]
    constructor
    · intro ht
      exact ⟨hp.ready_live ht, hp.ready_state ht⟩
    · rintro ⟨ht, hs⟩
      exact hp.mem_ready ht (Set.notMem_empty t) hs
  · intro e he
    refine ⟨href.linked (q := some e) he, fun t ht => hp.queue_live ht, ?_⟩
    by_cases hside : ∃ t ∈ s.queue e, s.state t = .blockedRecv
    · obtain ⟨t, ht, hst⟩ := hside
      refine .inl fun u hu => ?_
      rw [href.state_eq]
      exact (hp.queue_side ht hu).mp hst
    · refine .inr fun u hu => ?_
      rw [href.state_eq]
      rcases hp.queue_state hu with hst | hst | hst
      · exact .inl hst
      · exact absurd ⟨u, hu, hst⟩ hside
      · exact .inr hst
  · intro t ht hst
    rw [href.state_eq] at hst
    obtain ⟨e, he⟩ := hp.mem_queue ht (Set.notMem_empty t) hst
    exact ⟨e, ⟨hp.queue_eps he, he⟩, fun e' he' => hp.queue_inj he'.2 he⟩
  · intro t ht hst
    rw [href.state_eq] at hst
    have hnr : t ∉ s.ready := by
      refine hp.not_mem_ready fun e => ?_
      rw [e] at hst
      exact absurd hst (by decide)
    have hnq : ∀ e, t ∉ s.queue e := by
      refine hp.not_mem_queue fun e => ?_
      rcases e with e | e | e <;> rw [e] at hst <;> exact absurd hst (by decide)
    refine ⟨hnr, fun e _ => hnq e, h.refines.holds.idle t ht fun q => ?_⟩
    cases q with
    | none => exact hnr
    | some e => exact hnq e

/-- When the second task of the small machine has been started, the root task runs and the second
task is in the ready queue. -/
theorem queues_of_reaches_smallMachine :
    ∃ k₀ k ready, boot smallImage smallMachine = some k₀ ∧ k₀.Reaches smallImage.pool k ∧
      (k.tasks.tcb smallImage.rootTcb).state = .running ∧
      k.tasks.Linked k.tasks.sched.toEnds ready ∧
      Kernel.secondTcb ∈ ready ∧ smallImage.rootTcb ∉ ready := by
  obtain ⟨k₀, k, _, _, h⟩ := Kernel.exists_callFirst
  obtain ⟨⟨-, hrun, -⟩, ⟨ready, queue, ⟨hlink, hready⟩, -, -, hout⟩, -⟩ :=
    queues_of_reaches h.boot h.reaches₄
  have hroot : smallImage.rootTcb ∈ k.cnode.tcbs smallImage.rootTcb := .inl rfl
  have hstate := (hrun _ hroot).mpr h.current₄.symm
  refine ⟨k₀, k, ready, h.boot, h.reaches₄, hstate, hlink,
    (hready _).mpr ⟨h.second_mem (by simp), h.ready⟩, (hout _ hroot ?_).1⟩
  rw [hstate]
  decide

/-! ### Reply rights -/

/-- The task `c` waits for an answer that `h` has the right to give. -/
def Kernel.AnsweredBy (rootTcb : ℕ) (k : Kernel) (c h : ℕ) : Prop :=
  c ∈ k.cnode.tcbs rootTcb ∧ h ∈ k.cnode.tcbs rootTcb ∧ (k.tasks.tcb h).replyTo = c

/-- Ranked rights: following the holders from a task that waits for an answer ends at a task that
has been started and does not wait for one. -/
lemma Rights.answered {live : Set ℕ} {state : ℕ → TaskState} {replyTo : ℕ → ℕ}
    (h : Rights live state replyTo) (hz : 0 ∉ live) {c : ℕ} (hc : c ∈ live)
    (hs : state c = .blockedReply) :
    ∃ t, Relation.TransGen (fun c t => c ∈ live ∧ t ∈ live ∧ replyTo t = c) c t ∧ t ∈ live ∧
      (state t).Alive ∧ state t ≠ .blockedReply := by
  obtain ⟨rank, hrank⟩ := h.ranked
  -- the rank of the holder is below that of the caller
  induction hn : rank c using Nat.strong_induction_on generalizing c with
  | _ n ih =>
    obtain ⟨t, ht, rfl⟩ := h.holder hc hs
    have h0 : replyTo t ≠ 0 := ne_of_mem_of_not_mem hc hz
    by_cases hst : state t = .blockedReply
    · obtain ⟨u, hu, hlive, halive, hne⟩ := ih (rank t) (hn ▸ hrank t ht h0) ht hst rfl
      exact ⟨u, .head ⟨hc, ht, rfl⟩ hu, hlive, halive, hne⟩
    · exact ⟨t, .single ⟨hc, ht, rfl⟩, ht, h.alive ht h0, hst⟩

/-- Ranked rights form no cycle. -/
lemma Rights.acyclic {live : Set ℕ} {state : ℕ → TaskState} {replyTo : ℕ → ℕ}
    (h : Rights live state replyTo) (hz : 0 ∉ live) (c : ℕ) :
    ¬ Relation.TransGen (fun c t => c ∈ live ∧ t ∈ live ∧ replyTo t = c) c c := by
  obtain ⟨rank, hrank⟩ := h.ranked
  have hlt : ∀ {c t}, Relation.TransGen (fun c t => c ∈ live ∧ t ∈ live ∧ replyTo t = c) c t →
      rank t < rank c := by
    intro c t hct
    have hone : ∀ {c t}, c ∈ live ∧ t ∈ live ∧ replyTo t = c → rank t < rank c := by
      rintro c t ⟨hc, ht, rfl⟩
      exact hrank t ht (ne_of_mem_of_not_mem hc hz)
    induction hct with
    | single hct => exact hone hct
    | tail _ hstep ih => exact (hone hstep).trans ih
  exact fun hc => lt_irrefl _ (hlt hc)

/-- In every state that a run from the handoff reaches: a reply right leads to a task that waits
for an answer; every such task has exactly one holder, which has been started and has not ended;
and following the holders, which form no cycle, leads to a task that does not wait for an
answer. -/
theorem rights_of_reaches (hboot : boot I i = some k₀) (hr : k₀.Reaches I.pool k) :
    (∀ h ∈ k.cnode.tcbs I.rootTcb, (k.tasks.tcb h).replyTo ≠ 0 →
      (k.tasks.tcb h).replyTo ∈ k.cnode.tcbs I.rootTcb ∧
        (k.tasks.tcb (k.tasks.tcb h).replyTo).state = .blockedReply) ∧
    (∀ c ∈ k.cnode.tcbs I.rootTcb, (k.tasks.tcb c).state = .blockedReply →
      ∃! h, k.AnsweredBy I.rootTcb c h) ∧
    (∀ c h, k.AnsweredBy I.rootTcb c h → (k.tasks.tcb h).state ≠ .inactive ∧
      (k.tasks.tcb h).state ≠ .stopped ∧ (k.tasks.tcb h).state ≠ .dead) ∧
    (∀ c, ¬ Relation.TransGen (k.AnsweredBy I.rootTcb) c c) ∧
    ∀ c ∈ k.cnode.tcbs I.rootTcb, (k.tasks.tcb c).state = .blockedReply →
      ∃ t, Relation.TransGen (k.AnsweredBy I.rootTcb) c t ∧ t ∈ k.cnode.tcbs I.rootTcb ∧
        (k.tasks.tcb t).state.Alive ∧ (k.tasks.tcb t).state ≠ .blockedReply := by
  obtain ⟨b, s, h⟩ := Kernel.sim_of_reaches hboot hr
  have hz := h.sysOk.inv.placed.zero
  have hrights : Rights (k.cnode.tcbs I.rootTcb) (fun t => (k.tasks.tcb t).state)
      fun t => (k.tasks.tcb t).replyTo := by
    rw [h.refines.state, h.refines.replyTo]
    exact h.sysOk.inv.rights
  refine ⟨fun t ht h0 => ⟨hrights.live_caller ht h0, hrights.waiting ht h0⟩, ?_, ?_, ?_, ?_⟩
  · intro c hc hs
    obtain ⟨t, ht, hct⟩ := hrights.holder hc hs
    refine ⟨t, ⟨hc, ht, hct⟩, fun t' ht' => ?_⟩
    have h0 : (k.tasks.tcb t').replyTo ≠ 0 := by
      rw [ht'.2.2]
      exact ne_of_mem_of_not_mem hc hz
    exact hrights.unique ht'.2.1 ht h0 (ht'.2.2.trans hct.symm)
  · rintro c t ⟨hc, ht, hct⟩
    exact hrights.alive ht (hct ▸ ne_of_mem_of_not_mem hc hz)
  · exact hrights.acyclic hz
  · intro c hc hs
    exact hrights.answered hz hc hs

/-- When the second task of the small machine has received the call of the root task, it is the one
that holds the right to answer it. -/
theorem rights_of_reaches_smallMachine :
    ∃ k₀ k, boot smallImage smallMachine = some k₀ ∧ k₀.Reaches smallImage.pool k ∧
      (k.tasks.tcb smallImage.rootTcb).state = .blockedReply ∧
      (∀ t, k.AnsweredBy smallImage.rootTcb smallImage.rootTcb t ↔ t = Kernel.secondTcb) ∧
      ¬ Relation.TransGen (k.AnsweredBy smallImage.rootTcb) smallImage.rootTcb
        smallImage.rootTcb := by
  obtain ⟨k₀, _, _, k, h⟩ := Kernel.exists_callFirst
  obtain ⟨-, hone, -, hacyclic, -⟩ := rights_of_reaches h.boot h.reaches₆
  have hroot : smallImage.rootTcb ∈ k.cnode.tcbs smallImage.rootTcb := .inl rfl
  have hsecond : k.AnsweredBy smallImage.rootTcb smallImage.rootTcb Kernel.secondTcb :=
    ⟨hroot, h.second_mem (by simp), h.right⟩
  refine ⟨k₀, k, h.boot, h.reaches₆, h.waiting, fun t => ⟨fun ht => ?_, ?_⟩, hacyclic _⟩
  · exact (hone _ hroot h.waiting).unique ht hsecond
  · rintro rfl
    exact hsecond

end Reaches

end K0
