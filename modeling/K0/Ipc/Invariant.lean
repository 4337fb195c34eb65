import K0.Ipc.Abstract

set_option relaxedAutoImplicit false
set_option autoImplicit false

/-!
# The invariant of the abstract task system

Every operation of `K0.Sys` keeps `K0.Skel.Inv`. The elementary operations are treated first,
each with the tasks that it leaves between two lists; the system calls are compositions of them.

## Main results

* `K0.Skel.Placed.enqueue`, `K0.Skel.Placed.popQueue`, `K0.Skel.Placed.pushQueue` and the like:
  the effect of the elementary operations on the placement of tasks.
* `K0.Sys.Ok.send`, `K0.Sys.Ok.recv`, `K0.Sys.Ok.call`, `K0.Sys.Ok.replyRecv`, `K0.Sys.Ok.kill`,
  `K0.Sys.Ok.rotate`: the invariant after a whole operation.
-/

namespace K0

open Set

/-- A ready task does not wait in a queue. -/
lemma TaskState.not_queued_ready : ¬ TaskState.ready.Queued := by decide

/-- A running task does not wait in a queue. -/
lemma TaskState.not_queued_running : ¬ TaskState.running.Queued := by decide

namespace Skel.Placed

variable {live eps off : Set ℕ} {s : Sys} {t e : ℕ} {st : TaskState} {l : List ℕ}

/-- A task in a state without a list is on no list. -/
lemma not_mem_ready (h : s.toSkel.Placed live eps off) (hs : s.state t ≠ .ready) :
    t ∉ s.ready :=
  fun hm => hs (h.ready_state hm)

/-- A task in a state without a queue is in no queue. -/
lemma not_mem_queue (h : s.toSkel.Placed live eps off) (hs : ¬ (s.state t).Queued) (e : ℕ) :
    t ∉ s.queue e :=
  fun hm => hs (h.queue_state hm)

/-- A task on no list may be put on the ready list. -/
lemma enqueue (h : s.toSkel.Placed live eps off) (ht : t ∈ live) (hr : t ∉ s.ready)
    (hq : ∀ e, t ∉ s.queue e) : (s.enqueue t).toSkel.Placed live eps (off \ {t}) := by
  have hself : (s.enqueue t).state t = .ready := Function.update_self _ _ _
  have hold : ∀ u, u ≠ t → (s.enqueue t).state u = s.state u :=
    fun u hu => Function.update_of_ne hu _ _
  have hready : ∀ u, u ∈ (s.enqueue t).ready ↔ u ∈ s.ready ∨ u = t := by
    simp [Sys.enqueue]
  have hqueue : (s.enqueue t).queue = s.queue := rfl
  -- tasks on a list are not `t`, so their states are the old ones
  have hstate : ∀ {u e}, u ∈ s.queue e → (s.enqueue t).state u = s.state u :=
    fun hu => hold _ (ne_of_mem_of_not_mem hu (hq _))
  exact
    { zero := h.zero
      current_live := h.current_live
      running_eq := fun {u} hu hs => by
        by_cases e : u = t
        · rw [e, hself] at hs
          simp at hs
        · exact h.running_eq hu (hold u e ▸ hs)
      ready_live := fun {u} hu => ((hready u).mp hu).elim h.ready_live fun e => e ▸ ht
      ready_state := fun {u} hu => by
        rcases (hready u).mp hu with hu | rfl
        · rw [hold u (ne_of_mem_of_not_mem hu hr)]
          exact h.ready_state hu
        · exact hself
      ready_nodup := List.Nodup.append h.ready_nodup (List.nodup_singleton t) (by simpa using hr)
      mem_ready := fun {u} hu hoff hs => by
        by_cases e : u = t
        · exact (hready u).mpr (.inr e)
        · exact (hready u).mpr (.inl (h.mem_ready hu (fun ho => hoff ⟨ho, e⟩) (hold u e ▸ hs)))
      queue_eps := h.queue_eps
      queue_live := h.queue_live
      queue_state := fun hu => by
        rw [hstate hu]
        exact h.queue_state hu
      queue_nodup := h.queue_nodup
      queue_inj := h.queue_inj
      queue_side := fun hu hu' => by
        rw [hstate hu, hstate hu']
        exact h.queue_side hu hu'
      mem_queue := fun {u} hu hoff hs => by
        by_cases e : u = t
        · rw [e, hself] at hs
          exact absurd hs TaskState.not_queued_ready
        · exact h.mem_queue hu (fun ho => hoff ⟨ho, e⟩) (hold u e ▸ hs)
      off_ready := fun {u} hu hm =>
        ((hready u).mp hm).elim (h.off_ready hu.1) fun e => hu.2 e
      off_queue := fun hu => h.off_queue hu.1 }

/-- Taking the first ready task off its list. -/
lemma popReady (h : s.toSkel.Placed live eps off) (hl : s.ready = t :: l) :
    s.popReady.toSkel.Placed live eps (insert t off) := by
  have hready : s.popReady.ready = l := by
    rw [Sys.popReady, hl]
    rfl
  have hnd := h.ready_nodup
  rw [hl, List.nodup_cons] at hnd
  have hsub : ∀ {u}, u ∈ s.popReady.ready → u ∈ s.ready := fun {u} hu => by
    rw [hready] at hu
    rw [hl]
    exact List.mem_cons_of_mem _ hu
  exact
    { zero := h.zero
      current_live := h.current_live
      running_eq := h.running_eq
      ready_live := fun hu => h.ready_live (hsub hu)
      ready_state := fun hu => h.ready_state (hsub hu)
      ready_nodup := by
        rw [hready]
        exact hnd.2
      mem_ready := fun {u} hu hoff hs => by
        rw [mem_insert_iff, not_or] at hoff
        have hm := h.mem_ready hu hoff.2 hs
        rw [hl] at hm
        rw [hready]
        exact (List.mem_cons.mp hm).resolve_left hoff.1
      queue_eps := h.queue_eps
      queue_live := h.queue_live
      queue_state := h.queue_state
      queue_nodup := h.queue_nodup
      queue_inj := h.queue_inj
      queue_side := h.queue_side
      mem_queue := fun hu hoff hs => h.mem_queue hu (fun ho => hoff (mem_insert_of_mem _ ho)) hs
      off_ready := fun {u} hu hm => by
        rcases hu with rfl | hu
        · exact hnd.1 (hready ▸ hm)
        · exact h.off_ready hu (hsub hm)
      off_queue := fun {u e} hu hm => by
        rcases hu with rfl | hu
        · have hst : s.state u = .ready := h.ready_state (by rw [hl]; simp)
          exact TaskState.not_queued_ready (hst ▸ h.queue_state hm)
        · exact h.off_queue hu hm }

/-- Taking the first task off the queue of an endpoint. -/
lemma popQueue (h : s.toSkel.Placed live eps off) (hl : s.queue e = t :: l) :
    (s.popQueue e).toSkel.Placed live eps (insert t off) := by
  have hself : (s.popQueue e).queue e = l := by
    rw [Sys.popQueue]
    simp [hl]
  have hother : ∀ e', e' ≠ e → (s.popQueue e).queue e' = s.queue e' :=
    fun e' he => Function.update_of_ne he _ _
  have hnd := h.queue_nodup e
  rw [hl, List.nodup_cons] at hnd
  have hte : t ∈ s.queue e := by rw [hl]; simp
  have hsub : ∀ {u e'}, u ∈ (s.popQueue e).queue e' → u ∈ s.queue e' := fun {u e'} hu => by
    by_cases he : e' = e
    · subst he
      rw [hself] at hu
      rw [hl]
      exact List.mem_cons_of_mem _ hu
    · rwa [hother e' he] at hu
  exact
    { zero := h.zero
      current_live := h.current_live
      running_eq := h.running_eq
      ready_live := h.ready_live
      ready_state := h.ready_state
      ready_nodup := h.ready_nodup
      mem_ready := fun hu hoff hs => h.mem_ready hu (fun ho => hoff (mem_insert_of_mem _ ho)) hs
      queue_eps := fun hu => h.queue_eps (hsub hu)
      queue_live := fun hu => h.queue_live (hsub hu)
      queue_state := fun hu => h.queue_state (hsub hu)
      queue_nodup := fun e' => by
        by_cases he : e' = e
        · subst he
          rw [hself]
          exact hnd.2
        · rw [hother e' he]
          exact h.queue_nodup e'
      queue_inj := fun hu hu' => h.queue_inj (hsub hu) (hsub hu')
      queue_side := fun hu hu' => h.queue_side (hsub hu) (hsub hu')
      mem_queue := fun {u} hu hoff hs => by
        rw [mem_insert_iff, not_or] at hoff
        obtain ⟨e', hm⟩ := h.mem_queue hu hoff.2 hs
        refine ⟨e', ?_⟩
        by_cases he : e' = e
        · subst he
          rw [hl] at hm
          rw [hself]
          exact (List.mem_cons.mp hm).resolve_left hoff.1
        · rw [hother e' he]
          exact hm
      off_ready := fun {u} hu hm => by
        rcases hu with rfl | hu
        · exact TaskState.not_queued_ready (h.ready_state hm ▸ h.queue_state hte)
        · exact h.off_ready hu hm
      off_queue := fun {u e'} hu hm => by
        rcases hu with rfl | hu
        · have he : e' = e := h.queue_inj (hsub hm) hte
          subst he
          exact hnd.1 (hself ▸ hm)
        · exact h.off_queue hu (hsub hm) }

/-- Changing the state of one task that is on no list, to a state without a list. -/
lemma restate {s s' : Skel} (h : s.Placed live eps off) (hready : s'.ready = s.ready)
    (hqueue : s'.queue = s.queue) (hold : ∀ u, u ≠ t → s'.state u = s.state u)
    (hr : t ∉ s.ready) (hq : ∀ e, t ∉ s.queue e) (hst : s'.state t ≠ .ready)
    (hst' : ¬ (s'.state t).Queued) (hcur : s'.current ∈ live)
    (hrun : ∀ u ∈ live, s'.state u = .running → u = s'.current) :
    s'.Placed live eps (off \ {t}) := by
  have hstate : ∀ {u e}, u ∈ s.queue e → s'.state u = s.state u :=
    fun hu => hold _ (ne_of_mem_of_not_mem hu (hq _))
  exact
    { zero := h.zero
      current_live := hcur
      running_eq := fun hu hs => hrun _ hu hs
      ready_live := fun hu => h.ready_live (hready ▸ hu)
      ready_state := fun {u} hu => by
        rw [hready] at hu
        rw [hold u (ne_of_mem_of_not_mem hu hr)]
        exact h.ready_state hu
      ready_nodup := hready ▸ h.ready_nodup
      mem_ready := fun {u} hu hoff hs => by
        by_cases e : u = t
        · exact absurd (e ▸ hs) hst
        · rw [hready]
          exact h.mem_ready hu (fun ho => hoff ⟨ho, e⟩) (hold u e ▸ hs)
      queue_eps := fun hu => h.queue_eps (hqueue ▸ hu)
      queue_live := fun hu => h.queue_live (hqueue ▸ hu)
      queue_state := fun hu => by
        rw [hqueue] at hu
        rw [hstate hu]
        exact h.queue_state hu
      queue_nodup := hqueue ▸ h.queue_nodup
      queue_inj := fun hu hu' => h.queue_inj (hqueue ▸ hu) (hqueue ▸ hu')
      queue_side := fun hu hu' => by
        rw [hqueue] at hu hu'
        rw [hstate hu, hstate hu']
        exact h.queue_side hu hu'
      mem_queue := fun {u} hu hoff hs => by
        by_cases e : u = t
        · exact absurd (e ▸ hs) hst'
        · rw [hqueue]
          exact h.mem_queue hu (fun ho => hoff ⟨ho, e⟩) (hold u e ▸ hs)
      off_ready := fun hu => hready ▸ h.off_ready hu.1
      off_queue := fun hu => hqueue ▸ h.off_queue hu.1 }

/-- Moving a task that is on no list to a state without a list, other than running. -/
lemma setState (h : s.toSkel.Placed live eps off) (hr : t ∉ s.ready) (hq : ∀ e, t ∉ s.queue e)
    (st : TaskState) (hst : st ≠ .ready) (hst' : ¬ st.Queued) (hrun : st ≠ .running) :
    (s.setState t st).toSkel.Placed live eps (off \ {t}) := by
  have hself : (s.setState t st).state t = st := Function.update_self _ _ _
  have hold : ∀ u, u ≠ t → (s.setState t st).state u = s.state u :=
    fun u hu => Function.update_of_ne hu _ _
  refine h.restate rfl rfl hold hr hq (by rwa [hself]) (by rwa [hself]) h.current_live ?_
  intro u hu hs
  by_cases e : u = t
  · rw [e, hself] at hs
    exact absurd hs hrun
  · exact h.running_eq hu (hold u e ▸ hs)

/-- Running a task that is on no list, while no other task runs. -/
lemma switchTo (h : s.toSkel.Placed live eps off) (ht : t ∈ live) (hr : t ∉ s.ready)
    (hq : ∀ e, t ∉ s.queue e) (hnone : ∀ u ∈ live, s.state u ≠ .running) :
    (s.switchTo t).toSkel.Placed live eps (off \ {t}) := by
  have hself : (s.switchTo t).state t = .running := Function.update_self _ _ _
  have hold : ∀ u, u ≠ t → (s.switchTo t).state u = s.state u :=
    fun u hu => Function.update_of_ne hu _ _
  refine h.restate rfl rfl hold hr hq (by rw [hself]; decide) (by rw [hself]; decide) ht ?_
  intro u hu hs
  by_contra e
  exact hnone u hu (hold u e ▸ hs)

/-- Putting a task that is on no list into the queue of an endpoint, in a state that fits the
tasks waiting there. -/
lemma pushQueue (h : s.toSkel.Placed live eps off) (ht : t ∈ live) (hr : t ∉ s.ready)
    (hq : ∀ e, t ∉ s.queue e) (he : e ∈ eps) (hst : st.Queued)
    (hside : ∀ u ∈ s.queue e, (s.state u = .blockedRecv ↔ st = .blockedRecv)) :
    ((s.setState t st).pushQueue e t).toSkel.Placed live eps (off \ {t}) := by
  set s' := (s.setState t st).pushQueue e t with hs'
  have hself : s'.state t = st := Function.update_self _ _ _
  have hold : ∀ u, u ≠ t → s'.state u = s.state u := fun u hu => Function.update_of_ne hu _ _
  have hqself : s'.queue e = s.queue e ++ [t] := Function.update_self _ _ _
  have hqother : ∀ e', e' ≠ e → s'.queue e' = s.queue e' :=
    fun e' he' => Function.update_of_ne he' _ _
  have hstate : ∀ {u e}, u ∈ s.queue e → s'.state u = s.state u :=
    fun hu => hold _ (ne_of_mem_of_not_mem hu (hq _))
  -- a waiting task waited before or is the new one
  have hmem : ∀ {u e'}, u ∈ s'.queue e' → u ∈ s.queue e' ∨ (u = t ∧ e' = e) := by
    intro u e' hu
    by_cases e1 : e' = e
    · subst e1
      rw [hqself, List.mem_append, List.mem_singleton] at hu
      exact hu.imp_right fun h1 => ⟨h1, rfl⟩
    · rw [hqother e' e1] at hu
      exact .inl hu
  have hmono : ∀ {u e'}, u ∈ s.queue e' → u ∈ s'.queue e' := by
    intro u e' hu
    by_cases e1 : e' = e
    · subst e1
      rw [hqself]
      exact List.mem_append_left _ hu
    · rwa [hqother e' e1]
  have hnotready : st ≠ .ready := by
    rintro rfl
    exact TaskState.not_queued_ready hst
  exact
    { zero := h.zero
      current_live := h.current_live
      running_eq := fun {u} hu hs => by
        by_cases e1 : u = t
        · rw [e1, hself] at hs
          rw [hs] at hst
          exact absurd hst TaskState.not_queued_running
        · exact h.running_eq hu (hold u e1 ▸ hs)
      ready_live := h.ready_live
      ready_state := fun {u} hu => by
        rw [hold u (ne_of_mem_of_not_mem hu hr)]
        exact h.ready_state hu
      ready_nodup := h.ready_nodup
      mem_ready := fun {u} hu hoff hs => by
        by_cases e1 : u = t
        · rw [e1, hself] at hs
          exact absurd hs hnotready
        · exact h.mem_ready hu (fun ho => hoff ⟨ho, e1⟩) (hold u e1 ▸ hs)
      queue_eps := fun hu => (hmem hu).elim h.queue_eps fun h1 => h1.2 ▸ he
      queue_live := fun hu => (hmem hu).elim h.queue_live fun h1 => h1.1 ▸ ht
      queue_state := fun {_ u} hu => by
        rcases hmem hu with hu | ⟨rfl, -⟩
        · rw [hstate hu]
          exact h.queue_state hu
        · rw [hself]
          exact hst
      queue_nodup := fun e' => by
        by_cases e1 : e' = e
        · subst e1
          rw [hqself]
          exact List.Nodup.append (h.queue_nodup e') (List.nodup_singleton t)
            (by simpa using hq e')
        · rw [hqother e' e1]
          exact h.queue_nodup e'
      queue_inj := fun {e₁ e₂ u} hu hu' => by
        rcases hmem hu with m₁ | ⟨d₁, d₂⟩
        · rcases hmem hu' with m₂ | ⟨d₁, -⟩
          · exact h.queue_inj m₁ m₂
          · exact absurd (d₁ ▸ m₁) (hq _)
        · rcases hmem hu' with m₂ | ⟨-, d₃⟩
          · exact absurd (d₁ ▸ m₂) (hq _)
          · exact d₂.trans d₃.symm
      queue_side := fun {e' u u'} hu hu' => by
        rcases hmem hu with m₁ | ⟨d₁, d₂⟩
        · rcases hmem hu' with m₂ | ⟨d₁, d₂⟩
          · rw [hstate m₁, hstate m₂]
            exact h.queue_side m₁ m₂
          · rw [hstate m₁, d₁, hself]
            exact hside u (d₂ ▸ m₁)
        · rcases hmem hu' with m₂ | ⟨d₃, -⟩
          · rw [hstate m₂, d₁, hself]
            exact (hside u' (d₂ ▸ m₂)).symm
          · rw [d₁, d₃]
      mem_queue := fun {u} hu hoff hs => by
        by_cases e1 : u = t
        · exact ⟨e, by rw [hqself, e1]; simp⟩
        · obtain ⟨e', hm⟩ := h.mem_queue hu (fun ho => hoff ⟨ho, e1⟩) (hold u e1 ▸ hs)
          exact ⟨e', hmono hm⟩
      off_ready := fun hu => h.off_ready hu.1
      off_queue := fun hu hm => (hmem hm).elim (h.off_queue hu.1) fun h1 => hu.2 h1.1 }

/-- Reply rights do not place tasks. -/
lemma setReplyTo (h : s.toSkel.Placed live eps off) (u c : ℕ) :
    (s.setReplyTo u c).toSkel.Placed live eps off :=
  ⟨h.zero, h.current_live, h.running_eq, h.ready_live, h.ready_state, h.ready_nodup, h.mem_ready,
    h.queue_eps, h.queue_live, h.queue_state, h.queue_nodup, h.queue_inj, h.queue_side,
    h.mem_queue, h.off_ready, h.off_queue⟩

/-- The tasks that are counted as being off their lists may be those of an equal set. -/
lemma of_off_eq {off' : Set ℕ} (h : s.toSkel.Placed live eps off) (he : off = off') :
    s.toSkel.Placed live eps off' :=
  he ▸ h

end Skel.Placed

/-! ### Whole operations -/

/-- The abstract state between two traps: the invariant holds and the current task runs. -/
structure Sys.Ok (live eps : Set ℕ) (s : Sys) : Prop where
  inv : s.toSkel.Inv live eps ∅
  running : s.state s.current = .running

section Ops

variable {live eps off : Set ℕ} {s : Sys} {t e : ℕ}

/-- Revoking a right leaves the queues, the running task and the other rights alone. -/
lemma Sys.abortReply_frame (s : Sys) (h : ℕ) :
    (s.abortReply h).queue = s.queue ∧ (s.abortReply h).current = s.current ∧
    (s.abortReply h).replyTo = Function.update s.replyTo h 0 ∧
    (s.abortReply h).ttbr0Pa = s.ttbr0Pa := by
  unfold Sys.abortReply
  by_cases hc : s.replyTo h = 0
  · simp only [hc, ↓reduceIte]
    exact ⟨rfl, rfl, rfl, rfl⟩
  · simp only [hc, ↓reduceIte]
    exact ⟨rfl, rfl, rfl, rfl⟩

/-- Revoking a right changes the state of the waiting caller only. -/
lemma Sys.abortReply_state {h u : ℕ} (hu : s.replyTo h = 0 ∨ u ≠ s.replyTo h) :
    (s.abortReply h).state u = s.state u := by
  unfold Sys.abortReply
  by_cases hc : s.replyTo h = 0
  · simp only [hc, ↓reduceIte]
    rfl
  · simp only [hc, ↓reduceIte]
    exact Function.update_of_ne (hu.resolve_left hc) _ _

/-- Revoking a right keeps the invariant; the caller becomes ready. -/
lemma Skel.Inv.abortReply (h : s.toSkel.Inv live eps off) {u : ℕ} (hu : u ∈ live)
    (hoff : ∀ v ∈ off, s.state v ≠ .blockedReply) :
    (s.abortReply u).toSkel.Inv live eps off := by
  unfold Sys.abortReply
  by_cases hc : s.replyTo u = 0
  · simp only [hc, ↓reduceIte]
    have hsame : Function.update s.replyTo u 0 = s.replyTo := by
      rw [← hc]
      exact Function.update_eq_self u s.replyTo
    refine ⟨h.placed.setReplyTo u 0, ?_⟩
    change Rights live s.state (Function.update s.replyTo u 0)
    rw [hsame]
    exact h.rights
  · simp only [hc, ↓reduceIte]
    have hw : s.state (s.replyTo u) = .blockedReply := h.rights.waiting hu hc
    have hr : s.replyTo u ∉ s.ready := h.placed.not_mem_ready (by rw [hw]; decide)
    have hq := h.placed.not_mem_queue (t := s.replyTo u) (by rw [hw]; decide)
    have hnotin : s.replyTo u ∉ off := fun ho => hoff _ ho hw
    have hp := (h.placed.setReplyTo u 0).enqueue (h.rights.live_caller hu hc) hr hq
    rw [sdiff_singleton_eq_self hnotin] at hp
    exact ⟨hp, h.rights.release hu hc (by decide) (by decide)⟩

/-- Answering the pending caller keeps the invariant. -/
lemma Sys.Ok.reply (h : s.Ok live eps) : s.reply.Ok live eps := by
  unfold Sys.reply
  by_cases hc : s.replyTo s.current = 0
  · simp only [hc, ↓reduceIte]
    exact h
  · simp only [hc, ↓reduceIte]
    have hcur := h.inv.placed.current_live
    have hw : s.state (s.replyTo s.current) = .blockedReply := h.inv.rights.waiting hcur hc
    have hr : s.replyTo s.current ∉ s.ready := h.inv.placed.not_mem_ready (by rw [hw]; decide)
    have hq := h.inv.placed.not_mem_queue (t := s.replyTo s.current) (by rw [hw]; decide)
    have hp := (h.inv.placed.setReplyTo s.current 0).enqueue (h.inv.rights.live_caller hcur hc)
      hr hq
    rw [empty_sdiff] at hp
    have hne : s.current ≠ s.replyTo s.current := by
      intro e
      rw [← e, h.running] at hw
      simp at hw
    refine ⟨⟨hp, h.inv.rights.release hcur hc (by decide) (by decide)⟩, ?_⟩
    exact (Function.update_of_ne hne _ _).trans h.running

/-- The running task is on no list. -/
lemma Sys.Ok.current_not_mem (h : s.Ok live eps) :
    s.current ∉ s.ready ∧ ∀ e, s.current ∉ s.queue e :=
  ⟨h.inv.placed.not_mem_ready (by rw [h.running]; decide),
    h.inv.placed.not_mem_queue (by rw [h.running]; decide)⟩

/-- A caller that waits for the running task is another one. -/
lemma Sys.Ok.replyTo_ne_current (h : s.Ok live eps) {u : ℕ} (hu : u ∈ live) (h0 : s.replyTo u ≠ 0) :
    s.replyTo u ≠ s.current := by
  intro he
  have hw := h.inv.rights.waiting hu h0
  rw [he, h.running] at hw
  cases hw

/-- A caller that waits for an answer waits in no queue. -/
lemma Sys.Ok.replyTo_not_queued (h : s.Ok live eps) {u : ℕ} (hu : u ∈ live) (h0 : s.replyTo u ≠ 0) :
    ¬ (s.state (s.replyTo u)).Queued := by
  rw [h.inv.rights.waiting hu h0]
  decide

/-- Running the first ready task leaves the reply rights. -/
lemma Sys.replyTo_blockAndSwitch (s : Sys) : s.blockAndSwitch.1.replyTo = s.replyTo := by
  unfold Sys.blockAndSwitch
  cases s.ready with
  | nil => rfl
  | cons t l => rfl

/-- Running the first ready task leaves the states, but for its own. -/
lemma Sys.state_blockAndSwitch (s : Sys) (u : ℕ) :
    s.blockAndSwitch.1.state u = s.state u ∨ s.blockAndSwitch.1.state u = .running := by
  unfold Sys.blockAndSwitch
  cases s.ready with
  | nil => exact .inl rfl
  | cons t l =>
    by_cases hu : u = t
    · rw [hu]
      exact .inr (Function.update_self _ _ _)
    · exact .inl (Function.update_of_ne hu _ _)

/-- When no task runs, switching to the first ready task restores the invariant. -/
lemma Skel.Inv.blockAndSwitch (h : s.toSkel.Inv live eps ∅)
    (hnone : ∀ u ∈ live, s.state u ≠ .running) (htrue : s.blockAndSwitch.2 = true) :
    s.blockAndSwitch.1.Ok live eps := by
  unfold Sys.blockAndSwitch at htrue ⊢
  cases hl : s.ready with
  | nil => simp [hl] at htrue
  | cons t l =>
    have ht : t ∈ s.ready := by rw [hl]; simp
    have hst := h.placed.ready_state ht
    have hpop := h.placed.popReady hl
    have hp := hpop.switchTo (h.placed.ready_live ht) (hpop.off_ready (mem_insert _ _))
      (fun e => hpop.off_queue (mem_insert _ _)) hnone
    refine ⟨⟨hp.of_off_eq (by simp), ?_⟩, Function.update_self _ _ _⟩
    exact h.rights.setState (by rw [hst]; decide) (by decide) fun _ _ => by decide

/-- The running task still runs when its reply right has been revoked. -/
lemma Sys.Ok.abortReply_running (h : s.Ok live eps) :
    (s.abortReply s.current).state s.current = .running := by
  rw [Sys.abortReply_state, h.running]
  by_cases hc : s.replyTo s.current = 0
  · exact .inl hc
  · exact .inr (h.replyTo_ne_current h.inv.placed.current_live hc).symm

/-- The running task has ended and nothing runs. -/
lemma Sys.Ok.ended (h : s.Ok live eps) :
    ((s.abortReply s.current).setState s.current .dead).toSkel.Inv live eps ∅ ∧
      ∀ u ∈ live, ((s.abortReply s.current).setState s.current .dead).state u ≠ .running := by
  have hcur := h.inv.placed.current_live
  have ha : (s.abortReply s.current).toSkel.Inv live eps ∅ :=
    h.inv.abortReply hcur (by simp)
  obtain ⟨-, hcurrent, hreply, -⟩ := s.abortReply_frame s.current
  -- the caller that is woken is not the running task
  have hst := h.abortReply_running
  have hr := ha.placed.not_mem_ready (t := s.current) (by rw [hst]; decide)
  have hq := ha.placed.not_mem_queue (t := s.current) (by rw [hst]; decide)
  have hp := ha.placed.setState hr hq .dead (by decide) (by decide) (by decide)
  rw [empty_sdiff] at hp
  refine ⟨⟨hp, ha.rights.setState (by rw [hst]; decide) (by decide) fun _ hne => ?_⟩, ?_⟩
  · rw [hreply, Function.update_self] at hne
    exact absurd rfl hne
  · intro u hu hs
    by_cases e : u = s.current
    · rw [e] at hs
      have : ((s.abortReply s.current).setState s.current .dead).state s.current = .dead :=
        Function.update_self _ _ _
      rw [this] at hs
      simp at hs
    · have hu' : (s.abortReply s.current).state u = .running :=
        (Function.update_of_ne e _ _).symm.trans hs
      exact e (hcurrent ▸ ha.placed.running_eq hu hu')

/-- Ending the running task. -/
theorem Sys.Ok.kill (h : s.Ok live eps) (htrue : s.kill.2 = true) : s.kill.1.Ok live eps := by
  obtain ⟨-, hcurrent, -, -⟩ := s.abortReply_frame s.current
  unfold Sys.kill at htrue ⊢
  simp only [hcurrent] at htrue ⊢
  exact h.ended.1.blockAndSwitch h.ended.2 htrue

/-- Moving the running task to the end of the ready list. -/
theorem Sys.Ok.rotate (h : s.Ok live eps) : s.rotate.Ok live eps := by
  unfold Sys.rotate
  cases hl : s.ready with
  | nil => exact h
  | cons t l =>
    have ht : t ∈ s.ready := by rw [hl]; simp
    have hst := h.inv.placed.ready_state ht
    obtain ⟨hr, hq⟩ := h.current_not_mem
    have hne : t ≠ s.current := ne_of_mem_of_not_mem ht hr
    have hpop := h.inv.placed.popReady hl
    have hr' : s.current ∉ s.popReady.ready := by
      rw [Sys.popReady, hl]
      rw [hl] at hr
      exact fun hm => hr (List.mem_cons_of_mem _ hm)
    have henq := hpop.enqueue h.inv.placed.current_live hr' hq
    -- `t` is still off the lists, and nothing runs
    have hoff : t ∈ insert t (∅ : Set ℕ) \ {s.current} := ⟨mem_insert _ _, hne⟩
    have hnone : ∀ u ∈ live, (s.popReady.enqueue s.current).state u ≠ .running := by
      intro u hu hs
      by_cases e : u = s.current
      · rw [e] at hs
        have : (s.popReady.enqueue s.current).state s.current = .ready :=
          Function.update_self _ _ _
        rw [this] at hs
        simp at hs
      · exact e (h.inv.placed.running_eq hu ((Function.update_of_ne e _ _).symm.trans hs))
    have hp := henq.switchTo (h.inv.placed.ready_live ht) (henq.off_ready hoff)
      (fun e => henq.off_queue hoff) hnone
    refine ⟨⟨hp.of_off_eq ?_, ?_⟩, Function.update_self _ _ _⟩
    · ext u
      simp only [mem_sdiff, mem_insert_iff, mem_empty_iff_false, or_false, mem_singleton_iff,
        iff_false, not_and, not_not]
      tauto
    · have h1 : Rights live (Function.update s.state s.current .ready) s.replyTo :=
        h.inv.rights.setState (by rw [h.running]; decide) (by decide) fun _ _ => by decide
      refine h1.setState ?_ (by decide) fun _ _ => by decide
      rw [Function.update_of_ne hne, hst]
      decide

/-- The running task waits in the queue of an endpoint whose other tasks wait in the same
direction, and nothing runs. -/
lemma Sys.Ok.waiting (h : s.Ok live eps) (he : e ∈ eps) {st : TaskState} (hst : st.Queued)
    (hside : ∀ u ∈ s.queue e, (s.state u = .blockedRecv ↔ st = .blockedRecv)) :
    ((s.setState s.current st).pushQueue e s.current).toSkel.Inv live eps ∅ ∧
      ∀ u ∈ live, ((s.setState s.current st).pushQueue e s.current).state u ≠ .running := by
  obtain ⟨hr, hq⟩ := h.current_not_mem
  have hp := h.inv.placed.pushQueue h.inv.placed.current_live hr hq he hst hside
  rw [empty_sdiff] at hp
  have hne : st ≠ .blockedReply := by
    rintro rfl
    exact absurd hst (by decide)
  have halive : st.Alive := by
    rcases hst with rfl | rfl | rfl <;> decide
  refine ⟨⟨hp, h.inv.rights.setState (by rw [h.running]; decide) hne fun _ _ => halive⟩, ?_⟩
  intro u hu hs
  by_cases e' : u = s.current
  · rw [e'] at hs
    have : ((s.setState s.current st).pushQueue e s.current).state s.current = st :=
      Function.update_self _ _ _
    rw [this] at hs
    rw [hs] at hst
    exact absurd hst (by decide)
  · exact e' (h.inv.placed.running_eq hu ((Function.update_of_ne e' _ _).symm.trans hs))

/-- Blocking the running task on an endpoint whose queue waits in the same direction. -/
lemma Sys.Ok.blockOn (h : s.Ok live eps) (he : e ∈ eps) {st : TaskState} (hst : st.Queued)
    (hside : ∀ u ∈ s.queue e, (s.state u = .blockedRecv ↔ st = .blockedRecv))
    (htrue : (s.blockOn st e).2 = true) : (s.blockOn st e).1.Ok live eps :=
  (h.waiting he hst hside).1.blockAndSwitch (h.waiting he hst hside).2 htrue

/-! ### The calls, case by case -/

/-- A send to a waiting receiver. -/
lemma Sys.send_of_receiver (h : s.receiver? e = some t) (nonblock : Bool) :
    s.send e nonblock = (((s.giveTo e t).enqueue t).ret 0, true) := by
  unfold send
  rw [h]
  rfl

/-- A call to a waiting receiver. -/
lemma Sys.call_of_receiver (h : s.receiver? e = some t) (nonblock : Bool) :
    s.call e nonblock =
      (((((s.giveTo e t).abortReply t).setReplyTo t s.current).setState s.current
        .blockedReply).enqueue t).blockAndSwitch := by
  have hcur : ((s.giveTo e t).abortReply t).current = s.current := (abortReply_frame _ t).2.1
  unfold call
  rw [h]
  change (((((s.giveTo e t).abortReply t).setReplyTo t
    ((s.giveTo e t).abortReply t).current).setState
      ((s.giveTo e t).abortReply t).current .blockedReply).enqueue t).blockAndSwitch = _
  rw [hcur]

/-- A receive from a waiting caller. -/
lemma Sys.recv_of_caller (h : s.sender? e = some t) (hc : s.state t = .blockedCall)
    (nonblock : Bool) :
    s.recv e nonblock =
      ((((s.takeFrom e t).abortReply s.current).setState t .blockedReply).setReplyTo s.current t,
        true) := by
  have hcur : ((s.takeFrom e t).abortReply s.current).current = s.current :=
    (abortReply_frame _ _).2.1
  have hif : (s.takeFrom e t).state t = .blockedCall := hc
  unfold recv
  rw [h]
  change (if (s.takeFrom e t).state t = .blockedCall then
    ((((s.takeFrom e t).abortReply s.current).setState t .blockedReply).setReplyTo
      ((s.takeFrom e t).abortReply s.current).current t, true) else _) = _
  rw [if_pos hif, hcur]

/-- A receive from a waiting sender. -/
lemma Sys.recv_of_sender (h : s.sender? e = some t) (hc : s.state t ≠ .blockedCall)
    (nonblock : Bool) :
    s.recv e nonblock = (((s.takeFrom e t).setX t 0 0).enqueue t, true) := by
  have hif : ¬ (s.takeFrom e t).state t = .blockedCall := hc
  unfold recv
  rw [h]
  exact if_neg hif

/-- A send without a waiting receiver. -/
lemma Sys.send_of_none (h : s.receiver? e = none) (nonblock : Bool) :
    s.send e nonblock = if nonblock then (s.ret (Abi.asU64 Abi.Err.wouldBlock), true)
      else s.blockOn .blockedSend e := by
  unfold send
  rw [h]

/-- A call without a waiting receiver. -/
lemma Sys.call_of_none (h : s.receiver? e = none) (nonblock : Bool) :
    s.call e nonblock = if nonblock then (s.ret (Abi.asU64 Abi.Err.wouldBlock), true)
      else s.blockOn .blockedCall e := by
  unfold call
  rw [h]

/-- A receive without a waiting sender. -/
lemma Sys.recv_of_none (h : s.sender? e = none) (nonblock : Bool) :
    s.recv e nonblock = if nonblock then (s.ret (Abi.asU64 Abi.Err.wouldBlock), true)
      else s.blockOn .blockedRecv e := by
  unfold recv
  rw [h]

/-- After a receive the running task holds the right that it held, or the one to answer the task
whose message it took; the other rights are the old ones. -/
lemma Sys.replyTo_recv (s : Sys) (e : ℕ) (nonblock : Bool) (u : ℕ) :
    (s.recv e nonblock).1.replyTo u = s.replyTo u ∨
      u = s.current ∧ s.sender? e = some ((s.recv e nonblock).1.replyTo u) := by
  cases hr : s.sender? e with
  | none =>
    rw [Sys.recv_of_none hr]
    cases nonblock with
    | true => exact .inl rfl
    | false =>
      refine .inl ?_
      show ((s.setState s.current .blockedRecv).pushQueue e s.current).blockAndSwitch.1.replyTo u =
        _
      rw [Sys.replyTo_blockAndSwitch]
      rfl
  | some t =>
    by_cases hc : s.state t = .blockedCall
    · rw [Sys.recv_of_caller hr hc]
      show Function.update ((s.takeFrom e t).abortReply s.current).replyTo s.current t u = _ ∨ _
      rw [((s.takeFrom e t).abortReply_frame s.current).2.2.1]
      by_cases hu : u = s.current
      · refine .inr ⟨hu, ?_⟩
        have hself : ((((s.takeFrom e t).abortReply s.current).setState t
            .blockedReply).setReplyTo s.current t).replyTo u = t := by
          rw [hu]
          exact Function.update_self _ _ _
        exact congrArg some hself.symm
      · left
        rw [Function.update_of_ne hu, Function.update_of_ne hu]
        rfl
    · rw [Sys.recv_of_sender hr hc]
      exact .inl rfl

/-- A waiting receiver is the first task of the queue. -/
lemma Sys.receiver?_eq_some :
    s.receiver? e = some t ↔ (∃ l, s.queue e = t :: l) ∧ s.state t = .blockedRecv := by
  unfold Sys.receiver?
  cases s.queue e with
  | nil => simp
  | cons u l =>
    rw [List.head?_cons, Option.filter_eq_some_iff]
    simp only [Option.some.injEq, decide_eq_true_eq, List.cons.injEq, exists_and_left,
      exists_eq', and_true]

/-- A waiting sender is the first task of the queue. -/
lemma Sys.sender?_eq_some :
    s.sender? e = some t ↔ (∃ l, s.queue e = t :: l) ∧ s.state t ≠ .blockedRecv := by
  unfold Sys.sender?
  cases s.queue e with
  | nil => simp
  | cons u l =>
    rw [List.head?_cons, Option.filter_eq_some_iff]
    simp only [Option.some.injEq, decide_eq_true_eq, List.cons.injEq, exists_and_left,
      exists_eq', and_true]

/-- If no receiver waits, all waiting tasks are senders. -/
lemma Skel.Placed.no_receiver (h : s.toSkel.Placed live eps off) (hn : s.receiver? e = none) :
    ∀ u ∈ s.queue e, s.state u ≠ .blockedRecv := by
  intro u hu hs
  cases hl : s.queue e with
  | nil =>
    rw [hl] at hu
    simp at hu
  | cons t l =>
    have ht : t ∈ s.queue e := by rw [hl]; simp
    have := Sys.receiver?_eq_some.mpr ⟨⟨l, hl⟩, (h.queue_side hu ht).mp hs⟩
    rw [hn] at this
    simp at this

/-- If no sender waits, all waiting tasks are receivers. -/
lemma Skel.Placed.no_sender (h : s.toSkel.Placed live eps off) (hn : s.sender? e = none) :
    ∀ u ∈ s.queue e, s.state u = .blockedRecv := by
  intro u hu
  by_contra hs
  cases hl : s.queue e with
  | nil =>
    rw [hl] at hu
    simp at hu
  | cons t l =>
    have ht : t ∈ s.queue e := by rw [hl]; simp
    have := Sys.sender?_eq_some.mpr ⟨⟨l, hl⟩, fun h' => hs ((h.queue_side hu ht).mpr h')⟩
    rw [hn] at this
    simp at this

/-- Returning a value keeps the invariant. -/
lemma Sys.Ok.ret (h : s.Ok live eps) (v : UInt64) : (s.ret v).Ok live eps := ⟨h.inv, h.running⟩

/-- The first task of a queue, once taken off, may be made ready. -/
lemma Sys.Ok.popQueue_enqueue (h : s.Ok live eps) {l : List ℕ} (hl : s.queue e = t :: l) :
    ((s.popQueue e).enqueue t).Ok live eps := by
  have ht : t ∈ s.queue e := by rw [hl]; simp
  have hst := h.inv.placed.queue_state ht
  have hpop := h.inv.placed.popQueue hl
  have hp := hpop.enqueue (h.inv.placed.queue_live ht) (hpop.off_ready (mem_insert _ _))
    (fun e => hpop.off_queue (mem_insert _ _))
  have hne : s.current ≠ t := (ne_of_mem_of_not_mem ht (h.current_not_mem.2 e)).symm
  refine ⟨⟨hp.of_off_eq (by simp), ?_⟩, (Function.update_of_ne hne _ _).trans h.running⟩
  refine h.inv.rights.setState ?_ (by decide) fun _ _ => by decide
  intro e'
  rw [e'] at hst
  exact absurd hst (by decide)

/-- Sending on an endpoint. -/
theorem Sys.Ok.send (h : s.Ok live eps) (he : e ∈ eps) {nonblock : Bool}
    (htrue : (s.send e nonblock).2 = true) : (s.send e nonblock).1.Ok live eps := by
  unfold Sys.send at htrue ⊢
  cases hr : s.receiver? e with
  | some t =>
    obtain ⟨⟨l, hl⟩, -⟩ := Sys.receiver?_eq_some.mp hr
    have := h.popQueue_enqueue hl
    exact ⟨this.inv, this.running⟩
  | none =>
    simp only [hr] at htrue
    have hnone := h.inv.placed.no_receiver hr
    cases nonblock with
    | true => exact h.ret _
    | false =>
      refine h.blockOn he (.inl rfl) (fun u hu => ?_) htrue
      exact ⟨fun h' => absurd h' (hnone u hu), fun h' => absurd h' (by decide)⟩

/-- Receiving on an endpoint.

**Proof sketch.** A plain sender moves to the ready list. A calling sender comes to wait for its
answer, and its right goes to the running task, whose previous right is revoked first; the
running task waits for no answer itself, so the new right closes no cycle. -/
theorem Sys.Ok.recv (h : s.Ok live eps) (he : e ∈ eps) {nonblock : Bool}
    (htrue : (s.recv e nonblock).2 = true) : (s.recv e nonblock).1.Ok live eps := by
  unfold Sys.recv at htrue ⊢
  cases hs : s.sender? e with
  | some t =>
    obtain ⟨⟨l, hl⟩, hside⟩ := Sys.sender?_eq_some.mp hs
    have ht : t ∈ s.queue e := by rw [hl]; simp
    have htl := h.inv.placed.queue_live ht
    have hcur := h.inv.placed.current_live
    have hne : s.current ≠ t := (ne_of_mem_of_not_mem ht (h.current_not_mem.2 e)).symm
    simp only [hs] at htrue ⊢
    -- the state after the message has been taken over
    set s₁ := (s.popQueue e).setCtx (s.popQueue e).current
      (deliver ((s.popQueue e).ctx t) ((s.popQueue e).ctx (s.popQueue e).current)) with hs₁
    by_cases hcall : s.state t = .blockedCall
    · rw [if_pos (show s₁.state t = .blockedCall from hcall)]
      have hi₁ : s₁.toSkel.Inv live eps (insert t ∅) := ⟨h.inv.placed.popQueue hl, h.inv.rights⟩
      have ha : (s₁.abortReply s.current).toSkel.Inv live eps (insert t ∅) := by
        refine hi₁.abortReply hcur fun v hv => ?_
        rw [insert_empty_eq, mem_singleton_iff] at hv
        rw [hv]
        change s.state t ≠ .blockedReply
        rw [hcall]
        decide
      obtain ⟨-, hcurrent, hreply, -⟩ := s₁.abortReply_frame s.current
      -- revoking wakes a task that waits for an answer, so neither `t` nor the running task
      have hkeep : ∀ u, s.state u ≠ .blockedReply →
          (s₁.abortReply s.current).state u = s.state u := by
        intro u hu
        refine Sys.abortReply_state ?_
        by_cases hc : s₁.replyTo s.current = 0
        · exact .inl hc
        · exact .inr (hi₁.rights.ne_of_not_waiting hu hcur hc).symm
      have hstt := hkeep t (by rw [hcall]; decide)
      have hstc := hkeep s.current (by rw [h.running]; decide)
      have hoff : t ∈ insert t (∅ : Set ℕ) := mem_insert _ _
      have hp := (ha.placed.setState (ha.placed.off_ready hoff) (fun e => ha.placed.off_queue hoff)
        .blockedReply (by decide) (by decide) (by decide)).setReplyTo s.current t
      have hg := ha.rights.grant ha.placed.zero hcur htl hne
        (by rw [hreply]; exact Function.update_self _ _ _) (by rw [hstc, h.running]; decide)
        (by rw [hstc, h.running]; decide) (by rw [hstt, hcall]; decide)
      have hcur' : s₁.current = s.current := rfl
      simp only [hcur', hcurrent]
      refine ⟨⟨hp.of_off_eq (by simp), hg⟩, ?_⟩
      change Function.update (s₁.abortReply s.current).state t .blockedReply
        (s₁.abortReply s.current).current = .running
      rw [hcurrent, hcur', Function.update_of_ne hne, hstc, h.running]
    · rw [if_neg (show ¬ s₁.state t = .blockedCall from hcall)]
      have := h.popQueue_enqueue hl
      exact ⟨this.inv, this.running⟩
  | none =>
    simp only [hs] at htrue
    have hall := h.inv.placed.no_sender hs
    cases nonblock with
    | true => exact h.ret _
    | false =>
      refine h.blockOn he (.inr (.inl rfl)) (fun u hu => ?_) htrue
      exact ⟨fun _ => rfl, fun _ => hall u hu⟩

/-- The state after a call to the waiting receiver `t`, before the next task runs. -/
def Sys.callTo (s : Sys) (e t : ℕ) : Sys :=
  ((((s.giveTo e t).abortReply t).setReplyTo t s.current).setState s.current
    .blockedReply).enqueue t

/-- The running task waits for the answer of the receiver, which is ready, and nothing runs.

**Proof sketch.** The old right of the receiver is revoked and it gets the right to answer the
running task; it was waiting for a message, not for an answer, so the new right closes no
cycle. -/
lemma Sys.Ok.called (h : s.Ok live eps) (hs : s.receiver? e = some t) :
    (s.callTo e t).toSkel.Inv live eps ∅ ∧ ∀ u ∈ live, (s.callTo e t).state u ≠ .running := by
  obtain ⟨⟨l, hl⟩, hrecv⟩ := Sys.receiver?_eq_some.mp hs
  have ht : t ∈ s.queue e := by rw [hl]; simp
  have htl := h.inv.placed.queue_live ht
  have hcur := h.inv.placed.current_live
  have hne : s.current ≠ t := (ne_of_mem_of_not_mem ht (h.current_not_mem.2 e)).symm
  have hi₁ : (s.giveTo e t).toSkel.Inv live eps (insert t ∅) :=
    ⟨h.inv.placed.popQueue hl, h.inv.rights⟩
  have ha : ((s.giveTo e t).abortReply t).toSkel.Inv live eps (insert t ∅) := by
    refine hi₁.abortReply htl fun v hv => ?_
    rw [insert_empty_eq, mem_singleton_iff] at hv
    rw [hv]
    change s.state t ≠ .blockedReply
    rw [hrecv]
    decide
  obtain ⟨-, hcurrent, hreply, -⟩ := (s.giveTo e t).abortReply_frame t
  have hkeep : ∀ u, s.state u ≠ .blockedReply →
      ((s.giveTo e t).abortReply t).state u = s.state u := by
    intro u hu
    refine Sys.abortReply_state ?_
    by_cases hc : (s.giveTo e t).replyTo t = 0
    · exact .inl hc
    · exact .inr (hi₁.rights.ne_of_not_waiting hu htl hc).symm
  have hstt := hkeep t (by rw [hrecv]; decide)
  have hstc := hkeep s.current (by rw [h.running]; decide)
  -- the right to answer the running task goes to `t`
  have hp₂ := ha.placed.setReplyTo t s.current
  have hr₂ := hp₂.not_mem_ready (t := s.current) (by
    change ((s.giveTo e t).abortReply t).state s.current ≠ .ready
    rw [hstc, h.running]
    decide)
  have hq₂ := hp₂.not_mem_queue (t := s.current) (by
    change ¬ (((s.giveTo e t).abortReply t).state s.current).Queued
    rw [hstc, h.running]
    decide)
  have hp₃ := hp₂.setState hr₂ hq₂ .blockedReply (by decide) (by decide) (by decide)
  have hg := ha.rights.grant ha.placed.zero htl hcur hne.symm
    (by rw [hreply]; exact Function.update_self _ _ _) (by rw [hstt, hrecv]; decide)
    (by rw [hstt, hrecv]; decide) (by rw [hstc, h.running]; decide)
  -- and `t` becomes ready
  have hoff : t ∈ insert t (∅ : Set ℕ) \ {s.current} := ⟨mem_insert _ _, hne.symm⟩
  have hp₄ := hp₃.enqueue htl (hp₃.off_ready hoff) (fun e => hp₃.off_queue hoff)
  have hstt₃ : Function.update ((s.giveTo e t).abortReply t).state s.current .blockedReply t =
      .blockedRecv :=
    (Function.update_of_ne hne.symm _ _).trans (hstt.trans hrecv)
  refine ⟨⟨hp₄.of_off_eq ?_, ?_⟩, ?_⟩
  · ext u
    simp only [mem_sdiff, mem_insert_iff, mem_empty_iff_false, or_false, mem_singleton_iff,
      iff_false, not_and, not_not]
    tauto
  · refine Rights.setState hg ?_ (by decide) fun _ _ => by decide
    rw [hstt₃]
    decide
  · intro u hu hrun
    by_cases e₁ : u = t
    · rw [e₁] at hrun
      have : (s.callTo e t).state t = .ready := Function.update_self _ _ _
      rw [this] at hrun
      simp at hrun
    · have h1 : Function.update ((s.giveTo e t).abortReply t).state s.current .blockedReply u =
          .running :=
        (Function.update_of_ne e₁ _ _).symm.trans hrun
      by_cases e₂ : u = s.current
      · rw [e₂, Function.update_self] at h1
        simp at h1
      · rw [Function.update_of_ne e₂] at h1
        have := ha.placed.running_eq hu h1
        rw [hcurrent] at this
        exact e₂ this

/-- Calling on an endpoint. -/
theorem Sys.Ok.call (h : s.Ok live eps) (he : e ∈ eps) {nonblock : Bool}
    (htrue : (s.call e nonblock).2 = true) : (s.call e nonblock).1.Ok live eps := by
  cases hs : s.receiver? e with
  | some t =>
    rw [Sys.call_of_receiver hs] at htrue ⊢
    exact (h.called hs).1.blockAndSwitch (h.called hs).2 htrue
  | none =>
    have hnone := h.inv.placed.no_receiver hs
    rw [Sys.call_of_none hs] at htrue ⊢
    cases nonblock with
    | true => exact h.ret _
    | false =>
      refine h.blockOn he (.inr (.inr rfl)) (fun u hu => ?_) htrue
      exact ⟨fun h' => absurd h' (hnone u hu), fun h' => absurd h' (by decide)⟩

/-- Answering and receiving. -/
theorem Sys.Ok.replyRecv (h : s.Ok live eps) (he : e ∈ eps) {nonblock : Bool}
    (htrue : (s.replyRecv e nonblock).2 = true) : (s.replyRecv e nonblock).1.Ok live eps :=
  h.reply.recv he htrue

/-- Configuring an inactive task. -/
lemma Sys.Ok.configure (h : s.Ok live eps) (hst : s.state t = .inactive) (c : Context)
    (root : ℕ) : (s.configure t c root).Ok live eps := by
  have hp := h.inv.placed.setState (h.inv.placed.not_mem_ready (by rw [hst]; decide))
    (h.inv.placed.not_mem_queue (by rw [hst]; decide)) .stopped (by decide) (by decide) (by decide)
  have hne : s.current ≠ t := by
    rintro rfl
    rw [h.running] at hst
    simp at hst
  refine ⟨⟨hp.of_off_eq (empty_sdiff _), ?_⟩, (Function.update_of_ne hne _ _).trans h.running⟩
  -- an inactive task holds no right
  refine h.inv.rights.setState (by rw [hst]; decide) (by decide) fun htl hne => ?_
  have := h.inv.rights.alive htl hne
  rw [hst] at this
  exact absurd this (by decide)

/-- Starting a configured task. -/
lemma Sys.Ok.resume (h : s.Ok live eps) (ht : t ∈ live) (hst : s.state t = .stopped) :
    (s.enqueue t).Ok live eps := by
  have hp := h.inv.placed.enqueue ht (h.inv.placed.not_mem_ready (by rw [hst]; decide))
    (h.inv.placed.not_mem_queue (by rw [hst]; decide))
  have hne : s.current ≠ t := by
    rintro rfl
    rw [h.running] at hst
    simp at hst
  refine ⟨⟨hp.of_off_eq (empty_sdiff _), ?_⟩, (Function.update_of_ne hne _ _).trans h.running⟩
  exact h.inv.rights.setState (by rw [hst]; decide) (by decide) fun _ _ => by decide

/-- The invariant depends on the lists and on the control blocks of the live tasks only; further
inactive tasks without rights may count as live. -/
lemma Sys.Ok.extend {s' : Sys} {live' : Set ℕ} (h : s.Ok live eps) (hcur : s'.current = s.current)
    (hready : s'.ready = s.ready) (hqueue : s'.queue = s.queue)
    (hstate : ∀ u ∈ live, s'.state u = s.state u)
    (hreply : ∀ u ∈ live, s'.replyTo u = s.replyTo u) (hsub : live ⊆ live') (h0 : 0 ∉ live')
    (hnew : ∀ u ∈ live', u ∉ live → s'.state u = .inactive ∧ s'.replyTo u = 0) :
    s'.Ok live' eps := by
  -- a task in a started state, or with a right, is an old one
  have hold : ∀ {u}, u ∈ live' → s'.state u ≠ .inactive → u ∈ live := by
    intro u hu hs
    by_contra hn
    exact hs (hnew u hu hn).1
  have hholder : ∀ {u}, u ∈ live' → s'.replyTo u ≠ 0 → u ∈ live ∧ s.replyTo u ≠ 0 := by
    intro u hu hne
    have hu' : u ∈ live := by
      by_contra hn
      exact hne (hnew u hu hn).2
    exact ⟨hu', hreply u hu' ▸ hne⟩
  have hp := h.inv.placed
  refine ⟨⟨?_, ?_⟩, by rw [hcur, hstate _ hp.current_live, h.running]⟩
  · exact
      { zero := h0
        current_live := by
          rw [hcur]
          exact hsub hp.current_live
        running_eq := fun {u} hu hs => by
          have hu' := hold hu (by rw [hs]; decide)
          rw [hcur]
          exact hp.running_eq hu' (hstate u hu' ▸ hs)
        ready_live := fun {u} hu => hsub (hp.ready_live (hready ▸ hu))
        ready_state := fun {u} hu => by
          rw [hready] at hu
          exact (hstate u (hp.ready_live hu)).trans (hp.ready_state hu)
        ready_nodup := by
          rw [hready]
          exact hp.ready_nodup
        mem_ready := fun {u} hu hoff hs => by
          have hu' := hold hu (by rw [hs]; decide)
          rw [hready]
          exact hp.mem_ready hu' hoff (hstate u hu' ▸ hs)
        queue_eps := fun {e u} hu => hp.queue_eps (hqueue ▸ hu)
        queue_live := fun {e u} hu => hsub (hp.queue_live (hqueue ▸ hu))
        queue_state := fun {e u} hu => by
          rw [hqueue] at hu
          rw [hstate u (hp.queue_live hu)]
          exact hp.queue_state hu
        queue_nodup := by
          rw [hqueue]
          exact hp.queue_nodup
        queue_inj := fun {e e' u} hu hu' => hp.queue_inj (hqueue ▸ hu) (hqueue ▸ hu')
        queue_side := fun {e u u'} hu hu' => by
          rw [hqueue] at hu hu'
          rw [hstate u (hp.queue_live hu), hstate u' (hp.queue_live hu')]
          exact hp.queue_side hu hu'
        mem_queue := fun {u} hu hoff hs => by
          have hu' := hold hu fun e => by
            rw [e] at hs
            exact absurd hs (by decide)
          rw [hqueue]
          exact hp.mem_queue hu' hoff (hstate u hu' ▸ hs)
        off_ready := fun hu => absurd hu (notMem_empty _)
        off_queue := fun hu => absurd hu (notMem_empty _) }
  · have hr := h.inv.rights
    refine ⟨?_, ?_, ?_, ?_, ?_, ?_⟩
    · intro u hu hne
      obtain ⟨hu', hne'⟩ := hholder hu hne
      rw [hreply u hu']
      exact hsub (hr.live_caller hu' hne')
    · intro u hu hne
      obtain ⟨hu', hne'⟩ := hholder hu hne
      rw [hreply u hu', hstate _ (hr.live_caller hu' hne')]
      exact hr.waiting hu' hne'
    · intro u hu hne
      obtain ⟨hu', hne'⟩ := hholder hu hne
      rw [hstate u hu']
      exact hr.alive hu' hne'
    · intro u u' hu hu' hne he
      obtain ⟨m₁, n₁⟩ := hholder hu hne
      obtain ⟨m₂, -⟩ := hholder hu' (he ▸ hne)
      rw [hreply u m₁, hreply u' m₂] at he
      exact hr.unique m₁ m₂ n₁ he
    · intro c hc hs
      have hc' := hold hc (by rw [hs]; decide)
      rw [hstate c hc'] at hs
      obtain ⟨u, hu, huc⟩ := hr.holder hc' hs
      exact ⟨u, hsub hu, (hreply u hu).trans huc⟩
    · obtain ⟨rank, hrank⟩ := hr.ranked
      refine ⟨rank, fun u hu hne => ?_⟩
      obtain ⟨hu', hne'⟩ := hholder hu hne
      rw [hreply u hu']
      exact hrank u hu' hne'

/-- Clearing memory without live control blocks. A control block at its start may then count as
live. -/
lemma Sys.Ok.clear {a n : ℕ} {live' : Set ℕ} (h : s.Ok live eps)
    (hout : ∀ u ∈ live, ¬ (a ≤ u ∧ u < a + n)) (hsub : live ⊆ live') (h0 : 0 ∉ live')
    (hnew : ∀ u ∈ live', u ∉ live → a ≤ u ∧ u < a + n) : (s.clear a n).Ok live' eps :=
  h.extend rfl rfl rfl (fun u hu => if_neg (hout u hu)) (fun u hu => if_neg (hout u hu)) hsub h0
    fun u hu hn => ⟨if_pos (hnew u hu hn), if_pos (hnew u hu hn)⟩

end Ops

end K0
