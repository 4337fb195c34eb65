import K0.Ipc.Effect
import K0.Ipc.Order

set_option relaxedAutoImplicit false
set_option autoImplicit false

/-!
# A rendezvous in either order

Every rendezvous is written twice in the source: in the handler of the sender, for a receiver that
waits, and in that of the receiver, for a sender that waits. Both lead to the same registers and
reply rights. In between, ticks may pass.

## Main definitions

* `K0.Sys.Ticked`: what ticks do to a system.
* `K0.Sys.Parked`: one of the two tasks has arrived and waits.
* `K0.Sys.SendDone`, `K0.Sys.CallDone`: both have met.

## Main results

* `K0.Sys.Parked.recv_send`, `K0.Sys.Parked.send`: the two orders of a send and a receive.
* `K0.Sys.Parked.recv_call`, `K0.Sys.Parked.call`: the two orders of a call and a receive.
-/

namespace K0

open Set

namespace Sys

variable {live eps : Set ℕ} {s s' s'' : Sys} {a b e t : ℕ} {ra rb : Context} {st : TaskState}

/-! ### Ticks -/

/-- From `s` to `s'` only ticks have passed. -/
structure Ticked (s s' : Sys) : Prop where
  ctx : s'.ctx = s.ctx
  replyTo : s'.replyTo = s.replyTo
  queue : s'.queue = s.queue
  state : ∀ t, s'.state t = s.state t ∨ ((s.state t).Runnable ∧ (s'.state t).Runnable)

namespace Ticked

/-- No tick. -/
lemma refl (s : Sys) : Ticked s s := ⟨rfl, rfl, rfl, fun _ => .inl rfl⟩

/-- Ticks and more ticks. -/
lemma trans (h : Ticked s s') (h' : Ticked s' s'') : Ticked s s'' := by
  refine ⟨h'.ctx.trans h.ctx, h'.replyTo.trans h.replyTo, h'.queue.trans h.queue, fun t => ?_⟩
  rcases h'.state t with e' | ⟨hr, hr'⟩
  · rw [e']
    exact h.state t
  · rcases h.state t with e | ⟨hr₀, -⟩
    · exact .inr ⟨e ▸ hr, hr'⟩
    · exact .inr ⟨hr₀, hr'⟩

/-- A task that can run still can. -/
lemma runnable (h : Ticked s s') (ht : (s.state t).Runnable) : (s'.state t).Runnable := by
  rcases h.state t with e | ⟨-, hr⟩
  · exact e ▸ ht
  · exact hr

/-- One tick. -/
lemma rotate (h : s.Ok live eps) : Ticked s s.rotate := by
  unfold Sys.rotate
  cases hl : s.ready with
  | nil => exact refl s
  | cons u l =>
    refine ⟨rfl, rfl, rfl, fun t => ?_⟩
    have hu : s.state u = .ready := h.inv.placed.ready_state (by rw [hl]; exact List.mem_cons_self)
    have hrun : s.state s.current = .running := h.running
    change Function.update (Function.update s.state s.current .ready) u .running t = _ ∨
      _ ∧ (Function.update (Function.update s.state s.current .ready) u .running t).Runnable
    by_cases e : t = u
    · rw [e, Function.update_self, hu]
      exact .inr ⟨.inl rfl, .inr rfl⟩
    · by_cases e' : t = s.current
      · rw [Function.update_of_ne e, e', Function.update_self, hrun]
        exact .inr ⟨.inr rfl, .inl rfl⟩
      · rw [Function.update_of_ne e, Function.update_of_ne e']
        exact .inl rfl

/-- Several ticks. -/
lemma iterate (h : s.Ok live eps) (j : ℕ) :
    Ticked s (Sys.rotate^[j] s) ∧ (Sys.rotate^[j] s).Ok live eps := by
  induction j with
  | zero => exact ⟨refl s, h⟩
  | succ j ih =>
    rw [Function.iterate_succ_apply']
    exact ⟨ih.1.trans (rotate ih.2), ih.2.rotate⟩

end Ticked

/-- Some number of ticks gives a task that can run its turn. -/
lemma Ok.exists_turn (h : s.Ok live eps) (ht : t ∈ live) (hrun : (s.state t).Runnable) :
    ∃ j, (Sys.rotate^[j] s).current = t := by
  have hring : t ∈ s.current :: s.ready := by
    rcases hrun with hr | hr
    · exact List.mem_cons_of_mem _ (h.inv.placed.mem_ready ht (notMem_empty t) hr)
    · rw [h.inv.placed.running_eq ht hr]
      exact List.mem_cons_self
  obtain ⟨j, hj⟩ := List.getElem?_of_mem hring
  have hlt := (List.getElem?_eq_some_iff.mp hj).1
  refine ⟨j, ?_⟩
  have hhead : ((s.current :: s.ready).rotate j)[0]? = some t := by
    rw [List.getElem?_rotate (by omega), Nat.zero_add, Nat.mod_eq_of_lt hlt, hj]
  rw [h.iterate_rotate]
  cases hl : (s.current :: s.ready).rotate j with
  | nil =>
    rw [hl] at hhead
    cases hhead
  | cons u l =>
    rw [hl] at hhead
    exact Option.some.inj hhead

/-! ### The first of the two -/

/-- From `s` to `s'` the task `a` has come to wait alone on the endpoint `e`, in state `st` and with
the registers `ra`; otherwise only ticks have passed. -/
structure Parked (s : Sys) (a : ℕ) (ra : Context) (st : TaskState) (e : ℕ) (s' : Sys) : Prop where
  ctx : s'.ctx = Function.update s.ctx a ra
  replyTo : s'.replyTo = s.replyTo
  queue : s'.queue e = [a]
  waits : s'.state a = st
  state : ∀ t, t ≠ a → s'.state t = s.state t ∨ ((s.state t).Runnable ∧ (s'.state t).Runnable)

namespace Parked

/-- Ticks leave it waiting. -/
lemma tick (h : Parked s a ra st e s') (hst : ¬ st.Runnable) (h' : Ticked s' s'') :
    Parked s a ra st e s'' := by
  refine ⟨h'.ctx.trans h.ctx, h'.replyTo.trans h.replyTo, by rw [h'.queue, h.queue], ?_, ?_⟩
  · rcases h'.state a with e' | ⟨hr, -⟩
    · rw [e', h.waits]
    · rw [h.waits] at hr
      exact absurd hr hst
  · intro t ht
    rcases h'.state t with e' | ⟨hr, hr'⟩
    · rw [e']
      exact h.state t ht
    · rcases h.state t ht with e₀ | ⟨hr₀, -⟩
      · exact .inr ⟨e₀ ▸ hr, hr'⟩
      · exact .inr ⟨hr₀, hr'⟩

/-- The task comes to wait, on an endpoint without other tasks. -/
lemma of_blockOn (h : Ticked s s') (hok : s'.Ok live eps) (hcur : s'.current = a)
    (hq : s.queue e = []) : Parked s a ra st e ((s'.save ra).blockOn st e).1 := by
  obtain ⟨hctx, hreply, hqueue, hstate⟩ := blockAndSwitch_frame
    (((s'.save ra).setState (s'.save ra).current st).pushQueue e (s'.save ra).current)
  have hnot : s'.current ∉ s'.ready := hok.current_not_mem.1
  refine ⟨hctx.trans ?_, hreply.trans h.replyTo, ?_, ?_, fun t ht => ?_⟩
  · change Function.update s'.ctx s'.current ra = _
    rw [hcur, h.ctx]
  · rw [show ((s'.save ra).blockOn st e).1.queue = _ from hqueue]
    change Function.update s'.queue e (s'.queue e ++ [s'.current]) e = _
    rw [Function.update_self, h.queue, hq, hcur]
    rfl
  · rcases hstate a with e' | ⟨hm, -⟩
    · refine e'.trans ?_
      change Function.update s'.state s'.current st a = st
      rw [hcur, Function.update_self]
    · exact absurd (show s'.current ∈ s'.ready from hcur.symm ▸ hm) hnot
  · have hold : Function.update s'.state s'.current st t = s'.state t :=
      Function.update_of_ne (hcur.symm ▸ ht) _ _
    rcases hstate t with e' | ⟨hm, hr⟩
    · have e'' : ((s'.save ra).blockOn st e).1.state t = s'.state t := e'.trans hold
      rw [e'']
      exact h.state t
    · -- the next task was ready
      have hr' : ((s'.save ra).blockOn st e).1.state t = .running := hr
      have hready : s'.state t = .ready := hok.inv.placed.ready_state hm
      right
      rw [hr']
      refine ⟨?_, .inr rfl⟩
      rcases h.state t with e'' | ⟨hrun, -⟩
      · rw [← e'', hready]
        exact .inl rfl
      · exact hrun

/-- A task that can run still can. -/
lemma runnable (h : Parked s a ra st e s') (hne : t ≠ a) (ht : (s.state t).Runnable) :
    (s'.state t).Runnable := by
  rcases h.state t hne with e' | ⟨-, hr⟩
  · exact e' ▸ ht
  · exact hr

end Parked

/-- A blocking call that leaves the running task waiting gives way if another task can run. -/
lemma Ok.blockOn_true (h : s.Ok live eps) (hb : b ∈ live) (hne : b ≠ s.current)
    (hrun : (s.state b).Runnable) : (s.blockOn st e).2 = true := by
  have hready : b ∈ s.ready := by
    rcases hrun with hr | hr
    · exact h.inv.placed.mem_ready hb (notMem_empty b) hr
    · exact absurd (h.inv.placed.running_eq hb hr) hne
  obtain ⟨u, l, hl⟩ := List.exists_cons_of_ne_nil (List.ne_nil_of_mem hready)
  have hsame : ((s.setState s.current st).pushQueue e s.current).ready = u :: l := hl
  unfold Sys.blockOn Sys.blockAndSwitch
  rw [hsame]

/-! ### The second of the two -/

/-- A send of `a` and a receive of `b` on `e` have met. -/
structure SendDone (s : Sys) (a b e : ℕ) (ra rb : Context) (s' : Sys) : Prop where
  ctx : ∀ t, s'.ctx t = if t = b then deliver ra rb else if t = a then ra.setX 0 0 else s.ctx t
  replyTo : s'.replyTo = s.replyTo
  queue : s'.queue e = []
  sender : (s'.state a).Runnable
  receiver : (s'.state b).Runnable

/-- A call of `a` and a receive of `b` on `e` have met. -/
structure CallDone (s : Sys) (a b e : ℕ) (ra rb : Context) (s' : Sys) : Prop where
  ctx : ∀ t, s'.ctx t = if t = b then deliver ra rb else if t = a then ra else
    if s.replyTo b ≠ 0 ∧ t = s.replyTo b then (s.ctx t).setX 0 (Abi.asU64 Abi.Err.noReply)
    else s.ctx t
  replyTo : s'.replyTo = Function.update s.replyTo b a
  queue : s'.queue e = []
  caller : s'.state a = .blockedReply
  receiver : (s'.state b).Runnable
  dropped : s.replyTo b ≠ 0 → (s'.state (s.replyTo b)).Runnable

namespace Parked

/-- The receiver comes second and finds the sender. -/
lemma recv_send (h : Parked s a ra .blockedSend e s') (hok : s'.Ok live eps)
    (hcur : s'.current = b) (hne : a ≠ b) (nonblock : Bool) :
    ((s'.save rb).recv e nonblock).2 = true ∧
      SendDone s a b e ra rb ((s'.save rb).recv e nonblock).1 := by
  subst hcur
  have hsender : (s'.save rb).sender? e = some a := by
    refine Sys.sender?_eq_some.mpr ⟨⟨[], h.queue⟩, ?_⟩
    change s'.state a ≠ .blockedRecv
    rw [h.waits]
    decide
  have hcall : (s'.save rb).state a ≠ .blockedCall := by
    change s'.state a ≠ .blockedCall
    rw [h.waits]
    decide
  have hrun : s'.state s'.current = .running := hok.running
  have hctxa : (s'.save rb).ctx a = ra := by
    change Function.update s'.ctx s'.current rb a = ra
    rw [Function.update_of_ne hne, h.ctx, Function.update_self]
  have hctxb : (s'.save rb).ctx s'.current = rb := Function.update_self _ _ _
  rw [Sys.recv_of_sender hsender hcall]
  refine ⟨rfl, fun t => ?_, h.replyTo, ?_, ?_, ?_⟩
  · change Function.update (Function.update (Function.update s'.ctx s'.current rb) s'.current
      (deliver ((s'.save rb).ctx a) ((s'.save rb).ctx s'.current))) a
      ((((s'.save rb).takeFrom e a).ctx a).setX 0 0) t = _
    have htake : ((s'.save rb).takeFrom e a).ctx a = ra := by
      refine (Function.update_of_ne hne _ _).trans ?_
      exact hctxa
    rw [hctxa, hctxb, htake]
    by_cases e1 : t = a
    · rw [e1, Function.update_self, if_neg hne, if_pos rfl]
    · rw [Function.update_of_ne e1]
      by_cases e2 : t = s'.current
      · rw [e2, Function.update_self, if_pos rfl]
      · rw [Function.update_of_ne e2, Function.update_of_ne e2, if_neg e2, if_neg e1, h.ctx,
          Function.update_of_ne e1]
  · change Function.update s'.queue e (s'.queue e).tail e = []
    rw [Function.update_self, h.queue]
    rfl
  · exact .inl (Function.update_self _ _ _)
  · refine .inr ?_
    change Function.update s'.state a .ready s'.current = .running
    rw [Function.update_of_ne hne.symm, hrun]

/-- The sender comes second and finds the receiver. -/
lemma send (h : Parked s b rb .blockedRecv e s') (hok : s'.Ok live eps)
    (hcur : s'.current = a) (hne : a ≠ b) (nonblock : Bool) :
    ((s'.save ra).send e nonblock).2 = true ∧
      SendDone s a b e ra rb ((s'.save ra).send e nonblock).1 := by
  subst hcur
  have hrecv : (s'.save ra).receiver? e = some b :=
    Sys.receiver?_eq_some.mpr ⟨⟨[], h.queue⟩, h.waits⟩
  have hrun : s'.state s'.current = .running := hok.running
  have hctxb : (s'.save ra).ctx b = rb := by
    change Function.update s'.ctx s'.current ra b = rb
    rw [Function.update_of_ne hne.symm, h.ctx, Function.update_self]
  have hctxa : (s'.save ra).ctx s'.current = ra := Function.update_self _ _ _
  rw [Sys.send_of_receiver hrecv]
  refine ⟨rfl, fun t => ?_, h.replyTo, ?_, ?_, ?_⟩
  · change Function.update (Function.update (Function.update s'.ctx s'.current ra) b
      (deliver ((s'.save ra).ctx s'.current) ((s'.save ra).ctx b))) s'.current
      (((((s'.save ra).giveTo e b).enqueue b).ctx s'.current).setX 0 0) t = _
    have hgive : (((s'.save ra).giveTo e b).enqueue b).ctx s'.current = ra :=
      (Function.update_of_ne hne _ _).trans hctxa
    rw [hctxa, hctxb, hgive]
    by_cases e1 : t = s'.current
    · rw [e1, Function.update_self, if_neg hne, if_pos rfl]
    · rw [Function.update_of_ne e1]
      by_cases e2 : t = b
      · rw [e2, Function.update_self, if_pos rfl]
      · rw [Function.update_of_ne e2, Function.update_of_ne e1, if_neg e2, if_neg e1, h.ctx,
          Function.update_of_ne e2]
  · change Function.update s'.queue e (s'.queue e).tail e = []
    rw [Function.update_self, h.queue]
    rfl
  · refine .inr ?_
    change Function.update s'.state b .ready s'.current = .running
    rw [Function.update_of_ne hne, hrun]
  · exact .inl (Function.update_self _ _ _)

/-- The task that waits for the answer of `b` waits neither for itself nor for `a`. -/
lemma dropped_ne (hok : s.Ok live eps) (hb : b ∈ live) (hra : (s.state a).Runnable)
    (hrb : (s.state b).Runnable) (h0 : s.replyTo b ≠ 0) :
    s.replyTo b ≠ a ∧ s.replyTo b ≠ b := by
  have hw : s.state (s.replyTo b) = .blockedReply := hok.inv.rights.waiting hb h0
  have hnot : ¬ TaskState.Runnable .blockedReply := by
    rintro (h | h) <;> cases h
  refine ⟨fun he => hnot ?_, fun he => hnot ?_⟩
  · rw [← hw, he]
    exact hra
  · rw [← hw, he]
    exact hrb

/-- The receiver comes second and finds the caller. -/
lemma recv_call (h : Parked s a ra .blockedCall e s') (hok : s'.Ok live eps)
    (hcur : s'.current = b) (hne : a ≠ b)
    (hdrop : s.replyTo b ≠ 0 → s.replyTo b ≠ a ∧ s.replyTo b ≠ b) (nonblock : Bool) :
    ((s'.save rb).recv e nonblock).2 = true ∧
      CallDone s a b e ra rb ((s'.save rb).recv e nonblock).1 := by
  subst hcur
  have hsender : (s'.save rb).sender? e = some a := by
    refine Sys.sender?_eq_some.mpr ⟨⟨[], h.queue⟩, ?_⟩
    change s'.state a ≠ .blockedRecv
    rw [h.waits]
    decide
  have hrun : s'.state s'.current = .running := hok.running
  have hctxa : (s'.save rb).ctx a = ra := by
    change Function.update s'.ctx s'.current rb a = ra
    rw [Function.update_of_ne hne, h.ctx, Function.update_self]
  have hctxb : (s'.save rb).ctx s'.current = rb := Function.update_self _ _ _
  have hright : ((s'.save rb).takeFrom e a).replyTo s'.current = s.replyTo s'.current :=
    congrFun h.replyTo s'.current
  have htake : ∀ t, ((s'.save rb).takeFrom e a).ctx t =
      if t = s'.current then deliver ra rb else if t = a then ra else s.ctx t := by
    intro t
    change Function.update (Function.update s'.ctx s'.current rb) s'.current
      (deliver ((s'.save rb).ctx a) ((s'.save rb).ctx s'.current)) t = _
    rw [hctxa, hctxb]
    by_cases e2 : t = s'.current
    · rw [e2, Function.update_self, if_pos rfl]
    · rw [Function.update_of_ne e2, Function.update_of_ne e2, if_neg e2, h.ctx]
      by_cases e1 : t = a
      · rw [e1, Function.update_self, if_pos rfl]
      · rw [Function.update_of_ne e1, if_neg e1]
  obtain ⟨hctx, hstate, -⟩ := abortReply_spec ((s'.save rb).takeFrom e a) s'.current
  obtain ⟨hqueue, -, hreply, -⟩ := ((s'.save rb).takeFrom e a).abortReply_frame s'.current
  rw [hright] at hctx hstate
  rw [Sys.recv_of_caller hsender h.waits]
  refine ⟨rfl, fun t => ?_, ?_, ?_, ?_, ?_, fun h0 => ?_⟩
  · refine (hctx t).trans ?_
    rw [htake]
    by_cases e2 : t = s'.current
    · rw [if_pos e2, if_neg, if_pos e2]
      rintro ⟨h0, he⟩
      exact (hdrop h0).2 (he.symm.trans e2)
    · rw [if_neg e2, if_neg e2]
      by_cases e1 : t = a
      · rw [if_pos e1, if_pos e1, if_neg]
        rintro ⟨h0, he⟩
        exact (hdrop h0).1 (he.symm.trans e1)
      · rw [if_neg e1, if_neg e1]
  · change Function.update ((s'.save rb).takeFrom e a |>.abortReply s'.current).replyTo
      s'.current a = _
    rw [hreply, Function.update_idem]
    exact congrArg (fun r => Function.update r s'.current a) h.replyTo
  · change (((s'.save rb).takeFrom e a).abortReply s'.current).queue e = []
    rw [hqueue]
    change Function.update s'.queue e (s'.queue e).tail e = []
    rw [Function.update_self, h.queue]
    rfl
  · exact Function.update_self _ _ _
  · refine .inr ?_
    change Function.update (((s'.save rb).takeFrom e a).abortReply s'.current).state a
      .blockedReply s'.current = .running
    rw [Function.update_of_ne hne.symm, hstate, if_neg]
    · exact hrun
    · rintro ⟨h0, he⟩
      exact (hdrop h0).2 he.symm
  · refine .inl ?_
    change Function.update (((s'.save rb).takeFrom e a).abortReply s'.current).state a
      .blockedReply (s.replyTo s'.current) = .ready
    rw [Function.update_of_ne (hdrop h0).1, hstate, if_pos ⟨h0, rfl⟩]

/-- The caller comes second and finds the receiver. -/
lemma call (h : Parked s b rb .blockedRecv e s') (hok : s'.Ok live eps)
    (hcur : s'.current = a) (hne : a ≠ b)
    (hdrop : s.replyTo b ≠ 0 → s.replyTo b ≠ a ∧ s.replyTo b ≠ b) (nonblock : Bool) :
    ((s'.save ra).call e nonblock).2 = true ∧
      CallDone s a b e ra rb ((s'.save ra).call e nonblock).1 := by
  subst hcur
  have hrecv : (s'.save ra).receiver? e = some b :=
    Sys.receiver?_eq_some.mpr ⟨⟨[], h.queue⟩, h.waits⟩
  have hctxb : (s'.save ra).ctx b = rb := by
    change Function.update s'.ctx s'.current ra b = rb
    rw [Function.update_of_ne hne.symm, h.ctx, Function.update_self]
  have hctxa : (s'.save ra).ctx s'.current = ra := Function.update_self _ _ _
  have hright : ((s'.save ra).giveTo e b).replyTo b = s.replyTo b := congrFun h.replyTo b
  have hgive : ∀ t, ((s'.save ra).giveTo e b).ctx t =
      if t = b then deliver ra rb else if t = s'.current then ra else s.ctx t := by
    intro t
    change Function.update (Function.update s'.ctx s'.current ra) b
      (deliver ((s'.save ra).ctx s'.current) ((s'.save ra).ctx b)) t = _
    rw [hctxa, hctxb]
    by_cases e2 : t = b
    · rw [e2, Function.update_self, if_pos rfl]
    · rw [Function.update_of_ne e2, if_neg e2]
      by_cases e1 : t = s'.current
      · rw [e1, Function.update_self, if_pos rfl]
      · rw [Function.update_of_ne e1, if_neg e1, h.ctx, Function.update_of_ne e2]
  obtain ⟨hctx, hstate, hready⟩ := abortReply_spec ((s'.save ra).giveTo e b) b
  obtain ⟨hqueue, -, hreply, -⟩ := ((s'.save ra).giveTo e b).abortReply_frame b
  rw [hright] at hctx hstate hready
  rw [Sys.call_of_receiver hrecv]
  -- the state before the scheduler is asked
  generalize hs₁ : ((((((s'.save ra).giveTo e b).abortReply b).setReplyTo b
    (s'.save ra).current).setState (s'.save ra).current .blockedReply).enqueue b) = s₁
  have hctx₁ : s₁.ctx = (((s'.save ra).giveTo e b).abortReply b).ctx := by rw [← hs₁]; rfl
  have hreply₁ : s₁.replyTo = Function.update (((s'.save ra).giveTo e b).abortReply b).replyTo b
      s'.current := by rw [← hs₁]; rfl
  have hqueue₁ : s₁.queue = (((s'.save ra).giveTo e b).abortReply b).queue := by rw [← hs₁]; rfl
  have hstate₁ : s₁.state = Function.update (Function.update
      (((s'.save ra).giveTo e b).abortReply b).state s'.current .blockedReply) b .ready := by
    rw [← hs₁]; rfl
  have hready₁ : s₁.ready = (((s'.save ra).giveTo e b).abortReply b).ready ++ [b] := by
    rw [← hs₁]; rfl
  have hmem : b ∈ s₁.ready := by rw [hready₁]; simp
  have hnot : s'.current ∉ s₁.ready := by
    rw [hready₁]
    intro hm
    rcases List.mem_append.mp hm with hm | hm
    · rcases hready _ hm with hm | ⟨h0, he⟩
      · exact hok.current_not_mem.1 hm
      · exact (hdrop h0).1 he.symm
    · exact hne (List.mem_singleton.mp hm)
  obtain ⟨fctx, freply, fqueue, fstate⟩ := blockAndSwitch_frame s₁
  refine ⟨?_, fun t => ?_, ?_, ?_, ?_, ?_, fun h0 => ?_⟩
  · unfold Sys.blockAndSwitch
    cases hl : s₁.ready with
    | nil =>
      rw [hl] at hmem
      cases hmem
    | cons u l => rfl
  · rw [fctx, hctx₁, hctx, hgive]
    by_cases e2 : t = b
    · rw [if_pos e2, if_neg, if_pos e2]
      rintro ⟨h0, he⟩
      exact (hdrop h0).2 (he.symm.trans e2)
    · rw [if_neg e2, if_neg e2]
      by_cases e1 : t = s'.current
      · rw [if_pos e1, if_pos e1, if_neg]
        rintro ⟨h0, he⟩
        exact (hdrop h0).1 (he.symm.trans e1)
      · rw [if_neg e1, if_neg e1]
  · rw [freply, hreply₁, hreply, Function.update_idem]
    exact congrArg (fun r => Function.update r b s'.current) h.replyTo
  · rw [fqueue, hqueue₁, hqueue]
    change Function.update s'.queue e (s'.queue e).tail e = []
    rw [Function.update_self, h.queue]
    rfl
  · rcases fstate s'.current with e' | ⟨hm, -⟩
    · rw [e', hstate₁, Function.update_of_ne hne, Function.update_self]
    · exact absurd hm hnot
  · rcases fstate b with e' | ⟨-, hr⟩
    · rw [e', hstate₁, Function.update_self]
      exact .inl rfl
    · exact .inr hr
  · rcases fstate (s.replyTo b) with e' | ⟨-, hr⟩
    · rw [e', hstate₁, Function.update_of_ne (hdrop h0).2, Function.update_of_ne (hdrop h0).1,
        hstate, if_pos ⟨h0, rfl⟩]
      exact .inl rfl
    · exact .inr hr

end Parked

end Sys

end K0
