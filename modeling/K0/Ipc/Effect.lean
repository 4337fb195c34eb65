import K0.Ipc.World

set_option relaxedAutoImplicit false
set_option autoImplicit false

/-!
# What an IPC call does to the tasks that wait

A call on an endpoint has one of four outcomes. It is refused, or the running task waits, or its
message goes to a receiver that waits, or it takes the message of a sender that waits. Each outcome
is described by a structure: what happens to the running task, to the other side, to the task whose
reply right is lost, and that all other waiting tasks keep their state and their registers. The
answer with which `REPLY_RECV` begins is described in the same way.

## Main definitions

* `K0.Sys.Still`: the waiting tasks outside a set are left alone.
* `K0.Sys.Refused`, `K0.Sys.Waited`, `K0.Sys.Given`, `K0.Sys.Taken`: the four outcomes.
* `K0.Sys.Answered`: the answer to the pending caller.
* `K0.Sys.Ran`: the outcome of a call, whatever it is.

## Main results

* `K0.Sys.Ok.ran`: every call has one of the outcomes.
* `K0.World.Step.quiet`: a step that is no call touches no waiting task but the caller of a task
  that ends.
-/

namespace K0

open Set

/-- The states of a task that can run. -/
def TaskState.Runnable (st : TaskState) : Prop := st = .ready ∨ st = .running

/-- The states of a task that waits for another one. -/
def TaskState.Waiting (st : TaskState) : Prop := st.Queued ∨ st = .blockedReply

instance (st : TaskState) : Decidable st.Waiting := inferInstanceAs (Decidable (_ ∨ _))

/-- A task does not wait and run. -/
lemma TaskState.Runnable.not_waiting {st : TaskState} (h : st.Runnable) : ¬ st.Waiting := by
  rcases h with rfl | rfl <;> decide

/-- The state in which a task waits for the other side of a call on an endpoint. -/
def IpcOp.waiting : IpcOp → TaskState
  | .send => .blockedSend
  | .recv => .blockedRecv
  | .call => .blockedCall
  | .replyRecv => .blockedRecv

namespace Sys

variable {live eps T : Set ℕ} {s s' s'' : Sys} {e t u : ℕ}

/-! ### Elementary operations -/

/-- Running the next task changes no registers, rights and queues, and only the state of that
task. -/
lemma blockAndSwitch_frame (s : Sys) : s.blockAndSwitch.1.ctx = s.ctx ∧
    s.blockAndSwitch.1.replyTo = s.replyTo ∧ s.blockAndSwitch.1.queue = s.queue ∧
    ∀ t, s.blockAndSwitch.1.state t = s.state t ∨
      (t ∈ s.ready ∧ s.blockAndSwitch.1.state t = .running) := by
  unfold Sys.blockAndSwitch
  cases hl : s.ready with
  | nil => exact ⟨rfl, rfl, rfl, fun t => .inl rfl⟩
  | cons u l =>
    refine ⟨rfl, rfl, rfl, fun t => ?_⟩
    change Function.update s.state u .running t = _ ∨
      _ ∧ Function.update s.state u .running t = _
    by_cases e : t = u
    · rw [e, Function.update_self]
      exact .inr ⟨List.mem_cons_self, rfl⟩
    · rw [Function.update_of_ne e]
      exact .inl rfl

/-- What revoking a right does to the registers, the states and the ready list. -/
lemma abortReply_spec (s : Sys) (u : ℕ) :
    (∀ t, (s.abortReply u).ctx t = if s.replyTo u ≠ 0 ∧ t = s.replyTo u then
      (s.ctx t).setX 0 (Abi.asU64 Abi.Err.noReply) else s.ctx t) ∧
    (∀ t, (s.abortReply u).state t =
      if s.replyTo u ≠ 0 ∧ t = s.replyTo u then .ready else s.state t) ∧
    ∀ t ∈ (s.abortReply u).ready, t ∈ s.ready ∨ (s.replyTo u ≠ 0 ∧ t = s.replyTo u) := by
  unfold Sys.abortReply
  by_cases h0 : s.replyTo u = 0
  · simp only [h0, ↓reduceIte, ne_eq, not_true_eq_false, false_and]
    exact ⟨fun _ => rfl, fun _ => rfl, fun t ht => .inl ht⟩
  · simp only [h0, ↓reduceIte, ne_eq, not_false_eq_true, true_and]
    refine ⟨fun t => ?_, fun t => ?_, fun t ht => ?_⟩
    · change Function.update s.ctx (s.replyTo u)
        ((s.ctx (s.replyTo u)).setX 0 (Abi.asU64 Abi.Err.noReply)) t = _
      by_cases e : t = s.replyTo u
      · rw [e, Function.update_self, if_pos rfl]
      · rw [Function.update_of_ne e, if_neg e]
    · change Function.update s.state (s.replyTo u) .ready t = _
      by_cases e : t = s.replyTo u
      · rw [e, Function.update_self, if_pos rfl]
      · rw [Function.update_of_ne e, if_neg e]
    · rcases List.mem_append.mp ht with ht | ht
      · exact .inl ht
      · exact .inr (List.mem_singleton.mp ht)

/-- The running task does not wait. -/
lemma Ok.current_not_waiting (h : s.Ok live eps) : ¬ (s.state s.current).Waiting := by
  rw [h.running]
  decide

/-- A ready task does not wait. -/
lemma Ok.ready_not_waiting (h : s.Ok live eps) (ht : t ∈ s.ready) : ¬ (s.state t).Waiting := by
  rw [h.inv.placed.ready_state ht]
  decide

/-! ### Tasks that are left alone -/

/-- Besides the running task and those of `T`, the tasks that wait in `s` have the same state and
registers in `s'`, and those that can run still can and have the same registers. -/
def Still (live T : Set ℕ) (s s' : Sys) : Prop :=
  ∀ t ∈ live, t ∉ T → t ≠ s.current →
    ((s.state t).Waiting → s'.state t = s.state t ∧ s'.ctx t = s.ctx t) ∧
    ((s.state t).Runnable → (s'.state t).Runnable ∧ s'.ctx t = s.ctx t)

/-- A task that `Still` says nothing about. -/
def Loose (T : Set ℕ) (s : Sys) (u : ℕ) : Prop :=
  u ∈ T ∨ u = s.current ∨ ¬ (s.state u).Waiting ∧ ¬ (s.state u).Runnable

namespace Still

/-- Nothing happens. -/
lemma refl (live T : Set ℕ) (s : Sys) : Still live T s s :=
  fun _ _ _ _ => ⟨fun _ => ⟨rfl, rfl⟩, fun h => ⟨h, rfl⟩⟩

/-- Only states and registers matter. -/
lemma of_eq (h : Still live T s s') (hst : s''.state = s'.state) (hctx : s''.ctx = s'.ctx) :
    Still live T s s'' := by
  intro t ht hT hc
  rw [hst, hctx]
  exact h t ht hT hc

/-- Taking a task off a queue. -/
lemma popQueue (h : Still live T s s') (e : ℕ) : Still live T s (s'.popQueue e) := h.of_eq rfl rfl

/-- Writing a reply right. -/
lemma setReplyTo (h : Still live T s s') (u c : ℕ) : Still live T s (s'.setReplyTo u c) :=
  h.of_eq rfl rfl

/-- A change of one task that nothing is said about. -/
lemma of_ne (h : Still live T s s') (hu : Loose T s u)
    (hother : ∀ t, t ≠ u → s''.state t = s'.state t ∧ s''.ctx t = s'.ctx t) :
    Still live T s s'' := by
  intro t ht hT hc
  by_cases hne : t = u
  · subst hne
    rcases hu with hu | hu | ⟨hw, hr⟩
    · exact absurd hu hT
    · exact absurd hu hc
    · exact ⟨fun h => absurd h hw, fun h => absurd h hr⟩
  · rw [(hother t hne).1, (hother t hne).2]
    exact h t ht hT hc

/-- Writing the registers of one task. -/
lemma setCtx (h : Still live T s s') (hu : Loose T s u) (c : Context) :
    Still live T s (s'.setCtx u c) :=
  h.of_ne hu fun _ hne => ⟨rfl, Function.update_of_ne hne _ _⟩

/-- Writing the state of one task. -/
lemma setState (h : Still live T s s') (hu : Loose T s u) (st : TaskState) :
    Still live T s (s'.setState u st) :=
  h.of_ne hu fun _ hne => ⟨Function.update_of_ne hne _ _, rfl⟩

/-- Making a task ready. -/
lemma enqueue (h : Still live T s s') (hu : Loose T s u) : Still live T s (s'.enqueue u) :=
  (h.setState hu .ready).of_eq rfl rfl

/-- Revoking a right that leads to a task of `T`. -/
lemma abortReply (h : Still live T s s') (hu : s'.replyTo u ≠ 0 → s'.replyTo u ∈ T) :
    Still live T s (s'.abortReply u) := by
  obtain ⟨hctx, hst, -⟩ := abortReply_spec s' u
  intro t ht hT hc
  have hne : ¬ (s'.replyTo u ≠ 0 ∧ t = s'.replyTo u) := by
    rintro ⟨h0, rfl⟩
    exact hT (hu h0)
  rw [hst, hctx, if_neg hne, if_neg hne]
  exact h t ht hT hc

/-- Running the next task. -/
lemma blockAndSwitch (h : Still live T s s')
    (hr : ∀ t ∈ s'.ready, t ∈ T ∨ ¬ (s.state t).Waiting) :
    Still live T s s'.blockAndSwitch.1 := by
  obtain ⟨hctx, -, -, hst⟩ := blockAndSwitch_frame s'
  intro t ht hT hc
  obtain ⟨hwait, hrun⟩ := h t ht hT hc
  rw [hctx]
  rcases hst t with hst | ⟨hm, hst⟩
  · rw [hst]
    exact ⟨hwait, hrun⟩
  · refine ⟨fun hw => absurd hw ((hr t hm).resolve_left hT), fun h => ⟨?_, (hrun h).2⟩⟩
    exact .inr hst

/-- One thing after the other, with the same running task. -/
lemma trans (h : Still live T s s') (h' : Still live T s' s'') (hcur : s'.current = s.current) :
    Still live T s s'' := by
  intro t ht hT hc
  obtain ⟨hwait, hrun⟩ := h t ht hT hc
  obtain ⟨hwait', hrun'⟩ := h' t ht hT (hcur ▸ hc)
  constructor
  · intro hw
    obtain ⟨hst, hctx⟩ := hwait hw
    obtain ⟨hst', hctx'⟩ := hwait' (hst.symm ▸ hw)
    exact ⟨hst'.trans hst, hctx'.trans hctx⟩
  · intro hr
    obtain ⟨hst, hctx⟩ := hrun hr
    obtain ⟨hst', hctx'⟩ := hrun' hst
    exact ⟨hst', hctx'.trans hctx⟩

/-- A larger set of exceptions. -/
lemma mono {T' : Set ℕ} (h : Still live T s s') (hT : T ⊆ T') : Still live T' s s' :=
  fun t ht hn => h t ht fun hm => hn (hT hm)

/-- A waiting task is left alone. -/
lemma waiting (h : Still live T s s') (hok : s.Ok live eps) (ht : t ∈ live) (hT : t ∉ T)
    (hw : (s.state t).Waiting) : s'.state t = s.state t ∧ s'.ctx t = s.ctx t := by
  refine (h t ht hT ?_).1 hw
  rintro rfl
  exact hok.current_not_waiting hw

end Still

/-! ### Outcomes -/

/-- The call is refused, since nobody is there and it must not wait. -/
structure Refused (s s' : Sys) : Prop where
  queue : s'.queue = s.queue
  replyTo : s'.replyTo = s.replyTo
  state : s'.state = s.state
  ctx : s'.ctx = Function.update s.ctx s.current
    ((s.ctx s.current).setX 0 (Abi.asU64 Abi.Err.wouldBlock))

/-- The running task waits at the end of the queue of `e`. -/
structure Waited (live : Set ℕ) (s : Sys) (st : TaskState) (e : ℕ) (s' : Sys) : Prop where
  queue : s'.queue = Function.update s.queue e (s.queue e ++ [s.current])
  replyTo : s'.replyTo = s.replyTo
  state : s'.state s.current = st
  ctx : s'.ctx = s.ctx
  still : Still live ∅ s s'

/-- The task `c` is told that no answer will come. -/
def Dropped (s : Sys) (c : ℕ) (s' : Sys) : Prop :=
  (s'.state c).Runnable ∧ s'.ctx c = (s.ctx c).setX 0 (Abi.asU64 Abi.Err.noReply)

/-- The message of the running task goes to `r`, which has waited on `e`. After a call, the running
task waits for the answer of `r`, and the right that `r` held is lost. -/
structure Given (live : Set ℕ) (s : Sys) (call : Prop) (e r : ℕ) (s' : Sys) : Prop where
  queue : ∃ rest, s.queue e = r :: rest ∧ s'.queue = Function.update s.queue e rest
  receiver : s.state r = .blockedRecv
  woken : (s'.state r).Runnable
  received : s'.ctx r = deliver (s.ctx s.current) (s.ctx r)
  sent : ¬ call → (s'.state s.current).Runnable ∧ s'.ctx s.current = (s.ctx s.current).setX 0 0 ∧
    s'.replyTo = s.replyTo
  called : call → s'.state s.current = .blockedReply ∧ s'.ctx s.current = s.ctx s.current ∧
    s'.replyTo = Function.update s.replyTo r s.current
  dropped : call → s.replyTo r ≠ 0 → s.Dropped (s.replyTo r) s'
  still : Still live {t | t = r ∨ call ∧ s.replyTo r ≠ 0 ∧ t = s.replyTo r} s s'

/-- The running task takes the message of `t`, which has waited on `e`. If `t` has called, it waits
for the answer of the running task, and the right that this one held is lost. -/
structure Taken (live : Set ℕ) (s : Sys) (e t : ℕ) (s' : Sys) : Prop where
  queue : ∃ rest, s.queue e = t :: rest ∧ s'.queue = Function.update s.queue e rest
  sender : s.state t = .blockedSend ∨ s.state t = .blockedCall
  receiver : (s'.state s.current).Runnable
  received : s'.ctx s.current = deliver (s.ctx t) (s.ctx s.current)
  sent : s.state t = .blockedSend → (s'.state t).Runnable ∧ s'.ctx t = (s.ctx t).setX 0 0 ∧
    s'.replyTo = s.replyTo
  called : s.state t = .blockedCall → s'.state t = .blockedReply ∧ s'.ctx t = s.ctx t ∧
    s'.replyTo = Function.update s.replyTo s.current t
  dropped : s.state t = .blockedCall → s.replyTo s.current ≠ 0 →
    s.Dropped (s.replyTo s.current) s'
  other : ∀ u, u ≠ s.current → u ≠ t →
    ¬ (s.state t = .blockedCall ∧ s.replyTo s.current ≠ 0 ∧ u = s.replyTo s.current) →
    s'.ctx u = s.ctx u
  still : Still live {u | u = t ∨ s.state t = .blockedCall ∧ s.replyTo s.current ≠ 0 ∧
    u = s.replyTo s.current} s s'

/-- The pending caller of the running task, if there is one, gets its message as the answer. -/
structure Answered (live : Set ℕ) (s s' : Sys) : Prop where
  queue : s'.queue = s.queue
  current : s'.current = s.current
  state : s'.state s.current = s.state s.current
  ctx : s'.ctx s.current = s.ctx s.current
  replyTo : s'.replyTo = Function.update s.replyTo s.current 0
  answer : s.replyTo s.current ≠ 0 → (s'.state (s.replyTo s.current)).Runnable ∧
    s'.ctx (s.replyTo s.current) = deliver (s.ctx s.current) (s.ctx (s.replyTo s.current))
  other : ∀ u, ¬ (s.replyTo s.current ≠ 0 ∧ u = s.replyTo s.current) → s'.ctx u = s.ctx u
  still : Still live {t | s.replyTo s.current ≠ 0 ∧ t = s.replyTo s.current} s s'

/-- The outcome of a call on `e`. -/
inductive Ran (live : Set ℕ) (s : Sys) (op : IpcOp) (e : ℕ) (nonblock : Bool) (s' : Sys) : Prop
  | refused (hn : nonblock = true) (h : Refused s s')
  | waited (hn : nonblock = false) (h : Waited live s op.waiting e s')
  | given (hop : op = .send ∨ op = .call) (r : ℕ) (h : Given live s (op = .call) e r s')
  | taken (hop : op = .recv ∨ op = .replyRecv) (t : ℕ) (h : Taken live s e t s')

/-- The state in which a call begins its rendezvous: `REPLY_RECV` has answered before. -/
def begun (s : Sys) : IpcOp → Sys
  | .replyRecv => s.reply
  | _ => s

/-! ### The operations -/

section Ops

variable (h : s.Ok live eps)
include h

/-- A call that finds nobody. -/
lemma Ok.ran_alone {op : IpcOp} {nonblock : Bool}
    (hs : s'  = (if nonblock then (s.ret (Abi.asU64 Abi.Err.wouldBlock), true)
      else s.blockOn op.waiting e).1) : Ran live s op e nonblock s' := by
  subst hs
  cases nonblock with
  | true => exact .refused rfl ⟨rfl, rfl, rfl, rfl⟩
  | false =>
    obtain ⟨hctx, hreply, hqueue, hstate⟩ :=
      blockAndSwitch_frame ((s.setState s.current op.waiting).pushQueue e s.current)
    refine .waited rfl ⟨hqueue, hreply, ?_, hctx, ?_⟩
    · rcases hstate s.current with hst | ⟨hm, -⟩
      · exact hst.trans (Function.update_self _ _ _)
      · exact absurd hm h.current_not_mem.1
    · refine Still.blockAndSwitch (((Still.refl live ∅ s).setState
        (.inr (.inl rfl)) op.waiting).of_eq rfl rfl) fun t ht => ?_
      exact .inr (h.ready_not_waiting ht)

/-- A send. -/
lemma Ok.ran_send (e : ℕ) (nonblock : Bool) :
    Ran live s .send e nonblock (s.send e nonblock).1 := by
  cases hr : s.receiver? e with
  | none =>
    rw [send_of_none hr]
    exact h.ran_alone rfl
  | some r =>
    obtain ⟨⟨rest, hl⟩, hst⟩ := receiver?_eq_some.mp hr
    have hmem : r ∈ s.queue e := by rw [hl]; exact List.mem_cons_self
    have hne : s.current ≠ r := (ne_of_mem_of_not_mem hmem (h.current_not_mem.2 e)).symm
    rw [send_of_receiver hr]
    refine .given (.inl rfl) r
      ⟨⟨rest, hl, ?_⟩, hst, ?_, ?_, fun _ => ⟨?_, ?_, rfl⟩, nofun, nofun, ?_⟩
    · change Function.update s.queue e (s.queue e).tail = _
      rw [hl]
      rfl
    · exact .inl (Function.update_self _ _ _)
    · change Function.update (Function.update s.ctx r (deliver (s.ctx s.current) (s.ctx r)))
        s.current _ r = _
      rw [Function.update_of_ne hne.symm, Function.update_self]
    · refine .inr ?_
      change Function.update s.state r .ready s.current = .running
      rw [Function.update_of_ne hne, h.running]
    · change Function.update (Function.update s.ctx r (deliver (s.ctx s.current) (s.ctx r)))
        s.current
        ((Function.update s.ctx r (deliver (s.ctx s.current) (s.ctx r)) s.current).setX 0 0)
          s.current = _
      rw [Function.update_self, Function.update_of_ne hne]
    · have hT : r ∈ {t | t = r ∨ (IpcOp.send = .call) ∧ s.replyTo r ≠ 0 ∧ t = s.replyTo r} :=
        .inl rfl
      exact ((((Still.refl live _ s).popQueue e).setCtx (.inl hT) _).enqueue (.inl hT)).setCtx
        (.inr (.inl rfl)) _

/-- The caller that waits for the answer of a task, seen from one that waits on an endpoint or
runs. -/
lemma Ok.caller_ne (hu : u ∈ live) (h0 : s.replyTo u ≠ 0) (ht : s.state t ≠ .blockedReply) :
    s.replyTo u ≠ t :=
  h.inv.rights.ne_of_not_waiting ht hu h0

/-- A call. -/
lemma Ok.ran_call (e : ℕ) (nonblock : Bool) :
    Ran live s .call e nonblock (s.call e nonblock).1 := by
  cases hr : s.receiver? e with
  | none =>
    rw [call_of_none hr]
    exact h.ran_alone rfl
  | some r =>
    obtain ⟨⟨rest, hl⟩, hst⟩ := receiver?_eq_some.mp hr
    have hmem : r ∈ s.queue e := by rw [hl]; exact List.mem_cons_self
    have hlive : r ∈ live := h.inv.placed.queue_live hmem
    have hne : s.current ≠ r := (ne_of_mem_of_not_mem hmem (h.current_not_mem.2 e)).symm
    have hcr : s.replyTo r ≠ 0 → s.replyTo r ≠ r := fun h0 =>
      h.caller_ne hlive h0 (by rw [hst]; decide)
    have hcc : s.replyTo r ≠ 0 → s.replyTo r ≠ s.current := h.replyTo_ne_current hlive
    obtain ⟨actx, astate, aready⟩ := abortReply_spec (s.giveTo e r) r
    obtain ⟨aqueue, -, areply, -⟩ := (s.giveTo e r).abortReply_frame r
    have hright : (s.giveTo e r).replyTo r = s.replyTo r := rfl
    rw [hright] at actx astate aready
    obtain ⟨fctx, freply, fqueue, fstate⟩ := blockAndSwitch_frame (s.callTo e r)
    have hctx : ∀ t, (s.callTo e r).blockAndSwitch.1.ctx t = if s.replyTo r ≠ 0 ∧ t = s.replyTo r
        then ((s.giveTo e r).ctx t).setX 0 (Abi.asU64 Abi.Err.noReply)
        else (s.giveTo e r).ctx t := by
      intro t
      rw [fctx]
      exact actx t
    have hgive : ∀ t, t ≠ r → (s.giveTo e r).ctx t = s.ctx t := fun t ht =>
      Function.update_of_ne ht _ _
    rw [call_of_receiver hr]
    change Ran live s .call e nonblock (s.callTo e r).blockAndSwitch.1
    -- which tasks are ready before the next one runs
    have hready : ∀ t ∈ (s.callTo e r).ready, (t ∈ s.ready ∨ t = r) ∨
        (s.replyTo r ≠ 0 ∧ t = s.replyTo r) := by
      intro t ht
      have ht' : t ∈ ((s.giveTo e r).abortReply r).ready ++ [r] := ht
      rcases List.mem_append.mp ht' with ht' | ht'
      · rcases aready t ht' with ht' | ht'
        · exact .inl (.inl ht')
        · exact .inr ht'
      · exact .inl (.inr (List.mem_singleton.mp ht'))
    have hstate : ∀ t, t ≠ r → t ≠ s.current → (s.callTo e r).state t =
        if s.replyTo r ≠ 0 ∧ t = s.replyTo r then .ready else s.state t := by
      intro t htr htc
      refine ((Function.update_of_ne htr _ _).trans (Function.update_of_ne htc _ _)).trans ?_
      exact astate t
    refine .given (.inr rfl) r ⟨⟨rest, hl, ?_⟩, hst, ?_, ?_, fun hn => absurd rfl hn,
      fun _ => ⟨?_, ?_, ?_⟩, fun _ h0 => ⟨?_, ?_⟩, ?_⟩
    · rw [fqueue]
      change ((s.giveTo e r).abortReply r).queue = _
      rw [aqueue]
      change Function.update s.queue e (s.queue e).tail = _
      rw [hl]
      rfl
    · rcases fstate r with hs | ⟨-, hs⟩
      · rw [hs]
        exact .inl (Function.update_self _ _ _)
      · exact .inr hs
    · rw [hctx, if_neg fun hc => hcr hc.1 hc.2.symm]
      exact Function.update_self _ _ _
    · rcases fstate s.current with hs | ⟨hm, -⟩
      · rw [hs]
        exact (Function.update_of_ne hne _ _).trans (Function.update_self _ _ _)
      · rcases hready _ hm with (hm | hm) | ⟨h0, hm⟩
        · exact absurd hm h.current_not_mem.1
        · exact absurd hm hne
        · exact absurd hm.symm (hcc h0)
    · rw [hctx, if_neg fun hc => hcc hc.1 hc.2.symm, hgive _ hne]
    · rw [freply]
      change Function.update ((s.giveTo e r).abortReply r).replyTo r s.current = _
      rw [areply, Function.update_idem]
      rfl
    · rcases fstate (s.replyTo r) with hs | ⟨-, hs⟩
      · rw [hs, hstate _ (hcr h0) (hcc h0), if_pos ⟨h0, rfl⟩]
        exact .inl rfl
      · exact .inr hs
    · rw [hctx, if_pos ⟨h0, rfl⟩, hgive _ (hcr h0)]
    · intro t ht hT htc
      have htr : t ≠ r := fun hc => hT (.inl hc)
      have htd : ¬ (s.replyTo r ≠ 0 ∧ t = s.replyTo r) := fun hc => hT (.inr ⟨rfl, hc⟩)
      rw [hctx, if_neg htd, hgive t htr]
      rcases fstate t with hs | ⟨hm, hs⟩
      · rw [hs, hstate t htr htc, if_neg htd]
        exact ⟨fun _ => ⟨rfl, rfl⟩, fun hr => ⟨hr, rfl⟩⟩
      · refine ⟨fun hw => ?_, fun _ => ⟨.inr hs, rfl⟩⟩
        rcases hready t hm with (hm | hm) | hm
        · exact absurd hw (h.ready_not_waiting hm)
        · exact absurd hm htr
        · exact absurd hm htd

/-- A receive. -/
lemma Ok.ran_recv {op : IpcOp} (hop : op = .recv ∨ op = .replyRecv) (e : ℕ) (nonblock : Bool) :
    Ran live s op e nonblock (s.recv e nonblock).1 := by
  have hwait : op.waiting = .blockedRecv := by rcases hop with rfl | rfl <;> rfl
  cases hr : s.sender? e with
  | none =>
    rw [recv_of_none hr, ← hwait]
    exact h.ran_alone rfl
  | some t =>
    obtain ⟨⟨rest, hl⟩, hst⟩ := sender?_eq_some.mp hr
    have hmem : t ∈ s.queue e := by rw [hl]; exact List.mem_cons_self
    have hne : s.current ≠ t := (ne_of_mem_of_not_mem hmem (h.current_not_mem.2 e)).symm
    have hcur := h.inv.placed.current_live
    have hqueued := h.inv.placed.queue_state hmem
    have htail : Function.update s.queue e (s.queue e).tail = Function.update s.queue e rest := by
      rw [hl]
      rfl
    by_cases hc : s.state t = .blockedCall
    · have hdt : s.replyTo s.current ≠ 0 → s.replyTo s.current ≠ t := fun h0 =>
        h.caller_ne hcur h0 (by rw [hc]; decide)
      have hdc : s.replyTo s.current ≠ 0 → s.replyTo s.current ≠ s.current :=
        h.replyTo_ne_current hcur
      obtain ⟨actx, astate, -⟩ := abortReply_spec (s.takeFrom e t) s.current
      obtain ⟨aqueue, -, areply, -⟩ := (s.takeFrom e t).abortReply_frame s.current
      have hright : (s.takeFrom e t).replyTo s.current = s.replyTo s.current := rfl
      rw [hright] at actx astate
      have htake : ∀ u, u ≠ s.current → (s.takeFrom e t).ctx u = s.ctx u := fun u hu =>
        Function.update_of_ne hu _ _
      rw [recv_of_caller hr hc]
      refine .taken hop t ⟨⟨rest, hl, ?_⟩, .inr hc, .inr ?_, ?_, fun hs => ?_,
        fun _ => ⟨?_, ?_, ?_⟩, fun _ h0 => ⟨.inl ?_, ?_⟩, fun u huc _ hd => ?_, ?_⟩
      · change ((s.takeFrom e t).abortReply s.current).queue = _
        rw [aqueue]
        exact htail
      · refine (Function.update_of_ne hne _ _).trans ((astate s.current).trans ?_)
        rw [if_neg fun hd => hdc hd.1 hd.2.symm]
        exact h.running
      · refine (actx s.current).trans ?_
        rw [if_neg fun hd => hdc hd.1 hd.2.symm]
        exact Function.update_self _ _ _
      · rw [hc] at hs
        cases hs
      · exact Function.update_self _ _ _
      · refine (actx t).trans ?_
        rw [if_neg fun hd => hdt hd.1 hd.2.symm, htake t hne.symm]
      · change Function.update ((s.takeFrom e t).abortReply s.current).replyTo s.current t = _
        rw [areply, Function.update_idem]
        rfl
      · refine (Function.update_of_ne (hdt h0) _ _).trans ((astate _).trans ?_)
        rw [if_pos ⟨h0, rfl⟩]
      · refine (actx _).trans ?_
        rw [if_pos ⟨h0, rfl⟩, htake _ (hdc h0)]
      · refine (actx u).trans ?_
        rw [if_neg fun hu => hd ⟨hc, hu⟩, htake u huc]
      · have hT : t ∈ {u | u = t ∨ s.state t = .blockedCall ∧ s.replyTo s.current ≠ 0 ∧
          u = s.replyTo s.current} := .inl rfl
        have htaken := ((Still.refl live {u | u = t ∨ s.state t = .blockedCall ∧
          s.replyTo s.current ≠ 0 ∧ u = s.replyTo s.current} s).popQueue e).setCtx
          (.inr (.inl rfl)) (deliver (s.ctx t) (s.ctx s.current))
        exact ((htaken.abortReply fun h0 => .inr ⟨hc, h0, rfl⟩).setState (.inl hT) _).setReplyTo _ _
    · have hsend : s.state t = .blockedSend := by
        rcases hqueued with hq | hq | hq
        · exact hq
        · exact absurd hq hst
        · exact absurd hq hc
      rw [recv_of_sender hr hc]
      refine .taken hop t ⟨⟨rest, hl, htail⟩, .inl hsend, .inr ?_, ?_, fun _ => ⟨.inl ?_, ?_, rfl⟩,
        fun hs => absurd hs hc, fun hs => absurd hs hc, fun u huc hut _ => ?_, ?_⟩
      · change Function.update s.state t .ready s.current = .running
        rw [Function.update_of_ne hne, h.running]
      · change Function.update (s.takeFrom e t).ctx t _ s.current = _
        rw [Function.update_of_ne hne]
        exact Function.update_self _ _ _
      · exact Function.update_self _ _ _
      · change Function.update (s.takeFrom e t).ctx t (((s.takeFrom e t).ctx t).setX 0 0) t = _
        rw [Function.update_self]
        exact congrArg (fun c : Context => c.setX 0 0) (Function.update_of_ne hne.symm _ _)
      · exact (Function.update_of_ne hut _ _).trans (Function.update_of_ne huc _ _)
      · have hT : t ∈ {u | u = t ∨ s.state t = .blockedCall ∧ s.replyTo s.current ≠ 0 ∧
          u = s.replyTo s.current} := .inl rfl
        exact ((((Still.refl live _ s).popQueue e).setCtx (.inr (.inl rfl)) _).setCtx
          (.inl hT) _).enqueue (.inl hT)

/-- An answer. -/
lemma Ok.answered : Answered live s s.reply := by
  have hcur := h.inv.placed.current_live
  unfold Sys.reply
  by_cases h0 : s.replyTo s.current = 0
  · simp only [h0, ↓reduceIte]
    refine ⟨rfl, rfl, rfl, rfl, ?_, fun hn => absurd h0 hn, fun _ _ => rfl, Still.refl _ _ _⟩
    rw [← h0, Function.update_eq_self]
  · simp only [h0, ↓reduceIte]
    have hne : s.replyTo s.current ≠ s.current := h.replyTo_ne_current hcur h0
    refine ⟨rfl, rfl, Function.update_of_ne hne.symm _ _, Function.update_of_ne hne.symm _ _, rfl,
      fun _ => ⟨.inl (Function.update_self _ _ _), Function.update_self _ _ _⟩,
      fun u hu => Function.update_of_ne (fun he => hu ⟨h0, he⟩) _ _, ?_⟩
    have hT : s.replyTo s.current ∈
        {t | s.replyTo s.current ≠ 0 ∧ t = s.replyTo s.current} := ⟨h0, rfl⟩
    exact (((Still.refl live _ s).setReplyTo s.current 0).setCtx (.inl hT) _).enqueue (.inl hT)

/-- **Outcomes.** Every call on an endpoint is refused, or waits, or gives its message to a
receiver, or takes the message of a sender; `REPLY_RECV` has answered before. -/
theorem Ok.ran (op : IpcOp) (e : ℕ) (nonblock : Bool) :
    Ran live (s.begun op) op e nonblock (s.ipc op e nonblock).1 := by
  cases op with
  | send => exact h.ran_send e nonblock
  | recv => exact h.ran_recv (.inl rfl) e nonblock
  | call => exact h.ran_call e nonblock
  | replyRecv => exact h.reply.ran_recv (.inr rfl) e nonblock

end Ops

/-- The state `s'` in which the rendezvous of a call begins, seen from the state `s` before the
trap: the registers are saved, and with `REPLY_RECV` the pending caller has its answer. -/
structure Begun (live eps : Set ℕ) (s : Sys) (regs : Context) (op : IpcOp) (s' : Sys) : Prop where
  ok : s'.Ok live eps
  queue : s'.queue = s.queue
  current : s'.current = s.current
  ctx : s'.ctx s.current = regs
  replyTo : s'.replyTo =
    if op = .replyRecv then Function.update s.replyTo s.current 0 else s.replyTo
  answer : op = .replyRecv → s.replyTo s.current ≠ 0 →
    (s'.state (s.replyTo s.current)).Runnable ∧
      s'.ctx (s.replyTo s.current) = deliver regs (s.ctx (s.replyTo s.current))
  other : ∀ u, u ≠ s.current →
    ¬ (op = .replyRecv ∧ s.replyTo s.current ≠ 0 ∧ u = s.replyTo s.current) → s'.ctx u = s.ctx u
  still : Still live {t | op = .replyRecv ∧ s.replyTo s.current ≠ 0 ∧ t = s.replyTo s.current} s s'

/-- Saving the registers of the running task leaves the other tasks alone. -/
lemma still_save (live T : Set ℕ) (s : Sys) (regs : Context) : Still live T s (s.save regs) :=
  (Still.refl live T s).setCtx (.inr (.inl rfl)) regs

/-- How a call begins. -/
lemma Ok.begun (h : s.Ok live eps) (regs : Context) (op : IpcOp) :
    Begun live eps s regs op ((s.save regs).begun op) := by
  have hplain : op ≠ .replyRecv → Begun live eps s regs op (s.save regs) := fun hop =>
    ⟨h.save regs, rfl, rfl, Function.update_self _ _ _, (if_neg hop).symm, fun hc => absurd hc hop,
      fun u hu _ => Function.update_of_ne hu _ _, still_save live _ s regs⟩
  cases op with
  | send => exact hplain nofun
  | recv => exact hplain nofun
  | call => exact hplain nofun
  | replyRecv =>
    have ha := (h.save regs).answered
    have hctx : (s.save regs).ctx s.current = regs := Function.update_self _ _ _
    refine ⟨(h.save regs).reply, ha.queue, ha.current, ha.ctx.trans hctx, ha.replyTo,
      fun _ h0 => ?_, fun u hu hn => ?_, ?_⟩
    · obtain ⟨hrun, hans⟩ := ha.answer h0
      refine ⟨hrun, hans.trans (congrArg₂ deliver hctx ?_)⟩
      exact Function.update_of_ne (h.replyTo_ne_current h.inv.placed.current_live h0) _ _
    · exact (ha.other u fun hc => hn ⟨rfl, hc⟩).trans (Function.update_of_ne hu _ _)
    · refine (still_save live _ s regs).trans (ha.still.mono ?_) rfl
      rintro t ⟨h0, ht⟩
      exact ⟨rfl, h0, ht⟩

/-! ### Other steps -/

/-- The running task ends, and its pending caller, if there is one, is told so. -/
structure Ended (live : Set ℕ) (s s' : Sys) : Prop where
  queue : s'.queue = s.queue
  replyTo : s'.replyTo = Function.update s.replyTo s.current 0
  dropped : s.replyTo s.current ≠ 0 → s.Dropped (s.replyTo s.current) s'
  still : Still live {t | s.replyTo s.current ≠ 0 ∧ t = s.replyTo s.current} s s'

/-- The end of the running task. -/
lemma Ok.ended_kill (h : s.Ok live eps) : Ended live s s.kill.1 := by
  have hcur := h.inv.placed.current_live
  have hne : s.replyTo s.current ≠ 0 → s.replyTo s.current ≠ s.current := h.replyTo_ne_current hcur
  obtain ⟨actx, astate, aready⟩ := abortReply_spec s s.current
  obtain ⟨aqueue, acur, areply, -⟩ := s.abortReply_frame s.current
  have hkill : s.kill.1 =
      ((s.abortReply s.current).setState s.current .dead).blockAndSwitch.1 := by
    unfold Sys.kill
    dsimp only
    rw [acur]
  obtain ⟨fctx, freply, fqueue, fstate⟩ :=
    blockAndSwitch_frame ((s.abortReply s.current).setState s.current .dead)
  rw [hkill]
  refine ⟨fqueue.trans aqueue, freply.trans areply, fun h0 => ⟨?_, ?_⟩, ?_⟩
  · rcases fstate (s.replyTo s.current) with hs | ⟨-, hs⟩
    · rw [hs]
      refine .inl ((Function.update_of_ne (hne h0) _ _).trans ((astate _).trans ?_))
      rw [if_pos ⟨h0, rfl⟩]
    · exact .inr hs
  · rw [fctx]
    refine (actx _).trans ?_
    rw [if_pos ⟨h0, rfl⟩]
  · have habort : Still live {t | s.replyTo s.current ≠ 0 ∧ t = s.replyTo s.current} s
        (s.abortReply s.current) := (Still.refl live _ s).abortReply fun h0 => ⟨h0, rfl⟩
    refine (habort.setState (.inr (.inl rfl)) .dead).blockAndSwitch fun t ht => ?_
    rcases aready t ht with hm | hm
    · exact .inr (h.ready_not_waiting hm)
    · exact .inl hm

/-- A tick. -/
lemma Ok.still_rotate (h : s.Ok live eps) : Still live ∅ s s.rotate := by
  unfold Sys.rotate
  cases hl : s.ready with
  | nil => exact Still.refl live ∅ s
  | cons u l =>
    have hu : u ∈ s.ready := by rw [hl]; exact List.mem_cons_self
    have h0 : Still live ∅ s s.popReady := (Still.refl live ∅ s).of_eq rfl rfl
    have h1 : Still live ∅ s (s.popReady.enqueue s.current) := h0.enqueue (.inr (.inl rfl))
    intro t ht hT hc
    obtain ⟨hwait, hrun⟩ := h1 t ht hT hc
    by_cases hne : t = u
    · subst hne
      refine ⟨fun hw => absurd hw (h.ready_not_waiting hu), fun hr => ⟨.inr ?_, (hrun hr).2⟩⟩
      exact Function.update_self _ _ _
    · have hst : ((s.popReady.enqueue s.current).switchTo u).state t =
          (s.popReady.enqueue s.current).state t := Function.update_of_ne hne _ _
      rw [hst]
      exact ⟨hwait, hrun⟩

end Sys

/-- A step that is neither a call nor the end of a task leaves the queues, the rights and the
waiting tasks alone. -/
structure World.Quiet (w w' : World) : Prop where
  queue : w'.sys.queue = w.sys.queue
  replyTo : ∀ t ∈ w.live, w'.sys.replyTo t = w.sys.replyTo t
  still : w.sys.Still w.live ∅ w'.sys

/-- **Other steps.** A step that is neither a call nor the end of a task is quiet. -/
theorem World.Step.quiet {w w' : World} {a : Act} (hs : w.Step a w') (h : w.Ok)
    (hipc : ∀ op regs e nonblock, a ≠ .ipc op regs e nonblock) (hdie : ∀ regs, a ≠ .die regs) :
    w.Quiet w' := by
  have hok : w.sys.Ok w.live w.eps := h
  have hsave := Sys.still_save w.live ∅ w.sys
  cases hs with
  | idle => exact ⟨rfl, fun _ _ => rfl, Sys.Still.refl _ _ _⟩
  | run regs => exact ⟨rfl, fun _ _ => rfl, hsave regs⟩
  | tick regs =>
    have hframe : (w.sys.save regs).rotate.queue = w.sys.queue ∧
        (w.sys.save regs).rotate.replyTo = w.sys.replyTo := by
      unfold Sys.rotate
      split
      · exact ⟨rfl, rfl⟩
      · exact ⟨rfl, rfl⟩
    exact ⟨hframe.1, fun t _ => congrFun hframe.2 t,
      (hsave regs).trans (hok.save regs).still_rotate rfl⟩
  | die regs _ => exact absurd rfl (hdie regs)
  | ipc op regs e nonblock _ _ => exact absurd rfl (hipc op regs e nonblock)
  | configure regs t ctx root ht hst =>
    have hloose : Sys.Loose ∅ w.sys t := by
      refine .inr (.inr ?_)
      rw [hst]
      exact ⟨by decide, by rintro (h | h) <;> cases h⟩
    have h1 := ((hsave regs).setState hloose .stopped).setCtx hloose ctx
    exact ⟨rfl, fun _ _ => rfl, Sys.Still.setCtx (h1.of_eq rfl rfl) (.inr (.inl rfl)) _⟩
  | resume regs t ht hst =>
    have hloose : Sys.Loose ∅ w.sys t := by
      refine .inr (.inr ?_)
      rw [hst]
      exact ⟨by decide, by rintro (h | h) <;> cases h⟩
    exact ⟨rfl, fun _ _ => rfl, ((hsave regs).enqueue hloose).setCtx (.inr (.inl rfl)) _⟩
  | clear regs a n result live' eps' hlive _ _ _ _ _ _ =>
    refine ⟨rfl, fun t ht => if_neg (hlive t ht), Sys.Still.setCtx (fun t ht hT hc => ?_)
      (.inr (.inl rfl)) _⟩
    have hst : ((w.sys.save regs).clear a n).state t = (w.sys.save regs).state t :=
      if_neg (hlive t ht)
    have hctx : ((w.sys.save regs).clear a n).ctx t = (w.sys.save regs).ctx t :=
      if_neg (hlive t ht)
    rw [hst, hctx]
    exact hsave regs t ht hT hc

end K0
