import Mathlib.Data.List.Rotate
import K0.Ipc.World

set_option relaxedAutoImplicit false
set_option autoImplicit false

/-!
# The order of the ready tasks

The ready list is first in, first out: whatever a step does, tasks that become ready go behind those
that were, and a task that gets its turn is the first of them. Preemption turns the ring of the
running and the ready tasks by one place.

## Main definitions

* `K0.Sys.Woke`: some tasks were made ready, and the scheduler has not been asked yet.
* `K0.Sys.Advance`: what a whole step does to the ready list and the running task.
* `K0.Sys.ofRing`: a system with a given running task and given ready tasks.

## Main results

* `K0.World.Step.advance`: every step advances the ready list.
* `K0.Sys.Ok.iterate_rotate`: preemption turns the ring.
-/

namespace K0

open Set

namespace Sys

variable {live eps : Set ℕ} {s s' s₁ : Sys} {t u e : ℕ} {woken : List ℕ}

/-! ### Waking tasks -/

/-- From `s` to `s'` the tasks `woken` were made ready, in this order, and nothing else happened to
the ready list and the running task. -/
structure Woke (s s' : Sys) (woken : List ℕ) : Prop where
  current : s'.current = s.current
  ready : s'.ready = s.ready ++ woken
  fresh : ∀ t ∈ woken, t ∉ s.ready ∧ t ≠ s.current

namespace Woke

/-- Nothing has happened yet. -/
lemma refl (s : Sys) : Woke s s [] := ⟨rfl, (List.append_nil _).symm, nofun⟩

/-- Nothing more happens to the ready list and the running task. -/
lemma of_eq (h : Woke s s₁ woken) (hc : s'.current = s₁.current) (hr : s'.ready = s₁.ready) :
    Woke s s' woken :=
  ⟨hc.trans h.current, hr.trans h.ready, h.fresh⟩

/-- One more task is made ready. -/
lemma enqueue (h : Woke s s' woken) (ht : t ∉ s.ready ∧ t ≠ s.current) :
    Woke s (s'.enqueue t) (woken ++ [t]) := by
  refine ⟨h.current, ?_, fun u hu => ?_⟩
  · change s'.ready ++ [t] = _
    rw [h.ready, List.append_assoc]
  · rcases List.mem_append.mp hu with hu | hu
    · exact h.fresh u hu
    · rw [List.mem_singleton.mp hu]
      exact ht

/-- The caller whose right is revoked is made ready. -/
lemma abortReply (h : Woke s s' woken)
    (hc : s'.replyTo u ≠ 0 → s'.replyTo u ∉ s.ready ∧ s'.replyTo u ≠ s.current) :
    ∃ w, Woke s (s'.abortReply u) w := by
  unfold Sys.abortReply
  by_cases h0 : s'.replyTo u = 0
  · simp only [h0, ↓reduceIte]
    exact ⟨woken, h.of_eq rfl rfl⟩
  · simp only [h0, ↓reduceIte]
    exact ⟨_, (h.of_eq rfl rfl : Woke s ((s'.setReplyTo u 0).setX (s'.replyTo u) 0
      (Abi.asU64 Abi.Err.noReply)) woken).enqueue (hc h0)⟩

end Woke

/-- A task that is neither ready nor running is not in the ready list. -/
lemma Ok.fresh (h : s.Ok live eps) (hr : s.state t ≠ .ready) (hc : s.state t ≠ .running) :
    t ∉ s.ready ∧ t ≠ s.current := by
  refine ⟨h.inv.placed.not_mem_ready hr, ?_⟩
  rintro rfl
  exact hc h.running

/-- A caller that waits for an answer is not in the ready list. -/
lemma Ok.fresh_caller (h : s.Ok live eps) (hu : u ∈ live) (h0 : s.replyTo u ≠ 0) :
    s.replyTo u ∉ s.ready ∧ s.replyTo u ≠ s.current := by
  have hw : s.state (s.replyTo u) = .blockedReply := h.inv.rights.waiting hu h0
  exact h.fresh (by rw [hw]; decide) (by rw [hw]; decide)

/-- A task in the queue of an endpoint is not in the ready list. -/
lemma Ok.fresh_queued (h : s.Ok live eps) (ht : t ∈ s.queue e) : t ∉ s.ready ∧ t ≠ s.current := by
  have hq := h.inv.placed.queue_state ht
  refine h.fresh (fun hs => ?_) fun hs => ?_
  · rw [hs] at hq
    exact absurd hq (by decide)
  · rw [hs] at hq
    exact absurd hq (by decide)

/-! ### Steps -/

/-- What a step does to the ready list: the tasks `woken` go to its end, and then the running task
goes on, or the first task of the list takes its place. -/
def Advance (s s' : Sys) : Prop :=
  ∃ woken : List ℕ, (∀ t ∈ woken, t ∉ s.ready) ∧
    ((s'.current = s.current ∧ s'.ready = s.ready ++ woken) ∨
      (s'.current ≠ s.current ∧ s.ready ++ woken = s'.current :: s'.ready))

/-- The running task goes on. -/
lemma Woke.advance (h : Woke s s' woken) : s.Advance s' :=
  ⟨woken, fun t ht => (h.fresh t ht).1, .inl ⟨h.current, h.ready⟩⟩

/-- The running task gives way. -/
lemma Woke.blockAndSwitch (h : Woke s s' woken) (hok : s.Ok live eps)
    (htrue : s'.blockAndSwitch.2 = true) : s.Advance s'.blockAndSwitch.1 := by
  unfold Sys.blockAndSwitch at htrue ⊢
  cases hl : s'.ready with
  | nil =>
    rw [hl] at htrue
    cases htrue
  | cons t l =>
    have hlist : s.ready ++ woken = t :: l := h.ready ▸ hl
    have hne : t ≠ s.current := by
      have hmem : t ∈ s.ready ++ woken := by rw [hlist]; exact List.mem_cons_self
      rcases List.mem_append.mp hmem with hm | hm
      · exact ne_of_mem_of_not_mem hm hok.current_not_mem.1
      · exact (h.fresh t hm).2
    refine ⟨woken, fun t ht => (h.fresh t ht).1, .inr ⟨hne, ?_⟩⟩
    change s.ready ++ woken = t :: s'.ready.tail
    rw [hl, List.tail_cons]
    exact hlist

/-- Waking tasks first and then a step. -/
lemma Woke.trans (h : Woke s s₁ woken) (h' : s₁.Advance s') : s.Advance s' := by
  obtain ⟨w, hfresh, hcase⟩ := h'
  refine ⟨woken ++ w, fun t ht => ?_, ?_⟩
  · rcases List.mem_append.mp ht with ht | ht
    · exact (h.fresh t ht).1
    · have hn := hfresh t ht
      rw [h.ready] at hn
      exact fun hm => hn (List.mem_append_left _ hm)
  · rw [h.current, h.ready, List.append_assoc] at hcase
    exact hcase

section Operations

variable (h : s.Ok live eps)
include h

/-- Preemption. -/
lemma Advance.rotate : s.Advance s.rotate := by
  unfold Sys.rotate
  cases hl : s.ready with
  | nil => exact (Woke.refl s).advance
  | cons t l =>
    have hcur := h.current_not_mem.1
    refine ⟨[s.current], fun u hu => List.mem_singleton.mp hu ▸ hcur, .inr ⟨?_, ?_⟩⟩
    · change t ≠ s.current
      rintro rfl
      exact hcur (by rw [hl]; exact List.mem_cons_self)
    · change s.ready ++ [s.current] = t :: (s.ready.tail ++ [s.current])
      rw [hl]
      rfl

/-- The end of the running task. -/
lemma Advance.kill (htrue : s.kill.2 = true) : s.Advance s.kill.1 := by
  obtain ⟨w, hw⟩ := (Woke.refl s).abortReply (h.fresh_caller h.inv.placed.current_live)
  exact (hw.of_eq rfl rfl : Woke s ((s.abortReply s.current).setState
    (s.abortReply s.current).current .dead) w).blockAndSwitch h htrue

/-- A call that cannot go on at once. -/
lemma Advance.orBlock {st : TaskState} {nonblock : Bool}
    (htrue : (if nonblock then (s.ret (Abi.asU64 Abi.Err.wouldBlock), true)
      else s.blockOn st e).2 = true) :
    s.Advance (if nonblock then (s.ret (Abi.asU64 Abi.Err.wouldBlock), true)
      else s.blockOn st e).1 := by
  cases nonblock with
  | true => exact ((Woke.refl s).of_eq rfl rfl : Woke s (s.ret _) []).advance
  | false =>
    exact ((Woke.refl s).of_eq rfl rfl :
      Woke s ((s.setState s.current st).pushQueue e s.current) []).blockAndSwitch h htrue

/-- A send. -/
lemma Advance.send {nonblock : Bool} (htrue : (s.send e nonblock).2 = true) :
    s.Advance (s.send e nonblock).1 := by
  cases hr : s.receiver? e with
  | some t =>
    obtain ⟨⟨l, hl⟩, -⟩ := Sys.receiver?_eq_some.mp hr
    have hw := ((Woke.refl s).of_eq rfl rfl : Woke s (s.giveTo e t) []).enqueue
      (h.fresh_queued (Started.head_mem hl))
    rw [Sys.send_of_receiver hr]
    exact (hw.of_eq rfl rfl : Woke s (((s.giveTo e t).enqueue t).ret 0) _).advance
  | none =>
    rw [Sys.send_of_none hr] at htrue ⊢
    exact Advance.orBlock h htrue

/-- A receive. -/
lemma Advance.recv {nonblock : Bool} (htrue : (s.recv e nonblock).2 = true) :
    s.Advance (s.recv e nonblock).1 := by
  cases hr : s.sender? e with
  | some t =>
    obtain ⟨⟨l, hl⟩, -⟩ := Sys.sender?_eq_some.mp hr
    have ht := h.fresh_queued (Started.head_mem hl)
    have hw : Woke s (s.takeFrom e t) [] := (Woke.refl s).of_eq rfl rfl
    by_cases hc : s.state t = .blockedCall
    · obtain ⟨w, hw'⟩ := hw.abortReply (u := s.current)
        (h.fresh_caller h.inv.placed.current_live)
      rw [Sys.recv_of_caller hr hc]
      exact (hw'.of_eq rfl rfl : Woke s ((((s.takeFrom e t).abortReply s.current).setState t
        .blockedReply).setReplyTo s.current t) w).advance
    · rw [Sys.recv_of_sender hr hc]
      exact ((hw.of_eq rfl rfl : Woke s ((s.takeFrom e t).setX t 0 0) []).enqueue ht).advance
  | none =>
    rw [Sys.recv_of_none hr] at htrue ⊢
    exact Advance.orBlock h htrue

/-- A call. -/
lemma Advance.call {nonblock : Bool} (htrue : (s.call e nonblock).2 = true) :
    s.Advance (s.call e nonblock).1 := by
  cases hr : s.receiver? e with
  | some t =>
    obtain ⟨⟨l, hl⟩, -⟩ := Sys.receiver?_eq_some.mp hr
    have hmem := Started.head_mem hl
    have hw : Woke s (s.giveTo e t) [] := (Woke.refl s).of_eq rfl rfl
    obtain ⟨w, hw'⟩ := hw.abortReply (u := t) (h.fresh_caller (h.inv.placed.queue_live hmem))
    have hw₂ : Woke s ((((s.giveTo e t).abortReply t).setReplyTo t s.current).setState s.current
        .blockedReply) w := hw'.of_eq rfl rfl
    rw [Sys.call_of_receiver hr] at htrue ⊢
    exact (hw₂.enqueue (h.fresh_queued hmem)).blockAndSwitch h htrue
  | none =>
    rw [Sys.call_of_none hr] at htrue ⊢
    exact Advance.orBlock h htrue

/-- An answer wakes the caller. -/
lemma Woke.reply : ∃ w, Woke s s.reply w := by
  unfold Sys.reply
  by_cases hc : s.replyTo s.current = 0
  · simp only [hc, ↓reduceIte]
    exact ⟨[], Woke.refl s⟩
  · simp only [hc, ↓reduceIte]
    refine ⟨[] ++ [s.replyTo s.current], Woke.enqueue ?_ ?_⟩
    swap
    · exact h.fresh_caller h.inv.placed.current_live hc
    exact (Woke.refl s).of_eq rfl rfl

/-- An IPC call. -/
lemma Advance.ipc {op : IpcOp} {nonblock : Bool} (htrue : (s.ipc op e nonblock).2 = true) :
    s.Advance (s.ipc op e nonblock).1 := by
  cases op with
  | send => exact Advance.send h htrue
  | recv => exact Advance.recv h htrue
  | call => exact Advance.call h htrue
  | replyRecv =>
    obtain ⟨w, hw⟩ := Woke.reply h
    exact hw.trans (Advance.recv h.reply htrue)

end Operations

end Sys

/-- **Every step advances the ready list**: tasks that become ready go behind those that were, and
the one that gets its turn is the first. -/
theorem World.Step.advance {w w' : World} {a : Act} (hs : w.Step a w') (h : w.Ok) :
    w.sys.Advance w'.sys := by
  have hsave : ∀ regs, Sys.Woke w.sys (w.sys.save regs) [] :=
    fun regs => (Sys.Woke.refl w.sys).of_eq rfl rfl
  cases hs with
  | idle => exact (Sys.Woke.refl w.sys).advance
  | run regs => exact (hsave regs).advance
  | tick regs => exact (hsave regs).trans (Sys.Advance.rotate (Sys.Ok.save h regs))
  | die regs htrue => exact (hsave regs).trans (Sys.Advance.kill (Sys.Ok.save h regs) htrue)
  | ipc op regs e nonblock he htrue =>
    exact (hsave regs).trans (Sys.Advance.ipc (Sys.Ok.save h regs) htrue)
  | configure regs t ctx root ht hst =>
    exact ((hsave regs).of_eq rfl rfl :
      Sys.Woke w.sys (((w.sys.save regs).configure t ctx root).ret 0) []).advance
  | resume regs t ht hst =>
    have hfresh : t ∉ w.sys.ready ∧ t ≠ w.sys.current :=
      Sys.Ok.fresh h (by rw [hst]; decide) (by rw [hst]; decide)
    exact (((hsave regs).enqueue hfresh).of_eq rfl rfl :
      Sys.Woke w.sys (((w.sys.save regs).enqueue t).ret 0) _).advance
  | clear regs a n result live' eps' hlive heps hsub hsub' h0 hnew hnew' =>
    exact ((hsave regs).of_eq rfl rfl :
      Sys.Woke w.sys (((w.sys.save regs).clear a n).ret result) []).advance

/-! ### Places -/

namespace Sys.Advance

variable {s s' : Sys} {t p : ℕ}

/-- While the running task goes on, the ready tasks keep their places. -/
lemma place_of_stay (h : s.Advance s') (hc : s'.current = s.current) (ht : s.ready[p]? = some t) :
    s'.ready[p]? = some t := by
  obtain ⟨w, -, ⟨-, hready⟩ | ⟨hne, -⟩⟩ := h
  · rw [hready, List.getElem?_append_left (List.getElem?_eq_some_iff.mp ht).1, ht]
  · exact absurd hc hne

/-- At a switch the first ready task takes over. -/
lemma current_of_switch (h : s.Advance s') (hc : s'.current ≠ s.current)
    (ht : s.ready[0]? = some t) : s'.current = t := by
  obtain ⟨w, -, ⟨he, -⟩ | ⟨-, hlist⟩⟩ := h
  · exact absurd he hc
  · have hget : (s.ready ++ w)[0]? = some t := by
      rw [List.getElem?_append_left (List.getElem?_eq_some_iff.mp ht).1, ht]
    rw [hlist] at hget
    exact Option.some.inj hget

/-- At a switch the other ready tasks move up by one place. -/
lemma place_of_switch (h : s.Advance s') (hc : s'.current ≠ s.current)
    (ht : s.ready[p + 1]? = some t) : s'.ready[p]? = some t := by
  obtain ⟨w, -, ⟨he, -⟩ | ⟨-, hlist⟩⟩ := h
  · exact absurd he hc
  · have hget : (s.ready ++ w)[p + 1]? = some t := by
      rw [List.getElem?_append_left (List.getElem?_eq_some_iff.mp ht).1, ht]
    rw [hlist] at hget
    exact hget

end Sys.Advance

/-! ### Rotation -/

namespace Sys

/-- The system with the given ring: its first task runs and the others are ready. -/
def ofRing (s : Sys) : List ℕ → Sys
  | [] => s
  | c :: l =>
    { s with
      current := c
      ready := l
      state := fun t => if t = c then .running else if t ∈ l then .ready else s.state t }

variable {live eps : Set ℕ} {s : Sys} {t : ℕ}

/-- A system in order is the one with its own ring. -/
lemma Ok.ofRing_self (h : s.Ok live eps) : s.ofRing (s.current :: s.ready) = s := by
  have hstate : (fun t => if t = s.current then TaskState.running
      else if t ∈ s.ready then .ready else s.state t) = s.state := by
    funext t
    by_cases hc : t = s.current
    · rw [if_pos hc, hc, h.running]
    · by_cases hr : t ∈ s.ready
      · rw [if_neg hc, if_pos hr, h.inv.placed.ready_state hr]
      · rw [if_neg hc, if_neg hr]
  unfold ofRing
  dsimp only
  rw [hstate]

/-- Preemption turns the ring by one place. -/
lemma rotate_ofRing (s : Sys) {l : List ℕ} (hne : l ≠ []) (hl : l.Nodup) :
    (s.ofRing l).rotate = s.ofRing (l.rotate 1) := by
  match l with
  | [] => exact absurd rfl hne
  | [c] =>
    rw [List.rotate_singleton]
    rfl
  | c :: d :: l =>
    rw [List.rotate_cons_succ, List.rotate_zero]
    obtain ⟨hc, hd⟩ := List.nodup_cons.mp hl
    obtain ⟨hd, -⟩ := List.nodup_cons.mp hd
    have hcd : c ≠ d := fun e => hc (e ▸ List.mem_cons_self)
    unfold Sys.rotate ofRing
    simp only [popReady, enqueue, switchTo, List.tail_cons, List.cons_append, Sys.mk.injEq,
      Skel.mk.injEq, and_true, true_and]
    funext t
    by_cases htd : t = d
    · rw [if_pos htd, htd, Function.update_self]
    · rw [if_neg htd, Function.update_of_ne htd]
      by_cases htc : t = c
      · rw [htc, Function.update_self, if_pos (by simp)]
      · rw [Function.update_of_ne htc, if_neg htc]
        by_cases hm : t ∈ l
        · rw [if_pos (List.mem_cons_of_mem _ hm), if_pos (List.mem_append_left _ hm)]
        · have h1 : t ∉ d :: l := by simp [htd, hm]
          have h2 : t ∉ l ++ [c] := by simp [htc, hm]
          rw [if_neg h1, if_neg h2]

/-- **Preemption turns the ring** of the running task and the ready tasks. -/
theorem Ok.iterate_rotate (h : s.Ok live eps) (j : ℕ) :
    Sys.rotate^[j] s = s.ofRing ((s.current :: s.ready).rotate j) := by
  have hnodup : (s.current :: s.ready).Nodup :=
    List.nodup_cons.mpr ⟨h.current_not_mem.1, h.inv.placed.ready_nodup⟩
  induction j with
  | zero =>
    rw [List.rotate_zero, h.ofRing_self]
    rfl
  | succ j ih =>
    have hne : (s.current :: s.ready).rotate j ≠ [] := by
      rw [Ne, List.rotate_eq_nil_iff]
      exact List.cons_ne_nil _ _
    rw [Function.iterate_succ_apply', ih, rotate_ofRing s hne (List.nodup_rotate.mpr hnodup),
      List.rotate_rotate]

end Sys

end K0
