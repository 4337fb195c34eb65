import K0.Kernel.Messages

set_option relaxedAutoImplicit false
set_option autoImplicit false

/-!
# Every call is answered at most once, by its receiver

A `CALL` whose message has been received waits for the task that received it. In every run it
returns with the words of the first `REPLY_RECV` of that task, if this one comes before the task
accepts another call and before it ends; otherwise it returns with `NO_REPLY`. Nothing else makes it
return.

## Main definitions

* `K0.Kernel.Run.Returns`: the step in which a call returns.
* `K0.Kernel.Run.Answers`, `K0.Kernel.Run.Accepts`, `K0.Kernel.Run.Dies`: what the receiver may do.
* `K0.Kernel.Run.Pending`: it has done nothing of the kind yet.

## Main results

* `K0.Kernel.Run.Shadow.owed_step`: what one step does to a caller that waits for its answer.
* `K0.Kernel.Run.calls_answered`: when calls return, and with what.
-/

namespace K0

open Set

namespace Sys

variable {live eps : Set ℕ} {s s₁ s' : Sys} {regs : Context} {op : IpcOp} {nonblock : Bool}
  {b e t : ℕ} {rest : List ℕ}

/-- The rights that the beginning of a call leaves alone. -/
lemma Begun.right (hbegin : Begun live eps s regs op s₁) (hok : s.Ok live eps) (hb : b ∈ live)
    (h0 : s.replyTo b ≠ 0) (hna : ¬ (op = .replyRecv ∧ b = s.current)) :
    s₁.replyTo b = s.replyTo b ∧ s₁.state (s.replyTo b) = .blockedReply ∧
      s₁.ctx (s.replyTo b) = s.ctx (s.replyTo b) := by
  have hrights := hok.inv.rights
  have hwait := hrights.waiting hb h0
  have hstill := hbegin.still.waiting hok (hrights.live_caller hb h0) (fun ⟨ho, hc0, he⟩ =>
    hna ⟨ho, hrights.unique hb hok.inv.placed.current_live h0 he⟩) (.inr hwait)
  refine ⟨?_, hstill.1.trans hwait, hstill.2⟩
  rw [hbegin.replyTo]
  split_ifs with ho
  · exact Function.update_of_ne (fun he => hna ⟨ho, he⟩) _ _
  · rfl

/-- A caller that has its answer keeps it in the rest of the call. -/
lemma Ran.answered (hbegin : Begun live eps s regs .replyRecv s₁)
    (hran : Ran live s₁ .replyRecv e nonblock s') (hok : s.Ok live eps)
    (h0 : s.replyTo s.current ≠ 0) :
    (s'.state (s.replyTo s.current)).Runnable ∧
      s'.ctx (s.replyTo s.current) = deliver regs (s.ctx (s.replyTo s.current)) := by
  have hcur := hok.inv.placed.current_live
  obtain ⟨hrun, hans⟩ := hbegin.answer rfl h0
  have hlive := hok.inv.rights.live_caller hcur h0
  have hne : s.replyTo s.current ≠ s₁.current := by
    rw [hbegin.current]
    exact hok.replyTo_ne_current hcur h0
  have hzero : s₁.replyTo s₁.current = 0 := by
    rw [hbegin.replyTo, if_pos rfl, hbegin.current, Function.update_self]
  rw [← hans]
  cases hran with
  | refused _ hr =>
    rw [hr.state, hr.ctx, Function.update_of_ne hne]
    exact ⟨hrun, rfl⟩
  | waited _ hw => exact (hw.still _ hlive (notMem_empty _) hne).2 hrun
  | given hop _ _ => rcases hop with hop | hop <;> cases hop
  | taken _ t ht =>
    obtain ⟨rest, hhead, -⟩ := ht.queue
    refine (ht.still _ hlive ?_ hne).2 hrun
    rintro (he | ⟨-, hc, -⟩)
    · have hq := hbegin.ok.inv.placed.queue_state (e := e) (hhead ▸ List.mem_cons_self)
      rw [← he] at hq
      exact hrun.not_waiting (.inl hq)
    · exact hc hzero

end Sys

namespace Kernel.Run

variable {P : Platform} {I : Image P} {i : Machine} {memory reserved : List PhysRegion} {root : ℕ}
  {k₀ : Kernel} {r : Run I.pool k₀} {s : ℕ → Sys} {c d : IpcTrap} {a b e j m n t u : ℕ}

/-! ### What a receiver may do -/

/-- In step `n` the task `b` answers: it makes a `REPLY_RECV` on a valid endpoint. -/
def Answers (r : Run I.pool k₀) (n b : ℕ) : Prop :=
  r.task n = b ∧ ∃ c, r.trap n = some c ∧ c.op = .replyRecv

/-- In step `n` the task `b` receives the message of a `CALL`. -/
def Accepts (r : Run I.pool k₀) (n b : ℕ) : Prop :=
  ∃ j j' c c', r.Sent j n c ∧ c.op = .call ∧ r.Received j' n c' ∧ r.task j' = b

/-- In step `n` the task `b` ends. -/
def Dies (r : Run I.pool k₀) (n b : ℕ) : Prop := r.task n = b ∧ r.Ends n

/-- Between the steps `m` and `n` the task `b` neither answers nor accepts a call nor ends. -/
def Pending (r : Run I.pool k₀) (b m n : ℕ) : Prop :=
  ∀ l, m < l → l < n → ¬ r.Answers l b ∧ ¬ r.Accepts l b ∧ ¬ r.Dies l b

/-- A list is not its own tail. -/
lemma cons_ne_tail {t : ℕ} {l l' : List ℕ} (h : l = t :: l') (h' : l' = l) : False := by
  have hlen := congrArg List.length h
  rw [List.length_cons, h'] at hlen
  omega

/-- The queue of an endpoint that loses its head to a call `c`, seen from the task `b` that then
receives the message of a `CALL`. -/
def Takes (r : Run I.pool k₀) (s : ℕ → Sys) (n b : ℕ) (c : IpcTrap) (t : ℕ) (rest : List ℕ) :
    Prop :=
  r.trap n = some c ∧ (s n).queue c.ep = t :: rest ∧ (s (n + 1)).queue c.ep = rest ∧
    (c.op = .call ∧ b = t ∨ c.op.Receives ∧ r.status n t = .blockedCall ∧ b = r.task n)

namespace Shadow

variable (h : r.Shadow memory reserved root s)
include h

/-- A task accepts a call when it is at the head of the queue that a call takes, or takes the
message of the caller at the head of a queue. -/
lemma accepts_iff (hn : n < r.len) (hl : r.Lined s n) :
    r.Accepts n b ↔ ∃ c t rest, r.Takes s n b c t rest := by
  constructor
  · rintro ⟨j, j', c, c', hs, hcall, hr, hb⟩
    have hside : ∀ {i d}, r.Completes i n d → (∀ t, r.Keeps s n t) → i = n := by
      intro i d hd hkeep
      rcases h.completes_cases (hkeep (r.task i + 1)) hd with he | ⟨-, he⟩
      · exact he
      · exact absurd he.symm (Nat.succ_ne_self _)
    -- a step does not begin with a send and a receive
    have hboth : ¬ (j = n ∧ j' = n) := by
      rintro ⟨rfl, rfl⟩
      obtain rfl := Option.some.inj (hs.trap.symm.trans hr.trap)
      exact hs.sends.not_receives hr.receives
    cases h.move hn with
    | rest _ hkeep _ => exact absurd ⟨hside hs.toCompletes hkeep, hside hr.toCompletes hkeep⟩ hboth
    | wait _ _ _ hkeep _ _ =>
      exact absurd ⟨hside hs.toCompletes hkeep, hside hr.toCompletes hkeep⟩ hboth
    | give d htrap hop t rest hhead hqueue hkeep hwait =>
      have hpop : (s (n + 1)).queue d.ep = rest := by rw [hqueue, Function.update_self]
      rcases h.completes_cases hkeep hs.toCompletes with rfl | ⟨hlt, ht⟩
      · obtain rfl := Option.some.inj (htrap.symm.trans hs.trap)
        rcases h.completes_cases hkeep hr.toCompletes with rfl | ⟨-, ht⟩
        · exact absurd ⟨rfl, rfl⟩ hboth
        · exact ⟨d, t, rest, htrap, hhead, hpop, .inl ⟨hcall, hb.symm.trans ht⟩⟩
      · have hw := hs.waits n hlt le_rfl
        rw [ht, hwait, hcall] at hw
        cases hw
    | take d htrap hop t rest hhead hqueue hkeep hwait =>
      have hpop : (s (n + 1)).queue d.ep = rest := by rw [hqueue, Function.update_self]
      rcases h.completes_cases hkeep hs.toCompletes with rfl | ⟨hlt, ht⟩
      · obtain rfl := Option.some.inj (htrap.symm.trans hs.trap)
        exact absurd hop hs.sends.not_receives
      · have hw := hs.waits n hlt le_rfl
        rw [ht, hcall] at hw
        rcases h.completes_cases hkeep hr.toCompletes with rfl | ⟨hlt', ht'⟩
        · exact ⟨d, t, rest, htrap, hhead, hpop, .inr ⟨hop, hw, hb.symm⟩⟩
        · have hw' := hr.waits n hlt' le_rfl
          rw [ht', hw, hr.receives.waiting_eq] at hw'
          cases hw'
  · rintro ⟨c, t, rest, htrap, hhead, hpop, hside⟩
    cases h.move hn with
    | rest hqueue _ _ =>
      rw [hqueue] at hpop
      exact (cons_ne_tail hhead hpop.symm).elim
    | wait d htrap' hqueue _ _ _ =>
      obtain rfl := Option.some.inj (htrap.symm.trans htrap')
      rw [hqueue, Function.update_self, hhead] at hpop
      have hlen := congrArg List.length hpop
      rw [List.length_append, List.length_cons] at hlen
      omega
    | give d htrap' hop t' rest' hhead' _ hkeep hwait hrun hregs hsend hcall =>
      obtain rfl := Option.some.inj (htrap.symm.trans htrap')
      obtain ⟨rfl, rfl⟩ := List.cons.inj (hhead.symm.trans hhead')
      obtain ⟨j, d, -, hj, hp⟩ :=
        h.passes_of_give hn hl htrap hop hhead hkeep hwait hrun hregs hsend hcall
      rcases hside with ⟨ho, rfl⟩ | ⟨ho, -⟩
      · exact ⟨n, j, c, d, hp.sent, ho, hp.received, hj⟩
      · exact absurd ho hop.not_receives
    | take d htrap' hop t' rest' hhead' _ hkeep hwait hrun hregs hsend hcall =>
      obtain rfl := Option.some.inj (htrap.symm.trans htrap')
      obtain ⟨rfl, rfl⟩ := List.cons.inj (hhead.symm.trans hhead')
      obtain ⟨j, d, hs, hj, hp⟩ :=
        h.passes_of_take hn hl htrap hop hhead hkeep hwait hrun hregs hsend hcall
      rcases hside with ⟨ho, -⟩ | ⟨-, hst, rfl⟩
      · exact absurd hop (IpcOp.Sends.not_receives (.inr ho))
      · refine ⟨j, n, d, c, hp.sent, ?_, hp.received, rfl⟩
        have hw := hs.waits n hs.lt le_rfl
        rw [hj, hst] at hw
        rcases hp.sent.sends with ho | ho
        · rw [ho] at hw
          cases hw
        · exact ho

/-! ### What happens to a caller that waits for its answer -/

/-- The task that answers. -/
lemma right_answered (hn : n < r.len) (h0 : r.owes n (r.task n) ≠ 0) (htrap : r.trap n = some c)
    (hop : c.op = .replyRecv) :
    (r.status (n + 1) (r.owes n (r.task n))).Runnable ∧
      r.regs (n + 1) (r.owes n (r.task n)) = deliver c.regs (r.regs n (r.owes n (r.task n))) := by
  rw [h.task_eq hn.le, h.owes_eq hn.le] at h0 ⊢
  rw [h.status_eq hn, h.regs_eq hn, h.regs_eq hn.le]
  cases h.kind hn with
  | call d htrap' s₁ hbegin hran =>
    obtain rfl := Option.some.inj (htrap.symm.trans htrap')
    rw [hop] at hbegin hran
    exact hran.answered hbegin (h.ok hn.le) h0
  | ends htrap' _ _ _ =>
    rw [htrap] at htrap'
    cases htrap'
  | quiet htrap' _ _ _ _ =>
    rw [htrap] at htrap'
    cases htrap'

/-- The task that accepts another call without an answer, or ends. -/
lemma right_dropped (hn : n < r.len) (hl : r.Lined s n) (hb : b ∈ r.live n) (h0 : r.owes n b ≠ 0)
    (hna : ¬ r.Answers n b) (hdrop : r.Accepts n b ∨ r.Dies n b) :
    (r.status (n + 1) (r.owes n b)).Runnable ∧
      r.regs (n + 1) (r.owes n b) =
        (r.regs n (r.owes n b)).setX 0 (Abi.asU64 Abi.Err.noReply) := by
  have hok := h.ok hn.le
  rw [h.owes_eq hn.le] at h0 ⊢
  rw [h.status_eq hn, h.regs_eq hn, h.regs_eq hn.le]
  rw [h.accepts_iff hn hl] at hdrop
  cases h.kind hn with
  | ends htrap _ regs hended =>
    rcases hdrop with ⟨c, _, _, htrap', -⟩ | ⟨hb', -⟩
    · rw [htrap] at htrap'
      cases htrap'
    · rw [h.task_eq hn.le] at hb'
      subst hb'
      obtain ⟨hrun, hctx⟩ := hended.dropped h0
      refine ⟨hrun, hctx.trans (congrArg (Context.setX · 0 _) ?_)⟩
      exact Function.update_of_ne (hok.replyTo_ne_current hb h0) _ _
  | quiet htrap hends _ _ _ =>
    rcases hdrop with ⟨c, _, _, htrap', -⟩ | ⟨-, hd⟩
    · rw [htrap] at htrap'
      cases htrap'
    · exact absurd hd hends
  | call c htrap s₁ hbegin hran _ hends =>
    obtain ⟨d, t, rest, htrap', hhead, hpop, hside⟩ : ∃ c t rest, r.Takes s n b c t rest :=
      hdrop.resolve_right fun hd => hends hd.2
    obtain rfl := Option.some.inj (htrap.symm.trans htrap')
    have hna' : ¬ (c.op = .replyRecv ∧ b = (s n).current) := fun ⟨ho, he⟩ =>
      hna ⟨(h.task_eq hn.le).trans he.symm, c, htrap, ho⟩
    obtain ⟨hreply, -, hctx⟩ := hbegin.right hok hb h0 hna'
    rw [← hctx, ← hreply]
    rw [← hreply] at h0
    have hmem : t ∈ (s n).queue c.ep := hhead ▸ List.mem_cons_self
    obtain ⟨hst, -⟩ := hbegin.queued hok hmem
    rw [← hbegin.queue] at hhead
    cases hran with
    | refused _ hr =>
      rw [hr.queue] at hpop
      exact (cons_ne_tail hhead hpop.symm).elim
    | waited _ hw =>
      rw [hw.queue, Function.update_self, hhead] at hpop
      have hlen := congrArg List.length hpop
      rw [List.length_append, List.length_cons] at hlen
      omega
    | given hop t' hg =>
      obtain ⟨rest', hhead', -⟩ := hg.queue
      obtain ⟨rfl, -⟩ := List.cons.inj (hhead.symm.trans hhead')
      rcases hside with ⟨ho, rfl⟩ | ⟨ho, -⟩
      · exact hg.dropped ho h0
      · exact absurd ho (IpcOp.Sends.not_receives hop)
    | taken hop t' ht =>
      obtain ⟨rest', hhead', -⟩ := ht.queue
      obtain ⟨rfl, -⟩ := List.cons.inj (hhead.symm.trans hhead')
      rcases hside with ⟨ho, -⟩ | ⟨-, hcall, rfl⟩
      · exact absurd hop (IpcOp.Sends.not_receives (.inr ho))
      · rw [h.status_eq hn.le, ← hst] at hcall
        rw [h.task_eq hn.le, ← hbegin.current] at h0 ⊢
        exact ht.dropped hcall h0

/-- The task that does neither. -/
lemma right_kept (hn : n < r.len) (hl : r.Lined s n) (hb : b ∈ r.live n) (h0 : r.owes n b ≠ 0)
    (hna : ¬ r.Answers n b) (hnc : ¬ r.Accepts n b) (hnd : ¬ r.Dies n b) :
    r.owes (n + 1) b = r.owes n b ∧ r.status (n + 1) (r.owes n b) = .blockedReply ∧
      r.regs (n + 1) (r.owes n b) = r.regs n (r.owes n b) := by
  have hok := h.ok hn.le
  have hcur := hok.inv.placed.current_live
  have hrights := hok.inv.rights
  rw [h.owes_eq hn.le] at h0 ⊢
  have hwait := hrights.waiting hb h0
  have hlive := hrights.live_caller hb h0
  rw [h.status_eq hn, h.regs_eq hn, h.regs_eq hn.le, h.owes_eq hn]
  rw [h.accepts_iff hn hl] at hnc
  cases h.kind hn with
  | ends _ hends regs hended =>
    have hne : b ≠ (s n).current := fun he => hnd ⟨(h.task_eq hn.le).trans he.symm, hends⟩
    have hstill :=
      ((Sys.still_save (r.live n) _ (s n) regs).trans hended.still rfl).waiting hok hlive
      (fun ⟨_, he⟩ => hne (hrights.unique hb hcur h0 he)) (.inr hwait)
    refine ⟨?_, hstill.1.trans hwait, hstill.2⟩
    rw [hended.replyTo]
    exact Function.update_of_ne hne _ _
  | quiet _ _ _ hreply hstill =>
    have hsame := hstill.waiting hok hlive (notMem_empty _) (.inr hwait)
    exact ⟨hreply b hb, hsame.1.trans hwait, hsame.2⟩
  | call c htrap s₁ hbegin hran =>
    have hna' : ¬ (c.op = .replyRecv ∧ b = (s n).current) := fun ⟨ho, he⟩ =>
      hna ⟨(h.task_eq hn.le).trans he.symm, c, htrap, ho⟩
    obtain ⟨hreply, hstate, hctx⟩ := hbegin.right hok hb h0 hna'
    have hok₁ := hbegin.ok
    have hrights₁ := hok₁.inv.rights
    rw [← hctx, ← hreply]
    rw [← hreply] at h0 hstate hlive
    cases hran with
    | refused _ hr =>
      rw [hr.replyTo, hr.state, hr.ctx,
        Function.update_of_ne (hok₁.replyTo_ne_current hb h0)]
      exact ⟨rfl, hstate, rfl⟩
    | waited _ hw =>
      have hsame := hw.still.waiting hok₁ hlive (notMem_empty _) (.inr hstate)
      rw [hw.replyTo]
      exact ⟨rfl, hsame.1.trans hstate, hsame.2⟩
    | given hop t hg =>
      obtain ⟨rest, hhead, hqueue⟩ := hg.queue
      have hnot : ¬ (c.op = .call ∧ b = t) := fun ht => hnc ⟨c, t, rest, htrap,
        hbegin.queue ▸ hhead,
        by rw [hqueue, Function.update_self], .inl ht⟩
      have hmem : t ∈ s₁.queue c.ep := hhead ▸ List.mem_cons_self
      have hsame := hg.still.waiting hok₁ hlive ?_ (.inr hstate)
      · refine ⟨?_, hsame.1.trans hstate, hsame.2⟩
        by_cases ho : c.op = .call
        · rw [(hg.called ho).2.2]
          exact Function.update_of_ne (fun he => hnot ⟨ho, he⟩) _ _
        · rw [(hg.sent ho).2.2]
      · rintro (he | ⟨ho, -, he⟩)
        · rw [he, hg.receiver] at hstate
          cases hstate
        · exact hnot ⟨ho, hrights₁.unique hb (hok₁.inv.placed.queue_live hmem) h0 he⟩
    | taken hop t ht =>
      obtain ⟨rest, hhead, hqueue⟩ := ht.queue
      have hmem : t ∈ s₁.queue c.ep := hhead ▸ List.mem_cons_self
      obtain ⟨hst, -⟩ := hbegin.queued hok (e := c.ep) (hbegin.queue ▸ hmem)
      have hnot : ¬ (s₁.state t = .blockedCall ∧ b = s₁.current) := by
        rintro ⟨hcall, he⟩
        rw [hst, ← h.status_eq hn.le] at hcall
        rw [hbegin.current, ← h.task_eq hn.le] at he
        exact hnc ⟨c, t, rest, htrap, hbegin.queue ▸ hhead,
          by rw [hqueue, Function.update_self], .inr ⟨hop, hcall, he⟩⟩
      have hsame := ht.still.waiting hok₁ hlive ?_ (.inr hstate)
      · refine ⟨?_, hsame.1.trans hstate, hsame.2⟩
        rcases ht.sender with hs | hs
        · rw [(ht.sent hs).2.2]
        · rw [(ht.called hs).2.2]
          exact Function.update_of_ne (fun he => hnot ⟨hs, he⟩) _ _
      · rintro (he | ⟨hs, -, he⟩)
        · rcases ht.sender with hc | hc <;> rw [← he, hstate] at hc <;> cases hc
        · exact hnot ⟨hs, hrights₁.unique hb hok₁.inv.placed.current_live h0 he⟩

end Shadow

/-! ### Calls that return -/

/-- The `CALL` of step `j` waits, for a receiver and then for its answer, until step `n`, in which
it returns. -/
structure Returns (r : Run I.pool k₀) (j n : ℕ) (c : IpcTrap) : Prop where
  lt : n < r.len
  gt : j < n
  trap : r.trap j = some c
  op : c.op = .call
  waits : ∀ l, j < l → l ≤ n →
    r.status l (r.task j) = .blockedCall ∨ r.status l (r.task j) = .blockedReply
  done : r.status (n + 1) (r.task j) ≠ .blockedCall ∧ r.status (n + 1) (r.task j) ≠ .blockedReply

/-- A call returns once. -/
lemma Returns.unique (h : r.Returns j n c) (h' : r.Returns j m d) : n = m := by
  have hlt : ∀ {n m c d}, r.Returns j n c → r.Returns j m d → ¬ n < m := by
    intro n m c d h h' hlt
    rcases h'.waits (n + 1) (Nat.lt_succ_of_lt h.gt) hlt with hw | hw
    · exact h.done.1 hw
    · exact h.done.2 hw
  exact Nat.le_antisymm (Nat.not_lt.mp (hlt h' h)) (Nat.not_lt.mp (hlt h h'))

/-- The caller of step `j` waits for the answer of `b` since step `m`. -/
structure Owed (r : Run I.pool k₀) (j b m : ℕ) (c : IpcTrap) : Prop where
  sent : r.Sent j m c
  op : c.op = .call
  live : b ∈ r.live m
  right : r.owes (m + 1) b = r.task j

/-- Less has happened in a shorter time. -/
lemma Pending.mono {l : ℕ} (h : r.Pending b m n) (hl : l ≤ n) : r.Pending b m l :=
  fun i hm hi => h i hm (hi.trans_le hl)

namespace Shadow

variable (h : r.Shadow memory reserved root s) (h0 : ∀ e, (s 0).queue e = [])
include h h0

/-- A caller waits for the task that has received its message. -/
lemma owed_of_sent (hs : r.Sent j m c) (hop : c.op = .call) {j' : ℕ} (hr : r.Received j' m d) :
    r.Owed j (r.task j') m c := by
  obtain ⟨b, d', hp⟩ := h.passes_of_sent (h.lined h0 hs.lt.le) hs
  obtain rfl := hp.received_unique j' d hr
  exact ⟨hs, hop, h.live_mono hs.lt.le hr.le (h.task_live (hr.le.trans hs.lt.le)), hp.right hop⟩

/-- The caller waits as long as the receiver neither answers nor accepts another call nor ends. -/
lemma owed_pending (ho : r.Owed j b m c) (hm : m < n) (hn : n ≤ r.len) (hp : r.Pending b m n) :
    r.owes n b = r.task j ∧ r.status n (r.task j) = .blockedReply := by
  have hne : r.task j ≠ 0 := by
    have hlen := ho.sent.le.trans ho.sent.lt.le
    exact ne_of_mem_of_not_mem (h.task_live hlen) (h.ok hlen).inv.placed.zero
  induction n, hm using Nat.le_induction with
  | base => exact ⟨ho.right, ho.sent.call ho.op⟩
  | succ n hmn ih =>
    obtain ⟨howes, -⟩ := ih (Nat.le_of_succ_le hn) (hp.mono n.le_succ)
    obtain ⟨hna, hnc, hnd⟩ := hp n hmn n.lt_succ_self
    have hb := h.live_mono (Nat.le_of_succ_le hn) (Nat.le_of_succ_le hmn) ho.live
    obtain ⟨hkeep, hstate, -⟩ :=
      h.right_kept hn (h.lined h0 (Nat.le_of_succ_le hn)) hb (howes.symm ▸ hne) hna hnc hnd
    rw [howes] at hkeep hstate
    exact ⟨hkeep, hstate⟩

/-- What the next step does to the caller then. -/
lemma owed_step (ho : r.Owed j b m c) (hm : m < n) (hn : n < r.len) (hp : r.Pending b m n) :
    (∀ d, r.task n = b → r.trap n = some d → d.op = .replyRecv →
      (r.status (n + 1) (r.task j)).Runnable ∧
        r.regs (n + 1) (r.task j) = deliver d.regs (r.regs n (r.task j))) ∧
    (¬ r.Answers n b → r.Accepts n b ∨ r.Dies n b → (r.status (n + 1) (r.task j)).Runnable ∧
      r.regs (n + 1) (r.task j) =
        (r.regs n (r.task j)).setX 0 (Abi.asU64 Abi.Err.noReply)) ∧
    (¬ r.Answers n b → ¬ r.Accepts n b → ¬ r.Dies n b →
      r.status (n + 1) (r.task j) = .blockedReply) := by
  obtain ⟨howes, -⟩ := h.owed_pending h0 ho hm hn.le hp
  have hlen := ho.sent.le.trans ho.sent.lt.le
  have hne : r.owes n b ≠ 0 := by
    rw [howes]
    exact ne_of_mem_of_not_mem (h.task_live hlen) (h.ok hlen).inv.placed.zero
  have hb := h.live_mono hn.le hm.le ho.live
  have hl := h.lined h0 hn.le
  rw [← howes]
  refine ⟨?_, h.right_dropped hn hl hb hne,
    fun hna hnc hnd => (h.right_kept hn hl hb hne hna hnc hnd).2.1⟩
  rintro d rfl htrap hop
  exact h.right_answered hn hne htrap hop

/-- A call returns in the step in which its receiver answers, accepts another call or ends for the
first time. -/
lemma returns_iff (ho : r.Owed j b m c) : r.Returns j n c ↔ m < n ∧ n < r.len ∧ r.Pending b m n ∧
    (r.Answers n b ∨ r.Accepts n b ∨ r.Dies n b) := by
  -- such a step lets the caller run again
  have hruns : ∀ {n}, m < n → n < r.len → r.Pending b m n →
      r.Answers n b ∨ r.Accepts n b ∨ r.Dies n b → (r.status (n + 1) (r.task j)).Runnable := by
    intro n hm hn hp hev
    obtain ⟨hans, hdrop, -⟩ := h.owed_step h0 ho hm hn hp
    by_cases ha : r.Answers n b
    · obtain ⟨hb, d, htrap, hop⟩ := ha
      exact (hans d hb htrap hop).1
    · exact (hdrop ha (hev.resolve_left ha)).1
  have hblock : c.op.waiting = .blockedCall := by rw [ho.op]; rfl
  constructor
  · intro hret
    have hm : m < n := by
      by_contra hc
      rcases Nat.lt_or_eq_of_le (Nat.not_lt.mp hc) with hlt | rfl
      · exact hret.done.1 ((ho.sent.waits (n + 1) (Nat.lt_succ_of_lt hret.gt) hlt).trans hblock)
      · exact hret.done.2 (ho.sent.call ho.op)
    have hp : r.Pending b m n := by
      intro l hml
      induction l using Nat.strong_induction_on with
      | _ l ih =>
        intro hln
        have hpl : r.Pending b m l := fun l' hl' hlt => ih l' hlt hl' (hlt.trans hln)
        have hnone : ¬ (r.Answers l b ∨ r.Accepts l b ∨ r.Dies l b) := by
          intro hev
          have hrun := hruns hml (hln.trans hret.lt) hpl hev
          have hgt : j < l + 1 := Nat.lt_succ_of_le (ho.sent.le.trans hml.le)
          rcases hret.waits (l + 1) hgt hln with hw | hw <;> rw [hw] at hrun <;>
            rcases hrun with hrun | hrun <;> cases hrun
        exact ⟨fun hc => hnone (.inl hc), fun hc => hnone (.inr (.inl hc)),
          fun hc => hnone (.inr (.inr hc))⟩
    refine ⟨hm, hret.lt, hp, ?_⟩
    by_contra hnone
    push Not at hnone
    exact hret.done.2 ((h.owed_step h0 ho hm hret.lt hp).2.2 hnone.1 hnone.2.1 hnone.2.2)
  · rintro ⟨hm, hn, hp, hev⟩
    have hrun := hruns hm hn hp hev
    refine ⟨hn, ho.sent.le.trans_lt hm, ho.sent.trap, ho.op, fun l hl hln => ?_, ?_⟩
    · rcases Nat.lt_or_ge m l with hml | hml
      · exact .inr (h.owed_pending h0 ho hml (hln.trans hn.le) (hp.mono hln)).2
      · exact .inl ((ho.sent.waits l hl hml).trans hblock)
    · constructor <;> intro hc <;> rw [hc] at hrun <;> rcases hrun with hrun | hrun <;> cases hrun

/-- The message of a call that returns has been received before. -/
lemma sent_of_returns (hret : r.Returns j n c) : ∃ m < n, r.Sent j m c := by
  have hw : ¬ r.Waits j (n + 1) c.op.waiting := by
    intro hw
    refine hret.done.1 ((hw (n + 1) (Nat.lt_succ_of_lt hret.gt) le_rfl).trans ?_)
    rw [hret.op]
    rfl
  obtain ⟨m, hm, hc⟩ := exists_completes hret.lt hret.trap hw
  rcases h.passes_or_refused (h.lined h0 hc.lt.le) hc with
    ⟨a, b, d, d', hp, rfl | rfl⟩ | ⟨rfl, -, -, hrun, -⟩
  · obtain rfl := Option.some.inj (hret.trap.symm.trans hp.sent.trap)
    refine ⟨m, lt_of_le_of_ne (Nat.le_of_lt_succ hm) ?_, hp.sent⟩
    rintro rfl
    exact hret.done.2 (hp.sent.call hret.op)
  · obtain rfl := Option.some.inj (hret.trap.symm.trans hp.received.trap)
    exact absurd hp.received.receives (IpcOp.Sends.not_receives (.inr hret.op))
  · rcases hret.waits (j + 1) j.lt_succ_self hret.gt with hw | hw <;> rw [hw] at hrun <;>
      rcases hrun with hrun | hrun <;> cases hrun

/-- A `REPLY_RECV` of a task that owes nobody an answer wakes no caller. -/
lemma replyRecv_wakes_nobody (hn : n < r.len) (htrap : r.trap n = some c) (hop : c.op = .replyRecv)
    (hzero : r.owes n (r.task n) = 0) (ht : t ∈ r.live n) (hst : r.status n t = .blockedReply) :
    r.status (n + 1) t = .blockedReply ∧ r.regs (n + 1) t = r.regs n t := by
  have hok := h.ok hn.le
  rw [h.status_eq hn.le] at hst
  obtain ⟨b, hb, howes⟩ := hok.inv.rights.holder ht hst
  rw [← h.owes_eq hn.le] at howes
  have hne0 : r.owes n b ≠ 0 := by
    rw [howes]
    exact ne_of_mem_of_not_mem ht hok.inv.placed.zero
  have hne : b ≠ r.task n := by
    rintro rfl
    exact hne0 hzero
  have hl := h.lined h0 hn.le
  have hnc : ¬ r.Accepts n b := by
    rw [h.accepts_iff hn hl]
    rintro ⟨d, u, rest, htrap', -, -, ⟨hcall, -⟩ | ⟨-, -, he⟩⟩
    · obtain rfl := Option.some.inj (htrap.symm.trans htrap')
      rw [hop] at hcall
      cases hcall
    · exact hne he
  have hkept := h.right_kept hn hl hb hne0 (fun ha => hne ha.1.symm) hnc fun hd => hne hd.1.symm
  rw [howes] at hkept
  exact hkept.2

omit h0 in
/-- And its message reaches no other task. -/
lemma replyRecv_delivers_nothing (hn : n < r.len) (htrap : r.trap n = some c)
    (hop : c.op = .replyRecv) (hzero : r.owes n (r.task n) = 0) (hne : t ≠ r.task n) :
    (r.regs n t).Words (r.regs (n + 1) t) := by
  rw [h.owes_eq hn.le] at hzero
  rw [h.task_eq hn.le] at hzero hne
  rw [h.regs_eq hn, h.regs_eq hn.le]
  cases h.kind hn with
  | ends htrap' _ _ _ =>
    rw [htrap] at htrap'
    cases htrap'
  | quiet htrap' _ _ _ _ =>
    rw [htrap] at htrap'
    cases htrap'
  | call d htrap' s₁ hbegin hran =>
    obtain rfl := Option.some.inj (htrap.symm.trans htrap')
    have hsame : s₁.ctx t = (s n).ctx t := hbegin.other t hne fun hc => hc.2.1 hzero
    have hzero₁ : s₁.replyTo s₁.current = 0 := by
      rw [hbegin.replyTo, if_pos hop, hbegin.current, Function.update_self]
    rw [← hbegin.current] at hne
    rw [← hsame]
    cases hran with
    | refused _ hr =>
      rw [hr.ctx, Function.update_of_ne hne]
      exact fun _ _ _ => rfl
    | waited _ hw =>
      rw [hw.ctx]
      exact fun _ _ _ => rfl
    | given hop' _ _ =>
      rw [hop] at hop'
      rcases hop' with hop' | hop' <;> cases hop'
    | taken _ u hu =>
      by_cases he : t = u
      · subst he
        rcases hu.sender with hs | hs
        · rw [(hu.sent hs).2.1]
          exact Context.words_setX _ _
        · rw [(hu.called hs).2.1]
          exact fun _ _ _ => rfl
      · rw [hu.other t hne he fun hc => hc.2.1 hzero₁]
        exact fun _ _ _ => rfl

end Shadow

/-- **Calls.** In every run from the handoff,
* a `CALL` returns at most once, and only after its message has been received;
* it returns zero in the step in which the task that has received its message makes its first
  `REPLY_RECV` on a valid endpoint, if this task has not accepted another call and has not ended
  before; `x1` is zero then, and `x2` to `x5` are the words of that `REPLY_RECV`;
* it returns `NO_REPLY` in the step in which that task accepts another call or ends for the first
  time, if it has not made such a `REPLY_RECV` before or in that step;
* it returns nothing else, so no other task and no plain message makes it return;
* a `REPLY_RECV` of a task that owes nobody an answer wakes no caller and changes the message
  registers of no other task.

**Proof sketch.** A step can take the reply right from its holder in three ways only: the holder
answers, accepts another call or ends. The first two can coincide in a `REPLY_RECV`, which answers
first. Until then the right stays, and the caller waits; so by induction on the run the call returns
in the first such step. -/
theorem calls_answered (hboot : boot I i = some k₀) (r : Run I.pool k₀) :
    (∀ j n m c d, r.Returns j n c → r.Returns j m d → n = m) ∧
    (∀ j n c, r.Returns j n c → ∃ m < n, r.Sent j m c) ∧
    (∀ j j' m c c', r.Sent j m c → c.op = .call → r.Received j' m c' →
      (∀ n, r.Returns j n c ∧ (r.regs (n + 1) (r.task j)).x 0 = 0 ↔
        m < n ∧ n < r.len ∧ r.Pending (r.task j') m n ∧ r.Answers n (r.task j')) ∧
      (∀ n d, r.Returns j n c → (r.regs (n + 1) (r.task j)).x 0 = 0 → r.trap n = some d →
        (r.regs (n + 1) (r.task j)).x 1 = 0 ∧ d.regs.Words (r.regs (n + 1) (r.task j))) ∧
      (∀ n, r.Returns j n c ∧
          (r.regs (n + 1) (r.task j)).x 0 = Abi.asU64 Abi.Err.noReply ↔
        m < n ∧ n < r.len ∧ r.Pending (r.task j') m n ∧ ¬ r.Answers n (r.task j') ∧
          (r.Accepts n (r.task j') ∨ r.Dies n (r.task j'))) ∧
      (∀ n, r.Returns j n c → (r.regs (n + 1) (r.task j)).x 0 = 0 ∨
        (r.regs (n + 1) (r.task j)).x 0 = Abi.asU64 Abi.Err.noReply)) ∧
    (∀ n c, n < r.len → r.trap n = some c → c.op = .replyRecv → r.owes n (r.task n) = 0 →
      (∀ t ∈ r.live n, r.status n t = .blockedReply →
        r.status (n + 1) t = .blockedReply ∧ r.regs (n + 1) t = r.regs n t) ∧
      ∀ t, t ≠ r.task n → (r.regs n t).Words (r.regs (n + 1) t)) := by
  obtain ⟨memory, reserved, root, s, h, h0⟩ := exists_shadow hboot r
  refine ⟨fun j n m c d h1 h2 => h1.unique h2, fun j n c => h.sent_of_returns h0,
    fun j j' m c c' hs hop hr => ?_, fun n c hn htrap hop hz =>
      ⟨fun t => h.replyRecv_wakes_nobody h0 hn htrap hop hz,
        fun t => h.replyRecv_delivers_nothing hn htrap hop hz⟩⟩
  have ho := h.owed_of_sent h0 hs hop hr
  have hne : Abi.asU64 Abi.Err.noReply ≠ 0 := by decide
  -- what the call returns with, by what its receiver does
  have hans : ∀ {n d}, m < n → n < r.len → r.Pending (r.task j') m n → r.task n = r.task j' →
      r.trap n = some d → d.op = .replyRecv →
      r.regs (n + 1) (r.task j) = deliver d.regs (r.regs n (r.task j)) :=
    fun hm hn hp hb htrap hop => ((h.owed_step h0 ho hm hn hp).1 _ hb htrap hop).2
  have hdrop : ∀ {n}, m < n → n < r.len → r.Pending (r.task j') m n → ¬ r.Answers n (r.task j') →
      r.Accepts n (r.task j') ∨ r.Dies n (r.task j') →
      (r.regs (n + 1) (r.task j)).x 0 = Abi.asU64 Abi.Err.noReply := by
    intro n hm hn hp hna hev
    rw [((h.owed_step h0 ho hm hn hp).2.1 hna hev).2, Context.x_setX_self]
  have hzero : ∀ {n}, m < n → n < r.len → r.Pending (r.task j') m n → r.Answers n (r.task j') →
      (r.regs (n + 1) (r.task j)).x 0 = 0 := by
    rintro n hm hn hp ⟨hb, d, htrap, hop⟩
    rw [hans hm hn hp hb htrap hop]
    rfl
  refine ⟨fun n => ⟨?_, ?_⟩, fun n d hret hx htrap => ?_, fun n => ⟨?_, ?_⟩, fun n hret => ?_⟩
  · rintro ⟨hret, hx⟩
    obtain ⟨hm, hn, hp, hev⟩ := (h.returns_iff h0 ho).mp hret
    refine ⟨hm, hn, hp, ?_⟩
    by_contra hna
    exact hne ((hdrop hm hn hp hna (hev.resolve_left hna)).symm.trans hx)
  · rintro ⟨hm, hn, hp, ha⟩
    exact ⟨(h.returns_iff h0 ho).mpr ⟨hm, hn, hp, .inl ha⟩, hzero hm hn hp ha⟩
  · obtain ⟨hm, hn, hp, hev⟩ := (h.returns_iff h0 ho).mp hret
    by_cases ha : r.Answers n (r.task j')
    · obtain ⟨hb, d', htrap', hop'⟩ := ha
      obtain rfl := Option.some.inj (htrap.symm.trans htrap')
      rw [hans hm hn hp hb htrap hop']
      exact ⟨rfl, Context.words_deliver _ _⟩
    · exact absurd ((hdrop hm hn hp ha (hev.resolve_left ha)).symm.trans hx) hne
  · rintro ⟨hret, hx⟩
    obtain ⟨hm, hn, hp, hev⟩ := (h.returns_iff h0 ho).mp hret
    have hna : ¬ r.Answers n (r.task j') := fun ha => hne (hx.symm.trans (hzero hm hn hp ha))
    exact ⟨hm, hn, hp, hna, hev.resolve_left hna⟩
  · rintro ⟨hm, hn, hp, hna, hev⟩
    exact ⟨(h.returns_iff h0 ho).mpr ⟨hm, hn, hp, .inr hev⟩, hdrop hm hn hp hna hev⟩
  · obtain ⟨hm, hn, hp, hev⟩ := (h.returns_iff h0 ho).mp hret
    by_cases ha : r.Answers n (r.task j')
    · exact .inl (hzero hm hn hp ha)
    · exact .inr (hdrop hm hn hp ha (hev.resolve_left ha))

/-- On the small machine these events are a run, in which the second task receives the call in
step 5 and answers in step 6. -/
lemma answers_callFirst : ∃ k₀, boot smallImage smallMachine = some k₀ ∧
    ∃ (r : Run smallImage.pool k₀) (c d : IpcTrap), r.len = 7 ∧ r.Sent 4 5 c ∧ c.op = .call ∧
      r.Received 5 5 d ∧ r.Answers 6 (r.task 5) := by
  obtain ⟨k₀, k₄, k₅, k₆, h⟩ := exists_callFirst
  obtain ⟨k₇, hk₇⟩ := Option.isSome_iff_exists.mp h.reply
  have hrun₅ : k₀.run smallImage.pool (callFirst.take 5) = some k₅ := run_concat h.start h.call
  have hrun₆ : k₀.run smallImage.pool (callFirst.take 6) = some k₆ := run_concat hrun₅ h.recv
  have hrun₇ : k₀.run smallImage.pool callFirst = some k₇ := run_concat hrun₆ hk₇
  let r := ofEvents smallImage.pool k₀ callFirst (Option.isSome_of_eq_some hrun₇)
  have h₄ : r.state 4 = k₄ := congrArg (Option.getD · k₀) h.start
  have h₅ : r.state 5 = k₅ := congrArg (Option.getD · k₀) hrun₅
  have h₆ : r.state 6 = k₆ := congrArg (Option.getD · k₀) hrun₆
  have hfit : 0x800004000 + Abi.kernelVaOffset < 2 ^ 64 := by decide
  have htrap₄ := @ipc?_syscall _ _ Abi.Syscall.call .call (h.slots k₄ (by simp)).2 hfit rfl
  have htrap₅ := @ipc?_syscall _ _ Abi.Syscall.recv .recv (h.slots k₅ (by simp)).2 hfit rfl
  have htrap₆ :=
    @ipc?_syscall _ _ Abi.Syscall.replyRecv .replyRecv (h.slots k₆ (by simp)).2 hfit rfl
  rw [← h₄] at htrap₄
  rw [← h₅] at htrap₅
  rw [← h₆] at htrap₆
  have hlen : r.len = 7 := rfl
  refine ⟨k₀, h.boot, r, _, _, hlen, ⟨⟨by omega, by omega, htrap₄, fun l hl hle => ?_, ?_⟩,
    .inr rfl, nofun, fun _ => ?_⟩, rfl, ⟨completes_self (by omega) htrap₅ ?_, .inl rfl, ?_⟩, ?_,
    _, htrap₆, rfl⟩
  · obtain rfl : l = 5 := by omega
    unfold status task
    rw [h₄, h₅, h.current₄, h.calling]
    rfl
  · unfold status task
    rw [h₄, h₆, h.current₄, h.waiting]
    nofun
  · unfold status task
    rw [h₄, h₆, h.current₄, h.waiting]
  · unfold status task
    rw [h₅, h₆, h.current₅, h.running]
    nofun
  · unfold regs task
    rw [h₅, h₆, h.current₅]
    exact h.success
  · unfold task
    rw [h₅, h₆, h.current₅]
    exact h.current₆

/-- The call of the root task returns with the answer there. -/
theorem calls_answered_callFirst : ∃ k₀, boot smallImage smallMachine = some k₀ ∧
    ∃ (r : Run smallImage.pool k₀) (c : IpcTrap), r.Returns 4 6 c ∧
      (r.regs 7 (r.task 4)).x 0 = 0 := by
  obtain ⟨k₀, hboot, r, c, d, hlen, hs, hop, hr, ha⟩ := answers_callFirst
  have hp : r.Pending (r.task 5) 5 6 := fun l h5 h6 => absurd h6 (Nat.not_lt.mpr h5)
  exact ⟨k₀, hboot, r, c,
    (((calls_answered hboot r).2.2.1 4 5 5 c d hs hop hr).1 6).mpr ⟨by decide, by omega, hp, ha⟩⟩

end Kernel.Run

end K0
