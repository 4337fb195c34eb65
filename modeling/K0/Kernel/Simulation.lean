import K0.Boot.Memory
import K0.Kernel.Steps

set_option relaxedAutoImplicit false
set_option autoImplicit false

/-!
# The kernel simulates the abstract task system

The control blocks and the endpoints of the kernel are those that its capabilities stand for,
besides the static control block of the root task. With this reading every step of the kernel is
a step of `K0.World`, from the handoff on.

## Main definitions

* `K0.CNode.tcbs`, `K0.CNode.endpoints`: the control blocks and endpoints, by kernel address.
* `K0.Accounts`: what the capabilities guarantee about physical memory.
* `K0.Kernel.Sim`: the relation between the kernel and the abstract system.

## Main results

* `K0.Stages.sim`: the relation holds at the handoff.
* `K0.Kernel.Sim.step`: every step of the kernel is a step of the abstract system.
* `K0.Kernel.sim_of_reaches`: the relation holds in every reachable state.
-/

namespace K0

open Word Memory

/-! ### Control blocks and endpoints -/

/-- A capability that may be overwritten without any effect on control blocks, endpoints,
untyped memory and the address space. -/
def Cap.plain : Cap → Bool
  | .frame _ _ => true
  | .pageTable _ _ => true
  | _ => false

namespace CNode

/-- The kernel addresses of the control blocks. -/
def tcbs (rootTcb : ℕ) (c : CNode) : Set ℕ :=
  {t | t = rootTcb ∨ ∃ i base, c.cap i = some (.tcb base) ∧ t = base + Abi.kernelVaOffset}

/-- The kernel addresses of the endpoints. -/
def endpoints (c : CNode) : Set ℕ :=
  {e | ∃ i base, c.cap i = some (.endpoint base) ∧ e = base + Abi.kernelVaOffset}

variable {c d : CNode} {rootTcb i : ℕ} {v v' : Cap}

/-- Where a node differs from another one only in a plain capability, it holds the same others. -/
lemma cap_set_iff (hi : c.cap i = some v) (hv : v.plain = true) (hv' : v'.plain = true)
    {u : Cap} (hu : u.plain = false) (j : ℕ) :
    (c.set i v').cap j = some u ↔ c.cap j = some u := by
  rw [cap_set (lt_used_of_cap hi)]
  by_cases h : j = i
  · subst h
    rw [if_pos rfl, hi]
    constructor
    · intro e
      rw [← Option.some.inj e, hv'] at hu
      cases hu
    · intro e
      rw [← Option.some.inj e, hv] at hu
      cases hu
  · rw [if_neg h]

/-- Overwriting a plain capability keeps the control blocks. -/
lemma tcbs_set (hi : c.cap i = some v) (hv : v.plain = true) (hv' : v'.plain = true) :
    (c.set i v').tcbs rootTcb = c.tcbs rootTcb := by
  ext t
  simp only [tcbs, Set.mem_ofPred_eq, cap_set_iff hi hv hv' (u := .tcb _) rfl]

/-- Overwriting a plain capability keeps the endpoints. -/
lemma endpoints_set (hi : c.cap i = some v) (hv : v.plain = true)
    (hv' : v'.plain = true) : (c.set i v').endpoints = c.endpoints := by
  ext e
  simp only [endpoints, Set.mem_ofPred_eq, cap_set_iff hi hv hv' (u := .endpoint _) rfl]

variable {slot base size used g carve : ℕ} {kind : ObjKind}

/-- Carving an object keeps the old ones and adds one at the granule. -/
lemma cap_retyped_object (hcap : c.cap slot = some (.untyped base size used))
    (h : c.retyped d slot base size g carve kind) {u : Cap} (hu : u.object?.isSome = true)
    (j : ℕ) :
    d.cap j = some u ↔ c.cap j = some u ∨ (j = c.used ∧ u = kind.cap carve) := by
  rw [cap_retyped hcap h]
  by_cases h1 : j = c.used
  · rw [if_pos h1]
    have hnone : c.cap j = none := cap_eq_none.mpr h1.ge
    rw [hnone, Option.some.injEq]
    constructor
    · intro e
      exact .inr ⟨h1, e.symm⟩
    · rintro (e | ⟨-, e⟩)
      · cases e
      · exact e.symm
  · rw [if_neg h1]
    by_cases h2 : j = slot
    · rw [if_pos h2, h2, hcap]
      constructor
      · intro e
        rw [← Option.some.inj e] at hu
        cases hu
      · rintro (e | ⟨e, -⟩)
        · rw [← Option.some.inj e] at hu
          cases hu
        · exact absurd (h2.trans e) h1
    · rw [if_neg h2]
      constructor
      · exact .inl
      · rintro (e | ⟨e, -⟩)
        · exact e
        · exact absurd e h1

/-- The control blocks after carving an object. -/
lemma mem_tcbs_retyped (hcap : c.cap slot = some (.untyped base size used))
    (h : c.retyped d slot base size g carve kind) {t : ℕ} :
    t ∈ d.tcbs rootTcb ↔
      t ∈ c.tcbs rootTcb ∨ (kind = .tcb ∧ t = carve + Abi.kernelVaOffset) := by
  simp only [tcbs, Set.mem_ofPred_eq, cap_retyped_object hcap h (u := .tcb _) rfl]
  constructor
  · rintro (e | ⟨j, b, e | ⟨-, e⟩, rfl⟩)
    · exact .inl (.inl e)
    · exact .inl (.inr ⟨j, b, e, rfl⟩)
    · cases kind <;> simp only [ObjKind.cap, reduceCtorEq, Cap.tcb.injEq] at e
      exact .inr ⟨rfl, by rw [e]⟩
  · rintro ((e | ⟨j, b, e, rfl⟩) | ⟨rfl, rfl⟩)
    · exact .inl e
    · exact .inr ⟨j, b, .inl e, rfl⟩
    · exact .inr ⟨_, _, .inr ⟨rfl, rfl⟩, rfl⟩

/-- The endpoints after carving an object. -/
lemma mem_endpoints_retyped (hcap : c.cap slot = some (.untyped base size used))
    (h : c.retyped d slot base size g carve kind) {e : ℕ} :
    e ∈ d.endpoints ↔
      e ∈ c.endpoints ∨ (kind = .endpoint ∧ e = carve + Abi.kernelVaOffset) := by
  simp only [endpoints, Set.mem_ofPred_eq, cap_retyped_object hcap h (u := .endpoint _) rfl]
  constructor
  · rintro ⟨j, b, e | ⟨-, e⟩, rfl⟩
    · exact .inl ⟨j, b, e, rfl⟩
    · cases kind <;> simp only [ObjKind.cap, reduceCtorEq, Cap.endpoint.injEq] at e
      exact .inr ⟨rfl, by rw [e]⟩
  · rintro (⟨j, b, e, rfl⟩ | ⟨rfl, rfl⟩)
    · exact ⟨j, b, .inl e, rfl⟩
    · exact ⟨_, _, .inr ⟨rfl, rfl⟩, rfl⟩

end CNode

/-! ### The accounts -/

/-- Overwriting a plain capability by one of the same object keeps the ledger. -/
lemma Ledger.set {memory reserved : List PhysRegion} {g i : ℕ} {c : CNode} {v v' : Cap}
    (h : Ledger memory reserved g c) (hi : c.cap i = some v) (hv : v.plain = true)
    (hv' : v'.plain = true) (ho : v'.object? = v.object?) :
    Ledger memory reserved g (c.set i v') := by
  have hun : ∀ {j b s u}, (c.set i v').cap j = some (.untyped b s u) ↔
      c.cap j = some (.untyped b s u) := CNode.cap_set_iff hi hv hv' rfl _
  -- every capability has the object of the one that it replaces
  have hold : ∀ {j u}, (c.set i v').cap j = some u →
      ∃ u', c.cap j = some u' ∧ u.object? = u'.object? := by
    intro j u hu
    rw [CNode.cap_set (CNode.lt_used_of_cap hi)] at hu
    by_cases hj : j = i
    · rw [if_pos hj] at hu
      obtain rfl := Option.some.inj hu
      exact ⟨v, hj ▸ hi, ho⟩
    · rw [if_neg hj] at hu
      exact ⟨u, hu, rfl⟩
  refine ⟨?_, ?_, ?_, ?_, ?_, ?_⟩
  · intro j b s u hj
    exact h.valid j b s u (hun.mp hj)
  · intro j b s u hj
    exact h.inside j b s u (hun.mp hj)
  · intro j b s u hj
    exact h.clear j b s u (hun.mp hj)
  · intro j j' b s u b' s' u' hne hj hj'
    exact h.apart j j' b s u b' s' u' hne (hun.mp hj) (hun.mp hj')
  · intro j u p hj hp
    obtain ⟨u', hu', hobj⟩ := hold hj
    obtain ⟨hdvd, j', b, s, w, hj', hle⟩ := h.source j u' p hu' (hobj ▸ hp)
    exact ⟨hdvd, j', b, s, w, hun.mpr hj', hle⟩
  · intro j j' u u' p p' hne hj hj' hp hp'
    obtain ⟨w, hw, hobj⟩ := hold hj
    obtain ⟨w', hw', hobj'⟩ := hold hj'
    exact h.distinct j j' w w' p p' hne hw hw' (hobj ▸ hp) (hobj' ▸ hp')

/-- What the capabilities guarantee about physical memory: the ledger, whose reserved regions
include the kernel image; every object has an alias; there is one address space. -/
structure Accounts {P : Platform} (I : Image P) (memory reserved : List PhysRegion) (root : ℕ)
    (c : CNode) : Prop where
  ledger : Ledger memory reserved P.granule c
  image : ⟨I.kernelStart, I.kernelEnd - I.kernelStart⟩ ∈ reserved
  high : ∀ i v p, c.cap i = some v → v.object? = some p → p + Abi.kernelVaOffset < 2 ^ 64
  space : ∀ i r, c.cap i = some (.addrSpace r) → r = root

namespace Accounts

variable {P : Platform} {I : Image P} {memory reserved : List PhysRegion} {root : ℕ} {c d : CNode}

/-- Overwriting a plain capability by one of the same object keeps the accounts. -/
lemma set {i : ℕ} {v v' : Cap} (h : Accounts I memory reserved root c) (hi : c.cap i = some v)
    (hv : v.plain = true) (hv' : v'.plain = true)
    (ho : v'.object? = v.object?) : Accounts I memory reserved root (c.set i v') := by
  refine ⟨h.ledger.set hi hv hv' ho, h.image, ?_, ?_⟩
  · intro j u p hj hp
    rw [CNode.cap_set (CNode.lt_used_of_cap hi)] at hj
    by_cases he : j = i
    · rw [if_pos he] at hj
      obtain rfl := Option.some.inj hj
      exact h.high i v p hi (ho ▸ hp)
    · rw [if_neg he] at hj
      exact h.high j u p hj hp
  · intro j r hj
    exact h.space j r ((CNode.cap_set_iff hi hv hv' rfl j).mp hj)

variable {slot base size used : ℕ} {kind : ObjKind}

/-- Carving an object with an alias keeps the accounts. -/
lemma retyped (h : Accounts I memory reserved root c)
    (hcap : c.cap slot = some (.untyped base size used))
    (hleft : GranuleLeft P.granule base size used)
    (hlt : roundUp P.granule (base + used) + Abi.kernelVaOffset < 2 ^ 64)
    (hd : c.retyped d slot base size P.granule (roundUp P.granule (base + used)) kind) :
    Accounts I memory reserved root d := by
  refine ⟨h.ledger.retyped P.granule_pos hcap hleft hd, h.image, ?_, ?_⟩
  · intro j u p hj hp
    rcases (CNode.cap_retyped_object hcap hd (by rw [hp]; rfl) j).mp hj with hj | ⟨-, rfl⟩
    · exact h.high j u p hj hp
    · rw [ObjKind.object?_cap] at hp
      rw [← Option.some.inj hp]
      exact hlt
  · intro j r hj
    rw [CNode.cap_retyped hcap hd] at hj
    split_ifs at hj with h1 h2
    · cases kind <;> simp [ObjKind.cap] at hj
    · simp at hj
    · exact h.space j r hj

/-- The next granule of an untyped meets no control block. -/
lemma tcb_apart (h : Accounts I memory reserved root c)
    (hcap : c.cap slot = some (.untyped base size used))
    (hleft : GranuleLeft P.granule base size used) {t : ℕ} (ht : t ∈ c.tcbs I.rootTcb) :
    ¬ (roundUp P.granule (base + used) + Abi.kernelVaOffset ≤ t ∧
      t < roundUp P.granule (base + used) + Abi.kernelVaOffset + P.granule) := by
  have hfit := (granuleLeft_iff P.granule_pos).mp hleft
  have hup := le_roundUp (x := base + used) P.granule_pos
  rcases ht with rfl | ⟨i, b, hi, rfl⟩
  · -- the image is reserved
    have hsep : Sep base size I.kernelStart (I.kernelEnd - I.kernelStart) :=
      h.ledger.clear slot base size used hcap _ h.image
    have h1 := I.rootTcb_ge
    have h2 := I.rootTcb_lt
    have h3 := I.start_le
    have h4 := I.rodata_le
    have h5 := I.bottom_le
    have h6 := I.top_le
    unfold Word.Sep at hsep
    omega
  · have hsep := h.ledger.sep_next P.granule_pos hcap hleft hi rfl
    unfold Word.Sep at hsep
    omega

/-- The next granule of an untyped meets no endpoint. -/
lemma endpoint_apart (h : Accounts I memory reserved root c)
    (hcap : c.cap slot = some (.untyped base size used))
    (hleft : GranuleLeft P.granule base size used) {e : ℕ} (he : e ∈ c.endpoints) :
    ¬ (roundUp P.granule (base + used) + Abi.kernelVaOffset ≤ e ∧
      e < roundUp P.granule (base + used) + Abi.kernelVaOffset + P.granule) := by
  obtain ⟨i, b, hi, rfl⟩ := he
  have hsep := h.ledger.sep_next P.granule_pos hcap hleft hi rfl
  unfold Word.Sep at hsep
  omega

end Accounts

/-! ### The installed user root -/

namespace Tasks

/-- From `s` to `s'` the installed user root stays, or becomes that of the task that runs in
`s'`. -/
def Installs (s s' : Tasks) : Prop :=
  s'.ttbr0 = s.ttbr0 ∨ s'.ttbr0 = (s'.tcb s'.sched.current).ttbr0Pa

/-- Pushing onto the queue of an endpoint leaves the user root. -/
@[simp] lemma ttbr0_epPush (s : Tasks) (e t : ℕ) : (s.epPush e t).ttbr0 = s.ttbr0 := by
  unfold epPush
  dsimp only
  split_ifs <;> rfl

/-- Popping from the queue of an endpoint leaves the user root. -/
@[simp] lemma ttbr0_epPop (s : Tasks) (e : ℕ) : (s.epPop e).2.ttbr0 = s.ttbr0 := by
  unfold epPop
  dsimp only
  split_ifs <;> rfl

/-- Pushing onto the ready queue leaves the user root. -/
@[simp] lemma ttbr0_enqueue (s : Tasks) (t : ℕ) : (s.enqueue t).ttbr0 = s.ttbr0 := by
  unfold enqueue push
  dsimp only
  split_ifs <;> rfl

/-- Popping from the ready queue leaves the user root. -/
@[simp] lemma ttbr0_pop (s : Tasks) : s.pop.2.ttbr0 = s.ttbr0 := by
  unfold pop
  dsimp only
  split_ifs <;> rfl

/-- Revoking a reply right leaves the user root. -/
@[simp] lemma ttbr0_abortReply (s : Tasks) (h : ℕ) : (abortReply s h).ttbr0 = s.ttbr0 := by
  unfold abortReply
  dsimp only
  split_ifs
  · rfl
  · rw [ttbr0_enqueue]
    rfl

/-- Switching to a task installs its user root, unless it is already there. -/
lemma installs_switchTo (s : Tasks) (t : ℕ) : Installs s (s.switchTo t) := by
  unfold switchTo Installs
  dsimp only
  split_ifs
  · exact .inr rfl
  · exact .inl rfl

/-- Installing is a matter of the last switch. -/
lemma Installs.of_eq {s s' s'' : Tasks} (h : Installs s' s'') (he : s'.ttbr0 = s.ttbr0) :
    Installs s s'' :=
  h.imp (·.trans he) id

/-- Leaving a blocked task. -/
lemma installs_blockAndSwitch (s : Tasks) : Installs s s.blockAndSwitch.1 := by
  unfold blockAndSwitch
  dsimp only
  split_ifs
  · exact .inl s.ttbr0_pop
  · exact (installs_switchTo _ _).of_eq s.ttbr0_pop

/-- Ending a task. -/
lemma installs_exitCurrent (s : Tasks) : Installs s s.exitCurrent.1 :=
  (installs_blockAndSwitch (s.setState s.sched.current .dead)).of_eq rfl

/-- Preemption. -/
lemma installs_rotate (s : Tasks) : Installs s s.rotate := by
  unfold rotate
  dsimp only
  split_ifs
  · exact .inl s.ttbr0_pop
  · exact (installs_switchTo _ _).of_eq ((ttbr0_enqueue _ _).trans s.ttbr0_pop)

/-- Receiving. -/
lemma installs_recvInner (s : Tasks) (e : ℕ) (nonblock : Bool) :
    Installs s (recvInner s e nonblock).1 := by
  unfold recvInner
  dsimp only
  split_ifs
  · refine .inl ?_
    show (abortReply _ _).ttbr0 = _
    rw [ttbr0_abortReply]
    exact s.ttbr0_epPop e
  · refine .inl ?_
    rw [ttbr0_enqueue]
    exact s.ttbr0_epPop e
  · exact .inl rfl
  · exact (installs_blockAndSwitch _).of_eq (ttbr0_epPush _ _ _)

/-- An IPC call. -/
lemma installs_ipcOn (op : IpcOp) (s : Tasks) (e : ℕ) (nonblock : Bool) :
    Installs s (ipcOn op s e nonblock).1 := by
  cases op with
  | recv => exact installs_recvInner s e nonblock
  | send =>
    show Installs s (sendOn s e nonblock).1
    unfold sendOn
    dsimp only
    split_ifs
    · refine .inl ?_
      show (enqueue _ _).ttbr0 = _
      rw [ttbr0_enqueue]
      exact s.ttbr0_epPop e
    · exact .inl rfl
    · exact (installs_blockAndSwitch _).of_eq (ttbr0_epPush _ _ _)
  | call =>
    show Installs s (callOn s e nonblock).1
    unfold callOn
    dsimp only
    split_ifs
    · refine (installs_blockAndSwitch _).of_eq ?_
      rw [ttbr0_enqueue]
      show (abortReply _ _).ttbr0 = _
      rw [ttbr0_abortReply]
      exact s.ttbr0_epPop e
    · exact .inl rfl
    · exact (installs_blockAndSwitch _).of_eq (ttbr0_epPush _ _ _)
  | replyRecv =>
    show Installs s (replyRecvOn s e nonblock).1
    unfold replyRecvOn
    dsimp only
    split_ifs
    · exact (installs_recvInner _ _ _).of_eq (ttbr0_enqueue _ _)
    · exact installs_recvInner s e nonblock

end Tasks

/-! ### The simulation -/

/-- The IPC call that a step of the abstract system is, if it is one. -/
def Act.ipc? : Act → Option IpcTrap
  | .ipc op regs e nonblock => some ⟨op, regs, e, nonblock⟩
  | _ => none

/-- The registers of the running task at a step that ends it. -/
def Act.dies? : Act → Option Context
  | .die regs => some regs
  | _ => none

namespace Kernel

variable {P : Platform} {I : Image P} {memory reserved : List PhysRegion} {root : ℕ}
  {k k' : Kernel} {s : Sys}

/-- The world that the kernel stands for, with the given abstract tasks. -/
def world (I : Image P) (k : Kernel) (s : Sys) : World :=
  ⟨k.cnode.tcbs I.rootTcb, k.cnode.endpoints, s⟩

/-- The kernel stands for the abstract system `s`, which is in order, and every started task lives
in the one address space, which is installed. -/
structure Sim (I : Image P) (memory reserved : List PhysRegion) (root : ℕ) (k : Kernel) (s : Sys) :
    Prop where
  accounts : Accounts I memory reserved root k.cnode
  refines : Refines (k.cnode.tcbs I.rootTcb) k.cnode.endpoints k.tasks s
  ok : (k.world I s).Ok
  space : (k.world I s).Space root
  ttbr0 : k.tasks.ttbr0 = root

namespace Sim

/-- The abstract system is in order. -/
lemma sysOk (h : k.Sim I memory reserved root s) :
    s.Ok (k.cnode.tcbs I.rootTcb) k.cnode.endpoints :=
  h.ok

/-- The entry of the kernel. -/
lemma refines_save (h : k.Sim I memory reserved root s) (regs : Context) :
    Refines (k.cnode.tcbs I.rootTcb) k.cnode.endpoints (k.save regs).tasks (s.save regs) := by
  have hs := h.refines.setCtx s.current regs
  rw [← h.refines.context] at hs
  unfold Sys.save
  rw [← h.refines.context]
  exact hs

/-- A step of the abstract system that the kernel refines restores the relation. -/
lemma of_step {a : Act} {s' : Sys} (h : k.Sim I memory reserved root s)
    (hs : (k.world I s).Step a (k'.world I s'))
    (hacc : Accounts I memory reserved root k'.cnode)
    (href : Refines (k'.cnode.tcbs I.rootTcb) k'.cnode.endpoints k'.tasks s')
    (hroot : ∀ regs t ctx r, a = .configure regs t ctx r → r = root)
    (hins : k.tasks.Installs k'.tasks) : k'.Sim I memory reserved root s' := by
  have hok : (k'.world I s').Ok := hs.ok h.ok
  have hspace : (k'.world I s').Space root := hs.space h.ok hroot h.space
  refine ⟨hacc, href, hok, hspace, ?_⟩
  rcases hins with hins | hins
  · rw [hins, h.ttbr0]
  · -- the running task has been started, so its root is the one root
    rw [hins, href.current]
    have hpa := congrFun href.ttbr0Pa s'.current
    have hrun : s'.state s'.current = .running := hok.running
    refine hpa.trans (hspace s'.current hok.inv.placed.current_live ?_)
    show s'.state s'.current ≠ .inactive
    rw [hrun]
    decide

/-- A step that only moves the registers of the running task, and perhaps memory, the pool, the
console or the flag of a capability. -/
lemma of_run (k' : Kernel) (h : k.Sim I memory reserved root s) (regs : Context)
    (hacc : Accounts I memory reserved root k'.cnode)
    (htcbs : k'.cnode.tcbs I.rootTcb = k.cnode.tcbs I.rootTcb)
    (heps : k'.cnode.endpoints = k.cnode.endpoints) (htasks : k'.tasks = (k.save regs).tasks) :
    (k.world I s).Step (.run regs) (k'.world I (s.save regs)) ∧
      k'.Sim I memory reserved root (s.save regs) := by
  have hw : k'.world I (s.save regs) = { k.world I s with sys := s.save regs } := by
    unfold world
    rw [htcbs, heps]
  have hstep : (k.world I s).Step (.run regs) (k'.world I (s.save regs)) := by
    rw [hw]
    exact .run (k.world I s) regs
  refine ⟨hstep, h.of_step hstep hacc ?_ nofun (.inl ?_)⟩
  · rw [htcbs, heps, htasks]
    exact h.refines_save regs
  · rw [htasks]
    rfl

/-- A call that fails or succeeds without any effect on the tasks. -/
lemma of_ret {k₁ : Kernel} {regs : Context} {v : ℤ} (h : k.Sim I memory reserved root s)
    (hacc : Accounts I memory reserved root k₁.cnode)
    (htcbs : k₁.cnode.tcbs I.rootTcb = k.cnode.tcbs I.rootTcb)
    (heps : k₁.cnode.endpoints = k.cnode.endpoints) (htasks : k₁.tasks = (k.save regs).tasks) :
    ∃ a s', (k.world I s).Step a ((k₁.ret k.tasks.currentContext v).world I s') ∧
      (k₁.ret k.tasks.currentContext v).Sim I memory reserved root s' ∧
      a.ipc? = none ∧ a.dies? = none := by
  have htasks' : (k₁.ret k.tasks.currentContext v).tasks =
      (k.save (regs.setX 0 (Abi.asU64 v))).tasks := by
    rw [← k.save_ret]
    unfold ret
    rw [htasks]
  obtain ⟨hstep, hsim⟩ := of_run (k₁.ret k.tasks.currentContext v) h _ hacc htcbs heps htasks'
  exact ⟨_, _, hstep, hsim, rfl, rfl⟩

/-- A call that has worked on the tasks, and returns to the running one. -/
lemma of_work {k₁ : Kernel} {a : Act} {s₁ : Sys} {v : ℤ} (h : k.Sim I memory reserved root s)
    (hs : (k.world I s).Step a (k₁.world I (s₁.ret (Abi.asU64 v))))
    (hacc : Accounts I memory reserved root k₁.cnode)
    (href : Refines (k₁.cnode.tcbs I.rootTcb) k₁.cnode.endpoints k₁.tasks s₁)
    (hcur : s₁.current = s.current)
    (hroot : ∀ regs t ctx r, a = .configure regs t ctx r → r = root)
    (httbr0 : k₁.tasks.ttbr0 = k.tasks.ttbr0) (hipc : a.ipc? = none) (hdies : a.dies? = none) :
    ∃ a s', (k.world I s).Step a ((k₁.ret k.tasks.currentContext v).world I s') ∧
      (k₁.ret k.tasks.currentContext v).Sim I memory reserved root s' ∧
      a.ipc? = none ∧ a.dies? = none := by
  refine ⟨a, _, hs, h.of_step hs hacc ?_ hroot (.inl httbr0), hipc, hdies⟩
  have hx := href.setX s₁.current 0 (Abi.asU64 v)
  rw [hcur, ← h.refines.context] at hx
  unfold Sys.ret
  rw [hcur, ← h.refines.context]
  exact hx

/-- A call that has cleared a granule, away from the tasks and endpoints that there were. New ones
start where the granule does. -/
lemma of_clear {k₁ : Kernel} {regs : Context} {a : ℕ} {v : ℤ} (h : k.Sim I memory reserved root s)
    (htasks : k₁.tasks = (k.save regs).tasks.clear a P.granule)
    (hacc : Accounts I memory reserved root k₁.cnode)
    (hlive : ∀ t ∈ k.cnode.tcbs I.rootTcb, ¬ (a ≤ t ∧ t < a + P.granule))
    (heps : ∀ e ∈ k.cnode.endpoints, ¬ (a ≤ e ∧ e < a + P.granule))
    (hsub : k.cnode.tcbs I.rootTcb ⊆ k₁.cnode.tcbs I.rootTcb)
    (hsub' : k.cnode.endpoints ⊆ k₁.cnode.endpoints) (hpos : 0 < a)
    (hnew : ∀ t ∈ k₁.cnode.tcbs I.rootTcb, t ∉ k.cnode.tcbs I.rootTcb → t = a)
    (hnew' : ∀ e ∈ k₁.cnode.endpoints, e ∉ k.cnode.endpoints → e = a) :
    ∃ a s', (k.world I s).Step a ((k₁.ret k.tasks.currentContext v).world I s') ∧
      (k₁.ret k.tasks.currentContext v).Sim I memory reserved root s' ∧
      a.ipc? = none ∧ a.dies? = none := by
  have hg := P.granule_pos
  have hin : ∀ t ∈ k₁.cnode.tcbs I.rootTcb, t ∉ k.cnode.tcbs I.rootTcb →
      a ≤ t ∧ t < a + P.granule := by
    intro t ht hn
    have := hnew t ht hn
    omega
  have hin' : ∀ e ∈ k₁.cnode.endpoints, e ∉ k.cnode.endpoints → a ≤ e ∧ e < a + P.granule := by
    intro e he hn
    have := hnew' e he hn
    omega
  have h0 : 0 ∉ k₁.cnode.tcbs I.rootTcb := by
    intro hm
    have := hnew 0 hm h.sysOk.inv.placed.zero
    omega
  have hstep := World.Step.clear (k.world I s) regs a P.granule (Abi.asU64 v)
    (k₁.cnode.tcbs I.rootTcb) k₁.cnode.endpoints hlive heps hsub hsub' h0 hin hin'
  have hclear := (h.refines_save regs).clear (h.sysOk.save regs).inv.placed hlive heps hsub' hin
    hin'
  rw [← htasks] at hclear
  refine h.of_work hstep hacc hclear rfl nofun ?_ rfl rfl
  rw [htasks]
  rfl

/-- A call other than IPC is a step of the abstract system. -/
lemma of_handled {k₁ : Kernel} {regs : Context} {v : ℤ} (h : k.Sim I memory reserved root s)
    (hh : Handled I.pool (k.save regs) v k₁) :
    ∃ a s', (k.world I s).Step a ((k₁.ret k.tasks.currentContext v).world I s') ∧
      (k₁.ret k.tasks.currentContext v).Sim I memory reserved root s' ∧
      a.ipc? = none ∧ a.dies? = none := by
  have hsave := h.refines_save regs
  cases hh with
  | fail _ hv => exact h.of_ret h.accounts rfl rfl rfl
  | print out => exact h.of_ret h.accounts rfl rfl rfl
  | mapFrame i j r base va perm m hs hc hp hm =>
    exact h.of_ret (h.accounts.set hc rfl rfl rfl) (CNode.tcbs_set hc rfl rfl)
      (CNode.endpoints_set hc rfl rfl) rfl
  | mapTable i j r base va level m hs hc hm =>
    exact h.of_ret (h.accounts.set hc rfl rfl rfl) (CNode.tcbs_set hc rfl rfl)
      (CNode.endpoints_set hc rfl rfl) rfl
  | unprepared slot base size used e pool hcap hroom hleft hmap =>
    exact h.of_ret h.accounts rfl rfl rfl
  | configure i j base r t ctx hs hc ht hst =>
    obtain ⟨-, rfl⟩ := checkedAdd_eq_some.mp ht
    have hlive : base + Abi.kernelVaOffset ∈ (k.world I s).live := .inr ⟨j, base, hc, rfl⟩
    have hst' : s.state (base + Abi.kernelVaOffset) = .inactive := by
      rw [← hst]
      exact (hsave.state_eq _).symm
    have hstep := World.Step.configure (k.world I s) regs _ ctx r hlive hst'
    refine h.of_work hstep h.accounts (hsave.configure _ ctx r) rfl ?_ rfl rfl rfl
    intro regs' t' ctx' r' he
    obtain ⟨-, -, -, rfl⟩ := Act.configure.inj he
    exact h.accounts.space i r hs
  | resume j base t hc ht hst =>
    obtain ⟨-, rfl⟩ := checkedAdd_eq_some.mp ht
    have hlive : base + Abi.kernelVaOffset ∈ (k.world I s).live := .inr ⟨j, base, hc, rfl⟩
    have hst' : s.state (base + Abi.kernelVaOffset) = .stopped := by
      rw [← hst]
      exact (hsave.state_eq _).symm
    have hstep := World.Step.resume (k.world I s) regs _ hlive hst'
    have hp := (h.sysOk.save regs).inv.placed
    have hq : (s.save regs).state (base + Abi.kernelVaOffset) = .stopped := hst'
    have henq := hsave.enqueue (ne_of_mem_of_not_mem hlive hp.zero)
      (hp.not_mem_ready (by rw [hq]; decide)) (hp.not_mem_queue (by rw [hq]; decide))
    exact h.of_work hstep h.accounts henq rfl nofun (Tasks.ttbr0_enqueue _ _) rfl rfl
  | carve slot base size used kind pool d hcap hroom hleft hmap hlt hd =>
    have hl : ∀ t, t ∈ d.tcbs I.rootTcb ↔ t ∈ k.cnode.tcbs I.rootTcb ∨ _ :=
      fun t => CNode.mem_tcbs_retyped hcap hd
    have he : ∀ e, e ∈ d.endpoints ↔ e ∈ k.cnode.endpoints ∨ _ :=
      fun e => CNode.mem_endpoints_retyped hcap hd
    refine h.of_clear rfl (h.accounts.retyped hcap hleft hlt hd)
      (fun t ht => h.accounts.tcb_apart hcap hleft ht)
      (fun e he => h.accounts.endpoint_apart hcap hleft he) ?_ ?_ ?_ ?_ ?_
    · exact fun t ht => (hl t).mpr (.inl ht)
    · exact fun e hm => (he e).mpr (.inl hm)
    · exact Nat.add_pos_right _ (by decide)
    · intro t ht hn
      rcases (hl t).mp ht with ht | ⟨-, ht⟩
      · exact absurd ht hn
      · exact ht
    · intro e hm hn
      rcases (he e).mp hm with hm | ⟨-, hm⟩
      · exact absurd hm hn
      · exact hm

/-- Preemption is a step of the abstract system. -/
lemma of_preempt (h : k.Sim I memory reserved root s) (regs : Context) :
    (k.world I s).Step (.tick regs) ((k.save regs).k0Preempt.world I (s.save regs).rotate) ∧
      (k.save regs).k0Preempt.Sim I memory reserved root (s.save regs).rotate := by
  have hstep := World.Step.tick (k.world I s) regs
  refine ⟨hstep, h.of_step hstep h.accounts ?_ nofun ?_⟩
  · exact (h.refines_save regs).rotate (h.sysOk.save regs)
  · exact Tasks.installs_rotate _

/-- The end of the running task is a step of the abstract system. -/
lemma of_kill (h : k.Sim I memory reserved root s) (regs : Context)
    (hk : (k.save regs).killCurrent = some k') :
    (k.world I s).Step (.die regs) (k'.world I (s.save regs).kill.1) ∧
      k'.Sim I memory reserved root (s.save regs).kill.1 := by
  obtain ⟨hflag, href⟩ := (h.refines_save regs).kill (h.sysOk.save regs)
  have hins : Tasks.Installs k.tasks
      (abortReply (k.save regs).tasks (k.save regs).tasks.sched.current).exitCurrent.1 :=
    (Tasks.installs_exitCurrent _).of_eq (Tasks.ttbr0_abortReply _ _)
  obtain ⟨rfl, htrue⟩ := killCurrent_eq_some hk
  have hstep := World.Step.die (k.world I s) regs (hflag.symm.trans htrue)
  exact ⟨hstep, h.of_step hstep h.accounts href nofun hins⟩

/-- An IPC call is a step of the abstract system. -/
lemma of_ipc (h : k.Sim I memory reserved root s) (c : IpcTrap) {t : Tasks}
    (he : c.ep ∈ k.cnode.endpoints)
    (ht : ipcOn c.op (k.save c.regs).tasks c.ep c.nonblock = (t, true)) :
    (k.world I s).Step (.ipc c.op c.regs c.ep c.nonblock)
        (world I { k with tasks := t } ((s.save c.regs).ipc c.op c.ep c.nonblock).1) ∧
      Sim I memory reserved root { k with tasks := t }
        ((s.save c.regs).ipc c.op c.ep c.nonblock).1 := by
  obtain ⟨hflag, href⟩ :=
    (h.refines_save c.regs).ipcOn (h.sysOk.save c.regs) he c.op c.nonblock
  have hins := Tasks.installs_ipcOn c.op (k.save c.regs).tasks c.ep c.nonblock
  rw [ht] at hflag href hins
  have hstep := World.Step.ipc (k.world I s) c.op c.regs c.ep c.nonblock he hflag.symm
  exact ⟨hstep, h.of_step hstep h.accounts href nofun hins⟩

end Sim

/-- An endpoint that a slot names exists. -/
lemma mem_endpoints_of_epOf {c : CNode} {slot : UInt64} {e : ℕ}
    (h : epOf c slot = some (.ok e)) : e ∈ c.endpoints := by
  unfold epOf at h
  split at h
  · rename_i base hc
    obtain ⟨a, ha, he⟩ := Option.map_eq_some_iff.mp h
    obtain ⟨-, rfl⟩ := checkedAdd_eq_some.mp ha
    exact ⟨_, base, hc, (Except.ok.inj he).symm⟩
  · cases h
  · cases h

/-- An IPC call on a valid endpoint, by its parts. -/
lemma ipc?_eq_some {c : CNode} {ev : Event} {t : IpcTrap} (h : ev.ipc? c = some t) :
    (∃ esr, ev = .sync t.regs esr ∧ exceptionClass esr = 0x15) ∧
      ipcOp? (t.regs.x 8) = some t.op ∧ epOf c (t.regs.x 0) = some (.ok t.ep) ∧
      t.nonblock = decide (t.regs.x 1 &&& Abi.nonblock ≠ 0) := by
  cases ev with
  | store va b => cases h
  | irq regs int => cases h
  | sync regs esr =>
    unfold Event.ipc? at h
    dsimp only at h
    split_ifs at h with hec
    split at h
    · rename_i op e hop he
      obtain rfl := Option.some.inj h
      exact ⟨⟨esr, rfl, hec⟩, hop, he, rfl⟩
    · cases h

/-- A call on an endpoint does not end the running task. -/
lemma dies?_of_ipc? {c : CNode} {ev : Event} {t : IpcTrap} (h : ev.ipc? c = some t) :
    ev.dies? = none := by
  obtain ⟨⟨esr, rfl, hec⟩, hop, -, -⟩ := ipc?_eq_some h
  have hmem : t.regs.x 8 ∈ returningCalls := by
    unfold ipcOp? at hop
    split_ifs at hop with h1 h2 h3 h4
    · rw [h1]; decide
    · rw [h2]; decide
    · rw [h3]; decide
    · rw [h4]; decide
  simp only [Event.dies?, hec, ↓reduceIte, hmem]

/-- An event that ends the running task is no call on an endpoint. -/
lemma ipc?_of_dies? {c : CNode} {ev : Event} {regs : Context} (h : ev.dies? = some regs) :
    ev.ipc? c = none := by
  cases hi : ev.ipc? c with
  | none => rfl
  | some t =>
    rw [dies?_of_ipc? hi] at h
    cases h

/-- Every step of the kernel is a step of the abstract system, with the same IPC call and the same
end of a task. -/
theorem Sim.step {ev : Event} (h : k.Sim I memory reserved root s)
    (hs : k.step I.pool ev = some k') :
    ∃ a s', (k.world I s).Step a (k'.world I s') ∧ k'.Sim I memory reserved root s' ∧
      a.ipc? = ev.ipc? k.cnode ∧ a.dies? = ev.dies? := by
  have hnext := step_next h.accounts.ledger.valid hs
  cases hnext with
  | store va b =>
    obtain ⟨m, hm⟩ := k.userStore_eq (P := P) va b
    rw [hm]
    exact ⟨.idle, s, .idle _, ⟨h.accounts, h.refines, h.ok, h.space, h.ttbr0⟩, rfl, rfl⟩
  | spurious regs =>
    obtain ⟨hstep, hsim⟩ := of_run (k.save regs) h regs h.accounts rfl rfl rfl
    exact ⟨_, _, hstep, hsim, rfl, rfl⟩
  | tick regs =>
    obtain ⟨hstep, hsim⟩ := h.of_preempt regs
    exact ⟨_, _, hstep, hsim, rfl, rfl⟩
  | skip regs esr elr hec helr =>
    have hne : ¬ exceptionClass esr = 0x15 := by
      rw [hec]
      decide
    obtain ⟨hstep, hsim⟩ := of_run (k.save { regs with elr := UInt64.ofNat elr }) h _
      h.accounts rfl rfl rfl
    rw [k.save_save]
    refine ⟨_, _, hstep, hsim, ?_, ?_⟩
    · simp only [Act.ipc?, Event.ipc?, hne, ↓reduceIte]
    · rw [Event.dies?, if_neg hne, if_pos hec]
      rfl
  | yield regs esr hec hx =>
    have hop : ipcOp? (regs.x 8) = none := by
      rw [hx]
      decide
    have hmem : regs.x 8 ∈ returningCalls := by
      rw [hx]
      decide
    obtain ⟨hstep, hsim⟩ := h.of_preempt (regs.setX 0 (Abi.asU64 0))
    rw [k.save_ret]
    refine ⟨_, _, hstep, hsim, ?_, ?_⟩
    · simp only [Act.ipc?, Event.ipc?, hec, ↓reduceIte, hop]
    · simp only [Act.dies?, Event.dies?, hec, ↓reduceIte, hmem]
  | die regs esr _ hd hk =>
    obtain ⟨hstep, hsim⟩ := h.of_kill regs hk
    exact ⟨_, _, hstep, hsim, (ipc?_of_dies? hd).symm, hd.symm⟩
  | ret regs esr v k₁ hec hx hi hh =>
    obtain ⟨a, s', hstep, hsim, hipc, hdies⟩ := h.of_handled hh
    refine ⟨a, s', hstep, hsim, hipc.trans hi.symm, hdies.trans ?_⟩
    simp only [Event.dies?, hec, ↓reduceIte, hx]
  | ipc esr c t hi ht =>
    obtain ⟨-, -, hep, -⟩ := ipc?_eq_some hi
    obtain ⟨hstep, hsim⟩ := h.of_ipc c (mem_endpoints_of_epOf hep) ht
    exact ⟨_, _, hstep, hsim, hi.symm, (dies?_of_ipc? hi).symm⟩

/-- The relation holds in every state that a run reaches. -/
theorem Sim.reaches {k₀ : Kernel} {s₀ : Sys} (h : k₀.Sim I memory reserved root s₀)
    (hr : k₀.Reaches I.pool k) : ∃ s, k.Sim I memory reserved root s := by
  induction hr with
  | refl => exact ⟨s₀, h⟩
  | step ev _ hs ih =>
    obtain ⟨s, hsim⟩ := ih
    obtain ⟨-, s', -, hsim', -⟩ := hsim.step hs
    exact ⟨s', hsim'⟩

end Kernel

/-! ### The handoff -/

section Handoff

variable {P : Platform} {I : Image P} {i : Machine}

/-- The tasks after loading the root task: its control block has a context and an address
space. -/
lemma spawnRoot_tasks {t bi root : ℕ} {rt : RootTask} {fa fa' : FrameAlloc} {m m' : Mem}
    {s s' : Tasks} (h : spawnRoot P t rt bi fa m s = pure (root, fa', m', s')) :
    ∃ ctx, s' = (s.setCtx t ctx).modTcb .ttbr0Pa t fun v => { v with ttbr0Pa := root } := by
  unfold spawnRoot at h
  dsimp only at h
  split_ifs at h
  · exact absurd h Outcome.throw_ne_pure
  obtain ⟨imageEnd, -, h⟩ := Outcome.bind_eq_pure.mp h
  obtain ⟨⟨frames, fa₁, m₁⟩, -, h⟩ := Outcome.bind_eq_pure.mp h
  obtain ⟨kva, -, h⟩ := Outcome.bind_eq_pure.mp h
  obtain ⟨stop, -, h⟩ := Outcome.bind_eq_pure.mp h
  obtain ⟨⟨us, fa₂, m₂⟩, -, h⟩ := Outcome.bind_eq_pure.mp h
  obtain ⟨⟨fa₃, m₃⟩, -, h⟩ := Outcome.bind_eq_pure.mp h
  dsimp only at h
  split_ifs at h
  swap
  · exact absurd h Outcome.throw_ne_pure
  obtain ⟨⟨stack, fa₄, m₄⟩, -, h⟩ := Outcome.bind_eq_pure.mp h
  obtain ⟨⟨fa₅, m₅⟩, -, h⟩ := Outcome.bind_eq_pure.mp h
  obtain ⟨⟨fa₆, m₆⟩, -, h⟩ := Outcome.bind_eq_pure.mp h
  obtain ⟨hroot, hrest⟩ := Prod.mk.inj (Outcome.pure_inj.mp h)
  obtain ⟨-, hrest⟩ := Prod.mk.inj hrest
  obtain ⟨-, htasks⟩ := Prod.mk.inj hrest
  exact ⟨_, by rw [← htasks, ← hroot]⟩

/-- The control block of the root task at the handoff. -/
lemma Stages.tcb_rootTcb (b : Stages I i) :
    ∃ ctx, b.kernel.tasks.tcb I.rootTcb = ⟨ctx, b.userRoot, .running, 0, 0⟩ := by
  obtain ⟨ctx, htasks⟩ := spawnRoot_tasks b.root_eq
  refine ⟨ctx, ?_⟩
  have hk : b.kernel.tasks.tcb I.rootTcb =
      { b.tasks.tcb I.rootTcb with state := .running } := Function.update_self _ _ _
  have hb : b.tasks.tcb I.rootTcb = { Tcb.zeroed with ctx := ctx, ttbr0Pa := b.userRoot } := by
    rw [htasks]
    unfold Tasks.modTcb Tasks.setCtx Tasks.modTcb Machine.tasks
    simp only [Function.update_self]
  rw [hk, hb]
  rfl

/-- The capabilities at the handoff account for physical memory. -/
lemma Stages.accounts (b : Stages I i) :
    Accounts I b.info.memory
      (fixedReserved I.span b.info.dtb b.window ++ b.info.reserved) b.userRoot b.cnode := by
  obtain ⟨-, -, hpop⟩ := bootstrap_ok b.cnode_eq
  refine ⟨Ledger.populate hpop, List.mem_append_left _ List.mem_cons_self, ?_, ?_⟩
  · intro j v p hv hp
    rw [object?_populate hpop hv] at hp
    cases hp
  · intro j r hv
    obtain ⟨-, -, gapss, -, hs⟩ := populate_ok hpop
    rcases cap_populate hs hv with hv | ⟨g, -, -, hv⟩
    · simpa [fixedCaps] using hv
    · cases hv

/-- At the handoff there is one control block. -/
lemma Stages.tcbs_eq (b : Stages I i) : b.cnode.tcbs I.rootTcb = {I.rootTcb} := by
  obtain ⟨-, -, hpop⟩ := bootstrap_ok b.cnode_eq
  ext t
  constructor
  · rintro (rfl | ⟨j, base, hj, -⟩)
    · exact rfl
    · cases object?_populate hpop hj
  · exact .inl

/-- At the handoff there is no endpoint. -/
lemma Stages.endpoints_eq (b : Stages I i) : b.cnode.endpoints = ∅ := by
  obtain ⟨-, -, hpop⟩ := bootstrap_ok b.cnode_eq
  ext e
  constructor
  · rintro ⟨j, base, hj, -⟩
    cases object?_populate hpop hj
  · exact False.elim

/-- The abstract tasks at the handoff: the root task runs, and there is no other. -/
def Stages.sys (b : Stages I i) : Sys where
  current := I.rootTcb
  ready := []
  queue := fun _ => []
  state := fun t => (b.kernel.tasks.tcb t).state
  replyTo := fun t => (b.kernel.tasks.tcb t).replyTo
  ctx := fun t => (b.kernel.tasks.tcb t).ctx
  ttbr0Pa := fun t => (b.kernel.tasks.tcb t).ttbr0Pa

/-- The linked queues are empty at the handoff. -/
lemma Stages.refines (b : Stages I i) :
    Refines {I.rootTcb} ∅ b.kernel.tasks b.sys := by
  obtain ⟨ctx₀, htcb⟩ := b.tcb_rootTcb
  obtain ⟨ctx, htasks⟩ := spawnRoot_tasks b.root_eq
  have hsched : b.kernel.tasks.sched = ⟨⟨0, 0⟩, I.rootTcb⟩ := by
    show { b.tasks.sched with current := I.rootTcb } = (⟨⟨0, 0⟩, I.rootTcb⟩ : Sched)
    rw [htasks]
    rfl
  refine ⟨by rw [hsched]; rfl, rfl, rfl, rfl, rfl, rfl, ?_⟩
  have hlists : b.sys.toSkel.lists = fun _ => [] := by
    funext q
    cases q <;> rfl
  rw [hlists]
  refine ⟨?_, fun _ => List.nodup_nil, nofun, fun _ _ => rfl, ?_⟩
  · intro q hq
    cases q with
    | none =>
      show Intrusive.IsQueue 0 _ b.kernel.tasks.sched.toEnds []
      rw [hsched]
      exact ⟨rfl, rfl⟩
    | some e => exact hq.elim
  · intro t ht _
    obtain rfl : t = I.rootTcb := ht
    show (b.kernel.tasks.tcb I.rootTcb).next = 0
    rw [htcb]

/-- The abstract system at the handoff is in order. -/
lemma Stages.ok (b : Stages I i) : b.sys.Ok {I.rootTcb} ∅ := by
  obtain ⟨ctx, htcb⟩ := b.tcb_rootTcb
  have hstate : b.sys.state I.rootTcb = .running := by
    show (b.kernel.tasks.tcb I.rootTcb).state = .running
    rw [htcb]
  have hreply : b.sys.replyTo I.rootTcb = 0 := by
    show (b.kernel.tasks.tcb I.rootTcb).replyTo = 0
    rw [htcb]
  have hone : ∀ {t}, t ∈ ({I.rootTcb} : Set ℕ) → t = I.rootTcb := fun ht => ht
  have hpos : 0 < I.rootTcb := by
    have hbig : 0 < Abi.kernelVaOffset := by decide
    have := I.rootTcb_ge
    omega
  refine ⟨⟨?_, ?_⟩, hstate⟩
  · refine ⟨fun h0 => hpos.ne (hone h0), rfl, fun ht _ => hone ht, nofun, nofun, List.nodup_nil,
      ?_, nofun, nofun, nofun, fun _ => List.nodup_nil, nofun, nofun, ?_, nofun, nofun⟩
    · intro t ht _ hs
      rw [hone ht, hstate] at hs
      cases hs
    · intro t ht _ hs
      rw [hone ht, hstate] at hs
      exact absurd hs (by decide)
  · have hnone : ∀ {t}, t ∈ ({I.rootTcb} : Set ℕ) → b.sys.replyTo t ≠ 0 → False := by
      intro t ht h0
      rw [hone ht] at h0
      exact h0 hreply
    refine ⟨fun ht h0 => (hnone ht h0).elim, fun ht h0 => (hnone ht h0).elim,
      fun ht h0 => (hnone ht h0).elim, fun ht _ h0 => (hnone ht h0).elim, ?_,
      ⟨id, fun t ht h0 => (hnone ht h0).elim⟩⟩
    intro c hc hs
    rw [hone hc, hstate] at hs
    cases hs

/-- The relation holds at the handoff. -/
theorem Stages.sim (b : Stages I i) :
    b.kernel.Sim I b.info.memory
      (fixedReserved I.span b.info.dtb b.window ++ b.info.reserved) b.userRoot b.sys := by
  obtain ⟨ctx, htcb⟩ := b.tcb_rootTcb
  have hl : b.kernel.cnode.tcbs I.rootTcb = {I.rootTcb} := b.tcbs_eq
  have he : b.kernel.cnode.endpoints = ∅ := b.endpoints_eq
  have hw : b.kernel.world I b.sys = ⟨{I.rootTcb}, ∅, b.sys⟩ := by
    unfold Kernel.world
    rw [hl, he]
  refine ⟨b.accounts, ?_, ?_, ?_, rfl⟩
  · rw [hl, he]
    exact b.refines
  · rw [hw]
    exact b.ok
  · rw [hw]
    intro t ht _
    obtain rfl : t = I.rootTcb := ht
    show (b.kernel.tasks.tcb I.rootTcb).ttbr0Pa = b.userRoot
    rw [htcb]

/-- In every state that a run from the handoff reaches, the kernel stands for an abstract
system. -/
theorem Kernel.sim_of_reaches {k₀ k : Kernel} (hboot : boot I i = some k₀)
    (hr : k₀.Reaches I.pool k) :
    ∃ (b : Stages I i) (s : Sys), k.Sim I b.info.memory
      (fixedReserved I.span b.info.dtb b.window ++ b.info.reserved) b.userRoot s := by
  obtain ⟨b, rfl⟩ := boot_eq_some hboot
  obtain ⟨s, hs⟩ := b.sim.reaches hr
  exact ⟨b, s, hs⟩

end Handoff

/-! ### Two tasks on the small machine -/

namespace Kernel

/-- The registers of a system call with the given number and arguments. -/
def callRegs (number : UInt64) (args : List UInt64) : Context :=
  { Context.zeroed with x := fun n => if n = 8 then number else args.getD n 0 }

/-- A system call with the given number and arguments. -/
def syscall (number : UInt64) (args : List UInt64) : Event :=
  .sync (callRegs number args) 0x54000000

/-- The root task makes a control block (slot 7) and an endpoint (slot 8) and starts the second
task. -/
def startSecond : List Event :=
  [syscall Abi.Syscall.retype [4, Abi.Obj.tcb], syscall Abi.Syscall.retype [4, Abi.Obj.endpoint],
    syscall Abi.Syscall.tcbConfigure [7, 0x4000, 0x8000, 2], syscall Abi.Syscall.tcbResume [7]]

/-- The kernel address of the second task. -/
def secondTcb : ℕ := 0x800000000 + Abi.kernelVaOffset

/-- The root task calls, the second task receives the call and answers it. -/
def callFirst : List Event :=
  startSecond ++ [syscall Abi.Syscall.call [8], syscall Abi.Syscall.recv [8],
    syscall Abi.Syscall.replyRecv [8]]

/-- The states of that run: at the handoff, when the second task has been started, when the call
waits and when it has been received. -/
structure CallFirst (k₀ k₄ k₅ k₆ : Kernel) : Prop where
  boot : boot smallImage smallMachine = some k₀
  start : k₀.run smallImage.pool startSecond = some k₄
  call : k₄.step smallImage.pool (syscall Abi.Syscall.call [8]) = some k₅
  recv : k₅.step smallImage.pool (syscall Abi.Syscall.recv [8]) = some k₆
  reply : (k₆.step smallImage.pool (syscall Abi.Syscall.replyRecv [8])).isSome = true
  slots : ∀ k ∈ [k₄, k₅, k₆], k.cnode.cap 7 = some (.tcb 0x800000000) ∧
    k.cnode.cap 8 = some (.endpoint 0x800004000)
  current₄ : k₄.tasks.sched.current = smallImage.rootTcb
  current₅ : k₅.tasks.sched.current = secondTcb
  current₆ : k₆.tasks.sched.current = secondTcb
  empty : (k₄.tasks.ep (0x800004000 + Abi.kernelVaOffset)).head = 0
  head : k₄.tasks.sched.head = secondTcb
  root : (k₄.tasks.tcb smallImage.rootTcb).state = .running
  ready : (k₄.tasks.tcb secondTcb).state = .ready
  calling : (k₅.tasks.tcb smallImage.rootTcb).state = .blockedCall
  waiting : (k₆.tasks.tcb smallImage.rootTcb).state = .blockedReply
  running : (k₆.tasks.tcb secondTcb).state = .running
  right : (k₆.tasks.tcb secondTcb).replyTo = smallImage.rootTcb
  success : (k₆.tasks.tcb secondTcb).ctx.x 0 = 0

set_option maxRecDepth 100000 in
/-- There is this run. -/
lemma exists_callFirst : ∃ k₀ k₄ k₅ k₆, CallFirst k₀ k₄ k₅ k₆ := by
  have hrun : ((K0.boot smallImage smallMachine).bind fun k₀ =>
      (k₀.run smallImage.pool startSecond).bind fun k₄ =>
      (k₄.step smallImage.pool (syscall Abi.Syscall.call [8])).bind fun k₅ =>
      (k₅.step smallImage.pool (syscall Abi.Syscall.recv [8])).map fun k₆ =>
        (k₆.step smallImage.pool (syscall Abi.Syscall.replyRecv [8])).isSome &&
        ([k₄, k₅, k₆].all fun k => k.cnode.cap 7 == some (.tcb 0x800000000) &&
          k.cnode.cap 8 == some (.endpoint 0x800004000)) &&
        (k₄.tasks.sched.current == smallImage.rootTcb) && (k₅.tasks.sched.current == secondTcb) &&
        (k₆.tasks.sched.current == secondTcb) &&
        ((k₄.tasks.ep (0x800004000 + Abi.kernelVaOffset)).head == 0) &&
        (k₄.tasks.sched.head == secondTcb) &&
        ((k₄.tasks.tcb smallImage.rootTcb).state == .running) &&
        ((k₄.tasks.tcb secondTcb).state == .ready) &&
        ((k₅.tasks.tcb smallImage.rootTcb).state == .blockedCall) &&
        ((k₆.tasks.tcb smallImage.rootTcb).state == .blockedReply) &&
        ((k₆.tasks.tcb secondTcb).state == .running) &&
        ((k₆.tasks.tcb secondTcb).replyTo == smallImage.rootTcb) &&
        ((k₆.tasks.tcb secondTcb).ctx.x 0 == 0)) = some true := by
    decide +kernel
  obtain ⟨k₀, hboot, hrun⟩ := Option.bind_eq_some_iff.mp hrun
  obtain ⟨k₄, h₄, hrun⟩ := Option.bind_eq_some_iff.mp hrun
  obtain ⟨k₅, h₅, hrun⟩ := Option.bind_eq_some_iff.mp hrun
  obtain ⟨k₆, h₆, hall⟩ := Option.map_eq_some_iff.mp hrun
  simp only [Bool.and_eq_true, beq_iff_eq, List.all_eq_true] at hall
  obtain ⟨⟨⟨⟨⟨⟨⟨⟨⟨⟨⟨⟨⟨hreply, hslots⟩, hc₄⟩, hc₅⟩, hc₆⟩, hep⟩, hhead⟩, hroot⟩, hready⟩, hcall⟩,
    hwait⟩, hrun⟩, hright⟩, hx⟩ := hall
  exact ⟨k₀, k₄, k₅, k₆, hboot, h₄, h₅, h₆, hreply, hslots, hc₄, hc₅, hc₆, hep, hhead, hroot,
    hready, hcall, hwait, hrun, hright, hx⟩

namespace CallFirst

variable {k₀ k₄ k₅ k₆ : Kernel}

/-- The second task exists once it has been started. -/
lemma second_mem (h : CallFirst k₀ k₄ k₅ k₆) {k : Kernel} (hk : k ∈ [k₄, k₅, k₆]) :
    secondTcb ∈ k.cnode.tcbs smallImage.rootTcb :=
  .inr ⟨7, _, (h.slots k hk).1, rfl⟩

/-- The state with the second task started is reached. -/
lemma reaches₄ (h : CallFirst k₀ k₄ k₅ k₆) : k₀.Reaches smallImage.pool k₄ :=
  Reaches.refl.run h.start

/-- The state with the call waiting is reached. -/
lemma reaches₅ (h : CallFirst k₀ k₄ k₅ k₆) : k₀.Reaches smallImage.pool k₅ :=
  h.reaches₄.step _ h.call

/-- The state with the call received is reached. -/
lemma reaches₆ (h : CallFirst k₀ k₄ k₅ k₆) : k₀.Reaches smallImage.pool k₆ :=
  h.reaches₅.step _ h.recv

end CallFirst

end Kernel

end K0
