import K0.Kernel.Simulation

set_option relaxedAutoImplicit false
set_option autoImplicit false

/-!
# The derivation of capabilities

What a step and a whole run do to the capability node. A filled slot keeps its capability, except
that the watermark of an untyped rises and that a frame or a page table is marked as mapped. A slot
that is filled later holds an object in memory that an untyped of the first state had left. So
nothing in a run gives a capability to memory that was not free at its start, and none is ever taken
away.

## Main definitions

* `K0.Cap.Becomes`: what a capability in a slot turns into.
* `K0.CNode.Derives`: one capability node comes from another.

## Main results

* `K0.CNode.Derives.trans`: derivation composes.
* `K0.Kernel.derives_of_reaches`: the node of every reachable state comes from that of the handoff.
-/

namespace K0

open Word

/-- What a capability in a slot can turn into. -/
inductive Cap.Becomes : Cap → Cap → Prop
  | refl (v : Cap) : Becomes v v
  | rise {base size used used' : ℕ} (h : used ≤ used') :
      Becomes (.untyped base size used) (.untyped base size used')
  | map (base : ℕ) : Becomes (.frame base false) (.frame base true)
  | install (base : ℕ) : Becomes (.pageTable base false) (.pageTable base true)

namespace Cap.Becomes

variable {u v w : Cap}

/-- One change after the other. -/
lemma trans (h : u.Becomes v) (h' : v.Becomes w) : u.Becomes w := by
  cases h with
  | refl => exact h'
  | rise h =>
    cases h' with
    | refl => exact .rise h
    | rise h' => exact .rise (h.trans h')
  | map base =>
    cases h'
    exact .map base
  | install base =>
    cases h'
    exact .install base

/-- A capability keeps standing for the same object. -/
lemma object?_eq (h : v.Becomes w) : w.object? = v.object? := by
  cases h <;> rfl

/-- Untyped memory comes from the same memory with a lower watermark. -/
lemma of_untyped {base size used : ℕ} (h : v.Becomes (.untyped base size used)) :
    ∃ used₀ ≤ used, v = .untyped base size used₀ := by
  cases h with
  | refl => exact ⟨used, le_rfl, rfl⟩
  | rise h => exact ⟨_, h, rfl⟩

/-- Untyped memory turns into the same memory with a higher watermark. -/
lemma untyped {base size used : ℕ} (h : (Cap.untyped base size used).Becomes w) :
    ∃ used', used ≤ used' ∧ w = .untyped base size used' := by
  cases h with
  | refl => exact ⟨used, le_rfl, rfl⟩
  | rise h => exact ⟨_, h, rfl⟩

/-- A frame that is not mapped was not mapped before. -/
lemma of_unmapped {p : ℕ} (h : v.Becomes (.frame p false)) : v = .frame p false := by
  cases h
  rfl

end Cap.Becomes

namespace CNode

/-- The node `d` comes from `c`: filled slots keep their capabilities, and every new slot holds an
object of one granule that lies in the memory which an untyped of `c` has lost. -/
structure Derives (g : ℕ) (c d : CNode) : Prop where
  kept : ∀ j v, c.cap j = some v → ∃ w, d.cap j = some w ∧ v.Becomes w
  new : ∀ j w, c.cap j = none → d.cap j = some w →
    ∃ slot base size used used' p, c.cap slot = some (.untyped base size used) ∧
      d.cap slot = some (.untyped base size used') ∧ w.object? = some p ∧ g ∣ p ∧
      base + used ≤ p ∧ p + g ≤ base + used'

namespace Derives

variable {g : ℕ} {c d e : CNode}

/-- Every node comes from itself. -/
lemma refl (g : ℕ) (c : CNode) : Derives g c c :=
  ⟨fun j v h => ⟨v, h, .refl v⟩, fun j w h h' => by rw [h] at h'; cases h'⟩

/-- An untyped of the new node is one of the old node. -/
lemma untyped (h : Derives g c d) {j base size used : ℕ}
    (hj : d.cap j = some (.untyped base size used)) :
    ∃ used₀ ≤ used, c.cap j = some (.untyped base size used₀) := by
  cases hc : c.cap j with
  | none =>
    obtain ⟨-, -, -, -, -, p, -, -, hp, -⟩ := h.new j _ hc hj
    cases hp
  | some v =>
    obtain ⟨w, hw, hb⟩ := h.kept j v hc
    obtain rfl := Option.some.inj (hw.symm.trans hj)
    obtain ⟨used₀, hle, rfl⟩ := hb.of_untyped
    exact ⟨used₀, hle, rfl⟩

/-- Derivation composes. -/
theorem trans (h : Derives g c d) (h' : Derives g d e) : Derives g c e := by
  constructor
  · intro j v hv
    obtain ⟨w, hw, hb⟩ := h.kept j v hv
    obtain ⟨x, hx, hb'⟩ := h'.kept j w hw
    exact ⟨x, hx, hb.trans hb'⟩
  · intro j x hj hx
    cases hd : d.cap j with
    | none =>
      -- the source of the new object was an untyped of `c` already
      obtain ⟨slot, base, size, used, used', p, hs, hs', hp, hg, h1, h2⟩ := h'.new j x hd hx
      obtain ⟨used₀, hle, hc⟩ := h.untyped hs
      exact ⟨slot, base, size, used₀, used', p, hc, hs', hp, hg, by omega, h2⟩
    | some w =>
      -- the object was made on the way to `d`, and its source has lost more memory since
      obtain ⟨slot, base, size, used, used', p, hc, hs, hp, hg, h1, h2⟩ := h.new j w hj hd
      obtain ⟨x', hx', hb⟩ := h'.kept j w hd
      obtain rfl := Option.some.inj (hx'.symm.trans hx)
      obtain ⟨y, hy, hb'⟩ := h'.kept slot _ hs
      obtain ⟨used'', hle, rfl⟩ := hb'.untyped
      exact ⟨slot, base, size, used, used'', p, hc, hy, hb.object?_eq.trans hp, hg, h1, by omega⟩

/-- Marking a capability. -/
lemma set {i : ℕ} {v w : Cap} (hi : c.cap i = some v) (hb : v.Becomes w) :
    Derives g c (c.set i w) := by
  have hread : ∀ j, (c.set i w).cap j = if j = i then some w else c.cap j :=
    fun j => cap_set (lt_used_of_cap hi)
  constructor
  · intro j u hu
    rw [hread]
    by_cases hj : j = i
    · subst hj
      obtain rfl := Option.some.inj (hi.symm.trans hu)
      exact ⟨w, if_pos rfl, hb⟩
    · exact ⟨u, (if_neg hj).trans hu, .refl u⟩
  · intro j u hj hu
    rw [hread, if_neg, hj] at hu
    · cases hu
    · rintro rfl
      rw [hi] at hj
      cases hj

/-- Carving an object. -/
lemma retyped {slot base size used : ℕ} {kind : ObjKind} (hg : 0 < g)
    (hcap : c.cap slot = some (.untyped base size used))
    (hd : c.retyped d slot base size g (roundUp g (base + used)) kind) : Derives g c d := by
  have hread := cap_retyped hcap hd
  have hslot := lt_used_of_cap hcap
  have hle : base + used ≤ roundUp g (base + used) := le_roundUp hg
  constructor
  · intro j v hv
    have hj : j ≠ c.used := (lt_used_of_cap hv).ne
    rw [hread, if_neg hj]
    by_cases hs : j = slot
    · subst hs
      obtain rfl := Option.some.inj (hcap.symm.trans hv)
      exact ⟨_, if_pos rfl, .rise (by omega)⟩
    · exact ⟨v, (if_neg hs).trans hv, .refl v⟩
  · intro j w hj hw
    have hs : j ≠ slot := by
      rintro rfl
      rw [hcap] at hj
      cases hj
    rw [hread, if_neg hs, hj] at hw
    split_ifs at hw with h
    obtain rfl := Option.some.inj hw
    refine ⟨slot, base, size, used, roundUp g (base + used) + g - base, _, hcap, ?_,
      kind.object?_cap _, dvd_roundUp g _, hle, by omega⟩
    rw [hread, if_neg hslot.ne, if_pos rfl]

end Derives

end CNode

namespace Kernel

variable {P : Platform} {B : PoolBase P} {k k' : Kernel} {v : ℤ} {ev : Event}

/-- What a handler does to the capability node. -/
lemma Handled.derives (h : Handled B k v k') : k.cnode.Derives P.granule k'.cnode := by
  cases h with
  | fail _ hv => exact .refl _ _
  | print out => exact .refl _ _
  | configure i j base r t ctx hs hc ht hst => exact .refl _ _
  | resume j base t hc ht hst => exact .refl _ _
  | mapFrame i j r base va perm m hs hc hp hm => exact .set hc (.map base)
  | mapTable i j r base va level m hs hc hm => exact .set hc (.install base)
  | unprepared slot base size used e pool hcap hroom hleft hmap => exact .refl _ _
  | carve slot base size used kind pool d hcap hroom hleft hmap hlt hd =>
    exact .retyped P.granule_pos hcap hd

/-- What a step does to the capability node. -/
lemma Next.derives (h : Next B k ev k') : k.cnode.Derives P.granule k'.cnode := by
  cases h with
  | store va b =>
    obtain ⟨m, hm⟩ := k.userStore_eq (P := P) va b
    rw [hm]
    exact .refl _ _
  | spurious regs => exact .refl _ _
  | tick regs => exact .refl _ _
  | skip regs esr elr hec helr => exact .refl _ _
  | yield regs esr hec hx => exact .refl _ _
  | die regs esr _ hd hk =>
    obtain ⟨rfl, -⟩ := killCurrent_eq_some hk
    exact .refl _ _
  | ret regs esr v k₁ hec hx hi hh => exact hh.derives
  | ipc esr c s hi hs => exact .refl _ _

/-- The capabilities of a state that a run from the handoff reaches come from those of the
handoff. -/
theorem derives_of_reaches {I : Image P} {i : Machine} {k₀ : Kernel} (hboot : boot I i = some k₀)
    (hr : k₀.Reaches I.pool k) : k₀.cnode.Derives P.granule k.cnode := by
  induction hr with
  | refl => exact .refl _ _
  | step ev hr hs ih =>
    obtain ⟨b, s, h⟩ := sim_of_reaches hboot hr
    exact ih.trans (step_next h.accounts.ledger.valid hs).derives

end Kernel

end K0
