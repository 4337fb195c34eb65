import K0.Cap.Bootstrap

set_option relaxedAutoImplicit false
set_option autoImplicit false

/-!
# The ledger of physical memory

The invariant that ties the capabilities of the root CNode to physical memory: the untyped
regions lie in the memory map, away from the reserved regions and from each other, and the
objects are pairwise disjoint aligned granules below the watermarks. It holds after the
bootstrap and is kept by every `retype`.

## Main definitions

* `K0.Cap.object?`: the physical base of the object that a capability stands for.
* `K0.Ledger`: the invariant.
* `K0.RetypeCall`, `K0.retypeRun`: finite sequences of `retype` calls.

## Main results

* `K0.Ledger.populate`, `K0.Ledger.retype`: the bootstrap establishes the ledger and every call
  keeps it.
* `K0.retype_ledger`: the ledger, and the outcome of the next call, after any calls.
-/

namespace K0

open Word

/-- The physical base of the object a capability stands for. -/
def Cap.object? : Cap → Option ℕ
  | .tcb base => some base
  | .frame base _ => some base
  | .pageTable base _ => some base
  | .endpoint base => some base
  | .empty => none
  | .rootTcb => none
  | .addrSpace _ => none
  | .console => none
  | .untyped _ _ _ => none

/-- A fresh capability stands for the object at the carved granule. -/
@[simp] lemma ObjKind.object?_cap (kind : ObjKind) (carve : ℕ) :
    (kind.cap carve).object? = some carve := by
  cases kind <;> rfl

/-- A fresh capability is never untyped memory. -/
lemma ObjKind.cap_ne_untyped (kind : ObjKind) (carve b s u : ℕ) :
    kind.cap carve ≠ .untyped b s u := by
  cases kind <;> simp [ObjKind.cap]

/-- The capabilities of `c` account for physical memory: untyped regions are inside `memory`,
away from `reserved` and from each other; objects are disjoint aligned granules in the consumed
parts of the untyped regions. -/
structure Ledger (memory reserved : List PhysRegion) (g : ℕ) (c : CNode) : Prop where
  valid : c.Valid
  inside : ∀ i b s u, c.cap i = some (.untyped b s u) →
    ∃ m ∈ memory, m.base ≤ b ∧ b + s ≤ m.endAddr
  clear : ∀ i b s u, c.cap i = some (.untyped b s u) → ∀ r ∈ reserved, Sep b s r.base r.size
  apart : ∀ i j b s u b' s' u', i ≠ j → c.cap i = some (.untyped b s u) →
    c.cap j = some (.untyped b' s' u') → Sep b s b' s'
  source : ∀ i v p, c.cap i = some v → v.object? = some p →
    g ∣ p ∧ ∃ j b s u, c.cap j = some (.untyped b s u) ∧ b ≤ p ∧ p + g ≤ b + u
  distinct : ∀ i j v v' p p', i ≠ j → c.cap i = some v → c.cap j = some v' →
    v.object? = some p → v'.object? = some p' → Sep p g p' g

namespace CNode

/-- The slots after a successful `retype`. -/
lemma cap_retyped {c d : CNode} {slot base size g carve : ℕ} {kind : ObjKind} {v : Cap}
    (hcap : c.cap slot = some v) (h : c.retyped d slot base size g carve kind) (j : ℕ) :
    d.cap j = if j = c.used then some (kind.cap carve)
      else if j = slot then some (.untyped base size (carve + g - base)) else c.cap j := by
  have happ : d.slots =
      (c.set slot (.untyped base size (carve + g - base))).slots ++ [kind.cap carve] := h
  rw [cap_of_append happ, used_set, cap_set (lt_used_of_cap hcap)]

/-- A successful `retype` fills one more slot. -/
lemma used_retyped {c d : CNode} {slot base size g carve : ℕ} {kind : ObjKind}
    (h : c.retyped d slot base size g carve kind) : d.used = c.used + 1 := by
  unfold used
  rw [h, List.length_append, List.length_set, List.length_singleton]

end CNode

section Boot

variable {memory reserved : List PhysRegion}

/-- Every gap of the bootstrap lies in its memory region and avoids the reserved regions. -/
lemma mem_gaps {gapss : List (List (ℕ × ℕ))}
    (hf : List.Forall₂ (fun m gaps => GapsFrom m reserved m.base gaps) memory gapss)
    {g : ℕ × ℕ} (hg : g ∈ gapss.flatten) :
    ∃ m ∈ memory, m.base ≤ g.1 ∧ g.1 + g.2 ≤ m.endAddr ∧
      ∀ r ∈ reserved, Sep g.1 g.2 r.base r.size := by
  induction hf with
  | nil => simp at hg
  | @cons m gaps _ _ hm _ ih =>
    rw [List.flatten_cons, List.mem_append] at hg
    rcases hg with hg | hg
    · obtain ⟨h1, -, h3, h4⟩ := hm.of_mem hg
      exact ⟨m, by simp, h1, h3, h4⟩
    · obtain ⟨m', hm', h'⟩ := ih hg
      exact ⟨m', List.mem_cons_of_mem _ hm', h'⟩

/-- The gaps of disjoint memory regions are pairwise disjoint. -/
lemma gaps_pairwise {gapss : List (List (ℕ × ℕ))}
    (hf : List.Forall₂ (fun m gaps => GapsFrom m reserved m.base gaps) memory gapss)
    (hm : memory.Pairwise fun m m' => Sep m.base m.size m'.base m'.size) :
    gapss.flatten.Pairwise fun g g' => Sep g.1 g.2 g'.1 g'.2 := by
  induction hf with
  | nil => simp
  | @cons m gaps rest gapss' h hf ih =>
    rw [List.pairwise_cons] at hm
    rw [List.flatten_cons, List.pairwise_append]
    refine ⟨h.pairwise, ih hm.2, ?_⟩
    intro g hg g' hg'
    obtain ⟨h1, -, h3, -⟩ := h.of_mem hg
    obtain ⟨m', hm', h1', h3', -⟩ := mem_gaps hf hg'
    exact (hm.1 m' hm').mono h1 h3 h1' h3'

/-- The slots after the bootstrap of a fresh node: the fixed capabilities and fresh untypeds. -/
lemma cap_populate {root : ℕ} {c : CNode} {gaps : List (ℕ × ℕ)}
    (hs : c.slots = CNode.init.slots ++ fixedCaps root ++ gaps.map gapCap) {i : ℕ} {v : Cap}
    (hv : c.cap i = some v) :
    v ∈ fixedCaps root ∨ ∃ g, gaps[i - 4]? = some g ∧ 4 ≤ i ∧ v = gapCap g := by
  unfold CNode.cap at hv
  rw [hs, show CNode.init.slots = [] from rfl, List.nil_append] at hv
  rcases Nat.lt_or_ge i (fixedCaps root).length with hi | hi
  · rw [List.getElem?_append_left hi] at hv
    exact .inl (List.mem_of_getElem? hv)
  · rw [List.getElem?_append_right hi, List.getElem?_map, Option.map_eq_some_iff] at hv
    obtain ⟨g, hg, rfl⟩ := hv
    exact .inr ⟨g, hg, hi, rfl⟩

/-- No fixed capability stands for an object or for untyped memory. -/
lemma fixedCaps_spec {root : ℕ} {v : Cap} (hv : v ∈ fixedCaps root) :
    v.object? = none ∧ ∀ b s u, v ≠ .untyped b s u := by
  simp only [fixedCaps, List.mem_cons, List.not_mem_nil, or_false] at hv
  rcases hv with rfl | rfl | rfl | rfl <;> exact ⟨rfl, by simp⟩

/-- The bootstrap creates no objects. -/
lemma object?_populate {root : ℕ} {c : CNode}
    (h : populate CNode.init memory reserved root = some (.ok (), c)) {i : ℕ} {v : Cap}
    (hv : c.cap i = some v) : v.object? = none := by
  obtain ⟨-, -, gapss, -, hs⟩ := populate_ok h
  rcases cap_populate hs hv with hv | ⟨g, -, -, rfl⟩
  · exact (fixedCaps_spec hv).1
  · rfl

/-- The bootstrap establishes the ledger.

**Proof sketch.** An untyped capability of the new node is one of the emitted gaps, with its
watermark at the start; the gaps are disjoint, and slots with different indices hold different
gaps. There are no objects yet. -/
theorem Ledger.populate {root g : ℕ} {c : CNode}
    (h : populate CNode.init memory reserved root = some (.ok (), c)) :
    Ledger memory reserved g c := by
  obtain ⟨hgood, hdis, gapss, hf, hs⟩ := populate_ok h
  -- an untyped capability is a gap with nothing consumed
  have hun : ∀ {i b s u}, c.cap i = some (.untyped b s u) →
      4 ≤ i ∧ gapss.flatten[i - 4]? = some (b, s) ∧ u = 0 := by
    intro i b s u hi
    rcases cap_populate hs hi with hv | ⟨⟨b', s'⟩, hg, h4, hv⟩
    · exact absurd rfl ((fixedCaps_spec hv).2 b s u)
    · simp only [gapCap, Cap.untyped.injEq] at hv
      obtain ⟨rfl, rfl, rfl⟩ := hv
      exact ⟨h4, hg, rfl⟩
  refine ⟨?_, ?_, ?_, ?_, ?_, ?_⟩
  · intro i b s u hi
    obtain ⟨-, hg, rfl⟩ := hun hi
    obtain ⟨m, hm, -, h2, -⟩ := mem_gaps hf (List.mem_of_getElem? hg)
    have := PhysRegion.bad_eq_false.mp (hgood m hm)
    exact ⟨Nat.zero_le _, h2.trans_lt this.2⟩
  · intro i b s u hi
    obtain ⟨m, hm, h1, h2, -⟩ := mem_gaps hf (List.mem_of_getElem? (hun hi).2.1)
    exact ⟨m, hm, h1, h2⟩
  · intro i b s u hi
    obtain ⟨m, hm, -, -, h3⟩ := mem_gaps hf (List.mem_of_getElem? (hun hi).2.1)
    exact h3
  · intro i j b s u b' s' u' hij hi hj
    obtain ⟨hi4, hgi, -⟩ := hun hi
    obtain ⟨hj4, hgj, -⟩ := hun hj
    have hpw := gaps_pairwise hf hdis
    rw [List.pairwise_iff_getElem] at hpw
    obtain ⟨hil, hgi⟩ := List.getElem?_eq_some_iff.mp hgi
    obtain ⟨hjl, hgj⟩ := List.getElem?_eq_some_iff.mp hgj
    rcases Nat.lt_or_gt_of_ne hij with hlt | hlt
    · have := hpw (i - 4) (j - 4) hil hjl (by omega)
      rwa [hgi, hgj] at this
    · have := hpw (j - 4) (i - 4) hjl hil (by omega)
      rw [hgi, hgj] at this
      exact this.symm
  · intro i v p hi hp
    rw [object?_populate h hi] at hp
    simp at hp
  · intro i j v v' p p' _ hi _ hp
    rw [object?_populate h hi] at hp
    simp at hp

end Boot

/-! ### Preservation -/

section Step

variable {memory reserved : List PhysRegion} {c d : CNode}

/-- An object lies in a memory region. -/
lemma Ledger.object_inside {g i p : ℕ} {v : Cap} (hl : Ledger memory reserved g c)
    (hi : c.cap i = some v) (hp : v.object? = some p) :
    ∃ m ∈ memory, m.base ≤ p ∧ p + g ≤ m.endAddr := by
  obtain ⟨-, j, b, s, u, hj, h1, h2⟩ := hl.source i v p hi hp
  have hu := (hl.valid j b s u hj).1
  obtain ⟨m, hm, h3, h4⟩ := hl.inside j b s u hj
  exact ⟨m, hm, by omega, by omega⟩

/-- An object keeps clear of the reserved regions. -/
lemma Ledger.object_clear {g i p : ℕ} {v : Cap} (hl : Ledger memory reserved g c)
    (hi : c.cap i = some v) (hp : v.object? = some p) {r : PhysRegion} (hr : r ∈ reserved) :
    Sep p g r.base r.size := by
  obtain ⟨-, j, b, s, u, hj, h1, h2⟩ := hl.source i v p hi hp
  have hu := (hl.valid j b s u hj).1
  exact (hl.clear j b s u hj r hr).mono_left h1 (by omega)

/-- The granule that an untyped carves next is disjoint from every object. -/
lemma Ledger.sep_next {g slot base size used : ℕ} (hl : Ledger memory reserved g c)
    (hg : 0 < g) (hcap : c.cap slot = some (.untyped base size used))
    (hleft : GranuleLeft g base size used) {i : ℕ} {v : Cap} {p : ℕ} (hi : c.cap i = some v)
    (hp : v.object? = some p) : Sep p g (roundUp g (base + used)) g := by
  obtain ⟨-, j, b, s, u, hj, h1, h2⟩ := hl.source i v p hi hp
  have hfit := (granuleLeft_iff hg).mp hleft
  have hup := le_roundUp (x := base + used) hg
  by_cases hjs : j = slot
  · -- an object of the same untyped lies below its watermark
    subst hjs
    rw [hcap, Option.some.injEq, Cap.untyped.injEq] at hj
    obtain ⟨rfl, rfl, rfl⟩ := hj
    left
    omega
  · have hu := (hl.valid j b s u hj).1
    exact (hl.apart j slot b s u base size used hjs hj hcap).mono h1 (by omega) (by omega) hfit

/-- A successful `retype` keeps the ledger.

**Proof sketch.** The carved granule is aligned and fits between the old watermark and the end
of its untyped, so it lies in the newly consumed part. Older objects lie below the old watermark
of the same untyped or in another untyped, which is disjoint. -/
lemma Ledger.retyped {g slot base size used : ℕ} {kind : ObjKind}
    (hl : Ledger memory reserved g c) (hg : 0 < g)
    (hcap : c.cap slot = some (.untyped base size used)) (hleft : GranuleLeft g base size used)
    (h : c.retyped d slot base size g (roundUp g (base + used)) kind) :
    Ledger memory reserved g d := by
  have hfit := (granuleLeft_iff hg).mp hleft
  have hup := le_roundUp (x := base + used) hg
  have hread := CNode.cap_retyped hcap h
  have hslot := CNode.lt_used_of_cap hcap
  -- an untyped of the new node is one of the old node, with the watermark of `slot` moved
  have hun : ∀ {i b s u}, d.cap i = some (.untyped b s u) →
      ∃ u₀, c.cap i = some (.untyped b s u₀) ∧ u₀ ≤ u ∧ u ≤ s := by
    intro i b s u hi
    rw [hread] at hi
    split_ifs at hi with h1 h2
    · exact absurd (Option.some.inj hi) (kind.cap_ne_untyped _ _ _ _)
    · rw [Option.some.injEq, Cap.untyped.injEq] at hi
      obtain ⟨rfl, rfl, rfl⟩ := hi
      exact ⟨used, h2 ▸ hcap, by omega, by omega⟩
    · exact ⟨u, hi, le_rfl, (hl.valid i b s u hi).1⟩
  -- and conversely
  have hun' : ∀ {i b s u}, c.cap i = some (.untyped b s u) →
      ∃ u', d.cap i = some (.untyped b s u') ∧ u ≤ u' := by
    intro i b s u hi
    have hlt := CNode.lt_used_of_cap hi
    rw [hread, if_neg (Nat.ne_of_lt hlt)]
    by_cases h2 : i = slot
    · subst h2
      rw [hcap, Option.some.injEq, Cap.untyped.injEq] at hi
      obtain ⟨rfl, rfl, rfl⟩ := hi
      exact ⟨_, if_pos rfl, by omega⟩
    · exact ⟨u, by rw [if_neg h2]; exact hi, le_rfl⟩
  -- an object of the new node is the new granule or an old object
  have hobj : ∀ {i v p}, d.cap i = some v → v.object? = some p →
      (i = c.used ∧ p = roundUp g (base + used)) ∨ (i ≠ c.used ∧ c.cap i = some v) := by
    intro i v p hi hp
    rw [hread] at hi
    split_ifs at hi with h1 h2
    · rw [← Option.some.inj hi, ObjKind.object?_cap, Option.some.injEq] at hp
      exact .inl ⟨h1, hp.symm⟩
    · rw [← Option.some.inj hi] at hp
      simp [Cap.object?] at hp
    · exact .inr ⟨h1, hi⟩
  refine ⟨?_, ?_, ?_, ?_, ?_, ?_⟩
  · intro i b s u hi
    obtain ⟨u₀, h₀, -, hle⟩ := hun hi
    exact ⟨hle, (hl.valid i b s u₀ h₀).2⟩
  · intro i b s u hi
    obtain ⟨u₀, h₀, -⟩ := hun hi
    exact hl.inside i b s u₀ h₀
  · intro i b s u hi
    obtain ⟨u₀, h₀, -⟩ := hun hi
    exact hl.clear i b s u₀ h₀
  · intro i j b s u b' s' u' hij hi hj
    obtain ⟨u₀, h₀, -⟩ := hun hi
    obtain ⟨u₁, h₁, -⟩ := hun hj
    exact hl.apart i j b s u₀ b' s' u₁ hij h₀ h₁
  · intro i v p hi hp
    rcases hobj hi hp with ⟨-, rfl⟩ | ⟨-, hi'⟩
    · refine ⟨dvd_roundUp g _, slot, base, size, roundUp g (base + used) + g - base, ?_,
        by omega, by omega⟩
      rw [hread, if_neg (Nat.ne_of_lt hslot), if_pos rfl]
    · obtain ⟨hd, j, b, s, u, hj, h1, h2⟩ := hl.source i v p hi' hp
      obtain ⟨u', hj', hle⟩ := hun' hj
      exact ⟨hd, j, b, s, u', hj', h1, by omega⟩
  · intro i j v v' p p' hij hi hj hp hp'
    rcases hobj hi hp with ⟨rfl, rfl⟩ | ⟨-, hi'⟩
    · rcases hobj hj hp' with ⟨rfl, -⟩ | ⟨-, hj'⟩
      · exact absurd rfl hij
      · exact (hl.sep_next hg hcap hleft hj' hp').symm
    · rcases hobj hj hp' with ⟨rfl, rfl⟩ | ⟨-, hj'⟩
      · exact hl.sep_next hg hcap hleft hi' hp
      · exact hl.distinct i j v v' p p' hij hi' hj' hp hp'

/-- Every call of `retype` that returns keeps the ledger. -/
theorem Ledger.retype {σ : Type} {k slot : ℕ} {kind : ObjKind}
    {prep : ℕ → σ → Option (Bool × σ)} {w w' : σ} {r : Except RetypeError ℕ}
    (hl : Ledger memory reserved (2 ^ k) c) (hk : k < 64)
    (h : c.retype slot kind (2 ^ k) prep w = some (r, d, w')) :
    Ledger memory reserved (2 ^ k) d := by
  have hout := CNode.retype_cases hk hl.valid slot kind prep w
  rw [h] at hout
  cases hout with
  | ok base size used _ _ hcap _ hleft _ hd => exact hl.retyped (Nat.two_pow_pos k) hcap hleft hd
  | _ => exact hl

end Step

/-! ### Sequences of calls -/

/-- One call of `retype`, with its own callback. -/
structure RetypeCall (σ : Type) where
  slot : ℕ
  kind : ObjKind
  prep : ℕ → σ → Option (Bool × σ)

/-- Make the calls in order with granule `g`; `none` if a callback panics. -/
def retypeRun {σ : Type} (g : ℕ) : List (RetypeCall σ) → CNode × σ → Option (CNode × σ)
  | [], s => some s
  | a :: rest, (c, w) =>
    match c.retype a.slot a.kind g a.prep w with
    | none => none
    | some (_, d, w') => retypeRun g rest (d, w')

/-- The ledger holds after any sequence of calls. -/
lemma Ledger.retypeRun {σ : Type} {memory reserved : List PhysRegion} {k : ℕ} (hk : k < 64) :
    ∀ {calls : List (RetypeCall σ)} {c d : CNode} {w w' : σ},
      Ledger memory reserved (2 ^ k) c →
      K0.retypeRun (2 ^ k) calls (c, w) = some (d, w') → Ledger memory reserved (2 ^ k) d
  | [], c, d, w, w', hl, h => by
    simp only [K0.retypeRun, Option.some.injEq, Prod.mk.injEq] at h
    exact h.1 ▸ hl
  | a :: rest, c, d, w, w', hl, h => by
    unfold K0.retypeRun at h
    rcases hr : c.retype a.slot a.kind (2 ^ k) a.prep w with _ | ⟨r, c₁, w₁⟩
    · rw [hr] at h
      simp at h
    · rw [hr] at h
      exact (hl.retype hk hr).retypeRun hk h

section Outcome

variable {σ : Type} {c d : CNode} {k slot : ℕ} {kind : ObjKind}
  {prep : ℕ → σ → Option (Bool × σ)} {w w' : σ} {r : Except RetypeError ℕ}

/-- A call never touches the untyped regions themselves and only raises watermarks. -/
lemma retype_untyped_mono (hk : k < 64) (hv : c.Valid)
    (h : c.retype slot kind (2 ^ k) prep w = some (r, d, w')) {i b s u : ℕ}
    (hi : c.cap i = some (.untyped b s u)) :
    ∃ u', d.cap i = some (.untyped b s u') ∧ u ≤ u' ∧ u' ≤ s := by
  have hout := CNode.retype_cases hk hv slot kind prep w
  have hu := (hv i b s u hi).1
  rw [h] at hout
  cases hout with
  | ok base size used _ _ hcap _ hleft _ hd =>
    have hg : 0 < 2 ^ k := Nat.two_pow_pos k
    have hfit := (granuleLeft_iff hg).mp hleft
    have hup := le_roundUp (x := base + used) hg
    rw [CNode.cap_retyped hcap hd, if_neg (Nat.ne_of_lt (CNode.lt_used_of_cap hi))]
    by_cases his : i = slot
    · subst his
      rw [hcap, Option.some.injEq, Cap.untyped.injEq] at hi
      obtain ⟨rfl, rfl, rfl⟩ := hi
      exact ⟨_, if_pos rfl, by omega, by omega⟩
    · exact ⟨u, by rw [if_neg his]; exact hi, le_rfl, hu⟩
  | _ => exact ⟨u, hi, le_rfl, hu⟩

/-- A call leaves every filled slot except its source as it is, and appends at most one slot:
none on failure, where the node is unchanged, and the new object on success. -/
lemma retype_append (hk : k < 64) (hv : c.Valid)
    (h : c.retype slot kind (2 ^ k) prep w = some (r, d, w')) :
    (∀ i v, c.cap i = some v → i ≠ slot → d.cap i = some v) ∧
    ((∃ e, r = .error e ∧ d = c) ∨
      (r = .ok c.used ∧ d.used = c.used + 1 ∧ ∃ carve, d.cap c.used = some (kind.cap carve))) := by
  have hout := CNode.retype_cases hk hv slot kind prep w
  rw [h] at hout
  cases hout with
  | ok base size used _ _ hcap _ _ _ hd =>
    have hread := CNode.cap_retyped hcap hd
    refine ⟨fun i v hi his => ?_, .inr ⟨rfl, CNode.used_retyped hd, _, by rw [hread, if_pos rfl]⟩⟩
    rw [hread, if_neg (Nat.ne_of_lt (CNode.lt_used_of_cap hi)), if_neg his]
    exact hi
  | _ => exact ⟨fun _ _ hi _ => hi, .inl ⟨_, rfl, rfl⟩⟩

/-- The outcome depends on the callback only through one application, to the next granule of
the source, and on no application at all unless the slot is untyped, a slot is free and a
granule is left. -/
lemma retype_prep_congr (hk : k < 64) (hv : c.Valid) {prep' : ℕ → σ → Option (Bool × σ)}
    (hp : ∀ b s u, c.cap slot = some (.untyped b s u) → c.used < cnodeSlots →
      GranuleLeft (2 ^ k) b s u →
      prep' (roundUp (2 ^ k) (b + u)) w = prep (roundUp (2 ^ k) (b + u)) w) :
    c.retype slot kind (2 ^ k) prep' w = c.retype slot kind (2 ^ k) prep w := by
  rcases hcap : c.cap slot with _ | v
  · unfold CNode.retype
    rw [hcap]
  · by_cases hun : ∃ b s u, v = .untyped b s u
    · obtain ⟨b, s, u, rfl⟩ := hun
      obtain ⟨hu, hs⟩ := hv _ _ _ _ hcap
      rcases Nat.lt_or_eq_of_le c.le with hroom | hfull
      · have h1 := CNode.retype_untyped hk hcap hu hs hroom kind prep w
        have h2 := CNode.retype_untyped hk hcap hu hs hroom kind prep' w
        by_cases hleft : GranuleLeft (2 ^ k) b s u
        · -- the same callback result leads to the same outcome
          simp only [hleft, not_true_eq_false, false_and, true_and, false_or] at h1 h2
          rw [hp b s u hcap hroom hleft] at h2
          rcases h1 with ⟨e1, r1⟩ | ⟨w1, e1, r1⟩ | ⟨w1, d1, e1, r1, s1⟩ <;>
            rcases h2 with ⟨e2, r2⟩ | ⟨w2, e2, r2⟩ | ⟨w2, d2, e2, r2, s2⟩ <;>
            rw [e1] at e2 <;> simp only [Option.some.injEq, Prod.mk.injEq, reduceCtorEq,
              Bool.false_eq_true, Bool.true_eq_false, false_and, true_and] at e2
          · rw [r1, r2]
          · rw [r1, r2, e2]
          · rw [r1, r2, e2, CNode.ext (s1.trans s2.symm)]
        · simp only [hleft, not_false_eq_true, true_and, false_and, or_false] at h1 h2
          rw [h1, h2]
      · have hfull' : c.used = cnodeSlots := hfull
        unfold CNode.retype
        rw [hcap]
        simp only [hfull', ↓reduceIte]
    · unfold CNode.retype
      rw [hcap]
      cases v <;> first | rfl | exact absurd ⟨_, _, _, rfl⟩ hun

/-- A call reports exhaustion exactly when its slot is untyped, a slot of the node is free and
no whole aligned granule is left above the watermark. -/
lemma retype_eq_exhausted_iff (hk : k < 64) (hv : c.Valid) :
    (∃ d w', c.retype slot kind (2 ^ k) prep w = some (.error .exhausted, d, w')) ↔
      c.used < cnodeSlots ∧
        ∃ b s u, c.cap slot = some (.untyped b s u) ∧ ¬ GranuleLeft (2 ^ k) b s u := by
  have hout := CNode.retype_cases hk hv slot kind prep w
  constructor
  · rintro ⟨d, w', h⟩
    rw [h] at hout
    cases hout with
    | exhausted b s u hcap hroom hleft => exact ⟨hroom, b, s, u, hcap, hleft⟩
  · rintro ⟨hroom, b, s, u, hcap, hleft⟩
    obtain ⟨hu, hs⟩ := hv _ _ _ _ hcap
    rcases CNode.retype_untyped hk hcap hu hs hroom kind prep w with
      ⟨-, h⟩ | ⟨h, -⟩
    · exact ⟨c, w, h⟩
    · exact absurd h hleft

end Outcome

/-- **The ledger after any calls.** After a successful bootstrap and any sequence of `retype`
calls with a power-of-two granule, the objects are pairwise disjoint aligned granules, each in
one memory region, disjoint from every reserved region and from the unconsumed part of every
untyped. Whatever the next call is, it keeps the base and size of each untyped, never lowers a
watermark nor moves it past the size, leaves all other filled slots alone and appends at most
the new object; it consults the callback only for the next granule of a source that has one
left, while a slot is free; it reports exhaustion exactly when its slot is untyped, a slot is
free and no whole aligned granule is left; and if it fails the node is as it was.

**Proof sketch.** The bootstrap establishes `Ledger` and every call keeps it; the placement of
the objects is read off the ledger, and the rest is the case analysis of one call. -/
theorem retype_ledger {σ : Type} {memory reserved : List PhysRegion} {root : ℕ} {c₀ : CNode}
    (hboot : populate CNode.init memory reserved root = some (.ok (), c₀)) {k : ℕ} (hk : k < 64)
    {calls : List (RetypeCall σ)} {c : CNode} {w₀ w : σ}
    (hrun : retypeRun (2 ^ k) calls (c₀, w₀) = some (c, w)) :
    (∀ i v, c₀.cap i = some v → v.object? = none) ∧
    (∀ i v p, c.cap i = some v → v.object? = some p →
      2 ^ k ∣ p ∧ (∃ m ∈ memory, m.base ≤ p ∧ p + 2 ^ k ≤ m.endAddr) ∧
      (∀ r ∈ reserved, Sep p (2 ^ k) r.base r.size) ∧
      (∀ j b s u, c.cap j = some (.untyped b s u) → Sep p (2 ^ k) (b + u) (s - u)) ∧
      ∀ j v' p', j ≠ i → c.cap j = some v' → v'.object? = some p' →
        Sep p (2 ^ k) p' (2 ^ k)) ∧
    ∀ (slot : ℕ) (kind : ObjKind) (prep : ℕ → σ → Option (Bool × σ)),
      (∀ r d w', c.retype slot kind (2 ^ k) prep w = some (r, d, w') →
        (∀ i b s u, c.cap i = some (.untyped b s u) →
          ∃ u', d.cap i = some (.untyped b s u') ∧ u ≤ u' ∧ u' ≤ s) ∧
        (∀ i v, c.cap i = some v → i ≠ slot → d.cap i = some v) ∧
        ((∃ e, r = .error e ∧ d = c) ∨
          (r = .ok c.used ∧ d.used = c.used + 1 ∧
            ∃ carve, d.cap c.used = some (kind.cap carve)))) ∧
      (∀ prep', (∀ b s u, c.cap slot = some (.untyped b s u) → c.used < cnodeSlots →
          GranuleLeft (2 ^ k) b s u →
          prep' (roundUp (2 ^ k) (b + u)) w = prep (roundUp (2 ^ k) (b + u)) w) →
        c.retype slot kind (2 ^ k) prep' w = c.retype slot kind (2 ^ k) prep w) ∧
      ((∃ d w', c.retype slot kind (2 ^ k) prep w = some (.error .exhausted, d, w')) ↔
        c.used < cnodeSlots ∧
          ∃ b s u, c.cap slot = some (.untyped b s u) ∧ ¬ GranuleLeft (2 ^ k) b s u) := by
  have hl : Ledger memory reserved (2 ^ k) c := (Ledger.populate hboot).retypeRun hk hrun
  refine ⟨fun i v => object?_populate hboot, ?_, fun slot kind prep => ⟨?_, ?_, ?_⟩⟩
  · intro i v p hi hp
    obtain ⟨hd, j, b, s, u, hj, h1, h2⟩ := hl.source i v p hi hp
    have hu := (hl.valid j b s u hj).1
    obtain ⟨m, hm, h3, h4⟩ := hl.inside j b s u hj
    refine ⟨hd, ⟨m, hm, by omega, by omega⟩, ?_, ?_, ?_⟩
    · intro r hr
      exact (hl.clear j b s u hj r hr).mono_left h1 (by omega)
    · -- an object lies below the watermark of its own untyped and outside every other one
      intro j' b' s' u' hj'
      have hu' := (hl.valid j' b' s' u' hj').1
      by_cases hjj : j = j'
      · subst hjj
        rw [hj, Option.some.injEq, Cap.untyped.injEq] at hj'
        obtain ⟨rfl, rfl, rfl⟩ := hj'
        exact .inl h2
      · exact (hl.apart j j' b s u b' s' u' hjj hj hj').mono h1 (by omega) (by omega) (by omega)
    · intro j' v' p' hne hj' hp'
      exact hl.distinct i j' v v' p p' hne.symm hi hj' hp hp'
  · intro r d w' h
    obtain ⟨h1, h2⟩ := retype_append hk hl.valid h
    exact ⟨fun i b s u => retype_untyped_mono hk hl.valid h, h1, h2⟩
  · exact fun prep' => retype_prep_congr hk hl.valid
  · exact retype_eq_exhausted_iff hk hl.valid

/-- The node after the bootstrap on one memory region of 27 granules. -/
def bootedNode : CNode :=
  ⟨fixedCaps 0 ++ [.untyped 0x40000000 (27 * 2 ^ 12) 0], by decide⟩

/-- The same node after 27 frames: the untyped is used up in the moment the last slot is. -/
def filledNode : CNode :=
  ⟨fixedCaps 0 ++ [.untyped 0x40000000 (27 * 2 ^ 12) (27 * 2 ^ 12)] ++
    (List.range 27).map fun i => .frame (0x40000000 + i * 2 ^ 12) false, by decide⟩

/-- A call that carves a frame from slot 4, with a callback that always succeeds. -/
def frameCall : RetypeCall Unit := ⟨4, .frame, fun _ w => some (true, w)⟩

/-- The bootstrap that yields `bootedNode`. -/
lemma populate_bootedNode :
    populate CNode.init [⟨0x40000000, 27 * 2 ^ 12⟩] [] 0 = some (.ok (), bootedNode) := rfl

/-- The calls that yield `filledNode`. -/
lemma retypeRun_filledNode :
    retypeRun (2 ^ 12) (List.replicate 27 frameCall) (bootedNode, ()) = some (filledNode, ()) := rfl

/-- The hypotheses of `retype_ledger` hold for the 27 frames, and the first two of them are the
first two granules of the region. -/
theorem retype_ledger_filledNode :
    Sep 0x40000000 (2 ^ 12) 0x40001000 (2 ^ 12) :=
  ((retype_ledger populate_bootedNode (by decide) retypeRun_filledNode).2.1 5
    (.frame 0x40000000 false) 0x40000000 rfl rfl).2.2.2.2 6 (.frame 0x40001000 false) 0x40001000
    (by decide) rfl rfl

/-- A full node hides the exhaustion of its untyped: no granule is left in slot 4, and yet the
call reports that the node has no free slot. -/
theorem retype_filledNode_outOfSlots :
    populate CNode.init [⟨0x40000000, 27 * 2 ^ 12⟩] [] 0 = some (.ok (), bootedNode) ∧
    retypeRun (2 ^ 12) (List.replicate 27 frameCall) (bootedNode, ()) = some (filledNode, ()) ∧
    filledNode.cap 4 = some (.untyped 0x40000000 (27 * 2 ^ 12) (27 * 2 ^ 12)) ∧
    ¬ GranuleLeft (2 ^ 12) 0x40000000 (27 * 2 ^ 12) (27 * 2 ^ 12) ∧
    filledNode.retype 4 .frame (2 ^ 12) frameCall.prep () =
      some (.error .outOfSlots, filledNode, ()) := by
  refine ⟨rfl, rfl, rfl, ?_, rfl⟩
  rintro ⟨a, -, h1, h2⟩
  omega

end K0
