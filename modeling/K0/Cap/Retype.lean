import K0.Cap.Basic

set_option relaxedAutoImplicit false
set_option autoImplicit false

/-!
# What one `retype` does

The exact outcome of `K0.CNode.retype` in each of its cases, for a granule that is a power of
two and an untyped capability that lies below `2 ^ 64`. Every later fact about the ledger is
derived from `K0.CNode.retype_cases`; nothing else unfolds `retype`.

## Main definitions

* `K0.GranuleLeft`: a whole aligned granule is left above the watermark of an untyped.
* `K0.CNode.Valid`: every untyped capability ends below `2 ^ 64` with its watermark inside it.

## Main results

* `K0.CNode.retype_cases`: the outcomes of a call, with what each of them changed.
-/

namespace K0

open Word

/-- A whole granule, aligned to `g`, is left in `[base + used, base + size)`. -/
def GranuleLeft (g base size used : ℕ) : Prop :=
  ∃ a, g ∣ a ∧ base + used ≤ a ∧ a + g ≤ base + size

/-- The next free granule of an untyped decides whether one is left. -/
lemma granuleLeft_iff {g base size used : ℕ} (hg : 0 < g) :
    GranuleLeft g base size used ↔ roundUp g (base + used) + g ≤ base + size := by
  constructor
  · rintro ⟨a, ha, h1, h2⟩
    have := (roundUp_le_iff hg ha).mpr h1
    omega
  · intro h
    exact ⟨_, dvd_roundUp g _, le_roundUp hg, h⟩

namespace CNode

/-- Every untyped capability ends below `2 ^ 64`, with its watermark inside it. -/
def Valid (c : CNode) : Prop :=
  ∀ i base size used, c.cap i = some (.untyped base size used) →
    used ≤ size ∧ base + size < 2 ^ 64

/-- A slot beyond the filled ones holds nothing. -/
lemma cap_eq_none {c : CNode} {i : ℕ} : c.cap i = none ↔ c.used ≤ i :=
  List.getElem?_eq_none_iff

/-- A slot that holds a capability is filled. -/
lemma lt_used_of_cap {c : CNode} {i : ℕ} {v : Cap} (h : c.cap i = some v) : i < c.used := by
  by_contra hi
  rw [cap_eq_none.mpr (Nat.not_lt.mp hi)] at h
  simp at h

/-- Reading back an overwritten filled slot. -/
lemma cap_set {c : CNode} {i j : ℕ} {v : Cap} (hi : i < c.used) :
    (c.set i v).cap j = if j = i then some v else c.cap j := by
  unfold cap set
  by_cases h : j = i
  · subst h
    simp only [↓reduceIte]
    exact List.getElem?_set_self hi
  · simp only [h, ↓reduceIte]
    exact List.getElem?_set_ne (fun e => h e.symm)

/-- Overwriting keeps the number of filled slots. -/
@[simp] lemma used_set (c : CNode) (i : ℕ) (v : Cap) : (c.set i v).used = c.used :=
  List.length_set

/-- A push into a node with room appends. -/
lemma push_of_lt {c : CNode} {v : Cap} (h : c.used < cnodeSlots) :
    ∃ d : CNode, c.push v = (.ok (), d) ∧ d.slots = c.slots ++ [v] := by
  unfold push
  rw [dif_neg (Nat.ne_of_lt h)]
  exact ⟨_, rfl, rfl⟩

/-- A push into a full node fails and changes nothing. -/
lemma push_of_full {c : CNode} {v : Cap} (h : c.used = cnodeSlots) :
    c.push v = (.error .outOfSlots, c) := by
  unfold push
  rw [dif_pos h]

/-- Reading the slots after an append. -/
lemma cap_of_append {c d : CNode} {v : Cap} (h : d.slots = c.slots ++ [v]) (j : ℕ) :
    d.cap j = if j = c.used then some v else c.cap j := by
  unfold cap used
  rw [h]
  rcases lt_trichotomy j c.slots.length with hj | hj | hj
  · rw [List.getElem?_append_left hj, if_neg (Nat.ne_of_lt hj)]
  · subst hj
    simp
  · rw [if_neg (Nat.ne_of_gt hj), List.getElem?_append_right hj.le,
      List.getElem?_eq_none (by rw [List.length_singleton]; omega),
      List.getElem?_eq_none hj.le]

/-- The node after a successful `retype` of the untyped in `slot`: the watermark stands at the
end of the granule `carve` and the new capability is the last one. -/
def retyped (c d : CNode) (slot base size granule carve : ℕ) (kind : ObjKind) : Prop :=
  d.slots = c.slots.set slot (.untyped base size (carve + granule - base)) ++ [kind.cap carve]

section Retype

variable {σ : Type} {c : CNode} {slot : ℕ} {k : ℕ}

/-- `retype` on a valid untyped with room in the node: it reports exhaustion unless the next
aligned granule fits, and otherwise runs `prep` on it and commits if that succeeds.

**Proof sketch.** Follow the checked additions. Each of them that overflows already shows that
the rounded-up watermark plus one granule exceeds the end of the untyped, which is below
`2 ^ 64`; if none overflows, the masked value is that rounded-up watermark. -/
lemma retype_untyped {base size used : ℕ} (hk : k < 64)
    (hcap : c.cap slot = some (.untyped base size used)) (hu : used ≤ size)
    (hs : base + size < 2 ^ 64) (hroom : c.used < cnodeSlots) (kind : ObjKind)
    (prep : ℕ → σ → Option (Bool × σ)) (w : σ) :
    (¬ GranuleLeft (2 ^ k) base size used ∧
        c.retype slot kind (2 ^ k) prep w = some (.error .exhausted, c, w)) ∨
    (GranuleLeft (2 ^ k) base size used ∧
      ((prep (roundUp (2 ^ k) (base + used)) w = none ∧
          c.retype slot kind (2 ^ k) prep w = none) ∨
       (∃ w', prep (roundUp (2 ^ k) (base + used)) w = some (false, w') ∧
          c.retype slot kind (2 ^ k) prep w = some (.error .prepFailed, c, w')) ∨
       (∃ w' d, prep (roundUp (2 ^ k) (base + used)) w = some (true, w') ∧
          c.retype slot kind (2 ^ k) prep w = some (.ok c.used, d, w') ∧
          c.retyped d slot base size (2 ^ k) (roundUp (2 ^ k) (base + used)) kind))) := by
  have hg : 0 < 2 ^ k := Nat.two_pow_pos k
  have hgle : 2 ^ k ≤ 2 ^ 63 := Nat.pow_le_pow_right two_pos (by omega)
  rw [granuleLeft_iff hg]
  have hmark : checkedAdd base used = some (base + used) := checkedAdd_of_lt (by omega)
  have hup1 := le_roundUp (x := base + used) hg
  have hup2 := roundUp_lt (x := base + used) hg
  unfold retype
  rw [hcap]
  simp only [Nat.ne_of_lt hroom, ↓reduceIte, hmark]
  by_cases h1 : base + used + (2 ^ k - 1) < 2 ^ 64
  · have hcarve : maskDown (2 ^ k) (base + used + (2 ^ k - 1)) = roundUp (2 ^ k) (base + used) :=
      maskDown_eq (by omega) h1
    rw [checkedAdd_of_lt h1]
    simp only [hcarve]
    by_cases h2 : roundUp (2 ^ k) (base + used) + 2 ^ k < 2 ^ 64
    · rw [checkedAdd_of_lt h2, checkedAdd_of_lt hs]
      simp only [gt_iff_lt]
      by_cases h3 : base + size < roundUp (2 ^ k) (base + used) + 2 ^ k
      · left
        exact ⟨by omega, if_pos h3⟩
      · right
        refine ⟨by omega, ?_⟩
        rw [if_neg h3]
        rcases hp : prep (roundUp (2 ^ k) (base + used)) w with _ | ⟨_ | _, w'⟩
        · exact .inl ⟨rfl, rfl⟩
        · exact .inr (.inl ⟨w', rfl, rfl⟩)
        · right; right
          have hroom' : (c.set slot (.untyped base size
              (roundUp (2 ^ k) (base + used) + 2 ^ k - base))).used < cnodeSlots := by
            rw [used_set]
            exact hroom
          obtain ⟨d, hd, hds⟩ := push_of_lt (v := kind.cap (roundUp (2 ^ k) (base + used))) hroom'
          refine ⟨w', d, rfl, ?_, hds⟩
          simp only [hd, used_set]
    · left
      refine ⟨by omega, ?_⟩
      rw [checkedAdd_eq_none.mpr (Nat.not_lt.mp h2)]
  · left
    refine ⟨?_, by rw [checkedAdd_eq_none.mpr (Nat.not_lt.mp h1)]⟩
    -- the sum overflows, so the next multiple of the granule is at least `2 ^ 64`
    have hdvd : 2 ^ k ∣ 2 ^ 64 := pow_dvd_pow 2 (by omega)
    have hle : 2 ^ 64 ≤ roundUp (2 ^ k) (base + used) := by
      obtain ⟨q, hq⟩ := hdvd
      obtain ⟨q', hq'⟩ := dvd_roundUp (2 ^ k) (base + used)
      rw [hq, hq']
      apply Nat.mul_le_mul_left
      by_contra hlt
      have : 2 ^ k * (q' + 1) ≤ 2 ^ k * q := Nat.mul_le_mul_left _ (by omega)
      rw [mul_add, mul_one, ← hq, ← hq'] at this
      omega
    omega

/-- The outcomes of `retype` on a valid node, with everything each of them changed. -/
inductive RetypeOutcome (c : CNode) (slot : ℕ) (kind : ObjKind) (g : ℕ)
    (prep : ℕ → σ → Option (Bool × σ)) (w : σ) :
    Option (Except RetypeError ℕ × CNode × σ) → Prop
  | badSlot : c.used ≤ slot → RetypeOutcome c slot kind g prep w (some (.error .badSlot, c, w))
  | notUntyped (v : Cap) : c.cap slot = some v →
      (∀ base size used, v ≠ .untyped base size used) →
      RetypeOutcome c slot kind g prep w (some (.error .notUntyped, c, w))
  | outOfSlots (base size used : ℕ) : c.cap slot = some (.untyped base size used) →
      c.used = cnodeSlots → RetypeOutcome c slot kind g prep w (some (.error .outOfSlots, c, w))
  | exhausted (base size used : ℕ) : c.cap slot = some (.untyped base size used) →
      c.used < cnodeSlots → ¬ GranuleLeft g base size used →
      RetypeOutcome c slot kind g prep w (some (.error .exhausted, c, w))
  | panicked (base size used : ℕ) : c.cap slot = some (.untyped base size used) →
      c.used < cnodeSlots → GranuleLeft g base size used →
      prep (roundUp g (base + used)) w = none → RetypeOutcome c slot kind g prep w none
  | prepFailed (base size used : ℕ) (w' : σ) : c.cap slot = some (.untyped base size used) →
      c.used < cnodeSlots → GranuleLeft g base size used →
      prep (roundUp g (base + used)) w = some (false, w') →
      RetypeOutcome c slot kind g prep w (some (.error .prepFailed, c, w'))
  | ok (base size used : ℕ) (w' : σ) (d : CNode) :
      c.cap slot = some (.untyped base size used) →
      c.used < cnodeSlots → GranuleLeft g base size used →
      prep (roundUp g (base + used)) w = some (true, w') →
      c.retyped d slot base size g (roundUp g (base + used)) kind →
      RetypeOutcome c slot kind g prep w (some (.ok c.used, d, w'))

/-- Every call of `retype` on a valid node has one of the listed outcomes. -/
theorem retype_cases (hk : k < 64) (hv : c.Valid) (slot : ℕ) (kind : ObjKind)
    (prep : ℕ → σ → Option (Bool × σ)) (w : σ) :
    RetypeOutcome c slot kind (2 ^ k) prep w (c.retype slot kind (2 ^ k) prep w) := by
  rcases hcap : c.cap slot with _ | v
  · have : c.retype slot kind (2 ^ k) prep w = some (.error .badSlot, c, w) := by
      unfold retype; rw [hcap]
    rw [this]
    exact .badSlot (cap_eq_none.mp hcap)
  · by_cases hun : ∃ base size used, v = .untyped base size used
    · obtain ⟨base, size, used, rfl⟩ := hun
      obtain ⟨hu, hs⟩ := hv _ _ _ _ hcap
      rcases Nat.lt_or_eq_of_le c.le with hroom | hfull
      · rcases retype_untyped hk hcap hu hs hroom kind prep w with
          ⟨hl, hr⟩ | ⟨hl, ⟨hp, hr⟩ | ⟨w', hp, hr⟩ | ⟨w', d, hp, hr, hd⟩⟩
        · rw [hr]; exact .exhausted _ _ _ hcap hroom hl
        · rw [hr]; exact .panicked _ _ _ hcap hroom hl hp
        · rw [hr]; exact .prepFailed _ _ _ _ hcap hroom hl hp
        · rw [hr]; exact .ok _ _ _ _ _ hcap hroom hl hp hd
      · have : c.retype slot kind (2 ^ k) prep w = some (.error .outOfSlots, c, w) := by
          have hfull' : c.used = cnodeSlots := hfull
          unfold retype
          rw [hcap]
          simp only [hfull', ↓reduceIte]
        rw [this]
        exact .outOfSlots _ _ _ hcap hfull
    · have hne : ∀ base size used, v ≠ .untyped base size used :=
        fun b s u e => hun ⟨b, s, u, e⟩
      have : c.retype slot kind (2 ^ k) prep w = some (.error .notUntyped, c, w) := by
        unfold retype
        rw [hcap]
        cases v <;> first | rfl | exact absurd rfl (hne _ _ _)
      rw [this]
      exact .notUntyped v hcap hne

end Retype

/-- Carving commutes with a change of the world that the preparation respects. -/
lemma retype_map {σ τ : Type} (f : σ → τ) (prep : ℕ → σ → Option (Bool × σ))
    (prep' : ℕ → τ → Option (Bool × τ))
    (hprep : ∀ pa w, prep' pa (f w) = (prep pa w).map fun r => (r.1, f r.2)) (c : CNode)
    (slot : ℕ) (kind : ObjKind) (g : ℕ) (w : σ) :
    c.retype slot kind g prep' (f w) =
      (c.retype slot kind g prep w).map fun r => (r.1, r.2.1, f r.2.2) := by
  unfold retype
  split
  · rfl
  · split_ifs
    · rfl
    split
    · rfl
    split
    · rfl
    dsimp only
    split
    · rfl
    split
    · rfl
    split_ifs
    · rfl
    rw [hprep]
    rcases prep _ w with _ | ⟨_ | _, w'⟩
    · rfl
    · rfl
    · dsimp only [Option.map_some]
      split <;> rfl
  · rfl

end CNode

end K0
