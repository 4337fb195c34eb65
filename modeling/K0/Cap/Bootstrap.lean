import K0.Lib.Gaps
import K0.Cap.Retype

set_option relaxedAutoImplicit false
set_option autoImplicit false

/-!
# The untyped capabilities of the bootstrap

`K0.populate` turns the memory map into untyped capabilities by sweeping a cursor over each
memory region. Here the sweep is described by the bytes of the region that no reserved region
holds: it appends their maximal intervals in ascending order, and the whole bootstrap appends the
fixed capabilities and then these intervals, region by region.

## Main definitions

* `K0.PhysRegion.Candidate`: a reserved region that the sweep still has to pass.
* `K0.PhysRegion.Free`: a byte of a memory region outside the reserved regions.
* `K0.GapsFrom`: an ascending list of gaps of a region that avoid the reserved regions.

## Main results

* `K0.sweep_eq`: the sweep appends the maximal intervals of the free bytes.
* `K0.populate_eq`: the bootstrap of good and disjoint regions as one list of capabilities.
* `K0.populate_bad`: a bad or overlapping region fails the bootstrap.
* `K0.populate_gaps`: the outcome of the bootstrap on an empty node.
* `K0.populate_ok`: the slots after a successful bootstrap.
-/

namespace K0

open Word

/-- A region is not empty and does not wrap around. -/
def PhysRegion.Proper (r : PhysRegion) : Prop := r.size ≠ 0 ∧ r.base + r.size < 2 ^ 64

/-- A region that is nonempty and ends below `2 ^ 64`. -/
lemma PhysRegion.bad_eq_false {r : PhysRegion} :
    r.bad = false ↔ 0 < r.size ∧ r.base + r.size < 2 ^ 64 := by
  unfold PhysRegion.bad checkedAdd
  split_ifs with h <;> simp <;> omega

/-- The check of a region looks for exactly the proper ones. -/
lemma PhysRegion.proper_iff {r : PhysRegion} : r.Proper ↔ r.bad = false := by
  rw [PhysRegion.bad_eq_false, Nat.pos_iff_ne_zero]
  rfl

/-- A reserved region that ends after `cursor` and starts before the end of `m`. -/
def PhysRegion.Candidate (m : PhysRegion) (cursor : ℕ) (r : PhysRegion) : Prop :=
  cursor < r.endAddr ∧ r.base < m.endAddr

/-- What one pass over the reserved regions returns: every region was good, and the result is a
candidate of lowest base among the list and the accumulator.

**Proof sketch.** Induction on the list; in each branch the new accumulator is the smaller of
the old one and the current candidate. -/
lemma selectNext_ok {m : PhysRegion} {cursor : ℕ} :
    ∀ {l : List PhysRegion} {acc res : Option PhysRegion},
      selectNext m cursor l acc = .ok res →
      (∀ r ∈ l, r.bad = false) ∧
      (∀ n, res = some n → acc = some n ∨ (n ∈ l ∧ m.Candidate cursor n)) ∧
      (∀ r, acc = some r ∨ (r ∈ l ∧ m.Candidate cursor r) → ∃ n, res = some n ∧ n.base ≤ r.base)
  | [], acc, res, h => by
    simp only [selectNext, Except.ok.injEq] at h
    subst h
    refine ⟨by simp, fun n hn => .inl hn, ?_⟩
    rintro r (hr | ⟨hr, -⟩)
    · exact ⟨r, hr, le_rfl⟩
    · simp at hr
  | r :: rest, acc, res, h => by
    unfold selectNext at h
    split_ifs at h with hbad hcand
    · -- the current region is a candidate
      have hgood : r.bad = false := by simpa using hbad
      have hc : m.Candidate cursor r := by
        simp only [gt_iff_lt, Bool.and_eq_true, decide_eq_true_eq] at hcand
        exact hcand
      -- the accumulator after this region is a candidate not above either input
      have key : ∀ acc', selectNext m cursor rest acc' = .ok res →
          (acc' = acc ∨ acc' = some r) → (∃ n, acc' = some n ∧ n.base ≤ r.base) →
          (∀ a, acc = some a → ∃ n, acc' = some n ∧ n.base ≤ a.base) →
          (∀ q ∈ r :: rest, q.bad = false) ∧
          (∀ n, res = some n → acc = some n ∨ (n ∈ r :: rest ∧ m.Candidate cursor n)) ∧
          (∀ q, acc = some q ∨ (q ∈ r :: rest ∧ m.Candidate cursor q) →
            ∃ n, res = some n ∧ n.base ≤ q.base) := by
        intro acc' h' hor hle hacc
        obtain ⟨h1, h2, h3⟩ := selectNext_ok h'
        have hdom : ∀ q : PhysRegion, (∃ n, acc' = some n ∧ n.base ≤ q.base) →
            ∃ n, res = some n ∧ n.base ≤ q.base := by
          rintro q ⟨n, hn, hnq⟩
          obtain ⟨n', hn', hle'⟩ := h3 n (.inl hn)
          exact ⟨n', hn', hle'.trans hnq⟩
        refine ⟨?_, ?_, ?_⟩
        · intro q hq
          rcases List.mem_cons.mp hq with rfl | hq
          · exact hgood
          · exact h1 q hq
        · intro n hn
          rcases h2 n hn with h' | ⟨h', h''⟩
          · rcases hor with e | e
            · exact .inl (e ▸ h')
            · rw [e, Option.some.injEq] at h'
              exact .inr ⟨by simp [h'], h' ▸ hc⟩
          · exact .inr ⟨List.mem_cons_of_mem _ h', h''⟩
        · rintro q (hq | ⟨hq, hqc⟩)
          · exact hdom q (hacc q hq)
          · rcases List.mem_cons.mp hq with rfl | hq
            · exact hdom _ hle
            · exact h3 q (.inr ⟨hq, hqc⟩)
      cases acc with
      | none =>
        exact key (some r) h (.inr rfl) ⟨r, rfl, le_rfl⟩ (by simp)
      | some n =>
        dsimp only at h
        split_ifs at h with hle
        · exact key (some n) h (.inl rfl) ⟨n, rfl, hle⟩ fun a ha => ⟨n, rfl, by simp_all⟩
        · refine key (some r) h (.inr rfl) ⟨r, rfl, le_rfl⟩ fun a ha => ⟨r, rfl, ?_⟩
          rw [Option.some.injEq] at ha
          subst ha
          omega
    · -- the current region is behind the cursor or beyond `m`
      have hgood : r.bad = false := by simpa using hbad
      have hc : ¬ m.Candidate cursor r := by
        simp only [gt_iff_lt, Bool.and_eq_true, decide_eq_true_eq] at hcand
        exact hcand
      obtain ⟨h1, h2, h3⟩ := selectNext_ok h
      refine ⟨?_, ?_, ?_⟩
      · intro q hq
        rcases List.mem_cons.mp hq with rfl | hq
        · exact hgood
        · exact h1 q hq
      · intro n hn
        rcases h2 n hn with h' | ⟨h', h''⟩
        · exact .inl h'
        · exact .inr ⟨List.mem_cons_of_mem _ h', h''⟩
      · rintro q (hq | ⟨hq, hqc⟩)
        · exact h3 q (.inl hq)
        · rcases List.mem_cons.mp hq with rfl | hq
          · exact absurd hqc hc
          · exact h3 q (.inr ⟨hq, hqc⟩)

/-- A pass over good regions has a result. -/
lemma selectNext_total {m : PhysRegion} {cursor : ℕ} :
    ∀ {l : List PhysRegion} {acc : Option PhysRegion}, (∀ r ∈ l, r.bad = false) →
      ∃ res, selectNext m cursor l acc = .ok res
  | [], acc, _ => ⟨acc, rfl⟩
  | r :: rest, acc, h => by
    have hr : r.bad = false := h r (by simp)
    have hrest : ∀ q ∈ rest, q.bad = false := fun q hq => h q (List.mem_cons_of_mem _ hq)
    unfold selectNext
    rw [hr, if_neg Bool.false_ne_true]
    split_ifs
    · cases acc with
      | none => exact selectNext_total hrest
      | some n =>
        dsimp only
        split_ifs
        · exact selectNext_total hrest
        · exact selectNext_total hrest
    · exact selectNext_total hrest

/-- A pass that meets a bad region fails. -/
lemma selectNext_bad {m : PhysRegion} {cursor : ℕ} :
    ∀ {l : List PhysRegion} {acc : Option PhysRegion}, (∃ r ∈ l, r.bad = true) →
      selectNext m cursor l acc = .error .badRegion
  | [], _, h => by simp at h
  | r :: rest, acc, h => by
    unfold selectNext
    split_ifs with hbad hcand
    · rfl
    all_goals
      have hrest : ∃ q ∈ rest, q.bad = true := by
        obtain ⟨q, hq, hqb⟩ := h
        rcases List.mem_cons.mp hq with rfl | hq
        · exact absurd hqb hbad
        · exact ⟨q, hq, hqb⟩
    · cases acc with
      | none => exact selectNext_bad hrest
      | some n =>
        dsimp only
        split_ifs
        · exact selectNext_bad hrest
        · exact selectNext_bad hrest
    · exact selectNext_bad hrest

/-! ### Appending capabilities -/

/-- Appending to a node with a free slot. -/
lemma pushCaps_cons {v : Cap} {l : List Cap} {c : CNode} :
    pushCaps (v :: l) c =
      match c.push v with
      | (.error e, c) => (.error e, c)
      | (.ok _, c) => pushCaps l c := rfl

/-- Two lists of capabilities are appended one after the other. -/
lemma pushCaps_append : ∀ {l l' : List Cap} {c : CNode},
    pushCaps (l ++ l') c =
      match pushCaps l c with
      | (.error e, c) => (.error e, c)
      | (.ok _, c) => pushCaps l' c
  | [], _, _ => rfl
  | v :: l, l', c => by
    rw [List.cons_append, pushCaps_cons, pushCaps_cons]
    rcases c.push v with ⟨e | _, c₁⟩
    · rfl
    · exact pushCaps_append

/-- A list that fits is appended. -/
lemma pushCaps_of_le : ∀ {l : List Cap} {c : CNode}, c.used + l.length ≤ cnodeSlots →
    ∃ d, pushCaps l c = (.ok (), d) ∧ d.slots = c.slots ++ l
  | [], c, _ => ⟨c, rfl, by simp⟩
  | v :: l, c, h => by
    rw [List.length_cons] at h
    obtain ⟨c₁, hpush, hslots⟩ := CNode.push_of_lt (c := c) (v := v) (by omega)
    have hused : c₁.used = c.used + 1 := by
      unfold CNode.used
      rw [hslots, List.length_append, List.length_singleton]
    obtain ⟨d, hd, hds⟩ := pushCaps_of_le (l := l) (c := c₁) (by omega)
    refine ⟨d, ?_, by rw [hds, hslots, List.append_assoc, List.singleton_append]⟩
    rw [pushCaps_cons, hpush]
    exact hd

/-- Whatever happens, a part of the list is appended, and a failure is a lack of slots. -/
lemma pushCaps_prefix : ∀ {l : List Cap} {c : CNode},
    ∃ k, (pushCaps l c).2.slots = c.slots ++ l.take k ∧
      ((pushCaps l c).1 = .ok () ∧ l.length ≤ k ∨ (pushCaps l c).1 = .error .outOfSlots)
  | [], c => ⟨0, by simp [pushCaps], .inl ⟨rfl, le_rfl⟩⟩
  | v :: l, c => by
    rw [pushCaps_cons]
    by_cases hf : c.used = cnodeSlots
    · rw [CNode.push_of_full hf]
      exact ⟨0, by simp, .inr rfl⟩
    · obtain ⟨c₁, hpush, hslots⟩ := CNode.push_of_lt (v := v) (lt_of_le_of_ne c.le hf)
      rw [hpush]
      obtain ⟨k, hk, hres⟩ := pushCaps_prefix (l := l) (c := c₁)
      refine ⟨k + 1, by rw [hk, hslots]; simp, ?_⟩
      rcases hres with ⟨hok, hle⟩ | herr
      · exact .inl ⟨hok, by simpa using hle⟩
      · exact .inr herr

/-- Appending a list of capabilities with success. -/
lemma pushCaps_ok {l : List Cap} {c d : CNode} (h : pushCaps l c = (.ok (), d)) :
    d.slots = c.slots ++ l := by
  obtain ⟨k, hk, ⟨-, hle⟩ | herr⟩ := pushCaps_prefix (l := l) (c := c)
  · rwa [h, List.take_of_length_le hle] at hk
  · rw [h] at herr
    simp at herr

/-- The untyped capability of a fresh gap. -/
def gapCap (g : ℕ × ℕ) : Cap := .untyped g.1 g.2 0

/-! ### The sweep of one region -/

/-- A byte of `m` from `cursor` on that no reserved region holds. -/
def PhysRegion.FreeFrom (m : PhysRegion) (reserved : List PhysRegion) (cursor x : ℕ) : Prop :=
  cursor ≤ x ∧ x < m.endAddr ∧ ∀ r ∈ reserved, ¬ (r.base ≤ x ∧ x < r.endAddr)

/-- A byte of `m` that no reserved region holds. -/
def PhysRegion.Free (m : PhysRegion) (reserved : List PhysRegion) (x : ℕ) : Prop :=
  m.FreeFrom reserved m.base x

section Sweep

variable {m : PhysRegion} {reserved : List PhysRegion} {cursor : ℕ}

/-- If no region is left to pass, the rest of the region is free. -/
lemma freeFrom_of_none (hsel : selectNext m cursor reserved none = .ok none) (x : ℕ) :
    m.FreeFrom reserved cursor x ↔ cursor ≤ x ∧ x < m.endAddr := by
  obtain ⟨-, -, hnone⟩ := selectNext_ok hsel
  refine ⟨fun h => ⟨h.1, h.2.1⟩, fun h => ⟨h.1, h.2, fun r hr hx => ?_⟩⟩
  obtain ⟨n, hn, -⟩ := hnone r (.inr ⟨hr, by unfold PhysRegion.Candidate; omega⟩)
  simp at hn

/-- The lowest region still to pass is one of the reserved regions and a candidate. -/
lemma selectNext_some {r : PhysRegion} (hsel : selectNext m cursor reserved none = .ok (some r)) :
    r ∈ reserved ∧ m.Candidate cursor r := by
  obtain ⟨-, hmem, -⟩ := selectNext_ok hsel
  rcases hmem r rfl with h | h
  · simp at h
  · exact h

/-- The free bytes from the cursor on are those before the lowest region still to pass and those
behind it. -/
lemma freeFrom_of_some {r : PhysRegion} (hsel : selectNext m cursor reserved none = .ok (some r))
    (x : ℕ) : m.FreeFrom reserved cursor x ↔
      (cursor ≤ x ∧ x < r.base) ∨ m.FreeFrom reserved (max r.endAddr cursor) x := by
  obtain ⟨-, -, hlow⟩ := selectNext_ok hsel
  obtain ⟨hr, -, hrm⟩ := selectNext_some hsel
  constructor
  · rintro ⟨h1, h2, h3⟩
    rcases lt_or_ge x r.base with hlt | hge
    · exact .inl ⟨h1, hlt⟩
    · have := h3 r hr
      exact .inr ⟨by omega, h2, h3⟩
  · rintro (⟨h1, h2⟩ | ⟨h1, h2, h3⟩)
    · refine ⟨h1, by omega, fun q hq hx => ?_⟩
      -- a region over `x` would be a candidate that starts before `r`
      obtain ⟨n, hn, hle⟩ := hlow q (.inr ⟨hq, by unfold PhysRegion.Candidate; omega⟩)
      rw [Option.some.injEq] at hn
      subst hn
      omega
    · exact ⟨by omega, h2, h3⟩

/-- The sweep appends the maximal intervals of the free bytes from the cursor on.

**Proof sketch.** Induction on the rounds, which outnumber the reserved regions ahead. When the
pass selects `r`, the bytes from the cursor to `r.base` are free and `r.base` is not, so the round
emits the first maximal interval, or nothing if it is empty; the rest of the sweep emits those of
the bytes behind `r`. -/
lemma sweep_eq (hgood : ∀ r ∈ reserved, r.bad = false) {fuel : ℕ}
    (hfuel : Gaps.ahead (reserved.map PhysRegion.endAddr) cursor < fuel) :
    ∃ gaps, Gaps.IsGaps (m.FreeFrom reserved cursor) gaps ∧
      ∀ c, sweep m reserved fuel cursor c = some (pushCaps (gaps.map gapCap) c) := by
  induction fuel generalizing cursor with
  | zero => exact absurd hfuel (Nat.not_lt_zero _)
  | succ fuel ih =>
    obtain ⟨res, hsel⟩ : ∃ res, selectNext m cursor reserved none = .ok res :=
      selectNext_total hgood
    rcases res with _ | r
    · have hfree := freeFrom_of_none hsel
      by_cases hlt : m.endAddr > cursor
      · refine ⟨[(cursor, m.endAddr - cursor)], .single (by omega) fun x => ?_, fun c => ?_⟩
        · rw [hfree, Nat.add_sub_cancel' hlt.le]
        · rw [sweep, hsel]
          dsimp only
          rw [if_pos hlt, List.map_singleton, pushCaps_cons]
          rcases hpush : c.push (.untyped cursor (m.endAddr - cursor) 0) with ⟨e | _, c₁⟩
          · simp only [gapCap, hpush]
          · simp only [gapCap, hpush, pushCaps]
      · refine ⟨[], .nil fun x hx => ?_, fun c => ?_⟩
        · have := (hfree x).mp hx
          omega
        · rw [sweep, hsel]
          dsimp only
          rw [if_neg hlt]
          rfl
    · have hfree := freeFrom_of_some hsel
      obtain ⟨hr, hahead, hrm⟩ := selectNext_some hsel
      have hpass : Gaps.ahead (reserved.map PhysRegion.endAddr) (max r.endAddr cursor) <
          Gaps.ahead (reserved.map PhysRegion.endAddr) cursor :=
        Gaps.ahead_lt (List.mem_map.mpr ⟨r, hr, rfl⟩) hahead (le_max_left _ _)
      -- the intervals behind `r`, and the sweep after this round
      obtain ⟨gaps, hgaps, hrest⟩ : ∃ gaps,
          Gaps.IsGaps (m.FreeFrom reserved (max r.endAddr cursor)) gaps ∧
          ∀ c, (if r.endAddr ≥ m.endAddr then some (.ok (), c)
            else sweep m reserved fuel (max r.endAddr cursor) c) =
              some (pushCaps (gaps.map gapCap) c) := by
        by_cases hend : r.endAddr ≥ m.endAddr
        · refine ⟨[], .nil fun x hx => ?_, fun c => by rw [if_pos hend]; rfl⟩
          have h1 := hx.1
          have h2 := hx.2.1
          omega
        · obtain ⟨gaps, hgaps, hsweep⟩ := ih (hpass.trans_le (Nat.le_of_lt_succ hfuel))
          exact ⟨gaps, hgaps, fun c => by rw [if_neg hend]; exact hsweep c⟩
      by_cases hgap : r.base > cursor
      · have hmin : min r.base m.endAddr = r.base := min_eq_left hrm.le
        have hle : r.base < r.endAddr := by
          have := (PhysRegion.bad_eq_false.mp (hgood r hr)).1
          unfold PhysRegion.endAddr
          omega
        refine ⟨(cursor, r.base - cursor) :: gaps, ?_, fun c => ?_⟩
        · refine Gaps.IsGaps.cons (by omega) hgaps (fun x hx => ?_) fun x => ?_
          · have := hx.1
            omega
          · rw [hfree, Nat.add_sub_cancel' hgap.le]
        · rw [sweep, hsel]
          dsimp only
          rw [if_pos hgap, hmin, List.map_cons, pushCaps_cons]
          rcases hpush : c.push (.untyped cursor (r.base - cursor) 0) with ⟨e | _, c₁⟩
          · simp only [gapCap, hpush]
          · simp only [gapCap, hpush]
            exact hrest c₁
      · refine ⟨gaps, hgaps.congr fun x => ?_, fun c => ?_⟩
        · rw [hfree]
          refine ⟨.inr, fun h => h.resolve_left fun h' => ?_⟩
          omega
        · rw [sweep, hsel]
          dsimp only
          rw [if_neg hgap]
          exact hrest c

/-- The untyped capabilities of one memory region are the maximal intervals of its free bytes. -/
lemma pushUntypeds_eq (m : PhysRegion) (hgood : ∀ r ∈ reserved, r.bad = false) :
    ∃ gaps, Gaps.IsGaps (m.Free reserved) gaps ∧
      ∀ c, pushUntypeds c m reserved = some (pushCaps (gaps.map gapCap) c) :=
  sweep_eq hgood (Nat.lt_succ_of_le (List.countP_le_length.trans_eq (List.length_map _)))

/-- A bad reserved region fails the sweep before anything is appended. -/
lemma pushUntypeds_bad (m : PhysRegion) (hbad : ∃ r ∈ reserved, r.bad = true) (c : CNode) :
    pushUntypeds c m reserved = some (.error .badRegion, c) := by
  unfold pushUntypeds
  rw [sweep, selectNext_bad hbad]

end Sweep

/-! ### All regions -/

/-- The pass over the memory regions appends, region by region, the maximal intervals of the free
bytes. -/
lemma pushAll_eq {reserved : List PhysRegion} (hgood : ∀ r ∈ reserved, r.bad = false) :
    ∀ memory : List PhysRegion,
      ∃ gapss, List.Forall₂ (fun m gaps => Gaps.IsGaps (m.Free reserved) gaps) memory gapss ∧
        ∀ c, pushAll reserved memory c = some (pushCaps (gapss.flatten.map gapCap) c)
  | [] => ⟨[], .nil, fun _ => rfl⟩
  | m :: rest => by
    obtain ⟨gaps, hg, hpush⟩ := pushUntypeds_eq m hgood
    obtain ⟨gapss, hf, hall⟩ := pushAll_eq hgood rest
    refine ⟨gaps :: gapss, .cons hg hf, fun c => ?_⟩
    rw [pushAll, hpush, List.flatten_cons, List.map_append, pushCaps_append]
    rcases pushCaps (gaps.map gapCap) c with ⟨e | _, c₁⟩
    · rfl
    · exact hall c₁

/-- The regions are pairwise disjoint. -/
def Apart (memory : List PhysRegion) : Prop :=
  memory.Pairwise fun m m' => Sep m.base m.size m'.base m'.size

/-- The memory check accepts exactly lists of good regions that meet neither each other nor the
regions seen before. -/
lemma checkMemory_eq_ok : ∀ {memory seen : List PhysRegion},
    checkMemory seen memory = .ok () ↔
      (∀ m ∈ memory, m.bad = false) ∧ Apart memory ∧
      ∀ o ∈ seen, ∀ m ∈ memory, Sep o.base o.size m.base m.size
  | [], _ => by simp [checkMemory, Apart]
  | m :: rest, seen => by
    have hsep : (seen.any fun o => o.base < m.endAddr && m.base < o.endAddr) = false ↔
        ∀ o ∈ seen, Sep o.base o.size m.base m.size := by
      rw [List.any_eq_false]
      refine forall₂_congr fun o _ => ?_
      unfold Word.Sep PhysRegion.endAddr
      rw [Bool.and_eq_true, decide_eq_true_eq, decide_eq_true_eq]
      omega
    unfold checkMemory Apart
    rw [List.pairwise_cons]
    split_ifs with hbad hany
    · simp [hbad]
    · refine ⟨fun h => by simp at h, fun h => ?_⟩
      rw [hsep.mpr fun o ho => h.2.2 o ho m (by simp)] at hany
      exact absurd hany Bool.false_ne_true
    · rw [checkMemory_eq_ok]
      have hseen := hsep.mp (by simpa using hany)
      simp only [List.mem_append, List.mem_cons, List.not_mem_nil, or_false, forall_eq_or_imp]
      constructor
      · rintro ⟨h1, h2, h3⟩
        exact ⟨⟨by simpa using hbad, h1⟩, ⟨h3 m (.inr rfl), h2⟩,
          fun o ho => ⟨hseen o ho, h3 o (.inl ho)⟩⟩
      · rintro ⟨⟨-, h1⟩, ⟨h2, h3⟩, h4⟩
        refine ⟨h1, h3, ?_⟩
        rintro o (ho | rfl)
        · exact (h4 o ho).2
        · exact h2

/-- The only failure of the memory check. -/
lemma checkMemory_error {memory seen : List PhysRegion} {e : CapError}
    (h : checkMemory seen memory = .error e) : e = .badRegion := by
  induction memory generalizing seen with
  | nil => simp [checkMemory] at h
  | cons m rest ih =>
    unfold checkMemory at h
    split_ifs at h
    · exact (Except.error.inj h).symm
    · exact (Except.error.inj h).symm
    · exact ih h

/-- The capabilities that the bootstrap puts before the untyped ones. -/
def fixedCaps (addrSpaceRoot : ℕ) : List Cap :=
  [.empty, .rootTcb, .addrSpace addrSpaceRoot, .console]

/-- The bootstrap of an accepted memory map. -/
lemma populate_of_checkMemory {memory reserved : List PhysRegion} {root : ℕ} {c : CNode}
    (h : checkMemory [] memory = .ok ()) :
    populate c memory reserved root =
      match pushCaps (fixedCaps root) c with
      | (.error e, c) => some (.error e, c)
      | (.ok _, c) => pushAll reserved memory c := by
  unfold populate
  rw [h]
  rfl

/-- The bootstrap of good and disjoint regions appends one list of capabilities: the fixed ones,
then for each memory region the maximal intervals of its free bytes. -/
theorem populate_eq {memory reserved : List PhysRegion} (root : ℕ)
    (hmem : ∀ m ∈ memory, m.bad = false) (hapart : Apart memory)
    (hgood : ∀ r ∈ reserved, r.bad = false) :
    ∃ gapss, List.Forall₂ (fun m gaps => Gaps.IsGaps (m.Free reserved) gaps) memory gapss ∧
      ∀ c, populate c memory reserved root =
        some (pushCaps (fixedCaps root ++ gapss.flatten.map gapCap) c) := by
  obtain ⟨gapss, hf, hall⟩ := pushAll_eq hgood memory
  refine ⟨gapss, hf, fun c => ?_⟩
  rw [populate_of_checkMemory (checkMemory_eq_ok.mpr ⟨hmem, hapart, by simp⟩), pushCaps_append]
  rcases pushCaps (fixedCaps root) c with ⟨e | _, c₁⟩
  · rfl
  · exact hall c₁

/-- A bad or overlapping memory region, or a bad reserved region if there is any memory, fails
the bootstrap of a node with room for the fixed capabilities. -/
lemma populate_bad {memory reserved : List PhysRegion} (root : ℕ) {c : CNode}
    (hc : c.used + 4 ≤ cnodeSlots)
    (hbad : (∃ m ∈ memory, m.bad = true) ∨ ¬ Apart memory ∨
      (memory ≠ [] ∧ ∃ r ∈ reserved, r.bad = true)) :
    ∃ d, populate c memory reserved root = some (.error .badRegion, d) ∧
      (d.slots = c.slots ∨ d.slots = c.slots ++ fixedCaps root) := by
  rcases hm : checkMemory [] memory with e | _
  · obtain rfl := checkMemory_error hm
    refine ⟨c, ?_, .inl rfl⟩
    unfold populate
    rw [hm]
  · obtain ⟨hgood, hapart, -⟩ := checkMemory_eq_ok.mp hm
    obtain ⟨hne, hrbad⟩ : memory ≠ [] ∧ ∃ r ∈ reserved, r.bad = true := by
      rcases hbad with ⟨m, hm, hmb⟩ | hna | h
      · rw [hgood m hm] at hmb
        exact absurd hmb Bool.false_ne_true
      · exact absurd hapart hna
      · exact h
    obtain ⟨d, hd, hds⟩ := pushCaps_of_le (l := fixedCaps root) (c := c) hc
    refine ⟨d, ?_, .inr hds⟩
    obtain ⟨m, rest, rfl⟩ := List.exists_cons_of_ne_nil hne
    rw [populate_of_checkMemory hm, hd]
    show pushAll reserved (m :: rest) d = _
    rw [pushAll, pushUntypeds_bad m hrbad]

/-- Regions with the same bytes leave the same bytes free. -/
lemma PhysRegion.Free.congr {m : PhysRegion} {reserved reserved' : List PhysRegion}
    (h : ∀ x, (∃ r ∈ reserved, r.base ≤ x ∧ x < r.endAddr) ↔
      ∃ r ∈ reserved', r.base ≤ x ∧ x < r.endAddr) (x : ℕ) :
    m.Free reserved x ↔ m.Free reserved' x := by
  have hx := not_congr (h x)
  push Not at hx
  unfold PhysRegion.Free PhysRegion.FreeFrom
  simp only [not_and, not_lt]
  rw [hx]

/-- The lists of maximal intervals are determined by the bytes of the reserved regions. -/
lemma gapss_unique {memory reserved reserved' : List PhysRegion}
    (hunion : ∀ x, (∃ r ∈ reserved, r.base ≤ x ∧ x < r.endAddr) ↔
      ∃ r ∈ reserved', r.base ≤ x ∧ x < r.endAddr) {gapss gapss' : List (List (ℕ × ℕ))}
    (h : List.Forall₂ (fun m gaps => Gaps.IsGaps (m.Free reserved) gaps) memory gapss)
    (h' : List.Forall₂ (fun m gaps => Gaps.IsGaps (m.Free reserved') gaps) memory gapss') :
    gapss = gapss' := by
  induction h generalizing gapss' with
  | nil =>
    cases h'
    rfl
  | cons hhead _ ih =>
    cases h' with
    | cons hhead' htail' =>
      rw [ih htail', (hhead.congr (PhysRegion.Free.congr hunion)).unique hhead']

/-- The bootstrap of an empty node. Proper, disjoint memory regions and proper reserved regions
give, if the slots suffice, the fixed capabilities and then, region by region, the ascending
maximal intervals of the bytes outside the reserved regions, all unused; only the union of the
reserved regions matters. Overlapping or improper regions are refused. -/
theorem populate_gaps (memory reserved : List PhysRegion) (root : ℕ) :
    ((∀ m ∈ memory, m.Proper) → Apart memory → (∀ r ∈ reserved, r.Proper) →
      (∃ gapss, List.Forall₂ (fun m gaps => Gaps.IsGaps (m.Free reserved) gaps) memory gapss ∧
        ((fixedCaps root).length + gapss.flatten.length ≤ cnodeSlots →
          ∃ d, populate CNode.init memory reserved root = some (.ok (), d) ∧
            d.slots = fixedCaps root ++ gapss.flatten.map fun g => .untyped g.1 g.2 0)) ∧
      ∀ reserved', (∀ r ∈ reserved', r.Proper) →
        (∀ x, (∃ r ∈ reserved, r.base ≤ x ∧ x < r.endAddr) ↔
          ∃ r ∈ reserved', r.base ≤ x ∧ x < r.endAddr) →
        populate CNode.init memory reserved' root = populate CNode.init memory reserved root) ∧
    ((¬ Apart memory ∨ (∃ m ∈ memory, ¬ m.Proper) ∨
        (memory ≠ [] ∧ ∃ r ∈ reserved, ¬ r.Proper)) →
      ∃ d, populate CNode.init memory reserved root = some (.error .badRegion, d)) := by
  refine ⟨fun hmem hapart hres => ⟨?_, fun reserved' hres' hunion => ?_⟩, fun hbad => ?_⟩
  · obtain ⟨gapss, hf, hall⟩ := populate_eq root (fun m hm => PhysRegion.proper_iff.mp (hmem m hm))
      hapart fun r hr => PhysRegion.proper_iff.mp (hres r hr)
    refine ⟨gapss, hf, fun hle => ?_⟩
    obtain ⟨d, hd, hds⟩ := pushCaps_of_le (l := fixedCaps root ++ gapss.flatten.map gapCap)
      (c := CNode.init) (by
        rw [List.length_append, List.length_map]
        exact (Nat.zero_add _).trans_le hle)
    exact ⟨d, by rw [hall, hd], hds⟩
  · have hgood : ∀ m ∈ memory, m.bad = false := fun m hm => PhysRegion.proper_iff.mp (hmem m hm)
    obtain ⟨gapss, hf, hall⟩ :=
      populate_eq root hgood hapart fun r hr => PhysRegion.proper_iff.mp (hres r hr)
    obtain ⟨gapss', hf', hall'⟩ :=
      populate_eq root hgood hapart fun r hr => PhysRegion.proper_iff.mp (hres' r hr)
    -- the two lists of gaps describe the same bytes
    have hsame : gapss = gapss' := gapss_unique hunion hf hf'
    rw [hall, hall', hsame]
  · have hbad' : (∃ m ∈ memory, m.bad = true) ∨ ¬ Apart memory ∨
        (memory ≠ [] ∧ ∃ r ∈ reserved, r.bad = true) := by
      simp only [PhysRegion.proper_iff, Bool.not_eq_false] at hbad
      rcases hbad with h | h | h
      · exact .inr (.inl h)
      · exact .inl h
      · exact .inr (.inr h)
    obtain ⟨d, hd, -⟩ := populate_bad (c := CNode.init) root (by decide) hbad'
    exact ⟨d, hd⟩

/-- Two regions and three overlapping reservations: the maximal intervals are found, and a
reservation of the same bytes in another order gives the same node. -/
theorem populate_gaps_twoRegions :
    populate CNode.init [⟨0, 10⟩, ⟨20, 5⟩] [⟨6, 6⟩, ⟨2, 2⟩, ⟨3, 2⟩] 0 =
      populate CNode.init [⟨0, 10⟩, ⟨20, 5⟩] [⟨2, 3⟩, ⟨6, 6⟩] 0 := by
  have h := (populate_gaps [⟨0, 10⟩, ⟨20, 5⟩] [⟨2, 3⟩, ⟨6, 6⟩] 0).1
    (by unfold PhysRegion.Proper; decide) (by unfold Apart Word.Sep; decide)
    (by unfold PhysRegion.Proper; decide)
  refine h.2 _ (by unfold PhysRegion.Proper; decide) fun x => ?_
  simp only [List.mem_cons, List.not_mem_nil, or_false, exists_eq_or_imp, exists_eq_left,
    PhysRegion.endAddr]
  omega

/-! ### The gaps of a successful bootstrap -/

/-- Gaps `(base, size)` of `m` from `cursor` on: nonempty, ascending, inside `m` and disjoint
from every reserved region. -/
def GapsFrom (m : PhysRegion) (reserved : List PhysRegion) : ℕ → List (ℕ × ℕ) → Prop
  | _, [] => True
  | cursor, (b, s) :: rest =>
    cursor ≤ b ∧ 0 < s ∧ b + s ≤ m.endAddr ∧ (∀ r ∈ reserved, Sep b s r.base r.size) ∧
      GapsFrom m reserved (b + s) rest

/-- Each gap in the list starts at or after the cursor and has the listed properties. -/
lemma GapsFrom.of_mem {m : PhysRegion} {reserved : List PhysRegion} {g : ℕ × ℕ} :
    ∀ {l : List (ℕ × ℕ)} {c : ℕ}, GapsFrom m reserved c l → g ∈ l →
      c ≤ g.1 ∧ 0 < g.2 ∧ g.1 + g.2 ≤ m.endAddr ∧ ∀ r ∈ reserved, Sep g.1 g.2 r.base r.size
  | [], _, _, hg => by simp at hg
  | (b, s) :: rest, c, h, hg => by
    obtain ⟨h1, h2, h3, h4, h5⟩ := h
    rcases List.mem_cons.mp hg with rfl | hg
    · exact ⟨h1, h2, h3, h4⟩
    · obtain ⟨h1', h'⟩ := GapsFrom.of_mem h5 hg
      exact ⟨by omega, h'⟩

/-- The gaps of one sweep are pairwise disjoint. -/
lemma GapsFrom.pairwise {m : PhysRegion} {reserved : List PhysRegion} :
    ∀ {l : List (ℕ × ℕ)} {c : ℕ}, GapsFrom m reserved c l →
      l.Pairwise fun g g' => Sep g.1 g.2 g'.1 g'.2
  | [], _, _ => List.Pairwise.nil
  | _ :: _, _, ⟨_, _, _, _, h5⟩ =>
    List.Pairwise.cons (fun _ hg => .inl (h5.of_mem hg).1) h5.pairwise

/-- A maximal interval of the free bytes lies in the region and apart from the reserved regions. -/
lemma free_gap {m : PhysRegion} {reserved : List PhysRegion} {g : ℕ × ℕ}
    (h : Gaps.Maximal (m.Free reserved) g) :
    m.base ≤ g.1 ∧ g.1 + g.2 ≤ m.endAddr ∧
      ∀ r ∈ reserved, r.bad = false → Sep g.1 g.2 r.base r.size := by
  have hpos := h.pos
  obtain ⟨hlow, -, -⟩ := h.inside g.1 le_rfl (by omega)
  obtain ⟨-, hhigh, -⟩ := h.inside (g.1 + g.2 - 1) (by omega) (by omega)
  refine ⟨hlow, by omega, fun r hr hbad => ?_⟩
  have hrpos := (PhysRegion.bad_eq_false.mp hbad).1
  by_contra hmeet
  unfold Word.Sep at hmeet
  -- the larger of the two bases would be a byte of both
  obtain ⟨-, -, hfree⟩ := h.inside (max g.1 r.base) (by omega) (by omega)
  exact hfree r hr ⟨le_max_right _ _, by unfold PhysRegion.endAddr; omega⟩

/-- The maximal intervals of the free bytes are gaps. -/
lemma GapsFrom.of_isGaps {m : PhysRegion} {reserved : List PhysRegion}
    (hgood : ∀ r ∈ reserved, r.bad = false) {l : List (ℕ × ℕ)}
    (h : Gaps.IsGaps (m.Free reserved) l) : GapsFrom m reserved m.base l := by
  have hall : ∀ g ∈ l, Gaps.Maximal (m.Free reserved) g := fun g hg => (h.mem_iff g).mp hg
  have key : ∀ (k : List (ℕ × ℕ)) (cursor : ℕ), (∀ g ∈ k, Gaps.Maximal (m.Free reserved) g) →
      (k.Pairwise fun g g' => g.1 + g.2 < g'.1) → (∀ g ∈ k, cursor ≤ g.1) →
      GapsFrom m reserved cursor k := by
    intro k
    induction k with
    | nil => exact fun _ _ _ _ => trivial
    | cons g rest ih =>
      intro cursor hmax hsep hlow
      obtain ⟨hhead, htail⟩ := List.pairwise_cons.mp hsep
      have hg := hmax g (by simp)
      obtain ⟨-, hin, hclear⟩ := free_gap hg
      exact ⟨hlow g (by simp), hg.pos, hin, fun r hr => hclear r hr (hgood r hr),
        ih _ (fun q hq => hmax q (List.mem_cons_of_mem _ hq)) htail fun q hq => (hhead q hq).le⟩
  exact key l m.base hall h.separated fun g hg => (free_gap (hall g hg)).1

/-- The slots after a successful bootstrap: the fixed capabilities, then for each memory region
its gaps; the memory regions themselves are good and pairwise disjoint. -/
theorem populate_ok {memory reserved : List PhysRegion} {root : ℕ} {c d : CNode}
    (h : populate c memory reserved root = some (.ok (), d)) :
    (∀ m ∈ memory, m.bad = false) ∧
    (memory.Pairwise fun m m' => Sep m.base m.size m'.base m'.size) ∧
    ∃ gapss, List.Forall₂ (fun m gaps => GapsFrom m reserved m.base gaps) memory gapss ∧
      d.slots = c.slots ++ fixedCaps root ++ gapss.flatten.map gapCap := by
  rcases hm : checkMemory [] memory with e | _
  · unfold populate at h
    rw [hm] at h
    simp at h
  obtain ⟨hgood, hapart, -⟩ := checkMemory_eq_ok.mp hm
  refine ⟨hgood, hapart, ?_⟩
  rcases Classical.em (∃ r ∈ reserved, r.bad = true) with hbad | hres
  · -- bad reserved regions go unnoticed if there is no memory
    rw [populate_of_checkMemory hm] at h
    rcases hp : pushCaps (fixedCaps root) c with ⟨e | _, c₁⟩
    · rw [hp] at h
      simp at h
    · rw [hp] at h
      cases memory with
      | nil =>
        obtain rfl : c₁ = d := by simpa [pushAll] using h
        exact ⟨[], .nil, by simpa using pushCaps_ok hp⟩
      | cons m rest =>
        simp [pushAll, pushUntypeds_bad m hbad] at h
  · have hres' : ∀ r ∈ reserved, r.bad = false := fun r hr =>
      Bool.eq_false_iff.mpr fun hb => hres ⟨r, hr, hb⟩
    obtain ⟨gapss, hf, hall⟩ := populate_eq root hgood hapart hres'
    rw [hall, Option.some.injEq] at h
    exact ⟨gapss, hf.imp fun _ _ hg => GapsFrom.of_isGaps hres' hg, by
      rw [pushCaps_ok h, List.append_assoc]⟩

/-- The bootstrap always returns. -/
lemma populate_ne_none (c : CNode) (memory reserved : List PhysRegion) (root : ℕ) :
    populate c memory reserved root ≠ none := by
  rcases hm : checkMemory [] memory with e | _
  · unfold populate
    rw [hm]
    simp
  obtain ⟨hgood, hapart, -⟩ := checkMemory_eq_ok.mp hm
  rcases Classical.em (∃ r ∈ reserved, r.bad = true) with hbad | hres
  · rw [populate_of_checkMemory hm]
    rcases pushCaps (fixedCaps root) c with ⟨e | _, c₁⟩
    · simp
    · cases memory with
      | nil => simp [pushAll]
      | cons m rest => simp [pushAll, pushUntypeds_bad m hbad]
  · obtain ⟨gapss, -, hall⟩ := populate_eq root hgood hapart fun r hr =>
      Bool.eq_false_iff.mpr fun hb => hres ⟨r, hr, hb⟩
    rw [hall]
    simp

end K0
