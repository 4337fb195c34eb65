import K0.Mm.PoolRefinement
import Mathlib.Data.List.Pairwise
import Mathlib.Order.CompletePartialOrder

set_option relaxedAutoImplicit false
set_option autoImplicit false

/-!
# The linear maps of the kernel

The kernel maps a physical page in at most two places: in root 0 at its own address, and in root 1
at its linear alias. Both addresses have the page number of the physical page. So what the two
roots mean is a pair of maps from page numbers to permissions, the lower and the upper one, and
the mapping functions of the kernel lay ranges of pages over these maps.

While the first tables are built both maps get every range; a range that meets another one is an
error. Later mappings go to the upper map only.

## Main definitions

* `K0.Span.pages`: the page numbers of a range.
* `K0.Pool.Linear`: the pool stands for a lower and an upper map.
* `K0.KernelLayout.regions`: the ranges that are mapped at boot, with their permissions.
* `K0.permAt`: the permission that a list of ranges gives to a page.

## Main results

* `K0.Pool.Linear.enablePaging`: the first tables stand for the map of the regions.
* `K0.Pool.Linear.mapKernelWindow`: a later mapping is laid over the upper map.
-/

namespace K0

open Word

variable {P : Platform} {B : PoolBase P}

/-! ### Page numbers -/

/-- The linear alias of an address has the same page number. -/
lemma pageKey_add_kernelVaOffset (pa : ℕ) :
    pageKey P (pa + Abi.kernelVaOffset) = pageKey P pa := by
  have hoff : Abi.kernelVaOffset = 0xFFFF * 2 ^ (48 - P.pageShift) * P.granule := by
    cases P <;> decide
  unfold pageKey
  rw [hoff, Nat.add_mul_div_right _ _ P.granule_pos, Nat.add_mul_mod_self_right]

/-- The page numbers of a range. -/
def Span.pages (P : Platform) (s : Span) : Set ℕ :=
  {key | s.start ≤ key * P.granule ∧ key * P.granule < s.stop}

instance (s : Span) (key : ℕ) : Decidable (key ∈ s.pages P) :=
  inferInstanceAs (Decidable (_ ∧ _))

/-- The page numbers of an aligned range are an interval. -/
lemma mem_pages_iff {start len key : ℕ} (hs : P.granule ∣ start) (hl : P.granule ∣ len) :
    key ∈ Span.pages P ⟨start, start + len⟩ ↔
      start / P.granule ≤ key ∧ key < start / P.granule + len / P.granule := by
  have hg := P.granule_pos
  obtain ⟨a, rfl⟩ := hs
  obtain ⟨b, rfl⟩ := hl
  show P.granule * a ≤ key * P.granule ∧ key * P.granule < P.granule * a + P.granule * b ↔ _
  rw [Nat.mul_div_cancel_left _ hg, Nat.mul_div_cancel_left _ hg, ← Nat.mul_add,
    mul_comm key, Nat.mul_le_mul_left_iff hg, Nat.mul_lt_mul_left hg]

/-- A map with the pages of a range laid over it. -/
def overlay (P : Platform) (m : ℕ → Option Perm) (s : Span) (perm : Perm) (key : ℕ) :
    Option Perm :=
  if key ∈ s.pages P then some perm else m key

/-! ### Mapping a range to itself -/

namespace Pool

/-- From `p` to `q`, under one root the `n` pages from `first` on were mapped to themselves. -/
structure Maps (B : PoolBase P) (roots : List ℕ) (root first n attrs : ℕ) (p q : Pool) :
    Prop where
  rooted : q.Rooted B roots
  enabled : q.enabled = p.enabled
  root1 : q.root1 = p.root1
  fresh : ∀ key, first ≤ key → key < first + n → p.pageMap B root key = none
  page : ∀ key, q.pageMap B root key =
    if first ≤ key ∧ key < first + n then some (key * P.granule, attrs) else p.pageMap B root key
  other : ∀ r ∈ roots, r ≠ root → q.pageMap B r = p.pageMap B r

variable {roots : List ℕ} {root first n attrs va pa off : ℕ} {p q r : Pool} {perm : Perm}

/-- No page. -/
lemma Maps.refl (h : p.Rooted B roots) : Maps B roots root first 0 attrs p p where
  rooted := h
  enabled := rfl
  root1 := rfl
  fresh key h1 h2 := absurd h2 (by omega)
  page key := (if_neg (by omega)).symm
  other _ _ _ := rfl

/-- One page and then the ones after it. -/
lemma Maps.cons (h : Maps B roots root first 1 attrs p q)
    (h' : Maps B roots root (first + 1) n attrs q r) :
    Maps B roots root first (n + 1) attrs p r where
  rooted := h'.rooted
  enabled := h'.enabled.trans h.enabled
  root1 := h'.root1.trans h.root1
  fresh key h1 h2 := by
    by_cases e : key = first
    · exact h.fresh key h1 (by omega)
    · have hq := h'.fresh key (by omega) (by omega)
      rw [h.page, if_neg (by omega)] at hq
      exact hq
  page key := by
    rw [h'.page, h.page]
    split_ifs <;> first | rfl | omega
  other r hr hne := (h'.other r hr hne).trans (h.other r hr hne)

/-- One call of `mapPage` for a page with its own number. -/
lemma Rooted.maps_mapPage (h : p.Rooted B roots) (hroot : root ∈ roots) (hpa : P.granule ∣ pa)
    (hlt : pa < 2 ^ 48) (hkey : pageKey P va = pa / P.granule)
    (hm : p.mapPage B root va pa perm.attrs = (.ok (), q)) :
    Maps B roots root (pa / P.granule) 1 perm.attrs p q := by
  have hself : pa / P.granule * P.granule = pa := Nat.div_mul_cancel hpa
  rcases h.mapPage hroot va hpa hlt perm with
    ⟨hnone, -, q', he, hq, hen, hr1, hins, hother⟩ | ⟨-, he⟩ | ⟨-, -, he⟩
  · obtain rfl : q' = q := by
      rw [hm] at he
      exact (Prod.mk.inj he).2.symm
    rw [hkey] at hnone hins
    refine ⟨hq, hen, hr1, fun key h1 h2 => ?_, fun key => ?_, hother⟩
    · rwa [show key = pa / P.granule by omega]
    · rw [hins]
      by_cases e : key = pa / P.granule
      · rw [e, Function.update_self, if_pos (by omega), hself]
      · rw [Function.update_of_ne e, if_neg (by omega)]
  · rw [hm] at he
    cases he
  · rw [hm] at he
    cases he

/-- The loop of `mapRange` over pages with their own numbers. -/
lemma Rooted.maps_mapPages (hroot : root ∈ roots) (hpa : P.granule ∣ pa) :
    ∀ {n off : ℕ} {p : Pool}, p.Rooted B roots → P.granule ∣ off →
      (∀ j < n, pageKey P (va + (off + j * P.granule)) = (pa + off) / P.granule + j) →
      pa + (off + n * P.granule) ≤ 2 ^ 48 →
      p.mapPages B root va pa perm.attrs n off = some (.ok (), q) →
      Maps B roots root ((pa + off) / P.granule) n perm.attrs p q
  | 0, _, _, h, _, _, _, hm => by
    cases hm
    exact .refl h
  | n + 1, off, p, h, hoff, hkey, hle, hm => by
    have hg := P.granule_pos
    rw [add_mul, one_mul] at hle
    unfold mapPages at hm
    split at hm
    · rename_i v a hv ha
      obtain ⟨-, rfl⟩ := checkedAdd_eq_some.mp hv
      obtain ⟨-, rfl⟩ := checkedAdd_eq_some.mp ha
      split at hm
      · cases hm
      · rename_i u p₁ hp
        have hfirst : pageKey P (va + off) = (pa + off) / P.granule := by
          simpa using hkey 0 (Nat.succ_pos n)
        have hstep := h.maps_mapPage hroot (Nat.dvd_add hpa hoff) (by omega) hfirst hp
        have hnext : (pa + (off + P.granule)) / P.granule = (pa + off) / P.granule + 1 := by
          rw [← add_assoc, Nat.add_div_right _ hg]
        refine hstep.cons ?_
        rw [← hnext]
        refine Rooted.maps_mapPages hroot hpa hstep.rooted (Nat.dvd_add hoff dvd_rfl) ?_ (by omega)
          hm
        intro j hj
        have hk := hkey (j + 1) (by omega)
        rw [add_mul, one_mul] at hk
        rw [hnext,
          show off + P.granule + j * P.granule = off + (j * P.granule + P.granule) by omega,
          hk, Nat.add_right_comm, Nat.add_assoc]
    · cases hm

/-- A loop that succeeds has computed every address without overflow. -/
lemma mapPages_lt : ∀ {n off : ℕ} {p : Pool},
    p.mapPages B root va pa attrs n off = some (.ok (), q) →
      ∀ j < n, va + (off + j * P.granule) < 2 ^ 64
  | 0, _, _, _, j, hj => absurd hj (Nat.not_lt_zero j)
  | n + 1, off, p, h, j, hj => by
    unfold mapPages at h
    split at h
    · rename_i v a hv ha
      split at h
      · cases h
      · cases j with
        | zero =>
          rw [zero_mul, add_zero]
          exact (checkedAdd_eq_some.mp hv).1
        | succ j =>
          have := mapPages_lt h j (by omega)
          rw [add_mul, one_mul]
          omega
    · cases h

/-- A loop whose addresses do not overflow returns. -/
lemma mapPages_isSome : ∀ {n off : ℕ} {p : Pool},
    va + (off + n * P.granule) ≤ 2 ^ 64 → pa + (off + n * P.granule) ≤ 2 ^ 64 →
      (p.mapPages B root va pa attrs n off).isSome = true
  | 0, _, _, _, _ => rfl
  | n + 1, off, p, hv, ha => by
    have hg := P.granule_pos
    rw [add_mul, one_mul] at hv ha
    unfold mapPages
    rw [checkedAdd_of_lt (show va + off < 2 ^ 64 by omega),
      checkedAdd_of_lt (show pa + off < 2 ^ 64 by omega)]
    dsimp only
    split
    · rfl
    · exact mapPages_isSome (by omega) (by omega)

/-- A range is mapped only if it is aligned, and then page by page. -/
lemma mapRange_eq_ok {len : ℕ} (hm : p.mapRange B root va pa len perm = some (.ok (), q)) :
    (P.granule ∣ va ∧ P.granule ∣ pa ∧ P.granule ∣ len) ∧
      p.mapPages B root va pa perm.attrs (len / P.granule) 0 = some (.ok (), q) := by
  unfold mapRange at hm
  split_ifs at hm with ha
  · cases hm
  · simp only [not_or, ne_eq, not_not] at ha
    obtain ⟨h1, h2, h3⟩ := ha
    exact ⟨⟨Nat.dvd_of_mod_eq_zero h1, Nat.dvd_of_mod_eq_zero h2, Nat.dvd_of_mod_eq_zero h3⟩, hm⟩

/-- A range whose addresses do not overflow gives a result. -/
lemma mapRange_isSome {len : ℕ} (hv : va + len ≤ 2 ^ 64) (ha : pa + len ≤ 2 ^ 64) :
    (p.mapRange B root va pa len perm).isSome = true := by
  have hle := Nat.div_mul_le_self len P.granule
  unfold mapRange
  split_ifs
  · rfl
  · exact mapPages_isSome (by omega) (by omega)

/-- A mapped range at the linear alias ends within 48 bits. -/
lemma mapRange_alias_le {len : ℕ}
    (hm : p.mapRange B root (pa + Abi.kernelVaOffset) pa len perm = some (.ok (), q))
    (hpos : 0 < len) : pa + len ≤ 2 ^ 48 := by
  obtain ⟨⟨-, ⟨a, rfl⟩, ⟨b, rfl⟩⟩, hm⟩ := mapRange_eq_ok hm
  have hg := P.granule_pos
  rw [Nat.mul_div_cancel_left _ hg] at hm
  have hb : 0 < b := Nat.pos_of_mul_pos_left hpos
  have hlt := mapPages_lt hm (b - 1) (by omega)
  have hoff : Abi.kernelVaOffset + 2 ^ 48 = 2 ^ 64 := by decide
  -- the last page starts below the end of the space, which is a multiple of the granule
  have hlast : P.granule * (a + (b - 1)) < P.granule * 2 ^ (48 - P.pageShift) := by
    rw [Nat.mul_add, mul_comm P.granule (b - 1), mul_comm P.granule (2 ^ _), ← two_pow_48_eq]
    omega
  have := (Nat.mul_lt_mul_left hg).mp hlast
  calc P.granule * a + P.granule * b = P.granule * (a + b) := (Nat.mul_add _ _ _).symm
    _ ≤ P.granule * 2 ^ (48 - P.pageShift) := Nat.mul_le_mul_left _ (by omega)
    _ = 2 ^ 48 := by rw [two_pow_48_eq P, mul_comm]

/-- An aligned range at its own address. -/
lemma Rooted.maps_self {len : ℕ} (h : p.Rooted B roots) (hroot : root ∈ roots)
    (hle : pa + len ≤ 2 ^ 48) (hm : p.mapRange B root pa pa len perm = some (.ok (), q)) :
    Maps B roots root (pa / P.granule) (len / P.granule) perm.attrs p q := by
  obtain ⟨⟨-, hpa, hlen⟩, hm⟩ := mapRange_eq_ok hm
  have hg := P.granule_pos
  have hsum := Nat.div_mul_cancel hlen
  show Maps B roots root ((pa + 0) / P.granule) (len / P.granule) perm.attrs p q
  refine h.maps_mapPages hroot hpa (dvd_zero _) (fun j hj => ?_) (by omega) hm
  have hj' : j * P.granule + P.granule ≤ len := by
    rw [← hsum, ← Nat.succ_mul]
    exact Nat.mul_le_mul_right _ hj
  rw [zero_add, add_zero, pageKey_of_lt (by omega), Nat.add_mul_div_right _ _ hg]

/-- An aligned range at its linear alias. -/
lemma Rooted.maps_alias {len : ℕ} (h : p.Rooted B roots) (hroot : root ∈ roots)
    (hle : pa + len ≤ 2 ^ 48)
    (hm : p.mapRange B root (pa + Abi.kernelVaOffset) pa len perm = some (.ok (), q)) :
    Maps B roots root (pa / P.granule) (len / P.granule) perm.attrs p q := by
  obtain ⟨⟨-, hpa, hlen⟩, hm⟩ := mapRange_eq_ok hm
  have hg := P.granule_pos
  have hsum := Nat.div_mul_cancel hlen
  show Maps B roots root ((pa + 0) / P.granule) (len / P.granule) perm.attrs p q
  refine h.maps_mapPages hroot hpa (dvd_zero _) (fun j hj => ?_) (by omega) hm
  have hj' : j * P.granule + P.granule ≤ len := by
    rw [← hsum, ← Nat.succ_mul]
    exact Nat.mul_le_mul_right _ hj
  rw [zero_add, add_zero, Nat.add_right_comm, pageKey_add_kernelVaOffset,
    pageKey_of_lt (by omega), Nat.add_mul_div_right _ _ hg]

/-! ### The two maps -/

/-- The pool stands for a lower and an upper map: each root maps pages to themselves, with the
permissions of its map. -/
structure Linear (B : PoolBase P) (root0 root1 : ℕ) (p : Pool) (lo hi : ℕ → Option Perm) :
    Prop where
  rooted : p.Rooted B [root0, root1]
  ne : root0 ≠ root1
  low : ∀ key, p.pageMap B root0 key = (lo key).map fun perm => (key * P.granule, perm.attrs)
  high : ∀ key, p.pageMap B root1 key = (hi key).map fun perm => (key * P.granule, perm.attrs)

variable {root0 root1 start len : ℕ} {lo hi : ℕ → Option Perm}

/-- A page is mapped at its own address as the lower map says. -/
lemma Linear.translate_low (h : p.Linear B root0 root1 lo hi) (hpa : P.granule ∣ pa)
    (hlt : pa < 2 ^ 48) :
    p.translate B root0 pa = (lo (pa / P.granule)).map fun perm => (pa, perm.attrs) := by
  rw [translate_eq_pageMap, pageKey_of_lt hlt, h.low, Nat.div_mul_cancel hpa]

/-- A page is mapped at its alias as the upper map says. -/
lemma Linear.translate_high (h : p.Linear B root0 root1 lo hi) (hpa : P.granule ∣ pa)
    (hlt : pa < 2 ^ 48) :
    p.translate B root1 (pa + Abi.kernelVaOffset) =
      (hi (pa / P.granule)).map fun perm => (pa, perm.attrs) := by
  rw [translate_eq_pageMap, pageKey_add_kernelVaOffset, pageKey_of_lt hlt, h.high,
    Nat.div_mul_cancel hpa]

/-- If the upper map has all that the lower map has, a physical page has the same attributes
wherever it is mapped. -/
lemma Linear.attrs_eq (h : p.Linear B root0 root1 lo hi)
    (hsub : ∀ key perm, lo key = some perm → hi key = some perm) {s t va va' pa a a' : ℕ}
    (hs : s ∈ [root0, root1]) (ht : t ∈ [root0, root1])
    (hm : p.translate B s va = some (pa, a)) (hm' : p.translate B t va' = some (pa, a')) :
    ∃ perm : Perm, a = perm.attrs ∧ a' = perm.attrs := by
  -- every mapping shows in the upper map, at the number of the physical page
  have hup : ∀ {r v pa a}, r ∈ [root0, root1] → p.translate B r v = some (pa, a) →
      ∃ key perm, hi key = some perm ∧ pa = key * P.granule ∧ a = perm.attrs := by
    intro r v pa a hr hv
    rw [translate_eq_pageMap] at hv
    have hcases : r = root0 ∨ r = root1 := by simpa using hr
    rcases hcases with rfl | rfl
    · rw [h.low] at hv
      obtain ⟨perm, hperm, he⟩ := Option.map_eq_some_iff.mp hv
      obtain ⟨rfl, rfl⟩ := Prod.mk.inj he
      exact ⟨_, perm, hsub _ _ hperm, rfl, rfl⟩
    · rw [h.high] at hv
      obtain ⟨perm, hperm, he⟩ := Option.map_eq_some_iff.mp hv
      obtain ⟨rfl, rfl⟩ := Prod.mk.inj he
      exact ⟨_, perm, hperm, rfl, rfl⟩
  obtain ⟨key, perm, hk, rfl, rfl⟩ := hup hs hm
  obtain ⟨key', perm', hk', he, rfl⟩ := hup ht hm'
  obtain rfl := Nat.eq_of_mul_eq_mul_right P.granule_pos he
  obtain rfl := Option.some.inj (hk.symm.trans hk')
  exact ⟨perm, rfl, rfl⟩

/-- Mapping an aligned range under one root lays it over the map of this root. -/
lemma Maps.overlay {m : ℕ → Option Perm} (hs : P.granule ∣ start) (hl : P.granule ∣ len)
    (h : Maps B roots root (start / P.granule) (len / P.granule) perm.attrs p q)
    (hm : ∀ key, p.pageMap B root key = (m key).map fun perm => (key * P.granule, perm.attrs)) :
    (∀ key ∈ Span.pages P ⟨start, start + len⟩, m key = none) ∧
    ∀ key, q.pageMap B root key =
      (overlay P m ⟨start, start + len⟩ perm key).map
        fun perm => (key * P.granule, perm.attrs) := by
  refine ⟨fun key hk => ?_, fun key => ?_⟩
  · obtain ⟨h1, h2⟩ := (mem_pages_iff hs hl).mp hk
    exact Option.map_eq_none_iff.mp ((hm key).symm.trans (h.fresh key h1 h2))
  · rw [h.page, K0.overlay]
    by_cases hk : key ∈ Span.pages P ⟨start, start + len⟩
    · rw [if_pos hk, if_pos ((mem_pages_iff hs hl).mp hk)]
      rfl
    · rw [if_neg hk, if_neg fun h' => hk ((mem_pages_iff hs hl).mpr h'), hm]

/-- The aligned range that a mapping function added to both maps was free in both. -/
structure Covered (P : Platform) (lo hi : ℕ → Option Perm) (start len : ℕ) : Prop where
  start_dvd : P.granule ∣ start
  len_dvd : P.granule ∣ len
  low : ∀ key ∈ Span.pages P ⟨start, start + len⟩, lo key = none
  high : ∀ key ∈ Span.pages P ⟨start, start + len⟩, hi key = none

/-- Mapping in both halves is mapping in one and then in the other. -/
lemma mapBoth_eq_ok (hm : mapBoth B root0 root1 start len perm p = some (.ok (), q)) :
    ∃ p₁, p.mapRange B root0 start start len perm = some (.ok (), p₁) ∧
      p₁.mapRange B root1 (start + Abi.kernelVaOffset) start len perm = some (.ok (), q) := by
  have hkva : ∀ kva, checkedAdd start Abi.kernelVaOffset = some kva →
      kva = start + Abi.kernelVaOffset := fun kva e => (checkedAdd_eq_some.mp e).2
  unfold mapBoth at hm
  generalize checkedAdd start Abi.kernelVaOffset = o at hm hkva
  generalize p.mapRange B root0 start start len perm = r at hm
  rcases r with _ | ⟨e | ⟨⟩, p₁⟩
  · cases hm
  · cases hm
  · cases o with
    | none => cases hm
    | some kva => exact ⟨p₁, rfl, hkva kva rfl ▸ hm⟩

/-- Mapping a range in both halves lays it over both maps. -/
lemma Linear.mapBoth (h : p.Linear B root0 root1 lo hi) (hpos : 0 < len)
    (hm : mapBoth B root0 root1 start len perm p = some (.ok (), q)) :
    q.Linear B root0 root1 (overlay P lo ⟨start, start + len⟩ perm)
        (overlay P hi ⟨start, start + len⟩ perm) ∧
      Covered P lo hi start len := by
  obtain ⟨p₁, hlow, hhigh⟩ := mapBoth_eq_ok hm
  have hle := mapRange_alias_le hhigh hpos
  obtain ⟨⟨-, hs, hl⟩, -⟩ := mapRange_eq_ok hlow
  have h0 := h.rooted.maps_self (by simp) hle hlow
  have h1 := h0.rooted.maps_alias (by simp) hle hhigh
  obtain ⟨hfree, hlo⟩ := h0.overlay hs hl h.low
  obtain ⟨hfree', hhi⟩ := h1.overlay hs hl
    fun key => by rw [h0.other root1 (by simp) h.ne.symm, h.high]
  exact ⟨⟨h1.rooted, h.ne, fun key => by rw [h1.other root0 (by simp) h.ne, hlo], hhi⟩,
    hs, hl, hfree, hfree'⟩

end Pool

/-- A range within 48 bits gives a result in both halves. -/
lemma mapBoth_isSome {root0 root1 start len : ℕ} {perm : Perm} {p : Pool}
    (hle : start + len ≤ 2 ^ 48) (hlt : start < 2 ^ 48) :
    (mapBoth B root0 root1 start len perm p).isSome = true := by
  have hoff : Abi.kernelVaOffset + 2 ^ 48 = 2 ^ 64 := by decide
  have hlow : (p.mapRange B root0 start start len perm).isSome = true :=
    Pool.mapRange_isSome (by omega) (by omega)
  have hhigh : ∀ p₁ : Pool, (p₁.mapRange B root1 (start + Abi.kernelVaOffset) start len
      perm).isSome = true := fun p₁ => Pool.mapRange_isSome (by omega) (by omega)
  have hadd := checkedAdd_of_lt (show start + Abi.kernelVaOffset < 2 ^ 64 by omega)
  unfold mapBoth
  generalize checkedAdd start Abi.kernelVaOffset = o at hadd ⊢
  generalize p.mapRange B root0 start start len perm = r at hlow ⊢
  subst hadd
  rcases r with _ | ⟨e | u, p₁⟩
  · cases hlow
  · rfl
  · exact hhigh p₁

/-! ### Laying several ranges -/

/-- The pages of a range that is mapped at boot. -/
def regionPages (P : Platform) (r : ℕ × ℕ × Perm) : Set ℕ := Span.pages P ⟨r.1, r.2.1⟩

instance (r : ℕ × ℕ × Perm) (key : ℕ) : Decidable (key ∈ regionPages P r) :=
  inferInstanceAs (Decidable (_ ∧ _))

/-- The permission that the first of the given ranges with this page gives it. -/
def permAt (P : Platform) (rs : List (ℕ × ℕ × Perm)) (key : ℕ) : Option Perm :=
  (rs.find? fun r => key ∈ regionPages P r).map fun r => r.2.2

/-- A map with several ranges laid over it. -/
def lay (P : Platform) (rs : List (ℕ × ℕ × Perm)) (m : ℕ → Option Perm) (key : ℕ) : Option Perm :=
  (permAt P rs key).or (m key)

/-- Ranges that are in order one by one, and no two of which share a page. -/
structure Apart48 (P : Platform) (rs : List (ℕ × ℕ × Perm)) : Prop where
  order : ∀ r ∈ rs, r.1 ≤ r.2.1
  aligned : ∀ r ∈ rs, r.1 < r.2.1 → P.granule ∣ r.1 ∧ P.granule ∣ r.2.1
  apart : rs.Pairwise fun r r' => Disjoint (regionPages P r) (regionPages P r')

/-- A page has a permission exactly when a range has the page. -/
lemma permAt_eq_none_iff {rs : List (ℕ × ℕ × Perm)} {key : ℕ} :
    permAt P rs key = none ↔ ∀ r ∈ rs, key ∉ regionPages P r := by
  unfold permAt
  rw [Option.map_eq_none_iff, List.find?_eq_none]
  simp only [decide_eq_true_eq]

/-- A range with the page decides. -/
lemma permAt_cons_of_mem {r : ℕ × ℕ × Perm} {rs : List (ℕ × ℕ × Perm)} {key : ℕ}
    (hk : key ∈ regionPages P r) : permAt P (r :: rs) key = some r.2.2 := by
  unfold permAt
  rw [List.find?_cons_of_pos (by simpa using hk)]
  rfl

/-- A range without the page does not matter. -/
lemma permAt_cons_of_notMem {r : ℕ × ℕ × Perm} {rs : List (ℕ × ℕ × Perm)} {key : ℕ}
    (hk : key ∉ regionPages P r) : permAt P (r :: rs) key = permAt P rs key := by
  unfold permAt
  rw [List.find?_cons_of_neg (by simpa using hk)]

/-- Where ranges share no page, the permission of a page is that of the range with the page. -/
lemma Apart48.permAt_eq_some_iff {rs : List (ℕ × ℕ × Perm)} (h : Apart48 P rs) {key : ℕ}
    {perm : Perm} :
    permAt P rs key = some perm ↔ ∃ r ∈ rs, key ∈ regionPages P r ∧ r.2.2 = perm := by
  constructor
  · intro hp
    obtain ⟨r, hr, rfl⟩ := Option.map_eq_some_iff.mp hp
    exact ⟨r, List.mem_of_find?_eq_some hr, by simpa using List.find?_some hr, rfl⟩
  · rintro ⟨r, hr, hk, rfl⟩
    cases hp : permAt P rs key with
    | none => exact absurd hk (permAt_eq_none_iff.mp hp r hr)
    | some perm =>
      obtain ⟨r', hr', rfl⟩ := Option.map_eq_some_iff.mp hp
      have hk' : key ∈ regionPages P r' := by simpa using List.find?_some hr'
      by_cases e : r = r'
      · rw [e]
      · have hsym : Std.Symm fun r r' => Disjoint (regionPages P r) (regionPages P r') :=
          ⟨fun _ _ hd => hd.symm⟩
        exact absurd hk' (Set.disjoint_left.mp
          (h.apart.forall hr (List.mem_of_find?_eq_some hr') e) hk)

variable {root0 root1 : ℕ} {lo hi : ℕ → Option Perm} {p q : Pool}

/-- The loop over the image segments lays them over both maps; each was in order and free.

**Proof sketch.** Induction on the list. A range that is not empty is laid over both maps by
`Pool.Linear.mapBoth`; the ranges after it were free in the maps that have it, so they share no
page with it. -/
theorem Pool.Linear.mapSegments : ∀ {rs : List (ℕ × ℕ × Perm)} {lo hi : ℕ → Option Perm} {p : Pool},
    p.Linear B root0 root1 lo hi → mapSegments B root0 root1 rs p = some (.ok (), q) →
      q.Linear B root0 root1 (lay P rs lo) (lay P rs hi) ∧ Apart48 P rs ∧
        ∀ key, permAt P rs key ≠ none → lo key = none ∧ hi key = none
  | [], lo, hi, p, h, hm => by
    cases hm
    exact ⟨h, ⟨nofun, nofun, .nil⟩, fun _ hne => absurd rfl hne⟩
  | (start, stop, perm) :: rest, lo, hi, p, h, hm => by
    unfold K0.mapSegments at hm
    split_ifs at hm with hinv hempty
    · cases hm
    · -- an empty range has no page
      have hnone : ∀ key, key ∉ regionPages P (start, stop, perm) := by
        intro key hk
        have h1 : start ≤ key * P.granule := hk.1
        have h2 : key * P.granule < stop := hk.2
        omega
      have hat : permAt P ((start, stop, perm) :: rest) = permAt P rest :=
        funext fun key => permAt_cons_of_notMem (hnone key)
      obtain ⟨hlin, hap, hfree⟩ := Pool.Linear.mapSegments h hm
      refine ⟨?_, ⟨?_, ?_, ?_⟩, ?_⟩
      · unfold lay at hlin ⊢
        rw [hat]
        exact hlin
      · exact List.forall_mem_cons.mpr ⟨Nat.le_of_not_lt hinv, hap.order⟩
      · refine List.forall_mem_cons.mpr ⟨fun hlt => ?_, hap.aligned⟩
        have : start < stop := hlt
        omega
      · refine List.pairwise_cons.mpr ⟨fun r _ => ?_, hap.apart⟩
        rw [Set.eq_empty_of_forall_notMem hnone]
        exact Set.empty_disjoint _
      · rw [hat]
        exact hfree
    · split at hm
      · rename_i u p₁ hboth
        cases u
        have hlen : start + (stop - start) = stop := by omega
        obtain ⟨hlin, hcov⟩ := h.mapBoth (by omega) hboth
        rw [hlen] at hlin
        obtain ⟨hlin', hap, hfree⟩ := Pool.Linear.mapSegments hlin hm
        have hmem : ∀ {key}, key ∈ regionPages P (start, stop, perm) →
            key ∈ Span.pages P ⟨start, start + (stop - start)⟩ := by
          intro key hk
          rw [hlen]
          exact hk
        -- the other ranges were laid where the first one is not
        have hsep : ∀ {key}, key ∈ regionPages P (start, stop, perm) →
            permAt P rest key = none := by
          intro key hk
          by_contra hne
          have := (hfree key hne).1
          rw [overlay, if_pos (show key ∈ Span.pages P ⟨start, stop⟩ from hk)] at this
          cases this
        have hlay : ∀ m : ℕ → Option Perm,
            lay P rest (overlay P m ⟨start, stop⟩ perm) =
              lay P ((start, stop, perm) :: rest) m := by
          intro m
          funext key
          by_cases hk : key ∈ regionPages P (start, stop, perm)
          · have hover : overlay P m ⟨start, stop⟩ perm key = some perm := if_pos hk
            rw [lay, lay, hsep hk, permAt_cons_of_mem hk, hover]
            rfl
          · have hover : overlay P m ⟨start, stop⟩ perm key = m key := if_neg hk
            rw [lay, lay, permAt_cons_of_notMem hk, hover]
        rw [hlay, hlay] at hlin'
        refine ⟨hlin', ⟨?_, ?_, ?_⟩, ?_⟩
        · exact List.forall_mem_cons.mpr ⟨Nat.le_of_not_lt hinv, hap.order⟩
        · refine List.forall_mem_cons.mpr ⟨fun _ => ⟨hcov.start_dvd, ?_⟩, hap.aligned⟩
          have := Nat.dvd_add hcov.start_dvd hcov.len_dvd
          rwa [hlen] at this
        · refine List.pairwise_cons.mpr ⟨fun r hr => Set.disjoint_left.mpr fun key hk hk' => ?_,
            hap.apart⟩
          exact permAt_eq_none_iff.mp (hsep hk) r hr hk'
        · intro key hne
          by_cases hk : key ∈ regionPages P (start, stop, perm)
          · exact ⟨hcov.low key (hmem hk), hcov.high key (hmem hk)⟩
          · rw [permAt_cons_of_notMem hk] at hne
            have := hfree key hne
            rw [overlay, overlay, if_neg (show key ∉ Span.pages P ⟨start, stop⟩ from hk),
              if_neg (show key ∉ Span.pages P ⟨start, stop⟩ from hk)] at this
            exact this
      · rename_i hne
        exact absurd hm (hne _ _)

/-- Ranges within 48 bits give a result. -/
lemma mapSegments_isSome : ∀ {rs : List (ℕ × ℕ × Perm)} {p : Pool},
    (∀ r ∈ rs, r.1 < 2 ^ 48 ∧ r.2.1 ≤ 2 ^ 48) →
      (mapSegments B root0 root1 rs p).isSome = true
  | [], _, _ => rfl
  | (start, stop, perm) :: rest, p, hrs => by
    obtain ⟨⟨hstart, hstop⟩, hrest⟩ := List.forall_mem_cons.mp hrs
    dsimp only at hstart hstop
    unfold mapSegments
    split_ifs with hinv hempty
    · rfl
    · exact mapSegments_isSome hrest
    · have hboth : (mapBoth B root0 root1 start (stop - start) perm p).isSome = true :=
        mapBoth_isSome (by omega) hstart
      split
      · exact mapSegments_isSome hrest
      · exact hboth

/-- One range and then the others. -/
lemma mapSegments_cons (start stop : ℕ) (perm : Perm) (rs : List (ℕ × ℕ × Perm)) (p : Pool) :
    mapSegments B root0 root1 ((start, stop, perm) :: rs) p =
      if stop < start then some (.error .misaligned, p)
      else if stop - start = 0 then mapSegments B root0 root1 rs p
      else
        match mapBoth B root0 root1 start (stop - start) perm p with
        | some (.ok _, p) => mapSegments B root0 root1 rs p
        | r => r := rfl

/-- Two lists of ranges, one after the other. -/
lemma mapSegments_append (rs rs' : List (ℕ × ℕ × Perm)) (p : Pool) :
    mapSegments B root0 root1 (rs ++ rs') p =
      match mapSegments B root0 root1 rs p with
      | some (.ok _, p) => mapSegments B root0 root1 rs' p
      | r => r := by
  induction rs generalizing p with
  | nil => rfl
  | cons r rest ih =>
    obtain ⟨start, stop, perm⟩ := r
    rw [List.cons_append, mapSegments_cons, mapSegments_cons]
    split_ifs with hinv hempty
    · rfl
    · exact ih p
    · generalize mapBoth B root0 root1 start (stop - start) perm p = o
      rcases o with _ | ⟨e | u, p₁⟩
      · rfl
      · rfl
      · exact ih p₁

/-- The device windows that are mapped. -/
def deviceRegions (devices : List Span) : List (ℕ × ℕ × Perm) :=
  (devices.filter fun d => d.start < d.stop).map fun d => (d.start, d.stop, .device)

/-- The loop over the device windows is the one over segments, without the empty windows. -/
lemma mapDevices_eq (devices : List Span) (p : Pool) :
    mapDevices B root0 root1 devices p = mapSegments B root0 root1 (deviceRegions devices) p := by
  induction devices generalizing p with
  | nil => rfl
  | cons d rest ih =>
    unfold mapDevices deviceRegions
    by_cases h : d.stop ≤ d.start
    · rw [if_pos h, List.filter_cons_of_neg (by simpa using h)]
      exact ih p
    · rw [if_neg h, List.filter_cons_of_pos (by simpa using h), List.map_cons]
      rw [mapSegments_cons, if_neg (by omega), if_neg (by omega)]
      generalize mapBoth B root0 root1 d.start (d.stop - d.start) .device p = o
      rcases o with _ | ⟨e | u, p₁⟩
      · rfl
      · rfl
      · exact ih p₁

/-- The ranges of the kernel image and the device tree that are mapped at boot, with their
permissions. The device tree is rounded outward to whole pages. -/
def KernelLayout.imageRegions (P : Platform) (layout : KernelLayout) : List (ℕ × ℕ × Perm) :=
  [(layout.text.start, layout.text.stop, .text), (layout.rodata.start, layout.rodata.stop, .ro),
    (layout.rw0.start, layout.rw0.stop, .rw), (layout.rw1.start, layout.rw1.stop, .rw),
    (layout.dtb.start / P.granule * P.granule, roundUp P.granule layout.dtb.stop, .ro)]

/-- All ranges that are mapped at boot. -/
def KernelLayout.regions (P : Platform) (layout : KernelLayout) : List (ℕ × ℕ × Perm) :=
  layout.imageRegions P ++ deviceRegions layout.devices

/-- The tables of a pool with two empty roots. -/
lemma Pool.Linear.zero :
    Pool.Linear B 0 1 { Pool.zero with used := 2 } (fun _ => none) fun _ => none := by
  have hmap : ∀ r key, Pool.pageMap B { Pool.zero with used := 2 } r key = none := by
    intro r key
    unfold pageMap
    split_ifs
    · have hchild : ∀ t i, child B { Pool.zero with used := 2 } t i = none :=
        fun t i => child_of_zero B rfl
      rw [translate_eq_none_iff]
      simp [Radix.lookup, path, Radix.walk, hchild]
    · rfl
  have hroot : Pool.Rooted B Pool.zero [] := ⟨_, Inv.zero, nofun⟩
  obtain ⟨lvl, hinv, hroots⟩ := (hroot.alloc rfl).alloc rfl
  refine ⟨⟨lvl, hinv, fun r hr => hroots r ?_⟩, by decide, hmap 0, hmap 1⟩
  have hcases : r = 0 ∨ r = 1 := by simpa using hr
  have hpair : r ∈ [1, 0] := by simpa using hcases.symm
  exact hpair

/-- The construction of the first tables, as one loop over the regions. -/
lemma enablePaging_eq (layout : KernelLayout) (hstart : layout.dtb.start < 2 ^ 64)
    (hstop : roundUp P.granule layout.dtb.stop < 2 ^ 64) :
    enablePaging B true layout Pool.zero =
      match mapSegments B 0 1 (layout.regions P) { Pool.zero with used := 2 } with
      | none => none
      | some (.error e, p) => some (.error e, p)
      | some (.ok _, p) => some (.ok (B.pa 0, B.pa 1), { p with enabled := true, root1 := 1 }) := by
  have hsegs : segments P layout = some (layout.imageRegions P) := by
    unfold segments KernelLayout.imageRegions
    dsimp only
    unfold roundUp at hstop
    rw [if_pos hstop, Platform.granule, maskDown_eq P.pageShift_lt.le hstart, roundUp]
  have h0 : Pool.zero.alloc = (.ok 0, { Pool.zero with used := 1 }) := rfl
  have h1 : Pool.alloc { Pool.zero with used := 1 } = (.ok 1, { Pool.zero with used := 2 }) := rfl
  rw [KernelLayout.regions, mapSegments_append]
  unfold enablePaging
  rw [if_neg (by decide), if_neg (by decide), h0]
  dsimp only
  rw [h1]
  dsimp only
  rw [hsegs]
  dsimp only
  generalize mapSegments B 0 1 (layout.imageRegions P) { Pool.zero with used := 2 } = o
  rcases o with _ | ⟨e | u, p₁⟩
  · rfl
  · rfl
  · dsimp only
    have hdev : mapDevices B 0 1 layout.devices p₁ =
        mapSegments B 0 1 (deviceRegions layout.devices) p₁ := mapDevices_eq _ _
    generalize mapDevices B 0 1 layout.devices p₁ = o at hdev ⊢
    generalize mapSegments B 0 1 (deviceRegions layout.devices) p₁ = o' at hdev ⊢
    subst hdev
    rcases o with _ | ⟨e | u, p₂⟩ <;> rfl

/-- Switching the MMU on leaves the tables as they are. -/
lemma Pool.Linear.enable (h : p.Linear B root0 root1 lo hi) (r : ℕ) :
    Pool.Linear B root0 root1 { p with enabled := true, root1 := r } lo hi := by
  obtain ⟨⟨lvl, hinv, hroots⟩, hne, hlow, hhigh⟩ := h
  exact ⟨⟨lvl, ⟨hinv.used_le, hinv.free, hinv.lvl_le, hinv.desc, hinv.page, hinv.forest⟩, hroots⟩,
    hne, hlow, hhigh⟩

/-- The first tables stand for the map of the regions, in both halves. -/
theorem Pool.Linear.enablePaging {layout : KernelLayout} {granuleOk : Bool} {roots : ℕ × ℕ}
    (hstart : layout.dtb.start < 2 ^ 64)
    (h : enablePaging B granuleOk layout Pool.zero = some (.ok roots, q)) :
    roots = (B.pa 0, B.pa 1) ∧
      q.Linear B 0 1 (permAt P (layout.regions P)) (permAt P (layout.regions P)) ∧
      Apart48 P (layout.regions P) ∧ q.enabled = true ∧ q.root1 = 1 := by
  have hok : granuleOk = true := by
    by_contra hne
    rw [Bool.not_eq_true] at hne
    unfold K0.enablePaging at h
    rw [if_pos hne] at h
    cases h
  subst hok
  have hstop : roundUp P.granule layout.dtb.stop < 2 ^ 64 := by
    by_contra hge
    have hnone : segments P layout = none := if_neg hge
    unfold K0.enablePaging at h
    rw [if_neg (by decide), if_neg (by decide)] at h
    simp only [hnone] at h
    split at h
    · cases h
    · split at h <;> cases h
  rw [enablePaging_eq layout hstart hstop] at h
  split at h
  · cases h
  · cases h
  · rename_i u p₁ hm
    cases u
    obtain ⟨hlin, hap, -⟩ := Pool.Linear.zero.mapSegments hm
    obtain ⟨hroots, hq⟩ := Prod.mk.inj (Option.some.inj h)
    subst hq
    have hlay : lay P (layout.regions P) (fun _ => none) = permAt P (layout.regions P) :=
      funext fun key => Option.or_none
    rw [hlay] at hlin
    exact ⟨(Except.ok.inj hroots).symm, hlin.enable 1, hap, rfl, rfl⟩

/-- The construction of the first tables gives a result when all ranges lie within 48 bits. -/
lemma enablePaging_isSome {layout : KernelLayout} (granuleOk : Bool)
    (hrs : ∀ r ∈ layout.regions P, r.1 < 2 ^ 48 ∧ r.2.1 ≤ 2 ^ 48)
    (hstart : layout.dtb.start < 2 ^ 64) :
    (enablePaging B granuleOk layout Pool.zero).isSome = true := by
  cases granuleOk with
  | false => rfl
  | true =>
    have hdtb : roundUp P.granule layout.dtb.stop ≤ 2 ^ 48 :=
      (hrs (layout.dtb.start / P.granule * P.granule, roundUp P.granule layout.dtb.stop, .ro)
        (by simp [KernelLayout.regions, KernelLayout.imageRegions])).2
    rw [enablePaging_eq layout hstart (by omega)]
    have hsome :
        (mapSegments B 0 1 (layout.regions P) { Pool.zero with used := 2 }).isSome = true :=
      mapSegments_isSome hrs
    generalize mapSegments B 0 1 (layout.regions P) { Pool.zero with used := 2 } = o at hsome
    rcases o with _ | ⟨e | u, p₁⟩
    · cases hsome
    · rfl
    · rfl

/-! ### Later mappings -/

/-- A later mapping succeeds only for an aligned range that ends within 48 bits. -/
lemma mapKernelWindow_bounds {window : Span} (hm : mapKernelWindow B window p = some (.ok (), q)) :
    window.start < window.stop ∧ P.granule ∣ window.start ∧ P.granule ∣ window.stop ∧
      window.stop ≤ 2 ^ 48 := by
  have hkva : ∀ kva, checkedAdd window.start Abi.kernelVaOffset = some kva →
      kva = window.start + Abi.kernelVaOffset := fun kva e => (checkedAdd_eq_some.mp e).2
  unfold mapKernelWindow at hm
  generalize checkedAdd window.start Abi.kernelVaOffset = o at hm hkva
  split_ifs at hm with hbad hen
  · cases hm
  · cases hm
  · cases o with
    | none => cases hm
    | some kva =>
      obtain rfl := hkva kva rfl
      dsimp only at hm
      have hle := Pool.mapRange_alias_le hm (by omega)
      simp only [not_or, not_le, ne_eq, not_not] at hbad
      obtain ⟨hlt, hs, ht⟩ := hbad
      exact ⟨hlt, Nat.dvd_of_mod_eq_zero hs, Nat.dvd_of_mod_eq_zero ht, by omega⟩

/-- A later mapping that succeeds is laid over the upper map, where it was free. -/
theorem Pool.Linear.mapKernelWindow {window : Span} (h : p.Linear B root0 root1 lo hi)
    (hroot : p.root1 = root1)
    (hm : mapKernelWindow B window p = some (.ok (), q)) :
    q.Linear B root0 root1 lo (overlay P hi window .rw) ∧
      (∀ key ∈ window.pages P, hi key = none) ∧ window.stop ≤ 2 ^ 48 ∧
      q.enabled = p.enabled ∧ q.root1 = p.root1 := by
  have hkva : ∀ kva, checkedAdd window.start Abi.kernelVaOffset = some kva →
      kva = window.start + Abi.kernelVaOffset := fun kva e => (checkedAdd_eq_some.mp e).2
  unfold K0.mapKernelWindow at hm
  generalize checkedAdd window.start Abi.kernelVaOffset = o at hm hkva
  split_ifs at hm with hbad hen
  · cases hm
  · cases hm
  · cases o with
    | none => cases hm
    | some kva =>
      obtain rfl := hkva kva rfl
      dsimp only at hm
      have hlen : window.start + (window.stop - window.start) = window.stop := by omega
      have hle := Pool.mapRange_alias_le hm (by omega)
      rw [hroot] at hm
      obtain ⟨⟨-, hs, hl⟩, -⟩ := Pool.mapRange_eq_ok hm
      have hmaps := h.rooted.maps_alias (by simp) hle hm
      obtain ⟨hfree, hhi⟩ := hmaps.overlay hs hl h.high
      rw [hlen] at hfree hhi hle
      exact ⟨⟨hmaps.rooted, h.ne, fun key => by rw [hmaps.other root0 (by simp) h.ne, h.low], hhi⟩,
        hfree, hle, hmaps.enabled, hmaps.root1⟩

/-- A later mapping of an aligned range maps it at its alias. -/
lemma mapKernelWindow_eq {window : Span} {kva : ℕ}
    (hkva : checkedAdd window.start Abi.kernelVaOffset = some kva) (hen : p.enabled = true)
    (hlt : window.start < window.stop) (hs : P.granule ∣ window.start)
    (ht : P.granule ∣ window.stop) :
    mapKernelWindow B window p =
      p.mapRange B p.root1 kva window.start (window.stop - window.start) .rw := by
  have hbad : ¬ (window.stop ≤ window.start ∨ window.start % P.granule ≠ 0 ∨
      window.stop % P.granule ≠ 0) := by
    rw [Nat.mod_eq_zero_of_dvd hs, Nat.mod_eq_zero_of_dvd ht]
    omega
  unfold mapKernelWindow
  rw [if_neg hbad, if_neg (by rw [hen]; decide)]
  generalize checkedAdd window.start Abi.kernelVaOffset = o at hkva ⊢
  subst hkva
  rfl

/-- A range of one page. -/
lemma Pool.mapRange_page {root va pa : ℕ} {perm : Perm} (hva : P.granule ∣ va)
    (hpa : P.granule ∣ pa) (hva' : va < 2 ^ 64) (hpa' : pa < 2 ^ 64) :
    p.mapRange B root va pa P.granule perm = some (p.mapPage B root va pa perm.attrs) := by
  have hal : ¬ (va % P.granule ≠ 0 ∨ pa % P.granule ≠ 0 ∨ P.granule % P.granule ≠ 0) := by
    rw [Nat.mod_eq_zero_of_dvd hva, Nat.mod_eq_zero_of_dvd hpa, Nat.mod_self]
    decide
  unfold mapRange
  rw [if_neg hal, Nat.div_self P.granule_pos]
  unfold mapPages
  rw [checkedAdd_of_lt (show va + 0 < 2 ^ 64 from hva'),
    checkedAdd_of_lt (show pa + 0 < 2 ^ 64 from hpa')]
  dsimp only
  rw [add_zero, add_zero]
  generalize p.mapPage B root va pa perm.attrs = o
  rcases o with ⟨e | ⟨⟩, p₁⟩ <;> rfl

/-- A later mapping of one page is one call of `mapPage`. -/
lemma mapKernelWindow_page {pa : ℕ} (hpa : P.granule ∣ pa) (hen : p.enabled = true)
    (hlt : pa + Abi.kernelVaOffset < 2 ^ 64) :
    mapKernelWindow B ⟨pa, pa + P.granule⟩ p =
      some (p.mapPage B p.root1 (pa + Abi.kernelVaOffset) pa Perm.rw.attrs) := by
  have hoff : P.granule ∣ Abi.kernelVaOffset := by
    cases P <;> decide
  have hlen : pa + P.granule - pa = P.granule := Nat.add_sub_cancel_left _ _
  rw [mapKernelWindow_eq (checkedAdd_of_lt hlt) hen (Nat.lt_add_of_pos_right P.granule_pos) hpa
    (Nat.dvd_add hpa dvd_rfl)]
  dsimp only
  rw [hlen]
  exact Pool.mapRange_page (Nat.dvd_add hpa hoff) hpa hlt (by omega)

/-- A later mapping of a page whose alias does not exist overflows. -/
lemma mapKernelWindow_page_eq_none {pa : ℕ} (hpa : P.granule ∣ pa) (hen : p.enabled = true)
    (hlt : 2 ^ 64 ≤ pa + Abi.kernelVaOffset) : mapKernelWindow B ⟨pa, pa + P.granule⟩ p = none := by
  have hbad : ¬ (pa + P.granule ≤ pa ∨ pa % P.granule ≠ 0 ∨ (pa + P.granule) % P.granule ≠ 0) := by
    have hg := P.granule_pos
    rw [Nat.add_mod_right, Nat.mod_eq_zero_of_dvd hpa]
    omega
  have hnone := checkedAdd_eq_none.mpr hlt
  unfold mapKernelWindow
  generalize checkedAdd (Span.mk pa (pa + P.granule)).start Abi.kernelVaOffset = o at hnone ⊢
  subst hnone
  rw [if_neg hbad, if_neg (by rw [hen]; decide)]

/-- A later mapping of one page fails without a trace: the page was mapped already, or the tables
that its path lacks are more than the pool has left. -/
lemma Pool.Linear.mapKernelWindow_error {pa : ℕ} {e : MmuError}
    (h : p.Linear B root0 root1 lo hi) (hroot : p.root1 = root1) (hen : p.enabled = true)
    (hpa : P.granule ∣ pa)
    (hm : K0.mapKernelWindow B ⟨pa, pa + P.granule⟩ p = some (.error e, q)) :
    q = p ∧ ((hi (pa / P.granule) ≠ none ∧ e = .overlap) ∨
      (hi (pa / P.granule) = none ∧ e = .outOfTables ∧
        poolLen < p.used + p.missing B root1 (pa + Abi.kernelVaOffset))) := by
  have hoff : Abi.kernelVaOffset + 2 ^ 48 = 2 ^ 64 := by decide
  have hlt : pa + Abi.kernelVaOffset < 2 ^ 64 := by
    by_contra hge
    rw [mapKernelWindow_page_eq_none hpa hen (Nat.le_of_not_lt hge)] at hm
    cases hm
  rw [mapKernelWindow_page hpa hen hlt, hroot] at hm
  have hkey : p.pageMap B root1 (pageKey P (pa + Abi.kernelVaOffset)) =
      (hi (pa / P.granule)).map fun perm => (pa / P.granule * P.granule, perm.attrs) := by
    rw [pageKey_add_kernelVaOffset, pageKey_of_lt (by omega), h.high]
  have hmem : root1 ∈ [root0, root1] := by simp
  rcases h.rooted.mapPage hmem (pa + Abi.kernelVaOffset) hpa (by omega) .rw with
    ⟨-, -, q', he, -⟩ | ⟨hne, he⟩ | ⟨hnone, hover, he⟩
  · rw [he] at hm
    cases hm
  · rw [he] at hm
    obtain ⟨h1, h2⟩ := Prod.mk.inj (Option.some.inj hm)
    rw [hkey, ne_eq, Option.map_eq_none_iff] at hne
    exact ⟨h2.symm, .inl ⟨hne, (Except.error.inj h1).symm⟩⟩
  · rw [he] at hm
    obtain ⟨h1, h2⟩ := Prod.mk.inj (Option.some.inj hm)
    rw [hkey, Option.map_eq_none_iff] at hnone
    exact ⟨h2.symm, .inr ⟨hnone, (Except.error.inj h1).symm, hover⟩⟩

end K0
