import K0.Mm.Pool

set_option relaxedAutoImplicit false
set_option autoImplicit false

/-!
# The pool refines maps from pages to mappings

The abstract purpose of the pool is one finite map per root, from 48-bit page numbers to the
physical page and the attributes. Every pool that is built from the zeroed one by allocating
roots and by calls of `K0.Pool.mapPage` satisfies the invariant of `K0.Mm.Pool`, and a call is an
insertion into the map of its root.

## Main definitions

* `K0.Pool.pageMap`: the map of a root.
* `K0.Pool.Rooted`: the pool is in order, and some of its tables are roots.
* `K0.PoolReach`: the pools that allocation of roots and `mapPage` can produce.

## Main results

* `K0.Pool.Rooted.mapPage`: a call of `mapPage` inserts one page into the map of its root.
* `K0.PoolReach.inv`: reachable pools satisfy the invariant, with the roots at level 0.
* `K0.pool_refines_pageMap`: the shape of a reachable pool, and what a call does to the maps.
-/

namespace K0

open Word

variable {P : Platform} {B : PoolBase P}

namespace Pool

/-- The map of a root: 48-bit page numbers to physical page and attributes. -/
def pageMap (B : PoolBase P) (p : Pool) (root key : ℕ) : Option (ℕ × ℕ) :=
  if key < 2 ^ (48 - P.pageShift) then p.translate B root (key * P.granule) else none

/-- A page number is in range. -/
lemma pageKey_lt (va : ℕ) : pageKey P va < 2 ^ (48 - P.pageShift) :=
  Nat.mod_lt _ (Nat.two_pow_pos _)

/-- The page number of the first address of a page. -/
lemma pageKey_mul_granule {key : ℕ} (h : key < 2 ^ (48 - P.pageShift)) :
    pageKey P (key * P.granule) = key := by
  unfold pageKey
  rw [Nat.mul_div_cancel _ P.granule_pos, Nat.mod_eq_of_lt h]

/-- The translation of an address is the map at its page number. -/
lemma translate_eq_pageMap (p : Pool) (root va : ℕ) :
    p.translate B root va = p.pageMap B root (pageKey P va) := by
  have hkey := pageKey_mul_granule (P := P) (pageKey_lt va)
  obtain ⟨h1, h2⟩ := (index_eq_iff P _ _).mpr hkey
  unfold pageMap translate
  rw [if_pos (pageKey_lt va), h1, h2]

/-- Allocating a root keeps the invariant, with the new table at level 0. -/
lemma Inv.alloc {p : Pool} {lvl : ℕ → ℕ} (h : p.Inv B lvl) (hroom : p.used < poolLen) :
    Inv B { p with used := p.used + 1 } (Function.update lvl p.used 0) := by
  have hlvl : ∀ t, t ≠ p.used → Function.update lvl p.used 0 t = lvl t :=
    fun t hne => Function.update_of_ne hne _ _
  -- the new table has no entries, so entries belong to old tables
  have hold : ∀ t i, t < p.used + 1 → p.tables t i ≠ 0 → t < p.used ∧ t ≠ p.used := by
    intro t i ht hne
    have : t ≠ p.used := by
      rintro rfl
      exact hne (h.free _ _ le_rfl)
    omega
  have hlink : ∀ {t i s}, t < p.used + 1 → p.child B t i = some s → t < p.used ∧ t ≠ p.used := by
    intro t i s ht hc
    refine hold t i ht fun hz => ?_
    rw [child_of_zero B hz] at hc
    simp at hc
  refine ⟨hroom, fun t i hle => h.free t i (Nat.le_of_succ_le hle), ?_, ?_, ?_, ?_, ?_⟩
  · intro t ht
    have ht' : t < p.used + 1 := ht
    by_cases e : t = p.used
    · rw [e, Function.update_self]
      omega
    · rw [hlvl t e]
      exact h.lvl_le t (by omega)
  · intro t i ht hl hne
    obtain ⟨ht', e⟩ := hold t i ht hne
    rw [hlvl t e] at hl
    obtain ⟨s, hs, he⟩ := h.desc t i ht' hl hne
    exact ⟨s, Nat.lt_succ_of_lt hs, he⟩
  · intro t i ht hl hne
    obtain ⟨ht', e⟩ := hold t i ht hne
    rw [hlvl t e] at hl
    exact h.page t i ht' hl hne
  · intro t i s ht hl hc
    obtain ⟨ht', e⟩ := hlink ht hc
    rw [hlvl t e] at hl ⊢
    obtain ⟨h1, h2⟩ := h.forest.child_lvl ht' hl hc
    rw [hlvl s (Nat.ne_of_lt h1)]
    exact ⟨Nat.lt_succ_of_lt h1, h2⟩
  · intro t t' i i' s ht ht' hl hl' hc hc'
    obtain ⟨h1, e⟩ := hlink ht hc
    obtain ⟨h1', e'⟩ := hlink ht' hc'
    rw [hlvl t e] at hl
    rw [hlvl t' e'] at hl'
    exact h.forest.inj h1 h1' hl hl' hc hc'

/-- The zeroed pool satisfies the invariant. -/
lemma Inv.zero : Pool.zero.Inv B fun _ => 0 where
  used_le := Nat.zero_le _
  free _ _ _ := rfl
  lvl_le _ _ := Nat.zero_le _
  desc _ _ ht := absurd ht (Nat.not_lt_zero _)
  page _ _ ht := absurd ht (Nat.not_lt_zero _)
  forest := ⟨fun ht => absurd ht (Nat.not_lt_zero _), fun ht => absurd ht (Nat.not_lt_zero _)⟩

/-- The pool is in order, and the given tables are allocated tables of level 0. -/
def Rooted (B : PoolBase P) (p : Pool) (roots : List ℕ) : Prop :=
  ∃ lvl, p.Inv B lvl ∧ ∀ r ∈ roots, r < p.used ∧ lvl r = 0

/-- Allocating a table gives a new root. -/
lemma Rooted.alloc {p p' : Pool} {roots : List ℕ} {root : ℕ} (h : p.Rooted B roots)
    (ha : p.alloc = (.ok root, p')) : p'.Rooted B (root :: roots) := by
  obtain ⟨lvl, hinv, hroots⟩ := h
  unfold Pool.alloc at ha
  by_cases hfull : p.used = poolLen
  · simp [hfull] at ha
  · simp only [hfull, ↓reduceIte, Prod.mk.injEq, Except.ok.injEq] at ha
    obtain ⟨rfl, rfl⟩ := ha
    refine ⟨_, hinv.alloc (lt_of_le_of_ne hinv.used_le hfull), ?_⟩
    intro r hr
    rcases List.mem_cons.mp hr with rfl | hr
    · exact ⟨Nat.lt_succ_self _, Function.update_self _ _ _⟩
    · obtain ⟨h1, h2⟩ := hroots r hr
      exact ⟨Nat.lt_succ_of_lt h1, by rw [Function.update_of_ne (Nat.ne_of_lt h1), h2]⟩

/-- What a call of `mapPage` does to the page maps of the roots: it inserts one page into the
map of its root, or fails with `overlap` or `outOfTables` and changes nothing. -/
theorem Rooted.mapPage {p : Pool} {roots : List ℕ} {root pa : ℕ} (h : p.Rooted B roots)
    (hroot : root ∈ roots) (va : ℕ) (hpa : P.granule ∣ pa) (hlt : pa < 2 ^ 48) (perm : Perm) :
    (p.pageMap B root (pageKey P va) = none ∧ p.used + p.missing B root va ≤ poolLen ∧
      ∃ q, p.mapPage B root va pa perm.attrs = (.ok (), q) ∧ q.Rooted B roots ∧
        q.enabled = p.enabled ∧ q.root1 = p.root1 ∧
        q.pageMap B root = Function.update (p.pageMap B root) (pageKey P va)
          (some (pa, perm.attrs)) ∧
        ∀ r ∈ roots, r ≠ root → q.pageMap B r = p.pageMap B r) ∨
    (p.pageMap B root (pageKey P va) ≠ none ∧
      p.mapPage B root va pa perm.attrs = (.error .overlap, p)) ∨
    (p.pageMap B root (pageKey P va) = none ∧ poolLen < p.used + p.missing B root va ∧
      p.mapPage B root va pa perm.attrs = (.error .outOfTables, p)) := by
  obtain ⟨lvl, hinv, hroots⟩ := h
  obtain ⟨h1, h0⟩ := hroots root hroot
  rw [← translate_eq_pageMap]
  rcases mapPage_spec hinv h1 h0 va hpa hlt perm with
    ⟨hm, he⟩ | ⟨hm, hover, he⟩ | ⟨hm, hfit, q, lvl', he, hq, hused, hen, hr1, hkeep, htr⟩
  · exact .inr (.inl ⟨hm, he⟩)
  · exact .inr (.inr ⟨hm, hover, he⟩)
  · refine .inl ⟨hm, hfit, q, he, ⟨lvl', hq, fun r hr => ?_⟩, hen, hr1, ?_, ?_⟩
    · obtain ⟨h1', h0'⟩ := hroots r hr
      exact ⟨by omega, by rw [hkeep r h1', h0']⟩
    · funext key
      unfold pageMap
      by_cases hk : key < 2 ^ (48 - P.pageShift)
      · rw [if_pos hk, htr root _ h1 h0, pageKey_mul_granule hk]
        by_cases e : key = pageKey P va
        · rw [if_pos ⟨rfl, e⟩, e, Function.update_self]
        · rw [if_neg fun e' => e e'.2, Function.update_of_ne e, if_pos hk]
      · have e : key ≠ pageKey P va := fun e => hk (e ▸ pageKey_lt va)
        rw [if_neg hk, Function.update_of_ne e, if_neg hk]
    · intro r hr hne
      obtain ⟨h1', h0'⟩ := hroots r hr
      have hsame : ∀ va', q.translate B r va' = p.translate B r va' := fun va' => by
        rw [htr r va' h1' h0', if_neg fun e => hne e.1]
      funext key
      unfold pageMap
      rw [hsame]

end Pool

/-- The pools that arise from the zeroed pool by allocating roots and mapping pages, with the
list of the roots. -/
inductive PoolReach (B : PoolBase P) : Pool → List ℕ → Prop
  | zero : PoolReach B Pool.zero []
  | alloc {p p' : Pool} {roots : List ℕ} {root : ℕ} : PoolReach B p roots →
      p.alloc = (.ok root, p') → PoolReach B p' (root :: roots)
  | mapPage {p : Pool} {roots : List ℕ} {root pa : ℕ} (va : ℕ) (perm : Perm) :
      PoolReach B p roots → root ∈ roots → P.granule ∣ pa → pa < 2 ^ 48 →
      PoolReach B (p.mapPage B root va pa perm.attrs).2 roots

/-- A reachable pool satisfies the invariant, and its roots are allocated tables of level 0.

**Proof sketch.** Induction on the construction; each step is `Pool.Rooted.alloc` or
`Pool.Rooted.mapPage`. -/
theorem PoolReach.inv {p : Pool} {roots : List ℕ} (h : PoolReach B p roots) :
    ∃ lvl, p.Inv B lvl ∧ ∀ r ∈ roots, r < p.used ∧ lvl r = 0 := by
  induction h with
  | zero => exact ⟨fun _ => 0, Pool.Inv.zero, by simp⟩
  | alloc _ ha ih => exact Pool.Rooted.alloc ih ha
  | mapPage va perm _ hroot hpa hlt ih =>
    rcases Pool.Rooted.mapPage ih hroot va hpa hlt perm with
      ⟨-, -, q, he, hq, -⟩ | ⟨-, he⟩ | ⟨-, -, he⟩
    · rw [he]
      exact hq
    · rw [he]
      exact ih
    · rw [he]
      exact ih

/-- **The pool refines one page map per root.** In a pool built from the zeroed one by allocating
roots and mapping pages, every nonzero entry of levels 0 to 2 is the descriptor of an allocated
table that no other such entry names, the tables that are not allocated are zero, and at most 32
are allocated. A call of `mapPage` succeeds exactly when the page is unmapped under its root and
the tables missing on its path fit in the pool; then it inserts this one page into the map of
its root and leaves the other maps alone. Otherwise it fails with `overlap` or `outOfTables` and
leaves the pool as it was.

**Proof sketch.** The shape is the invariant of reachable pools, the levels being the lengths of
the walks; the effect is `Pool.mapPage_spec`, read through the page maps. -/
theorem pool_refines_pageMap {p : Pool} {roots : List ℕ} (h : PoolReach B p roots) :
    (∀ root ∈ roots, ∀ route t i, route.length ≤ 2 →
      Radix.walk (p.child B) root route = some t → p.tables t i ≠ 0 →
      ∃ s, s < p.used ∧ p.tables t i = B.pa s ||| descTable ∧
        ∀ root' ∈ roots, ∀ route' t' i', route'.length ≤ 2 →
          Radix.walk (p.child B) root' route' = some t' →
          p.tables t' i' = B.pa s ||| descTable → t' = t ∧ i' = i) ∧
    (∀ t i, p.used ≤ t → p.tables t i = 0) ∧ p.used ≤ 32 ∧
    ∀ root ∈ roots, ∀ va pa perm, P.granule ∣ pa → pa < 2 ^ 48 →
      (p.pageMap B root (pageKey P va) = none ∧ p.used + p.missing B root va ≤ 32 ∧
        ∃ q, p.mapPage B root va pa (Perm.attrs perm) = (.ok (), q) ∧
          q.pageMap B root = Function.update (p.pageMap B root) (pageKey P va)
            (some (pa, perm.attrs)) ∧
          ∀ r ∈ roots, r ≠ root → q.pageMap B r = p.pageMap B r) ∨
      (p.pageMap B root (pageKey P va) ≠ none ∧
        p.mapPage B root va pa perm.attrs = (.error .overlap, p)) ∨
      (p.pageMap B root (pageKey P va) = none ∧ 32 < p.used + p.missing B root va ∧
        p.mapPage B root va pa perm.attrs = (.error .outOfTables, p)) := by
  obtain ⟨lvl, hinv, hroots⟩ := h.inv
  -- a walk of at most two steps from a root ends in an allocated table above the last level
  have hreach : ∀ {root route t}, root ∈ roots → route.length ≤ 2 →
      Radix.walk (p.child B) root route = some t → t < p.used ∧ lvl t < 3 := by
    intro root route t hr hlen hw
    obtain ⟨h1, h2⟩ := hroots root hr
    obtain ⟨h3, h4⟩ := hinv.forest.walk_lvl h1 (by omega) hw
    exact ⟨h3, by omega⟩
  refine ⟨?_, hinv.free, hinv.used_le, ?_⟩
  · intro root hr route t i hlen hw hne
    obtain ⟨ht, hl⟩ := hreach hr hlen hw
    obtain ⟨s, hs, he, hc⟩ := hinv.child_eq_some ht hl hne
    refine ⟨s, hs, he, ?_⟩
    intro root' hr' route' t' i' hlen' hw' he'
    obtain ⟨ht', hl'⟩ := hreach hr' hlen' hw'
    have hc' : p.child B t' i' = some s :=
      Pool.child_of_desc B (lt_of_lt_of_le hs hinv.used_le) he'
    exact hinv.forest.inj ht' ht hl' hl hc' hc
  · intro root hr va pa perm hpa hlt
    have hrooted : p.Rooted B roots := ⟨lvl, hinv, hroots⟩
    rcases hrooted.mapPage hr va hpa hlt perm with
      ⟨hm, hfit, q, he, -, -, -, hins, hother⟩ | ⟨hm, he⟩ | ⟨hm, hover, he⟩
    · exact .inl ⟨hm, hfit, q, he, hins, hother⟩
    · exact .inr (.inl ⟨hm, he⟩)
    · exact .inr (.inr ⟨hm, hover, he⟩)

/-- A pool with two roots that occupies the first 32 granules of the second gigabyte. -/
def lowPoolBase : PoolBase .virt := ⟨0x40000000, by decide, by decide⟩

/-- The pool after allocating two roots. -/
def twoRoots : Pool := { Pool.zero with used := 2 }

/-- Two allocations lead to `twoRoots`. -/
lemma poolReach_twoRoots : PoolReach lowPoolBase twoRoots [1, 0] :=
  .alloc (.alloc .zero rfl) rfl

/-- The hypotheses of `pool_refines_pageMap` hold with two roots; mapping a first page into one
of them takes three tables and leaves the other map alone. -/
theorem pool_refines_pageMap_twoRoots :
    ∃ q, twoRoots.mapPage lowPoolBase 1 0xFFFF000040000000 0x40000000 (Perm.attrs .rw) =
        (.ok (), q) ∧
      q.pageMap lowPoolBase 0 = twoRoots.pageMap lowPoolBase 0 := by
  have h := (pool_refines_pageMap poolReach_twoRoots).2.2.2 1 (by decide) 0xFFFF000040000000
    0x40000000 .rw (by decide) (by decide)
  rcases h with ⟨-, -, q, hq, -, hother⟩ | ⟨hm, -⟩ | ⟨-, hover, -⟩
  · exact ⟨q, hq, hother 0 (by decide) (by decide)⟩
  · exact absurd rfl hm
  · exact absurd hover (by decide)

end K0
