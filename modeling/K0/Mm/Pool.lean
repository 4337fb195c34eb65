import K0.Lib.Radix
import K0.Mm.Paging

set_option relaxedAutoImplicit false
set_option autoImplicit false

/-!
# The table pool is a forest of translation tables

The pool of `K0.Mm.Paging` as an instance of `Radix.Forest`: its allocated tables carry levels,
every nonzero entry above level 3 is the descriptor of an allocated table one level below, and
the tables that are not allocated are zero. Mapping a page is a sequence of links followed by
one leaf write, so it adds one translation and changes no other; a failed call restores the pool
word by word.

## Main definitions

* `K0.Pool.child`, `K0.Pool.leaf`: the pool as radix tables, read as the MMU reads it.
* `K0.Pool.translate`: the translation of an address under a root.
* `K0.pageKey`: the page number of an address, in 48 bits.
* `K0.Pool.Inv`: the invariant, for an assignment of levels.

## Main results

* `K0.index_eq_iff`: the four indices determine the page number, and conversely.
* `K0.Pool.descend_spec`: the descent reaches the leaf table or runs out of tables.
* `K0.Pool.mapPage_spec`: what one call of `mapPage` does to the pool and its translations.
-/

namespace K0

open Word

/-! ### Indices and page numbers -/

/-- The page number of an address within 48 bits. -/
def pageKey (P : Platform) (va : ℕ) : ℕ := va / P.granule % 2 ^ (48 - P.pageShift)

/-- The indices of an address in the tables above the last level. -/
def path (P : Platform) (va : ℕ) : List ℕ := [0, 1, 2].map (index P va)

/-- The 48-bit space in pages. -/
lemma two_pow_48_eq (P : Platform) : 2 ^ 48 = 2 ^ (48 - P.pageShift) * P.granule := by
  cases P <;> decide

/-- The page number of a physical address. -/
lemma pageKey_of_lt {P : Platform} {pa : ℕ} (h : pa < 2 ^ 48) : pageKey P pa = pa / P.granule := by
  unfold pageKey
  rw [two_pow_48_eq P, mul_comm] at h
  exact Nat.mod_eq_of_lt (Nat.div_lt_of_lt_mul h)

/-- The index of a level in terms of division. -/
lemma index_eq (P : Platform) (va level : ℕ) :
    index P va level = va / 2 ^ (P.pageShift + P.bitsPerLevel * (3 - level)) %
      2 ^ (if level = 0 then 48 - (P.pageShift + P.bitsPerLevel * (3 - level))
        else P.bitsPerLevel) := by
  unfold index
  rw [Nat.and_two_pow_sub_one_eq_mod, Nat.shiftRight_eq_div_pow]

/-- An index addresses an entry of a table. -/
lemma index_lt (P : Platform) (va level : ℕ) : index P va level < P.entries := by
  rw [index_eq]
  refine lt_of_lt_of_le (Nat.mod_lt _ (Nat.two_pow_pos _)) ?_
  by_cases h : level = 0
  · subst h
    cases P <;> decide
  · rw [if_neg h]
    cases P <;> decide

/-- Two addresses have the same four indices exactly when they lie in the same 48-bit page. -/
theorem index_eq_iff (P : Platform) (va va' : ℕ) :
    (path P va = path P va' ∧ index P va 3 = index P va' 3) ↔ pageKey P va = pageKey P va' := by
  unfold path pageKey
  simp only [List.map_cons, List.map_nil, List.cons.injEq, and_true, index_eq]
  cases P <;> simp [Platform.pageShift, Platform.bitsPerLevel, Platform.granule] <;> omega

/-! ### Descriptors -/

section Words

variable (P : Platform)

/-- The address field covers the bits from the page shift to 47. -/
lemma Platform.addrMask_eq : P.addrMask = 2 ^ 48 - 2 ^ P.pageShift := by
  cases P <;> decide

/-- The granule divides the 48-bit space. -/
lemma Platform.granule_dvd : P.granule ∣ 2 ^ 48 := by
  cases P <;> decide

variable {P}

/-- An aligned 48-bit address survives the address mask. -/
lemma and_addrMask_of_aligned {a : ℕ} (h : P.granule ∣ a) (hlt : a < 2 ^ 48) :
    a &&& P.addrMask = a := by
  rw [P.addrMask_eq]
  exact and_mask_eq_self (by cases P <;> decide) hlt h

/-- Attribute bits outside the address field do not disturb the address of a descriptor. -/
lemma desc_and_addrMask {a w : ℕ} (h : P.granule ∣ a) (hlt : a < 2 ^ 48)
    (hw : w &&& P.addrMask = 0) : (a ||| w) &&& P.addrMask = a := by
  rw [Nat.and_or_distrib_right, hw, and_addrMask_of_aligned h hlt, Nat.or_zero]

/-- The part of a descriptor outside the address field. -/
lemma desc_and_attrs {a w : ℕ} (h : P.granule ∣ a) (hlt : a < 2 ^ 48) (hw : w < 2 ^ 64)
    (hm : w &&& P.addrMask = 0) : (a ||| w) &&& (2 ^ 64 - 1 - P.addrMask) = w := by
  have hcompl : P.addrMask &&& (2 ^ 64 - 1 - P.addrMask) = 0 := by cases P <;> decide
  have hfull : P.addrMask ||| (2 ^ 64 - 1 - P.addrMask) = 2 ^ 64 - 1 := by cases P <;> decide
  have h1 : a &&& (2 ^ 64 - 1 - P.addrMask) = 0 := by
    rw [← and_addrMask_of_aligned h hlt, Nat.and_assoc, hcompl, Nat.and_zero]
  have h2 : w &&& (2 ^ 64 - 1 - P.addrMask) = w := by
    have h3 : w &&& (2 ^ 64 - 1) = w := by
      rw [Nat.and_two_pow_sub_one_eq_mod, Nat.mod_eq_of_lt hw]
    rw [← hfull, Nat.and_or_distrib_left, hm, Nat.zero_or] at h3
    exact h3
  rw [Nat.and_or_distrib_right, h1, h2, Nat.zero_or]

/-- The type bits of a word with both of them set. -/
lemma or_and_three {a w : ℕ} (hw : w &&& 0b11 = 0b11) : (a ||| w) &&& 0b11 = 0b11 := by
  rw [Nat.and_or_distrib_right, hw]
  have hlt : a &&& 0b11 < 4 := Nat.and_lt_two_pow a (by decide : 3 < 2 ^ 2)
  generalize a &&& 0b11 = b at hlt
  obtain rfl | rfl | rfl | rfl : b = 0 ∨ b = 1 ∨ b = 2 ∨ b = 3 := by omega
  all_goals rfl

/-- The attributes of a kernel mapping are a page descriptor without an address. -/
lemma Perm.attrs_spec (perm : Perm) :
    perm.attrs &&& 0b11 = descPage ∧ perm.attrs &&& P.addrMask = 0 ∧ perm.attrs < 2 ^ 64 := by
  cases perm <;> cases P <;> decide

/-- A word with type bits is not zero. -/
lemma ne_zero_of_and_three {w : ℕ} (h : w &&& 0b11 = 0b11) : w ≠ 0 := by
  rintro rfl
  simp at h

end Words

/-! ### The pool as radix tables -/

section Tables

variable {P : Platform} (B : PoolBase P)

/-- Pool tables are aligned. -/
lemma PoolBase.pa_aligned (i : ℕ) : P.granule ∣ B.pa i :=
  Nat.dvd_add B.aligned (Dvd.intro_left _ rfl)

/-- Pool tables lie in the 48-bit space. -/
lemma PoolBase.pa_lt {i : ℕ} (hi : i < poolLen) : B.pa i < 2 ^ 48 := by
  have h1 : i * P.granule + P.granule ≤ poolLen * P.granule := by
    rw [← Nat.succ_mul]
    exact Nat.mul_le_mul_right _ hi
  have := B.fits
  have := P.granule_pos
  unfold PoolBase.pa
  omega

/-- The table descriptor of a pool table. -/
def PoolBase.desc (s : ℕ) : ℕ := B.pa s ||| descTable

/-- The pool table that a descriptor names. -/
def PoolBase.tableOf (w : ℕ) : ℕ := ((w &&& P.addrMask) - B.base) / P.granule

/-- A descriptor carries the address of its table. -/
lemma PoolBase.desc_and_mask {s : ℕ} (hs : s < poolLen) : B.desc s &&& P.addrMask = B.pa s :=
  desc_and_addrMask (B.pa_aligned s) (B.pa_lt hs) (by cases P <;> decide)

/-- A descriptor has the type bits of a table. -/
lemma PoolBase.desc_and_three (s : ℕ) : B.desc s &&& 0b11 = descTable := or_and_three rfl

/-- A descriptor is not zero. -/
lemma PoolBase.desc_ne_zero (s : ℕ) : B.desc s ≠ 0 := ne_zero_of_and_three (B.desc_and_three s)

/-- A descriptor names its table. -/
lemma PoolBase.tableOf_desc {s : ℕ} (hs : s < poolLen) : B.tableOf (B.desc s) = s := by
  unfold PoolBase.tableOf
  rw [B.desc_and_mask hs, PoolBase.pa, Nat.add_sub_cancel_left,
    Nat.mul_div_cancel _ P.granule_pos]

namespace Pool

/-- The link in an entry, as the MMU reads it above level 3. -/
def child (p : Pool) (t i : ℕ) : Option ℕ :=
  if p.tables t i &&& 0b11 = descTable then some (B.tableOf (p.tables t i)) else none

/-- The page descriptor in an entry, as the MMU reads it at level 3. -/
def leaf (p : Pool) (t i : ℕ) : Option ℕ :=
  if p.tables t i &&& 0b11 = descPage then some (p.tables t i) else none

/-- The translation of an address under a root: physical page and attributes. -/
def translate (p : Pool) (root va : ℕ) : Option (ℕ × ℕ) :=
  (Radix.lookup (p.child B) p.leaf root (path P va) (index P va 3)).map fun w =>
    (w &&& P.addrMask, w &&& (2 ^ 64 - 1 - P.addrMask))

/-- The number of tables that the path of an address lacks under a root. -/
def missing (p : Pool) (root va : ℕ) : ℕ := Radix.missing (p.child B) root (path P va)

/-- A zero entry is no link. -/
lemma child_of_zero {p : Pool} {t i : ℕ} (h : p.tables t i = 0) : p.child B t i = none := by
  unfold child
  rw [h]
  rfl

/-- A zero entry maps no page. -/
lemma leaf_of_zero {p : Pool} {t i : ℕ} (h : p.tables t i = 0) : p.leaf t i = none := by
  unfold leaf
  rw [h]
  rfl

/-- The descriptor of a table is a link to it. -/
lemma child_of_desc {p : Pool} {t i s : ℕ} (hs : s < poolLen) (h : p.tables t i = B.desc s) :
    p.child B t i = some s := by
  unfold child
  rw [h, if_pos (B.desc_and_three s), B.tableOf_desc hs]

/-- Reading an overwritten entry. -/
lemma tables_write (p : Pool) (t idx w t' i : ℕ) :
    (p.write t idx w).tables t' i = if t' = t ∧ i = idx then w else p.tables t' i := rfl

/-- The invariant of the pool, for an assignment of levels to the allocated tables. -/
structure Inv (p : Pool) (lvl : ℕ → ℕ) : Prop where
  used_le : p.used ≤ poolLen
  free : ∀ t i, p.used ≤ t → p.tables t i = 0
  lvl_le : ∀ t, t < p.used → lvl t ≤ 3
  desc : ∀ t i, t < p.used → lvl t < 3 → p.tables t i ≠ 0 →
    ∃ s, s < p.used ∧ p.tables t i = B.desc s
  page : ∀ t i, t < p.used → lvl t = 3 → p.tables t i ≠ 0 →
    ∃ pa perm, P.granule ∣ pa ∧ pa < 2 ^ 48 ∧ p.tables t i = pa ||| Perm.attrs perm
  forest : Radix.Forest (p.child B) (· < p.used) lvl 3

variable {B}

/-- An entry of an allocated leaf table maps a page exactly when it is not zero. -/
lemma Inv.leaf_eq_none_iff {p : Pool} {lvl : ℕ → ℕ} (h : p.Inv B lvl) {t i : ℕ}
    (ht : t < p.used) (hl : lvl t = 3) : p.leaf t i = none ↔ p.tables t i = 0 := by
  constructor
  · intro hleaf
    by_contra hne
    obtain ⟨pa, perm, -, -, he⟩ := h.page t i ht hl hne
    have hbits : (pa ||| perm.attrs) &&& 0b11 = descPage :=
      or_and_three (perm.attrs_spec (P := P)).1
    unfold leaf at hleaf
    rw [he, if_pos hbits] at hleaf
    simp at hleaf
  · exact leaf_of_zero

/-- An allocated table above the last level has a link exactly where its entry is not zero. -/
lemma Inv.child_eq_some {p : Pool} {lvl : ℕ → ℕ} (h : p.Inv B lvl) {t i : ℕ}
    (ht : t < p.used) (hl : lvl t < 3) (hne : p.tables t i ≠ 0) :
    ∃ s, s < p.used ∧ p.tables t i = B.desc s ∧ p.child B t i = some s := by
  obtain ⟨s, hs, he⟩ := h.desc t i ht hl hne
  exact ⟨s, hs, he, child_of_desc B (lt_of_lt_of_le hs h.used_le) he⟩

/-- A descriptor of an allocated table decodes to its index. -/
lemma indexOf_desc {p : Pool} {s : ℕ} (hs : s < p.used) (hu : p.used ≤ poolLen) :
    p.indexOf B (B.desc s &&& P.addrMask) = .ok s := by
  rw [B.desc_and_mask (lt_of_lt_of_le hs hu)]
  have hle : ¬ B.pa s < B.pa 0 := by
    unfold PoolBase.pa
    omega
  have hoff : B.pa s - B.pa 0 = s * P.granule := by
    unfold PoolBase.pa
    omega
  unfold indexOf
  simp only [if_neg hle, hoff, Nat.mul_mod_left, Nat.mul_div_cancel _ P.granule_pos]
  simp [hs]

/-! ### Undoing links -/

/-- `q` differs from `p` at the given entries only, all of them zero in `p`, and perhaps in the
allocation counter. -/
structure Undoable (p q : Pool) (links : List (ℕ × ℕ)) : Prop where
  zero : ∀ l ∈ links, p.tables l.1 l.2 = 0
  frame : ∀ t i, (t, i) ∉ links → q.tables t i = p.tables t i
  enabled : q.enabled = p.enabled
  root1 : q.root1 = p.root1

/-- Clearing a list of entries. -/
lemma tables_foldl_write (links : List (ℕ × ℕ)) (q : Pool) (t i : ℕ) :
    (links.foldl (fun p l => p.write l.1 l.2 0) q).tables t i =
      if (t, i) ∈ links then 0 else q.tables t i := by
  induction links generalizing q with
  | nil => simp
  | cons l links ih =>
    rw [List.foldl_cons, ih, tables_write]
    by_cases h : (t, i) ∈ links
    · simp [h]
    · by_cases h' : t = l.1 ∧ i = l.2
      · obtain ⟨rfl, rfl⟩ := h'
        simp
      · have hne : (t, i) ≠ l := fun e => h' ⟨congrArg Prod.fst e, congrArg Prod.snd e⟩
        simp [h, h', hne]

/-- Clearing entries touches nothing but the tables. -/
lemma foldl_write_frame (links : List (ℕ × ℕ)) (q : Pool) :
    (links.foldl (fun p l => p.write l.1 l.2 0) q).enabled = q.enabled ∧
    (links.foldl (fun p l => p.write l.1 l.2 0) q).root1 = q.root1 := by
  induction links generalizing q with
  | nil => exact ⟨rfl, rfl⟩
  | cons l links ih => exact ih (q.write l.1 l.2 0)

/-- The rollback restores the pool exactly. -/
lemma Undoable.rollback_eq {p q : Pool} {links : List (ℕ × ℕ)} (h : Undoable p q links) :
    q.rollback p.used links = p := by
  have htab : (links.foldl (fun p l => p.write l.1 l.2 0) q).tables = p.tables := by
    funext t i
    rw [tables_foldl_write]
    by_cases hm : (t, i) ∈ links
    · rw [if_pos hm]
      exact (h.zero _ hm).symm
    · rw [if_neg hm]
      exact h.frame t i hm
  obtain ⟨he, hr⟩ := foldl_write_frame links q
  unfold rollback
  simp only [htab, he, hr, h.enabled, h.root1]

/-- Nothing to undo. -/
lemma Undoable.refl (p : Pool) : Undoable p p [] :=
  ⟨by simp, fun _ _ _ => rfl, rfl, rfl⟩

/-- Undoing in stages. -/
lemma Undoable.trans {p q r : Pool} {l m : List (ℕ × ℕ)} (h : Undoable p q l)
    (h' : Undoable q r m) (hm : ∀ x ∈ m, p.tables x.1 x.2 = 0) : Undoable p r (l ++ m) := by
  refine ⟨?_, ?_, h'.enabled.trans h.enabled, h'.root1.trans h.root1⟩
  · intro x hx
    rcases List.mem_append.mp hx with hx | hx
    · exact h.zero x hx
    · exact hm x hx
  · intro t i hni
    rw [List.mem_append, not_or] at hni
    rw [h'.frame t i hni.2, h.frame t i hni.1]

/-! ### One new link -/

/-- The pool after linking the next free table into entry `idx` of `t`. -/
def linkNext (B : PoolBase P) (p : Pool) (t idx : ℕ) : Pool :=
  Pool.write { p with used := p.used + 1 } t idx (B.desc p.used)

section LinkNext

variable {p : Pool} {lvl : ℕ → ℕ} {t idx : ℕ}

/-- Linking writes one entry. -/
lemma tables_linkNext_of_ne {t' i : ℕ} (h : ¬ (t' = t ∧ i = idx)) :
    (p.linkNext B t idx).tables t' i = p.tables t' i :=
  if_neg h

/-- The entry that linking writes. -/
lemma tables_linkNext_self : (p.linkNext B t idx).tables t idx = B.desc p.used :=
  if_pos ⟨rfl, rfl⟩

/-- The link that `linkNext` adds, to a table that is still empty. -/
lemma Inv.linked (h : p.Inv B lvl) (ht : t < p.used) (hz : p.tables t idx = 0)
    (hroom : p.used < poolLen) :
    Radix.Linked (p.child B) ((p.linkNext B t idx).child B) t idx p.used where
  ne := Nat.ne_of_gt ht
  empty i := child_of_zero B (h.free _ i le_rfl)
  before := child_of_zero B hz
  link := child_of_desc B hroom tables_linkNext_self
  frame t' i hne := by
    unfold child
    rw [tables_linkNext_of_ne hne]

/-- Linking keeps the invariant, with the new table one level below `t`.

**Proof sketch.** The new table was not allocated, so all its entries are zero and the clauses
on entries hold for it vacuously; the only entry that changed is the new descriptor. The forest
is kept by `Radix.Forest.link`. -/
lemma Inv.linkNext (h : p.Inv B lvl) (ht : t < p.used) (hl : lvl t < 3)
    (hz : p.tables t idx = 0) (hroom : p.used < poolLen) :
    (p.linkNext B t idx).Inv B (Function.update lvl p.used (lvl t + 1)) := by
  have hused : (p.linkNext B t idx).used = p.used + 1 := rfl
  have hlvl : ∀ t', t' ≠ p.used → Function.update lvl p.used (lvl t + 1) t' = lvl t' :=
    fun t' hne => Function.update_of_ne hne _ _
  refine ⟨hroom, ?_, ?_, ?_, ?_, ?_⟩
  · intro t' i hle
    rw [hused] at hle
    rw [tables_linkNext_of_ne (by omega)]
    exact h.free t' i (by omega)
  · intro t' hlt
    rw [hused] at hlt
    by_cases e : t' = p.used
    · rw [e, Function.update_self]
      omega
    · rw [hlvl t' e]
      exact h.lvl_le t' (by omega)
  · intro t' i hlt hl' hne
    rw [hused] at hlt ⊢
    by_cases e : t' = t ∧ i = idx
    · obtain ⟨rfl, rfl⟩ := e
      exact ⟨p.used, Nat.lt_succ_self _, tables_linkNext_self⟩
    · rw [tables_linkNext_of_ne e] at hne ⊢
      have e' : t' ≠ p.used := by
        rintro rfl
        exact hne (h.free _ _ le_rfl)
      rw [hlvl t' e'] at hl'
      obtain ⟨s, hs, he⟩ := h.desc t' i (by omega) hl' hne
      exact ⟨s, by omega, he⟩
  · intro t' i hlt hl' hne
    rw [hused] at hlt
    by_cases e : t' = t
    · rw [e, hlvl t (Nat.ne_of_lt ht)] at hl'
      omega
    · rw [tables_linkNext_of_ne fun e' => e e'.1] at hne ⊢
      have e' : t' ≠ p.used := by
        rintro rfl
        exact hne (h.free _ _ le_rfl)
      rw [hlvl t' e'] at hl'
      exact h.page t' i (by omega) hl' hne
  · have hF := h.forest.link (h.linked ht hz hroom) ht hl (lt_irrefl _)
    have hlive : (fun t' => t' < p.used ∨ t' = p.used) = (· < (p.linkNext B t idx).used) := by
      funext t'
      rw [hused]
      exact propext (by omega)
    rw [hlive] at hF
    exact hF

/-- Linking an empty table keeps every lookup along a path of full length. -/
lemma Inv.lookup_linkNext (h : p.Inv B lvl) (ht : t < p.used) (hl : lvl t < 3)
    (hz : p.tables t idx = 0) (hroom : p.used < poolLen) {r : ℕ} {q : List ℕ} (i : ℕ)
    (hr : r < p.used) (hlen : lvl r + q.length = 3) :
    Radix.lookup ((p.linkNext B t idx).child B) (p.linkNext B t idx).leaf r q i =
      Radix.lookup (p.child B) p.leaf r q i := by
  refine h.forest.lookup_linked (h.linked ht hz hroom) ?_ ?_ i hr hlen
  · intro j
    refine leaf_of_zero ?_
    rw [tables_linkNext_of_ne fun e => Nat.ne_of_gt ht e.1]
    exact h.free _ _ le_rfl
  · intro t' j _ hl'
    have hne : t' ≠ t := by
      rintro rfl
      omega
    unfold leaf
    rw [tables_linkNext_of_ne fun e => hne e.1]

end LinkNext

/-! ### The descent -/

/-- What a descent from `t` in pool `p` that ends in `s` with pool `q` has achieved. -/
structure Descended (B : PoolBase P) (p q : Pool) (lvl lvl' : ℕ → ℕ) (t s : ℕ) (route : List ℕ)
    (links : List (ℕ × ℕ)) : Prop where
  inv : q.Inv B lvl'
  live : s < q.used
  lvl_eq : lvl' s = 3
  walk : Radix.walk (q.child B) t route = some s
  keep : ∀ u, u < p.used → lvl' u = lvl u
  used : q.used = p.used + Radix.missing (p.child B) t route
  lookup : ∀ r q' i, r < p.used → lvl r + q'.length = 3 →
    Radix.lookup (q.child B) q.leaf r q' i = Radix.lookup (p.child B) p.leaf r q' i
  undo : Undoable p q links

/-- The descent reaches a leaf table if the pool can supply the missing tables, and otherwise
fails with `outOfTables`; in both cases its links can be undone.

**Proof sketch.** Induction on the levels. At a nonzero entry the invariant names an allocated
table one level below, and the descent continues there. At a zero entry the next table is
linked, which keeps the invariant and all lookups; from that empty table the rest of the path is
missing, so the count of missing tables goes down by one as the counter goes up by one. -/
theorem descend_spec (va : ℕ) :
    ∀ {levels : List ℕ} {p : Pool} {lvl : ℕ → ℕ} {t : ℕ} (links : List (ℕ × ℕ)), p.Inv B lvl →
      t < p.used → lvl t + levels.length = 3 →
      (p.used + Radix.missing (p.child B) t (levels.map (index P va)) ≤ poolLen ∧
        ∃ s q lvl' new, p.descend B va levels t links = (.ok s, links ++ new, q) ∧
          Descended B p q lvl lvl' t s (levels.map (index P va)) new) ∨
      (poolLen < p.used + Radix.missing (p.child B) t (levels.map (index P va)) ∧
        ∃ q new, p.descend B va levels t links = (.error .outOfTables, links ++ new, q) ∧
          Undoable p q new)
  | [], p, lvl, t, links, h, ht, hl => by
    left
    refine ⟨h.used_le, t, p, lvl, [], by simp [descend], h, ht, hl, rfl, fun _ _ => rfl, rfl,
      fun _ _ _ _ _ => rfl, Undoable.refl p⟩
  | level :: rest, p, lvl, t, links, h, ht, hl => by
    rw [List.length_cons] at hl
    rw [List.map_cons]
    by_cases hz : p.tables t (index P va level) = 0
    · -- the entry is empty: every table from here on is missing
      have hmiss : Radix.missing (p.child B) t (index P va level :: rest.map (index P va)) =
          rest.length + 1 := by
        rw [Radix.missing, child_of_zero B hz, List.length_map]
      rw [hmiss]
      by_cases hroom : p.used = poolLen
      · right
        refine ⟨by omega, p, [], ?_, Undoable.refl p⟩
        simp [descend, hz, alloc, hroom]
      · have hroom' : p.used < poolLen := lt_of_le_of_ne h.used_le hroom
        have hstep : p.descend B va (level :: rest) t links =
            (p.linkNext B t (index P va level)).descend B va rest p.used
              (links ++ [(t, index P va level)]) := by
          simp only [descend, hz, alloc, hroom, ↓reduceIte]
          rfl
        set p₁ := p.linkNext B t (index P va level) with hp₁
        have hinv₁ : p₁.Inv B (Function.update lvl p.used (lvl t + 1)) :=
          h.linkNext ht (by omega) hz hroom'
        have hused₁ : p₁.used = p.used + 1 := rfl
        have hkeep₁ : ∀ u, u < p.used → Function.update lvl p.used (lvl t + 1) u = lvl u :=
          fun u hu => Function.update_of_ne (Nat.ne_of_lt hu) _ _
        have hempty : ∀ i, p₁.child B p.used i = none := fun i => by
          refine child_of_zero B ?_
          rw [hp₁, tables_linkNext_of_ne fun e => Nat.ne_of_gt ht e.1]
          exact h.free _ _ le_rfl
        have hmiss₁ : Radix.missing (p₁.child B) p.used (rest.map (index P va)) = rest.length := by
          rw [Radix.missing_of_empty hempty, List.length_map]
        have hundo₁ : Undoable p p₁ [(t, index P va level)] := by
          refine ⟨by simpa using hz, ?_, rfl, rfl⟩
          intro t' i hni
          rw [List.mem_singleton, Prod.mk.injEq] at hni
          exact tables_linkNext_of_ne hni
        -- entries that are zero after the link were zero before, or belong to the link
        have hzero₁ : ∀ {q new}, Undoable p₁ q new → ∀ x ∈ new, p.tables x.1 x.2 = 0 := by
          intro q new hu x hx
          by_cases e : x.1 = t ∧ x.2 = index P va level
          · rw [e.1, e.2]
            exact hz
          · rw [← tables_linkNext_of_ne (B := B) e]
            exact hu.zero x hx
        have hlvl₁ : Function.update lvl p.used (lvl t + 1) p.used + rest.length = 3 := by
          rw [Function.update_self]
          omega
        have ih := descend_spec va (links ++ [(t, index P va level)]) hinv₁
          (show p.used < p₁.used by omega) hlvl₁
        rw [hmiss₁, hused₁] at ih
        rw [hstep]
        rcases ih with ⟨hle, s, q, lvl', new, hd, D⟩ | ⟨hlt, q, new, hd, hu⟩
        · left
          refine ⟨by omega, s, q, lvl', (t, index P va level) :: new, by rw [hd]; simp, ?_⟩
          refine ⟨D.inv, D.live, D.lvl_eq, ?_, ?_, ?_, ?_, ?_⟩
          · -- the first link is the new one, and later links do not touch it
            have hlink : q.child B t (index P va level) = some p.used := by
              have hne : (t, index P va level) ∉ new := by
                intro hmem
                have := D.undo.zero _ hmem
                rw [hp₁, tables_linkNext_self] at this
                exact B.desc_ne_zero _ this
              refine child_of_desc B hroom' ?_
              rw [D.undo.frame _ _ hne, hp₁, tables_linkNext_self]
            rw [Radix.walk_cons, hlink]
            exact D.walk
          · intro u hu
            rw [D.keep u (by omega), hkeep₁ u hu]
          · rw [D.used, hmiss, hmiss₁, hused₁]
            omega
          · intro r q' i hr hlen
            rw [D.lookup r q' i (by omega) (by rw [hkeep₁ r hr]; exact hlen)]
            exact h.lookup_linkNext ht (by omega) hz hroom' i hr hlen
          · exact hundo₁.trans D.undo (hzero₁ D.undo)
        · right
          exact ⟨by omega, q, (t, index P va level) :: new, by rw [hd]; simp,
            hundo₁.trans hu (hzero₁ hu)⟩
    · -- the entry names an allocated table one level below
      obtain ⟨s₁, hs₁, he, hc⟩ := h.child_eq_some ht (show lvl t < 3 by omega) hz
      have hstep : p.descend B va (level :: rest) t links = p.descend B va rest s₁ links := by
        simp only [descend, hz, ↓reduceIte]
        rw [he, if_pos (B.desc_and_three s₁), indexOf_desc hs₁ h.used_le]
      have hmiss : Radix.missing (p.child B) t (index P va level :: rest.map (index P va)) =
          Radix.missing (p.child B) s₁ (rest.map (index P va)) := by
        rw [Radix.missing, hc]
      have hlvl := (h.forest.child_lvl ht (show lvl t < 3 by omega) hc).2
      rw [hmiss, hstep]
      rcases descend_spec va links h hs₁ (show lvl s₁ + rest.length = 3 by omega) with
        ⟨hle, s, q, lvl', new, hd, D⟩ | ⟨hlt, q, new, hd, hu⟩
      · refine .inl ⟨hle, s, q, lvl', new, hd, D.inv, D.live, D.lvl_eq, ?_, D.keep, ?_, D.lookup,
          D.undo⟩
        · have hne : (t, index P va level) ∉ new := fun hmem => hz (D.undo.zero _ hmem)
          have hlink : q.child B t (index P va level) = some s₁ :=
            child_of_desc B (lt_of_lt_of_le hs₁ h.used_le) (by rw [D.undo.frame _ _ hne, he])
          rw [Radix.walk_cons, hlink]
          exact D.walk
        · rw [D.used, hmiss]
      · exact .inr ⟨hlt, q, new, hd, hu⟩

/-! ### Mapping one page -/

section Leaf

variable {p : Pool} {lvl : ℕ → ℕ} {s idx w : ℕ}

/-- A write into a leaf table is no link. -/
lemma child_write_leaf (hl : lvl s = 3) (t i : ℕ) (hlt : lvl t < 3) :
    (p.write s idx w).child B t i = p.child B t i := by
  have hne : t ≠ s := by
    rintro rfl
    omega
  have hread : (p.write s idx w).tables t i = p.tables t i := if_neg fun e => hne e.1
  unfold child
  rw [hread]

/-- Writing a page descriptor into a leaf table keeps the invariant. -/
lemma Inv.writePage (h : p.Inv B lvl) (hs : s < p.used) (hl : lvl s = 3) {pa : ℕ} {perm : Perm}
    (hpa : P.granule ∣ pa) (hlt : pa < 2 ^ 48) :
    (p.write s idx (pa ||| perm.attrs)).Inv B lvl := by
  refine ⟨h.used_le, ?_, h.lvl_le, ?_, ?_, ?_⟩
  · intro t i hle
    have hle' : p.used ≤ t := hle
    rw [tables_write, if_neg (by omega)]
    exact h.free t i hle
  · intro t i ht hlt' hne
    have hts : t ≠ s := by
      rintro rfl
      omega
    rw [tables_write, if_neg fun e => hts e.1] at hne ⊢
    exact h.desc t i ht hlt' hne
  · intro t i ht hl' hne
    rw [tables_write] at hne ⊢
    by_cases e : t = s ∧ i = idx
    · rw [if_pos e]
      exact ⟨pa, perm, hpa, hlt, rfl⟩
    · rw [if_neg e] at hne ⊢
      exact h.page t i ht hl' hne
  · exact h.forest.congr fun t i _ hlt' => child_write_leaf hl t i hlt'

end Leaf

section MapPage

variable {p : Pool} {lvl : ℕ → ℕ} {root va : ℕ}

/-- A translation exists exactly when the lookup along its path finds a page. -/
lemma translate_eq_none_iff :
    p.translate B root va = none ↔
      Radix.lookup (p.child B) p.leaf root (path P va) (index P va 3) = none := by
  unfold translate
  rw [Option.map_eq_none_iff]

/-- A translated address lacks no table. -/
lemma missing_eq_zero_of_translate (h : p.translate B root va ≠ none) :
    p.missing B root va = 0 := by
  by_contra hne
  exact h (translate_eq_none_iff.mpr (Radix.lookup_eq_none_of_missing _ hne))

/-- **One call of `mapPage`.** A page that is mapped already is an overlap; a page whose path
lacks more tables than the pool has left is out of tables; both leave the pool as it was. Any
other page is mapped: the invariant is kept, exactly the missing tables are allocated, and under
the roots exactly one translation is added.

**Proof sketch.** `descend_spec` gives the leaf table, or the failure whose links the rollback
undoes. The descent changes no lookup, so the leaf entry is occupied exactly when the page was
mapped before. Writing a free entry changes the one lookup whose path ends there, and the path
and the leaf index together determine the page number. -/
theorem mapPage_spec (h : p.Inv B lvl) (hroot : root < p.used) (h0 : lvl root = 0) (va : ℕ)
    {pa : ℕ} (hpa : P.granule ∣ pa) (hlt : pa < 2 ^ 48) (perm : Perm) :
    (p.translate B root va ≠ none ∧
      p.mapPage B root va pa perm.attrs = (.error .overlap, p)) ∨
    (p.translate B root va = none ∧ poolLen < p.used + p.missing B root va ∧
      p.mapPage B root va pa perm.attrs = (.error .outOfTables, p)) ∨
    (p.translate B root va = none ∧ p.used + p.missing B root va ≤ poolLen ∧
      ∃ q lvl', p.mapPage B root va pa perm.attrs = (.ok (), q) ∧ q.Inv B lvl' ∧
        q.used = p.used + p.missing B root va ∧ q.enabled = p.enabled ∧ q.root1 = p.root1 ∧
        (∀ u, u < p.used → lvl' u = lvl u) ∧
        ∀ r va', r < p.used → lvl r = 0 → q.translate B r va' =
          if r = root ∧ pageKey P va' = pageKey P va then some (pa, perm.attrs)
          else p.translate B r va') := by
  have hlen : lvl root + [0, 1, 2].length = 3 := by rw [h0]; rfl
  rcases descend_spec va [] h hroot hlen with
    ⟨hle, s, q, lvl', links, hd, D⟩ | ⟨hlt', q, links, hd, hu⟩
  · -- the leaf entry is free exactly when the page is not mapped
    have hlook : Radix.lookup (q.child B) q.leaf root (path P va) (index P va 3) =
        q.leaf s (index P va 3) := by
      unfold Radix.lookup
      rw [show path P va = [0, 1, 2].map (index P va) from rfl, D.walk]
      rfl
    have hfree : p.translate B root va = none ↔ q.tables s (index P va 3) = 0 := by
      rw [translate_eq_none_iff, ← D.lookup root (path P va) _ hroot (by rw [h0]; rfl), hlook,
        D.inv.leaf_eq_none_iff D.live D.lvl_eq]
    rw [List.nil_append] at hd
    by_cases hz : q.tables s (index P va 3) = 0
    · right; right
      refine ⟨hfree.mpr hz, hle, q.write s (index P va 3) (pa ||| perm.attrs), lvl', ?_,
        D.inv.writePage D.live D.lvl_eq hpa hlt, D.used, D.undo.enabled, D.undo.root1, D.keep, ?_⟩
      · simp [mapPage, hd, writeLeaf, hz]
      · intro r va' hr hr0
        have hkeep := D.keep r hr
        have hleaf : ∀ t i, (q.write s (index P va 3) (pa ||| perm.attrs)).leaf t i =
            if t = s ∧ i = index P va 3 then some (pa ||| perm.attrs) else q.leaf t i := by
          intro t i
          unfold leaf
          rw [tables_write]
          by_cases e : t = s ∧ i = index P va 3
          · have hbits : (pa ||| perm.attrs) &&& 0b11 = descPage :=
              or_and_three (perm.attrs_spec (P := P)).1
            rw [if_pos e, if_pos e, if_pos hbits]
          · rw [if_neg e, if_neg e]
        have hrootlvl : lvl' root = 0 := by rw [D.keep root hroot, h0]
        have hused : p.used ≤ q.used := by
          rw [D.used]
          exact Nat.le_add_right _ _
        have hchild : ∀ t i, t < q.used → lvl' t < 3 →
            (q.write s (index P va 3) (pa ||| perm.attrs)).child B t i = q.child B t i :=
          fun t i _ hl => child_write_leaf D.lvl_eq t i hl
        have hw := D.inv.forest.lookup_write (lt_of_lt_of_le hroot hused) hrootlvl rfl D.walk
          hchild hleaf (index P va' 3) (lt_of_lt_of_le hr hused) (by rw [hkeep, hr0])
          (show (path P va').length = 3 from rfl)
        unfold translate
        rw [hw, D.lookup r (path P va') _ hr (by rw [hr0]; rfl)]
        by_cases e : r = root ∧ pageKey P va' = pageKey P va
        · obtain ⟨hp, hi⟩ := (index_eq_iff P va' va).mpr e.2
          obtain ⟨-, hm, h64⟩ := perm.attrs_spec (P := P)
          rw [if_pos e, if_pos ⟨e.1, hp, hi⟩, Option.map_some, desc_and_addrMask hpa hlt hm,
            desc_and_attrs hpa hlt h64 hm]
        · rw [if_neg e, if_neg fun e' => e ⟨e'.1, (index_eq_iff P va' va).mp ⟨e'.2.1, e'.2.2⟩⟩]
    · left
      refine ⟨fun e => hz (hfree.mp e), ?_⟩
      simp [mapPage, hd, writeLeaf, hz, D.undo.rollback_eq]
  · right; left
    rw [List.nil_append] at hd
    have hmiss : poolLen < p.used + p.missing B root va := hlt'
    refine ⟨?_, hmiss, ?_⟩
    · by_contra hne
      have := missing_eq_zero_of_translate hne
      have := h.used_le
      omega
    · simp [mapPage, hd, hu.rollback_eq]

end MapPage

end Pool

end Tables

end K0
