import K0.Mm.Pool
import K0.Mm.User

set_option relaxedAutoImplicit false
set_option autoImplicit false

/-!
# User tables are a tree

The user page tables of `K0.Mm.User` as an instance of `Radix.Forest` over physical memory: a set
of table frames with levels under one root, in which every nonzero entry above level 3 is the
descriptor of a table frame one level below, and every nonzero entry of level 3 is a page
descriptor. The kernel changes this tree in two ways only: it links an empty table into a free
entry, or writes a page descriptor into a free leaf entry.

## Main definitions

* `K0.UserTables.child`, `K0.UserTables.leaf`: memory as radix tables, read as the MMU reads it.
* `K0.UserTables.translate`, `K0.UserTables.missing`: the translation of an address, and how many
  tables its path lacks.
* `K0.UserTables.Inv`: the tree.
* `K0.UserTables.Fresh`: a frame that can become a table.

## Main results

* `K0.UserTables.Inv.link`, `K0.UserTables.Inv.writePage`: the two changes keep the tree.
* `K0.UserTables.Inv.userMapFrame_eq`, `K0.UserTables.Inv.userInstallTable_eq`: what the system
  call walkers do, in terms of the tree.
-/

namespace K0

open Word Memory Outcome

/-! ### Frames -/

section Frames

variable {P : Platform} {t t' i : ℕ}

/-- The number of entries of the root table that addresses can select. -/
def Platform.rootEntries (P : Platform) : ℕ := 2 ^ (48 - (P.pageShift + P.bitsPerLevel * 3))

/-- An index of level 0 is one of these. -/
lemma index_zero_lt (P : Platform) (va : ℕ) : index P va 0 < P.rootEntries := by
  rw [index_eq]
  exact Nat.mod_lt _ (Nat.two_pow_pos _)

/-- Every choice of entries is made by an address. -/
lemma exists_index (P : Platform) {i₀ i₁ i₂ i₃ : ℕ} (h₀ : i₀ < P.rootEntries) (h₁ : i₁ < P.entries)
    (h₂ : i₂ < P.entries) (h₃ : i₃ < P.entries) :
    ∃ va < 2 ^ 48, path P va = [i₀, i₁, i₂] ∧ index P va 3 = i₃ := by
  refine ⟨(((i₀ * P.entries + i₁) * P.entries + i₂) * P.entries + i₃) * P.granule, ?_⟩
  unfold path
  simp only [List.map_cons, List.map_nil, List.cons.injEq, and_true, index_eq]
  cases P <;> simp [Platform.pageShift, Platform.bitsPerLevel, Platform.granule, Platform.entries,
    Platform.rootEntries] at * <;> omega

/-- The entries fill a frame. -/
lemma Platform.entries_mul (P : Platform) : P.entries * 8 = P.granule := by
  cases P <;> decide

/-- An entry lies in its frame. -/
lemma entry_le (hi : i < P.entries) : i * 8 + 8 ≤ P.granule := by
  have := P.entries_mul
  omega

/-- Between two aligned addresses there is room for a frame. -/
lemma add_granule_le (ht : P.granule ∣ t) (ht' : P.granule ∣ t') (hlt : t < t') :
    t + P.granule ≤ t' := by
  obtain ⟨a, rfl⟩ := ht
  obtain ⟨b, rfl⟩ := ht'
  rw [← Nat.mul_succ]
  exact Nat.mul_le_mul_left _ (Nat.lt_of_mul_lt_mul_left hlt)

/-- Two aligned frames are equal or do not meet. -/
lemma frame_sep (ht : P.granule ∣ t) (ht' : P.granule ∣ t') (hne : t ≠ t') :
    t + P.granule ≤ t' ∨ t' + P.granule ≤ t := by
  rcases Nat.lt_or_gt_of_ne hne with h | h
  · exact .inl (add_granule_le ht ht' h)
  · exact .inr (add_granule_le ht' ht h)

/-- The attributes of a user mapping are a page descriptor without an address. -/
lemma UserPerm.attrs_spec (perm : UserPerm) :
    perm.attrs &&& 0b11 = descPage ∧ perm.attrs &&& P.addrMask = 0 ∧ perm.attrs < 2 ^ 64 := by
  cases perm <;> cases P <;> decide

/-- A masked word is aligned and has 48 bits. -/
lemma and_addrMask_frame (P : Platform) (w : ℕ) :
    P.granule ∣ w &&& P.addrMask ∧ (w &&& P.addrMask) + P.granule ≤ 2 ^ 48 := by
  have hdvd : P.granule ∣ w &&& P.addrMask := by
    have hmask : w &&& P.addrMask = (w &&& (2 ^ 48 - 1)) &&& P.addrMask := by
      rw [Nat.and_assoc]
      congr 1
      cases P <;> decide
    rw [hmask, P.addrMask_eq, and_mask_eq (by cases P <;> decide)
      (Nat.and_lt_two_pow _ (by decide))]
    exact Dvd.intro_left _ rfl
  have hlt : w &&& P.addrMask < 2 ^ 48 := Nat.and_lt_two_pow _ (by cases P <;> decide)
  exact ⟨hdvd, add_granule_le hdvd P.granule_dvd hlt⟩

/-- The kernel reaches every entry of a frame in the 48-bit space. -/
lemma entryPtr_eq (ht : t + P.granule ≤ 2 ^ 48) (hi : i < P.entries) :
    ∃ p, entryPtr t i = some p ∧ physOf p = t + i * 8 := by
  have hoff : Abi.kernelVaOffset + 2 ^ 48 = 2 ^ 64 := by decide
  have hle := entry_le hi
  refine ⟨t + Abi.kernelVaOffset + i * 8, ?_, ?_⟩
  · unfold entryPtr
    rw [checkedAdd_of_lt (by omega), Option.bind_some, checkedAdd_of_lt (by omega)]
  · unfold physOf
    omega

end Frames

/-! ### Tables in memory -/

namespace UserTables

section Defs

variable (P : Platform)

/-- An entry of a table. -/
def word (m : Mem) (t i : ℕ) : ℕ := read64 m (t + i * 8)

/-- There is an entry `i` in a table at `t`. -/
def Entry (t i : ℕ) : Prop := P.granule ∣ t ∧ i < P.entries

instance (t i : ℕ) : Decidable (Entry P t i) := inferInstanceAs (Decidable (_ ∧ _))

/-- The link in an entry, as the MMU reads it above level 3. -/
def child (m : Mem) (t i : ℕ) : Option ℕ :=
  if Entry P t i ∧ word m t i &&& 0b11 = descTable then some (word m t i &&& P.addrMask) else none

/-- The page descriptor in an entry, as the MMU reads it at level 3. -/
def leaf (m : Mem) (t i : ℕ) : Option ℕ :=
  if Entry P t i ∧ word m t i &&& 0b11 = descPage then some (word m t i) else none

/-- The translation of an address under a root: physical page and attributes. -/
def translate (m : Mem) (root va : ℕ) : Option (ℕ × ℕ) :=
  (Radix.lookup (child P m) (leaf P m) root (path P va) (index P va 3)).map fun w =>
    (w &&& P.addrMask, w &&& (2 ^ 64 - 1 - P.addrMask))

/-- The number of tables that the path of an address lacks under a root. -/
def missing (m : Mem) (root va : ℕ) : ℕ := Radix.missing (child P m) root (path P va)

/-- The table frames `live` with the given levels form a tree under `root`. -/
structure Inv (m : Mem) (root : ℕ) (live : Set ℕ) (lvl : ℕ → ℕ) : Prop where
  root_live : root ∈ live
  root_lvl : lvl root = 0
  root_zero : ∀ i, P.rootEntries ≤ i → i < P.entries → word m root i = 0
  aligned : ∀ t ∈ live, P.granule ∣ t
  fits : ∀ t ∈ live, t + P.granule ≤ 2 ^ 48
  lvl_le : ∀ t ∈ live, lvl t ≤ 3
  desc : ∀ t ∈ live, ∀ i < P.entries, lvl t < 3 → word m t i ≠ 0 →
    ∃ s ∈ live, word m t i = s ||| descTable
  page : ∀ t ∈ live, ∀ i < P.entries, lvl t = 3 → word m t i ≠ 0 →
    ∃ pa perm, P.granule ∣ pa ∧ pa < 2 ^ 48 ∧ word m t i = pa ||| UserPerm.attrs perm
  forest : Radix.Forest (child P m) (· ∈ live) lvl 3
  linked : ∀ s ∈ live, s ≠ root → ∃ t i, t ∈ live ∧ lvl t < 3 ∧ child P m t i = some s

/-- A cleared frame that is no table yet. -/
structure Fresh (m : Mem) (live : Set ℕ) (f : ℕ) : Prop where
  aligned : P.granule ∣ f
  fits : f + P.granule ≤ 2 ^ 48
  notMem : f ∉ live
  zero : ∀ i < P.entries, word m f i = 0

end Defs

variable {P : Platform} {m m' : Mem} {root : ℕ} {live : Set ℕ} {lvl : ℕ → ℕ} {t t' i i' s f w : ℕ}

/-! ### Entries -/

/-- An entry depends on the bytes of its frame only. -/
lemma word_congr (h : ∀ a, t ≤ a → a < t + P.granule → m' a = m a) (hi : i < P.entries) :
    word m' t i = word m t i := by
  have := entry_le hi
  exact read64_congr fun b h1 h2 => h b (by omega) (by omega)

/-- An entry after another one was written. -/
lemma word_write (h : Entry P t i) (h' : Entry P t' i') (hw : w < 2 ^ 64) :
    word (write64 m (t + i * 8) w) t' i' = if t' = t ∧ i' = i then w else word m t' i' := by
  unfold word
  by_cases e : t' = t ∧ i' = i
  · obtain ⟨rfl, rfl⟩ := e
    rw [if_pos ⟨rfl, rfl⟩, read64_write64 hw]
  · rw [if_neg e]
    refine read64_write64_of_sep ?_
    by_cases e' : t' = t
    · have : i' ≠ i := fun h => e ⟨e', h⟩
      omega
    · have := entry_le h.2
      have := entry_le h'.2
      have := frame_sep h'.1 h.1 e'
      omega

/-- A zero entry is no link. -/
lemma child_of_zero (h : Entry P t i → word m t i = 0) : child P m t i = none := by
  unfold child
  refine if_neg fun e => ?_
  rw [h e.1] at e
  exact absurd e.2 (by decide)

/-- A zero entry maps no page. -/
lemma leaf_of_zero (h : Entry P t i → word m t i = 0) : leaf P m t i = none := by
  unfold leaf
  refine if_neg fun e => ?_
  rw [h e.1] at e
  exact absurd e.2 (by decide)

/-- A link is at one of the entries. -/
lemma entry_of_child (h : child P m t i = some s) : Entry P t i ∧ word m t i ≠ 0 := by
  unfold child at h
  split_ifs at h with hc
  refine ⟨hc.1, fun h0 => ?_⟩
  rw [h0] at hc
  exact absurd hc.2 (by decide)

/-- Equal entries are equal links. -/
lemma child_congr (h : Entry P t i → word m' t i = word m t i) :
    child P m' t i = child P m t i := by
  unfold child
  by_cases hi : Entry P t i
  · rw [h hi]
  · rw [if_neg fun e => hi e.1, if_neg fun e => hi e.1]

/-- Equal entries are equal pages. -/
lemma leaf_congr (h : Entry P t i → word m' t i = word m t i) :
    leaf P m' t i = leaf P m t i := by
  unfold leaf
  by_cases hi : Entry P t i
  · rw [h hi]
  · rw [if_neg fun e => hi e.1, if_neg fun e => hi e.1]

/-- The descriptor of a table is not zero, and is a 64-bit word. -/
lemma desc_spec (hs : s + P.granule ≤ 2 ^ 48) : s ||| descTable ≠ 0 ∧ s ||| descTable < 2 ^ 64 := by
  have := P.granule_pos
  refine ⟨ne_zero_of_and_three (or_and_three rfl), Nat.or_lt_two_pow (by omega) (by decide)⟩

/-- The descriptor of a table is a link to it. -/
lemma child_of_desc (hi : Entry P t i) (ha : P.granule ∣ s) (hs : s + P.granule ≤ 2 ^ 48)
    (h : word m t i = s ||| descTable) : child P m t i = some s := by
  have hlt : s < 2 ^ 48 := by
    have := P.granule_pos
    omega
  unfold child
  rw [h, if_pos ⟨hi, or_and_three rfl⟩, desc_and_addrMask ha hlt (by cases P <;> decide)]

/-- The page descriptor of an address maps it. -/
lemma leaf_of_page {pa : ℕ} {perm : UserPerm} (hi : Entry P t i)
    (h : word m t i = pa ||| perm.attrs) : leaf P m t i = some (pa ||| perm.attrs) := by
  unfold leaf
  rw [h, if_pos ⟨hi, or_and_three (perm.attrs_spec (P := P)).1⟩]

/-- A page descriptor is not zero, and is a 64-bit word. -/
lemma page_spec {pa : ℕ} (hpa : pa < 2 ^ 48) (perm : UserPerm) :
    pa ||| perm.attrs ≠ 0 ∧ pa ||| perm.attrs < 2 ^ 64 :=
  ⟨ne_zero_of_and_three (or_and_three (perm.attrs_spec (P := .virt)).1),
    Nat.or_lt_two_pow (by omega) (perm.attrs_spec (P := .virt)).2.2⟩

/-! ### Reading the tree -/

namespace Inv

/-- The entries of a table of the tree. -/
lemma entry (h : Inv P m root live lvl) (ht : t ∈ live) (hi : i < P.entries) : Entry P t i :=
  ⟨h.aligned t ht, hi⟩

/-- A table of the tree above the last level has a link exactly where its entry is not zero. -/
lemma child_eq_some (h : Inv P m root live lvl) (ht : t ∈ live) (hl : lvl t < 3)
    (hi : i < P.entries) (hne : word m t i ≠ 0) :
    ∃ s ∈ live, word m t i = s ||| descTable ∧ child P m t i = some s := by
  obtain ⟨s, hs, he⟩ := h.desc t ht i hi hl hne
  exact ⟨s, hs, he, child_of_desc (h.entry ht hi) (h.aligned s hs) (h.fits s hs) he⟩

/-- No link is an empty entry. -/
lemma word_eq_zero_of_child (h : Inv P m root live lvl) (ht : t ∈ live) (hl : lvl t < 3)
    (hi : i < P.entries) (hc : child P m t i = none) : word m t i = 0 := by
  by_contra hne
  obtain ⟨s, -, -, hs⟩ := h.child_eq_some ht hl hi hne
  rw [hc] at hs
  cases hs

/-- An entry of a leaf table maps a page exactly when it is not zero. -/
lemma leaf_eq_none_iff (h : Inv P m root live lvl) (ht : t ∈ live) (hl : lvl t = 3)
    (hi : i < P.entries) : leaf P m t i = none ↔ word m t i = 0 := by
  constructor
  · intro hleaf
    by_contra hne
    obtain ⟨pa, perm, -, -, he⟩ := h.page t ht i hi hl hne
    rw [leaf_of_page (h.entry ht hi) he] at hleaf
    cases hleaf
  · exact fun h0 => leaf_of_zero fun _ => h0

/-- The walk along the path of an address ends in a table of level 3. -/
lemma walk_lvl (h : Inv P m root live lvl) {va : ℕ}
    (hw : Radix.walk (child P m) root (path P va) = some s) : s ∈ live ∧ lvl s = 3 := by
  obtain ⟨h1, h2⟩ := h.forest.walk_lvl h.root_live (by rw [h.root_lvl]; exact le_rfl) hw
  refine ⟨h1, ?_⟩
  rw [h2, h.root_lvl]
  rfl

/-- The tree depends on the entries of its tables only. -/
lemma congr (h : Inv P m root live lvl)
    (hw : ∀ t ∈ live, ∀ i < P.entries, word m' t i = word m t i) : Inv P m' root live lvl := by
  have hchild : ∀ t i, t ∈ live → child P m' t i = child P m t i :=
    fun t i ht => child_congr fun e => hw t ht i e.2
  refine ⟨h.root_live, h.root_lvl, ?_, h.aligned, h.fits, h.lvl_le, ?_, ?_, ?_, ?_⟩
  · intro i h1 h2
    rw [hw root h.root_live i h2]
    exact h.root_zero i h1 h2
  · intro t ht i hi hl hne
    rw [hw t ht i hi] at hne ⊢
    exact h.desc t ht i hi hl hne
  · intro t ht i hi hl hne
    rw [hw t ht i hi] at hne ⊢
    exact h.page t ht i hi hl hne
  · exact h.forest.congr fun t i ht _ => hchild t i ht
  · intro s hs hne
    obtain ⟨t, i, ht, hl, hc⟩ := h.linked s hs hne
    exact ⟨t, i, ht, hl, (hchild t i ht).trans hc⟩

/-- So do the translations. -/
lemma translate_congr (h : Inv P m root live lvl)
    (hw : ∀ t ∈ live, ∀ i < P.entries, word m' t i = word m t i) (va : ℕ) :
    translate P m' root va = translate P m root va := by
  unfold translate Radix.lookup
  rw [h.forest.walk_congr (fun t i ht _ => child_congr fun e => hw t ht i e.2) h.root_live
    (by rw [h.root_lvl]; exact le_rfl)]
  cases hwalk : Radix.walk (child P m) root (path P va) with
  | none => rw [Option.bind_none, Option.bind_none]
  | some s =>
    have hs := (h.walk_lvl hwalk).1
    rw [Option.bind_some, Option.bind_some, leaf_congr fun e => hw s hs _ e.2]

/-- So do the missing tables. -/
lemma missing_congr (h : Inv P m root live lvl)
    (hw : ∀ t ∈ live, ∀ i < P.entries, word m' t i = word m t i) (va : ℕ) :
    missing P m' root va = missing P m root va :=
  h.forest.missing_congr (fun t i ht _ => child_congr fun e => hw t ht i e.2) h.root_live
    (by rw [h.root_lvl]; exact le_rfl)

/-- With a complete path an address is translated exactly when its leaf entry is taken. -/
lemma translate_eq_none_iff (h : Inv P m root live lvl) {va : ℕ}
    (hw : Radix.walk (child P m) root (path P va) = some s) :
    translate P m root va = none ↔ word m s (index P va 3) = 0 := by
  obtain ⟨hs, hl⟩ := h.walk_lvl hw
  unfold translate Radix.lookup
  rw [hw, Option.bind_some, Option.map_eq_none_iff, h.leaf_eq_none_iff hs hl (index_lt P va 3)]

end Inv

/-- An address whose path lacks a table is not translated. -/
lemma translate_of_missing {va : ℕ} (h : missing P m root va ≠ 0) :
    translate P m root va = none := by
  unfold translate
  rw [Radix.lookup_eq_none_of_missing _ h, Option.map_none]

/-! ### Linking a table -/

/-- The descriptor of a table, stored in an entry. -/
def setLink (m : Mem) (t i f : ℕ) : Mem := write64 m (t + i * 8) (f ||| descTable)

/-- The entries after linking a table. -/
lemma word_setLink (h : Entry P t i) (hf : f + P.granule ≤ 2 ^ 48) (h' : Entry P t' i') :
    word (setLink m t i f) t' i' = if t' = t ∧ i' = i then f ||| descTable else word m t' i' :=
  word_write h h' (desc_spec hf).2

/-- Linking an empty frame into an empty entry of another table adds one link to a table without
links. -/
lemma linked_setLink (h : Entry P t i) (hz : word m t i = 0) (hne : f ≠ t) (ha : P.granule ∣ f)
    (hf : f + P.granule ≤ 2 ^ 48) (hzero : ∀ j < P.entries, word m f j = 0) :
    Radix.Linked (child P m) (child P (setLink m t i f)) t i f where
  ne := hne
  empty j := child_of_zero fun e => hzero j e.2
  before := child_of_zero fun _ => hz
  link := child_of_desc h ha hf (by rw [word_setLink h hf h, if_pos ⟨rfl, rfl⟩])
  frame t' j hn := child_congr fun e => by rw [word_setLink h hf e, if_neg hn]

namespace Inv

/-- Linking an empty frame changes no lookup, whether or not it is linked elsewhere. -/
lemma lookup_link (h : Inv P m root live lvl) (ht : t ∈ live) (hi : i < P.entries)
    (hl : lvl t < 3) (hz : word m t i = 0) (hne : f ≠ t) (ha : P.granule ∣ f)
    (hf : f + P.granule ≤ 2 ^ 48) (hzero : ∀ j < P.entries, word m f j = 0) (va : ℕ) :
    Radix.lookup (child P (setLink m t i f)) (leaf P (setLink m t i f)) root (path P va)
        (index P va 3) =
      Radix.lookup (child P m) (leaf P m) root (path P va) (index P va 3) := by
  have he := h.entry ht hi
  rw [h.forest.lookup_linked (linked_setLink he hz hne ha hf hzero) ?_ ?_ _ h.root_live
    (by rw [h.root_lvl]; rfl)]
  · intro j
    refine leaf_of_zero fun e => ?_
    rw [word_setLink he hf e, if_neg fun e' => hne e'.1, hzero j e.2]
  · intro t' j _ hl'
    refine leaf_congr fun e => ?_
    rw [word_setLink he hf e, if_neg]
    rintro ⟨rfl, -⟩
    omega

/-- Linking an empty frame changes no translation. -/
lemma translate_link (h : Inv P m root live lvl) (ht : t ∈ live) (hi : i < P.entries)
    (hl : lvl t < 3) (hz : word m t i = 0) (hne : f ≠ t) (ha : P.granule ∣ f)
    (hf : f + P.granule ≤ 2 ^ 48) (hzero : ∀ j < P.entries, word m f j = 0) (va : ℕ) :
    translate P (setLink m t i f) root va = translate P m root va := by
  unfold translate
  rw [h.lookup_link ht hi hl hz hne ha hf hzero]

/-- Linking a fresh frame keeps the tree, with the frame one level below its parent.

**Proof sketch.** All entries of the frame are zero, so the clauses on entries hold for it
vacuously; the only entry that changed is the new descriptor. The forest is kept by
`Radix.Forest.link`. -/
lemma link (h : Inv P m root live lvl) (ht : t ∈ live) (hi : i < P.entries) (hl : lvl t < 3)
    (hroot : t = root → i < P.rootEntries) (hz : word m t i = 0) (hf : Fresh P m live f) :
    Inv P (setLink m t i f) root (insert f live) (Function.update lvl f (lvl t + 1)) := by
  have he := h.entry ht hi
  have hne : f ≠ t := fun e => hf.notMem (e ▸ ht)
  have hword : ∀ {t' j}, Entry P t' j → word (setLink m t i f) t' j =
      if t' = t ∧ j = i then f ||| descTable else word m t' j := word_setLink he hf.fits
  have hlvl : ∀ t' ∈ live, Function.update lvl f (lvl t + 1) t' = lvl t' := fun t' ht' =>
    Function.update_of_ne (ne_of_mem_of_not_mem ht' hf.notMem) _ _
  have hent : ∀ {t' j}, t' ∈ insert f live → j < P.entries → Entry P t' j := by
    rintro t' j (rfl | ht') hj
    · exact ⟨hf.aligned, hj⟩
    · exact h.entry ht' hj
  -- a nonzero entry is the new descriptor or an old entry of an old table
  have hold : ∀ {t' j}, t' ∈ insert f live → j < P.entries →
      word (setLink m t i f) t' j ≠ 0 →
      (t' = t ∧ j = i) ∨ (t' ∈ live ∧ word (setLink m t i f) t' j = word m t' j) := by
    intro t' j ht' hj hw
    by_cases e : t' = t ∧ j = i
    · exact .inl e
    · rw [hword (hent ht' hj), if_neg e] at hw ⊢
      rcases ht' with rfl | ht'
      · exact absurd (hf.zero j hj) hw
      · exact .inr ⟨ht', rfl⟩
  have hlink := linked_setLink he hz hne hf.aligned hf.fits hf.zero
  refine ⟨.inr h.root_live, ?_, ?_, ?_, ?_, ?_, ?_, ?_, ?_, ?_⟩
  · rw [hlvl root h.root_live]
    exact h.root_lvl
  · intro j h1 h2
    rw [hword (h.entry h.root_live h2), if_neg]
    · exact h.root_zero j h1 h2
    · rintro ⟨e, rfl⟩
      have := hroot e.symm
      omega
  · rintro t' (rfl | ht')
    · exact hf.aligned
    · exact h.aligned t' ht'
  · rintro t' (rfl | ht')
    · exact hf.fits
    · exact h.fits t' ht'
  · rintro t' (rfl | ht')
    · rw [Function.update_self]
      exact hl
    · rw [hlvl t' ht']
      exact h.lvl_le t' ht'
  · intro t' ht' j hj hl' hw
    rcases hold ht' hj hw with ⟨rfl, rfl⟩ | ⟨ht', e⟩
    · exact ⟨f, .inl rfl, by rw [hword he, if_pos ⟨rfl, rfl⟩]⟩
    · rw [hlvl t' ht'] at hl'
      rw [e] at hw ⊢
      obtain ⟨s, hs, he'⟩ := h.desc t' ht' j hj hl' hw
      exact ⟨s, .inr hs, he'⟩
  · intro t' ht' j hj hl' hw
    rcases hold ht' hj hw with ⟨rfl, rfl⟩ | ⟨ht', e⟩
    · rw [hlvl t' ht] at hl'
      omega
    · rw [hlvl t' ht'] at hl'
      rw [e] at hw ⊢
      exact h.page t' ht' j hj hl' hw
  · have hF := h.forest.link hlink ht hl hf.notMem
    have hlive : (fun t' => t' ∈ live ∨ t' = f) = (· ∈ insert f live) := by
      funext t'
      exact propext or_comm
    rw [hlive] at hF
    exact hF
  · rintro s (rfl | hs) hsr
    · exact ⟨t, i, .inr ht, by rw [hlvl t ht]; exact hl, hlink.link⟩
    · obtain ⟨t', j, ht', hl', hc⟩ := h.linked s hs hsr
      refine ⟨t', j, .inr ht', by rw [hlvl t' ht']; exact hl', ?_⟩
      rw [hlink.frame, hc]
      rintro ⟨rfl, rfl⟩
      rw [hlink.before] at hc
      cases hc

/-- Linking a frame at the gap of a path: one table less is missing there. -/
lemma missing_link (h : Inv P m root live lvl) (ht : t ∈ live) (hi : i < P.entries)
    (hz : word m t i = 0) (hne : f ≠ t) (ha : P.granule ∣ f) (hf : f + P.granule ≤ 2 ^ 48)
    (hzero : ∀ j < P.entries, word m f j = 0) {va : ℕ}
    (hg : Radix.gap (child P m) root (path P va) = some (t, i)) :
    missing P m root va = missing P (setLink m t i f) root va + 1 :=
  (linked_setLink (h.entry ht hi) hz hne ha hf hzero).missing_of_gap hg

end Inv

/-! ### Mapping a page -/

namespace Inv

variable {pa : ℕ}

/-- Writing a page descriptor into a leaf table keeps the links. -/
lemma child_writePage (h : Inv P m root live lvl) (hs : s ∈ live) (hl : lvl s = 3)
    (hi : i < P.entries) (hpa : pa < 2 ^ 48) (perm : UserPerm) (hl' : lvl t < 3) :
    child P (write64 m (s + i * 8) (pa ||| perm.attrs)) t i' = child P m t i' := by
  refine child_congr fun e => ?_
  rw [word_write (h.entry hs hi) e (page_spec hpa perm).2, if_neg]
  rintro ⟨rfl, -⟩
  omega

/-- Writing a page descriptor into a leaf table keeps the tree. -/
lemma writePage (h : Inv P m root live lvl) (hs : s ∈ live) (hl : lvl s = 3) (hi : i < P.entries)
    (ha : P.granule ∣ pa) (hpa : pa < 2 ^ 48) (perm : UserPerm) :
    Inv P (write64 m (s + i * 8) (pa ||| perm.attrs)) root live lvl := by
  have hword : ∀ {t' j}, t' ∈ live → j < P.entries →
      word (write64 m (s + i * 8) (pa ||| perm.attrs)) t' j =
        if t' = s ∧ j = i then pa ||| perm.attrs else word m t' j := fun ht' hj =>
    word_write (h.entry hs hi) (h.entry ht' hj) (page_spec hpa perm).2
  have hne : ∀ {t'}, lvl t' < 3 → t' ≠ s := by
    rintro t' hlt rfl
    omega
  refine ⟨h.root_live, h.root_lvl, ?_, h.aligned, h.fits, h.lvl_le, ?_, ?_, ?_, ?_⟩
  · intro j h1 h2
    have hrs : root ≠ s := hne (by rw [h.root_lvl]; decide)
    rw [hword h.root_live h2, if_neg fun e => hrs e.1]
    exact h.root_zero j h1 h2
  · intro t' ht' j hj hl' hw
    rw [hword ht' hj, if_neg fun e => hne hl' e.1] at hw ⊢
    exact h.desc t' ht' j hj hl' hw
  · intro t' ht' j hj hl' hw
    rw [hword ht' hj] at hw ⊢
    by_cases e : t' = s ∧ j = i
    · rw [if_pos e]
      exact ⟨pa, perm, ha, hpa, rfl⟩
    · rw [if_neg e] at hw ⊢
      exact h.page t' ht' j hj hl' hw
  · exact h.forest.congr fun t' j _ hl' => h.child_writePage hs hl hi hpa perm hl'
  · intro u hu hur
    obtain ⟨t', j, ht', hl', hc⟩ := h.linked u hu hur
    exact ⟨t', j, ht', hl', (h.child_writePage hs hl hi hpa perm hl').trans hc⟩

/-- Writing a page descriptor at the end of the path of an address changes the lookups of that
page only. -/
lemma lookup_writePage (h : Inv P m root live lvl) {va : ℕ}
    (hw : Radix.walk (child P m) root (path P va) = some s) (hpa : pa < 2 ^ 48) (perm : UserPerm)
    (va' : ℕ) :
    Radix.lookup (child P (write64 m (s + index P va 3 * 8) (pa ||| perm.attrs)))
        (leaf P (write64 m (s + index P va 3 * 8) (pa ||| perm.attrs))) root (path P va')
        (index P va' 3) =
      if pageKey P va' = pageKey P va then some (pa ||| perm.attrs)
      else Radix.lookup (child P m) (leaf P m) root (path P va') (index P va' 3) := by
  obtain ⟨hs, hl⟩ := h.walk_lvl hw
  have hi := index_lt P va 3
  have hleaf : ∀ t' j, leaf P (write64 m (s + index P va 3 * 8) (pa ||| perm.attrs)) t' j =
      if t' = s ∧ j = index P va 3 then some (pa ||| perm.attrs) else leaf P m t' j := by
    intro t' j
    by_cases e : t' = s ∧ j = index P va 3
    · obtain ⟨rfl, rfl⟩ := e
      have he := h.entry hs hi
      rw [if_pos ⟨rfl, rfl⟩]
      refine leaf_of_page he ?_
      rw [word_write he he (page_spec hpa perm).2, if_pos ⟨rfl, rfl⟩]
    · rw [if_neg e]
      refine leaf_congr fun e' => ?_
      rw [word_write (h.entry hs hi) e' (page_spec hpa perm).2, if_neg e]
  have hlook := h.forest.lookup_write h.root_live h.root_lvl (show (path P va).length = 3 from rfl)
    hw (fun t' j _ hl' => h.child_writePage hs hl hi hpa perm hl') hleaf (index P va' 3) h.root_live
    h.root_lvl (show (path P va').length = 3 from rfl)
  rw [hlook]
  by_cases e : pageKey P va' = pageKey P va
  · obtain ⟨hp, hi'⟩ := (index_eq_iff P va' va).mpr e
    rw [if_pos e, if_pos ⟨rfl, hp, hi'⟩]
  · rw [if_neg e, if_neg fun e' => e ((index_eq_iff P va' va).mp ⟨e'.2.1, e'.2.2⟩)]

/-- Writing a page descriptor at the end of the path of an address adds its translation and
changes no other one. -/
lemma translate_writePage (h : Inv P m root live lvl) {va : ℕ}
    (hw : Radix.walk (child P m) root (path P va) = some s) (ha : P.granule ∣ pa)
    (hpa : pa < 2 ^ 48) (perm : UserPerm) (va' : ℕ) :
    translate P (write64 m (s + index P va 3 * 8) (pa ||| perm.attrs)) root va' =
      if pageKey P va' = pageKey P va then some (pa, perm.attrs) else translate P m root va' := by
  unfold translate
  rw [h.lookup_writePage hw hpa]
  by_cases e : pageKey P va' = pageKey P va
  · obtain ⟨-, hm, h64⟩ := perm.attrs_spec (P := P)
    rw [if_pos e, if_pos e, Option.map_some, desc_and_addrMask ha hpa hm,
      desc_and_attrs ha hpa h64 hm]
  · rw [if_neg e, if_neg e]

/-- Writing a page descriptor into a leaf table leaves the missing tables. -/
lemma missing_writePage (h : Inv P m root live lvl) (hs : s ∈ live) (hl : lvl s = 3)
    (hi : i < P.entries) (hpa : pa < 2 ^ 48) (perm : UserPerm) (va : ℕ) :
    missing P (write64 m (s + i * 8) (pa ||| perm.attrs)) root va = missing P m root va :=
  h.forest.missing_congr (fun _ _ _ hl' => h.child_writePage hs hl hi hpa perm hl') h.root_live
    (by rw [h.root_lvl]; exact le_rfl)

end Inv

/-! ### The walkers of the system calls -/

namespace Inv

/-- A nonzero entry above the last level, as the walkers read it: the bits of a table descriptor
and the address of a table one level below. -/
lemma table_of_word (h : Inv P m root live lvl) (ht : t ∈ live) (hl : lvl t < 3)
    (hi : i < P.entries) (hne : word m t i ≠ 0) :
    ∃ s ∈ live, lvl s = lvl t + 1 ∧ child P m t i = some s ∧ word m t i &&& 0b11 = descTable ∧
      word m t i &&& P.addrMask = s := by
  obtain ⟨s, hs, hdesc, hc⟩ := h.child_eq_some ht hl hi hne
  refine ⟨s, hs, (h.forest.child_lvl ht hl hc).2, hc, ?_, ?_⟩
  · rw [hdesc]
    exact or_and_three rfl
  · unfold child at hc
    split_ifs at hc
    exact Option.some.inj hc

/-- The walk of `userMapFrame` reaches the table at the end of the path, or finds that one is
missing. It meets no corrupt table, and no address overflows. -/
lemma userWalk_eq (h : Inv P m root live lvl) (va : ℕ) {levels : List ℕ} (ht : t ∈ live)
    (hlen : lvl t + levels.length ≤ 3) :
    userWalk P va m levels t =
      match Radix.walk (child P m) t (levels.map (index P va)) with
      | some s => pure s
      | none => throw .missingTable := by
  induction levels generalizing t with
  | nil => rfl
  | cons level rest ih =>
    rw [List.length_cons] at hlen
    have hi := index_lt P va level
    obtain ⟨p, hp, hphys⟩ := entryPtr_eq (h.fits t ht) hi
    rw [List.map_cons, Radix.walk_cons]
    unfold userWalk
    rw [pure_bind_eq (orPanic_eq_pure.mpr hp), hphys]
    change (if word m t (index P va level) = 0 then _
      else if word m t (index P va level) &&& 0b11 = descTable then
        userWalk P va m rest (word m t (index P va level) &&& P.addrMask) else _) = _
    by_cases hz : word m t (index P va level) = 0
    · rw [if_pos hz, child_of_zero fun _ => hz]
      rfl
    · obtain ⟨s, hs, hlvl, hc, hbits, hmask⟩ := h.table_of_word ht (by omega) hi hz
      rw [if_neg hz, if_pos hbits, hmask, hc, Option.bind_some]
      exact ih hs (by omega)

/-- The walk of `userInstallTable` links the frame at the gap of the path. -/
lemma installWalk_eq (h : Inv P m root live lvl) (va f : ℕ) {n : ℕ} (ht : t ∈ live)
    (hlen : lvl t + n = 3) :
    installWalk P va f m (List.range' (lvl t) n) t =
      match Radix.gap (child P m) t ((List.range' (lvl t) n).map (index P va)) with
      | none => throw .overlap
      | some (t', i) => pure (lvl t', setLink m t' i f) := by
  induction n generalizing t with
  | zero => rfl
  | succ n ih =>
    have hi := index_lt P va (lvl t)
    obtain ⟨p, hp, hphys⟩ := entryPtr_eq (h.fits t ht) hi
    rw [List.range'_succ, List.map_cons, Radix.gap]
    unfold installWalk
    rw [pure_bind_eq (orPanic_eq_pure.mpr hp), hphys]
    change (if word m t (index P va (lvl t)) = 0 then _
      else if word m t (index P va (lvl t)) &&& 0b11 = descTable then
        installWalk P va f m _ (word m t (index P va (lvl t)) &&& P.addrMask) else _) = _
    by_cases hz : word m t (index P va (lvl t)) = 0
    · rw [if_pos hz, child_of_zero fun _ => hz]
      rfl
    · obtain ⟨s, hs, hlvl, hc, hbits, hmask⟩ := h.table_of_word ht (by omega) hi hz
      rw [if_neg hz, if_pos hbits, hmask, hc]
      have hih := ih hs (by omega)
      rw [hlvl] at hih
      exact hih

/-- What `userMapFrame` does for an address that it accepts. -/
lemma userMapFrame_eq (h : Inv P m root live lvl) {va pa : ℕ} (hva : P.granule ∣ va)
    (hpa : P.granule ∣ pa) (hlo : P.granule ≤ va) (hhi : va + P.granule ≤ 2 ^ 48)
    (perm : UserPerm) :
    userMapFrame P root va pa perm m =
      match Radix.walk (child P m) root (path P va) with
      | none => throw .missingTable
      | some s =>
        if word m s (index P va 3) ≠ 0 then throw .overlap
        else pure (write64 m (s + index P va 3 * 8) (pa ||| perm.attrs)) := by
  have hsum : va + P.granule < 2 ^ 64 := by omega
  unfold userMapFrame
  rw [if_neg (by rw [Nat.mod_eq_zero_of_dvd hva, Nat.mod_eq_zero_of_dvd hpa]; simp),
    if_neg (by omega), pure_bind_eq (orError_eq_pure.mpr (checkedAdd_of_lt hsum)),
    if_neg (by omega), h.userWalk_eq va h.root_live (by rw [h.root_lvl]; exact le_rfl)]
  change (match Radix.walk (child P m) root (path P va) with
    | some s => (pure s : Fallible MmuError ℕ)
    | none => throw MmuError.missingTable) >>= _ = _
  cases hw : Radix.walk (child P m) root (path P va) with
  | none => rfl
  | some s =>
    obtain ⟨p, hp, hphys⟩ := entryPtr_eq (h.fits s (h.walk_lvl hw).1) (index_lt P va 3)
    dsimp only
    rw [pure_bind_eq rfl, pure_bind_eq (orPanic_eq_pure.mpr hp), hphys]
    rfl

/-- What `userInstallTable` does for an address and a frame that it accepts. -/
lemma userInstallTable_eq (h : Inv P m root live lvl) {va : ℕ} (hf : P.granule ∣ f)
    (hva : va < 2 ^ 48) :
    userInstallTable P root va f m =
      match Radix.gap (child P m) root (path P va) with
      | none => throw .overlap
      | some (t, i) => pure (lvl t, setLink m t i f) := by
  unfold userInstallTable
  rw [if_neg (by rw [Nat.mod_eq_zero_of_dvd hf]; omega)]
  have hwalk := h.installWalk_eq va f (n := 3) h.root_live (by rw [h.root_lvl])
  rw [h.root_lvl] at hwalk
  exact hwalk

/-- A frame is mapped only at an address that is accepted, into an empty entry of a leaf table. -/
lemma userMapFrame_eq_pure (h : Inv P m root live lvl) {va pa : ℕ} {perm : UserPerm}
    (hm : userMapFrame P root va pa perm m = pure m') :
    P.granule ∣ va ∧ P.granule ∣ pa ∧ P.granule ≤ va ∧ va + P.granule ≤ 2 ^ 48 ∧
      ∃ s, Radix.walk (child P m) root (path P va) = some s ∧ word m s (index P va 3) = 0 ∧
        m' = write64 m (s + index P va 3 * 8) (pa ||| perm.attrs) := by
  have hcond : P.granule ∣ va ∧ P.granule ∣ pa ∧ P.granule ≤ va ∧ va + P.granule ≤ 2 ^ 48 := by
    unfold userMapFrame at hm
    by_cases hmod : va % P.granule ≠ 0 ∨ pa % P.granule ≠ 0
    · rw [if_pos hmod] at hm
      exact absurd hm throw_ne_pure
    rw [if_neg hmod] at hm
    by_cases hlo : va < P.granule
    · rw [if_pos hlo] at hm
      exact absurd hm throw_ne_pure
    rw [if_neg hlo] at hm
    obtain ⟨stop, hstop, hm⟩ := bind_eq_pure.mp hm
    obtain ⟨-, rfl⟩ := checkedAdd_eq_some.mp (orError_eq_pure.mp hstop)
    by_cases hhi : va + P.granule > 2 ^ 48
    · rw [if_pos hhi] at hm
      exact absurd hm throw_ne_pure
    simp only [not_or, ne_eq, not_not] at hmod
    exact ⟨Nat.dvd_of_mod_eq_zero hmod.1, Nat.dvd_of_mod_eq_zero hmod.2, by omega, by omega⟩
  obtain ⟨h1, h2, h3, h4⟩ := hcond
  rw [h.userMapFrame_eq h1 h2 h3 h4] at hm
  refine ⟨h1, h2, h3, h4, ?_⟩
  cases hw : Radix.walk (child P m) root (path P va) with
  | none =>
    rw [hw] at hm
    exact absurd hm throw_ne_pure
  | some s =>
    rw [hw] at hm
    dsimp only at hm
    by_cases hz : word m s (index P va 3) = 0
    · rw [if_neg (not_not.mpr hz)] at hm
      exact ⟨s, rfl, hz, (pure_inj.mp hm).symm⟩
    · rw [if_pos hz] at hm
      exact absurd hm throw_ne_pure

/-- A table is linked only at an address that is accepted, at the gap of its path. -/
lemma userInstallTable_eq_pure (h : Inv P m root live lvl) {va level : ℕ}
    (hm : userInstallTable P root va f m = pure (level, m')) :
    P.granule ∣ f ∧ va < 2 ^ 48 ∧
      ∃ t i, Radix.gap (child P m) root (path P va) = some (t, i) ∧ level = lvl t ∧
        m' = setLink m t i f := by
  have hcond : P.granule ∣ f ∧ va < 2 ^ 48 := by
    unfold userInstallTable at hm
    by_cases hbad : f % P.granule ≠ 0 ∨ va ≥ 2 ^ 48
    · rw [if_pos hbad] at hm
      exact absurd hm throw_ne_pure
    simp only [not_or, ne_eq, not_not] at hbad
    exact ⟨Nat.dvd_of_mod_eq_zero hbad.1, by omega⟩
  rw [h.userInstallTable_eq hcond.1 hcond.2] at hm
  refine ⟨hcond.1, hcond.2, ?_⟩
  cases hg : Radix.gap (child P m) root (path P va) with
  | none =>
    rw [hg] at hm
    exact absurd hm throw_ne_pure
  | some x =>
    rw [hg] at hm
    obtain ⟨rfl, rfl⟩ := Prod.mk.inj (pure_inj.mp hm)
    exact ⟨x.1, x.2, rfl, rfl, rfl⟩

/-- The gap of a path is in an empty entry of a table of the tree. -/
lemma of_gap (h : Inv P m root live lvl) {va : ℕ}
    (hg : Radix.gap (child P m) root (path P va) = some (t, i)) :
    t ∈ live ∧ i < P.entries ∧ lvl t < 3 ∧ (t = root → i < P.rootEntries) ∧ word m t i = 0 ∧
      lvl t + missing P m root va = 3 := by
  obtain ⟨ht, hl, hm⟩ := h.forest.gap_lvl h.root_live (by rw [h.root_lvl]; exact le_rfl) hg
  obtain ⟨hc, hmem⟩ := Radix.of_gap hg
  have hm' : lvl t + missing P m root va = 3 := by
    rw [h.root_lvl] at hm
    exact hm
  have hi : i < P.entries := by
    obtain ⟨level, -, rfl⟩ := List.mem_map.mp hmem
    exact index_lt P va level
  refine ⟨ht, hi, hl, ?_, h.word_eq_zero_of_child ht hl hi hc, hm'⟩
  -- at the root the gap is the first index of the path
  rintro rfl
  have hpath : path P va = index P va 0 :: [1, 2].map (index P va) := rfl
  rw [hpath, Radix.gap] at hg
  cases hc0 : child P m t (index P va 0) with
  | none =>
    rw [hc0] at hg
    obtain ⟨-, rfl⟩ := Prod.mk.inj (Option.some.inj hg)
    exact index_zero_lt P va
  | some s =>
    rw [hc0] at hg
    obtain ⟨hs, hls⟩ := h.forest.child_lvl ht hl hc0
    have hgap := (h.forest.gap_lvl hs (by rw [hls, h.root_lvl]; exact le_rfl) hg).2.2
    have hle := Radix.missing_le (child P m) s ([1, 2].map (index P va))
    omega

end Inv

end UserTables

end K0
