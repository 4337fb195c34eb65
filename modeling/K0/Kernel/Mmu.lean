import K0.Kernel.Basic
import K0.Mm.UserRange

set_option relaxedAutoImplicit false
set_option autoImplicit false

/-!
# What the MMU reads in user tables

The walk of the MMU, which knows nothing of trees, is the lookup in the tree when the tables form
one. So the pages that user code can reach are the pages that the tables stand for.

## Main results

* `K0.UserTables.Inv.mmuLeaf_eq`: the walk of the MMU is the lookup in the tree.
* `K0.UserTables.Stands.mmuLeaf_some`, `K0.UserTables.Stands.of_mmuLeaf`: the MMU finds the pages
  of the page map, and nothing else.
-/

namespace K0

open Word Memory

namespace UserTables

variable {P : Platform} {m : Mem} {root t va w : ℕ} {live : Set ℕ} {lvl : ℕ → ℕ}
  {pm : ℕ → Option (ℕ × UserPerm)}

/-- The walk of the MMU is the walk in the tables of memory. -/
lemma mmuWalk_eq (m : Mem) (va : ℕ) (levels : List ℕ) (ha : P.granule ∣ t) :
    mmuWalk P m va levels t = Radix.walk (child P m) t (levels.map (index P va)) := by
  induction levels generalizing t with
  | nil => rfl
  | cons level rest ih =>
    have hentry : Entry P t (index P va level) := ⟨ha, index_lt P va level⟩
    rw [mmuWalk, List.map_cons, Radix.walk_cons]
    change (if word m t (index P va level) &&& 0b11 = descTable then
      mmuWalk P m va rest (word m t (index P va level) &&& P.addrMask) else none) = _
    by_cases hbits : word m t (index P va level) &&& 0b11 = descTable
    · have hc : child P m t (index P va level) =
          some (word m t (index P va level) &&& P.addrMask) := if_pos ⟨hentry, hbits⟩
      rw [if_pos hbits, hc, Option.bind_some]
      exact ih (and_addrMask_frame P _).1
    · have hc : child P m t (index P va level) = none := if_neg fun e => hbits e.2
      rw [if_neg hbits, hc, Option.bind_none]

/-- A walk ends at an aligned address. -/
lemma mmuWalk_aligned {levels : List ℕ} {s : ℕ} (ha : P.granule ∣ t)
    (hw : mmuWalk P m va levels t = some s) : P.granule ∣ s := by
  induction levels generalizing t with
  | nil => exact Option.some.inj hw ▸ ha
  | cons level rest ih =>
    rw [mmuWalk] at hw
    by_cases hbits : read64 m (t + index P va level * 8) &&& 0b11 = descTable
    · rw [if_pos hbits] at hw
      exact ih (and_addrMask_frame P _).1 hw
    · rw [if_neg hbits] at hw
      cases hw

/-- **The MMU reads the tables of memory.** -/
theorem mmuLeaf_eq (m : Mem) (ha : P.granule ∣ root) (hva : va < 2 ^ 48) :
    mmuLeaf P m root va =
      Radix.lookup (child P m) (leaf P m) root (path P va) (index P va 3) := by
  unfold mmuLeaf Radix.lookup path
  rw [if_pos hva, ← mmuWalk_eq m va _ ha]
  cases hw : mmuWalk P m va [0, 1, 2] root with
  | none => rw [Option.bind_none, Option.bind_none]
  | some s =>
    have hentry : Entry P s (index P va 3) := ⟨mmuWalk_aligned ha hw, index_lt P va 3⟩
    rw [Option.bind_some, Option.bind_some]
    change (if word m s (index P va 3) &&& 0b11 = descPage then some (word m s (index P va 3))
      else none) = _
    unfold leaf
    by_cases hbits : word m s (index P va 3) &&& 0b11 = descPage
    · rw [if_pos hbits, if_pos ⟨hentry, hbits⟩]
    · rw [if_neg hbits, if_neg fun e => hbits e.2]

/-- The translation of an address is what the MMU finds for it. -/
lemma translate_eq_mmuLeaf (m : Mem) (ha : P.granule ∣ root) (hva : va < 2 ^ 48) :
    translate P m root va =
      (mmuLeaf P m root va).map fun w => (w &&& P.addrMask, w &&& (2 ^ 64 - 1 - P.addrMask)) := by
  unfold translate
  rw [mmuLeaf_eq m ha hva]

/-! ### Tables that the MMU reaches -/

/-- A table that the MMU can reach. -/
def TableAt (P : Platform) (m : Mem) (root t : ℕ) : Prop :=
  ∃ va levels, levels <+: [0, 1, 2] ∧ mmuWalk P m va levels root = some t

/-- A table that the MMU can reach at level `n`. -/
def LevelTable (P : Platform) (m : Mem) (root n t : ℕ) : Prop :=
  n ≤ 3 ∧ ∃ va, mmuWalk P m va ([0, 1, 2].take n) root = some t

/-- The entry of level `n` on the path of an address is empty, in the table `t`. -/
def Absent (P : Platform) (m : Mem) (root va n t : ℕ) : Prop :=
  n < 3 ∧ mmuWalk P m va ([0, 1, 2].take n) root = some t ∧ read64 m (t + index P va n * 8) = 0

/-- The first indices of an address. -/
lemma map_take_index (P : Platform) (va n : ℕ) :
    ([0, 1, 2].take n).map (index P va) = (path P va).take n :=
  List.map_take

/-- The index of a level. -/
lemma path_getElem? (P : Platform) {va n i : ℕ} :
    (path P va)[n]? = some i ↔ n < 3 ∧ i = index P va n := by
  unfold path
  rcases n with _ | _ | _ | n <;> simp [eq_comm]

/-- A reachable table is reached at some level. -/
lemma tableAt_iff : TableAt P m root t ↔ ∃ n, LevelTable P m root n t := by
  constructor
  · rintro ⟨va, levels, hpre, hw⟩
    refine ⟨levels.length, hpre.length_le, va, ?_⟩
    rw [← List.prefix_iff_eq_take.mp hpre]
    exact hw
  · rintro ⟨n, -, va, hw⟩
    exact ⟨va, _, List.take_prefix _ _, hw⟩

/-- The indices of a walk select entries. -/
lemma walk_index_lt {s : ℕ} {p : List ℕ} (hw : Radix.walk (child P m) t p = some s) :
    ∀ i ∈ p, i < P.entries := by
  induction p generalizing t with
  | nil => intro i hi; cases hi
  | cons j p ih =>
    rw [Radix.walk_cons] at hw
    obtain ⟨u, hu, hw⟩ := Option.bind_eq_some_iff.mp hw
    intro i hi
    rcases List.mem_cons.mp hi with rfl | hi
    · exact (entry_of_child hu).1.2
    · exact ih hw i hi

namespace Inv

/-- A prefix of the path of an address ends in the tree, at the level of its length. -/
lemma walk_take (h : Inv P m root live lvl) {n : ℕ} (hn : n ≤ 3)
    (hw : mmuWalk P m va ([0, 1, 2].take n) root = some t) : t ∈ live ∧ lvl t = n := by
  have hlen : (([0, 1, 2].take n).map (index P va)).length = n := by
    rw [List.length_map, List.length_take]
    exact Nat.min_eq_left hn
  rw [mmuWalk_eq m va _ (h.aligned _ h.root_live)] at hw
  obtain ⟨ht, hl⟩ := h.forest.walk_lvl h.root_live (by rw [hlen, h.root_lvl]; omega) hw
  rw [hlen, h.root_lvl] at hl
  exact ⟨ht, by omega⟩

/-- **The tables of the tree are the tables that the MMU can reach**, level by level.

**Proof sketch.** Every table of the tree hangs below the root, and every path of entries is the
path of an address. -/
theorem levelTable_iff (h : Inv P m root live lvl) {n : ℕ} :
    LevelTable P m root n t ↔ t ∈ live ∧ lvl t = n := by
  refine ⟨fun ⟨hn, va, hw⟩ => h.walk_take hn hw, ?_⟩
  rintro ⟨ht, rfl⟩
  obtain ⟨p, hw, hlen⟩ := h.forest.exists_walk (r := root)
    (fun s hs hne => h.linked s hs hne) h.root_lvl ht
  have hle := h.lvl_le t ht
  have hpos : 0 < P.entries := by cases P <;> decide
  have hget : ∀ k, p.getD k 0 < P.entries := by
    intro k
    rw [List.getD_eq_getElem?_getD]
    cases hk : p[k]? with
    | none => exact hpos
    | some i => exact walk_index_lt hw i (List.mem_of_getElem? hk)
  have hhead : p.getD 0 0 < P.rootEntries := by
    cases p with
    | nil => exact Nat.two_pow_pos _
    | cons i p =>
      rw [Radix.walk_cons] at hw
      obtain ⟨s, hs, -⟩ := Option.bind_eq_some_iff.mp hw
      obtain ⟨he, hne⟩ := entry_of_child hs
      by_contra hge
      exact hne (h.root_zero i (Nat.le_of_not_lt hge) he.2)
  obtain ⟨va, -, hpath, -⟩ := exists_index P hhead (hget 1) (hget 2) hpos
  refine ⟨hle, va, ?_⟩
  rw [mmuWalk_eq m va _ (h.aligned _ h.root_live), map_take_index, hpath, ← hlen, ← hw]
  congr 1
  rw [← hlen] at hle
  rcases p with _ | ⟨i, _ | ⟨j, _ | ⟨k, _ | ⟨l, p⟩⟩⟩⟩
  · rfl
  · rfl
  · rfl
  · rfl
  · simp only [List.length_cons] at hle
    omega

/-- A table that the MMU can reach is in the tree. -/
lemma mem_of_tableAt (h : Inv P m root live lvl) (ht : TableAt P m root t) : t ∈ live := by
  obtain ⟨n, hn⟩ := tableAt_iff.mp ht
  exact (h.levelTable_iff.mp hn).1

/-- A table of the tree can be reached. -/
lemma tableAt_of_mem (h : Inv P m root live lvl) (ht : t ∈ live) : TableAt P m root t :=
  tableAt_iff.mpr ⟨lvl t, h.levelTable_iff.mpr ⟨ht, rfl⟩⟩

/-- The gap of a path is its empty entry. -/
lemma gap_eq_some_iff (h : Inv P m root live lvl) {i : ℕ} :
    Radix.gap (child P m) root (path P va) = some (t, i) ↔
      ∃ n, Absent P m root va n t ∧ i = index P va n := by
  rw [Radix.gap_eq_some_iff]
  refine exists_congr fun n => ?_
  rw [path_getElem?, ← map_take_index, ← mmuWalk_eq m va _ (h.aligned _ h.root_live)]
  constructor
  · rintro ⟨hw, ⟨hn, rfl⟩, hc⟩
    obtain ⟨ht, hl⟩ := h.walk_take hn.le hw
    exact ⟨⟨hn, hw, h.word_eq_zero_of_child ht (by omega) (index_lt P va n) hc⟩, rfl⟩
  · rintro ⟨⟨hn, hw, hz⟩, rfl⟩
    exact ⟨hw, ⟨hn, rfl⟩, child_of_zero fun _ => hz⟩

/-- A path is complete or has an empty entry. -/
lemma walk_eq_none_iff (h : Inv P m root live lvl) :
    Radix.walk (child P m) root (path P va) = none ↔ ∃ n t, Absent P m root va n t := by
  have hmiss : Radix.walk (child P m) root (path P va) = none ↔
      Radix.gap (child P m) root (path P va) ≠ none := by
    rw [Ne, Radix.gap_eq_none_iff, Radix.missing_eq_zero_iff]
    cases Radix.walk (child P m) root (path P va) <;> simp
  rw [hmiss]
  constructor
  · intro hne
    obtain ⟨⟨t, i⟩, hg⟩ := Option.ne_none_iff_exists'.mp hne
    obtain ⟨n, hn, -⟩ := h.gap_eq_some_iff.mp hg
    exact ⟨n, t, hn⟩
  · rintro ⟨n, t, hn⟩ hg
    rw [h.gap_eq_some_iff.mpr ⟨n, hn, rfl⟩] at hg
    cases hg

end Inv

/-! ### Page descriptors -/

/-- The permission bits of a descriptor are outside its address. -/
lemma el0Writable_iff_attrs :
    el0Writable w ↔ el0Writable (w &&& (2 ^ 64 - 1 - P.addrMask)) := by
  have hmask : (2 ^ 64 - 1 - P.addrMask) &&& (0b11 <<< 6) = 0b11 <<< 6 := by cases P <;> decide
  unfold el0Writable
  rw [Nat.and_assoc, hmask]

/-- The permission bits of a descriptor are outside its address. -/
lemma el0Executable_iff_attrs :
    el0Executable w ↔ el0Executable (w &&& (2 ^ 64 - 1 - P.addrMask)) := by
  have hmask : (2 ^ 64 - 1 - P.addrMask) &&& uxn = uxn := by cases P <;> decide
  unfold el0Executable
  rw [Nat.and_assoc, hmask]

/-- Only `rwUser` pages are writable at EL0. -/
lemma el0Writable_attrs (perm : UserPerm) : el0Writable perm.attrs ↔ perm = .rwUser := by
  cases perm <;> decide

/-- Only `textUser` pages are executable at EL0. -/
lemma el0Executable_attrs (perm : UserPerm) : el0Executable perm.attrs ↔ perm = .textUser := by
  cases perm <;> decide

/-- A page descriptor with the frame and the permission of a page. -/
structure Descr (P : Platform) (w : ℕ) (x : ℕ × UserPerm) : Prop where
  frame : w &&& P.addrMask = x.1
  writable : el0Writable w ↔ x.2 = .rwUser
  executable : el0Executable w ↔ x.2 = .textUser

/-- The MMU finds exactly the pages of the page map. -/
theorem Stands.mmuLeaf_some {x : ℕ × UserPerm} (hst : Stands P m root pm)
    (h : Inv P m root live lvl) (hva : va < 2 ^ 48) (hx : pm (pageKey P va) = some x) :
    ∃ w, mmuLeaf P m root va = some w ∧ Descr P w x := by
  have htr := translate_eq_mmuLeaf m (h.aligned _ h.root_live) hva
  rw [hst va, hx] at htr
  obtain ⟨w, hw, he⟩ := Option.map_eq_some_iff.mp htr.symm
  obtain ⟨hpa, hattrs⟩ := Prod.mk.inj he
  refine ⟨w, hw, hpa, ?_, ?_⟩
  · rw [el0Writable_iff_attrs (P := P), hattrs, el0Writable_attrs]
  · rw [el0Executable_iff_attrs (P := P), hattrs, el0Executable_attrs]

/-- The MMU finds nothing outside the page map. -/
theorem Stands.mmuLeaf_none (hst : Stands P m root pm) (h : Inv P m root live lvl)
    (hx : pm (pageKey P va) = none) : mmuLeaf P m root va = none := by
  by_cases hva : va < 2 ^ 48
  · have htr := translate_eq_mmuLeaf m (h.aligned _ h.root_live) hva
    rw [hst va, hx] at htr
    exact Option.map_eq_none_iff.mp htr.symm
  · exact if_neg hva

/-- What the MMU finds is a page of the page map. -/
theorem Stands.of_mmuLeaf (hst : Stands P m root pm) (h : Inv P m root live lvl)
    (hw : mmuLeaf P m root va = some w) :
    va < 2 ^ 48 ∧ ∃ x, pm (pageKey P va) = some x ∧ Descr P w x := by
  have hva : va < 2 ^ 48 := by
    by_contra hge
    unfold mmuLeaf at hw
    rw [if_neg hge] at hw
    cases hw
  refine ⟨hva, ?_⟩
  cases hx : pm (pageKey P va) with
  | none =>
    rw [hst.mmuLeaf_none h hx] at hw
    cases hw
  | some x =>
    obtain ⟨w', hw', hdescr⟩ := hst.mmuLeaf_some h hva hx
    obtain rfl : w = w' := Option.some.inj (hw.symm.trans hw')
    exact ⟨x, rfl, hdescr⟩

/-- A descriptor that the MMU finds is an entry of a table of the last level. -/
lemma entry_of_mmuLeaf (hw : mmuLeaf P m root va = some w) :
    ∃ t, mmuWalk P m va [0, 1, 2] root = some t ∧ word m t (index P va 3) = w ∧ w ≠ 0 := by
  unfold mmuLeaf at hw
  by_cases hva : va < 2 ^ 48
  · rw [if_pos hva] at hw
    obtain ⟨t, ht, hw⟩ := Option.bind_eq_some_iff.mp hw
    refine ⟨t, ht, ?_⟩
    dsimp only at hw
    by_cases hbits : read64 m (t + index P va 3 * 8) &&& 0b11 = descPage
    · rw [if_pos hbits] at hw
      obtain rfl := Option.some.inj hw
      exact ⟨rfl, ne_zero_of_and_three hbits⟩
    · rw [if_neg hbits] at hw
      cases hw
  · rw [if_neg hva] at hw
    cases hw

/-- The MMU finds the entries of a table of the last level, each through an address. -/
lemma Inv.mmuLeaf_of_entry (h : Inv P m root live lvl) {j : ℕ} (ht : LevelTable P m root 3 t)
    (hj : j < P.entries) (hne : word m t j ≠ 0) :
    ∃ va < 2 ^ 48, mmuLeaf P m root va = some (word m t j) ∧
      mmuWalk P m va [0, 1, 2] root = some t ∧ index P va 3 = j := by
  have hroot := h.aligned _ h.root_live
  obtain ⟨hlive, hlvl⟩ := h.levelTable_iff.mp ht
  obtain ⟨-, va₀, hw₀⟩ := ht
  obtain ⟨va, hva, hpath, hidx⟩ := exists_index P (index_zero_lt P va₀) (index_lt P va₀ 1)
    (index_lt P va₀ 2) hj
  have hw : Radix.walk (child P m) root (path P va) = some t := by
    rw [hpath]
    exact (mmuWalk_eq m va₀ _ hroot).symm.trans hw₀
  refine ⟨va, hva, ?_, (mmuWalk_eq m va _ hroot).trans hw, hidx⟩
  rw [mmuLeaf_eq m hroot hva, Radix.lookup, hw, Option.bind_some, hidx]
  obtain ⟨pa, perm, -, -, hdesc⟩ := h.page t hlive j hj hlvl hne
  rw [leaf_of_page (h.entry hlive hj) hdesc, hdesc]

/-- What the MMU finds for a page of the page map, in full. -/
lemma Stands.mmuLeaf_desc {x : ℕ × UserPerm} (hst : Stands P m root pm)
    (h : Inv P m root live lvl) (hw : mmuLeaf P m root va = some w)
    (hx : pm (pageKey P va) = some x) : w = x.1 ||| x.2.attrs ∧ P.granule ∣ x.1 ∧ x.1 < 2 ^ 48 := by
  obtain ⟨hva, -⟩ := hst.of_mmuLeaf h hw
  have htr := translate_eq_mmuLeaf m (h.aligned _ h.root_live) hva
  rw [hst va, hx, hw] at htr
  obtain ⟨hpa, hattrs⟩ := Prod.mk.inj (Option.some.inj htr)
  obtain ⟨t, ht, rfl, hne⟩ := entry_of_mmuLeaf hw
  obtain ⟨hlive, hlvl⟩ := h.walk_take le_rfl ht
  obtain ⟨pa, perm, ha, hlt, hdesc⟩ := h.page t hlive _ (index_lt P va 3) hlvl hne
  obtain ⟨-, hm, h64⟩ := perm.attrs_spec (P := P)
  rw [hdesc] at hpa hattrs ⊢
  rw [desc_and_addrMask ha hlt hm] at hpa
  rw [desc_and_attrs ha hlt h64 hm] at hattrs
  rw [hpa, hattrs]
  exact ⟨rfl, ha, hlt⟩

/-- What the MMU finds, by the page map. -/
theorem Stands.mmuLeaf_eq (hst : Stands P m root pm) (h : Inv P m root live lvl) (va : ℕ) :
    mmuLeaf P m root va =
      if va < 2 ^ 48 then (pm (pageKey P va)).map fun x => x.1 ||| x.2.attrs else none := by
  split_ifs with hva
  · cases hx : pm (pageKey P va) with
    | none => exact hst.mmuLeaf_none h hx
    | some x =>
      obtain ⟨w, hw, -⟩ := hst.mmuLeaf_some h hva hx
      obtain ⟨rfl, -⟩ := hst.mmuLeaf_desc h hw hx
      exact hw
  · exact if_neg hva

end UserTables

end K0
