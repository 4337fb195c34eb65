import K0.Boot.Space
import K0.Kernel.Tables

set_option relaxedAutoImplicit false
set_option autoImplicit false

/-!
# The user tables in every run

The invariant that couples the user page tables in memory with the capabilities. The tables are a
tree whose tables are those of the boot and the installed page tables; its pages are those of the
boot and the mapped frames; no frame is mapped twice; and a page table that is not installed yet is
empty. Objects lie outside the boot window and apart from each other, so user code, which writes
through the pages, and the kernel, which clears new objects, never touch a table.

A step only adds to the tables: what is mapped stays mapped. Apart from the entries that it adds, it
changes bytes of writable pages and of new objects.

## Main definitions

* `K0.Kernel.Paged`: the invariant.
* `K0.Kernel.Extends`: what a run does to memory and to the user tables.
* `K0.Kernel.Adds`: what one step adds to the pages and to the objects.
* `K0.Kernel.Untouched`: the pages keep their contents.

## Main results

* `K0.Kernel.Paged.handled`, `K0.Kernel.Paged.step`: it is kept.
* `K0.Kernel.paged_of_reaches`: it holds in every run.
-/

namespace K0

open Word Memory Outcome UserTables

namespace Kernel

variable {P : Platform} {I : Image P} {i : Machine} {b : Stages I i} {stack : ℕ} {k k' : Kernel}
  {live : Set ℕ} {lvl : ℕ → ℕ} {pm : ℕ → Option (ℕ × UserPerm)}

/-- The user tables and the capabilities agree. The tables `live` form a tree that stands for the
page map `pm`. -/
structure Paged (b : Stages I i) (stack : ℕ) (k : Kernel) (live : Set ℕ) (lvl : ℕ → ℕ)
    (pm : ℕ → Option (ℕ × UserPerm)) : Prop where
  tree : UserTables.Inv P k.mem b.userRoot live lvl
  stands : Stands P k.mem b.userRoot pm
  tables : ∀ t, t ∈ live ↔ b.BootTable stack t ∨ ∃ j, k.cnode.cap j = some (.pageTable t true)
  pages : ∀ key x, pm key = some x → b.BootPage stack key x ∨
    (x.2 ≠ .textUser ∧ ∃ j, k.cnode.cap j = some (.frame x.1 true))
  inj : ∀ key key' x x', pm key = some x → pm key' = some x' → x.1 = x'.1 → key = key'
  mapped : ∀ p, (∃ j, k.cnode.cap j = some (.frame p true)) → ∃ key perm, pm key = some (p, perm)
  idle : ∀ j t, k.cnode.cap j = some (.pageTable t false) →
    ∀ a, t ≤ a → a < t + P.granule → k.mem a = 0
  range : ∀ key x, pm key = some x → 0 < key ∧ key * P.granule < 2 ^ 48

/-- What a run does to memory and to the user tables. Tables with their entries, pages and objects
stay, and a byte changes only in a table, in a writable page or in a new object. -/
structure Extends (P : Platform) (c c' : CNode) (m m' : Mem) (live live' : Set ℕ)
    (pm pm' : ℕ → Option (ℕ × UserPerm)) : Prop where
  tables : live ⊆ live'
  entries : ∀ t ∈ live, ∀ n < P.entries, word m t n ≠ 0 → word m' t n = word m t n
  pages : ∀ key x, pm key = some x → pm' key = some x
  objects : c.objects ⊆ c'.objects
  bytes : ∀ a, m' a ≠ m a → (∃ t ∈ live', t ≤ a ∧ a < t + P.granule) ∨
    (∃ key x, pm' key = some x ∧ x.2 = .rwUser ∧ x.1 ≤ a ∧ a < x.1 + P.granule) ∨
    ∃ p ∈ c'.objects, p ∉ c.objects ∧ p ≤ a ∧ a < p + P.granule

/-- What one step adds: a new page has a frame that was not mapped, and a new object is cleared. -/
structure Adds (P : Platform) (c c' : CNode) (m' : Mem) (pm pm' : ℕ → Option (ℕ × UserPerm)) :
    Prop where
  pages : ∀ key x, pm key = none → pm' key = some x → ∃ j, c.cap j = some (.frame x.1 false)
  objects : ∀ p ∈ c'.objects, p ∉ c.objects → ∀ a, p ≤ a → a < p + P.granule → m' a = 0

/-- The pages keep their contents. -/
def Untouched (P : Platform) (m m' : Mem) (pm : ℕ → Option (ℕ × UserPerm)) : Prop :=
  ∀ key x, pm key = some x → ∀ a, x.1 ≤ a → a < x.1 + P.granule → m' a = m a

/-- The accounts of a state in a run from the handoff. -/
abbrev Accounted (b : Stages I i) (k : Kernel) : Prop :=
  Accounts I b.info.memory (fixedReserved I.span b.info.dtb b.window ++ b.info.reserved) b.userRoot
    k.cnode

/-! ### Objects -/

section Objects

variable (hacc : Accounted b k) {j j' p p' : ℕ} {v v' : Cap}
include hacc

/-- An object is an aligned granule of the 48-bit space. -/
lemma Accounted.object_frame (hj : k.cnode.cap j = some v) (hp : v.object? = some p) :
    P.granule ∣ p ∧ p + P.granule ≤ 2 ^ 48 := by
  have hdvd := (hacc.ledger.source j v p hj hp).1
  have hlt := hacc.high j v p hj hp
  have hoff : Abi.kernelVaOffset + 2 ^ 48 = 2 ^ 64 := by decide
  exact ⟨hdvd, add_granule_le hdvd P.granule_dvd (by omega)⟩

/-- An object lies outside the boot window. -/
lemma Accounted.object_outside (hj : k.cnode.cap j = some v) (hp : v.object? = some p) :
    p + P.granule ≤ b.window.start ∨ b.window.stop ≤ p := by
  obtain ⟨-, -, -, -, -, hfit⟩ := b.window_spec
  have hsep := hacc.ledger.object_clear hj hp
    (r := ⟨b.window.start, b.window.stop - b.window.start⟩) (by simp [fixedReserved])
  unfold Word.Sep at hsep
  dsimp only at hsep
  omega

/-- Two slots do not hold the same object. -/
lemma Accounted.slot_eq (hj : k.cnode.cap j = some v) (hj' : k.cnode.cap j' = some v')
    (hp : v.object? = some p) (hp' : v'.object? = some p) : j = j' := by
  by_contra hne
  have hsep := hacc.ledger.distinct j j' v v' p p hne hj hj' hp hp'
  have hg := P.granule_pos
  unfold Word.Sep at hsep
  omega

/-- The next granule of an untyped meets no frame of the boot window and no object. -/
lemma Accounted.next_apart {slot base size used f : ℕ}
    (hcap : k.cnode.cap slot = some (.untyped base size used))
    (hleft : GranuleLeft P.granule base size used)
    (hf : (b.window.start ≤ f ∧ f + P.granule ≤ b.window.stop) ∨
      ∃ j v, k.cnode.cap j = some v ∧ v.object? = some f) :
    f + P.granule ≤ roundUp P.granule (base + used) ∨
      roundUp P.granule (base + used) + P.granule ≤ f := by
  have hg := P.granule_pos
  obtain ⟨-, -, -, -, -, hfit⟩ := b.window_spec
  have hroom := (granuleLeft_iff hg).mp hleft
  have hle : base + used ≤ roundUp P.granule (base + used) := le_roundUp hg
  have hwin := hacc.ledger.clear slot base size used hcap
    ⟨b.window.start, b.window.stop - b.window.start⟩ (by simp [fixedReserved])
  unfold Word.Sep at hwin
  dsimp only at hwin
  rcases hf with ⟨h1, h2⟩ | ⟨j, v, hj, hv⟩
  · omega
  · exact hacc.ledger.sep_next hg hcap hleft hj hv

end Objects

/-! ### Runs -/

section Extends

variable {c c' c'' : CNode} {m m' m'' : Mem} {live' live'' : Set ℕ}
  {pm' pm'' : ℕ → Option (ℕ × UserPerm)}

/-- No step. -/
lemma Extends.refl (c : CNode) (m : Mem) (live : Set ℕ) (pm : ℕ → Option (ℕ × UserPerm)) :
    Extends P c c m m live live pm pm :=
  ⟨subset_rfl, fun _ _ _ _ _ => rfl, fun _ _ hx => hx, subset_rfl, fun _ ha => absurd rfl ha⟩

/-- One run after the other. -/
lemma Extends.trans (h : Extends P c c' m m' live live' pm pm')
    (h' : Extends P c' c'' m' m'' live' live'' pm' pm'') :
    Extends P c c'' m m'' live live'' pm pm'' := by
  refine ⟨h.tables.trans h'.tables, fun t ht n hn hne => ?_,
    fun key x hx => h'.pages key x (h.pages key x hx), h.objects.trans h'.objects, fun a ha => ?_⟩
  · have hkeep := h.entries t ht n hn hne
    exact (h'.entries t (h.tables ht) n hn (hkeep ▸ hne)).trans hkeep
  by_cases hlast : m'' a = m' a
  · -- the byte has changed before
    rcases h.bytes a (hlast ▸ ha) with ⟨t, ht, hin⟩ | ⟨key, x, hx, hin⟩ | ⟨p, hp, hnew, hin⟩
    · exact .inl ⟨t, h'.tables ht, hin⟩
    · exact .inr (.inl ⟨key, x, h'.pages key x hx, hin⟩)
    · exact .inr (.inr ⟨p, h'.objects hp, hnew, hin⟩)
  · rcases h'.bytes a hlast with ht | hx | ⟨p, hp, hnew, hin⟩
    · exact .inl ht
    · exact .inr (.inl hx)
    · exact .inr (.inr ⟨p, hp, fun hold => hnew (h.objects hold), hin⟩)

/-- Nothing is added to the same pages and objects. -/
lemma Adds.refl (c : CNode) (m : Mem) (pm : ℕ → Option (ℕ × UserPerm)) : Adds P c c m pm pm := by
  refine ⟨fun key x hnone hx => ?_, fun p hp hnew => absurd hp hnew⟩
  rw [hnone] at hx
  cases hx

end Extends

namespace Paged

/-- An object that is not an installed page table is not in the tree. -/
lemma notMem_of_object (h : Paged b stack k live lvl pm) (hacc : Accounted b k)
    (hload : Loaded P I.rootTask b.biFrame b.framesBi b.framesRoot b.memBi b.memRoot b.userRoot
      stack) {j t : ℕ} {v : Cap} (hj : k.cnode.cap j = some v) (hp : v.object? = some t)
    (hv : v ≠ .pageTable t true) : t ∉ live := by
  intro ht
  rcases (h.tables t).mp ht with hboot | ⟨j', hj'⟩
  · obtain ⟨-, h1, h2, -⟩ := hboot.inside hload
    have := hacc.object_outside hj hp
    have := P.granule_pos
    omega
  · obtain rfl := hacc.slot_eq hj hj' hp rfl
    exact hv (Option.some.inj (hj.symm.trans hj'))

/-- What leaves the tables alone, and the capabilities of installed tables and mapped frames, and
keeps the other page tables empty, keeps the invariant. -/
lemma of_frame (h : Paged b stack k live lvl pm)
    (hlive : ∀ t ∈ live, ∀ a, t ≤ a → a < t + P.granule → k'.mem a = k.mem a)
    (htab : ∀ t, (∃ j, k'.cnode.cap j = some (.pageTable t true)) ↔
      ∃ j, k.cnode.cap j = some (.pageTable t true))
    (hfr : ∀ p, (∃ j, k'.cnode.cap j = some (.frame p true)) ↔
      ∃ j, k.cnode.cap j = some (.frame p true))
    (hidle : ∀ j t, k'.cnode.cap j = some (.pageTable t false) →
      ∀ a, t ≤ a → a < t + P.granule → k'.mem a = 0) : Paged b stack k' live lvl pm := by
  have hword : ∀ t ∈ live, ∀ j < P.entries, word k'.mem t j = word k.mem t j :=
    fun t ht j hj => word_congr (hlive t ht) hj
  refine ⟨h.tree.congr hword, fun va => ?_, fun t => ?_, fun key x hx => ?_, h.inj, fun p hp => ?_,
    hidle, h.range⟩
  · rw [h.tree.translate_congr hword]
    exact h.stands va
  · rw [htab]
    exact h.tables t
  · rw [hfr]
    exact h.pages key x hx
  · exact h.mapped p ((hfr p).mp hp)

/-- The invariant depends on memory and the capabilities only. -/
lemma congr (h : Paged b stack k live lvl pm) (hm : k'.mem = k.mem) (hc : k'.cnode = k.cnode) :
    Paged b stack k' live lvl pm := by
  refine h.of_frame (fun t _ a _ _ => by rw [hm]) (fun t => by rw [hc]) (fun p => by rw [hc]) ?_
  rw [hm, hc]
  exact h.idle

variable (hload : Loaded P I.rootTask b.biFrame b.framesBi b.framesRoot b.memBi b.memRoot
  b.userRoot stack)
include hload

omit hload in
/-- Writing into a table of the tree leaves every other frame alone. -/
lemma write_kept (h : Paged b stack k live lvl pm) {t n f a : ℕ} (ht : t ∈ live)
    (hn : n < P.entries) (hf : P.granule ∣ f) (hnot : f ∉ live) (w : ℕ) (h1 : f ≤ a)
    (h2 : a < f + P.granule) : write64 k.mem (t + n * 8) w a = k.mem a := by
  have hsep := frame_sep hf (h.tree.aligned t ht) fun e => hnot (e ▸ ht)
  have hle := entry_le hn
  exact if_neg (by omega)

/-- Writing into a table of the tree keeps the page tables that are not installed empty. -/
lemma idle_write (h : Paged b stack k live lvl pm) (hacc : Accounted b k) {t n w : ℕ}
    (ht : t ∈ live) (hn : n < P.entries) {j f : ℕ}
    (hj : k.cnode.cap j = some (.pageTable f false)) {a : ℕ} (h1 : f ≤ a)
    (h2 : a < f + P.granule) : write64 k.mem (t + n * 8) w a = 0 := by
  rw [h.write_kept ht hn (hacc.object_frame hj rfl).1
    (h.notMem_of_object hacc hload hj rfl (by simp)) w h1 h2]
  exact h.idle j f hj a h1 h2

/-- No page has a frame that is not mapped. -/
lemma page_ne (h : Paged b stack k live lvl pm) (hrt : I.rootTask.Laid) (hacc : Accounted b k)
    {j base : ℕ} (hc : k.cnode.cap j = some (.frame base false)) {key : ℕ} {x : ℕ × UserPerm}
    (hx : pm key = some x) : x.1 ≠ base := by
  have hg := P.granule_pos
  rintro rfl
  rcases h.pages key x hx with hboot | ⟨-, j', hj'⟩
  · obtain ⟨-, h1, h2, -⟩ := hboot.inside hload hrt
    have := hacc.object_outside hc rfl
    omega
  · obtain rfl := hacc.slot_eq hc hj' rfl rfl
    rw [hc] at hj'
    cases hj'

omit hload in
/-- A frame is mapped where no page was. -/
lemma page_free (h : Paged b stack k live lvl pm) {base va : ℕ} {perm : UserPerm} {m : Mem}
    (hm : userMapFrame P b.userRoot va base perm k.mem = pure m) : pm (pageKey P va) = none := by
  obtain ⟨-, -, -, -, s, hw, hz, -⟩ := h.tree.userMapFrame_eq_pure hm
  have htr := (h.tree.translate_eq_none_iff hw).mpr hz
  rw [h.stands va] at htr
  exact Option.map_eq_none_iff.mp htr

/-- **Mapping a frame** adds a page to the page map.

**Proof sketch.** The frame is an object, so it is no boot frame, and its capability is the only
one that names it; since it says that the frame is not mapped, no page has the frame. -/
theorem mapFrame (h : Paged b stack k live lvl pm) (hrt : I.rootTask.Laid) (hacc : Accounted b k)
    {j base va : ℕ} {perm : UserPerm} {m : Mem} (hc : k.cnode.cap j = some (.frame base false))
    (hp : perm ≠ .textUser) (hm : userMapFrame P b.userRoot va base perm k.mem = pure m) :
    Paged b stack { k with mem := m, cnode := k.cnode.set j (.frame base true) } live lvl
      (Function.update pm (pageKey P va) (some (base, perm))) := by
  have hnone := h.page_free hm
  obtain ⟨hva, hpa, hlo, hhi, s, hw, hz, rfl⟩ := h.tree.userMapFrame_eq_pure hm
  obtain ⟨hs, hl⟩ := h.tree.walk_lvl hw
  have hg := P.granule_pos
  have hbase : base < 2 ^ 48 := by
    have := (hacc.object_frame hc rfl).2
    omega
  have hcap : ∀ j', (k.cnode.set j (.frame base true)).cap j' =
      if j' = j then some (.frame base true) else k.cnode.cap j' :=
    fun j' => CNode.cap_set (CNode.lt_used_of_cap hc)
  have hfresh : ∀ key x, pm key = some x → x.1 ≠ base :=
    fun key x hx => h.page_ne hload hrt hacc hc hx
  have hpage : ∀ {key x}, Function.update pm (pageKey P va) (some (base, perm)) key = some x →
      (key = pageKey P va ∧ x = (base, perm)) ∨ pm key = some x := by
    intro key x hx
    by_cases e : key = pageKey P va
    · rw [e, Function.update_self] at hx
      exact .inl ⟨e, (Option.some.inj hx).symm⟩
    · rw [Function.update_of_ne e] at hx
      exact .inr hx
  refine ⟨h.tree.writePage hs hl (index_lt P va 3) hpa hbase perm, fun va' => ?_, fun t => ?_,
    fun key x hx => ?_, fun key key' x x' hx hx' he => ?_, fun p hp => ?_,
    fun j' t hj' a h1 h2 => ?_, fun key x hx => ?_⟩
  · rw [h.tree.translate_writePage hw hpa hbase perm, h.stands va']
    by_cases e : pageKey P va' = pageKey P va
    · rw [if_pos e, e, Function.update_self, Option.map_some]
    · rw [if_neg e, Function.update_of_ne e]
  · rw [h.tables t]
    refine or_congr Iff.rfl (exists_congr fun j' => ?_)
    rw [hcap]
    by_cases e : j' = j
    · subst e
      rw [if_pos rfl, hc]
      simp
    · rw [if_neg e]
  · rcases hpage hx with ⟨rfl, rfl⟩ | hx
    · exact .inr ⟨hp, j, by rw [hcap, if_pos rfl]⟩
    · refine (h.pages key x hx).imp_right (And.imp_right ?_)
      rintro ⟨j', hj'⟩
      refine ⟨j', ?_⟩
      rw [hcap, if_neg, hj']
      rintro rfl
      rw [hc] at hj'
      cases hj'
  · rcases hpage hx with ⟨rfl, rfl⟩ | hx <;> rcases hpage hx' with ⟨rfl, rfl⟩ | hx'
    · rfl
    · exact absurd he.symm (hfresh _ _ hx')
    · exact absurd he (hfresh _ _ hx)
    · exact h.inj key key' x x' hx hx' he
  · obtain ⟨j', hj'⟩ := hp
    rw [hcap] at hj'
    by_cases e : j' = j
    · rw [if_pos e] at hj'
      obtain rfl : base = p := by
        have := Option.some.inj hj'
        cases this
        rfl
      exact ⟨pageKey P va, perm, Function.update_self _ _ _⟩
    · rw [if_neg e] at hj'
      obtain ⟨key, perm', hx⟩ := h.mapped p ⟨j', hj'⟩
      refine ⟨key, perm', ?_⟩
      rw [Function.update_of_ne, hx]
      rintro rfl
      rw [hnone] at hx
      cases hx
  · rw [hcap] at hj'
    by_cases e : j' = j
    · rw [if_pos e] at hj'
      cases hj'
    · rw [if_neg e] at hj'
      exact h.idle_write hload hacc hs (index_lt P va 3) hj' h1 h2
  · rcases hpage hx with ⟨rfl, rfl⟩ | hx
    · have hkey : pageKey P va = va / P.granule := pageKey_of_lt (by omega)
      have hmul := Nat.div_mul_le_self va P.granule
      rw [hkey]
      exact ⟨Nat.div_pos hlo hg, by omega⟩
    · exact h.range key x hx

omit hload in
/-- The entries of an empty frame. -/
lemma word_of_zero {m : Mem} {t n : ℕ} (hz : ∀ a, t ≤ a → a < t + P.granule → m a = 0)
    (hn : n < P.entries) : word m t n = 0 := by
  have hle := entry_le hn
  have hread : read64 m (t + n * 8) = read64 (fun _ => 0) (t + n * 8) :=
    read64_congr fun a h1 h2 => hz a (by omega) (by omega)
  unfold word
  rw [hread]
  simp [read64]

/-- **Installing a page table** adds it to the tree and changes no page. -/
theorem mapTable (h : Paged b stack k live lvl pm) (hacc : Accounted b k)
    {j base va level : ℕ} {m : Mem} (hc : k.cnode.cap j = some (.pageTable base false))
    (hm : userInstallTable P b.userRoot va base k.mem = pure (level, m)) :
    ∃ lvl', Paged b stack { k with mem := m, cnode := k.cnode.set j (.pageTable base true) }
      (insert base live) lvl' pm := by
  obtain ⟨ha, hva, t, n, hgap, -, rfl⟩ := h.tree.userInstallTable_eq_pure hm
  obtain ⟨ht, hn, hl, hroot, hz, -⟩ := h.tree.of_gap hgap
  obtain ⟨-, hfits⟩ := hacc.object_frame hc rfl
  have hnot : base ∉ live := h.notMem_of_object hacc hload hc rfl (by simp)
  have hfresh : Fresh P k.mem live base :=
    ⟨ha, hfits, hnot, fun i hi => word_of_zero (h.idle j base hc) hi⟩
  have hcap : ∀ j', (k.cnode.set j (.pageTable base true)).cap j' =
      if j' = j then some (.pageTable base true) else k.cnode.cap j' :=
    fun j' => CNode.cap_set (CNode.lt_used_of_cap hc)
  have hframe : ∀ p, (∃ j', (k.cnode.set j (.pageTable base true)).cap j' = some (.frame p true)) ↔
      ∃ j', k.cnode.cap j' = some (.frame p true) := by
    refine fun p => exists_congr fun j' => ?_
    rw [hcap]
    by_cases e : j' = j
    · subst e
      rw [if_pos rfl, hc]
      simp
    · rw [if_neg e]
  refine ⟨_, h.tree.link ht hn hl hroot hz hfresh, fun va' => ?_, fun t' => ?_, fun key x hx => ?_,
    h.inj, fun p hp => h.mapped p ((hframe p).mp hp), fun j' t' hj' a h1 h2 => ?_, h.range⟩
  · have hne : base ≠ t := fun e => hnot (e ▸ ht)
    rw [h.tree.translate_link ht hn hl hz hne ha hfits hfresh.zero]
    exact h.stands va'
  · rw [Set.mem_insert_iff, h.tables t']
    constructor
    · rintro (rfl | hboot | ⟨j', hj'⟩)
      · exact .inr ⟨j, by rw [hcap, if_pos rfl]⟩
      · exact .inl hboot
      · refine .inr ⟨j', ?_⟩
        rw [hcap, if_neg, hj']
        rintro rfl
        rw [hc] at hj'
        cases hj'
    · rintro (hboot | ⟨j', hj'⟩)
      · exact .inr (.inl hboot)
      · rw [hcap] at hj'
        by_cases e : j' = j
        · rw [if_pos e] at hj'
          cases hj'
          exact .inl rfl
        · rw [if_neg e] at hj'
          exact .inr (.inr ⟨j', hj'⟩)
  · rw [hframe]
    exact h.pages key x hx
  · rw [hcap] at hj'
    by_cases e : j' = j
    · rw [if_pos e] at hj'
      cases hj'
    · rw [if_neg e] at hj'
      exact h.idle_write hload hacc ht hn hj' h1 h2

/-- A table is a frame of the boot window or an object. -/
lemma table_place (h : Paged b stack k live lvl pm) {t : ℕ} (ht : t ∈ live) :
    (b.window.start ≤ t ∧ t + P.granule ≤ b.window.stop) ∨
      ∃ j v, k.cnode.cap j = some v ∧ v.object? = some t := by
  rcases (h.tables t).mp ht with hboot | ⟨j, hj⟩
  · obtain ⟨-, h1, h2, -⟩ := hboot.inside hload
    exact .inl ⟨by omega, h2⟩
  · exact .inr ⟨j, _, hj, rfl⟩

/-- And so is the frame of a page. -/
lemma page_place (h : Paged b stack k live lvl pm) (hrt : I.rootTask.Laid) {key : ℕ}
    {x : ℕ × UserPerm} (hx : pm key = some x) :
    (b.window.start ≤ x.1 ∧ x.1 + P.granule ≤ b.window.stop) ∨
      ∃ j v, k.cnode.cap j = some v ∧ v.object? = some x.1 := by
  rcases h.pages key x hx with hboot | ⟨-, j, hj⟩
  · obtain ⟨-, h1, h2, -⟩ := hboot.inside hload hrt
    exact .inl ⟨h1, h2⟩
  · exact .inr ⟨j, _, hj, rfl⟩

/-- Carving an object keeps the invariant: the new granule is outside the boot window and apart
from the objects, and the new object is neither mapped nor installed. -/
theorem carve (h : Paged b stack k live lvl pm) (hacc : Accounted b k)
    {slot base size used : ℕ} {kind : ObjKind} {d : CNode}
    (hcap : k.cnode.cap slot = some (.untyped base size used))
    (hleft : GranuleLeft P.granule base size used)
    (hd : k.cnode.retyped d slot base size P.granule (roundUp P.granule (base + used)) kind)
    (hc : k'.cnode = d) (hm : k'.mem = clear k.mem (roundUp P.granule (base + used)) P.granule) :
    Paged b stack k' live lvl pm := by
  have hcaps : ∀ {v : Cap}, v.object?.isSome → ∀ j', k'.cnode.cap j' = some v ↔
      k.cnode.cap j' = some v ∨
        (j' = k.cnode.used ∧ v = kind.cap (roundUp P.granule (base + used))) := by
    intro v hv j'
    rw [hc]
    exact CNode.cap_retyped_object hcap hd hv j'
  have hold : ∀ {v : Cap}, v.object?.isSome → (∀ p, v ≠ kind.cap p) →
      ((∃ j', k'.cnode.cap j' = some v) ↔ ∃ j', k.cnode.cap j' = some v) := by
    intro v hv hne
    refine exists_congr fun j' => ?_
    rw [hcaps hv]
    exact ⟨fun e => e.resolve_right fun e' => hne _ e'.2, .inl⟩
  refine h.of_frame (fun t ht a h1 h2 => ?_) (fun t => hold rfl ?_) (fun p => hold rfl ?_)
    fun j' t hj' a h1 h2 => ?_
  · have hsep := hacc.next_apart hcap hleft (h.table_place hload ht)
    rw [hm]
    exact if_neg (by omega)
  · cases kind <;> simp [ObjKind.cap]
  · cases kind <;> simp [ObjKind.cap]
  · rw [hm]
    rcases (hcaps rfl j').mp hj' with hj' | ⟨-, hv⟩
    · unfold clear
      split_ifs
      · rfl
      · exact h.idle j' t hj' a h1 h2
    · have ht : t = roundUp P.granule (base + used) := by
        have := congrArg Cap.object? hv
        rw [ObjKind.object?_cap] at this
        exact Option.some.inj this
      exact if_pos (by omega)

/-- The frame of a page is no table, and no page table that waits to be installed. -/
lemma page_notMem (h : Paged b stack k live lvl pm) (hrt : I.rootTask.Laid) (hacc : Accounted b k)
    {key : ℕ} {x : ℕ × UserPerm} (hx : pm key = some x) :
    P.granule ∣ x.1 ∧ x.1 ∉ live ∧ ∀ j t, k.cnode.cap j = some (.pageTable t false) → t ≠ x.1 := by
  have hg := P.granule_pos
  rcases h.pages key x hx with hboot | ⟨-, j, hj⟩
  · obtain ⟨ha, h1, h2, hnot⟩ := hboot.inside hload hrt
    refine ⟨ha, fun hmem => ?_, ?_⟩
    · rcases (h.tables x.1).mp hmem with ht | ⟨j', hj'⟩
      · exact hnot ht
      · have := hacc.object_outside hj' rfl
        omega
    · rintro j' t hj' rfl
      have := hacc.object_outside hj' rfl
      omega
  · refine ⟨(hacc.object_frame hj rfl).1, h.notMem_of_object hacc hload hj rfl (by simp), ?_⟩
    rintro j' t hj' rfl
    obtain rfl := hacc.slot_eq hj hj' rfl rfl
    rw [hj] at hj'
    cases hj'

omit hload in
/-- A store by user code changes the byte of a writable page, or nothing. -/
lemma userStore_cases (h : Paged b stack k live lvl pm)
    (hroot : k.tasks.currentUserRoot = b.userRoot) (va : ℕ) (byte : UInt8) :
    (k.userStore P va byte = k ∧ ∀ x, va < 2 ^ 48 → pm (pageKey P va) = some x → x.2 ≠ .rwUser) ∨
      ∃ x, va < 2 ^ 48 ∧ pm (pageKey P va) = some x ∧ x.2 = .rwUser ∧
        k.userStore P va byte =
          { k with mem := Function.update k.mem (x.1 + va % P.granule) byte } := by
  unfold Kernel.userStore
  rw [hroot]
  cases hw : mmuLeaf P k.mem b.userRoot va with
  | none =>
    refine .inl ⟨rfl, fun x hva hx => ?_⟩
    obtain ⟨w, hw', -⟩ := h.stands.mmuLeaf_some h.tree hva hx
    rw [hw] at hw'
    cases hw'
  | some w =>
    obtain ⟨hva, x, hx, hdescr⟩ := h.stands.of_mmuLeaf h.tree hw
    dsimp only
    split_ifs with hwr
    · refine .inr ⟨x, hva, hx, hdescr.writable.mp hwr, ?_⟩
      rw [hdescr.frame]
    · refine .inl ⟨rfl, fun y _ hy hrw => hwr (hdescr.writable.mpr ?_)⟩
      obtain rfl := Option.some.inj (hx.symm.trans hy)
      exact hrw

/-- A store by user code keeps the invariant: it goes to the frame of a page. -/
theorem userStore (h : Paged b stack k live lvl pm) (hrt : I.rootTask.Laid) (hacc : Accounted b k)
    (hroot : k.tasks.currentUserRoot = b.userRoot) (va : ℕ) (byte : UInt8) :
    Paged b stack (k.userStore P va byte) live lvl pm := by
  rcases h.userStore_cases hroot va byte with ⟨heq, -⟩ | ⟨x, -, hx, -, heq⟩
  · rw [heq]
    exact h
  · obtain ⟨ha, hnot, hidle⟩ := h.page_notMem hload hrt hacc hx
    have hlt := Nat.mod_lt va P.granule_pos
    have hupd : ∀ t, P.granule ∣ t → t ≠ x.1 → ∀ c, t ≤ c → c < t + P.granule →
        Function.update k.mem (x.1 + va % P.granule) byte c = k.mem c := by
      intro t ht hne c h3 h4
      have hsep := frame_sep ht ha hne
      exact Function.update_of_ne (by omega) _ _
    rw [heq]
    refine h.of_frame (fun t ht => hupd t (h.tree.aligned t ht) ?_) (fun _ => Iff.rfl)
      (fun _ => Iff.rfl) fun j t hj c h3 h4 => ?_
    · rintro rfl
      exact hnot ht
    · exact (hupd t (hacc.object_frame hj rfl).1 (hidle j t hj) c h3 h4).trans
        (h.idle j t hj c h3 h4)

omit hload in
/-- Filling an empty entry leaves the others. -/
lemma word_of_write (h : Paged b stack k live lvl pm) {s j : ℕ} (hs : s ∈ live)
    (hj : j < P.entries) (hz : word k.mem s j = 0) (w : ℕ) {t n : ℕ} (ht : t ∈ live)
    (hn : n < P.entries) (hne : word k.mem t n ≠ 0) :
    word (write64 k.mem (s + j * 8) w) t n = word k.mem t n := by
  refine read64_write64_of_sep ?_
  by_cases he : t = s
  · subst he
    have hnj : n ≠ j := by
      rintro rfl
      exact hne hz
    omega
  · have hsep := frame_sep (h.tree.aligned t ht) (h.tree.aligned s hs) he
    have hle := entry_le hn
    have hle' := entry_le hj
    omega

omit hload in
/-- What mapping a frame adds. -/
lemma extends_mapFrame (h : Paged b stack k live lvl pm) {j base va : ℕ} {perm : UserPerm}
    {m : Mem} (hc : k.cnode.cap j = some (.frame base false))
    (hm : userMapFrame P b.userRoot va base perm k.mem = pure m) :
    Extends P k.cnode (k.cnode.set j (.frame base true)) k.mem m live live pm
        (Function.update pm (pageKey P va) (some (base, perm))) ∧
      Adds P k.cnode (k.cnode.set j (.frame base true)) m pm
        (Function.update pm (pageKey P va) (some (base, perm))) := by
  have hnone := h.page_free hm
  have hobj : (k.cnode.set j (.frame base true)).objects = k.cnode.objects :=
    CNode.objects_set hc rfl
  obtain ⟨-, -, -, -, s, hw, hz, rfl⟩ := h.tree.userMapFrame_eq_pure hm
  obtain ⟨hs, -⟩ := h.tree.walk_lvl hw
  have hle := entry_le (index_lt P va 3)
  refine ⟨⟨subset_rfl, fun t ht n hn hne => ?_, fun key x hx => ?_, hobj.ge, fun a ha => .inl ?_⟩,
    fun key x hno hx => ?_, fun p hp hnew => absurd (hobj.le hp) hnew⟩
  · exact h.word_of_write hs (index_lt P va 3) hz _ ht hn hne
  · rwa [Function.update_of_ne]
    rintro rfl
    rw [hnone] at hx
    cases hx
  · refine ⟨s, hs, ?_⟩
    by_contra hout
    exact ha (if_neg (by omega))
  · by_cases hkey : key = pageKey P va
    · rw [hkey, Function.update_self] at hx
      obtain rfl := Option.some.inj hx
      exact ⟨j, hc⟩
    · rw [Function.update_of_ne hkey, hno] at hx
      cases hx

omit hload in
/-- What installing a page table adds. -/
lemma extends_mapTable (h : Paged b stack k live lvl pm) {j base va level : ℕ} {m : Mem}
    (hc : k.cnode.cap j = some (.pageTable base false))
    (hm : userInstallTable P b.userRoot va base k.mem = pure (level, m)) :
    Extends P k.cnode (k.cnode.set j (.pageTable base true)) k.mem m live (insert base live) pm
        pm ∧
      Adds P k.cnode (k.cnode.set j (.pageTable base true)) m pm pm := by
  have hobj : (k.cnode.set j (.pageTable base true)).objects = k.cnode.objects :=
    CNode.objects_set hc rfl
  obtain ⟨-, -, t, n, hgap, -, rfl⟩ := h.tree.userInstallTable_eq_pure hm
  obtain ⟨ht, hn, -, -, hz, -⟩ := h.tree.of_gap hgap
  have hle := entry_le hn
  refine ⟨⟨Set.subset_insert _ _, fun t' ht' n' hn' hne => ?_, fun _ _ hx => hx, hobj.ge,
    fun a ha => .inl ?_⟩, fun key x hno hx => ?_, fun p hp hnew => absurd (hobj.le hp) hnew⟩
  · exact h.word_of_write ht hn hz _ ht' hn' hne
  · refine ⟨t, Set.mem_insert_of_mem _ ht, ?_⟩
    by_contra hout
    exact ha (if_neg (by omega))
  · rw [hno] at hx
    cases hx

/-- What carving an object adds: the new granule holds no table and no object yet. -/
lemma extends_carve (h : Paged b stack k live lvl pm) (hacc : Accounted b k)
    {slot base size used : ℕ} {kind : ObjKind} {d : CNode}
    (hcap : k.cnode.cap slot = some (.untyped base size used))
    (hleft : GranuleLeft P.granule base size used)
    (hd : k.cnode.retyped d slot base size P.granule (roundUp P.granule (base + used)) kind) :
    Extends P k.cnode d k.mem (clear k.mem (roundUp P.granule (base + used)) P.granule) live live
        pm pm ∧
      Adds P k.cnode d (clear k.mem (roundUp P.granule (base + used)) P.granule) pm pm := by
  have hmem : ∀ {p}, p ∈ d.objects ↔ p ∈ k.cnode.objects ∨ p = roundUp P.granule (base + used) :=
    CNode.mem_objects_retyped hcap hd
  have hfresh : roundUp P.granule (base + used) ∉ k.cnode.objects := by
    rintro ⟨i, v, hi, hp⟩
    have hsep := hacc.ledger.sep_next P.granule_pos hcap hleft hi hp
    have hg := P.granule_pos
    unfold Word.Sep at hsep
    omega
  refine ⟨⟨subset_rfl, fun t ht n hn _ => word_congr (fun a h1 h2 => ?_) hn, fun _ _ hx => hx,
    fun p hp => hmem.mpr (.inl hp),
    fun a ha => .inr (.inr ⟨_, hmem.mpr (.inr rfl), hfresh, ?_⟩)⟩, fun key x hno hx => ?_,
    fun p hp hnew a h1 h2 => ?_⟩
  · have hsep := hacc.next_apart hcap hleft (h.table_place hload ht)
    exact if_neg (by omega)
  · by_contra hout
    exact ha (if_neg hout)
  · rw [hno] at hx
    cases hx
  · obtain rfl := (hmem.mp hp).resolve_left hnew
    exact if_pos ⟨h1, h2⟩

/-- What a store by user code changes. -/
lemma extends_userStore (h : Paged b stack k live lvl pm) (hrt : I.rootTask.Laid)
    (hacc : Accounted b k) (hroot : k.tasks.currentUserRoot = b.userRoot) (va : ℕ)
    (byte : UInt8) :
    Extends P k.cnode (k.userStore P va byte).cnode k.mem (k.userStore P va byte).mem live live pm
        pm ∧
      Adds P k.cnode (k.userStore P va byte).cnode (k.userStore P va byte).mem pm pm := by
  rcases h.userStore_cases hroot va byte with ⟨heq, -⟩ | ⟨x, -, hx, hrw, heq⟩
  · rw [heq]
    exact ⟨.refl _ _ _ _, .refl _ _ _⟩
  · obtain ⟨ha, hnot, -⟩ := h.page_notMem hload hrt hacc hx
    have hlt := Nat.mod_lt va P.granule_pos
    rw [heq]
    refine ⟨⟨subset_rfl, fun t ht n hn _ => word_congr (fun c h3 h4 => ?_) hn, fun _ _ hx => hx,
      subset_rfl, fun c hc => .inr (.inl ⟨_, x, hx, hrw, ?_⟩)⟩, .refl _ _ _⟩
    · have hsep := frame_sep (h.tree.aligned t ht) ha fun e => hnot (e ▸ ht)
      exact Function.update_of_ne (by omega) _ _
    · have hat : c = x.1 + va % P.granule := by
        by_contra hne
        exact hc (Function.update_of_ne hne _ _)
      omega

/-- Mapping a frame changes no byte of a page, be it old or new. -/
lemma untouched_mapFrame (h : Paged b stack k live lvl pm) (hrt : I.rootTask.Laid)
    (hacc : Accounted b k) {j base va : ℕ} {perm : UserPerm} {m : Mem}
    (hc : k.cnode.cap j = some (.frame base false))
    (hm : userMapFrame P b.userRoot va base perm k.mem = pure m) :
    Untouched P k.mem m (Function.update pm (pageKey P va) (some (base, perm))) := by
  obtain ⟨-, -, -, -, s, hw, -, rfl⟩ := h.tree.userMapFrame_eq_pure hm
  obtain ⟨hs, -⟩ := h.tree.walk_lvl hw
  intro key x hx a h1 h2
  have hframe : P.granule ∣ x.1 ∧ x.1 ∉ live := by
    by_cases hkey : key = pageKey P va
    · rw [hkey, Function.update_self] at hx
      obtain rfl := Option.some.inj hx
      exact ⟨(hacc.object_frame hc rfl).1, h.notMem_of_object hacc hload hc rfl (by simp)⟩
    · rw [Function.update_of_ne hkey] at hx
      obtain ⟨ha, hnot, -⟩ := h.page_notMem hload hrt hacc hx
      exact ⟨ha, hnot⟩
  exact h.write_kept hs (index_lt P va 3) hframe.1 hframe.2 _ h1 h2

/-- Neither does installing a page table. -/
lemma untouched_mapTable (h : Paged b stack k live lvl pm) (hrt : I.rootTask.Laid)
    (hacc : Accounted b k) {base va level : ℕ} {m : Mem}
    (hm : userInstallTable P b.userRoot va base k.mem = pure (level, m)) :
    Untouched P k.mem m pm := by
  obtain ⟨-, -, t, n, hgap, -, rfl⟩ := h.tree.userInstallTable_eq_pure hm
  obtain ⟨ht, hn, -⟩ := h.tree.of_gap hgap
  intro key x hx a h1 h2
  obtain ⟨ha, hnot, -⟩ := h.page_notMem hload hrt hacc hx
  exact h.write_kept ht hn ha hnot _ h1 h2

/-- Neither does carving an object. -/
lemma untouched_carve (h : Paged b stack k live lvl pm) (hrt : I.rootTask.Laid)
    (hacc : Accounted b k) {slot base size used : ℕ}
    (hcap : k.cnode.cap slot = some (.untyped base size used))
    (hleft : GranuleLeft P.granule base size used) :
    Untouched P k.mem (clear k.mem (roundUp P.granule (base + used)) P.granule) pm := by
  intro key x hx a h1 h2
  have hsep := hacc.next_apart hcap hleft (h.page_place hload hrt hx)
  exact if_neg (by omega)

/-- What a handler does to memory and to the user tables. -/
theorem handled (h : Paged b stack k live lvl pm) (hrt : I.rootTask.Laid) (hacc : Accounted b k)
    {v : ℤ} (hh : Handled I.pool k v k') : ∃ live' lvl' pm', Paged b stack k' live' lvl' pm' ∧
      (Extends P k.cnode k'.cnode k.mem k'.mem live live' pm pm' ∧
        Adds P k.cnode k'.cnode k'.mem pm pm') ∧ Untouched P k.mem k'.mem pm' := by
  have hsame : Untouched P k.mem k.mem pm := fun _ _ _ _ _ _ => rfl
  cases hh with
  | fail _ _ => exact ⟨live, lvl, pm, h, ⟨.refl _ _ _ _, .refl _ _ _⟩, hsame⟩
  | print out => exact ⟨live, lvl, pm, h.congr rfl rfl, ⟨.refl _ _ _ _, .refl _ _ _⟩, hsame⟩
  | configure i j base root t ctx hs hc ht hst =>
    exact ⟨live, lvl, pm, h.congr rfl rfl, ⟨.refl _ _ _ _, .refl _ _ _⟩, hsame⟩
  | resume j base t hc ht hst =>
    exact ⟨live, lvl, pm, h.congr rfl rfl, ⟨.refl _ _ _ _, .refl _ _ _⟩, hsame⟩
  | mapFrame i j root base va perm m hs hc hp hm =>
    obtain rfl := hacc.space i root hs
    exact ⟨live, lvl, _, h.mapFrame hload hrt hacc hc hp hm, h.extends_mapFrame hc hm,
      h.untouched_mapFrame hload hrt hacc hc hm⟩
  | mapTable i j root base va level m hs hc hm =>
    obtain rfl := hacc.space i root hs
    obtain ⟨lvl', h'⟩ := h.mapTable hload hacc hc hm
    exact ⟨_, lvl', pm, h', h.extends_mapTable hc hm, h.untouched_mapTable hload hrt hacc hm⟩
  | unprepared slot base size used e pool hcap hroom hleft hmap =>
    exact ⟨live, lvl, pm, h.congr rfl rfl, ⟨.refl _ _ _ _, .refl _ _ _⟩, hsame⟩
  | carve slot base size used kind pool d hcap hroom hleft hmap hlt hd =>
    exact ⟨live, lvl, pm, h.carve hload hacc hcap hleft hd rfl rfl,
      h.extends_carve hload hacc hcap hleft hd, h.untouched_carve hload hrt hacc hcap hleft⟩

/-- What a step does to memory and to the user tables. Only a store changes bytes of pages. -/
theorem step (h : Paged b stack k live lvl pm) (hrt : I.rootTask.Laid) (hacc : Accounted b k)
    (hroot : k.tasks.currentUserRoot = b.userRoot) {ev : Event}
    (hs : k.step I.pool ev = some k') : ∃ live' lvl' pm', Paged b stack k' live' lvl' pm' ∧
      (Extends P k.cnode k'.cnode k.mem k'.mem live live' pm pm' ∧
        Adds P k.cnode k'.cnode k'.mem pm pm') ∧
      ((∀ va byte, ev ≠ .store va byte) → Untouched P k.mem k'.mem pm') := by
  have hsame : Untouched P k.mem k.mem pm := fun _ _ _ _ _ _ => rfl
  have hnext := step_next hacc.ledger.valid hs
  cases hnext with
  | store va byte =>
    exact ⟨live, lvl, pm, h.userStore hload hrt hacc hroot va byte,
      h.extends_userStore hload hrt hacc hroot va byte, fun hne => absurd rfl (hne va byte)⟩
  | spurious regs =>
    exact ⟨live, lvl, pm, h.congr rfl rfl, ⟨.refl _ _ _ _, .refl _ _ _⟩, fun _ => hsame⟩
  | tick regs =>
    exact ⟨live, lvl, pm, h.congr rfl rfl, ⟨.refl _ _ _ _, .refl _ _ _⟩, fun _ => hsame⟩
  | skip regs esr elr hec helr =>
    exact ⟨live, lvl, pm, h.congr rfl rfl, ⟨.refl _ _ _ _, .refl _ _ _⟩, fun _ => hsame⟩
  | yield regs esr hec hx =>
    exact ⟨live, lvl, pm, h.congr rfl rfl, ⟨.refl _ _ _ _, .refl _ _ _⟩, fun _ => hsame⟩
  | die regs esr _ hd hk =>
    obtain ⟨rfl, -⟩ := killCurrent_eq_some hk
    exact ⟨live, lvl, pm, h.congr rfl rfl, ⟨.refl _ _ _ _, .refl _ _ _⟩, fun _ => hsame⟩
  | ret regs esr v k₁ hec hx hi' hh =>
    have hsave : Paged b stack (k.save regs) live lvl pm := h.congr rfl rfl
    obtain ⟨live', lvl', pm', h', hext, hun⟩ := hsave.handled hload hrt hacc hh
    exact ⟨live', lvl', pm', h'.congr rfl rfl, hext, fun _ => hun⟩
  | ipc esr c s hi' hs' =>
    exact ⟨live, lvl, pm, h.congr rfl rfl, ⟨.refl _ _ _ _, .refl _ _ _⟩, fun _ => hsame⟩

end Paged

/-- The user tables at the handoff. -/
lemma paged_handoff (hrt : I.rootTask.Laid)
    (hload : Loaded P I.rootTask b.biFrame b.framesBi b.framesRoot b.memBi b.memRoot b.userRoot
      stack) : ∃ live lvl pm, Paged b stack b.kernel live lvl pm ∧
        ∀ key x, pm key = some x ↔ b.BootPage stack key x := by
  obtain ⟨lvl, pm, htree, hst, hpm⟩ := b.tree_handoff hload
  obtain ⟨-, -, hpop⟩ := bootstrap_ok b.cnode_eq
  have hobj : ∀ {j v p}, b.kernel.cnode.cap j = some v → v.object? ≠ some p := by
    intro j v p hj hp
    rw [object?_populate hpop hj] at hp
    cases hp
  refine ⟨{t | b.BootTable stack t}, lvl, pm, ⟨htree, hst, fun t => ?_, fun key x hx => ?_,
    fun key key' x x' hx hx' he => ?_, fun p hp => ?_, fun j t hj => ?_, fun key x hx => ?_⟩, hpm⟩
  · refine ⟨.inl, fun e => e.resolve_right ?_⟩
    rintro ⟨j, hj⟩
    exact hobj hj rfl
  · exact .inl ((hpm key x).mp hx)
  · exact ((hpm key x).mp hx).key_eq hload hrt ((hpm key' x').mp hx') he
  · obtain ⟨j, hj⟩ := hp
    exact absurd rfl (hobj hj)
  · exact absurd rfl (hobj hj)
  · exact ((hpm key x).mp hx).range hload hrt

/-- The user root that the MMU uses is the one that is installed. -/
lemma currentUserRoot_eq {s : Sys} {memory reserved : List PhysRegion} {root : ℕ}
    (h : k.Sim I memory reserved root s) (ha : P.granule ∣ root) (hlt : root < 2 ^ 48) :
    k.tasks.currentUserRoot = root := by
  have heven : 2 ^ 1 ∣ root := Nat.dvd_trans (by cases P <;> decide) ha
  have hmask := and_mask_eq_self (show 1 ≤ 48 by decide) hlt heven
  unfold Tasks.currentUserRoot
  rw [h.ttbr0]
  exact hmask

/-- **In every state that a run from the handoff reaches**, the user tables and the capabilities
agree.

**Proof sketch.** Induction on the run, by `Paged.step`. -/
theorem paged_of_reaches {k₀ : Kernel} (hrt : I.rootTask.Laid) (hboot : boot I i = some k₀)
    (hr : k₀.Reaches I.pool k) :
    ∃ (b : Stages I i) (stack : ℕ) (s : Sys) (live : Set ℕ) (lvl : ℕ → ℕ)
      (pm : ℕ → Option (ℕ × UserPerm)), b.kernel = k₀ ∧
      Loaded P I.rootTask b.biFrame b.framesBi b.framesRoot b.memBi b.memRoot b.userRoot stack ∧
      k.Sim I b.info.memory (fixedReserved I.span b.info.dtb b.window ++ b.info.reserved)
        b.userRoot s ∧ Paged b stack k live lvl pm := by
  obtain ⟨b, rfl⟩ := boot_eq_some hboot
  obtain ⟨stack, hload⟩ := b.loaded hrt
  refine ⟨b, stack, ?_⟩
  induction hr with
  | refl =>
    obtain ⟨live, lvl, pm, h, -⟩ := paged_handoff hrt hload
    exact ⟨b.sys, live, lvl, pm, rfl, hload, b.sim, h⟩
  | step ev _ hs ih =>
    obtain ⟨s, live, lvl, pm, -, -, hsim, h⟩ := ih
    have hroot := h.tree.aligned _ h.tree.root_live
    have hfits := h.tree.fits _ h.tree.root_live
    have hcur := currentUserRoot_eq hsim hroot (by have := P.granule_pos; omega)
    obtain ⟨live', lvl', pm', h', -⟩ := h.step hload hrt hsim.accounts hcur hs
    obtain ⟨-, s', -, hsim', -⟩ := hsim.step hs
    exact ⟨s', live', lvl', pm', rfl, hload, hsim', h'⟩

end Kernel

end K0
