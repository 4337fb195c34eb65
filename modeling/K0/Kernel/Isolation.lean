import K0.Boot.Elf
import K0.Boot.Memory
import K0.Kernel.Space

set_option relaxedAutoImplicit false
set_option autoImplicit false

/-!
# Isolation of user code

What the entries of the user tables are, in every state of a run, and what follows for the memory
that user code can reach. Every entry that the MMU can reach is empty, links a table of the boot or
an installed page table, or maps a page of the boot or a mapped frame; and each of them occurs once.
So no kernel object, no table and no byte of the kernel image, the device tree, a reserved region or
a device is mapped for user code, and no frame is both writable and executable.

## Main definitions

* `K0.Kernel.Coupled`: the entries of the tables and the flags of the capabilities agree.
* `K0.Kernel.Confined`: what user code can reach.

## Main results

* `K0.Kernel.Paged.coupled`, `K0.Kernel.Paged.confined`: both follow from the invariant.
* `K0.Kernel.user_tables_isolated`: both hold in every run.
-/

namespace K0

open Word Memory Outcome UserTables

namespace Kernel

/-- The tables that the MMU can reach from the root of the boot and the capabilities agree. Entries
are named by their table and their index. -/
structure Coupled {P : Platform} {I : Image P} {i : Machine} (b : Stages I i) (stack : ℕ)
    (k : Kernel) : Prop where
  link : ∀ n t j, n < 3 → LevelTable P k.mem b.userRoot n t → j < P.entries →
    read64 k.mem (t + j * 8) = 0 ∨
      ∃ s, read64 k.mem (t + j * 8) = s ||| descTable ∧
        LevelTable P k.mem b.userRoot (n + 1) s ∧
        (b.BootTable stack s ∨ ∃ c, k.cnode.cap c = some (.pageTable s true))
  link_once : ∀ n t j n' t' j', n < 3 → LevelTable P k.mem b.userRoot n t → j < P.entries →
    n' < 3 → LevelTable P k.mem b.userRoot n' t' → j' < P.entries →
    read64 k.mem (t + j * 8) ≠ 0 → read64 k.mem (t' + j' * 8) ≠ 0 →
    read64 k.mem (t + j * 8) &&& P.addrMask = read64 k.mem (t' + j' * 8) &&& P.addrMask →
    t = t' ∧ j = j'
  page : ∀ t j, LevelTable P k.mem b.userRoot 3 t → j < P.entries →
    read64 k.mem (t + j * 8) = 0 ∨
      ∃ pa perm, read64 k.mem (t + j * 8) = pa ||| perm.attrs ∧ P.granule ∣ pa ∧ pa < 2 ^ 48 ∧
        ((∃ key, b.BootPage stack key (pa, perm)) ∨
          (perm ≠ .textUser ∧ ∃ c, k.cnode.cap c = some (.frame pa true)))
  page_once : ∀ t j t' j', LevelTable P k.mem b.userRoot 3 t → j < P.entries →
    LevelTable P k.mem b.userRoot 3 t' → j' < P.entries →
    read64 k.mem (t + j * 8) ≠ 0 → read64 k.mem (t' + j' * 8) ≠ 0 →
    read64 k.mem (t + j * 8) &&& P.addrMask = read64 k.mem (t' + j' * 8) &&& P.addrMask →
    t = t' ∧ j = j'
  installed : ∀ c s, k.cnode.cap c = some (.pageTable s true) →
    ∃! x : ℕ × ℕ, (∃ n < 3, LevelTable P k.mem b.userRoot n x.1) ∧ x.2 < P.entries ∧
      read64 k.mem (x.1 + x.2 * 8) = s ||| descTable
  mapped : ∀ c p, k.cnode.cap c = some (.frame p true) →
    ∃! x : ℕ × ℕ, LevelTable P k.mem b.userRoot 3 x.1 ∧ x.2 < P.entries ∧
      ∃ perm : UserPerm, read64 k.mem (x.1 + x.2 * 8) = p ||| perm.attrs

/-- What user code can reach. The frame of a page is `w &&& P.addrMask`. -/
structure Confined {P : Platform} {I : Image P} {i : Machine} (b : Stages I i) (stack : ℕ)
    (k : Kernel) : Prop where
  object : ∀ va w, mmuLeaf P k.mem b.userRoot va = some w → ∀ c v p, k.cnode.cap c = some v →
    v.object? = some p → (∀ mapped, v ≠ .frame p mapped) →
    Sep (w &&& P.addrMask) P.granule p P.granule
  table : ∀ va w, mmuLeaf P k.mem b.userRoot va = some w → ∀ t,
    b.BootTable stack t ∨ TableAt P k.mem b.userRoot t →
    Sep (w &&& P.addrMask) P.granule t P.granule
  outside : ∀ va w, mmuLeaf P k.mem b.userRoot va = some w → ∀ a, w &&& P.addrMask ≤ a →
    a < (w &&& P.addrMask) + P.granule →
    ¬ I.span.Holds a ∧ ¬ b.info.dtb.Holds a ∧ (∀ r ∈ b.info.reserved, ¬ r.Holds a) ∧
      ∀ dev ∈ deviceWindows P, ¬ dev.Holds a
  wx : ∀ va va' w w', mmuLeaf P k.mem b.userRoot va = some w →
    mmuLeaf P k.mem b.userRoot va' = some w' → w &&& P.addrMask = w' &&& P.addrMask →
    ¬ (el0Writable w ∧ el0Executable w')
  bootinfo : ∀ va w, mmuLeaf P k.mem b.userRoot va = some w → w &&& P.addrMask = b.biFrame →
    ¬ el0Writable w
  null : ∀ va < P.granule, mmuLeaf P k.mem b.userRoot va = none

/-! ### Memory that is set aside -/

section Clear

variable {P : Platform} {I : Image P} {i : Machine} {b : Stages I i} {k : Kernel} {a : ℕ}

/-- No device lies in memory. -/
lemma clear_device (b : Stages I i) {m : MemRegion} (hm : m ∈ b.info.memory) (h1 : m.base ≤ a)
    (h2 : a < m.base + m.size) : ∀ dev ∈ deviceWindows P, ¬ dev.Holds a := by
  rintro dev hdev ⟨h3, h4⟩
  have hsep := checkMemoryMap_ok b.checked dev hdev (by omega) m hm
  unfold Word.Sep at hsep
  omega

/-- The boot window was chosen clear of the memory that is set aside. -/
lemma clear_of_window (b : Stages I i) (h1 : b.window.start ≤ a) (h2 : a < b.window.stop) :
    ¬ I.span.Holds a ∧ ¬ b.info.dtb.Holds a ∧ (∀ r ∈ b.info.reserved, ¬ r.Holds a) ∧
      ∀ dev ∈ deviceWindows P, ¬ dev.Holds a := by
  have hwin := pickWindow_ok b.window_eq
  have habove := hwin.above
  obtain ⟨m, hm, h5, h6⟩ := hwin.inside
  refine ⟨?_, ?_, fun r hr => ?_, clear_device b hm (by omega) (by omega)⟩
  · rintro ⟨h7, h8⟩
    omega
  · rintro ⟨h7, h8⟩
    have hclear := hwin.clear _ List.mem_cons_self
    dsimp only at hclear
    omega
  · rintro ⟨h7, h8⟩
    have hclear := hwin.clear r (List.mem_cons_of_mem _ hr)
    omega

/-- So was the memory that objects are carved from. -/
lemma Accounted.clear_of_object (hacc : Accounted b k) {c p : ℕ} {v : Cap}
    (hc : k.cnode.cap c = some v) (hp : v.object? = some p) (h1 : p ≤ a)
    (h2 : a < p + P.granule) :
    ¬ I.span.Holds a ∧ ¬ b.info.dtb.Holds a ∧ (∀ r ∈ b.info.reserved, ¬ r.Holds a) ∧
      ∀ dev ∈ deviceWindows P, ¬ dev.Holds a := by
  have hclear : ∀ {r : PhysRegion},
      r ∈ fixedReserved I.span b.info.dtb b.window ++ b.info.reserved → ¬ r.Holds a := by
    rintro r hr ⟨h5, h6⟩
    have hsep := hacc.ledger.object_clear hc hp hr
    unfold Word.Sep at hsep
    omega
  obtain ⟨m, hm, h5, h6⟩ := hacc.ledger.object_inside hc hp
  unfold PhysRegion.endAddr at h6
  refine ⟨?_, ?_, fun r hr => hclear (List.mem_append_right _ hr),
    clear_device b hm (by omega) (by omega)⟩
  · rintro ⟨h7, h8⟩
    refine hclear (r := ⟨I.span.start, I.span.stop - I.span.start⟩) (by simp [fixedReserved])
      ⟨h7, ?_⟩
    dsimp only
    omega
  · rintro ⟨h7, h8⟩
    refine hclear (r := ⟨b.info.dtb.start, b.info.dtb.stop - b.info.dtb.start⟩)
      (by simp [fixedReserved]) ⟨h7, ?_⟩
    dsimp only
    omega

end Clear

namespace Paged

variable {P : Platform} {I : Image P} {i : Machine} {b : Stages I i} {stack : ℕ} {k : Kernel}
  {live : Set ℕ} {lvl : ℕ → ℕ} {pm : ℕ → Option (ℕ × UserPerm)}

/-! ### Entries -/

/-- A link in a reachable table. -/
lemma child_of_level (h : Paged b stack k live lvl pm) {n t j : ℕ} (hn : n < 3)
    (ht : LevelTable P k.mem b.userRoot n t) (hj : j < P.entries)
    (hne : read64 k.mem (t + j * 8) ≠ 0) :
    ∃ s ∈ live, t ∈ live ∧ lvl t = n ∧ read64 k.mem (t + j * 8) = s ||| descTable ∧
      child P k.mem t j = some s ∧ s = read64 k.mem (t + j * 8) &&& P.addrMask := by
  obtain ⟨hlive, hlvl⟩ := h.tree.levelTable_iff.mp ht
  obtain ⟨s, hs, hword, hc⟩ := h.tree.child_eq_some hlive (by omega) hj hne
  have hmask : (s ||| descTable) &&& P.addrMask = s :=
    desc_and_addrMask (h.tree.aligned s hs)
      (by have := h.tree.fits s hs; have := P.granule_pos; omega)
      (by cases P <;> decide)
  have hword' : read64 k.mem (t + j * 8) = s ||| descTable := hword
  exact ⟨s, hs, hlive, hlvl, hword', hc, by rw [hword', hmask]⟩

/-- A page in a reachable table, with an address that leads to it. -/
lemma page_of_level (h : Paged b stack k live lvl pm) {t j : ℕ}
    (ht : LevelTable P k.mem b.userRoot 3 t) (hj : j < P.entries)
    (hne : read64 k.mem (t + j * 8) ≠ 0) :
    ∃ va x, va < 2 ^ 48 ∧ mmuWalk P k.mem va [0, 1, 2] b.userRoot = some t ∧ index P va 3 = j ∧
      pm (pageKey P va) = some x ∧ read64 k.mem (t + j * 8) = x.1 ||| x.2.attrs ∧
      P.granule ∣ x.1 ∧ x.1 < 2 ^ 48 ∧ read64 k.mem (t + j * 8) &&& P.addrMask = x.1 := by
  obtain ⟨va, hva, hleaf, hw, hidx⟩ := h.tree.mmuLeaf_of_entry ht hj hne
  obtain ⟨-, x, hx, hdescr⟩ := h.stands.of_mmuLeaf h.tree hleaf
  obtain ⟨hdesc, ha, hlt⟩ := h.stands.mmuLeaf_desc h.tree hleaf hx
  exact ⟨va, x, hva, hw, hidx, hx, hdesc, ha, hlt, hdescr.frame⟩

/-- The MMU finds every page of the page map through an address. -/
lemma leaf_of_page (h : Paged b stack k live lvl pm) {key : ℕ} {x : ℕ × UserPerm}
    (hx : pm key = some x) :
    ∃ va w, mmuLeaf P k.mem b.userRoot va = some w ∧ pm (pageKey P va) = some x ∧
      Descr P w x := by
  obtain ⟨-, hrange⟩ := h.range key x hx
  have hkey : pageKey P (key * P.granule) = key := by
    rw [pageKey_of_lt hrange, Nat.mul_div_cancel _ P.granule_pos]
  obtain ⟨w, hw, hdescr⟩ := h.stands.mmuLeaf_some h.tree hrange (hkey.symm ▸ hx)
  exact ⟨_, w, hw, hkey.symm ▸ hx, hdescr⟩

/-- Two pages in reachable tables with the same frame are one. -/
lemma page_once (h : Paged b stack k live lvl pm) {t j t' j' : ℕ}
    (ht : LevelTable P k.mem b.userRoot 3 t) (hj : j < P.entries)
    (ht' : LevelTable P k.mem b.userRoot 3 t') (hj' : j' < P.entries)
    (hne : read64 k.mem (t + j * 8) ≠ 0) (hne' : read64 k.mem (t' + j' * 8) ≠ 0)
    (he : read64 k.mem (t + j * 8) &&& P.addrMask = read64 k.mem (t' + j' * 8) &&& P.addrMask) :
    t = t' ∧ j = j' := by
  obtain ⟨va, x, -, hw, hidx, hx, -, -, -, hframe⟩ := h.page_of_level ht hj hne
  obtain ⟨va', x', -, hw', hidx', hx', -, -, -, hframe'⟩ := h.page_of_level ht' hj' hne'
  have hkey : pageKey P va = pageKey P va' :=
    h.inj _ _ x x' hx hx' (by rw [← hframe, he, hframe'])
  -- the same page number has the same path and the same index
  obtain ⟨hpath, hindex⟩ := (index_eq_iff P va va').mpr hkey
  have hroot := h.tree.aligned _ h.tree.root_live
  rw [mmuWalk_eq _ _ _ hroot] at hw hw'
  change Radix.walk _ _ (path P va) = _ at hw
  change Radix.walk _ _ (path P va') = _ at hw'
  rw [hpath, hw'] at hw
  exact ⟨(Option.some.inj hw).symm, by rw [← hidx, ← hidx', hindex]⟩

section Loaded

variable (hload : Loaded P I.rootTask b.biFrame b.framesBi b.framesRoot b.memBi b.memRoot b.userRoot
    stack) (hacc : Accounted b k)
include hload hacc

/-- An installed page table hangs in exactly one entry. -/
lemma installed_once (h : Paged b stack k live lvl pm) {c s : ℕ}
    (hc : k.cnode.cap c = some (.pageTable s true)) :
    ∃! x : ℕ × ℕ, (∃ n < 3, LevelTable P k.mem b.userRoot n x.1) ∧ x.2 < P.entries ∧
      read64 k.mem (x.1 + x.2 * 8) = s ||| descTable := by
  have hg := P.granule_pos
  have hs : s ∈ live := (h.tables s).mpr (.inr ⟨c, hc⟩)
  have hfits := h.tree.fits s hs
  have hmask : (s ||| descTable) &&& P.addrMask = s :=
    desc_and_addrMask (h.tree.aligned s hs) (by omega) (by cases P <;> decide)
  have hroot : s ≠ b.userRoot := by
    have hout := hacc.object_outside hc rfl
    have hord := Stages.order hload
    omega
  obtain ⟨t, j, ht, hl, hchild⟩ := h.tree.linked s hs hroot
  obtain ⟨⟨-, hj⟩, hne⟩ := entry_of_child hchild
  obtain ⟨s', -, hword, hchild'⟩ := h.tree.child_eq_some ht hl hj hne
  obtain rfl : s = s' := Option.some.inj (hchild.symm.trans hchild')
  refine ⟨(t, j), ⟨⟨lvl t, hl, h.tree.levelTable_iff.mpr ⟨ht, rfl⟩⟩, hj, hword⟩, ?_⟩
  rintro ⟨t', j'⟩ ⟨⟨n, hn, ht'⟩, hj', hword'⟩
  have hne' : read64 k.mem (t' + j' * 8) ≠ 0 := hword' ▸ (desc_spec hfits).1
  obtain ⟨u, -, hlive', hlvl', -, hc', hu⟩ := h.child_of_level hn ht' hj' hne'
  have hsu : u = s := by rw [hu, hword', hmask]
  rw [hsu] at hc'
  obtain ⟨rfl, rfl⟩ := h.tree.forest.inj hlive' ht (by omega) hl hc' hchild
  rfl

omit hload in
/-- A mapped frame is mapped by exactly one entry. -/
lemma mapped_once (h : Paged b stack k live lvl pm) {c p : ℕ}
    (hc : k.cnode.cap c = some (.frame p true)) :
    ∃! x : ℕ × ℕ, LevelTable P k.mem b.userRoot 3 x.1 ∧ x.2 < P.entries ∧
      ∃ perm : UserPerm, read64 k.mem (x.1 + x.2 * 8) = p ||| perm.attrs := by
  have hg := P.granule_pos
  obtain ⟨ha, hfits⟩ := hacc.object_frame hc rfl
  have hlt : p < 2 ^ 48 := by omega
  have hmask : ∀ perm : UserPerm, (p ||| perm.attrs) &&& P.addrMask = p :=
    fun perm => desc_and_addrMask ha hlt perm.attrs_spec.2.1
  obtain ⟨key, perm, hx⟩ := h.mapped p ⟨c, hc⟩
  obtain ⟨va, w, hw, hx', -⟩ := h.leaf_of_page hx
  obtain ⟨hdesc, -⟩ := h.stands.mmuLeaf_desc h.tree hw hx'
  obtain ⟨t, ht, hword, -⟩ := entry_of_mmuLeaf hw
  have hlevel : LevelTable P k.mem b.userRoot 3 t := ⟨le_rfl, _, ht⟩
  have hread : read64 k.mem (t + index P va 3 * 8) = p ||| perm.attrs := hword.trans hdesc
  refine ⟨(t, index P va 3), ⟨hlevel, index_lt _ _ _, perm, hread⟩, ?_⟩
  rintro ⟨t', j'⟩ ⟨ht', hj', perm', hread'⟩
  have hne := hread ▸ (page_spec hlt perm).1
  have hne' := hread' ▸ (page_spec hlt perm').1
  obtain ⟨rfl, rfl⟩ := h.page_once ht' hj' hlevel (index_lt _ _ _) hne' hne
    (by rw [hread, hread', hmask, hmask])
  rfl

/-- **The entries of the tables and the capabilities agree.** -/
theorem coupled (h : Paged b stack k live lvl pm) : Coupled b stack k where
  link n t j hn ht hj := by
    by_cases hne : read64 k.mem (t + j * 8) = 0
    · exact .inl hne
    obtain ⟨s, hs, hlive, hlvl, hword, hc, -⟩ := h.child_of_level hn ht hj hne
    have hl := (h.tree.forest.child_lvl hlive (by omega) hc).2
    exact .inr ⟨s, hword, h.tree.levelTable_iff.mpr ⟨hs, by omega⟩, (h.tables s).mp hs⟩
  link_once n t j n' t' j' hn ht hj hn' ht' hj' hne hne' he := by
    obtain ⟨s, hs, hlive, hlvl, -, hc, hs'⟩ := h.child_of_level hn ht hj hne
    obtain ⟨u, hu, hlive', hlvl', -, hc', hu'⟩ := h.child_of_level hn' ht' hj' hne'
    have hsu : u = s := by rw [hu', ← he, hs']
    rw [hsu] at hc'
    exact h.tree.forest.inj hlive hlive' (by omega) (by omega) hc hc'
  page t j ht hj := by
    by_cases hne : read64 k.mem (t + j * 8) = 0
    · exact .inl hne
    obtain ⟨va, x, -, -, -, hx, hword, ha, hlt, -⟩ := h.page_of_level ht hj hne
    exact .inr ⟨x.1, x.2, hword, ha, hlt, (h.pages _ x hx).imp_left fun hb => ⟨_, hb⟩⟩
  page_once t j t' j' ht hj ht' hj' hne hne' he := h.page_once ht hj ht' hj' hne hne' he
  installed c s hc := h.installed_once hload hacc hc
  mapped c p hc := h.mapped_once hacc hc

/-! ### Reachable memory -/

omit hacc in
/-- Where the frame of a page that the MMU finds lies: in the boot window, or it is mapped. -/
lemma frame_cases (h : Paged b stack k live lvl pm) (hrt : I.rootTask.Laid) {va w : ℕ}
    (hw : mmuLeaf P k.mem b.userRoot va = some w) :
    (b.window.start ≤ w &&& P.addrMask ∧ (w &&& P.addrMask) + P.granule ≤ b.window.stop) ∨
      ∃ c, k.cnode.cap c = some (.frame (w &&& P.addrMask) true) := by
  obtain ⟨-, x, hx, hdescr⟩ := h.stands.of_mmuLeaf h.tree hw
  rw [hdescr.frame]
  rcases h.pages _ x hx with hboot | ⟨-, c, hc⟩
  · obtain ⟨-, h1, h2, -⟩ := hboot.inside hload hrt
    exact .inl ⟨h1, h2⟩
  · exact .inr ⟨c, hc⟩

/-- The frame of a page that the MMU finds is apart from the kernel image, the device tree, the
reserved regions and the devices. -/
lemma frame_outside (h : Paged b stack k live lvl pm) (hrt : I.rootTask.Laid) {va w a : ℕ}
    (hw : mmuLeaf P k.mem b.userRoot va = some w) (h1 : w &&& P.addrMask ≤ a)
    (h2 : a < (w &&& P.addrMask) + P.granule) :
    ¬ I.span.Holds a ∧ ¬ b.info.dtb.Holds a ∧ (∀ r ∈ b.info.reserved, ¬ r.Holds a) ∧
      ∀ dev ∈ deviceWindows P, ¬ dev.Holds a := by
  rcases h.frame_cases hload hrt hw with ⟨h3, h4⟩ | ⟨c, hc⟩
  · exact clear_of_window b (by omega) (by omega)
  · exact hacc.clear_of_object hc rfl h1 h2

/-- **User code is confined.** -/
theorem confined (h : Paged b stack k live lvl pm) (hrt : I.rootTask.Laid) :
    Confined b stack k where
  object va w hw c v p hc hp hv := by
    obtain ⟨hmask, -⟩ := and_addrMask_frame P w
    obtain ⟨ha, -⟩ := hacc.object_frame hc hp
    have hne : w &&& P.addrMask ≠ p := by
      intro he
      rcases h.frame_cases hload hrt hw with ⟨h1, h2⟩ | ⟨c', hc'⟩
      · have hout := hacc.object_outside hc hp
        have hg := P.granule_pos
        omega
      · rw [he] at hc'
        obtain rfl := hacc.slot_eq hc hc' hp rfl
        exact hv true (Option.some.inj (hc.symm.trans hc'))
    exact frame_sep hmask ha hne
  table va w hw t ht := by
    obtain ⟨hmask, -⟩ := and_addrMask_frame P w
    have hlive : t ∈ live := by
      rcases ht with ht | ht
      · exact (h.tables t).mpr (.inl ht)
      · exact h.tree.mem_of_tableAt ht
    obtain ⟨-, x, hx, hdescr⟩ := h.stands.of_mmuLeaf h.tree hw
    obtain ⟨-, hnot, -⟩ := h.page_notMem hload hrt hacc hx
    refine frame_sep hmask (h.tree.aligned t hlive) ?_
    rintro rfl
    rw [hdescr.frame] at hlive
    exact hnot hlive
  outside va w hw a h1 h2 := h.frame_outside hload hacc hrt hw h1 h2
  wx va va' w w' hw hw' he := by
    rintro ⟨hwr, hex⟩
    obtain ⟨-, x, hx, hdescr⟩ := h.stands.of_mmuLeaf h.tree hw
    obtain ⟨-, x', hx', hdescr'⟩ := h.stands.of_mmuLeaf h.tree hw'
    rw [hdescr.frame, hdescr'.frame] at he
    have hkey := h.inj _ _ x x' hx hx' he
    rw [hkey, hx'] at hx
    obtain rfl := Option.some.inj hx
    have hrw := hdescr.writable.mp hwr
    rw [hdescr'.executable.mp hex] at hrw
    cases hrw
  bootinfo va w hw he hwr := by
    have hg := P.granule_pos
    obtain ⟨-, -, -, hbi, -, hfit⟩ := b.window_spec
    obtain ⟨-, x, hx, hdescr⟩ := h.stands.of_mmuLeaf h.tree hw
    rw [hdescr.frame, hbi] at he
    have hrw := hdescr.writable.mp hwr
    rcases h.pages _ x hx with hboot | ⟨-, c, hc⟩
    · have hord := Stages.order hload
      rcases (hboot.frame_cases hload hrt).2 with ⟨h1, -⟩ | ⟨h1, -⟩ | ⟨-, hro, -⟩
      · omega
      · omega
      · rw [hro] at hrw
        cases hrw
    · have hout := hacc.object_outside hc rfl
      omega
  null va hva := by
    cases hw : mmuLeaf P k.mem b.userRoot va with
    | none => rfl
    | some w =>
      obtain ⟨hlt, x, hx, -⟩ := h.stands.of_mmuLeaf h.tree hw
      have hpos := (h.range _ x hx).1
      rw [pageKey_of_lt hlt, Nat.div_eq_of_lt hva] at hpos
      omega

end Loaded

end Paged

variable {P : Platform} {I : Image P} {i : Machine} {k k₀ : Kernel}

/-- **Isolation in every run.** In every state that a run from the handoff reaches, under the root
table of the running task, which is that of every `AddrSpace` capability: every entry above the last
level is empty or links a table of the boot or an installed page table; every entry of the last
level is empty or maps a page of the boot or a mapped frame; all of them are different, and a page
table that is installed and a frame that is mapped occur exactly once. So user code reaches no
object of the kernel, no table, no byte of the kernel image, the device tree, a reserved region or a
device window; no frame is both writable and executable for it; the bootinfo frame is not writable;
and the first granule is not mapped.

**Proof sketch.** All this follows from the invariant of `paged_of_reaches`. -/
theorem user_tables_isolated {elf : List UInt8} (helf : Elf.flatten elf = some I.rootTask)
    (hboot : boot I i = some k₀) (hr : k₀.Reaches I.pool k) :
    ∃ (b : Stages I i) (stack : ℕ), b.kernel = k₀ ∧ k.tasks.currentUserRoot = b.userRoot ∧
      (∀ j r, k.cnode.cap j = some (.addrSpace r) → r = b.userRoot) ∧
      Coupled b stack k ∧ Confined b stack k := by
  obtain ⟨segs, hflat⟩ := Elf.flatten_eq_some helf
  obtain ⟨b, stack, s, live, lvl, pm, hk, hload, hsim, h⟩ := paged_of_reaches hflat.laid hboot hr
  have hacc : Accounted b k := hsim.accounts
  have hroot := h.tree.aligned _ h.tree.root_live
  have hfits := h.tree.fits _ h.tree.root_live
  have hcur := currentUserRoot_eq hsim hroot (by have := P.granule_pos; omega)
  exact ⟨b, stack, hk, hcur, hacc.space, h.coupled hload hacc, h.confined hload hacc hflat.laid⟩

/-- The hypotheses hold at the handoff of the small machine. -/
theorem user_tables_isolated_smallMachine :
    ∃ k, boot smallImage smallMachine = some k ∧
      ∀ va < Platform.granule .apple, mmuLeaf .apple k.mem k.tasks.currentUserRoot va = none := by
  obtain ⟨k, hk⟩ := boot_smallMachine
  obtain ⟨b, stack, -, hcur, -, -, hconf⟩ := user_tables_isolated flatten_smallElf hk .refl
  exact ⟨k, hk, fun va hva => hcur ▸ hconf.null va hva⟩

end Kernel

end K0
