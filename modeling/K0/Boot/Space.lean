import K0.Boot.Elf

set_option relaxedAutoImplicit false
set_option autoImplicit false

/-!
# The user address space at the handoff

The tables and pages that the boot makes for the root task. Both lie in the boot window, where the
frames of the pages and the tables are apart: the bootinfo page comes first, then the image, then
the tables, with the stack between them.

## Main definitions

* `K0.Stages.BootTable`, `K0.Stages.BootPage`: the tables and pages of the boot.

## Main results

* `K0.Stages.loaded`: what loading the root task leaves in memory.
* `K0.Stages.BootPage.frame_cases`: where the frames of the boot pages lie.
* `K0.Stages.tree_handoff`: the tables at the handoff.
-/

namespace K0

open Word Memory Outcome UserTables

namespace Stages

variable {P : Platform} {I : Image P} {i : Machine} (b : Stages I i)

/-- A table of the boot: a frame from the root table on, outside the stack. -/
def BootTable (stack t : ℕ) : Prop :=
  P.granule ∣ t ∧ b.userRoot ≤ t ∧ t < b.framesRoot.next ∧
    (t < stack ∨ stack + userStackSize ≤ t)

/-- A page of the boot, with its frame and permission: of a segment, of the stack, or the bootinfo
page. -/
def BootPage (stack key : ℕ) (x : ℕ × UserPerm) : Prop :=
  (∃ s ∈ I.rootTask.segments, SegPage P I.rootTask.base b.framesBi.next s key x) ∨
    StackPage P stack key x ∨ BootinfoPage P b.biFrame key x

/-- The boot window and its first frame. -/
lemma window_spec :
    P.granule ∣ b.window.start ∧ P.granule ∣ b.window.stop ∧ b.window.stop ≤ 2 ^ 48 ∧
      b.biFrame = b.window.start ∧
      b.framesBi = ⟨b.window.start, b.window.start + P.granule, b.window.stop⟩ ∧
      b.window.start + P.granule ≤ b.window.stop := by
  obtain ⟨-, hs, ht, hstop⟩ := mapKernelWindow_bounds b.pool_eq
  obtain ⟨-, hbi, hfa, -, hfit⟩ := FrameAlloc.new_alloc b.frames_eq b.bi_eq hstop
  exact ⟨hs, ht, hstop, hbi, hfa, hfit⟩

/-- What loading the root task leaves in memory. -/
lemma loaded (hrt : I.rootTask.Laid) :
    ∃ stack, Loaded P I.rootTask b.biFrame b.framesBi b.framesRoot b.memBi b.memRoot b.userRoot
      stack := by
  obtain ⟨hs, -, hstop, hbi, hfa, hfit⟩ := b.window_spec
  have ha : P.granule ∣ b.framesBi.next := by
    rw [hfa]
    exact Nat.dvd_add hs dvd_rfl
  have hstop' : b.framesBi.stop ≤ 2 ^ 48 := by
    rw [hfa]
    exact hstop
  rcases spawnRoot_cases (m := b.memBi) hrt ha hstop' (hbi ▸ hs) (by rw [hbi]; omega) I.rootTcb
    (i.tasks I) with ⟨fa', m', root, stack, heq, hload, -⟩ | ⟨-, e, -, heq⟩ | ⟨-, heq | heq⟩
  · rw [b.root_eq] at heq
    obtain ⟨hr, hrest⟩ := Prod.mk.inj (pure_inj.mp heq)
    obtain ⟨hf, hrest'⟩ := Prod.mk.inj hrest
    obtain ⟨hm, -⟩ := Prod.mk.inj hrest'
    rw [hr, hf, hm]
    exact ⟨stack, hload⟩
  · rw [b.root_eq] at heq
    exact absurd heq.symm throw_ne_pure
  · rw [b.root_eq] at heq
    exact absurd heq.symm throw_ne_pure
  · rw [b.root_eq] at heq
    cases heq

section Loaded

variable {b} {stack : ℕ}
  (h : Loaded P I.rootTask b.biFrame b.framesBi b.framesRoot b.memBi b.memRoot b.userRoot stack)
  (hrt : I.rootTask.Laid)
include h

/-- The order of the frames in the window. -/
lemma order : b.window.start + P.granule ≤ b.userRoot ∧ b.userRoot + P.granule ≤ stack ∧
    stack + userStackSize ≤ b.framesRoot.next ∧ b.framesRoot.next ≤ b.window.stop := by
  obtain ⟨-, -, -, -, hfa, -⟩ := b.window_spec
  have hroot := h.root_eq
  have hle := h.next_le
  rw [hfa] at hroot hle
  dsimp only at hroot hle
  exact ⟨by omega, h.stack_ge, h.stack_le, hle⟩

/-- A table of the boot lies in the window. -/
lemma BootTable.inside {t : ℕ} (ht : b.BootTable stack t) :
    P.granule ∣ t ∧ b.window.start + P.granule ≤ t ∧ t + P.granule ≤ b.window.stop ∧
      b.userRoot ≤ t ∧ (t + P.granule ≤ stack ∨ stack + userStackSize ≤ t) := by
  obtain ⟨h1, h2, h3, h4⟩ := ht
  obtain ⟨-, ht, -⟩ := b.window_spec
  obtain ⟨o1, o2, o3, o4⟩ := order h
  exact ⟨h1, by omega, add_granule_le h1 ht (by omega), h2,
    h4.imp_left (add_granule_le h1 h.stack_aligned)⟩

include hrt

/-- **Where the frames of the boot pages lie.** The frame of a page of a segment is in the image,
at the offset of the page; that of a page of the stack is in the stack; the bootinfo page is the
first frame. -/
lemma BootPage.frame_cases {key : ℕ} {x : ℕ × UserPerm} (hx : b.BootPage stack key x) :
    P.granule ∣ x.1 ∧
    ((b.window.start + P.granule ≤ x.1 ∧ x.1 + P.granule ≤ b.userRoot ∧
        x.1 + I.rootTask.base = b.window.start + P.granule + key * P.granule) ∨
      (stack ≤ x.1 ∧ x.1 + P.granule ≤ stack + userStackSize ∧
        x.1 + stackSeg.va = stack + key * P.granule ∧ x.2 = .rwUser) ∨
      (x.1 = b.window.start ∧ x.2 = .roUser ∧ key * P.granule = Abi.bootinfoVa)) := by
  have hg := P.granule_pos
  obtain ⟨hs, -, -, hbi, hfa, -⟩ := b.window_spec
  have hseg := granule_dvd_segAlign P
  have hbase : P.granule ∣ I.rootTask.base := hseg.trans hrt.base_aligned
  have hkey : P.granule ∣ key * P.granule := Dvd.intro_left _ rfl
  have hroot := h.root_eq
  unfold BootPage at hx
  rw [hfa] at hx hroot
  dsimp only at hx hroot
  rcases hx with ⟨s, hmem, h1, h2, rfl⟩ | ⟨h1, h2, rfl⟩ | ⟨h1, h2, rfl⟩
  · have hle := hrt.base_le s hmem
    have hend := hrt.end_le s hmem
    have hlen : P.granule ∣ I.rootTask.image.length := hseg.trans hrt.len_aligned
    have hfit := add_granule_le hkey (Nat.dvd_add hbase hlen) (by omega)
    refine ⟨Nat.dvd_add (Nat.dvd_add hs dvd_rfl) (Nat.dvd_sub hkey hbase), .inl ?_⟩
    dsimp only
    omega
  · have hva : P.granule ∣ stackSeg.va := by cases P <;> decide
    have hend : P.granule ∣ stackSeg.va + stackSeg.memsz := by cases P <;> decide
    have hsize : stackSeg.memsz = userStackSize := rfl
    have hfit := add_granule_le hkey hend h2
    refine ⟨Nat.dvd_add h.stack_aligned (Nat.dvd_sub hkey hva), .inr (.inl ?_)⟩
    dsimp only
    exact ⟨by omega, by omega, by omega, rfl⟩
  · -- the page is the only one of its range
    have hva : P.granule ∣ Abi.bootinfoVa := by cases P <;> decide
    have hpage : key * P.granule = Abi.bootinfoVa := by
      rcases Nat.eq_or_lt_of_le h1 with e | hlt
      · exact e.symm
      · have := add_granule_le hva hkey hlt
        have hsize : (bootinfoSeg P).va + (bootinfoSeg P).memsz = Abi.bootinfoVa + P.granule := rfl
        omega
    have hzero : key * P.granule - (bootinfoSeg P).va = 0 := by
      rw [hpage]
      exact Nat.sub_self _
    rw [hzero, hbi]
    exact ⟨hs, .inr (.inr ⟨rfl, rfl, hpage⟩)⟩

/-- The frame of a boot page lies in the window and is no table. -/
lemma BootPage.inside {key : ℕ} {x : ℕ × UserPerm} (hx : b.BootPage stack key x) :
    P.granule ∣ x.1 ∧ b.window.start ≤ x.1 ∧ x.1 + P.granule ≤ b.window.stop ∧
      ¬ b.BootTable stack x.1 := by
  have hg := P.granule_pos
  obtain ⟨ha, hc⟩ := hx.frame_cases h hrt
  obtain ⟨o1, o2, o3, o4⟩ := order h
  refine ⟨ha, ?_, ?_, fun ht => ?_⟩
  · omega
  · omega
  · obtain ⟨-, t1, t2, t3, t4⟩ := ht.inside h
    omega

/-- The frame of a boot page determines the page. -/
lemma BootPage.key_eq {key key' : ℕ} {x x' : ℕ × UserPerm} (hx : b.BootPage stack key x)
    (hx' : b.BootPage stack key' x') (he : x.1 = x'.1) : key = key' := by
  have hg := P.granule_pos
  obtain ⟨o1, o2, o3, o4⟩ := order h
  have hmul : key * P.granule = key' * P.granule := by
    have hc := (hx.frame_cases h hrt).2
    have hc' := (hx'.frame_cases h hrt).2
    omega
  exact Nat.eq_of_mul_eq_mul_right hg hmul

/-- A boot page is not the first page, and lies in the 48-bit space. -/
lemma BootPage.range {key : ℕ} {x : ℕ × UserPerm} (hx : b.BootPage stack key x) :
    0 < key ∧ key * P.granule < 2 ^ 48 := by
  have hround : ∀ s : LoadSeg, s.memsz ≤ s.pages P * P.granule :=
    fun s => le_roundUp P.granule_pos
  have hpos : 0 < key * P.granule → 0 < key := fun e => Nat.pos_of_mul_pos_right e
  rcases hx with ⟨s, hmem, h1, h2, -⟩ | ⟨h1, h2, -⟩ | ⟨h1, h2, -⟩
  · obtain ⟨hva, hspace⟩ := h.space s hmem
    have := hround s
    exact ⟨hpos (by omega), by omega⟩
  · have hva : 0 < stackSeg.va ∧ stackSeg.va + stackSeg.memsz ≤ 2 ^ 48 := by decide
    exact ⟨hpos (by omega), by omega⟩
  · have hva : 0 < (bootinfoSeg P).va ∧ (bootinfoSeg P).va + (bootinfoSeg P).memsz ≤ 2 ^ 48 := by
      cases P <;> decide
    exact ⟨hpos (by omega), by omega⟩

end Loaded

/-! ### The bootinfo page -/

/-- Storing words leaves the other bytes. -/
lemma writeWords_of_sep {ws : List ℕ} : ∀ {m : Mem} {a c : ℕ}, c < a ∨ a + 8 * ws.length ≤ c →
    writeWords m a ws c = m c := by
  induction ws with
  | nil =>
    intro m a c _
    rfl
  | cons w ws ih =>
    intro m a c hc
    rw [List.length_cons] at hc
    rw [writeWords, ih (by omega)]
    exact if_neg (by omega)

/-- The description of a capability has three words. -/
lemma length_capDesc (v : Cap) : (capDesc v).length = 3 := by
  cases v <;> rfl

/-- The contents of the bootinfo page fit in a page. -/
lemma length_bootinfoWords_le (P : Platform) (c : CNode) :
    8 * (bootinfoWords P c).length ≤ P.granule := by
  have hlen : (bootinfoWords P c).length = 3 + c.slots.length * 3 := by
    unfold bootinfoWords
    rw [List.length_append, List.length_flatMap, List.map_congr_left fun v _ => length_capDesc v]
    simp
  have hle := c.le
  have hmax : 8 * (3 + cnodeSlots * 3) ≤ P.granule := by cases P <;> decide
  omega

/-- Writing the bootinfo page at its alias stores its words in its frame. -/
lemma mem_eq_writeWords :
    b.mem = writeWords b.memRoot b.biFrame (bootinfoWords P b.cnode) := by
  obtain ⟨kva, hkva, hm⟩ := Option.map_eq_some_iff.mp b.mem_eq
  obtain ⟨-, rfl⟩ := checkedAdd_eq_some.mp hkva
  have hphys : physOf (b.biFrame + Abi.kernelVaOffset) = b.biFrame := Nat.add_sub_cancel _ _
  rw [← hm, hphys]

/-- Writing the bootinfo page changes its frame only. -/
lemma mem_eq_of_sep {a : ℕ} (ha : a < b.window.start ∨ b.window.start + P.granule ≤ a) :
    b.mem a = b.memRoot a := by
  obtain ⟨-, -, -, hbi, -⟩ := b.window_spec
  have hle := length_bootinfoWords_le P b.cnode
  rw [b.mem_eq_writeWords, hbi]
  exact writeWords_of_sep (by omega)

/-- **The user tables at the handoff** are a tree of the boot tables that stands for the boot
pages. -/
theorem tree_handoff {stack : ℕ}
    (h : Loaded P I.rootTask b.biFrame b.framesBi b.framesRoot b.memBi b.memRoot b.userRoot
      stack) :
    ∃ lvl pm, UserTables.Inv P b.mem b.userRoot {t | b.BootTable stack t} lvl ∧
      Stands P b.mem b.userRoot pm ∧ ∀ key x, pm key = some x ↔ b.BootPage stack key x := by
  obtain ⟨lvl, htree⟩ := h.tree
  obtain ⟨pm, hst, hpm⟩ := h.pages
  have hword : ∀ t ∈ {t | b.BootTable stack t}, ∀ j < P.entries,
      word b.mem t j = word b.memRoot t j := by
    intro t ht j hj
    obtain ⟨-, hlo, -⟩ := BootTable.inside h ht
    exact word_congr (fun a h1 h2 => b.mem_eq_of_sep (by omega)) hj
  exact ⟨lvl, pm, htree.congr hword, fun va => (htree.translate_congr hword va).trans (hst va), hpm⟩

end Stages

end K0
