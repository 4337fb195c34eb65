import K0.Kernel.Contents

set_option relaxedAutoImplicit false
set_option autoImplicit false

/-!
# User memory

What user code sees of memory is a memory: a partial map from addresses to bytes, some of them
writable. A store changes the byte at its address and no other, because no frame is mapped twice;
and what the kernel does between two stores never changes a byte that user code can see, but only
adds bytes, which are zero. So after any run a byte that user code loads is the last one that it has
stored there, or the one that was there when the page was mapped.

## Main definitions

* `K0.cellAfter`: what an event makes of a byte of user memory.
* `K0.Kernel.userView`: what user code sees of memory.

## Main results

* `K0.Kernel.Reached.view_step`: one event.
* `K0.Kernel.user_memory_refines`: any sequence of events.
-/

namespace K0

open Word Memory Outcome UserTables

/-- What an event makes of a byte of user memory, which may be writable. -/
def cellAfter (va : ℕ) (c : UInt8 × Bool) : Event → UInt8 × Bool
  | .store a b => if a = va ∧ c.2 = true then (b, true) else c
  | .sync _ _ => c
  | .irq _ _ => c

/-- A store. -/
lemma cellAfter_store (va : ℕ) (c : UInt8 × Bool) (a : ℕ) (b : UInt8) :
    cellAfter va c (.store a b) = if a = va ∧ c.2 = true then (b, true) else c := rfl

/-- Only a store changes the byte. -/
lemma cellAfter_of_ne {va : ℕ} {c : UInt8 × Bool} {ev : Event}
    (h : ∀ a byte, ev ≠ .store a byte) : cellAfter va c ev = c := by
  cases ev with
  | store a b => exact absurd rfl (h a b)
  | sync regs esr => rfl
  | irq regs int => rfl

namespace Kernel

/-- What user code sees of memory: the byte that a load finds at an address, if there is one, and
whether a store there is allowed. -/
def userView (P : Platform) (k : Kernel) (va : ℕ) : Option (UInt8 × Bool) :=
  (mmuLeaf P k.mem k.tasks.currentUserRoot va).map fun w =>
    (k.mem ((w &&& P.addrMask) + va % P.granule), decide (el0Writable w))

variable {P : Platform} {I : Image P} {i : Machine} {b : Stages I i} {stack : ℕ} {k k' k₀ : Kernel}
  {live live' : Set ℕ} {lvl lvl' : ℕ → ℕ} {pm pm' : ℕ → Option (ℕ × UserPerm)}
  {hi hi' : ℕ → Option Perm}

/-! ### User memory and the page map -/

/-- User memory, by the page map. -/
lemma Paged.userView_eq_some (h : Paged b stack k live lvl pm)
    (hroot : k.tasks.currentUserRoot = b.userRoot) {va : ℕ} {c : UInt8 × Bool} :
    k.userView P va = some c ↔ va < 2 ^ 48 ∧ ∃ x, pm (pageKey P va) = some x ∧
      c = (k.mem (x.1 + va % P.granule), decide (x.2 = .rwUser)) := by
  unfold userView
  rw [hroot, Option.map_eq_some_iff]
  constructor
  · rintro ⟨w, hw, rfl⟩
    obtain ⟨hva, x, hx, hdescr⟩ := h.stands.of_mmuLeaf h.tree hw
    refine ⟨hva, x, hx, ?_⟩
    rw [hdescr.frame, decide_eq_decide.mpr hdescr.writable]
  · rintro ⟨hva, x, hx, rfl⟩
    obtain ⟨w, hw, hdescr⟩ := h.stands.mmuLeaf_some h.tree hva hx
    refine ⟨w, hw, ?_⟩
    rw [hdescr.frame, decide_eq_decide.mpr hdescr.writable]

/-- User memory has nothing where the page map has no page. -/
lemma Paged.userView_eq_none (h : Paged b stack k live lvl pm)
    (hroot : k.tasks.currentUserRoot = b.userRoot) {va : ℕ} :
    k.userView P va = none ↔ ¬ (va < 2 ^ 48 ∧ ∃ x, pm (pageKey P va) = some x) := by
  rw [Option.eq_none_iff_forall_ne_some]
  constructor
  · rintro hne ⟨hva, x, hx⟩
    exact hne _ ((h.userView_eq_some hroot).mpr ⟨hva, x, hx, rfl⟩)
  · intro hnot c hc
    obtain ⟨hva, x, hx, -⟩ := (h.userView_eq_some hroot).mp hc
    exact hnot ⟨hva, x, hx⟩

section Loaded

variable (hload : Loaded P I.rootTask b.biFrame b.framesBi b.framesRoot b.memBi b.memRoot
  b.userRoot stack) (hrt : I.rootTask.Laid)
include hload hrt

/-- Two addresses of user code that lead to the same byte are one. -/
lemma Paged.va_eq (h : Paged b stack k live lvl pm) (hacc : Accounted b k) {va va' : ℕ}
    {x x' : ℕ × UserPerm} (hva : va < 2 ^ 48) (hva' : va' < 2 ^ 48)
    (hx : pm (pageKey P va) = some x) (hx' : pm (pageKey P va') = some x')
    (he : x.1 + va % P.granule = x'.1 + va' % P.granule) : va = va' := by
  obtain ⟨ha, -⟩ := h.page_notMem hload hrt hacc hx
  obtain ⟨ha', -⟩ := h.page_notMem hload hrt hacc hx'
  have hlt := Nat.mod_lt va P.granule_pos
  have hlt' := Nat.mod_lt va' P.granule_pos
  have hframe : x.1 = x'.1 := by
    by_contra hne
    have hsep := frame_sep ha ha' hne
    omega
  have hkey := h.inj _ _ x x' hx hx' hframe
  rw [pageKey_of_lt hva, pageKey_of_lt hva'] at hkey
  have hmod : va % P.granule = va' % P.granule := by omega
  rw [← Nat.div_add_mod va P.granule, ← Nat.div_add_mod va' P.granule, hkey, hmod]

/-! ### One event -/

/-- A store changes the byte at its address, if that is writable, and no other. -/
lemma Reached.view_store (h : Reached b stack k live lvl pm hi) (a : ℕ) (byte : UInt8) :
    (∀ va c, k.userView P va = some c →
      (k.userStore P a byte).userView P va = some (cellAfter va c (.store a byte))) ∧
      ∀ va, k.userView P va = none → (k.userStore P a byte).userView P va = none := by
  have hroot := h.currentUserRoot
  have h' := h.paged.userStore hload hrt h.accounted hroot a byte
  have hroot' : (k.userStore P a byte).tasks.currentUserRoot = b.userRoot := by
    obtain ⟨m, hm⟩ := k.userStore_eq (P := P) a byte
    rw [hm]
    exact hroot
  refine ⟨fun va c hc => ?_, fun va hv => ?_⟩
  · obtain ⟨hva, x, hx, rfl⟩ := (h.paged.userView_eq_some hroot).mp hc
    refine (h'.userView_eq_some hroot').mpr ⟨hva, x, hx, ?_⟩
    rw [cellAfter_store]
    rcases h.paged.userStore_cases hroot a byte with ⟨heq, hro⟩ | ⟨y, ha, hy, hrw, heq⟩
    · rw [heq, if_neg]
      rintro ⟨rfl, hw⟩
      exact hro x hva hx (of_decide_eq_true hw)
    · have hmem : (k.userStore P a byte).mem =
          Function.update k.mem (y.1 + a % P.granule) byte := by rw [heq]
      rw [hmem]
      by_cases hav : a = va
      · subst hav
        obtain rfl := Option.some.inj (hx.symm.trans hy)
        rw [if_pos ⟨rfl, decide_eq_true hrw⟩, decide_eq_true hrw, Function.update_self]
      · rw [if_neg fun e => hav e.1, Function.update_of_ne]
        intro he
        exact hav (h.paged.va_eq hload hrt h.accounted ha hva hy hx he.symm)
  · rw [h'.userView_eq_none hroot']
    exact (h.paged.userView_eq_none hroot).mp hv

/-- One event changes user memory as a store does, and adds zeros. -/
lemma Reached.view_step (h : Reached b stack k live lvl pm hi) {ev : Event}
    (hs : k.step I.pool ev = some k') :
    (∀ va c, k.userView P va = some c → k'.userView P va = some (cellAfter va c ev)) ∧
      ∀ va, k.userView P va = none →
        k'.userView P va = none ∨ ∃ wr, k'.userView P va = some (0, wr) := by
  by_cases hev : ∃ a byte, ev = .store a byte
  · obtain ⟨a, byte, rfl⟩ := hev
    obtain rfl : k.userStore P a byte = k' := Option.some.inj hs
    obtain ⟨h1, h2⟩ := h.view_store hload hrt a byte
    exact ⟨h1, fun va hv => .inl (h2 va hv)⟩
  · have hne : ∀ a byte, ev ≠ .store a byte := fun a byte e => hev ⟨a, byte, e⟩
    obtain ⟨live', lvl', pm', hi', h', ⟨hext, hadd⟩, hun⟩ := h.step hload hrt hs
    have hlt := fun va => Nat.mod_lt va P.granule_pos
    refine ⟨fun va c hc => ?_, fun va hv => ?_⟩
    · obtain ⟨hva, x, hx, rfl⟩ := (h.paged.userView_eq_some h.currentUserRoot).mp hc
      have hx' := hext.pages _ x hx
      refine (h'.paged.userView_eq_some h'.currentUserRoot).mpr ⟨hva, x, hx', ?_⟩
      rw [cellAfter_of_ne hne,
        hun hne _ x hx' _ (Nat.le_add_right _ _) (Nat.add_lt_add_left (hlt va) _)]
    · cases hv' : k'.userView P va with
      | none => exact .inl rfl
      | some c =>
        -- a new page, so its frame was not mapped and is empty
        obtain ⟨hva, x, hx, rfl⟩ := (h'.paged.userView_eq_some h'.currentUserRoot).mp hv'
        have hnone : pm (pageKey P va) = none := by
          by_contra hno
          obtain ⟨y, hy⟩ := Option.ne_none_iff_exists'.mp hno
          exact (h.paged.userView_eq_none h.currentUserRoot).mp hv ⟨hva, y, hy⟩
        obtain ⟨j, hj⟩ := hadd.pages _ x hnone hx
        have hin : x.1 + va % P.granule < x.1 + P.granule := Nat.add_lt_add_left (hlt va) _
        refine .inr ⟨decide (x.2 = .rwUser), ?_⟩
        rw [hun hne _ x hx _ (Nat.le_add_right _ _) hin,
          h.clean j _ hj _ (Nat.le_add_right _ _) hin]

/-! ### Any sequence of events -/

/-- What a run makes of a byte that user code can see. -/
lemma Reached.view_run (h : Reached b stack k live lvl pm hi) {evs : List Event}
    (hr : k.run I.pool evs = some k') {va : ℕ} {c : UInt8 × Bool}
    (hc : k.userView P va = some c) :
    k'.userView P va = some (evs.foldl (cellAfter va) c) := by
  induction evs generalizing k live lvl pm hi c with
  | nil =>
    obtain rfl := Option.some.inj hr
    exact hc
  | cons ev evs ih =>
    obtain ⟨k₁, hs, hr⟩ := Option.bind_eq_some_iff.mp hr
    obtain ⟨_, _, _, _, h₁, -⟩ := h.step hload hrt hs
    exact ih h₁ hr ((h.view_step hload hrt hs).1 va c hc)

/-- What a run makes of an address where user code sees nothing. -/
lemma Reached.view_new (h : Reached b stack k live lvl pm hi) {evs : List Event}
    (hr : k.run I.pool evs = some k') {va : ℕ} (hv : k.userView P va = none) :
    k'.userView P va = none ∨ ∃ evs₁ evs₂ k₁ wr, evs = evs₁ ++ evs₂ ∧
      k.run I.pool evs₁ = some k₁ ∧ k₁.userView P va = some (0, wr) ∧
      k'.userView P va = some (evs₂.foldl (cellAfter va) (0, wr)) := by
  induction evs generalizing k live lvl pm hi with
  | nil =>
    obtain rfl := Option.some.inj hr
    exact .inl hv
  | cons ev evs ih =>
    obtain ⟨k₁, hs, hr⟩ := Option.bind_eq_some_iff.mp hr
    obtain ⟨_, _, _, _, h₁, -⟩ := h.step hload hrt hs
    rcases (h.view_step hload hrt hs).2 va hv with hv₁ | ⟨wr, hv₁⟩
    · refine (ih h₁ hr hv₁).imp_right ?_
      rintro ⟨evs₁, evs₂, k₂, wr, rfl, hrun, hv₂, hlast⟩
      refine ⟨ev :: evs₁, evs₂, k₂, wr, rfl, ?_, hv₂, hlast⟩
      rw [Kernel.run, hs, Option.bind_some, hrun]
    · refine .inr ⟨[ev], evs, k₁, wr, rfl, ?_, hv₁, h₁.view_run hload hrt hr hv₁⟩
      rw [Kernel.run, hs, Option.bind_some, Kernel.run]

end Loaded

/-- **User memory is a memory.** Take any sequence of events from a state that a run from the
handoff reaches. At an address that user code can load from, it finds after these events the last
byte that they stored there, or the byte of the beginning if there is none or the page is not
writable. At another address it finds nothing, or the page was mapped by one of the events; then the
page began with zero, and again the byte is the last one stored since.

**Proof sketch.** By induction on the events, from `Reached.view_step`: no frame is mapped twice, so
a store shows at one address only; the kernel writes into tables and new objects, which are no
pages; and a frame that is not mapped is empty. -/
theorem user_memory_refines {elf : List UInt8} (helf : Elf.flatten elf = some I.rootTask)
    (hboot : boot I i = some k₀) (hr : k₀.Reaches I.pool k) {evs : List Event}
    (hrun : k.run I.pool evs = some k') (va : ℕ) :
    (∀ c, k.userView P va = some c →
      k'.userView P va = some (evs.foldl (cellAfter va) c)) ∧
    (k.userView P va = none →
      k'.userView P va = none ∨ ∃ evs₁ evs₂ k₁ wr, evs = evs₁ ++ evs₂ ∧
        k.run I.pool evs₁ = some k₁ ∧ k₁.userView P va = some (0, wr) ∧
        k'.userView P va = some (evs₂.foldl (cellAfter va) (0, wr))) := by
  obtain ⟨segs, hflat⟩ := Elf.flatten_eq_some helf
  obtain ⟨b, stack, live, lvl, pm, hi, hload, h⟩ := reached_of_reaches hflat.laid hboot hr
  exact ⟨fun c hc => h.view_run hload hflat.laid hrun hc,
    fun hv => h.view_new hload hflat.laid hrun hv⟩

/-- The hypotheses hold on the small machine, where the new page is stored to. -/
theorem user_memory_refines_smallMachine :
    ∃ k k' : Kernel, k.run smallImage.pool [.store 0x404000 7, .store 0x404001 9] = some k' ∧
      k'.userView .apple 0x404000 = some (7, true) := by
  obtain ⟨k₀, k₁, k₂, h⟩ := exists_mapFirst
  have hview : k₂.userView .apple 0x404000 = some (k₂.mem 0x800000000, true) := by
    unfold userView
    rw [h.after]
    rfl
  have hrun : k₂.run smallImage.pool [.store 0x404000 7, .store 0x404001 9] =
      some ((k₂.userStore .apple 0x404000 7).userStore .apple 0x404001 9) := rfl
  obtain ⟨hkept, -⟩ :=
    user_memory_refines flatten_smallElf h.boot (h.reaches₁.step _ h.map) hrun 0x404000
  exact ⟨k₂, _, hrun, hkept _ hview⟩

end Kernel

end K0
