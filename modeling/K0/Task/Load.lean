import K0.Mm.UserRange
import K0.Task.Spawn
import Mathlib.Data.List.Pairwise

set_option relaxedAutoImplicit false
set_option autoImplicit false

/-!
# Loading the root task

What `spawnRoot` does with a root task that keeps the layout of the build: segments that are
aligned for both granules, lie in ascending order in the image and do not overlap, and an entry
point in a text segment. The frames of the window are used from its start on: the image, the root
table, tables, the stack, more tables. The address space then has the pages of the segments, the
stack and the bootinfo page, and nothing else.

## Main definitions

* `K0.RootTask.Laid`: the layout that the build guarantees.
* `K0.SegPage`: a page of a segment, with its frame and permission.
* `K0.Loaded`: the result of loading a root task.

## Main results

* `K0.mapSegs_cases`: the loop over the segments.
* `K0.spawnRoot_cases`: loading succeeds as described by `Loaded`, or fails in the mapping
  functions: because a segment has no place in the user space, or because the window is too small.
-/

namespace K0

open Word Memory Outcome UserTables

/-! ### The layout of the build -/

/-- The alignment of segments, which suits both granules. -/
def segAlign : ℕ := 16 * 1024

/-- The largest image. -/
def maxFlatSize : ℕ := 1024 * 1024

/-- The layout that the build guarantees for the root task. -/
structure RootTask.Laid (rt : RootTask) : Prop where
  few : rt.segments.length ≤ 4
  nonempty : rt.segments ≠ []
  base_aligned : segAlign ∣ rt.base
  len_aligned : segAlign ∣ rt.image.length
  len_le : rt.image.length ≤ maxFlatSize
  fits : rt.base + rt.image.length < 2 ^ 64
  aligned : ∀ s ∈ rt.segments, segAlign ∣ s.va
  memsz_pos : ∀ s ∈ rt.segments, 0 < s.memsz
  base_le : ∀ s ∈ rt.segments, rt.base ≤ s.va
  end_le : ∀ s ∈ rt.segments, s.va + s.memsz ≤ rt.base + rt.image.length
  apart : rt.segments.Pairwise fun s t => s.va + s.memsz ≤ t.va
  entry : ∃ s ∈ rt.segments, s.kind = .text ∧ s.va ≤ rt.entry ∧ rt.entry < s.va + s.memsz

/-- The alignment of segments suits both granules. -/
lemma granule_dvd_segAlign (P : Platform) : P.granule ∣ segAlign := by
  cases P <;> decide

/-- Two members of an ascending list of ranges are the same, or one ends before the other
starts. -/
lemma eq_or_apart_of_pairwise {α : Type} {lo hi : α → ℕ} {l : List α}
    (h : l.Pairwise fun s t => hi s ≤ lo t) {s t : α} (hs : s ∈ l) (ht : t ∈ l) :
    s = t ∨ hi s ≤ lo t ∨ hi t ≤ lo s := by
  have hsymm : Std.Symm fun s t : α => s = t ∨ hi s ≤ lo t ∨ hi t ≤ lo s :=
    ⟨fun _ _ e => e.imp Eq.symm Or.symm⟩
  have hpair : l.Pairwise fun s t => s = t ∨ hi s ≤ lo t ∨ hi t ≤ lo s :=
    h.imp fun e => .inr (.inl e)
  exact hpair.forall_of_forall (fun _ _ => .inl rfl) hs ht

namespace RootTask.Laid

variable {rt : RootTask}

/-- The image is not empty. -/
lemma len_pos (h : rt.Laid) : 0 < rt.image.length := by
  obtain ⟨s, hs, -⟩ := h.entry
  have := h.memsz_pos s hs
  have := h.base_le s hs
  have := h.end_le s hs
  omega

/-- Only a text segment holds the entry point. -/
lemma entry_text (h : rt.Laid) {s : LoadSeg} (hs : s ∈ rt.segments) (h1 : s.va ≤ rt.entry)
    (h2 : rt.entry < s.va + s.memsz) : s.kind = .text := by
  obtain ⟨t, ht, hk, h3, h4⟩ := h.entry
  rcases eq_or_apart_of_pairwise h.apart hs ht with rfl | h' | h'
  · exact hk
  · omega
  · omega

end RootTask.Laid

/-- The tasks after loading: the context and the address space of the root task are set. -/
def rootTasks (rootTcb : ℕ) (rt : RootTask) (root : ℕ) (s : Tasks) : Tasks :=
  (s.setCtx rootTcb { Context.zeroed with
    elr := UInt64.ofNat rt.entry, sp := UInt64.ofNat userStackTop, spsr := 0 }).modTcb .ttbr0Pa
      rootTcb fun t => { t with ttbr0Pa := root }

/-! ### Failures -/

/-- Loading fails under the given conditions: in a mapping function for a reason other than frames,
or because frames are short or by a panic. -/
def LoadStuck {α : Type} (clash short : Prop) (x : Fallible SpawnError α) : Prop :=
  (clash ∧ ∃ e, e ≠ .outOfFrames ∧ x = throw (.mmu e)) ∨
    (short ∧ (x = throw (.mmu .outOfFrames) ∨ x = none))

section Stuck

variable {α β : Type} {clash clash' short short' wide : Prop}

/-- The failure of a mapping function is one of loading. -/
lemma UserTables.Stuck.load {x : Fallible MmuError α} (h : Stuck clash short wide x)
    (hw : ¬ wide) : LoadStuck clash short (mapError .mmu x) := by
  rcases h with ⟨hc, e, he, rfl⟩ | ⟨hs, rfl⟩ | ⟨hwide, -⟩
  · exact .inl ⟨hc, e, he, rfl⟩
  · exact .inr ⟨hs, .inl rfl⟩
  · exact absurd hwide hw

/-- A failure is the result of the whole sequence. -/
lemma LoadStuck.bind {x : Fallible SpawnError α} (h : LoadStuck clash short x)
    (f : α → Fallible SpawnError β) : LoadStuck clash short (x >>= f) := by
  rcases h with ⟨hc, e, he, rfl⟩ | ⟨hs, rfl | rfl⟩
  · exact .inl ⟨hc, e, he, rfl⟩
  · exact .inr ⟨hs, .inl rfl⟩
  · exact .inr ⟨hs, .inr rfl⟩

/-- Weaker conditions. -/
lemma LoadStuck.imp {x : Fallible SpawnError α} (h : LoadStuck clash short x)
    (hc : clash → clash') (hi : short → short') : LoadStuck clash' short' x :=
  Or.imp (And.imp_left hc) (And.imp_left hi) h

/-- Loading that is stuck does not fail because of the layout. -/
lemma LoadStuck.ne_badLayout {x : Fallible SpawnError α} (h : LoadStuck clash short x) :
    x ≠ throw .badLayout := by
  rcases h with ⟨-, e, -, rfl⟩ | ⟨-, rfl | rfl⟩
  · exact nofun
  · exact nofun
  · exact nofun

/-- Taking consecutive frames of a window that has aliases. -/
lemma FrameAlloc.allocContig_load {P : Platform} {fa : FrameAlloc} {m : Mem} {n : ℕ} (hn : 0 < n)
    (ha : P.granule ∣ fa.next) (hstop : fa.stop ≤ 2 ^ 48) :
    (fa.next + n * P.granule ≤ fa.stop ∧
      (mapError .mmu (fa.allocContig P n m) : Fallible SpawnError _) =
        pure (fa.next, { fa with next := fa.next + n * P.granule },
          clear m fa.next (n * P.granule))) ∨
    LoadStuck False (fa.stop < fa.next + n * P.granule) (mapError .mmu (fa.allocContig P n m)) := by
  rcases FrameAlloc.allocContig_cases (P := P) (m := m) hn ha (by omega) with
    ⟨hfit, -, h⟩ | ⟨hshort, h⟩ | ⟨hwide, -⟩
  · exact .inl ⟨hfit, mapError_eq_pure.mpr h⟩
  · rw [h]
    exact .inr (.inr ⟨hshort, .inl rfl⟩)
  · omega

end Stuck

/-! ### The segments -/

/-- The page with number `k` belongs to segment `s`, and `x` are its frame and permission. The
image starts at user address `base` and in frame `frames`. -/
def SegPage (P : Platform) (base frames : ℕ) (s : LoadSeg) (k : ℕ) (x : ℕ × UserPerm) : Prop :=
  s.va ≤ k * P.granule ∧ k * P.granule < s.va + s.memsz ∧
    x = (frames + (k * P.granule - base), s.kind.perm)

/-- A range that is laid over free pages adds its pages to a page map. -/
lemma UserTables.layPages_eq_some {P : Platform} {pm : ℕ → Option (ℕ × UserPerm)}
    {key n frame k : ℕ} {perm : UserPerm} {x : ℕ × UserPerm}
    (hfree : ∀ k, key ≤ k → k < key + n → pm k = none) :
    layPages P pm key n frame perm k = some x ↔
      pm k = some x ∨ (key ≤ k ∧ k < key + n ∧ x = ((frame + (k - key)) * P.granule, perm)) := by
  unfold layPages
  by_cases h : key ≤ k ∧ k < key + n
  · rw [if_pos h, hfree k h.1 h.2]
    constructor
    · intro e
      exact .inr ⟨h.1, h.2, (Option.some.inj e).symm⟩
    · rintro (e | ⟨-, -, rfl⟩)
      · cases e
      · rfl
  · rw [if_neg h]
    exact ⟨.inl, fun e => e.resolve_right fun e' => h ⟨e'.1, e'.2.1⟩⟩

/-- The number of pages of a segment. -/
def LoadSeg.pages (P : Platform) (s : LoadSeg) : ℕ := (s.memsz + (P.granule - 1)) / P.granule

/-- The segment lies in the user space. -/
def LoadSeg.Fits (P : Platform) (s : LoadSeg) : Prop :=
  0 < s.va ∧ s.va + s.pages P * P.granule ≤ 2 ^ 48

instance (P : Platform) (s : LoadSeg) : Decidable (s.Fits P) :=
  inferInstanceAs (Decidable (_ ∧ _))

/-- The page with number `k` belongs to the segment. -/
def LoadSeg.Covers (P : Platform) (s : LoadSeg) (k : ℕ) : Prop :=
  s.va ≤ k * P.granule ∧ k * P.granule < s.va + s.memsz

/-- The pages of a segment, rounded up. -/
lemma LoadSeg.lt_pages_iff {P : Platform} {s : LoadSeg} {j : ℕ} :
    j < s.pages P ↔ j * P.granule < s.memsz := by
  have hg := P.granule_pos
  unfold pages
  rw [Nat.lt_iff_add_one_le, Nat.le_div_iff_mul_le hg, Nat.succ_mul]
  omega

/-- The pages of a segment cover its rounded range. -/
lemma LoadSeg.mem_pages_iff {P : Platform} {s : LoadSeg} {va : ℕ} (hs : P.granule ∣ s.va) :
    s.va ≤ va / P.granule * P.granule ∧ va / P.granule * P.granule < s.va + s.memsz ↔
      s.va ≤ va ∧ va < s.va + s.pages P * P.granule := by
  have hg := P.granule_pos
  obtain ⟨key, hkey⟩ := hs
  rw [Nat.mul_comm] at hkey
  have hle : s.va ≤ va / P.granule * P.granule ↔ s.va ≤ va := by
    rw [hkey, Nat.mul_le_mul_right_iff hg, Nat.le_div_iff_mul_le hg]
  have hlt : va < s.va + s.pages P * P.granule ↔ va / P.granule < key + s.pages P := by
    rw [hkey, ← Nat.add_mul, Nat.div_lt_iff_lt_mul hg]
  rw [hle, hlt]
  refine and_congr_right fun hva => ?_
  have hkva : key ≤ va / P.granule := by
    rw [Nat.le_div_iff_mul_le hg, ← hkey]
    exact hva
  have hsub : (va / P.granule - key) * P.granule = va / P.granule * P.granule - s.va := by
    rw [hkey, Nat.sub_mul]
  have hpages := LoadSeg.lt_pages_iff (P := P) (s := s) (j := va / P.granule - key)
  have hle' := hle.mpr hva
  omega

section Segs

variable {P : Platform} {base imageEnd frames entry root : ℕ}

/-- The pages of a segment that is laid over free pages. -/
lemma layPages_seg {s : LoadSeg} {pm : ℕ → Option (ℕ × UserPerm)} {key frame : ℕ}
    (hkey : s.va = key * P.granule) (hframe : frames + (s.va - base) = frame * P.granule)
    (hb : base ≤ s.va) (hfree : ∀ k, key ≤ k → k < key + s.pages P → pm k = none) (k : ℕ)
    (x : ℕ × UserPerm) :
    layPages P pm key (s.pages P) frame s.kind.perm k = some x ↔
      pm k = some x ∨ SegPage P base frames s k x := by
  have hg := P.granule_pos
  rw [layPages_eq_some hfree]
  refine or_congr Iff.rfl ?_
  unfold SegPage
  by_cases hle : key ≤ k
  · have hva : s.va ≤ k * P.granule := by
      rw [hkey]
      exact Nat.mul_le_mul_right _ hle
    have hsub : (k - key) * P.granule = k * P.granule - s.va := by
      rw [hkey, Nat.sub_mul]
    have hlt := LoadSeg.lt_pages_iff (P := P) (s := s) (j := k - key)
    have hx : (frame + (k - key)) * P.granule = frames + (k * P.granule - base) := by
      rw [Nat.add_mul, ← hframe, hsub]
      omega
    rw [hx]
    refine and_congr ⟨fun _ => hva, fun _ => hle⟩ (and_congr ?_ Iff.rfl)
    omega
  · have hva : ¬ s.va ≤ k * P.granule := by
      rw [hkey]
      exact fun e => hle (Nat.le_of_mul_le_mul_right e hg)
    exact ⟨fun e => absurd e.1 hle, fun e => absurd e.1 hva⟩

/-- **Mapping the pages of a segment.** The image starts at user address `base` and in frame
`frames`. -/
theorem UserTables.Inv.mapSeg_cases (base frames : ℕ) {s : LoadSeg} {fa : FrameAlloc} {m : Mem}
    {live : Set ℕ} {lvl : ℕ → ℕ} {pm : ℕ → Option (ℕ × UserPerm)} (hva : P.granule ∣ s.va)
    (hpa : P.granule ∣ frames + (s.va - base)) (hb : base ≤ s.va) (hpos : 0 < s.memsz)
    (hfit : frames + (s.va - base) + s.pages P * P.granule ≤ 2 ^ 48)
    (h : UserTables.Inv P m root live lvl) (hs : Supply P fa live) (hst : Stands P m root pm) :
    (∃ fa' m' live' pm', UserSpace.mapRange P ⟨root⟩ s.va (frames + (s.va - base))
        (s.pages P * P.granule) s.kind.perm fa m = pure (fa', m') ∧
      Grown P root fa fa' m m' live live' ∧
      fa'.next ≤ fa.next + cost P m root s.va (s.pages P) * P.granule ∧ Stands P m' root pm' ∧
      (∀ k x, pm' k = some x ↔ pm k = some x ∨ SegPage P base frames s k x) ∧ s.Fits P) ∨
    Stuck (¬ s.Fits P ∨ ∃ k x, pm k = some x ∧ s.Covers P k)
      (fa.stop < fa.next + cost P m root s.va (s.pages P) * P.granule) (2 ^ 48 < fa.stop)
      (UserSpace.mapRange P ⟨root⟩ s.va (frames + (s.va - base)) (s.pages P * P.granule)
        s.kind.perm fa m) := by
  obtain ⟨key, hkey⟩ := hva
  obtain ⟨frame, hframe⟩ := hpa
  rw [Nat.mul_comm] at hkey hframe
  have hpages : 0 < s.pages P := LoadSeg.lt_pages_iff.mpr (by omega)
  have hfits : (frame + s.pages P) * P.granule ≤ 2 ^ 48 := by
    rw [Nat.add_mul, ← hframe]
    exact hfit
  rcases h.mapRange_cases s.kind.perm hkey hframe hpages hfits hs hst with
    ⟨fa', m', live', hmap, hgr, hnext, hst', hfree, hpos, hspace⟩ | hstuck
  · refine .inl ⟨fa', m', live', _, hmap, hgr, hnext, hst', layPages_seg hkey hframe hb hfree, ?_⟩
    unfold LoadSeg.Fits
    rw [hkey, ← Nat.add_mul]
    exact ⟨Nat.mul_pos hpos P.granule_pos, hspace⟩
  · refine .inr (hstuck.imp_left (And.imp_left ?_))
    unfold LoadSeg.Fits
    rw [hkey, ← Nat.add_mul]
    rintro (rfl | hlt | ⟨k, h1, h2, hk⟩)
    · exact .inl (by omega)
    · exact .inl (by omega)
    · obtain ⟨x, hx⟩ := Option.ne_none_iff_exists'.mp hk
      have hin := LoadSeg.lt_pages_iff.mp (show k - key < s.pages P by omega)
      have hsub : (k - key) * P.granule = k * P.granule - key * P.granule := Nat.sub_mul _ _ _
      have hle := Nat.mul_le_mul_right P.granule h1
      exact .inr ⟨k, x, hx, by omega, by omega⟩

/-- What the loop over the segments relies on. -/
structure SegOk (P : Platform) (base imageEnd entry : ℕ) (s : LoadSeg) : Prop where
  aligned : P.granule ∣ s.va
  memsz_pos : 0 < s.memsz
  base_le : base ≤ s.va
  end_le : s.va + s.memsz ≤ imageEnd
  text : s.va ≤ entry → entry < s.va + s.memsz → s.kind = .text

/-- One segment is mapped as its rounded range. -/
lemma mapSegs_cons {s : LoadSeg} (h : SegOk P base imageEnd entry s) (h64 : imageEnd < 2 ^ 64)
    (hfit : frames + (imageEnd - base) ≤ 2 ^ 48) (us : UserSpace) (rest : List LoadSeg)
    (fa : FrameAlloc) (m : Mem) :
    mapSegs P us base imageEnd frames entry (s :: rest) fa m =
      (mapError .mmu (us.mapRange P s.va (frames + (s.va - base))
          (s.pages P * P.granule) s.kind.perm fa m) >>= fun x =>
        mapSegs P us base imageEnd frames entry rest x.1 x.2) := by
  obtain ⟨h1, h2, h3, h4, h5⟩ := h
  have hmod : s.va % P.granule = 0 := Nat.mod_eq_zero_of_dvd h1
  rw [mapSegs, pure_bind_eq (orError_eq_pure.mpr (checkedAdd_of_lt (by omega))),
    if_neg (by omega), pure_bind_eq (orPanic_eq_pure.mpr (checkedAdd_of_lt (by omega)))]
  have hkind : ¬ (s.va ≤ entry ∧ entry < s.va + s.memsz ∧ s.kind ≠ .text) :=
    fun e => e.2.2 (h5 e.1 e.2.1)
  simp only [if_neg hkind, LoadSeg.pages]

/-- **The loop over the segments** maps their pages, with at most six frames for tables for each
segment, or is stuck in the mapping functions. Ascending segments clash only with the bounds of the
space or with pages that were mapped before.

**Proof sketch.** Induction on the segments, by `Inv.mapSeg_cases`: the rounded segment lies in
the image, so it has at most as many pages as one table has entries. -/
theorem mapSegs_cases (hb : P.granule ∣ base) (hf : P.granule ∣ frames)
    (he : P.granule ∣ imageEnd) (h64 : imageEnd < 2 ^ 64) (hlen : imageEnd - base ≤ maxFlatSize)
    (hfit : frames + (imageEnd - base) ≤ 2 ^ 48) (segs : List LoadSeg) :
    ∀ {fa : FrameAlloc} {m : Mem} {live : Set ℕ} {lvl : ℕ → ℕ} {pm : ℕ → Option (ℕ × UserPerm)},
      (∀ s ∈ segs, SegOk P base imageEnd entry s) →
      (segs.Pairwise fun s t => s.va + s.memsz ≤ t.va) → UserTables.Inv P m root live lvl →
      Supply P fa live → fa.stop ≤ 2 ^ 48 → Stands P m root pm →
      (∃ fa' m' live' pm', mapSegs P ⟨root⟩ base imageEnd frames entry segs fa m =
          pure (fa', m') ∧ Grown P root fa fa' m m' live live' ∧
        fa'.next ≤ fa.next + segs.length * 6 * P.granule ∧ Stands P m' root pm' ∧
        (∀ k x, pm' k = some x ↔ pm k = some x ∨ ∃ s ∈ segs, SegPage P base frames s k x) ∧
        ∀ s ∈ segs, s.Fits P) ∨
      LoadStuck (∃ s ∈ segs, ¬ s.Fits P ∨ ∃ k x, pm k = some x ∧ s.Covers P k)
        (fa.stop < fa.next + segs.length * 6 * P.granule)
        (mapSegs P ⟨root⟩ base imageEnd frames entry segs fa m) := by
  induction segs with
  | nil =>
    intro fa m live lvl pm _ _ h hs _ hst
    exact .inl ⟨fa, m, live, pm, rfl, .refl h hs, Nat.le_add_right _ _, hst, by simp, by simp⟩
  | cons s rest ih =>
    intro fa m live lvl pm hsegs hapart h hs hstop hst
    obtain ⟨hhead, hrest⟩ := List.pairwise_cons.mp hapart
    have hg := P.granule_pos
    have hok := hsegs s List.mem_cons_self
    have hb' := hok.base_le
    have he' := hok.end_le
    -- the rounded segment lies in the image
    have hround : s.pages P * P.granule ≤ imageEnd - s.va :=
      (roundUp_le_iff hg (Nat.dvd_sub he hok.aligned)).mpr (by omega)
    have hentries : s.pages P ≤ P.entries := by
      have hmax : maxFlatSize ≤ P.entries * P.granule := by cases P <;> decide
      exact Nat.le_of_mul_le_mul_right (by omega) hg
    have hcost := Nat.mul_le_mul_right P.granule
      (@cost_le_six P m root s.va _ hentries)
    have hlen6 : (s :: rest).length * 6 * P.granule =
        6 * P.granule + rest.length * 6 * P.granule := by
      rw [List.length_cons, Nat.add_mul, Nat.add_mul, Nat.one_mul, Nat.add_comm]
    rw [mapSegs_cons hok h64 hfit, hlen6]
    rcases h.mapSeg_cases base frames hok.aligned (Nat.dvd_add hf (Nat.dvd_sub hok.aligned hb)) hb'
      hok.memsz_pos (by omega) hs hst with
      ⟨fa₁, m₁, live₁, pm₁, hmap, hgr, hnext, hst₁, hpm, hpos⟩ | hstuck
    · rw [pure_bind_eq (mapError_eq_pure.mpr hmap)]
      obtain ⟨lvl₁, h₁⟩ := hgr.tree
      rcases ih (fun t ht => hsegs t (List.mem_cons_of_mem _ ht)) hrest h₁ hgr.supply
        (hgr.stop.trans_le hstop) hst₁ with
        ⟨fa', m', live', pm', hd, hgr', hnext', hst', hpm', hpos'⟩ | hstuck
      · refine .inl ⟨fa', m', live', pm', hd, hgr.trans hgr', by omega, hst', fun k x => ?_,
          List.forall_mem_cons.mpr ⟨hpos, hpos'⟩⟩
        rw [hpm', hpm, List.exists_mem_cons_iff, or_assoc]
      · refine .inr (hstuck.imp ?_ fun hlt => ?_)
        · rintro ⟨t, ht, hbad | ⟨k, x, hx, hcov⟩⟩
          · exact ⟨t, List.mem_cons_of_mem _ ht, .inl hbad⟩
          · rcases (hpm k x).mp hx with hx | ⟨-, hlt, -⟩
            · exact ⟨t, List.mem_cons_of_mem _ ht, .inr ⟨k, x, hx, hcov⟩⟩
            · -- the segments have no page in common
              have hle := hhead t ht
              have hge := hcov.1
              omega
        · rw [hgr.stop] at hlt
          omega
    · exact .inr (((hstuck.load (by omega)).bind _).imp
        (fun hbad => ⟨s, List.mem_cons_self, hbad⟩) fun hlt => by omega)

end Segs

/-! ### The stack and the bootinfo page -/

/-- The user stack, as a segment. -/
def stackSeg : LoadSeg := ⟨userStackTop - userStackSize, userStackSize, .rw⟩

/-- The bootinfo page, as a segment. -/
def bootinfoSeg (P : Platform) : LoadSeg := ⟨Abi.bootinfoVa, P.granule, .ro⟩

/-- A page of the user stack, with its frame and permission. -/
def StackPage (P : Platform) (stack : ℕ) : ℕ → ℕ × UserPerm → Prop :=
  SegPage P stackSeg.va stack stackSeg

/-- The bootinfo page, with its frame and permission. -/
def BootinfoPage (P : Platform) (bootinfoPa : ℕ) : ℕ → ℕ × UserPerm → Prop :=
  SegPage P (bootinfoSeg P).va bootinfoPa (bootinfoSeg P)

/-- Clearing frames of a supply leaves the tables alone. -/
lemma UserTables.Supply.word_clear {P : Platform} {fa : FrameAlloc} {m : Mem} {root len : ℕ}
    {live : Set ℕ} {lvl : ℕ → ℕ} (hs : Supply P fa live) (h : UserTables.Inv P m root live lvl)
    (hfit : fa.next + len ≤ fa.stop) :
    ∀ t ∈ live, ∀ i < P.entries, word (clear m fa.next len) t i = word m t i := by
  intro t ht i hi
  have hle := entry_le hi
  refine read64_clear_of_sep ?_
  rcases hs.apart t ht with hlt | hge
  · have := add_granule_le (h.aligned t ht) hs.aligned hlt
    omega
  · omega

section Tail

variable (P : Platform)

/-- The last part of `spawnRoot`, after the segments. -/
def spawnTail (rootTcb : ℕ) (rt : RootTask) (bootinfoPa root : ℕ) (s : Tasks) (fa : FrameAlloc)
    (m : Mem) : Fallible SpawnError (ℕ × FrameAlloc × Mem × Tasks) := do
  let (stackFrames, fa, m) ← mapError .mmu (fa.allocContig P (userStackSize / P.granule) m)
  let (fa, m) ← mapError .mmu (UserSpace.mapRange P ⟨root⟩ (userStackTop - userStackSize)
    stackFrames userStackSize .rwUser fa m)
  let (fa, m) ← mapError .mmu
    (UserSpace.mapRange P ⟨root⟩ Abi.bootinfoVa bootinfoPa P.granule .roUser fa m)
  pure (root, fa, m, rootTasks rootTcb rt root s)

variable {P} {fa : FrameAlloc} {m : Mem} {live : Set ℕ} {lvl : ℕ → ℕ}
  {pm : ℕ → Option (ℕ × UserPerm)} {root bootinfoPa : ℕ}

/-- **The stack and the bootinfo page.** -/
theorem spawnTail_cases (rootTcb : ℕ) (rt : RootTask) (s : Tasks)
    (h : UserTables.Inv P m root live lvl) (hs : Supply P fa live) (hstop : fa.stop ≤ 2 ^ 48)
    (hst : Stands P m root pm) (hbi : P.granule ∣ bootinfoPa)
    (hbi' : bootinfoPa + P.granule ≤ 2 ^ 48) :
    (∃ fa' m' live' pm', spawnTail P rootTcb rt bootinfoPa root s fa m =
        pure (root, fa', m', rootTasks rootTcb rt root s) ∧
      Grown P root { fa with next := fa.next + userStackSize } fa'
        (clear m fa.next userStackSize) m' live live' ∧
      fa'.next ≤ fa.next + userStackSize + 9 * P.granule ∧
      fa.next + userStackSize ≤ fa.stop ∧ Stands P m' root pm' ∧
      ∀ k x, pm' k = some x ↔
        pm k = some x ∨ StackPage P fa.next k x ∨ BootinfoPage P bootinfoPa k x) ∨
    LoadStuck (∃ k x, pm k = some x ∧ (stackSeg.Covers P k ∨ (bootinfoSeg P).Covers P k))
      (fa.stop < fa.next + userStackSize + 9 * P.granule)
      (spawnTail P rootTcb rt bootinfoPa root s fa m) := by
  have hg := P.granule_pos
  have hsize : stackSeg.pages P * P.granule = userStackSize := by cases P <;> decide
  have hpages : userStackSize / P.granule = stackSeg.pages P := by cases P <;> decide
  have hone : (bootinfoSeg P).pages P = 1 := by cases P <;> decide
  unfold spawnTail
  rw [hpages]
  rcases FrameAlloc.allocContig_load (P := P) (m := m) (n := stackSeg.pages P)
    (by cases P <;> decide) hs.aligned hstop with ⟨hfit, hd⟩ | hstuck
  · rw [pure_bind_eq hd]
    dsimp only
    rw [hsize] at hfit ⊢
    -- the frames of the stack are cleared, which leaves the tables alone
    have hword := hs.word_clear h hfit
    have h₁ := h.congr hword
    have hs₁ : Supply P { fa with next := fa.next + userStackSize } live :=
      ⟨Nat.dvd_add hs.aligned (Dvd.intro_left _ hsize), hfit, hs.stop_lt, fun t ht => by
        have := hs.apart t ht
        dsimp only
        omega⟩
    have hst₁ : Stands P (clear m fa.next userStackSize) root pm :=
      fun va => (h.translate_congr hword va).trans (hst va)
    have hstack := h₁.mapSeg_cases stackSeg.va fa.next (s := stackSeg) (by cases P <;> decide)
      (by rw [Nat.sub_self, Nat.add_zero]; exact hs.aligned) le_rfl (by decide)
      (by rw [Nat.sub_self, Nat.add_zero, hsize]; omega) hs₁ hst₁
    have hcost := Nat.mul_le_mul_right P.granule
      (@cost_le_six P (clear m fa.next userStackSize) root stackSeg.va (stackSeg.pages P)
        (by cases P <;> decide))
    rw [Nat.sub_self, Nat.add_zero, hsize] at hstack
    rcases hstack with ⟨fa₂, m₂, live₂, pm₂, hmap, hgr, hnext, hst₂, hpm₂, -⟩ | hstuck
    · have hd₂ : mapError SpawnError.mmu (UserSpace.mapRange P ⟨root⟩
          (userStackTop - userStackSize) fa.next userStackSize .rwUser
          { fa with next := fa.next + userStackSize } (clear m fa.next userStackSize)) =
          pure (fa₂, m₂) := mapError_eq_pure.mpr hmap
      rw [pure_bind_eq hd₂]
      dsimp only
      obtain ⟨lvl₂, h₂⟩ := hgr.tree
      have hpage := h₂.mapSeg_cases (bootinfoSeg P).va bootinfoPa (s := bootinfoSeg P)
        (by cases P <;> decide) (by rw [Nat.sub_self, Nat.add_zero]; exact hbi) le_rfl hg
        (by rw [Nat.sub_self, Nat.add_zero, hone, Nat.one_mul]; exact hbi') hgr.supply hst₂
      have hcost' : cost P m₂ root (bootinfoSeg P).va 1 ≤ 3 := by
        rw [cost_succ_eq, Nat.add_zero, Nat.sub_self]
        exact missing_le_three P m₂ root _
      have hcost'' := Nat.mul_le_mul_right P.granule hcost'
      have hnine : 9 * P.granule = 6 * P.granule + 3 * P.granule := by omega
      have hstop₂ := hgr.stop
      dsimp only at hnext hstop₂
      rw [Nat.sub_self, Nat.add_zero, hone, Nat.one_mul] at hpage
      rcases hpage with ⟨fa', m', live', pm', hmap', hgr', hnext', hst', hpm', -⟩ | hstuck
      · have hd₃ : mapError SpawnError.mmu (UserSpace.mapRange P ⟨root⟩ Abi.bootinfoVa bootinfoPa
            P.granule .roUser fa₂ m₂) = pure (fa', m') := mapError_eq_pure.mpr hmap'
        rw [pure_bind_eq hd₃]
        refine .inl ⟨fa', m', live', pm', rfl, hgr.trans hgr', by omega, hfit, hst', fun k x => ?_⟩
        rw [hpm', hpm₂, or_assoc]
        rfl
      · have hstuck' : LoadStuck _ _ (mapError SpawnError.mmu (UserSpace.mapRange P ⟨root⟩
            Abi.bootinfoVa bootinfoPa P.granule .roUser fa₂ m₂)) := hstuck.load (by omega)
        refine .inr ((hstuck'.bind _).imp ?_ fun hlt => by omega)
        rintro (hbad | ⟨k, x, hx, hcov⟩)
        · exact absurd (by cases P <;> decide) hbad
        · rcases (hpm₂ k x).mp hx with hx | ⟨hge, hlt, -⟩
          · exact ⟨k, x, hx, .inr hcov⟩
          · -- the stack lies above the bootinfo page
            have hbelow : (bootinfoSeg P).va + (bootinfoSeg P).memsz ≤ stackSeg.va := by
              cases P <;> decide
            have hin := hcov.2
            omega
    · have hstuck' : LoadStuck _ _ (mapError SpawnError.mmu (UserSpace.mapRange P ⟨root⟩
          (userStackTop - userStackSize) fa.next userStackSize .rwUser
          { fa with next := fa.next + userStackSize } (clear m fa.next userStackSize))) :=
        hstuck.load (not_lt.mpr hstop)
      refine .inr ((hstuck'.bind _).imp ?_ fun hlt => ?_)
      · rintro (hbad | ⟨k, x, hx, hcov⟩)
        · exact absurd (by cases P <;> decide) hbad
        · exact ⟨k, x, hx, .inl hcov⟩
      · dsimp only at hlt
        omega
  · exact .inr ((hstuck.bind _).imp False.elim fun hlt => by omega)

end Tail

/-! ### The whole task -/

/-- The result of loading a root task. The image lies at `fa.next`, the root table behind it, and
the stack at `stack`; all other frames up to `fa'.next` are tables. -/
structure Loaded (P : Platform) (rt : RootTask) (bootinfoPa : ℕ) (fa fa' : FrameAlloc) (m m' : Mem)
    (root stack : ℕ) : Prop where
  root_eq : root = fa.next + rt.image.length
  stack_aligned : P.granule ∣ stack
  stack_ge : root + P.granule ≤ stack
  stack_le : stack + userStackSize ≤ fa'.next
  next_le : fa'.next ≤ fa.stop
  stop_eq : fa'.stop = fa.stop
  tree : ∃ lvl, UserTables.Inv P m' root
    {t | P.granule ∣ t ∧ root ≤ t ∧ t < fa'.next ∧ (t < stack ∨ stack + userStackSize ≤ t)} lvl
  pages : ∃ pm, Stands P m' root pm ∧ (∀ k x, pm k = some x ↔
      (∃ s ∈ rt.segments, SegPage P rt.base fa.next s k x) ∨ StackPage P stack k x ∨
        BootinfoPage P bootinfoPa k x)
  space : ∀ s ∈ rt.segments, s.Fits P
  image : ∀ i (hi : i < rt.image.length), m' (fa.next + i) = rt.image[i]
  stack_zero : ∀ a, stack ≤ a → a < stack + userStackSize → m' a = 0
  frame : ∀ a, a < fa.next ∨ fa'.next ≤ a → m' a = m a

/-- The bytes of the frames that loading may take: the image, the root table, the tables of the
segments, the stack and the tables of the stack and the bootinfo page. -/
def loadSize (P : Platform) (rt : RootTask) : ℕ :=
  rt.image.length + P.granule + rt.segments.length * 6 * P.granule + userStackSize + 9 * P.granule

section Root

variable {P : Platform} {rt : RootTask} {fa : FrameAlloc} {m : Mem}

/-- The segments of the build suit the loop over them. -/
lemma RootTask.Laid.segOk (h : rt.Laid) (P : Platform) :
    ∀ s ∈ rt.segments, SegOk P rt.base (rt.base + rt.image.length) rt.entry s :=
  fun s hs => ⟨(granule_dvd_segAlign P).trans (h.aligned s hs), h.memsz_pos s hs, h.base_le s hs,
    h.end_le s hs, h.entry_text hs⟩

/-- The first part of `spawnRoot`: the image is copied, and the root table is cleared. -/
lemma spawnRoot_head (h : rt.Laid) (ha : P.granule ∣ fa.next) (hstop : fa.stop ≤ 2 ^ 48)
    (rootTcb bootinfoPa : ℕ) (s : Tasks) :
    (fa.next + rt.image.length + P.granule ≤ fa.stop ∧
      spawnRoot P rootTcb rt bootinfoPa fa m s =
        mapSegs P ⟨fa.next + rt.image.length⟩ rt.base (rt.base + rt.image.length) fa.next rt.entry
          rt.segments { fa with next := fa.next + rt.image.length + P.granule }
          (clear (copy (clear m fa.next rt.image.length) fa.next rt.image)
            (fa.next + rt.image.length) P.granule) >>= fun x =>
        spawnTail P rootTcb rt bootinfoPa (fa.next + rt.image.length) s x.1 x.2) ∨
    LoadStuck False (fa.stop < fa.next + rt.image.length + P.granule)
      (spawnRoot P rootTcb rt bootinfoPa fa m s) := by
  have hg := P.granule_pos
  have hoff : Abi.kernelVaOffset + 2 ^ 48 = 2 ^ 64 := by decide
  have hbase : rt.base % P.granule = 0 :=
    Nat.mod_eq_zero_of_dvd ((granule_dvd_segAlign P).trans h.base_aligned)
  have hlen : P.granule ∣ rt.image.length := (granule_dvd_segAlign P).trans h.len_aligned
  have hmod : rt.image.length % P.granule = 0 := Nat.mod_eq_zero_of_dvd hlen
  have hpos := h.len_pos
  have hn : 0 < rt.image.length / P.granule := Nat.div_pos (Nat.le_of_dvd hpos hlen) hg
  have hmul : rt.image.length / P.granule * P.granule = rt.image.length := Nat.div_mul_cancel hlen
  have hentry : rt.base ≤ rt.entry ∧ rt.entry < rt.base + rt.image.length := by
    obtain ⟨t, ht, -, h1, h2⟩ := h.entry
    have := h.base_le t ht
    have := h.end_le t ht
    omega
  have hguard : ¬ (rt.base % P.granule ≠ 0 ∨ rt.image.length % P.granule ≠ 0 ∨
      rt.image.length = 0 ∨ rt.segments = []) := by
    rintro (e | e | e | e)
    · exact e hbase
    · exact e hmod
    · omega
    · exact h.nonempty e
  unfold spawnRoot
  dsimp only
  rw [if_neg hguard, pure_bind_eq (orError_eq_pure.mpr (checkedAdd_of_lt h.fits))]
  rcases FrameAlloc.allocContig_load (m := m) hn ha hstop with ⟨hfit, hd⟩ | hstuck
  · rw [hmul] at hfit hd
    rw [pure_bind_eq hd]
    dsimp only
    have hphys : physOf (fa.next + Abi.kernelVaOffset) = fa.next := Nat.add_sub_cancel _ _
    rw [pure_bind_eq (orPanic_eq_pure.mpr (checkedAdd_of_lt (by omega))), hphys]
    by_cases hend : fa.next + rt.image.length < 2 ^ 48
    · rw [pure_bind_eq (orPanic_eq_pure.mpr (checkedAdd_of_lt (by omega)))]
      rcases @FrameAlloc.allocContig_load P ⟨fa.start, fa.next + rt.image.length, fa.stop⟩
        (copy (clear m fa.next rt.image.length) fa.next rt.image) 1 Nat.one_pos
        (Nat.dvd_add ha hlen) hstop with ⟨hfit', hd'⟩ | hstuck
      · rw [Nat.one_mul] at hfit' hd'
        refine .inl ⟨hfit', ?_⟩
        unfold UserSpace.new FrameAlloc.alloc
        rw [mapError_bind, pure_bind_eq hd']
        simp only [if_neg (not_not.mpr hentry)]
        rfl
      · rw [Nat.one_mul] at hstuck
        unfold UserSpace.new FrameAlloc.alloc
        rw [mapError_bind]
        exact .inr ((hstuck.bind _).bind _)
    · -- the window ends with the image, at the end of the range of aliases
      refine .inr (.inr ⟨by omega, .inr ?_⟩)
      have hnone : checkedAdd (fa.next + Abi.kernelVaOffset) rt.image.length = none :=
        checkedAdd_eq_none.mpr (by omega)
      rw [hnone]
      rfl
  · rw [hmul] at hstuck
    exact .inr ((hstuck.bind _).imp id fun hlt => by omega)

/-- **Loading the root task** of the build. It succeeds, or it fails in the mapping functions. If
the window is not too small, it neither runs out of frames nor panics; then it fails only if a
segment lies outside the user space or shares a page with the stack or the bootinfo page.

**Proof sketch.** The parts of the function, one after the other: `spawnRoot_head`,
`mapSegs_cases` and `spawnTail_cases`. What was written before is kept by the later parts, because
the tables are all behind the image and none is in the stack. -/
theorem spawnRoot_cases (h : rt.Laid) (ha : P.granule ∣ fa.next) (hstop : fa.stop ≤ 2 ^ 48)
    {bootinfoPa : ℕ} (hbi : P.granule ∣ bootinfoPa) (hbi' : bootinfoPa + P.granule ≤ 2 ^ 48)
    (rootTcb : ℕ) (s : Tasks) :
    (∃ fa' m' root stack, spawnRoot P rootTcb rt bootinfoPa fa m s =
        pure (root, fa', m', rootTasks rootTcb rt root s) ∧
      Loaded P rt bootinfoPa fa fa' m m' root stack ∧ fa'.next ≤ fa.next + loadSize P rt) ∨
    LoadStuck (∃ s ∈ rt.segments, ¬ s.Fits P ∨
        ∃ k, s.Covers P k ∧ (stackSeg.Covers P k ∨ (bootinfoSeg P).Covers P k))
      (fa.stop < fa.next + loadSize P rt) (spawnRoot P rootTcb rt bootinfoPa fa m s) := by
  have hg := P.granule_pos
  have hdvd := granule_dvd_segAlign P
  have hlen : P.granule ∣ rt.image.length := hdvd.trans h.len_aligned
  have hroot : P.granule ∣ fa.next + rt.image.length := Nat.dvd_add ha hlen
  have hbase : P.granule ∣ rt.base := hdvd.trans h.base_aligned
  have hmax := h.len_le
  have hfits := h.fits
  have hsize : loadSize P rt = rt.image.length + P.granule + rt.segments.length * 6 * P.granule +
    userStackSize + 9 * P.granule := rfl
  rcases spawnRoot_head (m := m) h ha hstop rootTcb bootinfoPa s with ⟨hfit, heq⟩ | hstuck
  swap
  · exact .inr (hstuck.imp False.elim fun hlt => by omega)
  rw [heq]
  generalize hm₀ : clear (copy (clear m fa.next rt.image.length) fa.next rt.image)
    (fa.next + rt.image.length) P.granule = m₀
  generalize hroot_eq : fa.next + rt.image.length = root at *
  -- the empty root table
  have hzero : ∀ i < P.entries, word m₀ root i = 0 := by
    intro i hi
    have := entry_le hi
    rw [← hm₀]
    exact read64_clear (by omega) (by omega)
  have h₀ : UserTables.Inv P m₀ root {root} fun _ => 0 := .empty hroot (by omega) hzero
  have hs₀ : Supply P { fa with next := root + P.granule } {root} := by
    refine ⟨Nat.dvd_add hroot dvd_rfl, hfit, by dsimp only; omega, ?_⟩
    rintro t rfl
    exact .inl (Nat.lt_add_of_pos_right hg)
  rcases mapSegs_cases hbase ha (Nat.dvd_add hbase hlen) hfits (by omega) (by omega) rt.segments
    (h.segOk P) h.apart h₀ hs₀ hstop (Stands.empty hzero) with
    ⟨fa₁, m₁, live₁, pm₁, hd, hgr, hnext, hst, hpm, hpos⟩ | hstuck
  swap
  · refine .inr ((hstuck.bind _).imp ?_ fun hlt => by dsimp only at hlt; omega)
    rintro ⟨t, ht, hbad | ⟨k, x, hx, -⟩⟩
    · exact ⟨t, ht, .inl hbad⟩
    · cases hx
  rw [pure_bind_eq hd]
  obtain ⟨lvl₁, h₁⟩ := hgr.tree
  have hstop₁ := hgr.stop
  have hnext₁ := hgr.next
  dsimp only at hstop₁ hnext hnext₁
  rcases spawnTail_cases rootTcb rt s h₁ hgr.supply (by omega) hst hbi hbi' with
    ⟨fa', m', live', pm', hd', hgr', hnext', hfit', hst', hpm'⟩ | hstuck
  swap
  · refine .inr (hstuck.imp ?_ fun hlt => by omega)
    rintro ⟨k, x, hx, hcov⟩
    rcases (hpm k x).mp hx with hx | ⟨t, ht, h1, h2, -⟩
    · cases hx
    · exact ⟨t, ht, .inr ⟨k, ⟨h1, h2⟩, hcov⟩⟩
  refine .inl ⟨fa', m', root, fa₁.next, hd', ?_, by omega⟩
  have hnext₂ := hgr'.next
  have hstop₂ := hgr'.stop
  have hle₂ := hgr'.supply.next_le
  dsimp only at hnext₂ hstop₂
  -- the frames of the tables
  have hlive : live' = {t | P.granule ∣ t ∧ root ≤ t ∧ t < fa'.next ∧
      (t < fa₁.next ∨ fa₁.next + userStackSize ≤ t)} := by
    ext t
    rw [hgr'.live_iff, hgr.live_iff, Set.mem_singleton_iff, Set.mem_ofPred_eq]
    dsimp only
    constructor
    · rintro ((rfl | ⟨h1, h2, h3⟩) | ⟨h1, h2, h3⟩)
      · exact ⟨hroot, le_rfl, by omega, .inl (by omega)⟩
      · exact ⟨h3, by omega, by omega, .inl h2⟩
      · exact ⟨h3, by omega, h2, .inr h1⟩
    · rintro ⟨h1, h2, h3, h4 | h4⟩
      · rcases Nat.eq_or_lt_of_le h2 with rfl | hlt
        · exact .inl (.inl rfl)
        · exact .inl (.inr ⟨add_granule_le hroot h1 hlt, h4, h1⟩)
      · exact .inr ⟨h4, h3, h1⟩
  have htable : ∀ t ∈ live', root ≤ t ∧ t + P.granule ≤ fa'.next ∧
      (t + P.granule ≤ fa₁.next ∨ fa₁.next + userStackSize ≤ t) := by
    intro t ht
    rw [hlive] at ht
    exact ⟨ht.2.1, add_granule_le ht.1 hgr'.supply.aligned ht.2.2.1,
      ht.2.2.2.imp_left (add_granule_le ht.1 hgr.supply.aligned)⟩
  -- what lies outside the tables and the stack is as it was before the segments were mapped
  have houter : ∀ a, a < root ∨ fa'.next ≤ a → m' a = m₀ a := by
    intro a ha
    rw [hgr'.frame a fun t ht => by have := htable t ht; omega]
    have hclear : clear m₁ fa₁.next userStackSize a = m₁ a := if_neg (by omega)
    rw [hclear]
    refine hgr.frame a fun t ht => ?_
    have := htable t ((hgr'.live_iff t).mpr (.inl ht))
    omega
  refine
    { root_eq := hroot_eq.symm
      stack_aligned := hgr.supply.aligned
      stack_ge := hnext₁
      stack_le := hnext₂
      next_le := by omega
      stop_eq := by omega
      tree := by
        rw [← hlive]
        exact hgr'.tree
      pages := ⟨pm', hst', fun k x => ?_⟩
      space := hpos
      image := fun i hi => ?_
      stack_zero := fun a h1 h2 => ?_
      frame := fun a ha => ?_ }
  · rw [hpm', hpm]
    simp
  · rw [houter _ (.inl (by omega)), ← hm₀]
    unfold clear copy
    rw [if_neg (by omega), if_pos (by omega)]
    simp [hi]
  · rw [hgr'.frame a fun t ht => by have := htable t ht; omega]
    exact if_pos ⟨h1, h2⟩
  · rw [houter a (by omega), ← hm₀]
    unfold clear copy
    rw [if_neg (by omega), if_neg (by omega)]
    exact if_neg (by omega)

end Root

end K0
