import K0.Boot.Elf
import K0.Kernel.Space

set_option relaxedAutoImplicit false
set_option autoImplicit false

/-!
# What `MAP` does to the user tables

The two walkers behind `MAP`, against what the MMU reads. Mapping a frame fails for want of a table
exactly when the path of the address has an empty entry, and for an overlap exactly when the page
is taken. Installing a table fails exactly when the path is complete, and otherwise fills its first
empty entry. All this holds in every state that a run from the handoff reaches, so no sequence of
system calls makes a walker find a table that it does not understand.

## Main definitions

* `K0.UserTables.MapExact`, `K0.UserTables.InstallExact`: what the walkers have to do.

## Main results

* `K0.UserTables.Inv.mapExact`, `K0.UserTables.Inv.installExact`: the walkers do it in a tree.
* `K0.UserTables.Inv.installAll_complete`: as many installs as levels are missing complete a path.
* `K0.Kernel.walkers_exact`: this is so in every run.
-/

namespace K0

open Word Memory Outcome

namespace UserTables

/-- What mapping a frame has to do. The MMU finds the new descriptor for the addresses of the page,
and what it found before for all others. -/
structure MapExact (P : Platform) (m : Mem) (root va pa : ℕ) (perm : UserPerm) : Prop where
  missing : userMapFrame P root va pa perm m = throw .missingTable ↔
    ∃ n t, Absent P m root va n t
  overlap : userMapFrame P root va pa perm m = throw .overlap ↔
    ∃ t, mmuWalk P m va [0, 1, 2] root = some t ∧ read64 m (t + index P va 3 * 8) ≠ 0
  maps : (¬ ∃ n t, Absent P m root va n t) →
    (¬ ∃ t, mmuWalk P m va [0, 1, 2] root = some t ∧ read64 m (t + index P va 3 * 8) ≠ 0) →
    ∃ m', userMapFrame P root va pa perm m = pure m' ∧
      translate P m' root va = some (pa, perm.attrs) ∧
      ∀ va' < 2 ^ 48, mmuLeaf P m' root va' =
        if va' / P.granule = va / P.granule then some (pa ||| perm.attrs)
        else mmuLeaf P m root va'

/-- What installing a table has to do. It is linked at the first empty entry on the path. -/
structure InstallExact (P : Platform) (m : Mem) (root va f : ℕ) : Prop where
  overlap : userInstallTable P root va f m = throw .overlap ↔
    ∃ t, mmuWalk P m va [0, 1, 2] root = some t
  links : (¬ ∃ t, mmuWalk P m va [0, 1, 2] root = some t) →
    ∃ n t m', Absent P m root va n t ∧ userInstallTable P root va f m = pure (n, m') ∧
      m' = write64 m (t + index P va n * 8) (f ||| descTable) ∧
      mmuWalk P m' va ([0, 1, 2].take (n + 1)) root = some f ∧
      (∀ va', mmuLeaf P m' root va' = mmuLeaf P m root va') ∧
      UserTables.missing P m' root va + 1 = UserTables.missing P m root va

namespace Inv

variable {P : Platform} {m m' : Mem} {root t va f : ℕ} {live : Set ℕ} {lvl : ℕ → ℕ}

/-- A path is complete when the MMU walks it to its end. -/
lemma mmuWalk_path (h : Inv P m root live lvl) (va : ℕ) :
    mmuWalk P m va [0, 1, 2] root = Radix.walk (child P m) root (path P va) :=
  mmuWalk_eq m va _ (h.aligned _ h.root_live)

/-- **Mapping a frame** in a tree. -/
theorem mapExact (h : Inv P m root live lvl) {pa : ℕ} (hva : P.granule ∣ va)
    (hlo : P.granule ≤ va) (hhi : va + P.granule ≤ 2 ^ 48) (hpa : P.granule ∣ pa)
    (hfit : pa + P.granule ≤ 2 ^ 48) (perm : UserPerm) : MapExact P m root va pa perm := by
  have hg := P.granule_pos
  have heq := h.userMapFrame_eq hva hpa hlo hhi perm
  cases hw : Radix.walk (child P m) root (path P va) with
  | none =>
    rw [hw] at heq
    have habs : ∃ n t, Absent P m root va n t := h.walk_eq_none_iff.mp hw
    have hinc : ¬ ∃ t, mmuWalk P m va [0, 1, 2] root = some t ∧
        read64 m (t + index P va 3 * 8) ≠ 0 := by
      rintro ⟨t, ht, -⟩
      rw [h.mmuWalk_path, hw] at ht
      cases ht
    refine ⟨iff_of_true heq habs, iff_of_false ?_ hinc, fun hn => absurd habs hn⟩
    rw [heq]
    exact nofun
  | some s =>
    rw [hw] at heq
    have habs : ¬ ∃ n t, Absent P m root va n t := by
      rw [← h.walk_eq_none_iff, hw]
      exact nofun
    have hocc : (∃ t, mmuWalk P m va [0, 1, 2] root = some t ∧
        read64 m (t + index P va 3 * 8) ≠ 0) ↔ word m s (index P va 3) ≠ 0 := by
      rw [h.mmuWalk_path, hw]
      constructor
      · rintro ⟨t, ht, hne⟩
        obtain rfl := Option.some.inj ht
        exact hne
      · exact fun hne => ⟨s, rfl, hne⟩
    by_cases hz : word m s (index P va 3) = 0
    · have hpure := heq.trans (if_neg (not_not.mpr hz))
      have hmiss : userMapFrame P root va pa perm m ≠ throw .missingTable := by
        rw [hpure]
        exact nofun
      have hover : userMapFrame P root va pa perm m ≠ throw .overlap := by
        rw [hpure]
        exact nofun
      have hnot : ¬ ∃ t, mmuWalk P m va [0, 1, 2] root = some t ∧
          read64 m (t + index P va 3 * 8) ≠ 0 := fun hne => hocc.mp hne hz
      refine ⟨iff_of_false hmiss habs, iff_of_false hover hnot, fun _ _ => ⟨_, hpure, ?_, ?_⟩⟩
      · rw [h.translate_writePage hw hpa (by omega), if_pos rfl]
      · intro va' hva'
        have hroot := h.aligned _ h.root_live
        rw [mmuLeaf_eq _ hroot hva', mmuLeaf_eq _ hroot hva', h.lookup_writePage hw (by omega),
          pageKey_of_lt hva', pageKey_of_lt (by omega)]
    · have hthrow := heq.trans (if_pos hz)
      have hmiss : userMapFrame P root va pa perm m ≠ throw .missingTable := by
        rw [hthrow]
        exact nofun
      have hfull := hocc.mpr hz
      exact ⟨iff_of_false hmiss habs, iff_of_true hthrow hfull, fun _ hn => absurd hfull hn⟩

/-- **Installing a table** in a tree. The table may be any empty frame but the one that gets the
link. -/
theorem installExact (h : Inv P m root live lvl) (hva : va < 2 ^ 48) (hf : P.granule ∣ f)
    (hfit : f + P.granule ≤ 2 ^ 48) (hzero : ∀ a, f ≤ a → a < f + P.granule → m a = 0)
    (hne : ∀ n t, Absent P m root va n t → f ≠ t) : InstallExact P m root va f := by
  have heq := h.userInstallTable_eq hf hva
  have hword : ∀ j < P.entries, word m f j = 0 := fun j hj => Kernel.Paged.word_of_zero hzero hj
  cases hg : Radix.gap (child P m) root (path P va) with
  | none =>
    rw [hg] at heq
    obtain ⟨s, hs⟩ := Radix.missing_eq_zero_iff.mp (Radix.gap_eq_none_iff.mp hg)
    have hfull : ∃ t, mmuWalk P m va [0, 1, 2] root = some t := ⟨s, by rw [h.mmuWalk_path, hs]⟩
    exact ⟨iff_of_true heq hfull, fun hn => absurd hfull hn⟩
  | some x =>
    obtain ⟨t, i⟩ := x
    rw [hg] at heq
    obtain ⟨n, habs, rfl⟩ := h.gap_eq_some_iff.mp hg
    have hnt := hne n t habs
    obtain ⟨ht, hi, hl, -, hz, -⟩ := h.of_gap hg
    obtain ⟨hn, hw, -⟩ := habs
    have hlvl : lvl t = n := (h.walk_take hn.le hw).2
    have hroot := h.aligned _ h.root_live
    have hinc : ¬ ∃ t, mmuWalk P m va [0, 1, 2] root = some t := by
      rintro ⟨s, hs⟩
      rw [h.mmuWalk_path, h.walk_eq_none_iff.mpr ⟨n, t, hn, hw, hz⟩] at hs
      cases hs
    have hthrow : userInstallTable P root va f m ≠ throw .overlap := by
      rw [heq]
      exact nofun
    refine ⟨iff_of_false hthrow hinc,
      fun _ => ⟨n, t, _, ⟨hn, hw, hz⟩, heq.trans ?_, rfl, ?_, ?_, ?_⟩⟩
    · dsimp only
      rw [hlvl]
      rfl
    · have hlink := linked_setLink (h.entry ht hi) hz hnt hf hfit hword
      change mmuWalk P (setLink m t (index P va n) f) va _ root = _
      rw [mmuWalk_eq _ va _ hroot, map_take_index] at hw ⊢
      rw [List.take_add_one, (path_getElem? P).mpr ⟨hn, rfl⟩, Option.toList_some, Radix.walk_append,
        hlink.walk_mono hw, Option.bind_some, Radix.walk_cons, hlink.link]
      rfl
    · intro va'
      by_cases hva' : va' < 2 ^ 48
      · rw [mmuLeaf_eq _ hroot hva', mmuLeaf_eq _ hroot hva']
        exact h.lookup_link ht hi hl hz hnt hf hfit hword va'
      · unfold mmuLeaf
        rw [if_neg hva', if_neg hva']
    · exact (h.missing_link ht hi hz hnt hf hfit hword hg).symm

/-- As many installs of empty frames as levels are missing complete a path.

**Proof sketch.** Induction on the frames: each is linked at the gap of the path, so that one level
less is missing, and the others stay empty and outside the tree. -/
theorem installAll_complete (hva : va < 2 ^ 48) : ∀ {fs : List ℕ} {m : Mem} {live : Set ℕ}
    {lvl : ℕ → ℕ}, Inv P m root live lvl → fs.Nodup → fs.length = missing P m root va →
    (∀ f ∈ fs, Fresh P m live f) →
    ∃ m' live' lvl', installAll P root va fs m = pure m' ∧ Inv P m' root live' lvl' ∧
      missing P m' root va = 0 := by
  intro fs
  induction fs with
  | nil =>
    intro m live lvl h _ hlen _
    exact ⟨m, live, lvl, rfl, h, hlen.symm⟩
  | cons f fs ih =>
    intro m live lvl h hnodup hlen hfresh
    obtain ⟨hnot, hnodup⟩ := List.nodup_cons.mp hnodup
    have hf := hfresh f List.mem_cons_self
    have hgap : Radix.gap (child P m) root (path P va) ≠ none := by
      intro hg
      have hmiss : missing P m root va = 0 := Radix.gap_eq_none_iff.mp hg
      rw [List.length_cons] at hlen
      omega
    obtain ⟨⟨t, i⟩, hg⟩ := Option.ne_none_iff_exists'.mp hgap
    obtain ⟨ht, hi, hl, hroot, hz, -⟩ := h.of_gap hg
    have hinstall : userInstallTable P root va f m = pure (lvl t, setLink m t i f) := by
      rw [h.userInstallTable_eq hf.aligned hva, hg]
    have hne : f ≠ t := fun e => hf.notMem (e ▸ ht)
    have hmiss := h.missing_link ht hi hz hne hf.aligned hf.fits hf.zero hg
    have hlen' : fs.length = missing P (setLink m t i f) root va := by
      rw [List.length_cons] at hlen
      omega
    have hfresh' : ∀ f' ∈ fs, Fresh P (setLink m t i f) (insert f live) f' := by
      intro f' hf'
      have hold := hfresh f' (List.mem_cons_of_mem _ hf')
      refine ⟨hold.aligned, hold.fits, ?_, fun j hj => ?_⟩
      · rintro (rfl | hmem)
        · exact hnot hf'
        · exact hold.notMem hmem
      · rw [word_setLink (h.entry ht hi) hf.fits ⟨hold.aligned, hj⟩, if_neg]
        · exact hold.zero j hj
        · exact fun e => hold.notMem (e.1 ▸ ht)
    obtain ⟨m', live', lvl', hall, h', hzero⟩ :=
      ih (h.link ht hi hl hroot hz hf) hnodup hlen' hfresh'
    refine ⟨m', live', lvl', ?_, h', hzero⟩
    rw [installAll, pure_bind_eq hinstall]
    exact hall

/-- What mapping a frame comes to, at any address. -/
lemma userMapFrame_cases (h : Inv P m root live lvl) (va pa : ℕ) (perm : UserPerm) :
    userMapFrame P root va pa perm m = throw .misaligned ∨
      userMapFrame P root va pa perm m = throw .nullPage ∨
      userMapFrame P root va pa perm m =
        match Radix.walk (child P m) root (path P va) with
        | none => throw .missingTable
        | some s =>
          if word m s (index P va 3) ≠ 0 then throw .overlap
          else pure (write64 m (s + index P va 3 * 8) (pa ||| perm.attrs)) := by
  by_cases hmod : va % P.granule ≠ 0 ∨ pa % P.granule ≠ 0
  · exact .inl (if_pos hmod)
  by_cases hlo : va < P.granule
  · exact .inr (.inl ((if_neg hmod).trans (if_pos hlo)))
  by_cases hhi : va + P.granule ≤ 2 ^ 48
  · simp only [not_or, ne_eq, not_not] at hmod
    exact .inr (.inr (h.userMapFrame_eq (Nat.dvd_of_mod_eq_zero hmod.1)
      (Nat.dvd_of_mod_eq_zero hmod.2) (by omega) hhi perm))
  · left
    unfold userMapFrame
    rw [if_neg hmod, if_neg hlo]
    cases hsum : checkedAdd va P.granule with
    | none => rfl
    | some stop =>
      obtain ⟨-, rfl⟩ := checkedAdd_eq_some.mp hsum
      rw [pure_bind_eq (orError_eq_pure.mpr rfl), if_pos (by omega)]

/-- Mapping a frame does not panic and never finds a table that it does not understand. -/
lemma userMapFrame_ok (h : Inv P m root live lvl) (va pa : ℕ) (perm : UserPerm) :
    userMapFrame P root va pa perm m ≠ none ∧
      userMapFrame P root va pa perm m ≠ throw .badTable := by
  rcases h.userMapFrame_cases va pa perm with he | he | he
  · rw [he]
    exact ⟨nofun, nofun⟩
  · rw [he]
    exact ⟨nofun, nofun⟩
  · rw [he]
    cases Radix.walk (child P m) root (path P va) with
    | none => exact ⟨nofun, nofun⟩
    | some s =>
      dsimp only
      split_ifs
      · exact ⟨nofun, nofun⟩
      · exact ⟨nofun, nofun⟩

/-- On a complete path mapping a frame does not fail for want of a table. -/
lemma userMapFrame_complete (h : Inv P m root live lvl) (hm : missing P m root va = 0) (pa : ℕ)
    (perm : UserPerm) : userMapFrame P root va pa perm m ≠ throw .missingTable := by
  obtain ⟨s, hs⟩ := Radix.missing_eq_zero_iff.mp hm
  rcases h.userMapFrame_cases va pa perm with he | he | he
  · rw [he]
    exact nofun
  · rw [he]
    exact nofun
  · rw [he, hs]
    dsimp only
    split_ifs
    · exact nofun
    · exact nofun

/-- Installing a table does not panic and never finds a table that it does not understand. -/
lemma userInstallTable_ok (h : Inv P m root live lvl) (va f : ℕ) :
    userInstallTable P root va f m ≠ none ∧
      userInstallTable P root va f m ≠ throw .badTable := by
  by_cases hbad : f % P.granule ≠ 0 ∨ va ≥ 2 ^ 48
  · unfold userInstallTable
    rw [if_pos hbad]
    exact ⟨nofun, nofun⟩
  · simp only [not_or, ne_eq, not_not] at hbad
    rw [h.userInstallTable_eq (Nat.dvd_of_mod_eq_zero hbad.1) (by omega)]
    cases Radix.gap (child P m) root (path P va) with
    | none => exact ⟨nofun, nofun⟩
    | some x => exact ⟨nofun, nofun⟩

end Inv

end UserTables

namespace Kernel

open UserTables

variable {P : Platform} {I : Image P} {i : Machine} {b : Stages I i} {stack : ℕ} {k k₀ : Kernel}
  {live : Set ℕ} {lvl : ℕ → ℕ} {pm : ℕ → Option (ℕ × UserPerm)}

/-- A page table that is not installed is an empty frame outside the tree. -/
lemma Paged.fresh_of_idle (h : Paged b stack k live lvl pm) (hacc : Accounted b k)
    (hload : Loaded P I.rootTask b.biFrame b.framesBi b.framesRoot b.memBi b.memRoot b.userRoot
      stack) {j f : ℕ} (hc : k.cnode.cap j = some (.pageTable f false)) :
    Fresh P k.mem live f := by
  obtain ⟨ha, hfits⟩ := hacc.object_frame hc rfl
  exact ⟨ha, hfits, h.notMem_of_object hacc hload hc rfl (by simp),
    fun i hi => word_of_zero (h.idle j f hc) hi⟩

/-- Where the walkers do not fail for a table, neither does `MAP`. -/
lemma sysMap_ne_none (h : UserTables.Inv P k.mem b.userRoot live lvl) (hacc : Accounted b k)
    (slot va perm aspace : UInt64) : sysMap P k slot va perm aspace ≠ none := by
  unfold sysMap
  rcases addrSpaceAt_eq (c := k.cnode) (s := aspace) rfl with ⟨root, hr, hs⟩ | ⟨e, -, he⟩
  swap
  · rw [he]
    exact nofun
  rw [hr]
  obtain rfl := hacc.space _ root hs
  dsimp only
  have herr : ∀ e : MmuError, e ≠ .badTable → ((mmuErr e).map fun v => (v, k)) ≠ none := by
    intro e he
    cases e <;> first | exact absurd rfl he | exact nofun
  split
  · split_ifs
    · exact nofun
    unfold mapFrame
    cases userPerm perm with
    | none => exact nofun
    | some perm =>
      rename_i base _ _ _
      obtain ⟨hpanic, hbad⟩ := h.userMapFrame_ok va.toNat base perm
      dsimp only
      rcases hm : userMapFrame P b.userRoot va.toNat base perm k.mem with _ | (e | m)
      · exact absurd hm hpanic
      · exact herr e fun he => hbad (hm.trans (by rw [he]; rfl))
      · exact nofun
  · split_ifs
    · exact nofun
    unfold mapTable
    rename_i base _ _ _
    obtain ⟨hpanic, hbad⟩ := h.userInstallTable_ok va.toNat base
    rcases hm : userInstallTable P b.userRoot va.toNat base k.mem with _ | (e | m)
    · exact absurd hm hpanic
    · exact herr e fun he => hbad (hm.trans (by rw [he]; rfl))
    · exact nofun
  · exact nofun
  · exact nofun

/-- **The walkers behind `MAP` are exact in every run.** In every state that a run from the handoff
reaches, `root`, the root table of the running task, is that of every `AddrSpace` capability, and:

* mapping an aligned frame at an aligned page of the user range fails for want of a table exactly
  when the path has an empty entry, fails for an overlap exactly when the path is complete and the
  page is taken, and otherwise adds exactly this translation;
* installing an empty frame (not the table that gets the link) fails exactly when the path is
  complete, and otherwise links it at the first empty entry, changes no translation, and one level
  less is missing;
* at most three levels are missing, and as many installs of different empty frames as levels are
  missing put an end to the first failure;
* frames and page tables behind capabilities meet these conditions;
* a walker never panics or finds a table that it does not understand, and `MAP` never parks.

**Proof sketch.** The tables form a tree in every state of a run (`paged_of_reaches`); there the
walkers are exact. -/
theorem walkers_exact {elf : List UInt8} (helf : Elf.flatten elf = some I.rootTask)
    (hboot : boot I i = some k₀) (hr : k₀.Reaches I.pool k) :
    ∃ root, k.tasks.currentUserRoot = root ∧
      (∀ j r, k.cnode.cap j = some (.addrSpace r) → r = root) ∧
      (∀ va pa perm, P.granule ∣ va → P.granule ≤ va → va + P.granule ≤ 2 ^ 48 →
        P.granule ∣ pa → pa + P.granule ≤ 2 ^ 48 → MapExact P k.mem root va pa perm) ∧
      (∀ va f, va < 2 ^ 48 → P.granule ∣ f → f + P.granule ≤ 2 ^ 48 →
        (∀ a, f ≤ a → a < f + P.granule → k.mem a = 0) →
        (∀ n t, Absent P k.mem root va n t → f ≠ t) → InstallExact P k.mem root va f) ∧
      (∀ va, missing P k.mem root va ≤ 3) ∧
      (∀ va fs, va < 2 ^ 48 → fs.Nodup → fs.length = missing P k.mem root va →
        (∀ f ∈ fs, P.granule ∣ f ∧ f + P.granule ≤ 2 ^ 48 ∧ ¬ TableAt P k.mem root f ∧
          ∀ a, f ≤ a → a < f + P.granule → k.mem a = 0) →
        ∃ m', installAll P root va fs k.mem = pure m' ∧
          ∀ pa perm, userMapFrame P root va pa perm m' ≠ throw .missingTable) ∧
      (∀ j pa mapped, k.cnode.cap j = some (.frame pa mapped) →
        P.granule ∣ pa ∧ pa + P.granule ≤ 2 ^ 48) ∧
      (∀ j f, k.cnode.cap j = some (.pageTable f false) →
        P.granule ∣ f ∧ f + P.granule ≤ 2 ^ 48 ∧ ¬ TableAt P k.mem root f ∧
          ∀ a, f ≤ a → a < f + P.granule → k.mem a = 0) ∧
      (∀ va pa perm, userMapFrame P root va pa perm k.mem ≠ none ∧
        userMapFrame P root va pa perm k.mem ≠ throw .badTable) ∧
      (∀ va f, userInstallTable P root va f k.mem ≠ none ∧
        userInstallTable P root va f k.mem ≠ throw .badTable) ∧
      ∀ slot va perm aspace, sysMap P k slot va perm aspace ≠ none := by
  obtain ⟨segs, hflat⟩ := Elf.flatten_eq_some helf
  obtain ⟨b, stack, s, live, lvl, pm, -, hload, hsim, h⟩ := paged_of_reaches hflat.laid hboot hr
  have hacc : Accounted b k := hsim.accounts
  have hroot := h.tree.aligned _ h.tree.root_live
  have hfits := h.tree.fits _ h.tree.root_live
  have hg := P.granule_pos
  refine ⟨b.userRoot, currentUserRoot_eq hsim hroot (by omega), hacc.space, ?_, ?_, ?_, ?_, ?_, ?_,
    h.tree.userMapFrame_ok, h.tree.userInstallTable_ok, sysMap_ne_none h.tree hacc⟩
  · exact fun va pa perm h1 h2 h3 h4 h5 => h.tree.mapExact h1 h2 h3 h4 h5 perm
  · exact fun va f h1 h2 h3 h4 h5 => h.tree.installExact h1 h2 h3 h4 h5
  · exact fun va => Radix.missing_le _ _ _
  · intro va fs hva hnodup hlen hfs
    have hfresh : ∀ f ∈ fs, Fresh P k.mem live f := by
      intro f hf
      obtain ⟨ha, hfit, hnot, hz⟩ := hfs f hf
      exact ⟨ha, hfit, fun hmem => hnot (h.tree.tableAt_of_mem hmem),
        fun j hj => Paged.word_of_zero hz hj⟩
    obtain ⟨m', live', lvl', hall, h', hzero⟩ :=
      h.tree.installAll_complete hva hnodup hlen hfresh
    exact ⟨m', hall, h'.userMapFrame_complete hzero⟩
  · intro j pa mapped hc
    exact hacc.object_frame hc rfl
  · intro j f hc
    have hfresh := h.fresh_of_idle hacc hload hc
    exact ⟨hfresh.aligned, hfresh.fits, fun ht => hfresh.notMem (h.tree.mem_of_tableAt ht),
      h.idle j f hc⟩

/-- The hypotheses hold at the handoff of the small machine. -/
theorem walkers_exact_smallMachine :
    ∃ k root, boot smallImage smallMachine = some k ∧ k.tasks.currentUserRoot = root ∧
      (∀ va, missing .apple k.mem root va ≤ 3) ∧
      ∀ slot va perm aspace, sysMap .apple k slot va perm aspace ≠ none := by
  obtain ⟨k, hk⟩ := boot_smallMachine
  obtain ⟨root, hcur, -, -, -, hmiss, -, -, -, -, -, hmap⟩ :=
    walkers_exact flatten_smallElf hk .refl
  exact ⟨k, root, hk, hcur, hmiss, hmap⟩

end Kernel

end K0
