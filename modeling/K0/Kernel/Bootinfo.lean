import K0.Kernel.Contents

set_option relaxedAutoImplicit false
set_option autoImplicit false

/-!
# The bootinfo page

The bootinfo page tells the root task which slot holds which capability. The kernel writes it once,
before the handoff, and user code cannot write to it; still it is right in every later state,
because a filled slot keeps its capability, and the page shows of a capability only what never
changes. So the search for slots at the entry of the root task works: it is modelled here on top of
the loads that user code can do.

## Main definitions

* `K0.Kernel.userLoad64`: a load by user code.
* `K0.RootTask.searchSlots`: how the root task finds its capabilities.

## Main results

* `K0.Kernel.bootinfo_current`: the page describes the capabilities in every state of a run.
* `K0.Kernel.searchSlots_exact`: what the root task finds.
-/

namespace K0

open Word Memory Outcome UserTables

/-! ### Words in memory -/

/-- Words that have been stored can be loaded. -/
lemma read64_writeWords {ws : List ℕ} (hws : ∀ w ∈ ws, w < 2 ^ 64) {m : Mem} {a n w : ℕ}
    (hn : ws[n]? = some w) : read64 (writeWords m a ws) (a + 8 * n) = w := by
  induction ws generalizing m a n with
  | nil => cases hn
  | cons x ws ih =>
    cases n with
    | zero =>
      obtain rfl : x = w := Option.some.inj hn
      have hkeep : read64 (writeWords (write64 m a x) (a + 8) ws) a = read64 (write64 m a x) a :=
        read64_congr fun c _ h2 => Stages.writeWords_of_sep (by omega)
      exact hkeep.trans (read64_write64 (hws x List.mem_cons_self))
    | succ n =>
      have hrest := ih (fun y hy => hws y (List.mem_cons_of_mem _ hy)) (m := write64 m a x)
        (a := a + 8) (n := n) hn
      rw [show a + 8 * (n + 1) = a + 8 + 8 * n by omega]
      exact hrest

/-- Records of the same length, one after the other. -/
lemma getElem?_flatMap_of_length {α β : Type} {f : α → List β} {d : ℕ}
    (hf : ∀ x, (f x).length = d) (l : List α) (j : ℕ) {c : ℕ} (hc : c < d) :
    (l.flatMap f)[d * j + c]? = l[j]?.bind fun x => (f x)[c]? := by
  induction l generalizing j with
  | nil => rfl
  | cons x l ih =>
    rw [List.flatMap_cons]
    cases j with
    | zero =>
      rw [Nat.mul_zero, Nat.zero_add, List.getElem?_append_left (by rw [hf]; exact hc)]
      rfl
    | succ j =>
      have hle : (f x).length ≤ d * (j + 1) + c := by
        rw [hf, Nat.mul_succ]
        omega
      rw [List.getElem?_append_right hle, hf, List.getElem?_cons_succ, ← ih j]
      congr 1
      rw [Nat.mul_succ]
      omega

/-- It shows nothing that changes. -/
lemma Cap.Becomes.capDesc_eq {v w : Cap} (h : v.Becomes w) : capDesc w = capDesc v := by
  cases h <;> rfl

/-- The description of a slot in the bootinfo page. -/
lemma bootinfoWords_desc {P : Platform} {c : CNode} {j : ℕ} {v : Cap} (hj : c.cap j = some v)
    {n : ℕ} (hn : n < 3) : (bootinfoWords P c)[3 + (3 * j + n)]? = (capDesc v)[n]? := by
  unfold bootinfoWords
  rw [List.getElem?_append_right (by simp)]
  have hidx : 3 + (3 * j + n) - [1, P.granule, c.slots.length].length = 3 * j + n := by simp
  rw [hidx, getElem?_flatMap_of_length Stages.length_capDesc _ _ hn]
  unfold CNode.cap at hj
  rw [hj, Option.bind_some]

/-- The words of the bootinfo page fit. -/
lemma bootinfoWords_lt {P : Platform} {c : CNode} (hc : c.Valid) :
    ∀ w ∈ bootinfoWords P c, w < 2 ^ 64 := by
  intro w hw
  rcases List.mem_append.mp hw with hw | hw
  · have hg : P.granule < 2 ^ 64 := by cases P <;> decide
    have hlen := c.le
    have hmax : cnodeSlots < 2 ^ 64 := by decide
    simp only [List.mem_cons, List.not_mem_nil, or_false] at hw
    omega
  · obtain ⟨v, hv, hw⟩ := List.mem_flatMap.mp hw
    obtain ⟨j, hj⟩ := List.getElem?_of_mem hv
    cases v with
    | untyped base size used =>
      have hvalid := hc j base size used hj
      simp only [capDesc, List.mem_cons, List.not_mem_nil, or_false] at hw
      omega
    | _ =>
      simp only [capDesc, List.mem_cons, List.not_mem_nil, or_false] at hw
      omega

/-! ### Loads from the page -/

namespace Kernel

/-- An aligned load of eight bytes by user code. -/
def userLoad64 (P : Platform) (k : Kernel) (va : ℕ) : Option ℕ :=
  (mmuLeaf P k.mem k.tasks.currentUserRoot va).map fun w =>
    read64 k.mem ((w &&& P.addrMask) + va % P.granule)

variable {P : Platform} {I : Image P} {i : Machine} {b : Stages I i} {stack : ℕ} {k k₀ : Kernel}
  {live live' : Set ℕ} {lvl lvl' : ℕ → ℕ} {pm pm' : ℕ → Option (ℕ × UserPerm)}
  {hi hi' : ℕ → Option Perm}

/-- The bootinfo page is one of the pages of the boot. -/
lemma bootPage_bootinfo (b : Stages I i) (stack va : ℕ) (h1 : Abi.bootinfoVa ≤ va)
    (h2 : va < Abi.bootinfoVa + P.granule) :
    va < 2 ^ 48 ∧ b.BootPage stack (pageKey P va) (b.biFrame, .roUser) ∧
      va % P.granule = va - Abi.bootinfoVa := by
  have hg := P.granule_pos
  have hfits : Abi.bootinfoVa + P.granule ≤ 2 ^ 48 := by cases P <;> decide
  have hdvd : P.granule ∣ Abi.bootinfoVa := by cases P <;> decide
  have hva : va < 2 ^ 48 := by omega
  have hdiv : va / P.granule = Abi.bootinfoVa / P.granule :=
    Nat.div_eq_of_lt_le (by rw [Nat.div_mul_cancel hdvd]; exact h1)
      (by rw [Nat.succ_mul, Nat.div_mul_cancel hdvd]; exact h2)
  have hkey : pageKey P va * P.granule = Abi.bootinfoVa := by
    rw [pageKey_of_lt hva, hdiv, Nat.div_mul_cancel hdvd]
  refine ⟨hva, .inr (.inr ⟨?_, ?_, ?_⟩), ?_⟩
  · exact hkey.ge
  · rw [hkey]
    exact Nat.lt_add_of_pos_right hg
  · rw [hkey]
    exact Prod.ext (by simp [bootinfoSeg]) rfl
  · have hmod := Nat.div_add_mod va P.granule
    rw [hdiv, Nat.mul_div_cancel' hdvd] at hmod
    omega

/-- User code loads the words that the boot has written. -/
lemma Reached.bootinfo_load
    (hload : Loaded P I.rootTask b.biFrame b.framesBi b.framesRoot b.memBi b.memRoot b.userRoot
      stack) (hrt : I.rootTask.Laid) (h₀ : Reached b stack b.kernel live lvl pm hi)
    (hpm : ∀ key x, pm key = some x ↔ b.BootPage stack key x)
    (h : Reached b stack k live' lvl' pm' hi')
    (hext : Extends P b.kernel.cnode k.cnode b.kernel.mem k.mem live live' pm pm') {n w : ℕ}
    (hn : (bootinfoWords P b.cnode)[n]? = some w) :
    k.userLoad64 P (Abi.bootinfoVa + 8 * n) = some w := by
  have hlen := Stages.length_bootinfoWords_le P b.cnode
  obtain ⟨hlt, -⟩ := List.getElem?_eq_some_iff.mp hn
  obtain ⟨hva, hboot, hmod⟩ := bootPage_bootinfo b stack (Abi.bootinfoVa + 8 * n)
    (Nat.le_add_right _ _) (by omega)
  have hx := (hpm _ _).mpr hboot
  obtain ⟨u, hu, hdescr⟩ :=
    h.paged.stands.mmuLeaf_some h.paged.tree hva (hext.pages _ _ hx)
  unfold userLoad64
  rw [h.currentUserRoot, hu, Option.map_some, hdescr.frame, hmod, Nat.add_sub_cancel_left]
  -- the page is read only, so it still has the words of the boot
  have hkept : read64 k.mem (b.biFrame + 8 * n) = read64 b.mem (b.biFrame + 8 * n) :=
    read64_congr fun a h1 h2 =>
      h₀.readOnly_kept hload hrt h hext hx (by simp) (by dsimp only; omega) (by dsimp only; omega)
  have hvalid : b.cnode.Valid := h₀.accounted.ledger.valid
  rw [hkept, b.mem_eq_writeWords, read64_writeWords (bootinfoWords_lt hvalid) hn]

/-- The address of the description of a slot. -/
def descVa (j : ℕ) : ℕ := Abi.bootinfoVa + 24 + 24 * j

/-- What user code loads from the bootinfo page describes the capabilities in the first `n` slots
of `c`. -/
structure Describes (P : Platform) (load : ℕ → Option ℕ) (n : ℕ) (c : CNode) : Prop where
  version : load Abi.bootinfoVa = some 1
  frameSize : load (Abi.bootinfoVa + 8) = some P.granule
  capCount : load (Abi.bootinfoVa + 16) = some n
  desc : ∀ j < n, ∃ v, c.cap j = some v ∧
    [load (descVa j), load (descVa j + 8), load (descVa j + 16)] = (capDesc v).map some

/-- The page describes the capabilities of a reached state. -/
lemma describes_of_reaches (hrt : I.rootTask.Laid) (hboot : boot I i = some k₀)
    (hr : k₀.Reaches I.pool k) : Describes P (k.userLoad64 P) k₀.cnode.used k.cnode := by
  have hderives := derives_of_reaches hboot hr
  obtain ⟨b, rfl⟩ := boot_eq_some hboot
  obtain ⟨stack, hload⟩ := b.loaded hrt
  obtain ⟨_, _, _, _, h₀, hpm⟩ := Reached.handoff hload hrt
  obtain ⟨_, _, _, _, h, hext⟩ := h₀.run hload hrt hr
  have hword : ∀ {n w}, (bootinfoWords P b.cnode)[n]? = some w →
      k.userLoad64 P (Abi.bootinfoVa + 8 * n) = some w :=
    fun hn => h₀.bootinfo_load hload hrt hpm h hext hn
  refine ⟨hword (n := 0) rfl, hword (n := 1) rfl, hword (n := 2) rfl, fun j hj => ?_⟩
  obtain ⟨v, hv⟩ : ∃ v, b.cnode.cap j = some v := ⟨_, List.getElem?_eq_getElem hj⟩
  obtain ⟨u, hu, hb⟩ := hderives.kept j v hv
  refine ⟨u, hu, ?_⟩
  rw [hb.capDesc_eq]
  -- the three words of the description
  have hdesc : ∀ n < 3, ∀ w, (capDesc v)[n]? = some w →
      k.userLoad64 P (descVa j + 8 * n) = some w := by
    intro n hn w hw
    have hva : descVa j + 8 * n = Abi.bootinfoVa + 8 * (3 + (3 * j + n)) := by
      unfold descVa
      omega
    rw [hva]
    exact hword ((bootinfoWords_desc hv hn).trans hw)
  obtain ⟨x, y, z, he⟩ := List.length_eq_three.mp (Stages.length_capDesc v)
  have h0 := hdesc 0 (by decide) x (by rw [he]; rfl)
  have h1 := hdesc 1 (by decide) y (by rw [he]; rfl)
  have h2 := hdesc 2 (by decide) z (by rw [he]; rfl)
  rw [he, List.map_cons, List.map_cons, List.map_cons, List.map_nil, ← h0, ← h1, ← h2]
  rfl

end Kernel

/-! ### The search of the root task -/

namespace RootTask

/-- The slots that the root task looks for. Zero means that it has none yet. -/
structure Slots where
  ut : ℕ
  aspace : ℕ
  con : ℕ
deriving DecidableEq, Repr

/-- Take the slot `j` if it fits and there is none yet. -/
def pickSlot (fits : Bool) (j found : ℕ) : ℕ := if found = 0 ∧ fits = true then j else found

/-- Look at one description: untyped memory of at least 32 frames, an address space, a console. -/
def Slots.look (s : Slots) (frameSize j kind size : ℕ) : Slots where
  ut := pickSlot (decide (kind = 3 ∧ frameSize * 32 ≤ size)) j s.ut
  aspace := pickSlot (decide (kind = 2)) j s.aspace
  con := pickSlot (decide (kind = 7)) j s.con

/-- Look at `n` descriptions from slot `j` on. -/
def searchFrom (load : ℕ → Option ℕ) (frameSize : ℕ) : ℕ → ℕ → Slots → Option Slots
  | 0, _, s => some s
  | n + 1, j, s => do
    let kind ← load (Kernel.descVa j)
    let size ← load (Kernel.descVa j + 16)
    searchFrom load frameSize n (j + 1) (s.look frameSize j kind size)

/-- The search for capabilities at the entry of the root task. It has no result if a load faults or
a check fails, which makes the task exit. -/
def searchSlots (load : ℕ → Option ℕ) : Option Slots := do
  let version ← load Abi.bootinfoVa
  let frameSize ← load (Abi.bootinfoVa + 8)
  let count ← load (Abi.bootinfoVa + 16)
  guard (version = 1)
  guard (0 < frameSize ∧ 2 ^ Nat.log2 frameSize = frameSize)
  let s ← searchFrom load frameSize count 0 ⟨0, 0, 0⟩
  guard (s.con ≠ 0)
  guard (s.ut ≠ 0)
  guard (s.aspace ≠ 0)
  some s

/-- The slot after `n` looks from slot `j` on. -/
def pickFrom (fits : ℕ → Bool) : ℕ → ℕ → ℕ → ℕ
  | 0, _, found => found
  | n + 1, j, found => pickFrom fits n (j + 1) (pickSlot (fits j) j found)

/-- A slot that has been taken stays. -/
lemma pickFrom_of_ne (fits : ℕ → Bool) (n j : ℕ) {found : ℕ} (h : found ≠ 0) :
    pickFrom fits n j found = found := by
  induction n generalizing j with
  | zero => rfl
  | succ n ih =>
    rw [pickFrom, pickSlot, if_neg fun e => h e.1]
    exact ih (j + 1)

/-- The slot is the first that fits, or zero if none does. -/
lemma pickFrom_spec (fits : ℕ → Bool) (n j : ℕ) (h0 : fits 0 = false) :
    (pickFrom fits n j 0 = 0 ∧ ∀ l, j ≤ l → l < j + n → fits l = false) ∨
      (pickFrom fits n j 0 ≠ 0 ∧ pickFrom fits n j 0 < j + n ∧
        fits (pickFrom fits n j 0) = true ∧
        ∀ l, j ≤ l → l < pickFrom fits n j 0 → fits l = false) := by
  induction n generalizing j with
  | zero => exact .inl ⟨rfl, fun l h1 h2 => by omega⟩
  | succ n ih =>
    rw [pickFrom, pickSlot]
    cases hj : fits j with
    | true =>
      have hne : j ≠ 0 := by
        rintro rfl
        rw [h0] at hj
        cases hj
      rw [if_pos ⟨rfl, rfl⟩, pickFrom_of_ne _ _ _ hne]
      exact .inr ⟨hne, by omega, hj, fun l h1 h2 => by omega⟩
    | false =>
      have hnone : ∀ l, j ≤ l → (j + 1 ≤ l → fits l = false) → fits l = false := by
        intro l h1 h2
        rcases Nat.eq_or_lt_of_le h1 with rfl | hlt
        · exact hj
        · exact h2 hlt
      rw [if_neg (by simp)]
      rcases ih (j + 1) with ⟨hz, hall⟩ | ⟨hne, hlt, hfit, hfirst⟩
      · exact .inl ⟨hz, fun l h1 h2 => hnone l h1 fun h3 => hall l h3 (by omega)⟩
      · exact .inr ⟨hne, by omega, hfit, fun l h1 h2 => hnone l h1 fun h3 => hfirst l h3 h2⟩

/-- The search, one kind of slot at a time. -/
lemma searchFrom_eq {load : ℕ → Option ℕ} {frameSize : ℕ} {kind size : ℕ → ℕ} {n j : ℕ}
    (hload : ∀ l, j ≤ l → l < j + n → load (Kernel.descVa l) = some (kind l) ∧
      load (Kernel.descVa l + 16) = some (size l)) (s : Slots) :
    searchFrom load frameSize n j s = some
      ⟨pickFrom (fun l => decide (kind l = 3 ∧ frameSize * 32 ≤ size l)) n j s.ut,
        pickFrom (fun l => decide (kind l = 2)) n j s.aspace,
        pickFrom (fun l => decide (kind l = 7)) n j s.con⟩ := by
  induction n generalizing j s with
  | zero => rfl
  | succ n ih =>
    obtain ⟨hk, hs⟩ := hload j le_rfl (by omega)
    rw [searchFrom, hk, hs]
    exact ih (fun l h1 h2 => hload l (by omega) (by omega)) _

end RootTask

namespace CNode

variable (c : CNode) (j : ℕ)

/-- The kind in the description of a slot. -/
def descKind : ℕ := ((c.cap j).map fun v => (capDesc v).headI).getD 0

/-- The size in the description of a slot. -/
def descSize : ℕ := ((c.cap j).map fun v => (capDesc v).getD 2 0).getD 0

/-- The slot of an address space. -/
lemma descKind_eq_two : c.descKind j = 2 ↔ ∃ r, c.cap j = some (.addrSpace r) := by
  unfold descKind
  rcases c.cap j with _ | (_ | _ | _ | _ | _ | _ | _ | _ | _) <;> simp [capDesc]

/-- The slot of a console. -/
lemma descKind_eq_seven : c.descKind j = 7 ↔ c.cap j = some .console := by
  unfold descKind
  rcases c.cap j with _ | (_ | _ | _ | _ | _ | _ | _ | _ | _) <;> simp [capDesc]

/-- The slot of a large untyped. -/
lemma descKind_eq_three {n : ℕ} : c.descKind j = 3 ∧ n ≤ c.descSize j ↔
    ∃ base size used, c.cap j = some (.untyped base size used) ∧ n ≤ size := by
  unfold descKind descSize
  rcases c.cap j with _ | (_ | _ | _ | _ | _ | _ | _ | _ | _) <;> simp [capDesc]

end CNode

namespace Kernel

variable {P : Platform} {I : Image P} {i : Machine} {k k₀ : Kernel}

/-- The fixed capabilities of the root task, in every state of a run. -/
lemma fixed_of_reaches (hboot : boot I i = some k₀) (hr : k₀.Reaches I.pool k) :
    4 ≤ k₀.cnode.used ∧ k.cnode.cap 0 = some .empty ∧ (∃ r, k.cnode.cap 2 = some (.addrSpace r)) ∧
      k.cnode.cap 3 = some .console := by
  have hderives := derives_of_reaches hboot hr
  obtain ⟨b, rfl⟩ := boot_eq_some hboot
  obtain ⟨-, -, hpop⟩ := bootstrap_ok b.cnode_eq
  obtain ⟨-, -, gapss, -, hslots⟩ := populate_ok hpop
  have hcap : ∀ j < 4, b.kernel.cnode.cap j = (fixedCaps b.userRoot)[j]? := by
    intro j hj
    change b.cnode.slots[j]? = _
    rw [hslots, List.getElem?_append_left (by simpa [fixedCaps] using by omega)]
    rfl
  have hkept : ∀ {j v}, j < 4 → (fixedCaps b.userRoot)[j]? = some v → (∀ w, v.Becomes w → w = v) →
      k.cnode.cap j = some v := by
    intro j v hj hv hstay
    obtain ⟨w, hw, hb⟩ := hderives.kept j v ((hcap j hj).trans hv)
    rw [hw, hstay w hb]
  refine ⟨?_, hkept (by decide) rfl ?_, ⟨b.userRoot, hkept (by decide) rfl ?_⟩,
    hkept (by decide) rfl ?_⟩
  · change 4 ≤ b.cnode.slots.length
    have hlen : (fixedCaps b.userRoot).length = 4 := rfl
    rw [hslots, List.length_append, List.length_append]
    omega
  all_goals
    intro w hw
    cases hw
    rfl

/-- The search on a page that describes the slots. -/
lemma Describes.searchSlots_eq {load : ℕ → Option ℕ} {n : ℕ} {c : CNode}
    (hpage : Describes P load n c) (hn : 4 ≤ n) (hempty : c.cap 0 = some .empty)
    (haspace : ∃ r, c.cap 2 = some (.addrSpace r)) (hcon : c.cap 3 = some .console) :
    ∃ aspace con, (∃ r, c.cap aspace = some (.addrSpace r)) ∧ c.cap con = some .console ∧
      RootTask.searchSlots load =
        let ut := RootTask.pickFrom
          (fun l => decide (c.descKind l = 3 ∧ P.granule * 32 ≤ c.descSize l)) n 0 0
        if ut = 0 then none else some ⟨ut, aspace, con⟩ := by
  have hdesc : ∀ l, 0 ≤ l → l < 0 + n → load (descVa l) = some (c.descKind l) ∧
      load (descVa l + 16) = some (c.descSize l) := by
    intro l _ hl
    obtain ⟨v, hv, hwords⟩ := hpage.desc l (by omega)
    obtain ⟨x, y, z, he⟩ := List.length_eq_three.mp (Stages.length_capDesc v)
    rw [he] at hwords
    simp only [List.map_cons, List.map_nil, List.cons.injEq, and_true] at hwords
    obtain ⟨h0, -, h2⟩ := hwords
    unfold CNode.descKind CNode.descSize
    rw [hv, h0, h2, Option.map_some, Option.map_some, he]
    exact ⟨rfl, rfl⟩
  have hzero : c.descKind 0 = 0 := by
    unfold CNode.descKind
    rw [hempty]
    rfl
  have hsome : ∀ kind, kind ≠ 0 → ∀ j < n, c.descKind j = kind →
      RootTask.pickFrom (fun l => decide (c.descKind l = kind)) n 0 0 ≠ 0 ∧
        c.descKind (RootTask.pickFrom (fun l => decide (c.descKind l = kind)) n 0 0) = kind := by
    intro kind hkind j hj hfit
    rcases RootTask.pickFrom_spec (fun l => decide (c.descKind l = kind)) n 0
      (decide_eq_false (by rw [hzero]; exact hkind.symm)) with ⟨-, hall⟩ | ⟨hne, -, hfit', -⟩
    · exact absurd hfit (of_decide_eq_false (hall j (Nat.zero_le j) (by omega)))
    · exact ⟨hne, of_decide_eq_true hfit'⟩
  obtain ⟨hane, ha⟩ := hsome 2 (by decide) 2 (by omega) ((c.descKind_eq_two 2).mpr haspace)
  obtain ⟨hcne, hc⟩ := hsome 7 (by decide) 3 (by omega) ((c.descKind_eq_seven 3).mpr hcon)
  refine ⟨_, _, (c.descKind_eq_two _).mp ha, (c.descKind_eq_seven _).mp hc, ?_⟩
  have hpow : 0 < P.granule ∧ 2 ^ Nat.log2 P.granule = P.granule := by cases P <;> decide
  unfold RootTask.searchSlots
  rw [hpage.version, hpage.frameSize, hpage.capCount]
  simp only [Option.bind_eq_bind, Option.bind_some, guard, if_pos hpow, if_true, Option.pure_def]
  rw [RootTask.searchFrom_eq hdesc]
  simp only [Option.bind_some, if_pos hane, if_pos hcne]
  split_ifs <;> simp_all

/-- **The bootinfo page and the search of the root task.** In every state that a run from the
handoff reaches, user code loads from the bootinfo page the version, the size of a frame, the number
of slots at the handoff, and for each of these slots the description of the capability that it holds
now. So whenever the root task searches for its capabilities, the slots that it finds hold a
console, the address space that it runs in, and the first untyped memory of at least 32 frames; and
it finds them exactly if there is such memory.

**Proof sketch.** The page is not writable, so it has what the boot wrote (`Reached.readOnly_kept`);
and what a capability turns into has the same description. The first slot is empty, so that zero is
no slot that fits. -/
theorem searchSlots_exact {elf : List UInt8} (helf : Elf.flatten elf = some I.rootTask)
    (hboot : boot I i = some k₀) (hr : k₀.Reaches I.pool k) :
    Describes P (k.userLoad64 P) k₀.cnode.used k.cnode ∧
    (∀ s, RootTask.searchSlots (k.userLoad64 P) = some s →
      k.cnode.cap s.con = some .console ∧
      k.cnode.cap s.aspace = some (.addrSpace k.tasks.currentUserRoot) ∧
      (∃ base size used, k.cnode.cap s.ut = some (.untyped base size used) ∧
        P.granule * 32 ≤ size) ∧
      ∀ j < s.ut, ∀ base size used, k.cnode.cap j = some (.untyped base size used) →
        size < P.granule * 32) ∧
    ((∃ s, RootTask.searchSlots (k.userLoad64 P) = some s) ↔
      ∃ j base size used, k.cnode.cap j = some (.untyped base size used) ∧
        P.granule * 32 ≤ size) := by
  obtain ⟨segs, hflat⟩ := Elf.flatten_eq_some helf
  have hpage := describes_of_reaches hflat.laid hboot hr
  obtain ⟨hn, hempty, haspace, hcon⟩ := fixed_of_reaches hboot hr
  have hderives := derives_of_reaches hboot hr
  obtain ⟨b, stack, live, lvl, pm, hi, hload, h⟩ := reached_of_reaches hflat.laid hboot hr
  obtain ⟨aspace, con, ⟨r, ha⟩, hc, hsearch⟩ := hpage.searchSlots_eq hn hempty haspace hcon
  obtain rfl : r = k.tasks.currentUserRoot :=
    (h.accounted.space aspace r ha).trans h.currentUserRoot.symm
  have hfits : ∀ l, decide (k.cnode.descKind l = 3 ∧ P.granule * 32 ≤ k.cnode.descSize l) = true ↔
      ∃ base size used, k.cnode.cap l = some (.untyped base size used) ∧ P.granule * 32 ≤ size :=
    fun l => decide_eq_true_iff.trans (k.cnode.descKind_eq_three l)
  have h0 : decide (k.cnode.descKind 0 = 3 ∧ P.granule * 32 ≤ k.cnode.descSize 0) = false := by
    rw [← Bool.not_eq_true, hfits]
    rintro ⟨base, size, used, hu, -⟩
    rw [hempty] at hu
    cases hu
  refine ⟨hpage, ?_⟩
  rw [hsearch]
  dsimp only
  rcases RootTask.pickFrom_spec
    (fun l => decide (k.cnode.descKind l = 3 ∧ P.granule * 32 ≤ k.cnode.descSize l))
    k₀.cnode.used 0 h0 with ⟨hz, hall⟩ | ⟨hne, -, hfit, hfirst⟩
  · -- no slot of the handoff fits, and untyped memory is found in these only
    rw [if_pos hz]
    refine ⟨fun s hs => ?_, fun ⟨s, hs⟩ => ?_, fun ⟨j, base, size, used, hj, hsize⟩ => ?_⟩
    · cases hs
    · cases hs
    · obtain ⟨used₀, -, hj₀⟩ := hderives.untyped hj
      have hlt := CNode.lt_used_of_cap hj₀
      have hfit := (hfits j).mpr ⟨base, size, used, hj, hsize⟩
      rw [hall j (Nat.zero_le j) (by omega)] at hfit
      cases hfit
  · rw [if_neg hne]
    have hut := (hfits _).mp hfit
    refine ⟨?_, fun _ => ⟨_, hut⟩, fun _ => ⟨_, rfl⟩⟩
    rintro s ⟨⟩
    refine ⟨hc, ha, hut, fun j hj base size used hu => ?_⟩
    by_contra hlarge
    have hfit' := (hfits j).mpr ⟨base, size, used, hu, by omega⟩
    rw [hfirst j (Nat.zero_le j) hj] at hfit'
    cases hfit'

/-- The hypotheses hold on the small machine, where the search succeeds after a frame has been
carved. -/
theorem searchSlots_exact_smallMachine :
    ∃ (k : Kernel) (s : RootTask.Slots), RootTask.searchSlots (k.userLoad64 .apple) = some s ∧
      k.cnode.cap s.con = some .console := by
  obtain ⟨k₀, k₁, k₂, h⟩ := exists_mapFirst
  obtain ⟨-, hfound, hiff⟩ := searchSlots_exact flatten_smallElf h.boot h.reaches₁
  obtain ⟨s, hs⟩ := hiff.mpr ⟨4, _, _, _, h.untyped, by decide⟩
  exact ⟨k₁, s, hs, (hfound s hs).1⟩

end Kernel

end K0
