import K0.Boot.FdtCorrect
import K0.Boot.FdtSound

set_option relaxedAutoImplicit false
set_option autoImplicit false

/-!
# The parser does not panic

The model of the parser in `K0.Boot.Fdt` computes with unbounded numbers and total slices. In the
source an unchecked addition, subtraction or index panics when it leaves its range. Here the parser
is modelled once more with these panics: `Checked.parseBlob` has no result if a panic is reached or
if a loop does not end within the rounds that it is given. It always has a result, and it is the one
of the first model.

Byte slices have fewer than `2 ^ 63` bytes, which is what the language guarantees.

## Main definitions

* `K0.Fdt.Checked.add`, `K0.Fdt.Checked.sub`, `K0.Fdt.Checked.index`, `K0.Fdt.Checked.range`: the
  operations that panic.
* `K0.Fdt.Checked.parseBlob`: the parser with its panics.

## Main results

* `K0.Fdt.parseBlob_total`: the parser returns on every blob, and every round of its loops makes
  progress.
-/

namespace K0.Fdt

namespace Checked

open Word Bytes Outcome

/-! ### Operations that panic -/

/-- The plain addition of two 64-bit numbers. -/
def add (a b : ℕ) : Fallible BootError ℕ := orPanic (checkedAdd a b)

/-- The plain addition of two 32-bit numbers. -/
def add32 (a b : ℕ) : Fallible BootError ℕ :=
  orPanic (if a + b < 2 ^ 32 then some (a + b) else none)

/-- The plain multiplication of two 32-bit numbers. -/
def mul32 (a b : ℕ) : Fallible BootError ℕ :=
  orPanic (if a * b < 2 ^ 32 then some (a * b) else none)

/-- The plain subtraction of two unsigned numbers. -/
def sub (a b : ℕ) : Fallible BootError ℕ := orPanic (if b ≤ a then some (a - b) else none)

/-- The remainder of two numbers. -/
def rem (a b : ℕ) : Fallible BootError ℕ := orPanic (if b ≠ 0 then some (a % b) else none)

/-- The byte at an index. -/
def index (bs : List UInt8) (i : ℕ) : Fallible BootError UInt8 := orPanic bs[i]?

/-- The first bytes, read one by one by their index. -/
def firsts (bs : List UInt8) : ℕ → Fallible BootError (List UInt8)
  | 0 => pure []
  | n + 1 => do
    let l ← firsts bs n
    let b ← index bs n
    pure (l ++ [b])

/-- The bytes of a range. -/
def range (bs : List UInt8) (a b : ℕ) : Fallible BootError (List UInt8) := orPanic (slice bs a b)

/-- The two parts of a slice. -/
def splitAt (bs : List UInt8) (n : ℕ) : Fallible BootError (List UInt8 × List UInt8) :=
  orPanic (if n ≤ bs.length then some (bs.take n, bs.drop n) else none)

/-- Store at the index that is the count of an array of length `limit`, and count it. -/
def store (limit : ℕ) (out : List MemRegion) (r : MemRegion) :
    Fallible BootError (List MemRegion) := do
  let out' ← orPanic (if out.length < limit then some (out ++ [r]) else none)
  let _ ← add out.length 1
  pure out'

/-! ### The parser -/

/-- The big-endian 32-bit word at an offset. -/
def be32 (blob : List UInt8) (off : ℕ) : Fallible BootError ℕ := do
  let b ← orError .truncated (slice blob off ((off + 4) % 2 ^ 64))
  let l ← firsts b 4
  pure (fromBeBytes l)

/-- The big-endian 64-bit word at an offset. -/
def be64 (blob : List UInt8) (off : ℕ) : Fallible BootError ℕ := do
  let b ← orError .truncated (slice blob off ((off + 8) % 2 ^ 64))
  let l ← firsts b 8
  pure (fromBeBytes l)

/-- Round an offset up to a multiple of four. -/
def align4 (off : ℕ) : Fallible BootError ℕ :=
  orError .truncated ((checkedAdd off 3).map (maskDown 4))

/-- The value of a `#address-cells` or `#size-cells` property. -/
def cellCount (value : List UInt8) : Fallible BootError ℕ :=
  if value.length ≠ 4 then throw .unsupportedCells
  else do
    let l ← firsts value 4
    pure (fromBeBytes l)

/-- The loop of `parse_reg` over the remaining number of entries. -/
def parseEntries (addrBytes entry limit : ℕ) :
    ℕ → List UInt8 → List MemRegion → Fallible BootError (List MemRegion)
  | 0, _, out => pure out
  | n + 1, value, out => do
    let (a, s) ← splitAt (value.take entry) addrBytes
    let base := readCells a
    let size := readCells s
    if size = 0 then parseEntries addrBytes entry limit n (value.drop entry) out
    else do
      let _ ← orError .badReg (checkedAdd base size)
      if out.length = limit then throw .tooManyRegions
      else do
        let out ← store limit out ⟨base, size⟩
        parseEntries addrBytes entry limit n (value.drop entry) out

/-- Append the entries of a `reg` property. -/
def parseReg (value : List UInt8) (addrCells sizeCells limit : ℕ) (out : List MemRegion) :
    Fallible BootError (List MemRegion) :=
  if ¬ (1 ≤ addrCells ∧ addrCells ≤ 2) ∨ ¬ (1 ≤ sizeCells ∧ sizeCells ≤ 2) then
    throw .unsupportedCells
  else do
    let cells ← add32 addrCells sizeCells
    let entry ← mul32 cells 4
    if value = [] then throw .badReg
    else do
      let r ← rem value.length entry
      if r ≠ 0 then throw .badReg
      else do
        let addrBytes ← mul32 addrCells 4
        parseEntries addrBytes entry limit (value.length / entry) value out

/-- Append the `reg` entries of a memory node. -/
def pushRegions (value : List UInt8) (addrCells sizeCells : ℕ) (info : BootInfo) :
    Fallible BootError BootInfo := do
  let out ← parseReg value addrCells sizeCells maxMemRegions info.memory
  pure { info with memory := out }

/-- Append the `reg` entries of a child of the reserved-memory node. -/
def pushReservedRegions (value : List UInt8) (addrCells sizeCells : ℕ) (info : BootInfo) :
    Fallible BootError BootInfo := do
  let out ← parseReg value addrCells sizeCells maxRsvRegions info.reserved
  pure { info with reserved := out }

/-- Append one pair of the memory reservation block. -/
def pushReserved (info : BootInfo) (base size : ℕ) : Fallible BootError BootInfo := do
  let _ ← orError .badReg (checkedAdd base size)
  if info.reserved.length = maxRsvRegions then throw .tooManyRegions
  else do
    let out ← store maxRsvRegions info.reserved ⟨base, size⟩
    pure { info with reserved := out }

/-- Append entropy up to the limit and drop the rest. -/
def pushEntropy (value : List UInt8) (info : BootInfo) : Fallible BootError BootInfo := do
  let cap ← sub maxEntropy info.entropy.length
  let n := min value.length cap
  let stop ← add info.entropy.length n
  -- the destination `entropy[len..len + n]` lies in the array
  let _ ← sub maxEntropy stop
  let src ← range value 0 n
  pure { info with entropy := info.entropy ++ src }

/-- The name at an offset of the strings block. -/
def propName (d : Blocks) (nameOff : ℕ) : Fallible BootError (List UInt8) := do
  let start ← orError .badString
    ((checkedAdd d.offStrings nameOff).filter fun s => decide (s < d.stringsEnd))
  let rest ← range d.blob start d.stringsEnd
  let rel ← orError .badString (rest.findIdx? (· == 0))
  let stop ← add start rel
  range d.blob start stop

/-- The branch of `FDT_BEGIN_NODE`. -/
def beginNode (d : Blocks) (s : Scan) : Fallible BootError Scan := do
  let depth ← add32 s.depth 1
  if depth > maxDepth then throw .tooDeep
  else do
    let rest ← orError .badStructure (slice d.blob s.off d.structEnd)
    let rel ← orError .badStructure (rest.findIdx? (· == 0))
    let stop ← add s.off rel
    let name ← range d.blob s.off stop
    if depth = 1 ∧ name ≠ [] then throw .badStructure
    else do
      let next ← add stop 1
      let off ← align4 next
      pure { s.enter name with off := off }

/-- The branch of `FDT_END_NODE`. -/
def endNode (s : Scan) : Fallible BootError Scan :=
  if s.depth = 0 then throw .badStructure
  else do
    let depth ← sub s.depth 1
    pure { s.leave with depth := depth }

/-- What a property of the given name and value changes, beside the offset. -/
def read (s : Scan) (name value : List UInt8) : Fallible BootError Scan :=
  if s.depth = 1 then
    if name = ascii "#address-cells" then do
      let n ← cellCount value
      pure { s with addrCells := n }
    else if name = ascii "#size-cells" then do
      let n ← cellCount value
      pure { s with sizeCells := n }
    else pure s
  else if s.memoryDepth = some s.depth ∧ name = ascii "reg" then do
    let i ← pushRegions value s.addrCells s.sizeCells s.info
    pure { s with info := i }
  else if s.rsvNode = true ∧ s.depth = 2 then
    if name = ascii "#address-cells" then do
      let n ← cellCount value
      pure { s with rsvAddrCells := n }
    else if name = ascii "#size-cells" then do
      let n ← cellCount value
      pure { s with rsvSizeCells := n }
    else pure s
  else if s.rsvNode = true ∧ s.depth = 3 ∧ name = ascii "reg" then do
    let i ← pushReservedRegions value s.rsvAddrCells s.rsvSizeCells s.info
    pure { s with info := i }
  else if s.chosenDepth = some s.depth ∧
      (name = ascii "rng-seed" ∨ name = ascii "kaslr-seed") then do
    let i ← pushEntropy value s.info
    pure { s with info := i }
  else pure s

/-- The branch of `FDT_PROP`. -/
def prop (d : Blocks) (s : Scan) : Fallible BootError Scan :=
  if s.depth = 0 then throw .badStructure
  else do
    let len ← be32 d.blob s.off
    let nameAt ← add s.off 4
    let nameOff ← be32 d.blob nameAt
    let valStart ← add s.off 8
    let valEnd ← orError .truncated
      ((checkedAdd valStart len).filter fun e => decide (e ≤ d.structEnd))
    let name ← propName d nameOff
    let value ← range d.blob valStart valEnd
    let s ← read s name value
    let off ← align4 valEnd
    pure { s with off := off }

/-- How a round of a loop ends. -/
inductive Round (α : Type) where
  | done (info : BootInfo)
  | next (a : α)

/-- A round of the token loop. -/
def tokenRound (d : Blocks) (s : Scan) : Fallible BootError (Round Scan) :=
  if d.structEnd ≤ s.off then throw .badStructure
  else do
    let token ← be32 d.blob s.off
    let off ← add s.off 4
    let s := { s with off := off }
    if token = fdtBeginNode then do
      let s ← beginNode d s
      pure (.next s)
    else if token = fdtEndNode then do
      let s ← endNode s
      pure (.next s)
    else if token = fdtProp then do
      let s ← prop d s
      pure (.next s)
    else if token = fdtNop then pure (.next s)
    else if token = fdtEnd then
      if s.depth ≠ 0 then throw .badStructure else pure (.done s.info)
    else throw .badStructure

/-- The token loop; no result if it takes more than the given number of rounds. -/
def tokenLoop (d : Blocks) : ℕ → Scan → Fallible BootError BootInfo
  | 0, _ => none
  | fuel + 1, s => do
    let r ← tokenRound d s
    match r with
    | .done i => pure i
    | .next s => tokenLoop d fuel s

/-- A round of the loop over the memory reservation block. -/
def rsvRound (blob : List UInt8) (off : ℕ) (info : BootInfo) :
    Fallible BootError (Round (ℕ × BootInfo)) := do
  let base ← be64 blob off
  let sizeAt ← add off 8
  let size ← be64 blob sizeAt
  let off ← orError .truncated (checkedAdd off 16)
  if base = 0 ∧ size = 0 then pure (.done info)
  else if size = 0 then pure (.next (off, info))
  else do
    let info ← pushReserved info base size
    pure (.next (off, info))

/-- The loop over the memory reservation block; no result if it takes more than the given number of
rounds. -/
def rsvLoop (blob : List UInt8) : ℕ → ℕ → BootInfo → Fallible BootError BootInfo
  | 0, _, _ => none
  | fuel + 1, off, info => do
    let r ← rsvRound blob off info
    match r with
    | .done i => pure i
    | .next (off, info) => rsvLoop blob fuel off info

/-- The end of a block, if it lies in the blob. -/
def blockEnd (blob : List UInt8) (off size : ℕ) : Fallible BootError ℕ :=
  orError .badHeader ((checkedAdd off size).filter fun e => decide (e ≤ blob.length))

/-- Parse a blob that occupies the physical range `dtb`, with at most as many rounds of each loop as
there are bytes. -/
def parseBlob (blob : List UInt8) (dtb : Span) : Fallible BootError BootInfo := do
  let offStruct ← be32 blob 8
  let offStrings ← be32 blob 12
  let version ← be32 blob 20
  let lastCompVersion ← be32 blob 24
  let sizeStrings ← be32 blob 32
  let sizeStruct ← be32 blob 36
  if version < supportedVersion ∨ supportedVersion < lastCompVersion then
    throw .unsupportedVersion
  else if offStruct % 4 ≠ 0 ∨ sizeStruct % 4 ≠ 0 then throw .badHeader
  else do
    let structEnd ← blockEnd blob offStruct sizeStruct
    let stringsEnd ← blockEnd blob offStrings sizeStrings
    let offRsvmap ← be32 blob 16
    if offRsvmap % 8 ≠ 0 then throw .badHeader
    else do
      let info ← rsvLoop blob (blob.length + 1) offRsvmap ⟨dtb, [], [], []⟩
      let info ← tokenLoop ⟨blob, structEnd, offStrings, stringsEnd⟩ (blob.length + 1)
        (Scan.init offStruct info)
      if info.memory = [] then throw .noMemory else pure info

/-! ### No operation panics -/

section Operations

/-- An addition that stays in range. -/
lemma add_eq {a b : ℕ} (h : a + b < 2 ^ 64) : add a b = pure (a + b) :=
  orPanic_eq_pure.mpr (checkedAdd_eq_some.mpr ⟨h, rfl⟩)

/-- A subtraction that stays in range. -/
lemma sub_eq {a b : ℕ} (h : b ≤ a) : sub a b = pure (a - b) := orPanic_eq_pure.mpr (if_pos h)

/-- A range in bounds. -/
lemma range_eq {bs : List UInt8} {a b : ℕ} (h : a ≤ b ∧ b ≤ bs.length) :
    range bs a b = pure ((bs.drop a).take (b - a)) := orPanic_eq_pure.mpr (if_pos h)

/-- Indices in bounds. -/
lemma firsts_eq {bs : List UInt8} {n : ℕ} (h : n ≤ bs.length) :
    firsts bs n = pure (bs.take n) := by
  induction n with
  | zero => rfl
  | succ n ih =>
    have hn : n < bs.length := h
    have hindex : index bs n = pure bs[n] := orPanic_eq_pure.mpr (List.getElem?_eq_getElem hn)
    rw [firsts, pure_bind_eq (ih hn.le), pure_bind_eq hindex, List.take_succ_eq_append_getElem hn]

/-- A store at a free index. -/
lemma store_eq {limit : ℕ} {out : List MemRegion} {r : MemRegion} (h : out.length < limit)
    (hlimit : limit < 2 ^ 63) : store limit out r = pure (out ++ [r]) := by
  unfold store
  rw [pure_bind_eq (orPanic_eq_pure.mpr (if_pos h)), pure_bind_eq (add_eq (by omega))]

/-- The bytes of a slice of known length, read one by one. -/
lemma firsts_of_slice {blob b : List UInt8} {off k : ℕ} (hlen : blob.length < 2 ^ 63)
    (hk : k < 2 ^ 63) (h : slice blob off ((off + k) % 2 ^ 64) = some b) :
    firsts b k = pure b ∧ off + k ≤ blob.length := by
  unfold slice at h
  split_ifs at h with hc
  have hmod : (off + k) % 2 ^ 64 = off + k := by omega
  rw [hmod, Nat.add_sub_cancel_left, Option.some.injEq] at h
  have hblen : b.length = k := by
    rw [← h, List.length_take, List.length_drop]
    omega
  refine ⟨?_, by omega⟩
  rw [firsts_eq hblen.ge, ← hblen, List.take_length]

end Operations

/-! ### No function panics -/

section Functions

variable {blob : List UInt8} {off : ℕ}

/-- Reading a word does not panic. -/
lemma be32_eq (hlen : blob.length < 2 ^ 63) (off : ℕ) :
    be32 blob off = lift (Fdt.be32 blob off) := by
  unfold be32 Fdt.be32
  cases h : slice blob off ((off + 4) % 2 ^ 64) with
  | none => rfl
  | some b =>
    show (firsts b 4 >>= fun l => pure (fromBeBytes l)) = _
    rw [pure_bind_eq (firsts_of_slice hlen (by omega) h).1]
    rfl

/-- Reading a double word does not panic. -/
lemma be64_eq (hlen : blob.length < 2 ^ 63) (off : ℕ) :
    be64 blob off = lift (Fdt.be64 blob off) := by
  unfold be64 Fdt.be64
  cases h : slice blob off ((off + 8) % 2 ^ 64) with
  | none => rfl
  | some b =>
    show (firsts b 8 >>= fun l => pure (fromBeBytes l)) = _
    rw [pure_bind_eq (firsts_of_slice hlen (by omega) h).1]
    rfl

/-- Aligning does not panic. -/
lemma align4_eq (off : ℕ) : align4 off = lift (Fdt.align4 off) := by
  unfold align4 Fdt.align4
  cases checkedAdd off 3 <;> rfl

/-- A cell size is read without a panic. -/
lemma cellCount_eq (value : List UInt8) : cellCount value = lift (Fdt.cellCount value) := by
  unfold cellCount Fdt.cellCount
  split_ifs with h
  · rfl
  · have h4 : value.length = 4 := not_not.mp h
    rw [pure_bind_eq (firsts_eq h4.ge), List.take_of_length_le h4.le]
    rfl

/-- The entries of a `reg` value are read without a panic. -/
lemma parseEntries_eq {addrBytes entry limit n : ℕ} {value : List UInt8} {out : List MemRegion}
    (haddr : addrBytes ≤ entry) (hlimit : limit < 2 ^ 63) (hvalue : n * entry ≤ value.length)
    (hout : out.length ≤ limit) :
    parseEntries addrBytes entry limit n value out =
      lift (Fdt.parseEntries addrBytes entry limit n value out) := by
  induction n generalizing value out with
  | zero => rfl
  | succ n ih =>
    have hentry : entry ≤ value.length := by
      rw [add_mul, one_mul] at hvalue
      omega
    have hrest : n * entry ≤ (value.drop entry).length := by
      rw [add_mul, one_mul] at hvalue
      rw [List.length_drop]
      omega
    have hsplit : splitAt (value.take entry) addrBytes =
        pure ((value.take entry).take addrBytes, (value.take entry).drop addrBytes) :=
      orPanic_eq_pure.mpr (if_pos (by rw [List.length_take]; omega))
    rw [parseEntries, Fdt.parseEntries, pure_bind_eq hsplit]
    dsimp only
    set base := readCells ((value.take entry).take addrBytes)
    set size := readCells ((value.take entry).drop addrBytes)
    by_cases hzero : size = 0
    · rw [if_pos hzero, if_pos hzero]
      exact ih hrest hout
    · rw [if_neg hzero, if_neg hzero]
      cases checkedAdd base size with
      | none => rfl
      | some v =>
        rw [pure_bind_eq (orError_eq_pure.mpr rfl), if_neg (by simp : ¬ (some v).isNone = true)]
        by_cases hfull : out.length = limit
        · rw [if_pos hfull, if_pos hfull]
          rfl
        · rw [if_neg hfull, if_neg hfull, pure_bind_eq (store_eq (by omega) hlimit)]
          refine ih hrest ?_
          rw [List.length_append, List.length_singleton]
          omega

/-- A `reg` value is read without a panic. -/
lemma parseReg_eq {value : List UInt8} {ac sc limit : ℕ} {out : List MemRegion}
    (hlimit : limit < 2 ^ 63) (hout : out.length ≤ limit) :
    parseReg value ac sc limit out = lift (Fdt.parseReg value ac sc limit out) := by
  unfold parseReg Fdt.parseReg
  by_cases hcells : ¬ (1 ≤ ac ∧ ac ≤ 2) ∨ ¬ (1 ≤ sc ∧ sc ≤ 2)
  · rw [if_pos hcells, if_pos hcells]
    rfl
  · rw [if_neg hcells, if_neg hcells]
    have hadd : add32 ac sc = pure (ac + sc) := orPanic_eq_pure.mpr (if_pos (by omega))
    have hmul : mul32 (ac + sc) 4 = pure ((ac + sc) * 4) :=
      orPanic_eq_pure.mpr (if_pos (by omega))
    have haddr : mul32 ac 4 = pure (ac * 4) := orPanic_eq_pure.mpr (if_pos (by omega))
    have hrem : rem value.length ((ac + sc) * 4) = pure (value.length % ((ac + sc) * 4)) :=
      orPanic_eq_pure.mpr (if_pos (by omega))
    rw [pure_bind_eq hadd, pure_bind_eq hmul]
    dsimp only
    by_cases hnil : value = []
    · rw [if_pos hnil, if_pos (.inl hnil)]
      rfl
    · rw [if_neg hnil, pure_bind_eq hrem]
      by_cases hmod : value.length % ((ac + sc) * 4) ≠ 0
      · rw [if_pos hmod, if_pos (.inr hmod)]
        rfl
      · rw [if_neg hmod, if_neg (by tauto), pure_bind_eq haddr]
        exact parseEntries_eq (by omega) hlimit (Nat.div_mul_le_self _ _) hout

/-- A pair of the reservation block is stored without a panic. -/
lemma pushReserved_eq {info : BootInfo} {base size : ℕ}
    (h : info.reserved.length ≤ maxRsvRegions) :
    pushReserved info base size = lift (Fdt.pushReserved info base size) := by
  unfold pushReserved Fdt.pushReserved
  cases checkedAdd base size with
  | none => rfl
  | some v =>
    rw [pure_bind_eq (orError_eq_pure.mpr rfl), if_neg (by simp : ¬ (some v).isNone = true)]
    by_cases hfull : info.reserved.length = maxRsvRegions
    · rw [if_pos hfull, if_pos hfull]
      rfl
    · rw [if_neg hfull, if_neg hfull, pure_bind_eq (store_eq (by omega) (by decide))]
      rfl

/-- Entropy is stored without a panic. -/
lemma pushEntropy_eq {value : List UInt8} {info : BootInfo}
    (h : info.entropy.length ≤ maxEntropy) :
    pushEntropy value info = pure (Fdt.pushEntropy value info) := by
  have hmax : maxEntropy < 2 ^ 63 := by decide
  unfold pushEntropy Fdt.pushEntropy
  rw [pure_bind_eq (sub_eq h)]
  dsimp only
  rw [pure_bind_eq (add_eq (by omega)), pure_bind_eq (sub_eq (by omega)),
    pure_bind_eq (range_eq ⟨Nat.zero_le _, by omega⟩)]
  have htake : (value.drop 0).take (min value.length (maxEntropy - info.entropy.length) - 0) =
      value.take (maxEntropy - info.entropy.length) := by
    rw [List.drop_zero, Nat.sub_zero, Nat.min_comm, ← List.take_eq_take_min]
  rw [htake]

/-- A property is read without a panic. -/
lemma read_eq {dtb : Span} {s : Scan} (h : s.info.Ok dtb) (name value : List UInt8) :
    read s name value = lift (s.read name value) := by
  have hmem : ∀ a b, pushRegions value a b s.info = lift (Fdt.pushRegions value a b s.info) := by
    intro a b
    unfold pushRegions Fdt.pushRegions
    rw [parseReg_eq (by decide) h.memory_le, lift_bind_pure]
    cases Fdt.parseReg value a b maxMemRegions s.info.memory <;> rfl
  have hrsv : ∀ a b, pushReservedRegions value a b s.info =
      lift (Fdt.pushReservedRegions value a b s.info) := by
    intro a b
    unfold pushReservedRegions Fdt.pushReservedRegions
    rw [parseReg_eq (by decide) h.reserved_le, lift_bind_pure]
    cases Fdt.parseReg value a b maxRsvRegions s.info.reserved <;> rfl
  unfold read Scan.read
  split_ifs
  · rw [cellCount_eq, lift_bind_pure]
  · rw [cellCount_eq, lift_bind_pure]
  · rfl
  · rw [hmem, lift_bind_pure]
  · rw [cellCount_eq, lift_bind_pure]
  · rw [cellCount_eq, lift_bind_pure]
  · rfl
  · rw [hrsv, lift_bind_pure]
  · rw [pure_bind_eq (pushEntropy_eq h.entropy_le)]
    rfl
  · rfl

end Functions

/-! ### The token loop -/

section Tokens

variable {d : Blocks} {s : Scan} {dtb : Span}

/-- The bounds that the header check establishes. -/
structure Blocks.InBlob (d : Blocks) : Prop where
  length_lt : d.blob.length < 2 ^ 63
  struct_le : d.structEnd ≤ d.blob.length
  strings_le : d.stringsEnd ≤ d.blob.length

/-- The first NUL of a range lies in the range. -/
lemma findIdx?_lt {bs : List UInt8} {a b rel : ℕ} (hb : b ≤ bs.length)
    (h : ((bs.drop a).take (b - a)).findIdx? (· == 0) = some rel) : a + rel < b := by
  have hlt := (List.findIdx?_eq_some_iff_getElem.mp h).1
  rw [List.length_take, List.length_drop] at hlt
  omega

/-- A property name is found without a panic. -/
lemma propName_eq (hd : Blocks.InBlob d) (nameOff : ℕ) :
    propName d nameOff = lift (Fdt.propName d nameOff) := by
  have hlen := hd.length_lt
  have hend := hd.strings_le
  unfold propName Fdt.propName
  cases hc : checkedAdd d.offStrings nameOff with
  | none => rfl
  | some start =>
    by_cases hlt : start < d.stringsEnd
    · have hstart : (some start).filter (fun s => decide (s < d.stringsEnd)) = some start := by
        rw [Option.filter_some, decide_eq_true hlt]
        rfl
      rw [hstart, pure_bind_eq (orError_eq_pure.mpr rfl), pure_bind_eq (range_eq ⟨hlt.le, hend⟩)]
      dsimp only
      rw [if_pos hlt]
      cases hf : ((d.blob.drop start).take (d.stringsEnd - start)).findIdx? (· == 0) with
      | none => rfl
      | some rel =>
        have hrel := findIdx?_lt hend hf
        rw [pure_bind_eq (orError_eq_pure.mpr rfl), pure_bind_eq (add_eq (by omega)),
          range_eq ⟨by omega, by omega⟩, Nat.add_sub_cancel_left]
        rfl
    · have hstart : (some start).filter (fun s => decide (s < d.stringsEnd)) = none := by
        rw [Option.filter_some, decide_eq_false hlt]
        rfl
      rw [hstart]
      dsimp only
      rw [if_neg hlt]
      rfl

/-- The branch of `FDT_BEGIN_NODE` does not panic. -/
lemma beginNode_eq (hd : Blocks.InBlob d) (hdepth : s.depth ≤ maxDepth) :
    beginNode d s = lift (Fdt.beginNode d s) := by
  have hlen := hd.length_lt
  have hend := hd.struct_le
  have hadd : add32 s.depth 1 = pure (s.depth + 1) :=
    orPanic_eq_pure.mpr (if_pos (by unfold maxDepth at hdepth; omega))
  unfold beginNode Fdt.beginNode
  rw [pure_bind_eq hadd]
  by_cases hdeep : s.depth + 1 > maxDepth
  · rw [if_pos hdeep, if_pos hdeep]
    rfl
  · rw [if_neg hdeep, if_neg hdeep]
    cases hs : slice d.blob s.off d.structEnd with
    | none => rfl
    | some rest =>
      unfold slice at hs
      split_ifs at hs with hbounds
      obtain rfl := Option.some.inj hs
      rw [pure_bind_eq (orError_eq_pure.mpr rfl)]
      dsimp only
      cases hf : ((d.blob.drop s.off).take (d.structEnd - s.off)).findIdx? (· == 0) with
      | none => rfl
      | some rel =>
        have hrel := findIdx?_lt hend hf
        rw [pure_bind_eq (orError_eq_pure.mpr rfl), pure_bind_eq (add_eq (by omega)),
          pure_bind_eq (range_eq ⟨by omega, by omega⟩), Nat.add_sub_cancel_left]
        dsimp only
        by_cases hroot : s.depth + 1 = 1 ∧ (d.blob.drop s.off).take rel ≠ []
        · rw [if_pos hroot, if_pos hroot]
          rfl
        · rw [if_neg hroot, if_neg hroot, pure_bind_eq (add_eq (by omega)), align4_eq,
            lift_bind_pure]
          cases Fdt.align4 (s.off + rel + 1) <;> rfl

/-- The branch of `FDT_END_NODE` does not panic. -/
lemma endNode_eq (s : Scan) : endNode s = lift (Fdt.endNode s) := by
  unfold endNode Fdt.endNode
  by_cases h0 : s.depth = 0
  · rw [if_pos h0, if_pos h0]
    rfl
  · have hleave : { s.leave with depth := s.depth - 1 } = s.leave := by
      rw [← s.leave_depth]
    rw [if_neg h0, if_neg h0, pure_bind_eq (sub_eq (by omega)), hleave]
    rfl

/-- The branch of `FDT_PROP` does not panic. -/
lemma prop_eq (hd : Blocks.InBlob d) (hoff : s.off < 2 ^ 63 + 4) (hi : s.info.Ok dtb) :
    prop d s = lift (Fdt.prop d s) := by
  have hlen := hd.length_lt
  have hend := hd.struct_le
  unfold prop Fdt.prop
  by_cases h0 : s.depth = 0
  · rw [if_pos h0, if_pos h0]
    rfl
  · rw [if_neg h0, if_neg h0]
    refine bind_eq_lift (be32_eq hlen _) fun len _ => ?_
    rw [pure_bind_eq (add_eq (by omega))]
    refine bind_eq_lift (be32_eq hlen _) fun nameOff _ => ?_
    rw [pure_bind_eq (add_eq (by omega))]
    dsimp only
    cases hc : checkedAdd (s.off + 8) len with
    | none => rfl
    | some valEnd =>
      obtain ⟨-, rfl⟩ := checkedAdd_eq_some.mp hc
      by_cases hle : s.off + 8 + len ≤ d.structEnd
      · have hval : (some (s.off + 8 + len)).filter (fun e => decide (e ≤ d.structEnd)) =
            some (s.off + 8 + len) := by
          rw [Option.filter_some, decide_eq_true hle]
          rfl
        rw [hval, pure_bind_eq (orError_eq_pure.mpr rfl)]
        dsimp only
        rw [if_pos hle]
        refine bind_eq_lift (propName_eq hd _) fun name _ => ?_
        rw [pure_bind_eq (range_eq ⟨by omega, by omega⟩)]
        refine bind_eq_lift (read_eq hi _ _) fun s' _ => ?_
        rw [align4_eq, lift_bind_pure]
        cases Fdt.align4 (s.off + 8 + len) <;> rfl
      · have hval : (some (s.off + 8 + len)).filter (fun e => decide (e ≤ d.structEnd)) = none := by
          rw [Option.filter_some, decide_eq_false hle]
          rfl
        rw [hval]
        dsimp only
        rw [if_neg hle]
        rfl

/-- What the rounds of the token loop keep. -/
structure Scan.InBounds (dtb : Span) (s : Scan) : Prop where
  depth : s.depth ≤ maxDepth
  info : s.info.Ok dtb

/-- The branch of `FDT_BEGIN_NODE` keeps the bounds. -/
lemma inBounds_of_beginNode {s' : Scan} (h : Fdt.beginNode d s = .ok s')
    (hs : Scan.InBounds dtb s) : Scan.InBounds dtb s' := by
  refine ⟨?_, beginNode_info h ▸ hs.info⟩
  unfold Fdt.beginNode at h
  split_ifs at h with hdeep
  split at h
  · cases h
  · split at h
    · cases h
    · dsimp only at h
      split_ifs at h
      split at h
      · cases h
      · obtain rfl := Except.ok.inj h
        show (s.enter _).depth ≤ maxDepth
        rw [s.enter_depth]
        exact not_lt.mp hdeep

/-- The branch of `FDT_PROP` keeps the bounds. -/
lemma inBounds_of_prop {s' : Scan} (h : Fdt.prop d s = .ok s') (hs : Scan.InBounds dtb s) :
    Scan.InBounds dtb s' := by
  refine ⟨?_, prop_ok h hs.info⟩
  unfold Fdt.prop at h
  split_ifs at h
  obtain ⟨len, -, h⟩ := except_bind_eq_ok.mp h
  obtain ⟨nameOff, -, h⟩ := except_bind_eq_ok.mp h
  dsimp only at h
  split at h
  · cases h
  · split_ifs at h
    obtain ⟨name, -, h⟩ := except_bind_eq_ok.mp h
    obtain ⟨s₁, hread, h⟩ := except_bind_eq_ok.mp h
    obtain ⟨off, -, h⟩ := except_bind_eq_ok.mp h
    obtain rfl := Except.ok.inj h
    show s₁.depth ≤ maxDepth
    rw [Scan.read_depth hread]
    exact hs.depth

/-- The token loop neither panics nor runs out of rounds, if it has more of them than there are
bytes left.

**Proof sketch.** By induction on the rounds; every round that goes on moves the offset. -/
lemma tokenLoop_eq (hd : Blocks.InBlob d) {fuel : ℕ} (hs : Scan.InBounds dtb s)
    (hfuel : d.structEnd - s.off < fuel) :
    tokenLoop d fuel s = lift (Fdt.tokenLoop d fuel s) := by
  induction fuel generalizing s with
  | zero => exact absurd hfuel (Nat.not_lt_zero _)
  | succ fuel ih =>
    have hlen := hd.length_lt
    have hend := hd.struct_le
    rw [tokenLoop, Fdt.tokenLoop]
    unfold tokenRound
    by_cases hout : d.structEnd ≤ s.off
    · rw [if_pos hout, if_pos hout]
      rfl
    · rw [if_neg hout, if_neg hout, bind_assoc]
      refine bind_eq_lift (be32_eq hlen _) fun token _ => ?_
      rw [bind_assoc, pure_bind_eq (add_eq (by omega))]
      dsimp only
      have hs₁ : Scan.InBounds dtb { s with off := s.off + 4 } := ⟨hs.depth, hs.info⟩
      -- a context at or behind the token word
      have hnext : ∀ s' : Scan, Scan.InBounds dtb s' → s.off + 4 ≤ s'.off →
          tokenLoop d fuel s' = lift (Fdt.tokenLoop d fuel s') := fun s' hs' hle =>
        ih hs' (by omega)
      split_ifs
      · rw [bind_assoc]
        refine bind_eq_lift (beginNode_eq hd hs₁.depth) fun s' hb => ?_
        exact hnext s' (inBounds_of_beginNode hb hs₁) (off_le_of_beginNode hb)
      · rw [bind_assoc]
        refine bind_eq_lift (endNode_eq _) fun s' hb => ?_
        have hleave : s' = Scan.leave { s with off := s.off + 4 } := by
          unfold Fdt.endNode at hb
          split_ifs at hb
          exact (Except.ok.inj hb).symm
        refine hnext s' ⟨?_, ?_⟩ (off_eq_of_endNode hb).ge
        · rw [hleave, Scan.leave_depth]
          exact (Nat.sub_le _ _).trans hs.depth
        · rw [hleave, Scan.leave_info]
          exact hs.info
      · rw [bind_assoc]
        refine bind_eq_lift (prop_eq hd (show s.off + 4 < 2 ^ 63 + 4 by omega) hs₁.info)
          fun s' hb => ?_
        exact hnext s' (inBounds_of_prop hb hs₁) (off_le_of_prop hb)
      · exact hnext _ hs₁ le_rfl
      · rfl
      · rfl
      · rfl

end Tokens

/-! ### The blob -/

/-- The reservation loop neither panics nor runs out of rounds, if it has more of them than there
are bytes left. -/
lemma rsvLoop_eq {blob : List UInt8} {dtb : Span} (hlen : blob.length < 2 ^ 63) {fuel off : ℕ}
    {info : BootInfo} (hi : info.Ok dtb) (hfuel : blob.length - off < fuel) :
    rsvLoop blob fuel off info = lift (Fdt.rsvLoop blob fuel off info) := by
  induction fuel generalizing off info with
  | zero => exact absurd hfuel (Nat.not_lt_zero _)
  | succ fuel ih =>
    rw [rsvLoop, Fdt.rsvLoop]
    unfold rsvRound
    rw [bind_assoc]
    refine bind_eq_lift (be64_eq hlen _) fun base hbase => ?_
    have hoff : off + 8 ≤ blob.length := by
      unfold Fdt.be64 at hbase
      split at hbase
      · cases hbase
      · rename_i b hb
        exact (firsts_of_slice hlen (by omega) hb).2
    rw [bind_assoc, pure_bind_eq (add_eq (by omega)), bind_assoc]
    refine bind_eq_lift (be64_eq hlen _) fun size _ => ?_
    have hadd : checkedAdd off 16 = some (off + 16) := checkedAdd_eq_some.mpr ⟨by omega, rfl⟩
    rw [hadd, bind_assoc, pure_bind_eq (orError_eq_pure.mpr rfl)]
    split_ifs with hzero hskip
    · rfl
    · exact ih hi (by omega)
    · rw [bind_assoc]
      refine bind_eq_lift (pushReserved_eq hi.reserved_le) fun info' hpush => ?_
      refine ih ?_ (by omega)
      -- the bounds after the pair, as the loop itself keeps them
      unfold Fdt.pushReserved at hpush
      split_ifs at hpush with hwrap hfull
      obtain rfl := Except.ok.inj hpush
      refine ⟨hi.dtb_eq, hi.memory, hi.memory_le, fun r hr => ?_, ?_, hi.entropy_le⟩
      · rcases List.mem_append.mp hr with hr | hr
        · exact hi.reserved r hr
        · rw [List.mem_singleton.mp hr]
          exact ⟨hskip, not_le.mp fun h => hwrap (checkedAdd_isNone.mpr h)⟩
      · have := hi.reserved_le
        rw [List.length_append, List.length_singleton]
        omega

/-- The end of a block is checked without a panic. -/
lemma blockEnd_eq (blob : List UInt8) (off size : ℕ) :
    blockEnd blob off size = lift (Fdt.blockEnd blob off size) := by
  unfold blockEnd Fdt.blockEnd
  cases checkedAdd off size with
  | none => rfl
  | some e =>
    by_cases hle : e ≤ blob.length
    · rw [Option.filter_some, decide_eq_true hle]
      dsimp only
      rw [if_pos hle]
      rfl
    · rw [Option.filter_some, decide_eq_false hle]
      dsimp only
      rw [if_neg hle]
      rfl

/-- The parser with its panics computes the result of the parser without them. -/
lemma parseBlob_eq {blob : List UInt8} (hlen : blob.length < 2 ^ 63) (dtb : Span) :
    parseBlob blob dtb = lift (Fdt.parseBlob blob dtb) := by
  unfold parseBlob Fdt.parseBlob
  refine bind_eq_lift (be32_eq hlen _) fun offStruct _ => ?_
  refine bind_eq_lift (be32_eq hlen _) fun offStrings _ => ?_
  refine bind_eq_lift (be32_eq hlen _) fun version _ => ?_
  refine bind_eq_lift (be32_eq hlen _) fun lastComp _ => ?_
  refine bind_eq_lift (be32_eq hlen _) fun sizeStrings _ => ?_
  refine bind_eq_lift (be32_eq hlen _) fun sizeStruct _ => ?_
  split_ifs with hversion haligned
  · rfl
  · rfl
  · refine bind_eq_lift (blockEnd_eq _ _ _) fun structEnd hstruct => ?_
    refine bind_eq_lift (blockEnd_eq _ _ _) fun stringsEnd hstrings => ?_
    refine bind_eq_lift (be32_eq hlen _) fun offRsvmap _ => ?_
    split_ifs with hrsv
    · rfl
    · have hempty : BootInfo.Ok dtb ⟨dtb, [], [], []⟩ := by constructor <;> simp
      have hblock : ∀ {off size e : ℕ}, Fdt.blockEnd blob off size = .ok e → e ≤ blob.length := by
        intro off size e he
        unfold Fdt.blockEnd at he
        split at he
        · cases he
        · split_ifs at he with hle
          exact Except.ok.inj he ▸ hle
      refine bind_eq_lift (rsvLoop_eq hlen hempty (by omega)) fun info hinfo => ?_
      have hd : Blocks.InBlob ⟨blob, structEnd, offStrings, stringsEnd⟩ :=
        ⟨hlen, hblock hstruct, hblock hstrings⟩
      have hs : Scan.InBounds dtb (Scan.init offStruct info) :=
        ⟨Nat.zero_le _, rsvLoop_ok hinfo hempty⟩
      have hfuel : structEnd - offStruct < blob.length + 1 := by
        have := hblock hstruct
        omega
      refine bind_eq_lift (tokenLoop_eq hd hs hfuel) fun info' _ => ?_
      split_ifs <;> rfl

/-! ### Progress -/

section Progress

/-- An addition that returned is the sum. -/
lemma add_eq_pure {a b c : ℕ} (h : add a b = pure c) : c = a + b :=
  (checkedAdd_eq_some.mp (orPanic_eq_pure.mp h)).2

/-- Aligning does not move backwards. -/
lemma le_of_align4 {a b : ℕ} (h : align4 a = pure b) : a ≤ b := by
  rw [align4_eq] at h
  exact Fdt.le_of_align4 (Option.some.inj h)

/-- The branch of `FDT_BEGIN_NODE` moves forwards. -/
lemma off_le_of_beginNode {d : Blocks} {s s' : Scan} (h : beginNode d s = pure s') :
    s.off ≤ s'.off := by
  unfold beginNode at h
  obtain ⟨depth, -, h⟩ := bind_eq_pure.mp h
  split_ifs at h with hdeep
  · exact absurd h throw_ne_pure
  obtain ⟨rest, -, h⟩ := bind_eq_pure.mp h
  obtain ⟨rel, -, h⟩ := bind_eq_pure.mp h
  obtain ⟨stop, hstop, h⟩ := bind_eq_pure.mp h
  obtain ⟨name, -, h⟩ := bind_eq_pure.mp h
  split_ifs at h with hroot
  · exact absurd h throw_ne_pure
  obtain ⟨next, hnext, h⟩ := bind_eq_pure.mp h
  obtain ⟨off, hoff, h⟩ := bind_eq_pure.mp h
  obtain rfl := pure_inj.mp h
  have h1 := add_eq_pure hstop
  have h2 := add_eq_pure hnext
  have h3 := le_of_align4 hoff
  show s.off ≤ off
  omega

/-- The branch of `FDT_END_NODE` stays where it is. -/
lemma off_eq_of_endNode {s s' : Scan} (h : endNode s = pure s') : s'.off = s.off := by
  rw [endNode_eq] at h
  exact Fdt.off_eq_of_endNode (Option.some.inj h)

/-- The branch of `FDT_PROP` moves forwards. -/
lemma off_le_of_prop {d : Blocks} {s s' : Scan} (h : prop d s = pure s') : s.off ≤ s'.off := by
  unfold prop at h
  split_ifs at h with h0
  · exact absurd h throw_ne_pure
  obtain ⟨len, -, h⟩ := bind_eq_pure.mp h
  obtain ⟨nameAt, -, h⟩ := bind_eq_pure.mp h
  obtain ⟨nameOff, -, h⟩ := bind_eq_pure.mp h
  obtain ⟨valStart, hstart, h⟩ := bind_eq_pure.mp h
  obtain ⟨valEnd, hvalEnd, h⟩ := bind_eq_pure.mp h
  obtain ⟨name, -, h⟩ := bind_eq_pure.mp h
  obtain ⟨value, -, h⟩ := bind_eq_pure.mp h
  obtain ⟨s₁, -, h⟩ := bind_eq_pure.mp h
  obtain ⟨off, hoff, h⟩ := bind_eq_pure.mp h
  obtain rfl := pure_inj.mp h
  have h1 := add_eq_pure hstart
  have h2 := le_of_align4 hoff
  have h3 : valEnd = valStart + len :=
    (checkedAdd_eq_some.mp (Option.filter_eq_some_iff.mp (orError_eq_pure.mp hvalEnd)).1).2
  show s.off ≤ off
  omega

/-- A round of the token loop that goes on moves the offset. -/
lemma off_lt_of_tokenRound {d : Blocks} {s s' : Scan} (h : tokenRound d s = pure (.next s')) :
    s.off < s'.off := by
  unfold tokenRound at h
  split_ifs at h with hout
  · exact absurd h throw_ne_pure
  obtain ⟨token, -, h⟩ := bind_eq_pure.mp h
  obtain ⟨off, hoff, h⟩ := bind_eq_pure.mp h
  have hadd := add_eq_pure hoff
  dsimp only at h
  split_ifs at h with h1 h2 h3 h4 h9 hdepth
  · obtain ⟨s₁, hb, h⟩ := bind_eq_pure.mp h
    obtain rfl : s₁ = s' := Round.next.inj (pure_inj.mp h)
    have hle : off ≤ s₁.off := off_le_of_beginNode hb
    omega
  · obtain ⟨s₁, hb, h⟩ := bind_eq_pure.mp h
    obtain rfl : s₁ = s' := Round.next.inj (pure_inj.mp h)
    have hle : s₁.off = off := off_eq_of_endNode hb
    omega
  · obtain ⟨s₁, hb, h⟩ := bind_eq_pure.mp h
    obtain rfl : s₁ = s' := Round.next.inj (pure_inj.mp h)
    have hle : off ≤ s₁.off := off_le_of_prop hb
    omega
  · obtain rfl := Round.next.inj (pure_inj.mp h)
    show s.off < off
    omega
  · exact absurd h throw_ne_pure
  · exact absurd (pure_inj.mp h) (by simp)
  · exact absurd h throw_ne_pure

/-- A round of the reservation loop that goes on moves the offset. -/
lemma off_lt_of_rsvRound {blob : List UInt8} {off off' : ℕ} {info info' : BootInfo}
    (h : rsvRound blob off info = pure (.next (off', info'))) : off < off' := by
  unfold rsvRound at h
  obtain ⟨base, -, h⟩ := bind_eq_pure.mp h
  obtain ⟨sizeAt, -, h⟩ := bind_eq_pure.mp h
  obtain ⟨size, -, h⟩ := bind_eq_pure.mp h
  obtain ⟨next, hnext, h⟩ := bind_eq_pure.mp h
  have hadd := (checkedAdd_eq_some.mp (orError_eq_pure.mp hnext)).2
  split_ifs at h
  · exact absurd (pure_inj.mp h) (by simp)
  · obtain ⟨rfl, -⟩ := Prod.mk.inj (Round.next.inj (pure_inj.mp h))
    omega
  · obtain ⟨info₁, -, h⟩ := bind_eq_pure.mp h
    obtain ⟨rfl, -⟩ := Prod.mk.inj (Round.next.inj (pure_inj.mp h))
    omega

end Progress

end Checked

/-- The parser returns on every blob: no slice index, range or unchecked addition leaves its bounds,
both loops end, and every round that goes on moves its offset. A result records one to eight memory
regions, at most eight reserved regions and at most 72 bytes of entropy, and no region is empty or
wraps around. -/
theorem parseBlob_total (blob : List UInt8) (dtb : Span) (hlen : blob.length < 2 ^ 63) :
    (∃ r, Checked.parseBlob blob dtb = some r ∧ r = parseBlob blob dtb) ∧
    (∀ (d : Blocks) (s s' : Scan),
      Checked.tokenRound d s = some (.ok (.next s')) → s.off < s'.off) ∧
    (∀ (off off' : ℕ) (info info' : BootInfo),
      Checked.rsvRound blob off info = some (.ok (.next (off', info'))) → off < off') ∧
    ∀ info, Checked.parseBlob blob dtb = some (.ok info) →
      1 ≤ info.memory.length ∧ info.memory.length ≤ 8 ∧ info.reserved.length ≤ 8 ∧
      info.entropy.length ≤ 72 ∧
      ∀ r ∈ info.memory ++ info.reserved, 0 < r.size ∧ r.base + r.size < 2 ^ 64 := by
  have heq := Checked.parseBlob_eq hlen dtb
  refine ⟨⟨_, heq, rfl⟩, fun d s s' h => Checked.off_lt_of_tokenRound h,
    fun off off' info info' h => Checked.off_lt_of_rsvRound h, fun info h => ?_⟩
  rw [heq] at h
  obtain ⟨hok, hne⟩ := parseBlob_ok (Option.some.inj h)
  refine ⟨List.length_pos_iff.mpr hne, hok.memory_le, hok.reserved_le, hok.entropy_le, ?_⟩
  intro r hr
  have hproper : r.Proper := by
    rcases List.mem_append.mp hr with hr | hr
    · exact hok.memory r hr
    · exact hok.reserved r hr
  exact ⟨Nat.pos_of_ne_zero hproper.1, hproper.2⟩

/-- The blob with one memory bank is read without a panic, and what is recorded of it is within the
bounds. -/
theorem parseBlob_total_oneBank :
    ∃ info, Checked.parseBlob oneBankBlob ⟨0x48000000, 0x48000080⟩ = some (.ok info) ∧
      info.memory = [⟨0x40000000, 0x40000000⟩] ∧ info.memory.length ≤ 8 ∧
      ∀ r ∈ info.memory ++ info.reserved, 0 < r.size ∧ r.base + r.size < 2 ^ 64 := by
  obtain ⟨⟨r, hr, he⟩, -, -, hok⟩ :=
    parseBlob_total oneBankBlob ⟨0x48000000, 0x48000080⟩ (by decide +kernel)
  have hblob : parseBlob oneBankBlob ⟨0x48000000, 0x48000080⟩ =
      .ok ⟨⟨0x48000000, 0x48000080⟩, [⟨0x40000000, 0x40000000⟩], [], []⟩ := by decide +kernel
  rw [he, hblob] at hr
  obtain ⟨-, hle, -, -, hregions⟩ := hok _ hr
  exact ⟨_, hr, rfl, hle, hregions⟩

end K0.Fdt
