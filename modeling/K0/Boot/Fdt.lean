import K0.Lib.Bytes
import K0.Cap.Basic
import K0.Mm.Paging

set_option relaxedAutoImplicit false
set_option autoImplicit false

/-!
# The device tree parser

The minimal parser of the flattened device tree (`crates/k0-boot/src/fdt.rs`). The blob is not
trusted: every offset and length is checked, and any violation is a `K0.BootError`. Only the
memory nodes, the reservations and the entropy of the chosen node are read.

The arrays of the source with their counters are lists here, bounded by the same limits. Bytes
are `UInt8`, all offsets are natural numbers. An addition that the source does not check is
plain here: it adds a few bytes to an offset inside the blob, which is at most 2 MiB long.

The two loops of `parse_blob` recurse on a fuel argument. The result at fuel zero is the error
with which the source ends when the offset has left the block, and the initial fuel is large
enough for the offset to have left it by then (`K0.Fdt.rsvLoop_fuel`, `K0.Fdt.tokenLoop_fuel`).

## Main definitions

* `K0.BootInfo`, `K0.BootError`: the result of the parser.
* `K0.Fdt.parseBlob`: the parser proper.
* `K0.dtbSpan`, `K0.parse`: the header check, and the parser on a physical address.
-/

namespace K0

open Word Bytes

/-- A range of physical memory named by the device tree. -/
abbrev MemRegion := PhysRegion

/-- What the parser found. -/
structure BootInfo where
  dtb : Span
  memory : List MemRegion
  reserved : List MemRegion
  entropy : List UInt8
deriving DecidableEq, Repr

/-- Why a device tree is rejected. -/
inductive BootError where
  | nullPointer
  | misaligned
  | badMagic
  | badHeader
  | unsupportedVersion
  | overlapsKernel
  | truncated
  | badStructure
  | tooDeep
  | badString
  | unsupportedCells
  | badReg
  | tooManyRegions
  | noMemory
deriving DecidableEq, Repr

namespace Fdt

/-- The limit on memory regions. -/
def maxMemRegions : ℕ := 8

/-- The limit on reserved regions. -/
def maxRsvRegions : ℕ := 8

/-- The limit on entropy bytes. -/
def maxEntropy : ℕ := 72

def fdtMagic : ℕ := 0xd00dfeed
def headerSize : ℕ := 40
def maxDtbSize : ℕ := 2 * 1024 * 1024
def maxDepth : ℕ := 32
def supportedVersion : ℕ := 17

def fdtBeginNode : ℕ := 0x1
def fdtEndNode : ℕ := 0x2
def fdtProp : ℕ := 0x3
def fdtNop : ℕ := 0x4
def fdtEnd : ℕ := 0x9

/-- The bytes of an ASCII literal. -/
def ascii (s : String) : List UInt8 := s.toList.map fun c => UInt8.ofNat c.toNat

/-- The big-endian 32-bit word at an offset. -/
def be32 (blob : List UInt8) (off : ℕ) : Except BootError ℕ :=
  match slice blob off ((off + 4) % 2 ^ 64) with
  | none => .error .truncated
  | some b => .ok (fromBeBytes b)

/-- The big-endian 64-bit word at an offset. -/
def be64 (blob : List UInt8) (off : ℕ) : Except BootError ℕ :=
  match slice blob off ((off + 8) % 2 ^ 64) with
  | none => .error .truncated
  | some b => .ok (fromBeBytes b)

/-- Round an offset up to a multiple of four. -/
def align4 (off : ℕ) : Except BootError ℕ :=
  match checkedAdd off 3 with
  | none => .error .truncated
  | some v => .ok (maskDown 4 v)

/-! ### Property values -/

/-- The bytes of a cell, shifted into a 64-bit word. -/
def readCells (bytes : List UInt8) : ℕ :=
  bytes.foldl (fun acc b => (acc <<< 8) % 2 ^ 64 ||| b.toNat) 0

/-- The value of a `#address-cells` or `#size-cells` property. -/
def cellCount (value : List UInt8) : Except BootError ℕ :=
  if value.length ≠ 4 then .error .unsupportedCells else .ok (fromBeBytes value)

/-- The loop of `parse_reg` over the remaining number of entries. Entries of size zero are
skipped; the others are appended up to `limit`. -/
def parseEntries (addrBytes entry limit : ℕ) :
    ℕ → List UInt8 → List MemRegion → Except BootError (List MemRegion)
  | 0, _, out => .ok out
  | n + 1, value, out =>
    let chunk := value.take entry
    let base := readCells (chunk.take addrBytes)
    let size := readCells (chunk.drop addrBytes)
    if size = 0 then parseEntries addrBytes entry limit n (value.drop entry) out
    else if (checkedAdd base size).isNone then .error .badReg
    else if out.length = limit then .error .tooManyRegions
    else parseEntries addrBytes entry limit n (value.drop entry) (out ++ [⟨base, size⟩])

/-- Append the entries of a `reg` property. -/
def parseReg (value : List UInt8) (addrCells sizeCells limit : ℕ) (out : List MemRegion) :
    Except BootError (List MemRegion) :=
  if ¬ (1 ≤ addrCells ∧ addrCells ≤ 2) ∨ ¬ (1 ≤ sizeCells ∧ sizeCells ≤ 2) then
    .error .unsupportedCells
  else
    let entry := (addrCells + sizeCells) * 4
    if value = [] ∨ value.length % entry ≠ 0 then .error .badReg
    else parseEntries (addrCells * 4) entry limit (value.length / entry) value out

/-- Append the `reg` entries of a memory node. -/
def pushRegions (value : List UInt8) (addrCells sizeCells : ℕ) (info : BootInfo) :
    Except BootError BootInfo :=
  match parseReg value addrCells sizeCells maxMemRegions info.memory with
  | .error e => .error e
  | .ok out => .ok { info with memory := out }

/-- Append the `reg` entries of a child of the reserved-memory node. -/
def pushReservedRegions (value : List UInt8) (addrCells sizeCells : ℕ) (info : BootInfo) :
    Except BootError BootInfo :=
  match parseReg value addrCells sizeCells maxRsvRegions info.reserved with
  | .error e => .error e
  | .ok out => .ok { info with reserved := out }

/-- Append one pair of the memory reservation block. -/
def pushReserved (info : BootInfo) (base size : ℕ) : Except BootError BootInfo :=
  if (checkedAdd base size).isNone then .error .badReg
  else if info.reserved.length = maxRsvRegions then .error .tooManyRegions
  else .ok { info with reserved := info.reserved ++ [⟨base, size⟩] }

/-- Append entropy up to the limit and drop the rest. -/
def pushEntropy (value : List UInt8) (info : BootInfo) : BootInfo :=
  { info with entropy := info.entropy ++ value.take (maxEntropy - info.entropy.length) }

/-! ### The blob -/

/-- The blob and the bounds of its blocks, as the header gives them. -/
structure Blocks where
  blob : List UInt8
  structEnd : ℕ
  offStrings : ℕ
  stringsEnd : ℕ

/-- The name at an offset of the strings block. -/
def propName (d : Blocks) (nameOff : ℕ) : Except BootError (List UInt8) :=
  match checkedAdd d.offStrings nameOff with
  | none => .error .badString
  | some start =>
    if start < d.stringsEnd then
      match ((d.blob.drop start).take (d.stringsEnd - start)).findIdx? (· == 0) with
      | none => .error .badString
      | some rel => .ok ((d.blob.drop start).take rel)
    else .error .badString

/-- The mutable context of the token loop. -/
structure Scan where
  addrCells : ℕ
  sizeCells : ℕ
  depth : ℕ
  memoryDepth : Option ℕ
  chosenDepth : Option ℕ
  rsvNode : Bool
  rsvAddrCells : ℕ
  rsvSizeCells : ℕ
  off : ℕ
  info : BootInfo

/-- The context before the first token: the default cell sizes and depth zero. -/
def Scan.init (off : ℕ) (info : BootInfo) : Scan :=
  ⟨2, 1, 0, none, none, false, 2, 1, off, info⟩

/-- What `FDT_BEGIN_NODE` changes for a node of the given name, beside the offset. -/
def Scan.enter (s : Scan) (name : List UInt8) : Scan :=
  let s := { s with depth := s.depth + 1 }
  let s :=
    if s.depth = 2 ∧ (name = ascii "memory" ∨ (ascii "memory@").isPrefixOf name) then
      { s with memoryDepth := some s.depth }
    else s
  let s :=
    if s.depth = 2 ∧ name = ascii "chosen" then { s with chosenDepth := some s.depth } else s
  if s.depth = 2 ∧ name = ascii "reserved-memory" then
    { s with rsvNode := true, rsvAddrCells := s.addrCells, rsvSizeCells := s.sizeCells }
  else s

/-- The branch of `FDT_BEGIN_NODE`. -/
def beginNode (d : Blocks) (s : Scan) : Except BootError Scan :=
  if s.depth + 1 > maxDepth then .error .tooDeep
  else
    match slice d.blob s.off d.structEnd with
    | none => .error .badStructure
    | some rest =>
      match rest.findIdx? (· == 0) with
      | none => .error .badStructure
      | some rel =>
        let name := (d.blob.drop s.off).take rel
        if s.depth + 1 = 1 ∧ name ≠ [] then .error .badStructure
        else
          match align4 (s.off + rel + 1) with
          | .error e => .error e
          | .ok off => .ok { s.enter name with off := off }

/-- What `FDT_END_NODE` changes. -/
def Scan.leave (s : Scan) : Scan :=
  let s := if s.memoryDepth = some s.depth then { s with memoryDepth := none } else s
  let s := if s.chosenDepth = some s.depth then { s with chosenDepth := none } else s
  let s := if s.rsvNode = true ∧ s.depth = 2 then { s with rsvNode := false } else s
  { s with depth := s.depth - 1 }

/-- The branch of `FDT_END_NODE`. -/
def endNode (s : Scan) : Except BootError Scan :=
  if s.depth = 0 then .error .badStructure else .ok s.leave

/-- What a property of the given name and value changes, beside the offset. -/
def Scan.read (s : Scan) (name value : List UInt8) : Except BootError Scan :=
  if s.depth = 1 then
    if name = ascii "#address-cells" then
      (cellCount value).map fun n => { s with addrCells := n }
    else if name = ascii "#size-cells" then
      (cellCount value).map fun n => { s with sizeCells := n }
    else .ok s
  else if s.memoryDepth = some s.depth ∧ name = ascii "reg" then
    (pushRegions value s.addrCells s.sizeCells s.info).map fun i => { s with info := i }
  else if s.rsvNode = true ∧ s.depth = 2 then
    if name = ascii "#address-cells" then
      (cellCount value).map fun n => { s with rsvAddrCells := n }
    else if name = ascii "#size-cells" then
      (cellCount value).map fun n => { s with rsvSizeCells := n }
    else .ok s
  else if s.rsvNode = true ∧ s.depth = 3 ∧ name = ascii "reg" then
    (pushReservedRegions value s.rsvAddrCells s.rsvSizeCells s.info).map fun i =>
      { s with info := i }
  else if s.chosenDepth = some s.depth ∧ (name = ascii "rng-seed" ∨ name = ascii "kaslr-seed") then
    .ok { s with info := pushEntropy value s.info }
  else .ok s

/-- The branch of `FDT_PROP`. -/
def prop (d : Blocks) (s : Scan) : Except BootError Scan :=
  if s.depth = 0 then .error .badStructure
  else do
    let len ← be32 d.blob s.off
    let nameOff ← be32 d.blob (s.off + 4)
    let valStart := s.off + 8
    match checkedAdd valStart len with
    | none => .error .truncated
    | some valEnd =>
      if valEnd ≤ d.structEnd then do
        let name ← propName d nameOff
        let s ← s.read name ((d.blob.drop valStart).take (valEnd - valStart))
        let off ← align4 valEnd
        .ok { s with off := off }
      else .error .truncated

/-- The token loop. -/
def tokenLoop (d : Blocks) : ℕ → Scan → Except BootError BootInfo
  | 0, _ => .error .badStructure
  | fuel + 1, s =>
    if d.structEnd ≤ s.off then .error .badStructure
    else do
      let token ← be32 d.blob s.off
      let s := { s with off := s.off + 4 }
      if token = fdtBeginNode then do
        let s ← beginNode d s
        tokenLoop d fuel s
      else if token = fdtEndNode then do
        let s ← endNode s
        tokenLoop d fuel s
      else if token = fdtProp then do
        let s ← prop d s
        tokenLoop d fuel s
      else if token = fdtNop then tokenLoop d fuel s
      else if token = fdtEnd then
        if s.depth ≠ 0 then .error .badStructure else .ok s.info
      else .error .badStructure

/-- The loop over the memory reservation block, up to its `(0, 0)` pair. -/
def rsvLoop (blob : List UInt8) : ℕ → ℕ → BootInfo → Except BootError BootInfo
  | 0, _, _ => .error .truncated
  | fuel + 1, rsvOff, info => do
    let base ← be64 blob rsvOff
    let size ← be64 blob (rsvOff + 8)
    if base = 0 ∧ size = 0 then .ok info
    else if size = 0 then rsvLoop blob fuel (rsvOff + 16) info
    else do
      let info ← pushReserved info base size
      rsvLoop blob fuel (rsvOff + 16) info

/-- The end of a block, if it lies in the blob. -/
def blockEnd (blob : List UInt8) (off size : ℕ) : Except BootError ℕ :=
  match checkedAdd off size with
  | none => .error .badHeader
  | some e => if e ≤ blob.length then .ok e else .error .badHeader

/-- Parse a blob that occupies the physical range `dtb`. -/
def parseBlob (blob : List UInt8) (dtb : Span) : Except BootError BootInfo := do
  let offStruct ← be32 blob 8
  let offStrings ← be32 blob 12
  let version ← be32 blob 20
  let lastCompVersion ← be32 blob 24
  let sizeStrings ← be32 blob 32
  let sizeStruct ← be32 blob 36
  if version < supportedVersion ∨ supportedVersion < lastCompVersion then
    .error .unsupportedVersion
  else if offStruct % 4 ≠ 0 ∨ sizeStruct % 4 ≠ 0 then .error .badHeader
  else do
    let structEnd ← blockEnd blob offStruct sizeStruct
    let stringsEnd ← blockEnd blob offStrings sizeStrings
    let offRsvmap ← be32 blob 16
    if offRsvmap % 8 ≠ 0 then .error .badHeader
    else do
      let info ← rsvLoop blob (blob.length + 1) offRsvmap ⟨dtb, [], [], []⟩
      let info ← tokenLoop ⟨blob, structEnd, offStrings, stringsEnd⟩ (blob.length + 1)
        (Scan.init offStruct info)
      if info.memory = [] then .error .noMemory else .ok info

end Fdt

/-! ### The parser on physical memory -/

/-- The big-endian 32-bit word that a volatile read of `addr` returns. -/
def readBe32Phys (read : ℕ → UInt8) (addr : ℕ) : ℕ :=
  fromBeBytes [read addr, read (addr + 1), read (addr + 2), read (addr + 3)]

/-- The range of a device tree, from the first two words of its header. -/
def dtbSpan (read : ℕ → UInt8) (dtbPhys : ℕ) : Except BootError Span :=
  if dtbPhys = 0 then .error .nullPointer
  else if dtbPhys % 8 ≠ 0 then .error .misaligned
  else if readBe32Phys read dtbPhys ≠ Fdt.fdtMagic then .error .badMagic
  else
    let totalsize := readBe32Phys read (dtbPhys + 4)
    if ¬ (Fdt.headerSize ≤ totalsize ∧ totalsize ≤ Fdt.maxDtbSize) then .error .badHeader
    else
      match checkedAdd dtbPhys totalsize with
      | none => .error .badHeader
      | some dtbEnd => .ok ⟨dtbPhys, dtbEnd⟩

/-- Check and parse the device tree at a physical address. It is read at an offset, the linear
alias of the kernel, and must not meet the kernel image. -/
def parse (read : ℕ → UInt8) (dtbPhys : ℕ) (kernelImage : Span) (readOffset : ℕ) :
    Except BootError BootInfo :=
  match checkedAdd dtbPhys readOffset with
  | none => .error .badHeader
  | some readBase => do
    let dtbRead ← dtbSpan read readBase
    let len := dtbRead.stop - dtbRead.start
    match checkedAdd dtbPhys len with
    | none => .error .badHeader
    | some dtbEnd =>
      if dtbPhys < kernelImage.stop ∧ kernelImage.start < dtbEnd then .error .overlapsKernel
      else
        Fdt.parseBlob ((List.range len).map fun i => read (dtbRead.start + i)) ⟨dtbPhys, dtbEnd⟩

end K0
