import K0.Boot.FdtTree

set_option relaxedAutoImplicit false
set_option autoImplicit false

/-!
# What an accepted blob contains

The parser accepts more than the flattened forms of device trees: properties may stand between
subnodes, names may repeat, and several root nodes may follow each other. Here is the abstract side
of what it accepts: a forest of nodes whose properties and subnodes are in any order, the contents
that the kernel reads of it in document order, and the relation between a blob and the forest in its
structure block. Nothing here refers to the parser.

Cell sizes are in force from the property that sets them on. Those of a root node hold for later
root nodes too, until they are set again; those of a reserved-memory node start with the ones of the
root that are in force where the node begins.

## Main definitions

* `K0.Fdt.Items`: properties and subnodes in document order.
* `K0.Fdt.Items.collect`: the contents of a forest.
* `K0.Fdt.Reads`: a blob with a given list of reservations and a given forest.
-/

namespace K0.Fdt

open Bytes

/-! ### Forests -/

/-- The inside of a node, or of the whole structure block: properties and subnodes in any order. -/
inductive Items where
  | nil
  | prop (p : Property) (rest : Items)
  | node (name : List UInt8) (body rest : Items)

namespace Items

/-- The number of levels of the deepest subnode. -/
def height : Items → ℕ
  | nil => 0
  | prop _ rest => rest.height
  | node _ body rest => max (body.height + 1) rest.height

/-- The tokens of some items. -/
def tokens : Items → List Token
  | nil => []
  | prop p rest => .prop p :: rest.tokens
  | node name body rest => .beginNode name :: body.tokens ++ .endNode :: rest.tokens

/-- There are only nodes at the top, and these have no name. -/
def Roots : Items → Prop
  | nil => True
  | prop _ _ => False
  | node name _ rest => name = [] ∧ rest.Roots

end Items

/-! ### The contents -/

/-- Numbers of address cells and of size cells. -/
structure Cells where
  addr : ℕ
  size : ℕ
deriving DecidableEq

/-- The cell sizes that are in force without any property. -/
def Cells.default : Cells := ⟨2, 1⟩

/-- The cell sizes in force after a property. -/
def Cells.after (c : Cells) (p : Property) : Cells :=
  if p.name = ascii "#address-cells" then { c with addr := fromBeBytes p.value }
  else if p.name = ascii "#size-cells" then { c with size := fromBeBytes p.value }
  else c

/-- What a part of a forest contributes. -/
structure Found where
  memory : List MemRegion
  reserved : List MemRegion
  entropy : List UInt8

/-- No contents. -/
def Found.none : Found := ⟨[], [], []⟩

/-- The contents of two parts, one after the other. -/
def Found.append (f g : Found) : Found :=
  ⟨f.memory ++ g.memory, f.reserved ++ g.reserved, f.entropy ++ g.entropy⟩

/-- The nonempty entries of a property if it is a `reg`. -/
def Property.regs (c : Cells) (p : Property) : List MemRegion :=
  if p.name = ascii "reg" then (decodeReg c.addr c.size p.value).filter fun r => r.size ≠ 0 else []

namespace Items

/-- The nonempty `reg` entries of a node, given its inside. -/
def regs (c : Cells) : Items → List MemRegion
  | nil => []
  | prop p rest => p.regs c ++ rest.regs c
  | node _ _ rest => rest.regs c

/-- The seeds of a node, given its inside. -/
def seedBytes : Items → List UInt8
  | nil => []
  | prop p rest => (if p.isSeed then p.value else []) ++ rest.seedBytes
  | node _ _ rest => rest.seedBytes

/-- The nonempty `reg` entries of the subnodes of a reserved-memory node, given its inside and the
cell sizes in force before it. -/
def childRegs (c : Cells) : Items → List MemRegion
  | nil => []
  | prop p rest => rest.childRegs (c.after p)
  | node _ body rest => body.regs c ++ rest.childRegs c

/-- The contents of a subnode of a root node. -/
def contents (c : Cells) (name : List UInt8) (body : Items) : Found :=
  if name = ascii "memory" ∨ (ascii "memory@").isPrefixOf name then ⟨body.regs c, [], []⟩
  else if name = ascii "reserved-memory" then ⟨[], body.childRegs c, []⟩
  else if name = ascii "chosen" then ⟨[], [], body.seedBytes⟩
  else Found.none

/-- The contents of a root node, given its inside and the cell sizes in force before it. -/
def inRoot (c : Cells) : Items → Found
  | nil => Found.none
  | prop p rest => rest.inRoot (c.after p)
  | node name body rest => (contents c name body).append (rest.inRoot c)

/-- The cell sizes in force after the inside of a root node. -/
def cellsAfter (c : Cells) : Items → Cells
  | nil => c
  | prop p rest => rest.cellsAfter (c.after p)
  | node _ _ rest => rest.cellsAfter c

/-- The contents of a sequence of root nodes. -/
def collect (c : Cells) : Items → Found
  | nil => Found.none
  | prop _ rest => rest.collect c
  | node _ body rest => (body.inRoot c).append (rest.collect (body.cellsAfter c))

end Items

/-! ### The blob -/

/-- A blob whose header is in order, whose reservation block is `rsv` and whose structure block
starts with the tokens of `forest`, among them any number of `FDT_NOP`, and `FDT_END`. -/
structure Reads (blob : List UInt8) (rsv : List (UInt64 × UInt64)) (forest : Items) where
  /-- The numbers of the header. -/
  (offStruct sizeStruct offStrings sizeStrings offRsvmap version lastCompVersion : ℕ)
  /-- The contents of the strings block, and the bytes of the tokens. -/
  (strings bytes : List UInt8)
  /-- The tokens of the structure block. -/
  tokens : List Token
  off_struct : At blob 8 (word offStruct)
  off_strings : At blob 12 (word offStrings)
  off_rsvmap : At blob 16 (word offRsvmap)
  version_at : At blob 20 (word version)
  last_comp_version : At blob 24 (word lastCompVersion)
  size_strings : At blob 32 (word sizeStrings)
  size_struct : At blob 36 (word sizeStruct)
  off_struct_lt : offStruct < 2 ^ 32
  off_strings_lt : offStrings < 2 ^ 32
  off_rsvmap_lt : offRsvmap < 2 ^ 32
  version_lt : version < 2 ^ 32
  last_comp_version_lt : lastCompVersion < 2 ^ 32
  size_strings_lt : sizeStrings < 2 ^ 32
  size_struct_lt : sizeStruct < 2 ^ 32
  version_ge : 17 ≤ version
  last_comp_version_le : lastCompVersion ≤ 17
  off_struct_aligned : 4 ∣ offStruct
  size_struct_aligned : 4 ∣ sizeStruct
  struct_le : offStruct + sizeStruct ≤ blob.length
  off_rsvmap_aligned : 8 ∣ offRsvmap
  rsvmap_at : At blob offRsvmap (rsvBytes rsv)
  rsv_ne : (0, 0) ∉ rsv
  strings_at : At blob offStrings strings
  strings_length : strings.length = sizeStrings
  struct_at : At blob offStruct (bytes ++ word 9)
  bytes_le : (bytes ++ word 9).length ≤ sizeStruct
  struct_bytes : TokensBytes strings tokens bytes
  nul_free : ∀ t ∈ tokens, t.NulFree
  tokens_eq : tokens.filter Token.isCode = forest.tokens
  roots : forest.Roots
  nonempty : forest ≠ .nil
  height_le : forest.height ≤ 32

end K0.Fdt
