import K0.Boot.Fdt

set_option relaxedAutoImplicit false
set_option autoImplicit false

/-!
# Device trees and their flattened form

The abstract side of the device tree parser: trees, what the kernel wants to know of a tree, and
the flattened format of version 17 as a relation between blobs and trees. Nothing here refers to
the parser.

A blob is described from the outside in. Its header gives the places of three blocks; the
structure block is a sequence of tokens, which are the tokens of the tree with `FDT_NOP` tokens
inserted anywhere; each token is a byte string with arbitrary padding; and a property refers to
its name by an offset into the strings block, whose layout is free.

## Main definitions

* `K0.Fdt.Trees`, `K0.Fdt.DeviceTree`: lists of sibling trees, and a tree with an unnamed root.
* `K0.Fdt.DeviceTree.memory`, `K0.Fdt.DeviceTree.reserved`, `K0.Fdt.DeviceTree.entropy`: the
  contents that the kernel reads.
* `K0.Fdt.DeviceTree.Valid`: the trees whose consulted properties are well formed.
* `K0.Fdt.Encodes`: a blob is a flattened form of a reservation list and a tree.
-/

namespace K0.Fdt

open Bytes

/-! ### Trees -/

/-- A property of a node. -/
structure Property where
  name : List UInt8
  value : List UInt8

/-- A list of sibling subtrees: the first one with its name, properties and children, and its
later siblings. -/
inductive Trees where
  | nil
  | node (name : List UInt8) (props : List Property) (children siblings : Trees)

/-- One subtree. -/
structure Node where
  name : List UInt8
  props : List Property
  children : Trees

/-- The roots of a list of subtrees, in document order. -/
def Trees.nodes : Trees → List Node
  | nil => []
  | node name props children siblings => ⟨name, props, children⟩ :: siblings.nodes

/-- The number of levels of the deepest subtree. -/
def Trees.height : Trees → ℕ
  | nil => 0
  | node _ _ children siblings => max (children.height + 1) siblings.height

/-- A predicate holds of the name and properties of every node. -/
def Trees.Forall (P : List UInt8 → List Property → Prop) : Trees → Prop
  | nil => True
  | node name props children siblings => P name props ∧ children.Forall P ∧ siblings.Forall P

/-- A device tree. Its root has no name. -/
structure DeviceTree where
  props : List Property
  children : Trees

/-! ### What the kernel reads of a tree -/

/-- The value of the first property of a given name. -/
def lookup (props : List Property) (name : List UInt8) : Option (List UInt8) :=
  (props.find? fun p => p.name = name).map Property.value

/-- A cell size: the value of its property, or a default. -/
def cellsOf (props : List Property) (name : List UInt8) (default : ℕ) : ℕ :=
  match lookup props name with
  | none => default
  | some v => fromBeBytes v

/-- The entries of a `reg` value with the given numbers of 32-bit address and size cells. -/
def decodeReg (addrCells sizeCells : ℕ) (value : List UInt8) : List MemRegion :=
  let entry := (addrCells + sizeCells) * 4
  (List.range (value.length / entry)).map fun i =>
    let chunk := value.drop (i * entry)
    ⟨fromBeBytes (chunk.take (addrCells * 4)),
      fromBeBytes ((chunk.drop (addrCells * 4)).take (sizeCells * 4))⟩

/-- The nonempty entries of the `reg` property of a node, if it has one. -/
def regOf (addrCells sizeCells : ℕ) (props : List Property) : List MemRegion :=
  match lookup props (ascii "reg") with
  | none => []
  | some v => (decodeReg addrCells sizeCells v).filter fun r => r.size ≠ 0

/-- The node describes memory: it is named `memory` or `memory@…`. -/
def Node.isMemory (n : Node) : Bool :=
  n.name = ascii "memory" ∨ (ascii "memory@").isPrefixOf n.name

/-- The node is named `reserved-memory`. -/
def Node.isReservedMemory (n : Node) : Bool := n.name = ascii "reserved-memory"

/-- The node is named `chosen`. -/
def Node.isChosen (n : Node) : Bool := n.name = ascii "chosen"

/-- The property is a source of entropy. -/
def Property.isSeed (p : Property) : Bool :=
  p.name = ascii "rng-seed" ∨ p.name = ascii "kaslr-seed"

/-- The seeds among some properties, concatenated. -/
def seeds (props : List Property) : List UInt8 := (props.filter Property.isSeed).flatMap (·.value)

/-- The address cells that a node sets for its children. -/
def addrCellsOf (props : List Property) (default : ℕ) : ℕ :=
  cellsOf props (ascii "#address-cells") default

/-- The size cells that a node sets for its children. -/
def sizeCellsOf (props : List Property) (default : ℕ) : ℕ :=
  cellsOf props (ascii "#size-cells") default

/-- The nonempty `reg` entries of the children of a node, with the cell sizes of that node. -/
def Node.childRegs (addrCells sizeCells : ℕ) (n : Node) : List MemRegion :=
  n.children.nodes.flatMap fun c =>
    regOf (addrCellsOf n.props addrCells) (sizeCellsOf n.props sizeCells) c.props

/-- The memory that the memory nodes among some nodes describe. -/
def memoryOf (addrCells sizeCells : ℕ) (ns : List Node) : List MemRegion :=
  (ns.filter Node.isMemory).flatMap fun n => regOf addrCells sizeCells n.props

/-- The memory that the reserved-memory nodes among some nodes reserve. -/
def reservedOf (addrCells sizeCells : ℕ) (ns : List Node) : List MemRegion :=
  (ns.filter Node.isReservedMemory).flatMap (Node.childRegs addrCells sizeCells)

/-- The entropy in the chosen nodes among some nodes. -/
def entropyOf (ns : List Node) : List UInt8 :=
  (ns.filter Node.isChosen).flatMap fun n => seeds n.props

namespace DeviceTree

/-- The address cells of the root. -/
def addrCells (t : DeviceTree) : ℕ := addrCellsOf t.props 2

/-- The size cells of the root. -/
def sizeCells (t : DeviceTree) : ℕ := sizeCellsOf t.props 1

/-- The memory of a tree. -/
def memory (t : DeviceTree) : List MemRegion :=
  memoryOf t.addrCells t.sizeCells t.children.nodes

/-- The memory that nodes of a tree reserve. -/
def reserved (t : DeviceTree) : List MemRegion :=
  reservedOf t.addrCells t.sizeCells t.children.nodes

/-- The entropy in a tree. -/
def entropy (t : DeviceTree) : List UInt8 := entropyOf t.children.nodes

end DeviceTree

/-- The memory that a list of reservations reserves: the nonempty pairs before the first pair of
zeros. -/
def reservations (rsv : List (UInt64 × UInt64)) : List MemRegion :=
  ((rsv.takeWhile fun p => p ≠ (0, 0)).filter fun p => p.2 ≠ 0).map
    fun p => ⟨p.1.toNat, p.2.toNat⟩

/-! ### Well-formed trees -/

/-- No name contains a NUL and no property name occurs twice. -/
def NamesOk (name : List UInt8) (props : List Property) : Prop :=
  0 ∉ name ∧ (∀ p ∈ props, 0 ∉ p.name) ∧ (props.map Property.name).Nodup

/-- The cell sizes of a node, where present, are single cells. -/
def CellsOk (props : List Property) : Prop :=
  ∀ p ∈ props, p.name = ascii "#address-cells" ∨ p.name = ascii "#size-cells" → p.value.length = 4

/-- The `reg` property of a node, where present, is a positive number of entries, each with one
or two address cells and one or two size cells. -/
def RegOk (addrCells sizeCells : ℕ) (props : List Property) : Prop :=
  ∀ v, lookup props (ascii "reg") = some v →
    (1 ≤ addrCells ∧ addrCells ≤ 2) ∧ (1 ≤ sizeCells ∧ sizeCells ≤ 2) ∧
      v ≠ [] ∧ (addrCells + sizeCells) * 4 ∣ v.length

/-- The trees that the kernel can read. -/
structure DeviceTree.Valid (t : DeviceTree) : Prop where
  root_names : NamesOk [] t.props
  names : t.children.Forall NamesOk
  height : t.children.height + 1 ≤ 32
  root_cells : CellsOk t.props
  memory_reg : ∀ n ∈ t.children.nodes, n.isMemory → RegOk t.addrCells t.sizeCells n.props
  reserved_cells : ∀ n ∈ t.children.nodes, n.isReservedMemory → CellsOk n.props
  reserved_reg : ∀ n ∈ t.children.nodes, n.isReservedMemory → ∀ c ∈ n.children.nodes,
    RegOk (addrCellsOf n.props t.addrCells) (sizeCellsOf n.props t.sizeCells) c.props

/-! ### The flattened form -/

/-- The tokens of the structure block. -/
inductive Token where
  | beginNode (name : List UInt8)
  | endNode
  | prop (p : Property)
  | nop

/-- The tokens of a list of subtrees. -/
def Trees.tokens : Trees → List Token
  | nil => []
  | node name props children siblings =>
    .beginNode name :: props.map .prop ++ children.tokens ++ .endNode :: siblings.tokens

/-- The tokens of one subtree. -/
def Node.tokens (n : Node) : List Token :=
  .beginNode n.name :: n.props.map .prop ++ n.children.tokens ++ [.endNode]

/-- The tokens of a list of subtrees are those of its subtrees, one after the other. -/
lemma Trees.tokens_node (name : List UInt8) (props : List Property) (children siblings : Trees) :
    (Trees.node name props children siblings).tokens =
      (Node.mk name props children).tokens ++ siblings.tokens := by
  simp [Trees.tokens, Node.tokens]

/-- The tokens of a tree. -/
def DeviceTree.tokens (t : DeviceTree) : List Token := (Node.mk [] t.props t.children).tokens

/-- The token is not an `FDT_NOP`. -/
def Token.isCode : Token → Bool
  | nop => false
  | _ => true

/-- The names in a token are NUL-free, so that their encoding ends where it should. -/
def Token.NulFree : Token → Prop
  | .beginNode name => 0 ∉ name
  | .prop p => 0 ∉ p.name
  | _ => True

instance : DecidablePred Token.NulFree
  | .beginNode name => inferInstanceAs (Decidable (0 ∉ name))
  | .prop p => inferInstanceAs (Decidable (0 ∉ p.name))
  | .endNode => inferInstanceAs (Decidable True)
  | .nop => inferInstanceAs (Decidable True)

/-- A big-endian 32-bit word. -/
def word (n : ℕ) : List UInt8 := beBytes 4 n

/-- A big-endian 64-bit word. -/
def dword (n : ℕ) : List UInt8 := beBytes 8 n

/-- Some bytes followed by arbitrary padding up to a multiple of four. -/
def Padded (bs padded : List UInt8) : Prop :=
  ∃ pad, padded = bs ++ pad ∧ pad.length < 4 ∧ 4 ∣ bs.length + pad.length

/-- The bytes of a token, given the strings block. -/
inductive TokenBytes (strings : List UInt8) : Token → List UInt8 → Prop
  | beginNode {name padded : List UInt8} (h : Padded (name ++ [0]) padded) :
      TokenBytes strings (.beginNode name) (word 1 ++ padded)
  | endNode : TokenBytes strings .endNode (word 2)
  | prop {p : Property} {nameOff : ℕ} {padded : List UInt8}
      (hname : At strings nameOff (p.name ++ [0])) (h : Padded p.value padded) :
      TokenBytes strings (.prop p) (word 3 ++ word p.value.length ++ word nameOff ++ padded)
  | nop : TokenBytes strings .nop (word 4)

/-- The bytes of a sequence of tokens. -/
inductive TokensBytes (strings : List UInt8) : List Token → List UInt8 → Prop
  | nil : TokensBytes strings [] []
  | cons {t : Token} {ts : List Token} {bs rest : List UInt8} (h : TokenBytes strings t bs)
      (hs : TokensBytes strings ts rest) : TokensBytes strings (t :: ts) (bs ++ rest)

/-- The bytes of the reservation block: the pairs, ended by a pair of zeros. -/
def rsvBytes (rsv : List (UInt64 × UInt64)) : List UInt8 :=
  (rsv.flatMap fun p => dword p.1.toNat ++ dword p.2.toNat) ++ (dword 0 ++ dword 0)

/-- A blob is a flattened form, of version 17, of a list of reservations and a tree. -/
structure Encodes (blob : List UInt8) (rsv : List (UInt64 × UInt64)) (t : DeviceTree) where
  /-- Where the blocks lie. -/
  (offStruct offStrings offRsvmap : ℕ)
  /-- The oldest version that readers may support. -/
  lastCompVersion : ℕ
  /-- The contents of the strings block and of the structure block. -/
  (strings structure_ : List UInt8)
  /-- The tokens of the structure block. -/
  tokens : List Token
  magic : At blob 0 (word 0xd00dfeed)
  totalsize : At blob 4 (word blob.length)
  length_lt : blob.length < 2 ^ 32
  off_struct : At blob 8 (word offStruct)
  off_strings : At blob 12 (word offStrings)
  off_rsvmap : At blob 16 (word offRsvmap)
  version : At blob 20 (word 17)
  last_comp_version : At blob 24 (word lastCompVersion)
  last_comp_version_le : lastCompVersion ≤ 17
  size_strings : At blob 32 (word strings.length)
  size_struct : At blob 36 (word (structure_.length + 4))
  struct_aligned : 4 ∣ offStruct
  rsvmap_aligned : 8 ∣ offRsvmap
  rsvmap_at : At blob offRsvmap (rsvBytes rsv)
  strings_at : At blob offStrings strings
  struct_at : At blob offStruct (structure_ ++ word 9)
  struct_bytes : TokensBytes strings tokens structure_
  tokens_eq : tokens.filter Token.isCode = t.tokens

end K0.Fdt
