import K0.Boot.FdtReads
import K0.Boot.FdtUnique

set_option relaxedAutoImplicit false
set_option autoImplicit false

/-!
# Which cell sizes the parser decodes with

A root node declares the cell sizes of the `reg` properties below it, wherever in the node the two
declarations stand, and a reserved-memory node may declare others for its children. The parser
decodes each `reg` with the sizes that it has met so far. The two are the same exactly if there is a
single root node, in which no declaration changes the sizes after a `reg` was decoded with them: not
after a memory node that has a `reg`, not after a child of a reserved-memory node that has one, and
not after a reserved-memory node that was opened with sizes that such a child still uses. The parser
does not check this: it accepts trees that declare later, and several root nodes, and then decodes
with other sizes than those declared.

## Main definitions

* `K0.Fdt.Scan.decodings`: the `reg` properties that a run decodes, with the sizes that it uses.
* `K0.Fdt.Items.memoryRegs`, `K0.Fdt.Items.reservedRegs`: what a root node holds, decoded with the
  declared sizes.
* `K0.Fdt.Items.rootDeclared`: the `reg` properties of a root node with the declared sizes.
* `K0.Fdt.Items.Settled`, `K0.Fdt.Settled`: no declaration comes too late.

## Main results

* `K0.Fdt.tokens_info`: a run records what it decodes.
* `K0.Fdt.Items.settled_iff`: the sizes in force are the declared ones exactly in such a root node.
* `K0.Fdt.parseBlob_cells`: the parser decodes with the declared sizes exactly on such blobs.
* `K0.Fdt.parseBlob_lateCells`: a blob on which it does not.
-/

namespace K0.Fdt

open Bytes

/-! ### Decodings -/

/-- The list that the entries of a `reg` property go to. -/
inductive Sink where
  | memory
  | reserved
deriving DecidableEq

/-- The value of a `reg` property and the cell sizes that it is decoded with. -/
structure Decoding where
  sink : Sink
  value : List UInt8
  cells : Cells
deriving DecidableEq

/-- The nonempty entries. -/
def Decoding.regs (d : Decoding) : List MemRegion :=
  (decodeReg d.cells.addr d.cells.size d.value).filter fun r => r.size ≠ 0

/-- What some decodings add to one of the lists. -/
def regsOf (k : Sink) (ds : List Decoding) : List MemRegion :=
  ds.flatMap fun d => if d.sink = k then d.regs else []

/-- The decoding of a property if it is a `reg`. -/
def Property.decodings (k : Sink) (c : Cells) (p : Property) : List Decoding :=
  if p.name = ascii "reg" then [⟨k, p.value, c⟩] else []

section Regs

variable {k : Sink}

lemma regsOf_append (ds ds' : List Decoding) : regsOf k (ds ++ ds') = regsOf k ds ++ regsOf k ds' :=
  List.flatMap_append

/-- The entries of a property. -/
lemma regsOf_property (k' : Sink) (c : Cells) (p : Property) :
    regsOf k (p.decodings k' c) = if k' = k then p.regs c else [] := by
  unfold Property.decodings Property.regs
  by_cases hreg : p.name = ascii "reg"
  · rw [if_pos hreg, if_pos hreg]
    exact List.flatMap_singleton _ _
  · rw [if_neg hreg, if_neg hreg, ite_self]
    rfl

end Regs

namespace Items

/-- The properties of a node, given its inside. -/
def props : Items → List Property
  | nil => []
  | prop p rest => p :: rest.props
  | node _ _ rest => rest.props

/-- The `reg` properties of a node, given its inside, decoded with the given cell sizes. -/
def decodings (k : Sink) (c : Cells) (items : Items) : List Decoding :=
  items.props.flatMap fun p => p.decodings k c

/-- The name of a memory node. -/
def IsMemory (name : List UInt8) : Prop :=
  name = ascii "memory" ∨ (ascii "memory@").isPrefixOf name

instance (name : List UInt8) : Decidable (IsMemory name) := inferInstanceAs (Decidable (_ ∨ _))

/-! ### Sizes in force -/

/-- The `reg` properties of the children of a reserved-memory node, given its inside, with the sizes
in force. -/
def childDecodings (c : Cells) : Items → List Decoding
  | nil => []
  | prop p rest => rest.childDecodings (c.after p)
  | node _ body rest => body.decodings .reserved c ++ rest.childDecodings c

/-- The `reg` properties that are read of a root node, given its inside, with the sizes in force. -/
def rootDecodings (c : Cells) : Items → List Decoding
  | nil => []
  | prop p rest => rest.rootDecodings (c.after p)
  | node name body rest =>
    (if IsMemory name then body.decodings .memory c
      else if name = ascii "reserved-memory" then body.childDecodings c
      else []) ++ rest.rootDecodings c

/-- The `reg` properties that are read of a sequence of root nodes, with the sizes in force. -/
def forestDecodings (c : Cells) : Items → List Decoding
  | nil => []
  | prop _ rest => rest.forestDecodings c
  | node _ body rest => body.rootDecodings c ++ rest.forestDecodings (body.cellsAfter c)

/-! ### Declared sizes -/

/-- The nonempty `reg` entries of the subnodes of a node, given its inside, all decoded with the
same cell sizes. -/
def subRegs (c : Cells) : Items → List MemRegion
  | nil => []
  | prop _ rest => rest.subRegs c
  | node _ body rest => body.regs c ++ rest.subRegs c

/-- The nonempty `reg` entries of the memory nodes in a root node, given its inside, decoded with
the given cell sizes. -/
def memoryRegs (c : Cells) : Items → List MemRegion
  | nil => []
  | prop _ rest => rest.memoryRegs c
  | node name body rest => (if IsMemory name then body.regs c else []) ++ rest.memoryRegs c

/-- The nonempty `reg` entries of the children of the reserved-memory nodes in a root node, given
its inside, decoded with the cell sizes that the reserved-memory node declares, or else with the
given ones. -/
def reservedRegs (c : Cells) : Items → List MemRegion
  | nil => []
  | prop _ rest => rest.reservedRegs c
  | node name body rest =>
    (if name = ascii "reserved-memory" then body.subRegs (body.cellsAfter c) else []) ++
      rest.reservedRegs c

/-- The `reg` properties of the subnodes of a node, given its inside, all with the same cell
sizes. -/
def childDeclared (c : Cells) : Items → List Decoding
  | nil => []
  | prop _ rest => rest.childDeclared c
  | node _ body rest => body.decodings .reserved c ++ rest.childDeclared c

/-- The `reg` properties that are read of a root node, given its inside: those of the memory nodes
with the given cell sizes, and those of the children of the reserved-memory nodes with the sizes
that the reserved-memory node declares, or else with the given ones. -/
def rootDeclared (c : Cells) : Items → List Decoding
  | nil => []
  | prop _ rest => rest.rootDeclared c
  | node name body rest =>
    (if IsMemory name then body.decodings .memory c
      else if name = ascii "reserved-memory" then body.childDeclared (body.cellsAfter c)
      else []) ++ rest.rootDeclared c

section Declared

variable {k : Sink} {c : Cells}

/-- The entries of a node. -/
lemma regsOf_decodings (k' : Sink) (c : Cells) (items : Items) :
    regsOf k (items.decodings k' c) = if k' = k then items.regs c else [] := by
  induction items with
  | nil => exact (ite_self _).symm
  | prop p rest ih =>
    change regsOf k (p.decodings k' c ++ rest.decodings k' c) = _
    rw [regsOf_append, regsOf_property, ih]
    by_cases hk : k' = k
    · rw [if_pos hk, if_pos hk, if_pos hk]
      rfl
    · rw [if_neg hk, if_neg hk, if_neg hk]
      rfl
  | node name body rest _ ih => exact ih

/-- The entries of the children of a reserved-memory node. -/
lemma regsOf_childDeclared (k : Sink) (c : Cells) (items : Items) :
    regsOf k (items.childDeclared c) = if k = .reserved then items.subRegs c else [] := by
  induction items with
  | nil => exact (ite_self _).symm
  | prop p rest ih => exact ih
  | node name body rest _ ih =>
    change regsOf k (body.decodings .reserved c ++ rest.childDeclared c) = _
    rw [regsOf_append, regsOf_decodings, ih]
    cases k <;> rfl

/-- The name of a reserved-memory node is not that of a memory node. -/
lemma not_isMemory_reservedMemory : ¬ IsMemory (ascii "reserved-memory") := by decide

/-- The declared decodings of a root node give the memory that it declares. -/
lemma regsOf_rootDeclared_memory (c : Cells) (items : Items) :
    regsOf .memory (items.rootDeclared c) = items.memoryRegs c := by
  induction items with
  | nil => rfl
  | prop p rest ih => exact ih
  | node name body rest _ ih =>
    change regsOf .memory (_ ++ rest.rootDeclared c) = _ ++ rest.memoryRegs c
    rw [regsOf_append, ih]
    congr 1
    by_cases hm : IsMemory name
    · rw [if_pos hm, if_pos hm, regsOf_decodings, if_pos rfl]
    · rw [if_neg hm, if_neg hm]
      by_cases hr : name = ascii "reserved-memory"
      · rw [if_pos hr, regsOf_childDeclared, if_neg (by decide)]
      · rw [if_neg hr]
        rfl

/-- The declared decodings of a root node give the reservations that it declares. -/
lemma regsOf_rootDeclared_reserved (c : Cells) (items : Items) :
    regsOf .reserved (items.rootDeclared c) = items.reservedRegs c := by
  induction items with
  | nil => rfl
  | prop p rest ih => exact ih
  | node name body rest _ ih =>
    change regsOf .reserved (_ ++ rest.rootDeclared c) = _ ++ rest.reservedRegs c
    rw [regsOf_append, ih]
    congr 1
    by_cases hr : name = ascii "reserved-memory"
    · rw [if_pos hr, if_neg (hr ▸ not_isMemory_reservedMemory), if_pos hr, regsOf_childDeclared,
        if_pos rfl]
    · rw [if_neg hr, if_neg hr]
      by_cases hm : IsMemory name
      · rw [if_pos hm, regsOf_decodings, if_neg (by decide)]
      · rw [if_neg hm]
        rfl

end Declared

/-! ### Settled nodes -/

/-- A node has a `reg` property, given its inside. -/
def HasReg (items : Items) : Prop := ∃ p ∈ items.props, p.name = ascii "reg"

/-- In a reserved-memory node, given its inside, no declaration changes the sizes of a child that
has a `reg`. The sizes in force are `c`; `d` would be in force if the root had begun with all that
it declares. -/
def ChildSettled (c d : Cells) : Items → Prop
  | nil => True
  | prop p rest => rest.ChildSettled (c.after p) (d.after p)
  | node _ body rest => (body.HasReg → rest.cellsAfter d = c) ∧ rest.ChildSettled c d

/-- In a root node, given its inside and the sizes in force, no declaration changes the sizes after
a memory node that has a `reg`, nor those with which a reserved-memory node was opened and with
which the `reg` of a child is decoded. -/
def Settled (c : Cells) : Items → Prop
  | nil => True
  | prop p rest => rest.Settled (c.after p)
  | node name body rest =>
    (IsMemory name → body.HasReg → rest.cellsAfter c = c) ∧
      (name = ascii "reserved-memory" → body.ChildSettled c (rest.cellsAfter c)) ∧ rest.Settled c

section Settled

variable {items : Items} {k : Sink} {c d : Cells}

/-- The number of `reg` properties does not depend on the sizes. -/
lemma length_decodings (k : Sink) (c d : Cells) (items : Items) :
    (items.decodings k c).length = (items.decodings k d).length := by
  unfold decodings
  induction items.props with
  | nil => rfl
  | cons p ps ih =>
    have hp : (p.decodings k c).length = (p.decodings k d).length := by
      unfold Property.decodings
      split_ifs <;> rfl
    rw [List.flatMap_cons, List.flatMap_cons, List.length_append, List.length_append, hp, ih]

/-- The `reg` properties of a node are decoded in the same way with the same sizes only, unless
there are none. -/
lemma decodings_eq_iff : items.decodings k c = items.decodings k d ↔ (items.HasReg → d = c) := by
  constructor
  · rintro h ⟨p, hp, hreg⟩
    have hmem : ⟨k, p.value, c⟩ ∈ items.decodings k c :=
      List.mem_flatMap.mpr ⟨p, hp, by rw [Property.decodings, if_pos hreg]; exact .head _⟩
    rw [h] at hmem
    obtain ⟨q, -, hq⟩ := List.mem_flatMap.mp hmem
    unfold Property.decodings at hq
    split_ifs at hq
    · exact (Decoding.mk.inj (List.mem_singleton.mp hq)).2.2.symm
    · cases hq
  · intro h
    by_cases hreg : items.HasReg
    · rw [h hreg]
    · have hnil : ∀ c, items.decodings k c = [] := fun c =>
        List.flatMap_eq_nil_iff.mpr fun p hp => if_neg fun hname => hreg ⟨p, hp, hname⟩
      rw [hnil, hnil]

/-- Two sequences that begin with parts of the same length are the same if both parts are. -/
lemma append_eq_iff {l l' m m' : List Decoding} (h : l.length = l'.length) :
    l ++ m = l' ++ m' ↔ l = l' ∧ m = m' :=
  ⟨fun he => List.append_inj he h, fun he => by rw [he.1, he.2]⟩

/-- The children of a reserved-memory node are decoded with the sizes that it declares exactly if it
is settled. -/
lemma childSettled_iff : items.ChildSettled c d ↔
    items.childDecodings c = items.childDeclared (items.cellsAfter d) := by
  induction items generalizing c d with
  | nil => exact ⟨fun _ => rfl, fun _ => trivial⟩
  | prop p rest ih => exact ih
  | node name body rest _ ih =>
    change (body.HasReg → rest.cellsAfter d = c) ∧ rest.ChildSettled c d ↔
      body.decodings .reserved c ++ rest.childDecodings c =
        body.decodings .reserved (rest.cellsAfter d) ++ rest.childDeclared (rest.cellsAfter d)
    rw [append_eq_iff (length_decodings ..), decodings_eq_iff, ih]

/-- The number of decoded properties of a reserved-memory node does not depend on the sizes. -/
lemma length_childDecodings (c d : Cells) (items : Items) :
    (items.childDecodings c).length = (items.childDeclared d).length := by
  induction items generalizing c with
  | nil => rfl
  | prop p rest ih => exact ih (c.after p)
  | node name body rest _ ih =>
    change (body.decodings .reserved c ++ rest.childDecodings c).length =
      (body.decodings .reserved d ++ rest.childDeclared d).length
    rw [List.length_append, List.length_append, length_decodings .reserved c d, ih]

/-- **In force and declared.** The `reg` properties that are read of a root node are decoded with
the declared sizes exactly if the node is settled.

**Proof sketch.** Induction on the inside of the node. The two sequences of decodings have parts of
the same lengths, so they are the same if the parts of every subnode are; what is declared for a
subnode is what is in force after the rest of the node. -/
theorem settled_iff : items.Settled c ↔
    items.rootDecodings c = items.rootDeclared (items.cellsAfter c) := by
  induction items generalizing c with
  | nil => exact ⟨fun _ => rfl, fun _ => trivial⟩
  | prop p rest ih => exact ih
  | node name body rest _ ih =>
    change (IsMemory name → body.HasReg → rest.cellsAfter c = c) ∧
        (name = ascii "reserved-memory" → body.ChildSettled c (rest.cellsAfter c)) ∧
        rest.Settled c ↔
      (if IsMemory name then body.decodings .memory c
        else if name = ascii "reserved-memory" then body.childDecodings c
        else []) ++ rest.rootDecodings c =
      (if IsMemory name then body.decodings .memory (rest.cellsAfter c)
        else if name = ascii "reserved-memory" then
          body.childDeclared (body.cellsAfter (rest.cellsAfter c))
        else []) ++ rest.rootDeclared (rest.cellsAfter c)
    rw [ih]
    by_cases hm : IsMemory name
    · have hr : name ≠ ascii "reserved-memory" := by
        rintro rfl
        exact not_isMemory_reservedMemory hm
      rw [if_pos hm, if_pos hm, append_eq_iff (length_decodings ..), decodings_eq_iff]
      exact ⟨fun h => ⟨h.1 hm, h.2.2⟩, fun h => ⟨fun _ => h.1, fun he => absurd he hr, h.2⟩⟩
    · rw [if_neg hm, if_neg hm]
      by_cases hr : name = ascii "reserved-memory"
      · rw [if_pos hr, if_pos hr, append_eq_iff (length_childDecodings ..), ← childSettled_iff]
        exact ⟨fun h => ⟨h.2.1 hr, h.2.2⟩, fun h => ⟨fun he => absurd he hm, fun _ => h.1, h.2⟩⟩
      · rw [if_neg hr, if_neg hr, List.nil_append, List.nil_append]
        exact ⟨fun h => h.2.2, fun h => ⟨fun he => absurd he hm, fun he => absurd he hr, h⟩⟩

/-- The entries alone do not tell the sizes: this `reg` holds the same region with two address cells
and one size cell, which are in force, as with one and two, which the root node declares later. -/
example :
    let items : Items := .node (ascii "memory")
      (.prop ⟨ascii "reg", word 0 ++ word 0 ++ word 4096⟩ .nil)
      (.prop ⟨ascii "#address-cells", word 1⟩ (.prop ⟨ascii "#size-cells", word 2⟩ .nil))
    items.cellsAfter Cells.default = ⟨1, 2⟩ ∧
      regsOf .memory (items.rootDecodings Cells.default) = items.memoryRegs ⟨1, 2⟩ ∧
      items.memoryRegs ⟨1, 2⟩ = [⟨0, 4096⟩] := by
  decide +kernel

end Settled

end Items

/-! ### What the parser decodes -/

/-- The decoding that the parser does at a token: a property reaches one of the two branches of
`Scan.read` that append the entries of a `reg`. -/
def Scan.decoding (s : Scan) : Token → List Decoding
  | .prop p =>
    if s.depth = 1 then []
    else if s.memoryDepth = some s.depth ∧ p.name = ascii "reg" then
      [⟨.memory, p.value, ⟨s.addrCells, s.sizeCells⟩⟩]
    else if s.rsvNode = true ∧ s.depth = 2 then []
    else if s.rsvNode = true ∧ s.depth = 3 ∧ p.name = ascii "reg" then
      [⟨.reserved, p.value, ⟨s.rsvAddrCells, s.rsvSizeCells⟩⟩]
    else []
  | _ => []

/-- The decodings of a run. -/
def Scan.decodings : List Token → Scan → List Decoding
  | [], _ => []
  | t :: ts, s =>
    s.decoding t ++
      match s.token t with
      | .error _ => []
      | .ok s => Scan.decodings ts s

section Runs

variable {s s₁ s' : Scan} {t : Token} {ts us : List Token}

/-- A run that goes on after its first token. -/
lemma decodings_cons (h : s.token t = .ok s₁) :
    Scan.decodings (t :: ts) s = s.decoding t ++ Scan.decodings ts s₁ := by
  rw [Scan.decodings, h]

/-- The first token of a run. -/
lemma tokens_cons_inv (h : Scan.tokens (t :: ts) s = .ok s') :
    ∃ s₁, s.token t = .ok s₁ ∧ Scan.tokens ts s₁ = .ok s' := by
  rw [Scan.tokens] at h
  cases ht : s.token t with
  | error e => simp [ht] at h
  | ok s₁ =>
    rw [ht] at h
    exact ⟨s₁, rfl, h⟩

/-- A run over two sequences. -/
lemma decodings_append (h : Scan.tokens ts s = .ok s₁) :
    Scan.decodings (ts ++ us) s = Scan.decodings ts s ++ Scan.decodings us s₁ := by
  induction ts generalizing s with
  | nil =>
    obtain rfl := Except.ok.inj h
    rfl
  | cons t ts ih =>
    obtain ⟨s₂, ht, hs⟩ := tokens_cons_inv h
    rw [List.cons_append, decodings_cons ht, decodings_cons ht, ih hs, List.append_assoc]

/-- What is decoded does not depend on the `FDT_NOP` tokens. -/
lemma decodings_filter (ts : List Token) (s : Scan) :
    Scan.decodings (ts.filter Token.isCode) s = Scan.decodings ts s := by
  induction ts generalizing s with
  | nil => rfl
  | cons t ts ih =>
    cases t with
    | nop => exact ih s
    | beginNode name =>
      simp only [List.filter_cons, Token.isCode, ↓reduceIte, Scan.decodings, ih]
    | endNode => simp only [List.filter_cons, Token.isCode, ↓reduceIte, Scan.decodings, ih]
    | prop p => simp only [List.filter_cons, Token.isCode, ↓reduceIte, Scan.decodings, ih]

/-- What is decoded does not depend on the place of the tokens. -/
lemma decodings_moveTo (off : ℕ) (h : Scan.tokens ts s = .ok s') :
    Scan.decodings ts (s.moveTo off) = Scan.decodings ts s := by
  induction ts generalizing s with
  | nil => rfl
  | cons t ts ih =>
    obtain ⟨s₁, ht, hs⟩ := tokens_cons_inv h
    have hdecoding : (s.moveTo off).decoding t = s.decoding t := by cases t <;> rfl
    rw [decodings_cons ht, decodings_cons (s.token_moveTo off ht), ih hs, hdecoding]

/-- A declaration records nothing. -/
lemma info_of_cellCount {value : List UInt8} {f : ℕ → Scan}
    (h : (cellCount value).map f = .ok s') (hf : ∀ n, (f n).info = s.info) : s'.info = s.info := by
  cases hc : cellCount value with
  | error e => simp [hc, Except.map] at h
  | ok n =>
    rw [hc] at h
    obtain rfl := Except.ok.inj h
    exact hf n

/-- A property records what is decoded. -/
lemma read_info {p : Property} (h : s.read p.name p.value = .ok s') :
    s'.info.memory = s.info.memory ++ regsOf .memory (s.decoding (.prop p)) ∧
      s'.info.reserved = s.info.reserved ++ regsOf .reserved (s.decoding (.prop p)) := by
  have hkeep : s'.info = s.info → s'.info.memory = s.info.memory ++ regsOf .memory [] ∧
      s'.info.reserved = s.info.reserved ++ regsOf .reserved [] := fun he => by
    rw [he]
    exact ⟨(List.append_nil _).symm, (List.append_nil _).symm⟩
  unfold Scan.read at h
  unfold Scan.decoding
  dsimp only
  by_cases hroot : s.depth = 1
  · rw [if_pos hroot] at h ⊢
    split_ifs at h
    · exact hkeep (info_of_cellCount h fun _ => rfl)
    · exact hkeep (info_of_cellCount h fun _ => rfl)
    · exact hkeep (congrArg Scan.info (Except.ok.inj h)).symm
  rw [if_neg hroot] at h ⊢
  by_cases hmem : s.memoryDepth = some s.depth ∧ p.name = ascii "reg"
  · rw [if_pos hmem] at h ⊢
    unfold pushRegions at h
    cases hparse : parseReg p.value s.addrCells s.sizeCells maxMemRegions s.info.memory with
    | error e => simp [hparse, Except.map] at h
    | ok out =>
      simp only [hparse, Except.map] at h
      obtain rfl := Except.ok.inj h
      refine ⟨?_, (List.append_nil _).symm⟩
      rw [parseReg_inv hparse]
      exact congrArg _ (List.flatMap_singleton _ _).symm
  rw [if_neg hmem] at h ⊢
  by_cases hrsv : s.rsvNode = true ∧ s.depth = 2
  · rw [if_pos hrsv] at h ⊢
    split_ifs at h
    · exact hkeep (info_of_cellCount h fun _ => rfl)
    · exact hkeep (info_of_cellCount h fun _ => rfl)
    · exact hkeep (congrArg Scan.info (Except.ok.inj h)).symm
  rw [if_neg hrsv] at h ⊢
  by_cases hchild : s.rsvNode = true ∧ s.depth = 3 ∧ p.name = ascii "reg"
  · rw [if_pos hchild] at h ⊢
    unfold pushReservedRegions at h
    cases hparse : parseReg p.value s.rsvAddrCells s.rsvSizeCells maxRsvRegions
        s.info.reserved with
    | error e => simp [hparse, Except.map] at h
    | ok out =>
      simp only [hparse, Except.map] at h
      obtain rfl := Except.ok.inj h
      refine ⟨(List.append_nil _).symm, ?_⟩
      rw [parseReg_inv hparse]
      exact congrArg _ (List.flatMap_singleton _ _).symm
  rw [if_neg hchild] at h ⊢
  split_ifs at h
  · obtain rfl := Except.ok.inj h
    exact ⟨(List.append_nil _).symm, (List.append_nil _).symm⟩
  · exact hkeep (congrArg Scan.info (Except.ok.inj h)).symm

/-- A token records what is decoded. -/
lemma token_info (h : s.token t = .ok s') :
    s'.info.memory = s.info.memory ++ regsOf .memory (s.decoding t) ∧
      s'.info.reserved = s.info.reserved ++ regsOf .reserved (s.decoding t) := by
  cases t with
  | beginNode name =>
    simp only [Scan.token] at h
    split_ifs at h
    obtain rfl := Except.ok.inj h
    rw [Scan.enter_info]
    exact ⟨(List.append_nil _).symm, (List.append_nil _).symm⟩
  | endNode =>
    simp only [Scan.token, endNode] at h
    split_ifs at h
    obtain rfl := Except.ok.inj h
    rw [Scan.leave_info]
    exact ⟨(List.append_nil _).symm, (List.append_nil _).symm⟩
  | prop p =>
    simp only [Scan.token] at h
    split_ifs at h
    exact read_info h
  | nop =>
    obtain rfl := Except.ok.inj h
    exact ⟨(List.append_nil _).symm, (List.append_nil _).symm⟩

/-- **A run records what it decodes**, and nothing else beside seeds. -/
theorem tokens_info (h : Scan.tokens ts s = .ok s') :
    s'.info.memory = s.info.memory ++ regsOf .memory (Scan.decodings ts s) ∧
      s'.info.reserved = s.info.reserved ++ regsOf .reserved (Scan.decodings ts s) := by
  induction ts generalizing s with
  | nil =>
    obtain rfl := Except.ok.inj h
    exact ⟨(List.append_nil _).symm, (List.append_nil _).symm⟩
  | cons t ts ih =>
    obtain ⟨s₁, ht, hs⟩ := tokens_cons_inv h
    obtain ⟨hmem, hres⟩ := token_info ht
    obtain ⟨hmem', hres'⟩ := ih hs
    rw [decodings_cons ht, regsOf_append, regsOf_append, hmem', hres', hmem, hres]
    exact ⟨List.append_assoc .., List.append_assoc ..⟩

/-- A run over a property. -/
lemma decodings_prop {p : Property} {rest : Items} (hdepth : s.depth ≠ 0)
    (h : s.read p.name p.value = .ok s₁) :
    Scan.decodings (Items.prop p rest).tokens s =
      s.decoding (.prop p) ++ Scan.decodings rest.tokens s₁ :=
  decodings_cons (by rw [Scan.token, if_neg hdepth, h])

/-- A run over a node: over its inside, and then over what follows. -/
lemma decodings_node {name : List UInt8} {body rest : Items}
    (h : Scan.tokens (Items.node name body rest).tokens s = .ok s') :
    ∃ s₁, Scan.tokens body.tokens (s.enter name) = .ok s₁ ∧
      Scan.tokens rest.tokens s₁.leave = .ok s' ∧
      Scan.decodings (Items.node name body rest).tokens s =
        Scan.decodings body.tokens (s.enter name) ++ Scan.decodings rest.tokens s₁.leave := by
  have hsplit : (Items.node name body rest).tokens =
      .beginNode name :: (body.tokens ++ .endNode :: rest.tokens) := by
    simp [Items.tokens]
  rw [hsplit] at h ⊢
  obtain ⟨s₀, hbegin, h⟩ := tokens_cons_inv h
  obtain ⟨s₁, hbody, h⟩ := tokens_append_inv h
  obtain ⟨s₂, hend, h⟩ := tokens_cons_inv h
  rw [decodings_cons hbegin, decodings_append hbody, decodings_cons hend]
  simp only [Scan.token, endNode] at hbegin hend
  split_ifs at hbegin hend
  obtain rfl := Except.ok.inj hbegin
  obtain rfl := Except.ok.inj hend
  exact ⟨s₁, hbody, h, rfl⟩

/-- A property of a node whose subnodes mean nothing changes only the result. -/
lemma Scan.Flat.read_eq (h : s.Flat) {name value : List UInt8} (hr : s.read name value = .ok s') :
    ∃ i, s' = { s with info := i } := by
  have hd := h.depth
  unfold Scan.read at hr
  rw [if_neg (by omega)] at hr
  split_ifs at hr with hmem hrsv _ _ hchild hseed
  · cases hpush : pushRegions value s.addrCells s.sizeCells s.info with
    | error e => simp [hpush, Except.map] at hr
    | ok i =>
      rw [hpush] at hr
      exact ⟨i, (Except.ok.inj hr).symm⟩
  · have := h.rsv hrsv.1
    omega
  · have := h.rsv hrsv.1
    omega
  · have := h.rsv hrsv.1
    omega
  · cases hpush : pushReservedRegions value s.rsvAddrCells s.rsvSizeCells s.info with
    | error e => simp [hpush, Except.map] at hr
    | ok i =>
      rw [hpush] at hr
      exact ⟨i, (Except.ok.inj hr).symm⟩
  · exact ⟨_, (Except.ok.inj hr).symm⟩
  · exact ⟨s.info, (Except.ok.inj hr).symm⟩

/-- Nothing is decoded in a subnode that means nothing. -/
lemma Scan.Flat.decoding_deeper (h : s.Flat) (p : Property) : s.deeper.decoding (.prop p) = [] := by
  have hd := h.depth
  have hm : s.memoryDepth ≠ some (s.depth + 1) := fun he => by
    have := h.memory _ he
    omega
  unfold Scan.decoding Scan.deeper
  dsimp only
  rw [if_neg (by omega), if_neg (fun e => hm e.1), if_neg (by omega),
    if_neg (fun e => by have := h.rsv e.1; omega)]

/-- The inside of a node whose subnodes mean nothing: its own properties are decoded. -/
lemma Scan.Flat.decodings (h : s.Flat) {items : Items}
    (hrun : Scan.tokens items.tokens s = .ok s') :
    Scan.decodings items.tokens s = items.props.flatMap fun p => s.decoding (.prop p) := by
  induction items generalizing s s' with
  | nil => rfl
  | prop p rest ih =>
    obtain ⟨s₁, hdepth, hread, hrest⟩ := run_prop hrun
    obtain ⟨i, rfl⟩ := h.read_eq hread
    rw [decodings_prop hdepth hread,
      ih (s := { s with info := i }) ⟨h.depth, h.memory, h.chosen, h.rsv⟩ hrest]
    rfl
  | node name body rest ihb ih =>
    obtain ⟨s₁, hbody, hrest, hsplit⟩ := decodings_node hrun
    rw [h.enter] at hbody hsplit
    obtain ⟨rfl, -⟩ := run_quiet h hbody
    rw [h.leave] at hrest hsplit
    have hquiet : Scan.decodings body.tokens s.deeper = [] := by
      rw [ihb h.deeper hbody]
      exact List.flatMap_eq_nil_iff.mpr fun p _ => h.decoding_deeper p
    rw [hsplit, hquiet, ih h hrest]
    rfl

/-- A memory node is decoded with the sizes of the root that are in force. -/
lemma decodings_memory (h : s.InRoot) {name : List UInt8} (hname : Items.IsMemory name)
    {body : Items} (hrun : Scan.tokens body.tokens (s.enter name) = .ok s') :
    Scan.decodings body.tokens (s.enter name) = body.decodings .memory s.cells := by
  have henter : s.enter name = { s with depth := 2, memoryDepth := some 2 } := by
    have hc : name ≠ ascii "chosen" := by
      rintro rfl
      exact absurd hname (by decide)
    have hr : name ≠ ascii "reserved-memory" := by
      rintro rfl
      exact Items.not_isMemory_reservedMemory hname
    have hcond : s.depth + 1 = 2 ∧
        (name = ascii "memory" ∨ (ascii "memory@").isPrefixOf name) := ⟨by rw [h.depth], hname⟩
    simp only [Scan.enter]
    rw [if_pos hcond]
    simp [hc, hr, h.depth]
  rw [henter] at hrun ⊢
  have hflat : Scan.Flat { s with depth := 2, memoryDepth := some 2 } :=
    ⟨le_rfl, fun k hk => (Option.some.inj hk).ge, by simp [h.chosen], by simp [h.rsv]⟩
  rw [hflat.decodings hrun]
  unfold Items.decodings
  congr 1
  funext p
  simp only [Scan.decoding, Property.decodings, Scan.cells, h.rsv]
  simp

/-- A node of the root that is neither a memory nor a reserved-memory node is not decoded. -/
lemma decodings_other (h : s.InRoot) {name : List UInt8} (hm : ¬ Items.IsMemory name)
    (hr : name ≠ ascii "reserved-memory") {body : Items}
    (hrun : Scan.tokens body.tokens (s.enter name) = .ok s') :
    Scan.decodings body.tokens (s.enter name) = [] := by
  have henter : ∃ k : Option ℕ, (∀ d, k = some d → d = 2) ∧
      s.enter name = { s with depth := 2, chosenDepth := k } := by
    have hcond : ¬ (s.depth + 1 = 2 ∧
        (name = ascii "memory" ∨ (ascii "memory@").isPrefixOf name)) := fun e => hm e.2
    simp only [Scan.enter]
    rw [if_neg hcond]
    by_cases hc : name = ascii "chosen"
    · have hne : ascii "chosen" ≠ ascii "reserved-memory" := by decide
      exact ⟨some 2, fun d hd => (Option.some.inj hd).symm, by simp [hc, hne, h.depth]⟩
    · have hnone : ∀ d, (none : Option ℕ) = some d → d = 2 := by simp
      exact ⟨none, hnone, by simp [hc, hr, h.depth, h.chosen]⟩
  obtain ⟨k, hk, henter⟩ := henter
  rw [henter] at hrun ⊢
  have hflat : Scan.Flat { s with depth := 2, chosenDepth := k } :=
    ⟨le_rfl, by simp [h.memory], fun d hd => (hk d hd).le, by simp [h.rsv]⟩
  rw [hflat.decodings hrun]
  refine List.flatMap_eq_nil_iff.mpr fun p _ => ?_
  simp [Scan.decoding, h.memory, h.rsv]

/-- A child of a reserved-memory node is decoded with the sizes of that node that are in force. -/
lemma decodings_rsvChild (h : s.InRoot) {c : Cells} {out : List MemRegion} {name : List UInt8}
    {body : Items} (hrun : Scan.tokens body.tokens ((s.inRsv c out).enter name) = .ok s') :
    Scan.decodings body.tokens ((s.inRsv c out).enter name) = body.decodings .reserved c := by
  have henter : (s.inRsv c out).enter name = { s.inRsv c out with depth := 3 } := by
    simp [Scan.enter, Scan.inRsv]
  rw [henter] at hrun ⊢
  have hflat : Scan.Flat { s.inRsv c out with depth := 3 } :=
    ⟨by simp, by simp [Scan.inRsv, h.memory], by simp [Scan.inRsv, h.chosen], fun _ => le_rfl⟩
  rw [hflat.decodings hrun]
  unfold Items.decodings
  congr 1
  funext p
  simp [Scan.decoding, Property.decodings, Scan.inRsv, h.memory]

/-- The children of a reserved-memory node are decoded with the sizes in force. -/
lemma decodings_inRsv (h : s.InRoot) {items : Items} {c : Cells} {out : List MemRegion}
    (hrun : Scan.tokens items.tokens (s.inRsv c out) = .ok s') :
    Scan.decodings items.tokens (s.inRsv c out) = items.childDecodings c := by
  induction items generalizing c out with
  | nil => rfl
  | prop p rest ih =>
    obtain ⟨s₁, hdepth, hread, hrest⟩ := run_prop hrun
    rw [decodings_prop hdepth hread]
    obtain rfl := read_inRsv h hread
    rw [ih hrest]
    simp [Scan.decoding, Scan.inRsv, h.memory, Items.childDecodings]
  | node name body rest _ ih =>
    obtain ⟨s₁, hbody, hrest, hsplit⟩ := decodings_node hrun
    rw [hsplit, decodings_rsvChild h hbody]
    obtain ⟨hleave, -⟩ := run_rsvChild h hbody
    rw [hleave] at hrest ⊢
    rw [ih hrest]
    rfl

/-- The inside of a root node is decoded with the sizes in force. -/
lemma decodings_inRoot (h : s.InRoot) {items : Items}
    (hrun : Scan.tokens items.tokens s = .ok s') :
    Scan.decodings items.tokens s = items.rootDecodings s.cells := by
  induction items generalizing s with
  | nil => rfl
  | prop p rest ih =>
    obtain ⟨s₁, hdepth, hread, hrest⟩ := run_prop hrun
    obtain ⟨hin, hcells, -⟩ := read_inRoot h hread
    have hnone : s.decoding (.prop p) = [] := if_pos h.depth
    rw [decodings_prop hdepth hread, hnone, ih hin hrest, hcells]
    rfl
  | node name body rest _ ih =>
    obtain ⟨s₁, hbody, hrest, hsplit⟩ := decodings_node hrun
    obtain ⟨hin, hcells, -⟩ := run_contents h hbody
    rw [hsplit, ih hin hrest, hcells, Items.rootDecodings]
    congr 1
    split_ifs with hm hr
    · exact decodings_memory h hm hbody
    · subst hr
      rw [enter_reservedMemory h] at hbody ⊢
      exact decodings_inRsv h hbody
    · exact decodings_other h hm hr hbody

/-- A structure block is decoded with the sizes in force. -/
lemma decodings_collect (h : s.AtTop) {items : Items}
    (hrun : Scan.tokens items.tokens s = .ok s') :
    Scan.decodings items.tokens s = items.forestDecodings s.cells := by
  induction items generalizing s with
  | nil => rfl
  | prop p rest ih =>
    obtain ⟨-, hdepth, -⟩ := run_prop hrun
    exact absurd h.depth hdepth
  | node name body rest _ ih =>
    obtain ⟨s₁, hbody, hrest, hsplit⟩ := decodings_node hrun
    obtain ⟨henter, hroot⟩ := h.enter name
    obtain ⟨hin, hcells, -⟩ := run_inRoot hroot hbody
    obtain ⟨hleave, htop⟩ := hin.leave
    have hsame : (s.enter name).cells = s.cells := by rw [henter]; rfl
    have hcells' : s₁.leave.cells = body.cellsAfter s.cells := by
      rw [hleave, ← hsame]
      exact hcells
    rw [hsplit, decodings_inRoot hroot hbody, ih htop hrest, hcells', hsame]
    rfl

end Runs

/-! ### The parser -/

section Parser

variable {blob : List UInt8} {dtb : Span} {info : BootInfo}

/-- The decodings of the run over the tokens of a blob. -/
def Reads.decodings {rsv : List (UInt64 × UInt64)} {forest : Items} (r : Reads blob rsv forest)
    (dtb : Span) : List Decoding :=
  Scan.decodings r.tokens (Scan.start r.offStruct dtb rsv)

/-- An accepted blob is decoded with the sizes in force, and the result consists of what is
decoded. -/
lemma parseBlob_decodings (hlen : blob.length < 2 ^ 63) (h : parseBlob blob dtb = .ok info)
    {rsv : List (UInt64 × UInt64)} {forest : Items} (r : Reads blob rsv forest) :
    r.decodings dtb = forest.forestDecodings Cells.default ∧
      info.memory = regsOf .memory (r.decodings dtb) ∧
      info.reserved = reservations rsv ++ regsOf .reserved (r.decodings dtb) := by
  obtain ⟨rsv', forest', r', s, hrun, rfl⟩ := exists_run_of_parseBlob hlen h
  obtain ⟨rfl, rfl⟩ := r.unique r'
  -- the offset of the structure block does not matter
  have hmove : r.decodings dtb =
      Scan.decodings forest.tokens (Scan.start r'.offStruct dtb rsv) := by
    have hstart : Scan.start r.offStruct dtb rsv =
        (Scan.start r'.offStruct dtb rsv).moveTo r.offStruct := rfl
    unfold Reads.decodings
    rw [← decodings_filter, r.tokens_eq, hstart, decodings_moveTo _ hrun]
  obtain ⟨hmem, hres⟩ := tokens_info hrun
  rw [hmove]
  exact ⟨decodings_collect (Scan.start_atTop _ dtb rsv) hrun, hmem, hres⟩

/-- A blob with a single root node in which no declaration comes too late. -/
def Settled (blob : List UInt8) : Prop :=
  ∃ rsv body, Nonempty (Reads blob rsv (.node [] body .nil)) ∧ body.Settled Cells.default

/-- **The declared sizes.** An accepted blob has a single root node in which no declaration comes
too late exactly if it has a single root node and every `reg` was decoded with the declared sizes:
those of the memory nodes with the sizes that the root node declares (two and one without a
declaration), and those of the children of a reserved-memory node with the sizes that this node
declares, or else with those of the root. The memory and the reservations are then what these nodes
hold, so decoded.

**Proof sketch.** The parser decodes with the sizes in force, which are the declared ones exactly in
a settled root node. A blob has at most one list of contents, so it does not matter which one is
taken. -/
theorem parseBlob_cells (hlen : blob.length < 2 ^ 63) (h : parseBlob blob dtb = .ok info) :
    Settled blob ↔ ∃ rsv body, ∃ r : Reads blob rsv (.node [] body .nil),
      r.decodings dtb = body.rootDeclared (body.cellsAfter Cells.default) ∧
      info.memory = body.memoryRegs (body.cellsAfter Cells.default) ∧
      info.reserved = reservations rsv ++ body.reservedRegs (body.cellsAfter Cells.default) := by
  have hsingle : ∀ body : Items, (Items.node [] body .nil).forestDecodings Cells.default =
      body.rootDecodings Cells.default := fun body => List.append_nil _
  constructor
  · rintro ⟨rsv, body, ⟨r⟩, hset⟩
    obtain ⟨hdec, hmem, hres⟩ := parseBlob_decodings hlen h r
    rw [hsingle, Items.settled_iff.mp hset] at hdec
    refine ⟨rsv, body, r, hdec, ?_, ?_⟩
    · rw [hmem, hdec, Items.regsOf_rootDeclared_memory]
    · rw [hres, hdec, Items.regsOf_rootDeclared_reserved]
  · rintro ⟨rsv, body, r, hdeclared, -⟩
    obtain ⟨hdec, -⟩ := parseBlob_decodings hlen h r
    rw [hsingle] at hdec
    exact ⟨rsv, body, ⟨r⟩, Items.settled_iff.mpr (hdec.symm.trans hdeclared)⟩

end Parser

section Blob

/-- The inside of a root node that declares one address cell after a memory node without a `reg` and
before one that has a `reg`. -/
def midCells : Items :=
  .node (ascii "memory") .nil (.prop ⟨ascii "#address-cells", word 1⟩
    (.node (ascii "memory@40000000")
      (.prop ⟨ascii "reg", word 0x40000000 ++ word 0x10000000⟩ .nil) .nil))

/-- The structure block of this root node. -/
def midCellsStruct : List UInt8 :=
  (word 1 ++ [0, 0, 0, 0]) ++ ((word 1 ++ (ascii "memory" ++ [0, 0])) ++ (word 2 ++
    ((word 3 ++ word 4 ++ word 4 ++ word 1) ++ ((word 1 ++ (ascii "memory@40000000" ++ [0])) ++
      ((word 3 ++ word 8 ++ word 0 ++ (word 0x40000000 ++ word 0x10000000)) ++
        (word 2 ++ (word 2 ++ [])))))))

/-- A blob with this root node. -/
def midCellsBlob : List UInt8 :=
  word 0xd00dfeed ++ word 167 ++ word 56 ++ word 148 ++ word 40 ++ word 17 ++ word 16 ++ word 0 ++
    word 19 ++ word 92 ++ (dword 0 ++ dword 0) ++ (midCellsStruct ++ word 9) ++
    (ascii "reg" ++ [0] ++ ascii "#address-cells" ++ [0])

/-- What the blob contains. -/
lemma nonempty_midCellsReads : Nonempty (Reads midCellsBlob [] (.node [] midCells .nil)) := by
  show Nonempty (Reads (plainBlob 167 148 19 92 midCellsStruct
    (ascii "reg" ++ [0] ++ ascii "#address-cells" ++ [0])) [] _)
  refine nonempty_reads_plainBlob (by decide +kernel) rfl (by decide) (by decide) ?_ (by decide)
    rfl ⟨rfl, trivial⟩ (by simp) (by decide)
  refine .cons (.beginNode ⟨[0, 0, 0], rfl, by decide, by decide⟩) (.cons
    (.beginNode ⟨[0], by decide, by decide, by decide⟩) (.cons .endNode (.cons (.prop ?_ ?_)
      (.cons (.beginNode ⟨[], by decide, by decide, by decide⟩) (.cons (.prop ?_ ?_)
        (.cons .endNode (.cons .endNode .nil)))))))
  · exact .of_slice (by decide)
  · exact ⟨[], by decide, by decide, by decide⟩
  · exact .of_slice (by decide)
  · exact ⟨[], by decide, by decide, by decide⟩

/-- Although a memory node stands before the declaration, this root node is settled, since no `reg`
of it was decoded. -/
lemma settled_midCells : Settled midCellsBlob := by
  refine ⟨[], midCells, nonempty_midCellsReads, ⟨?_, ?_, ?_, ?_, trivial⟩⟩
  · rintro - ⟨p, hp, -⟩
    cases hp
  · exact fun hname => absurd hname (by decide)
  · exact fun _ _ => rfl
  · exact fun hname => absurd hname (by decide)

/-- The bank of this blob is decoded with the one address cell that the root node declares. -/
theorem parseBlob_cells_midCells :
    Settled midCellsBlob ∧ ∃ rsv body, ∃ r : Reads midCellsBlob rsv (.node [] body .nil),
      r.decodings ⟨0x48000000, 0x480000a7⟩ = body.rootDeclared (body.cellsAfter Cells.default) ∧
      [⟨0x40000000, 0x10000000⟩] = body.memoryRegs (body.cellsAfter Cells.default) ∧
      [] = reservations rsv ++ body.reservedRegs (body.cellsAfter Cells.default) := by
  have hparse : parseBlob midCellsBlob ⟨0x48000000, 0x480000a7⟩ =
      .ok ⟨⟨0x48000000, 0x480000a7⟩, [⟨0x40000000, 0x10000000⟩], [], []⟩ := by
    decide +kernel
  have hlen : midCellsBlob.length < 2 ^ 63 := by decide +kernel
  exact ⟨settled_midCells, (parseBlob_cells hlen hparse).mp settled_midCells⟩

/-- The inside of a root node with two banks of memory that declares one address cell afterwards. -/
def lateCells : Items :=
  .node (ascii "memory") (.prop ⟨ascii "reg", dword 0x40000000 ++ word 0x10000000 ++
    (dword 0x80000000 ++ word 0x10000000)⟩ .nil) (.prop ⟨ascii "#address-cells", word 1⟩ .nil)

/-- This root node and an empty one. -/
def lateCellsForest : Items := .node [] lateCells (.node [] .nil .nil)

/-- The structure block of `lateCellsForest`. -/
def lateCellsStruct : List UInt8 :=
  (word 1 ++ [0, 0, 0, 0]) ++ ((word 1 ++ (ascii "memory" ++ [0, 0])) ++
    ((word 3 ++ word 24 ++ word 0 ++ (dword 0x40000000 ++ word 0x10000000 ++
      (dword 0x80000000 ++ word 0x10000000))) ++ (word 2 ++
        ((word 3 ++ word 4 ++ word 4 ++ word 1) ++ (word 2 ++
          ((word 1 ++ [0, 0, 0, 0]) ++ (word 2 ++ [])))))))

/-- A blob with `lateCellsForest`. -/
def lateCellsBlob : List UInt8 :=
  word 0xd00dfeed ++ word 171 ++ word 56 ++ word 152 ++ word 40 ++ word 17 ++ word 16 ++ word 0 ++
    word 19 ++ word 96 ++ (dword 0 ++ dword 0) ++ (lateCellsStruct ++ word 9) ++
    (ascii "reg" ++ [0] ++ ascii "#address-cells" ++ [0])

/-- What the blob contains. -/
lemma nonempty_lateCellsReads : Nonempty (Reads lateCellsBlob [] lateCellsForest) := by
  show Nonempty (Reads (plainBlob 171 152 19 96 lateCellsStruct
    (ascii "reg" ++ [0] ++ ascii "#address-cells" ++ [0])) [] _)
  refine nonempty_reads_plainBlob (by decide +kernel) rfl (by decide) (by decide) ?_ (by decide)
    rfl ⟨rfl, rfl, trivial⟩ (by simp [lateCellsForest]) (by decide)
  refine .cons (.beginNode ⟨[0, 0, 0], rfl, by decide, by decide⟩) (.cons
    (.beginNode ⟨[0], by decide, by decide, by decide⟩) (.cons (.prop ?_ ?_) (.cons .endNode
      (.cons (.prop ?_ ?_) (.cons .endNode (.cons
        (.beginNode ⟨[0, 0, 0], rfl, by decide, by decide⟩) (.cons .endNode .nil)))))))
  · exact .of_slice (by decide)
  · exact ⟨[], by decide, by decide, by decide⟩
  · exact .of_slice (by decide)
  · exact ⟨[], by decide, by decide, by decide⟩

/-- A tree with two root nodes is accepted, and the memory is decoded with the default sizes
although the root node declares one address cell. -/
theorem parseBlob_lateCells :
    ∃ _ : Reads lateCellsBlob [] lateCellsForest,
      lateCellsForest = .node [] lateCells (.node [] .nil .nil) ∧
      parseBlob lateCellsBlob ⟨0x48000000, 0x480000ab⟩ =
        .ok ⟨⟨0x48000000, 0x480000ab⟩, [⟨0x40000000, 0x10000000⟩, ⟨0x80000000, 0x10000000⟩], [],
          []⟩ ∧
      lateCells.cellsAfter Cells.default = ⟨1, 1⟩ ∧
      lateCells.memoryRegs ⟨1, 1⟩ = [⟨0, 0x40000000⟩, ⟨0x80000000, 0x10000000⟩] := by
  obtain ⟨hreads⟩ := nonempty_lateCellsReads
  exact ⟨hreads, rfl, by decide +kernel, rfl, by decide +kernel⟩

end Blob

end K0.Fdt
