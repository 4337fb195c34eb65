import K0.Lib.Word

set_option relaxedAutoImplicit false
set_option autoImplicit false

/-!
# The root CNode, its population at boot, and `retype`

The capability ledger of `crates/k0-cap/src/lib.rs`. The crate touches no memory: preparing the
granule of a new object is the caller's callback `prep`, which here acts on an arbitrary world
`σ` that is threaded through.

Rust's `&mut self` together with `?` keeps the mutations made before an early return, so every
fallible function returns the capability node beside its result, also on failure. The outer
`Option` is `none` where the source would panic.

## Main definitions

* `K0.PhysRegion`, `K0.Cap`, `K0.CNode`: regions, capabilities and the 32-slot node.
* `K0.CNode.retype`: carve one granule out of an untyped capability.
* `K0.populate`: fill the node from the memory map minus the reserved regions.
-/

namespace K0

open Word

/-- The number of slots of the root CNode. -/
def cnodeSlots : ℕ := 32

/-- A range of physical memory. -/
structure PhysRegion where
  base : ℕ
  size : ℕ
deriving DecidableEq, Repr

/-- The first address after a region. -/
def PhysRegion.endAddr (r : PhysRegion) : ℕ := r.base + r.size

/-- The capabilities a slot can hold. -/
inductive Cap where
  | empty
  | rootTcb
  | addrSpace (rootPa : ℕ)
  | console
  | tcb (base : ℕ)
  | untyped (base size used : ℕ)
  | frame (base : ℕ) (mapped : Bool)
  | pageTable (base : ℕ) (installed : Bool)
  | endpoint (base : ℕ)
deriving DecidableEq, Repr

/-- The object kinds that `retype` can create. -/
inductive ObjKind where
  | frame
  | pageTable
  | tcb
  | endpoint
deriving DecidableEq, Repr

/-- The failures of the bootstrap. -/
inductive CapError where
  | outOfSlots
  | badRegion
deriving DecidableEq, Repr

/-- The failures of `retype`. -/
inductive RetypeError where
  | badSlot
  | notUntyped
  | exhausted
  | outOfSlots
  | prepFailed
deriving DecidableEq, Repr

/-- The root CNode: its filled slots, of which there are at most `cnodeSlots`. -/
structure CNode where
  slots : List Cap
  le : slots.length ≤ cnodeSlots

namespace CNode

/-- Two nodes with the same filled slots are equal. -/
@[ext] lemma ext {c d : CNode} (h : c.slots = d.slots) : c = d := by
  cases c
  cases d
  simp_all

/-- The node before the bootstrap. -/
def init : CNode := ⟨[], by decide⟩

/-- The number of filled slots. -/
def used (c : CNode) : ℕ := c.slots.length

/-- The capability in a slot, if the slot is filled. -/
def cap (c : CNode) (slot : ℕ) : Option Cap := c.slots[slot]?

/-- Overwrite a filled slot (a write through `cap_mut`). -/
def set (c : CNode) (slot : ℕ) (v : Cap) : CNode :=
  ⟨c.slots.set slot v, by rw [List.length_set]; exact c.le⟩

/-- Append a capability. -/
def push (c : CNode) (v : Cap) : Except CapError Unit × CNode :=
  if h : c.used = cnodeSlots then (.error .outOfSlots, c)
  else
    (.ok (), ⟨c.slots ++ [v], by
      have := c.le
      unfold used at h
      rw [List.length_append, List.length_singleton]
      omega⟩)

end CNode

/-- The capability of a fresh object of the given kind at `carve`. A zeroed granule already is
the initial object, so the flags start cleared. -/
def ObjKind.cap (kind : ObjKind) (carve : ℕ) : Cap :=
  match kind with
  | .frame => .frame carve false
  | .pageTable => .pageTable carve false
  | .tcb => .tcb carve
  | .endpoint => .endpoint carve

/-- Carve one granule out of the untyped capability in `slot`. All checks precede `prep`, and
only a successful `prep` moves the watermark and appends the new capability. -/
def CNode.retype {σ : Type} (c : CNode) (slot : ℕ) (kind : ObjKind) (granule : ℕ)
    (prep : ℕ → σ → Option (Bool × σ)) (w : σ) :
    Option (Except RetypeError ℕ × CNode × σ) :=
  match c.cap slot with
  | none => some (.error .badSlot, c, w)
  | some (.untyped base size used) =>
    if c.used = cnodeSlots then some (.error .outOfSlots, c, w)
    else
      match checkedAdd base used with
      | none => some (.error .exhausted, c, w)
      | some mark =>
        match checkedAdd mark (granule - 1) with
        | none => some (.error .exhausted, c, w)
        | some up =>
          let carve := maskDown granule up
          match checkedAdd carve granule with
          | none => some (.error .exhausted, c, w)
          | some carveEnd =>
            -- the plain addition `base + size` panics on overflow
            match checkedAdd base size with
            | none => none
            | some limit =>
              if carveEnd > limit then some (.error .exhausted, c, w)
              else
                match prep carve w with
                | none => none
                | some (false, w') => some (.error .prepFailed, c, w')
                | some (true, w') =>
                  let c := c.set slot (.untyped base size (carveEnd - base))
                  let newSlot := c.used
                  match c.push (kind.cap carve) with
                  | (.error _, c) => some (.error .outOfSlots, c, w')
                  | (.ok _, c) => some (.ok newSlot, c, w')
  | some _ => some (.error .notUntyped, c, w)

/-! ### Bootstrap -/

/-- An empty region, or one whose end overflows. -/
def PhysRegion.bad (r : PhysRegion) : Bool :=
  r.size == 0 || (checkedAdd r.base r.size).isNone

/-- The check of the memory regions: none is bad and none meets an earlier one. `seen` holds
the regions before the current one. -/
def checkMemory : List PhysRegion → List PhysRegion → Except CapError Unit
  | _, [] => .ok ()
  | seen, m :: rest =>
    if m.bad then .error .badRegion
    else if seen.any fun o => o.base < m.endAddr && m.base < o.endAddr then .error .badRegion
    else checkMemory (seen ++ [m]) rest

/-- One pass over the reserved regions: the first one of lowest base among those that end after
`cursor` and start before the end of `m`. -/
def selectNext (m : PhysRegion) (cursor : ℕ) :
    List PhysRegion → Option PhysRegion → Except CapError (Option PhysRegion)
  | [], next => .ok next
  | r :: rest, next =>
    if r.bad then .error .badRegion
    else if r.endAddr > cursor && r.base < m.endAddr then
      match next with
      | some n =>
        if n.base ≤ r.base then selectNext m cursor rest (some n)
        else selectNext m cursor rest (some r)
      | none => selectNext m cursor rest (some r)
    else selectNext m cursor rest next

/-- The sweep of one memory region: emit the gaps between the reserved regions. Each round ends
the sweep or moves `cursor` past a reserved region, so `reserved.length + 1` rounds of fuel
suffice; `none` stands for running out of it. -/
def sweep (m : PhysRegion) (reserved : List PhysRegion) :
    ℕ → ℕ → CNode → Option (Except CapError Unit × CNode)
  | 0, _, _ => none
  | fuel + 1, cursor, c =>
    match selectNext m cursor reserved none with
    | .error e => some (.error e, c)
    | .ok (some r) =>
      let emitted :=
        if r.base > cursor then c.push (.untyped cursor (min r.base m.endAddr - cursor) 0)
        else (.ok (), c)
      match emitted with
      | (.error e, c) => some (.error e, c)
      | (.ok _, c) =>
        if r.endAddr ≥ m.endAddr then some (.ok (), c)
        else sweep m reserved fuel (max r.endAddr cursor) c
    | .ok none =>
      if m.endAddr > cursor then some (c.push (.untyped cursor (m.endAddr - cursor) 0))
      else some (.ok (), c)

/-- Append the untyped capabilities of one memory region. -/
def pushUntypeds (c : CNode) (m : PhysRegion) (reserved : List PhysRegion) :
    Option (Except CapError Unit × CNode) :=
  sweep m reserved (reserved.length + 1) m.base c

/-- Append the untyped capabilities of all memory regions, in order. -/
def pushAll (reserved : List PhysRegion) :
    List PhysRegion → CNode → Option (Except CapError Unit × CNode)
  | [], c => some (.ok (), c)
  | m :: rest, c =>
    match pushUntypeds c m reserved with
    | some (.ok _, c) => pushAll reserved rest c
    | r => r

/-- Append a list of capabilities, stopping at the first failure. -/
def pushCaps : List Cap → CNode → Except CapError Unit × CNode
  | [], c => (.ok (), c)
  | v :: rest, c =>
    match c.push v with
    | (.error e, c) => (.error e, c)
    | (.ok _, c) => pushCaps rest c

/-- Fill the CNode: the fixed capabilities, then every gap of the memory map. -/
def populate (c : CNode) (memory reserved : List PhysRegion) (addrSpaceRoot : ℕ) :
    Option (Except CapError Unit × CNode) :=
  match checkMemory [] memory with
  | .error e => some (.error e, c)
  | .ok _ =>
    match pushCaps [.empty, .rootTcb, .addrSpace addrSpaceRoot, .console] c with
    | (.error e, c) => some (.error e, c)
    | (.ok _, c) => pushAll reserved memory c

end K0
