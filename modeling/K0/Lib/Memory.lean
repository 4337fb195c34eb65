import Mathlib.Data.Nat.Notation
import Mathlib.Tactic.Linarith

set_option relaxedAutoImplicit false
set_option autoImplicit false

/-!
# Byte memory

Memory is a total function from addresses to bytes. Words of 64 bits are stored little-endian.
A word written is read back, and neither a write, nor clearing a range, nor copying into a range
changes the words that lie outside of what it touches.

## Main definitions

* `Memory.Mem`: byte memory.
* `Memory.read64`, `Memory.write64`, `Memory.clear`, `Memory.copy`: its operations.

## Main results

* `Memory.read64_write64`, `Memory.read64_write64_of_sep`: reading after writing.
* `Memory.read64_clear`, `Memory.read64_clear_of_sep`: reading after clearing.
* `Memory.read64_congr`: a word depends on its eight bytes only.
-/

namespace Memory

/-- Byte memory. -/
abbrev Mem : Type := ℕ → UInt8

/-- The little-endian 64-bit word at an address. -/
def read64 (m : Mem) (a : ℕ) : ℕ :=
  (m a).toNat + (m (a + 1)).toNat * 2 ^ 8 + (m (a + 2)).toNat * 2 ^ 16 +
    (m (a + 3)).toNat * 2 ^ 24 + (m (a + 4)).toNat * 2 ^ 32 + (m (a + 5)).toNat * 2 ^ 40 +
    (m (a + 6)).toNat * 2 ^ 48 + (m (a + 7)).toNat * 2 ^ 56

/-- Store a 64-bit word. -/
def write64 (m : Mem) (a w : ℕ) : Mem := fun b =>
  if a ≤ b ∧ b < a + 8 then UInt8.ofNat (w / 2 ^ (8 * (b - a))) else m b

/-- Clear `n` bytes from `a` on. -/
def clear (m : Mem) (a n : ℕ) : Mem := fun b => if a ≤ b ∧ b < a + n then 0 else m b

/-- Copy a byte string to `a`. -/
def copy (m : Mem) (a : ℕ) (bs : List UInt8) : Mem := fun b =>
  if a ≤ b ∧ b < a + bs.length then bs.getD (b - a) 0 else m b

section Reads

variable {m m' : Mem} {a b n w : ℕ}

/-- A word depends on its eight bytes only. -/
lemma read64_congr (h : ∀ b, a ≤ b → b < a + 8 → m' b = m b) : read64 m' a = read64 m a := by
  unfold read64
  rw [h a (by omega) (by omega), h (a + 1) (by omega) (by omega), h (a + 2) (by omega) (by omega),
    h (a + 3) (by omega) (by omega), h (a + 4) (by omega) (by omega),
    h (a + 5) (by omega) (by omega), h (a + 6) (by omega) (by omega),
    h (a + 7) (by omega) (by omega)]

/-- A byte of a stored word. -/
lemma write64_byte {i : ℕ} (hi : i < 8) :
    (write64 m a w (a + i)).toNat = w / 2 ^ (8 * i) % 2 ^ 8 := by
  unfold write64
  rw [if_pos ⟨by omega, by omega⟩, Nat.add_sub_cancel_left]
  simp [UInt8.toNat_ofNat']

/-- A stored word is read back. -/
lemma read64_write64 (hw : w < 2 ^ 64) : read64 (write64 m a w) a = w := by
  have hb : ∀ i, i < 8 → (write64 m a w (a + i)).toNat = w / 2 ^ (8 * i) % 2 ^ 8 :=
    fun i hi => write64_byte hi
  have h0 : (write64 m a w a).toNat = w / 2 ^ (8 * 0) % 2 ^ 8 := hb 0 (by omega)
  unfold read64
  rw [h0, hb 1 (by omega), hb 2 (by omega), hb 3 (by omega), hb 4 (by omega), hb 5 (by omega),
    hb 6 (by omega), hb 7 (by omega)]
  omega

/-- A write leaves the words that it does not meet. -/
lemma read64_write64_of_sep (h : b + 8 ≤ a ∨ a + 8 ≤ b) :
    read64 (write64 m a w) b = read64 m b :=
  read64_congr fun c _ _ => if_neg (by omega)

/-- Clearing leaves the words that it does not meet. -/
lemma read64_clear_of_sep (h : b + 8 ≤ a ∨ a + n ≤ b) :
    read64 (clear m a n) b = read64 m b :=
  read64_congr fun c _ _ => if_neg (by omega)

/-- A cleared word is zero. -/
lemma read64_clear (h : a ≤ b) (h' : b + 8 ≤ a + n) : read64 (clear m a n) b = 0 := by
  have hz : ∀ i, i < 8 → clear m a n (b + i) = 0 := fun i hi => if_pos ⟨by omega, by omega⟩
  have h0 : clear m a n b = 0 := hz 0 (by omega)
  unfold read64
  rw [h0, hz 1 (by omega), hz 2 (by omega), hz 3 (by omega), hz 4 (by omega), hz 5 (by omega),
    hz 6 (by omega), hz 7 (by omega)]
  rfl

end Reads

end Memory
