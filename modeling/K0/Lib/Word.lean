import Mathlib.Data.Nat.Bitwise
import Mathlib.Tactic.Linarith

set_option relaxedAutoImplicit false
set_option autoImplicit false

/-!
# Unsigned 64-bit arithmetic on the naturals

Machine addresses and descriptor words are natural numbers here. An addition that the program
checks is `Word.checkedAdd`, which fails exactly when the sum leaves the 64-bit range; the
clearing of low bits `x & !(g - 1)` is `Word.maskDown`. For a power of two `g` the mask rounds
down to a multiple of `g`, and masking after adding `g - 1` rounds up.

## Main definitions

* `Word.checkedAdd`, `Word.checkedMul`: arithmetic that fails on 64-bit overflow.
* `Word.maskDown`: `x & !(g - 1)` on 64-bit words.
* `Word.roundUp`: the least multiple of `g` not below `x`.
* `Word.Sep`: two half-open intervals `[a, a + m)` and `[b, b + n)` do not meet.

## Main results

* `Word.maskDown_eq`: for `g = 2 ^ k` the mask is `x / g * g`.
* `Word.roundUp_le_iff`: rounding up is left adjoint to the inclusion of the multiples of `g`.
* `Word.and_mask_eq_self`: an aligned `n`-bit value survives the mask of bits `[k, n)`.
-/

namespace Word

/-- Addition of two 64-bit values that fails on overflow. -/
def checkedAdd (a b : ℕ) : Option ℕ := if a + b < 2 ^ 64 then some (a + b) else none

/-- Multiplication of two 64-bit values that fails on overflow. -/
def checkedMul (a b : ℕ) : Option ℕ := if a * b < 2 ^ 64 then some (a * b) else none

/-- A checked multiplication succeeds exactly below `2 ^ 64`, with the exact product. -/
lemma checkedMul_eq_some {a b c : ℕ} : checkedMul a b = some c ↔ a * b < 2 ^ 64 ∧ c = a * b := by
  unfold checkedMul
  split_ifs with h
  · simp only [Option.some.injEq]
    exact ⟨fun e => ⟨h, e.symm⟩, fun e => e.2.symm⟩
  · exact ⟨fun e => absurd e (by simp), fun e => absurd e.1 h⟩

/-- A checked addition succeeds exactly below `2 ^ 64`, with the exact sum. -/
lemma checkedAdd_eq_some {a b c : ℕ} : checkedAdd a b = some c ↔ a + b < 2 ^ 64 ∧ c = a + b := by
  unfold checkedAdd
  split_ifs with h
  · simp only [Option.some.injEq]
    exact ⟨fun e => ⟨h, e.symm⟩, fun e => e.2.symm⟩
  · exact ⟨fun e => absurd e (by simp), fun e => absurd e.1 h⟩

/-- A checked addition fails exactly on overflow. -/
lemma checkedAdd_eq_none {a b : ℕ} : checkedAdd a b = none ↔ 2 ^ 64 ≤ a + b := by
  unfold checkedAdd
  split_ifs with h
  · simpa using h
  · simpa using h

/-- A checked addition has no result exactly on overflow. -/
lemma checkedAdd_isNone {a b : ℕ} : (checkedAdd a b).isNone ↔ 2 ^ 64 ≤ a + b := by
  rw [Option.isNone_iff_eq_none, checkedAdd_eq_none]

/-- A checked addition below the limit returns the sum. -/
lemma checkedAdd_of_lt {a b : ℕ} (h : a + b < 2 ^ 64) : checkedAdd a b = some (a + b) :=
  if_pos h

/-- The 64-bit word `x & !(g - 1)`. -/
def maskDown (g x : ℕ) : ℕ := x &&& (2 ^ 64 - g)

/-- Bit `i` of the mask with ones exactly at the positions `[k, n)`. -/
lemma testBit_mask {k n : ℕ} (hk : k ≤ n) (i : ℕ) :
    (2 ^ n - 2 ^ k).testBit i = (decide (k ≤ i) && decide (i < n)) := by
  have h1 : 2 ^ k - 1 < 2 ^ n :=
    lt_of_lt_of_le (Nat.sub_lt (Nat.two_pow_pos k) one_pos) (Nat.pow_le_pow_right two_pos hk)
  have h2 : 2 ^ n - 2 ^ k = 2 ^ n - ((2 ^ k - 1) + 1) := by
    rw [Nat.sub_add_cancel (Nat.two_pow_pos k)]
  rw [h2, Nat.testBit_two_pow_sub_succ h1, Nat.testBit_two_pow_sub_one]
  by_cases hik : i < k
  · simp [hik, Nat.not_le.mpr hik]
  · simp [hik, Nat.not_lt.mp hik, Bool.and_comm]

/-- Masking an `n`-bit value with the bits `[k, n)` clears its low `k` bits. -/
lemma and_mask_eq {k n x : ℕ} (hk : k ≤ n) (hx : x < 2 ^ n) :
    x &&& (2 ^ n - 2 ^ k) = x / 2 ^ k * 2 ^ k := by
  apply Nat.eq_of_testBit_eq
  intro i
  rw [Nat.testBit_and, testBit_mask hk, Nat.testBit_mul_two_pow, Nat.testBit_div_two_pow]
  by_cases hki : k ≤ i
  · rw [show i - k + k = i by omega]
    by_cases hin : i < n
    · simp [hki, hin]
    · have hlt : x < 2 ^ i := lt_of_lt_of_le hx (Nat.pow_le_pow_right two_pos (by omega))
      simp [hki, hin, Nat.testBit_lt_two_pow hlt]
  · simp [hki]

/-- An `n`-bit multiple of `2 ^ k` survives the mask of the bits `[k, n)`. -/
lemma and_mask_eq_self {k n x : ℕ} (hk : k ≤ n) (hx : x < 2 ^ n) (hd : 2 ^ k ∣ x) :
    x &&& (2 ^ n - 2 ^ k) = x := by
  rw [and_mask_eq hk hx, Nat.div_mul_cancel hd]

/-- For a power of two the mask rounds down. -/
lemma maskDown_eq {k x : ℕ} (hk : k ≤ 64) (hx : x < 2 ^ 64) :
    maskDown (2 ^ k) x = x / 2 ^ k * 2 ^ k :=
  and_mask_eq hk hx

/-- The least multiple of `g` not below `x`. -/
def roundUp (g x : ℕ) : ℕ := (x + (g - 1)) / g * g

/-- The rounded-up value is a multiple of `g`. -/
lemma dvd_roundUp (g x : ℕ) : g ∣ roundUp g x := Dvd.intro_left _ rfl

/-- Among the multiples of `g`, those not below the rounded-up value are those not below `x`. -/
lemma roundUp_le_iff {g x y : ℕ} (hg : 0 < g) (hy : g ∣ y) : roundUp g x ≤ y ↔ x ≤ y := by
  obtain ⟨q, rfl⟩ := hy
  have hc : g * q = q * g := mul_comm g q
  rw [roundUp, hc, Nat.mul_le_mul_right_iff hg, Nat.div_le_iff_le_mul_add_pred hg]
  omega

/-- The rounded-up value is not below `x`. -/
lemma le_roundUp {g x : ℕ} (hg : 0 < g) : x ≤ roundUp g x :=
  (roundUp_le_iff hg (dvd_roundUp g x)).mp le_rfl

/-- The rounded-up value exceeds `x` by less than `g`. -/
lemma roundUp_lt {g x : ℕ} (hg : 0 < g) : roundUp g x < x + g := by
  have := Nat.div_mul_le_self (x + (g - 1)) g
  unfold roundUp
  omega

/-- The half-open intervals `[a, a + m)` and `[b, b + n)` do not meet. -/
def Sep (a m b n : ℕ) : Prop := a + m ≤ b ∨ b + n ≤ a

instance (a m b n : ℕ) : Decidable (Sep a m b n) := inferInstanceAs (Decidable (_ ∨ _))

/-- Separation is symmetric. -/
lemma Sep.symm {a m b n : ℕ} (h : Sep a m b n) : Sep b n a m := Or.symm h

/-- Separation passes to a subinterval on the left. -/
lemma Sep.mono_left {a m b n a' m' : ℕ} (h : Sep a m b n) (h1 : a ≤ a') (h2 : a' + m' ≤ a + m) :
    Sep a' m' b n := by
  unfold Sep at *
  omega

/-- Separation passes to subintervals on both sides. -/
lemma Sep.mono {a m b n a' m' b' n' : ℕ} (h : Sep a m b n) (h1 : a ≤ a') (h2 : a' + m' ≤ a + m)
    (h3 : b ≤ b') (h4 : b' + n' ≤ b + n) : Sep a' m' b' n' := by
  unfold Sep at *
  omega

end Word
