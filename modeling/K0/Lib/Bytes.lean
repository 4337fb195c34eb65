import Mathlib.Data.List.Induction
import Mathlib.Tactic.Linarith

set_option relaxedAutoImplicit false
set_option autoImplicit false

/-!
# Byte strings

Slices of byte strings, big-endian numbers, and the relation that some bytes occur at an offset
of a longer string. A format that is described by such occurrences is read back by the slices at
the same offsets.

## Main definitions

* `Bytes.slice`: the bytes between two offsets, if the offsets are in order and in bounds.
* `Bytes.patch`: a string with some bytes overwritten.
* `Bytes.fromBeBytes`, `Bytes.beBytes`: big-endian decoding and encoding.
* `Bytes.At`: some bytes occur at an offset.
* `Bytes.Agree`: two strings have the same bytes between two offsets.

## Main results

* `Bytes.fromBeBytes_beBytes`, `Bytes.beBytes_fromBeBytes`: decoding and encoding are inverse.
* `Bytes.At.slice`: a slice reads the bytes that occur at its offset.
* `Bytes.findIdx?_nul`, `Bytes.split_of_findIdx?_nul`: the first NUL ends a NUL-free string.
* `Bytes.Agree.slice`: slices where two strings agree are the same.
-/

namespace Bytes

/-- The bytes from `a` up to `b`. -/
def slice (blob : List UInt8) (a b : ℕ) : Option (List UInt8) :=
  if a ≤ b ∧ b ≤ blob.length then some ((blob.drop a).take (b - a)) else none

/-- Overwrite the bytes at an offset, if they are in bounds. -/
def patch (blob : List UInt8) (off : ℕ) (bs : List UInt8) : Option (List UInt8) :=
  if off + bs.length ≤ blob.length then
    some (blob.take off ++ bs ++ blob.drop (off + bs.length))
  else none

/-- The number with the given bytes, most significant first. -/
def fromBeBytes (bs : List UInt8) : ℕ := bs.foldl (fun acc b => acc * 256 + b.toNat) 0

/-- The `k` bytes of a number, most significant first. -/
def beBytes : ℕ → ℕ → List UInt8
  | 0, _ => []
  | k + 1, n => beBytes k (n / 256) ++ [UInt8.ofNat n]

/-- Some bytes occur at an offset. -/
def At (blob : List UInt8) (off : ℕ) (bs : List UInt8) : Prop :=
  ∃ before after, blob = before ++ bs ++ after ∧ before.length = off

/-! ### Big-endian numbers -/

/-- The last byte is the least significant one. -/
lemma fromBeBytes_concat (bs : List UInt8) (b : UInt8) :
    fromBeBytes (bs ++ [b]) = fromBeBytes bs * 256 + b.toNat := by
  simp [fromBeBytes, List.foldl_append]

/-- A string of `n` bytes is a number below `256 ^ n`. -/
lemma fromBeBytes_lt (bs : List UInt8) : fromBeBytes bs < 256 ^ bs.length := by
  induction bs using List.reverseRecOn with
  | nil => simp [fromBeBytes]
  | append_singleton bs b ih =>
    have hb := b.toNat_lt
    rw [fromBeBytes_concat, List.length_append, List.length_singleton, pow_succ]
    omega

@[simp] lemma length_beBytes (k n : ℕ) : (beBytes k n).length = k := by
  induction k generalizing n with
  | zero => rfl
  | succ k ih => simp [beBytes, ih]

/-- Decoding is a left inverse of encoding on the numbers that fit. -/
lemma fromBeBytes_beBytes {k n : ℕ} (h : n < 256 ^ k) : fromBeBytes (beBytes k n) = n := by
  induction k generalizing n with
  | zero =>
    have h0 : n = 0 := by simpa using h
    simp [beBytes, fromBeBytes, h0]
  | succ k ih =>
    have hq : n / 256 < 256 ^ k := by
      rw [pow_succ] at h
      exact Nat.div_lt_of_lt_mul (by linarith)
    have hb : (UInt8.ofNat n).toNat = n % 256 := by simp [UInt8.toNat_ofNat']
    rw [beBytes, fromBeBytes_concat, ih hq, hb]
    omega

/-- Encoding is a left inverse of decoding on strings of the right length. -/
lemma beBytes_fromBeBytes (bs : List UInt8) : beBytes bs.length (fromBeBytes bs) = bs := by
  induction bs using List.reverseRecOn with
  | nil => rfl
  | append_singleton bs b ih =>
    have hb := b.toNat_lt
    have hq : (fromBeBytes bs * 256 + b.toNat) / 256 = fromBeBytes bs := by omega
    have hr : UInt8.ofNat (fromBeBytes bs * 256 + b.toNat) = b := by
      apply UInt8.toNat_inj.mp
      rw [UInt8.toNat_ofNat']
      omega
    rw [List.length_append, List.length_singleton, beBytes, fromBeBytes_concat, hq, hr, ih]

/-! ### Occurrences -/

section Occurrences

variable {blob bs cs : List UInt8} {off o : ℕ}

/-- An occurrence lies inside the string. -/
lemma At.le (h : At blob off bs) : off + bs.length ≤ blob.length := by
  obtain ⟨before, after, rfl, rfl⟩ := h
  simp only [List.length_append]
  omega

/-- The bytes at the offset. -/
lemma At.take_drop (h : At blob off bs) : (blob.drop off).take bs.length = bs := by
  obtain ⟨before, after, rfl, rfl⟩ := h
  simp

/-- A slice reads an occurrence. -/
lemma At.slice (h : At blob off bs) : Bytes.slice blob off (off + bs.length) = some bs := by
  have hle := h.le
  unfold Bytes.slice
  rw [if_pos ⟨by omega, hle⟩, Nat.add_sub_cancel_left, h.take_drop]

/-- What a slice reads occurs there. -/
lemma At.of_slice (h : Bytes.slice blob off (off + bs.length) = some bs) : At blob off bs := by
  unfold Bytes.slice at h
  split_ifs at h with hc
  rw [Nat.add_sub_cancel_left, Option.some.injEq] at h
  refine ⟨blob.take off, (blob.drop off).drop bs.length, ?_, ?_⟩
  · calc blob = blob.take off ++ blob.drop off := (List.take_append_drop off blob).symm
      _ = blob.take off ++
          ((blob.drop off).take bs.length ++ (blob.drop off).drop bs.length) := by
        rw [List.take_append_drop bs.length (blob.drop off)]
      _ = blob.take off ++ bs ++ (blob.drop off).drop bs.length := by rw [h, List.append_assoc]
  · rw [List.length_take]
    omega

/-- The first part of an occurrence. -/
lemma At.left (h : At blob off (bs ++ cs)) : At blob off bs := by
  obtain ⟨before, after, rfl, hoff⟩ := h
  exact ⟨before, cs ++ after, by simp, hoff⟩

/-- The second part of an occurrence. -/
lemma At.right (h : At blob off (bs ++ cs)) : At blob (off + bs.length) cs := by
  obtain ⟨before, after, rfl, hoff⟩ := h
  exact ⟨before ++ bs, after, by simp, by simp [hoff]⟩

/-- An occurrence inside an occurrence. -/
lemma At.trans (h : At blob off bs) (h' : At bs o cs) : At blob (off + o) cs := by
  obtain ⟨before, after, rfl, rfl⟩ := h
  obtain ⟨before', after', rfl, rfl⟩ := h'
  exact ⟨before ++ before', after' ++ after, by simp, by simp⟩

/-- What a slice with given bounds reads occurs at its start. -/
lemma At.of_slice_eq {stop : ℕ} (h : Bytes.slice blob off stop = some bs) :
    At blob off bs ∧ stop = off + bs.length := by
  unfold Bytes.slice at h
  split_ifs at h with hc
  have hlen : bs.length = stop - off := by
    rw [← Option.some.inj h, List.length_take, List.length_drop]
    omega
  have hstop : stop = off + bs.length := by omega
  refine ⟨At.of_slice ?_, hstop⟩
  unfold Bytes.slice
  rw [← hstop, if_pos hc]
  exact h

/-- Two occurrences that touch are one. -/
lemma At.append (h : At blob off bs) (h' : At blob (off + bs.length) cs) :
    At blob off (bs ++ cs) := by
  have h1 := h.take_drop
  have h2 := h'.take_drop
  have hle := h'.le
  apply At.of_slice
  unfold Bytes.slice
  rw [if_pos ⟨by omega, by rw [List.length_append]; omega⟩, Option.some.injEq,
    Nat.add_sub_cancel_left, List.length_append, List.take_add, h1, List.drop_drop, h2]

/-- Some bytes inside a string occur where they are. -/
lemma exists_at {len : ℕ} (h : off + len ≤ blob.length) :
    ∃ bs : List UInt8, bs.length = len ∧ At blob off bs := by
  refine ⟨(blob.drop off).take len, ?_, ?_⟩
  · rw [List.length_take, List.length_drop]
    omega
  · apply At.of_slice
    unfold Bytes.slice
    rw [List.length_take, List.length_drop, Nat.min_eq_left (by omega),
      if_pos ⟨by omega, h⟩, Nat.add_sub_cancel_left]

/-- The first NUL splits a string. -/
lemma split_of_findIdx?_nul {rel : ℕ} (h : bs.findIdx? (· == 0) = some rel) :
    0 ∉ bs.take rel ∧ ∃ after, bs = bs.take rel ++ [0] ++ after := by
  induction bs generalizing rel with
  | nil => simp at h
  | cons b bs ih =>
    rw [List.findIdx?_cons] at h
    split at h
    · rename_i hb
      obtain rfl : rel = 0 := (Option.some.inj h).symm
      obtain rfl : b = 0 := by simpa using hb
      exact ⟨by simp, bs, by simp⟩
    · rename_i hb
      obtain ⟨k, hk, rfl⟩ := Option.map_eq_some_iff.mp h
      obtain ⟨hnul, after, hbs⟩ := ih hk
      have hb' : b ≠ 0 := by simpa using hb
      refine ⟨?_, after, ?_⟩
      · rw [List.take_succ_cons, List.mem_cons]
        rintro (h0 | h0)
        · exact hb' h0.symm
        · exact hnul h0
      · rw [List.take_succ_cons, List.cons_append, List.cons_append, ← hbs]

/-- The string up to the first NUL of a range. -/
lemma at_of_findIdx? {stop rel : ℕ} (hstop : stop ≤ blob.length)
    (h : ((blob.drop off).take (stop - off)).findIdx? (· == 0) = some rel) :
    At blob off ((blob.drop off).take rel ++ [0]) ∧ 0 ∉ (blob.drop off).take rel ∧
      ((blob.drop off).take rel).length = rel ∧ off + rel < stop := by
  obtain ⟨hnul, after, hsplit⟩ := split_of_findIdx?_nul h
  have hrel := (List.findIdx?_eq_some_iff_getElem.mp h).1
  rw [List.length_take, List.length_drop] at hrel
  have htake : ((blob.drop off).take (stop - off)).take rel = (blob.drop off).take rel := by
    rw [List.take_take, Nat.min_eq_left (by omega)]
  rw [htake] at hnul hsplit
  refine ⟨⟨blob.take off, after ++ (blob.drop off).drop (stop - off), ?_, ?_⟩, hnul, ?_, by omega⟩
  · have hrest : (blob.drop off).take rel ++ [0] ++ after ++ (blob.drop off).drop (stop - off) =
        blob.drop off := by
      rw [← hsplit, List.take_append_drop]
    rw [List.append_assoc, ← List.append_assoc _ after, hrest, List.take_append_drop]
  · rw [List.length_take]
    omega
  · rw [List.length_take, List.length_drop]
    omega

/-- The first NUL after a NUL-free string is its end. -/
lemma findIdx?_nul (h : 0 ∉ bs) : (bs ++ 0 :: cs).findIdx? (· == 0) = some bs.length := by
  induction bs with
  | nil => simp [List.findIdx?_cons]
  | cons b bs ih =>
    have hb : b ≠ 0 := fun e => h (by simp [e])
    have hrest : 0 ∉ bs := fun hm => h (List.mem_cons_of_mem _ hm)
    simp [List.findIdx?_cons, hb, ih hrest]

/-- The first NUL in a range that contains a NUL-terminated string. -/
lemma At.findIdx?_nul {stop : ℕ} (h : At blob off (bs ++ [0])) (hnul : 0 ∉ bs)
    (hstop : off + bs.length < stop) :
    ((blob.drop off).take (stop - off)).findIdx? (· == 0) = some bs.length := by
  obtain ⟨before, after, rfl, rfl⟩ := h
  obtain ⟨n, hn⟩ : ∃ n, stop - before.length = bs.length + (n + 1) :=
    ⟨stop - before.length - bs.length - 1, by omega⟩
  have hdrop : (before ++ (bs ++ [0]) ++ after).drop before.length = bs ++ 0 :: after := by simp
  rw [hdrop, hn, List.take_length_add_append, List.take_succ_cons]
  exact Bytes.findIdx?_nul hnul

end Occurrences

/-! ### Single bytes -/

/-- The bytes of a slice. -/
lemma slice_eq_some {blob bs : List UInt8} {a b : ℕ} (h : slice blob a b = some bs) :
    a ≤ b ∧ b ≤ blob.length ∧ bs.length = b - a ∧ ∀ j < b - a, bs[j]? = blob[a + j]? := by
  unfold slice at h
  by_cases hc : a ≤ b ∧ b ≤ blob.length
  · rw [if_pos hc] at h
    obtain rfl := Option.some.inj h
    refine ⟨hc.1, hc.2, ?_, fun j hj => ?_⟩
    · rw [List.length_take, List.length_drop]
      omega
    · rw [List.getElem?_take_of_lt hj, List.getElem?_drop]
  · rw [if_neg hc] at h
    cases h

/-- The bytes after some were overwritten. -/
lemma patch_eq_some {blob bs blob' : List UInt8} {off : ℕ} (h : patch blob off bs = some blob') :
    off + bs.length ≤ blob.length ∧ blob'.length = blob.length ∧
      ∀ j, blob'[j]? = if off ≤ j ∧ j < off + bs.length then bs[j - off]? else blob[j]? := by
  unfold patch at h
  by_cases hc : off + bs.length ≤ blob.length
  · rw [if_pos hc] at h
    obtain rfl := Option.some.inj h
    have hlen : (blob.take off).length = off := by
      rw [List.length_take]
      omega
    refine ⟨hc, ?_, fun j => ?_⟩
    · simp only [List.length_append, List.length_drop, hlen]
      omega
    · by_cases h1 : j < off
      · rw [if_neg (by omega), List.append_assoc, List.getElem?_append_left (by omega),
          List.getElem?_take_of_lt h1]
      · by_cases h2 : j < off + bs.length
        · rw [if_pos (by omega), List.append_assoc, List.getElem?_append_right (by omega), hlen,
            List.getElem?_append_left (by omega)]
        · rw [if_neg (by omega),
            List.getElem?_append_right (by simp only [List.length_append]; omega),
            List.getElem?_drop, List.length_append, hlen]
          congr 1
          omega
  · rw [if_neg hc] at h
    cases h

/-! ### Two strings -/

/-- Two strings have the same bytes from `a` up to `b`, and both reach that far. -/
structure Agree (p q : List UInt8) (a b : ℕ) : Prop where
  left : b ≤ p.length
  right : b ≤ q.length
  eq : ∀ i, a ≤ i → i < b → p[i]? = q[i]?

namespace Agree

variable {p q : List UInt8} {a b i j n : ℕ}

/-- Agreement on a part. -/
lemma mono (h : Agree p q a b) (hi : a ≤ i) (hj : j ≤ b) : Agree p q i j :=
  ⟨hj.trans h.left, hj.trans h.right, fun l hl hl' => h.eq l (hi.trans hl) (hl'.trans_le hj)⟩

/-- The same bytes from an offset on. -/
lemma take_drop (h : Agree p q a b) (hi : a ≤ i) (hn : i + n ≤ b) :
    (p.drop i).take n = (q.drop i).take n := by
  apply List.ext_getElem?
  intro l
  by_cases hl : l < n
  · rw [List.getElem?_take_of_lt hl, List.getElem?_take_of_lt hl, List.getElem?_drop,
      List.getElem?_drop]
    exact h.eq (i + l) (by omega) (by omega)
  · rw [List.getElem?_take_eq_none (by omega), List.getElem?_take_eq_none (by omega)]

/-- The same slices. -/
lemma slice (h : Agree p q a b) (hi : a ≤ i) (hj : j ≤ b) :
    Bytes.slice p i j = Bytes.slice q i j := by
  have hp := h.left
  have hq := h.right
  unfold Bytes.slice
  by_cases hij : i ≤ j
  · rw [if_pos ⟨hij, by omega⟩, if_pos ⟨hij, by omega⟩, h.take_drop hi (by omega)]
  · rw [if_neg (fun hc => hij hc.1), if_neg (fun hc => hij hc.1)]

end Agree

end Bytes
