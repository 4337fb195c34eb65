import K0.Boot.FdtCorrect

set_option relaxedAutoImplicit false
set_option autoImplicit false

/-!
# The parser sees only the declared blocks

The parser reads the header, the memory reservations up to the pair of zeros, the structure block
and the strings block. What else the blob holds does not matter, nor does its length. This is not
evident from its reads: the branch of a property reads the length and the name offset before it
knows that they lie in the structure block, so it does look beyond the end of the block, but only if
the value would not end inside either, and then the property is rejected whatever was read.

## Main definitions

* `K0.Fdt.Alike`: two blobs agree on the declared blocks.

## Main results

* `K0.Fdt.prop_beyond`: a property that reaches beyond the structure block is rejected.
* `K0.Fdt.tokenLoop_congr`, `K0.Fdt.rsvLoop_congr`: the two loops on such blobs.
* `K0.Fdt.parseBlob_confined`: the parser has the same result for both.
-/

namespace K0.Fdt

open Bytes Word

variable {p q : List UInt8} {a b off : ℕ}

/-! ### Reads -/

/-- Two computations that begin alike and go on alike. -/
lemma bind_congr_ok {α β : Type} {x y : Except BootError α} {f g : α → Except BootError β}
    (hx : x = y) (h : ∀ v, y = .ok v → f v = g v) : (x >>= f) = (y >>= g) := by
  subst hx
  cases x with
  | error e => rfl
  | ok v => exact h v rfl

/-- A word that lies where the blobs agree. -/
lemma be32_congr (h : Agree p q a b) (ha : a ≤ off) (hb : off + 4 ≤ b) (hlt : off + 4 < 2 ^ 64) :
    be32 p off = be32 q off := by
  unfold be32
  rw [Nat.mod_eq_of_lt hlt, h.slice ha hb]

/-- A long word that lies where the blobs agree; one at an offset that does not fit is read in
neither. -/
lemma be64_congr (h : Agree p q a b) (ha : a ≤ off) (hb : off + 8 ≤ b) :
    be64 p off = be64 q off := by
  have hle : (off + 8) % 2 ^ 64 ≤ b := (Nat.mod_le _ _).trans hb
  unfold be64
  rw [h.slice ha hle]

/-- A read can fail in one way only. -/
lemma be32_error {e : BootError} (h : be32 p off = .error e) : e = .truncated := by
  unfold be32 at h
  split at h
  · exact (Except.error.inj h).symm
  · cases h

/-! ### Tokens -/

/-- Two readings of the same structure block, from `a` on, and the same strings block. -/
structure Blocks.Alike (a : ℕ) (d d' : Blocks) : Prop where
  structEnd : d'.structEnd = d.structEnd
  offStrings : d'.offStrings = d.offStrings
  stringsEnd : d'.stringsEnd = d.stringsEnd
  tokens : Agree d.blob d'.blob a d.structEnd
  strings : Agree d.blob d'.blob d.offStrings d.stringsEnd
  dvd : 4 ∣ d.structEnd
  structEnd_lt : d.structEnd < 2 ^ 63

section Tokens

variable {d d' : Blocks} {s s' : Scan}

/-- The name of a property. -/
lemma propName_congr (h : d.Alike a d') (nameOff : ℕ) :
    propName d' nameOff = propName d nameOff := by
  unfold propName
  rw [h.offStrings, h.stringsEnd]
  cases hstart : checkedAdd d.offStrings nameOff with
  | none => rfl
  | some start =>
    obtain ⟨-, rfl⟩ := checkedAdd_eq_some.mp hstart
    dsimp only
    by_cases hlt : d.offStrings + nameOff < d.stringsEnd
    · have htake := h.strings.take_drop (i := d.offStrings + nameOff)
        (n := d.stringsEnd - (d.offStrings + nameOff)) (by omega) (by omega)
      rw [if_pos hlt, if_pos hlt, ← htake]
      cases hfind : ((d.blob.drop (d.offStrings + nameOff)).take
          (d.stringsEnd - (d.offStrings + nameOff))).findIdx? (· == 0) with
      | none => rfl
      | some rel =>
        have hrel := (at_of_findIdx? h.strings.left hfind).2.2.2
        dsimp only
        rw [h.strings.take_drop (by omega) (by omega)]
    · rw [if_neg hlt, if_neg hlt]

/-- The begin of a node. -/
lemma beginNode_congr (h : d.Alike a d') (ha : a ≤ s.off) : beginNode d' s = beginNode d s := by
  unfold beginNode
  rw [h.structEnd, ← h.tokens.slice ha le_rfl]
  cases hs : slice d.blob s.off d.structEnd with
  | none => rfl
  | some rest =>
    dsimp only
    cases hfind : rest.findIdx? (· == 0) with
    | none => rfl
    | some rel =>
      have hrest : (d.blob.drop s.off).take (d.structEnd - s.off) = rest := by
        unfold slice at hs
        split_ifs at hs
        exact Option.some.inj hs
      rw [← hrest] at hfind
      have hrel := (at_of_findIdx? h.tokens.left hfind).2.2.2
      dsimp only
      rw [h.tokens.take_drop ha (by omega)]

/-- **Beyond the block.** A property whose length and name offset do not both lie in the structure
block is rejected, whatever is read there. -/
lemma prop_beyond (hdepth : s.depth ≠ 0) (hend : d.structEnd < s.off + 8) :
    prop d s = .error .truncated := by
  unfold prop
  rw [if_neg hdepth]
  cases hlen : be32 d.blob s.off with
  | error e =>
    obtain rfl := be32_error hlen
    rfl
  | ok len =>
    cases hname : be32 d.blob (s.off + 4) with
    | error e =>
      obtain rfl := be32_error hname
      rfl
    | ok nameOff =>
      dsimp only [bind, Except.bind]
      cases hv : checkedAdd (s.off + 8) len with
      | none => rfl
      | some valEnd =>
        obtain ⟨-, rfl⟩ := checkedAdd_eq_some.mp hv
        exact if_neg (by omega)

/-- A property. -/
lemma prop_congr (h : d.Alike a d') (ha : a ≤ s.off) : prop d' s = prop d s := by
  have hlt := h.structEnd_lt
  by_cases hdepth : s.depth = 0
  · unfold prop
    rw [if_pos hdepth, if_pos hdepth]
  by_cases hend : d.structEnd < s.off + 8
  · rw [prop_beyond hdepth hend, prop_beyond hdepth (by rw [h.structEnd]; exact hend)]
  unfold prop
  rw [if_neg hdepth, if_neg hdepth, h.structEnd]
  refine bind_congr_ok (be32_congr h.tokens ha (by omega) (by omega)).symm fun len _ => ?_
  refine bind_congr_ok (be32_congr h.tokens (by omega) (by omega) (by omega)).symm
    fun nameOff _ => ?_
  dsimp only
  cases hv : checkedAdd (s.off + 8) len with
  | none => rfl
  | some valEnd =>
    obtain ⟨-, rfl⟩ := checkedAdd_eq_some.mp hv
    refine ite_congr rfl (fun hle => ?_) fun _ => rfl
    refine bind_congr_ok (propName_congr h nameOff) fun name _ => ?_
    rw [h.tokens.take_drop (by omega) (by omega)]

/-- Where the token loop goes on is a multiple of four. -/
lemma dvd_of_prop (h : prop d s = .ok s') : 4 ∣ s'.off := by
  unfold prop at h
  split_ifs at h
  simp only [bind, Except.bind] at h
  split at h
  · cases h
  · split at h
    · cases h
    · split at h
      · cases h
      · split_ifs at h
        split at h
        · cases h
        · split at h
          · cases h
          · split at h
            · cases h
            · rename_i off hoff
              simp only [Except.ok.injEq] at h
              rw [← h]
              exact (align4_ok hoff).1

/-- Where the token loop goes on is a multiple of four. -/
lemma dvd_of_beginNode (h : beginNode d s = .ok s') : 4 ∣ s'.off := by
  unfold beginNode at h
  split_ifs at h
  split at h
  · cases h
  · split at h
    · cases h
    · dsimp only at h
      split_ifs at h
      split at h
      · cases h
      · rename_i off hoff
        simp only [Except.ok.injEq] at h
        rw [← h]
        exact (align4_ok hoff).1

/-- The token loop.

**Proof sketch.** Induction on the fuel. The offset stays a multiple of four, as the end of the
block is, so the next token lies in the block; the branches agree by the lemmas above, and they only
move forwards. -/
lemma tokenLoop_congr (h : d.Alike a d') {fuel : ℕ} (ha : a ≤ s.off) (h4 : 4 ∣ s.off) :
    tokenLoop d' fuel s = tokenLoop d fuel s := by
  induction fuel generalizing s with
  | zero => rfl
  | succ fuel ih =>
    have hlt := h.structEnd_lt
    have hdvd := h.dvd
    rw [tokenLoop, tokenLoop, h.structEnd]
    by_cases hend : d.structEnd ≤ s.off
    · rw [if_pos hend, if_pos hend]
    have ha' : a ≤ ({ s with off := s.off + 4 } : Scan).off := ha.trans (Nat.le_add_right _ 4)
    have h4' : 4 ∣ ({ s with off := s.off + 4 } : Scan).off := by
      change 4 ∣ s.off + 4
      omega
    rw [if_neg hend, if_neg hend]
    refine bind_congr_ok (be32_congr h.tokens ha (by omega) (by omega)).symm fun token _ => ?_
    refine ite_congr rfl (fun _ => ?_) fun _ => ite_congr rfl (fun _ => ?_) fun _ =>
      ite_congr rfl (fun _ => ?_) fun _ => ite_congr rfl (fun _ => ih ha' h4') fun _ => rfl
    · exact bind_congr_ok (beginNode_congr h ha') fun s' hb =>
        ih (ha'.trans (off_le_of_beginNode hb)) (dvd_of_beginNode hb)
    · refine bind_congr_ok rfl fun s' hb => ?_
      have hoff := off_eq_of_endNode hb
      exact ih (hoff ▸ ha') (hoff ▸ h4')
    · exact bind_congr_ok (prop_congr h ha') fun s' hb =>
        ih (ha'.trans (off_le_of_prop hb)) (dvd_of_prop hb)

/-- More fuel than there are bytes left changes nothing. -/
lemma tokenLoop_fuel_add (hfuel : d.structEnd ≤ s.off + b) (n : ℕ) :
    tokenLoop d (b + n) s = tokenLoop d b s := by
  induction n with
  | zero => rfl
  | succ n ih => rw [← Nat.add_assoc, tokenLoop_fuel d (by omega), ih]

/-- The token loop with the fuel of the parser, which is enough in both blobs. -/
lemma tokenLoop_alike (h : d.Alike s.off d') (h4 : 4 ∣ s.off) :
    tokenLoop d' (d'.blob.length + 1) s = tokenLoop d (d.blob.length + 1) s := by
  have hleft := h.tokens.left
  have hright := h.tokens.right
  have hend := h.structEnd
  rw [← tokenLoop_fuel_add (d := d') (by omega) (d.blob.length + 1),
    ← tokenLoop_fuel_add (d := d) (b := d.blob.length + 1) (by omega) (d'.blob.length + 1),
    Nat.add_comm (d'.blob.length + 1)]
  exact tokenLoop_congr h le_rfl h4

end Tokens

/-! ### Reservations -/

/-- The loop over the reservations, up to a pair of zeros.

**Proof sketch.** Induction on the number of pairs before the zeros; both runs have fuel for one
more pair than that. -/
lemma rsvLoop_congr {n fuel fuel' : ℕ} {info : BootInfo} (h : Agree p q off (off + 16 * (n + 1)))
    (hbase : be64 p (off + 16 * n) = .ok 0) (hsize : be64 p (off + 16 * n + 8) = .ok 0)
    (hf : n < fuel) (hf' : n < fuel') :
    rsvLoop q fuel' off info = rsvLoop p fuel off info := by
  induction n generalizing off fuel fuel' info with
  | zero =>
    obtain ⟨f, rfl⟩ := Nat.exists_eq_succ_of_ne_zero hf.ne'
    obtain ⟨f', rfl⟩ := Nat.exists_eq_succ_of_ne_zero hf'.ne'
    rw [Nat.mul_zero, Nat.add_zero] at hbase hsize
    rw [rsvLoop, rsvLoop, ← be64_congr h le_rfl (by omega),
      ← be64_congr h (Nat.le_add_right off 8) (by omega), hbase, hsize]
    rfl
  | succ n ih =>
    obtain ⟨f, rfl⟩ := Nat.exists_eq_succ_of_ne_zero (Nat.ne_zero_of_lt hf)
    obtain ⟨f', rfl⟩ := Nat.exists_eq_succ_of_ne_zero (Nat.ne_zero_of_lt hf')
    have hrest : Agree p q (off + 16) (off + 16 + 16 * (n + 1)) := h.mono (by omega) (by omega)
    rw [show off + 16 * (n + 1) = off + 16 + 16 * n by omega] at hbase hsize
    have hnext : ∀ info, rsvLoop q f' (off + 16) info = rsvLoop p f (off + 16) info :=
      fun info => ih hrest hbase hsize (by omega) (by omega)
    rw [rsvLoop, rsvLoop]
    refine bind_congr_ok (be64_congr h le_rfl (by omega)).symm fun base _ => ?_
    refine bind_congr_ok (be64_congr h (Nat.le_add_right off 8) (by omega)).symm fun size _ => ?_
    refine ite_congr rfl (fun _ => rfl) fun _ => ite_congr rfl (fun _ => hnext info) fun _ => ?_
    exact bind_congr_ok rfl fun info' _ => hnext info'

/-! ### The parser -/

/-- Two blobs agree on what the header declares: on the bytes 8 to 40 of the header, on the
structure block and the strings block, which lie in both, and on the pairs of the memory reservation
block up to a pair of zeros. -/
structure Alike (p q : List UInt8) : Prop where
  header : Agree p q 8 40
  tokens : ∀ off size, be32 p 8 = .ok off → be32 p 36 = .ok size → Agree p q off (off + size)
  strings : ∀ off size, be32 p 12 = .ok off → be32 p 32 = .ok size → Agree p q off (off + size)
  reservations : ∀ off, be32 p 16 = .ok off → ∃ n, Agree p q off (off + 16 * (n + 1)) ∧
    be64 p (off + 16 * n) = .ok 0 ∧ be64 p (off + 16 * n + 8) = .ok 0

/-- The end of a block that lies in both blobs. -/
lemma blockEnd_congr {o size o₁ o₂ : ℕ} (ho : be32 p o₁ = .ok o) (hsize : be32 p o₂ = .ok size)
    (h : Agree p q o (o + size)) : blockEnd q o size = blockEnd p o size := by
  have ho' := be32_lt ho
  have hsize' := be32_lt hsize
  unfold blockEnd
  rw [checkedAdd_of_lt (by omega)]
  dsimp only
  rw [if_pos h.left, if_pos h.right]

/-- **The parser's view is confined to the declared blocks.** Two blobs that agree on the header, on
the structure and strings blocks and on the reservations, which lie in both, have the same result,
be it the contents or the error, whatever their other bytes and lengths are.

**Proof sketch.** The header gives the same bounds. The loops go through the same reads by
`rsvLoop_congr` and `tokenLoop_congr`; the amount of fuel, which depends on the length, is enough in
both. -/
theorem parseBlob_confined (h : Alike p q) (dtb : Span) : parseBlob q dtb = parseBlob p dtb := by
  have hhead : ∀ off, 8 ≤ off → off + 4 ≤ 40 → be32 q off = be32 p off := fun off h1 h2 =>
    (be32_congr h.header h1 h2 (by omega)).symm
  unfold parseBlob
  refine bind_congr_ok (hhead 8 (by omega) (by omega)) fun offStruct h8 => ?_
  refine bind_congr_ok (hhead 12 (by omega) (by omega)) fun offStrings h12 => ?_
  refine bind_congr_ok (hhead 20 (by omega) (by omega)) fun version _ => ?_
  refine bind_congr_ok (hhead 24 (by omega) (by omega)) fun lastCompVersion _ => ?_
  refine bind_congr_ok (hhead 32 (by omega) (by omega)) fun sizeStrings h32 => ?_
  refine bind_congr_ok (hhead 36 (by omega) (by omega)) fun sizeStruct h36 => ?_
  refine ite_congr rfl (fun _ => rfl) fun _ => ?_
  refine ite_congr rfl (fun _ => rfl) fun halign => ?_
  have htokens := h.tokens _ _ h8 h36
  have hstrings := h.strings _ _ h12 h32
  refine bind_congr_ok (blockEnd_congr h8 h36 htokens) fun structEnd hstruct => ?_
  refine bind_congr_ok (blockEnd_congr h12 h32 hstrings) fun stringsEnd hstrs => ?_
  refine bind_congr_ok (hhead 16 (by omega) (by omega)) fun offRsvmap h16 => ?_
  refine ite_congr rfl (fun _ => rfl) fun _ => ?_
  obtain ⟨n, hagree, hbase, hsize⟩ := h.reservations _ h16
  have hleft := hagree.left
  have hright := hagree.right
  refine bind_congr_ok (rsvLoop_congr hagree hbase hsize (by omega) (by omega)) fun info _ => ?_
  obtain rfl := (blockEnd_ok hstruct).1
  obtain rfl := (blockEnd_ok hstrs).1
  have h8' := be32_lt h8
  have h36' := be32_lt h36
  refine bind_congr_ok (tokenLoop_alike ⟨rfl, rfl, rfl, htokens, hstrings, ?_, ?_⟩ ?_)
    fun _ _ => rfl
  · change 4 ∣ offStruct + sizeStruct
    omega
  · change offStruct + sizeStruct < 2 ^ 63
    omega
  · change 4 ∣ offStruct
    omega

/-- The blob of `oneBank` with another magic number and total size and more bytes at the end. -/
def oneBankOther : List UInt8 := word 7 ++ word 7 ++ oneBankBlob.drop 8 ++ [7, 7, 7]

/-- The hypothesis holds of the blob of `oneBank` and this one, so the parser reads the same bank
from both. -/
theorem parseBlob_confined_oneBank :
    Alike oneBankBlob oneBankOther ∧
      parseBlob oneBankOther ⟨0x48000000, 0x48000080⟩ =
        parseBlob oneBankBlob ⟨0x48000000, 0x48000080⟩ := by
  have hagree : ∀ a b, 8 ≤ a → b ≤ oneBankBlob.length → Agree oneBankBlob oneBankOther a b := by
    intro a b ha hb
    have hlen : oneBankBlob.length = 128 := by decide +kernel
    have hother : oneBankOther.length = 131 := by decide +kernel
    have htake : oneBankOther.drop 8 = oneBankBlob.drop 8 ++ [7, 7, 7] := by decide +kernel
    refine ⟨hb, by omega, fun i hi hi' => ?_⟩
    obtain ⟨j, rfl⟩ : ∃ j, i = 8 + j := ⟨i - 8, by omega⟩
    rw [← List.getElem?_drop, ← List.getElem?_drop, htake, List.getElem?_append_left]
    rw [List.length_drop]
    omega
  have hlike : Alike oneBankBlob oneBankOther := by
    have hoff : ∀ {off n m : ℕ}, be32 oneBankBlob off = .ok n → be32 oneBankBlob off = .ok m →
        n = m :=
      fun h h' => Except.ok.inj (h.symm.trans h')
    have h8 : be32 oneBankBlob 8 = .ok 56 := by decide +kernel
    have h12 : be32 oneBankBlob 12 = .ok 124 := by decide +kernel
    have h16 : be32 oneBankBlob 16 = .ok 40 := by decide +kernel
    have h32 : be32 oneBankBlob 32 = .ok 4 := by decide +kernel
    have h36 : be32 oneBankBlob 36 = .ok 68 := by decide +kernel
    refine ⟨hagree 8 40 le_rfl (by decide +kernel), ?_, ?_, ?_⟩
    · intro off size h h'
      obtain rfl := hoff h h8
      obtain rfl := hoff h' h36
      exact hagree _ _ (by omega) (by decide +kernel)
    · intro off size h h'
      obtain rfl := hoff h h12
      obtain rfl := hoff h' h32
      exact hagree _ _ (by omega) (by decide +kernel)
    · intro off h
      obtain rfl := hoff h h16
      exact ⟨0, hagree _ _ (by omega) (by decide +kernel), by decide +kernel, by decide +kernel⟩
  exact ⟨hlike, parseBlob_confined hlike _⟩

end K0.Fdt
