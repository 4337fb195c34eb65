import K0.Boot.FdtTree

set_option relaxedAutoImplicit false
set_option autoImplicit false

/-!
# The token loop on flattened trees

The byte level of the parser. `Scan.token` is what one token means to the mutable context of the
token loop, apart from its place in the blob; on a structure block that encodes a sequence of
tokens, the token loop computes the fold of these meanings.

## Main definitions

* `K0.Fdt.Scan.token`, `K0.Fdt.Scan.tokens`: the meaning of a token and of a sequence.

## Main results

* `K0.Fdt.tokenLoop_encoded`: the token loop computes the meaning of the encoded tokens.
* `K0.Fdt.rsvLoop_encoded`: the reservation loop reads the encoded reservations.
* `K0.Fdt.tokenLoop_fuel`, `K0.Fdt.rsvLoop_fuel`: the initial fuel suffices.
-/

namespace K0.Fdt

open Word Bytes

/-! ### Reading words -/

section Words

variable {blob : List UInt8} {off n : ℕ}

@[simp] lemma length_word (n : ℕ) : (word n).length = 4 := length_beBytes 4 n

@[simp] lemma length_dword (n : ℕ) : (dword n).length = 8 := length_beBytes 8 n

/-- An encoded 32-bit word is read back. -/
lemma be32_word (h : At blob off (word n)) (hn : n < 2 ^ 32) (hlen : blob.length < 2 ^ 32) :
    be32 blob off = .ok n := by
  have hle := h.le
  have hs := h.slice
  rw [length_word] at hle hs
  have hmod : (off + 4) % 2 ^ 64 = off + 4 := Nat.mod_eq_of_lt (by omega)
  rw [be32, hmod, hs]
  exact congrArg _ (fromBeBytes_beBytes (by omega))

/-- An encoded 64-bit word is read back. -/
lemma be64_dword (h : At blob off (dword n)) (hn : n < 2 ^ 64) (hlen : blob.length < 2 ^ 32) :
    be64 blob off = .ok n := by
  have hle := h.le
  have hs := h.slice
  rw [length_dword] at hle hs
  have hmod : (off + 8) % 2 ^ 64 = off + 8 := Nat.mod_eq_of_lt (by omega)
  rw [be64, hmod, hs]
  exact congrArg _ (fromBeBytes_beBytes (by omega))

/-- Aligning finds the multiple of four within reach. -/
lemma align4_eq {m : ℕ} (h4 : 4 ∣ m) (hle : n ≤ m) (hlt : m < n + 4) (hm : m < 2 ^ 32) :
    align4 n = .ok m := by
  rw [align4, checkedAdd_of_lt (by omega)]
  have hmask : maskDown 4 (n + 3) = (n + 3) / 4 * 4 :=
    maskDown_eq (k := 2) (by omega) (by omega)
  simp only [hmask, Except.ok.injEq]
  omega

/-- A word that was read is below `2 ^ 32`. -/
lemma be32_lt (h : be32 blob off = .ok n) : n < 2 ^ 32 := by
  unfold be32 at h
  split at h
  · cases h
  · rename_i bs hs
    have hlen := (slice_eq_some hs).2.2.1
    have hbytes : bs.length ≤ 4 := by
      have hmod := Nat.mod_le (off + 4) (2 ^ 64)
      omega
    obtain rfl := Except.ok.inj h
    calc fromBeBytes bs < 256 ^ bs.length := fromBeBytes_lt bs
      _ ≤ 256 ^ 4 := Nat.pow_le_pow_right (by decide) hbytes
      _ = 2 ^ 32 := by decide

/-- A word that was read is there. -/
lemma be32_at (h : be32 blob off = .ok n) (hlen : blob.length < 2 ^ 63) :
    At blob off (word n) := by
  unfold be32 at h
  split at h
  · cases h
  · rename_i b hb
    obtain ⟨hat, hstop⟩ := At.of_slice_eq hb
    have hle := hat.le
    have hblen : b.length = 4 := by omega
    have hword : word (fromBeBytes b) = b := by
      have := beBytes_fromBeBytes b
      rwa [hblen] at this
    obtain rfl := Except.ok.inj h
    rw [hword]
    exact hat

/-- A double word that was read is there. -/
lemma be64_at (h : be64 blob off = .ok n) (hlen : blob.length < 2 ^ 63) :
    At blob off (dword n) ∧ n < 2 ^ 64 := by
  unfold be64 at h
  split at h
  · cases h
  · rename_i b hb
    obtain ⟨hat, hstop⟩ := At.of_slice_eq hb
    have hle := hat.le
    have hblen : b.length = 8 := by omega
    have hword : dword (fromBeBytes b) = b := by
      have := beBytes_fromBeBytes b
      rwa [hblen] at this
    obtain rfl := Except.ok.inj h
    have hlt := fromBeBytes_lt b
    rw [hblen] at hlt
    rw [hword]
    exact ⟨hat, by simpa using hlt⟩

/-- Aligning finds the next multiple of four. -/
lemma align4_ok {m : ℕ} (h : align4 n = .ok m) : 4 ∣ m ∧ n ≤ m ∧ m < n + 4 := by
  unfold align4 at h
  split at h
  · cases h
  · rename_i v hv
    obtain ⟨hlt, rfl⟩ := checkedAdd_eq_some.mp hv
    have hmask : maskDown 4 (n + 3) = (n + 3) / 4 * 4 :=
      maskDown_eq (k := 2) (by omega) (by omega)
    obtain rfl := Except.ok.inj h
    rw [hmask]
    omega

/-- The end of a block that was accepted lies in the blob. -/
lemma blockEnd_ok {size e : ℕ} (h : blockEnd blob off size = .ok e) :
    e = off + size ∧ off + size ≤ blob.length := by
  unfold blockEnd at h
  split at h
  · cases h
  · rename_i e' he
    obtain ⟨-, rfl⟩ := checkedAdd_eq_some.mp he
    split_ifs at h with hle
    exact ⟨(Except.ok.inj h).symm, hle⟩

end Words

/-! ### The meaning of a token -/

/-- Move the context to another offset. -/
def Scan.moveTo (s : Scan) (off : ℕ) : Scan := { s with off := off }

/-- What a token does to the context, apart from its offset. -/
def Scan.token (s : Scan) : Token → Except BootError Scan
  | .beginNode name =>
    if s.depth + 1 > maxDepth then .error .tooDeep
    else if s.depth + 1 = 1 ∧ name ≠ [] then .error .badStructure
    else .ok (s.enter name)
  | .endNode => endNode s
  | .prop p => if s.depth = 0 then .error .badStructure else s.read p.name p.value
  | .nop => .ok s

/-- What a sequence of tokens does to the context. -/
def Scan.tokens : List Token → Scan → Except BootError Scan
  | [], s => .ok s
  | t :: ts, s =>
    match s.token t with
    | .error e => .error e
    | .ok s => Scan.tokens ts s

section Move

variable (s : Scan) (off : ℕ)

/-- Entering a node does not look at the offset. -/
lemma Scan.enter_moveTo (name : List UInt8) :
    (s.moveTo off).enter name = (s.enter name).moveTo off := by
  unfold Scan.enter Scan.moveTo
  dsimp only
  split_ifs <;> rfl

/-- Leaving a node does not look at the offset. -/
lemma Scan.leave_moveTo : (s.moveTo off).leave = s.leave.moveTo off := by
  unfold Scan.leave Scan.moveTo
  dsimp only
  split_ifs <;> rfl

/-- Reading a property does not look at the offset. -/
lemma Scan.read_moveTo (name value : List UInt8) :
    (s.moveTo off).read name value = (s.read name value).map fun s => s.moveTo off := by
  unfold Scan.read Scan.moveTo
  dsimp only
  split_ifs <;> simp only [Except.map] <;> split <;> simp_all

/-- No token looks at the offset. -/
lemma Scan.token_moveTo {s' : Scan} {t : Token} (h : s.token t = .ok s') :
    (s.moveTo off).token t = .ok (s'.moveTo off) := by
  cases t with
  | beginNode name =>
    simp only [Scan.token] at h ⊢
    rw [Scan.enter_moveTo]
    change (if s.depth + 1 > maxDepth then _ else if s.depth + 1 = 1 ∧ name ≠ [] then _ else _) = _
    split_ifs at h ⊢
    simp_all
  | endNode =>
    simp only [Scan.token, endNode] at h ⊢
    rw [Scan.leave_moveTo]
    change (if s.depth = 0 then _ else _) = _
    split_ifs at h ⊢
    simp_all
  | prop p =>
    simp only [Scan.token] at h ⊢
    rw [Scan.read_moveTo]
    change (if s.depth = 0 then _ else _) = _
    split_ifs at h ⊢
    rw [h]
    rfl
  | nop =>
    simp only [Scan.token, Except.ok.injEq] at h ⊢
    rw [h]

end Move

/-! ### The token loop -/

section Loop

variable {d : Blocks} {strings : List UInt8}

/-- The bounds that the header check establishes, and the place of the strings block. -/
structure Blocks.Holds (d : Blocks) (strings : List UInt8) : Prop where
  length_lt : d.blob.length < 2 ^ 32
  struct_le : d.structEnd ≤ d.blob.length
  strings_at : At d.blob d.offStrings strings
  strings_end : d.stringsEnd = d.offStrings + strings.length

/-- The name of a property is found in the strings block. -/
lemma propName_eq (hd : d.Holds strings) {name : List UInt8} {nameOff : ℕ}
    (h : At strings nameOff (name ++ [0])) (hnul : 0 ∉ name) :
    propName d nameOff = .ok name := by
  have hat := hd.strings_at.trans h
  have hle := hat.le
  have hin := h.le
  have hlen := hd.length_lt
  rw [List.length_append, List.length_singleton] at hle hin
  have hlt : d.offStrings + nameOff < d.stringsEnd := by rw [hd.strings_end]; omega
  have hstop : d.offStrings + nameOff + name.length < d.stringsEnd := by
    rw [hd.strings_end]; omega
  rw [propName, checkedAdd_of_lt (by omega)]
  dsimp only
  rw [if_pos hlt, hat.findIdx?_nul hnul hstop]
  dsimp only
  rw [hat.left.take_drop]

/-- The branch of `FDT_BEGIN_NODE` on an encoded name. -/
lemma beginNode_eq (hd : d.Holds strings) {s s' : Scan} {name padded : List UInt8}
    (hp : Padded (name ++ [0]) padded) (hat : At d.blob s.off padded) (hnul : 0 ∉ name)
    (h4 : 4 ∣ s.off) (hend : s.off + padded.length ≤ d.structEnd)
    (h : s.token (.beginNode name) = .ok s') :
    beginNode d s = .ok (s'.moveTo (s.off + padded.length)) := by
  obtain ⟨pad, rfl, hpad, hdvd⟩ := hp
  have hlen := hd.length_lt
  have hstruct := hd.struct_le
  have hstop : s.off + name.length < d.structEnd := by
    simp only [List.length_append, List.length_singleton] at hend
    omega
  have halign : align4 (s.off + name.length + 1) = .ok (s.off + (name ++ [0] ++ pad).length) := by
    simp only [List.length_append, List.length_singleton] at hend hdvd ⊢
    exact align4_eq (by omega) (by omega) (by omega) (by omega)
  have hslice : Bytes.slice d.blob s.off d.structEnd =
      some ((d.blob.drop s.off).take (d.structEnd - s.off)) := by
    unfold Bytes.slice
    exact if_pos ⟨by omega, hstruct⟩
  simp only [Scan.token] at h
  unfold beginNode
  split_ifs at h with hdeep hroot
  rw [if_neg hdeep, hslice]
  dsimp only
  rw [hat.left.findIdx?_nul hnul hstop]
  dsimp only
  rw [hat.left.left.take_drop, if_neg hroot, halign]
  simp only [Except.ok.injEq] at h ⊢
  rw [h]
  rfl

/-- The branch of `FDT_PROP` on an encoded property. -/
lemma prop_eq (hd : d.Holds strings) {s s' : Scan} {p : Property} {nameOff : ℕ}
    {padded : List UInt8} (hname : At strings nameOff (p.name ++ [0]))
    (hp : Padded p.value padded)
    (hat : At d.blob s.off (word p.value.length ++ word nameOff ++ padded)) (hnul : 0 ∉ p.name)
    (h4 : 4 ∣ s.off) (hend : s.off + 8 + padded.length ≤ d.structEnd)
    (h : s.token (.prop p) = .ok s') :
    prop d s = .ok (s'.moveTo (s.off + 8 + padded.length)) := by
  obtain ⟨pad, rfl, hpad, hdvd⟩ := hp
  have hlen := hd.length_lt
  have hstruct := hd.struct_le
  have hin := (hd.strings_at.trans hname).le
  have hval : At d.blob (s.off + 8) (p.value ++ pad) := by
    have hr := hat.right
    simpa using hr
  have hle := hval.le
  rw [List.length_append] at hend hle
  have hlen32 : be32 d.blob s.off = .ok p.value.length :=
    be32_word hat.left.left (by omega) hlen
  have hoff32 : be32 d.blob (s.off + 4) = .ok nameOff := by
    have hr := hat.left.right
    rw [length_word] at hr
    exact be32_word hr (by omega) hlen
  have halign : align4 (s.off + 8 + p.value.length) =
      .ok (s.off + 8 + (p.value ++ pad).length) := by
    rw [List.length_append]
    exact align4_eq (by omega) (by omega) (by omega) (by omega)
  simp only [Scan.token] at h
  split_ifs at h with hdepth
  unfold prop
  rw [if_neg hdepth, hlen32, hoff32]
  simp only [bind, Except.bind]
  rw [checkedAdd_of_lt (by omega)]
  dsimp only
  rw [if_pos (by omega), propName_eq hd hname hnul]
  dsimp only
  rw [Nat.add_sub_cancel_left, hval.left.take_drop, h]
  dsimp only
  rw [halign]
  rfl

/-- One round of the loop on an encoded token. -/
lemma tokenLoop_step (hd : d.Holds strings) {s s' : Scan} {t : Token} {bs : List UInt8}
    (ht : TokenBytes strings t bs) (hnul : t.NulFree) (hat : At d.blob s.off bs)
    (h4 : 4 ∣ s.off) (hend : s.off + bs.length ≤ d.structEnd) (h : s.token t = .ok s')
    (fuel : ℕ) :
    tokenLoop d (fuel + 1) s = tokenLoop d fuel (s'.moveTo (s.off + bs.length)) := by
  have hlen := hd.length_lt
  -- after the token word the context stands four bytes further
  have hmoved := s.token_moveTo (s.off + 4) h
  cases ht with
  | beginNode hp =>
    rename_i name padded
    rw [List.length_append, length_word, ← add_assoc] at hend ⊢
    have hw := be32_word hat.left (by omega) hlen
    have hr := hat.right
    rw [length_word] at hr
    have hb := beginNode_eq (s := s.moveTo (s.off + 4)) hd hp hr hnul
      (show 4 ∣ s.off + 4 by omega) hend hmoved
    rw [tokenLoop, if_neg (by omega), hw]
    change (do let s ← beginNode d (s.moveTo (s.off + 4)); tokenLoop d fuel s) = _
    rw [hb]
    rfl
  | endNode =>
    rw [length_word] at hend ⊢
    have hw := be32_word hat (by omega) hlen
    rw [tokenLoop, if_neg (by omega), hw]
    change (do let s ← endNode (s.moveTo (s.off + 4)); tokenLoop d fuel s) = _
    rw [show endNode (s.moveTo (s.off + 4)) = .ok (s'.moveTo (s.off + 4)) from hmoved]
    rfl
  | prop hname hp =>
    rename_i p nameOff padded
    have hassoc : word 3 ++ word p.value.length ++ word nameOff ++ padded =
        word 3 ++ (word p.value.length ++ word nameOff ++ padded) := by simp
    have hlength : (word 3 ++ word p.value.length ++ word nameOff ++ padded).length =
        4 + 8 + padded.length := by simp; omega
    rw [hassoc] at hat
    rw [hlength] at hend ⊢
    have hw := be32_word hat.left (by omega) hlen
    have hr := hat.right
    rw [length_word] at hr
    have hb := prop_eq (s := s.moveTo (s.off + 4)) hd hname hp hr hnul
      (show 4 ∣ s.off + 4 by omega) (show s.off + 4 + 8 + padded.length ≤ _ by omega) hmoved
    have hoff : (s.moveTo (s.off + 4)).off + 8 + padded.length =
        s.off + (4 + 8 + padded.length) := by
      change s.off + 4 + 8 + padded.length = _
      omega
    rw [hoff] at hb
    rw [tokenLoop, if_neg (by omega), hw]
    change (do let s ← prop d (s.moveTo (s.off + 4)); tokenLoop d fuel s) = _
    rw [hb]
    rfl
  | nop =>
    rw [length_word] at hend ⊢
    have hw := be32_word hat (by omega) hlen
    rw [tokenLoop, if_neg (by omega), hw]
    change tokenLoop d fuel (s.moveTo (s.off + 4)) = _
    simp only [Scan.token, Except.ok.injEq] at h
    rw [h]

/-- No sequence of tokens looks at the offset. -/
lemma Scan.tokens_moveTo {ts : List Token} {s s' : Scan} (off : ℕ)
    (h : Scan.tokens ts s = .ok s') : Scan.tokens ts (s.moveTo off) = .ok (s'.moveTo off) := by
  induction ts generalizing s with
  | nil =>
    simp only [Scan.tokens, Except.ok.injEq] at h ⊢
    rw [h]
  | cons t ts ih =>
    simp only [Scan.tokens] at h ⊢
    cases ht : s.token t with
    | error e => simp [ht] at h
    | ok s₁ =>
      rw [ht] at h
      rw [s.token_moveTo off ht]
      exact ih h

/-- A token is a whole number of words. -/
lemma TokenBytes.dvd {t : Token} {bs : List UInt8} (h : TokenBytes strings t bs) :
    4 ∣ bs.length := by
  cases h with
  | beginNode hp =>
    obtain ⟨pad, rfl, -, hdvd⟩ := hp
    simp only [List.length_append, length_word, List.length_singleton] at hdvd ⊢
    omega
  | endNode => simp
  | prop _ hp =>
    obtain ⟨pad, rfl, -, hdvd⟩ := hp
    simp only [List.length_append, length_word]
    omega
  | nop => simp

/-- A sequence of tokens is a whole number of words. -/
lemma TokensBytes.dvd {ts : List Token} {bs : List UInt8} (h : TokensBytes strings ts bs) :
    4 ∣ bs.length := by
  induction h with
  | nil => simp
  | cons ht _ ih =>
    rw [List.length_append]
    exact Nat.dvd_add ht.dvd ih

/-- On a structure block that encodes some tokens, the token loop computes their meaning.

**Proof sketch.** By induction on the encoding. Each token costs one round, which leaves the
context four-byte aligned at the next token, and the final word `9` ends the loop at depth
zero. -/
theorem tokenLoop_encoded (hd : d.Holds strings) {ts : List Token} {bs : List UInt8}
    (hts : TokensBytes strings ts bs) {s s' : Scan} {fuel : ℕ} (hnul : ∀ t ∈ ts, t.NulFree)
    (hat : At d.blob s.off (bs ++ word 9)) (h4 : 4 ∣ s.off)
    (hend : s.off + (bs ++ word 9).length ≤ d.structEnd) (h : Scan.tokens ts s = .ok s')
    (hdepth : s'.depth = 0) (hfuel : ts.length < fuel) :
    tokenLoop d fuel s = .ok s'.info := by
  obtain ⟨n, rfl⟩ : ∃ n, fuel = n + 1 := ⟨fuel - 1, by omega⟩
  induction hts generalizing s s' n with
  | nil =>
    have hw := be32_word hat (by omega) hd.length_lt
    simp only [Scan.tokens, Except.ok.injEq] at h
    simp only [List.nil_append, length_word] at hend
    rw [tokenLoop, if_neg (by omega), hw]
    subst h
    change (if s.depth ≠ 0 then _ else _) = _
    rw [if_neg (by simpa using hdepth)]
  | cons ht hts ih =>
    rename_i t ts bs rest
    have hmul := ht.dvd
    rw [List.append_assoc] at hat hend
    simp only [Scan.tokens] at h
    simp only [List.length_cons] at hfuel
    obtain ⟨m, rfl⟩ : ∃ m, n = m + 1 := ⟨n - 1, by omega⟩
    cases hs : s.token t with
    | error e => simp [hs] at h
    | ok s₁ =>
      rw [hs] at h
      have hend' : s.off + bs.length + (rest ++ word 9).length ≤ d.structEnd := by
        rw [List.length_append] at hend
        omega
      rw [tokenLoop_step hd ht (hnul t (by simp)) hat.left h4 (by omega) hs]
      have hat' : At d.blob (s₁.moveTo (s.off + bs.length)).off (rest ++ word 9) := hat.right
      have h4' : 4 ∣ (s₁.moveTo (s.off + bs.length)).off := show 4 ∣ s.off + bs.length by omega
      have hdepth' : (s'.moveTo (s.off + bs.length)).depth = 0 := hdepth
      have hrest := ih (fun t ht => hnul t (List.mem_cons_of_mem _ ht)) hat' h4' hend'
        (Scan.tokens_moveTo _ h) hdepth' m (by omega)
      exact hrest

end Loop

/-! ### The reservation loop -/

/-- The reservation loop on encoded pairs: the nonempty ones before the first pair of zeros are
appended, if there is room for them and none wraps around.

**Proof sketch.** By induction on the pairs. A pair of zeros ends the loop, as it ends the
`takeWhile` of `reservations`. -/
theorem rsvLoop_encoded {blob : List UInt8} (hlen : blob.length < 2 ^ 32)
    {rsv : List (UInt64 × UInt64)} {off fuel : ℕ} {info : BootInfo}
    (hat : At blob off (rsvBytes rsv)) (hfuel : rsv.length < fuel)
    (hroom : info.reserved.length + (reservations rsv).length ≤ maxRsvRegions)
    (hwrap : ∀ r ∈ reservations rsv, r.base + r.size < 2 ^ 64) :
    rsvLoop blob fuel off info =
      .ok { info with reserved := info.reserved ++ reservations rsv } := by
  obtain ⟨n, rfl⟩ : ∃ n, fuel = n + 1 := ⟨fuel - 1, by omega⟩
  induction rsv generalizing off info n with
  | nil =>
    have hbytes : rsvBytes [] = dword 0 ++ dword 0 := rfl
    rw [hbytes] at hat
    have hr := hat.right
    rw [length_dword] at hr
    have hbase := be64_dword hat.left (by omega) hlen
    have hsize := be64_dword hr (by omega) hlen
    rw [rsvLoop, hbase, hsize]
    simp [bind, Except.bind, reservations]
  | cons p rsv ih =>
    have hbytes : rsvBytes (p :: rsv) =
        dword p.1.toNat ++ (dword p.2.toNat ++ rsvBytes rsv) := by
      simp [rsvBytes]
    rw [hbytes] at hat
    have hr := hat.right
    rw [length_dword] at hr
    have hrest := hr.right
    rw [length_dword, add_assoc] at hrest
    have hbase := be64_dword hat.left p.1.toNat_lt hlen
    have hsize := be64_dword hr.left p.2.toNat_lt hlen
    rw [List.length_cons] at hfuel
    obtain ⟨m, rfl⟩ : ∃ m, n = m + 1 := ⟨n - 1, by omega⟩
    rw [rsvLoop, hbase, hsize]
    change (if p.1.toNat = 0 ∧ p.2.toNat = 0 then _ else _) = _
    by_cases hz : p = (0, 0)
    · rw [if_pos (by simp [hz])]
      simp [reservations, hz]
    · have hz' : ¬ (p.1.toNat = 0 ∧ p.2.toNat = 0) := fun h =>
        hz (Prod.ext (UInt64.toNat_inj.mp h.1) (UInt64.toNat_inj.mp h.2))
      rw [if_neg hz']
      by_cases hs : p.2 = 0
      · have heq : reservations (p :: rsv) = reservations rsv := by
          simp [reservations, hz, hs]
        rw [if_pos (by simp [hs]), heq]
        rw [heq] at hroom hwrap
        exact ih hrest hroom hwrap m (by omega)
      · have heq : reservations (p :: rsv) =
            ⟨p.1.toNat, p.2.toNat⟩ :: reservations rsv := by
          simp [reservations, hz, hs]
        have hs' : p.2.toNat ≠ 0 := fun h => hs (UInt64.toNat_inj.mp h)
        rw [heq] at hroom hwrap ⊢
        rw [List.length_cons] at hroom
        have hok : p.1.toNat + p.2.toNat < 2 ^ 64 := hwrap ⟨p.1.toNat, p.2.toNat⟩ (by simp)
        obtain ⟨info₁, hinfo₁⟩ : ∃ i : BootInfo,
            i = { info with reserved := info.reserved ++ [⟨p.1.toNat, p.2.toNat⟩] } := ⟨_, rfl⟩
        have hpush : pushReserved info p.1.toNat p.2.toNat = .ok info₁ := by
          unfold pushReserved
          rw [checkedAdd_of_lt hok, if_neg (by simp), if_neg (by omega), hinfo₁]
        have hroom₁ : info₁.reserved.length + (reservations rsv).length ≤ maxRsvRegions := by
          rw [hinfo₁, List.length_append, List.length_singleton]
          omega
        rw [if_neg hs', hpush]
        change rsvLoop blob (m + 1) (off + 16) info₁ = _
        rw [ih hrest hroom₁ (fun r hr => hwrap r (List.mem_cons_of_mem _ hr)) m (by omega), hinfo₁,
          List.append_assoc]
        rfl

/-! ### Fuel -/

section Fuel

/-- Aligning does not move backwards. -/
lemma le_of_align4 {n m : ℕ} (h : align4 n = .ok m) : n ≤ m := by
  unfold align4 at h
  cases hc : checkedAdd n 3 with
  | none => simp [hc] at h
  | some v =>
    obtain ⟨hlt, rfl⟩ := checkedAdd_eq_some.mp hc
    have hmask : maskDown 4 (n + 3) = (n + 3) / 4 * 4 :=
      maskDown_eq (k := 2) (by omega) (by omega)
    simp only [hc, hmask, Except.ok.injEq] at h
    omega

/-- The branch of `FDT_BEGIN_NODE` moves forwards. -/
lemma off_le_of_beginNode {d : Blocks} {s s' : Scan} (h : beginNode d s = .ok s') :
    s.off ≤ s'.off := by
  unfold beginNode at h
  split_ifs at h
  split at h
  · cases h
  · split at h
    · cases h
    · dsimp only at h
      split_ifs at h
      split at h
      · cases h
      · rename_i off ha
        have := le_of_align4 ha
        simp only [Except.ok.injEq] at h
        rw [← h]
        change s.off ≤ off
        omega

/-- The branch of `FDT_PROP` moves forwards. -/
lemma off_le_of_prop {d : Blocks} {s s' : Scan} (h : prop d s = .ok s') : s.off ≤ s'.off := by
  unfold prop at h
  split_ifs at h
  simp only [bind, Except.bind] at h
  split at h
  · cases h
  · split at h
    · cases h
    · split at h
      · cases h
      · rename_i valEnd hv
        obtain ⟨-, rfl⟩ := checkedAdd_eq_some.mp hv
        split_ifs at h
        split at h
        · cases h
        · split at h
          · cases h
          · split at h
            · cases h
            · rename_i off hoff
              have := le_of_align4 hoff
              simp only [Except.ok.injEq] at h
              rw [← h]
              change s.off ≤ off
              omega

/-- The branch of `FDT_END_NODE` stays where it is. -/
lemma off_eq_of_endNode {s s' : Scan} (h : endNode s = .ok s') : s'.off = s.off := by
  unfold endNode at h
  split_ifs at h
  simp only [Except.ok.injEq] at h
  rw [← h]
  unfold Scan.leave
  dsimp only
  split_ifs <;> rfl

/-- The token loop does not use more fuel than there are bytes left. -/
lemma tokenLoop_fuel (d : Blocks) {fuel : ℕ} {s : Scan} (h : d.structEnd ≤ s.off + fuel) :
    tokenLoop d (fuel + 1) s = tokenLoop d fuel s := by
  induction fuel generalizing s with
  | zero =>
    rw [tokenLoop, tokenLoop, if_pos (by simpa using h)]
  | succ fuel ih =>
    rw [tokenLoop]
    conv_rhs => rw [tokenLoop]
    by_cases hend : d.structEnd ≤ s.off
    · rw [if_pos hend, if_pos hend]
    · rw [if_neg hend, if_neg hend]
      cases be32 d.blob s.off with
      | error e => rfl
      | ok token =>
        simp only [bind, Except.bind]
        have hnext : ∀ s' : Scan, s.off + 4 ≤ s'.off →
            tokenLoop d (fuel + 1) s' = tokenLoop d fuel s' := fun s' hs' => ih (by omega)
        split_ifs
        · cases hb : beginNode d { s with off := s.off + 4 } with
          | error e => rfl
          | ok s' => exact hnext s' (off_le_of_beginNode hb)
        · cases hb : endNode { s with off := s.off + 4 } with
          | error e => rfl
          | ok s' => exact hnext s' (off_eq_of_endNode hb).ge
        · cases hb : prop d { s with off := s.off + 4 } with
          | error e => rfl
          | ok s' => exact hnext s' (off_le_of_prop hb)
        · exact hnext _ le_rfl
        · rfl
        · rfl
        · rfl

/-- The reservation loop does not use more fuel than there are bytes left. -/
lemma rsvLoop_fuel (blob : List UInt8) {fuel off : ℕ} {info : BootInfo}
    (h : blob.length ≤ off + fuel) :
    rsvLoop blob (fuel + 1) off info = rsvLoop blob fuel off info := by
  induction fuel generalizing off info with
  | zero =>
    -- nothing is read at the end of the blob
    have hread : be64 blob off = .error .truncated := by
      have hs : Bytes.slice blob off ((off + 8) % 2 ^ 64) = none := by
        unfold Bytes.slice
        exact if_neg (by omega)
      rw [be64, hs]
    change (do let base ← be64 blob off; _) = _
    rw [hread]
    rfl
  | succ fuel ih =>
    rw [rsvLoop]
    conv_rhs => rw [rsvLoop]
    cases be64 blob off with
    | error e => rfl
    | ok base =>
      cases be64 blob (off + 8) with
      | error e => rfl
      | ok size =>
        simp only [bind, Except.bind]
        split_ifs
        · rfl
        · exact ih (by omega)
        · cases pushReserved info base size with
          | error e => rfl
          | ok info' => exact ih (by omega)

end Fuel

end K0.Fdt
