import K0.Boot.FdtForest
import K0.Boot.FdtCorrect
import K0.Boot.FdtSound

set_option relaxedAutoImplicit false
set_option autoImplicit false

/-!
# What the parser accepts was there

The converse of the correctness of the parser, for arbitrary blobs: a blob that is accepted has a
header in order, a terminated reservation block and a structure block of balanced nodes, and the
result consists of exactly the contents of these nodes.

The argument has three parts. Every round of the token loop that goes on has read a well-formed
token. A sequence of tokens that brings the depth back to zero is the flattening of a forest. And
the meaning of the tokens of a forest is computed by recursion over the forest: a run that succeeds
has appended the contents of every part.

## Main results

* `K0.Fdt.tokenLoop_reads`: the bytes that the token loop has read are tokens.
* `K0.Fdt.exists_items`: balanced tokens are the tokens of a forest.
* `K0.Fdt.parseBlob_reads`: the soundness of the parser.
-/

namespace K0.Fdt

open Word Bytes Outcome

/-! ### The rounds of the token loop -/

section Rounds

variable {d : Blocks} {strings : List UInt8}

/-- The bounds that the header check establishes for an arbitrary blob. -/
structure Blocks.Fits (d : Blocks) (strings : List UInt8) : Prop where
  length_lt : d.blob.length < 2 ^ 63
  struct_le : d.structEnd ≤ d.blob.length
  struct_aligned : 4 ∣ d.structEnd
  strings_at : At d.blob d.offStrings strings
  strings_end : d.stringsEnd = d.offStrings + strings.length

/-- A property name that was found is in the strings block. -/
lemma propName_at (hd : d.Fits strings) {nameOff : ℕ} {name : List UInt8}
    (h : propName d nameOff = .ok name) : At strings nameOff (name ++ [0]) ∧ 0 ∉ name := by
  unfold propName at h
  split at h
  · cases h
  · rename_i start hstart
    obtain ⟨-, rfl⟩ := checkedAdd_eq_some.mp hstart
    split_ifs at h with hlt
    split at h
    · cases h
    · rename_i rel hrel
      have hend : d.stringsEnd ≤ d.blob.length := by
        rw [hd.strings_end]
        exact hd.strings_at.le
      obtain ⟨hat, hnul, hlen, hstop⟩ := at_of_findIdx? hend hrel
      obtain rfl := Except.ok.inj h
      refine ⟨?_, hnul⟩
      -- the occurrence in the blob lies inside the strings block
      rw [hd.strings_end] at hstop
      obtain ⟨bs, hbs, hbsat⟩ := exists_at (show nameOff + (rel + 1) ≤ strings.length by omega)
      have hin := hd.strings_at.trans hbsat
      have heq : bs = (d.blob.drop (d.offStrings + nameOff)).take rel ++ [0] := by
        rw [← hin.take_drop, ← hat.take_drop, hbs, List.length_append, hlen, List.length_singleton]
      exact heq ▸ hbsat

/-- Padding up to an aligned offset inside an aligned block. -/
lemma exists_padded (hd : d.Fits strings) {off m : ℕ} {bs : List UInt8} (hat : At d.blob off bs)
    (h4 : 4 ∣ off) (hend : off + bs.length ≤ d.structEnd) (hm : align4 (off + bs.length) = .ok m) :
    ∃ padded, Padded bs padded ∧ At d.blob off padded ∧ m = off + padded.length ∧
      off + padded.length ≤ d.structEnd := by
  obtain ⟨hdvd, hle, hlt⟩ := align4_ok hm
  have hstruct := hd.struct_aligned
  have hblob := hd.struct_le
  have hmle : m ≤ d.structEnd := by omega
  obtain ⟨pad, hpad, hpadat⟩ :=
    exists_at (show off + bs.length + (m - (off + bs.length)) ≤ d.blob.length by omega)
  have hlen : (bs ++ pad).length = m - off := by
    rw [List.length_append]
    omega
  exact ⟨bs ++ pad, ⟨pad, rfl, by omega, by omega⟩, hat.append hpadat, by omega, by omega⟩

/-- The branch of `FDT_BEGIN_NODE` has read a name. -/
lemma beginNode_reads (hd : d.Fits strings) {s s' : Scan} (h4 : 4 ∣ s.off)
    (h : beginNode d s = .ok s') :
    ∃ name padded s₁, Padded (name ++ [0]) padded ∧ 0 ∉ name ∧ At d.blob s.off padded ∧
      s.off + padded.length ≤ d.structEnd ∧ s.token (.beginNode name) = .ok s₁ ∧
      s' = s₁.moveTo (s.off + padded.length) := by
  unfold beginNode at h
  split_ifs at h with hdeep
  split at h
  · cases h
  · rename_i rest hrest
    split at h
    · cases h
    · rename_i rel hrel
      dsimp only at h
      split_ifs at h with hroot
      split at h
      · cases h
      · rename_i off hoff
        unfold Bytes.slice at hrest
        split_ifs at hrest with hbounds
        obtain rfl := Option.some.inj hrest
        obtain ⟨hat, hnul, hlen, hlt⟩ := at_of_findIdx? hbounds.2 hrel
        have hnext : s.off + rel + 1 =
            s.off + ((d.blob.drop s.off).take rel ++ [0]).length := by
          rw [List.length_append, hlen, List.length_singleton, add_assoc]
        rw [hnext] at hoff
        obtain ⟨padded, hp, hpat, rfl, hple⟩ := exists_padded hd hat h4 (by omega) hoff
        refine ⟨(d.blob.drop s.off).take rel, padded, s.enter ((d.blob.drop s.off).take rel), hp,
          hnul, hpat, hple, ?_, (Except.ok.inj h).symm⟩
        simp only [Scan.token]
        rw [if_neg hdeep, if_neg hroot]

/-- The branch of `FDT_PROP` has read a property. -/
lemma prop_reads (hd : d.Fits strings) {s s' : Scan} (h4 : 4 ∣ s.off) (h : prop d s = .ok s') :
    ∃ p nameOff padded s₁, At strings nameOff (p.name ++ [0]) ∧ 0 ∉ p.name ∧
      Padded p.value padded ∧ At d.blob s.off (word p.value.length ++ word nameOff ++ padded) ∧
      s.off + 8 + padded.length ≤ d.structEnd ∧ s.token (.prop p) = .ok s₁ ∧
      s' = s₁.moveTo (s.off + 8 + padded.length) := by
  unfold prop at h
  split_ifs at h with hdepth
  obtain ⟨len, hlen, h⟩ := except_bind_eq_ok.mp h
  obtain ⟨nameOff, hname, h⟩ := except_bind_eq_ok.mp h
  dsimp only at h
  split at h
  · cases h
  · rename_i valEnd hval
    obtain ⟨-, rfl⟩ := checkedAdd_eq_some.mp hval
    split_ifs at h with hend
    obtain ⟨name, hprop, h⟩ := except_bind_eq_ok.mp h
    obtain ⟨s₁, hread, h⟩ := except_bind_eq_ok.mp h
    obtain ⟨off, hoff, h⟩ := except_bind_eq_ok.mp h
    obtain ⟨hnameat, hnul⟩ := propName_at hd hprop
    have hblob := hd.struct_le
    obtain ⟨value, hvlen, hvat⟩ := exists_at (show s.off + 8 + len ≤ d.blob.length by omega)
    have hvalue : (d.blob.drop (s.off + 8)).take (s.off + 8 + len - (s.off + 8)) = value := by
      rw [Nat.add_sub_cancel_left, ← hvlen]
      exact hvat.take_drop
    rw [hvalue] at hread
    rw [← hvlen] at hoff hend hlen
    obtain ⟨padded, hp, hpat, rfl, hple⟩ := exists_padded hd hvat (by omega) hend hoff
    have hlenat := be32_at hlen hd.length_lt
    have hoffat := be32_at hname hd.length_lt
    refine ⟨⟨name, value⟩, nameOff, padded, s₁, hnameat, hnul, hp, ?_, hple, ?_,
      (Except.ok.inj h).symm⟩
    · refine At.append (At.append hlenat ?_) ?_
      · rwa [length_word]
      · rwa [List.length_append, length_word, length_word]
    · simp only [Scan.token, if_neg hdepth]
      exact hread

/-- A round of the loop that goes on has read a token; a round that ends it has read `FDT_END` at
depth zero. -/
lemma tokenLoop_round (hd : d.Fits strings) {fuel : ℕ} {s : Scan} {i : BootInfo} (h4 : 4 ∣ s.off)
    (h : tokenLoop d (fuel + 1) s = .ok i) :
    (At d.blob s.off (word 9) ∧ s.off + 4 ≤ d.structEnd ∧ s.depth = 0 ∧ s.info = i) ∨
    ∃ t bs s₁, TokenBytes strings t bs ∧ t.NulFree ∧ At d.blob s.off bs ∧
      s.off + bs.length ≤ d.structEnd ∧ s.token t = .ok s₁ ∧
      tokenLoop d fuel (s₁.moveTo (s.off + bs.length)) = .ok i := by
  rw [tokenLoop] at h
  split_ifs at h with hout
  have hstruct := hd.struct_aligned
  obtain ⟨token, htoken, h⟩ := except_bind_eq_ok.mp h
  have hat := be32_at htoken hd.length_lt
  dsimp only at h
  -- a meaning after the token word is one before it
  have hback : ∀ {t : Token} {s₁ : Scan}, (s.moveTo (s.off + 4)).token t = .ok s₁ →
      s.token t = .ok (s₁.moveTo s.off) := fun ht =>
    Scan.token_moveTo (s := s.moveTo (s.off + 4)) s.off ht
  split_ifs at h with h1 h2 h3 h4' h9
  · obtain ⟨s', hbegin, h⟩ := except_bind_eq_ok.mp h
    obtain ⟨name, padded, s₁, hp, hnul, hpat, hple, hmean, rfl⟩ :=
      beginNode_reads (s := s.moveTo (s.off + 4)) hd (show 4 ∣ s.off + 4 by omega) hbegin
    have hlen : (word 1 ++ padded).length = 4 + padded.length := by
      rw [List.length_append, length_word]
    rw [h1] at hat
    refine .inr ⟨.beginNode name, word 1 ++ padded, _, .beginNode hp, hnul,
      hat.append (by rwa [length_word]), ?_, hback hmean, ?_⟩
    · rw [hlen, ← add_assoc]
      exact hple
    · rw [hlen, ← add_assoc]
      exact h
  · obtain ⟨s', hend, h⟩ := except_bind_eq_ok.mp h
    rw [h2] at hat
    have hoff : s'.moveTo (s.off + 4) = s' := by
      have := off_eq_of_endNode hend
      cases s'
      simp_all [Scan.moveTo]
    refine .inr ⟨.endNode, word 2, _, .endNode, trivial, hat, by rw [length_word]; omega,
      hback hend, ?_⟩
    rw [length_word]
    exact hoff ▸ h
  · obtain ⟨s', hprop, h⟩ := except_bind_eq_ok.mp h
    obtain ⟨p, nameOff, padded, s₁, hname, hnul, hp, hpat, hple, hmean, rfl⟩ :=
      prop_reads (s := s.moveTo (s.off + 4)) hd (show 4 ∣ s.off + 4 by omega) hprop
    have hlen : (word 3 ++ word p.value.length ++ word nameOff ++ padded).length =
        4 + 8 + padded.length := by
      simp only [List.length_append, length_word]
    have hassoc : word 3 ++ word p.value.length ++ word nameOff ++ padded =
        word 3 ++ (word p.value.length ++ word nameOff ++ padded) := by
      simp only [List.append_assoc]
    rw [h3] at hat
    refine .inr ⟨.prop p, _, _, .prop hname hp, hnul, ?_, ?_, hback hmean, ?_⟩
    · rw [hassoc]
      exact hat.append (by rwa [length_word])
    · rw [hlen, ← add_assoc, ← add_assoc]
      exact hple
    · rw [hlen, ← add_assoc, ← add_assoc]
      exact h
  · rw [h4'] at hat
    refine .inr ⟨.nop, word 4, _, .nop, trivial, hat, by rw [length_word]; omega, rfl, ?_⟩
    rw [length_word]
    exact h
  · rw [h9] at hat
    rename_i hdepth
    exact .inl ⟨hat, by omega, by simpa using hdepth, Except.ok.inj h⟩

/-- The bytes that the token loop has read are tokens and `FDT_END`, and the result is their
meaning.

**Proof sketch.** By induction on the rounds; each reads one token and leaves the offset aligned. -/
theorem tokenLoop_reads (hd : d.Fits strings) {fuel : ℕ} {s : Scan} {i : BootInfo}
    (h4 : 4 ∣ s.off) (h : tokenLoop d fuel s = .ok i) :
    ∃ ts bs s', TokensBytes strings ts bs ∧ (∀ t ∈ ts, t.NulFree) ∧
      At d.blob s.off (bs ++ word 9) ∧ s.off + (bs ++ word 9).length ≤ d.structEnd ∧
      Scan.tokens ts s = .ok s' ∧ s'.depth = 0 ∧ s'.info = i := by
  induction fuel generalizing s with
  | zero => cases h
  | succ fuel ih =>
    rcases tokenLoop_round hd h4 h with ⟨hat, hle, hdepth, hinfo⟩ | ⟨t, bs, s₁, ht, hnul, hat, hle,
      hmean, hrest⟩
    · exact ⟨[], [], s, .nil, by simp, hat, by simpa using hle, rfl, hdepth, hinfo⟩
    · have hdvd := ht.dvd
      have hoff : (s₁.moveTo (s.off + bs.length)).off = s.off + bs.length := rfl
      obtain ⟨ts, rest, s', hts, hnuls, hrat, hrle, hrun, hdepth, hinfo⟩ :=
        ih (by rw [hoff]; omega) hrest
      rw [hoff] at hrat hrle
      refine ⟨t :: ts, bs ++ rest, s'.moveTo s₁.off, .cons ht hts, ?_, ?_, ?_, ?_, hdepth, hinfo⟩
      · intro q hq
        rcases List.mem_cons.mp hq with rfl | hq
        · exact hnul
        · exact hnuls q hq
      · rw [List.append_assoc]
        exact hat.append hrat
      · rw [List.append_assoc, List.length_append, ← add_assoc]
        exact hrle
      · have hrun' := Scan.tokens_moveTo s₁.off hrun
        exact tokens_cons hmean hrun'

end Rounds

/-! ### Balanced tokens -/

section Balance

/-- The tokens of nested items: the inside of the innermost open node, its end, and so on for the
nodes around it. -/
def Items.nested (first : Items) : List Items → List Token
  | [] => first.tokens
  | next :: outer => first.tokens ++ .endNode :: next.nested outer

/-- A property at the front of the innermost items. -/
lemma Items.nested_prop (p : Property) (first : Items) (outer : List Items) :
    (Items.prop p first).nested outer = .prop p :: first.nested outer := by
  cases outer <;> rfl

/-- A closed node at the front of the innermost items. -/
lemma Items.nested_node (name : List UInt8) (first next : Items) (outer : List Items) :
    (Items.node name first next).nested outer =
      .beginNode name :: first.nested (next :: outer) := by
  cases outer with
  | nil => rfl
  | cons q outer => simp [Items.nested, Items.tokens]

/-- Tokens that bring the depth back to zero are those of nested items, one for every open node and
one for the top.

**Proof sketch.** By induction on the tokens. The start of a node closes with the first end at its
level: the items before that end are its inside, those after it follow the node. -/
lemma exists_items {ts : List Token} {s s' : Scan} (hcode : ∀ t ∈ ts, t.isCode = true)
    (h : Scan.tokens ts s = .ok s') (hdepth : s'.depth = 0) :
    ∃ first outer, outer.length = s.depth ∧ ts = Items.nested first outer := by
  induction ts generalizing s with
  | nil =>
    obtain rfl : s = s' := Except.ok.inj h
    exact ⟨.nil, [], hdepth.symm, rfl⟩
  | cons t ts ih =>
    simp only [Scan.tokens] at h
    split at h
    · cases h
    · rename_i s₁ ht
      obtain ⟨first, outer, hlen, rfl⟩ := ih (fun q hq => hcode q (List.mem_cons_of_mem _ hq)) h
      cases t with
      | beginNode name =>
        simp only [Scan.token] at ht
        split_ifs at ht
        obtain rfl := Except.ok.inj ht
        rw [Scan.enter_depth] at hlen
        obtain ⟨next, outer, rfl⟩ := List.exists_cons_of_length_eq_add_one hlen
        exact ⟨.node name first next, outer, by simpa using hlen, (Items.nested_node ..).symm⟩
      | endNode =>
        simp only [Scan.token, endNode] at ht
        split_ifs at ht with h0
        obtain rfl := Except.ok.inj ht
        rw [Scan.leave_depth] at hlen
        exact ⟨.nil, first :: outer, by rw [List.length_cons]; omega, rfl⟩
      | prop p =>
        simp only [Scan.token] at ht
        split_ifs at ht
        rw [Scan.read_depth ht] at hlen
        exact ⟨.prop p first, outer, hlen, (Items.nested_prop ..).symm⟩
      | nop => exact absurd (hcode .nop (by simp)) (by decide)

end Balance

/-! ### Runs over items -/

section Runs

variable {s s' : Scan}

/-- A run over two sequences is a run over the first and then over the second. -/
lemma tokens_append_inv {ts us : List Token} (h : Scan.tokens (ts ++ us) s = .ok s') :
    ∃ s₁, Scan.tokens ts s = .ok s₁ ∧ Scan.tokens us s₁ = .ok s' := by
  induction ts generalizing s with
  | nil => exact ⟨s, rfl, h⟩
  | cons t ts ih =>
    simp only [List.cons_append, Scan.tokens] at h ⊢
    split at h
    · cases h
    · exact ih h

/-- A run over a property. -/
lemma run_prop {p : Property} {rest : Items}
    (h : Scan.tokens (Items.prop p rest).tokens s = .ok s') :
    ∃ s₁, s.depth ≠ 0 ∧ s.read p.name p.value = .ok s₁ ∧ Scan.tokens rest.tokens s₁ = .ok s' := by
  simp only [Items.tokens, Scan.tokens, Scan.token] at h
  split at h
  · cases h
  · rename_i s₁ hread
    split_ifs at hread with h0
    exact ⟨s₁, h0, hread, h⟩

/-- A run over a node: over its inside, and then over what follows. -/
lemma run_node {name : List UInt8} {body rest : Items}
    (h : Scan.tokens (Items.node name body rest).tokens s = .ok s') :
    ∃ s₁, s.depth + 1 ≤ 32 ∧ (s.depth = 0 → name = []) ∧
      Scan.tokens body.tokens (s.enter name) = .ok s₁ ∧
      Scan.tokens rest.tokens s₁.leave = .ok s' := by
  have hsplit : (Items.node name body rest).tokens =
      [.beginNode name] ++ (body.tokens ++ ([.endNode] ++ rest.tokens)) := by
    simp [Items.tokens]
  rw [hsplit] at h
  obtain ⟨s₀, hbegin, h⟩ := tokens_append_inv h
  obtain ⟨s₁, hbody, h⟩ := tokens_append_inv h
  obtain ⟨s₂, hend, h⟩ := tokens_append_inv h
  simp only [Scan.tokens, Scan.token] at hbegin hend
  split_ifs at hbegin with hdeep hroot
  obtain rfl := Except.ok.inj hbegin
  unfold endNode at hend
  split_ifs at hend
  obtain rfl := Except.ok.inj hend
  refine ⟨s₁, ?_, fun h0 => ?_, hbody, h⟩
  · unfold maxDepth at hdeep
    omega
  · by_contra hne
    exact hroot ⟨by omega, hne⟩

/-- A context in which subnodes mean nothing. -/
structure Scan.Flat (s : Scan) : Prop where
  depth : 2 ≤ s.depth
  memory : ∀ k, s.memoryDepth = some k → k ≤ s.depth
  chosen : ∀ k, s.chosenDepth = some k → k ≤ s.depth
  rsv : s.rsvNode = true → 3 ≤ s.depth

/-- The context inside a subnode that means nothing. -/
def Scan.deeper (s : Scan) : Scan := { s with depth := s.depth + 1 }

/-- Entering a subnode that means nothing only counts the level. -/
lemma Scan.Flat.enter (h : s.Flat) (name : List UInt8) : s.enter name = s.deeper := by
  have hd := h.depth
  have hne : ¬ s.depth + 1 = 2 := by omega
  simp [Scan.enter, Scan.deeper, hne]

/-- Leaving it restores the context. -/
lemma Scan.Flat.leave (h : s.Flat) : s.deeper.leave = s := by
  have hd := h.depth
  have hm : s.memoryDepth ≠ some (s.depth + 1) := fun he => by
    have := h.memory _ he
    omega
  have hc : s.chosenDepth ≠ some (s.depth + 1) := fun he => by
    have := h.chosen _ he
    omega
  have hne : ¬ s.depth + 1 = 2 := by omega
  simp [Scan.leave, Scan.deeper, hm, hc, hne]

/-- Inside it, subnodes mean nothing either. -/
lemma Scan.Flat.deeper (h : s.Flat) : s.deeper.Flat where
  depth := Nat.le_succ_of_le h.depth
  memory k hk := Nat.le_succ_of_le (h.memory k hk)
  chosen k hk := Nat.le_succ_of_le (h.chosen k hk)
  rsv hr := Nat.le_succ_of_le (h.rsv hr)

/-- Inside it, no property means anything. -/
lemma Scan.Flat.read (h : s.Flat) (name value : List UInt8) :
    s.deeper.read name value = .ok s.deeper := by
  have hd := h.depth
  have hm : s.memoryDepth ≠ some (s.depth + 1) := fun he => by
    have := h.memory _ he
    omega
  have hc : s.chosenDepth ≠ some (s.depth + 1) := fun he => by
    have := h.chosen _ he
    omega
  unfold Scan.read Scan.deeper
  dsimp only
  rw [if_neg (by omega), if_neg (fun e => hm e.1), if_neg (by omega),
    if_neg (fun e => by have := h.rsv e.1; omega), if_neg (fun e => hc e.1)]

/-- A run over the inside of a subnode that means nothing. -/
lemma run_quiet (h : s.Flat) {items : Items}
    (hrun : Scan.tokens items.tokens s.deeper = .ok s') :
    s' = s.deeper ∧ s.depth + 1 + items.height ≤ max 32 (s.depth + 1) := by
  induction items generalizing s s' with
  | nil => exact ⟨(Except.ok.inj hrun).symm, le_max_right _ _⟩
  | prop p rest ih =>
    obtain ⟨s₁, -, hread, hrest⟩ := run_prop hrun
    rw [h.read] at hread
    obtain rfl := Except.ok.inj hread
    exact ih h hrest
  | node name body rest ihb ihr =>
    obtain ⟨s₁, hdepth, -, hbody, hrest⟩ := run_node hrun
    rw [h.deeper.enter] at hbody
    obtain ⟨rfl, hheight⟩ := ihb h.deeper hbody
    rw [h.deeper.leave] at hrest
    obtain ⟨hs', hheight'⟩ := ihr h hrest
    refine ⟨hs', ?_⟩
    have hdd : s.deeper.depth = s.depth + 1 := rfl
    rw [hdd] at hdepth hheight
    simp only [Items.height]
    omega

/-- The result of applying the properties of a node one after the other. -/
def Items.foldProps {α : Type} (f : α → Property → α) : α → Items → α
  | a, .nil => a
  | a, .prop p rest => rest.foldProps f (f a p)
  | a, .node _ _ rest => rest.foldProps f a

/-- A run over the inside of a node whose subnodes mean nothing: the properties act one after the
other on the part `a` of the context. -/
lemma run_flat {α : Type} {ctx : α → Scan} {f : α → Property → α} {k : ℕ}
    (hflat : ∀ a, (ctx a).Flat) (hdepth : ∀ a, (ctx a).depth = k)
    (hread : ∀ a p s₁, (ctx a).read p.name p.value = .ok s₁ → s₁ = ctx (f a p))
    {items : Items} {a : α} (hrun : Scan.tokens items.tokens (ctx a) = .ok s') :
    s' = ctx (items.foldProps f a) ∧ k + items.height ≤ max 32 k := by
  induction items generalizing a with
  | nil => exact ⟨(Except.ok.inj hrun).symm, le_max_right _ _⟩
  | prop p rest ih =>
    obtain ⟨s₁, -, hp, hrest⟩ := run_prop hrun
    obtain rfl := hread _ _ _ hp
    exact ih hrest
  | node name body rest _ ih =>
    obtain ⟨s₁, hle, -, hbody, hrest⟩ := run_node hrun
    rw [(hflat a).enter] at hbody
    obtain ⟨rfl, hheight⟩ := run_quiet (hflat a) hbody
    rw [(hflat a).leave] at hrest
    obtain ⟨hs', hheight'⟩ := ih hrest
    refine ⟨hs', ?_⟩
    rw [hdepth] at hle hheight
    simp only [Items.height]
    omega

end Runs

/-! ### Values -/

section Values

/-- Entries that were appended are the nonempty ones of the value. -/
lemma parseEntries_inv {ac sc limit n : ℕ} {value : List UInt8} {out out' : List MemRegion}
    (hac : 1 ≤ ac ∧ ac ≤ 2) (hsc : 1 ≤ sc ∧ sc ≤ 2) (hlen : value.length = n * ((ac + sc) * 4))
    (h : parseEntries (ac * 4) ((ac + sc) * 4) limit n value out = .ok out') :
    out' = out ++ (decodeReg ac sc value).filter fun r => r.size ≠ 0 := by
  induction n generalizing value out with
  | zero =>
    have hnil : value = [] := List.eq_nil_of_length_eq_zero (by simpa using hlen)
    obtain rfl := Except.ok.inj h
    simp [hnil, decodeReg]
  | succ n ih =>
    have hrest : (value.drop ((ac + sc) * 4)).length = n * ((ac + sc) * 4) := by
      rw [List.length_drop, hlen, add_mul, one_mul, Nat.add_sub_cancel]
    have hbase : readCells ((value.take ((ac + sc) * 4)).take (ac * 4)) =
        fromBeBytes (value.take (ac * 4)) := by
      rw [List.take_take, Nat.min_eq_left (by omega)]
      exact readCells_eq (by rw [List.length_take]; omega)
    have hsize : readCells ((value.take ((ac + sc) * 4)).drop (ac * 4)) =
        fromBeBytes ((value.drop (ac * 4)).take (sc * 4)) := by
      rw [List.drop_take, show (ac + sc) * 4 - ac * 4 = sc * 4 by omega]
      exact readCells_eq (by rw [List.length_take]; omega)
    rw [decodeReg_cons (by omega) hlen]
    rw [parseEntries, hbase, hsize] at h
    split_ifs at h with hs
    · rw [ih hrest h, List.filter_cons_of_neg (by simpa using hs)]
    · rw [ih hrest h, List.filter_cons_of_pos (by simpa using hs), List.append_assoc,
        List.singleton_append]

/-- A `reg` value that was accepted is appended entry by entry. -/
lemma parseReg_inv {ac sc limit : ℕ} {value : List UInt8} {out out' : List MemRegion}
    (h : parseReg value ac sc limit out = .ok out') :
    out' = out ++ (decodeReg ac sc value).filter fun r => r.size ≠ 0 := by
  unfold parseReg at h
  dsimp only at h
  split_ifs at h with hcells hbad
  have hdvd : (ac + sc) * 4 ∣ value.length :=
    Nat.dvd_of_mod_eq_zero (by by_contra hn; exact hbad (.inr hn))
  exact parseEntries_inv (by omega) (by omega) (Nat.div_mul_cancel hdvd).symm h

/-- A cell size that was accepted is the number of its bytes. -/
lemma cellCount_inv {value : List UInt8} {n : ℕ} (h : cellCount value = .ok n) :
    n = fromBeBytes value := by
  unfold cellCount at h
  split_ifs at h
  exact (Except.ok.inj h).symm

/-- The `reg` properties of a node append to what is there. -/
lemma foldProps_regs (c : Cells) (items : Items) (out : List MemRegion) :
    items.foldProps (fun out p => out ++ p.regs c) out = out ++ items.regs c := by
  induction items generalizing out with
  | nil => simp [Items.foldProps, Items.regs]
  | prop p rest ih => rw [Items.foldProps, Items.regs, ih, List.append_assoc]
  | node _ _ rest _ ih => exact ih out

/-- The seeds of a node append to what is there. -/
lemma foldProps_seedBytes (items : Items) (out : List UInt8) :
    items.foldProps (fun out p => out ++ if p.isSeed then p.value else []) out =
      out ++ items.seedBytes := by
  induction items generalizing out with
  | nil => simp [Items.foldProps, Items.seedBytes]
  | prop p rest ih => rw [Items.foldProps, Items.seedBytes, ih, List.append_assoc]
  | node _ _ rest _ ih => exact ih out

end Values

/-! ### The contents of an accepted forest -/

section Contents

/-- A result with further contents; the entropy is cut at the limit. -/
def Found.onto (f : Found) (i : BootInfo) : BootInfo :=
  ⟨i.dtb, i.memory ++ f.memory, i.reserved ++ f.reserved, (i.entropy ++ f.entropy).take maxEntropy⟩

/-- Contents that are added one after the other. -/
lemma Found.onto_onto (f g : Found) (i : BootInfo) : g.onto (f.onto i) = (f.append g).onto i := by
  have hcut : ∀ l l' : List UInt8,
      (l.take maxEntropy ++ l').take maxEntropy = (l ++ l').take maxEntropy := by
    intro l l'
    rw [List.take_append, List.take_take, Nat.min_self, List.take_append, List.length_take]
    congr 2
    omega
  simp only [Found.onto, Found.append, List.append_assoc, hcut]

/-- Contents without entropy leave entropy within the limit alone. -/
lemma Found.onto_of_entropy {i : BootInfo} (h : i.entropy.length ≤ maxEntropy)
    (memory reserved : List MemRegion) :
    Found.onto ⟨memory, reserved, []⟩ i =
      ⟨i.dtb, i.memory ++ memory, i.reserved ++ reserved, i.entropy⟩ := by
  simp only [Found.onto, List.append_nil, List.take_of_length_le h]

/-- The entropy is within the limit afterwards. -/
lemma Found.onto_entropy_le (f : Found) (i : BootInfo) :
    (f.onto i).entropy.length ≤ maxEntropy := by
  simp only [Found.onto, List.length_take]
  omega

variable {s s' : Scan}

/-- The cell sizes of the root that are in force. -/
def Scan.cells (s : Scan) : Cells := ⟨s.addrCells, s.sizeCells⟩

/-- The context between the items of a root node. -/
structure Scan.InRoot (s : Scan) : Prop where
  depth : s.depth = 1
  memory : s.memoryDepth = none
  chosen : s.chosenDepth = none
  rsv : s.rsvNode = false
  entropy : s.info.entropy.length ≤ maxEntropy

/-- The context after a node of the root has added its contents. -/
def Scan.add (s : Scan) (f : Found) : Scan := { s with info := f.onto s.info }

/-- Adding contents stays inside the root. -/
lemma Scan.InRoot.add (h : s.InRoot) (f : Found) : (s.add f).InRoot :=
  ⟨h.depth, h.memory, h.chosen, h.rsv, f.onto_entropy_le _⟩

/-- A memory node adds its `reg` entries to the memory. -/
lemma run_memory (h : s.InRoot) {name : List UInt8}
    (hname : name = ascii "memory" ∨ (ascii "memory@").isPrefixOf name) {body : Items}
    (hrun : Scan.tokens body.tokens (s.enter name) = .ok s') :
    s'.leave = s.add ⟨body.regs s.cells, [], []⟩ ∧ 2 + body.height ≤ 32 := by
  have hc : name ≠ ascii "chosen" := by
    rintro rfl
    exact absurd hname (by decide)
  have hr : name ≠ ascii "reserved-memory" := by
    rintro rfl
    exact absurd hname (by decide)
  let ctx : List MemRegion → Scan := fun out =>
    { s with depth := 2, memoryDepth := some 2, info := { s.info with memory := out } }
  have henter : s.enter name = ctx s.info.memory := by
    have hcond : s.depth + 1 = 2 ∧
        (name = ascii "memory" ∨ (ascii "memory@").isPrefixOf name) := ⟨by rw [h.depth], hname⟩
    simp only [Scan.enter]
    rw [if_pos hcond]
    simp [ctx, hc, hr, h.depth]
  have hflat : ∀ out, (ctx out).Flat := fun out =>
    ⟨le_rfl, fun k hk => (Option.some.inj hk).ge, by simp [ctx, h.chosen], by simp [ctx, h.rsv]⟩
  have hread : ∀ out (p : Property) s₁, (ctx out).read p.name p.value = .ok s₁ →
      s₁ = ctx (out ++ p.regs s.cells) := by
    intro out p s₁ hp
    by_cases hreg : p.name = ascii "reg"
    · unfold Scan.read at hp
      rw [if_neg (by simp [ctx]), if_pos ⟨rfl, hreg⟩] at hp
      simp only [ctx, pushRegions] at hp
      cases hparse : parseReg p.value s.addrCells s.sizeCells maxMemRegions out with
      | error e => simp [hparse, Except.map] at hp
      | ok out' =>
        simp only [hparse, Except.map] at hp
        obtain rfl := Except.ok.inj hp
        rw [parseReg_inv hparse, Property.regs, if_pos hreg]
        rfl
    · have hregs : p.regs s.cells = [] := if_neg hreg
      simp [Scan.read, ctx, hreg, h.rsv, h.chosen] at hp
      rw [hregs, List.append_nil, ← hp]
      simp [ctx, h.rsv, h.chosen]
  rw [henter] at hrun
  obtain ⟨rfl, hheight⟩ := run_flat (k := 2) hflat (fun _ => rfl) hread hrun
  refine ⟨?_, by omega⟩
  rw [foldProps_regs]
  simp [Scan.leave, ctx, Scan.add, Found.onto_of_entropy h.entropy, h.depth, h.memory, h.chosen,
    h.rsv]

/-- A chosen node adds its seeds to the entropy. -/
lemma run_chosen (h : s.InRoot) {body : Items}
    (hrun : Scan.tokens body.tokens (s.enter (ascii "chosen")) = .ok s') :
    s'.leave = s.add ⟨[], [], body.seedBytes⟩ ∧ 2 + body.height ≤ 32 := by
  let ctx : List UInt8 → Scan := fun ent =>
    { s with depth := 2, chosenDepth := some 2, info := Found.onto ⟨[], [], ent⟩ s.info }
  have hempty : Found.onto ⟨[], [], []⟩ s.info = s.info := by
    rw [Found.onto_of_entropy h.entropy, List.append_nil, List.append_nil]
  have henter : s.enter (ascii "chosen") = ctx [] := by
    have hm : ¬ (s.depth + 1 = 2 ∧ (ascii "chosen" = ascii "memory" ∨
        (ascii "memory@").isPrefixOf (ascii "chosen"))) := fun e => absurd e.2 (by decide)
    have hr : ascii "chosen" ≠ ascii "reserved-memory" := by decide
    simp only [Scan.enter]
    rw [if_neg hm]
    simp [ctx, hr, hempty, h.depth]
  have hflat : ∀ out, (ctx out).Flat := fun out =>
    ⟨le_rfl, by simp [ctx, h.memory], fun k hk => (Option.some.inj hk).ge, by simp [ctx, h.rsv]⟩
  have hread : ∀ out (p : Property) s₁, (ctx out).read p.name p.value = .ok s₁ →
      s₁ = ctx (out ++ if p.isSeed then p.value else []) := by
    intro out p s₁ hp
    by_cases hseed : p.name = ascii "rng-seed" ∨ p.name = ascii "kaslr-seed"
    · have hpush : pushEntropy p.value (Found.onto ⟨[], [], out⟩ s.info) =
          Found.onto ⟨[], [], out ++ p.value⟩ s.info := by
        simp only [pushEntropy, Found.onto, List.append_nil, List.length_take, take_entropy,
          List.append_assoc]
      simp [Scan.read, ctx, hseed, h.rsv, h.memory] at hp
      rw [if_pos (by simpa [Property.isSeed] using hseed), ← hp, hpush]
      simp [ctx, h.rsv, h.memory]
    · simp [Scan.read, ctx, hseed, h.rsv, h.memory] at hp
      rw [if_neg (by simpa [Property.isSeed] using hseed), List.append_nil, ← hp]
      simp [ctx, h.rsv, h.memory]
  rw [henter] at hrun
  obtain ⟨rfl, hheight⟩ := run_flat (k := 2) hflat (fun _ => rfl) hread hrun
  refine ⟨?_, by omega⟩
  rw [foldProps_seedBytes]
  simp [Scan.leave, ctx, Scan.add, h.depth, h.memory, h.chosen, h.rsv]

/-- A node of the root with another name adds nothing. -/
lemma run_other (h : s.InRoot) {name : List UInt8}
    (hm : ¬ (name = ascii "memory" ∨ (ascii "memory@").isPrefixOf name))
    (hr : name ≠ ascii "reserved-memory") (hc : name ≠ ascii "chosen") {body : Items}
    (hrun : Scan.tokens body.tokens (s.enter name) = .ok s') :
    s'.leave = s.add Found.none ∧ 2 + body.height ≤ 32 := by
  let ctx : Unit → Scan := fun _ => { s with depth := 2 }
  have henter : s.enter name = ctx () := by
    have hcond : ¬ (s.depth + 1 = 2 ∧
        (name = ascii "memory" ∨ (ascii "memory@").isPrefixOf name)) := fun e => hm e.2
    simp only [Scan.enter]
    rw [if_neg hcond]
    simp [ctx, hc, hr, h.depth]
  have hflat : ∀ out, (ctx out).Flat := fun out =>
    ⟨le_rfl, by simp [ctx, h.memory], by simp [ctx, h.chosen], by simp [ctx, h.rsv]⟩
  have hread : ∀ out (p : Property) s₁, (ctx out).read p.name p.value = .ok s₁ → s₁ = ctx () := by
    intro out p s₁ hp
    simp [Scan.read, ctx, h.rsv, h.memory, h.chosen] at hp
    rw [← hp]
    simp [ctx, h.rsv, h.memory, h.chosen]
  rw [henter] at hrun
  obtain ⟨rfl, hheight⟩ :=
    run_flat (f := fun _ _ => ()) (k := 2) (a := ()) hflat (fun _ => rfl) hread hrun
  refine ⟨?_, by omega⟩
  have hempty : Found.none.onto s.info = s.info := by
    rw [Found.none, Found.onto_of_entropy h.entropy, List.append_nil, List.append_nil]
  simp [Scan.leave, ctx, Scan.add, hempty, h.depth, h.memory, h.chosen, h.rsv]

/-- The context inside a reserved-memory node, with its cell sizes and the reservations. -/
def Scan.inRsv (s : Scan) (c : Cells) (out : List MemRegion) : Scan :=
  { s with
    depth := 2, rsvNode := true, rsvAddrCells := c.addr, rsvSizeCells := c.size
    info := { s.info with reserved := out } }

/-- A property of a reserved-memory node sets its cell sizes. -/
lemma read_inRsv (h : s.InRoot) {c : Cells} {out : List MemRegion} {p : Property} {s₁ : Scan}
    (hp : (s.inRsv c out).read p.name p.value = .ok s₁) : s₁ = s.inRsv (c.after p) out := by
  unfold Scan.read at hp
  rw [if_neg (by simp [Scan.inRsv]), if_neg (by simp [Scan.inRsv, h.memory]),
    if_pos ⟨rfl, rfl⟩] at hp
  unfold Cells.after
  split_ifs at hp ⊢
  · cases hcells : cellCount p.value with
    | error e => simp [hcells, Except.map] at hp
    | ok n =>
      rw [hcells] at hp
      obtain rfl := Except.ok.inj hp
      rw [cellCount_inv hcells]
      rfl
  · cases hcells : cellCount p.value with
    | error e => simp [hcells, Except.map] at hp
    | ok n =>
      rw [hcells] at hp
      obtain rfl := Except.ok.inj hp
      rw [cellCount_inv hcells]
      rfl
  · exact (Except.ok.inj hp).symm

/-- A subnode of a reserved-memory node adds its `reg` entries to the reservations. -/
lemma run_rsvChild (h : s.InRoot) {c : Cells} {out : List MemRegion} {name : List UInt8}
    {body : Items} (hrun : Scan.tokens body.tokens ((s.inRsv c out).enter name) = .ok s') :
    s'.leave = s.inRsv c (out ++ body.regs c) ∧ 3 + body.height ≤ 32 := by
  let ctx : List MemRegion → Scan := fun out => { s.inRsv c out with depth := 3 }
  have henter : (s.inRsv c out).enter name = ctx out := by
    simp [Scan.enter, Scan.inRsv, ctx]
  have hflat : ∀ out, (ctx out).Flat := fun out =>
    ⟨by simp [ctx], by simp [ctx, Scan.inRsv, h.memory], by simp [ctx, Scan.inRsv, h.chosen],
      fun _ => le_rfl⟩
  have hread : ∀ out (p : Property) s₁, (ctx out).read p.name p.value = .ok s₁ →
      s₁ = ctx (out ++ p.regs c) := by
    intro out p s₁ hp
    by_cases hreg : p.name = ascii "reg"
    · unfold Scan.read at hp
      rw [if_neg (by simp [ctx]), if_neg (by simp [ctx, Scan.inRsv, h.memory]),
        if_neg (by simp [ctx]), if_pos ⟨rfl, rfl, hreg⟩] at hp
      simp only [ctx, Scan.inRsv, pushReservedRegions] at hp
      cases hparse : parseReg p.value c.addr c.size maxRsvRegions out with
      | error e => simp [hparse, Except.map] at hp
      | ok out' =>
        simp only [hparse, Except.map] at hp
        obtain rfl := Except.ok.inj hp
        rw [parseReg_inv hparse, Property.regs, if_pos hreg]
        rfl
    · have hregs : p.regs c = [] := if_neg hreg
      simp [Scan.read, ctx, Scan.inRsv, hreg, h.memory, h.chosen] at hp
      rw [hregs, List.append_nil, ← hp]
      simp [ctx, Scan.inRsv, h.memory, h.chosen]
  rw [henter] at hrun
  obtain ⟨rfl, hheight⟩ := run_flat (k := 3) hflat (fun _ => rfl) hread hrun
  refine ⟨?_, by omega⟩
  rw [foldProps_regs]
  simp [Scan.leave, ctx, Scan.inRsv, h.memory, h.chosen]

/-- The inside of a reserved-memory node adds the `reg` entries of its subnodes. -/
lemma run_inRsv (h : s.InRoot) {items : Items} {c : Cells} {out : List MemRegion}
    (hrun : Scan.tokens items.tokens (s.inRsv c out) = .ok s') :
    (∃ c', s' = s.inRsv c' (out ++ items.childRegs c)) ∧ 2 + items.height ≤ 32 := by
  induction items generalizing c out with
  | nil => exact ⟨⟨c, by simpa [Items.childRegs] using (Except.ok.inj hrun).symm⟩, by decide⟩
  | prop p rest ih =>
    obtain ⟨s₁, -, hread, hrest⟩ := run_prop hrun
    obtain rfl := read_inRsv h hread
    exact ih hrest
  | node name body rest _ ih =>
    obtain ⟨s₁, -, -, hbody, hrest⟩ := run_node hrun
    obtain ⟨hleave, hheight⟩ := run_rsvChild h hbody
    rw [hleave] at hrest
    obtain ⟨⟨c', hs'⟩, hheight'⟩ := ih hrest
    refine ⟨⟨c', ?_⟩, ?_⟩
    · rw [hs', Items.childRegs, List.append_assoc]
    · simp only [Items.height]
      omega

/-- A reserved-memory node begins with the cell sizes of the root that are in force. -/
lemma enter_reservedMemory (h : s.InRoot) :
    s.enter (ascii "reserved-memory") = s.inRsv s.cells s.info.reserved := by
  have hm : ¬ (s.depth + 1 = 2 ∧ (ascii "reserved-memory" = ascii "memory" ∨
      (ascii "memory@").isPrefixOf (ascii "reserved-memory"))) := fun e => absurd e.2 (by decide)
  have hc : ascii "reserved-memory" ≠ ascii "chosen" := by decide
  simp only [Scan.enter]
  rw [if_neg hm]
  simp [Scan.inRsv, Scan.cells, hc, h.depth]

/-- A reserved-memory node adds the `reg` entries of its subnodes to the reservations. Besides, it
leaves only its cell sizes behind, which nothing reads. -/
lemma run_reservedMemory (h : s.InRoot) {body : Items}
    (hrun : Scan.tokens body.tokens (s.enter (ascii "reserved-memory")) = .ok s') :
    (∃ a b, s'.leave =
      { s.add ⟨[], body.childRegs s.cells, []⟩ with rsvAddrCells := a, rsvSizeCells := b }) ∧
      2 + body.height ≤ 32 := by
  rw [enter_reservedMemory h] at hrun
  obtain ⟨⟨c', rfl⟩, hheight⟩ := run_inRsv h hrun
  refine ⟨⟨c'.addr, c'.size, ?_⟩, hheight⟩
  simp [Scan.leave, Scan.inRsv, Scan.add, Found.onto_of_entropy h.entropy, h.depth, h.memory,
    h.chosen, h.rsv]

/-- A node of the root adds its contents, and leaves the cell sizes of the root alone. -/
lemma run_contents (h : s.InRoot) {name : List UInt8} {body : Items}
    (hrun : Scan.tokens body.tokens (s.enter name) = .ok s') :
    s'.leave.InRoot ∧ s'.leave.cells = s.cells ∧
      s'.leave.info = (Items.contents s.cells name body).onto s.info ∧ 2 + body.height ≤ 32 := by
  unfold Items.contents
  split_ifs with hm hr hc
  · obtain ⟨he, hheight⟩ := run_memory h hm hrun
    rw [he]
    exact ⟨h.add _, rfl, rfl, hheight⟩
  · subst hr
    obtain ⟨⟨a, b, he⟩, hheight⟩ := run_reservedMemory h hrun
    have hadd := h.add ⟨[], body.childRegs s.cells, []⟩
    rw [he]
    exact ⟨⟨hadd.depth, hadd.memory, hadd.chosen, hadd.rsv, hadd.entropy⟩, rfl, rfl, hheight⟩
  · subst hc
    obtain ⟨he, hheight⟩ := run_chosen h hrun
    rw [he]
    exact ⟨h.add _, rfl, rfl, hheight⟩
  · obtain ⟨he, hheight⟩ := run_other h hm hr hc hrun
    rw [he]
    exact ⟨h.add _, rfl, rfl, hheight⟩

/-- A property of a root node sets cell sizes. -/
lemma read_inRoot (h : s.InRoot) {p : Property} {s₁ : Scan}
    (hp : s.read p.name p.value = .ok s₁) :
    s₁.InRoot ∧ s₁.cells = s.cells.after p ∧ s₁.info = s.info := by
  unfold Scan.read at hp
  rw [if_pos h.depth] at hp
  unfold Cells.after
  split_ifs at hp ⊢
  · cases hcells : cellCount p.value with
    | error e => simp [hcells, Except.map] at hp
    | ok n =>
      rw [hcells] at hp
      obtain rfl := Except.ok.inj hp
      rw [cellCount_inv hcells]
      exact ⟨⟨h.depth, h.memory, h.chosen, h.rsv, h.entropy⟩, rfl, rfl⟩
  · cases hcells : cellCount p.value with
    | error e => simp [hcells, Except.map] at hp
    | ok n =>
      rw [hcells] at hp
      obtain rfl := Except.ok.inj hp
      rw [cellCount_inv hcells]
      exact ⟨⟨h.depth, h.memory, h.chosen, h.rsv, h.entropy⟩, rfl, rfl⟩
  · obtain rfl := Except.ok.inj hp
    exact ⟨h, rfl, rfl⟩

/-- The inside of a root node adds its contents. -/
lemma run_inRoot {items : Items} (h : s.InRoot)
    (hrun : Scan.tokens items.tokens s = .ok s') :
    s'.InRoot ∧ s'.cells = items.cellsAfter s.cells ∧
      s'.info = (items.inRoot s.cells).onto s.info ∧ 1 + items.height ≤ 32 := by
  induction items generalizing s with
  | nil =>
    obtain rfl := Except.ok.inj hrun
    have hempty : Found.none.onto s.info = s.info := by
      rw [Found.none, Found.onto_of_entropy h.entropy, List.append_nil, List.append_nil]
    exact ⟨h, rfl, hempty.symm, by decide⟩
  | prop p rest ih =>
    obtain ⟨s₁, -, hread, hrest⟩ := run_prop hrun
    obtain ⟨hin, hcells, hinfo⟩ := read_inRoot h hread
    obtain ⟨h1, h2, h3, h4⟩ := ih hin hrest
    rw [hcells] at h2 h3
    rw [hinfo] at h3
    exact ⟨h1, h2, h3, h4⟩
  | node name body rest _ ih =>
    obtain ⟨s₁, -, -, hbody, hrest⟩ := run_node hrun
    obtain ⟨hin, hcells, hinfo, hheight⟩ := run_contents h hbody
    obtain ⟨h1, h2, h3, h4⟩ := ih hin hrest
    rw [hcells] at h2 h3
    rw [hinfo, Found.onto_onto] at h3
    refine ⟨h1, h2, h3, ?_⟩
    simp only [Items.height]
    omega

/-- The context between root nodes. -/
structure Scan.AtTop (s : Scan) : Prop where
  depth : s.depth = 0
  memory : s.memoryDepth = none
  chosen : s.chosenDepth = none
  rsv : s.rsvNode = false
  entropy : s.info.entropy.length ≤ maxEntropy

/-- Entering a root node. -/
lemma Scan.AtTop.enter (h : s.AtTop) (name : List UInt8) :
    s.enter name = { s with depth := 1 } ∧ (s.enter name).InRoot := by
  have henter : s.enter name = { s with depth := 1 } := by
    simp [Scan.enter, h.depth]
  rw [henter]
  exact ⟨rfl, rfl, h.memory, h.chosen, h.rsv, h.entropy⟩

/-- Leaving a root node. -/
lemma Scan.InRoot.leave (h : s.InRoot) : s.leave = { s with depth := 0 } ∧ s.leave.AtTop := by
  have hleave : s.leave = { s with depth := 0 } := by
    simp [Scan.leave, h.depth, h.memory, h.chosen, h.rsv]
  rw [hleave]
  exact ⟨rfl, rfl, h.memory, h.chosen, h.rsv, h.entropy⟩

/-- A run over the structure block: there are only unnamed nodes at the top, the depth limit is
kept, and the contents of all of them are added. -/
lemma run_collect {items : Items} (h : s.AtTop) (hrun : Scan.tokens items.tokens s = .ok s') :
    items.Roots ∧ items.height ≤ 32 ∧ s'.info = (items.collect s.cells).onto s.info := by
  induction items generalizing s with
  | nil =>
    obtain rfl := Except.ok.inj hrun
    have hempty : Found.none.onto s.info = s.info := by
      rw [Found.none, Found.onto_of_entropy h.entropy, List.append_nil, List.append_nil]
    exact ⟨trivial, by decide, hempty.symm⟩
  | prop p rest ih =>
    obtain ⟨-, hdepth, -⟩ := run_prop hrun
    exact absurd h.depth hdepth
  | node name body rest _ ih =>
    obtain ⟨s₁, -, hname, hbody, hrest⟩ := run_node hrun
    obtain ⟨henter, hroot⟩ := h.enter name
    obtain ⟨hin, hcells, hinfo, hheight⟩ := run_inRoot hroot hbody
    obtain ⟨hleave, htop⟩ := hin.leave
    obtain ⟨h1, h2, h3⟩ := ih htop hrest
    refine ⟨⟨hname h.depth, h1⟩, ?_, ?_⟩
    · simp only [Items.height]
      omega
    · have hcells' : s₁.leave.cells = body.cellsAfter s.cells := by
        rw [hleave]
        exact hcells.trans (by rw [henter]; rfl)
      have hinfo' : s₁.leave.info = (body.inRoot s.cells).onto s.info := by
        rw [hleave]
        exact hinfo.trans (by rw [henter]; rfl)
      rw [h3, hcells', hinfo', Found.onto_onto]
      rfl

end Contents

/-! ### The blob -/

/-- The reservation loop has read pairs up to a pair of zeros, and appended the nonempty ones. -/
lemma rsvLoop_reads {blob : List UInt8} (hlen : blob.length < 2 ^ 63) {fuel off : ℕ}
    {info i : BootInfo} (h : rsvLoop blob fuel off info = .ok i) :
    ∃ rsv, (0, 0) ∉ rsv ∧ At blob off (rsvBytes rsv) ∧
      i = { info with reserved := info.reserved ++ reservations rsv } := by
  induction fuel generalizing off info with
  | zero => cases h
  | succ fuel ih =>
    rw [rsvLoop] at h
    obtain ⟨base, hbase, hsizes⟩ := except_bind_eq_ok.mp h
    clear h
    obtain ⟨size, hsize, h⟩ := except_bind_eq_ok.mp hsizes
    clear hsizes
    obtain ⟨hbat, hblt⟩ := be64_at hbase hlen
    obtain ⟨hsat, hslt⟩ := be64_at hsize hlen
    have hpair : At blob off (dword base ++ dword size) :=
      hbat.append (by rwa [length_dword])
    split_ifs at h with hzero hskip
    · obtain ⟨rfl, rfl⟩ := hzero
      obtain rfl := Except.ok.inj h
      exact ⟨[], by simp, hpair, by simp [reservations]⟩
    all_goals
      -- the pair as machine words
      have hb : (UInt64.ofNat base).toNat = base := by
        rw [UInt64.toNat_ofNat']
        exact Nat.mod_eq_of_lt hblt
      have hs : (UInt64.ofNat size).toNat = size := by
        rw [UInt64.toNat_ofNat']
        exact Nat.mod_eq_of_lt hslt
      have hne : (UInt64.ofNat base, UInt64.ofNat size) ≠ (0, 0) := by
        intro he
        obtain ⟨h1, h2⟩ := Prod.mk.inj he
        exact hzero ⟨by rw [← hb, h1]; rfl, by rw [← hs, h2]; rfl⟩
      have hcons : ∀ rsv, At blob (off + 16) (rsvBytes rsv) →
          At blob off (rsvBytes ((UInt64.ofNat base, UInt64.ofNat size) :: rsv)) := by
        intro rsv hat
        have hbytes : rsvBytes ((UInt64.ofNat base, UInt64.ofNat size) :: rsv) =
            dword base ++ dword size ++ rsvBytes rsv := by
          simp [rsvBytes, hb, hs]
        rw [hbytes]
        exact hpair.append (by rwa [List.length_append, length_dword, length_dword])
    · obtain ⟨rsv, hno, hat, rfl⟩ := ih h
      have hsize0 : UInt64.ofNat size = 0 := by
        rw [hskip]
        rfl
      have heq : reservations ((UInt64.ofNat base, UInt64.ofNat size) :: rsv) =
          reservations rsv := by
        rw [hsize0] at hne ⊢
        simp [reservations, hne]
      refine ⟨(UInt64.ofNat base, UInt64.ofNat size) :: rsv, ?_, hcons rsv hat, by rw [heq]⟩
      rw [List.mem_cons]
      rintro (he | he)
      · exact hne he.symm
      · exact hno he
    · obtain ⟨info₁, hpush, h⟩ := except_bind_eq_ok.mp h
      obtain ⟨rsv, hno, hat, rfl⟩ := ih h
      have hsize0 : UInt64.ofNat size ≠ 0 := by
        intro he
        rw [he] at hs
        exact hskip hs.symm
      have heq : reservations ((UInt64.ofNat base, UInt64.ofNat size) :: rsv) =
          ⟨base, size⟩ :: reservations rsv := by
        simp [reservations, hne, hsize0, hb, hs]
      unfold pushReserved at hpush
      split_ifs at hpush
      obtain rfl := Except.ok.inj hpush
      refine ⟨(UInt64.ofNat base, UInt64.ofNat size) :: rsv, ?_, hcons rsv hat, ?_⟩
      · rw [List.mem_cons]
        rintro (he | he)
        · exact hne he.symm
        · exact hno he
      · rw [heq, List.append_assoc]
        rfl

/-- The context before the first token, with the reservations of the reservation block. -/
def Scan.start (off : ℕ) (dtb : Span) (rsv : List (UInt64 × UInt64)) : Scan :=
  Scan.init off ⟨dtb, [], reservations rsv, []⟩

/-- No node is open before the first token. -/
lemma Scan.start_atTop (off : ℕ) (dtb : Span) (rsv : List (UInt64 × UInt64)) :
    (Scan.start off dtb rsv).AtTop :=
  ⟨rfl, rfl, rfl, rfl, Nat.zero_le _⟩

/-- A blob that the parser accepts holds reservations and a forest, and the result is what the run
over its tokens leaves.

**Proof sketch.** The loops have read reservations and tokens. The tokens end at depth zero, so they
flatten a forest. -/
lemma exists_run_of_parseBlob {blob : List UInt8} {dtb : Span} {info : BootInfo}
    (hlen : blob.length < 2 ^ 63) (h : parseBlob blob dtb = .ok info) :
    ∃ rsv forest, ∃ r : Reads blob rsv forest, ∃ s,
      Scan.tokens forest.tokens (Scan.start r.offStruct dtb rsv) = .ok s ∧ s.info = info := by
  unfold parseBlob at h
  obtain ⟨offStruct, hoffStruct, h⟩ := except_bind_eq_ok.mp h
  obtain ⟨offStrings, hoffStrings, h⟩ := except_bind_eq_ok.mp h
  obtain ⟨version, hversion, h⟩ := except_bind_eq_ok.mp h
  obtain ⟨lastComp, hlastComp, h⟩ := except_bind_eq_ok.mp h
  obtain ⟨sizeStrings, hsizeStrings, h⟩ := except_bind_eq_ok.mp h
  obtain ⟨sizeStruct, hsizeStruct, h⟩ := except_bind_eq_ok.mp h
  split_ifs at h with hsupported haligned
  obtain ⟨structEnd, hstruct, h⟩ := except_bind_eq_ok.mp h
  obtain ⟨stringsEnd, hstrings, h⟩ := except_bind_eq_ok.mp h
  obtain ⟨offRsvmap, hoffRsvmap, h⟩ := except_bind_eq_ok.mp h
  split_ifs at h with hrsv8
  obtain ⟨info₁, hrsv, h⟩ := except_bind_eq_ok.mp h
  obtain ⟨info₂, htok, h⟩ := except_bind_eq_ok.mp h
  split_ifs at h with hmem
  obtain rfl := Except.ok.inj h
  obtain ⟨rfl, hstructle⟩ := blockEnd_ok hstruct
  obtain ⟨rfl, hstringsle⟩ := blockEnd_ok hstrings
  obtain ⟨rsv, hno, hrsvat, rfl⟩ := rsvLoop_reads hlen hrsv
  obtain ⟨strings, hslen, hsat⟩ := exists_at hstringsle
  have hfits : Blocks.Fits ⟨blob, offStruct + sizeStruct, offStrings, offStrings + sizeStrings⟩
      strings := ⟨hlen, hstructle, by dsimp only; omega, hsat, by rw [hslen]⟩
  obtain ⟨ts, bs, s', hts, hnul, hat, hle, hrun, hdepth, rfl⟩ :=
    tokenLoop_reads hfits (show 4 ∣ offStruct by omega) htok
  -- the tokens other than `FDT_NOP` flatten a forest
  rw [← tokens_filter] at hrun
  obtain ⟨forest, outer, houter, htokens⟩ :=
    exists_items (fun t ht => (List.mem_filter.mp ht).2) hrun hdepth
  obtain rfl : outer = [] := List.eq_nil_of_length_eq_zero houter
  have hforest : ts.filter Token.isCode = forest.tokens := htokens
  rw [hforest] at hrun
  obtain ⟨hroots, hheight, hinfo⟩ := run_collect (Scan.start_atTop offStruct dtb rsv) hrun
  have hnonempty : forest ≠ .nil := by
    rintro rfl
    exact hmem (by rw [hinfo]; rfl)
  have hbytes : (bs ++ word 9).length ≤ sizeStruct := by
    have hinit : (Scan.init offStruct
      ⟨dtb, [], [] ++ reservations rsv, []⟩).off = offStruct := rfl
    dsimp only at hle
    rw [hinit] at hle
    omega
  let reads : Reads blob rsv forest :=
    { offStruct := offStruct
      sizeStruct := sizeStruct
      offStrings := offStrings
      sizeStrings := sizeStrings
      offRsvmap := offRsvmap
      version := version
      lastCompVersion := lastComp
      strings := strings
      bytes := bs
      tokens := ts
      off_struct := be32_at hoffStruct hlen
      off_strings := be32_at hoffStrings hlen
      off_rsvmap := be32_at hoffRsvmap hlen
      version_at := be32_at hversion hlen
      last_comp_version := be32_at hlastComp hlen
      size_strings := be32_at hsizeStrings hlen
      size_struct := be32_at hsizeStruct hlen
      off_struct_lt := be32_lt hoffStruct
      off_strings_lt := be32_lt hoffStrings
      off_rsvmap_lt := be32_lt hoffRsvmap
      version_lt := be32_lt hversion
      last_comp_version_lt := be32_lt hlastComp
      size_strings_lt := be32_lt hsizeStrings
      size_struct_lt := be32_lt hsizeStruct
      version_ge := by
        unfold supportedVersion at hsupported
        omega
      last_comp_version_le := by
        unfold supportedVersion at hsupported
        omega
      off_struct_aligned := by omega
      size_struct_aligned := by omega
      struct_le := hstructle
      off_rsvmap_aligned := by omega
      rsvmap_at := hrsvat
      rsv_ne := hno
      strings_at := hsat
      strings_length := hslen
      struct_at := hat
      bytes_le := hbytes
      struct_bytes := hts
      nul_free := hnul
      tokens_eq := hforest
      roots := hroots
      nonempty := hnonempty
      height_le := hheight }
  exact ⟨rsv, forest, reads, s', hrun, rfl⟩

/-- Soundness of the parser. A blob that it accepts has a header in order, a terminated reservation
block, and a structure block that starts with balanced, unnamed root nodes and `FDT_END`. The result
is the nonempty reservations and `reg` entries in document order, decoded with the cell sizes in
force, and the first bytes of the seeds up to the limit.

**Proof sketch.** The result is what the run over the tokens of the forest leaves, and that run has
added the contents of the forest to the reservations. -/
theorem parseBlob_reads {blob : List UInt8} {dtb : Span} {info : BootInfo}
    (hlen : blob.length < 2 ^ 63) (h : parseBlob blob dtb = .ok info) :
    ∃ rsv forest, ∃ _ : Reads blob rsv forest,
      info = ⟨dtb, (forest.collect Cells.default).memory,
        reservations rsv ++ (forest.collect Cells.default).reserved,
        (forest.collect Cells.default).entropy.take maxEntropy⟩ := by
  obtain ⟨rsv, forest, hreads, s, hrun, rfl⟩ := exists_run_of_parseBlob hlen h
  exact ⟨rsv, forest, hreads, (run_collect (Scan.start_atTop _ dtb rsv) hrun).2.2⟩

section Blob

/-- The blob of a board with one bank is read back. -/
theorem parseBlob_reads_oneBank :
    ∃ rsv forest, ∃ _ : Reads oneBankBlob rsv forest,
      (⟨⟨0x48000000, 0x48000080⟩, [⟨0x40000000, 0x40000000⟩], [], []⟩ : BootInfo) =
        ⟨⟨0x48000000, 0x48000080⟩, (forest.collect Cells.default).memory,
          reservations rsv ++ (forest.collect Cells.default).reserved,
          (forest.collect Cells.default).entropy.take maxEntropy⟩ :=
  parseBlob_reads (by decide +kernel) (by decide +kernel)

/-- A blob of version 17 without reservations. The structure block with `bytes` stands at 56, behind
the header and the empty reservation block, and the strings block stands behind it. -/
def plainBlob (total offStrings sizeStrings sizeStruct : ℕ) (bytes strings : List UInt8) :
    List UInt8 :=
  word 0xd00dfeed ++ word total ++ word 56 ++ word offStrings ++ word 40 ++ word 17 ++ word 16 ++
    word 0 ++ word sizeStrings ++ word sizeStruct ++ (dword 0 ++ dword 0) ++ (bytes ++ word 9) ++
    strings

/-- A blob that is laid out in this way contains what its structure block does. -/
lemma nonempty_reads_plainBlob {total offStrings sizeStrings sizeStruct : ℕ}
    {bytes strings : List UInt8} {forest : Items}
    (hsize : sizeStruct = bytes.length + 4 ∧ 4 ∣ sizeStruct) (hoff : offStrings = 56 + sizeStruct)
    (hstrings : sizeStrings = strings.length) (hlt : offStrings + sizeStrings < 2 ^ 32)
    (hbytes : TokensBytes strings forest.tokens bytes) (hnul : ∀ t ∈ forest.tokens, t.NulFree)
    (hcode : forest.tokens.filter Token.isCode = forest.tokens) (hroots : forest.Roots)
    (hne : forest ≠ .nil) (hheight : forest.height ≤ 32) :
    Nonempty (Reads (plainBlob total offStrings sizeStrings sizeStruct bytes strings) []
      forest) := by
  obtain ⟨hsize, halign⟩ := hsize
  -- the blob, part by part
  have h0 : At (plainBlob total offStrings sizeStrings sizeStruct bytes strings) 0
      (word 0xd00dfeed ++ (word total ++ (word 56 ++ (word offStrings ++ (word 40 ++ (word 17 ++
        (word 16 ++ (word 0 ++ (word sizeStrings ++ (word sizeStruct ++ ((dword 0 ++ dword 0) ++
          ((bytes ++ word 9) ++ strings)))))))))))) :=
    ⟨[], [], by simp [plainBlob], rfl⟩
  have h8 := h0.right.right
  have h12 := h8.right
  have h16 := h12.right
  have h20 := h16.right
  have h24 := h20.right
  have h32 := h24.right.right
  have h36 := h32.right
  have h40 := h36.right
  have h56 := h40.right
  have hend := h56.right
  simp only [length_word, Nat.zero_add, Nat.reduceAdd] at h8 h12 h16 h20 h24 h32 h36 h40
  simp only [length_word, length_dword, List.length_append, Nat.zero_add, Nat.reduceAdd] at h56 hend
  have hle := h56.le
  rw [List.length_append, List.length_append, length_word] at hle
  obtain rfl : offStrings = 56 + (bytes.length + 4) := by omega
  exact ⟨{
    offStruct := 56
    sizeStruct := sizeStruct
    offStrings := 56 + (bytes.length + 4)
    sizeStrings := sizeStrings
    offRsvmap := 40
    version := 17
    lastCompVersion := 16
    strings := strings
    bytes := bytes
    tokens := forest.tokens
    off_struct := h8.left
    off_strings := h12.left
    off_rsvmap := h16.left
    version_at := h20.left
    last_comp_version := h24.left
    size_strings := h32.left
    size_struct := h36.left
    off_struct_lt := by decide
    off_strings_lt := by omega
    off_rsvmap_lt := by decide
    version_lt := by decide
    last_comp_version_lt := by decide
    size_strings_lt := by omega
    size_struct_lt := by omega
    version_ge := le_rfl
    last_comp_version_le := by decide
    off_struct_aligned := by decide
    size_struct_aligned := halign
    struct_le := by omega
    off_rsvmap_aligned := by decide
    rsvmap_at := h40.left
    rsv_ne := by simp
    strings_at := hend
    strings_length := hstrings.symm
    struct_at := h56.left
    bytes_le := by
      rw [List.length_append, length_word]
      omega
    struct_bytes := hbytes
    nul_free := hnul
    tokens_eq := hcode
    roots := hroots
    nonempty := hne
    height_le := hheight }⟩

/-- A seed of 80 bytes. -/
def longSeed : List UInt8 := List.replicate 80 7

/-- A board with one bank of memory and a long seed. -/
def longSeedForest : Items :=
  .node [] (.node (ascii "memory") (.prop ⟨ascii "reg", dword 0x40000000 ++ word 0x40000000⟩ .nil)
    (.node (ascii "chosen") (.prop ⟨ascii "rng-seed", longSeed⟩ .nil) .nil)) .nil

/-- The structure block of `longSeedForest`. -/
def longSeedStruct : List UInt8 :=
  (word 1 ++ [0, 0, 0, 0]) ++ ((word 1 ++ (ascii "memory" ++ [0, 0])) ++
    ((word 3 ++ word 12 ++ word 0 ++ (dword 0x40000000 ++ word 0x40000000)) ++ (word 2 ++
      ((word 1 ++ (ascii "chosen" ++ [0, 0])) ++ ((word 3 ++ word 80 ++ word 4 ++ longSeed) ++
        (word 2 ++ (word 2 ++ [])))))))

/-- A blob with `longSeedForest`. -/
def longSeedBlob : List UInt8 :=
  word 0xd00dfeed ++ word 233 ++ word 56 ++ word 220 ++ word 40 ++ word 17 ++ word 16 ++ word 0 ++
    word 13 ++ word 164 ++ (dword 0 ++ dword 0) ++ (longSeedStruct ++ word 9) ++
    (ascii "reg" ++ [0] ++ ascii "rng-seed" ++ [0])

/-- What the blob contains. -/
lemma nonempty_longSeedReads : Nonempty (Reads longSeedBlob [] longSeedForest) := by
  show Nonempty (Reads (plainBlob 233 220 13 164 longSeedStruct
    (ascii "reg" ++ [0] ++ ascii "rng-seed" ++ [0])) [] longSeedForest)
  refine nonempty_reads_plainBlob (by decide +kernel) rfl (by decide) (by decide) ?_ (by decide)
    rfl ⟨rfl, trivial⟩ (by simp [longSeedForest]) (by decide)
  refine .cons (.beginNode ⟨[0, 0, 0], rfl, by decide, by decide⟩) (.cons
    (.beginNode ⟨[0], by decide, by decide, by decide⟩) (.cons (.prop ?_ ?_) (.cons .endNode
      (.cons (.beginNode ⟨[0], by decide, by decide, by decide⟩) (.cons (.prop ?_ ?_)
        (.cons .endNode (.cons .endNode .nil)))))))
  · exact .of_slice (by decide)
  · exact ⟨[], by decide, by decide, by decide⟩
  · exact .of_slice (by decide)
  · exact ⟨[], by decide, by decide, by decide⟩

/-- Not everything that the nodes hold is recorded: of the seed only the first 72 bytes are. -/
theorem parseBlob_longSeed :
    ∃ _ : Reads longSeedBlob [] longSeedForest,
      parseBlob longSeedBlob ⟨0x48000000, 0x480000e9⟩ =
        .ok ⟨⟨0x48000000, 0x480000e9⟩, [⟨0x40000000, 0x40000000⟩], [], List.replicate 72 7⟩ ∧
      (longSeedForest.collect Cells.default).entropy = longSeed ∧
      List.replicate 72 7 ≠ longSeed := by
  obtain ⟨hreads⟩ := nonempty_longSeedReads
  exact ⟨hreads, by decide +kernel, by decide +kernel, by decide +kernel⟩

end Blob

end K0.Fdt
