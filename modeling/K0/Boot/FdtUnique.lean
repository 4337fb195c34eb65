import K0.Boot.FdtForest
import K0.Boot.FdtScan

set_option relaxedAutoImplicit false
set_option autoImplicit false

/-!
# The format is unambiguous

A blob holds one list of reservations and one forest at most: the relation between blobs and their
contents, which describes what the parser accepts, is a partial function. So what is proved of
*some* contents of a blob holds of *the* contents. The bytes of the tokens decide where each token
ends, since names have no NUL inside and values come with their length, and the tokens decide the
forest, since the ends of the nodes match their begins.

## Main results

* `K0.Fdt.TokensBytes.unique`: the bytes of a structure block determine its tokens.
* `K0.Fdt.Items.tokens_injective`: the tokens determine the forest.
* `K0.Fdt.Reads.unique`: a blob determines its contents.
-/

namespace K0.Fdt

open Bytes

/-! ### Words and names -/

section Words

variable {n m : ℕ} {r r' : List UInt8}

/-- The first word of a string. -/
lemma word_append_inj (h : word n ++ r = word m ++ r') : word n = word m ∧ r = r' :=
  List.append_inj h (by rw [length_word, length_word])

/-- A word determines a number that fits. -/
lemma word_inj (h : word n = word m) (hn : n < 2 ^ 32) (hm : m < 2 ^ 32) : n = m := by
  have hdecode := congrArg fromBeBytes h
  unfold word at hdecode
  rwa [fromBeBytes_beBytes (by simpa using hn), fromBeBytes_beBytes (by simpa using hm)] at hdecode

/-- The first double word of a string. -/
lemma dword_append_inj (h : dword n ++ r = dword m ++ r') : dword n = dword m ∧ r = r' :=
  List.append_inj h (by rw [length_dword, length_dword])

/-- A double word determines a 64-bit number. -/
lemma dword_inj {x y : UInt64} (h : dword x.toNat = dword y.toNat) : x = y := by
  have hdecode := congrArg fromBeBytes h
  unfold dword at hdecode
  rw [fromBeBytes_beBytes (by simpa using x.toNat_lt),
    fromBeBytes_beBytes (by simpa using y.toNat_lt)] at hdecode
  exact UInt64.toNat_inj.mp hdecode

/-- A word where another one is. -/
lemma word_eq_of_at {blob : List UInt8} {off : ℕ} (h : At blob off (word n))
    (h' : At blob off (word m)) : word n = word m := by
  rw [← h.take_drop, ← h'.take_drop, length_word, length_word]

/-- A NUL-free name ends at the first NUL. -/
lemma name_inj {a b : List UInt8} (ha : 0 ∉ a) (hb : 0 ∉ b) (h : a ++ 0 :: r = b ++ 0 :: r') :
    a = b ∧ r = r' := by
  have hlen : a.length = b.length := by
    have hfind := congrArg (List.findIdx? (· == 0)) h
    rw [findIdx?_nul ha, findIdx?_nul hb] at hfind
    exact Option.some.inj hfind
  obtain ⟨rfl, hr⟩ := List.append_inj h hlen
  exact ⟨rfl, (List.cons.inj hr).2⟩

/-- The end of some bytes determines the end of their padding. -/
lemma padding_inj {bs padded padded' : List UInt8} (h : Padded bs padded) (h' : Padded bs padded')
    (he : padded ++ r = padded' ++ r') : padded = padded' ∧ r = r' := by
  obtain ⟨pad, rfl, hlt, hdvd⟩ := h
  obtain ⟨pad', rfl, hlt', hdvd'⟩ := h'
  refine List.append_inj he ?_
  rw [List.length_append, List.length_append]
  omega

/-- The string that occurs at an offset of the strings block. -/
lemma name_eq_of_at {strings a b : List UInt8} {off : ℕ} (ha : 0 ∉ a) (hb : 0 ∉ b)
    (h : At strings off (a ++ [0])) (h' : At strings off (b ++ [0])) : a = b := by
  obtain ⟨before, after, hs, hoff⟩ := h
  obtain ⟨before', after', hs', hoff'⟩ := h'
  have hrest := (List.append_inj ((List.append_assoc _ _ _).symm.trans (hs.symm.trans (hs'.trans
    (List.append_assoc _ _ _)))) (hoff.trans hoff'.symm)).2
  rw [List.append_assoc, List.append_assoc] at hrest
  exact (name_inj ha hb hrest).1

end Words

/-! ### Tokens -/

section Tokens

variable {strings : List UInt8} {t t' : Token} {bs bs' r r' : List UInt8}

/-- The number of a token. -/
def Token.code : Token → ℕ
  | .beginNode _ => 1
  | .endNode => 2
  | .prop _ => 3
  | .nop => 4

/-- The numbers of the tokens are below that of the end of the structure block. -/
lemma Token.code_lt (t : Token) : t.code < 9 := by
  cases t <;> simp [Token.code]

/-- The bytes of a token begin with its number. -/
lemma TokenBytes.code (h : TokenBytes strings t bs) : ∃ rest, bs = word t.code ++ rest := by
  cases h with
  | beginNode _ => exact ⟨_, rfl⟩
  | endNode => exact ⟨[], (List.append_nil _).symm⟩
  | prop _ _ => exact ⟨_, by rw [List.append_assoc, List.append_assoc]; rfl⟩
  | nop => exact ⟨[], (List.append_nil _).symm⟩

/-- The bytes of two tokens at the same place begin with the same number. -/
lemma TokenBytes.code_eq (h : TokenBytes strings t bs) (h' : TokenBytes strings t' bs')
    (he : bs ++ r = bs' ++ r') : t.code = t'.code := by
  obtain ⟨rest, rfl⟩ := h.code
  obtain ⟨rest', rfl⟩ := h'.code
  rw [List.append_assoc, List.append_assoc] at he
  have hlt := t.code_lt
  have hlt' := t'.code_lt
  exact word_inj (word_append_inj he).1 (by omega) (by omega)

/-- No token begins like the end of the structure block. -/
lemma TokenBytes.code_ne_end (h : TokenBytes strings t bs) : word 9 ++ r' ≠ bs ++ r := by
  intro he
  obtain ⟨rest, rfl⟩ := h.code
  rw [List.append_assoc] at he
  have hlt := t.code_lt
  have hcode := word_inj (word_append_inj he).1 (by decide) (by omega)
  omega

/-- The bytes of a token determine the token and its end. -/
lemma TokenBytes.unique (h : TokenBytes strings t bs) (h' : TokenBytes strings t' bs')
    (hn : t.NulFree) (hn' : t'.NulFree) (hs : strings.length < 2 ^ 32) (hlen : bs.length < 2 ^ 32)
    (hlen' : bs'.length < 2 ^ 32) (he : bs ++ r = bs' ++ r') : t = t' ∧ r = r' := by
  have hcode := h.code_eq h' he
  cases h with
  | @beginNode name padded hp =>
    cases h' with
    | @beginNode name' padded' hp' =>
      rw [List.append_assoc, List.append_assoc] at he
      have he₁ := (word_append_inj he).2
      -- the names end at the first NUL
      obtain ⟨pad, rfl, hpad⟩ := hp
      obtain ⟨pad', rfl, hpad'⟩ := hp'
      have hname : name = name' := by
        have he₂ := he₁
        simp only [List.append_assoc, List.cons_append, List.nil_append] at he₂
        exact (name_inj hn hn' he₂).1
      subst hname
      exact ⟨rfl, (padding_inj ⟨pad, rfl, hpad⟩ ⟨pad', rfl, hpad'⟩ he₁).2⟩
    | endNode => cases hcode
    | prop _ _ => cases hcode
    | nop => cases hcode
  | endNode =>
    cases h' with
    | beginNode _ => cases hcode
    | endNode => exact ⟨rfl, (word_append_inj he).2⟩
    | prop _ _ => cases hcode
    | nop => cases hcode
  | @prop p nameOff padded hname hp =>
    cases h' with
    | beginNode _ => cases hcode
    | endNode => cases hcode
    | @prop p' nameOff' padded' hname' hp' =>
      simp only [List.append_assoc] at he
      obtain ⟨hvalue, he₁⟩ := word_append_inj (word_append_inj he).2
      obtain ⟨hoff, he₂⟩ := word_append_inj he₁
      have hle := hname.le
      have hle' := hname'.le
      obtain ⟨pad, rfl, hpad⟩ := hp
      obtain ⟨pad', rfl, hpad'⟩ := hp'
      simp only [List.length_append, length_word] at hlen hlen' hle hle'
      have hsize : p.value.length = p'.value.length := word_inj hvalue (by omega) (by omega)
      obtain rfl : nameOff = nameOff' := word_inj hoff (by omega) (by omega)
      have hval : p.value = p'.value := by
        have he₃ := he₂
        simp only [List.append_assoc] at he₃
        exact (List.append_inj he₃ hsize).1
      have hprop : p = p' := by
        have hnames : p.name = p'.name := name_eq_of_at hn hn' hname hname'
        cases p
        cases p'
        simp only at hval hnames
        rw [hval, hnames]
      subst hprop
      exact ⟨rfl, (padding_inj ⟨pad, rfl, hpad⟩ ⟨pad', rfl, hpad'⟩ he₂).2⟩
    | nop => cases hcode
  | nop =>
    cases h' with
    | beginNode _ => cases hcode
    | endNode => cases hcode
    | prop _ _ => cases hcode
    | nop => exact ⟨rfl, (word_append_inj he).2⟩

/-- **The bytes of a structure block determine its tokens.** -/
theorem TokensBytes.unique {ts ts' : List Token} (h : TokensBytes strings ts bs)
    (h' : TokensBytes strings ts' bs') (hn : ∀ t ∈ ts, t.NulFree) (hn' : ∀ t ∈ ts', t.NulFree)
    (hs : strings.length < 2 ^ 32) (hlen : bs.length < 2 ^ 32) (hlen' : bs'.length < 2 ^ 32)
    (he : bs ++ (word 9 ++ r) = bs' ++ (word 9 ++ r')) : ts = ts' := by
  induction h generalizing ts' bs' with
  | nil =>
    cases h' with
    | nil => rfl
    | cons hb _ =>
      rw [List.nil_append, List.append_assoc] at he
      exact absurd he hb.code_ne_end
  | @cons t ts b rest hb _ ih =>
    cases h' with
    | nil =>
      rw [List.nil_append, List.append_assoc] at he
      exact absurd he.symm hb.code_ne_end
    | @cons t' ts' b' rest' hb' hrest' =>
      rw [List.append_assoc, List.append_assoc] at he
      rw [List.length_append] at hlen hlen'
      obtain ⟨rfl, he⟩ := hb.unique hb' (hn t List.mem_cons_self) (hn' t' List.mem_cons_self) hs
        (by omega) (by omega) he
      rw [ih hrest' (fun u hu => hn u (List.mem_cons_of_mem _ hu))
        (fun u hu => hn' u (List.mem_cons_of_mem _ hu)) (by omega) (by omega) he]

end Tokens

/-! ### Forests -/

/-- The tokens of some items, followed by the end of a node or by nothing, determine the items. -/
lemma Items.tokens_append_inj {items items' : Items} {l l' : List Token}
    (hl : ∀ t ∈ l.head?, t = .endNode) (hl' : ∀ t ∈ l'.head?, t = .endNode)
    (h : items.tokens ++ l = items'.tokens ++ l') : items = items' ∧ l = l' := by
  induction items generalizing items' l l' with
  | nil =>
    cases items' with
    | nil => exact ⟨rfl, h⟩
    | prop p rest =>
      rw [show Items.nil.tokens ++ l = l from rfl] at h
      have := hl (.prop p) (by rw [h]; rfl)
      cases this
    | node name body rest =>
      rw [show Items.nil.tokens ++ l = l from rfl] at h
      have := hl (.beginNode name) (by rw [h]; rfl)
      cases this
  | prop p rest ih =>
    cases items' with
    | nil =>
      rw [show Items.nil.tokens ++ l' = l' from rfl] at h
      have := hl' (.prop p) (by rw [← h]; rfl)
      cases this
    | prop p' rest' =>
      obtain ⟨hp, hrest⟩ := List.cons.inj h
      obtain ⟨rfl, hll⟩ := ih hl hl' hrest
      rw [Token.prop.inj hp]
      exact ⟨rfl, hll⟩
    | node name body rest => cases (List.cons.inj h).1
  | node name body rest ihbody ih =>
    cases items' with
    | nil =>
      rw [show Items.nil.tokens ++ l' = l' from rfl] at h
      have := hl' (.beginNode name) (by rw [← h]; rfl)
      cases this
    | prop p rest => cases (List.cons.inj h).1
    | node name' body' rest' =>
      simp only [Items.tokens, List.cons_append, List.append_assoc] at h
      obtain ⟨hname, htail⟩ := List.cons.inj h
      -- the body ends at the end of the node
      obtain ⟨rfl, hrest⟩ := ihbody (by simp) (by simp) htail
      obtain ⟨rfl, hll⟩ := ih hl hl' (List.cons.inj hrest).2
      rw [Token.beginNode.inj hname]
      exact ⟨rfl, hll⟩

/-- **The tokens determine the forest.** -/
theorem Items.tokens_injective {items items' : Items} (h : items.tokens = items'.tokens) :
    items = items' := by
  have happ : items.tokens ++ [] = items'.tokens ++ [] := by rw [h]
  have hnil : ∀ t ∈ ([] : List Token).head?, t = .endNode := nofun
  exact (tokens_append_inj hnil hnil happ).1

/-! ### The blob -/

/-- The bytes of the reservations determine them. -/
lemma rsvBytes_inj {rsv rsv' : List (UInt64 × UInt64)} {r r' : List UInt8} (hne : (0, 0) ∉ rsv)
    (hne' : (0, 0) ∉ rsv') (h : rsvBytes rsv ++ r = rsvBytes rsv' ++ r') : rsv = rsv' := by
  have hcons : ∀ (p : UInt64 × UInt64) l (r : List UInt8), rsvBytes (p :: l) ++ r =
      dword p.1.toNat ++ (dword p.2.toNat ++ (rsvBytes l ++ r)) := by
    intro p l r
    simp [rsvBytes]
  have hnil : ∀ r : List UInt8, rsvBytes [] ++ r =
      dword (0 : UInt64).toNat ++ (dword (0 : UInt64).toNat ++ r) := by
    intro r
    simp [rsvBytes]
  have hzero : ∀ (p : UInt64 × UInt64) l, (0, 0) ∉ p :: l → ∀ x x' : List UInt8,
      dword p.1.toNat ++ (dword p.2.toNat ++ x) ≠
        dword (0 : UInt64).toNat ++ (dword (0 : UInt64).toNat ++ x') := by
    intro p l hp x x' he
    obtain ⟨h1, he⟩ := dword_append_inj he
    obtain ⟨h2, -⟩ := dword_append_inj he
    exact hp (List.mem_cons.mpr (.inl (Prod.ext (dword_inj h1).symm (dword_inj h2).symm)))
  induction rsv generalizing rsv' with
  | nil =>
    cases rsv' with
    | nil => rfl
    | cons p' l' =>
      rw [hnil, hcons] at h
      exact absurd h.symm (hzero p' l' hne' _ _)
  | cons p l ih =>
    cases rsv' with
    | nil =>
      rw [hnil, hcons] at h
      exact absurd h (hzero p l hne _ _)
    | cons p' l' =>
      rw [hcons, hcons] at h
      obtain ⟨h1, h⟩ := dword_append_inj h
      obtain ⟨h2, h⟩ := dword_append_inj h
      rw [Prod.ext (dword_inj h1) (dword_inj h2),
        ih (fun hm => hne (List.mem_cons_of_mem _ hm))
          (fun hm => hne' (List.mem_cons_of_mem _ hm)) h]

/-- Two strings that occur at the same place, with what follows. -/
lemma append_eq_of_at {blob bs bs' : List UInt8} {off : ℕ} (h : At blob off bs)
    (h' : At blob off bs') : ∃ r r', bs ++ r = bs' ++ r' := by
  obtain ⟨before, after, hs, hoff⟩ := h
  obtain ⟨before', after', hs', hoff'⟩ := h'
  rw [List.append_assoc] at hs hs'
  exact ⟨after, after', (List.append_inj (hs.symm.trans hs') (hoff.trans hoff'.symm)).2⟩

/-- **A blob determines its contents.** There is at most one list of reservations and one forest
that a blob holds.

**Proof sketch.** The offsets and sizes fit in the words of the header, so they are the same. The
strings block is then the same, and the reservations, the tokens and the forest follow by the lemmas
above. -/
theorem Reads.unique {blob : List UInt8} {rsv rsv' : List (UInt64 × UInt64)}
    {forest forest' : Items} (h : Reads blob rsv forest) (h' : Reads blob rsv' forest') :
    rsv = rsv' ∧ forest = forest' := by
  have hoffStruct : h.offStruct = h'.offStruct :=
    word_inj (word_eq_of_at h.off_struct h'.off_struct) h.off_struct_lt h'.off_struct_lt
  have hoffStrings : h.offStrings = h'.offStrings :=
    word_inj (word_eq_of_at h.off_strings h'.off_strings) h.off_strings_lt h'.off_strings_lt
  have hoffRsvmap : h.offRsvmap = h'.offRsvmap :=
    word_inj (word_eq_of_at h.off_rsvmap h'.off_rsvmap) h.off_rsvmap_lt h'.off_rsvmap_lt
  have hsize : h.sizeStrings = h'.sizeStrings :=
    word_inj (word_eq_of_at h.size_strings h'.size_strings) h.size_strings_lt h'.size_strings_lt
  have hstr : h.strings = h'.strings := by
    rw [← h.strings_at.take_drop, ← h'.strings_at.take_drop, hoffStrings, h.strings_length,
      h'.strings_length, hsize]
  constructor
  · obtain ⟨r, r', he⟩ := append_eq_of_at h.rsvmap_at (hoffRsvmap ▸ h'.rsvmap_at)
    exact rsvBytes_inj h.rsv_ne h'.rsv_ne he
  · obtain ⟨r, r', he⟩ := append_eq_of_at h.struct_at (hoffStruct ▸ h'.struct_at)
    rw [List.append_assoc, List.append_assoc] at he
    have hstrings := h.strings_length ▸ h.size_strings_lt
    have hle := h.bytes_le
    have hle' := h'.bytes_le
    have hlt := h.size_struct_lt
    have hlt' := h'.size_struct_lt
    rw [List.length_append] at hle hle'
    have htokens : h.tokens = h'.tokens :=
      h.struct_bytes.unique (hstr ▸ h'.struct_bytes) h.nul_free h'.nul_free hstrings (by omega)
        (by omega) he
    apply Items.tokens_injective
    rw [← h.tokens_eq, ← h'.tokens_eq, htokens]

end K0.Fdt
