import K0.Boot.FdtScan

set_option relaxedAutoImplicit false
set_option autoImplicit false

/-!
# The parser computes the contents of the tree

The token loop keeps a flat context (the depth, three flags and two pairs of cell sizes) where a
recursive reader would have its call stack. Here the meaning of the tokens of a tree is computed
by recursion over the tree: a subtree below the interesting levels changes nothing
(`tokens_quiet`), the children of a reserved-memory node append their reservations
(`tokens_reserved`), and a child of the root contributes according to its name (`tokens_top`).

## Main results

* `K0.Fdt.parseBlob_encodes`: on every flattened form of a valid tree the parser returns exactly
  the memory, the reservations and the entropy of the tree.
-/

namespace K0.Fdt

open Word Bytes

/-! ### Values of properties -/

section Values

/-- A cell is read as a big-endian number. -/
lemma readCells_eq {bs : List UInt8} (h : bs.length ≤ 8) : readCells bs = fromBeBytes bs := by
  induction bs using List.reverseRecOn with
  | nil => rfl
  | append_singleton bs b ih =>
    rw [List.length_append, List.length_singleton] at h
    have hacc : fromBeBytes bs < 2 ^ 56 :=
      calc fromBeBytes bs < 256 ^ bs.length := fromBeBytes_lt bs
        _ ≤ 256 ^ 7 := Nat.pow_le_pow_right (by norm_num) (by omega)
        _ = 2 ^ 56 := by norm_num
    have hstep : readCells (bs ++ [b]) = (readCells bs <<< 8) % 2 ^ 64 ||| b.toNat := by
      simp [readCells, List.foldl_append]
    have hshift : (fromBeBytes bs <<< 8) % 2 ^ 64 = fromBeBytes bs <<< 8 := by
      rw [Nat.shiftLeft_eq]
      omega
    rw [hstep, ih (by omega), hshift, ← Nat.shiftLeft_add_eq_or_of_lt b.toNat_lt,
      Nat.shiftLeft_eq, fromBeBytes_concat]

/-- The entries of a `reg` value, from the first one on. -/
lemma decodeReg_cons {ac sc n : ℕ} {value : List UInt8} (hentry : 0 < (ac + sc) * 4)
    (hlen : value.length = (n + 1) * ((ac + sc) * 4)) :
    decodeReg ac sc value =
      ⟨fromBeBytes (value.take (ac * 4)), fromBeBytes ((value.drop (ac * 4)).take (sc * 4))⟩ ::
        decodeReg ac sc (value.drop ((ac + sc) * 4)) := by
  have hcount : value.length / ((ac + sc) * 4) = n + 1 := by
    rw [hlen]
    exact Nat.mul_div_cancel _ hentry
  have hrest : (value.drop ((ac + sc) * 4)).length / ((ac + sc) * 4) = n := by
    rw [List.length_drop, hlen, add_mul, one_mul, Nat.add_sub_cancel]
    exact Nat.mul_div_cancel _ hentry
  unfold decodeReg
  dsimp only
  rw [hcount, hrest, List.range_succ_eq_map, List.map_cons, List.map_map]
  congr 1
  · simp
  · refine List.map_congr_left fun i _ => ?_
    have hidx : (i + 1) * ((ac + sc) * 4) = (ac + sc) * 4 + i * ((ac + sc) * 4) := by
      rw [add_mul, one_mul, add_comm]
    simp only [Function.comp_apply, Nat.succ_eq_add_one, hidx, List.drop_drop]

/-- The loop over the entries of a `reg` value appends the nonempty ones. -/
lemma parseEntries_eq {ac sc limit n : ℕ} {value : List UInt8} {out : List MemRegion}
    (hac : 1 ≤ ac ∧ ac ≤ 2) (hsc : 1 ≤ sc ∧ sc ≤ 2) (hlen : value.length = n * ((ac + sc) * 4))
    (hroom : out.length + ((decodeReg ac sc value).filter fun r => r.size ≠ 0).length ≤ limit)
    (hwrap : ∀ r ∈ (decodeReg ac sc value).filter fun r => r.size ≠ 0, r.base + r.size < 2 ^ 64) :
    parseEntries (ac * 4) ((ac + sc) * 4) limit n value out =
      .ok (out ++ (decodeReg ac sc value).filter fun r => r.size ≠ 0) := by
  induction n generalizing value out with
  | zero =>
    have hnil : value = [] := List.eq_nil_of_length_eq_zero (by simpa using hlen)
    simp [parseEntries, hnil, decodeReg]
  | succ n ih =>
    have hentry : 0 < (ac + sc) * 4 := by omega
    have hrest : (value.drop ((ac + sc) * 4)).length = n * ((ac + sc) * 4) := by
      rw [List.length_drop, hlen, add_mul, one_mul, Nat.add_sub_cancel]
    have hbase : readCells ((value.take ((ac + sc) * 4)).take (ac * 4)) =
        fromBeBytes (value.take (ac * 4)) := by
      rw [List.take_take, Nat.min_eq_left (by omega)]
      exact readCells_eq (by rw [List.length_take]; omega)
    have hsize : readCells ((value.take ((ac + sc) * 4)).drop (ac * 4)) =
        fromBeBytes ((value.drop (ac * 4)).take (sc * 4)) := by
      rw [List.drop_take, show (ac + sc) * 4 - ac * 4 = sc * 4 by omega]
      exact readCells_eq (by rw [List.length_take]; omega)
    rw [decodeReg_cons hentry hlen] at hroom hwrap ⊢
    rw [parseEntries, hbase, hsize]
    set base := fromBeBytes (value.take (ac * 4))
    set size := fromBeBytes ((value.drop (ac * 4)).take (sc * 4))
    by_cases hs : size = 0
    · simp only [hs, ne_eq, decide_not, List.filter_cons, decide_true, Bool.not_true,
        Bool.false_eq_true, ↓reduceIte] at hroom hwrap ⊢
      simpa using ih hrest (by simpa using hroom) (by simpa using hwrap)
    · simp only [ne_eq, decide_not, List.filter_cons, hs, decide_false, Bool.not_false,
        ↓reduceIte, List.length_cons] at hroom hwrap ⊢
      have hok : base + size < 2 ^ 64 := hwrap ⟨base, size⟩ (by simp)
      rw [checkedAdd_of_lt hok, if_neg (by simp), if_neg (by omega)]
      have hroom' : (out ++ [(⟨base, size⟩ : MemRegion)]).length +
          ((decodeReg ac sc (value.drop ((ac + sc) * 4))).filter fun r => r.size ≠ 0).length ≤
            limit := by
        simp only [List.length_append, List.length_singleton, ne_eq, decide_not]
        omega
      have hnext := ih hrest hroom'
        (fun r hr => hwrap r (List.mem_cons_of_mem _ (by simpa using hr)))
      simpa using hnext

/-- A well-formed `reg` value is appended entry by entry. -/
lemma parseReg_eq {ac sc limit : ℕ} {value : List UInt8} {out : List MemRegion}
    (hac : 1 ≤ ac ∧ ac ≤ 2) (hsc : 1 ≤ sc ∧ sc ≤ 2) (hne : value ≠ [])
    (hdvd : (ac + sc) * 4 ∣ value.length)
    (hroom : out.length + ((decodeReg ac sc value).filter fun r => r.size ≠ 0).length ≤ limit)
    (hwrap : ∀ r ∈ (decodeReg ac sc value).filter fun r => r.size ≠ 0, r.base + r.size < 2 ^ 64) :
    parseReg value ac sc limit out =
      .ok (out ++ (decodeReg ac sc value).filter fun r => r.size ≠ 0) := by
  unfold parseReg
  dsimp only
  rw [if_neg (by omega), if_neg]
  · refine parseEntries_eq hac hsc ?_ hroom hwrap
    exact (Nat.div_mul_cancel hdvd).symm
  · rintro (h | h)
    · exact hne h
    · exact h (Nat.mod_eq_zero_of_dvd hdvd)

end Values

/-! ### Sequences of tokens -/

section Sequences

variable {s s₁ s₂ : Scan} {ts us : List Token}

/-- A token, and then the rest. -/
lemma tokens_cons {t : Token} (h : s.token t = .ok s₁) (hs : Scan.tokens ts s₁ = .ok s₂) :
    Scan.tokens (t :: ts) s = .ok s₂ := by
  simp only [Scan.tokens, h]
  exact hs

/-- A sequence, and then the rest. -/
lemma tokens_append (h : Scan.tokens ts s = .ok s₁) (hs : Scan.tokens us s₁ = .ok s₂) :
    Scan.tokens (ts ++ us) s = .ok s₂ := by
  induction ts generalizing s with
  | nil =>
    simp only [Scan.tokens, Except.ok.injEq] at h
    rw [List.nil_append, h]
    exact hs
  | cons t ts ih =>
    simp only [Scan.tokens] at h
    cases ht : s.token t with
    | error e => simp [ht] at h
    | ok s' =>
      rw [ht] at h
      exact tokens_cons ht (ih h)

/-- The meaning of a sequence does not depend on its `FDT_NOP` tokens. -/
lemma tokens_filter (ts : List Token) (s : Scan) :
    Scan.tokens (ts.filter Token.isCode) s = Scan.tokens ts s := by
  induction ts generalizing s with
  | nil => rfl
  | cons t ts ih =>
    cases t with
    | nop => exact ih s
    | beginNode name =>
      simp only [List.filter_cons, Token.isCode, ↓reduceIte, Scan.tokens, ih]
    | endNode => simp only [List.filter_cons, Token.isCode, ↓reduceIte, Scan.tokens, ih]
    | prop p => simp only [List.filter_cons, Token.isCode, ↓reduceIte, Scan.tokens, ih]

/-- The start of a node within the depth limit. -/
lemma token_begin {name : List UInt8} (hd : s.depth + 1 ≤ 32) (hroot : s.depth = 0 → name = []) :
    s.token (.beginNode name) = .ok (s.enter name) := by
  have hdeep : ¬ s.depth + 1 > maxDepth := by
    rw [maxDepth]
    omega
  have hname : ¬ (s.depth + 1 = 1 ∧ name ≠ []) := fun h => h.2 (hroot (by omega))
  simp only [Scan.token]
  rw [if_neg hdeep, if_neg hname]

/-- A property at a positive depth. -/
lemma token_prop {p : Property} (hd : s.depth ≠ 0) (h : s.read p.name p.value = .ok s₁) :
    s.token (.prop p) = .ok s₁ := by
  simp only [Scan.token, if_neg hd]
  exact h

/-- Properties that mean nothing in a context. -/
lemma tokens_props_skip {props : List Property} (hd : s.depth ≠ 0)
    (h : ∀ p ∈ props, s.read p.name p.value = .ok s) :
    Scan.tokens (props.map .prop) s = .ok s := by
  induction props with
  | nil => rfl
  | cons p ps ih =>
    exact tokens_cons (token_prop hd (h p (by simp))) (ih fun q hq => h q (by simp [hq]))

/-- Properties of which only the one of a given name means something. -/
lemma tokens_props_key {props : List Property} (key : List UInt8)
    (hnodup : (props.map Property.name).Nodup) (hd : s.depth ≠ 0) (hd₁ : s₁.depth ≠ 0)
    (hskip : ∀ name value, name ≠ key → s.read name value = .ok s)
    (hskip₁ : ∀ name value, name ≠ key → s₁.read name value = .ok s₁)
    (hit : ∀ v, lookup props key = some v → s.read key v = .ok s₁)
    (hmiss : lookup props key = none → s₁ = s) :
    Scan.tokens (props.map .prop) s = .ok s₁ := by
  induction props with
  | nil =>
    rw [hmiss rfl]
    rfl
  | cons p ps ih =>
    rw [List.map_cons, List.nodup_cons] at hnodup
    by_cases hp : p.name = key
    · have hv : lookup (p :: ps) key = some p.value := by simp [lookup, hp]
      have hread : s.read p.name p.value = .ok s₁ := by
        rw [hp]
        exact hit _ hv
      refine tokens_cons (token_prop hd hread) (tokens_props_skip hd₁ fun q hq => ?_)
      refine hskip₁ _ _ fun hq' => hnodup.1 ?_
      rw [hp, ← hq']
      exact List.mem_map_of_mem hq
    · have hv : lookup (p :: ps) key = lookup ps key := by simp [lookup, hp]
      rw [hv] at hit hmiss
      exact tokens_cons (token_prop hd (hskip _ _ hp)) (ih hnodup.2 hit hmiss)

/-- Without the name among the properties the default is kept. -/
lemma cellsOf_of_not_mem {props : List Property} {key : List UInt8} {n : ℕ}
    (h : key ∉ props.map Property.name) : cellsOf props key n = n := by
  have hnone : lookup props key = none := by
    unfold lookup
    rw [Option.map_eq_none_iff, List.find?_eq_none]
    intro p hp hk
    exact h (List.mem_map.mpr ⟨p, hp, by simpa using hk⟩)
  rw [cellsOf, hnone]

/-- The properties of a node that sets cell sizes, where `upd a b` is the context with the
address cells `a` and the size cells `b` of that node. -/
lemma tokens_props_cells (upd : ℕ → ℕ → Scan) {props : List Property}
    (hnodup : (props.map Property.name).Nodup) (hcells : CellsOk props)
    (hd : ∀ a b, (upd a b).depth ≠ 0)
    (haddr : ∀ a b v, v.length = 4 →
      (upd a b).read (ascii "#address-cells") v = .ok (upd (fromBeBytes v) b))
    (hsize : ∀ a b v, v.length = 4 →
      (upd a b).read (ascii "#size-cells") v = .ok (upd a (fromBeBytes v)))
    (hskip : ∀ a b name v, name ≠ ascii "#address-cells" → name ≠ ascii "#size-cells" →
      (upd a b).read name v = .ok (upd a b)) (a b : ℕ) :
    Scan.tokens (props.map .prop) (upd a b) =
      .ok (upd (addrCellsOf props a) (sizeCellsOf props b)) := by
  induction props generalizing a b with
  | nil => rfl
  | cons p ps ih =>
    rw [List.map_cons, List.nodup_cons] at hnodup
    have hrest := ih hnodup.2 fun q hq => hcells q (by simp [hq])
    have hlen := hcells p (by simp)
    by_cases ha : p.name = ascii "#address-cells"
    · have hkept : addrCellsOf ps (fromBeBytes p.value) = addrCellsOf (p :: ps) a := by
        have hnot : ascii "#address-cells" ∉ ps.map Property.name := ha ▸ hnodup.1
        unfold addrCellsOf
        rw [cellsOf_of_not_mem hnot]
        simp [cellsOf, lookup, ha]
      have hother : sizeCellsOf ps b = sizeCellsOf (p :: ps) b := by
        have hne : p.name ≠ ascii "#size-cells" := by rw [ha]; decide
        simp [sizeCellsOf, cellsOf, lookup, hne]
      rw [← hkept, ← hother]
      refine tokens_cons (token_prop (hd a b) ?_) (hrest _ b)
      rw [ha]
      exact haddr a b _ (hlen (Or.inl ha))
    · have hother : addrCellsOf ps a = addrCellsOf (p :: ps) a := by
        simp [addrCellsOf, cellsOf, lookup, ha]
      rw [← hother]
      by_cases hb : p.name = ascii "#size-cells"
      · have hkept : sizeCellsOf ps (fromBeBytes p.value) = sizeCellsOf (p :: ps) b := by
          have hnot : ascii "#size-cells" ∉ ps.map Property.name := hb ▸ hnodup.1
          unfold sizeCellsOf
          rw [cellsOf_of_not_mem hnot]
          simp [cellsOf, lookup, hb]
        rw [← hkept]
        refine tokens_cons (token_prop (hd a b) ?_) (hrest a _)
        rw [hb]
        exact hsize a b _ (hlen (Or.inr hb))
      · have hkept : sizeCellsOf ps b = sizeCellsOf (p :: ps) b := by
          simp [sizeCellsOf, cellsOf, lookup, hb]
        rw [← hkept]
        exact tokens_cons (token_prop (hd a b) (hskip a b _ _ ha hb)) (hrest a b)

/-- A node: its name, its properties, its children and its end. -/
lemma tokens_node {n : Node} {s₃ s₄ : Scan} (hbegin : s.token (.beginNode n.name) = .ok s₁)
    (hprops : Scan.tokens (n.props.map .prop) s₁ = .ok s₂)
    (hchildren : Scan.tokens n.children.tokens s₂ = .ok s₃)
    (hend : s₃.token .endNode = .ok s₄) : Scan.tokens n.tokens s = .ok s₄ :=
  tokens_append (tokens_append (tokens_cons hbegin hprops) hchildren) (tokens_cons hend rfl)

end Sequences

/-! ### Subtrees -/

section Subtrees

/-- Below the levels that the parser looks at, a subtree changes nothing.

**Proof sketch.** By induction on the subtrees. The flags are set at depth two only, so entering a
node at depth three or more only counts the level, none of its properties is consulted, and
leaving it only counts back. -/
lemma tokens_quiet (f : Trees) {s : Scan} (hdepth : 2 ≤ s.depth)
    (hm : ∀ k, s.memoryDepth = some k → k ≤ 2) (hc : ∀ k, s.chosenDepth = some k → k ≤ 2)
    (hr : s.rsvNode = true → 3 ≤ s.depth) (hheight : s.depth + f.height ≤ 32) :
    Scan.tokens f.tokens s = .ok s := by
  induction f generalizing s with
  | nil => rfl
  | node name props children siblings ihc ihs =>
    simp only [Trees.height] at hheight
    have hm' : s.memoryDepth ≠ some (s.depth + 1) := fun h => by have := hm _ h; omega
    have hc' : s.chosenDepth ≠ some (s.depth + 1) := fun h => by have := hc _ h; omega
    have hbegin : s.token (.beginNode name) = .ok { s with depth := s.depth + 1 } := by
      have hne : ¬ s.depth + 1 = 2 := by omega
      rw [token_begin (by omega) (by omega)]
      simp [Scan.enter, hne]
    have hread : ∀ name value, Scan.read { s with depth := s.depth + 1 } name value =
        .ok { s with depth := s.depth + 1 } := by
      intro name value
      unfold Scan.read
      dsimp only
      rw [if_neg (by omega), if_neg (fun h => hm' h.1), if_neg (by omega),
        if_neg (fun h => by have := hr h.1; omega), if_neg (fun h => hc' h.1)]
    have hend : Scan.token { s with depth := s.depth + 1 } .endNode = .ok s := by
      have hne : ¬ s.depth + 1 = 2 := by omega
      simp [Scan.token, endNode, Scan.leave, hm', hc', hne]
    have hprops := tokens_props_skip (s := { s with depth := s.depth + 1 })
      (by simp) fun (p : Property) (_ : p ∈ props) => hread _ _
    have hchildren := ihc (s := { s with depth := s.depth + 1 }) (by dsimp only; omega) hm hc
      (fun _ => by dsimp only; omega) (by dsimp only; omega)
    rw [Trees.tokens_node]
    exact tokens_append (tokens_node hbegin hprops hchildren hend)
      (ihs hdepth hm hc hr (by omega))

/-- The properties of a node that may hold a `reg`, where `upd out` is the context with the
regions `out` in the list that the node appends to. -/
lemma tokens_props_reg (upd : List MemRegion → Scan) {props : List Property} {ac sc limit : ℕ}
    (hnodup : (props.map Property.name).Nodup) (hd : ∀ out, (upd out).depth ≠ 0)
    (hskip : ∀ out name v, name ≠ ascii "reg" → (upd out).read name v = .ok (upd out))
    (hreg : ∀ out v, (upd out).read (ascii "reg") v = (parseReg v ac sc limit out).map upd)
    (hok : RegOk ac sc props) (out : List MemRegion)
    (hroom : out.length + (regOf ac sc props).length ≤ limit)
    (hwrap : ∀ r ∈ regOf ac sc props, r.base + r.size < 2 ^ 64) :
    Scan.tokens (props.map .prop) (upd out) = .ok (upd (out ++ regOf ac sc props)) := by
  refine tokens_props_key (ascii "reg") hnodup (hd _) (hd _) (hskip _) (hskip _) ?_ ?_
  · intro v hv
    obtain ⟨hac, hsc, hne, hdvd⟩ := hok v hv
    have hval : regOf ac sc props = (decodeReg ac sc v).filter fun r => r.size ≠ 0 := by
      rw [regOf, hv]
    rw [hval] at hroom hwrap ⊢
    rw [hreg, parseReg_eq hac hsc hne hdvd hroom hwrap]
    rfl
  · intro hnone
    rw [regOf, hnone, List.append_nil]

/-- The context inside a reserved-memory node. -/
def inReserved (base : Scan) (ra rs : ℕ) (reserved : List MemRegion) : Scan :=
  { base with
    depth := 2, memoryDepth := none, chosenDepth := none, rsvNode := true, rsvAddrCells := ra
    rsvSizeCells := rs, info := { base.info with reserved := reserved } }

/-- The children of a reserved-memory node append their `reg` entries. -/
lemma tokens_reserved (base : Scan) {ra rs : ℕ} (f : Trees) (hnames : f.Forall NamesOk)
    (hheight : 2 + f.height ≤ 32) (hok : ∀ c ∈ f.nodes, RegOk ra rs c.props)
    {out : List MemRegion}
    (hroom : out.length + (f.nodes.flatMap fun c => regOf ra rs c.props).length ≤ maxRsvRegions)
    (hwrap : ∀ r ∈ f.nodes.flatMap fun c => regOf ra rs c.props, r.base + r.size < 2 ^ 64) :
    Scan.tokens f.tokens (inReserved base ra rs out) =
      .ok (inReserved base ra rs (out ++ f.nodes.flatMap fun c => regOf ra rs c.props)) := by
  induction f generalizing out with
  | nil => simp [Trees.tokens, Trees.nodes, Scan.tokens]
  | node name props children siblings _ ihs =>
    simp only [Trees.height] at hheight
    simp only [Trees.nodes, List.flatMap_cons, List.length_append, List.mem_append,
      List.mem_cons, forall_eq_or_imp] at hroom hwrap hok ⊢
    obtain ⟨⟨-, -, hnodup⟩, -, hsib⟩ := hnames
    -- a child at depth three: its `reg` is consulted and nothing else
    have hbegin : (inReserved base ra rs out).token (.beginNode name) =
        .ok { inReserved base ra rs out with depth := 3 } :=
      token_begin (s := inReserved base ra rs out) (show 2 + 1 ≤ 32 by omega)
        fun h => absurd h (by decide : (2 : ℕ) ≠ 0)
    have hprops := tokens_props_reg (fun out => { inReserved base ra rs out with depth := 3 })
      hnodup (fun _ => by simp)
      (fun out name v hne => by simp [Scan.read, inReserved, hne])
      (fun out v => by
        simp only [Scan.read, inReserved, pushReservedRegions]
        cases parseReg v ra rs maxRsvRegions out <;> rfl)
      hok.1 out (by omega) (fun r hr => hwrap r (Or.inl hr))
    set out₁ := out ++ regOf ra rs props with hout₁
    have hchildren : Scan.tokens children.tokens { inReserved base ra rs out₁ with depth := 3 } =
        .ok { inReserved base ra rs out₁ with depth := 3 } :=
      tokens_quiet children (by simp) (by simp [inReserved]) (by simp [inReserved])
        (fun _ => by simp) (by dsimp only; omega)
    have hend : Scan.token { inReserved base ra rs out₁ with depth := 3 } .endNode =
        .ok (inReserved base ra rs out₁) := by
      simp [Scan.token, endNode, Scan.leave, inReserved]
    have hroom₁ : out₁.length + (siblings.nodes.flatMap fun c => regOf ra rs c.props).length ≤
        maxRsvRegions := by
      rw [hout₁, List.length_append]
      omega
    have hsiblings := ihs hsib (by omega) hok.2 hroom₁ (fun r hr => hwrap r (Or.inr hr))
    rw [hout₁, List.append_assoc] at hsiblings
    rw [Trees.tokens_node]
    exact tokens_append (tokens_node hbegin hprops hchildren hend) hsiblings

end Subtrees

/-! ### The children of the root -/

section Top

/-- The context between two children of the root: the cell sizes of the root are those of `b`,
and the entropy collected so far is cut at the limit. -/
def atTop (b : Scan) (ra rs : ℕ) (mem rsv : List MemRegion) (ent : List UInt8) : Scan :=
  { b with
    depth := 1, memoryDepth := none, chosenDepth := none, rsvNode := false, rsvAddrCells := ra
    rsvSizeCells := rs, info := ⟨b.info.dtb, mem, rsv, ent.take maxEntropy⟩ }

/-- What a child of the root adds to the memory. -/
def Node.memoryPart (addrCells sizeCells : ℕ) (n : Node) : List MemRegion :=
  if n.isMemory then regOf addrCells sizeCells n.props else []

/-- What a child of the root adds to the reservations. -/
def Node.reservedPart (addrCells sizeCells : ℕ) (n : Node) : List MemRegion :=
  if n.isReservedMemory then n.childRegs addrCells sizeCells else []

/-- What a child of the root adds to the entropy. -/
def Node.entropyPart (n : Node) : List UInt8 := if n.isChosen then seeds n.props else []

lemma memoryOf_cons (ac sc : ℕ) (n : Node) (ns : List Node) :
    memoryOf ac sc (n :: ns) = n.memoryPart ac sc ++ memoryOf ac sc ns := by
  simp only [memoryOf, Node.memoryPart, List.filter_cons]
  split <;> simp

lemma reservedOf_cons (ac sc : ℕ) (n : Node) (ns : List Node) :
    reservedOf ac sc (n :: ns) = n.reservedPart ac sc ++ reservedOf ac sc ns := by
  simp only [reservedOf, Node.reservedPart, List.filter_cons]
  split <;> simp

lemma entropyOf_cons (n : Node) (ns : List Node) :
    entropyOf (n :: ns) = n.entropyPart ++ entropyOf ns := by
  simp only [entropyOf, Node.entropyPart, List.filter_cons]
  split <;> simp

variable (b : Scan) {n : Node} {ra rs : ℕ} {mem rsv : List MemRegion} {ent : List UInt8}

omit b in
/-- No memory node is a chosen node. -/
lemma not_isChosen_of_isMemory (h : n.isMemory) : ¬ n.isChosen := by
  intro hc
  have hname : n.name = ascii "chosen" := by simpa [Node.isChosen] using hc
  rw [Node.isMemory, hname] at h
  exact absurd h (by decide)

omit b in
/-- No memory node is a reserved-memory node. -/
lemma not_isReservedMemory_of_isMemory (h : n.isMemory) : ¬ n.isReservedMemory := by
  intro hc
  have hname : n.name = ascii "reserved-memory" := by simpa [Node.isReservedMemory] using hc
  rw [Node.isMemory, hname] at h
  exact absurd h (by decide)

omit b in
/-- No reserved-memory node is a chosen node. -/
lemma not_isChosen_of_isReservedMemory (h : n.isReservedMemory) : ¬ n.isChosen := by
  intro hc
  have hname : n.name = ascii "chosen" := by simpa [Node.isChosen] using hc
  rw [Node.isReservedMemory, hname] at h
  exact absurd h (by decide)

/-- A memory node appends its `reg` entries to the memory. -/
lemma tokens_memory (hn : n.isMemory) (hnames : NamesOk n.name n.props)
    (hheight : 2 + n.children.height ≤ 32) (hok : RegOk b.addrCells b.sizeCells n.props)
    (hroom : mem.length + (regOf b.addrCells b.sizeCells n.props).length ≤ maxMemRegions)
    (hwrap : ∀ r ∈ regOf b.addrCells b.sizeCells n.props, r.base + r.size < 2 ^ 64) :
    Scan.tokens n.tokens (atTop b ra rs mem rsv ent) =
      .ok (atTop b ra rs (mem ++ regOf b.addrCells b.sizeCells n.props) rsv ent) := by
  have hname : n.name = ascii "memory" ∨ (ascii "memory@").isPrefixOf n.name := by
    simpa [Node.isMemory] using hn
  have hc : n.name ≠ ascii "chosen" := by
    simpa [Node.isChosen] using not_isChosen_of_isMemory hn
  have hr : n.name ≠ ascii "reserved-memory" := by
    simpa [Node.isReservedMemory] using not_isReservedMemory_of_isMemory hn
  let upd : List MemRegion → Scan := fun mem =>
    { atTop b ra rs mem rsv ent with depth := 2, memoryDepth := some 2 }
  have hbegin : (atTop b ra rs mem rsv ent).token (.beginNode n.name) = .ok (upd mem) := by
    rw [token_begin (show 1 + 1 ≤ 32 by omega) (fun h => absurd h (by decide : (1 : ℕ) ≠ 0))]
    have hcond : (atTop b ra rs mem rsv ent).depth + 1 = 2 ∧
        (n.name = ascii "memory" ∨ (ascii "memory@").isPrefixOf n.name) := ⟨rfl, hname⟩
    simp only [Scan.enter]
    rw [if_pos hcond]
    simp [atTop, upd, hc, hr]
  have hprops := tokens_props_reg upd hnames.2.2 (fun _ => by simp [upd])
    (fun out name v hne => by simp [Scan.read, atTop, upd, hne])
    (fun out v => by
      simp only [Scan.read, atTop, upd, pushRegions]
      cases parseReg v b.addrCells b.sizeCells maxMemRegions out <;> rfl)
    hok mem hroom hwrap
  refine tokens_node hbegin hprops (tokens_quiet _ ?_ ?_ ?_ ?_ ?_) ?_
  · simp [upd]
  · simp [upd]
  · simp [upd, atTop]
  · simp [upd, atTop]
  · simpa [upd] using hheight
  · simp [Scan.token, endNode, Scan.leave, atTop, upd]

/-- Appending entropy to a list cut at the limit cuts the appended list. -/
lemma take_entropy (ent v : List UInt8) :
    ent.take maxEntropy ++ v.take (maxEntropy - min maxEntropy ent.length) =
      (ent ++ v).take maxEntropy := by
  rw [List.take_append]
  congr 2
  omega

/-- A chosen node appends its seeds to the entropy. -/
lemma tokens_chosen (hn : n.isChosen) (hheight : 2 + n.children.height ≤ 32) :
    Scan.tokens n.tokens (atTop b ra rs mem rsv ent) =
      .ok (atTop b ra rs mem rsv (ent ++ seeds n.props)) := by
  have hname : n.name = ascii "chosen" := by simpa [Node.isChosen] using hn
  let upd : List UInt8 → Scan := fun ent =>
    { atTop b ra rs mem rsv ent with depth := 2, chosenDepth := some 2 }
  have hbegin : (atTop b ra rs mem rsv ent).token (.beginNode n.name) = .ok (upd ent) := by
    rw [token_begin (show 1 + 1 ≤ 32 by omega) (fun h => absurd h (by decide : (1 : ℕ) ≠ 0))]
    have hm : ¬ ((atTop b ra rs mem rsv ent).depth + 1 = 2 ∧ (ascii "chosen" = ascii "memory" ∨
        (ascii "memory@").isPrefixOf (ascii "chosen"))) := fun h => absurd h.2 (by decide)
    have hr : ascii "chosen" ≠ ascii "reserved-memory" := by decide
    simp only [Scan.enter, hname]
    rw [if_neg hm]
    simp [atTop, upd, hr]
  have hread : ∀ ent p, (upd ent).read p.name p.value = .ok (upd (ent ++ seeds [p])) := by
    intro ent p
    by_cases hp : p.name = ascii "rng-seed" ∨ p.name = ascii "kaslr-seed"
    · have hseeds : seeds [p] = p.value := by simp [seeds, Property.isSeed, hp]
      simp [Scan.read, atTop, upd, hp, pushEntropy, hseeds, take_entropy]
    · have hseeds : seeds [p] = [] := by simp [seeds, Property.isSeed, hp]
      simp [Scan.read, atTop, upd, hp, hseeds]
  have hprops : ∀ (props : List Property) ent,
      Scan.tokens (props.map .prop) (upd ent) = .ok (upd (ent ++ seeds props)) := by
    intro props
    induction props with
    | nil => intro ent; simp [Scan.tokens, seeds]
    | cons p ps ih =>
      intro ent
      have hsplit : seeds (p :: ps) = seeds [p] ++ seeds ps := by
        simp only [seeds, List.filter_cons, List.filter_nil]
        split <;> simp
      rw [hsplit, ← List.append_assoc]
      exact tokens_cons (token_prop (by simp [upd]) (hread ent p)) (ih _)
  refine tokens_node hbegin (hprops n.props ent) (tokens_quiet _ ?_ ?_ ?_ ?_ ?_) ?_
  · simp [upd]
  · simp [upd, atTop]
  · simp [upd]
  · simp [upd, atTop]
  · simpa [upd] using hheight
  · simp [Scan.token, endNode, Scan.leave, atTop, upd]

/-- A reserved-memory node appends the `reg` entries of its children to the reservations. -/
lemma tokens_reservedMemory (hn : n.isReservedMemory) (hnames : NamesOk n.name n.props)
    (hchildren : n.children.Forall NamesOk) (hheight : 2 + n.children.height ≤ 32)
    (hcells : CellsOk n.props)
    (hok : ∀ c ∈ n.children.nodes,
      RegOk (addrCellsOf n.props b.addrCells) (sizeCellsOf n.props b.sizeCells) c.props)
    (hroom : rsv.length + (n.childRegs b.addrCells b.sizeCells).length ≤ maxRsvRegions)
    (hwrap : ∀ r ∈ n.childRegs b.addrCells b.sizeCells, r.base + r.size < 2 ^ 64) :
    Scan.tokens n.tokens (atTop b ra rs mem rsv ent) =
      .ok (atTop b (addrCellsOf n.props b.addrCells) (sizeCellsOf n.props b.sizeCells) mem
        (rsv ++ n.childRegs b.addrCells b.sizeCells) ent) := by
  have hname : n.name = ascii "reserved-memory" := by simpa [Node.isReservedMemory] using hn
  let base := atTop b ra rs mem rsv ent
  let upd : ℕ → ℕ → Scan := fun ra rs => inReserved base ra rs rsv
  have hbegin : base.token (.beginNode n.name) = .ok (upd b.addrCells b.sizeCells) := by
    rw [token_begin (show 1 + 1 ≤ 32 by omega) (fun h => absurd h (by decide : (1 : ℕ) ≠ 0))]
    have hm : ¬ ((atTop b ra rs mem rsv ent).depth + 1 = 2 ∧
        (ascii "reserved-memory" = ascii "memory" ∨
          (ascii "memory@").isPrefixOf (ascii "reserved-memory"))) :=
      fun h => absurd h.2 (by decide)
    have hc : ascii "reserved-memory" ≠ ascii "chosen" := by decide
    simp only [Scan.enter, hname, base]
    rw [if_neg hm]
    simp [atTop, base, upd, inReserved, hc]
  have hprops := tokens_props_cells upd hnames.2.2 hcells (fun _ _ => by simp [upd, inReserved])
    (fun x y v hv => by
      simp [Scan.read, upd, inReserved, cellCount, hv, Except.map])
    (fun x y v hv => by
      have hne : ascii "#size-cells" ≠ ascii "#address-cells" := by decide
      simp [Scan.read, upd, inReserved, cellCount, hv, hne, Except.map])
    (fun x y name v h1 h2 => by simp [Scan.read, upd, inReserved, h1, h2])
    b.addrCells b.sizeCells
  refine tokens_node hbegin hprops (tokens_reserved base n.children hchildren hheight hok hroom
    hwrap) ?_
  simp [Scan.token, endNode, Scan.leave, atTop, base, inReserved, Node.childRegs]

/-- Any other child of the root changes nothing. -/
lemma tokens_other (hm : ¬ n.isMemory) (hc : ¬ n.isChosen) (hr : ¬ n.isReservedMemory)
    (hheight : 2 + n.children.height ≤ 32) :
    Scan.tokens n.tokens (atTop b ra rs mem rsv ent) = .ok (atTop b ra rs mem rsv ent) := by
  have hm' : ¬ (n.name = ascii "memory" ∨ (ascii "memory@").isPrefixOf n.name) := by
    simpa [Node.isMemory] using hm
  have hc' : n.name ≠ ascii "chosen" := by simpa [Node.isChosen] using hc
  have hr' : n.name ≠ ascii "reserved-memory" := by simpa [Node.isReservedMemory] using hr
  let s₁ : Scan := { atTop b ra rs mem rsv ent with depth := 2 }
  have hbegin : (atTop b ra rs mem rsv ent).token (.beginNode n.name) = .ok s₁ := by
    rw [token_begin (show 1 + 1 ≤ 32 by omega) (fun h => absurd h (by decide : (1 : ℕ) ≠ 0))]
    have hcond : ¬ ((atTop b ra rs mem rsv ent).depth + 1 = 2 ∧
        (n.name = ascii "memory" ∨ (ascii "memory@").isPrefixOf n.name)) := fun h => hm' h.2
    simp only [Scan.enter]
    rw [if_neg hcond]
    simp [atTop, s₁, hc', hr']
  refine tokens_node hbegin (tokens_props_skip (s := s₁) (by simp [s₁]) fun p _ => ?_)
    (tokens_quiet _ ?_ ?_ ?_ ?_ ?_) ?_
  · simp [Scan.read, atTop, s₁]
  · simp [s₁]
  · simp [s₁, atTop]
  · simp [s₁, atTop]
  · simp [s₁, atTop]
  · simpa [s₁] using hheight
  · simp [Scan.token, endNode, Scan.leave, atTop, s₁]

/-- A child of the root contributes according to its name. -/
lemma tokens_child (ra rs : ℕ) (mem rsv : List MemRegion) (ent : List UInt8)
    (hnames : NamesOk n.name n.props) (hchildren : n.children.Forall NamesOk)
    (hheight : 2 + n.children.height ≤ 32)
    (hmem : n.isMemory → RegOk b.addrCells b.sizeCells n.props)
    (hcells : n.isReservedMemory → CellsOk n.props)
    (hreg : n.isReservedMemory → ∀ c ∈ n.children.nodes,
      RegOk (addrCellsOf n.props b.addrCells) (sizeCellsOf n.props b.sizeCells) c.props)
    (hroomM : mem.length + (n.memoryPart b.addrCells b.sizeCells).length ≤ maxMemRegions)
    (hroomR : rsv.length + (n.reservedPart b.addrCells b.sizeCells).length ≤ maxRsvRegions)
    (hwrapM : ∀ r ∈ n.memoryPart b.addrCells b.sizeCells, r.base + r.size < 2 ^ 64)
    (hwrapR : ∀ r ∈ n.reservedPart b.addrCells b.sizeCells, r.base + r.size < 2 ^ 64) :
    ∃ ra' rs', Scan.tokens n.tokens (atTop b ra rs mem rsv ent) =
      .ok (atTop b ra' rs' (mem ++ n.memoryPart b.addrCells b.sizeCells)
        (rsv ++ n.reservedPart b.addrCells b.sizeCells) (ent ++ n.entropyPart)) := by
  unfold Node.memoryPart at hroomM hwrapM ⊢
  unfold Node.reservedPart at hroomR hwrapR ⊢
  unfold Node.entropyPart
  by_cases h1 : n.isMemory
  · rw [if_pos h1] at hroomM hwrapM ⊢
    rw [if_neg (not_isReservedMemory_of_isMemory h1), if_neg (not_isChosen_of_isMemory h1),
      List.append_nil, List.append_nil]
    exact ⟨ra, rs, tokens_memory b h1 hnames hheight (hmem h1) hroomM hwrapM⟩
  · rw [if_neg h1, List.append_nil]
    by_cases h2 : n.isReservedMemory
    · rw [if_pos h2] at hroomR hwrapR ⊢
      rw [if_neg (not_isChosen_of_isReservedMemory h2), List.append_nil]
      exact ⟨_, _, tokens_reservedMemory b h2 hnames hchildren hheight (hcells h2) (hreg h2)
        hroomR hwrapR⟩
    · rw [if_neg h2, List.append_nil]
      by_cases h3 : n.isChosen
      · rw [if_pos h3]
        exact ⟨ra, rs, tokens_chosen b h3 hheight⟩
      · rw [if_neg h3, List.append_nil]
        exact ⟨ra, rs, tokens_other b h1 h3 h2 hheight⟩

/-- The children of the root contribute, one after the other, according to their names.

**Proof sketch.** By induction on the children. The four lemmas above describe the first child;
its siblings then start from a context of the same shape. -/
lemma tokens_top (ra rs : ℕ) (mem rsv : List MemRegion) (ent : List UInt8) (f : Trees)
    (hnames : f.Forall NamesOk) (hheight : 1 + f.height ≤ 32)
    (hmem : ∀ n ∈ f.nodes, n.isMemory → RegOk b.addrCells b.sizeCells n.props)
    (hcells : ∀ n ∈ f.nodes, n.isReservedMemory → CellsOk n.props)
    (hreg : ∀ n ∈ f.nodes, n.isReservedMemory → ∀ c ∈ n.children.nodes,
      RegOk (addrCellsOf n.props b.addrCells) (sizeCellsOf n.props b.sizeCells) c.props)
    (hroomM : mem.length + (memoryOf b.addrCells b.sizeCells f.nodes).length ≤ maxMemRegions)
    (hroomR : rsv.length + (reservedOf b.addrCells b.sizeCells f.nodes).length ≤ maxRsvRegions)
    (hwrapM : ∀ r ∈ memoryOf b.addrCells b.sizeCells f.nodes, r.base + r.size < 2 ^ 64)
    (hwrapR : ∀ r ∈ reservedOf b.addrCells b.sizeCells f.nodes, r.base + r.size < 2 ^ 64) :
    ∃ ra' rs', Scan.tokens f.tokens (atTop b ra rs mem rsv ent) =
      .ok (atTop b ra' rs' (mem ++ memoryOf b.addrCells b.sizeCells f.nodes)
        (rsv ++ reservedOf b.addrCells b.sizeCells f.nodes) (ent ++ entropyOf f.nodes)) := by
  induction f generalizing ra rs mem rsv ent with
  | nil => exact ⟨ra, rs, by simp [Trees.tokens, Trees.nodes, Scan.tokens, memoryOf, reservedOf,
      entropyOf]⟩
  | node name props children siblings _ ihs =>
    simp only [Trees.height] at hheight
    obtain ⟨hname, hchildren, hsib⟩ := hnames
    set n : Node := ⟨name, props, children⟩ with hn
    have hnodes : (Trees.node name props children siblings).nodes = n :: siblings.nodes := rfl
    rw [hnodes] at hmem hcells hreg hroomM hroomR hwrapM hwrapR ⊢
    have hM := memoryOf_cons b.addrCells b.sizeCells n siblings.nodes
    have hR := reservedOf_cons b.addrCells b.sizeCells n siblings.nodes
    have hE := entropyOf_cons n siblings.nodes
    rw [hM, List.length_append] at hroomM
    rw [hR, List.length_append] at hroomR
    rw [hM] at hwrapM
    rw [hR] at hwrapR
    have hheight' : 2 + n.children.height ≤ 32 := by
      change 2 + children.height ≤ 32
      omega
    obtain ⟨ra₁, rs₁, hfirst⟩ := tokens_child b ra rs mem rsv ent hname hchildren
      hheight' (hmem n (by simp)) (hcells n (by simp)) (hreg n (by simp)) (by omega) (by omega)
      (fun r hr => hwrapM r (List.mem_append_left _ hr))
      (fun r hr => hwrapR r (List.mem_append_left _ hr))
    have hroomM' : (mem ++ n.memoryPart b.addrCells b.sizeCells).length +
        (memoryOf b.addrCells b.sizeCells siblings.nodes).length ≤ maxMemRegions := by
      rw [List.length_append]
      omega
    have hroomR' : (rsv ++ n.reservedPart b.addrCells b.sizeCells).length +
        (reservedOf b.addrCells b.sizeCells siblings.nodes).length ≤ maxRsvRegions := by
      rw [List.length_append]
      omega
    obtain ⟨ra₂, rs₂, hrest⟩ := ihs ra₁ rs₁ _ _
      (ent ++ n.entropyPart) hsib (by omega) (fun m hm => hmem m (by simp [hm]))
      (fun m hm => hcells m (by simp [hm])) (fun m hm => hreg m (by simp [hm])) hroomM' hroomR'
      (fun r hr => hwrapM r (List.mem_append_right _ hr))
      (fun r hr => hwrapR r (List.mem_append_right _ hr))
    refine ⟨ra₂, rs₂, ?_⟩
    rw [Trees.tokens_node, hM, hR, hE, ← List.append_assoc, ← List.append_assoc,
      ← List.append_assoc]
    exact tokens_append hfirst hrest

end Top

/-! ### Whole trees and blobs -/

section Blob

variable {t : DeviceTree}

/-- The tokens of a valid tree produce its contents. -/
lemma tokens_tree (hv : t.Valid) (off : ℕ) (dtb : Span) (rsv : List MemRegion)
    (hroomM : t.memory.length ≤ maxMemRegions)
    (hroomR : rsv.length + t.reserved.length ≤ maxRsvRegions)
    (hwrapM : ∀ r ∈ t.memory, r.base + r.size < 2 ^ 64)
    (hwrapR : ∀ r ∈ t.reserved, r.base + r.size < 2 ^ 64) :
    ∃ s', Scan.tokens t.tokens (Scan.init off ⟨dtb, [], rsv, []⟩) = .ok s' ∧ s'.depth = 0 ∧
      s'.info = ⟨dtb, t.memory, rsv ++ t.reserved, t.entropy.take maxEntropy⟩ := by
  set s := Scan.init off ⟨dtb, [], rsv, []⟩ with hs
  let upd : ℕ → ℕ → Scan := fun x y => { s with depth := 1, addrCells := x, sizeCells := y }
  have hbegin : s.token (.beginNode []) = .ok (upd 2 1) := by
    rw [token_begin (show 0 + 1 ≤ 32 by omega) fun _ => rfl]
    simp [Scan.enter, hs, Scan.init, upd]
  have hprops := tokens_props_cells upd hv.root_names.2.2 hv.root_cells
    (fun _ _ => by simp [upd])
    (fun x y v hlen => by simp [Scan.read, upd, cellCount, hlen, Except.map])
    (fun x y v hlen => by
      have hne : ascii "#size-cells" ≠ ascii "#address-cells" := by decide
      simp [Scan.read, upd, cellCount, hlen, hne, Except.map])
    (fun x y name v h1 h2 => by simp [Scan.read, upd, h1, h2]) 2 1
  set b := upd t.addrCells t.sizeCells with hb
  have htop : b = atTop b 2 1 [] rsv [] := by simp [atTop, hb, upd, hs, Scan.init]
  obtain ⟨ra, rs, hchildren⟩ := tokens_top b 2 1 [] rsv [] t.children hv.names
    (by have := hv.height; omega) hv.memory_reg hv.reserved_cells hv.reserved_reg
    (by rw [List.length_nil, zero_add]; exact hroomM) hroomR hwrapM hwrapR
  rw [← htop] at hchildren
  refine ⟨_, tokens_node (n := ⟨[], t.props, t.children⟩) hbegin hprops hchildren rfl, rfl, ?_⟩
  simp only [List.nil_append]
  rfl

/-- The names in the tokens of some subtrees are NUL-free. -/
lemma Trees.nulFree {f : Trees} (h : f.Forall NamesOk) : ∀ t ∈ f.tokens, t.NulFree := by
  induction f with
  | nil => simp [Trees.tokens]
  | node name props children siblings ihc ihs =>
    obtain ⟨⟨hname, hprops, -⟩, hchildren, hsiblings⟩ := h
    intro t ht
    simp only [Trees.tokens, List.cons_append, List.mem_cons, List.mem_append, List.mem_map] at ht
    rcases ht with rfl | (⟨p, hp, rfl⟩ | ht) | rfl | ht
    · exact hname
    · exact hprops p hp
    · exact ihc hchildren t ht
    · trivial
    · exact ihs hsiblings t ht

/-- The names in the tokens of a valid tree are NUL-free. -/
lemma DeviceTree.Valid.nulFree (hv : t.Valid) : ∀ k ∈ t.tokens, k.NulFree := by
  intro k hk
  simp only [DeviceTree.tokens, Node.tokens, List.cons_append, List.mem_cons, List.mem_append,
    List.mem_map, List.not_mem_nil, or_false] at hk
  rcases hk with rfl | (⟨p, hp, rfl⟩ | hk) | rfl
  · exact hv.root_names.1
  · exact hv.root_names.2.1 p hp
  · exact Trees.nulFree hv.names k hk
  · trivial

/-- A token is not empty. -/
lemma TokenBytes.length_pos {strings : List UInt8} {k : Token} {bs : List UInt8}
    (h : TokenBytes strings k bs) : 0 < bs.length := by
  cases h with
  | beginNode _ => simp
  | endNode => simp
  | prop _ _ => simp
  | nop => simp

/-- There are at least as many bytes as tokens. -/
lemma TokensBytes.length_le {strings : List UInt8} {ts : List Token} {bs : List UInt8}
    (h : TokensBytes strings ts bs) : ts.length ≤ bs.length := by
  induction h with
  | nil => simp
  | cons ht _ ih =>
    simp only [List.length_cons, List.length_append]
    have := ht.length_pos
    omega

/-- Every pair of reservations takes at least one byte. -/
lemma length_le_rsvBytes (rsv : List (UInt64 × UInt64)) : rsv.length ≤ (rsvBytes rsv).length := by
  induction rsv with
  | nil => simp
  | cons p rsv ih =>
    simp only [rsvBytes, List.flatMap_cons, List.length_append, length_dword,
      List.length_cons] at ih ⊢
    omega

variable {blob : List UInt8} {rsv : List (UInt64 × UInt64)}

/-- The places of the blocks pass the header check. -/
lemma Encodes.holds (h : Encodes blob rsv t) :
    Blocks.Holds ⟨blob, h.offStruct + (h.structure_.length + 4), h.offStrings,
      h.offStrings + h.strings.length⟩ h.strings where
  length_lt := h.length_lt
  struct_le := by simpa using h.struct_at.le
  strings_at := h.strings_at
  strings_end := rfl

/-- The parser recovers the contents of a tree from every flattened form of it: the memory, the
reservations of the reservation block followed by those of the tree, and the entropy up to the
limit.

**Proof sketch.** The header words are read back and the blocks lie in the blob. The reservation
loop appends the reservations of the block (`rsvLoop_encoded`); the token loop computes the meaning
of the tokens (`tokenLoop_encoded`), which does not depend on `FDT_NOP` (`tokens_filter`) and for
the tokens of the tree is its contents (`tokens_tree`). -/
theorem parseBlob_encodes (h : Encodes blob rsv t) (hv : t.Valid) (dtb : Span)
    (hmem : 1 ≤ t.memory.length ∧ t.memory.length ≤ 8)
    (hrsv : (reservations rsv ++ t.reserved).length ≤ 8)
    (hwrap : ∀ r ∈ t.memory ++ (reservations rsv ++ t.reserved), r.base + r.size < 2 ^ 64) :
    parseBlob blob dtb =
      .ok ⟨dtb, t.memory, reservations rsv ++ t.reserved, t.entropy.take 72⟩ := by
  have hlen := h.length_lt
  have hd := h.holds
  have hrsv_le := h.rsvmap_at.le
  have hstruct_le := h.struct_at.le
  have hstrings_le := h.strings_at.le
  have hstruct_bytes := h.struct_bytes.length_le
  have hrsv_bytes := length_le_rsvBytes rsv
  rw [List.length_append, length_word] at hstruct_le
  rw [List.length_append] at hrsv
  simp only [List.mem_append] at hwrap
  -- the words of the header
  have h8 := be32_word h.off_struct (by omega) hlen
  have h12 := be32_word h.off_strings (by omega) hlen
  have h16 := be32_word h.off_rsvmap (by omega) hlen
  have h20 := be32_word h.version (by omega) hlen
  have h24 := be32_word h.last_comp_version (by have := h.last_comp_version_le; omega) hlen
  have h32 := be32_word h.size_strings (by omega) hlen
  have h36 := be32_word h.size_struct (by omega) hlen
  -- both loops
  have hloop₁ : rsvLoop blob (blob.length + 1) h.offRsvmap ⟨dtb, [], [], []⟩ =
      .ok ⟨dtb, [], reservations rsv, []⟩ := by
    refine rsvLoop_encoded hlen h.rsvmap_at (by omega) ?_ fun r hr => hwrap r (Or.inr (Or.inl hr))
    simp only [List.length_nil, maxRsvRegions]
    omega
  obtain ⟨s', hrun, hdepth, hinfo⟩ := tokens_tree hv h.offStruct dtb (reservations rsv) hmem.2 hrsv
    (fun r hr => hwrap r (Or.inl hr)) fun r hr => hwrap r (Or.inr (Or.inr hr))
  rw [← h.tokens_eq, tokens_filter] at hrun
  have hnul : ∀ k ∈ h.tokens, k.NulFree := by
    intro k hk
    cases k with
    | nop => trivial
    | beginNode name => exact hv.nulFree _ (h.tokens_eq ▸ List.mem_filter.mpr ⟨hk, rfl⟩)
    | endNode => trivial
    | prop p => exact hv.nulFree _ (h.tokens_eq ▸ List.mem_filter.mpr ⟨hk, rfl⟩)
  have hfuel : h.tokens.length < blob.length + 1 := by omega
  have hend : h.offStruct + (h.structure_ ++ word 9).length ≤
      h.offStruct + (h.structure_.length + 4) := by simp
  have hloop₂ := tokenLoop_encoded hd h.struct_bytes hnul h.struct_at h.struct_aligned hend hrun
    hdepth hfuel
  rw [hinfo] at hloop₂
  have hne : t.memory ≠ [] := List.ne_nil_of_length_pos (by omega)
  have hversion : ¬ (17 < supportedVersion ∨ supportedVersion < h.lastCompVersion) := by
    have := h.last_comp_version_le
    rw [supportedVersion]
    omega
  have haligned : ¬ (h.offStruct % 4 ≠ 0 ∨ (h.structure_.length + 4) % 4 ≠ 0) := by
    have := h.struct_aligned
    have := h.struct_bytes.dvd
    omega
  have hblock₁ : blockEnd blob h.offStruct (h.structure_.length + 4) =
      .ok (h.offStruct + (h.structure_.length + 4)) := by
    rw [blockEnd, checkedAdd_of_lt (by omega)]
    exact if_pos hstruct_le
  have hblock₂ : blockEnd blob h.offStrings h.strings.length =
      .ok (h.offStrings + h.strings.length) := by
    rw [blockEnd, checkedAdd_of_lt (by omega)]
    exact if_pos hstrings_le
  have hrsvmap : ¬ h.offRsvmap % 8 ≠ 0 := by
    have := h.rsvmap_aligned
    omega
  simp only [parseBlob, h8, h12, h20, h24, h32, h36, bind, Except.bind]
  rw [if_neg hversion, if_neg haligned, hblock₁, hblock₂]
  simp only [h16]
  rw [if_neg hrsvmap, hloop₁]
  simp only [hloop₂]
  rw [if_neg hne]
  rfl

/-- A tree with one memory node of 1 GiB at `0x4000_0000`, in the default cell sizes. -/
def oneBank : DeviceTree where
  props := []
  children := .node (ascii "memory@40000000")
    [⟨ascii "reg", dword 0x40000000 ++ word 0x40000000⟩] .nil .nil

/-- The structure block of `oneBank`, with an `FDT_NOP` and nonzero padding. -/
def oneBankStruct : List UInt8 :=
  (word 1 ++ [0, 7, 7, 7]) ++ (word 4 ++ ((word 1 ++ (ascii "memory@40000000" ++ [0])) ++
    ((word 3 ++ word 12 ++ word 0 ++ (dword 0x40000000 ++ word 0x40000000)) ++
      (word 2 ++ (word 2 ++ [])))))

/-- A flattened form of `oneBank`. -/
def oneBankBlob : List UInt8 :=
  word 0xd00dfeed ++ word 128 ++ word 56 ++ word 124 ++ word 40 ++ word 17 ++ word 16 ++ word 0 ++
    word 4 ++ word 68 ++ (dword 0 ++ dword 0) ++ (oneBankStruct ++ word 9) ++ (ascii "reg" ++ [0])

/-- The blob is a flattened form of the tree. -/
def oneBankEncodes : Encodes oneBankBlob [] oneBank where
  offStruct := 56
  offStrings := 124
  offRsvmap := 40
  lastCompVersion := 16
  strings := ascii "reg" ++ [0]
  structure_ := oneBankStruct
  tokens := [.beginNode [], .nop, .beginNode (ascii "memory@40000000"),
    .prop ⟨ascii "reg", dword 0x40000000 ++ word 0x40000000⟩, .endNode, .endNode]
  magic := .of_slice (by decide +kernel)
  totalsize := .of_slice (by decide +kernel)
  length_lt := by decide +kernel
  off_struct := .of_slice (by decide +kernel)
  off_strings := .of_slice (by decide +kernel)
  off_rsvmap := .of_slice (by decide +kernel)
  version := .of_slice (by decide +kernel)
  last_comp_version := .of_slice (by decide +kernel)
  last_comp_version_le := by decide
  size_strings := .of_slice (by decide +kernel)
  size_struct := .of_slice (by decide +kernel)
  struct_aligned := by decide
  rsvmap_aligned := by decide
  rsvmap_at := .of_slice (by decide +kernel)
  strings_at := .of_slice (by decide +kernel)
  struct_at := .of_slice (by decide +kernel)
  struct_bytes := by
    refine .cons (.beginNode ⟨[7, 7, 7], rfl, by decide, by decide⟩) (.cons .nop
      (.cons (.beginNode ⟨[], by decide, by decide, by decide⟩) (.cons (.prop ?_ ?_)
        (.cons .endNode (.cons .endNode .nil)))))
    · exact .of_slice (by decide)
    · exact ⟨[], by decide, by decide, by decide⟩
  tokens_eq := rfl

/-- The parser reads the bank of `oneBank`. -/
theorem parseBlob_oneBank :
    parseBlob oneBankBlob ⟨0x48000000, 0x48000080⟩ =
      .ok ⟨⟨0x48000000, 0x48000080⟩, [⟨0x40000000, 0x40000000⟩], [], []⟩ := by
  have hmem : oneBank.memory = [⟨0x40000000, 0x40000000⟩] := by decide
  have hv : oneBank.Valid :=
    { root_names := by simp [NamesOk, oneBank]
      names := ⟨⟨by decide, by decide, by decide⟩, trivial, trivial⟩
      height := by decide
      root_cells := by simp [CellsOk, oneBank]
      memory_reg := by
        intro n hn _ v hlookup
        obtain rfl : n = ⟨ascii "memory@40000000",
          [⟨ascii "reg", dword 0x40000000 ++ word 0x40000000⟩], .nil⟩ := List.mem_singleton.mp hn
        obtain rfl : dword 0x40000000 ++ word 0x40000000 = v := Option.some.inj hlookup
        decide
      reserved_cells := by
        intro n hn hr
        obtain rfl := List.mem_singleton.mp hn
        exact absurd hr (by decide)
      reserved_reg := by
        intro n hn hr
        obtain rfl := List.mem_singleton.mp hn
        exact absurd hr (by decide) }
  have h := parseBlob_encodes oneBankEncodes hv ⟨0x48000000, 0x48000080⟩ (by decide) (by decide)
    (by decide)
  rw [hmem] at h
  exact h

end Blob

end K0.Fdt
