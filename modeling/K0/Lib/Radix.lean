import Mathlib.Data.List.Induction
import Mathlib.Order.Nat
import Mathlib.Logic.Function.Basic

set_option relaxedAutoImplicit false
set_option autoImplicit false

/-!
# Forests of radix tables

Multi-level tables over an arbitrary type `τ` of tables and an arbitrary type `ι` of indices.
Interior tables hold links, given by `child : τ → ι → Option τ`; the tables of the last level
hold values, given by `leaf : τ → ι → Option β`. A path is the list of indices that a walk
follows. A store of tables often reads one and the same word as a link or as a value, depending
on the level of its table, so a link only counts in tables of a level below `depth`.

## Main definitions

* `Radix.walk`, `Radix.lookup`: follow a path, and read the value at its end.
* `Radix.missing`: how many links are absent on a path.
* `Radix.gap`: the first absent link of a path.
* `Radix.Forest`: every link leads one level down, and no table is linked twice.
* `Radix.Linked`: one more link, to an empty table.

## Main results

* `Radix.Forest.walk_inj`: a table is reached from one root by one path only.
* `Radix.Forest.link`, `Radix.Forest.lookup_linked`: a new link keeps the forest and every lookup.
* `Radix.Forest.lookup_write`: writing one value changes exactly one lookup.
* `Radix.Linked.missing_of_gap`: a link at the first gap of a path fills it.
-/

namespace Radix

variable {τ ι β : Type}

/-- Follow the links along a path. -/
def walk (child : τ → ι → Option τ) : τ → List ι → Option τ
  | t, [] => some t
  | t, i :: p => (child t i).bind fun s => walk child s p

/-- The value at the end of a path. -/
def lookup (child : τ → ι → Option τ) (leaf : τ → ι → Option β) (t : τ) (p : List ι) (i : ι) :
    Option β :=
  (walk child t p).bind fun s => leaf s i

/-- The number of links that a path lacks: all from the first absent one on. -/
def missing (child : τ → ι → Option τ) : τ → List ι → ℕ
  | _, [] => 0
  | t, i :: p =>
    match child t i with
    | none => p.length + 1
    | some s => missing child s p

/-- The first absent link of a path: its table and its index. -/
def gap (child : τ → ι → Option τ) : τ → List ι → Option (τ × ι)
  | _, [] => none
  | t, i :: p =>
    match child t i with
    | none => some (t, i)
    | some s => gap child s p

/-- The empty path leads nowhere else. -/
@[simp] lemma walk_nil (child : τ → ι → Option τ) (t : τ) : walk child t [] = some t := rfl

/-- The first step of a walk. -/
@[simp] lemma walk_cons (child : τ → ι → Option τ) (t : τ) (i : ι) (p : List ι) :
    walk child t (i :: p) = (child t i).bind fun s => walk child s p := rfl

/-- Walks compose. -/
lemma walk_append (child : τ → ι → Option τ) (t : τ) (p q : List ι) :
    walk child t (p ++ q) = (walk child t p).bind fun s => walk child s q := by
  induction p generalizing t with
  | nil => rfl
  | cons i p ih =>
    rw [List.cons_append, walk_cons, walk_cons]
    cases child t i with
    | none => rfl
    | some s => exact ih s

/-- A path lacks no link exactly when the walk along it succeeds. -/
lemma missing_eq_zero_iff {child : τ → ι → Option τ} {t : τ} {p : List ι} :
    missing child t p = 0 ↔ ∃ s, walk child t p = some s := by
  induction p generalizing t with
  | nil => simp [missing]
  | cons i p ih =>
    rw [walk_cons, missing]
    cases child t i with
    | none => simp
    | some s => exact ih

/-- A path lacks at most all of its links. -/
lemma missing_le (child : τ → ι → Option τ) (t : τ) (p : List ι) :
    missing child t p ≤ p.length := by
  induction p generalizing t with
  | nil => exact le_rfl
  | cons i p ih =>
    rw [missing, List.length_cons]
    cases child t i with
    | none => exact le_rfl
    | some s => exact (ih s).trans (Nat.le_succ _)

/-- A path has a gap exactly when it lacks a link. -/
lemma gap_eq_none_iff {child : τ → ι → Option τ} {t : τ} {p : List ι} :
    gap child t p = none ↔ missing child t p = 0 := by
  induction p generalizing t with
  | nil => simp [gap, missing]
  | cons i p ih =>
    rw [gap, missing]
    cases child t i with
    | none => simp
    | some s => exact ih

/-- The gap of a path is the first absent link on it. -/
lemma gap_eq_some_iff {child : τ → ι → Option τ} {t t₀ : τ} {i₀ : ι} {p : List ι} :
    gap child t p = some (t₀, i₀) ↔
      ∃ n, walk child t (p.take n) = some t₀ ∧ p[n]? = some i₀ ∧ child t₀ i₀ = none := by
  induction p generalizing t with
  | nil => simp [gap]
  | cons i p ih =>
    rw [gap]
    cases hc : child t i with
    | none =>
      constructor
      · intro h
        obtain ⟨rfl, rfl⟩ := Prod.mk.inj (Option.some.inj h)
        exact ⟨0, rfl, rfl, hc⟩
      · rintro ⟨n, hw, hi, hn⟩
        cases n with
        | zero =>
          obtain rfl : t = t₀ := Option.some.inj hw
          obtain rfl : i = i₀ := Option.some.inj hi
          rfl
        | succ n =>
          rw [List.take_succ_cons, walk_cons, hc] at hw
          cases hw
    | some s =>
      refine ih.trans ⟨?_, ?_⟩
      · rintro ⟨n, hw, hi, hn⟩
        refine ⟨n + 1, ?_, hi, hn⟩
        rw [List.take_succ_cons, walk_cons, hc]
        exact hw
      · rintro ⟨n, hw, hi, hn⟩
        cases n with
        | zero =>
          obtain rfl : t = t₀ := Option.some.inj hw
          obtain rfl : i = i₀ := Option.some.inj hi
          rw [hc] at hn
          cases hn
        | succ n =>
          rw [List.take_succ_cons, walk_cons, hc] at hw
          exact ⟨n, hw, hi, hn⟩

/-- The gap of a path is an absent link at one of its indices. -/
lemma of_gap {child : τ → ι → Option τ} {t t₀ : τ} {i₀ : ι} {p : List ι}
    (h : gap child t p = some (t₀, i₀)) : child t₀ i₀ = none ∧ i₀ ∈ p := by
  obtain ⟨n, -, hi, hc⟩ := gap_eq_some_iff.mp h
  exact ⟨hc, List.mem_of_getElem? hi⟩

/-- From a table without links the whole path is missing. -/
lemma missing_of_empty {child : τ → ι → Option τ} {t : τ} (h : ∀ i, child t i = none)
    (p : List ι) : missing child t p = p.length := by
  cases p with
  | nil => rfl
  | cons i p => rw [missing, h, List.length_cons]

/-- A path on which a link is absent has no value. -/
lemma lookup_eq_none_of_missing {child : τ → ι → Option τ} {leaf : τ → ι → Option β} {t : τ}
    {p : List ι} (i : ι) (h : missing child t p ≠ 0) : lookup child leaf t p i = none := by
  unfold lookup
  cases hw : walk child t p with
  | none => rfl
  | some s => exact absurd (missing_eq_zero_iff.mpr ⟨s, hw⟩) h

/-- Every link of a live table above the last level leads to a live table one level below, and
no table is the target of two links. -/
structure Forest (child : τ → ι → Option τ) (live : τ → Prop) (lvl : τ → ℕ) (depth : ℕ) :
    Prop where
  child_lvl : ∀ {t i s}, live t → lvl t < depth → child t i = some s →
    live s ∧ lvl s = lvl t + 1
  inj : ∀ {t t' i i' s}, live t → live t' → lvl t < depth → lvl t' < depth →
    child t i = some s → child t' i' = some s → t = t' ∧ i = i'

section Walks

variable {child : τ → ι → Option τ} {live : τ → Prop} {lvl : τ → ℕ} {depth : ℕ}

/-- A walk that stays within the levels goes down one level with each step. -/
lemma Forest.walk_lvl (hF : Forest child live lvl depth) {t s : τ} {p : List ι} (ht : live t)
    (hlen : lvl t + p.length ≤ depth) (hw : walk child t p = some s) :
    live s ∧ lvl s = lvl t + p.length := by
  induction p generalizing t with
  | nil =>
    rw [walk_nil, Option.some.injEq] at hw
    subst hw
    exact ⟨ht, rfl⟩
  | cons i p ih =>
    rw [List.length_cons] at hlen ⊢
    rw [walk_cons] at hw
    obtain ⟨u, hu, hw⟩ := Option.bind_eq_some_iff.mp hw
    obtain ⟨hlu, hlv⟩ := hF.child_lvl ht (by omega) hu
    obtain ⟨h1, h2⟩ := ih hlu (by omega) hw
    exact ⟨h1, by omega⟩

/-- A table is reached from one root by one path only.

**Proof sketch.** Both paths have the level of the table as their length. Compare them from the
end: the last link into the table is unique, so the walks meet one step earlier. -/
theorem Forest.walk_inj (hF : Forest child live lvl depth) {r r' s : τ} {p p' : List ι}
    (hr : live r) (hr' : live r') (h0 : lvl r = 0) (h0' : lvl r' = 0) (hp : p.length ≤ depth)
    (hp' : p'.length ≤ depth) (hw : walk child r p = some s) (hw' : walk child r' p' = some s) :
    r = r' ∧ p = p' := by
  have hl := (hF.walk_lvl hr (by omega) hw).2
  have hl' := (hF.walk_lvl hr' (by omega) hw').2
  induction p using List.reverseRecOn generalizing p' s with
  | nil =>
    have : p' = [] := List.eq_nil_of_length_eq_zero (by rw [List.length_nil] at hl; omega)
    subst this
    rw [walk_nil, Option.some.injEq] at hw hw'
    exact ⟨hw.trans hw'.symm, rfl⟩
  | append_singleton p i ih =>
    rw [List.length_append, List.length_singleton] at hp hl
    rcases List.eq_nil_or_concat p' with rfl | ⟨q, j, rfl⟩
    · rw [List.length_nil] at hl'
      omega
    · rw [List.concat_eq_append] at *
      rw [List.length_append, List.length_singleton] at hp' hl'
      rw [walk_append] at hw hw'
      obtain ⟨t, ht, hw⟩ := Option.bind_eq_some_iff.mp hw
      obtain ⟨t', ht', hw'⟩ := Option.bind_eq_some_iff.mp hw'
      rw [walk_cons] at hw hw'
      obtain ⟨u, hu, hw⟩ := Option.bind_eq_some_iff.mp hw
      obtain ⟨u', hu', hw'⟩ := Option.bind_eq_some_iff.mp hw'
      rw [walk_nil, Option.some.injEq] at hw hw'
      subst hw hw'
      obtain ⟨hlt, hlvt⟩ := hF.walk_lvl hr (by omega) ht
      obtain ⟨hlt', hlvt'⟩ := hF.walk_lvl hr' (by omega) ht'
      obtain ⟨rfl, rfl⟩ := hF.inj hlt hlt' (by omega) (by omega) hu hu'
      obtain ⟨h1, h2⟩ := ih (by omega) (by omega) ht ht' hlvt hlvt'
      exact ⟨h1, by rw [h2]⟩

/-- Only the links of live tables above the last level make up the forest. -/
lemma Forest.congr (hF : Forest child live lvl depth) {child' : τ → ι → Option τ}
    (h : ∀ t i, live t → lvl t < depth → child' t i = child t i) :
    Forest child' live lvl depth where
  child_lvl ht hl hc := hF.child_lvl ht hl (by rwa [h _ _ ht hl] at hc)
  inj ht ht' hl hl' hc hc' :=
    hF.inj ht ht' hl hl' (by rwa [h _ _ ht hl] at hc) (by rwa [h _ _ ht' hl'] at hc')

/-- A walk only reads the links of live tables above the last level. -/
lemma Forest.walk_congr (hF : Forest child live lvl depth) {child' : τ → ι → Option τ}
    (h : ∀ t i, live t → lvl t < depth → child' t i = child t i) {t : τ} {p : List ι}
    (ht : live t) (hlen : lvl t + p.length ≤ depth) : walk child' t p = walk child t p := by
  induction p generalizing t with
  | nil => rfl
  | cons i p ih =>
    rw [List.length_cons] at hlen
    rw [walk_cons, walk_cons, h t i ht (by omega)]
    cases hc : child t i with
    | none => rfl
    | some s =>
      obtain ⟨hls, hlv⟩ := hF.child_lvl ht (by omega) hc
      exact ih hls (by omega)

/-- A walk leads to the same table where the links of live tables above the last level are kept. -/
lemma Forest.walk_mono (hF : Forest child live lvl depth) {child' : τ → ι → Option τ}
    (h : ∀ t i s, live t → lvl t < depth → child t i = some s → child' t i = some s) {t u : τ}
    {p : List ι} (ht : live t) (hlen : lvl t + p.length ≤ depth) (hw : walk child t p = some u) :
    walk child' t p = some u := by
  induction p generalizing t with
  | nil => exact hw
  | cons i p ih =>
    rw [List.length_cons] at hlen
    rw [walk_cons] at hw ⊢
    obtain ⟨s, hs, hw⟩ := Option.bind_eq_some_iff.mp hw
    obtain ⟨hls, hlv⟩ := hF.child_lvl ht (by omega) hs
    rw [h t i s ht (by omega) hs]
    exact ih hls (by omega) hw

/-- The missing links too only depend on the links of live tables above the last level. -/
lemma Forest.missing_congr (hF : Forest child live lvl depth) {child' : τ → ι → Option τ}
    (h : ∀ t i, live t → lvl t < depth → child' t i = child t i) {t : τ} {p : List ι}
    (ht : live t) (hlen : lvl t + p.length ≤ depth) : missing child' t p = missing child t p := by
  induction p generalizing t with
  | nil => rfl
  | cons i p ih =>
    rw [List.length_cons] at hlen
    rw [missing, missing, h t i ht (by omega)]
    cases hc : child t i with
    | none => rfl
    | some s =>
      obtain ⟨hls, hlv⟩ := hF.child_lvl ht (by omega) hc
      exact ih hls (by omega)

/-- And so does the gap. -/
lemma Forest.gap_congr (hF : Forest child live lvl depth) {child' : τ → ι → Option τ}
    (h : ∀ t i, live t → lvl t < depth → child' t i = child t i) {t : τ} {p : List ι}
    (ht : live t) (hlen : lvl t + p.length ≤ depth) : gap child' t p = gap child t p := by
  induction p generalizing t with
  | nil => rfl
  | cons i p ih =>
    rw [List.length_cons] at hlen
    rw [gap, gap, h t i ht (by omega)]
    cases hc : child t i with
    | none => rfl
    | some s =>
      obtain ⟨hls, hlv⟩ := hF.child_lvl ht (by omega) hc
      exact ih hls (by omega)

/-- The gap of a path is in a live table, as many levels down as the path has links. -/
lemma Forest.gap_lvl (hF : Forest child live lvl depth) {t t₀ : τ} {i₀ : ι} {p : List ι}
    (ht : live t) (hlen : lvl t + p.length ≤ depth) (h : gap child t p = some (t₀, i₀)) :
    live t₀ ∧ lvl t₀ < depth ∧ lvl t₀ + missing child t p = lvl t + p.length := by
  induction p generalizing t with
  | nil => cases h
  | cons i p ih =>
    rw [List.length_cons] at hlen
    rw [gap] at h
    rw [missing]
    cases hc : child t i with
    | none =>
      rw [hc] at h
      obtain ⟨rfl, rfl⟩ := Prod.mk.inj (Option.some.inj h)
      exact ⟨ht, by omega, by rw [List.length_cons]⟩
    | some s =>
      rw [hc] at h
      obtain ⟨hls, hlv⟩ := hF.child_lvl ht (by omega) hc
      obtain ⟨h1, h2, h3⟩ := ih hls (by omega) h
      refine ⟨h1, h2, ?_⟩
      rw [List.length_cons]
      dsimp only
      omega

/-- If every live table but the root has a parent, every live table is reached from the root.

**Proof sketch.** Induction on the level: the parent is one level up. -/
lemma Forest.exists_walk (hF : Forest child live lvl depth) {r : τ}
    (hlink : ∀ s, live s → s ≠ r → ∃ t i, live t ∧ lvl t < depth ∧ child t i = some s)
    (h0 : lvl r = 0) {t : τ} (ht : live t) : ∃ p, walk child r p = some t ∧ p.length = lvl t := by
  induction hn : lvl t generalizing t with
  | zero =>
    by_cases e : t = r
    · exact ⟨[], by rw [e]; rfl, rfl⟩
    · obtain ⟨u, i, hu, hl, hc⟩ := hlink t ht e
      have := (hF.child_lvl hu hl hc).2
      omega
  | succ n ih =>
    have e : t ≠ r := by
      rintro rfl
      omega
    obtain ⟨u, i, hu, hl, hc⟩ := hlink t ht e
    have hlvl := (hF.child_lvl hu hl hc).2
    obtain ⟨p, hp, hlen⟩ := ih hu (by omega)
    refine ⟨p ++ [i], ?_, by rw [List.length_append, List.length_singleton, hlen]⟩
    rw [walk_append, hp]
    show (child u i).bind _ = _
    rw [hc]
    rfl

/-- Writing one value at the end of a path changes the lookup along this path and no other, for
all paths of full length from the roots. -/
theorem Forest.lookup_write [DecidableEq τ] [DecidableEq ι] (hF : Forest child live lvl depth)
    {child' : τ → ι → Option τ} {leaf leaf' : τ → ι → Option β} {r₀ s₀ : τ} {p₀ : List ι}
    {i₀ : ι} {b : Option β} (hr₀ : live r₀) (h0₀ : lvl r₀ = 0) (hp₀ : p₀.length = depth)
    (hw₀ : walk child r₀ p₀ = some s₀)
    (hchild : ∀ t i, live t → lvl t < depth → child' t i = child t i)
    (hleaf : ∀ t i, leaf' t i = if t = s₀ ∧ i = i₀ then b else leaf t i)
    {r : τ} {p : List ι} (i : ι) (hr : live r) (h0 : lvl r = 0) (hp : p.length = depth) :
    lookup child' leaf' r p i =
      if r = r₀ ∧ p = p₀ ∧ i = i₀ then b else lookup child leaf r p i := by
  unfold lookup
  rw [hF.walk_congr hchild hr (by omega)]
  cases hw : walk child r p with
  | none =>
    rw [if_neg]
    · rfl
    · rintro ⟨rfl, rfl, -⟩
      rw [hw] at hw₀
      simp at hw₀
  | some s =>
    rw [Option.bind_some, Option.bind_some, hleaf]
    by_cases hs : s = s₀
    · subst hs
      obtain ⟨rfl, rfl⟩ := hF.walk_inj hr hr₀ h0 h0₀ hp.le hp₀.le hw hw₀
      simp
    · rw [if_neg fun h => hs h.1, if_neg]
      rintro ⟨rfl, rfl, -⟩
      rw [hw, Option.some.injEq] at hw₀
      exact hs hw₀

end Walks

/-! ### Linking an empty table -/

/-- `child'` has one more link than `child`: from slot `i₀` of `t₀`, empty before, to another
table `s` without links. -/
structure Linked (child child' : τ → ι → Option τ) (t₀ : τ) (i₀ : ι) (s : τ) : Prop where
  ne : s ≠ t₀
  empty : ∀ i, child s i = none
  before : child t₀ i₀ = none
  link : child' t₀ i₀ = some s
  frame : ∀ t i, ¬ (t = t₀ ∧ i = i₀) → child' t i = child t i

section Link

variable {child child' : τ → ι → Option τ} {t₀ s : τ} {i₀ : ι}

/-- The new table still has no links. -/
lemma Linked.empty' (h : Linked child child' t₀ i₀ s) (i : ι) : child' s i = none := by
  rw [h.frame s i fun e => h.ne e.1, h.empty]

/-- Old walks still lead to the same table. -/
lemma Linked.walk_mono (h : Linked child child' t₀ i₀ s) {t u : τ} {p : List ι}
    (hw : walk child t p = some u) : walk child' t p = some u := by
  induction p generalizing t with
  | nil => exact hw
  | cons i p ih =>
    rw [walk_cons] at hw ⊢
    obtain ⟨v, hv, hw⟩ := Option.bind_eq_some_iff.mp hw
    have hne : ¬ (t = t₀ ∧ i = i₀) := by
      rintro ⟨rfl, rfl⟩
      rw [h.before] at hv
      simp at hv
    rw [h.frame t i hne, hv]
    exact ih hw

/-- A walk that is new ends in the new table. -/
lemma Linked.walk_cases (h : Linked child child' t₀ i₀ s) {t u : τ} {p : List ι}
    (hw : walk child' t p = some u) : walk child t p = some u ∨ u = s := by
  classical
  induction p generalizing t with
  | nil => exact .inl hw
  | cons i p ih =>
    rw [walk_cons] at hw ⊢
    obtain ⟨v, hv, hw⟩ := Option.bind_eq_some_iff.mp hw
    by_cases hne : t = t₀ ∧ i = i₀
    · -- the walk takes the new link, and the new table leads no further
      obtain ⟨rfl, rfl⟩ := hne
      rw [h.link, Option.some.injEq] at hv
      subst hv
      cases p with
      | nil =>
        rw [walk_nil, Option.some.injEq] at hw
        exact .inr hw.symm
      | cons j q =>
        rw [walk_cons, h.empty'] at hw
        simp at hw
    · rw [h.frame t i hne] at hv
      rw [hv]
      exact ih hw

/-- A new link at the gap of a path fills it: one link less is missing, because the new table has
none yet. -/
lemma Linked.missing_of_gap (h : Linked child child' t₀ i₀ s) {t : τ} {p : List ι}
    (hg : gap child t p = some (t₀, i₀)) : missing child t p = missing child' t p + 1 := by
  induction p generalizing t with
  | nil => cases hg
  | cons i p ih =>
    rw [gap] at hg
    rw [missing, missing]
    cases hc : child t i with
    | none =>
      rw [hc] at hg
      obtain ⟨rfl, rfl⟩ := Prod.mk.inj (Option.some.inj hg)
      rw [h.link]
      dsimp only
      rw [missing_of_empty h.empty']
    | some u =>
      rw [hc] at hg
      have hne : ¬ (t = t₀ ∧ i = i₀) := by
        rintro ⟨rfl, rfl⟩
        rw [h.before] at hc
        cases hc
      rw [h.frame t i hne, hc]
      exact ih hg

/-- Linking a table without values changes no lookup along a path of full length. -/
theorem Forest.lookup_linked {live : τ → Prop} {lvl : τ → ℕ} {depth : ℕ}
    (hF : Forest child live lvl depth) (h : Linked child child' t₀ i₀ s)
    {leaf leaf' : τ → ι → Option β} (hs : ∀ i, leaf' s i = none)
    (hleaf : ∀ t i, live t → lvl t = depth → leaf' t i = leaf t i) {t : τ} {p : List ι} (i : ι)
    (ht : live t) (hlen : lvl t + p.length = depth) :
    lookup child' leaf' t p i = lookup child leaf t p i := by
  unfold lookup
  cases hw : walk child t p with
  | some u =>
    obtain ⟨hlu, hlv⟩ := hF.walk_lvl ht hlen.le hw
    rw [h.walk_mono hw]
    exact hleaf u i hlu (hlv.trans hlen)
  | none =>
    cases hw' : walk child' t p with
    | none => rfl
    | some u =>
      rcases h.walk_cases hw' with h' | rfl
      · rw [hw] at h'
        simp at h'
      · exact hs i

/-- Linking a fresh table keeps the forest, with the new table one level below its parent. -/
theorem Forest.link [DecidableEq τ] {live : τ → Prop} {lvl : τ → ℕ} {depth : ℕ}
    (hF : Forest child live lvl depth) (h : Linked child child' t₀ i₀ s) (ht₀ : live t₀)
    (hlt : lvl t₀ < depth) (hs : ¬ live s) :
    Forest child' (fun t => live t ∨ t = s) (Function.update lvl s (lvl t₀ + 1)) depth := by
  classical
  -- a link of `child'` is the new one or an old one between tables other than `s`
  have key : ∀ {t i u}, live t ∨ t = s → Function.update lvl s (lvl t₀ + 1) t < depth →
      child' t i = some u →
      (t = t₀ ∧ i = i₀ ∧ u = s) ∨
        (live t ∧ t ≠ s ∧ lvl t < depth ∧ child t i = some u ∧ live u ∧ lvl u = lvl t + 1 ∧
          u ≠ s) := by
    intro t i u hlive hlvl hc
    by_cases hts : t = s
    · rw [hts, h.empty'] at hc
      simp at hc
    · have hlive' : live t := hlive.resolve_right hts
      rw [Function.update_of_ne hts] at hlvl
      by_cases hnew : t = t₀ ∧ i = i₀
      · obtain ⟨rfl, rfl⟩ := hnew
        rw [h.link, Option.some.injEq] at hc
        exact .inl ⟨rfl, rfl, hc.symm⟩
      · rw [h.frame t i hnew] at hc
        obtain ⟨h1, h2⟩ := hF.child_lvl hlive' hlvl hc
        exact .inr ⟨hlive', hts, hlvl, hc, h1, h2, fun e => hs (e ▸ h1)⟩
  constructor
  · intro t i u hlive hlvl hc
    rcases key hlive hlvl hc with ⟨rfl, rfl, rfl⟩ | ⟨-, hts, -, -, h1, h2, hus⟩
    · rw [Function.update_self, Function.update_of_ne h.ne.symm]
      exact ⟨.inr rfl, rfl⟩
    · rw [Function.update_of_ne hts, Function.update_of_ne hus]
      exact ⟨.inl h1, h2⟩
  · intro t t' i i' u hlive hlive' hlvl hlvl' hc hc'
    rcases key hlive hlvl hc with ⟨rfl, rfl, rfl⟩ | ⟨h1, -, h2, h3, -, -, hus⟩
    · rcases key hlive' hlvl' hc' with ⟨rfl, rfl, -⟩ | ⟨-, -, -, -, -, -, hus⟩
      · exact ⟨rfl, rfl⟩
      · exact absurd rfl hus
    · rcases key hlive' hlvl' hc' with ⟨-, -, rfl⟩ | ⟨h1', -, h2', h3', -⟩
      · exact absurd rfl hus
      · exact hF.inj h1 h1' h2 h2' h3 h3'

end Link

end Radix
