import Mathlib.Data.List.Nodup
import Mathlib.Logic.Function.Basic

set_option relaxedAutoImplicit false
set_option autoImplicit false

/-!
# Intrusive queues that share one link field

Singly linked first-in-first-out queues whose links are a field of the elements: `next a` is
the element after `a`, and `null` ends a queue. Many queues use the same field, which is sound as
long as no element is in two of them. A family of queues is indexed by an arbitrary type `κ`;
only the valid indices have an anchor that means anything.

## Main definitions

* `Intrusive.Ends`: the anchor of a queue, its head and tail pointers.
* `Intrusive.push`, `Intrusive.pop`: append at the tail, remove at the head.
* `Intrusive.Chain`, `Intrusive.IsQueue`: the list that an anchor and the links stand for.
* `Intrusive.Holds`: a family of disjoint queues over one link field.

## Main results

* `Intrusive.Holds.push`, `Intrusive.Holds.pop`: the operations on one queue of a family act as
  the list operations and leave the other queues alone.
-/

namespace Intrusive

variable {α κ : Type}

/-- The anchor of a queue. -/
structure Ends (α : Type) where
  head : α
  tail : α
deriving DecidableEq, Repr

variable (null : α)

/-- Append `a` at the tail. -/
def push [DecidableEq α] (next : α → α) (q : Ends α) (a : α) : (α → α) × Ends α :=
  let next := Function.update next a null
  if q.tail = null then (next, ⟨a, a⟩) else (Function.update next q.tail a, ⟨q.head, a⟩)

/-- Remove the head; `null` if there is none. -/
def pop [DecidableEq α] (next : α → α) (q : Ends α) : α × (α → α) × Ends α :=
  if q.head = null then (null, next, q)
  else
    (q.head, Function.update next q.head null,
      ⟨next q.head, if next q.head = null then null else q.tail⟩)

/-- Following the links from `p` passes through the elements of the list and then ends. -/
def Chain (next : α → α) : α → List α → Prop
  | p, [] => p = null
  | p, a :: l => p = a ∧ a ≠ null ∧ Chain next (next a) l

/-- The anchor `q` and the links stand for the list `l`. -/
def IsQueue (next : α → α) (q : Ends α) (l : List α) : Prop :=
  Chain null next q.head l ∧ q.tail = l.getLastD null

variable {null}

/-! ### One queue -/

section One

variable {next next' : α → α} {q : Ends α} {l : List α} {a p : α}

/-- A chain depends on the links of its elements only. -/
lemma Chain.congr (h : Chain null next p l) (he : ∀ b ∈ l, next' b = next b) :
    Chain null next' p l := by
  induction l generalizing p with
  | nil => exact h
  | cons b l ih =>
    obtain ⟨h1, h2, h3⟩ := h
    refine ⟨h1, h2, ?_⟩
    rw [he b (by simp)]
    exact ih h3 fun c hc => he c (List.mem_cons_of_mem _ hc)

/-- The elements of a chain are not `null`. -/
lemma Chain.ne_null (h : Chain null next p l) : ∀ b ∈ l, b ≠ null := by
  induction l generalizing p with
  | nil => simp
  | cons b l ih =>
    obtain ⟨-, h2, h3⟩ := h
    intro c hc
    rcases List.mem_cons.mp hc with rfl | hc
    · exact h2
    · exact ih h3 c hc

/-- Only one list is linked from a given start. -/
lemma Chain.unique (h : Chain null next p l) {m : List α} (h' : Chain null next p m) : l = m := by
  induction l generalizing p m with
  | nil =>
    cases m with
    | nil => rfl
    | cons b m => exact absurd ((h'.1.symm.trans h)) h'.2.1
  | cons b l ih =>
    obtain ⟨rfl, h2, h3⟩ := h
    cases m with
    | nil => exact absurd h' h2
    | cons c m =>
      obtain ⟨rfl, -, h3'⟩ := h'
      rw [ih h3 h3']

/-- The last element of a chain links to `null`. -/
lemma Chain.next_last (h : Chain null next p l) (hne : l ≠ []) : next (l.getLast hne) = null := by
  induction l generalizing p with
  | nil => exact absurd rfl hne
  | cons b l ih =>
    obtain ⟨-, -, h3⟩ := h
    cases l with
    | nil => exact h3
    | cons c l =>
      rw [List.getLast_cons (List.cons_ne_nil c l)]
      exact ih h3 _

/-- The tail of a nonempty queue is its last element. -/
lemma IsQueue.tail_eq (h : IsQueue null next q l) (hne : l ≠ []) : q.tail = l.getLast hne := by
  rw [h.2, List.getLastD_eq_getLast?, List.getLast?_eq_some_getLast hne, Option.getD_some]

/-- The head is `null` exactly for the empty queue. -/
lemma IsQueue.head_eq_null_iff (h : IsQueue null next q l) : q.head = null ↔ l = [] := by
  cases l with
  | nil => exact ⟨fun _ => rfl, fun _ => h.1⟩
  | cons b l =>
    obtain ⟨⟨h1, h2, -⟩, -⟩ := h
    rw [h1]
    exact ⟨fun e => absurd e h2, fun e => absurd e (List.cons_ne_nil _ _)⟩

/-- The tail is `null` exactly for the empty queue. -/
lemma IsQueue.tail_eq_null_iff (h : IsQueue null next q l) : q.tail = null ↔ l = [] := by
  constructor
  · intro ht
    by_contra hne
    rw [h.tail_eq hne] at ht
    exact h.1.ne_null _ (List.getLast_mem hne) ht
  · rintro rfl
    exact h.2

/-- The head of a nonempty queue. -/
lemma IsQueue.head_eq (h : IsQueue null next q (a :: l)) : q.head = a := h.1.1

/-- Redirecting the last link of a chain to a new last element. -/
lemma Chain.append (h : Chain null next p l) (hne : l ≠ []) (hnd : l.Nodup) (ha : a ≠ null)
    (hal : a ∉ l) (hlast : next' (l.getLast hne) = a) (hnew : next' a = null)
    (hframe : ∀ b ∈ l, b ≠ l.getLast hne → next' b = next b) : Chain null next' p (l ++ [a]) := by
  induction l generalizing p with
  | nil => exact absurd rfl hne
  | cons b l ih =>
    obtain ⟨h1, h2, h3⟩ := h
    refine ⟨h1, h2, ?_⟩
    cases l with
    | nil =>
      rw [List.getLast_singleton] at hlast
      exact ⟨hlast, ha, hnew⟩
    | cons c l =>
      have hcl : c :: l ≠ [] := List.cons_ne_nil c l
      rw [List.getLast_cons hcl] at hlast
      have hb : b ≠ (c :: l).getLast hcl := by
        intro e
        exact (List.nodup_cons.mp hnd).1 (e ▸ List.getLast_mem hcl)
      rw [hframe b (by simp) (by rw [List.getLast_cons hcl]; exact hb)]
      refine ih h3 hcl (List.nodup_cons.mp hnd).2 (fun hm => hal (List.mem_cons_of_mem _ hm))
        hlast ?_
      intro d hd hdl
      refine hframe d (List.mem_cons_of_mem _ hd) ?_
      rw [List.getLast_cons hcl]
      exact hdl

variable [DecidableEq α]

/-- Pushing a new element appends it. -/
lemma IsQueue.push (h : IsQueue null next q l) (hnd : l.Nodup) (ha : a ≠ null) (hal : a ∉ l) :
    IsQueue null (Intrusive.push null next q a).1 (Intrusive.push null next q a).2 (l ++ [a]) := by
  unfold Intrusive.push
  by_cases ht : q.tail = null
  · have hl : l = [] := h.tail_eq_null_iff.mp ht
    subst hl
    simp only [ht, ↓reduceIte, List.nil_append]
    exact ⟨⟨rfl, ha, Function.update_self _ _ _⟩, rfl⟩
  · have hne : l ≠ [] := fun e => ht (h.tail_eq_null_iff.mpr e)
    have htail := h.tail_eq hne
    have hat : a ≠ q.tail := fun e => hal (e ▸ htail ▸ List.getLast_mem hne)
    simp only [ht, ↓reduceIte]
    refine ⟨?_, by rw [List.getLastD_concat]⟩
    refine h.1.append hne hnd ha hal ?_ ?_ ?_
    · rw [← htail, Function.update_self]
    · rw [Function.update_of_ne hat, Function.update_self]
    · intro b hb hbl
      rw [Function.update_of_ne (by rw [htail]; exact hbl),
        Function.update_of_ne (ne_of_mem_of_not_mem hb hal)]

/-- Popping a nonempty queue removes its head. -/
lemma IsQueue.pop (h : IsQueue null next q (a :: l)) (hnd : (a :: l).Nodup) :
    (Intrusive.pop null next q).1 = a ∧
    IsQueue null (Intrusive.pop null next q).2.1 (Intrusive.pop null next q).2.2 l := by
  have hhead := h.head_eq
  obtain ⟨⟨-, ha, hc⟩, ht⟩ := h
  have hal : a ∉ l := (List.nodup_cons.mp hnd).1
  unfold Intrusive.pop
  rw [hhead]
  simp only [ha, ↓reduceIte, true_and]
  refine ⟨hc.congr fun b hb => Function.update_of_ne (ne_of_mem_of_not_mem hb hal) _ _, ?_⟩
  cases l with
  | nil =>
    rw [show next a = null from hc]
    simp
  | cons b l =>
    obtain ⟨hb1, hb2, -⟩ := hc
    rw [hb1, if_neg hb2, ht]
    rfl

end One

/-! ### Families of queues -/

/-- The anchors and the one link field stand for the lists of a family: valid queues are
linked, no element occurs twice, invalid queues are empty, and the links of elements outside all
queues are `null`. -/
structure Holds (null : α) (elem : α → Prop) (valid : κ → Prop) (next : α → α)
    (ends : κ → Ends α) (lists : κ → List α) : Prop where
  queue : ∀ k, valid k → IsQueue null next (ends k) (lists k)
  nodup : ∀ k, (lists k).Nodup
  disjoint : ∀ {k k' a}, a ∈ lists k → a ∈ lists k' → k = k'
  empty : ∀ k, ¬ valid k → lists k = []
  idle : ∀ a, elem a → (∀ k, a ∉ lists k) → next a = null

namespace Holds

variable [DecidableEq α] [DecidableEq κ] {elem : α → Prop} {valid : κ → Prop} {next : α → α}
  {ends : κ → Ends α} {lists : κ → List α}

/-- Pushing on one queue of a family appends there and leaves the others alone.

**Proof sketch.** The operation writes the link of the new element, which is in no queue, and of
the old tail, which is in this queue only; so the chains of the other queues are unchanged. -/
theorem push (h : Holds null elem valid next ends lists) {k : κ} (hk : valid k) {a : α}
    (ha : a ≠ null) (hal : ∀ k', a ∉ lists k') :
    Holds null elem valid (Intrusive.push null next (ends k) a).1
      (Function.update ends k (Intrusive.push null next (ends k) a).2)
      (Function.update lists k (lists k ++ [a])) := by
  -- outside this queue and `a` the links are unchanged
  have hframe : ∀ b, b ≠ a → b ∉ lists k →
      (Intrusive.push null next (ends k) a).1 b = next b := by
    intro b hba hbk
    unfold Intrusive.push
    by_cases ht : (ends k).tail = null
    · simp only [ht, ↓reduceIte]
      exact Function.update_of_ne hba _ _
    · have hne : lists k ≠ [] := fun e => ht ((h.queue k hk).tail_eq_null_iff.mpr e)
      have hbt : b ≠ (ends k).tail := by
        intro e
        rw [(h.queue k hk).tail_eq hne] at e
        exact hbk (e ▸ List.getLast_mem hne)
      simp only [ht, ↓reduceIte]
      rw [Function.update_of_ne hbt, Function.update_of_ne hba]
  have hmem : ∀ {k' b}, b ∈ Function.update lists k (lists k ++ [a]) k' →
      b ∈ lists k' ∨ (b = a ∧ k' = k) := by
    intro k' b hb
    by_cases e : k' = k
    · subst e
      rw [Function.update_self, List.mem_append, List.mem_singleton] at hb
      exact hb.imp_right fun e => ⟨e, rfl⟩
    · rw [Function.update_of_ne e] at hb
      exact .inl hb
  refine ⟨?_, ?_, ?_, ?_, ?_⟩
  · intro k' hk'
    by_cases e : k' = k
    · subst e
      rw [Function.update_self, Function.update_self]
      exact (h.queue k' hk').push (h.nodup k') ha (hal k')
    · rw [Function.update_of_ne e, Function.update_of_ne e]
      obtain ⟨h1, h2⟩ := h.queue k' hk'
      refine ⟨h1.congr fun b hb => ?_, h2⟩
      have hbk : b ∉ lists k := fun hb' => e (h.disjoint hb hb')
      exact hframe b (ne_of_mem_of_not_mem hb (hal k')) hbk
  · intro k'
    by_cases e : k' = k
    · subst e
      rw [Function.update_self]
      exact List.Nodup.append (h.nodup k') (List.nodup_singleton a) (by simpa using hal k')
    · rw [Function.update_of_ne e]
      exact h.nodup k'
  · intro k₁ k₂ b h₁ h₂
    rcases hmem h₁ with m₁ | ⟨e₁, f₁⟩
    · rcases hmem h₂ with m₂ | ⟨e₂, -⟩
      · exact h.disjoint m₁ m₂
      · exact absurd (e₂ ▸ m₁) (hal k₁)
    · rcases hmem h₂ with m₂ | ⟨-, f₂⟩
      · exact absurd (e₁ ▸ m₂) (hal k₂)
      · rw [f₁, f₂]
  · intro k' hk'
    have e : k' ≠ k := by
      rintro rfl
      exact hk' hk
    rw [Function.update_of_ne e]
    exact h.empty k' hk'
  · intro b hb hout
    have hba : b ≠ a := by
      rintro rfl
      exact hout k (by rw [Function.update_self]; simp)
    have hout' : ∀ k', b ∉ lists k' := by
      intro k' hb'
      apply hout k'
      by_cases e : k' = k
      · subst e
        rw [Function.update_self]
        exact List.mem_append_left _ hb'
      · rw [Function.update_of_ne e]
        exact hb'
    rw [hframe b hba (hout' k)]
    exact h.idle b hb hout'

/-- Popping a nonempty queue of a family removes its head and leaves the others alone. -/
theorem pop (h : Holds null elem valid next ends lists) {k : κ} (hk : valid k) {a : α}
    {l : List α} (hl : lists k = a :: l) :
    (Intrusive.pop null next (ends k)).1 = a ∧
    Holds null elem valid (Intrusive.pop null next (ends k)).2.1
      (Function.update ends k (Intrusive.pop null next (ends k)).2.2)
      (Function.update lists k l) := by
  have hq := h.queue k hk
  have hnd := h.nodup k
  rw [hl] at hq hnd
  obtain ⟨hres, hq'⟩ := hq.pop hnd
  have hal : a ∉ l := (List.nodup_cons.mp hnd).1
  have ha : a ≠ null := hq.1.ne_null a (by simp)
  have hak : a ∈ lists k := by rw [hl]; simp
  -- only the link of the removed element is written
  have hnext : (Intrusive.pop null next (ends k)).2.1 = Function.update next a null := by
    unfold Intrusive.pop
    rw [hq.head_eq, if_neg ha]
  have hsub : ∀ {k' b}, b ∈ Function.update lists k l k' → b ∈ lists k' ∧ b ≠ a := by
    intro k' b hb
    by_cases e : k' = k
    · subst e
      rw [Function.update_self] at hb
      exact ⟨by rw [hl]; exact List.mem_cons_of_mem _ hb, ne_of_mem_of_not_mem hb hal⟩
    · rw [Function.update_of_ne e] at hb
      exact ⟨hb, fun e' => e (h.disjoint hb (e' ▸ hak))⟩
  refine ⟨hres, ?_, ?_, ?_, ?_, ?_⟩
  · intro k' hk'
    by_cases e : k' = k
    · subst e
      rw [Function.update_self, Function.update_self]
      exact hq'
    · rw [Function.update_of_ne e, Function.update_of_ne e, hnext]
      obtain ⟨h1, h2⟩ := h.queue k' hk'
      refine ⟨h1.congr fun b hb => Function.update_of_ne ?_ _ _, h2⟩
      rintro rfl
      exact e (h.disjoint hb hak)
  · intro k'
    by_cases e : k' = k
    · subst e
      rw [Function.update_self]
      exact (List.nodup_cons.mp hnd).2
    · rw [Function.update_of_ne e]
      exact h.nodup k'
  · intro k₁ k₂ b h₁ h₂
    exact h.disjoint (hsub h₁).1 (hsub h₂).1
  · intro k' hk'
    have e : k' ≠ k := by
      rintro rfl
      exact hk' hk
    rw [Function.update_of_ne e]
    exact h.empty k' hk'
  · intro b hb hout
    rw [hnext]
    by_cases e : b = a
    · rw [e, Function.update_self]
    · rw [Function.update_of_ne e]
      refine h.idle b hb fun k' hb' => hout k' ?_
      by_cases ek : k' = k
      · subst ek
        rw [hl] at hb'
        rw [Function.update_self]
        exact (List.mem_cons.mp hb').resolve_left e
      · rw [Function.update_of_ne ek]
        exact hb'

omit [DecidableEq α] [DecidableEq κ] in
/-- A family depends on the links of its elements and on the anchors of its valid queues only.
More elements and more queues may be counted in, if they are cleared. -/
lemma extend {elem' : α → Prop} {valid' : κ → Prop} {next' : α → α} {ends' : κ → Ends α}
    (h : Holds null elem valid next ends lists) (hmem : ∀ k, ∀ a ∈ lists k, elem a)
    (hnext : ∀ a, elem a → next' a = next a) (hends : ∀ k, valid k → ends' k = ends k)
    (helem : ∀ a, elem' a → ¬ elem a → next' a = null) (hvalid : ∀ k, valid k → valid' k)
    (hnew : ∀ k, valid' k → ¬ valid k → ends' k = ⟨null, null⟩) :
    Holds null elem' valid' next' ends' lists := by
  refine ⟨?_, h.nodup, h.disjoint, fun k hk => h.empty k fun hv => hk (hvalid k hv), ?_⟩
  · intro k hk
    by_cases hv : valid k
    · obtain ⟨h1, h2⟩ := h.queue k hv
      rw [hends k hv]
      exact ⟨h1.congr fun b hb => hnext b (hmem k b hb), h2⟩
    · rw [hnew k hk hv, h.empty k hv]
      exact ⟨rfl, rfl⟩
  · intro a ha hout
    by_cases he : elem a
    · rw [hnext a he]
      exact h.idle a he hout
    · exact helem a ha he

omit [DecidableEq κ] in
/-- An empty queue pops nothing and changes nothing. -/
lemma pop_nil (h : Holds null elem valid next ends lists) {k : κ} (hk : valid k)
    (hl : lists k = []) : Intrusive.pop null next (ends k) = (null, next, ends k) := by
  unfold Intrusive.pop
  rw [if_pos ((h.queue k hk).head_eq_null_iff.mpr hl)]

end Holds

end Intrusive
