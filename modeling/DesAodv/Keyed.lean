import Mathlib.Algebra.GroupWithZero.Nat
import Mathlib.Data.List.Nodup

/-!
# Keyed lists

A hash table whose iteration order is insertion order is a list whose elements
carry their own key. Lookup, update in place and deletion by a key, and what
each of them does to every other lookup. An element may be looked up under one
key and updated or deleted under another.
-/

namespace Keyed

section
variable {α κ : Type*} [DecidableEq κ] (key : α → κ)

def lookup (k : κ) (l : List α) : Option α := l.find? fun a => decide (key a = k)

def modify (k : κ) (f : α → α) (l : List α) : List α := l.map fun a => if key a = k then f a else a

def erase (k : κ) (l : List α) : List α := l.filter fun a => decide (key a ≠ k)

variable {key}

@[simp] theorem lookup_nil (k : κ) : lookup key k [] = none := rfl

theorem lookup_key {k : κ} {l : List α} {a : α} (h : lookup key k l = some a) : key a = k := by
  simpa using List.find?_some h

theorem lookup_mem {k : κ} {l : List α} {a : α} (h : lookup key k l = some a) : a ∈ l :=
  List.mem_of_find?_eq_some h

theorem lookup_eq_none {k : κ} {l : List α} : lookup key k l = none ↔ ∀ a ∈ l, key a ≠ k := by
  simp [lookup]

theorem lookup_of_mem {l : List α} (hn : (l.map key).Nodup) {a : α} (ha : a ∈ l) :
    lookup key (key a) l = some a := by
  cases h : lookup key (key a) l with
  | none => exact absurd rfl (lookup_eq_none.mp h a ha)
  | some b => rw [List.inj_on_of_nodup_map hn (lookup_mem h) ha (lookup_key h)]

theorem lookup_eq_some {l : List α} (hn : (l.map key).Nodup) {k : κ} {a : α} :
    lookup key k l = some a ↔ a ∈ l ∧ key a = k := by
  constructor
  · intro h; exact ⟨lookup_mem h, lookup_key h⟩
  · intro h
    obtain ⟨ha, rfl⟩ := h
    exact lookup_of_mem hn ha

theorem lookup_perm {l l' : List α} (hn : (l.map key).Nodup) (hp : l.Perm l') (k : κ) :
    lookup key k l' = lookup key k l := by
  apply Option.ext
  intro a
  rw [lookup_eq_some hn, lookup_eq_some ((hp.map key).nodup_iff.mp hn), hp.mem_iff]

/-- Two tables with the same keys in the same order and the same lookups are equal. -/
theorem ext_lookup {l l' : List α} (hk : l'.map key = l.map key) (hn : (l.map key).Nodup)
    (h : ∀ k, lookup key k l' = lookup key k l) : l' = l := by
  apply List.ext_getElem (by simpa using congrArg List.length hk)
  intro i hi hi'
  have hkey : key l'[i] = key l[i] := by
    have := congrArg (fun ks => ks[i]?) hk
    simpa [List.getElem?_map, hi, hi'] using this
  have h' := h (key l[i])
  rw [lookup_of_mem hn (List.getElem_mem hi'), ← hkey, lookup_of_mem (hk ▸ hn) (List.getElem_mem hi)] at h'
  exact Option.some.inj h'

theorem lookup_append (k : κ) (l l' : List α) :
    lookup key k (l ++ l') = (lookup key k l).or (lookup key k l') := by
  simp [lookup, List.find?_append]

theorem lookup_singleton (k : κ) (a : α) : lookup key k [a] = if key a = k then some a else none := by
  by_cases h : key a = k <;> simp [lookup, h]

variable (key) in
theorem lookup_concat_self {l : List α} {a : α} (h : lookup key (key a) l = none) :
    lookup key (key a) (l ++ [a]) = some a := by
  rw [lookup_append, h, lookup_singleton, if_pos rfl, Option.none_or]

theorem lookup_concat_ne {l : List α} {a : α} {k : κ} (h : key a ≠ k) :
    lookup key k (l ++ [a]) = lookup key k l := by
  rw [lookup_append, lookup_singleton, if_neg h, Option.or_none]

variable (key) in
theorem lookup_map (k : κ) (g : α → α) (hg : ∀ a, key (g a) = key a) (l : List α) :
    lookup key k (l.map g) = (lookup key k l).map g := by
  unfold lookup
  rw [List.find?_map]
  simp only [Function.comp_def, hg]

theorem lookup_filter {l : List α} (hn : (l.map key).Nodup) (k : κ) (p : α → Bool) :
    lookup key k (l.filter p) = (lookup key k l).filter p := by
  have hn' : ((l.filter p).map key).Nodup := hn.sublist (List.filter_sublist.map _)
  cases h : lookup key k l with
  | none =>
    rw [Option.filter_none, lookup_eq_none]
    exact fun a ha => lookup_eq_none.mp h a (List.mem_of_mem_filter ha)
  | some a =>
    rw [Option.filter_some]
    obtain ⟨ha, rfl⟩ := (lookup_eq_some hn).mp h
    split
    · rename_i hp
      exact lookup_of_mem hn' (List.mem_filter.mpr ⟨ha, hp⟩)
    · rename_i hp
      rw [lookup_eq_none]
      intro b hb hbk
      have hba : b = a := List.inj_on_of_nodup_map hn (List.mem_of_mem_filter hb) ha hbk
      exact hp (hba ▸ (List.mem_filter.mp hb).2)

theorem lookup_erase_self (k : κ) (l : List α) : lookup key k (erase key k l) = none := by
  rw [lookup_eq_none]
  intro a ha
  simpa using (List.mem_filter.mp ha).2

variable (key) in
theorem lookup_erase_ne {k k' : κ} (h : k' ≠ k) (l : List α) :
    lookup key k (erase key k' l) = lookup key k l := by
  unfold lookup erase
  rw [List.find?_filter]
  congr 1
  funext a
  by_cases hk : key a = k
  · simp [hk, Ne.symm h]
  · simp [hk]

end

section
variable {α κ μ : Type*} [DecidableEq κ] [DecidableEq μ] {key : α → κ} {tag : α → μ}

theorem lookup_modify (k : κ) (t : μ) (f : α → α) (hf : ∀ a, key (f a) = key a) (l : List α) :
    lookup key k (modify tag t f l) = (lookup key k l).map fun a => if tag a = t then f a else a := by
  refine lookup_map key k _ (fun a => ?_) l
  split
  · exact hf a
  · rfl

variable (tag) in
omit [DecidableEq κ] in
theorem map_modify (t : μ) (f : α → α) (hf : ∀ a, key (f a) = key a) (l : List α) :
    (modify tag t f l).map key = l.map key := by
  unfold modify
  rw [List.map_map]
  apply List.map_congr_left
  intro a _
  simp only [Function.comp]
  split
  · exact hf a
  · rfl

theorem mem_modify {t : μ} {f : α → α} {l : List α} {b : α} (h : b ∈ modify tag t f l) :
    ∃ a ∈ l, b = if tag a = t then f a else a := by
  obtain ⟨a, ha, rfl⟩ := List.mem_map.mp h
  exact ⟨a, ha, rfl⟩

omit [DecidableEq κ] in
theorem modify_congr {t : μ} {f g : α → α} {l : List α} (h : ∀ a ∈ l, tag a = t → f a = g a) :
    modify tag t f l = modify tag t g l := by
  apply List.map_congr_left
  intro a ha
  split
  · rename_i ht
    exact h a ha ht
  · rfl

omit [DecidableEq κ] in
theorem erase_absent {t : μ} {l : List α} (h : ∀ a ∈ l, tag a ≠ t) : erase tag t l = l :=
  List.filter_eq_self.mpr fun a ha => decide_eq_true (h a ha)

theorem mem_erase {t : μ} {l : List α} {a : α} : a ∈ erase tag t l ↔ a ∈ l ∧ tag a ≠ t := by
  simp [erase, List.mem_filter]

omit [DecidableEq κ] in
theorem nodup_erase {l : List α} (hn : (l.map key).Nodup) (t : μ) :
    ((erase tag t l).map key).Nodup :=
  hn.sublist (List.filter_sublist.map _)

omit [DecidableEq κ] in
theorem length_erase {l : List α} (hn : (l.map tag).Nodup) {t : μ} (h : ∃ a ∈ l, tag a = t) :
    (erase tag t l).length + 1 = l.length := by
  obtain ⟨a, ha, rfl⟩ := h
  obtain ⟨l₁, l₂, rfl⟩ := List.append_of_mem ha
  have hrest : ∀ b ∈ l₁ ++ l₂, tag b ≠ tag a := by
    have hmid := (List.perm_middle.map tag).nodup_iff.mp hn
    intro b hb he
    exact (List.nodup_cons.mp hmid).1 (he ▸ List.mem_map_of_mem hb)
  have hlen : (erase tag (tag a) (l₁ ++ a :: l₂)).length = (erase tag (tag a) (a :: (l₁ ++ l₂))).length :=
    (List.perm_middle.filter _).length_eq
  rw [hlen, erase, List.filter_cons_of_neg (by simp), ← erase, erase_absent hrest, List.length_append,
    List.length_append, List.length_cons]
  exact Nat.add_assoc _ _ _

omit [DecidableEq κ] in
/-- The element with a tag stands alone between the others. -/
theorem split_of_mem {l : List α} (hn : (l.map tag).Nodup) {a : α} (ha : a ∈ l) :
    ∃ l₁ l₂, l = l₁ ++ a :: l₂ ∧ erase tag (tag a) l = l₁ ++ l₂ ∧
      ∀ f : α → α, modify tag (tag a) f l = l₁ ++ f a :: l₂ := by
  obtain ⟨l₁, l₂, rfl⟩ := List.append_of_mem ha
  have hrest : ∀ b ∈ l₁ ++ l₂, tag b ≠ tag a := by
    have hmid := (List.perm_middle.map tag).nodup_iff.mp hn
    intro b hb he
    exact (List.nodup_cons.mp hmid).1 (he ▸ List.mem_map_of_mem hb)
  have h₁ : ∀ b ∈ l₁, tag b ≠ tag a := fun b hb => hrest b (List.mem_append_left _ hb)
  have h₂ : ∀ b ∈ l₂, tag b ≠ tag a := fun b hb => hrest b (List.mem_append_right _ hb)
  refine ⟨l₁, l₂, rfl, ?_, fun f => ?_⟩
  · rw [erase, List.filter_append, List.filter_cons_of_neg (by simp), ← erase, ← erase, erase_absent h₁,
      erase_absent h₂]
  · have hid : ∀ {l : List α}, (∀ b ∈ l, tag b ≠ tag a) → modify tag (tag a) f l = l := fun h =>
      (List.map_congr_left fun b hb => if_neg (h b hb)).trans (List.map_id _)
    rw [modify, List.map_append, List.map_cons, if_pos rfl, ← modify, ← modify, hid h₁, hid h₂]

section
variable (w : α → Nat) {l : List α} (hn : (l.map tag).Nodup) {a : α} (ha : a ∈ l)
include hn ha

omit [DecidableEq κ] in
theorem sum_erase : ((erase tag (tag a) l).map w).sum + w a = (l.map w).sum := by
  obtain ⟨l₁, l₂, hl, he, -⟩ := split_of_mem hn ha
  rw [he, hl]
  simp only [List.map_append, List.map_cons, List.sum_append, List.sum_cons]
  omega

omit [DecidableEq κ] in
theorem sum_modify (f : α → α) : ((modify tag (tag a) f l).map w).sum + w a = (l.map w).sum + w (f a) := by
  obtain ⟨l₁, l₂, hl, -, hm⟩ := split_of_mem hn ha
  rw [hm, hl]
  simp only [List.map_append, List.map_cons, List.sum_append, List.sum_cons]
  omega

end

theorem nodup_concat {l : List α} (hn : (l.map key).Nodup) {a : α} (ha : lookup key (key a) l = none) :
    ((l ++ [a]).map key).Nodup := by
  rw [List.map_append, List.map_singleton]
  apply List.Nodup.append hn (List.nodup_singleton _)
  intro k hk hk'
  obtain ⟨b, hb, rfl⟩ := List.mem_map.mp hk
  exact lookup_eq_none.mp ha b hb (List.mem_singleton.mp hk')

/-- Updating the element found under a key changes the lookup of that key and of no other. -/
theorem lookup_modify_found {l : List α} (hn : (l.map tag).Nodup) {k : κ} {x : α} (hx : lookup key k l = some x)
    {f : α → α} (hf : ∀ a, key (f a) = key a) (k' : κ) :
    lookup key k' (modify tag (tag x) f l) = if k' = k then some (f x) else lookup key k' l := by
  rw [lookup_modify k' (tag x) f hf]
  by_cases hk : k' = k
  · rw [if_pos hk, hk, hx, Option.map_some, if_pos rfl]
  · rw [if_neg hk]
    cases hy : lookup key k' l with
    | none => rfl
    | some y =>
      have hne : tag y ≠ tag x := by
        intro ht
        have hyx := List.inj_on_of_nodup_map hn (lookup_mem hy) (lookup_mem hx) ht
        exact hk ((lookup_key hy).symm.trans (hyx ▸ lookup_key hx))
      rw [Option.map_some, if_neg hne]

omit [DecidableEq κ] in
theorem filter_erase (t : μ) (ts : List μ) (l : List α) :
    (erase tag t l).filter (fun a => decide (tag a ∉ ts)) = l.filter fun a => decide (tag a ∉ t :: ts) := by
  rw [erase, List.filter_filter]
  apply List.filter_congr
  intro a _
  simp only [List.mem_cons, not_or, Bool.decide_and]
  exact Bool.and_comm _ _

omit [DecidableEq κ] in
theorem foldl_erase {σ ι : Type*} (entries : σ → List α) {purge : σ → ι → σ} {object : ι → μ}
    (h : ∀ s i, entries (purge s i) = erase tag (object i) (entries s)) (is : List ι) (s : σ) :
    entries (is.foldl purge s) = (entries s).filter fun a => decide (tag a ∉ is.map object) := by
  induction is generalizing s with
  | nil => simp
  | cons i is ih => rw [List.foldl_cons, ih, h, filter_erase, List.map_cons]

end

/-! ## Allocations -/

section
variable {α μ : Type*} [DecidableEq μ] {tag : α → μ} {ptr : α → Nat} {fresh : Nat} {l : List α}
  (h : ∀ a ∈ l, ptr a < fresh)
include h

theorem lookup_fresh : lookup ptr fresh l = none :=
  lookup_eq_none.mpr fun a ha => Nat.ne_of_lt (h a ha)

theorem allocated_concat {a : α} (ha : ptr a = fresh) : ∀ b ∈ l ++ [a], ptr b < fresh + 1 := by
  intro b hb
  rcases List.mem_append.mp hb with hb | hb
  · exact Nat.lt_succ_of_lt (h b hb)
  · rw [List.mem_singleton.mp hb, ha]
    exact Nat.lt_succ_self _

theorem allocated_modify {t : μ} {f : α → α} (hf : ∀ a, ptr (f a) = ptr a) : ∀ b ∈ modify tag t f l, ptr b < fresh := by
  intro b hb
  obtain ⟨a, ha, rfl⟩ := mem_modify hb
  split
  · rw [hf]
    exact h a ha
  · exact h a ha

end

end Keyed
