import DesAodv.Deadlines
import DesAodv.Keyed

/-!
# Tables whose entries expire

The entries of a table have a key and an address each, and every address has a
deadline. From outside such a table is a map from keys to deadlines, and taking
out the entries that are due is taking out their keys.
-/

namespace Deadlines

section
variable {α τ : Type*} [LinearOrder τ]

/-- Some of what is due until `T` has been taken out, each object once. -/
structure Removed (d : α → Option τ) (T : τ) (gone : List (α × τ)) (d' : α → Option τ) : Prop where
  due : ∀ o t, (o, t) ∈ gone → d o = some t ∧ t ≤ T
  once : (gone.map Prod.fst).Nodup
  rest : ∀ o t, d' o = some t ↔ d o = some t ∧ o ∉ gone.map Prod.fst

/-- Nothing is left that is due until `T`. -/
def Unexpired (d : α → Option τ) (T : τ) : Prop := ∀ o t, d o = some t → T < t

theorem Removed.nil (d : α → Option τ) (T : τ) : Removed d T [] d := by
  refine ⟨fun o t h => ?_, List.nodup_nil, fun o t => ?_⟩
  · cases h
  · simp

theorem Handed.removed {d : α → Option τ} {T : τ} {gone : List (α × τ)} (h : Handed d T gone) :
    Removed d T gone (expire d T) := by
  refine ⟨fun o t => (h.mem o t).mp, h.once, fun o t => ?_⟩
  rw [expire_eq_some]
  refine and_congr_right fun hd => ?_
  constructor
  · intro hlt hm
    obtain ⟨g, hg, rfl⟩ := List.mem_map.mp hm
    obtain ⟨hd', hle⟩ := (h.mem g.1 g.2).mp hg
    obtain rfl := Option.some.inj (hd'.symm.trans hd)
    exact absurd hlt (not_lt.mpr hle)
  · intro hn
    refine not_le.mp fun hle => hn ?_
    exact List.mem_map_of_mem ((h.mem o t).mpr ⟨hd, hle⟩)

theorem unexpired_expire (d : α → Option τ) (T : τ) : Unexpired (expire d T) T := fun _ _ h => (expire_eq_some.mp h).2

theorem Removed.gone {d d' : α → Option τ} {T : τ} {gone : List (α × τ)} (h : Removed d T gone d') (o : α) :
    o ∈ gone.map Prod.fst ↔ d o ≠ none ∧ d' o = none := by
  constructor
  · intro hm
    obtain ⟨g, hg, rfl⟩ := List.mem_map.mp hm
    refine ⟨by rw [(h.due g.1 g.2 hg).1]; exact Option.some_ne_none _, ?_⟩
    refine Option.eq_none_iff_forall_ne_some.mpr fun t ht => ?_
    exact ((h.rest _ t).mp ht).2 hm
  · intro ⟨hd, hn⟩
    obtain ⟨t, ht⟩ := Option.ne_none_iff_exists'.mp hd
    refine Classical.byContradiction fun hm => ?_
    rw [(h.rest o t).mpr ⟨ht, hm⟩] at hn
    cases hn

/-- The object is kept until `u` at least. -/
def KeptUntil (d : α → Option τ) (u : τ) (o : α) : Prop := ∃ t, d o = some t ∧ u ≤ t

theorem Removed.keptUntil {d d' : α → Option τ} {T u : τ} {gone : List (α × τ)} (h : Removed d T gone d') {o : α}
    (hk : KeptUntil d u o) (hT : T < u) : KeptUntil d' u o := by
  obtain ⟨t, ht, hle⟩ := hk
  refine ⟨t, (h.rest o t).mpr ⟨ht, fun hm => ?_⟩, hle⟩
  obtain ⟨g, hg, rfl⟩ := List.mem_map.mp hm
  obtain ⟨hd, hdue⟩ := h.due g.1 g.2 hg
  obtain rfl := Option.some.inj (hd.symm.trans ht)
  exact absurd (hle.trans hdue) (not_le.mpr hT)

theorem keptUntil_update [DecidableEq α] {d : α → Option τ} {u t : τ} {o q : α} (hk : o ≠ q → KeptUntil d u o)
    (hq : o = q → u ≤ t) : KeptUntil (Function.update d q (some t)) u o := by
  by_cases h : o = q
  · exact ⟨t, by rw [h, Function.update_self], hq h⟩
  · obtain ⟨t', ht', hle⟩ := hk h
    exact ⟨t', by rw [Function.update_of_ne h, ht'], hle⟩

theorem not_keptUntil {d : α → Option τ} {u t : τ} {o : α} (hd : d o = some t) : ¬ KeptUntil d u o ↔ t < u := by
  rw [← not_le]
  refine not_congr ⟨fun h => ?_, fun h => ⟨t, hd, h⟩⟩
  obtain ⟨t', ht', hle⟩ := h
  exact Option.some.inj (ht'.symm.trans hd) ▸ hle

end

section
variable {α κ π τ : Type*} [DecidableEq κ] (key : α → κ) (ptr : α → π)

/-- Keys and addresses are unique, and the deadlines are those of the entries. -/
structure Tracked (entries : List α) (d : π → Option τ) : Prop where
  keys : (entries.map key).Nodup
  ptrs : (entries.map ptr).Nodup
  timed : ∀ p, d p ≠ none ↔ ∃ e ∈ entries, ptr e = p

/-- The deadline of the entry of a key. -/
def byKey (entries : List α) (d : π → Option τ) : κ → Option τ :=
  fun k => (Keyed.lookup key k entries).bind fun e => d (ptr e)

def goneKeys [DecidableEq π] (entries : List α) (gone : List (π × τ)) : List (κ × τ) :=
  gone.filterMap fun g => (Keyed.lookup ptr g.1 entries).map fun e => (key e, g.2)

variable {key ptr} {entries : List α} {d : π → Option τ}

omit [DecidableEq κ] in
theorem tracked_nil : Tracked key ptr [] (fun _ => (none : Option τ)) :=
  ⟨List.nodup_nil, List.nodup_nil, fun p => by simp⟩

theorem byKey_eq_some (hn : (entries.map key).Nodup) {k : κ} {t : τ} :
    byKey key ptr entries d k = some t ↔ ∃ e ∈ entries, key e = k ∧ d (ptr e) = some t := by
  unfold byKey
  rw [Option.bind_eq_some_iff]
  constructor
  · intro ⟨e, he, ht⟩
    obtain ⟨hm, hk⟩ := (Keyed.lookup_eq_some hn).mp he
    exact ⟨e, hm, hk, ht⟩
  · intro ⟨e, hm, hk, ht⟩
    exact ⟨e, (Keyed.lookup_eq_some hn).mpr ⟨hm, hk⟩, ht⟩

theorem Tracked.byKey_ne_none (h : Tracked key ptr entries d) {k : κ} :
    byKey key ptr entries d k ≠ none ↔ ∃ e ∈ entries, key e = k := by
  rw [Option.ne_none_iff_exists']
  constructor
  · intro ⟨t, ht⟩
    obtain ⟨e, he, hk, -⟩ := (byKey_eq_some h.keys).mp ht
    exact ⟨e, he, hk⟩
  · intro ⟨e, he, hk⟩
    obtain ⟨t, ht⟩ := Option.ne_none_iff_exists'.mp ((h.timed (ptr e)).mpr ⟨e, he, rfl⟩)
    exact ⟨t, (byKey_eq_some h.keys).mpr ⟨e, he, hk, ht⟩⟩

section
variable [DecidableEq π]

omit [DecidableEq π] in
theorem Tracked.modify (h : Tracked key ptr entries d) {μ : Type*} [DecidableEq μ] (tag : α → μ) (m : μ) {f : α → α}
    (hk : ∀ a, key (f a) = key a) (hp : ∀ a, ptr (f a) = ptr a) :
    Tracked key ptr (Keyed.modify tag m f entries) d ∧
      byKey key ptr (Keyed.modify tag m f entries) d = byKey key ptr entries d := by
  have hptrs := Keyed.map_modify tag m f hp entries
  refine ⟨⟨?_, ?_, fun p => ?_⟩, ?_⟩
  · rw [Keyed.map_modify tag m f hk]
    exact h.keys
  · rw [hptrs]
    exact h.ptrs
  · rw [h.timed p, ← List.mem_map, ← List.mem_map, hptrs]
  · funext k
    rw [byKey, byKey, Keyed.lookup_modify k m f hk, Option.bind_map]
    refine Option.bind_congr fun a _ => ?_
    simp only [Function.comp]
    split
    · rw [hp]
    · rfl

theorem Tracked.set (h : Tracked key ptr entries d) {e : α} (he : e ∈ entries) (t : τ) :
    Tracked key ptr entries (Function.update d (ptr e) (some t)) ∧
      byKey key ptr entries (Function.update d (ptr e) (some t)) =
        Function.update (byKey key ptr entries d) (key e) (some t) := by
  refine ⟨⟨h.keys, h.ptrs, fun p => ?_⟩, ?_⟩
  · by_cases hp : p = ptr e
    · subst hp
      rw [Function.update_self]
      exact iff_of_true (Option.some_ne_none t) ⟨e, he, rfl⟩
    · rw [Function.update_of_ne hp]
      exact h.timed p
  · funext k
    by_cases hk : k = key e
    · subst hk
      rw [Function.update_self, byKey, Keyed.lookup_of_mem h.keys he, Option.bind_some, Function.update_self]
    · rw [Function.update_of_ne hk, byKey, byKey]
      refine Option.bind_congr fun a ha => ?_
      have hne : ptr a ≠ ptr e := by
        intro hp
        rw [← Keyed.lookup_key ha, List.inj_on_of_nodup_map h.ptrs (Keyed.lookup_mem ha) he hp] at hk
        exact hk rfl
      exact Function.update_of_ne hne _ _

theorem Tracked.add (h : Tracked key ptr entries d) {e : α} (hk : Keyed.lookup key (key e) entries = none)
    (hp : ∀ a ∈ entries, ptr a ≠ ptr e) (t : τ) :
    Tracked key ptr (entries ++ [e]) (Function.update d (ptr e) (some t)) ∧
      byKey key ptr (entries ++ [e]) (Function.update d (ptr e) (some t)) =
        Function.update (byKey key ptr entries d) (key e) (some t) := by
  have hptrs := Keyed.nodup_concat h.ptrs (Keyed.lookup_eq_none.mpr hp)
  refine ⟨⟨Keyed.nodup_concat h.keys hk, hptrs, fun p => ?_⟩, ?_⟩
  · simp only [List.mem_append, List.mem_singleton]
    by_cases hpe : p = ptr e
    · subst hpe
      rw [Function.update_self]
      exact iff_of_true (Option.some_ne_none t) ⟨e, .inr rfl, rfl⟩
    · rw [Function.update_of_ne hpe, h.timed p]
      constructor
      · intro ⟨a, ha, hap⟩
        exact ⟨a, .inl ha, hap⟩
      · intro ⟨a, ha, hap⟩
        rcases ha with ha | rfl
        · exact ⟨a, ha, hap⟩
        · exact absurd hap.symm hpe
  · funext k
    by_cases hke : k = key e
    · subst hke
      rw [Function.update_self, byKey, Keyed.lookup_concat_self key hk, Option.bind_some, Function.update_self]
    · rw [Function.update_of_ne hke, byKey, Keyed.lookup_concat_ne (Ne.symm hke), byKey]
      refine Option.bind_congr fun a ha => ?_
      exact Function.update_of_ne (hp a (Keyed.lookup_mem ha)) _ _

theorem Tracked.drop (h : Tracked key ptr entries d) {e : α} (he : e ∈ entries) :
    Tracked key ptr (Keyed.erase key (key e) entries) (Function.update d (ptr e) none) ∧
      byKey key ptr (Keyed.erase key (key e) entries) (Function.update d (ptr e) none) =
        Function.update (byKey key ptr entries d) (key e) none := by
  have hsame : ∀ a ∈ entries, ptr a = ptr e ↔ key a = key e := by
    intro a ha
    constructor
    · exact fun hp => congrArg key (List.inj_on_of_nodup_map h.ptrs ha he hp)
    · exact fun hk => congrArg ptr (List.inj_on_of_nodup_map h.keys ha he hk)
  refine ⟨⟨Keyed.nodup_erase h.keys _, Keyed.nodup_erase h.ptrs _, fun p => ?_⟩, ?_⟩
  · by_cases hp : p = ptr e
    · subst hp
      rw [Function.update_self]
      refine iff_of_false (fun hn => hn rfl) fun hm => ?_
      obtain ⟨a, ha, hpa⟩ := hm
      obtain ⟨ha, hk⟩ := Keyed.mem_erase.mp ha
      exact hk ((hsame a ha).mp hpa)
    · rw [Function.update_of_ne hp, h.timed p]
      constructor
      · intro ⟨a, ha, hap⟩
        exact ⟨a, Keyed.mem_erase.mpr ⟨ha, fun hk => hp (hap ▸ (hsame a ha).mpr hk)⟩, hap⟩
      · intro ⟨a, ha, hap⟩
        exact ⟨a, (Keyed.mem_erase.mp ha).1, hap⟩
  · funext k
    by_cases hk : k = key e
    · subst hk
      rw [Function.update_self, byKey, Keyed.lookup_erase_self, Option.bind_none]
    · rw [Function.update_of_ne hk, byKey, byKey, Keyed.lookup_erase_ne key (Ne.symm hk)]
      refine Option.bind_congr fun a ha => Function.update_of_ne (fun hp => hk ?_) _ _
      rw [← Keyed.lookup_key ha]
      exact (hsame a (Keyed.lookup_mem ha)).mp hp

variable [LinearOrder τ] {T : τ} {gone : List (π × τ)} {d' : π → Option τ}

omit [DecidableEq κ] [LinearOrder τ] in
theorem Tracked.mem_goneKeys (h : Tracked key ptr entries d) {k : κ} {t : τ} :
    (k, t) ∈ goneKeys key ptr entries gone ↔ ∃ e ∈ entries, key e = k ∧ (ptr e, t) ∈ gone := by
  unfold goneKeys
  rw [List.mem_filterMap]
  constructor
  · intro ⟨g, hg, hm⟩
    obtain ⟨e, he, heq⟩ := Option.map_eq_some_iff.mp hm
    obtain ⟨hk, ht⟩ := Prod.mk.inj heq
    refine ⟨e, Keyed.lookup_mem he, hk, ?_⟩
    rw [Keyed.lookup_key he, ← ht]
    exact hg
  · intro ⟨e, he, hk, hg⟩
    refine ⟨(ptr e, t), hg, ?_⟩
    rw [Keyed.lookup_of_mem h.ptrs he, Option.map_some, hk]

theorem Tracked.remove (h : Tracked key ptr entries d) (hr : Removed d T gone d') :
    Tracked key ptr (entries.filter fun e => decide (ptr e ∉ gone.map Prod.fst)) d' ∧
      Removed (byKey key ptr entries d) T (goneKeys key ptr entries gone)
        (byKey key ptr (entries.filter fun e => decide (ptr e ∉ gone.map Prod.fst)) d') := by
  have hkeys : ((entries.filter fun e => decide (ptr e ∉ gone.map Prod.fst)).map key).Nodup :=
    h.keys.sublist (List.filter_sublist.map _)
  refine ⟨⟨hkeys, h.ptrs.sublist (List.filter_sublist.map _), fun p => ?_⟩, ?_, ?_, ?_⟩
  · simp only [List.mem_filter, decide_eq_true_eq]
    rw [Option.ne_none_iff_exists']
    constructor
    · intro hs
      obtain ⟨t, ht⟩ := hs
      obtain ⟨hd, hn⟩ := (hr.rest p t).mp ht
      obtain ⟨e, he, rfl⟩ := (h.timed p).mp (by rw [hd]; exact Option.some_ne_none t)
      exact ⟨e, ⟨he, hn⟩, rfl⟩
    · intro hs
      obtain ⟨e, ⟨he, hn⟩, hp⟩ := hs
      subst hp
      obtain ⟨t, ht⟩ := Option.ne_none_iff_exists'.mp ((h.timed _).mpr ⟨e, he, rfl⟩)
      exact ⟨t, (hr.rest _ t).mpr ⟨ht, hn⟩⟩
  · intro k t hm
    obtain ⟨e, he, hk, hg⟩ := h.mem_goneKeys.mp hm
    obtain ⟨hd, hle⟩ := hr.due _ t hg
    exact ⟨(byKey_eq_some h.keys).mpr ⟨e, he, hk, hd⟩, hle⟩
  · -- two entries that go have different addresses, so different keys
    have hmap : (goneKeys key ptr entries gone).map Prod.fst =
        (gone.map Prod.fst).filterMap fun p => (Keyed.lookup ptr p entries).map key := by
      unfold goneKeys
      rw [List.map_filterMap, List.filterMap_map]
      simp only [Option.map_map, Function.comp_def]
    rw [hmap]
    refine List.Nodup.filterMap ?_ hr.once
    intro p p' k hk hk'
    obtain ⟨e, he, rfl⟩ := Option.map_eq_some_iff.mp hk
    obtain ⟨e', he', hkk⟩ := Option.map_eq_some_iff.mp hk'
    have hee := List.inj_on_of_nodup_map h.keys (Keyed.lookup_mem he) (Keyed.lookup_mem he') hkk.symm
    rw [← Keyed.lookup_key he, ← Keyed.lookup_key he', hee]
  · intro k t
    rw [byKey_eq_some hkeys, byKey_eq_some h.keys]
    simp only [List.mem_filter, decide_eq_true_eq, hr.rest]
    constructor
    · intro hs
      obtain ⟨e, ⟨he, hn⟩, hk, hd, _⟩ := hs
      refine ⟨⟨e, he, hk, hd⟩, fun hm => ?_⟩
      obtain ⟨g, hg, hgk⟩ := List.mem_map.mp hm
      obtain ⟨e', he', hk', hg'⟩ := h.mem_goneKeys.mp hg
      obtain rfl := List.inj_on_of_nodup_map h.keys he he' (hk.trans (hgk.symm.trans hk'.symm))
      exact hn (List.mem_map_of_mem hg')
    · intro hs
      obtain ⟨⟨e, he, hk, hd⟩, hn⟩ := hs
      have hne : ptr e ∉ gone.map Prod.fst := by
        intro hm
        obtain ⟨g, hg, hge⟩ := List.mem_map.mp hm
        refine hn (List.mem_map.mpr ⟨(k, g.2), h.mem_goneKeys.mpr ⟨e, he, hk, ?_⟩, rfl⟩)
        rw [← hge]
        exact hg
      exact ⟨e, ⟨he, hne⟩, hk, hd, hne⟩

end

end

end Deadlines
