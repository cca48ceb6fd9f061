import IntCalc.Cache.History

/-!
# Caches in use

`Cache.use` is the cache after a key has been asked for whose value is known : a hit or a
miss, and is counted as that. `Cache.Agrees` says that every entry holds the value of its key.
A cache that agrees with the values answers with them, and it agrees with them after any
use.
-/

namespace IntCalc.Cache

variable {κ ν : Type} {c c' : Cache κ ν} {k : κ} {v : ν} {value : κ → ν}

/-- Every entry holds the value of its key. -/
def Agrees (value : κ → ν) (c : Cache κ ν) : Prop :=
  ∀ e ∈ c.entries, e.2 = value e.1

theorem agrees_empty (value : κ → ν) (n : Int) : Agrees value { capacity := n } := by
  simp [Agrees]

/-- A miss stores what was asked for, if anything. -/
theorem mem_entries_miss {e : κ × ν} (h : e ∈ (c.miss k v).entries) :
    e ∈ c.entries ∨ e = (k, v) := by
  simp only [miss] at h
  split at h
  · simpa using List.mem_of_mem_drop h
  · exact Or.inl h

variable [DecidableEq κ]

/-- The cache after a key with the value `v` has been asked for. -/
def use (c : Cache κ ν) (k : κ) (v : ν) : Cache κ ν :=
  match c.hit? k with
  | some (_, c') => c'
  | none => c.miss k v

/-- The cache after keys have been asked for in order. -/
def useAll (value : κ → ν) (c : Cache κ ν) (ks : List κ) : Cache κ ν :=
  ks.foldl (fun c k => c.use k (value k)) c

/-! ## Hits and misses -/

/-- A look-up finds an entry, which becomes the latest one. -/
theorem exists_entry_of_hit? (h : c.hit? k = some (v, c')) :
    (k, v) ∈ c.entries ∧
      c' = { c with entries := without c.entries k ++ [(k, v)], hits := c.hits + 1 } := by
  unfold hit? at h
  split at h
  · cases h
  · next e he =>
    cases h
    obtain rfl : e.1 = k := by simpa using List.find?_some he
    exact ⟨List.mem_of_find?_eq_some he, rfl⟩

/-- A look-up stores nothing. -/
theorem mem_entries_of_hit? (h : c.hit? k = some (v, c')) {e : κ × ν} (he : e ∈ c'.entries) :
    e ∈ c.entries := by
  obtain ⟨hmem, rfl⟩ := exists_entry_of_hit? h
  rcases List.mem_append.1 he with he | he
  · exact (List.mem_filter.1 he).1
  · exact List.mem_singleton.1 he ▸ hmem

theorem hit?_eq_none_iff : c.hit? k = none ↔ k ∉ c.keys := by
  have hfind : c.hit? k = none ↔ c.entries.find? (·.1 = k) = none := by
    unfold hit?
    cases c.entries.find? (·.1 = k) <;> simp
  rw [hfind, List.find?_eq_none, keys, List.mem_map]
  constructor
  · rintro h ⟨e, he, rfl⟩
    exact h e he (by simp)
  · intro h e he hk
    exact h ⟨e, he, of_decide_eq_true hk⟩

theorem exists_hit?_of_mem_keys (h : k ∈ c.keys) :
    ∃ v, c.hit? k =
      some (v, { c with entries := without c.entries k ++ [(k, v)], hits := c.hits + 1 }) := by
  obtain ⟨⟨v, c'⟩, hhit⟩ := Option.ne_none_iff_exists'.1 (mt hit?_eq_none_iff.1 (not_not_intro h))
  obtain ⟨-, rfl⟩ := exists_entry_of_hit? hhit
  exact ⟨v, hhit⟩

theorem use_of_mem_keys (h : k ∈ c.keys) : ∃ w, c.use k v =
    { c with entries := without c.entries k ++ [(k, w)], hits := c.hits + 1 } := by
  obtain ⟨w, hhit⟩ := exists_hit?_of_mem_keys h
  exact ⟨w, by rw [use, hhit]⟩

theorem use_of_not_mem_keys (h : k ∉ c.keys) : c.use k v = c.miss k v := by
  rw [use, hit?_eq_none_iff.2 h]

@[simp] theorem capacity_use : (c.use k v).capacity = c.capacity := by
  by_cases h : k ∈ c.keys
  · obtain ⟨w, huse⟩ := use_of_mem_keys h
    rw [huse]
  · rw [use_of_not_mem_keys h]
    rfl

theorem hits_use : (c.use k v).hits = c.hits + if k ∈ c.keys then 1 else 0 := by
  by_cases h : k ∈ c.keys
  · obtain ⟨w, huse⟩ := use_of_mem_keys h
    rw [huse, if_pos h]
  · rw [use_of_not_mem_keys h, if_neg h]
    rfl

theorem misses_use : (c.use k v).misses = c.misses + if k ∈ c.keys then 0 else 1 := by
  by_cases h : k ∈ c.keys
  · obtain ⟨w, huse⟩ := use_of_mem_keys h
    rw [huse, if_pos h]
    rfl
  · rw [use_of_not_mem_keys h, if_neg h]
    rfl

/-! ## Values -/

theorem mem_entries_use {e : κ × ν} (h : e ∈ (c.use k v).entries) : e ∈ c.entries ∨ e = (k, v) := by
  unfold use at h
  split at h
  · next hhit => exact Or.inl (mem_entries_of_hit? hhit h)
  · exact mem_entries_miss h

/-- A hit answers with the value. -/
theorem Agrees.eq_of_hit? (hc : c.Agrees value) (h : c.hit? k = some (v, c')) : v = value k :=
  hc _ (exists_entry_of_hit? h).1

theorem Agrees.use (hc : c.Agrees value) (k : κ) : (c.use k (value k)).Agrees value := by
  intro e he
  rcases mem_entries_use he with h | rfl
  · exact hc e h
  · rfl

theorem Agrees.useAll (hc : c.Agrees value) (ks : List κ) : (useAll value c ks).Agrees value := by
  induction ks generalizing c with
  | nil => exact hc
  | cons k ks ih => exact ih (hc.use k)

end IntCalc.Cache
