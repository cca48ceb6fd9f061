import IntCalc.Proofs.LastUse

/-!
# What a cache of changing size counts

A change of size takes effect when the next key is stored, and with a size that is not
positive nothing is stored. `Cache.Accounted` says what holds of the keys and the
counters all the same, for the keys that were asked for and the sizes that were in force
since the cache was last emptied. As long as all of these sizes are positive, the cached
keys are the last ones of the order of last use, though not always as many as the size
allows.

`Dialogue.cache_accounted` says this of every dialogue.
-/

namespace IntCalc

namespace Cache

variable {κ ν : Type} {c : Cache κ ν} {sizes : List Int} {ks : List κ} {k : κ}

/-! ## Sizes and keys -/

theorem le_foldr_max {n : Int} (h : n ∈ sizes) : n ≤ sizes.foldr max 0 := by
  induction sizes with
  | nil => cases h
  | cons m sizes ih =>
    rcases List.mem_cons.1 h with rfl | h
    · exact Int.le_max_left ..
    · exact Int.le_trans (ih h) (Int.le_max_right ..)

theorem length_keys (c : Cache κ ν) : c.keys.length = c.size := by
  simp [keys, size]

theorem lastOf_suffix (n : Nat) (ks : List κ) : lastOf n ks <:+ ks :=
  List.drop_suffix _ _

/-- What a miss leaves is the end of what was there with the key behind it. -/
theorem keys_miss_suffix (h : 0 < c.capacity) (v : ν) : (c.miss k v).keys <:+ c.keys ++ [k] := by
  rw [keys_miss, if_pos h]
  exact lastOf_suffix _ _

theorem size_miss_le_capacity (h : 0 < c.capacity) (v : ν) : (c.miss k v).size ≤ c.capacity := by
  have hle := length_lastOf_le c.capacity.toNat (c.keys ++ [k])
  rw [← length_keys, keys_miss, if_pos h]
  omega

theorem size_miss_le (v : ν) : (c.miss k v).size ≤ c.size + 1 := by
  rw [← length_keys, ← length_keys, keys_miss]
  split
  · simpa using (lastOf_suffix c.capacity.toNat (c.keys ++ [k])).length_le
  · exact Nat.le_succ _

variable [DecidableEq κ]

/-- A hit changes the order of the keys only. -/
theorem keys_use_perm (h : k ∈ c.keys) (hnodup : c.keys.Nodup) (v : ν) :
    (c.use k v).keys.Perm c.keys := by
  rw [keys_use_of_mem h, filter_ne_eq_erase hnodup]
  exact (List.perm_append_singleton ..).trans (List.perm_cons_erase h).symm

/-- A list that ends the order of last use, with its latest key moved behind it, does so
after the key has been used. -/
theorem suffix_byLastUse_concat {keys : List κ} (h : keys <:+ byLastUse ks) (k : κ) :
    keys.filter (· ≠ k) ++ [k] <:+ byLastUse (ks ++ [k]) := by
  obtain ⟨older, hsplit⟩ := h
  refine ⟨older.filter (· ≠ k), ?_⟩
  rw [byLastUse_concat, ← hsplit, List.filter_append, List.append_assoc]

/-! ## Accounts -/

/-- What holds of a cache that has been asked for the keys `ks`, while the sizes `sizes`
were in force, the latest first. -/
structure Accounted (sizes : List Int) (ks : List κ) (c : Cache κ ν) : Prop where
  capacity : sizes.head? = some c.capacity
  nodup : c.keys.Nodup
  asked : c.keys ⊆ ks
  counted : c.hits + c.misses = ks.length
  size_le_misses : c.size ≤ c.misses
  size_le_sizes : c.size ≤ sizes.foldr max 0
  latest : (∀ n ∈ sizes, 1 ≤ n) → c.keys <:+ byLastUse ks

theorem accounted_empty (n : Int) : Accounted [n] [] ({ capacity := n } : Cache κ ν) where
  capacity := rfl
  nodup := List.nodup_nil
  asked := by simp [keys]
  counted := rfl
  size_le_misses := Nat.le_refl _
  size_le_sizes := Int.le_max_right ..
  latest := by simp [keys, byLastUse]

theorem Accounted.capacity_mem (h : c.Accounted sizes ks) : c.capacity ∈ sizes :=
  List.mem_of_mem_head? h.capacity

/-- A miss is counted like every other evaluation. -/
theorem Accounted.counted_miss (h : c.Accounted sizes ks) (k : κ) (v : ν) :
    (c.miss k v).hits + (c.miss k v).misses = (ks ++ [k]).length := by
  have hcounted : c.hits + (c.misses + 1) = ks.length + 1 := congrArg (· + 1) h.counted
  rw [List.length_append, List.length_singleton]
  exact hcounted

/-- A hit moves its key behind the others. -/
theorem Accounted.hit (h : c.Accounted sizes ks) (hmem : k ∈ c.keys) (v : ν) :
    (c.use k v).Accounted sizes (ks ++ [k]) := by
  have hperm := keys_use_perm hmem h.nodup v
  have hsize : (c.use k v).size = c.size := by
    rw [← length_keys, ← length_keys, hperm.length_eq]
  have hhits : (c.use k v).hits = c.hits + 1 := by rw [hits_use, if_pos hmem]
  have hmisses : (c.use k v).misses = c.misses := by rw [misses_use, if_pos hmem, Nat.add_zero]
  refine ⟨?_, hperm.nodup_iff.2 h.nodup, fun key hkey => ?_, ?_, ?_, ?_, fun hpos => ?_⟩
  · rw [capacity_use]
    exact h.capacity
  · exact List.mem_append_left _ (h.asked (hperm.mem_iff.1 hkey))
  · have hcounted := h.counted
    rw [hhits, hmisses, List.length_append, List.length_singleton]
    omega
  · rw [hsize, hmisses]
    exact h.size_le_misses
  · rw [hsize]
    exact h.size_le_sizes
  · rw [keys_use_of_mem hmem]
    exact suffix_byLastUse_concat (h.latest hpos) k

/-- A key that is stored comes behind the others. -/
theorem Accounted.store (h : c.Accounted sizes ks) (hmem : k ∉ c.keys) (hpos : 0 < c.capacity)
    (v : ν) : (c.miss k v).Accounted sizes (ks ++ [k]) := by
  have hsuffix := keys_miss_suffix (k := k) hpos v
  have hadded : (c.keys ++ [k]).Nodup :=
    (List.perm_append_singleton k c.keys).nodup_iff.2 (List.nodup_cons.2 ⟨hmem, h.nodup⟩)
  have hfilter : c.keys.filter (· ≠ k) = c.keys :=
    List.filter_eq_self.2 fun a ha => decide_eq_true (ne_of_mem_of_not_mem ha hmem)
  have hsize := size_miss_le (c := c) (k := k) v
  have hmisses : (c.miss k v).misses = c.misses + 1 := rfl
  refine ⟨h.capacity, hsuffix.sublist.nodup hadded, fun key hkey => ?_, h.counted_miss k v, ?_, ?_,
    fun hall => ?_⟩
  · rcases List.mem_append.1 (hsuffix.subset hkey) with hkey | hkey
    · exact List.mem_append_left _ (h.asked hkey)
    · exact List.mem_append_right _ hkey
  · exact hsize.trans (hmisses ▸ Nat.succ_le_succ h.size_le_misses)
  · exact Int.le_trans (size_miss_le_capacity hpos v) (le_foldr_max h.capacity_mem)
  · have hmoved := suffix_byLastUse_concat (h.latest hall) k
    rw [hfilter] at hmoved
    exact hsuffix.trans hmoved

/-- Without a positive size a key is counted and not stored. -/
theorem Accounted.pass (h : c.Accounted sizes ks) (hnonpos : ¬0 < c.capacity) (v : ν) :
    (c.miss k v).Accounted sizes (ks ++ [k]) := by
  have hkeys : (c.miss k v).keys = c.keys := by rw [keys_miss, if_neg hnonpos]
  have hsize : (c.miss k v).size = c.size := by rw [← length_keys, hkeys, length_keys]
  have hmisses : (c.miss k v).misses = c.misses + 1 := rfl
  refine ⟨h.capacity, hkeys ▸ h.nodup, fun key hkey => ?_, h.counted_miss k v, ?_, ?_,
    fun hall => ?_⟩
  · exact List.mem_append_left _ (h.asked (hkeys ▸ hkey))
  · rw [hsize, hmisses]
    exact Nat.le_succ_of_le h.size_le_misses
  · rw [hsize]
    exact h.size_le_sizes
  · exact absurd (hall _ h.capacity_mem) hnonpos

theorem Accounted.use (h : c.Accounted sizes ks) (k : κ) (v : ν) :
    (c.use k v).Accounted sizes (ks ++ [k]) := by
  by_cases hmem : k ∈ c.keys
  · exact h.hit hmem v
  · rw [use_of_not_mem_keys hmem]
    by_cases hpos : 0 < c.capacity
    · exact h.store hmem hpos v
    · exact h.pass hpos v

theorem Accounted.useAll (h : c.Accounted sizes ks) (value : κ → ν) (more : List κ) :
    (useAll value c more).Accounted sizes (ks ++ more) := by
  induction more generalizing ks c with
  | nil => rwa [List.append_nil]
  | cons k more ih =>
    have hrest := ih (h.use k (value k))
    rwa [List.append_assoc] at hrest

theorem Accounted.clear (h : c.Accounted sizes ks) : c.clear.Accounted (sizes.take 1) [] := by
  obtain ⟨rest, rfl⟩ := List.head?_eq_some_iff.1 h.capacity
  exact accounted_empty c.capacity

/-- Nothing is dropped when the size changes. -/
theorem Accounted.resize (h : c.Accounted sizes ks) (n : Int) :
    (c.resize n).Accounted (n :: sizes) ks where
  capacity := rfl
  nodup := h.nodup
  asked := h.asked
  counted := h.counted
  size_le_misses := h.size_le_misses
  size_le_sizes := Int.le_trans h.size_le_sizes (Int.le_max_right ..)
  latest hpos := h.latest fun m hm => hpos m (List.mem_cons_of_mem n hm)

end Cache

variable {sizes : List Int} {texts : List String} {cache : Cache String Outcome}

namespace Command

/-- One command keeps the account. -/
theorem accounted_cacheAfter (h : cache.Accounted sizes texts) (value : String → Outcome)
    (command : Command) : (command.cacheAfter value cache).Accounted
      (History.sizesStep sizes command) (History.textsStep texts command) := by
  cases command with
  | evaluate text => exact h.use text _
  | evaluateAll more => exact h.useAll value more
  | clear => exact h.clear
  | resize n => exact h.resize n
  | edit index change => exact h

/-- So do all commands. -/
theorem accounted_foldl (h : cache.Accounted sizes texts) (value : String → Outcome)
    (commands : List Command) : (commands.foldl (cacheAfter value) cache).Accounted
      (commands.foldl History.sizesStep sizes) (commands.foldl History.textsStep texts) := by
  induction commands generalizing sizes texts cache with
  | nil => exact h
  | cons command commands ih => exact ih (accounted_cacheAfter h value command)

end Command

namespace Dialogue

/-- Whatever the cache size is and becomes, the cached texts are distinct and were all
evaluated since the cache was emptied, every evaluation is counted as a hit or a miss, and
there are no more entries than misses or than the largest size in force since then. If all
of these sizes are positive, the cached texts are the last ones by last use. -/
theorem cache_accounted (c : Calculator) (n : Int) (commands : List Command) :
    let asked := History.texts commands
    let sizes := History.sizes n commands
    ∃ answers d, (start c n).runAll commands = .ok (answers, d) ∧
      d.session.cache.keys.Nodup ∧ d.session.cache.keys ⊆ asked ∧
      d.session.cache.hits + d.session.cache.misses = asked.length ∧
      d.session.cache.size ≤ d.session.cache.misses ∧
      d.session.cache.size ≤ sizes.foldr max 0 ∧
      ((∀ size ∈ sizes, 1 ≤ size) → d.session.cache.keys <:+ Cache.byLastUse asked) := by
  intro asked sizes
  obtain ⟨answers, held, hrun, -⟩ := runAll_start c n commands
  have h : (cacheOf c n commands).Accounted sizes asked :=
    Command.accounted_foldl (Cache.accounted_empty n) c.outcome commands
  exact ⟨answers, _, hrun, h.nodup, h.asked, h.counted, h.size_le_misses, h.size_le_sizes, h.latest⟩

/-- A smaller size drops nothing by itself, and the text that is found is the latest one. -/
theorem cache_accounted_resized :
    ∃ answers d, (start {} 2).runAll
        [.evaluate "1", .evaluate "2+", .resize 1, .evaluate "1"] = .ok (answers, d) ∧
      d.session.cache.hits + d.session.cache.misses = 3 ∧ (d.session.cache.size : Int) ≤ 2 ∧
      d.session.cache.keys <:+ ["2+", "1"] := by
  obtain ⟨answers, d, hrun, -, -, hcounted, -, hsize, hlatest⟩ := cache_accounted {} 2
    [.evaluate "1", .evaluate "2+", .resize 1, .evaluate "1"]
  refine ⟨answers, d, hrun, hcounted, hsize, ?_⟩
  have hlast := hlatest (by decide)
  rwa [show Cache.byLastUse (History.texts
    [.evaluate "1", .evaluate "2+", .resize 1, .evaluate "1"]) = ["2+", "1"] by decide] at hlast

end Dialogue

end IntCalc
