import IntCalc.Proofs.Dialogue

/-!
# What a cache holds

A cache of a fixed size `n` holds the keys that were last asked for : the last `n` of the
distinct ones, in the order of their last use (`Cache.Recent`). A key is a hit if it is
among these. So a larger cache that is asked the same holds at least as much and has at
least as many hits (`Cache.Nested`).

`Dialogue.keys_eq_lastOf` says this of a dialogue that does not change the cache size, for
the texts evaluated since the cache was last emptied.
-/

namespace IntCalc

namespace Cache

variable {κ ν : Type} {c c' : Cache κ ν} {n m : Nat} {ks as bs : List κ} {k : κ} {v : ν}

/-! ## The end of a list -/

theorem lastOf_eq_self (h : ks.length ≤ n) : lastOf n ks = ks := by
  rw [lastOf, Nat.sub_eq_zero_of_le h, List.drop_zero]

/-- What comes before the last `n` elements does not matter. -/
theorem lastOf_append_of_le (h : n ≤ bs.length) : lastOf n (as ++ bs) = lastOf n bs := by
  have hlen : (as ++ bs).length - n = as.length + (bs.length - n) := by
    rw [List.length_append]
    omega
  rw [lastOf, hlen, List.drop_append]
  simp [lastOf]

theorem lastOf_append (h : as = [] ∨ bs.length = n) (hle : bs.length ≤ n) :
    lastOf n (as ++ bs) = bs := by
  rcases h with rfl | h
  · exact lastOf_eq_self hle
  · rw [lastOf_append_of_le (Nat.le_of_eq h.symm), lastOf_eq_self hle]

/-- A list ends in its last `n` elements, which are all it has if they are fewer. -/
theorem exists_eq_append_lastOf (n : Nat) (ks : List κ) :
    ∃ as, ks = as ++ lastOf n ks ∧ (as = [] ∨ (lastOf n ks).length = n) := by
  refine ⟨ks.take (ks.length - n), (List.take_append_drop _ ks).symm, ?_⟩
  rcases Nat.lt_or_ge ks.length n with h | h
  · exact Or.inl (by simp [Nat.sub_eq_zero_of_le (Nat.le_of_lt h)])
  · refine Or.inr ?_
    rw [lastOf, List.length_drop]
    omega

theorem length_lastOf_le (n : Nat) (ks : List κ) : (lastOf n ks).length ≤ n := by
  rw [lastOf, List.length_drop]
  omega

theorem lastOf_subset (h : n ≤ m) (ks : List κ) : lastOf n ks ⊆ lastOf m ks :=
  List.drop_subset_drop_left ks (Nat.sub_le_sub_left h _)

theorem lastOf_min (n : Nat) (ks : List κ) : lastOf (min n ks.length) ks = lastOf n ks := by
  rw [lastOf, lastOf]
  congr 1
  omega

theorem keys_use_of_mem [DecidableEq κ] (h : k ∈ c.keys) :
    (c.use k v).keys = c.keys.filter (· ≠ k) ++ [k] := by
  obtain ⟨w, huse⟩ := use_of_mem_keys h
  rw [huse, keys, List.map_append, keys_without]
  rfl

theorem keys_miss : (c.miss k v).keys =
    if 0 < c.capacity then lastOf c.capacity.toNat (c.keys ++ [k]) else c.keys := by
  by_cases h : 0 < c.capacity <;> simp [miss, keys, newest, lastOf, h]

/-! ## One more use -/

variable [DecidableEq κ]

/-- A key that is used again moves to the end. -/
theorem byLastUse_concat (ks : List κ) (k : κ) :
    byLastUse (ks ++ [k]) = (byLastUse ks).filter (· ≠ k) ++ [k] := by
  induction ks with
  | nil => rfl
  | cons a later ih =>
    by_cases hlater : a ∈ later
    · simp only [List.cons_append, byLastUse, List.mem_append, hlater, true_or, if_true, ih]
    · by_cases hak : a = k
      · subst hak
        simp [byLastUse, hlater, ih]
      · simp [byLastUse, hlater, hak, ih]

theorem filter_ne_eq_erase (h : ks.Nodup) (k : κ) : ks.filter (· ≠ k) = ks.erase k := by
  simp [h.erase_eq_filter, bne, Bool.beq_eq_decide_eq]

/-- One of the last keys that is used again moves to the end of them. -/
theorem lastOf_concat_of_mem (h : k ∈ lastOf n (byLastUse ks)) :
    lastOf n (byLastUse (ks ++ [k])) = (lastOf n (byLastUse ks)).filter (· ≠ k) ++ [k] := by
  obtain ⟨as, hsplit, hall⟩ := exists_eq_append_lastOf n (byLastUse ks)
  have hle := length_lastOf_le n (byLastUse ks)
  have hnodup := nodup_byLastUse ks
  generalize lastOf n (byLastUse ks) = bs at h hsplit hall hle ⊢
  rw [hsplit, List.nodup_append] at hnodup
  obtain ⟨-, hbs, hdisjoint⟩ := hnodup
  have hfilter : as.filter (· ≠ k) = as :=
    List.filter_eq_self.2 fun a ha => decide_eq_true (hdisjoint a ha k h)
  have hlen : (bs.filter (· ≠ k) ++ [k]).length = bs.length := by
    have hpos := List.length_pos_of_mem h
    rw [filter_ne_eq_erase hbs, List.length_append, List.length_erase_of_mem h, List.length_singleton]
    omega
  rw [byLastUse_concat, hsplit, List.filter_append, hfilter, List.append_assoc]
  exact lastOf_append (hall.imp_right hlen.trans) (hlen ▸ hle)

/-- Another key comes after them. -/
theorem lastOf_concat_of_not_mem (h : k ∉ lastOf n (byLastUse ks)) :
    lastOf n (byLastUse (ks ++ [k])) = lastOf n (lastOf n (byLastUse ks) ++ [k]) := by
  obtain ⟨as, hsplit, hall⟩ := exists_eq_append_lastOf n (byLastUse ks)
  generalize lastOf n (byLastUse ks) = bs at h hsplit hall ⊢
  have hfilter : bs.filter (· ≠ k) = bs :=
    List.filter_eq_self.2 fun b hb => decide_eq_true (ne_of_mem_of_not_mem hb h)
  rw [byLastUse_concat, hsplit, List.filter_append, hfilter, List.append_assoc]
  rcases hall with rfl | hlen
  · rfl
  · refine lastOf_append_of_le ?_
    rw [List.length_append, hlen]
    exact Nat.le_succ n

/-! ## Uses -/

/-- The cache has the size `n` and holds the last of the keys `ks` that were asked for. -/
structure Recent (n : Nat) (ks : List κ) (c : Cache κ ν) : Prop where
  capacity : c.capacity = n
  keys : c.keys = lastOf n (byLastUse ks)

theorem recent_empty (n : Nat) : Recent n [] ({ capacity := n } : Cache κ ν) :=
  ⟨rfl, by simp [Cache.keys, byLastUse, lastOf]⟩

theorem Recent.use (h : c.Recent n ks) (k : κ) (v : ν) : (c.use k v).Recent n (ks ++ [k]) := by
  refine ⟨capacity_use.trans h.capacity, ?_⟩
  by_cases hmem : k ∈ c.keys
  · rw [keys_use_of_mem hmem]
    rw [h.keys] at hmem ⊢
    rw [lastOf_concat_of_mem hmem]
  · rw [use_of_not_mem_keys hmem, keys_miss, h.capacity]
    rw [h.keys] at hmem ⊢
    rw [lastOf_concat_of_not_mem hmem]
    split
    · rfl
    · next hn =>
      obtain rfl : n = 0 := by omega
      simp [lastOf]

/-- Two caches have been asked the same, and the one of the smaller size has no more hits. -/
structure Nested (n m : Nat) (ks : List κ) (c c' : Cache κ ν) : Prop where
  size_le : n ≤ m
  inner : c.Recent n ks
  outer : c'.Recent m ks
  hits_le : c.hits ≤ c'.hits

theorem nested_empty (h : n ≤ m) :
    Nested n m [] ({ capacity := n } : Cache κ ν) { capacity := m } :=
  ⟨h, recent_empty n, recent_empty m, Nat.le_refl _⟩

/-- The larger one holds all keys of the other. -/
theorem Nested.keys_subset (h : Nested n m ks c c') : c.keys ⊆ c'.keys := by
  rw [h.inner.keys, h.outer.keys]
  exact lastOf_subset h.size_le _

theorem Nested.use (h : Nested n m ks c c') (k : κ) (v v' : ν) :
    Nested n m (ks ++ [k]) (c.use k v) (c'.use k v') := by
  refine ⟨h.size_le, h.inner.use k v, h.outer.use k v', ?_⟩
  rw [hits_use, hits_use]
  have hsub : k ∈ c.keys → k ∈ c'.keys := fun hk => h.keys_subset hk
  have hle := h.hits_le
  split <;> split
  · omega
  · next hk hk' => exact absurd (hsub hk) hk'
  · omega
  · omega

theorem Nested.useAll (h : Nested n m ks c c') (value : κ → ν) (more : List κ) :
    Nested n m (ks ++ more) (useAll value c more) (useAll value c' more) := by
  induction more generalizing ks c c' with
  | nil => rwa [List.append_nil]
  | cons k more ih =>
    have hrest := ih (h.use k (value k) (value k))
    rwa [List.append_assoc] at hrest

theorem Nested.clear (h : Nested n m ks c c') : Nested n m [] c.clear c'.clear := by
  have hclear := nested_empty (κ := κ) (ν := ν) h.size_le
  rw [← h.inner.capacity, ← h.outer.capacity] at hclear
  exact hclear

end Cache

variable {n m : Nat} {texts : List String} {cache cache' : Cache String Outcome}

/-! ## Dialogues of a fixed size -/

namespace Command

/-- No command but a change of size makes a difference between the two caches. -/
theorem nested_cacheAfter (h : Cache.Nested n m texts cache cache')
    (value : String → Outcome) {command : Command} (hsize : ∀ k, command ≠ .resize k) :
    Cache.Nested n m (History.textsStep texts command) (command.cacheAfter value cache)
      (command.cacheAfter value cache') := by
  cases command with
  | evaluate text => exact h.use text _ _
  | evaluateAll more => exact h.useAll value more
  | clear => exact h.clear
  | resize k => exact absurd rfl (hsize k)
  | edit index change => exact h

theorem nested_foldl (h : Cache.Nested n m texts cache cache')
    (value : String → Outcome) {commands : List Command} (hsize : ∀ k, .resize k ∉ commands) :
    Cache.Nested n m (commands.foldl History.textsStep texts)
      (commands.foldl (cacheAfter value) cache) (commands.foldl (cacheAfter value) cache') := by
  induction commands generalizing texts cache cache' with
  | nil => exact h
  | cons command commands ih =>
    refine ih (nested_cacheAfter h value fun k hk => ?_) fun k hk => ?_
    · exact hsize k (hk ▸ List.mem_cons_self)
    · exact hsize k (List.mem_cons_of_mem _ hk)

end Command

namespace Dialogue

theorem nested_cacheOf (c : Calculator) {commands : List Command}
    (hsize : ∀ k, Command.resize k ∉ commands) (hnm : n ≤ m) :
    Cache.Nested n m (History.texts commands) (cacheOf c n commands) (cacheOf c m commands) :=
  Command.nested_foldl (Cache.nested_empty hnm) c.outcome hsize

/-- As long as the cache size `n` stays the same, the cached texts are the last `n` of those
evaluated since the cache was emptied, and a text is a hit if it is one of them. With a
larger size all of them are cached as well, and there are at least as many hits. -/
theorem keys_eq_lastOf (c : Calculator) (n : Nat) (commands : List Command)
    (hsize : ∀ k, Command.resize k ∉ commands) :
    let asked := Cache.byLastUse (History.texts commands)
    ∃ answers d, (start c n).runAll commands = .ok (answers, d) ∧
      d.session.cache.keys = Cache.lastOf (min n asked.length) asked ∧
      (∀ text, ∃ o s, d.session.evaluate text = .ok (o, s) ∧
        s.cache.hits = d.session.cache.hits + (if text ∈ Cache.lastOf n asked then 1 else 0) ∧
        s.cache.misses =
          d.session.cache.misses + (if text ∈ Cache.lastOf n asked then 0 else 1)) ∧
      ∀ m : Nat, n ≤ m → ∃ answers' d', (start c m).runAll commands = .ok (answers', d') ∧
        d.session.cache.keys ⊆ d'.session.cache.keys ∧
        d.session.cache.hits ≤ d'.session.cache.hits := by
  intro asked
  have hkeys : (cacheOf c n commands).keys = Cache.lastOf n asked :=
    (nested_cacheOf c hsize (Nat.le_refl n)).inner.keys
  obtain ⟨answers, held, hrun, -⟩ := runAll_start c n commands
  refine ⟨answers, _, hrun, hkeys.trans (Cache.lastOf_min n asked).symm, fun text => ?_,
    fun m hnm => ?_⟩
  · refine ⟨_, _, evaluate_cacheOf c n commands text, ?_, ?_⟩
    · rw [← hkeys]
      exact Cache.hits_use
    · rw [← hkeys]
      exact Cache.misses_use
  · have hnested := nested_cacheOf c hsize hnm
    obtain ⟨answers', held', hrun', -⟩ := runAll_start c m commands
    exact ⟨answers', _, hrun', hnested.keys_subset, hnested.hits_le⟩

/-- At the size two the first of three texts is still cached if it is asked for again
before the third. -/
theorem keys_eq_lastOf_two :
    ∃ answers d, (start {} 2).runAll
        [.evaluate "8", .clear, .evaluate "1", .evaluate "2+", .evaluate "1", .evaluate "3"] =
        .ok (answers, d) ∧
      d.session.cache.keys = ["1", "3"] ∧
      (∃ o s, d.session.evaluate "1" = .ok (o, s) ∧
        s.cache.hits = d.session.cache.hits + 1) ∧
      ∃ o s, d.session.evaluate "8" = .ok (o, s) ∧
        s.cache.misses = d.session.cache.misses + 1 := by
  obtain ⟨answers, d, hrun, hkeys, hcount, -⟩ := keys_eq_lastOf {} 2
    [.evaluate "8", .clear, .evaluate "1", .evaluate "2+", .evaluate "1", .evaluate "3"] (by simp)
  refine ⟨answers, d, hrun, hkeys.trans (by decide), ?_, ?_⟩
  · obtain ⟨o, s, heval, hhits, -⟩ := hcount "1"
    rw [if_pos (by decide)] at hhits
    exact ⟨o, s, heval, hhits⟩
  · obtain ⟨o, s, heval, -, hmisses⟩ := hcount "8"
    rw [if_neg (by decide)] at hmisses
    exact ⟨o, s, heval, hmisses⟩

end Dialogue

end IntCalc
