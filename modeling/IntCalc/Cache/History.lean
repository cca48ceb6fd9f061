import IntCalc.Cache

/-!
# The order of last use

`byLastUse` lists the keys of a history, oldest first, each once and at the
place of its last use. A cache with a fixed capacity `n` holds the last `n`
keys of that list.
-/

namespace IntCalc.Cache

/-- The distinct keys of a history in the order of their last use. -/
def byLastUse {κ : Type} [DecidableEq κ] : List κ → List κ
  | [] => []
  | k :: later => if k ∈ later then byLastUse later else k :: byLastUse later

/-- The last `n` elements of a list. -/
def lastOf {κ : Type} (n : Nat) (ks : List κ) : List κ :=
  ks.drop (ks.length - n)

variable {κ : Type} [DecidableEq κ]

/-- A key is listed if it was used. -/
@[simp] theorem mem_byLastUse {k : κ} {ks : List κ} : k ∈ byLastUse ks ↔ k ∈ ks := by
  induction ks with
  | nil => simp [byLastUse]
  | cons a later ih =>
    by_cases h : a ∈ later
    · simp only [byLastUse, if_pos h, ih, List.mem_cons]
      exact ⟨Or.inr, fun hk => hk.elim (fun e => e ▸ h) id⟩
    · simp [byLastUse, if_neg h, ih]

/-- No key is listed twice. -/
theorem nodup_byLastUse (ks : List κ) : (byLastUse ks).Nodup := by
  induction ks with
  | nil => simp [byLastUse]
  | cons a later ih =>
    by_cases h : a ∈ later
    · simpa [byLastUse, if_pos h] using ih
    · simp only [byLastUse, if_neg h, List.nodup_cons, mem_byLastUse]
      exact ⟨h, ih⟩

end IntCalc.Cache
