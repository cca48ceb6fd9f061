import IntCalc.Fallible
import IntCalc.Report.Reference

/-!
# What a save changes

A file is put at one place, the one its path leads to, and a sink forgets what is written
to it (`FileArea.put_of_write`). So a save leaves whatever stands at another place
(`FileArea.place_of_save`), and does not reach the standard output unless its path leads
there (`FileArea.output_of_save`).
-/

namespace IntCalc

namespace FileArea

variable {area area' : FileArea} {path : String} {place other : List String} {bytes : ByteArray}

/-- A file is put at its place only. -/
theorem node?_put_of_ne (h : other ≠ place) :
    (area.put place bytes).node? other = area.node? other := by
  have hother : ∀ entry : List String × FileNode,
      (!decide (entry.1 = place) && decide (entry.1 = other)) = decide (entry.1 = other) := by
    intro entry
    by_cases hentry : entry.1 = other <;> simp [hentry, h]
  simp [node?, put, List.find?_append, hother, h.symm]

/-- A write puts the file at the place of its path, unless something else stands there that
can be written to. -/
theorem put_of_write (h : area.write path bytes = .ok area') :
    ∃ place, area.place path = .ok place ∧
      (area' = area ∨ area' = area.put place bytes ∨
        area.node? place = some .output ∧
          area' = { area with output := area.output ++ bytes }) := by
  obtain ⟨-, -, h⟩ := bind_eq_ok_iff.1 h
  split at h
  · cases h
  · obtain ⟨place, hplace, h⟩ := bind_eq_ok_iff.1 h
    refine ⟨place, hplace, ?_⟩
    split at h
    · cases h
    · exact Or.inl (Except.ok.inj h).symm
    · next hnode => exact Or.inr (Or.inr ⟨hnode, (Except.ok.inj h).symm⟩)
    · exact Or.inr (Or.inl (Except.ok.inj h).symm)
    · exact Or.inr (Or.inl (Except.ok.inj h).symm)

theorem write_of_save (h : area.save path bytes = .ok area') :
    area.write (area.expandHome path) bytes = .ok area' := by
  obtain ⟨-, -, hwrite⟩ := bind_eq_ok_iff.1 h
  exact mapError_eq_ok_iff.1 hwrite

/-- A save changes what stands at the place of its path, and nothing else. -/
theorem place_of_save (h : area.save path bytes = .ok area')
    (hother : area'.node? other ≠ area.node? other) :
    area.place (area.expandHome path) = .ok other := by
  obtain ⟨place, hplace, rfl | rfl | ⟨-, rfl⟩⟩ := put_of_write (write_of_save h)
  · exact absurd rfl hother
  · have heq : other = place := Decidable.byContradiction fun hne => hother (node?_put_of_ne hne)
    rw [hplace, heq]
  · exact absurd rfl hother

/-- A save writes to the standard output only if its path leads there. -/
theorem output_of_save (h : area.save path bytes = .ok area')
    (houtput : area'.output ≠ area.output) :
    ∃ place, area.place (area.expandHome path) = .ok place ∧ area.node? place = some .output := by
  obtain ⟨place, hplace, rfl | rfl | ⟨hnode, -⟩⟩ := put_of_write (write_of_save h)
  · exact absurd rfl houtput
  · exact absurd rfl houtput
  · exact ⟨place, hplace, hnode⟩

end FileArea

end IntCalc
