import Mathlib.Data.List.AList

-- One key of a register is exchanged for another.
namespace Renaming
section
variable {κ α : Type} [DecidableEq κ] {m : AList fun _ : κ => α} {old : κ} {held : α}

def exchange (m : AList fun _ : κ => α) (old new : κ) (value : α) : AList fun _ : κ => α :=
  (m.erase old).insert new value

-- The entry of the old key stands under the new one, with the new value.
def relocate (old new : κ) (value : α) (entry : Σ _ : κ, α) : Σ _ : κ, α :=
  if entry.1 = old then ⟨new,value⟩ else entry

@[simp] theorem lookup_exchange (m : AList fun _ : κ => α) (old new : κ) (value : α) :
    (exchange m old new value).lookup new = some value := AList.lookup_insert _

theorem entries_perm (found : m.lookup old = some held) : m.entries.Perm (⟨old,held⟩ :: (m.erase old).entries) := by
  have fresh : old ∉ m.erase old := fun inside => (AList.mem_erase.mp inside).1 rfl
  rw [←AList.entries_insert_of_notMem fresh]
  apply List.lookup_ext m.nodupKeys (AList.nodupKeys _)
  intro key value
  change value ∈ m.lookup key ↔ value ∈ ((m.erase old).insert old held).lookup key
  by_cases same : key = old
  · rw [same,found,AList.lookup_insert]
  · rw [AList.lookup_insert_ne same,AList.lookup_erase_ne same]

theorem relocated_perm (found : m.lookup old = some held) (new : κ) (value : α) :
    (m.entries.map (relocate old new value)).Perm (⟨new,value⟩ :: (m.erase old).entries) := by
  have others : (m.erase old).entries.map (relocate old new value) = (m.erase old).entries := by
    refine (List.map_congr_left fun entry member => ?_).trans (List.map_id _)
    have inside : entry.1 ∈ m.erase old := AList.mem_keys.mpr (List.mem_map_of_mem member)
    exact if_neg (AList.mem_erase.mp inside).1
  have mapped := (entries_perm found).map (relocate old new value)
  rw [List.map_cons,others] at mapped
  simpa only [relocate,if_true] using mapped

-- The exchange keeps every other entry exactly when the new key is free.
theorem exchange_perm_iff (found : m.lookup old = some held) (new target : κ) (value : α) :
    (exchange m old new value).entries.Perm (m.entries.map (relocate old target value)) ↔
      new = target ∧ (new ∈ m → new = old) := by
  have relocated := relocated_perm found target value
  constructor
  · intro moved
    have keys : (new :: (m.erase old).keys.erase new).Perm (target :: (m.erase old).keys) := by
      have perm := (moved.trans relocated).map Sigma.fst
      rw [←AList.keys_insert (β := fun _ => α)]
      exact perm
    have free : new ∉ (m.erase old).keys := by
      intro inside
      have shorter := List.length_erase_of_mem inside
      have nonempty := List.length_pos_of_mem inside
      have same := keys.length_eq
      simp only [List.length_cons] at same
      omega
    have same : new = target := by
      rcases List.mem_cons.mp (keys.mem_iff.mp List.mem_cons_self) with same | inside
      · exact same
      · exact absurd inside free
    refine ⟨same,fun registered => ?_⟩
    by_contra other
    exact free (AList.mem_keys.mp (AList.mem_erase.mpr ⟨other,registered⟩))
  · rintro ⟨rfl,free⟩
    have fresh : new ∉ m.erase old := fun inside =>
      have parts := AList.mem_erase.mp inside
      parts.1 (free parts.2)
    rw [exchange,AList.entries_insert_of_notMem fresh]
    exact relocated.symm

end
end Renaming
