import Mathlib.Data.List.AList
import Mathlib.Data.List.Perm.Basic

-- What a map holds, whatever the order of its entries. `Same f` compares the
-- values as `f` sees them.
namespace Contents

section
variable {κ α β γ δ : Type} [DecidableEq κ]

def Same (f : α → γ) (a b : AList fun _ : κ => α) : Prop := ∀ key,(a.lookup key).map f = (b.lookup key).map f

variable {f : α → γ} {a b c : AList fun _ : κ => α} {key : κ}

theorem same_refl (f : α → γ) (a : AList fun _ : κ => α) : Same f a a := fun _ => rfl

theorem same_symm (same : Same f a b) : Same f b a := fun key => (same key).symm

theorem same_trans (first : Same f a b) (second : Same f b c) : Same f a c := fun key =>
  (first key).trans (second key)

-- What reads no more of a value than `f` does sees the same as well.
theorem same_mono {g : α → δ} (reads : ∀ x y,f x = f y → g x = g y) (same : Same f a b) : Same g a b := by
  intro key
  have own := same key
  cases left : a.lookup key with
  | none =>
    rw [left] at own
    rw [Option.map_eq_none_iff.mp own.symm]
  | some x =>
    rw [left] at own
    obtain ⟨y,right,equal⟩ := Option.map_eq_some_iff.mp own.symm
    rw [right,Option.map_some,Option.map_some,reads x y equal.symm]

theorem same_lookup (same : Same id a b) (key : κ) : a.lookup key = b.lookup key := by
  simpa using same key

theorem same_of_lookup (equal : ∀ key,a.lookup key = b.lookup key) : Same id a b := fun key =>
  congrArg (Option.map id) (equal key)

theorem same_isSome (same : Same f a b) (key : κ) : (a.lookup key).isSome = (b.lookup key).isSome := by
  simpa using congrArg Option.isSome (same key)

theorem same_mem (same : Same f a b) (key : κ) : key ∈ a ↔ key ∈ b := by
  rw [←AList.lookup_isSome,←AList.lookup_isSome,same_isSome same]

theorem same_keys (same : Same f a b) : a.keys.Perm b.keys :=
  (List.perm_ext_iff_of_nodup a.keys_nodup b.keys_nodup).mpr (same_mem same)

omit [DecidableEq κ] in
theorem seen_keys (f : α → γ) (a : AList fun _ : κ => α) :
    (a.entries.map fun entry => (entry.1,f entry.2)).map Prod.fst = a.keys := by
  rw [List.map_map]
  rfl

theorem mem_seen (f : α → γ) (a : AList fun _ : κ => α) (key : κ) (value : γ) :
    (key,value) ∈ a.entries.map (fun entry => (entry.1,f entry.2)) ↔ (a.lookup key).map f = some value := by
  rw [List.mem_map,Option.map_eq_some_iff]
  constructor
  · intro ⟨⟨own,held⟩,member,same⟩
    cases same
    exact ⟨held,AList.mem_lookup_iff.mpr member,rfl⟩
  · intro ⟨held,found,same⟩
    exact ⟨⟨key,held⟩,AList.mem_lookup_iff.mp found,by rw [same]⟩

-- The entries of two such maps are one list in two orders.
theorem same_entries (same : Same f a b) :
    (a.entries.map fun entry => (entry.1,f entry.2)).Perm (b.entries.map fun entry => (entry.1,f entry.2)) := by
  have apart (m : AList fun _ : κ => α) : (m.entries.map fun entry => (entry.1,f entry.2)).Nodup :=
    .of_map Prod.fst ((seen_keys f m).symm ▸ m.keys_nodup)
  refine (List.perm_ext_iff_of_nodup (apart a) (apart b)).mpr ?_
  intro ⟨key,value⟩
  rw [mem_seen,mem_seen,same key]

end

end Contents
