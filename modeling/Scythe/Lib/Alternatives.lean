import Mathlib.Data.List.Nodup
import Mathlib.Data.List.Perm.Basic
import Mathlib.Data.Set.Insert
import Mathlib.Tactic.Common

-- Types of records: some fields that every record has, and choices between two
-- sets of further fields.
namespace Alternatives
section
variable {κ τ σ V α : Type}

abbrev Record (κ V : Type) := κ → Option V

structure Choice (κ τ : Type) where
  left : List (κ × τ)
  right : List (κ × τ)

structure RecordType (κ τ : Type) where
  base : List (κ × τ)
  choices : List (Choice κ τ)

def Holds (record : Record κ V) (field : κ) (values : Set V) : Prop := ∃ v ∈ values,record field = some v

def Meets (meaning : τ → Set V) (record : Record κ V) (fields : List (κ × τ)) : Prop :=
  ∀ field ∈ fields,Holds record field.1 (meaning field.2)

def RecordType.records (meaning : τ → Set V) (type : RecordType κ τ) : Set (Record κ V) :=
  {record | Meets meaning record type.base ∧
    ∀ choice ∈ type.choices,Meets meaning record choice.left ∨ Meets meaning record choice.right}

-- A field of a choice counts once, whichever side a record takes.
def RecordType.fields (type : RecordType κ τ) : List κ :=
  type.base.map Prod.fst ++ type.choices.flatMap fun choice => choice.left.map Prod.fst

theorem Holds.mono {record : Record κ V} {field : κ} {values wider : Set V} (holds : Holds record field values)
    (within : values ⊆ wider) : Holds record field wider := by
  obtain ⟨v,inside,is⟩ := holds
  exact ⟨v,within inside,is⟩

theorem meets_map {meaning : τ → Set V} {record : Record κ V} {xs : List α} {field : α → κ} {type : α → τ} :
    Meets meaning record (xs.map fun x => (field x,type x)) ↔ ∀ x ∈ xs,Holds record (field x) (meaning (type x)) :=
  List.forall_mem_map

section
variable [DecidableEq κ]

-- The things of which some field each, in the order of the list.
theorem record_of {xs : List α} {field : α → κ} (distinct : (xs.map field).Nodup) (value : α → V) :
    ∃ record : Record κ V,∀ x ∈ xs,record (field x) = some (value x) := by
  refine ⟨fun key => (xs.find? fun x => field x = key).map value,fun x member => ?_⟩
  have found : ∃ y,xs.find? (fun y => field y = field x) = some y :=
    Option.isSome_iff_exists.mp (List.find?_isSome.mpr ⟨x,member,decide_eq_true rfl⟩)
  obtain ⟨y,is⟩ := found
  have named : field y = field x := of_decide_eq_true (List.find?_some (p := fun y => decide (field y = field x)) is)
  have same : y = x := List.inj_on_of_nodup_map distinct (List.mem_of_find?_eq_some is) member named
  change (xs.find? fun y => decide (field y = field x)).map value = _
  rw [is,same,Option.map_some]

end

section
variable [DecidableEq κ]

def without (key : α → Option κ) (keys : List κ) (xs : List α) : List α :=
  xs.filter fun x => (key x).all fun k => !keys.contains k

def sharing (key : α → Option κ) (k : κ) (xs : List α) : List α := xs.filter fun x => key x = some k

theorem mem_without {key : α → Option κ} {keys : List κ} {xs : List α} {x : α} :
    x ∈ without key keys xs ↔ x ∈ xs ∧ ∀ k ∈ keys,key x ≠ some k := by
  unfold without
  rw [List.mem_filter]
  refine and_congr_right fun _ => ?_
  cases key x with
  | none => exact ⟨fun _ k _ absurdKey => Option.some_ne_none k absurdKey.symm,fun _ => rfl⟩
  | some own =>
    constructor
    · intro outside k member is
      cases is
      simp [member] at outside
    · intro other
      have outside : own ∉ keys := fun member => other own member rfl
      simp [outside]

theorem mem_sharing {key : α → Option κ} {k : κ} {xs : List α} {x : α} :
    x ∈ sharing key k xs ↔ x ∈ xs ∧ key x = some k := by
  unfold sharing
  rw [List.mem_filter,decide_eq_true_iff]

theorem without_nil (key : α → Option κ) (xs : List α) : without key [] xs = xs := by
  refine List.filter_eq_self.mpr fun x _ => ?_
  cases key x with
  | none => rfl
  | some k => rfl

-- Whatever the keys, each thing stands apart or with the others of its key.
theorem partition_perm (key : α → Option κ) {keys : List κ} (distinct : keys.Nodup) (xs : List α) :
    (without key keys xs ++ keys.flatMap fun k => sharing key k xs).Perm xs := by
  induction keys generalizing xs with
  | nil => rw [without_nil,List.flatMap_nil,List.append_nil]
  | cons k keys ih =>
    obtain ⟨fresh,distinct⟩ := List.nodup_cons.mp distinct
    have apart : without key (k :: keys) xs = without key keys (xs.filter fun x => !decide (key x = some k)) := by
      unfold without
      rw [List.filter_filter]
      refine List.filter_congr fun x _ => ?_
      cases key x with
      | none => rfl
      | some own => by_cases is : own = k <;> simp [is]
    have kept : ∀ k' ∈ keys,sharing key k' xs = sharing key k' (xs.filter fun x => !decide (key x = some k)) := by
      intro k' member
      have differ : k' ≠ k := fun is => fresh (is ▸ member)
      unfold sharing
      rw [List.filter_filter]
      refine List.filter_congr fun x _ => ?_
      by_cases is : key x = some k'
      · simp [is,differ]
      · simp [is]
    have rest := ih distinct (xs.filter fun x => !decide (key x = some k))
    rw [apart,List.flatMap_cons,List.flatMap_congr kept]
    refine (List.perm_append_comm_assoc _ _ _).trans ?_
    exact (rest.append_left _).trans (List.filter_append_perm _ xs)

end
end
end Alternatives
