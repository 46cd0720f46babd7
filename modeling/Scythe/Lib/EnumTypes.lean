import Mathlib.Logic.Function.Basic
import Mathlib.Data.List.Nodup
import Mathlib.Data.List.Perm.Basic

-- Enum types as a database keeps them: labels in an order, no label twice, and
-- a statement that would break this is refused.
namespace EnumTypes

inductive Place (α : Type) where
  | last
  | before (other : α)
  | after (other : α)
  deriving DecidableEq

-- A name that is taken, by an enum or by something else. The type that belongs
-- to a table follows the table and is not renamed as a type.
inductive Kind (α : Type) where
  | enum (labels : List α)
  | standalone
  | rowType
  deriving DecidableEq

abbrev Types (ν α : Type) := ν → Option (Kind α)

inductive Command (ν α : Type) where
  | create (name : ν) (labels : List α)
  | addValue (name : ν) (ifNotExists : Bool) (label : α) (place : Place α)
  | renameValue (name : ν) (old new : α)
  | rename (name new : ν)

section
variable {ν α : Type} [DecidableEq ν] [DecidableEq α]

def insertBefore (label other : α) : List α → Option (List α)
  | [] => none
  | head :: rest => if head = other then some (label :: head :: rest) else (insertBefore label other rest).map (head :: ·)

def insertAfter (label other : α) : List α → Option (List α)
  | [] => none
  | head :: rest => if head = other then some (head :: label :: rest) else (insertAfter label other rest).map (head :: ·)

def put (label : α) (labels : List α) : Place α → Option (List α)
  | .last => some (labels ++ [label])
  | .before other => insertBefore label other labels
  | .after other => insertAfter label other labels

def addValue (fits : α → Bool) (ifNotExists : Bool) (label : α) (place : Place α) (labels : List α) : Option (List α) :=
  if label ∈ labels then if ifNotExists then some labels else none else
  if fits label then put label labels place else none

def renameValue (fits : α → Bool) (old new : α) (labels : List α) : Option (List α) :=
  if old ∈ labels ∧ new ∉ labels ∧ fits new then some (labels.map fun label => if label = old then new else label)
  else none

def Kind.labels : Kind α → Option (List α)
  | .enum labels => some labels
  | .standalone | .rowType => none

def enumLabels (types : Types ν α) (name : ν) : Option (List α) := (types name).bind Kind.labels

-- The types after a command that is accepted.
def accept (fits : α → Bool) (types : Types ν α) : Command ν α → Option (Types ν α)
  | .create name labels =>
    if types name = none ∧ labels.Nodup ∧ labels.all fits then some (Function.update types name (some (.enum labels)))
    else none
  | .addValue name ifNotExists label place => do
    let labels ← enumLabels types name
    let added ← addValue fits ifNotExists label place labels
    some (Function.update types name (some (.enum added)))
  | .renameValue name old new => do
    let labels ← enumLabels types name
    let renamed ← renameValue fits old new labels
    some (Function.update types name (some (.enum renamed)))
  | .rename name new =>
    match types name with
    | none | some .rowType => none
    | some kind =>
      if types new = none then some (Function.update (Function.update types name none) new (some kind)) else none

def process (fits : α → Bool) (types : Types ν α) (command : Command ν α) : Types ν α :=
  (accept fits types command).getD types

theorem insertBefore_perm {label other : α} {labels result : List α} (put : insertBefore label other labels = some result) :
    result.Perm (label :: labels) := by
  induction labels generalizing result with
  | nil => cases put
  | cons head rest ih =>
    unfold insertBefore at put
    split at put
    · cases put
      exact .refl _
    · obtain ⟨tail,below,rfl⟩ := Option.map_eq_some_iff.mp put
      exact ((ih below).cons head).trans (List.Perm.swap label head rest)

theorem insertAfter_perm {label other : α} {labels result : List α} (put : insertAfter label other labels = some result) :
    result.Perm (label :: labels) := by
  induction labels generalizing result with
  | nil => cases put
  | cons head rest ih =>
    unfold insertAfter at put
    split at put
    · cases put
      exact List.Perm.swap label head rest
    · obtain ⟨tail,below,rfl⟩ := Option.map_eq_some_iff.mp put
      exact ((ih below).cons head).trans (List.Perm.swap label head rest)

theorem put_perm {label : α} {labels result : List α} {place : Place α} (done : put label labels place = some result) :
    result.Perm (label :: labels) := by
  cases place with
  | last =>
    cases done
    exact List.perm_append_singleton label labels
  | before other => exact insertBefore_perm done
  | after other => exact insertAfter_perm done

theorem addValue_nodup {fits : α → Bool} {ifNotExists : Bool} {label : α} {place : Place α} {labels result : List α}
    (distinct : labels.Nodup) (done : addValue fits ifNotExists label place labels = some result) : result.Nodup := by
  unfold addValue at done
  split at done
  · split at done
    · cases done
      exact distinct
    · cases done
  · rename_i fresh
    split at done
    · exact (put_perm done).nodup_iff.mpr (List.nodup_cons.mpr ⟨fresh,distinct⟩)
    · cases done

theorem renameValue_nodup {fits : α → Bool} {old new : α} {labels result : List α} (distinct : labels.Nodup)
    (done : renameValue fits old new labels = some result) : result.Nodup := by
  unfold renameValue at done
  split at done
  · rename_i given
    obtain ⟨_,fresh,_⟩ := given
    cases done
    apply distinct.map_on
    intro a memberA b memberB same
    split at same
    · rename_i isA
      split at same
      · rename_i isB
        exact isA.trans isB.symm
      · exact absurd (same ▸ memberB) fresh
    · split at same
      · exact absurd (same ▸ memberA) fresh
      · exact same
  · cases done

-- A label behind the last one stands where a label without a place does.
theorem insertAfter_last {label other : α} {labels : List α} (distinct : labels.Nodup)
    (last : labels.getLast? = some other) : insertAfter label other labels = some (labels ++ [label]) := by
  induction labels with
  | nil => cases last
  | cons head rest ih =>
    obtain ⟨outside,distinct⟩ := List.nodup_cons.mp distinct
    unfold insertAfter
    cases rest with
    | nil =>
      cases last
      exact if_pos rfl
    | cons next rest =>
      have below : (next :: rest).getLast? = some other := by rwa [List.getLast?_cons_cons] at last
      have member : other ∈ next :: rest := List.mem_of_getLast? below
      rw [if_neg fun same : head = other => outside (same ▸ member),ih distinct below]
      rfl

def Distinct (types : Types ν α) : Prop := ∀ name labels,enumLabels types name = some labels → labels.Nodup

omit [DecidableEq ν] [DecidableEq α] in
theorem enumLabels_enum {types : Types ν α} {name : ν} {labels : List α} (held : enumLabels types name = some labels) :
    types name = some (.enum labels) := by
  obtain ⟨kind,found,isEnum⟩ := Option.bind_eq_some_iff.mp held
  cases kind <;> cases isEnum
  exact found

omit [DecidableEq α] in
theorem enumLabels_update (types : Types ν α) (name other : ν) (kind : Option (Kind α)) :
    enumLabels (Function.update types name kind) other =
      if other = name then kind.bind Kind.labels else enumLabels types other := by
  unfold enumLabels
  rw [Function.update_apply]
  split <;> rfl

omit [DecidableEq α] in
theorem distinct_set {types : Types ν α} (distinct : Distinct types) {name : ν} {kind : Option (Kind α)}
    (new : ∀ labels,kind.bind Kind.labels = some labels → labels.Nodup) : Distinct (Function.update types name kind) := by
  intro other labels found
  rw [enumLabels_update] at found
  split at found
  · exact new labels found
  · exact distinct other labels found

theorem accept_distinct {fits : α → Bool} {types after : Types ν α} {command : Command ν α} (distinct : Distinct types)
    (accepted : accept fits types command = some after) : Distinct after := by
  cases command with
  | create name labels =>
    simp only [accept] at accepted
    split at accepted
    · rename_i given
      cases accepted
      refine distinct_set distinct fun other same => ?_
      cases same
      exact given.2.1
    · cases accepted
  | addValue name ifNotExists label place =>
    obtain ⟨labels,held,accepted⟩ := Option.bind_eq_some_iff.mp accepted
    obtain ⟨added,done,same⟩ := Option.bind_eq_some_iff.mp accepted
    cases same
    refine distinct_set distinct fun other same => ?_
    cases same
    exact addValue_nodup (distinct name labels held) done
  | renameValue name old new =>
    obtain ⟨labels,held,accepted⟩ := Option.bind_eq_some_iff.mp accepted
    obtain ⟨renamed,done,same⟩ := Option.bind_eq_some_iff.mp accepted
    cases same
    refine distinct_set distinct fun other same => ?_
    cases same
    exact renameValue_nodup (distinct name labels held) done
  | rename name new =>
    simp only [accept] at accepted
    split at accepted
    · cases accepted
    · cases accepted
    · rename_i kind _ held
      split at accepted
      · cases accepted
        refine distinct_set (distinct_set distinct fun other same => ?_) fun other same => ?_
        · cases same
        · refine distinct name other ?_
          rw [enumLabels,held]
          exact same
      · cases accepted

theorem process_distinct (fits : α → Bool) {types : Types ν α} (command : Command ν α) (distinct : Distinct types) :
    Distinct (process fits types command) := by
  unfold process
  cases accepted : accept fits types command with
  | none => exact distinct
  | some after => exact accept_distinct distinct accepted

end
end EnumTypes
