import Mathlib.Data.List.Nodup
import Scythe.Analyze

-- Which names of a list stay, and what the others become.
namespace Scythe

def suffixed (base : String) (suffix : Nat) : String := s!"{base}_{suffix}"

theorem suffixed_injective {base : String} {m n : Nat} (equal : suffixed base m = suffixed base n) : m = n := by
  have texts := congrArg String.toList equal
  have shape (k : Nat) : (suffixed base k).toList = (base ++ "_").toList ++ Nat.toDigits 10 k := by
    rw [←Nat.toList_repr,←String.toList_append]
    rfl
  rw [shape,shape] at texts
  have digits := congrArg (fun text => Nat.ofDigitChars 10 text 0) (List.append_cancel_left texts)
  simpa only [Nat.ofDigitChars_ten_toDigits] using digits

theorem freshSuffix_spec (base : String) (taken : List String) (tries suffix : Nat) :
    suffixed base (freshSuffix base taken tries suffix) ∉ taken ∨
      ∀ k,suffix < k → k ≤ suffix + tries → suffixed base k ∈ taken := by
  induction tries generalizing suffix with
  | zero =>
    refine Or.inr ?_
    intro k above below
    omega
  | succ tries ih =>
    rw [freshSuffix]
    split
    next here =>
      rcases ih (suffix + 1) with free | all
      · exact Or.inl free
      · refine Or.inr ?_
        intro k above below
        rcases Nat.lt_or_ge (suffix + 1) k with later | first
        · exact all k later (by omega)
        · have same : k = suffix + 1 := by omega
          rw [same]
          exact here
    next free => exact Or.inl free

-- One try more than there are taken names finds a free one.
theorem freshSuffix_free (base : String) (taken : List String) (suffix : Nat) :
    suffixed base (freshSuffix base taken (taken.length + 1) suffix) ∉ taken := by
  rcases freshSuffix_spec base taken (taken.length + 1) suffix with free | all
  · exact free
  · have inside : (List.range (taken.length + 1)).map (fun k => suffixed base (suffix + 1 + k)) ⊆ taken := by
      intro name member
      obtain ⟨k,below,equal⟩ := List.mem_map.mp member
      have bound := List.mem_range.mp below
      rw [←equal]
      exact all _ (by omega) (by omega)
    have distinct : ((List.range (taken.length + 1)).map fun k => suffixed base (suffix + 1 + k)).Nodup := by
      apply List.nodup_range.map
      intro m n equal
      have same := suffixed_injective equal
      omega
    have few := distinct.length_le_of_subset inside
    rw [List.length_map,List.length_range] at few
    omega

-- A name that occurs once stays; one that occurs more often becomes a name that
-- the list does not have.
def Disambiguated (all : List String) (name renamed : String) : Prop :=
  (all.count name < 2 ∧ renamed = name) ∨ (2 ≤ all.count name ∧ renamed ∉ all)

theorem disambiguateFrom_spec {all taken : List String} (within : all ⊆ taken) (suffixes : List (String × Nat))
    (names : List String) : List.Forall₂ (Disambiguated all) names (disambiguateFrom all taken suffixes names) := by
  induction names generalizing taken suffixes with
  | nil => exact .nil
  | cons name names ih =>
    rw [disambiguateFrom]
    split
    next once => exact .cons (Or.inl ⟨once,rfl⟩) (ih within suffixes)
    next more =>
      have free := freshSuffix_free name taken ((suffixes.lookup name).getD 0)
      refine .cons (Or.inr ⟨by omega,?_⟩) (ih ?_ _)
      · intro member
        exact free (within member)
      · intro old member
        exact List.mem_cons_of_mem _ (within member)

theorem disambiguate_spec (names : List String) :
    List.Forall₂ (Disambiguated names) names (disambiguateDuplicateNames names) :=
  disambiguateFrom_spec (List.Subset.refl names) [] names

-- The parameter that bears a name alone.
def soughtParam (named : List AnalyzedParam) (name : String) : Option AnalyzedParam :=
  if (named.map (·.name)).count name < 2 then named.find? fun p => p.name = name else none

theorem find_renamed {all : List String} {name : String} (known : name ∈ all) {params : List AnalyzedParam}
    {names : List String} (renamed : List.Forall₂ (Disambiguated all) (params.map (·.name)) names) :
    ((params.zipWith (fun p name => {p with name:=name}) names).find? fun p => p.name = name).map (·.position) =
      if all.count name < 2 then (params.find? fun p => p.name = name).map (·.position) else none := by
  induction params generalizing names with
  | nil => simp
  | cons param params ih =>
    cases renamed with
    | @cons _ name' _ names here rest =>
      have either : Disambiguated all param.name name' := here
      rw [List.zipWith_cons_cons,List.find?_cons,List.find?_cons]
      rcases either with ⟨once,same⟩ | ⟨more,other⟩
      · rw [same]
        by_cases found : param.name = name
        · rw [found] at once
          simp [found,once]
        · simpa only [found,decide_false] using ih rest
      · have passedOver : name' ≠ name := by
          intro same
          rw [same] at other
          exact other known
        have next := ih rest
        by_cases found : param.name = name
        · rw [found] at more
          have many : ¬all.count name < 2 := by omega
          simpa only [passedOver,decide_false,if_neg many] using next
        · simpa only [passedOver,found,decide_false] using next

theorem find_renameParams {params : List AnalyzedParam} {name : String} (known : name ∈ params.map (·.name)) :
    ((renameParams params).find? fun p => p.name = name).map (·.position) =
      (soughtParam params name).map (·.position) := by
  rw [renameParams,find_renamed known (disambiguate_spec _),soughtParam]
  split <;> rfl

end Scythe
