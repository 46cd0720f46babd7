import Scythe.Analyze

namespace Scythe

def paramPositions (params : List ParamInfo) : List Int := params.map (·.position)

def AnalyzedQuery.positions (result : AnalyzedQuery) : List Int := result.params.map (·.position)

theorem mem_sortParams {params : List ParamInfo} {position : Int} :
    position ∈ paramPositions (sortParams params) ↔ position ∈ paramPositions params := by
  simp only [paramPositions,sortParams,List.mem_map,List.mem_insertionSort]

theorem mem_dedupFrom {kept : ParamInfo} {params : List ParamInfo} {position : Int} :
    position ∈ paramPositions (dedupFrom kept params) ↔ position ∈ paramPositions (kept :: params) := by
  induction params generalizing kept with
  | nil => rfl
  | cons param params ih =>
    unfold dedupFrom
    split
    · rename_i same
      rw [ih]
      simp only [paramPositions,List.map_cons,List.mem_cons,same]
      tauto
    · have later : position ∈ paramPositions (dedupFrom param params) ↔ _ := ih
      simp only [paramPositions,List.map_cons,List.mem_cons] at later ⊢
      rw [later]

theorem mem_dedupParams {params : List ParamInfo} {position : Int} :
    position ∈ paramPositions (dedupParams params) ↔ position ∈ paramPositions params := by
  cases params with
  | nil => rfl
  | cons param params => exact mem_dedupFrom

theorem dedupFrom_increasing {kept : ParamInfo} {params : List ParamInfo}
    (sorted : (paramPositions (kept :: params)).Pairwise (· ≤ ·)) :
    (paramPositions (dedupFrom kept params)).Pairwise (· < ·) := by
  induction params generalizing kept with
  | nil => exact List.pairwise_singleton _ _
  | cons param params ih =>
    obtain ⟨least,rest⟩ := List.pairwise_cons.mp sorted
    obtain ⟨above,rest'⟩ := List.pairwise_cons.mp rest
    unfold dedupFrom
    split
    · exact ih (List.pairwise_cons.mpr ⟨fun p member => least p (List.mem_cons_of_mem _ member),rest'⟩)
    · rename_i differs
      refine List.pairwise_cons.mpr ⟨fun p member => ?_,ih rest⟩
      have first : kept.position ≤ param.position := least _ List.mem_cons_self
      have later : param.position ≤ p := by
        rcases List.mem_cons.mp (mem_dedupFrom.mp member) with rfl | after
        · exact le_rfl
        · exact above p after
      exact lt_of_lt_of_le (lt_of_le_of_ne first differs) later

theorem dedupParams_increasing (params : List ParamInfo) :
    (paramPositions (dedupParams (sortParams params))).Pairwise (· < ·) := by
  have sorted : (paramPositions (sortParams params)).Pairwise (· ≤ ·) := by
    have := List.pairwise_insertionSort (fun a b : ParamInfo => a.position ≤ b.position) params
    exact List.pairwise_map.mpr this
  unfold dedupParams
  split
  · exact .nil
  · rename_i kept params is
    rw [is] at sorted
    exact dedupFrom_increasing sorted

theorem disambiguateFrom_length (all taken : List String) (suffixes : List (String × Nat)) (names : List String) :
    (disambiguateFrom all taken suffixes names).length = names.length := by
  induction names generalizing taken suffixes with
  | nil => rfl
  | cons name names ih =>
    unfold disambiguateFrom
    split
    · rw [List.length_cons,ih,List.length_cons]
    · dsimp only
      rw [List.length_cons,ih,List.length_cons]

theorem renameParams_positions (params : List AnalyzedParam) :
    (renameParams params).map (·.position) = params.map (·.position) := by
  unfold renameParams
  rw [List.map_zipWith]
  have length : params.length ≤ (disambiguateDuplicateNames (params.map (·.name))).length := by
    rw [disambiguateDuplicateNames,disambiguateFrom_length,List.length_map]
  generalize disambiguateDuplicateNames (params.map (·.name)) = names at length
  induction params generalizing names with
  | nil => rfl
  | cons param params ih =>
    cases names with
    | nil => simp at length
    | cons name names =>
      simp only [List.length_cons,Nat.add_le_add_iff_right] at length
      simp only [List.zipWith_cons_cons,List.map_cons,ih names length]

theorem resolveParams_positions {annotations : Annotations} {params : List ParamInfo} {resolved : List AnalyzedParam}
    (is : resolveParams annotations params = .ok resolved) :
    resolved.map (·.position) = paramPositions (dedupParams (sortParams params)) := by
  unfold resolveParams at is
  simp only [bind,Except.bind] at is
  split at is
  · cases is
  · split at is
    · cases is
    · cases is
      rw [renameParams_positions,List.map_map,List.map_map,paramPositions]
      refine List.map_congr_left fun param _ => ?_
      simp only [Function.comp_apply,optionalParam]
      split <;> rfl

variable [Text.CaseMap]

theorem finish_params {catalog : Catalog} {query : ParsedQuery} {columns : List AnalyzedColumn} {self : Analyzer}
    {result : AnalyzedQuery} (finished : finish catalog query columns self = .ok result) :
    self.typeErrors = [] ∧ resolveParams query.annotations self.params = .ok result.params := by
  unfold finish at finished
  split at finished
  · cases finished
  · rename_i clean
    refine ⟨clean,?_⟩
    simp only [bind,Except.bind] at finished
    split at finished
    · cases finished
    · split at finished
      · cases finished
      · rename_i params resolved
        split at finished
        · cases finished
        · cases finished
          exact resolved

theorem finish_sql {catalog : Catalog} {query : ParsedQuery} {columns : List AnalyzedColumn} {self : Analyzer}
    {result : AnalyzedQuery} (finished : finish catalog query columns self = .ok result) :
    result.sql = query.sql := by
  unfold finish at finished
  split at finished
  · cases finished
  · simp only [bind,Except.bind] at finished
    split at finished
    · cases finished
    · split at finished
      · cases finished
      · split at finished
        · cases finished
        · cases finished
          rfl

-- The positions of the result are those that the analyzer registered, each once
-- and in their order.
theorem finish_positions {catalog : Catalog} {query : ParsedQuery} {columns : List AnalyzedColumn} {self : Analyzer}
    {result : AnalyzedQuery} (finished : finish catalog query columns self = .ok result) (position : Int) :
    position ∈ result.positions ↔ position ∈ paramPositions self.params := by
  rw [AnalyzedQuery.positions,resolveParams_positions (finish_params finished).2,mem_dedupParams,mem_sortParams]

theorem finish_increasing {catalog : Catalog} {query : ParsedQuery} {columns : List AnalyzedColumn}
    {self : Analyzer} {result : AnalyzedQuery} (finished : finish catalog query columns self = .ok result) :
    result.positions.Pairwise (· < ·) := by
  rw [AnalyzedQuery.positions,resolveParams_positions (finish_params finished).2]
  exact dedupParams_increasing self.params

end Scythe
