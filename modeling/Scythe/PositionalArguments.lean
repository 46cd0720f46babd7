import Mathlib.Data.Finset.Card
import Mathlib.Data.Finset.Dedup
import Scythe.Codegen
import Scythe.Rewrite

-- The backends that leave `$N` in the text and pass the arguments as a list.
namespace Scythe
open Text Effect

-- A resolved parameter as such a backend writes it.
structure PositionalParam extends ResolvedParam where
  name : String
  fieldName : String
  nullable : Bool
  deriving DecidableEq,Repr

def isComposite (neutralType : String) : Bool := startsWith neutralType "composite::"

def goPgxParamExpr (param : PositionalParam) (raw : String) : String :=
  if ¬isComposite param.neutralType then raw else
  if param.nullable then
    s!"func() *string \x7b if {raw} == nil \x7b return nil \x7d; text := {raw}.ToPgText(); return &text \x7d()"
  else s!"{raw}.ToPgText()"

def rubyPgParamExpr (param : PositionalParam) (raw : String) : String :=
  if isComposite param.neutralType then s!"{raw}&.to_pg_text" else raw

-- The type is looked up by the name of the parameter.
def typescriptPgParamExpr (compositeTypeName : String → String) (analyzedParams : List AnalyzedParam)
    (param : PositionalParam) (raw : String) : String :=
  match analyzedParams.find? fun candidate => candidate.name = param.name with
  | none => raw
  | some candidate =>
    match stripPrefix candidate.neutralType "composite::" with
    | some sqlName => s!"encode{compositeTypeName sqlName}({raw})"
    | none => raw

inductive PositionalBackend where
  | goPgx
  | rubyPg
  | typescriptPg (compositeTypeName : String → String)

def PositionalBackend.paramExpr (analyzedParams : List AnalyzedParam) :
    PositionalBackend → PositionalParam → String → String
  | .goPgx => goPgxParamExpr
  | .rubyPg => rubyPgParamExpr
  | .typescriptPg compositeTypeName => typescriptPgParamExpr compositeTypeName analyzedParams

-- The arguments in the order of the parameters. A parameter stands for itself or
-- for a field of the items of a batch.
def PositionalBackend.arguments (backend : PositionalBackend) (analyzedParams : List AnalyzedParam)
    (member : PositionalParam → String) (resolved : List PositionalParam) : List String :=
  resolved.map fun param => backend.paramExpr analyzedParams param (member param)

section
variable [CaseMap]

-- Each number is written back or left as it is, maybe with a cast behind it.
def emittedPlaceholders (prepare : String → String) (sql : String) : List Nat :=
  (rewritten (prepare sql) .postgreSQL).filterMap (·.position?)

end

-- The argument in the place that `$N` means is the one of the parameter at that
-- position.
def PositionalBackend.Binds (backend : PositionalBackend) (result : AnalyzedQuery) (resolve : AnalyzedParam → PositionalParam)
    (member : PositionalParam → String) (number : Nat) : Prop :=
  ∃ place param,number = place + 1 ∧ result.params[place]? = some param ∧ param.position = number ∧
    (backend.arguments result.params member (result.params.map resolve))[place]? =
      some (backend.paramExpr result.params (resolve param) (member (resolve param)))

theorem place_iff {positions : List Int} (increasing : positions.Pairwise (· < ·)) (place : Nat) (position : Int) :
    positions[place]? = some position ↔
      position ∈ positions ∧ (positions.filter (· < position)).length = place := by
  induction positions generalizing place with
  | nil => simp
  | cons first rest ih =>
    obtain ⟨before,sorted⟩ := List.pairwise_cons.mp increasing
    cases place with
    | zero =>
      rw [List.getElem?_cons_zero,Option.some.injEq]
      constructor
      · rintro rfl
        refine ⟨List.mem_cons_self,?_⟩
        rw [List.length_eq_zero_iff,List.filter_eq_nil_iff]
        intro other member
        rcases List.mem_cons.mp member with rfl | later
        · simp
        · have := before other later
          simp only [decide_eq_true_eq]
          omega
      · rintro ⟨member,none⟩
        rcases List.mem_cons.mp member with equal | later
        · exact equal.symm
        · have less := before position later
          rw [List.length_eq_zero_iff,List.filter_eq_nil_iff] at none
          exact absurd (decide_eq_true less) (none first List.mem_cons_self)
    | succ place =>
      rw [List.getElem?_cons_succ,ih sorted]
      constructor
      · rintro ⟨member,count⟩
        have less := before position member
        refine ⟨List.mem_cons_of_mem _ member,?_⟩
        rw [List.filter_cons_of_pos (by simpa using less),List.length_cons,count]
      · rintro ⟨member,count⟩
        have less : first < position := by
          by_contra notLess
          have empty : (first :: rest).filter (· < position) = [] := by
            rw [List.filter_eq_nil_iff]
            intro other among
            simp only [decide_eq_true_eq]
            rcases List.mem_cons.mp among with rfl | later
            · exact notLess
            · have := before other later
              omega
          rw [empty] at count
          cases count
        rw [List.filter_cons_of_pos (by simpa using less),List.length_cons,Nat.add_right_cancel_iff] at count
        refine ⟨?_,count⟩
        rcases List.mem_cons.mp member with equal | later
        · omega
        · exact later

-- The number is used, and as many smaller numbers as there are from one on.
def Consecutive (numbers : List Int) (number : Nat) : Prop :=
  (number : Int) ∈ numbers ∧ (numbers.toFinset.filter (· < (number : Int))).card + 1 = number

theorem smaller_count {positions numbers : List Int} (increasing : positions.Pairwise (· < ·))
    (same : ∀ position,position ∈ positions ↔ position ∈ numbers) (bound : Int) :
    (positions.filter (· < bound)).length = (numbers.toFinset.filter (· < bound)).card := by
  have distinct : (positions.filter (· < bound)).Nodup := by
    apply List.Nodup.filter
    exact increasing.imp fun less => ne_of_lt less
  have sets : numbers.toFinset = positions.toFinset := by
    ext position
    rw [List.mem_toFinset,List.mem_toFinset,same]
  have same : (positions.filter (· < bound)).toFinset = positions.toFinset.filter (· < bound) := by
    ext position
    simp only [List.mem_toFinset,List.mem_filter,Finset.mem_filter,decide_eq_true_eq]
  rw [sets,← same,List.toFinset_card_of_nodup distinct]

theorem binds_iff (backend : PositionalBackend) (result : AnalyzedQuery) (resolve : AnalyzedParam → PositionalParam)
    (member : PositionalParam → String) (number : Nat) :
    backend.Binds result resolve member number ↔
      ∃ place,number = place + 1 ∧ result.positions[place]? = some (number : Int) := by
  unfold PositionalBackend.Binds PositionalBackend.arguments AnalyzedQuery.positions
  constructor
  · intro binds
    obtain ⟨place,param,equal,found,position,-⟩ := binds
    refine ⟨place,equal,?_⟩
    rw [List.getElem?_map,found,Option.map_some,position]
  · intro placed
    obtain ⟨place,equal,found⟩ := placed
    rw [List.getElem?_map] at found
    obtain ⟨param,is,position⟩ := Option.map_eq_some_iff.mp found
    refine ⟨place,param,equal,is,position,?_⟩
    rw [List.getElem?_map,List.getElem?_map,is]
    rfl

theorem analyzed_finish [CaseMap] [Printer] {catalog : Catalog} {query : ParsedQuery} {outcome : Outcome}
    (is : analyzed catalog query = some outcome) :
    ∃ columns,finish catalog query columns outcome.traced.state = .ok outcome.result := by
  unfold analyzed at is
  split at is
  · rename_i columns traced _
    split at is
    · rename_i result finished
      cases is
      exact ⟨columns,finished⟩
    · cases is
  · cases is

-- A list of arguments serves the numbers that follow each other from one on.
theorem finish_binds_iff [CaseMap] {catalog : Catalog} {query : ParsedQuery} {columns : List AnalyzedColumn}
    {self : Analyzer} {result : AnalyzedQuery} (finished : finish catalog query columns self = .ok result)
    (backend : PositionalBackend) (resolve : AnalyzedParam → PositionalParam) (member : PositionalParam → String)
    (number : Nat) :
    backend.Binds result resolve member number ↔ Consecutive (paramPositions self.params) number := by
  have increasing := finish_increasing finished
  have same := finish_positions finished
  rw [binds_iff]
  unfold Consecutive
  rw [← smaller_count increasing same,← same]
  constructor
  · intro placed
    obtain ⟨place,equal,found⟩ := placed
    obtain ⟨used,count⟩ := (place_iff increasing place number).mp found
    exact ⟨used,by omega⟩
  · intro consecutive
    obtain ⟨used,count⟩ := consecutive
    exact ⟨_,count.symm,(place_iff increasing _ number).mpr ⟨used,rfl⟩⟩

section
variable [CaseMap] [Printer]

theorem positional_arguments_iff (backend : PositionalBackend) (prepare : String → String)
    (resolve : AnalyzedParam → PositionalParam) (member : PositionalParam → String) {catalog : Catalog}
    {query : ParsedQuery} {outcome : Outcome} (is : analyzed catalog query = some outcome) :
    (∀ number ∈ emittedPlaceholders prepare outcome.result.sql,
        backend.Binds outcome.result resolve member number) ↔
      ∀ number ∈ emittedPlaceholders prepare query.sql,
        Consecutive (paramPositions outcome.traced.state.params) number := by
  rw [analyzed_sql is]
  obtain ⟨columns,finished⟩ := analyzed_finish is
  apply forall_congr'
  intro number
  apply forall_congr'
  intro _
  exact finish_binds_iff finished backend resolve member number

end

section Skipped
open Fixtures
local instance positionalCase : Text.CaseMap := Text.ascii
local instance positionalPrinter : Printer := printer

def byNumber (token : String) : ParsedQuery := parsed s!"SELECT id FROM users WHERE id = {token}" <| .query <| ofBody <|
  select [column "id"] [source (table "users")] (some (.binaryOp (column "id") .eq (placeholder token 33)))

def verbatim (param : AnalyzedParam) : PositionalParam :=
  { neutralType := param.neutralType,name := param.name,fieldName := param.name,nullable := param.nullable }

theorem byNumber_run :
    (analyzed (Fixtures.catalog .postgreSQL) (byNumber "$1")).map
      (fun outcome => paramPositions outcome.traced.state.params) = some [1] ∧
    (analyzed (Fixtures.catalog .postgreSQL) (byNumber "$2")).map (·.result.positions) = some [2] ∧
    emittedPlaceholders id (byNumber "$1").sql = [1] ∧ emittedPlaceholders id (byNumber "$2").sql = [2] :=
  ⟨rfl,rfl,rfl,rfl⟩

theorem first_bound : ∃ outcome,analyzed (Fixtures.catalog .postgreSQL) (byNumber "$1") = some outcome ∧
    ∀ number ∈ emittedPlaceholders id outcome.result.sql,
      PositionalBackend.rubyPg.Binds outcome.result verbatim (·.fieldName) number := by
  obtain ⟨run,-,text,-⟩ := byNumber_run
  obtain ⟨outcome,is,collected⟩ := Option.map_eq_some_iff.mp run
  refine ⟨outcome,is,?_⟩
  apply (positional_arguments_iff .rubyPg id verbatim (·.fieldName) is).mpr
  intro number written
  rw [text,List.mem_singleton] at written
  subst written
  rw [collected]
  exact ⟨List.mem_singleton_self _,rfl⟩

-- One argument for a text that asks for a second one.
theorem skipped_unbound : ∃ outcome,analyzed (Fixtures.catalog .postgreSQL) (byNumber "$2") = some outcome ∧
    2 ∈ emittedPlaceholders id outcome.result.sql ∧
      ¬PositionalBackend.goPgx.Binds outcome.result verbatim (·.fieldName) 2 := by
  obtain ⟨-,run,-,text⟩ := byNumber_run
  obtain ⟨outcome,is,positions⟩ := Option.map_eq_some_iff.mp run
  refine ⟨outcome,is,?_,?_⟩
  · rw [analyzed_sql is,text]
    exact List.mem_singleton_self 2
  · intro binds
    obtain ⟨place,equal,found⟩ := (binds_iff _ _ _ _ _).mp binds
    rw [positions,show place = 1 by omega] at found
    cases found

end Skipped

end Scythe
