import Scythe.Placeholders
import Scythe.Preprocess
import Scythe.Rewrite

namespace Scythe
open Effect Numbering Itinerary

section Copies
variable [Text.CaseMap]

-- The analyzer sees the parsed copy, the code generators the other one.
theorem parseQuery_copies {parser : SqlParser} {dialect : SqlDialect} {header : Header} {body : String}
    {query : ParsedQuery} (read : parseQuery parser dialect header body = some query) :
    ∃ copies ∈ preprocess dialect (Text.trim body),copies.codegen = query.sql ∧
      ∃ statements ∈ parser dialect copies.parsed,soleStatement statements = some query.stmt := by
  unfold parseQuery at read
  dsimp only at read
  split at read
  · cases read
  · simp only [Option.bind_eq_bind,Option.bind_eq_some_iff] at read
    obtain ⟨copies,known,statements,parsed,stmt,sole,is⟩ := read
    cases is
    exact ⟨copies,known,rfl,statements,parsed,sole⟩

end Copies

section Total
variable [Text.CaseMap]

theorem analyzed_sql [Printer] {catalog : Catalog} {query : ParsedQuery} {outcome : Outcome}
    (is : analyzed catalog query = some outcome) : outcome.result.sql = query.sql := by
  unfold analyzed at is
  split at is
  · split at is
    · rename_i result finished
      cases is
      exact finish_sql finished
    · cases is
  · cases is

-- Every position that a code generator finds in the text has its parameter. A
-- backend is free in how it prepares the text.
def Outcome.Resolves (outcome : Outcome) (target : SqlDialect) (prepare : String → String) : Prop :=
  ∀ formatter,∀ position ∈ (rewritePlaceholdersIndexed (prepare outcome.result.sql) target formatter).2,
    ∀ resolved : List ResolvedParam,resolved.length = outcome.result.params.length →
      (resolvedParamForPosition outcome.result.params resolved position).isSome

def CodegenTotal [Printer] (parser : SqlParser) (catalog : Catalog) (target : SqlDialect) (prepare : String → String)
    (header : Header) (body : String) : Prop :=
  ∀ query ∈ parseQuery parser catalog.dialect header body,∀ outcome ∈ analyzed catalog query,
    outcome.Resolves target prepare

theorem resolves_iff {outcome : Outcome} {target : SqlDialect} {prepare : String → String}
    {log : List (Visit Slot)}
    (positions : ∀ position,position ∈ outcome.result.positions ↔ Placed 0 log position) :
    outcome.Resolves target prepare ↔ ∀ formatter,
      ∀ position ∈ (rewritePlaceholdersIndexed (prepare outcome.result.sql) target formatter).2,
        Placed 0 log position := by
  refine forall_congr' fun formatter => forall_congr' fun position => forall_congr' fun _ => ?_
  rw [←positions]
  constructor
  · intro resolves
    have aligned : (outcome.result.params.map fun p => (⟨p.neutralType⟩ : ResolvedParam)).length =
        outcome.result.params.length := List.length_map _
    exact (resolvedParam_isSome aligned).mp (resolves _ aligned)
  · intro member resolved aligned
    exact (resolvedParam_isSome aligned).mpr member

end Total

section ConflictWhere
open Fixtures
local instance : Text.CaseMap := Text.ascii
local instance : Printer := printer

theorem conflictWhere_read :
    parseQuery conflictParser (catalog .postgreSQL).dialect header conflictWhere = some conflictQuery := by
  have text : Text.trim conflictWhere = conflictWhere := rfl
  have copies : preprocess .postgreSQL conflictWhere = some ⟨conflictWhere,conflictParsed⟩ := rfl
  have parsed : conflictParser .postgreSQL conflictParsed = some [some conflictInsert] := if_pos rfl
  rw [show (catalog .postgreSQL).dialect = .postgreSQL from rfl]
  unfold parseQuery
  rw [text,if_neg (by decide),copies]
  simp only [Option.bind_eq_bind,Option.bind_some,parsed]
  rfl

theorem conflictWhere_run : conflictQuery.stmt.strict (catalog .postgreSQL) ∧
    (analyzed (catalog .postgreSQL) conflictQuery).map (·.result.positions) = some [1] :=
  ⟨rfl,rfl⟩

end ConflictWhere

end Scythe
