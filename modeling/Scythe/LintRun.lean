import Scythe.Lib.Outcomes
import Scythe.Lib.Register
import Scythe.LintEngine
import Scythe.QuerySplit
import Scythe.Suppression

-- A run of the linter over query files: every block is parsed and analyzed, the rules
-- look at those that could be, and what a query's annotations name is not shown.
namespace Scythe.Linting
open Text
open Verification (Severity QueryViolation)
open UnboundParams (Violation)
open Suppression (SuppressionSet NamedAt)
open QueryFile (splitQueryFile hasUnannotatedSql)

structure FileViolation where
  file : String
  queryName : Option (List Char)
  ruleId : String
  severity : Severity
  message : List Char
  lineNo : Option Nat
  linePos : Option Nat
  source : Option String
  cwe : List String

structure LintQuery where
  name : String
  sql : String
  stmt : Statement
  annotations : Annotations

structure PreparedQuery where
  file : String
  query : LintQuery
  analyzed : AnalyzedQuery
  suppressions : SuppressionSet

structure SqruffViolation where
  violation : Violation
  lineNo : Nat
  linePos : Nat

structure ParseSeverities where
  unparseable : Severity
  unanalyzable : Severity

-- The rules for what no other rule can look at.
def unparseableQuery : LintRule := ⟨"SC-PARSE01",.parse,.error,[],fun _ => true,fun _ => [],fun _ => []⟩
def unanalyzableQuery : LintRule := ⟨"SC-PARSE02",.parse,.error,[],fun _ => true,fun _ => [],fun _ => []⟩

def parseRegistry : RuleRegistry := (RuleRegistry.new.register unparseableQuery).register unanalyzableQuery

def ParseSeverities.fromRegistry (registry : RuleRegistry) : ParseSeverities :=
  ⟨registry.effectiveSeverity unparseableQuery,registry.effectiveSeverity unanalyzableQuery⟩

-- What a run has for all its files: the rules, the schema, and the parser, the analyzer
-- and the formatter's own linter.
structure Setup where
  name : String
  registry : RuleRegistry
  parseSeverities : ParseSeverities
  catalog : Catalog
  dialect : SqlDialect
  parseQueryWithDialect : List Char → SqlDialect → Except String LintQuery
  analyze : Catalog → LintQuery → Except String AnalyzedQuery
  sqruff : List Char → Except String (List SqruffViolation)

variable (setup : Setup)

def sqruffViolation (file : String) (sv : SqruffViolation) : FileViolation where
  file := file
  queryName := none
  ruleId := sv.violation.ruleId
  severity := .warn
  message := sv.violation.message
  lineNo := some sv.lineNo
  linePos := some sv.linePos
  source := none
  cwe := []

def unparseable (file e : String) : FileViolation where
  file := file
  queryName := none
  ruleId := "SC-PARSE01"
  severity := setup.parseSeverities.unparseable
  message := s!"failed to parse query: {e} — no lint rule could examine it".toList
  lineNo := none
  linePos := none
  source := none
  cwe := []

def unanalyzable (file name e : String) : FileViolation where
  file := file
  queryName := some name.toList
  ruleId := "SC-PARSE02"
  severity := setup.parseSeverities.unanalyzable
  message := s!"failed to analyze query '{name}': {e} — no lint rule could examine it".toList
  lineNo := none
  linePos := none
  source := none
  cwe := []

def readBlock (file : String) (block : List Char) : FileViolation ⊕ PreparedQuery :=
  match setup.parseQueryWithDialect block setup.dialect with
  | .error e => .inl (unparseable setup file e)
  | .ok parsed =>
    match setup.analyze setup.catalog parsed with
    | .error e => .inl (unanalyzable setup file parsed.name e)
    | .ok analyzed => .inr ⟨file,parsed,analyzed,.parse block⟩

def blockViolations (file : String) (blocks : List (List Char)) : List FileViolation :=
  blocks.filterMap fun block => (readBlock setup file block).getLeft?

def blockQueries (file : String) (blocks : List (List Char)) : List PreparedQuery :=
  blocks.filterMap fun block => (readBlock setup file block).getRight?

def unannotated (queryFile : String) : String :=
  s!"[{setup.name}] query file '{queryFile}' has SQL content with no `-- name:` / `-- @name` annotation above it; " ++
    "that content is silently skipped, not linted. Add an annotation above every statement " ++
      "(e.g. `-- name: MyQuery :one`), or move non-query SQL out of the `queries` glob"

def readQueryFile (queryFile : String × List Char) : Except String (List FileViolation × List PreparedQuery) :=
  if hasUnannotatedSql queryFile.2 then .error (unannotated setup queryFile.1) else
  match setup.sqruff queryFile.2 with
  | .error e => .error s!"sqruff error on '{queryFile.1}': {e}"
  | .ok found =>
    let blocks := splitQueryFile queryFile.2
    .ok (found.map (sqruffViolation queryFile.1) ++ blockViolations setup queryFile.1 blocks,
      blockQueries setup queryFile.1 blocks)

def context (p : PreparedQuery) : LintContext :=
  ⟨p.query.sql,p.query.stmt,p.analyzed,setup.catalog,p.query.annotations,setup.dialect⟩

-- Queries are looked up by their names, and the first of a name is found.
def originOf (prepared : List PreparedQuery) (queryName : List Char) : Option PreparedQuery :=
  prepared.find? fun p => p.analyzed.name.toList = queryName

def cweOf (ruleId : String) : List String :=
  ((setup.registry.allRules.reverse.find? fun rule => rule.1.id = ruleId).map (·.1.cwe)).getD []

def fileViolation (prepared : List PreparedQuery) (violation : QueryViolation) : FileViolation where
  file := ((originOf prepared violation.queryName).map (·.file)).getD ""
  queryName := if violation.queryName = [] then none else some violation.queryName
  ruleId := violation.ruleId
  severity := violation.severity
  message := violation.message
  lineNo := none
  linePos := none
  source := none
  cwe := cweOf setup violation.ruleId

def isHidden (prepared : List PreparedQuery) (violation : QueryViolation) : Bool :=
  (originOf prepared violation.queryName).any fun p => p.suppressions.isSuppressed violation.ruleId.toList 0

def shown (prepared : List PreparedQuery) (violation : QueryViolation) : Option FileViolation :=
  if isHidden prepared violation then none else some (fileViolation setup prepared violation)

def lintQueryFiles (files : List (String × List Char)) : Except String (List FileViolation) := do
  let read ← files.mapM (readQueryFile setup)
  let prepared := read.flatMap (·.2)
  let report := buildReport setup.registry (prepared.map (context setup)) setup.catalog
  pure (read.flatMap (·.1) ++ report.violations.filterMap (shown setup prepared))

def emitted (violations : List FileViolation) : List FileViolation := violations.filter fun v => v.severity ≠ .off

def exitCode (violations : List FileViolation) (exitZero : Bool) : Nat :=
  if violations.any (fun v => v.severity = .error) && !exitZero then 2 else 0

variable {setup}

def preparedQueries (setup : Setup) (files : List (String × List Char)) : List PreparedQuery :=
  files.flatMap fun queryFile => blockQueries setup queryFile.1 (splitQueryFile queryFile.2)

theorem readQueryFile_ok {queryFile : String × List Char} {read : List FileViolation × List PreparedQuery} :
    readQueryFile setup queryFile = .ok read ↔ hasUnannotatedSql queryFile.2 = false ∧
      ∃ found,setup.sqruff queryFile.2 = .ok found ∧
        read = (found.map (sqruffViolation queryFile.1) ++ blockViolations setup queryFile.1 (splitQueryFile queryFile.2),
          blockQueries setup queryFile.1 (splitQueryFile queryFile.2)) := by
  unfold readQueryFile
  cases hasUnannotatedSql queryFile.2 with
  | true => simp
  | false =>
    cases setup.sqruff queryFile.2 with
    | error e => simp
    | ok found => simp [eq_comm]

theorem read_prepared {files : List (String × List Char)} {read : List (List FileViolation × List PreparedQuery)}
    (each : Outcomes.Each (readQueryFile setup) files read) : read.flatMap (·.2) = preparedQueries setup files := by
  induction each with
  | nil => rfl
  | cons here _ ih =>
    obtain ⟨-,found,-,rfl⟩ := readQueryFile_ok.mp here
    unfold preparedQueries at ih ⊢
    rw [List.flatMap_cons,List.flatMap_cons,ih]

-- What a run says before its rules have looked at the queries.
inductive Read (setup : Setup) (files : List (String × List Char)) : FileViolation → Prop where
  | sqruff {queryFile : String × List Char} {found : List SqruffViolation} {sv : SqruffViolation} (given : queryFile ∈ files)
      (linted : setup.sqruff queryFile.2 = .ok found) (member : sv ∈ found) : Read setup files (sqruffViolation queryFile.1 sv)
  | block {queryFile : String × List Char} {block : List Char} {v : FileViolation} (given : queryFile ∈ files)
      (part : block ∈ splitQueryFile queryFile.2) (failed : readBlock setup queryFile.1 block = .inl v) : Read setup files v

theorem read_violations {files : List (String × List Char)} {read : List (List FileViolation × List PreparedQuery)}
    (each : Outcomes.Each (readQueryFile setup) files read) {v : FileViolation} :
    v ∈ read.flatMap (·.1) ↔ Read setup files v := by
  constructor
  · intro member
    obtain ⟨one,inside,among⟩ := List.mem_flatMap.mp member
    obtain ⟨queryFile,given,here⟩ := Register.mapM_mem (Outcomes.mapM_ok.mpr each) one inside
    obtain ⟨-,found,linted,rfl⟩ := readQueryFile_ok.mp here
    rcases List.mem_append.mp among with formatted | failed
    · obtain ⟨sv,told,rfl⟩ := List.mem_map.mp formatted
      exact .sqruff given linted told
    · obtain ⟨block,part,left⟩ := List.mem_filterMap.mp failed
      exact .block given part (Sum.getLeft?_eq_some_iff.mp left)
  · intro told
    cases told with
    | sqruff given linted member =>
      obtain ⟨one,inside,here⟩ := Register.mapM_image (Outcomes.mapM_ok.mpr each) given
      obtain ⟨-,found,also,rfl⟩ := readQueryFile_ok.mp here
      cases linted.symm.trans also
      exact List.mem_flatMap.mpr ⟨_,inside,List.mem_append_left _ (List.mem_map_of_mem member)⟩
    | block given part failed =>
      obtain ⟨one,inside,here⟩ := Register.mapM_image (Outcomes.mapM_ok.mpr each) given
      obtain ⟨-,found,-,rfl⟩ := readQueryFile_ok.mp here
      refine List.mem_flatMap.mpr ⟨_,inside,List.mem_append_right _ (List.mem_filterMap.mpr ⟨_,part,?_⟩)⟩
      exact Sum.getLeft?_eq_some_iff.mpr failed

theorem lint_ok {files : List (String × List Char)} {violations : List FileViolation}
    (done : lintQueryFiles setup files = .ok violations) {v : FileViolation} : v ∈ violations ↔ Read setup files v ∨
      ∃ told,Told setup.registry ((preparedQueries setup files).map (context setup)) setup.catalog told ∧
        isHidden (preparedQueries setup files) told = false ∧ v = fileViolation setup (preparedQueries setup files) told := by
  unfold lintQueryFiles at done
  obtain ⟨read,each,last⟩ := Register.bind_ok done
  rw [Outcomes.mapM_ok] at each
  cases last
  rw [List.mem_append,read_violations each,read_prepared each,List.mem_filterMap]
  refine or_congr Iff.rfl (exists_congr fun told => ?_)
  rw [mem_report]
  refine and_congr Iff.rfl ?_
  unfold shown
  cases isHidden (preparedQueries setup files) told <;> simp [eq_comm]

theorem mem_prepared {files : List (String × List Char)} {p : PreparedQuery} : p ∈ preparedQueries setup files ↔
    ∃ queryFile ∈ files,∃ block ∈ splitQueryFile queryFile.2,readBlock setup queryFile.1 block = .inr p := by
  unfold preparedQueries blockQueries
  simp only [List.mem_flatMap,List.mem_filterMap,Sum.getRight?_eq_some_iff]

theorem readBlock_query {file : String} {block : List Char} {p : PreparedQuery} (read : readBlock setup file block = .inr p) :
    p.file = file ∧ p.suppressions = .parse block := by
  unfold readBlock at read
  split at read
  · cases read
  · split at read
    · cases read
    · cases read
      exact ⟨rfl,rfl⟩

-- A finding is hidden by the annotations of the first query of its name.
theorem hidden_iff {files : List (String × List Char)} {v : QueryViolation} :
    isHidden (preparedQueries setup files) v ↔ ∃ before p after block,preparedQueries setup files = before ++ p :: after ∧
      (∀ q ∈ before,q.analyzed.name.toList ≠ v.queryName) ∧ p.analyzed.name.toList = v.queryName ∧
        p.suppressions = .parse block ∧ NamedAt (splitChars '\n' block) v.ruleId.toList 0 := by
  unfold isHidden originOf
  rw [Option.any_eq_true]
  constructor
  · rintro ⟨p,found,suppressed⟩
    obtain ⟨same,before,after,is,earlier⟩ := List.find?_eq_some_iff_append.mp found
    have member : p ∈ preparedQueries setup files := List.mem_of_find?_eq_some found
    obtain ⟨queryFile,-,block,-,read⟩ := mem_prepared.mp member
    refine ⟨before,p,after,block,is,by simpa using earlier,by simpa using same,(readBlock_query read).2,?_⟩
    rw [(readBlock_query read).2] at suppressed
    exact (Suppression.isSuppressed_iff _ _ _).mp suppressed
  · rintro ⟨before,p,after,block,is,earlier,same,suppressions,named⟩
    refine ⟨p,?_,?_⟩
    · rw [List.find?_eq_some_iff_append]
      exact ⟨by simpa using same,before,after,is,by simpa using earlier⟩
    · rw [suppressions]
      exact (Suppression.isSuppressed_iff _ _ _).mpr named

-- Where all names differ, the annotations are those of the query itself.
theorem own_hidden {files : List (String × List Char)} (distinct : ((preparedQueries setup files).map (·.analyzed.name)).Nodup)
    {queryFile : String × List Char} {block : List Char} {p : PreparedQuery} (given : queryFile ∈ files)
    (part : block ∈ splitQueryFile queryFile.2) (read : readBlock setup queryFile.1 block = .inr p) {v : QueryViolation}
    (of : v.queryName = p.analyzed.name.toList) :
    isHidden (preparedQueries setup files) v ↔ NamedAt (splitChars '\n' block) v.ruleId.toList 0 := by
  have member : p ∈ preparedQueries setup files := mem_prepared.mpr ⟨queryFile,given,block,part,read⟩
  have found : originOf (preparedQueries setup files) v.queryName = some p := by
    unfold originOf
    obtain ⟨before,after,is⟩ := List.append_of_mem member
    rw [is] at distinct ⊢
    rw [List.map_append,List.map_cons,List.nodup_append] at distinct
    rw [List.find?_eq_some_iff_append]
    refine ⟨by simp [of],before,after,rfl,fun q earlier => ?_⟩
    have differs := distinct.2.2 _ (List.mem_map_of_mem earlier) _ List.mem_cons_self
    simpa [of,String.toList_inj] using differs
  unfold isHidden
  rw [found,Option.any_some,(readBlock_query read).2]
  exact Suppression.isSuppressed_iff _ _ _

def Analyzed (setup : Setup) (block : List Char) : Prop :=
  ∃ query analyzed,setup.parseQueryWithDialect block setup.dialect = .ok query ∧
    setup.analyze setup.catalog query = .ok analyzed

theorem analyzed_or (file : String) (block : List Char) : Analyzed setup block ∨
    (∃ e,setup.parseQueryWithDialect block setup.dialect = .error e ∧
      readBlock setup file block = .inl (unparseable setup file e)) ∨
    ∃ query e,setup.parseQueryWithDialect block setup.dialect = .ok query ∧ setup.analyze setup.catalog query = .error e ∧
      readBlock setup file block = .inl (unanalyzable setup file query.name e) := by
  unfold readBlock Analyzed
  cases setup.parseQueryWithDialect block setup.dialect with
  | error e => exact .inr (.inl ⟨e,rfl,rfl⟩)
  | ok query =>
    cases read : setup.analyze setup.catalog query with
    | error e => exact .inr (.inr ⟨query,e,rfl,read,by simp only [read]⟩)
    | ok analyzed => exact .inl ⟨query,analyzed,rfl,read⟩

theorem error_exits {violations : List FileViolation} (clean : exitCode violations false = 0) :
    ∀ v ∈ violations,v.severity ≠ .error := by
  intro v member is
  unfold exitCode at clean
  rw [if_pos] at clean
  · cases clean
  · rw [Bool.not_false,Bool.and_true,List.any_eq_true]
    exact ⟨v,member,by simp [is]⟩

-- What a run that is not broken off says, and what follows from its exit code.
structure Lints (setup : Setup) (files : List (String × List Char)) (violations : List FileViolation) : Prop where
  said : ∀ v,v ∈ violations ↔ Read setup files v ∨
    ∃ told,Told setup.registry ((preparedQueries setup files).map (context setup)) setup.catalog told ∧
      isHidden (preparedQueries setup files) told = false ∧ v = fileViolation setup (preparedQueries setup files) told
  accounted : ∀ queryFile ∈ files,∀ block ∈ splitQueryFile queryFile.2,
    (∃ p ∈ preparedQueries setup files,p.file = queryFile.1 ∧ readBlock setup queryFile.1 block = .inr p) ∨
      ∃ v ∈ violations,readBlock setup queryFile.1 block = .inl v
  hidden : ∀ v,isHidden (preparedQueries setup files) v ↔ ∃ before p after block,
    preparedQueries setup files = before ++ p :: after ∧ (∀ q ∈ before,q.analyzed.name.toList ≠ v.queryName) ∧
      p.analyzed.name.toList = v.queryName ∧ p.suppressions = .parse block ∧
        NamedAt (splitChars '\n' block) v.ruleId.toList 0
  own : ((preparedQueries setup files).map (·.analyzed.name)).Nodup → ∀ queryFile ∈ files,
    ∀ block ∈ splitQueryFile queryFile.2,∀ p,readBlock setup queryFile.1 block = .inr p →
      ∀ v : QueryViolation,v.queryName = p.analyzed.name.toList →
        (isHidden (preparedQueries setup files) v ↔ NamedAt (splitChars '\n' block) v.ruleId.toList 0)
  clean : exitCode violations false = 0 →
    (setup.parseSeverities = ⟨.error,.error⟩ → ∀ queryFile ∈ files,∀ block ∈ splitQueryFile queryFile.2,Analyzed setup block) ∧
      ∀ told,Told setup.registry ((preparedQueries setup files).map (context setup)) setup.catalog told →
        told.severity = .error → isHidden (preparedQueries setup files) told

-- The exit code is about every block of every file and every rule of the registry.
structure LintsFiles (setup : Setup) : Prop where
  run : ∀ files violations,lintQueryFiles setup files = .ok violations → Lints setup files violations
  broken : ∀ files,(∃ message,lintQueryFiles setup files = .error message) ↔
    ∃ queryFile ∈ files,hasUnannotatedSql queryFile.2 ∨ ∃ e,setup.sqruff queryFile.2 = .error e

theorem lints_accounted {files : List (String × List Char)} {violations : List FileViolation}
    (done : lintQueryFiles setup files = .ok violations) : Lints setup files violations where
  said _ := lint_ok done
  accounted queryFile given block part := by
    cases read : readBlock setup queryFile.1 block with
    | inl v => exact .inr ⟨v,(lint_ok done).mpr (.inl (.block given part read)),rfl⟩
    | inr p => exact .inl ⟨p,mem_prepared.mpr ⟨queryFile,given,block,part,read⟩,(readBlock_query read).1,rfl⟩
  hidden _ := hidden_iff
  own distinct queryFile given block part p read v of := own_hidden distinct given part read of
  clean clean := by
    have quiet := error_exits clean
    refine ⟨fun severities queryFile given block part => ?_,fun told from' severe => ?_⟩
    · rcases analyzed_or queryFile.1 block with analyzed | ⟨e,-,read⟩ | ⟨query,e,-,-,read⟩
      · exact analyzed
      · refine absurd ?_ (quiet _ ((lint_ok done).mpr (.inl (.block given part read))))
        simp [unparseable,severities]
      · refine absurd ?_ (quiet _ ((lint_ok done).mpr (.inl (.block given part read))))
        simp [unanalyzable,severities]
    · cases hidden : isHidden (preparedQueries setup files) told with
      | true => rfl
      | false =>
        refine absurd ?_ (quiet _ ((lint_ok done).mpr (.inr ⟨told,from',hidden,rfl⟩)))
        exact severe

theorem readQueryFile_refused {queryFile : String × List Char} : (∃ message,readQueryFile setup queryFile = .error message) ↔
    hasUnannotatedSql queryFile.2 ∨ ∃ e,setup.sqruff queryFile.2 = .error e := by
  unfold readQueryFile
  cases hasUnannotatedSql queryFile.2 with
  | true => simp
  | false => cases setup.sqruff queryFile.2 <;> simp

theorem files_linted (setup : Setup) : LintsFiles setup where
  run _ _ done := lints_accounted done
  broken files := by
    simp only [← readQueryFile_refused]
    unfold lintQueryFiles
    constructor
    · rintro ⟨message,failed⟩
      cases read : files.mapM (readQueryFile setup) with
      | ok read' => rw [read] at failed; cases failed
      | error e =>
        obtain ⟨before,queryFile,after,rfl,-,refused⟩ := Outcomes.mapM_refused.mp read
        exact ⟨queryFile,by simp,e,refused⟩
    · rintro ⟨queryFile,given,message,refused⟩
      cases read : files.mapM (readQueryFile setup) with
      | error e => exact ⟨e,rfl⟩
      | ok read' =>
        obtain ⟨one,here⟩ := Outcomes.each_total.mp ⟨read',Outcomes.mapM_ok.mp read⟩ queryFile given
        cases refused.symm.trans here

end Scythe.Linting
