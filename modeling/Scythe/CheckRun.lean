import Scythe.LintRun

-- The check of a project over the same query files, and what it and the linter say of
-- one project.
namespace Scythe.Linting
open Text
open Verification (Severity QueryViolation)
open UnboundParams (Violation)
open QueryFile (splitQueryFile hasUnannotatedSql)

-- What a check has beside what a lint run has: its other severities, the targets that
-- cannot be built, and the comparison of what was generated with the queries.
structure CheckSetup extends Setup where
  emptyQueryFile : Severity
  genTargets : List QueryViolation
  verifyProvenance : List AnalyzedQuery → List QueryViolation

structure Finding where
  file : String
  queryName : Option (List Char)
  ruleId : String
  severity : Severity
  message : List Char
  cwe : List (List Char)
  source : Option String

-- The numbers after a mark in any case, as often as it stands there.
def cweWithin : Nat → List Char → List (List Char)
  | _,[] => []
  | skip + 1,_ :: cs => cweWithin skip cs
  | 0,c :: cs =>
    if asciiLowercase (String.ofList (c :: cs.take 3)) = "cwe-" then
      let digits := (cs.drop 3).takeWhile isDigit
      let rest := cweWithin (3 + digits.length) cs
      if digits = [] then rest else ("CWE-".toList ++ digits) :: rest
    else cweWithin 0 cs

def extractCwe (description : List Char) : List (List Char) := cweWithin 0 description

section
variable (setup : CheckSetup)

def unparsed (queryFile e : String) : QueryViolation where
  queryName := []
  ruleId := "SC-PARSE01"
  severity := setup.parseSeverities.unparseable
  message := s!"{queryFile}: failed to parse query: {e}".toList

def unanalyzed (queryFile name e : String) : QueryViolation where
  queryName := name.toList
  ruleId := "SC-PARSE02"
  severity := setup.parseSeverities.unanalyzable
  message := s!"{queryFile}: failed to analyze query '{name}': {e}".toList

def emptyQueryFiles (queryFile : String × List Char) : List QueryViolation :=
  if (splitQueryFile queryFile.2).isEmpty && trimChars queryFile.2 ≠ [] then
    [⟨[],"SC-PRV10",setup.emptyQueryFile,
      (s!"[{setup.name}] query file '{queryFile.1}' has content but produced zero `-- name:` / `-- @name` query " ++
        "blocks; nothing in this file was checked. If every statement here is intentionally " ++
          "commented out, or this file has no queries, remove it from the `queries` glob").toList⟩]
  else []

def checkBlock (queryFile : String) (block : List Char) : List QueryViolation × Option AnalyzedQuery :=
  match setup.parseQueryWithDialect block setup.dialect with
  | .error e => ([unparsed setup queryFile e],none)
  | .ok parsed =>
    match setup.analyze setup.catalog parsed with
    | .error e => ([unanalyzed setup queryFile parsed.name e],none)
    | .ok analyzed =>
      let ctx : LintContext := ⟨parsed.sql,parsed.stmt,analyzed,setup.catalog,parsed.annotations,setup.dialect⟩
      ((checkQuery setup.registry ctx).map fun found => finding analyzed.name found.2 found.1,some analyzed)

-- A name is told of again each time that it comes again.
def repeatedNames : List String → List String → List String
  | _,[] => []
  | seen,name :: names => if name ∈ seen then name :: repeatedNames seen names else repeatedNames (name :: seen) names

def repeatedName (name : String) : QueryViolation where
  queryName := name.toList
  ruleId := "SC-C03"
  severity := .error
  message := s!"duplicate query name: \"{name}\"".toList

def queryBlocks (files : List (String × List Char)) : List (String × List Char) :=
  files.flatMap fun queryFile => (splitQueryFile queryFile.2).map fun block => (queryFile.1,block)

def analyzedQueries (files : List (String × List Char)) : List (AnalyzedQuery × String) :=
  (queryBlocks files).filterMap fun block => (checkBlock setup block.1 block.2).2.map fun analyzed => (analyzed,block.1)

def unchecked (queryFile : String) : String :=
  s!"[{setup.name}] query file '{queryFile}' has SQL content with no `-- name:` / `-- @name` annotation above it; " ++
    "that content is silently dropped, not checked. Add an annotation above every statement " ++
      "(e.g. `-- name: MyQuery :one`), or move non-query SQL out of the `queries` glob"

def checkQueryFiles (files : List (String × List Char)) : Except String (List QueryViolation) :=
  match files.find? fun queryFile => hasUnannotatedSql queryFile.2 with
  | some queryFile => .error (unchecked setup queryFile.1)
  | none =>
    let queries := (analyzedQueries setup files).map (·.1)
    .ok (setup.genTargets ++ files.flatMap (emptyQueryFiles setup) ++
      (queryBlocks files).flatMap (fun block => (checkBlock setup block.1 block.2).1) ++
      (checkCatalog setup.registry setup.catalog).map (fun found => finding "" found.2 found.1) ++
      (repeatedNames [] (queries.map (·.name))).map repeatedName ++ setup.verifyProvenance queries)

end

-- A block of the configuration with its query files.
abbrev SqlBlock := CheckSetup × List (String × List Char)

def nameFiles (blocks : List SqlBlock) : List (List Char × String) :=
  blocks.flatMap fun block => (analyzedQueries block.1 block.2).map fun query => (query.1.name.toList,query.2)

def queryFileByName (blocks : List SqlBlock) : AList fun _ : List Char => String := LastWrite.write ∅ (nameFiles blocks)

def checkFinding (configPath : String) (blocks : List SqlBlock) (violation : QueryViolation) : Finding where
  file := ((queryFileByName blocks).lookup violation.queryName).getD configPath
  queryName := some violation.queryName
  ruleId := violation.ruleId
  severity := violation.severity
  message := violation.message
  cwe := extractCwe violation.message
  source := some "check"

def runCheck (configPath : String) (blocks : List SqlBlock) : Except String (List Finding) := do
  let violations ← blocks.mapM fun block => checkQueryFiles block.1 block.2
  pure ((violations.flatten.filter fun v => v.severity ≠ .off).map (checkFinding configPath blocks))

def checkExitCode (findings : List Finding) (exitZero : Bool) : Option Nat :=
  if 0 < findings.countP (fun found => found.severity = .error) && !exitZero then some 2 else none

def lintFromConfig (blocks : List SqlBlock) : Except String (List FileViolation) := do
  let violations ← blocks.mapM fun block => lintQueryFiles block.1.toSetup block.2
  pure violations.flatten

section
variable {setup : CheckSetup} {files : List (String × List Char)}

-- The check and the linter have the same queries to look at.
theorem analyzed_prepared : analyzedQueries setup files =
    (preparedQueries setup.toSetup files).map fun p => (p.analyzed,p.file) := by
  unfold analyzedQueries queryBlocks preparedQueries blockQueries
  rw [List.filterMap_flatMap,List.map_flatMap]
  refine List.flatMap_congr fun queryFile _ => ?_
  rw [List.filterMap_map,List.map_filterMap]
  refine List.filterMap_congr fun block _ => ?_
  unfold checkBlock readBlock
  dsimp only [Function.comp_apply]
  cases setup.parseQueryWithDialect block setup.dialect with
  | error e => rfl
  | ok parsed => cases analyzed : setup.analyze setup.catalog parsed <;> simp [analyzed]

theorem names_prepared : ((analyzedQueries setup files).map (·.1)).map (·.name) =
    (preparedQueries setup.toSetup files).map (·.analyzed.name) := by
  rw [analyzed_prepared,List.map_map,List.map_map]
  rfl

theorem repeated_count (seen names : List String) (name : String) : (repeatedNames seen names).count name =
    names.count name - if name ∈ seen then 0 else 1 := by
  induction names generalizing seen with
  | nil => simp [repeatedNames]
  | cons first names ih =>
    unfold repeatedNames
    split
    · rename_i again
      by_cases same : first = name
      · rw [same] at again ⊢
        simp [ih,again]
      · simp [ih,same]
    · rename_i fresh
      rw [ih]
      by_cases same : first = name
      · rw [same] at fresh ⊢
        simp [fresh]
      · simp [same,Ne.symm same]

theorem repeated_none (names : List String) : repeatedNames [] names = [] ↔ names.Nodup := by
  rw [List.nodup_iff_count_le_one,List.eq_nil_iff_forall_not_mem]
  refine forall_congr' fun name => ?_
  rw [← List.count_eq_zero,repeated_count]
  simp only [List.not_mem_nil,if_false]
  omega

-- What a rule finds, in a query or in the catalog.
inductive Found (setup : Setup) (files : List (String × List Char)) : QueryViolation → Prop where
  | query {p : PreparedQuery} {active : LintRule × Severity} {v : Violation} (given : p ∈ preparedQueries setup files)
      (on : active ∈ setup.registry.activeRules) (found : v ∈ active.1.checkQuery (context setup p)) :
      Found setup files (finding p.analyzed.name active.2 v)
  | catalog {active : LintRule × Severity} {v : Violation} (on : active ∈ setup.registry.activeRules)
      (found : v ∈ active.1.checkCatalog setup.catalog) : Found setup files (finding "" active.2 v)

theorem told_found {v : QueryViolation} :
    Told setup.registry ((preparedQueries setup.toSetup files).map (context setup.toSetup)) setup.catalog v ↔
      Found setup.toSetup files v ∨ ∃ active name,
        setup.registry.activeRules.find? (fun active => active.1.id = duplicateQueryNames) = some active ∧
          1 < ((preparedQueries setup.toSetup files).map (·.analyzed.name)).count name ∧
            v = duplicateFinding active.2 name (((preparedQueries setup.toSetup files).map (·.analyzed.name)).count name) := by
  have names : ((preparedQueries setup.toSetup files).map (context setup.toSetup)).map (·.analyzed.name) =
      (preparedQueries setup.toSetup files).map (·.analyzed.name) := by
    rw [List.map_map]
    rfl
  rw [← names]
  constructor
  · rintro (⟨given,on,found⟩ | ⟨on,several⟩ | ⟨on,found⟩)
    · obtain ⟨p,inside,rfl⟩ := List.mem_map.mp given
      exact .inl (.query inside on found)
    · exact .inr ⟨_,_,on,several,rfl⟩
    · exact .inl (.catalog on found)
  · rintro ((⟨given,on,found⟩ | ⟨on,found⟩) | ⟨active,name,on,several,rfl⟩)
    · exact .query (List.mem_map_of_mem given) on found
    · exact .catalog on found
    · exact .duplicate on several

-- How bad it is that a block of a file cannot be looked at.
inductive Failed (setup : Setup) (files : List (String × List Char)) : Severity → Prop where
  | unparsed {queryFile : String × List Char} {block : List Char} {e : String} (given : queryFile ∈ files)
      (part : block ∈ splitQueryFile queryFile.2) (failed : setup.parseQueryWithDialect block setup.dialect = .error e) :
      Failed setup files setup.parseSeverities.unparseable
  | unanalyzed {queryFile : String × List Char} {block : List Char} {query : LintQuery} {e : String}
      (given : queryFile ∈ files) (part : block ∈ splitQueryFile queryFile.2)
      (parsed : setup.parseQueryWithDialect block setup.dialect = .ok query)
      (failed : setup.analyze setup.catalog query = .error e) : Failed setup files setup.parseSeverities.unanalyzable

-- Whatever the linter says before its rules, only a block that failed can be an error.
theorem read_error {setup : Setup} {files : List (String × List Char)} :
    (∃ v,Read setup files v ∧ v.severity = .error) ↔ Failed setup files .error := by
  constructor
  · rintro ⟨v,⟨given,linted,member⟩ | ⟨given,part,failed⟩,severe⟩
    · cases severe
    · rename_i queryFile block
      rcases @analyzed_or setup queryFile.1 block with ⟨query,analyzed,parsed,done⟩ | ⟨e,parsed,is⟩ | ⟨query,e,parsed,done,is⟩
      · unfold readBlock at failed
        simp [parsed,done] at failed
      · cases failed.symm.trans is
        exact severe ▸ .unparsed given part parsed
      · cases failed.symm.trans is
        exact severe ▸ .unanalyzed given part parsed done
  · intro failed
    generalize is : Severity.error = severity at failed
    cases failed with
    | @unparsed queryFile block e given part parsed =>
      refine ⟨unparseable setup queryFile.1 e,.block given part ?_,rfl⟩
      unfold readBlock
      rw [parsed]
    | @unanalyzed queryFile block query e given part parsed done =>
      refine ⟨unanalyzable setup queryFile.1 query.name e,.block given part ?_,rfl⟩
      unfold readBlock
      simp [parsed,done]

theorem lint_error {setup : Setup} {files : List (String × List Char)} {linted : List FileViolation}
    (done : lintQueryFiles setup files = .ok linted) : (∃ v ∈ linted,v.severity = .error) ↔ Failed setup files .error ∨
      ∃ told,Told setup.registry ((preparedQueries setup files).map (context setup)) setup.catalog told ∧
        told.severity = .error ∧ isHidden (preparedQueries setup files) told = false := by
  rw [← read_error]
  constructor
  · rintro ⟨v,member,severe⟩
    rcases (lint_ok done).mp member with read | ⟨told,from',open',rfl⟩
    · exact .inl ⟨v,read,severe⟩
    · exact .inr ⟨told,from',severe,open'⟩
  · rintro (⟨v,read,severe⟩ | ⟨told,from',severe,open'⟩)
    · exact ⟨v,(lint_ok done).mpr (.inl read),severe⟩
    · exact ⟨_,(lint_ok done).mpr (.inr ⟨told,from',open',rfl⟩),severe⟩

theorem mem_blocks {block : String × List Char} :
    block ∈ queryBlocks files ↔ ∃ queryFile ∈ files,∃ part ∈ splitQueryFile queryFile.2,block = (queryFile.1,part) := by
  unfold queryBlocks
  simp only [List.mem_flatMap,List.mem_map,eq_comm]

-- What a check says of a block, where the linter has the same block prepared or has it failed.
theorem block_said {queryFile : String} {block : List Char} {v : QueryViolation} :
    v ∈ (checkBlock setup queryFile block).1 ↔
      (∃ e,setup.parseQueryWithDialect block setup.dialect = .error e ∧ v = unparsed setup queryFile e) ∨
      (∃ query e,setup.parseQueryWithDialect block setup.dialect = .ok query ∧
        setup.analyze setup.catalog query = .error e ∧ v = unanalyzed setup queryFile query.name e) ∨
      ∃ p,readBlock setup.toSetup queryFile block = .inr p ∧ ∃ active ∈ setup.registry.activeRules,
        ∃ f ∈ active.1.checkQuery (context setup.toSetup p),v = finding p.analyzed.name active.2 f := by
  unfold checkBlock readBlock
  cases setup.parseQueryWithDialect block setup.dialect with
  | error e => simp
  | ok query =>
    cases analyzed : setup.analyze setup.catalog query with
    | error e => simp [analyzed]
    | ok result =>
      unfold checkQuery
      simp only [analyzed,List.mem_map,List.mem_flatMap]
      constructor
      · rintro ⟨found,⟨active,on,f,member,rfl⟩,rfl⟩
        exact .inr (.inr ⟨_,rfl,active,on,f,member,rfl⟩)
      · rintro (⟨e,failed,-⟩ | ⟨other,e,same,failed,-⟩ | ⟨p,same,active,on,f,member,rfl⟩)
        · cases failed
        · cases same
          cases analyzed.symm.trans failed
        · cases same
          exact ⟨(f,active.2),⟨active,on,f,member,rfl⟩,rfl⟩

theorem block_error : (∃ block ∈ queryBlocks files,∃ v ∈ (checkBlock setup block.1 block.2).1,v.severity = .error) ↔
    Failed setup.toSetup files .error ∨ ∃ p ∈ preparedQueries setup.toSetup files,∃ active ∈ setup.registry.activeRules,
      ∃ v ∈ active.1.checkQuery (context setup.toSetup p),(finding p.analyzed.name active.2 v).severity = .error := by
  constructor
  · rintro ⟨block,inside,v,member,severe⟩
    obtain ⟨queryFile,given,part,among,rfl⟩ := mem_blocks.mp inside
    rcases block_said.mp member with ⟨e,failed,rfl⟩ | ⟨query,e,parsed,failed,rfl⟩ | ⟨p,read,active,on,f,found,rfl⟩
    · exact .inl (severe ▸ .unparsed given among failed)
    · exact .inl (severe ▸ .unanalyzed given among parsed failed)
    · exact .inr ⟨p,mem_prepared.mpr ⟨queryFile,given,part,among,read⟩,active,on,f,found,severe⟩
  · rintro (failed | ⟨p,prepared,active,on,f,found,severe⟩)
    · generalize is : Severity.error = severity at failed
      cases failed with
      | @unparsed queryFile block e given part parsed =>
        exact ⟨_,mem_blocks.mpr ⟨queryFile,given,block,part,rfl⟩,_,block_said.mpr (.inl ⟨e,parsed,rfl⟩),rfl⟩
      | @unanalyzed queryFile block query e given part parsed failed =>
        exact ⟨_,mem_blocks.mpr ⟨queryFile,given,block,part,rfl⟩,_,
          block_said.mpr (.inr (.inl ⟨query,e,parsed,failed,rfl⟩)),rfl⟩
    · obtain ⟨queryFile,given,part,among,read⟩ := mem_prepared.mp prepared
      exact ⟨_,mem_blocks.mpr ⟨queryFile,given,part,among,rfl⟩,_,
        block_said.mpr (.inr (.inr ⟨p,read,active,on,f,found,rfl⟩)),severe⟩

-- What a check reports beside its rules and its queries.
def besides (setup : CheckSetup) (files : List (String × List Char)) : List QueryViolation :=
  setup.genTargets ++ files.flatMap (emptyQueryFiles setup) ++ setup.verifyProvenance ((analyzedQueries setup files).map (·.1))

theorem mem_besides {v : QueryViolation} : v ∈ besides setup files ↔ v ∈ setup.genTargets ∨
    v ∈ files.flatMap (emptyQueryFiles setup) ∨ v ∈ setup.verifyProvenance ((analyzedQueries setup files).map (·.1)) := by
  unfold besides
  rw [List.mem_append,List.mem_append,or_assoc]

theorem checked_iff {violations : List QueryViolation} : checkQueryFiles setup files = .ok violations ↔
    (∀ queryFile ∈ files,hasUnannotatedSql queryFile.2 = false) ∧ violations =
      setup.genTargets ++ files.flatMap (emptyQueryFiles setup) ++
        (queryBlocks files).flatMap (fun block => (checkBlock setup block.1 block.2).1) ++
        (checkCatalog setup.registry setup.catalog).map (fun found => finding "" found.2 found.1) ++
        (repeatedNames [] (((analyzedQueries setup files).map (·.1)).map (·.name))).map repeatedName ++
        setup.verifyProvenance ((analyzedQueries setup files).map (·.1)) := by
  unfold checkQueryFiles
  cases found : files.find? fun queryFile => hasUnannotatedSql queryFile.2 with
  | some queryFile =>
    have inside := List.mem_of_find?_eq_some found
    have unannotated := List.find?_some found
    refine ⟨nofun,fun ⟨all,_⟩ => ?_⟩
    rw [all _ inside] at unannotated
    cases unannotated
  | none =>
    have all : ∀ queryFile ∈ files,hasUnannotatedSql queryFile.2 = false := by simpa using found
    constructor
    · intro done
      cases done
      exact ⟨all,rfl⟩
    · rintro ⟨-,rfl⟩
      rfl

-- What makes a check of a block of the configuration fail.
def CheckFails (setup : CheckSetup) (files : List (String × List Char)) : Prop :=
  Failed setup.toSetup files .error ∨ (∃ v,Found setup.toSetup files v ∧ v.severity = .error) ∨
    ¬((preparedQueries setup.toSetup files).map (·.analyzed.name)).Nodup ∨ ∃ v ∈ besides setup files,v.severity = .error

theorem repeated_error : (∃ v ∈ (repeatedNames [] (((analyzedQueries setup files).map (·.1)).map (·.name))).map repeatedName,
    v.severity = Severity.error) ↔ ¬((preparedQueries setup.toSetup files).map (·.analyzed.name)).Nodup := by
  rw [names_prepared,← repeated_none]
  constructor
  · rintro ⟨v,member,-⟩ none
    rw [none] at member
    cases member
  · intro several
    obtain ⟨name,again⟩ := List.exists_mem_of_ne_nil _ several
    exact ⟨repeatedName name,List.mem_map_of_mem again,rfl⟩

theorem catalog_said {v : QueryViolation} :
    v ∈ (checkCatalog setup.registry setup.catalog).map (fun found => finding "" found.2 found.1) ↔
      ∃ active ∈ setup.registry.activeRules,∃ f ∈ active.1.checkCatalog setup.catalog,v = finding "" active.2 f := by
  unfold checkCatalog
  simp only [List.mem_map,List.mem_flatMap]
  constructor
  · rintro ⟨found,⟨active,on,f,member,rfl⟩,rfl⟩
    exact ⟨active,on,f,member,rfl⟩
  · rintro ⟨active,on,f,member,rfl⟩
    exact ⟨(f,active.2),⟨active,on,f,member,rfl⟩,rfl⟩

theorem check_error {violations : List QueryViolation} (done : checkQueryFiles setup files = .ok violations) :
    (∃ v ∈ violations,v.severity = .error) ↔ CheckFails setup files := by
  obtain ⟨-,rfl⟩ := checked_iff.mp done
  unfold CheckFails
  rw [← repeated_error]
  simp only [mem_besides,List.mem_append]
  constructor
  · rintro ⟨v,((((targets | empty) | blocks) | catalog) | again) | provenance,severe⟩
    · exact .inr (.inr (.inr ⟨v,.inl targets,severe⟩))
    · exact .inr (.inr (.inr ⟨v,.inr (.inl empty),severe⟩))
    · obtain ⟨block,inside,member⟩ := List.mem_flatMap.mp blocks
      rcases block_error.mp ⟨block,inside,v,member,severe⟩ with failed | ⟨p,prepared,active,on,f,found,error⟩
      · exact .inl failed
      · exact .inr (.inl ⟨_,.query prepared on found,error⟩)
    · obtain ⟨active,on,f,found,rfl⟩ := catalog_said.mp catalog
      exact .inr (.inl ⟨_,.catalog on found,severe⟩)
    · exact .inr (.inr (.inl ⟨v,again,severe⟩))
    · exact .inr (.inr (.inr ⟨v,.inr (.inr provenance),severe⟩))
  · rintro (failed | ⟨v,⟨prepared,on,found⟩ | ⟨on,found⟩,severe⟩ | ⟨v,again,severe⟩ | ⟨v,targets | empty | provenance,severe⟩)
    · obtain ⟨block,inside,v,member,severe⟩ := block_error.mpr (.inl failed)
      exact ⟨v,.inl (.inl (.inl (.inr (List.mem_flatMap.mpr ⟨block,inside,member⟩)))),severe⟩
    · obtain ⟨block,inside,v,member,error⟩ := block_error.mpr (.inr ⟨_,prepared,_,on,_,found,severe⟩)
      exact ⟨v,.inl (.inl (.inl (.inr (List.mem_flatMap.mpr ⟨block,inside,member⟩)))),error⟩
    · exact ⟨_,.inl (.inl (.inr (catalog_said.mpr ⟨_,on,_,found,rfl⟩))),severe⟩
    · exact ⟨v,.inl (.inr again),severe⟩
    · exact ⟨v,.inl (.inl (.inl (.inl (.inl targets)))),severe⟩
    · exact ⟨v,.inl (.inl (.inl (.inl (.inr empty)))),severe⟩
    · exact ⟨v,.inr provenance,severe⟩

-- What makes a lint run of the same block exit with an error.
def LintFails (setup : CheckSetup) (files : List (String × List Char)) : Prop :=
  Failed setup.toSetup files .error ∨
    ∃ told,Told setup.registry ((preparedQueries setup.toSetup files).map (context setup.toSetup)) setup.catalog told ∧
      told.severity = .error ∧ isHidden (preparedQueries setup.toSetup files) told = false

theorem lint_fails (fails : LintFails setup files) : CheckFails setup files := by
  rcases fails with failed | ⟨told,from',severe,-⟩
  · exact .inl failed
  · rcases told_found.mp from' with found | ⟨active,name,-,several,-⟩
    · exact .inr (.inl ⟨told,found,severe⟩)
    · refine .inr (.inr (.inl fun distinct => ?_))
      have once := List.nodup_iff_count_le_one.mp distinct name
      omega

-- A query that the linter passes can fail the check: its annotations hide a finding, its
-- name is another's, or what the check looks at beside the rules is wrong.
theorem check_fails (passed : ¬LintFails setup files) : CheckFails setup files ↔
    (∃ v,Found setup.toSetup files v ∧ v.severity = .error ∧ isHidden (preparedQueries setup.toSetup files) v) ∨
      ¬((preparedQueries setup.toSetup files).map (·.analyzed.name)).Nodup ∨
        ∃ v ∈ besides setup files,v.severity = .error := by
  constructor
  · rintro (failed | ⟨v,found,severe⟩ | again | beside)
    · exact absurd (.inl failed) passed
    · refine .inl ⟨v,found,severe,?_⟩
      rw [← Bool.not_eq_false]
      intro open'
      exact passed (.inr ⟨v,told_found.mpr (.inl found),severe,open'⟩)
    · exact .inr (.inl again)
    · exact .inr (.inr beside)
  · rintro (⟨v,found,severe,-⟩ | again | beside)
    · exact .inr (.inl ⟨v,found,severe⟩)
    · exact .inr (.inr (.inl again))
    · exact .inr (.inr (.inr beside))

section Runs
variable {configPath : String} {blocks : List SqlBlock}

theorem runCheck_ok {findings : List Finding} : runCheck configPath blocks = .ok findings ↔
    ∃ violations,Outcomes.Each (fun block : SqlBlock => checkQueryFiles block.1 block.2) blocks violations ∧
      findings = (violations.flatten.filter fun v => v.severity ≠ .off).map (checkFinding configPath blocks) := by
  unfold runCheck
  constructor
  · intro done
    obtain ⟨violations,each,last⟩ := Register.bind_ok done
    cases last
    exact ⟨violations,Outcomes.mapM_ok.mp each,rfl⟩
  · rintro ⟨violations,each,rfl⟩
    rw [Outcomes.mapM_ok.mpr each]
    rfl

theorem lintFromConfig_ok {linted : List FileViolation} : lintFromConfig blocks = .ok linted ↔
    ∃ violations,Outcomes.Each (fun block : SqlBlock => lintQueryFiles block.1.toSetup block.2) blocks violations ∧
      linted = violations.flatten := by
  unfold lintFromConfig
  constructor
  · intro done
    obtain ⟨violations,each,last⟩ := Register.bind_ok done
    cases last
    exact ⟨violations,Outcomes.mapM_ok.mp each,rfl⟩
  · rintro ⟨violations,each,rfl⟩
    rw [Outcomes.mapM_ok.mpr each]
    rfl

theorem findings_error {findings : List Finding} (done : runCheck configPath blocks = .ok findings) :
    (∃ f ∈ findings,f.severity = .error) ↔ ∃ block ∈ blocks,CheckFails block.1 block.2 := by
  obtain ⟨violations,each,rfl⟩ := runCheck_ok.mp done
  have found : (∃ f ∈ (violations.flatten.filter fun v => v.severity ≠ .off).map (checkFinding configPath blocks),
      f.severity = .error) ↔ ∃ v ∈ violations.flatten,v.severity = Severity.error := by
    constructor
    · rintro ⟨f,member,severe⟩
      obtain ⟨v,kept,rfl⟩ := List.mem_map.mp member
      exact ⟨v,(List.mem_filter.mp kept).1,severe⟩
    · rintro ⟨v,member,severe⟩
      refine ⟨_,List.mem_map_of_mem (List.mem_filter.mpr ⟨member,?_⟩),severe⟩
      simp [severe]
  rw [found,Outcomes.each_any each fun _ _ done => check_error done]

theorem linted_error {linted : List FileViolation} (done : lintFromConfig blocks = .ok linted) :
    (∃ v ∈ linted,v.severity = .error) ↔ ∃ block ∈ blocks,LintFails block.1 block.2 := by
  obtain ⟨violations,each,rfl⟩ := lintFromConfig_ok.mp done
  exact Outcomes.each_any each fun _ _ done => lint_error done

theorem exit_clean {findings : List Finding} :
    checkExitCode findings false = none ↔ ¬∃ f ∈ findings,f.severity = .error := by
  unfold checkExitCode
  rw [Bool.not_false,Bool.and_true]
  split
  · rename_i some'
    simpa [List.countP_pos_iff] using some'
  · rename_i none'
    simpa [List.countP_pos_iff] using none'

theorem lint_clean {linted : List FileViolation} : exitCode linted false = 0 ↔ ¬∃ v ∈ linted,v.severity = .error := by
  unfold exitCode
  rw [Bool.not_false,Bool.and_true]
  split
  · rename_i some'
    simpa using some'
  · rename_i none'
    simpa using none'

theorem checkQueryFiles_refused : (∃ message,checkQueryFiles setup files = .error message) ↔
    ∃ queryFile ∈ files,hasUnannotatedSql queryFile.2 := by
  constructor
  · rintro ⟨message,failed⟩
    by_contra none
    have all : ∀ queryFile ∈ files,hasUnannotatedSql queryFile.2 = false := fun queryFile given =>
      Bool.not_eq_true _ ▸ fun unannotated => none ⟨queryFile,given,unannotated⟩
    cases failed.symm.trans (checked_iff.mpr ⟨all,rfl⟩)
  · rintro ⟨queryFile,given,unannotated⟩
    cases done : checkQueryFiles setup files with
    | error message => exact ⟨message,rfl⟩
    | ok violations =>
      rw [(checked_iff.mp done).1 queryFile given] at unannotated
      cases unannotated

theorem runCheck_refused : (∃ message,runCheck configPath blocks = .error message) ↔
    ∃ block ∈ blocks,∃ queryFile ∈ block.2,hasUnannotatedSql queryFile.2 := by
  constructor
  · rintro ⟨message,failed⟩
    unfold runCheck at failed
    cases each : blocks.mapM fun block => checkQueryFiles block.1 block.2 with
    | ok violations => rw [each] at failed; cases failed
    | error e =>
      obtain ⟨before,block,after,rfl,-,refused⟩ := Outcomes.mapM_refused.mp each
      exact ⟨block,by simp,checkQueryFiles_refused.mp ⟨e,refused⟩⟩
  · rintro ⟨block,given,unannotated⟩
    obtain ⟨message,refused⟩ := (@checkQueryFiles_refused block.1 block.2).mpr unannotated
    cases done : runCheck configPath blocks with
    | error e => exact ⟨e,rfl⟩
    | ok findings =>
      obtain ⟨violations,each,-⟩ := runCheck_ok.mp done
      obtain ⟨some',here⟩ := Outcomes.each_total.mp ⟨violations,each⟩ block given
      cases refused.symm.trans here

-- A lint run that ends has read every file, so the check of the same files ends too.
theorem lint_ends {linted : List FileViolation} (done : lintFromConfig blocks = .ok linted) :
    ∃ findings,runCheck configPath blocks = .ok findings := by
  cases checked : runCheck configPath blocks with
  | ok findings => exact ⟨findings,rfl⟩
  | error message =>
    obtain ⟨block,given,queryFile,inside,unannotated⟩ := runCheck_refused.mp ⟨message,checked⟩
    obtain ⟨violations,each,-⟩ := lintFromConfig_ok.mp done
    obtain ⟨some',here⟩ := Outcomes.each_total.mp ⟨violations,each⟩ block given
    obtain ⟨read,all,-⟩ := Register.bind_ok here
    obtain ⟨one,readable⟩ := Outcomes.each_total.mp ⟨read,Outcomes.mapM_ok.mp all⟩ queryFile inside
    rw [(readQueryFile_ok.mp readable).1] at unannotated
    cases unannotated

theorem finding_shown {findings : List Finding} (done : runCheck configPath blocks = .ok findings) {block : SqlBlock}
    (given : block ∈ blocks) {v : QueryViolation} (on : v.severity ≠ .off)
    (said : ∀ violations,checkQueryFiles block.1 block.2 = .ok violations → v ∈ violations) :
    checkFinding configPath blocks v ∈ findings := by
  obtain ⟨violations,each,rfl⟩ := runCheck_ok.mp done
  obtain ⟨here,inside,checked⟩ := Register.mapM_image (Outcomes.mapM_ok.mpr each) given
  refine List.mem_map_of_mem (List.mem_filter.mpr ⟨List.mem_flatten.mpr ⟨here,inside,said here checked⟩,?_⟩)
  simpa using on

theorem block_accounted {findings : List Finding} (done : runCheck configPath blocks = .ok findings) {block : SqlBlock}
    (given : block ∈ blocks) {queryFile : String × List Char} (inside : queryFile ∈ block.2) {part : List Char}
    (among : part ∈ splitQueryFile queryFile.2) :
    (∃ p,readBlock block.1.toSetup queryFile.1 part = .inr p ∧ (p.analyzed,queryFile.1) ∈ analyzedQueries block.1 block.2) ∨
      ∃ v,checkBlock block.1 queryFile.1 part = ([v],none) ∧
        (v.severity = .off ∨ checkFinding configPath blocks v ∈ findings) := by
  have shown' {v : QueryViolation} (alone : checkBlock block.1 queryFile.1 part = ([v],none)) :
      v.severity = .off ∨ checkFinding configPath blocks v ∈ findings := by
    refine or_iff_not_imp_left.mpr fun on => finding_shown done given on fun violations checked => ?_
    obtain ⟨-,rfl⟩ := checked_iff.mp checked
    simp only [List.mem_append]
    refine .inl (.inl (.inl (.inr (List.mem_flatMap.mpr ⟨_,mem_blocks.mpr ⟨_,inside,_,among,rfl⟩,?_⟩))))
    simp [alone]
  rcases @analyzed_or block.1.toSetup queryFile.1 part with ⟨query,analyzed,parsed,done'⟩ | ⟨e,parsed,-⟩ |
    ⟨query,e,parsed,failed,-⟩
  · refine .inl ⟨⟨queryFile.1,query,analyzed,.parse part⟩,?_,?_⟩
    · unfold readBlock
      simp [parsed,done']
    · unfold analyzedQueries
      refine List.mem_filterMap.mpr ⟨(queryFile.1,part),mem_blocks.mpr ⟨_,inside,_,among,rfl⟩,?_⟩
      unfold checkBlock
      simp [parsed,done']
  · have alone : checkBlock block.1 queryFile.1 part = ([unparsed block.1 queryFile.1 e],none) := by
      unfold checkBlock
      rw [parsed]
    exact .inr ⟨_,alone,shown' alone⟩
  · have alone : checkBlock block.1 queryFile.1 part = ([unanalyzed block.1 queryFile.1 query.name e],none) := by
      unfold checkBlock
      simp [parsed,failed]
    exact .inr ⟨_,alone,shown' alone⟩

theorem finding_attributed {findings : List Finding} (done : runCheck configPath blocks = .ok findings) {found : Finding}
    (member : found ∈ findings) : ∃ name,found.queryName = some name ∧
      (LastWrite.Stands (nameFiles blocks) (name,found.file) ∨
        (∀ entry ∈ nameFiles blocks,entry.1 ≠ name) ∧ found.file = configPath) := by
  obtain ⟨violations,-,rfl⟩ := runCheck_ok.mp done
  obtain ⟨v,-,rfl⟩ := List.mem_map.mp member
  refine ⟨v.queryName,rfl,?_⟩
  dsimp only [checkFinding]
  unfold queryFileByName
  by_cases named : ∃ entry ∈ nameFiles blocks,entry.1 = v.queryName
  · obtain ⟨file,stands⟩ := LastWrite.written_stands named
    have looked := @LastWrite.lookup_standing _ _ _ ∅ _ _ stands
    dsimp only at looked
    rw [looked]
    exact .inl stands
  · have none : ∀ entry ∈ nameFiles blocks,entry.1 ≠ v.queryName := fun entry inside same => named ⟨entry,inside,same⟩
    rw [LastWrite.lookup_write_other none,AList.lookup_empty]
    exact .inr ⟨none,rfl⟩

theorem repeated_shown {findings : List Finding} (done : runCheck configPath blocks = .ok findings) {block : SqlBlock}
    (given : block ∈ blocks) {name : String}
    (again : 1 < ((analyzedQueries block.1 block.2).map (·.1.name)).count name) :
    checkFinding configPath blocks (repeatedName name) ∈ findings := by
  refine finding_shown done given (by nofun) fun violations checked => ?_
  obtain ⟨-,rfl⟩ := checked_iff.mp checked
  have told : name ∈ repeatedNames [] ((analyzedQueries block.1 block.2).map (·.1.name)) := by
    rw [← List.count_pos_iff,repeated_count]
    simp only [List.not_mem_nil,if_false]
    omega
  simp only [List.mem_append]
  refine .inl (.inr (List.mem_map_of_mem ?_))
  rw [List.map_map]
  exact told

-- The check of a project, and the linter over the same project.
structure ChecksProject (configPath : String) (blocks : List SqlBlock) : Prop where
  refused : (∃ message,runCheck configPath blocks = .error message) ↔
    ∃ block ∈ blocks,∃ queryFile ∈ block.2,hasUnannotatedSql queryFile.2
  ends : ∀ linted,lintFromConfig blocks = .ok linted → ∃ findings,runCheck configPath blocks = .ok findings
  passes : ∀ findings,runCheck configPath blocks = .ok findings →
    (checkExitCode findings false = none ↔ ∀ block ∈ blocks,¬CheckFails block.1 block.2)
  stricter : ∀ findings linted,runCheck configPath blocks = .ok findings → lintFromConfig blocks = .ok linted →
    checkExitCode findings false = none → exitCode linted false = 0
  differs : ∀ findings linted,runCheck configPath blocks = .ok findings → lintFromConfig blocks = .ok linted →
    exitCode linted false = 0 → (checkExitCode findings false ≠ none ↔ ∃ block ∈ blocks,
      (∃ v,Found block.1.toSetup block.2 v ∧ v.severity = .error ∧ isHidden (preparedQueries block.1.toSetup block.2) v) ∨
        ¬((preparedQueries block.1.toSetup block.2).map (·.analyzed.name)).Nodup ∨
          ∃ v ∈ besides block.1 block.2,v.severity = .error)
  accounted : ∀ findings,runCheck configPath blocks = .ok findings → ∀ block ∈ blocks,∀ queryFile ∈ block.2,
    ∀ part ∈ splitQueryFile queryFile.2,
      (∃ p,readBlock block.1.toSetup queryFile.1 part = .inr p ∧
        (p.analyzed,queryFile.1) ∈ analyzedQueries block.1 block.2) ∨
          ∃ v,checkBlock block.1 queryFile.1 part = ([v],none) ∧
            (v.severity = .off ∨ checkFinding configPath blocks v ∈ findings)
  repeats : ∀ findings,runCheck configPath blocks = .ok findings → ∀ block ∈ blocks,∀ name,
    (repeatedNames [] ((analyzedQueries block.1 block.2).map (·.1.name))).count name =
      ((analyzedQueries block.1 block.2).map (·.1.name)).count name - 1 ∧
        (1 < ((analyzedQueries block.1 block.2).map (·.1.name)).count name →
          checkFinding configPath blocks (repeatedName name) ∈ findings)
  attributed : ∀ findings,runCheck configPath blocks = .ok findings → ∀ found ∈ findings,
    ∃ name,found.queryName = some name ∧ (LastWrite.Stands (nameFiles blocks) (name,found.file) ∨
      (∀ entry ∈ nameFiles blocks,entry.1 ≠ name) ∧ found.file = configPath)

theorem project_checked (configPath : String) (blocks : List SqlBlock) : ChecksProject configPath blocks where
  refused := runCheck_refused
  ends _ done := lint_ends done
  passes findings done := by
    rw [exit_clean,findings_error done]
    simp only [not_exists,not_and]
  stricter findings linted checked done clean := by
    rw [exit_clean,findings_error checked] at clean
    rw [lint_clean,linted_error done]
    rintro ⟨block,given,fails⟩
    exact clean ⟨block,given,lint_fails fails⟩
  differs findings linted checked done passed := by
    rw [lint_clean,linted_error done] at passed
    rw [ne_eq,exit_clean,not_not,findings_error checked]
    refine exists_congr fun block => and_congr_right fun given => ?_
    exact check_fails fun fails => passed ⟨block,given,fails⟩
  accounted _ done _ given _ inside _ among := block_accounted done given inside among
  repeats findings done block given name := by
    refine ⟨?_,repeated_shown done given⟩
    rw [repeated_count]
    simp
  attributed _ done _ member := finding_attributed done member

end Runs

end

end Scythe.Linting
