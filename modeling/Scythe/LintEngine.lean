import Scythe.Lib.LastWrite
import Scythe.UnboundParams
import Scythe.Verification
import Scythe.TypeClosure

-- The rules of a linter with the severities that configurations give them, and the
-- report of a run over a set of queries.
namespace Scythe.Linting
open Verification (Severity QueryViolation)
open UnboundParams (Violation)

inductive RuleCategory where
  | naming
  | safety
  | style
  | performance
  | antipattern
  | codegen
  | security
  | migration
  | provenance
  | drift
  | parse
  deriving DecidableEq,Repr

structure LintContext where
  sql : String
  stmt : Statement
  analyzed : AnalyzedQuery
  catalog : Catalog
  annotations : Annotations
  dialect : SqlDialect

-- A rule, by what the engine asks it.
structure LintRule where
  id : String
  category : RuleCategory
  defaultSeverity : Severity
  cwe : List String
  isApplicableTo : SqlDialect → Bool
  checkQuery : LintContext → List Violation
  checkCatalog : Catalog → List Violation

structure LintConfig where
  categories : AList fun _ : RuleCategory => Severity
  rules : AHashMap Severity

structure RuleRegistry where
  rules : List LintRule
  severityOverrides : AHashMap Severity
  categoryOverrides : AList fun _ : RuleCategory => Severity

def pairs {κ : Type} (map : AList fun _ : κ => Severity) : List (κ × Severity) :=
  map.entries.map fun entry => (entry.1,entry.2)

namespace RuleRegistry

def new : RuleRegistry := ⟨[],∅,∅⟩

def register (reg : RuleRegistry) (rule : LintRule) : RuleRegistry := { reg with rules := reg.rules ++ [rule] }

def applyConfig (reg : RuleRegistry) (config : LintConfig) : RuleRegistry :=
  { reg with
    categoryOverrides := LastWrite.write reg.categoryOverrides (pairs config.categories)
    severityOverrides := LastWrite.write reg.severityOverrides (pairs config.rules) }

def effectiveSeverity (reg : RuleRegistry) (rule : LintRule) : Severity :=
  match reg.severityOverrides.lookup rule.id with
  | some severity => severity
  | none =>
    match reg.categoryOverrides.lookup rule.category with
    | some severity => severity
    | none => rule.defaultSeverity

def activeRules (reg : RuleRegistry) : List (LintRule × Severity) :=
  reg.rules.filterMap fun rule =>
    let severity := reg.effectiveSeverity rule
    if severity = .off then none else some (rule,severity)

def rulesInapplicableTo (reg : RuleRegistry) (dialect : SqlDialect) : List String :=
  (reg.activeRules.filter fun active => !active.1.isApplicableTo dialect).map (·.1.id)

def allRules (reg : RuleRegistry) : List (LintRule × Severity) := reg.rules.map fun rule => (rule,reg.effectiveSeverity rule)

end RuleRegistry

structure LintReport where
  violations : List QueryViolation
  queriesChecked : Nat
  rulesActive : Nat

def LintReport.hasErrors (report : LintReport) : Bool := report.violations.any fun v => v.severity = .error
def LintReport.hasWarnings (report : LintReport) : Bool := report.violations.any fun v => v.severity = .warn

-- Names with how often they were seen, in the order of their first time.
structure Seen where
  counts : AHashMap Nat
  firstSeen : List String

def Seen.name (seen : Seen) (name : String) : Seen :=
  let count := (seen.counts.lookup name).getD 0 + 1
  ⟨seen.counts.insert name count,if count = 1 then seen.firstSeen ++ [name] else seen.firstSeen⟩

def duplicateQueryNames : String := "SC-C03"

def duplicateFinding (severity : Severity) (name : String) (count : Nat) : QueryViolation where
  queryName := name.toList
  ruleId := duplicateQueryNames
  severity := severity
  message := s!"duplicate query name: \"{name}\" ({count} occurrences)".toList

def finding (queryName : String) (severity : Severity) (v : Violation) : QueryViolation where
  queryName := queryName.toList
  ruleId := v.ruleId
  severity := severity
  message := v.message

section
variable (registry : RuleRegistry)

def checkQuery (ctx : LintContext) : List (Violation × Severity) :=
  registry.activeRules.flatMap fun active => (active.1.checkQuery ctx).map fun v => (v,active.2)

def checkCatalog (catalog : Catalog) : List (Violation × Severity) :=
  registry.activeRules.flatMap fun active => (active.1.checkCatalog catalog).map fun v => (v,active.2)

def checkDuplicateQueryNames (names : List String) : List QueryViolation :=
  match registry.activeRules.find? fun active => active.1.id = duplicateQueryNames with
  | none => []
  | some active =>
    let seen := names.foldl Seen.name ⟨∅,[]⟩
    seen.firstSeen.filterMap fun name =>
      let count := (seen.counts.lookup name).getD 0
      if 1 < count then some (duplicateFinding active.2 name count) else none

def buildReport (queries : List LintContext) (catalog : Catalog) : LintReport where
  violations :=
    (queries.flatMap fun ctx => registry.activeRules.flatMap fun active =>
      (active.1.checkQuery ctx).map (finding ctx.analyzed.name active.2)) ++
    checkDuplicateQueryNames registry (queries.map (·.analyzed.name)) ++
    registry.activeRules.flatMap fun active => (active.1.checkCatalog catalog).map (finding "" active.2)
  queriesChecked := queries.length
  rulesActive := registry.activeRules.length

end

section Severities

-- What is done to a registry: rules come to it and configurations are applied, in any order.
inductive Command where
  | register (rule : LintRule)
  | configure (config : LintConfig)

def Command.apply (reg : RuleRegistry) : Command → RuleRegistry
  | .register rule => reg.register rule
  | .configure config => reg.applyConfig config

def runCommands (commands : List Command) (reg : RuleRegistry) : RuleRegistry := commands.foldl Command.apply reg

def registered (commands : List Command) : List LintRule :=
  commands.filterMap fun | .register rule => some rule | .configure _ => none

def configured (commands : List Command) : List LintConfig :=
  commands.filterMap fun | .register _ => none | .configure config => some config

-- What the last map that has the key gives it.
def lastGiven {κ : Type} [DecidableEq κ] (key : κ) (maps : List (AList fun _ : κ => Severity)) : Option Severity :=
  maps.reverse.findSome? fun map => map.lookup key

-- The severity of a rule under configurations that come one after another.
def decided (configs : List LintConfig) (rule : LintRule) : Severity :=
  match lastGiven rule.id (configs.map (·.rules)) with
  | some severity => severity
  | none => (lastGiven rule.category (configs.map (·.categories))).getD rule.defaultSeverity

theorem lookup_write_map {κ : Type} [DecidableEq κ] (map given : AList fun _ : κ => Severity) (key : κ) :
    (LastWrite.write map (pairs given)).lookup key = (given.lookup key).or (map.lookup key) := by
  cases found : given.lookup key with
  | none =>
    refine LastWrite.lookup_write_other fun entry member same => ?_
    obtain ⟨⟨other,severity⟩,inside,rfl⟩ := List.mem_map.mp member
    cases same
    rw [AList.mem_lookup_iff.mpr inside] at found
    cases found
  | some severity =>
    have inside : (⟨key,severity⟩ : Σ _ : κ, Severity) ∈ given.entries := AList.mem_lookup_iff.mp found
    have written : ∃ entry ∈ pairs given,entry.1 = key := ⟨(key,severity),List.mem_map.mpr ⟨_,inside,rfl⟩,rfl⟩
    obtain ⟨value,stands⟩ := LastWrite.written_stands written
    obtain ⟨⟨other,also⟩,within,is⟩ := List.mem_map.mp (LastWrite.stands_mem stands)
    have same : given.lookup key = some value := by
      cases is
      exact AList.mem_lookup_iff.mpr within
    rw [found] at same
    cases same
    exact LastWrite.lookup_standing stands

theorem lookup_write_maps {κ : Type} [DecidableEq κ] (map : AList fun _ : κ => Severity)
    (maps : List (AList fun _ : κ => Severity)) (key : κ) :
    (LastWrite.write map (maps.flatMap pairs)).lookup key = (lastGiven key maps).or (map.lookup key) := by
  induction maps generalizing map with
  | nil => rfl
  | cons given maps ih =>
    rw [List.flatMap_cons,LastWrite.write_append,ih,lookup_write_map]
    unfold lastGiven
    rw [List.reverse_cons,List.findSome?_append,List.findSome?_singleton,Option.or_assoc]

theorem run_state (commands : List Command) (reg : RuleRegistry) : runCommands commands reg =
    ⟨reg.rules ++ registered commands,
      LastWrite.write reg.severityOverrides (((configured commands).map (·.rules)).flatMap pairs),
      LastWrite.write reg.categoryOverrides (((configured commands).map (·.categories)).flatMap pairs)⟩ := by
  induction commands generalizing reg with
  | nil => simp [runCommands,registered,configured]
  | cons command commands ih =>
    change runCommands commands (command.apply reg) = _
    rw [ih]
    cases command with
    | register rule => simp [Command.apply,RuleRegistry.register,registered,configured]
    | configure config => simp [Command.apply,RuleRegistry.applyConfig,registered,configured]

theorem severity_decided (commands : List Command) (rule : LintRule) :
    (runCommands commands .new).effectiveSeverity rule = decided (configured commands) rule := by
  unfold RuleRegistry.effectiveSeverity decided
  rw [run_state]
  simp only [RuleRegistry.new,lookup_write_maps,AList.lookup_empty,Option.or_none]
  cases lastGiven rule.id ((configured commands).map (·.rules)) with
  | some severity => rfl
  | none => cases lastGiven rule.category ((configured commands).map (·.categories)) <;> rfl

theorem active_filter (reg : RuleRegistry) : reg.activeRules = reg.allRules.filter fun rule => rule.2 ≠ .off := by
  unfold RuleRegistry.activeRules RuleRegistry.allRules
  rw [List.filter_map,← List.filterMap_eq_map,← List.filterMap_eq_filter,List.filterMap_filterMap]
  refine List.filterMap_congr fun rule _ => ?_
  by_cases off : reg.effectiveSeverity rule = .off <;> simp [off,Option.guard]

-- Two configurations as one, where the second one has the last word.
def LintConfig.under (first second : LintConfig) : LintConfig :=
  ⟨second.categories ∪ first.categories,second.rules ∪ first.rules⟩

theorem lookup_under {κ : Type} [DecidableEq κ] (key : κ) (first second : AList fun _ : κ => Severity) :
    (second ∪ first).lookup key = (second.lookup key).or (first.lookup key) := by
  by_cases own : key ∈ second
  · obtain ⟨severity,is⟩ := Option.isSome_iff_exists.mp (AList.lookup_isSome.mpr own)
    rw [AList.lookup_union_left own,is]
    rfl
  · rw [AList.lookup_union_right own,AList.lookup_eq_none.mpr own]
    rfl

-- How severities come about, whatever is done to a registry and in whatever order.
structure Governs : Prop where
  severity : ∀ commands rule,(runCommands commands .new).effectiveSeverity rule = decided (configured commands) rule
  all : ∀ commands,(runCommands commands .new).allRules =
    (registered commands).map fun rule => (rule,decided (configured commands) rule)
  active : ∀ commands,(runCommands commands .new).activeRules =
    ((registered commands).map fun rule => (rule,decided (configured commands) rule)).filter fun rule => rule.2 ≠ .off
  interleaved : ∀ commands others,registered commands = registered others → configured commands = configured others →
    runCommands commands .new = runCommands others .new
  merged : ∀ before first second after rule,
    decided (before ++ first :: second :: after) rule = decided (before ++ first.under second :: after) rule

theorem all_decided (commands : List Command) : (runCommands commands .new).allRules =
    (registered commands).map fun rule => (rule,decided (configured commands) rule) := by
  unfold RuleRegistry.allRules
  simp only [severity_decided]
  rw [run_state]
  rfl

theorem severities_governed : Governs where
  severity := severity_decided
  all := all_decided
  active commands := by rw [active_filter,all_decided]
  interleaved commands others rules configs := by rw [run_state,run_state,rules,configs]
  merged before first second after rule := by
    unfold decided lastGiven LintConfig.under
    simp only [List.map_append,List.map_cons,List.reverse_append,List.reverse_cons,List.append_assoc,List.findSome?_append,
      List.findSome?_singleton,lookup_under,Option.or_assoc]

end Severities

section Reports

-- The counts are those of the names, and each name is there once.
structure Counted (names : List String) (seen : Seen) : Prop where
  counts : ∀ name,(seen.counts.lookup name).getD 0 = names.count name
  nodup : seen.firstSeen.Nodup
  members : ∀ name,name ∈ seen.firstSeen ↔ name ∈ names

theorem counted_name {names : List String} {seen : Seen} (counted : Counted names seen) (name : String) :
    Counted (names ++ [name]) (seen.name name) := by
  refine ⟨fun other => ?_,?_,fun other => ?_⟩
  · unfold Seen.name
    by_cases same : other = name
    · rw [same,AList.lookup_insert,counted.counts name]
      simp
    · rw [AList.lookup_insert_ne same,counted.counts other]
      simp [Ne.symm same]
  · unfold Seen.name
    dsimp only
    rw [counted.counts name]
    split
    · rename_i first
      have absent : name ∉ seen.firstSeen := by
        rw [counted.members,← List.count_eq_zero]
        exact Nat.add_right_cancel first
      refine List.nodup_append.mpr ⟨counted.nodup,List.nodup_singleton _,fun a member b last same => ?_⟩
      rw [List.mem_singleton.mp last] at same
      exact absent (same ▸ member)
    · exact counted.nodup
  · unfold Seen.name
    dsimp only
    rw [counted.counts name,List.mem_append,List.mem_singleton]
    split
    · rw [List.mem_append,List.mem_singleton,counted.members]
    · rename_i again
      have held : name ∈ names := List.count_pos_iff.mp (by omega)
      rw [counted.members]
      constructor
      · exact .inl
      · rintro (old | rfl)
        · exact old
        · exact held

theorem counted_names (names : List String) : Counted names (names.foldl Seen.name ⟨∅,[]⟩) := by
  induction names using List.reverseRecOn with
  | nil => exact ⟨fun _ => rfl,.nil,fun _ => Iff.rfl⟩
  | append_singleton names name ih =>
    rw [List.foldl_append]
    exact counted_name ih name

variable {registry : RuleRegistry}

-- A name that several queries have is told of once, with how many have it.
theorem mem_duplicates {names : List String} {v : QueryViolation} : v ∈ checkDuplicateQueryNames registry names ↔
    ∃ active name,registry.activeRules.find? (fun active => active.1.id = duplicateQueryNames) = some active ∧
      1 < names.count name ∧ v = duplicateFinding active.2 name (names.count name) := by
  unfold checkDuplicateQueryNames
  cases registry.activeRules.find? fun active => active.1.id = duplicateQueryNames with
  | none => simp
  | some active =>
    have counted := counted_names names
    simp only [List.mem_filterMap,counted.counts,counted.members,Option.some.injEq]
    constructor
    · rintro ⟨name,-,told⟩
      split at told
      · rename_i several
        cases told
        exact ⟨active,name,rfl,several,rfl⟩
      · cases told
    · rintro ⟨_,name,rfl,several,rfl⟩
      exact ⟨name,List.count_pos_iff.mp (by omega),if_pos several⟩

theorem duplicates_nodup (names : List String) : (checkDuplicateQueryNames registry names).Nodup := by
  unfold checkDuplicateQueryNames
  split
  · exact .nil
  · refine (counted_names names).nodup.filterMap fun a b v first second => ?_
    simp only [Option.mem_def,Option.ite_none_right_eq_some,Option.some.injEq] at first second
    obtain ⟨-,rfl⟩ := first
    obtain ⟨-,is⟩ := second
    exact String.toList_inj.mp (congrArg QueryViolation.queryName is).symm

theorem duplicates_perm {names others : List String} (perm : names.Perm others) :
    (checkDuplicateQueryNames registry names).Perm (checkDuplicateQueryNames registry others) := by
  rw [List.perm_ext_iff_of_nodup (duplicates_nodup names) (duplicates_nodup others)]
  intro v
  simp only [mem_duplicates,perm.count_eq]

theorem active_severity {active : LintRule × Severity} (member : active ∈ registry.activeRules) : active.2 ≠ .off := by
  rw [active_filter,List.mem_filter] at member
  simpa using member.2

-- Where a finding of a report is from.
inductive Told (registry : RuleRegistry) (queries : List LintContext) (catalog : Catalog) : QueryViolation → Prop where
  | query {ctx : LintContext} {active : LintRule × Severity} {v : Violation} (given : ctx ∈ queries)
      (on : active ∈ registry.activeRules) (found : v ∈ active.1.checkQuery ctx) :
      Told registry queries catalog (finding ctx.analyzed.name active.2 v)
  | duplicate {active : LintRule × Severity} {name : String}
      (on : registry.activeRules.find? (fun active => active.1.id = duplicateQueryNames) = some active)
      (several : 1 < (queries.map (·.analyzed.name)).count name) :
      Told registry queries catalog (duplicateFinding active.2 name ((queries.map (·.analyzed.name)).count name))
  | catalog {active : LintRule × Severity} {v : Violation} (on : active ∈ registry.activeRules)
      (found : v ∈ active.1.checkCatalog catalog) : Told registry queries catalog (finding "" active.2 v)

theorem mem_report {queries : List LintContext} {catalog : Catalog} {v : QueryViolation} :
    v ∈ (buildReport registry queries catalog).violations ↔ Told registry queries catalog v := by
  unfold buildReport
  simp only [List.mem_append,List.mem_flatMap,List.mem_map,mem_duplicates]
  constructor
  · rintro ((⟨ctx,given,active,on,f,found,rfl⟩ | ⟨active,name,on,several,rfl⟩) | ⟨active,on,f,found,rfl⟩)
    · exact .query given on found
    · exact .duplicate on several
    · exact .catalog on found
  · rintro (⟨given,on,found⟩ | ⟨on,several⟩ | ⟨on,found⟩)
    · exact .inl (.inl ⟨_,given,_,on,_,found,rfl⟩)
    · exact .inl (.inr ⟨_,_,on,several,rfl⟩)
    · exact .inr ⟨_,on,_,found,rfl⟩

theorem told_severity {queries : List LintContext} {catalog : Catalog} {v : QueryViolation}
    (told : Told registry queries catalog v) : v.severity ≠ .off := by
  cases told with
  | query _ on _ => exact active_severity on
  | duplicate on _ => exact active_severity (List.mem_of_find?_eq_some on)
  | catalog on _ => exact active_severity on

-- A configuration that switches one rule off.
def switchOff (id : String) : LintConfig := ⟨∅,(∅ : AHashMap Severity).insert id .off⟩

theorem switchOff_severity (id : String) (rule : LintRule) : (registry.applyConfig (switchOff id)).effectiveSeverity rule =
    if rule.id = id then .off else registry.effectiveSeverity rule := by
  unfold RuleRegistry.effectiveSeverity RuleRegistry.applyConfig
  dsimp only
  rw [lookup_write_map,lookup_write_map]
  unfold switchOff
  by_cases same : rule.id = id
  · rw [if_pos same,same,AList.lookup_insert]
    rfl
  · rw [if_neg same,AList.lookup_insert_ne same]
    rfl

theorem switchOff_active (id : String) :
    (registry.applyConfig (switchOff id)).activeRules = registry.activeRules.filter fun active => active.1.id ≠ id := by
  unfold RuleRegistry.activeRules
  rw [List.filter_filterMap]
  refine List.filterMap_congr fun rule _ => ?_
  dsimp only
  rw [switchOff_severity]
  by_cases same : rule.id = id
  · by_cases off : registry.effectiveSeverity rule = .off <;> simp [same,off,Option.filter]
  · by_cases off : registry.effectiveSeverity rule = .off <;> simp [same,off,Option.filter]

-- Every finding has the id of the rule that made it.
structure Named (registry : RuleRegistry) : Prop where
  query : ∀ rule ∈ registry.rules,∀ ctx,∀ v ∈ rule.checkQuery ctx,v.ruleId = rule.id
  catalog : ∀ rule ∈ registry.rules,∀ catalog,∀ v ∈ rule.checkCatalog catalog,v.ruleId = rule.id

theorem active_rule {active : LintRule × Severity} (member : active ∈ registry.activeRules) : active.1 ∈ registry.rules := by
  obtain ⟨rule,inside,is⟩ := List.mem_filterMap.mp member
  dsimp only at is
  split at is
  · cases is
  · cases is
    exact inside

-- A finding stays when another rule is switched off, and goes with its own.
theorem findings_off (id : String) (f : LintRule → List Violation) (name : String) {actives : List (LintRule × Severity)}
    (named : ∀ active ∈ actives,∀ v ∈ f active.1,v.ruleId = active.1.id) :
    ((actives.filter fun active => active.1.id ≠ id).flatMap fun active => (f active.1).map (finding name active.2)) =
      (actives.flatMap fun active => (f active.1).map (finding name active.2)).filter fun v => v.ruleId ≠ id := by
  induction actives with
  | nil => rfl
  | cons active actives ih =>
    have rest := ih fun other member => named other (List.mem_cons_of_mem _ member)
    have each : ∀ v ∈ (f active.1).map (finding name active.2),v.ruleId = active.1.id := by
      intro v inside
      obtain ⟨found,among,rfl⟩ := List.mem_map.mp inside
      exact named active List.mem_cons_self found among
    rw [List.flatMap_cons,List.filter_append,← rest]
    by_cases same : active.1.id = id
    · have gone : ((f active.1).map (finding name active.2)).filter (fun v => v.ruleId ≠ id) = [] := by
        rw [List.filter_eq_nil_iff]
        intro v inside
        simp [each v inside,same]
      rw [gone,List.filter_cons_of_neg (by simpa using same),List.nil_append]
    · have stays : ((f active.1).map (finding name active.2)).filter (fun v => v.ruleId ≠ id) =
          (f active.1).map (finding name active.2) := by
        rw [List.filter_eq_self]
        intro v inside
        simp [each v inside,same]
      rw [stays,List.filter_cons_of_pos (by simpa using same),List.flatMap_cons]

theorem duplicates_off (id : String) (names : List String) :
    checkDuplicateQueryNames (registry.applyConfig (switchOff id)) names =
      (checkDuplicateQueryNames registry names).filter fun v => v.ruleId ≠ id := by
  have ids : ∀ v ∈ checkDuplicateQueryNames registry names,v.ruleId = duplicateQueryNames := by
    intro v member
    obtain ⟨active,name,-,-,rfl⟩ := mem_duplicates.mp member
    rfl
  by_cases own : id = duplicateQueryNames
  · have none : checkDuplicateQueryNames (registry.applyConfig (switchOff id)) names = [] := by
      unfold checkDuplicateQueryNames
      rw [switchOff_active,List.find?_filter]
      have absent : registry.activeRules.find? (fun active =>
          decide (decide (active.1.id ≠ id) = true ∧ decide (active.1.id = duplicateQueryNames) = true)) = none := by
        rw [List.find?_eq_none]
        intro active _
        simp [own]
      rw [absent]
    rw [none,eq_comm,List.filter_eq_nil_iff]
    intro v member
    simp [ids v member,own]
  · have same : (registry.applyConfig (switchOff id)).activeRules.find? (fun active => active.1.id = duplicateQueryNames) =
        registry.activeRules.find? fun active => active.1.id = duplicateQueryNames := by
      rw [switchOff_active,List.find?_filter]
      congr 1
      funext active
      by_cases is : active.1.id = duplicateQueryNames
      · simp [is,Ne.symm own]
      · simp [is]
    have whole : (checkDuplicateQueryNames registry names).filter (fun v => v.ruleId ≠ id) =
        checkDuplicateQueryNames registry names := by
      rw [List.filter_eq_self]
      intro v member
      simp [ids v member,Ne.symm own]
    rw [whole]
    unfold checkDuplicateQueryNames
    rw [same]

-- What a report says, of every set of queries and in every order of them.
structure Reports (registry : RuleRegistry) : Prop where
  told : ∀ queries catalog v,v ∈ (buildReport registry queries catalog).violations ↔ Told registry queries catalog v
  once : ∀ names,(checkDuplicateQueryNames registry names).Nodup
  loud : ∀ queries catalog,∀ v ∈ (buildReport registry queries catalog).violations,v.severity ≠ .off
  verdict : ∀ queries catalog,((buildReport registry queries catalog).hasErrors = false ∧
    (buildReport registry queries catalog).hasWarnings = false) ↔ (buildReport registry queries catalog).violations = []
  reordered : ∀ queries others catalog,queries.Perm others →
    (buildReport registry queries catalog).violations.Perm (buildReport registry others catalog).violations
  off : Named registry → ∀ id queries catalog,(buildReport (registry.applyConfig (switchOff id)) queries catalog).violations =
    (buildReport registry queries catalog).violations.filter fun v => v.ruleId ≠ id

theorem report_told (registry : RuleRegistry) : Reports registry where
  told _ _ _ := mem_report
  once := duplicates_nodup
  loud _ _ _ member := told_severity (mem_report.mp member)
  verdict queries catalog := by
    unfold LintReport.hasErrors LintReport.hasWarnings
    rw [List.any_eq_false,List.any_eq_false,List.eq_nil_iff_forall_not_mem]
    constructor
    · rintro ⟨errors,warnings⟩ v member
      have loud := told_severity (mem_report.mp member)
      cases is : v.severity with
      | off => exact loud is
      | warn => exact warnings v member (by simp [is])
      | error => exact errors v member (by simp [is])
    · exact fun empty => ⟨fun v member => absurd member (empty v),fun v member => absurd member (empty v)⟩
  reordered queries others catalog perm :=
    ((perm.flatMap_right _).append (duplicates_perm (perm.map _))).append (List.Perm.refl _)
  off named id queries catalog := by
    have queried := fun ctx : LintContext => findings_off id (fun rule => rule.checkQuery ctx) ctx.analyzed.name
      fun active member => named.query _ (active_rule member) ctx
    have inspected := findings_off id (fun rule => rule.checkCatalog catalog) ""
      fun active member => named.catalog _ (active_rule member) catalog
    unfold buildReport
    dsimp only
    rw [List.filter_append,List.filter_append,List.filter_flatMap,duplicates_off,switchOff_active,inspected]
    congr 2
    exact List.flatMap_congr fun ctx _ => queried ctx

end Reports

end Scythe.Linting
