import Scythe.GenerateRun
import Scythe.Suppression

-- An audit of schema and query files: the rules that apply to a dialect look at every
-- statement that can be read, and what no rule could look at makes the audit fail.
namespace Scythe.Auditing
open Text
open Linting (LintConfig LintContext LintRule ParseSeverities RuleCategory RuleRegistry parseRegistry)
open Suppression (NamedAt StatementParseFailure SuppressionSet parseStatementsLenient skips skips_iff
  startLine)
open Generation (SqlConfig validateSchemaSource)
open Verification (Severity)
open UnboundParams (Violation)

structure Finding where
  file : String
  queryName : Option String
  ruleId : String
  ruleName : Option String
  ruleDescription : Option String
  severity : Severity
  message : List Char
  line : Option Nat
  column : Option Nat
  cwe : List String
  source : Option String
  deriving DecidableEq,Repr

-- The parser of every dialect, the names of the dialects, and what rules are called.
structure Tools where
  parser : SqlDialect → Suppression.SqlParser Statement
  parseEngineDialect : String → Except String SqlDialect
  ruleName : LintRule → String
  ruleDescription : LintRule → String

-- The rules of a project, with its configuration of them.
structure Rules where
  registry : RuleRegistry
  lint : LintConfig

-- A block of the configuration, with what its files are read as.
structure Block where
  config : SqlConfig
  loadCatalog : SqlDialect → Except String (Catalog × List (String × List Char))
  queryFiles : Except String (List (String × Except String (List Char)))

def unparseableId : String := "SC-PARSE01"

def failureFinding (path : String) (severity : Severity) (failure : StatementParseFailure) : Finding where
  file := path
  queryName := none
  ruleId := unparseableId
  ruleName := some "unparseable statement"
  ruleDescription := some ("A statement could not be parsed and was skipped, so no security rule could examine it. " ++
    "This is reported as an error rather than only a stderr warning so a parser gap cannot " ++
      "silently disable auditing for part of a file.")
  severity := severity
  message := s!"failed to parse statement at line {failure.line}: ".toList ++ failure.message
  line := some failure.line
  column := none
  cwe := []
  source := some "audit"

def emptyAnalyzed : AnalyzedQuery := ⟨"",.exec,"",[],[],none,none,[],[],[],none,[],[]⟩

def auditedCategories : List RuleCategory := [.security,.migration,.antipattern]

def audited (rules : List (LintRule × Severity)) : List (LintRule × Severity) :=
  rules.filter fun active => active.1.category ∈ auditedCategories

def noRulesFinding (engineLabel : String) (skipped : Nat) : Finding where
  file := ""
  queryName := none
  ruleId := "SC-AUDIT00"
  ruleName := some "no-applicable-rules"
  ruleDescription := some ("scythe audit had no rule to run, so it examined nothing. Reported as an error rather " ++
    "than an empty (clean-looking) report so an audit that verified nothing cannot pass a CI gate.")
  severity := .error
  message := (s!"no audit rule applies to engine '{engineLabel}': {skipped} rule(s) are restricted to other dialects and " ++
    "the rest are configured off — audit examined 0 rules and cannot report on this project").toList
  line := none
  column := none
  cwe := []
  source := some "audit"

def skippedRules (rules : List (LintRule × Severity)) (dialect : SqlDialect) : List String :=
  ((audited rules).filter fun active => !active.1.isApplicableTo dialect).map (·.1.id)

def prepareAuditRules (rules : List (LintRule × Severity)) (dialect : SqlDialect) (engineLabel : String) :
    List (LintRule × Severity) × Option Finding :=
  let applicable := (audited rules).filter fun active => active.1.isApplicableTo dialect
  (applicable,if applicable.isEmpty then some (noRulesFinding engineLabel (skippedRules rules dialect).length) else none)

def engineLabel (config : SqlConfig) : String := if config.engine = "" then "postgres" else config.engine

def Rules.parseSeverity (rules : Rules) : Severity :=
  (ParseSeverities.fromRegistry (parseRegistry.applyConfig rules.lint)).unparseable

def Severity.rank : Severity → Nat
  | .off => 0
  | .warn => 1
  | .error => 2

section
variable (tools : Tools)

def ruleFinding (path : String) (active : LintRule × Severity) (v : Violation) (line : Nat) : Finding where
  file := path
  queryName := none
  ruleId := v.ruleId
  ruleName := some (tools.ruleName active.1)
  ruleDescription := some (tools.ruleDescription active.1)
  severity := active.2
  message := v.message
  line := some line
  column := none
  cwe := active.1.cwe
  source := some "audit"

-- What the rules of an audit are run with.
structure Scope where
  dialect : SqlDialect
  catalog : Catalog
  rules : List (LintRule × Severity)
  ignoreSuppressions : Bool
  parseSeverity : Severity

def Scope.context (scope : Scope) (sql : List Char) (stmt : Statement) : LintContext :=
  ⟨String.ofList sql,stmt,emptyAnalyzed,scope.catalog,.empty,scope.dialect⟩

def runSecurityRulesOverSql (scope : Scope) (file : String × List Char) : List Finding :=
  let suppressions := SuppressionSet.parse file.2
  let parsed := parseStatementsLenient (tools.parser scope.dialect) file.2
  parsed.2.map (failureFinding file.1 scope.parseSeverity) ++ parsed.1.zipIdx.flatMap fun entry =>
    scope.rules.flatMap fun active => (active.1.checkQuery (scope.context file.2 entry.1.statement)).filterMap fun v =>
      if skips suppressions scope.ignoreSuppressions v.ruleId.toList entry.2 then none
      else some (ruleFinding tools file.1 active v (startLine entry.1.leading))

def readAudited (message : String → String → String) (file : String × Except String (List Char)) :
    Except String (String × List Char) :=
  (file.2.mapError (message file.1)).map fun content => (file.1,content)

variable (rules : Rules) (ignoreSuppressions : Bool)

def Rules.scope (dialect : SqlDialect) (label : String) (catalog : Catalog) : Scope :=
  ⟨dialect,catalog,(prepareAuditRules rules.registry.activeRules dialect label).1,ignoreSuppressions,rules.parseSeverity⟩

def auditFiles (dialect : SqlDialect) (label : String) (catalog : Catalog) (files : List (String × List Char)) :
    List Finding :=
  (prepareAuditRules rules.registry.activeRules dialect label).2.toList ++
    files.flatMap (runSecurityRulesOverSql tools (rules.scope ignoreSuppressions dialect label catalog))

def auditBlock (block : Block) : Except String (List Finding) := do
  let label := engineLabel block.config
  let dialect ← (tools.parseEngineDialect label).mapError fun e => s!"[{block.config.name}] {e}"
  let (catalog,schema) ← block.loadCatalog dialect
  let queryFiles ← block.queryFiles
  let queries ← queryFiles.mapM (readAudited fun path e => s!"failed to read query file '{path}': {e}")
  pure (auditFiles tools rules ignoreSuppressions dialect label catalog (schema ++ queries))

def auditFromConfig (blocks : List Block) : Except String (List Finding) := do
  let _ ← blocks.mapM fun block => validateSchemaSource "audit" block.config
  let findings ← blocks.mapM (auditBlock tools rules ignoreSuppressions)
  pure findings.flatten

def auditExplicitFiles (engine : String) (files : List (String × Except String (List Char))) :
    Except String (List Finding) := do
  let dialect ← (tools.parseEngineDialect engine).mapError fun e => s!"audit: {e}"
  let contents ← files.mapM (readAudited fun path e => s!"failed to read '{path}': {e}")
  pure (auditFiles tools rules ignoreSuppressions dialect engine (Catalog.new dialect) contents)

end

structure Ended where
  reported : Option (List Finding)
  error : Option String
  exitCode : Nat

def retain (severity : Option Severity) (findings : List Finding) : List Finding :=
  match severity with
  | some floor => findings.filter fun f => Severity.rank floor ≤ Severity.rank f.severity
  | none => findings

-- The statements that were not read are counted before the findings are filtered.
def runAudit (severity : Option Severity) (exitZero : Bool) : Except String (List Finding) → Ended
  | .error e => ⟨none,some e,1⟩
  | .ok findings =>
    let failures := findings.countP fun f => f.ruleId = unparseableId
    let shown := retain severity findings
    if 0 < failures then
      ⟨some shown,some s!"audit could not parse {failures} statement(s); the audit is incomplete",1⟩
    else if 0 < shown.countP (fun f => f.severity = .error) && !exitZero then ⟨some shown,none,2⟩
    else ⟨some shown,none,0⟩

section Files
variable {tools : Tools} {scope : Scope} {file : String × List Char}

-- What the rules find in a statement, before any of it is suppressed.
def Found (tools : Tools) (scope : Scope) (file : String × List Char) (idx : Nat) (v : Violation) (f : Finding) : Prop :=
  ∃ stmt active,(parseStatementsLenient (tools.parser scope.dialect) file.2).1[idx]? = some stmt ∧
    active ∈ scope.rules ∧ v ∈ active.1.checkQuery (scope.context file.2 stmt.statement) ∧
      f = ruleFinding tools file.1 active v (startLine stmt.leading)

inductive Told (tools : Tools) (scope : Scope) (file : String × List Char) : Finding → Prop where
  | unparsed {failure : StatementParseFailure}
      (failed : failure ∈ (parseStatementsLenient (tools.parser scope.dialect) file.2).2) :
      Told tools scope file (failureFinding file.1 scope.parseSeverity failure)
  | found {idx : Nat} {v : Violation} {f : Finding} (found : Found tools scope file idx v f)
      (open' : scope.ignoreSuppressions = false → ¬NamedAt (splitChars '\n' file.2) v.ruleId.toList idx) :
      Told tools scope file f

theorem skips_scope {idx : Nat} {ruleId : List Char} :
    skips (SuppressionSet.parse file.2) scope.ignoreSuppressions ruleId idx = false ↔
      (scope.ignoreSuppressions = false → ¬NamedAt (splitChars '\n' file.2) ruleId idx) := by
  cases scope.ignoreSuppressions with
  | true => simp [skips]
  | false =>
    rw [← skips_iff,Bool.eq_false_iff]
    exact ⟨fun open' _ => open',fun open' => open' rfl⟩

theorem mem_run {f : Finding} : f ∈ runSecurityRulesOverSql tools scope file ↔ Told tools scope file f := by
  unfold runSecurityRulesOverSql
  rw [List.mem_append]
  constructor
  · rintro (failed | found)
    · obtain ⟨failure,member,rfl⟩ := List.mem_map.mp failed
      exact .unparsed member
    · obtain ⟨⟨stmt,idx⟩,entry,found⟩ := List.mem_flatMap.mp found
      obtain ⟨active,on,found⟩ := List.mem_flatMap.mp found
      obtain ⟨v,member,shown⟩ := List.mem_filterMap.mp found
      split at shown
      · cases shown
      · rename_i unskipped
        cases shown
        have at' := List.mem_zipIdx_iff_getElem?.mp entry
        exact .found ⟨stmt,active,at',on,member,rfl⟩ (skips_scope.mp (Bool.eq_false_iff.mpr unskipped))
  · rintro (member | @⟨idx,v,f,⟨stmt,active,at',on,member,rfl⟩,open'⟩)
    · exact .inl (List.mem_map_of_mem member)
    · have entry := (List.mem_zipIdx_iff_getElem? (x := (stmt,idx))).mpr at'
      refine .inr (List.mem_flatMap.mpr ⟨_,entry,List.mem_flatMap.mpr ⟨active,on,List.mem_filterMap.mpr ⟨v,member,?_⟩⟩⟩)
      rw [if_neg (Bool.eq_false_iff.mp (skips_scope.mpr open'))]

def Finding.place (f : Finding) : List Char × List Char × Option Nat := (f.ruleId.toList,f.message,f.line)

def placeOf (f : Suppression.Finding) : List Char × List Char × Option Nat := (f.ruleId,f.message,some f.line)

def Scope.checks (scope : Scope) (sql : List Char) : List (Statement → List Suppression.Violation) :=
  scope.rules.map fun active stmt =>
    (active.1.checkQuery (scope.context sql stmt)).map fun v => ⟨v.ruleId.toList,v.message⟩

theorem failure_place {path : String} {severity : Severity} {failure : StatementParseFailure} :
    (failureFinding path severity failure).place = placeOf (Suppression.failureFinding failure) := by
  unfold Finding.place placeOf failureFinding Suppression.failureFinding unparseableId
  dsimp only
  refine Prod.ext rfl (Prod.ext ?_ rfl)
  dsimp only
  rw [String.toList_append,String.toList_append]
  rfl

-- Without the names of the rules these are the findings of the statements alone.
theorem run_places : (runSecurityRulesOverSql tools scope file).map Finding.place =
    (Suppression.runSecurityRulesOverSql (tools.parser scope.dialect) (scope.checks file.2) scope.ignoreSuppressions
      file.2).map placeOf := by
  unfold runSecurityRulesOverSql Suppression.runSecurityRulesOverSql Scope.checks
  dsimp only
  rw [List.map_append,List.map_append,List.map_map,List.map_map,List.map_flatMap,List.map_flatMap]
  have failed : ∀ failure : StatementParseFailure,
      (Finding.place ∘ failureFinding file.1 scope.parseSeverity) failure =
        (placeOf ∘ Suppression.failureFinding) failure := fun _ => failure_place
  rw [funext failed]
  congr 1
  refine List.flatMap_congr fun entry _ => ?_
  rw [List.map_flatMap,List.flatMap_map,List.map_flatMap]
  refine List.flatMap_congr fun active _ => ?_
  rw [List.filterMap_map,List.map_filterMap,List.map_filterMap]
  refine List.filterMap_congr fun v _ => ?_
  dsimp only [Function.comp]
  split <;> rfl

end Files

section Audits
variable {tools : Tools} {rules : Rules} {ignoreSuppressions : Bool} {dialect : SqlDialect} {label : String}
  {catalog : Catalog} {files : List (String × List Char)}

theorem mem_audit {f : Finding} : f ∈ auditFiles tools rules ignoreSuppressions dialect label catalog files ↔
    ((rules.scope ignoreSuppressions dialect label catalog).rules = [] ∧
      f = noRulesFinding label (skippedRules rules.registry.activeRules dialect).length) ∨
        ∃ file ∈ files,Told tools (rules.scope ignoreSuppressions dialect label catalog) file f := by
  unfold auditFiles
  rw [List.mem_append,List.mem_flatMap]
  simp only [mem_run]
  refine or_congr_left ?_
  unfold Rules.scope prepareAuditRules
  dsimp only
  rw [Option.mem_toList]
  split
  · rename_i none'
    rw [List.isEmpty_iff] at none'
    simp [none',eq_comm]
  · rename_i some'
    rw [List.isEmpty_iff] at some'
    simp [some']

-- A finding that an audit can pass with. What was not read fails it even where errors are
-- let through.
def Passable (exitZero : Bool) (f : Finding) : Prop :=
  f.ruleId ≠ unparseableId ∧ (exitZero = false → f.severity ≠ .error)

-- Nothing in the files makes an audit fail: there are rules to run, every statement was
-- read, and no finding that counts is left.
structure CleanFiles (tools : Tools) (scope : Scope) (exitZero : Bool) (files : List (String × List Char)) : Prop where
  rules : exitZero = false → scope.rules ≠ []
  read : ∀ file ∈ files,(parseStatementsLenient (tools.parser scope.dialect) file.2).2 = []
  quiet : ∀ file ∈ files,∀ idx v f,Found tools scope file idx v f →
    (scope.ignoreSuppressions = false → ¬NamedAt (splitChars '\n' file.2) v.ruleId.toList idx) → Passable exitZero f

theorem audit_clean {exitZero : Bool} :
    (∀ f ∈ auditFiles tools rules ignoreSuppressions dialect label catalog files,Passable exitZero f) ↔
      CleanFiles tools (rules.scope ignoreSuppressions dialect label catalog) exitZero files := by
  constructor
  · intro quiet
    refine ⟨fun strict none' => ?_,fun file inside => ?_,fun file inside idx v f found open' => ?_⟩
    · exact (quiet _ (mem_audit.mpr (.inl ⟨none',rfl⟩))).2 strict rfl
    · refine List.eq_nil_iff_forall_not_mem.mpr fun failure failed => ?_
      exact (quiet _ (mem_audit.mpr (.inr ⟨file,inside,.unparsed failed⟩))).1 rfl
    · exact quiet f (mem_audit.mpr (.inr ⟨file,inside,.found found open'⟩))
  · intro clean f member
    rcases mem_audit.mp member with ⟨none',rfl⟩ | ⟨file,inside,told⟩
    · exact ⟨by simp [noRulesFinding,unparseableId],fun strict => absurd none' (clean.rules strict)⟩
    · cases told with
      | unparsed failed =>
        rw [clean.read file inside] at failed
        cases failed
      | found found open' => exact clean.quiet file inside _ _ f found open'

-- To heed suppressions only takes findings away, and only those that are suppressed.
theorem audit_heeded {f : Finding} (heeded : f ∈ auditFiles tools rules false dialect label catalog files) :
    f ∈ auditFiles tools rules true dialect label catalog files := by
  rcases mem_audit.mp heeded with none' | ⟨file,inside,told⟩
  · exact mem_audit.mpr (.inl none')
  · refine mem_audit.mpr (.inr ⟨file,inside,?_⟩)
    cases told with
    | unparsed failed => exact .unparsed failed
    | found found open' => exact .found found nofun

theorem audit_suppressed {f : Finding} (found : f ∈ auditFiles tools rules true dialect label catalog files)
    (gone : f ∉ auditFiles tools rules false dialect label catalog files) : ∃ file ∈ files,∃ idx v,
      Found tools (rules.scope false dialect label catalog) file idx v f ∧
        NamedAt (splitChars '\n' file.2) v.ruleId.toList idx := by
  rcases mem_audit.mp found with none' | ⟨file,inside,told⟩
  · exact (gone (mem_audit.mpr (.inl none'))).elim
  · cases told with
    | unparsed failed => exact (gone (mem_audit.mpr (.inr ⟨file,inside,.unparsed failed⟩))).elim
    | @found idx v f found open' =>
      refine ⟨file,inside,idx,v,found,?_⟩
      by_contra other
      exact gone (mem_audit.mpr (.inr ⟨file,inside,.found found fun _ => other⟩))

theorem readAudited_each {message : String → String → String} {given : List (String × Except String (List Char))}
    {read : List (String × List Char)} :
    given.mapM (readAudited message) = .ok read ↔ given = read.map fun file => (file.1,.ok file.2) := by
  rw [Outcomes.mapM_ok]
  unfold Outcomes.Each
  constructor
  · intro each
    induction each with
    | nil => rfl
    | @cons file content given read here _ ih =>
      obtain ⟨path,outcome⟩ := file
      rw [List.map_cons,← ih]
      cases outcome with
      | error e => cases here
      | ok text => cases here; rfl
  · rintro rfl
    rw [List.forall₂_map_left_iff,List.forall₂_same]
    exact fun _ _ => rfl

-- What the files of a block are read as.
structure Opened (tools : Tools) (block : Block) (dialect : SqlDialect) (catalog : Catalog)
    (files : List (String × List Char)) : Prop where
  known : tools.parseEngineDialect (engineLabel block.config) = .ok dialect
  read : ∃ schema queries,block.loadCatalog dialect = .ok (catalog,schema) ∧
    block.queryFiles = .ok (queries.map fun file => (file.1,.ok file.2)) ∧ files = schema ++ queries

theorem auditBlock_ok {block : Block} {findings : List Finding} :
    auditBlock tools rules ignoreSuppressions block = .ok findings ↔ ∃ dialect catalog files,
      Opened tools block dialect catalog files ∧
        findings = auditFiles tools rules ignoreSuppressions dialect (engineLabel block.config) catalog files := by
  unfold auditBlock
  constructor
  · intro done
    obtain ⟨dialect,known,done⟩ := Register.bind_ok done
    obtain ⟨⟨catalog,schema⟩,loaded,done⟩ := Register.bind_ok done
    obtain ⟨queryFiles,given,done⟩ := Register.bind_ok done
    obtain ⟨queries,read,done⟩ := Register.bind_ok done
    cases done
    rw [readAudited_each.mp read] at given
    exact ⟨dialect,catalog,_,⟨Outcomes.mapError_ok.mp known,schema,queries,loaded,given,rfl⟩,rfl⟩
  · rintro ⟨dialect,catalog,files,⟨known,schema,queries,loaded,given,rfl⟩,rfl⟩
    simp only [known,loaded,given,Except.mapError,Outcomes.ok_bind,readAudited_each.mpr rfl]
    rfl

theorem auditFromConfig_ok {blocks : List Block} {findings : List Finding} :
    auditFromConfig tools rules ignoreSuppressions blocks = .ok findings ↔
      (∀ block ∈ blocks,validateSchemaSource "audit" block.config = .ok ()) ∧ ∃ parts,
        Outcomes.Each (auditBlock tools rules ignoreSuppressions) blocks parts ∧ findings = parts.flatten := by
  unfold auditFromConfig
  constructor
  · intro done
    obtain ⟨valid,sources,done⟩ := Register.bind_ok done
    obtain ⟨parts,each,done⟩ := Register.bind_ok done
    cases done
    refine ⟨fun block given => ?_,parts,Outcomes.mapM_ok.mp each,rfl⟩
    obtain ⟨⟨⟩,is⟩ := Outcomes.each_total.mp ⟨valid,Outcomes.mapM_ok.mp sources⟩ block given
    exact is
  · rintro ⟨valid,parts,each,rfl⟩
    obtain ⟨units,sources⟩ := Outcomes.each_total.mpr fun block given => ⟨(),valid block given⟩
    rw [Outcomes.mapM_ok.mpr sources,Outcomes.mapM_ok.mpr each]
    rfl

theorem mem_block {block : Block} {findings : List Finding} {f : Finding}
    (audited : auditBlock tools rules ignoreSuppressions block = .ok findings) : f ∈ findings ↔
      ∃ dialect catalog files,Opened tools block dialect catalog files ∧
        f ∈ auditFiles tools rules ignoreSuppressions dialect (engineLabel block.config) catalog files := by
  constructor
  · intro member
    obtain ⟨dialect,catalog,files,opened,rfl⟩ := auditBlock_ok.mp audited
    exact ⟨dialect,catalog,files,opened,member⟩
  · rintro ⟨dialect,catalog,files,opened,member⟩
    rw [auditBlock_ok.mpr ⟨dialect,catalog,files,opened,rfl⟩] at audited
    cases audited
    exact member

theorem mem_project {blocks : List Block} {findings : List Finding} {f : Finding}
    (done : auditFromConfig tools rules ignoreSuppressions blocks = .ok findings) : f ∈ findings ↔
      ∃ block ∈ blocks,∃ dialect catalog files,Opened tools block dialect catalog files ∧
        f ∈ auditFiles tools rules ignoreSuppressions dialect (engineLabel block.config) catalog files := by
  obtain ⟨-,parts,each,rfl⟩ := auditFromConfig_ok.mp done
  have told := Outcomes.each_any (P := (· = f)) each fun block part audited => by
    rw [exists_eq_right]
    exact mem_block audited
  rwa [exists_eq_right] at told

-- A block that could be read and in whose files nothing makes an audit fail.
def CleanBlock (tools : Tools) (rules : Rules) (ignoreSuppressions exitZero : Bool) (block : Block) : Prop :=
  ∃ dialect catalog files,Opened tools block dialect catalog files ∧
    CleanFiles tools (rules.scope ignoreSuppressions dialect (engineLabel block.config) catalog) exitZero files

theorem block_clean {exitZero : Bool} {block : Block} : CleanBlock tools rules ignoreSuppressions exitZero block ↔
    ∃ findings,auditBlock tools rules ignoreSuppressions block = .ok findings ∧ ∀ f ∈ findings,Passable exitZero f := by
  constructor
  · rintro ⟨dialect,catalog,files,opened,clean⟩
    exact ⟨_,auditBlock_ok.mpr ⟨dialect,catalog,files,opened,rfl⟩,audit_clean.mpr clean⟩
  · rintro ⟨findings,audited,quiet⟩
    obtain ⟨dialect,catalog,files,opened,rfl⟩ := auditBlock_ok.mp audited
    exact ⟨dialect,catalog,files,opened,audit_clean.mp quiet⟩

theorem block_heeded {exitZero : Bool} {block : Block} (clean : CleanBlock tools rules true exitZero block) :
    CleanBlock tools rules false exitZero block := by
  obtain ⟨dialect,catalog,files,opened,clean⟩ := clean
  exact ⟨dialect,catalog,files,opened,audit_clean.mp fun f heeded => audit_clean.mpr clean f (audit_heeded heeded)⟩

theorem project_clean {exitZero : Bool} {blocks : List Block} :
    (∃ findings,auditFromConfig tools rules ignoreSuppressions blocks = .ok findings ∧
      ∀ f ∈ findings,Passable exitZero f) ↔
        ∀ block ∈ blocks,validateSchemaSource "audit" block.config = .ok () ∧
          CleanBlock tools rules ignoreSuppressions exitZero block := by
  constructor
  · rintro ⟨findings,done,quiet⟩ block inside
    obtain ⟨valid,parts,each,-⟩ := auditFromConfig_ok.mp done
    obtain ⟨part,audited⟩ := Outcomes.each_total.mp ⟨parts,each⟩ block inside
    refine ⟨valid block inside,block_clean.mpr ⟨part,audited,fun f member => quiet f ?_⟩⟩
    exact (mem_project done).mpr ⟨block,inside,(mem_block audited).mp member⟩
  · intro clean
    obtain ⟨parts,each⟩ := Outcomes.each_total.mpr fun block inside =>
      (block_clean.mp (clean block inside).2).imp fun _ audited => audited.1
    have done := auditFromConfig_ok.mpr ⟨fun block inside => (clean block inside).1,parts,each,rfl⟩
    refine ⟨parts.flatten,done,fun f member => ?_⟩
    obtain ⟨block,inside,within⟩ := (mem_project done).mp member
    obtain ⟨part,audited,quiet⟩ := block_clean.mp (clean block inside).2
    exact quiet f ((mem_block audited).mpr within)

theorem auditExplicitFiles_ok {engine : String} {given : List (String × Except String (List Char))}
    {findings : List Finding} : auditExplicitFiles tools rules ignoreSuppressions engine given = .ok findings ↔
      ∃ dialect contents,tools.parseEngineDialect engine = .ok dialect ∧
        given = contents.map (fun file => (file.1,.ok file.2)) ∧
          findings = auditFiles tools rules ignoreSuppressions dialect engine (Catalog.new dialect) contents := by
  unfold auditExplicitFiles
  constructor
  · intro done
    obtain ⟨dialect,known,done⟩ := Register.bind_ok done
    obtain ⟨contents,read,done⟩ := Register.bind_ok done
    cases done
    exact ⟨dialect,contents,Outcomes.mapError_ok.mp known,readAudited_each.mp read,rfl⟩
  · rintro ⟨dialect,contents,known,rfl,rfl⟩
    simp only [known,Except.mapError,Outcomes.ok_bind,readAudited_each.mpr rfl]
    rfl

end Audits

section Ending
variable {severity : Option Severity} {exitZero : Bool}

-- No floor hides an error, as none is above it.
theorem errors_retained (findings : List Finding) :
    (retain severity findings).countP (fun f => f.severity = .error) = findings.countP fun f => f.severity = .error := by
  cases severity with
  | none => rfl
  | some floor =>
    unfold retain
    rw [List.countP_filter]
    refine List.countP_congr fun f _ => ?_
    have top : Severity.rank floor ≤ Severity.rank .error := by cases floor <;> decide
    rw [Bool.and_eq_true,decide_eq_true_iff,decide_eq_true_iff]
    exact ⟨And.left,fun error => ⟨error,error ▸ top⟩⟩

theorem runAudit_passes {outcome : Except String (List Finding)} :
    (runAudit severity exitZero outcome).exitCode = 0 ↔
      ∃ findings,outcome = .ok findings ∧ ∀ f ∈ findings,Passable exitZero f := by
  cases outcome with
  | error e => simp [runAudit]
  | ok findings =>
    have unread : 0 < findings.countP (fun f => f.ruleId = unparseableId) ↔ ∃ f ∈ findings,f.ruleId = unparseableId := by
      simp only [List.countP_pos_iff,decide_eq_true_iff]
    have errors : 0 < findings.countP (fun f => f.severity = .error) ↔ ∃ f ∈ findings,f.severity = .error := by
      simp only [List.countP_pos_iff,decide_eq_true_iff]
    unfold runAudit
    dsimp only
    rw [errors_retained]
    constructor
    · intro passed
      refine ⟨findings,rfl,fun f member => ⟨fun failed => ?_,fun strict error => ?_⟩⟩
      · rw [if_pos (unread.mpr ⟨f,member,failed⟩)] at passed
        cases passed
      · have counted := errors.mpr ⟨f,member,error⟩
        rw [strict,Bool.not_false,Bool.and_true,decide_eq_true counted,if_pos rfl] at passed
        split at passed <;> cases passed
    · rintro ⟨given,is,quiet⟩
      cases is
      have read : ¬0 < findings.countP (fun f => f.ruleId = unparseableId) := fun failed => by
        obtain ⟨f,member,failed⟩ := unread.mp failed
        exact (quiet f member).1 failed
      rw [if_neg read]
      split
      · rename_i failed
        rw [Bool.and_eq_true,decide_eq_true_iff,Bool.not_eq_true'] at failed
        obtain ⟨f,member,error⟩ := errors.mp failed.1
        exact absurd error ((quiet f member).2 failed.2)
      · rfl

end Ending

section Audited
variable (tools : Tools) (rules : Rules)

-- An audit of a project or of given files: when it passes, what it tells of, and what
-- heeding suppressions changes. No floor of severities makes one pass or fail.
structure Audited : Prop where
  places : ∀ scope file,(runSecurityRulesOverSql tools scope file).map Finding.place =
    (Suppression.runSecurityRulesOverSql (tools.parser scope.dialect) (scope.checks file.2) scope.ignoreSuppressions
      file.2).map placeOf
  project : ∀ ignored severity exitZero blocks,
    (runAudit severity exitZero (auditFromConfig tools rules ignored blocks)).exitCode = 0 ↔
      ∀ block ∈ blocks,validateSchemaSource "audit" block.config = .ok () ∧ CleanBlock tools rules ignored exitZero block
  explicit : ∀ ignored severity exitZero engine given,
    (runAudit severity exitZero (auditExplicitFiles tools rules ignored engine given)).exitCode = 0 ↔
      ∃ dialect contents,tools.parseEngineDialect engine = .ok dialect ∧
        given = contents.map (fun file => (file.1,.ok file.2)) ∧
          CleanFiles tools (rules.scope ignored dialect engine (Catalog.new dialect)) exitZero contents
  told : ∀ ignored blocks findings,auditFromConfig tools rules ignored blocks = .ok findings → ∀ f,f ∈ findings ↔
    ∃ block ∈ blocks,∃ dialect catalog files,Opened tools block dialect catalog files ∧
      (((rules.scope ignored dialect (engineLabel block.config) catalog).rules = [] ∧
        f = noRulesFinding (engineLabel block.config) (skippedRules rules.registry.activeRules dialect).length) ∨
          ∃ file ∈ files,Told tools (rules.scope ignored dialect (engineLabel block.config) catalog) file f)
  heeded : ∀ severity floor exitZero blocks,
    (runAudit severity exitZero (auditFromConfig tools rules true blocks)).exitCode = 0 →
      (runAudit floor exitZero (auditFromConfig tools rules false blocks)).exitCode = 0
  removed : ∀ blocks all kept,auditFromConfig tools rules true blocks = .ok all →
    auditFromConfig tools rules false blocks = .ok kept → (∀ f ∈ kept,f ∈ all) ∧ ∀ f ∈ all,f ∉ kept →
      ∃ block ∈ blocks,∃ dialect catalog files,Opened tools block dialect catalog files ∧ ∃ file ∈ files,∃ idx v,
        Found tools (rules.scope false dialect (engineLabel block.config) catalog) file idx v f ∧
          NamedAt (splitChars '\n' file.2) v.ruleId.toList idx

end Audited

end Scythe.Auditing
