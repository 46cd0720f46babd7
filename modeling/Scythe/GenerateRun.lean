import Scythe.ColumnResolution
import Scythe.Lib.Stages
import Scythe.LintRun
import Scythe.ManifestOverlay
import Scythe.OptionsFingerprint
import Scythe.OutputPath

-- A run of the generator. In each block of the configuration every target is built
-- before the first of them is written, and a run that fails leaves what it has written.
namespace Scythe.Generation
open Text Identifiers TypeRendering
open Paths (PathSyntax)
open QueryFile (splitQueryFile hasUnannotatedSql)
open Verification (Artifact FilePreamble HeaderText ProvenanceHeader Stamp assembleFile assembleOutput
  parseProvenanceHeader provenanceHeaderLine)
open AssembledFile (CodegenBackend degradeColumns renderNestedStructs)
open ColumnResolution (DebugText resolving)
open Linting (LintQuery)

inductive TomlValue where
  | string (text : String)
  | integer (value : Int)
  | boolean (value : Bool)
  | other (text : String)

def tomlValueToString : TomlValue → String
  | .string text => text
  | .integer value => toString value
  | .boolean value => toString value
  | .other text => text

structure GenTarget where
  backend : String
  output : String
  manifest : Option String
  options : List (String × TomlValue)

structure LegacyRustGenConfig where
  target : String
  derives : Option (List String)
  serde : Option Bool

-- The other languages have nothing but a target.
structure LegacyGenConfig where
  rust : Option LegacyRustGenConfig
  python : Option String
  typescript : Option String
  go : Option String
  kotlin : Option String
  unsupported : List String

inductive GenTargets where
  | array (targets : List GenTarget)
  | legacy (config : LegacyGenConfig)

structure ResolvedGenTarget where
  backend : String
  output : String
  manifestOverride : Option String
  options : List (String × String)

inductive SchemaSource where
  | parse
  | execute
  deriving DecidableEq,Repr

structure SqlConfig where
  name : String
  engine : String
  schemaSource : SchemaSource
  output : Option String
  genConfig : Option GenTargets
  typeOverrides : List TypeOverride

def executableSchemaEngines : List String := ["sqlite","sqlite3","duckdb"]

def validateSchemaSource (command : String) (config : SqlConfig) : Except String Unit :=
  if config.schemaSource = .parse ∨ asciiLowercase config.engine ∈ executableSchemaEngines then .ok () else
  .error (s!"{command} [{config.name}] schema_source=execute is unsupported for engine `{config.engine}`; " ++
    "supported engines: " ++ join ", " executableSchemaEngines)

def legacyRustBackend : String → Option String
  | "sqlx" => some "rust-sqlx"
  | "tokio-postgres" => some "rust-tokio-postgres"
  | "tiberius" => some "rust-tiberius"
  | "sibyl" => some "rust-sibyl"
  | _ => none

def legacyRustTarget (output : String) (rust : LegacyRustGenConfig) : Except String ResolvedGenTarget :=
  match legacyRustBackend rust.target with
  | none => .error (s!"[sql.gen.rust] target '{rust.target}' is not a supported rust backend (expected one " ++
    "of: sqlx, tokio-postgres, tiberius, sibyl)")
  | some backend =>
    let serde := if rust.serde = some true then [("serde","true")] else []
    .ok ⟨backend,output,none,serde ++ (rust.derives.map fun derives => ("derive",join ", " derives)).toList⟩

def legacyTarget (language output target : String) : ResolvedGenTarget := ⟨s!"{language}-{target}",output,none,[]⟩

def resolveGenTargets (config : SqlConfig) : Except String (List ResolvedGenTarget) := do
  let defaultOutput := config.output.getD "generated"
  match config.genConfig with
  | some (.array targets) =>
    pure (targets.map fun t => ⟨t.backend,t.output,t.manifest,t.options.map fun o => (o.1,tomlValueToString o.2)⟩)
  | some (.legacy legacy) =>
    if legacy.unsupported ≠ [] then
      .error ("[sql.gen] has no backend for language(s): " ++ join ", " (Delimited.sortBy id legacy.unsupported) ++
        " (supported: rust, python, typescript, go, kotlin -- use the `[[sql.gen]]` array form with an explicit " ++
          "`backend` for anything else)")
    else
      let rust ← legacy.rust.toList.mapM (legacyRustTarget defaultOutput)
      let targets := rust ++ legacy.python.toList.map (legacyTarget "python" defaultOutput) ++
        legacy.typescript.toList.map (legacyTarget "typescript" defaultOutput) ++
        legacy.go.toList.map (legacyTarget "go" defaultOutput) ++
        legacy.kotlin.toList.map (legacyTarget "kotlin" defaultOutput)
      if targets.isEmpty then
        .error (s!"[[sql]] block \"{config.name}\": [sql.gen] is present but configures none of its supported " ++
          "languages (rust, python, typescript, go, kotlin) -- add e.g. `[sql.gen.rust]`, or remove the `gen` key " ++
            "entirely to fall back to the default rust-sqlx backend")
      else pure targets
  | none => pure [⟨"rust-sqlx",defaultOutput,none,[]⟩]

structure RbsQueryInfo where
  funcName : String
  structName : Option String
  columns : List ColumnResolution.ResolvedColumn
  childColumns : List ColumnResolution.ResolvedColumn
  params : List ColumnResolution.ResolvedParam
  command : QueryCommand

structure RbsEnumInfo where
  typeName : String
  values : List String

structure RbsGenerationContext where
  queries : List RbsQueryInfo
  enums : List RbsEnumInfo

-- A backend as it is built for an engine. An overlay changes its manifest, and options
-- the manifest and what it renders; the rest is the backend's own.
structure Backend where
  name : HeaderText
  outputExtension : String
  preamble : FilePreamble
  reserved : List String
  rbs : Option (BackendManifest → RbsGenerationContext → String)
  manifest : BackendManifest
  render : BackendManifest → CodegenBackend ColumnResolution.ResolvedColumn ColumnResolution.ResolvedParam

inductive RustFormatOutcome where
  | formatted (code : List Char)
  | toolMissing
  | failed (detail : String)

-- The formatter of another project. It leaves the comment that the header stands in.
structure Formatter where
  format : List Char → RustFormatOutcome
  keeps : ∀ code formatted,format code = .formatted formatted →
    parseProvenanceHeader formatted = parseProvenanceHeader code

-- What a run has from outside: the backends, the parser and the analyzer, the machine.
structure Tools where
  getBackend : String → String → Except String Backend
  applyOptions : Backend → List (String × String) →
    Except String (BackendManifest ×
      (BackendManifest → CodegenBackend ColumnResolution.ResolvedColumn ColumnResolution.ResolvedParam))
  parseOverlay : List Char → Except String Overlays.ManifestOverlay
  parseQueryWithDialect : List Char → SqlDialect → Except String LintQuery
  analyze : Catalog → LintQuery → Except String AnalyzedQuery
  schemaFingerprint : Catalog → HeaderText
  queriesFingerprint : List AnalyzedQuery → HeaderText
  version : HeaderText
  paths : PathSyntax
  baseDir : List Char
  absolute : List Char → List Char
  fileOf : List Char → List Char
  readToString : List Char → Except String (List Char)
  createDirAll : List Char → Except String Unit
  write : List Char → Except String Unit
  rustfmt : Formatter
  validateGeneratedCode : List Char → String → Bool

structure Block where
  config : SqlConfig
  dialect : SqlDialect
  loadCatalog : Except String Catalog
  queryFiles : Except String (List (String × Except String (List Char)))

structure Opts where
  allowOutputEscape : Bool
  validateOutput : Bool

structure Target where
  resolved : ResolvedGenTarget
  backend : Backend
  outputDir : List Char

structure Prepared where
  catalog : Catalog
  analyzed : List AnalyzedQuery
  targets : List Target

-- The files of the machine, with what this run has put on record of them.
structure Progress where
  files : List Char → Artifact
  written : List (List Char)
  validationFailed : Bool

def Progress.put (p : Progress) (file text : List Char) : Progress :=
  { p with files := Function.update p.files file (.content text) }

abbrev Run := ExceptT String (StateM Progress)

def told {α : Type} : Except String α → Run α
  | .ok a => pure a
  | .error e => throw e

theorem optionsTag_ordinary : ∀ c ∈ OptionsFingerprint.optionsFingerprintAlgorithmTag,Ordinary c := by
  unfold Ordinary OptionsFingerprint.optionsFingerprintAlgorithmTag
  simp
  decide

def optionsFingerprint (options : List (String × String)) (overlay : Option String) : HeaderText where
  text := OptionsFingerprint.optionsFingerprint options overlay
  plain := Verification.fingerprintText_plain optionsTag_ordinary _

section
variable [CaseMap] [DebugText] (tools : Tools) (opts : Opts)

def Backend.codegen (backend : Backend) : CodegenBackend ColumnResolution.ResolvedColumn ColumnResolution.ResolvedParam :=
  resolving backend.manifest backend.reserved (backend.render backend.manifest)

def Backend.generateRbsFile (backend : Backend) (context : RbsGenerationContext) : Option String :=
  backend.rbs.map fun rbs => rbs backend.manifest context

def outputFilename (backend : Backend) : List Char :=
  (if backend.outputExtension = "java" then "Queries.java" else s!"queries.{backend.outputExtension}").toList

def rbsFilename : List Char := "queries.rbs".toList

def backendEmitsRbs (backend : Backend) : Bool := (backend.generateRbsFile ⟨[],[]⟩).isSome

def applyManifestOverride (backend : Backend) (backendName manifestPath : String) : Except String Backend := do
  let resolved := tools.paths.join tools.baseDir manifestPath.toList
  let displayPath := String.ofList (tools.absolute resolved)
  let content ← (tools.readToString resolved).mapError fun e =>
    s!"backend '{backendName}': failed to read manifest override '{displayPath}': {e}\n  " ++
      "note: `manifest` in [[sql.gen]] resolves relative to the directory containing " ++
        "scythe.toml,\n        not the current working directory"
  let overlay ← (tools.parseOverlay content).mapError fun e =>
    s!"backend '{backendName}': invalid manifest override '{displayPath}': {e}\n  " ++
      "note: the file is a *partial* manifest -- it may contain [types.scalars], " ++
        "[types.containers],\n        [types.docblock_containers], [naming], and [imports.rules] only"
  match Overlays.applyOverlay backend.manifest overlay with
  | (manifest,.ok ()) => pure { backend with manifest := manifest }
  | (_,.error e) =>
    .error s!"backend '{backendName}': invalid manifest override '{displayPath}': {ColumnResolution.display e}"

def withManifest (backend : Backend) (target : ResolvedGenTarget) : Except String Backend :=
  match target.manifestOverride with
  | some manifestPath => applyManifestOverride tools backend target.backend manifestPath
  | none => .ok backend

def withOptions (backend : Backend) (target : ResolvedGenTarget) : Except String Backend :=
  if target.options = [] then .ok backend else
  (tools.applyOptions backend target.options).map fun changed =>
    { backend with manifest := changed.1,render := changed.2 }

def resolveTarget (config : SqlConfig) (target : ResolvedGenTarget) : Except String Target := do
  let backend ← (tools.getBackend target.backend config.engine).mapError fun e =>
    s!"backend '{target.backend}' with engine '{config.engine}': {e}"
  let backend ← withManifest tools backend target
  let backend ← (withOptions tools backend target).mapError fun e => s!"backend '{target.backend}' apply_options failed: {e}"
  let outputDir ← OutputPath.resolveContainedOutput tools.paths tools.baseDir target.output.toList target.backend
    opts.allowOutputEscape
  pure ⟨target,backend,outputDir⟩

def Target.path (target : Target) : List Char := tools.paths.join target.outputDir (outputFilename target.backend)

-- No two targets of a block may have one path.
def checkOutputPaths (config : SqlConfig) (seen : List (List Char × String)) : List Target → Except String Unit
  | [] => .ok ()
  | target :: targets =>
    let fullPath := target.path tools
    match seen.lookup fullPath with
    | some existing =>
      .error (s!"[{config.name}] targets '{existing}' and '{target.resolved.backend}' both write " ++
        s!"'{String.ofList fullPath}'; give one of them a distinct `output` directory so neither silently overwrites " ++
          "the other's generated code")
    | none => checkOutputPaths config ((fullPath,target.resolved.backend) :: seen) targets

def readQueryFile (config : SqlConfig) (file : String × Except String (List Char)) : Except String (List (List Char)) := do
  let content ← file.2.mapError fun e => s!"failed to read query file '{file.1}': {e}"
  if hasUnannotatedSql content then
    .error (s!"[{config.name}] query file '{file.1}' has SQL content with no `-- name:` / `-- @name` annotation above " ++
      "it; that content is silently dropped, not generated. Add an annotation above every statement " ++
        "(e.g. `-- name: MyQuery :one`), or move non-query SQL out of the `queries` glob")
  else pure (splitQueryFile content)

def analyzeBlock (block : Block) (catalog : Catalog) (text : List Char) : Except String AnalyzedQuery := do
  let parsed ← tools.parseQueryWithDialect text block.dialect
  tools.analyze catalog parsed

def requireOverridesResolve (config : SqlConfig) (analyzed : List AnalyzedQuery) : Except String Unit :=
  let unmatched := checkTypeOverridesResolve analyzed config.typeOverrides
  if unmatched.isEmpty then .ok () else
  .error (s!"[{config.name}] type_overrides column reference(s) match no column in any resolved query -- check for " ++
    "a typo in the table or column name: " ++ join ", " (unmatched.filterMap (·.column)))

def prepareBlock (block : Block) : Except String Prepared := do
  let catalog ← block.loadCatalog
  let files ← block.queryFiles
  let queryBlocks ← files.mapM (readQueryFile block.config)
  let analyzed ← queryBlocks.flatten.mapM (analyzeBlock tools block catalog)
  requireOverridesResolve block.config analyzed
  let genTargets ← resolveGenTargets block.config
  let targets ← genTargets.mapM (resolveTarget tools opts block.config)
  checkOutputPaths tools block.config [] targets
  pure ⟨catalog,analyzed,targets⟩

def resolveOptionsFingerprint (target : ResolvedGenTarget) : Except String HeaderText := do
  let overlay ← target.manifestOverride.mapM fun manifestPath =>
    let resolved := tools.paths.join tools.baseDir manifestPath.toList
    (tools.readToString resolved).mapError fun e =>
      s!"backend '{target.backend}': failed to read manifest override '{String.ofList (tools.absolute resolved)}' " ++
        s!"while fingerprinting options: {e}"
  pure (optionsFingerprint target.options (overlay.map String.ofList))

def stampOf (config : SqlConfig) (prepared : Prepared) (target : Target) (options : HeaderText) : Stamp where
  version := tools.version
  backend := target.backend.name
  engine := config.engine.toList
  schema := tools.schemaFingerprint prepared.catalog
  queries := tools.queriesFingerprint prepared.analyzed
  options

def Backend.language (backend : Backend) : String := backend.manifest.backend.language

def determineStructName (analyzed : AnalyzedQuery) (naming : NamingConfig) : String :=
  match analyzed.sourceTable with
  | some tableName => Identifiers.toPascalCase (singularize tableName)
  | none => rowStructName naming analyzed.name

def rbsQuery (backend : Backend) (overrides : List TypeOverride) (analyzed : AnalyzedQuery) :
    Except String RbsQueryInfo := do
  let codegen := backend.codegen
  let naming := backend.manifest.naming
  let sourceTable := analyzed.sourceTable.getD ""
  let func := fnName naming analyzed.name
  if analyzed.command = .grouped then
    let groupBy ← match analyzed.groupBy with
      | some groupBy => pure groupBy
      | none => .error s!"query '{analyzed.name}' is :grouped but is missing @group_by annotation"
    let _ ← renderNestedStructs codegen analyzed.nestedStructs
    let parentCols ← codegen.resolveColumns (degradeColumns codegen analyzed groupBy.parentColumns) overrides
    let childCols ← codegen.resolveColumns (degradeColumns codegen analyzed groupBy.childColumns) overrides
    let params ← codegen.resolveParams analyzed.params overrides sourceTable
    let structName := if analyzed.columns = [] then none else some (rowStructName naming analyzed.name)
    pure ⟨func,structName,parentCols,childCols,params,.grouped⟩
  else
    let _ ← renderNestedStructs codegen analyzed.nestedStructs
    let columns ← codegen.resolveColumns (degradeColumns codegen analyzed analyzed.columns) overrides
    let params ← codegen.resolveParams analyzed.params overrides sourceTable
    let needsStruct := (analyzed.command = .one ∨ analyzed.command = .many) ∧ analyzed.columns ≠ []
    let structName := if needsStruct then some (determineStructName analyzed naming) else none
    pure ⟨func,structName,columns,[],params,analyzed.command⟩

def rbsEnum (naming : NamingConfig) (info : EnumInfo) : RbsEnumInfo :=
  ⟨enumTypeName naming info.sqlName,info.values.map (enumVariantName naming)⟩

def rbsContext (backend : Backend) (overrides : List TypeOverride) (analyzed : List AnalyzedQuery) :
    Except String RbsGenerationContext := do
  let queries ← analyzed.mapM (rbsQuery backend overrides)
  let enums := firstOfEach EnumInfo.sqlName [] (analyzed.flatMap (·.enums))
  pure ⟨queries,enums.map (rbsEnum backend.manifest.naming)⟩

def reportRustFormatOutcome (code : List Char) (validateOutput : Bool) : RustFormatOutcome → List Char × Bool
  | .formatted formatted => (formatted,false)
  | .toolMissing => (code,false)
  | .failed _ => (code,validateOutput)

def applyRustFormatting (backend : Backend) (code : List Char) : List Char × Bool :=
  if backend.manifest.backend.fileExtension = "rs" then
    reportRustFormatOutcome code opts.validateOutput (tools.rustfmt.format code)
  else (code,false)

def outputContent (target : Target) (stamp : Stamp) (results : List AssembledFile.QueryResult) : List Char × Bool :=
  let body := AssembledFile.assembleBody target.backend.codegen results
  applyRustFormatting tools opts target.backend
    (assembleOutput target.backend.preamble target.backend.language stamp body.toList)

def rbsContent (target : Target) (stamp : Stamp) (content : String) : List Char :=
  assembleFile [] (provenanceHeaderLine target.backend.language stamp) content.toList

def dirMessage (dir : List Char) (e : String) : String := s!"failed to create output dir '{String.ofList dir}': {e}"
def outputMessage (path : List Char) (e : String) : String := s!"failed to write output file '{String.ofList path}': {e}"
def rbsMessage (path : List Char) (e : String) : String := s!"failed to write RBS file '{String.ofList path}': {e}"

def writeFile (path text : List Char) (message : List Char → String → String) : Run Unit := do
  told ((tools.write path).mapError (message path))
  modify fun p => p.put (tools.fileOf path) text

def Target.rbsPath (target : Target) : List Char := tools.paths.join target.outputDir rbsFilename

def generateRbsIfSupported (config : SqlConfig) (prepared : Prepared) (target : Target) (stamp : Stamp) : Run Unit :=
  if backendEmitsRbs target.backend then do
    let context ← told (rbsContext target.backend config.typeOverrides prepared.analyzed)
    match target.backend.generateRbsFile context with
    | some content => writeFile tools (target.rbsPath tools) (rbsContent target stamp content) rbsMessage
    | none => pure ()
  else pure ()

def generateForBackend (config : SqlConfig) (prepared : Prepared) (target : Target) (stamp : Stamp) : Run Bool := do
  let results ← told
    (AssembledFile.generateForBackend target.backend.codegen config.typeOverrides prepared.analyzed)
  told ((tools.createDirAll target.outputDir).mapError (dirMessage target.outputDir))
  let (content,formatFailed) := outputContent tools opts target stamp results
  writeFile tools (target.path tools) content outputMessage
  let outputFailed := opts.validateOutput &&
    tools.validateGeneratedCode content (String.ofList target.backend.name.text)
  generateRbsIfSupported tools config prepared target stamp
  pure (outputFailed || formatFailed)

def generateTarget (config : SqlConfig) (prepared : Prepared) (target : Target) : Run Unit := do
  let options ← told (resolveOptionsFingerprint tools target.resolved)
  let failed ← generateForBackend tools opts config prepared target (stampOf tools config prepared target options)
  modify fun p =>
    { p with written := p.written ++ [target.path tools],validationFailed := p.validationFailed || failed }

def generateBlock (block : Block) : Run Unit := do
  let prepared ← told (prepareBlock tools opts block)
  prepared.targets.forM (generateTarget tools opts block.config prepared)

def runGenerateInner (blocks : List Block) : Run Unit := do
  blocks.forM fun block => told (validateSchemaSource "generate" block.config)
  blocks.forM (generateBlock tools opts)

structure Ended where
  exitCode : Nat
  files : List Char → Artifact
  partlyWritten : List (List Char)

-- A run that fails tells of the files that it has written all the same.
def runGenerate (blocks : List Block) (files : List Char → Artifact) : Ended :=
  match (runGenerateInner tools opts blocks).run ⟨files,[],false⟩ with
  | (.ok (),p) => ⟨if opts.validateOutput && p.validationFailed then 2 else 0,p.files,[]⟩
  | (.error _,p) => ⟨1,p.files,p.written⟩

-- What a target has for its first file, before anything is written for it.
structure Output where
  path : List Char
  text : List Char
  stamp : Stamp
  failed : Bool

def produce (config : SqlConfig) (prepared : Prepared) (target : Target) : Except String Output := do
  let options ← resolveOptionsFingerprint tools target.resolved
  let results ← AssembledFile.generateForBackend target.backend.codegen config.typeOverrides prepared.analyzed
  let stamp := stampOf tools config prepared target options
  let (content,formatFailed) := outputContent tools opts target stamp results
  (tools.createDirAll target.outputDir).mapError (dirMessage target.outputDir)
  (tools.write (target.path tools)).mapError (outputMessage (target.path tools))
  let outputFailed := opts.validateOutput &&
    tools.validateGeneratedCode content (String.ofList target.backend.name.text)
  pure ⟨target.path tools,content,stamp,outputFailed || formatFailed⟩

-- The second file, where the backend has one.
def produceRbs (config : SqlConfig) (prepared : Prepared) (target : Target) (output : Output) :
    Except String (Option Output) :=
  if backendEmitsRbs target.backend then do
    let context ← rbsContext target.backend config.typeOverrides prepared.analyzed
    match target.backend.generateRbsFile context with
    | some content => do
      (tools.write (target.rbsPath tools)).mapError (rbsMessage (target.rbsPath tools))
      pure (some ⟨target.rbsPath tools,rbsContent target output.stamp content,output.stamp,false⟩)
    | none => pure none
  else pure none

def Progress.write (p : Progress) (output : Output) : Progress := p.put (tools.fileOf output.path) output.text

def Progress.record (p : Progress) (output : Output) : Progress :=
  { p with written := p.written ++ [output.path],validationFailed := p.validationFailed || output.failed }

-- Both files of a target.
def Progress.deliver (p : Progress) (files : Output × Option Output) : Progress :=
  (files.2.elim (p.write tools files.1) ((p.write tools files.1).write tools)).record files.1


-- The steps of a run, each with what it must find out before it changes something.
def targetPlan (config : SqlConfig) (prepared : Prepared) (target : Target) : List (Stages.Stage Progress String) :=
  [.of (produce tools opts config prepared target) fun output p => p.write tools output,
    .of (produce tools opts config prepared target >>= produceRbs tools config prepared target)
      fun rbs p => rbs.elim p (p.write tools),
    .of (produce tools opts config prepared target) fun output p => p.record output]

def blockPlan (block : Block) : List (Stages.Stage Progress String) :=
  match prepareBlock tools opts block with
  | .error e => [.of (.error e : Except String Unit) fun _ => id]
  | .ok prepared => prepared.targets.flatMap (targetPlan tools opts block.config prepared)

def sourcePlan (block : Block) : List (Stages.Stage Progress String) :=
  [.of (validateSchemaSource "generate" block.config) fun _ => id]

def runPlan (blocks : List Block) : List (Stages.Stage Progress String) :=
  blocks.flatMap sourcePlan ++ blocks.flatMap (blockPlan tools opts)

end

section Sources
open Stages
variable {blocks : List Block} {s t : Progress}

def SourcesValid (blocks : List Block) : Prop := ∀ block ∈ blocks,validateSchemaSource "generate" block.config = .ok ()

theorem source_run (block : Block) (s : Progress) :
    run (sourcePlan block) s = (s,validateSchemaSource "generate" block.config) := by
  unfold sourcePlan
  cases validateSchemaSource "generate" block.config <;> rfl

theorem sources_ok : run (blocks.flatMap sourcePlan) s = (t,.ok ()) ↔ SourcesValid blocks ∧ t = s := by
  induction blocks generalizing s with
  | nil =>
    constructor
    · intro ended
      exact ⟨List.forall_mem_nil _,(Prod.mk.inj ended).1.symm⟩
    · rintro ⟨-,rfl⟩
      rfl
  | cons block blocks ih =>
    have split : SourcesValid (block :: blocks) ↔
        validateSchemaSource "generate" block.config = .ok () ∧ SourcesValid blocks := List.forall_mem_cons
    rw [List.flatMap_cons,run_append,source_run,split]
    generalize validateSchemaSource "generate" block.config = outcome
    cases outcome with
    | error e => exact ⟨nofun,nofun⟩
    | ok _ => exact ih.trans (and_congr_left fun _ => ⟨fun valid => ⟨rfl,valid⟩,fun valid => valid.2⟩)

theorem sources_error {e : String} (ended : run (blocks.flatMap sourcePlan) s = (t,.error e)) :
    t = s ∧ ∃ block ∈ blocks,validateSchemaSource "generate" block.config = .error e := by
  obtain ⟨before,block,after,middle,rfl,done,failed⟩ := run_each_error.mp ended
  rw [source_run,(sources_ok.mp done).2] at failed
  obtain ⟨same,why⟩ := Prod.mk.inj failed
  exact ⟨same.symm,block,by simp,why⟩

end Sources

theorem contained_ok {paths : PathSyntax} {baseDir output joined : List Char} {label : String} {allowEscape : Bool}
    (ok : OutputPath.resolveContainedOutput paths baseDir output label allowEscape = .ok joined) :
    joined = paths.join baseDir output ∧
      (allowEscape = false → ¬paths.Rooted output ∧ Paths.Stays (paths.components output)) := by
  unfold OutputPath.resolveContainedOutput at ok
  split at ok
  · rename_i allowed
    cases ok
    refine ⟨rfl,fun strict => (OutputPath.escapes_iff paths output).mp ?_⟩
    rw [strict,Bool.false_or,Bool.not_eq_true'] at allowed
    exact allowed
  · cases ok

section Growth
variable {tools : Tools} {owned : List Char → Prop}

-- What no step of a run undoes: a path on record leads to a text, and no other file than
-- those of the targets is changed.
structure Grows (tools : Tools) (owned : List Char → Prop) (s t : Progress) : Prop where
  listed : ∃ paths,t.written = s.written ++ paths ∧ ∀ path ∈ paths,∃ text,t.files (tools.fileOf path) = .content text
  kept : ∀ file text,s.files file = .content text → ∃ later,t.files file = .content later
  only : ∀ file,t.files file ≠ s.files file → owned file

theorem Grows.refl (s : Progress) : Grows tools owned s s :=
  ⟨⟨[],by simp,nofun⟩,fun _ text held => ⟨text,held⟩,fun _ changed => absurd rfl changed⟩

theorem Grows.trans {s t u : Progress} (first : Grows tools owned s t)
    (second : Grows tools owned t u) : Grows tools owned s u where
  listed := by
    obtain ⟨before,is,held⟩ := first.listed
    obtain ⟨after,also,stands⟩ := second.listed
    refine ⟨before ++ after,by rw [also,is,List.append_assoc],fun path member => ?_⟩
    rcases List.mem_append.mp member with early | late
    · obtain ⟨text,there⟩ := held path early
      exact second.kept _ text there
    · exact stands path late
  kept file text held := by
    obtain ⟨middle,there⟩ := first.kept file text held
    exact second.kept file middle there
  only file changed := by
    by_cases same : u.files file = t.files file
    · exact first.only file (same ▸ changed)
    · exact second.only file same

theorem write_grows {output : Output} (allowed : owned (tools.fileOf output.path))
    (s : Progress) : Grows tools owned s (s.write tools output) where
  listed := ⟨[],(List.append_nil _).symm,nofun⟩
  kept file text held := by
    unfold Progress.write Progress.put
    by_cases here : file = tools.fileOf output.path
    · exact ⟨output.text,by rw [here]; exact Function.update_self _ _ _⟩
    · exact ⟨text,(Function.update_of_ne here _ _).trans held⟩
  only file changed := by
    by_contra other
    refine changed (Function.update_of_ne ?_ _ _)
    rintro rfl
    exact other allowed

theorem record_grows {output : Output} {s : Progress}
    (there : ∃ text,s.files (tools.fileOf output.path) = .content text) : Grows tools owned s (s.record output) where
  listed := ⟨[output.path],rfl,fun _ member => List.mem_singleton.mp member ▸ there⟩
  kept _ text held := ⟨text,held⟩
  only _ changed := absurd rfl changed

theorem deliver_grows {files : Output × Option Output}
    (first : owned (tools.fileOf files.1.path)) (second : ∀ rbs ∈ files.2,owned (tools.fileOf rbs.path)) (s : Progress) :
    Grows tools owned s (s.deliver tools files) := by
  have began := write_grows first s
  have there : (s.write tools files.1).files (tools.fileOf files.1.path) = .content files.1.text :=
    Function.update_self _ _ _
  unfold Progress.deliver
  cases rbs : files.2 with
  | none => exact began.trans (record_grows ⟨_,there⟩)
  | some output =>
    have wrote := write_grows (second output rbs) (s.write tools files.1)
    exact (began.trans wrote).trans (record_grows (wrote.kept _ _ there))

theorem delivered_grows {delivered : List (Output × Option Output)}
    (each : ∀ files ∈ delivered,owned (tools.fileOf files.1.path) ∧ ∀ rbs ∈ files.2,owned (tools.fileOf rbs.path))
    (s : Progress) : Grows tools owned s (delivered.foldl (Progress.deliver tools) s) := by
  induction delivered generalizing s with
  | nil => exact .refl s
  | cons files delivered ih =>
    obtain ⟨first,second⟩ := each files List.mem_cons_self
    exact (deliver_grows first second s).trans (ih (fun other member => each other (List.mem_cons_of_mem _ member)) _)

end Growth

section Targets
variable {tools : Tools} {opts : Opts}

theorem checkOutputPaths_ok {config : SqlConfig} {seen : List (List Char × String)} {targets : List Target} :
    checkOutputPaths tools config seen targets = .ok () ↔
      (targets.map fun target => target.path tools).Nodup ∧ ∀ target ∈ targets,seen.lookup (target.path tools) = none := by
  induction targets generalizing seen with
  | nil => simp [checkOutputPaths]
  | cons target targets ih =>
    unfold checkOutputPaths
    dsimp only
    rw [List.map_cons,List.nodup_cons,List.forall_mem_cons]
    cases found : seen.lookup (target.path tools) with
    | some existing => simp
    | none =>
      rw [ih]
      simp only [List.lookup_cons,List.mem_map,not_exists,not_and]
      constructor
      · rintro ⟨distinct,unseen⟩
        refine ⟨⟨fun other member same => ?_,distinct⟩,trivial,fun other member => ?_⟩
        · simpa [same] using unseen other member
        · have held := unseen other member
          split at held
          · cases held
          · exact held
      · rintro ⟨⟨apart,distinct⟩,-,unseen⟩
        refine ⟨distinct,fun other member => ?_⟩
        have differs : (other.path tools == target.path tools) = false := by simpa using apart other member
        rw [differs]
        exact unseen other member

variable [DebugText]

theorem resolveTarget_ok {config : SqlConfig} {given : ResolvedGenTarget} {target : Target}
    (resolved : resolveTarget tools opts config given = .ok target) : target.resolved = given ∧
      OutputPath.resolveContainedOutput tools.paths tools.baseDir given.output.toList given.backend opts.allowOutputEscape =
        .ok target.outputDir := by
  unfold resolveTarget at resolved
  obtain ⟨first,-,resolved⟩ := Register.bind_ok resolved
  obtain ⟨second,-,resolved⟩ := Register.bind_ok resolved
  obtain ⟨third,-,resolved⟩ := Register.bind_ok resolved
  obtain ⟨outputDir,contained,resolved⟩ := Register.bind_ok resolved
  cases resolved
  exact ⟨rfl,contained⟩

-- What the parts of a block are once it is prepared.
structure Ready (tools : Tools) (opts : Opts) (block : Block) (prepared : Prepared) : Prop where
  catalog : block.loadCatalog = .ok prepared.catalog
  queries : ∃ files queryBlocks,block.queryFiles = .ok files ∧ files.mapM (readQueryFile block.config) = .ok queryBlocks ∧
    queryBlocks.flatten.mapM (analyzeBlock tools block prepared.catalog) = .ok prepared.analyzed
  overrides : requireOverridesResolve block.config prepared.analyzed = .ok ()
  targets : ∃ genTargets,resolveGenTargets block.config = .ok genTargets ∧
    Outcomes.Each (resolveTarget tools opts block.config) genTargets prepared.targets
  apart : (prepared.targets.map fun target => target.path tools).Nodup

theorem prepared_iff {block : Block} {prepared : Prepared} :
    prepareBlock tools opts block = .ok prepared ↔ Ready tools opts block prepared := by
  unfold prepareBlock
  constructor
  · intro done
    obtain ⟨catalog,loaded,done⟩ := Register.bind_ok done
    obtain ⟨files,found,done⟩ := Register.bind_ok done
    obtain ⟨queryBlocks,read,done⟩ := Register.bind_ok done
    obtain ⟨analyzed,queries,done⟩ := Register.bind_ok done
    obtain ⟨_,overrides,done⟩ := Register.bind_ok done
    obtain ⟨genTargets,given,done⟩ := Register.bind_ok done
    obtain ⟨targets,each,done⟩ := Register.bind_ok done
    obtain ⟨_,apart,done⟩ := Register.bind_ok done
    cases done
    exact ⟨loaded,⟨files,queryBlocks,found,read,queries⟩,overrides,⟨genTargets,given,Outcomes.mapM_ok.mp each⟩,
      (checkOutputPaths_ok.mp apart).1⟩
  · rintro ⟨loaded,⟨files,queryBlocks,found,read,queries⟩,overrides,⟨genTargets,given,each⟩,apart⟩
    have free : checkOutputPaths tools block.config [] prepared.targets = .ok () :=
      checkOutputPaths_ok.mpr ⟨apart,fun _ _ => rfl⟩
    simp only [loaded,found,read,queries,overrides,given,Outcomes.mapM_ok.mpr each,free,Outcomes.ok_bind]
    rfl

end Targets

section Plan
open Stages
variable [CaseMap] [DebugText] {tools : Tools} {opts : Opts}

theorem rbs_performs (config : SqlConfig) (prepared : Prepared) (target : Target) (output : Output) :
    Performs (generateRbsIfSupported tools config prepared target output.stamp)
      [.of (produceRbs tools config prepared target output) fun rbs p => rbs.elim p (p.write tools)] ⟨⟩ := by
  unfold generateRbsIfSupported produceRbs
  cases backendEmitsRbs target.backend with
  | false => exact fun _ => rfl
  | true =>
    cases rbsContext target.backend config.typeOverrides prepared.analyzed with
    | error e => exact fun _ => rfl
    | ok context =>
      simp only [told,pure_bind,if_true,Outcomes.ok_bind]
      cases target.backend.generateRbsFile context with
      | none => exact fun _ => rfl
      | some content =>
        simp only [writeFile]
        cases (tools.write (target.rbsPath tools)).mapError (rbsMessage (target.rbsPath tools)) <;> exact fun _ => rfl

theorem target_performs (config : SqlConfig) (prepared : Prepared) (target : Target) :
    Performs (generateTarget tools opts config prepared target) (targetPlan tools opts config prepared target) ⟨⟩ := by
  unfold generateTarget targetPlan produce
  cases resolveOptionsFingerprint tools target.resolved with
  | error e => exact fun _ => rfl
  | ok options =>
    unfold generateForBackend
    cases AssembledFile.generateForBackend target.backend.codegen config.typeOverrides prepared.analyzed with
    | error e => exact fun _ => rfl
    | ok results =>
      cases (tools.createDirAll target.outputDir).mapError (dirMessage target.outputDir) with
      | error e => exact fun _ => rfl
      | ok _ =>
        unfold writeFile
        cases (tools.write (target.path tools)).mapError (outputMessage (target.path tools)) with
        | error e => exact fun _ => rfl
        | ok _ =>
          simp only [told,pure_bind,bind_assoc]
          refine performs_bind (performs_modify _) (performs_bind
            (rbs_performs _ _ _ ⟨_,_,stampOf tools config prepared target options,_⟩) (performs_modify _))

theorem block_performs (block : Block) :
    Performs (generateBlock tools opts block) (blockPlan tools opts block) ⟨⟩ := by
  unfold generateBlock blockPlan
  cases prepareBlock tools opts block with
  | error e => exact performs_error
  | ok prepared => exact performs_each fun target _ => target_performs block.config prepared target

-- A run does what its plan says, up to the first thing that fails.
theorem run_performs (blocks : List Block) : Performs (runGenerateInner tools opts blocks) (runPlan tools opts blocks) ⟨⟩ := by
  unfold runGenerateInner runPlan
  refine performs_bind (performs_each fun block _ => ?_) (performs_each fun block _ => block_performs block)
  unfold sourcePlan
  cases validateSchemaSource "generate" block.config <;> exact fun _ => rfl

section
variable (tools opts)

-- The files of a target, all of them.
def deliverTarget (config : SqlConfig) (prepared : Prepared) (target : Target) : Except String (Output × Option Output) := do
  let output ← produce tools opts config prepared target
  let rbs ← produceRbs tools config prepared target output
  pure (output,rbs)

def deliverBlock (block : Block) : Except String (List (Output × Option Output)) := do
  let prepared ← prepareBlock tools opts block
  prepared.targets.mapM (deliverTarget tools opts block.config prepared)

end

theorem target_run (config : SqlConfig) (prepared : Prepared) (target : Target) (s : Progress) :
    run (targetPlan tools opts config prepared target) s =
      match produce tools opts config prepared target with
      | .error e => (s,.error e)
      | .ok output =>
        match produceRbs tools config prepared target output with
        | .error e => (s.write tools output,.error e)
        | .ok rbs => (s.deliver tools (output,rbs),.ok ()) := by
  unfold targetPlan
  cases produce tools opts config prepared target with
  | error e => rfl
  | ok output =>
    simp only [Outcomes.ok_bind]
    cases produceRbs tools config prepared target output <;> rfl

theorem target_ok (config : SqlConfig) (prepared : Prepared) (target : Target) (s t : Progress) :
    run (targetPlan tools opts config prepared target) s = (t,.ok ()) ↔
      ∃ files,deliverTarget tools opts config prepared target = .ok files ∧ t = s.deliver tools files := by
  rw [target_run]
  unfold deliverTarget
  cases produce tools opts config prepared target with
  | error e => exact ⟨nofun,nofun⟩
  | ok output =>
    simp only [Outcomes.ok_bind]
    cases produceRbs tools config prepared target output with
    | error e => exact ⟨nofun,nofun⟩
    | ok rbs =>
      constructor
      · intro ended
        cases ended
        exact ⟨_,rfl,rfl⟩
      · rintro ⟨files,is,rfl⟩
        cases is
        rfl

theorem block_ok (block : Block) (s t : Progress) : run (blockPlan tools opts block) s = (t,.ok ()) ↔
    ∃ delivered,deliverBlock tools opts block = .ok delivered ∧ t = delivered.foldl (Progress.deliver tools) s := by
  unfold blockPlan deliverBlock
  cases prepareBlock tools opts block with
  | error e => exact ⟨nofun,nofun⟩
  | ok prepared =>
    refine (run_each (target_ok block.config prepared)).trans (exists_congr fun delivered => ?_)
    exact and_congr_left fun _ => Outcomes.mapM_ok.symm

theorem blocks_ok {blocks : List Block} {s t : Progress} : run (blocks.flatMap (blockPlan tools opts)) s = (t,.ok ()) ↔
    ∃ delivered,Outcomes.Each (deliverBlock tools opts) blocks delivered ∧
      t = delivered.flatten.foldl (Progress.deliver tools) s := by
  refine (run_each block_ok).trans (exists_congr fun delivered => ?_)
  rw [List.foldl_flatten]
  rfl

theorem run_ok {blocks : List Block} {s t : Progress} : (runGenerateInner tools opts blocks).run s = (.ok (),t) ↔
    SourcesValid blocks ∧ ∃ delivered,Outcomes.Each (deliverBlock tools opts) blocks delivered ∧
      t = delivered.flatten.foldl (Progress.deliver tools) s := by
  refine (run_performs blocks).ok.trans ?_
  unfold runPlan
  rw [run_append,← blocks_ok]
  by_cases valid : SourcesValid blocks
  · rw [sources_ok.mpr ⟨valid,rfl⟩]
    exact ⟨fun ended => ⟨valid,ended⟩,fun ended => ended.2⟩
  · rcases first : run (blocks.flatMap sourcePlan) s with ⟨middle,e | _⟩
    · exact ⟨nofun,fun ended => absurd ended.1 valid⟩
    · exact absurd (sources_ok.mp first).1 valid

-- How a block of the configuration stops a run: before its first file, before one of a
-- later target, or between the two files of one.
inductive Stopped (tools : Tools) (opts : Opts) (block : Block) (s : Progress) (e : String) : Progress → Prop where
  | unprepared (failed : prepareBlock tools opts block = .error e) : Stopped tools opts block s e s
  | unproduced {prepared : Prepared} {before after : List Target} {target : Target} {delivered : List (Output × Option Output)}
      (ready : prepareBlock tools opts block = .ok prepared) (is : prepared.targets = before ++ target :: after)
      (done : Outcomes.Each (deliverTarget tools opts block.config prepared) before delivered)
      (failed : produce tools opts block.config prepared target = .error e) :
      Stopped tools opts block s e (delivered.foldl (Progress.deliver tools) s)
  | halfway {prepared : Prepared} {before after : List Target} {target : Target} {delivered : List (Output × Option Output)}
      {output : Output} (ready : prepareBlock tools opts block = .ok prepared)
      (is : prepared.targets = before ++ target :: after)
      (done : Outcomes.Each (deliverTarget tools opts block.config prepared) before delivered)
      (produced : produce tools opts block.config prepared target = .ok output)
      (failed : produceRbs tools block.config prepared target output = .error e) :
      Stopped tools opts block s e ((delivered.foldl (Progress.deliver tools) s).write tools output)

theorem block_error {block : Block} {s t : Progress} {e : String}
    (ended : run (blockPlan tools opts block) s = (t,.error e)) : Stopped tools opts block s e t := by
  unfold blockPlan at ended
  cases ready : prepareBlock tools opts block with
  | error e' =>
    rw [ready] at ended
    cases ended
    exact .unprepared ready
  | ok prepared =>
    rw [ready] at ended
    obtain ⟨before,target,after,middle,is,done,failed⟩ := run_each_error.mp ended
    obtain ⟨delivered,each,rfl⟩ := (run_each (target_ok block.config prepared)).mp done
    rw [target_run] at failed
    cases produced : produce tools opts block.config prepared target with
    | error e' =>
      rw [produced] at failed
      cases failed
      exact .unproduced ready is each produced
    | ok output =>
      rw [produced] at failed
      cases second : produceRbs tools block.config prepared target output with
      | error e' =>
        simp only [second] at failed
        cases failed
        exact .halfway ready is each produced second
      | ok rbs =>
        simp only [second] at failed
        cases failed

theorem run_error {blocks : List Block} {s t : Progress} {e : String}
    (ended : (runGenerateInner tools opts blocks).run s = (.error e,t)) :
    (t = s ∧ ∃ block ∈ blocks,validateSchemaSource "generate" block.config = .error e) ∨
      ∃ before block after delivered,blocks = before ++ block :: after ∧ SourcesValid blocks ∧
        Outcomes.Each (deliverBlock tools opts) before delivered ∧
          Stopped tools opts block (delivered.flatten.foldl (Progress.deliver tools) s) e t := by
  have planned := (run_performs blocks).error.mp ended
  unfold runPlan at planned
  rw [run_append] at planned
  rcases first : run (blocks.flatMap sourcePlan) s with ⟨middle,e' | _⟩
  · rw [first] at planned
    cases planned
    exact .inl (sources_error first)
  · rw [first] at planned
    obtain ⟨valid,rfl⟩ := sources_ok.mp first
    obtain ⟨before,block,after,middle,is,done,failed⟩ := run_each_error.mp planned
    obtain ⟨delivered,each,rfl⟩ := blocks_ok.mp done
    exact .inr ⟨before,block,after,delivered,is,valid,each,block_error failed⟩

theorem produce_ok {config : SqlConfig} {prepared : Prepared} {target : Target} {output : Output}
    (produced : produce tools opts config prepared target = .ok output) : ∃ options results,
      resolveOptionsFingerprint tools target.resolved = .ok options ∧ output.path = target.path tools ∧
        output.stamp = stampOf tools config prepared target options ∧
          output.text = (outputContent tools opts target output.stamp results).1 := by
  unfold produce at produced
  obtain ⟨options,fingerprint,produced⟩ := Register.bind_ok produced
  obtain ⟨results,-,produced⟩ := Register.bind_ok produced
  obtain ⟨_,-,produced⟩ := Register.bind_ok produced
  obtain ⟨_,-,produced⟩ := Register.bind_ok produced
  cases produced
  exact ⟨options,results,fingerprint,rfl,rfl,rfl⟩

theorem produceRbs_ok {config : SqlConfig} {prepared : Prepared} {target : Target} {output : Output} {rbs : Option Output}
    (produced : produceRbs tools config prepared target output = .ok rbs) : rbs.isSome = backendEmitsRbs target.backend ∧
      ∀ second ∈ rbs,second.path = target.rbsPath tools ∧ second.stamp = output.stamp ∧
        ∃ content,second.text = rbsContent target output.stamp content := by
  unfold produceRbs at produced
  have uniform (context : RbsGenerationContext) :
      (target.backend.generateRbsFile context).isSome = backendEmitsRbs target.backend := by
    unfold backendEmitsRbs Backend.generateRbsFile
    rw [Option.isSome_map,Option.isSome_map]
  split at produced
  · rename_i emits
    obtain ⟨context,-,produced⟩ := Register.bind_ok produced
    have some' := uniform context
    cases emitted : target.backend.generateRbsFile context with
    | none =>
      rw [emitted,emits] at some'
      cases some'
    | some content =>
      rw [emitted] at produced
      obtain ⟨_,-,produced⟩ := Register.bind_ok produced
      cases produced
      refine ⟨emits.symm,fun second is => ?_⟩
      cases is
      exact ⟨rfl,rfl,content,rfl⟩
  · rename_i silent
    cases produced
    exact ⟨(Bool.eq_false_iff.mpr silent).symm,nofun⟩

-- The files that the targets of some blocks may have.
def Owned (tools : Tools) (opts : Opts) (blocks : List Block) (file : List Char) : Prop :=
  ∃ block ∈ blocks,∃ prepared,prepareBlock tools opts block = .ok prepared ∧ ∃ target ∈ prepared.targets,
    file = tools.fileOf (target.path tools) ∨ file = tools.fileOf (target.rbsPath tools)

theorem deliver_ok {config : SqlConfig} {prepared : Prepared} {target : Target} {files : Output × Option Output}
    (done : deliverTarget tools opts config prepared target = .ok files) :
    produce tools opts config prepared target = .ok files.1 ∧
      produceRbs tools config prepared target files.1 = .ok files.2 := by
  unfold deliverTarget at done
  obtain ⟨output,produced,done⟩ := Register.bind_ok done
  obtain ⟨rbs,second,done⟩ := Register.bind_ok done
  cases done
  exact ⟨produced,second⟩

theorem target_owned {blocks : List Block} {block : Block} {prepared : Prepared} {target : Target}
    {files : Output × Option Output} (given : block ∈ blocks) (ready : prepareBlock tools opts block = .ok prepared)
    (member : target ∈ prepared.targets) (done : deliverTarget tools opts block.config prepared target = .ok files) :
    Owned tools opts blocks (tools.fileOf files.1.path) ∧ ∀ rbs ∈ files.2,Owned tools opts blocks (tools.fileOf rbs.path) := by
  obtain ⟨produced,second⟩ := deliver_ok done
  obtain ⟨-,-,-,path,-⟩ := produce_ok produced
  refine ⟨⟨block,given,prepared,ready,target,member,.inl (by rw [path])⟩,fun rbs is => ?_⟩
  obtain ⟨same,-⟩ := (produceRbs_ok second).2 rbs is
  exact ⟨block,given,prepared,ready,target,member,.inr (by rw [same])⟩

theorem targets_owned {blocks : List Block} {block : Block} {prepared : Prepared} {targets : List Target}
    {delivered : List (Output × Option Output)} (given : block ∈ blocks)
    (ready : prepareBlock tools opts block = .ok prepared) (among : ∀ target ∈ targets,target ∈ prepared.targets)
    (each : Outcomes.Each (deliverTarget tools opts block.config prepared) targets delivered) : ∀ files ∈ delivered,
      Owned tools opts blocks (tools.fileOf files.1.path) ∧
        ∀ rbs ∈ files.2,Owned tools opts blocks (tools.fileOf rbs.path) := by
  intro files member
  obtain ⟨target,inside,done⟩ := Register.mapM_mem (Outcomes.mapM_ok.mpr each) files member
  exact target_owned given ready (among target inside) done

theorem blocks_owned {blocks some' : List Block} {delivered : List (List (Output × Option Output))}
    (among : ∀ block ∈ some',block ∈ blocks) (each : Outcomes.Each (deliverBlock tools opts) some' delivered) :
    ∀ files ∈ delivered.flatten,
      Owned tools opts blocks (tools.fileOf files.1.path) ∧
        ∀ rbs ∈ files.2,Owned tools opts blocks (tools.fileOf rbs.path) := by
  intro files member
  obtain ⟨part,inside,among'⟩ := List.mem_flatten.mp member
  obtain ⟨block,given,done⟩ := Register.mapM_mem (Outcomes.mapM_ok.mpr each) part inside
  unfold deliverBlock at done
  obtain ⟨prepared,ready,done⟩ := Register.bind_ok done
  exact targets_owned (among block given) ready (fun _ member => member) (Outcomes.mapM_ok.mp done) files among'

-- Wherever a run ends, what it has done is of its own targets and on record.
theorem stopped_grows {blocks : List Block} {block : Block} {s t : Progress} {e : String} (given : block ∈ blocks)
    (stopped : Stopped tools opts block s e t) : Grows tools (Owned tools opts blocks) s t := by
  cases stopped with
  | unprepared failed => exact .refl s
  | unproduced ready is done failed =>
    exact delivered_grows (targets_owned given ready (fun target member => by simp [is,member]) done) s
  | @halfway prepared before after target delivered output ready is done produced failed =>
    have owned : Owned tools opts blocks (tools.fileOf output.path) := by
      obtain ⟨-,-,-,path,-⟩ := produce_ok produced
      exact ⟨block,given,prepared,ready,target,by simp [is],.inl (by rw [path])⟩
    exact (delivered_grows (targets_owned given ready (fun target member => by simp [is,member]) done) s).trans
      (write_grows owned _)

theorem run_grows {blocks : List Block} {s t : Progress} {outcome : Except String Unit}
    (ended : (runGenerateInner tools opts blocks).run s = (outcome,t)) : Grows tools (Owned tools opts blocks) s t := by
  cases outcome with
  | ok _ =>
    obtain ⟨-,delivered,each,rfl⟩ := run_ok.mp ended
    exact delivered_grows (blocks_owned (fun _ member => member) each) s
  | error e =>
    rcases run_error ended with ⟨rfl,-⟩ | ⟨before,block,after,delivered,is,-,each,stopped⟩
    · exact .refl t
    · have earlier : ∀ other ∈ before,other ∈ blocks := fun other inside => by rw [is]; exact List.mem_append_left _ inside
      have done := delivered_grows (blocks_owned earlier each) s
      exact done.trans (stopped_grows (by simp [is]) stopped)

-- A run of the generator over the blocks of a project, from any state of the machine.
structure GeneratesFiles (tools : Tools) (opts : Opts) : Prop where
  done : ∀ blocks s t,(runGenerateInner tools opts blocks).run s = (.ok (),t) ↔ SourcesValid blocks ∧
    ∃ delivered,Outcomes.Each (deliverBlock tools opts) blocks delivered ∧
      t = delivered.flatten.foldl (Progress.deliver tools) s
  stopped : ∀ blocks s t e,(runGenerateInner tools opts blocks).run s = (.error e,t) →
    (t = s ∧ ∃ block ∈ blocks,validateSchemaSource "generate" block.config = .error e) ∨
      ∃ before block after delivered,blocks = before ++ block :: after ∧ SourcesValid blocks ∧
        Outcomes.Each (deliverBlock tools opts) before delivered ∧
          Stopped tools opts block (delivered.flatten.foldl (Progress.deliver tools) s) e t
  recorded : ∀ blocks s t outcome,(runGenerateInner tools opts blocks).run s = (outcome,t) →
    Grows tools (Owned tools opts blocks) s t
  prepared : ∀ block prepared,prepareBlock tools opts block = .ok prepared ↔ Ready tools opts block prepared
  contained : opts.allowOutputEscape = false → ∀ block prepared,prepareBlock tools opts block = .ok prepared →
    ∀ target ∈ prepared.targets,target.outputDir = tools.paths.join tools.baseDir target.resolved.output.toList ∧
      ¬tools.paths.Rooted target.resolved.output.toList ∧
        Paths.Stays (tools.paths.components target.resolved.output.toList)
  exits : ∀ blocks files,(runGenerate tools opts blocks files).exitCode = 0 ↔
    ∃ t,(runGenerateInner tools opts blocks).run ⟨files,[],false⟩ = (.ok (),t) ∧
      (opts.validateOutput = true → t.validationFailed = false)
  warned : ∀ blocks files,∀ path ∈ (runGenerate tools opts blocks files).partlyWritten,
    (runGenerate tools opts blocks files).exitCode = 1 ∧
      ∃ text,(runGenerate tools opts blocks files).files (tools.fileOf path) = .content text

end Plan

end Scythe.Generation
