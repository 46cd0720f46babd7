import Scythe.CheckRun
import Scythe.GenerateRun

-- The check of a project against its generator: whether the targets can be built, and
-- whether the files that stand there are those that the generator would write now.
namespace Scythe.Generation
open Text Linting
open ColumnResolution (DebugText)
open QueryFile (splitQueryFile hasUnannotatedSql)
open Verification (Artifact HeaderText ProvenanceSeverities QueryViolation Severity Stamp StampField assembleOutput
  driftFindings expectation parseProvenanceHeader verifyArtifact)

section
variable [DebugText] (tools : Tools)

def diagnosis : String := " (run `scythe generate` for the full diagnosis)"

def genTargetInvalid (severity : Severity) (queryName message : String) : QueryViolation :=
  ⟨queryName.toList,"SC-PRV09",severity,(message ++ diagnosis).toList⟩

def targetLabel (config : SqlConfig) (target : ResolvedGenTarget) : String := s!"{config.name}:{target.backend}"

def validateTarget (config : SqlConfig) (severity : Severity) (target : ResolvedGenTarget) : List QueryViolation :=
  let invalid := genTargetInvalid severity (targetLabel config target)
  match tools.getBackend target.backend config.engine with
  | .error e => [invalid s!"backend '{target.backend}' with engine '{config.engine}' could not be constructed: {e}"]
  | .ok backend =>
    match withManifest tools backend target with
    | .error e => [invalid s!"manifest override could not be applied: {e}"]
    | .ok backend =>
      (match withOptions tools backend target with
        | .error e => [invalid s!"backend options could not be applied: {e}"]
        | .ok _ => []) ++
      (match OutputPath.resolveContainedOutput tools.paths tools.baseDir target.output.toList target.backend false with
        | .error e => [invalid e]
        | .ok _ => [])

def validateGenTargetsConstructible (config : SqlConfig) (severity : Severity) : List QueryViolation :=
  match resolveGenTargets config with
  | .error e => [genTargetInvalid severity config.name s!"failed to resolve [sql.gen] targets: {e}"]
  | .ok targets => targets.flatMap (validateTarget tools config severity)

def artifactPaths (backend : Backend) (outputDir : List Char) : List (List Char) :=
  tools.paths.join outputDir (outputFilename backend) ::
    if backendEmitsRbs backend then [tools.paths.join outputDir rbsFilename] else []

def unverifiable (severities : ProvenanceSeverities) (queryName message : String) : QueryViolation :=
  ⟨queryName.toList,"SC-PRV07",severities.unverifiable,
    ("cannot verify provenance: " ++ message ++ diagnosis).toList⟩

def verifyTarget (config : SqlConfig) (catalog : Catalog) (queries : List AnalyzedQuery)
    (severities : ProvenanceSeverities) (files : List Char → Artifact) (target : ResolvedGenTarget) :
    List QueryViolation :=
  let label := targetLabel config target
  match tools.getBackend target.backend config.engine with
  | .error e =>
    [unverifiable severities label
      s!"backend '{target.backend}' with engine '{config.engine}' could not be constructed: {e}"]
  | .ok backend =>
    match resolveOptionsFingerprint tools target with
    | .error e => [unverifiable severities label e]
    | .ok options =>
      let current : Stamp := ⟨tools.version,backend.name,config.engine.toList,tools.schemaFingerprint catalog,
        tools.queriesFingerprint queries,options⟩
      (artifactPaths tools backend (tools.paths.join tools.baseDir target.output.toList)).flatMap fun path =>
        verifyArtifact path (files (tools.fileOf path)) (expectation label.toList severities current)

def verifyProvenance (config : SqlConfig) (catalog : Catalog) (queries : List AnalyzedQuery)
    (severities : ProvenanceSeverities) (files : List Char → Artifact) : List QueryViolation :=
  match resolveGenTargets config with
  | .error e => [unverifiable severities config.name s!"failed to resolve [sql.gen] targets: {e}"]
  | .ok targets => targets.flatMap (verifyTarget tools config catalog queries severities files)

-- What the configuration of a check says of its rules.
structure CheckRules where
  registry : RuleRegistry
  parseSeverities : ParseSeverities
  sqruff : List Char → Except String (List SqruffViolation)
  emptyQueryFile : Severity
  genTargetInvalid : Severity
  provenance : ProvenanceSeverities

def checkSetup (rules : CheckRules) (block : Block) (catalog : Catalog) (files : List Char → Artifact) : CheckSetup where
  name := block.config.name
  registry := rules.registry
  parseSeverities := rules.parseSeverities
  catalog
  dialect := block.dialect
  parseQueryWithDialect := tools.parseQueryWithDialect
  analyze := tools.analyze
  sqruff := rules.sqruff
  emptyQueryFile := rules.emptyQueryFile
  genTargets := validateGenTargetsConstructible tools block.config rules.genTargetInvalid
  verifyProvenance := fun queries => verifyProvenance tools block.config catalog queries rules.provenance files

end

section Targets
variable {tools : Tools} {opts : Opts}

-- The parts of a target that neither an overlay nor an option changes.
structure SameBackend (fresh built : Backend) : Prop where
  name : built.name = fresh.name
  filename : outputFilename built = outputFilename fresh
  rbs : backendEmitsRbs built = backendEmitsRbs fresh

theorem options_same {backend built : Backend} {target : ResolvedGenTarget}
    (done : withOptions tools backend target = .ok built) : SameBackend backend built := by
  unfold withOptions at done
  split at done
  · cases done
    exact ⟨rfl,rfl,rfl⟩
  · cases changed : tools.applyOptions backend target.options with
    | error e =>
      rw [changed] at done
      cases done
    | ok parts =>
      rw [changed] at done
      cases done
      exact ⟨rfl,rfl,by unfold backendEmitsRbs Backend.generateRbsFile; rw [Option.isSome_map,Option.isSome_map]⟩

variable [DebugText]

theorem manifest_same {backend built : Backend} {target : ResolvedGenTarget}
    (done : withManifest tools backend target = .ok built) : SameBackend backend built := by
  unfold withManifest at done
  split at done
  · unfold applyManifestOverride at done
    obtain ⟨content,-,done⟩ := Register.bind_ok done
    obtain ⟨overlay,-,done⟩ := Register.bind_ok done
    split at done
    · cases done
      exact ⟨rfl,rfl,by unfold backendEmitsRbs Backend.generateRbsFile; rw [Option.isSome_map,Option.isSome_map]⟩
    · cases done
  · cases done
    exact ⟨rfl,rfl,rfl⟩

-- How a target is built.
theorem resolved_iff {config : SqlConfig} {given : ResolvedGenTarget} {target : Target} :
    resolveTarget tools opts config given = .ok target ↔ ∃ fresh overlaid,
      tools.getBackend given.backend config.engine = .ok fresh ∧ withManifest tools fresh given = .ok overlaid ∧
        withOptions tools overlaid given = .ok target.backend ∧ target.resolved = given ∧
          OutputPath.resolveContainedOutput tools.paths tools.baseDir given.output.toList given.backend
            opts.allowOutputEscape = .ok target.outputDir := by
  unfold resolveTarget
  constructor
  · intro done
    obtain ⟨fresh,built,done⟩ := Register.bind_ok done
    obtain ⟨overlaid,laid,done⟩ := Register.bind_ok done
    obtain ⟨backend,set',done⟩ := Register.bind_ok done
    obtain ⟨outputDir,contained,done⟩ := Register.bind_ok done
    cases done
    exact ⟨fresh,overlaid,Outcomes.mapError_ok.mp built,laid,Outcomes.mapError_ok.mp set',rfl,contained⟩
  · rintro ⟨fresh,overlaid,built,laid,set',rfl,contained⟩
    simp only [built,laid,set',contained,Except.mapError,Outcomes.ok_bind]
    rfl

theorem resolved_same {config : SqlConfig} {given : ResolvedGenTarget} {target : Target}
    (resolved : resolveTarget tools opts config given = .ok target) : ∃ fresh,
      tools.getBackend given.backend config.engine = .ok fresh ∧ SameBackend fresh target.backend := by
  obtain ⟨fresh,overlaid,built,laid,set',-,-⟩ := resolved_iff.mp resolved
  have first := manifest_same laid
  have second := options_same set'
  exact ⟨fresh,built,second.name.trans first.name,second.filename.trans first.filename,second.rbs.trans first.rbs⟩

-- The check finds nothing wrong with a target exactly where the generator can build it.
theorem target_silent (strict : opts.allowOutputEscape = false) {config : SqlConfig} {severity : Severity}
    {given : ResolvedGenTarget} : validateTarget tools config severity given = [] ↔
      ∃ target,resolveTarget tools opts config given = .ok target := by
  unfold validateTarget
  simp only [resolved_iff,strict]
  cases built : tools.getBackend given.backend config.engine with
  | error e => simp
  | ok fresh =>
    cases laid : withManifest tools fresh given with
    | error e => simp [laid]
    | ok overlaid =>
      cases set' : withOptions tools overlaid given with
      | error e => simp [laid,set']
      | ok backend =>
        cases contained :
          OutputPath.resolveContainedOutput tools.paths tools.baseDir given.output.toList given.backend false with
        | error e => simp [laid,set']
        | ok outputDir =>
          simp only [laid,set',List.append_nil,true_iff]
          exact ⟨⟨given,backend,outputDir⟩,fresh,overlaid,rfl,laid,set',rfl,rfl⟩

theorem validate_silent (strict : opts.allowOutputEscape = false) {config : SqlConfig} {severity : Severity} :
    validateGenTargetsConstructible tools config severity = [] ↔ ∃ genTargets targets,
      resolveGenTargets config = .ok genTargets ∧ Outcomes.Each (resolveTarget tools opts config) genTargets targets := by
  unfold validateGenTargetsConstructible
  cases resolveGenTargets config with
  | error e => simp
  | ok genTargets =>
    simp only [List.flatMap_eq_nil_iff,target_silent strict]
    rw [← Outcomes.each_total]
    exact ⟨fun ⟨targets,each⟩ => ⟨genTargets,targets,rfl,each⟩,fun ⟨_,targets,is,each⟩ => by cases is; exact ⟨targets,each⟩⟩

end Targets

theorem requireOverrides_ok {config : SqlConfig} {analyzed : List AnalyzedQuery} :
    requireOverridesResolve config analyzed = .ok () ↔ checkTypeOverridesResolve analyzed config.typeOverrides = [] := by
  unfold requireOverridesResolve
  cases checkTypeOverridesResolve analyzed config.typeOverrides <;> simp

section Queries
variable {queryFiles : List (String × List Char)}

theorem readQueryFile_ok {config : SqlConfig} {queryFile : String × List Char} {parts : List (List Char)} :
    readQueryFile config (queryFile.1,.ok queryFile.2) = .ok parts ↔
      hasUnannotatedSql queryFile.2 = false ∧ parts = splitQueryFile queryFile.2 := by
  unfold readQueryFile
  simp only [Except.mapError,Outcomes.ok_bind]
  cases hasUnannotatedSql queryFile.2 with
  | true => simp
  | false => exact ⟨fun done => by cases done; exact ⟨rfl,rfl⟩,fun done => by rw [done.2]; rfl⟩

theorem read_parts {config : SqlConfig} {parts : List (List (List Char))} :
    (queryFiles.map fun f => (f.1,Except.ok f.2)).mapM (readQueryFile config) = .ok parts ↔
      (∀ queryFile ∈ queryFiles,hasUnannotatedSql queryFile.2 = false) ∧
        parts = queryFiles.map fun queryFile => splitQueryFile queryFile.2 := by
  rw [Outcomes.mapM_ok]
  unfold Outcomes.Each
  rw [List.forall₂_map_left_iff]
  simp only [readQueryFile_ok]
  induction queryFiles generalizing parts with
  | nil => simp
  | cons queryFile queryFiles ih =>
    rw [List.forall_mem_cons,List.map_cons]
    constructor
    · intro all
      cases all with
      | cons here rest =>
        obtain ⟨annotated,rfl⟩ := ih.mp rest
        exact ⟨⟨here.1,annotated⟩,by rw [here.2]⟩
    · rintro ⟨⟨here,annotated⟩,rfl⟩
      exact .cons ⟨here,rfl⟩ (ih.mpr ⟨annotated,rfl⟩)

variable [DebugText] {tools : Tools} {opts : Opts} {rules : CheckRules} {block : Block} {catalog : Catalog}
  {files : List Char → Artifact}

-- The check has the queries of the generator, as long as the generator gets to have them.
theorem analyzed_checked : ((analyzedQueries (checkSetup tools rules block catalog files) queryFiles).map (·.1)) =
    (queryFiles.flatMap fun queryFile => splitQueryFile queryFile.2).filterMap fun part =>
      (analyzeBlock tools block catalog part).toOption := by
  unfold analyzedQueries queryBlocks
  rw [List.map_filterMap,List.filterMap_flatMap,List.filterMap_flatMap]
  refine List.flatMap_congr fun queryFile _ => ?_
  rw [List.filterMap_map]
  refine List.filterMap_congr fun part _ => ?_
  unfold checkBlock analyzeBlock checkSetup
  dsimp only [Function.comp_apply]
  cases tools.parseQueryWithDialect part block.dialect with
  | error e => rfl
  | ok parsed => cases analyzed : tools.analyze catalog parsed <;> simp [analyzed,Outcomes.ok_bind,Except.toOption]

theorem analyzed_part {part : List Char} : Analyzed (checkSetup tools rules block catalog files).toSetup part ↔
    ∃ analyzed,analyzeBlock tools block catalog part = .ok analyzed := by
  constructor
  · rintro ⟨query,analyzed,parsed,done⟩
    refine ⟨analyzed,?_⟩
    unfold analyzeBlock
    exact (congrArg (· >>= tools.analyze catalog) parsed).trans done
  · rintro ⟨analyzed,done⟩
    obtain ⟨query,parsed,done⟩ := Register.bind_ok done
    exact ⟨query,analyzed,parsed,done⟩

-- What a check has to be silent about for the generator to come to its first file, and
-- the two things that it is silent about all the same.
structure Buildable (tools : Tools) (opts : Opts) (rules : CheckRules) (block : Block) (catalog : Catalog)
    (files : List Char → Artifact) (queryFiles : List (String × List Char)) : Prop where
  annotated : ∀ queryFile ∈ queryFiles,hasUnannotatedSql queryFile.2 = false
  analyzed : ∀ queryFile ∈ queryFiles,∀ part ∈ splitQueryFile queryFile.2,
    Analyzed (checkSetup tools rules block catalog files).toSetup part
  targets : validateGenTargetsConstructible tools block.config rules.genTargetInvalid = []
  overrides : checkTypeOverridesResolve
    ((analyzedQueries (checkSetup tools rules block catalog files) queryFiles).map (·.1)) block.config.typeOverrides = []
  apart : ∀ genTargets targets,resolveGenTargets block.config = .ok genTargets →
    Outcomes.Each (resolveTarget tools opts block.config) genTargets targets →
      (targets.map fun target => target.path tools).Nodup

theorem queries_same {analyzed : List AnalyzedQuery}
    (done : (queryFiles.flatMap fun queryFile => splitQueryFile queryFile.2).mapM (analyzeBlock tools block catalog) =
      .ok analyzed) : (analyzedQueries (checkSetup tools rules block catalog files) queryFiles).map (·.1) = analyzed := by
  rw [analyzed_checked]
  exact Outcomes.each_filterMap (Outcomes.mapM_ok.mp done)

theorem prepared_buildable (strict : opts.allowOutputEscape = false) (loaded : block.loadCatalog = .ok catalog)
    (given : block.queryFiles = .ok (queryFiles.map fun f => (f.1,.ok f.2))) :
    (∃ prepared,prepareBlock tools opts block = .ok prepared) ↔
      Buildable tools opts rules block catalog files queryFiles := by
  simp only [prepared_iff]
  constructor
  · rintro ⟨prepared,ready⟩
    obtain ⟨found,parts,is,read,done⟩ := ready.queries
    cases given.symm.trans is
    obtain ⟨annotated,rfl⟩ := read_parts.mp read
    cases loaded.symm.trans ready.catalog
    obtain ⟨genTargets,configured,each⟩ := ready.targets
    rw [← List.flatMap_def] at done
    refine ⟨annotated,fun queryFile inside part among => analyzed_part.mpr ?_,?_,?_,?_⟩
    · exact Outcomes.each_total.mp ⟨_,Outcomes.mapM_ok.mp done⟩ part (List.mem_flatMap.mpr ⟨queryFile,inside,among⟩)
    · exact (validate_silent strict).mpr ⟨genTargets,prepared.targets,configured,each⟩
    · rw [queries_same done]
      exact requireOverrides_ok.mp ready.overrides
    · intro others targets also built
      cases configured.symm.trans also
      cases (Outcomes.mapM_ok.mpr each).symm.trans (Outcomes.mapM_ok.mpr built)
      exact ready.apart
  · intro buildable
    obtain ⟨genTargets,targets,configured,each⟩ := (validate_silent strict).mp buildable.targets
    obtain ⟨analyzed,all⟩ : ∃ analyzed,Outcomes.Each (analyzeBlock tools block catalog)
        (queryFiles.flatMap fun queryFile => splitQueryFile queryFile.2) analyzed := by
      refine Outcomes.each_total.mpr fun part member => ?_
      obtain ⟨queryFile,inside,among⟩ := List.mem_flatMap.mp member
      exact analyzed_part.mp (buildable.analyzed queryFile inside part among)
    have done := Outcomes.mapM_ok.mpr all
    refine ⟨⟨catalog,analyzed,targets⟩,loaded,⟨_,_,given,read_parts.mpr ⟨buildable.annotated,rfl⟩,?_⟩,?_,
      ⟨genTargets,configured,each⟩,buildable.apart genTargets targets configured each⟩
    · rw [← List.flatMap_def]
      exact done
    · refine requireOverrides_ok.mpr ?_
      rw [← queries_same done]
      exact buildable.overrides

end Queries

section Provenance
variable {tools : Tools} {opts : Opts}

theorem formatted_parse (backend : Backend) (code : List Char) :
    parseProvenanceHeader (applyRustFormatting tools opts backend code).1 = parseProvenanceHeader code := by
  unfold applyRustFormatting
  split
  · cases outcome : tools.rustfmt.format code with
    | formatted formatted => exact tools.rustfmt.keeps code formatted outcome
    | toolMissing => rfl
    | failed detail => rfl
  · rfl

-- A file that the verifier reads as what it was written with.
def Signed (output : Output) : Prop := ∀ path label severities current,
  verifyArtifact path (.content output.text) (expectation label severities current) =
    driftFindings path (expectation label severities current) output.stamp current

theorem verify_parse {path text other : List Char} {expected : Verification.ProvenanceExpectation}
    (same : parseProvenanceHeader text = parseProvenanceHeader other) :
    verifyArtifact path (.content text) expected = verifyArtifact path (.content other) expected := by
  unfold verifyArtifact
  simp only [same]

def outputsOf (delivered : List (Output × Option Output)) : List Output :=
  delivered.flatMap fun files => files.1 :: files.2.toList

-- The last of some outputs that leads to a file.
def lastFor (tools : Tools) (outputs : List Output) (file : List Char) : Option Output :=
  outputs.reverse.find? fun output => tools.fileOf output.path = file

theorem last_exists {outputs : List Output} {output : Output} (member : output ∈ outputs) :
    ∃ last ∈ outputs,lastFor tools outputs (tools.fileOf output.path) = some last := by
  have found : (lastFor tools outputs (tools.fileOf output.path)).isSome := by
    unfold lastFor
    rw [List.find?_isSome]
    exact ⟨output,List.mem_reverse.mpr member,by simp⟩
  obtain ⟨last,is⟩ := Option.isSome_iff_exists.mp found
  exact ⟨last,List.mem_reverse.mp (List.mem_of_find?_eq_some is),is⟩

theorem delivered_files {delivered : List (Output × Option Output)} {s : Progress} :
    (delivered.foldl (Progress.deliver tools) s).files = LastWrite.updated s.files
      ((outputsOf delivered).map fun output => (tools.fileOf output.path,.content output.text)) := by
  induction delivered generalizing s with
  | nil => rfl
  | cons files delivered ih =>
    rw [List.foldl_cons,ih]
    unfold outputsOf LastWrite.updated
    rw [List.flatMap_cons,List.map_append,List.foldl_append]
    rcases files with ⟨first,none | second⟩ <;> rfl

theorem last_read {delivered : List (Output × Option Output)} {s : Progress} {file : List Char} {last : Output}
    (is : lastFor tools (outputsOf delivered) file = some last) :
    (delivered.foldl (Progress.deliver tools) s).files file = .content last.text := by
  obtain ⟨leads,after,before,split,other⟩ := List.find?_eq_some_iff_append.mp is
  have leads : tools.fileOf last.path = file := by simpa using leads
  have ordered : outputsOf delivered = before.reverse ++ last :: after.reverse := by
    rw [← List.reverse_reverse (outputsOf delivered),split]
    simp
  let write (output : Output) : List Char × Artifact := (tools.fileOf output.path,.content output.text)
  have stands : LastWrite.Stands ((outputsOf delivered).map write) (write last) := by
    refine ⟨before.reverse.map write,after.reverse.map write,by rw [ordered,List.map_append,List.map_cons],?_⟩
    intro later member
    obtain ⟨output,inside,rfl⟩ := List.mem_map.mp member
    have apart := other output (List.mem_reverse.mp inside)
    exact fun same => by simp [show tools.fileOf output.path = file from same.trans leads] at apart
  rw [delivered_files,← leads]
  exact LastWrite.updated_standing stands

variable [DebugText]

-- The check looks at the files of the targets as the generator builds them.
theorem target_verified {config : SqlConfig} {prepared : Prepared} {given : ResolvedGenTarget} {target : Target}
    {options : HeaderText} {severities : ProvenanceSeverities} {files : List Char → Artifact}
    (built : resolveTarget tools opts config given = .ok target)
    (fingerprint : resolveOptionsFingerprint tools given = .ok options) :
    verifyTarget tools config prepared.catalog prepared.analyzed severities files given =
      (artifactPaths tools target.backend target.outputDir).flatMap fun path => verifyArtifact path (files (tools.fileOf path))
        (expectation (targetLabel config given).toList severities (stampOf tools config prepared target options)) := by
  obtain ⟨fresh,fetched,same⟩ := resolved_same built
  obtain ⟨dir,-⟩ := contained_ok (resolveTarget_ok built).2
  unfold verifyTarget artifactPaths stampOf
  simp only [fetched,fingerprint]
  rw [dir,same.filename,same.rbs,same.name]

theorem verify_targets {block : Block} {prepared : Prepared} {severities : ProvenanceSeverities}
    {files : List Char → Artifact} {v : QueryViolation} (ready : prepareBlock tools opts block = .ok prepared)
    (fingerprints : ∀ target ∈ prepared.targets,∃ options,resolveOptionsFingerprint tools target.resolved = .ok options) :
    v ∈ verifyProvenance tools block.config prepared.catalog prepared.analyzed severities files ↔
      ∃ target ∈ prepared.targets,∃ path ∈ artifactPaths tools target.backend target.outputDir,∃ options,
        resolveOptionsFingerprint tools target.resolved = .ok options ∧
          v ∈ verifyArtifact path (files (tools.fileOf path)) (expectation (targetLabel block.config target.resolved).toList
            severities (stampOf tools block.config prepared target options)) := by
  obtain ⟨genTargets,configured,each⟩ := (prepared_iff.mp ready).targets
  unfold verifyProvenance
  simp only [configured,List.mem_flatMap]
  constructor
  · rintro ⟨given,member,found⟩
    obtain ⟨target,inside,built⟩ := Register.mapM_image (Outcomes.mapM_ok.mpr each) member
    obtain ⟨options,fingerprint⟩ := fingerprints target inside
    have is := (resolveTarget_ok built).1
    rw [is] at fingerprint
    rw [target_verified built fingerprint] at found
    obtain ⟨path,artifact,told⟩ := List.mem_flatMap.mp found
    exact ⟨target,inside,path,artifact,options,is ▸ fingerprint,is ▸ told⟩
  · rintro ⟨target,inside,path,artifact,options,fingerprint,told⟩
    obtain ⟨given,member,built⟩ := Register.mapM_mem (Outcomes.mapM_ok.mpr each) target inside
    have is := (resolveTarget_ok built).1
    rw [is] at fingerprint told
    refine ⟨given,member,?_⟩
    rw [target_verified built fingerprint]
    exact List.mem_flatMap.mpr ⟨path,artifact,told⟩

variable [CaseMap]

theorem deliver_signed {config : SqlConfig} {prepared : Prepared} {target : Target} {files : Output × Option Output}
    (done : deliverTarget tools opts config prepared target = .ok files) :
    ∀ output ∈ files.1 :: files.2.toList,Signed output := by
  obtain ⟨produced,second⟩ := deliver_ok done
  obtain ⟨options,results,-,-,-,text⟩ := produce_ok produced
  intro output member path label severities current
  rcases List.mem_cons.mp member with rfl | rbs
  · have parsed : parseProvenanceHeader files.1.text = parseProvenanceHeader
        (assembleOutput target.backend.preamble target.backend.language files.1.stamp
          (AssembledFile.assembleBody target.backend.codegen results).toList) := by
      rw [text]
      exact formatted_parse _ _
    rw [verify_parse parsed]
    exact Verification.verify_assembled _ _ _ _ _ _ _ _
  · obtain ⟨-,stamp,content,is⟩ := (produceRbs_ok second).2 output (Option.mem_toList.mp rbs)
    rw [is,← stamp]
    exact Verification.verify_assembled path label severities .empty target.backend.language output.stamp current
      content.toList

-- Where the outputs of a run come from.
structure From (tools : Tools) (opts : Opts) (blocks : List Block) (output : Output) : Prop where
  signed : Signed output
  target : ∃ block ∈ blocks,∃ prepared,prepareBlock tools opts block = .ok prepared ∧ ∃ target ∈ prepared.targets,
    ∃ options,resolveOptionsFingerprint tools target.resolved = .ok options ∧
      output.stamp = stampOf tools block.config prepared target options ∧
        output.path ∈ artifactPaths tools target.backend target.outputDir

theorem outputs_from {blocks : List Block} {delivered : List (List (Output × Option Output))}
    (each : Outcomes.Each (deliverBlock tools opts) blocks delivered) :
    ∀ output ∈ outputsOf delivered.flatten,From tools opts blocks output := by
  intro output member
  obtain ⟨files,inside,among⟩ := List.mem_flatMap.mp member
  obtain ⟨part,within,held⟩ := List.mem_flatten.mp inside
  obtain ⟨block,given,done⟩ := Register.mapM_mem (Outcomes.mapM_ok.mpr each) part within
  unfold deliverBlock at done
  obtain ⟨prepared,ready,done⟩ := Register.bind_ok done
  obtain ⟨target,one,delivers⟩ := Register.mapM_mem done files held
  obtain ⟨produced,second⟩ := deliver_ok delivers
  obtain ⟨options,results,fingerprint,path,stamp,-⟩ := produce_ok produced
  refine ⟨deliver_signed delivers output among,block,given,prepared,ready,target,one,options,fingerprint,?_⟩
  unfold artifactPaths
  rcases List.mem_cons.mp among with rfl | rbs
  · exact ⟨stamp,by rw [path]; exact List.mem_cons_self⟩
  · obtain ⟨emits,others⟩ := produceRbs_ok second
    obtain ⟨there,same,-⟩ := others output (Option.mem_toList.mp rbs)
    rw [Option.mem_toList.mp rbs] at emits
    refine ⟨same.trans stamp,?_⟩
    rw [← emits,there]
    exact List.mem_cons_of_mem _ (List.mem_singleton.mpr rfl)

-- Every file that a target of the run should have is among the outputs.
theorem artifact_delivered {blocks : List Block} {delivered : List (List (Output × Option Output))}
    (each : Outcomes.Each (deliverBlock tools opts) blocks delivered) {block : Block} (given : block ∈ blocks)
    {prepared : Prepared} (ready : prepareBlock tools opts block = .ok prepared) {target : Target}
    (member : target ∈ prepared.targets) {path : List Char}
    (artifact : path ∈ artifactPaths tools target.backend target.outputDir) :
    ∃ output ∈ outputsOf delivered.flatten,output.path = path ∧ ∃ options,
      resolveOptionsFingerprint tools target.resolved = .ok options ∧
        output.stamp = stampOf tools block.config prepared target options := by
  obtain ⟨part,within,done⟩ := Register.mapM_image (Outcomes.mapM_ok.mpr each) given
  unfold deliverBlock at done
  rw [ready,Outcomes.ok_bind] at done
  obtain ⟨files,held,delivers⟩ := Register.mapM_image done member
  obtain ⟨produced,second⟩ := deliver_ok delivers
  obtain ⟨options,results,fingerprint,firstPath,stamp,-⟩ := produce_ok produced
  have among : files ∈ delivered.flatten := List.mem_flatten.mpr ⟨part,within,held⟩
  unfold artifactPaths at artifact
  rcases List.mem_cons.mp artifact with rfl | rbs
  · exact ⟨files.1,List.mem_flatMap.mpr ⟨files,among,List.mem_cons_self⟩,firstPath,options,fingerprint,stamp⟩
  · obtain ⟨emits,others⟩ := produceRbs_ok second
    split at rbs
    · rename_i some'
      rw [some'] at emits
      obtain ⟨output,is⟩ := Option.isSome_iff_exists.mp emits
      obtain ⟨there,same,-⟩ := others output is
      refine ⟨output,List.mem_flatMap.mpr ⟨files,among,?_⟩,?_,options,fingerprint,same.trans stamp⟩
      · exact List.mem_cons_of_mem _ (Option.mem_toList.mpr is)
      · rw [there,List.mem_singleton.mp rbs]
        rfl
    · cases rbs

-- What a check right after a run says of the files: where a later target has written one
-- of them, what the two targets differ in.
theorem drift_exact {blocks : List Block} {delivered : List (List (Output × Option Output))} {s : Progress}
    (each : Outcomes.Each (deliverBlock tools opts) blocks delivered) {block : Block} (given : block ∈ blocks)
    {prepared : Prepared} (ready : prepareBlock tools opts block = .ok prepared) {severities : ProvenanceSeverities}
    {v : QueryViolation} :
    v ∈ verifyProvenance tools block.config prepared.catalog prepared.analyzed severities
        (delivered.flatten.foldl (Progress.deliver tools) s).files ↔
      ∃ target ∈ prepared.targets,∃ path ∈ artifactPaths tools target.backend target.outputDir,∃ options last,
        resolveOptionsFingerprint tools target.resolved = .ok options ∧
          lastFor tools (outputsOf delivered.flatten) (tools.fileOf path) = some last ∧
            v ∈ driftFindings path (expectation (targetLabel block.config target.resolved).toList severities
              (stampOf tools block.config prepared target options)) last.stamp
                (stampOf tools block.config prepared target options) := by
  have reads {target : Target} (member : target ∈ prepared.targets) {path : List Char}
      (artifact : path ∈ artifactPaths tools target.backend target.outputDir) (label : List Char) (current : Stamp) :
      ∃ last,lastFor tools (outputsOf delivered.flatten) (tools.fileOf path) = some last ∧
        verifyArtifact path ((delivered.flatten.foldl (Progress.deliver tools) s).files (tools.fileOf path))
            (expectation label severities current) =
          driftFindings path (expectation label severities current) last.stamp current := by
    obtain ⟨output,among,rfl,-⟩ := artifact_delivered each given ready member artifact
    obtain ⟨last,inside,is⟩ := @last_exists tools _ _ among
    refine ⟨last,is,?_⟩
    rw [last_read is]
    exact (outputs_from each last inside).signed _ _ _ _
  have fingerprints : ∀ target ∈ prepared.targets,
      ∃ options,resolveOptionsFingerprint tools target.resolved = .ok options := by
    intro target member
    have first : target.path tools ∈ artifactPaths tools target.backend target.outputDir := List.mem_cons_self
    obtain ⟨_,_,_,options,fingerprint,_⟩ := artifact_delivered each given ready member first
    exact ⟨options,fingerprint⟩
  rw [verify_targets ready fingerprints]
  constructor
  · rintro ⟨target,member,path,artifact,options,fingerprint,told⟩
    obtain ⟨last,is,reading⟩ := reads member artifact (targetLabel block.config target.resolved).toList
      (stampOf tools block.config prepared target options)
    rw [reading] at told
    exact ⟨target,member,path,artifact,options,last,fingerprint,is,told⟩
  · rintro ⟨target,member,path,artifact,options,last,fingerprint,is,told⟩
    obtain ⟨last',is',reading⟩ := reads member artifact (targetLabel block.config target.resolved).toList
      (stampOf tools block.config prepared target options)
    cases is.symm.trans is'
    refine ⟨target,member,path,artifact,options,fingerprint,?_⟩
    rw [reading]
    exact told

-- Where no two outputs of the run share a file, the check has nothing to say of them.
theorem drift_none {blocks : List Block} {delivered : List (List (Output × Option Output))} {s : Progress}
    (each : Outcomes.Each (deliverBlock tools opts) blocks delivered)
    (apart : ((outputsOf delivered.flatten).map fun output => tools.fileOf output.path).Nodup) {block : Block}
    (given : block ∈ blocks) {prepared : Prepared} (ready : prepareBlock tools opts block = .ok prepared)
    {severities : ProvenanceSeverities} :
    verifyProvenance tools block.config prepared.catalog prepared.analyzed severities
      (delivered.flatten.foldl (Progress.deliver tools) s).files = [] := by
  refine List.eq_nil_iff_forall_not_mem.mpr fun v told => ?_
  obtain ⟨target,member,path,artifact,options,last,fingerprint,is,drift⟩ := (drift_exact each given ready).mp told
  obtain ⟨output,among,rfl,others,also,stamp⟩ := artifact_delivered each given ready member artifact
  cases fingerprint.symm.trans also
  obtain ⟨last',inside,is'⟩ := @last_exists tools _ _ among
  cases is.symm.trans is'
  have leads : tools.fileOf last.path = tools.fileOf output.path := by simpa using List.find?_some is
  have same : last = output := List.inj_on_of_nodup_map apart inside among leads
  rw [same,stamp,Verification.driftFindings_self] at drift
  cases drift

-- After a run that ended well, a check of its blocks can only fail for what is wrong with
-- the queries themselves.
theorem generated_fails (strict : opts.allowOutputEscape = false) {blocks : List Block}
    {delivered : List (List (Output × Option Output))} {s : Progress}
    (each : Outcomes.Each (deliverBlock tools opts) blocks delivered)
    (apart : ((outputsOf delivered.flatten).map fun output => tools.fileOf output.path).Nodup) {block : Block}
    (given : block ∈ blocks) {prepared : Prepared} (ready : prepareBlock tools opts block = .ok prepared)
    {queryFiles : List (String × List Char)} (read : block.queryFiles = .ok (queryFiles.map fun f => (f.1,.ok f.2)))
    {rules : CheckRules} {files : List Char → Artifact}
    (after : files = (delivered.flatten.foldl (Progress.deliver tools) s).files) :
    (∃ violations,checkQueryFiles (checkSetup tools rules block prepared.catalog files) queryFiles = .ok violations) ∧
      (CheckFails (checkSetup tools rules block prepared.catalog files) queryFiles ↔
        (∃ v,Found (checkSetup tools rules block prepared.catalog files).toSetup queryFiles v ∧ v.severity = .error) ∨
          ¬(prepared.analyzed.map (·.name)).Nodup ∨
            ∃ v ∈ queryFiles.flatMap (emptyQueryFiles (checkSetup tools rules block prepared.catalog files)),
              v.severity = .error) := by
  have loaded := (prepared_iff.mp ready).catalog
  have buildable : Buildable tools opts rules block prepared.catalog files queryFiles :=
    (prepared_buildable strict loaded read).mp ⟨prepared,ready⟩
  have queries : (analyzedQueries (checkSetup tools rules block prepared.catalog files) queryFiles).map (·.1) =
      prepared.analyzed := by
    obtain ⟨found,parts,is,parted,done⟩ := (prepared_iff.mp ready).queries
    cases read.symm.trans is
    obtain ⟨-,rfl⟩ := read_parts.mp parted
    rw [← List.flatMap_def] at done
    exact queries_same done
  have silent : verifyProvenance tools block.config prepared.catalog prepared.analyzed rules.provenance files = [] := by
    rw [after]
    exact drift_none each apart given ready
  have besides {v : QueryViolation} :
      v ∈ besides (checkSetup tools rules block prepared.catalog files) queryFiles ↔
        v ∈ queryFiles.flatMap (emptyQueryFiles (checkSetup tools rules block prepared.catalog files)) := by
    rw [mem_besides,queries]
    dsimp only [checkSetup]
    rw [silent,buildable.targets]
    simp
  have succeeded : ¬Failed (checkSetup tools rules block prepared.catalog files).toSetup queryFiles .error := by
    generalize Severity.error = severity
    intro failed
    cases failed with
    | unparsed given part failed =>
      obtain ⟨query,_,parsed,-⟩ := buildable.analyzed _ given _ part
      cases failed.symm.trans parsed
    | unanalyzed given part parsed failed =>
      obtain ⟨query,analyzed,parsed',done⟩ := buildable.analyzed _ given _ part
      cases parsed.symm.trans parsed'
      cases failed.symm.trans done
  refine ⟨⟨_,checked_iff.mpr ⟨buildable.annotated,rfl⟩⟩,?_⟩
  unfold CheckFails
  rw [← names_prepared,queries]
  simp only [besides,succeeded,false_or]

-- The check and the generator of a project.
structure ChecksGenerated (tools : Tools) (opts : Opts) : Prop where
  constructible : opts.allowOutputEscape = false → ∀ config severity,
    validateGenTargetsConstructible tools config severity = [] ↔ ∃ genTargets targets,
      resolveGenTargets config = .ok genTargets ∧ Outcomes.Each (resolveTarget tools opts config) genTargets targets
  prepares : opts.allowOutputEscape = false → ∀ rules block catalog files queryFiles,
    block.loadCatalog = .ok catalog → block.queryFiles = .ok (queryFiles.map fun f => (f.1,.ok f.2)) →
      ((∃ prepared,prepareBlock tools opts block = .ok prepared) ↔
        Buildable tools opts rules block catalog files queryFiles)
  drifts : ∀ blocks s t,(runGenerateInner tools opts blocks).run s = (.ok (),t) →
    ∃ delivered,Outcomes.Each (deliverBlock tools opts) blocks delivered ∧ ∀ block ∈ blocks,∀ prepared,
      prepareBlock tools opts block = .ok prepared → ∀ severities v,
        v ∈ verifyProvenance tools block.config prepared.catalog prepared.analyzed severities t.files ↔
          ∃ target ∈ prepared.targets,∃ path ∈ artifactPaths tools target.backend target.outputDir,∃ options last,
            resolveOptionsFingerprint tools target.resolved = .ok options ∧
              lastFor tools (outputsOf delivered.flatten) (tools.fileOf path) = some last ∧
                v ∈ driftFindings path (expectation (targetLabel block.config target.resolved).toList severities
                  (stampOf tools block.config prepared target options)) last.stamp
                    (stampOf tools block.config prepared target options)
  agrees : ∀ blocks s t delivered,(runGenerateInner tools opts blocks).run s = (.ok (),t) →
    Outcomes.Each (deliverBlock tools opts) blocks delivered →
      ((outputsOf delivered.flatten).map fun output => tools.fileOf output.path).Nodup → ∀ block ∈ blocks,∀ prepared,
        prepareBlock tools opts block = .ok prepared →
          (∀ severities,
            verifyProvenance tools block.config prepared.catalog prepared.analyzed severities t.files = []) ∧
          (opts.allowOutputEscape = false → ∀ rules queryFiles,
            block.queryFiles = .ok (queryFiles.map fun f => (f.1,.ok f.2)) →
              (∃ violations,
                checkQueryFiles (checkSetup tools rules block prepared.catalog t.files) queryFiles = .ok violations) ∧
              (CheckFails (checkSetup tools rules block prepared.catalog t.files) queryFiles ↔
                (∃ v,Found (checkSetup tools rules block prepared.catalog t.files).toSetup queryFiles v ∧
                  v.severity = .error) ∨ ¬(prepared.analyzed.map (·.name)).Nodup ∨
                    ∃ v ∈ queryFiles.flatMap (emptyQueryFiles (checkSetup tools rules block prepared.catalog t.files)),
                      v.severity = .error))

end Provenance

end Scythe.Generation
