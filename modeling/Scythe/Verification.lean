import Scythe.Provenance

namespace Scythe.Verification
open Text FieldLine

-- What a header holds as it is: names, versions and fingerprints have nothing to escape.
structure HeaderText where
  text : List Char
  plain : text.any needsEscape = false

-- The form of every fingerprint: the tag of its algorithm and the digits of a hash.
def fingerprintText (tag : List Char) (hash : UInt64) : List Char :=
  tag ++ ':' :: (List.replicate (16 - (Nat.toDigits 16 hash.toNat).length) '0' ++ Nat.toDigits 16 hash.toNat)

-- One build as a header records it. Only the engine is the user's own text.
structure Stamp where
  version : HeaderText
  backend : HeaderText
  engine : List Char
  schema : HeaderText
  queries : HeaderText
  options : HeaderText

inductive FilePreamble where
  | empty
  | frozenStringLiteral
  | phpOpenTag

def FilePreamble.text : FilePreamble → List Char
  | .empty => []
  | .frozenStringLiteral => "# frozen_string_literal: true\n".toList
  | .phpOpenTag => "<?php\n".toList

def assembleFile (preamble header body : List Char) : List Char :=
  let separator := if preamble = [] then [] else ['\n']
  preamble ++ header ++ separator ++ body

def provenanceHeaderLine (language : String) (stamp : Stamp) : List Char :=
  buildHeaderLine language ⟨stamp.version.text,stamp.backend.text,stamp.engine,stamp.schema.text,
    stamp.queries.text,some stamp.options.text⟩

def assembleOutput (preamble : FilePreamble) (language : String) (stamp : Stamp) (body : List Char) : List Char :=
  assembleFile preamble.text (provenanceHeaderLine language stamp) body

def splitInclusive : List Char → List (List Char)
  | [] => []
  | c :: cs =>
    if c = '\n' then [c] :: splitInclusive cs else
    match splitInclusive cs with
    | [] => [[c]]
    | line :: rest => (c :: line) :: rest

-- Only a line that ends loses its ending, and a carriage return before it.
def lineText (line : List Char) : List Char :=
  if line.getLast? = some '\n' then
    if line.dropLast.getLast? = some '\r' then line.dropLast.dropLast else line.dropLast
  else line

def lines (content : List Char) : List (List Char) := (splitInclusive content).map lineText

def provenanceScanLines : Nat := 20

structure ProvenanceHeader where
  version : Option (List Char) := none
  backend : Option (List Char) := none
  engine : Option (List Char) := none
  schema : Option (List Char) := none
  queries : Option (List Char) := none
  options : Option (List Char) := none

-- A key that is written twice keeps its last value, and an unknown one is no error.
def ProvenanceHeader.set (header : ProvenanceHeader) (key value : List Char) : ProvenanceHeader :=
  if key = "v".toList then { header with version := some value } else
  if key = "backend".toList then { header with backend := some value } else
  if key = "engine".toList then { header with engine := some value } else
  if key = "schema".toList then { header with schema := some value } else
  if key = "queries".toList then { header with queries := some value } else
  if key = "options".toList then { header with options := some value } else header

def ProvenanceHeader.read (header : ProvenanceHeader) (token : List Char) : ProvenanceHeader :=
  match splitField token with
  | none => header
  | some (key,value) => header.set key value

def ProvenanceHeader.missingFields (header : ProvenanceHeader) : List String :=
  [(header.version.isNone,"v"),(header.backend.isNone,"backend"),(header.engine.isNone,"engine"),
    (header.schema.isNone,"schema")].filterMap fun field => if field.1 then some field.2 else none

def ProvenanceHeader.isComplete (header : ProvenanceHeader) : Bool := header.missingFields.isEmpty

def headerLine (content : List Char) : Option (List Char) :=
  ((lines content).take provenanceScanLines).find? fun line => (splitFirst headerSentinel line).isSome

def readTail (tail : List Char) : ProvenanceHeader := (words (trimChars tail)).foldl .read {}

def parseProvenanceHeader (content : List Char) : Option ProvenanceHeader :=
  (headerLine content).bind fun line => (splitFirst headerSentinel line).map fun parts => readTail parts.2

inductive Severity where
  | off
  | warn
  | error
  deriving DecidableEq,Repr

structure QueryViolation where
  queryName : List Char
  ruleId : String
  severity : Severity
  message : List Char

structure ProvenanceSeverities where
  schemaDrift : Severity
  versionDrift : Severity
  backendDrift : Severity
  engineDrift : Severity
  missingHeader : Severity
  malformedHeader : Severity
  unverifiable : Severity
  queryDrift : Severity
  optionsDrift : Severity

structure ProvenanceExpectation where
  targetLabel : List Char
  backendName : List Char
  engine : List Char
  schema : List Char
  queries : List Char
  options : List Char
  version : List Char
  severities : ProvenanceSeverities

-- The outcome of reading the file.
inductive Artifact where
  | absent
  | unreadable (error : List Char)
  | content (text : List Char)

namespace ProvenanceExpectation
variable (expected : ProvenanceExpectation) (pathDisplay : List Char)

def unverifiable (error : List Char) : QueryViolation where
  queryName := expected.targetLabel
  ruleId := "SC-PRV07"
  severity := expected.severities.unverifiable
  message := pathDisplay ++ ": cannot verify provenance: ".toList ++ error

def missingHeader : QueryViolation where
  queryName := expected.targetLabel
  ruleId := "SC-PRV05"
  severity := expected.severities.missingHeader
  message := pathDisplay ++
    ": no provenance header found (predates provenance tracking, or is not scythe-managed)".toList

def malformedHeader (missing : List String) : QueryViolation where
  queryName := expected.targetLabel
  ruleId := "SC-PRV06"
  severity := expected.severities.malformedHeader
  message := pathDisplay ++ ": provenance header is missing field(s): ".toList ++ (join ", " missing).toList

def schemaDrift (header : List Char) : QueryViolation where
  queryName := expected.targetLabel
  ruleId := "SC-PRV01"
  severity := expected.severities.schemaDrift
  message := pathDisplay ++ ": schema drift -- generated against schema ".toList ++ header ++
    ", current schema is ".toList ++ expected.schema ++ " (run `scythe generate` to refresh)".toList

def queryDrift (header : List Char) : QueryViolation where
  queryName := expected.targetLabel
  ruleId := "SC-PRV08"
  severity := expected.severities.queryDrift
  message := pathDisplay ++ ": query drift -- generated against queries ".toList ++ header ++
    ", current queries are ".toList ++ expected.queries ++ " (run `scythe generate` to refresh)".toList

def optionsDrift (header : List Char) : QueryViolation where
  queryName := expected.targetLabel
  ruleId := "SC-PRV11"
  severity := expected.severities.optionsDrift
  message := pathDisplay ++ ": options drift -- generated with options ".toList ++ header ++
    ", current [[sql.gen]] options are ".toList ++ expected.options ++ " (run `scythe generate` to refresh)".toList

def backendDrift (header : List Char) : QueryViolation where
  queryName := expected.targetLabel
  ruleId := "SC-PRV03"
  severity := expected.severities.backendDrift
  message := pathDisplay ++ ": generated by backend '".toList ++ header ++
    "', but this target now configures backend '".toList ++ expected.backendName ++
    "' (run `scythe generate` to refresh)".toList

def engineDrift (header : List Char) : QueryViolation where
  queryName := expected.targetLabel
  ruleId := "SC-PRV04"
  severity := expected.severities.engineDrift
  message := pathDisplay ++ ": generated for engine '".toList ++ header ++
    "', but this target now configures engine '".toList ++ expected.engine ++
    "' (run `scythe generate` to refresh)".toList

def versionDrift (header : List Char) : QueryViolation where
  queryName := expected.targetLabel
  ruleId := "SC-PRV02"
  severity := expected.severities.versionDrift
  message := pathDisplay ++ ": generated by scythe ".toList ++ header ++ ", this is scythe ".toList ++
    expected.version ++ " (consider running `scythe generate`)".toList

end ProvenanceExpectation

def drift (header current : List Char) (finding : List Char → QueryViolation) : List QueryViolation :=
  if header ≠ current then [finding header] else []

-- A field that the header may lack is compared only where it is there.
def driftIfPresent (header : Option (List Char)) (current : List Char) (finding : List Char → QueryViolation) :
    List QueryViolation :=
  header.toList.flatMap fun value => drift value current finding

def verifyArtifact (pathDisplay : List Char) (artifact : Artifact) (expected : ProvenanceExpectation) :
    List QueryViolation :=
  match artifact with
  | .absent => []
  | .unreadable error => [expected.unverifiable pathDisplay error]
  | .content text =>
    match parseProvenanceHeader text with
    | none => [expected.missingHeader pathDisplay]
    | some header =>
      if !header.isComplete then [expected.malformedHeader pathDisplay header.missingFields] else
      -- A complete header has these four.
      let headerSchema := header.schema.getD []
      let headerVersion := header.version.getD []
      let headerBackend := header.backend.getD []
      let headerEngine := header.engine.getD []
      drift headerSchema expected.schema (expected.schemaDrift pathDisplay) ++
        driftIfPresent header.queries expected.queries (expected.queryDrift pathDisplay) ++
        driftIfPresent header.options expected.options (expected.optionsDrift pathDisplay) ++
        drift headerBackend expected.backendName (expected.backendDrift pathDisplay) ++
        drift headerEngine expected.engine (expected.engineDrift pathDisplay) ++
        drift headerVersion expected.version (expected.versionDrift pathDisplay)

-- What a target is checked against. The engine is escaped first, as the header has it.
def expectation (targetLabel : List Char) (severities : ProvenanceSeverities) (stamp : Stamp) :
    ProvenanceExpectation where
  targetLabel
  backendName := stamp.backend.text
  engine := sanitizeField stamp.engine
  schema := stamp.schema.text
  queries := stamp.queries.text
  options := stamp.options.text
  version := stamp.version.text
  severities

theorem splitInclusive_line {line : List Char} (unbroken : '\n' ∉ line) (rest : List Char) :
    splitInclusive (line ++ '\n' :: rest) = (line ++ ['\n']) :: splitInclusive rest := by
  induction line with
  | nil => simp [splitInclusive]
  | cons c line ih =>
    have other : c ≠ '\n' := fun equal => unbroken (equal ▸ List.mem_cons_self)
    have tail := ih fun member => unbroken (List.mem_cons_of_mem _ member)
    rw [List.cons_append,splitInclusive,if_neg other,tail]
    rfl

theorem lineText_line {line : List Char} (plain : '\r' ∉ line) : lineText (line ++ ['\n']) = line := by
  have kept : line.getLast? ≠ some '\r' := fun last => plain (List.mem_of_getLast? last)
  simp [lineText,kept]

theorem lines_line {line : List Char} (unbroken : '\n' ∉ line) (plain : '\r' ∉ line) (rest : List Char) :
    lines (line ++ '\n' :: rest) = line :: lines rest := by
  unfold lines
  rw [splitInclusive_line unbroken,List.map_cons,lineText_line plain]

section
variable (language : String) (fields : HeaderFields)

def commentLine : List Char := commentPrefix language ++ ([' '] ++ headerSentinel ++ headerTail language fields)

theorem commentLine_blank {c : Char} (member : c ∈ commentLine language fields) (blank : isSpace c) : c = ' ' := by
  have opener : (commentPrefix language).all (fun c => !isSpace c) = true := by
    unfold commentPrefix
    split <;> rfl
  rcases List.mem_append.mp member with inPrefix | inBody
  · have solid := List.all_eq_true.mp opener c inPrefix
    rw [blank] at solid
    cases solid
  rcases List.mem_append.mp inBody with front | inTail
  · rcases List.mem_append.mp front with space | inSentinel
    · exact List.mem_singleton.mp space
    · rcases headerSentinel_literal c inSentinel with space | other
      · exact space
      · rw [other.1] at blank
        cases blank
  · exact headerTail_blank inTail blank

theorem commentLine_unbroken : '\n' ∉ commentLine language fields := by
  intro member
  have space := commentLine_blank language fields member rfl
  cases space

theorem commentLine_returnless : '\r' ∉ commentLine language fields := by
  intro member
  have space := commentLine_blank language fields member rfl
  cases space

theorem splitFirst_commentLine :
    splitFirst headerSentinel (commentLine language fields) =
      some (commentPrefix language ++ [' '],headerTail language fields) :=
  splitFirst_sentinel language _

theorem suffix_apart : Apart (headerSuffix language) := by
  unfold headerSuffix
  split
  · exact Or.inr ⟨' ',_,rfl,rfl⟩
  · exact Or.inl rfl

theorem suffix_unread : (words (headerSuffix language)).filterMap splitField = [] := by
  unfold headerSuffix
  split <;> rfl

-- The verifier reads every field as the header escapes it.
theorem headerTail_fields :
    (words (trimChars (headerTail language fields))).filterMap splitField =
      fields.entries.map fun field => (field.1,sanitizeField field.2) := by
  have keys : ∀ field ∈ fields.entries,Key field.1 :=
    fun field member => headerKeys_key _ (entries_headerKeys fields member)
  have ascii : ∀ c ∈ headerTail language fields,isSpace c → isAsciiSpace c :=
    fun c member => headerTail_ascii language fields c (List.mem_append_left _ member)
  have cut := headerCodec.words_entries keys (suffix_apart language)
  have read := headerCodec.splitField_entries keys
  rw [words_trimChars ascii]
  unfold headerTail
  refine (congrArg (List.filterMap splitField) cut).trans ?_
  rw [List.filterMap_append,suffix_unread,List.append_nil]
  exact read

end

theorem FilePreamble.oneLine (preamble : FilePreamble) :
    preamble.text = [] ∨ ∃ line,preamble.text = line ++ ['\n'] ∧ '\n' ∉ line ∧ '\r' ∉ line ∧
      ¬(splitFirst headerSentinel line).isSome := by
  cases preamble with
  | empty => exact Or.inl rfl
  | frozenStringLiteral => exact Or.inr ⟨"# frozen_string_literal: true".toList,rfl,by decide,by decide,by decide⟩
  | phpOpenTag => exact Or.inr ⟨"<?php".toList,rfl,by decide,by decide,by decide⟩

-- Nothing that stands before the header is taken for it.
theorem headerLine_assembled (preamble : FilePreamble) (language : String) (fields : HeaderFields) (body : List Char) :
    headerLine (assembleFile preamble.text (buildHeaderLine language fields) body) = some (commentLine language fields) := by
  have found : (splitFirst headerSentinel (commentLine language fields)).isSome := by
    rw [splitFirst_commentLine]
    rfl
  have first : ∀ rest,lines (buildHeaderLine language fields ++ rest) = commentLine language fields :: lines rest := by
    intro rest
    have split : buildHeaderLine language fields ++ rest = commentLine language fields ++ '\n' :: rest := by
      rw [buildHeaderLine_eq,List.append_assoc]
      rfl
    rw [split]
    exact lines_line (commentLine_unbroken language fields) (commentLine_returnless language fields) rest
  unfold headerLine
  rcases preamble.oneLine with none | ⟨line,text,unbroken,plain,other⟩
  · have whole : assembleFile [] (buildHeaderLine language fields) body = buildHeaderLine language fields ++ body := by
      simp [assembleFile]
    rw [none,whole,first,provenanceScanLines,List.take_succ_cons]
    exact @List.find?_cons_of_pos _ (fun line => (splitFirst headerSentinel line).isSome) _ _ found
  · have whole : assembleFile (line ++ ['\n']) (buildHeaderLine language fields) body =
        line ++ '\n' :: (buildHeaderLine language fields ++ ('\n' :: body)) := by simp [assembleFile]
    rw [text,whole,lines_line unbroken plain,first,provenanceScanLines,List.take_succ_cons,List.take_succ_cons]
    refine (@List.find?_cons_of_neg _ (fun line => (splitFirst headerSentinel line).isSome) _ _ other).trans ?_
    exact @List.find?_cons_of_pos _ (fun line => (splitFirst headerSentinel line).isSome) _ _ found

theorem readTail_eq (tail : List Char) :
    readTail tail = ((words (trimChars tail)).filterMap splitField).foldl (fun header field => header.set field.1 field.2) {} := by
  have folded : ∀ (tokens : List (List Char)) (header : ProvenanceHeader),tokens.foldl .read header =
      (tokens.filterMap splitField).foldl (fun header field => header.set field.1 field.2) header := by
    intro tokens
    induction tokens with
    | nil => exact fun header => rfl
    | cons token tokens ih =>
      intro header
      cases cut : splitField token with
      | none => simp [ProvenanceHeader.read,cut,ih]
      | some field => simp [ProvenanceHeader.read,cut,ih]
  exact folded _ _

-- What the verifier reads in a file is what the generator recorded, escaped.
theorem parse_assembled (preamble : FilePreamble) (language : String) (fields : HeaderFields) (body : List Char) :
    parseProvenanceHeader (assembleFile preamble.text (buildHeaderLine language fields) body) =
      some ⟨some (sanitizeField fields.version),some (sanitizeField fields.backend),some (sanitizeField fields.engine),
        some (sanitizeField fields.schema),some (sanitizeField fields.queries),fields.options.map sanitizeField⟩ := by
  unfold parseProvenanceHeader
  rw [headerLine_assembled,Option.bind_some,splitFirst_commentLine,Option.map_some,readTail_eq,headerTail_fields]
  obtain ⟨version,backend,engine,schema,queries,options⟩ := fields
  cases options <;> rfl

theorem ordinary_plain {c : Char} (is : Ordinary c) : needsEscape c = false := by
  have range := ordinary_range is
  have solid := ordinary_solid is
  have other : c ≠ '\\' := by
    rintro rfl
    revert range
    decide
  have printed : isControl c = false := by
    simp only [isControl,Bool.or_eq_false_iff,decide_eq_false_iff_not,Bool.and_eq_false_iff]
    omega
  simp [needsEscape,other,solid,printed]

theorem fingerprintText_plain {tag : List Char} (ordinary : ∀ c ∈ tag,Ordinary c) (hash : UInt64) :
    (fingerprintText tag hash).any needsEscape = false := by
  apply List.any_eq_false.mpr
  intro c member
  have plain : needsEscape c = false := by
    rcases List.mem_append.mp member with inTag | rest
    · exact ordinary_plain (ordinary c inTag)
    rcases List.mem_cons.mp rest with rfl | digits
    · rfl
    rcases List.mem_append.mp digits with padding | digit
    · exact (List.eq_of_mem_replicate padding) ▸ rfl
    · exact ordinary_plain (ordinary_hexDigits digit)
  rw [plain]
  exact Bool.false_ne_true

def HeaderText.fingerprint (tag : List Char) (ordinary : ∀ c ∈ tag,Ordinary c) (hash : UInt64) : HeaderText :=
  ⟨fingerprintText tag hash,fingerprintText_plain ordinary hash⟩

theorem HeaderText.sanitized (value : HeaderText) : sanitizeField value.text = value.text := by
  unfold sanitizeField
  rw [value.plain]
  rfl

-- The fields, in the order in which their findings are reported.
inductive StampField where
  | schema
  | queries
  | options
  | backend
  | engine
  | version

def stampFields : List StampField := [.schema,.queries,.options,.backend,.engine,.version]

def Stamp.value (stamp : Stamp) : StampField → List Char
  | .schema => stamp.schema.text
  | .queries => stamp.queries.text
  | .options => stamp.options.text
  | .backend => stamp.backend.text
  | .engine => stamp.engine
  | .version => stamp.version.text

def ProvenanceExpectation.finding (expected : ProvenanceExpectation) (pathDisplay : List Char) :
    StampField → List Char → QueryViolation
  | .schema => expected.schemaDrift pathDisplay
  | .queries => expected.queryDrift pathDisplay
  | .options => expected.optionsDrift pathDisplay
  | .backend => expected.backendDrift pathDisplay
  | .engine => expected.engineDrift pathDisplay
  | .version => expected.versionDrift pathDisplay

-- The findings for the fields in which two builds differ.
def driftFindings (pathDisplay : List Char) (expected : ProvenanceExpectation) (recorded current : Stamp) :
    List QueryViolation :=
  (stampFields.filter fun field => recorded.value field ≠ current.value field).map fun field =>
    expected.finding pathDisplay field (sanitizeField (recorded.value field))

theorem sanitizeField_inj {left right : List Char} : sanitizeField left = sanitizeField right ↔ left = right := by
  constructor
  · intro same
    have decoded := congrArg decodeField same
    rwa [decode_sanitize,decode_sanitize] at decoded
  · exact congrArg sanitizeField

theorem driftFindings_eq (pathDisplay : List Char) (expected : ProvenanceExpectation) (recorded current : Stamp) :
    driftFindings pathDisplay expected recorded current = stampFields.flatMap fun field =>
      drift (sanitizeField (recorded.value field)) (sanitizeField (current.value field))
        (expected.finding pathDisplay field) := by
  unfold driftFindings
  induction stampFields with
  | nil => rfl
  | cons field fields ih =>
    rw [List.flatMap_cons,← ih]
    unfold drift
    by_cases same : recorded.value field = current.value field
    · simp [same]
    · have apart : sanitizeField (recorded.value field) ≠ sanitizeField (current.value field) :=
        fun equal => same (sanitizeField_inj.mp equal)
      simp [same,apart]

theorem verify_assembled (pathDisplay targetLabel : List Char) (severities : ProvenanceSeverities)
    (preamble : FilePreamble) (language : String) (recorded current : Stamp) (body : List Char) :
    verifyArtifact pathDisplay (.content (assembleOutput preamble language recorded body))
        (expectation targetLabel severities current) =
      driftFindings pathDisplay (expectation targetLabel severities current) recorded current := by
  have read := parse_assembled preamble language ⟨recorded.version.text,recorded.backend.text,recorded.engine,
    recorded.schema.text,recorded.queries.text,some recorded.options.text⟩ body
  have complete : ∀ version backend engine schema queries options,
      (ProvenanceHeader.mk (some version) (some backend) (some engine) (some schema) queries options).isComplete :=
    fun _ _ _ _ _ _ => rfl
  unfold verifyArtifact assembleOutput provenanceHeaderLine
  simp only [read,complete,Bool.not_true,Bool.false_eq_true,if_false]
  rw [driftFindings_eq]
  simp only [stampFields,List.flatMap_cons,List.flatMap_nil,List.append_nil,Stamp.value,HeaderText.sanitized,
    ProvenanceExpectation.finding,expectation,driftIfPresent,Option.getD_some,Option.map_some,Option.toList_some,
    List.append_assoc]

-- Two builds that agree have no drift.
theorem driftFindings_self (pathDisplay : List Char) (expected : ProvenanceExpectation) (stamp : Stamp) :
    driftFindings pathDisplay expected stamp stamp = [] := by
  simp [driftFindings]

def Unreported (rule : String) (findings : List QueryViolation) : Prop := ∀ finding ∈ findings,finding.ruleId ≠ rule

theorem Unreported.append {rule : String} {left right : List QueryViolation} (first : Unreported rule left)
    (second : Unreported rule right) : Unreported rule (left ++ right) := by
  intro finding member
  rcases List.mem_append.mp member with inLeft | inRight
  · exact first finding inLeft
  · exact second finding inRight

theorem Unreported.drift {header current : List Char} {finding : List Char → QueryViolation} {rule : String}
    (named : ∀ value,(finding value).ruleId ≠ rule) : Unreported rule (drift header current finding) := by
  intro violation member
  unfold Verification.drift at member
  split at member
  · exact List.mem_singleton.mp member ▸ named header
  · cases member

theorem Unreported.driftIfPresent {header : Option (List Char)} {current : List Char}
    {finding : List Char → QueryViolation} {rule : String}
    (silent : header = none ∨ ∀ value,(finding value).ruleId ≠ rule) :
    Unreported rule (driftIfPresent header current finding) := by
  rcases silent with rfl | named
  · intro violation member
    cases member
  · intro violation member
    obtain ⟨value,_,inside⟩ := List.mem_flatMap.mp member
    exact Unreported.drift named violation inside

-- A field that the header lacks raises none of the findings that compare it.
theorem verify_unreported {pathDisplay text : List Char} {header : ProvenanceHeader} {rule : String}
    (expected : ProvenanceExpectation) (parsed : parseProvenanceHeader text = some header)
    (other : rule ∉ ["SC-PRV01","SC-PRV02","SC-PRV03","SC-PRV04","SC-PRV06"])
    (queries : header.queries = none ∨ "SC-PRV08" ≠ rule) (options : header.options = none ∨ "SC-PRV11" ≠ rule) :
    Unreported rule (verifyArtifact pathDisplay (.content text) expected) := by
  simp only [List.mem_cons,List.not_mem_nil,or_false,not_or] at other
  obtain ⟨schema,version,backend,engine,malformed⟩ := other
  unfold verifyArtifact
  simp only [parsed]
  split
  · intro finding member
    exact List.mem_singleton.mp member ▸ Ne.symm malformed
  · apply Unreported.append
    · apply Unreported.append
      · apply Unreported.append
        · apply Unreported.append
          · apply Unreported.append
            · exact Unreported.drift fun _ => Ne.symm schema
            · apply Unreported.driftIfPresent
              exact queries.imp_right fun apart _ => apart
          · apply Unreported.driftIfPresent
            exact options.imp_right fun apart _ => apart
        · exact Unreported.drift fun _ => Ne.symm backend
      · exact Unreported.drift fun _ => Ne.symm engine
    · exact Unreported.drift fun _ => Ne.symm version

theorem provenance_check_exact (pathDisplay targetLabel : List Char) (severities : ProvenanceSeverities) :
    (∀ (preamble : FilePreamble) (language : String) (stamp : Stamp) (body : List Char),
      verifyArtifact pathDisplay (.content (assembleOutput preamble language stamp body))
        (expectation targetLabel severities stamp) = []) ∧
    (∀ (preamble : FilePreamble) (language : String) (recorded current : Stamp) (body : List Char),
      verifyArtifact pathDisplay (.content (assembleOutput preamble language recorded body))
        (expectation targetLabel severities current) =
          driftFindings pathDisplay (expectation targetLabel severities current) recorded current) ∧
    ∀ (text : List Char) (header : ProvenanceHeader) (expected : ProvenanceExpectation),
      parseProvenanceHeader text = some header →
        (header.queries = none → Unreported "SC-PRV08" (verifyArtifact pathDisplay (.content text) expected)) ∧
        (header.options = none → Unreported "SC-PRV11" (verifyArtifact pathDisplay (.content text) expected)) := by
  refine ⟨?_,verify_assembled pathDisplay targetLabel severities,?_⟩
  · intro preamble language stamp body
    rw [verify_assembled]
    exact driftFindings_self pathDisplay _ stamp
  · intro text header expected parsed
    constructor
    · intro absent
      exact verify_unreported expected parsed (by decide) (Or.inl absent) (Or.inr (by decide))
    · intro absent
      exact verify_unreported expected parsed (by decide) (Or.inr (by decide)) (Or.inl absent)

-- A header of a version that had no options: whatever they are now, none is reported.
def fiveFields : HeaderFields where
  version := "0.14.0".toList
  backend := "rust-sqlx".toList
  engine := "postgresql".toList
  schema := "sch1:0123456789abcdef".toList
  queries := "q1:fedcba9876543210".toList
  options := none

def currentOptions : ProvenanceExpectation where
  targetLabel := "main:rust-sqlx".toList
  backendName := "rust-sqlx".toList
  engine := "postgresql".toList
  schema := "sch1:0123456789abcdef".toList
  queries := "q1:fedcba9876543210".toList
  options := "opt1:0011223344556677".toList
  version := "0.14.0".toList
  severities := ⟨.error,.warn,.error,.error,.warn,.error,.error,.error,.error⟩

theorem fiveFields_unreported :
    Unreported "SC-PRV11" (verifyArtifact "queries.rs".toList
      (.content (assembleFile FilePreamble.empty.text (buildHeaderLine "rust" fiveFields) [])) currentOptions) := by
  have parsed := parse_assembled .empty "rust" fiveFields []
  have exact := provenance_check_exact "queries.rs".toList currentOptions.targetLabel currentOptions.severities
  exact (exact.2.2 _ _ currentOptions parsed).2 rfl

end Scythe.Verification
