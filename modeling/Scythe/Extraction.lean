import Scythe.Cleaning
import Scythe.Lib.Cuts
import Scythe.Lib.Lexis
import Scythe.SchemaText

-- Where the statements of a schema begin and end, and which of them are taken out.
-- The splitter knows quotes and comments as they are without dollar quotes,
-- escapes and comments in comments.
namespace Scythe
open Text Lexis Cuts

def plainRules : Rules where
  brackets := false
  backticks := false
  nests := false
  alternative := false
  dollars := false
  escapes := false
  nameChar := fun _ => false

def plainCode (before : List Char) : Bool := (regionAfter plainRules before).isCode

theorem regionAfter_append (rules : Rules) (before read : List Char) :
    regionAfter rules (before ++ read) = read.foldl (step rules) (regionAfter rules before) := by
  simp [regionAfter]

-- What the automaton is in when a scanner is. It sees a mark of two characters one
-- by one, where a scanner looks at the next.
def InStep (mode : Quoting) (region : Region) (rest : List Char) : Prop :=
  match mode with
  | .code => region = .code .none ∨ (region = .dash ∧ rest.head? ≠ some '-') ∨ (region = .slash ∧ rest.head? ≠ some '*')
  | .lineComment => region = .line
  | .blockComment => region = .block 0 ∨ (region = .blockStar 0 ∧ rest.head? ≠ some '/')
  | .singleQuote => region = .literal
  | .doubleQuote => region = .quoted

theorem plain_ofCode (c : Char) : ofCode plainRules .none c =
    if c = '\'' then .literal else if c = '"' then .quoted else if c = '-' then .dash else if c = '/' then .slash
    else .code .none := by
  unfold ofCode
  split
  · rfl
  · split
    · rfl
    · simp [plainRules,Word.next]

-- In code, a character is read as at the start of a text.
theorem agrees_code {region : Region} {c : Char} {cs : List Char} (agrees : InStep .code region (c :: cs)) :
    region.isCode = true ∧ step plainRules region c = ofCode plainRules .none c := by
  obtain rfl | ⟨rfl,other⟩ | ⟨rfl,other⟩ := agrees
  · exact ⟨rfl,rfl⟩
  · exact ⟨rfl,if_neg fun same => other (congrArg some same)⟩
  · exact ⟨rfl,if_neg fun same => other (congrArg some same)⟩

-- One character read over, which is no mark that counts.
theorem single_read {c : Char} {region : Region} (quiet : c ≠ ';' ∨ region.isCode = false) :
    ∀ front back,[c] = front ++ ';' :: back → (front.foldl (step plainRules) region).isCode = false := by
  intro front back is
  cases front with
  | nil =>
    rw [List.nil_append,List.cons.injEq] at is
    exact quiet.resolve_left fun other => other is.1
  | cons d front => simp at is

theorem double_read {c d : Char} {region : Region} (first : c ≠ ';') (second : d ≠ ';') :
    ∀ front back,[c,d] = front ++ ';' :: back → (front.foldl (step plainRules) region).isCode = false := by
  intro front back is
  have member : ';' ∈ [c,d] := by rw [is]; simp
  simp [Ne.symm first,Ne.symm second] at member

structure ReadOver (region : Region) (text read : List Char) (next : Quoting) (rest : List Char) : Prop where
  text : text = read ++ rest
  some' : read ≠ []
  agrees : InStep next (read.foldl (step plainRules) region) rest
  quiet : ∀ front back : List Char,read = front ++ ';' :: back → (front.foldl (step plainRules) region).isCode = false

theorem comment_read {region : Region} {c : Char} {cs : List Char} (agrees : InStep .blockComment region (c :: cs)) :
    region.isCode = false ∧
      (c = '*' ∧ cs.head? = some '/' → step plainRules (step plainRules region '*') '/' = .code .none) ∧
      (¬(c = '*' ∧ cs.head? = some '/') → InStep .blockComment (step plainRules region c) cs) := by
  obtain rfl | ⟨rfl,other⟩ := agrees
  · refine ⟨rfl,fun _ => rfl,fun stays => ?_⟩
    by_cases star : c = '*'
    · subst star
      exact .inr ⟨rfl,fun slash => stays ⟨rfl,slash⟩⟩
    · exact .inl (by simp [step,star,plainRules])
  · have apart : c ≠ '/' := by simpa using other
    refine ⟨rfl,fun _ => rfl,fun stays => ?_⟩
    by_cases star : c = '*'
    · subst star
      exact .inr ⟨rfl,fun slash => stays ⟨rfl,slash⟩⟩
    · exact .inl (by simp [step,star,apart])

theorem quotedStep_read {mode : Quoting} {region : Region} {text read rest : List Char} {next : Quoting}
    (taken : quotedStep mode text = some (read,next,rest)) (agrees : InStep mode region text) :
    ReadOver region text read next rest := by
  cases text with
  | nil => cases taken
  | cons c cs =>
    cases mode with
    | lineComment =>
      cases agrees
      cases taken
      refine ⟨rfl,by simp,?_,single_read (.inr rfl)⟩
      by_cases newline : c = '\n'
      · simp [newline,InStep,step]
      · simp [newline,InStep,step]
    | blockComment =>
      obtain ⟨hidden,closes,stays⟩ := comment_read agrees
      simp only [quotedStep] at taken
      split at taken
      · rename_i ends
        cases taken
        obtain ⟨rfl,head⟩ := ends
        obtain ⟨tail,rfl⟩ := List.head?_eq_some_iff.mp head
        exact ⟨rfl,by simp,.inl (closes ⟨rfl,rfl⟩),double_read (by decide) (by decide)⟩
      · rename_i more
        cases taken
        exact ⟨rfl,by simp,stays more,single_read (.inr hidden)⟩
    | singleQuote =>
      cases agrees
      simp only [quotedStep] at taken
      split at taken
      · rename_i doubled
        cases taken
        obtain ⟨rfl,head⟩ := doubled
        obtain ⟨tail,rfl⟩ := List.head?_eq_some_iff.mp head
        exact ⟨rfl,by simp,rfl,double_read (by decide) (by decide)⟩
      · cases taken
        refine ⟨rfl,by simp,?_,single_read (.inr rfl)⟩
        by_cases quote : c = '\''
        · simp [quote,InStep,step]
        · simp [quote,InStep,step]
    | doubleQuote =>
      cases agrees
      cases taken
      refine ⟨rfl,by simp,?_,single_read (.inr rfl)⟩
      by_cases quote : c = '"'
      · simp [quote,InStep,step]
      · simp [quote,InStep,step]
    | code =>
      obtain ⟨-,steps⟩ := agrees_code agrees
      rw [plain_ofCode] at steps
      simp only [quotedStep] at taken
      split at taken
      · rename_i quote
        cases taken
        subst quote
        exact ⟨rfl,by simp,steps,single_read (.inl (by decide))⟩
      · split at taken
        · rename_i quote
          cases taken
          subst quote
          exact ⟨rfl,by simp,steps,single_read (.inl (by decide))⟩
        · split at taken
          · rename_i opens
            cases taken
            obtain ⟨rfl,head⟩ := opens
            obtain ⟨tail,rfl⟩ := List.head?_eq_some_iff.mp head
            refine ⟨rfl,by simp,?_,double_read (by decide) (by decide)⟩
            rw [List.foldl_cons,steps]
            rfl
          · split at taken
            · rename_i opens
              cases taken
              obtain ⟨rfl,head⟩ := opens
              obtain ⟨tail,rfl⟩ := List.head?_eq_some_iff.mp head
              refine ⟨rfl,by simp,.inl ?_,double_read (by decide) (by decide)⟩
              rw [List.foldl_cons,steps]
              rfl
            · cases taken

-- A character that is not read over is one of code, and the scanner stays in code.
theorem quotedStep_code {mode : Quoting} {region : Region} {c : Char} {cs : List Char}
    (code : quotedStep mode (c :: cs) = none) (agrees : InStep mode region (c :: cs)) :
    mode = .code ∧ region.isCode = true ∧ InStep .code (step plainRules region c) cs := by
  cases mode with
  | lineComment => cases code
  | blockComment => simp only [quotedStep] at code; split at code <;> cases code
  | singleQuote => simp only [quotedStep] at code; split at code <;> cases code
  | doubleQuote => cases code
  | code =>
    obtain ⟨isCode,steps⟩ := agrees_code agrees
    refine ⟨rfl,isCode,?_⟩
    rw [steps,plain_ofCode]
    simp only [quotedStep] at code
    split at code
    · cases code
    · split at code
      · cases code
      · split at code
        · cases code
        · split at code
          · cases code
          · rename_i single double dashes block
            rw [if_neg single,if_neg double]
            split
            · rename_i dash
              exact .inr (.inl ⟨rfl,fun next => dashes ⟨dash,next⟩⟩)
            · split
              · rename_i slash
                exact .inr (.inr ⟨rfl,fun next => block ⟨slash,next⟩⟩)
              · exact .inl rfl

def isBlank (current : List Char) : Bool := trimChars current = []

-- The statements of a text, cut behind the semicolons that count.
def statementsBy (live : List Char → Bool) (sql : List Char) : List (List Char) := cutWhere live ';' isBlank [] [] sql

theorem blank_unmarked (front back : List Char) : isBlank (front ++ ';' :: back) = false := by
  refine decide_eq_false fun blank => ?_
  have space := trimChars_nil.mp blank ';' (by simp)
  cases space

theorem unlessBlank_eq (current : List Char) : unlessBlank current = if isBlank current then [] else [current] := by
  simp [unlessBlank,isBlank]

theorem splitStatementsFrom_eq {fuel : Nat} {mode : Quoting} {before current text : List Char}
    (enough : text.length ≤ fuel) (agrees : InStep mode (regionAfter plainRules before) text) :
    splitStatementsFrom fuel mode current text = cutWhere plainCode ';' isBlank before current text := by
  induction fuel generalizing mode before current text with
  | zero =>
    cases List.length_eq_zero_iff.mp (Nat.le_zero.mp enough)
    exact unlessBlank_eq current
  | succ fuel ih =>
    cases text with
    | nil => exact unlessBlank_eq current
    | cons c cs =>
      cases taken : quotedStep mode (c :: cs) with
      | some parts =>
        obtain ⟨read,next,rest⟩ := parts
        have passed := quotedStep_read taken agrees
        have shorter : rest.length ≤ fuel := by
          have lengths := congrArg List.length passed.text
          have positive := List.length_pos_of_ne_nil passed.some'
          rw [List.length_append] at lengths
          omega
        have copied : cutWhere plainCode ';' isBlank before current (c :: cs) =
            cutWhere plainCode ';' isBlank (before ++ read) (current ++ read) rest := by
          rw [passed.text]
          refine cutWhere_copied fun front back is => ?_
          rw [plainCode,regionAfter_append]
          exact passed.quiet front back is
        rw [splitStatementsFrom,taken,copied]
        exact ih shorter (by rw [regionAfter_append]; exact passed.agrees)
      | none =>
        obtain ⟨rfl,isCode,stays⟩ := quotedStep_code taken agrees
        have shorter : cs.length ≤ fuel := Nat.le_of_succ_le_succ enough
        have next : InStep .code (regionAfter plainRules (before ++ [c])) cs := by
          rw [regionAfter_append]
          exact stays
        have counts : plainCode before = true := isCode
        rw [splitStatementsFrom,taken,cutWhere]
        by_cases semicolon : c = ';'
        · simp [semicolon,counts,ih shorter (semicolon ▸ next)]
        · simp [semicolon,ih shorter next]

theorem splitTopLevelStatements_eq (sql : List Char) : splitTopLevelStatements sql = statementsBy plainCode sql :=
  splitStatementsFrom_eq (Nat.le_refl _) (.inl rfl)

-- Two readings of the semicolons give the same statements.
theorem statementsBy_eq_iff (live other : List Char → Bool) (sql : List Char) :
    statementsBy live sql = statementsBy other sql ↔
      ∀ before after,sql = before ++ ';' :: after → after ≠ [] → live before = other before := by
  rw [statementsBy,statementsBy,cutWhere_eq_iff blank_unmarked rfl]
  simp only [List.nil_append]

-- A character of a comment, or of the mark that opens or ends one, is a blank.
def isComment : Region → Bool
  | .line => true
  | .block _ => true
  | .blockStar _ => true
  | .blockSlash _ => true
  | _ => false

def withoutComments (rules : Rules) : Region → List Char → List Char
  | _,[] => []
  | region,c :: cs =>
    let next := step rules region c
    let opens := decide (next = .dash ∨ next = .slash) && (cs.head?.map fun d => isComment (step rules next d)).getD false
    (if isComment region || isComment next || opens then ' ' else c) :: withoutComments rules next cs

-- The first words of a text, in upper case.
def leadingWords (rules : Rules) : Nat → List Char → List (List Char)
  | 0,_ => []
  | count + 1,cs =>
    let text := cs.dropWhile isSpace
    (text.takeWhile rules.nameChar).map asciiUpper :: leadingWords rules count (text.dropWhile rules.nameChar)

-- How the statements begin that are taken out.
def unsupportedPhrases (dialect : SqlDialect) : List (List String) :=
  [["CREATE","DOMAIN"],["CREATE","SCHEMA"]] ++ (if dialect = .oracle then [["CREATE","SEQUENCE"]] else []) ++
    (if dialect = .postgreSQL ∨ dialect = .oracle then
      [["CREATE","TRIGGER"],["CREATE","OR","REPLACE","TRIGGER"]] else [])

-- By the words of the language.
def Unsupported (rules : Rules) (dialect : SqlDialect) (raw : List Char) : Prop :=
  ∃ phrase ∈ unsupportedPhrases dialect,
    leadingWords rules phrase.length (withoutComments rules (.code .none) raw) = phrase.map String.toList

section
variable [CaseMap]

-- By the text: behind the comments, in upper case, with one space between the words.
def BeginsUnsupported (dialect : SqlDialect) (raw : List Char) : Prop :=
  isBlankOrComment (trimChars raw) = false ∧ ∃ phrase ∈ unsupportedPhrases dialect,
    (join " " phrase).toList <+: upperText (stripLeadingComments (trimChars raw))

def statementText (dialect : SqlDialect) (raw : List Char) : List Char :=
  if isBlankOrComment (trimChars raw) then raw else rewriteStatement dialect raw

-- The statements are those of the language and of the mask, and exactly the
-- unsupported ones are taken out.
structure ExtractsExactly (rules : Rules) (dialect : SqlDialect) (sql : List Char) : Prop where
  language : isOracleSlashScript dialect sql = false →
    rawStatements dialect sql = statementsBy (fun before => (regionAfter rules before).isCode) sql
  masked : isOracleSlashScript dialect sql = false →
    rawStatements dialect sql = statementsBy (fun before => outsideAt (sqlOutsideMask sql) before.length) sql
  removed : ∀ raw ∈ rawStatements dialect sql,Unsupported rules dialect raw ↔
    handleStatement dialect raw ≠ .kept (statementText dialect raw)

omit [CaseMap] in
theorem phrase_found (dialect : SqlDialect) (upper : List Char) :
    (∃ phrase ∈ unsupportedPhrases dialect,(join " " phrase).toList <+: upper) ↔
      "CREATE DOMAIN".toList.isPrefixOf upper = true ∨ "CREATE SCHEMA".toList.isPrefixOf upper = true ∨
        (dialect = .oracle ∧ "CREATE SEQUENCE".toList.isPrefixOf upper = true ∨
          (dialect = .postgreSQL ∨ dialect = .oracle) ∧ isCreateTrigger upper = true) := by
  have domain : (join " " ["CREATE","DOMAIN"]).toList = "CREATE DOMAIN".toList := rfl
  have schema : (join " " ["CREATE","SCHEMA"]).toList = "CREATE SCHEMA".toList := rfl
  have sequence' : (join " " ["CREATE","SEQUENCE"]).toList = "CREATE SEQUENCE".toList := rfl
  have trigger : (join " " ["CREATE","TRIGGER"]).toList = "CREATE TRIGGER".toList := rfl
  have replaced : (join " " ["CREATE","OR","REPLACE","TRIGGER"]).toList = "CREATE OR REPLACE TRIGGER".toList := rfl
  simp only [isCreateTrigger,Bool.or_eq_true,List.isPrefixOf_iff_prefix]
  unfold unsupportedPhrases
  by_cases oracle : dialect = .oracle
  · simp [oracle,domain,schema,sequence',trigger,replaced]
  · by_cases postgres : dialect = .postgreSQL
    · simp [postgres,domain,schema,trigger,replaced]
    · simp [oracle,postgres,domain,schema]

theorem handled_iff (dialect : SqlDialect) (raw : List Char) :
    handleStatement dialect raw ≠ .kept (statementText dialect raw) ↔ BeginsUnsupported dialect raw := by
  unfold handleStatement statementText BeginsUnsupported
  cases blank : isBlankOrComment (trimChars raw) with
  | true => simp
  | false =>
    rw [phrase_found]
    dsimp only
    simp only [Bool.false_eq_true,if_false,true_and]
    split
    · rename_i domain
      exact iff_of_true (by simp) (.inl domain)
    · rename_i domain
      split
      · rename_i schema
        exact iff_of_true (by simp) (.inr (.inl schema))
      · rename_i schema
        split
        · rename_i other
          exact iff_of_true (by simp) (.inr (.inr other))
        · rename_i other
          exact iff_of_false (fun taken => taken rfl) (not_or.mpr ⟨domain,not_or.mpr ⟨schema,other⟩⟩)

-- The statements are exactly those of the language just when every semicolon, but
-- for one that ends the text, stands in code or not alike for the plain reading, the
-- language's and the mask's; and exactly the unsupported ones are taken out just when
-- the texts that begin like one are those whose first words say so.
theorem extraction_exact_iff (rules : Rules) (dialect : SqlDialect) (sql : List Char) :
    ExtractsExactly rules dialect sql ↔
      (isOracleSlashScript dialect sql = false → ∀ before after,sql = before ++ ';' :: after → after ≠ [] →
        plainCode before = (regionAfter rules before).isCode ∧
          plainCode before = outsideAt (sqlOutsideMask sql) before.length) ∧
      ∀ raw ∈ rawStatements dialect sql,Unsupported rules dialect raw ↔ BeginsUnsupported dialect raw := by
  have plain (script : isOracleSlashScript dialect sql = false) :
      rawStatements dialect sql = statementsBy plainCode sql := by
    rw [rawStatements,script,← splitTopLevelStatements_eq]
    rfl
  constructor
  · intro exact'
    refine ⟨?_,?_⟩
    · intro script before after is more
      have language := exact'.language script
      have masked := exact'.masked script
      rw [plain script,statementsBy_eq_iff] at language masked
      exact ⟨language before after is more,masked before after is more⟩
    · intro raw member
      rw [← handled_iff]
      exact exact'.removed raw member
  · intro ⟨semicolons,words⟩
    refine ⟨?_,?_,?_⟩
    · intro script
      rw [plain script,statementsBy_eq_iff]
      exact fun before after is more => (semicolons script before after is more).1
    · intro script
      rw [plain script,statementsBy_eq_iff]
      exact fun before after is more => (semicolons script before after is more).2
    · intro raw member
      rw [handled_iff]
      exact words raw member

-- The rules of PostgreSQL.
def postgresLexis : Rules where
  brackets := false
  backticks := false
  nests := true
  alternative := false
  dollars := true
  escapes := true
  nameChar := fun c => CaseMap.isAlphanumeric c || ['_','$'].contains c

end

section
local instance extractionCase : CaseMap := ascii

-- The apostrophe in the body opens a literal that never ends, and the schema
-- behind the function stays in the text.
theorem apostrophe_in_a_body : ¬ExtractsExactly postgresLexis .postgreSQL "DO $$ it's $$; CREATE SCHEMA a;".toList := by
  intro exact'
  have language := exact'.language (by decide +kernel)
  revert language
  decide +kernel

end
end Scythe
