import Scythe.Literals

-- Texts as literals of the TypeScript and JavaScript that is generated.
namespace Scythe
open StringLiteral

def replaceChar (pattern : Char) (by' : List Char) (cs : List Char) : List Char :=
  substituted (fun c => if c = pattern then some by' else none) cs

-- Replace two characters wherever they stand together.
def replacePair (first second : Char) (by' : List Char) : List Char → List Char
  | c :: d :: cs =>
    if c = first ∧ d = second then by' ++ replacePair first second by' cs
    else c :: replacePair first second by' (d :: cs)
  | cs => cs

def escapeTsTemplateLiteral (sql : List Char) : List Char :=
  replacePair '$' '\x7b' ['\\','$','\x7b'] (replaceChar '\x60' ['\\','\x60'] (replaceChar '\\' ['\\','\\'] sql))

def escapeTsDoubleQuotedLiteral (sql : List Char) : List Char :=
  replaceChar '"' ['\\','"'] (replaceChar '\\' ['\\','\\'] sql)

def escapeTsSingleQuotedLiteral (value : List Char) : List Char :=
  replaceChar '\'' ['\\','\''] (replaceChar '\\' ['\\','\\'] value)

def isAsciiAlphabetic (c : Char) : Bool := Text.asciiIsLower c || Text.asciiIsUpper c

def isTsIdentifier : List Char → Bool
  | c :: cs => (isAsciiAlphabetic c || c = '_' || c = '$') &&
      cs.all fun c => isAsciiAlphabetic c || Text.isDigit c || c = '_' || c = '$'
  | [] => false

def tsPropertyKey (name : List Char) : List Char :=
  if isTsIdentifier name then name else '"' :: escapeTsDoubleQuotedLiteral name ++ ['"']

def tsMemberAccess (object name : List Char) : List Char :=
  if isTsIdentifier name then object ++ '.' :: name
  else object ++ '[' :: '"' :: escapeTsDoubleQuotedLiteral name ++ ['"',']']

def tsIndexAccess (object name : List Char) : List Char :=
  object ++ '[' :: '\'' :: escapeTsSingleQuotedLiteral name ++ ['\'',']']

-- The literals that the generators write for a text.
inductive ScriptLiteral where
  | template
  | propertyKey
  | memberAccess (object : List Char)
  | indexAccess (object : List Char)

def ScriptLiteral.emit (text : List Char) : ScriptLiteral → List Char
  | .template => '\x60' :: escapeTsTemplateLiteral text ++ ['\x60']
  | .propertyKey => tsPropertyKey text
  | .memberAccess object => tsMemberAccess object text
  | .indexAccess object => tsIndexAccess object text

-- The rules of ECMAScript. Escapes by number, which no emitted literal holds, are
-- read as invalid.
section Script

def scriptEscapes : List (Char × Char) :=
  [('b','\x08'),('f','\x0c'),('n','\n'),('r','\r'),('t','\t'),('v','\x0b')]

def isLineTerminator (c : Char) : Bool := c = '\n' || c = '\r' || c = '\u2028' || c = '\u2029'

-- Behind a backslash: a line that goes on, or a character that may stand for another.
def scriptEscape : List Char → Reading
  | '\r' :: '\n' :: cs => .text [] cs
  | c :: cs =>
    if isLineTerminator c then .text [] cs
    else if Text.isDigit c ∨ c = 'x' ∨ c = 'u' then .invalid
    else .text [(scriptEscapes.lookup c).getD c] cs
  | [] => .invalid

-- A line ends a quoted literal before it is closed.
def quotedReading (quote : Char) : List Char → Reading
  | [] => .invalid
  | '\\' :: cs => scriptEscape cs
  | c :: cs =>
    if c = quote then .close cs
    else if c = '\n' ∨ c = '\r' then .invalid
    else .text [c] cs

def templateReading : List Char → Reading
  | [] => .invalid
  | '\\' :: cs => scriptEscape cs
  | c :: cs =>
    if c = '\x60' then .close cs
    else if c = '$' ∧ opensBrace cs then .invalid
    else .text [c] cs

-- In a template every end of a line is a line feed.
def templateLineEnds : LineEnds := ⟨some '\n',fun _ => false⟩

def decodeTemplate (literal : List Char) : Option (List Char) :=
  (templateLineEnds.translate literal).bind (opened ['\x60'] ⟨['\x60'],templateReading⟩)

def decodeQuoted (quote : Char) (literal : List Char) : Option (List Char) :=
  opened [quote] ⟨[quote],quotedReading quote⟩ literal

-- A key or the property that an access reads, by a name or by a literal.
def propertyName (key : List Char) : Option (List Char) :=
  if isTsIdentifier key then some key else decodeQuoted '"' key

def bracketed (quote : Char) (access : List Char) : Option (List Char) :=
  (['['].isPrefixOf? access).bind fun rest => ([']'].isSuffixOf? rest).bind (decodeQuoted quote)

def accessedName (quote : Char) (object access : List Char) : Option (List Char) :=
  (object.isPrefixOf? access).bind fun rest =>
    match rest with
    | '.' :: name => if isTsIdentifier name then some name else none
    | _ => bracketed quote rest

def ScriptLiteral.decode (source : List Char) : ScriptLiteral → Option (List Char)
  | .template => decodeTemplate source
  | .propertyKey => propertyName source
  | .memberAccess object => accessedName '"' object source
  | .indexAccess object => accessedName '\'' object source

end Script

-- The characters that come out of a literal as they went in.
def ScriptLiteral.carries : ScriptLiteral → Char → Bool
  | .template,c => c ≠ '\r'
  | _,c => c ≠ '\r' && c ≠ '\n'

theorem replaceChar_cons (pattern : Char) (by' : List Char) (c : Char) (cs : List Char) :
    replaceChar pattern by' (c :: cs) = (if c = pattern then by' else [c]) ++ replaceChar pattern by' cs := by
  rw [replaceChar,substituted_cons]
  split <;> rfl

section Quoted
variable {quote : Char} (isQuote : quote = '"' ∨ quote = '\'')
include isQuote

-- Nothing that one replacement writes is replaced by the next.
theorem escapeQuoted_cons (c : Char) (cs : List Char) :
    replaceChar quote ['\\',quote] (replaceChar '\\' ['\\','\\'] (c :: cs)) =
      (if c = '\\' ∨ c = quote then ['\\',c] else [c]) ++
        replaceChar quote ['\\',quote] (replaceChar '\\' ['\\','\\'] cs) := by
  have other : ¬ '\\' = quote := by rcases isQuote with rfl | rfl <;> decide
  rw [replaceChar_cons]
  by_cases backslash : c = '\\'
  · rw [if_pos backslash,if_pos (.inl backslash),backslash]
    change replaceChar quote _ ('\\' :: '\\' :: _) = _
    rw [replaceChar_cons,replaceChar_cons,if_neg other]
    rfl
  · rw [if_neg backslash]
    rw [List.singleton_append,replaceChar_cons]
    by_cases quoted : c = quote
    · rw [if_pos quoted,if_pos (.inr quoted),quoted]
    · rw [if_neg quoted,if_neg (not_or.mpr ⟨backslash,quoted⟩)]

def quotedPlain : List Char → Bool
  | c :: _ => c ≠ '\n' && c ≠ '\r'
  | [] => true

theorem quoted_decides : (⟨[quote],quotedReading quote⟩ : Grammar).Decides quotedPlain fun cs =>
    replaceChar quote ['\\',quote] (replaceChar '\\' ['\\','\\'] cs) := by
  refine ⟨rfl,fun c cs => ?_,?_⟩
  · rw [escapeQuoted_cons isQuote]
    refine ⟨_,?_,rfl,?_⟩
    · split <;> exact List.cons_ne_nil _ _
    · split
      · rename_i escaped
        rcases escaped with rfl | rfl
        · rfl
        · rcases isQuote with rfl | rfl <;> rfl
      · rename_i plain
        obtain ⟨backslash,quoted⟩ := not_or.mp plain
        rw [List.singleton_append]
        change quotedReading quote (c :: _) = _
        rw [quotedReading]
        · rw [if_neg quoted]
          by_cases ends : c = '\n' ∨ c = '\r'
          · have ended : quotedPlain (c :: cs) = false := by rcases ends with rfl | rfl <;> rfl
            rw [if_pos ends,ended]
            rfl
          · rw [if_neg ends,if_pos (by simpa [quotedPlain,not_or] using ends)]
        · exact backslash
  · rcases isQuote with rfl | rfl <;> rfl

theorem decodeQuoted_iff (text : List Char) :
    decodeQuoted quote (quote :: replaceChar quote ['\\',quote] (replaceChar '\\' ['\\','\\'] text) ++ [quote]) =
        some text ↔ ∀ c ∈ text,c ≠ '\r' ∧ c ≠ '\n' := by
  have body := (quoted_decides isQuote).body_iff text text
  have opens := opened_emitted [quote] ⟨[quote],quotedReading quote⟩
    (replaceChar quote ['\\',quote] (replaceChar '\\' ['\\','\\'] text) ++ [quote])
  rw [← opens] at body
  refine body.trans ?_
  constructor
  · intro reads c member
    obtain ⟨before,after,is⟩ := List.append_of_mem member
    have here := reads.2 c after ⟨before,is.symm⟩
    simpa [quotedPlain,and_comm] using here
  · intro plain
    refine ⟨rfl,fun c rest suffix => ?_⟩
    have here := plain c (suffix.subset List.mem_cons_self)
    simpa [quotedPlain,and_comm] using here

end Quoted

section Template

def templateWritten (opens : Bool) (c : Char) : List Char :=
  if c = '\\' ∨ c = '\x60' ∨ c = '$' ∧ opens = true then ['\\',c] else [c]

theorem replacePair_other {first second : Char} {by' : List Char} {c : Char} (other : c ≠ first) (cs : List Char) :
    replacePair first second by' (c :: cs) = c :: replacePair first second by' cs := by
  cases cs with
  | nil => rfl
  | cons d cs => exact if_neg fun both => other both.1

-- What stands before the last replacement, character by character.
theorem replaced_front (cs : List Char) :
    opensBrace (replaceChar '\x60' ['\\','\x60'] (replaceChar '\\' ['\\','\\'] cs)) = opensBrace cs := by
  cases cs with
  | nil => rfl
  | cons c cs =>
    rw [replaceChar_cons]
    by_cases backslash : c = '\\'
    · rw [if_pos backslash,backslash]
      rfl
    · rw [if_neg backslash,List.singleton_append,replaceChar_cons]
      by_cases quote : c = '\x60'
      · rw [if_pos quote,quote]
        rfl
      · rw [if_neg quote]
        rfl

theorem escapeTemplate_cons (c : Char) (cs : List Char) :
    escapeTsTemplateLiteral (c :: cs) = templateWritten (opensBrace cs) c ++ escapeTsTemplateLiteral cs := by
  have front := replaced_front cs
  unfold escapeTsTemplateLiteral templateWritten
  rw [replaceChar_cons]
  by_cases backslash : c = '\\'
  · rw [if_pos backslash,if_pos (.inl backslash),backslash]
    change replacePair _ _ _ (replaceChar '\x60' _ ('\\' :: '\\' :: _)) = _
    rw [replaceChar_cons,replaceChar_cons,if_neg (by decide)]
    change replacePair _ _ _ ('\\' :: '\\' :: _) = _
    rw [replacePair_other (by decide),replacePair_other (by decide)]
    rfl
  · rw [if_neg backslash,List.singleton_append,replaceChar_cons]
    by_cases quote : c = '\x60'
    · rw [if_pos quote,if_pos (.inr (.inl quote)),quote]
      change replacePair _ _ _ ('\\' :: '\x60' :: _) = _
      rw [replacePair_other (by decide),replacePair_other (by decide)]
      rfl
    · rw [if_neg quote,List.singleton_append]
      by_cases dollar : c = '$'
      · subst dollar
        cases rest : replaceChar '\x60' ['\\','\x60'] (replaceChar '\\' ['\\','\\'] cs) with
        | nil =>
          rw [rest] at front
          rw [← front,if_neg (by simp [opensBrace])]
          rfl
        | cons d tail =>
          rw [rest] at front
          by_cases opens : d = '\x7b'
          · subst opens
            have brace : ¬ '\x7b' = '$' := by decide
            rw [← front,if_pos (.inr (.inr ⟨rfl,rfl⟩)),@replacePair_other _ _ _ '\x7b' brace]
            exact if_pos ⟨rfl,rfl⟩
          · have closed : opensBrace (d :: tail) = false := by
              simpa [opensBrace] using opens
            rw [← front,closed,if_neg (by simp)]
            exact if_neg fun both => opens both.2
      · rw [if_neg (by simp [backslash,quote,dollar]),replacePair_other dollar]
        rfl

-- A brace behind a `$` that is left alone was none, and the escapes bring up no other.
theorem opensBrace_template {cs : List Char} (opens : opensBrace (escapeTsTemplateLiteral cs ++ ['\x60'])) :
    opensBrace cs := by
  cases cs with
  | nil => cases opens
  | cons c cs =>
    rw [escapeTemplate_cons,templateWritten] at opens
    split at opens
    · cases opens
    · exact opens

theorem template_inverts :
    (⟨['\x60'],templateReading⟩ : Grammar).Inverts (fun _ => True) escapeTsTemplateLiteral := by
  refine ⟨rfl,fun _ _ _ => trivial,fun c cs _ => ?_,rfl⟩
  refine ⟨templateWritten (opensBrace cs) c,?_,escapeTemplate_cons c cs,?_⟩
  · unfold templateWritten
    split <;> exact List.cons_ne_nil _ _
  · unfold templateWritten
    split
    · rename_i escaped
      rcases escaped with rfl | rfl | ⟨rfl,-⟩ <;> rfl
    · rename_i plain
      rw [not_or,not_or] at plain
      obtain ⟨backslash,quote,dollar⟩ := plain
      rw [List.singleton_append]
      change templateReading (c :: _) = _
      rw [templateReading]
      · rw [if_neg quote,if_neg fun marker => dollar ⟨marker.1,opensBrace_template marker.2⟩]
      · exact backslash

theorem opensBrace_lines {cs text : List Char} (is : templateLineEnds.translate cs = some text) :
    opensBrace text = opensBrace cs := by
  fun_induction LineEnds.translate templateLineEnds cs generalizing text with
  | case1 =>
    cases is
    rfl
  | case2 cs _ =>
    obtain ⟨rest,-,rfl⟩ := Option.map_eq_some_iff.mp is
    rfl
  | case3 cs _ _ =>
    obtain ⟨c,known,there⟩ := Option.bind_eq_some_iff.mp is
    obtain ⟨rest,-,rfl⟩ := Option.map_eq_some_iff.mp there
    cases known
    rfl
  | case4 => cases is
  | case5 c cs _ _ _ _ =>
    obtain ⟨rest,-,rfl⟩ := Option.map_eq_some_iff.mp is
    rfl

theorem templateWritten_clean {c : Char} (plain : c ≠ '\r') (opens : Bool) :
    templateLineEnds.Clean (templateWritten opens c) := by
  intro d member
  refine ⟨?_,rfl⟩
  unfold templateWritten at member
  split at member
  · rcases List.mem_pair.mp member with rfl | rfl
    · decide
    · exact plain
  · rw [List.mem_singleton.mp member]
    exact plain

theorem template_feed {cs rest : List Char} (is : escapeTsTemplateLiteral cs ++ ['\x60'] = '\n' :: rest) :
    ∃ rest,cs = '\n' :: rest := by
  cases cs with
  | nil => cases is
  | cons c cs =>
    rw [escapeTemplate_cons,templateWritten] at is
    split at is
    · cases is
    · cases is
      exact ⟨cs,rfl⟩

-- The line ends of the literal are those of the text.
theorem template_translated (cs : List Char) :
    templateLineEnds.translate (escapeTsTemplateLiteral cs ++ ['\x60']) =
      (templateLineEnds.translate cs).map fun text => escapeTsTemplateLiteral text ++ ['\x60'] := by
  have plain (c : Char) (cs : List Char) (kept : ∀ opens,templateWritten opens c = [c]) :
      escapeTsTemplateLiteral (c :: cs) = c :: escapeTsTemplateLiteral cs := by
    rw [escapeTemplate_cons,kept]
    rfl
  have feed (cs : List Char) := plain '\n' cs fun opens => by simp [templateWritten]
  have ret (cs : List Char) := plain '\r' cs fun opens => by simp [templateWritten]
  fun_induction LineEnds.translate templateLineEnds cs with
  | case1 => rfl
  | case2 cs ih =>
    rw [ret,feed,List.cons_append,List.cons_append,LineEnds.translate,ih,Option.map_map,Option.map_map]
    exact congrArg (Option.map · _) (funext fun text => by simp [feed])
  | case3 cs other ih =>
    rw [ret,List.cons_append,LineEnds.translate_return,ih]
    · cases templateLineEnds.translate cs with
      | none => rfl
      | some text => simp [templateLineEnds,feed]
    · intro rest is
      obtain ⟨after,starts⟩ := template_feed is
      exact other after starts
  | case4 c cs _ _ banned => cases banned
  | case5 c cs _ notReturn _ ih =>
    have differs : c ≠ '\r' := fun same => notReturn same
    rw [escapeTemplate_cons,List.append_assoc,LineEnds.translate_append (templateWritten_clean differs _),ih]
    cases is : templateLineEnds.translate cs with
    | none => rfl
    | some text => simp [escapeTemplate_cons,opensBrace_lines is]

theorem decodeTemplate_iff (text : List Char) :
    decodeTemplate ('\x60' :: escapeTsTemplateLiteral text ++ ['\x60']) = some text ↔ ∀ c ∈ text,c ≠ '\r' := by
  have quoteClean : templateLineEnds.Clean ['\x60'] := by
    intro c member
    rw [List.mem_singleton.mp member]
    exact ⟨by decide,rfl⟩
  have lone : templateLineEnds.lone ≠ some '\r' := by decide
  have clean : templateLineEnds.Clean text ↔ ∀ c ∈ text,c ≠ '\r' :=
    ⟨fun all c member => (all c member).1,fun all c member => ⟨all c member,rfl⟩⟩
  rw [← clean,← LineEnds.translate_self_iff lone]
  change (templateLineEnds.translate (['\x60'] ++ (escapeTsTemplateLiteral text ++ ['\x60']))).bind _ = _ ↔ _
  rw [LineEnds.translate_append quoteClean,template_translated,Option.map_map,Option.bind_map,Option.bind_eq_some_iff]
  have reads (written : List Char) := opened_inverts template_inverts ['\x60'] written
  constructor
  · intro decoded
    obtain ⟨written,is,read⟩ := decoded
    have same : written = text := Option.some.inj ((reads written).symm.trans read)
    rw [same] at is
    exact is
  · intro is
    exact ⟨text,is,reads text⟩

end Template

theorem identifier_plain {name : List Char} (identifier : isTsIdentifier name) : ∀ c ∈ name,c ≠ '\r' ∧ c ≠ '\n' := by
  intro c member
  have all : ∀ d ∈ name,isAsciiAlphabetic d || Text.isDigit d || d = '_' || d = '$' := by
    cases name with
    | nil => exact fun d none => absurd none List.not_mem_nil
    | cons first rest =>
      obtain ⟨begins,others⟩ := Bool.and_eq_true_iff.mp identifier
      intro d inside
      rcases List.mem_cons.mp inside with rfl | later
      · revert begins
        cases isAsciiAlphabetic d <;> cases Text.isDigit d <;> simp
      · exact List.all_eq_true.mp others d later
  have here := all c member
  constructor
  · rintro rfl
    revert here
    decide
  · rintro rfl
    revert here
    decide

theorem bracketed_eq (quote : Char) (body : List Char) : bracketed quote ('[' :: (body ++ [']'])) = decodeQuoted quote body := by
  have suffix : [']'].isSuffixOf? (body ++ [']']) = some body := List.isSuffixOf?_eq_some_iff_append_eq.mpr rfl
  change ([']'].isSuffixOf? (body ++ [']'])).bind (decodeQuoted quote) = _
  rw [suffix,Option.bind_some]

theorem accessedName_bracket (quote : Char) (object body : List Char) :
    accessedName quote object (object ++ '[' :: (body ++ [']'])) = decodeQuoted quote body := by
  unfold accessedName
  rw [List.isPrefixOf?_eq_some_iff_append_eq.mpr rfl,Option.bind_some]
  exact bracketed_eq quote body

theorem accessedName_dot {quote : Char} {object name : List Char} (identifier : isTsIdentifier name) :
    accessedName quote object (object ++ '.' :: name) = some name := by
  unfold accessedName
  rw [List.isPrefixOf?_eq_some_iff_append_eq.mpr rfl,Option.bind_some]
  exact if_pos identifier

theorem quoted_access (quote : Char) (object escaped : List Char) :
    object ++ '[' :: quote :: escaped ++ [quote,']'] = object ++ '[' :: ((quote :: escaped ++ [quote]) ++ [']']) := by
  simp

theorem carries_quoted {literal : ScriptLiteral} (quoted : literal ≠ .template) (text : List Char) :
    (∀ c ∈ text,literal.carries c = true) ↔ ∀ c ∈ text,c ≠ '\r' ∧ c ≠ '\n' := by
  cases literal with
  | template => exact absurd rfl quoted
  | propertyKey => simp [ScriptLiteral.carries]
  | memberAccess => simp [ScriptLiteral.carries]
  | indexAccess => simp [ScriptLiteral.carries]

-- A literal denotes the text that it was written for exactly when every character of
-- the text is one that this kind of literal carries.
theorem script_round_trip_iff (literal : ScriptLiteral) (text : List Char) :
    literal.decode (literal.emit text) = some text ↔ ∀ c ∈ text,literal.carries c = true := by
  cases literal with
  | template =>
    refine (decodeTemplate_iff text).trans ?_
    simp [ScriptLiteral.carries]
  | propertyKey =>
    rw [carries_quoted fun is => ScriptLiteral.noConfusion is]
    change propertyName (tsPropertyKey text) = _ ↔ _
    unfold tsPropertyKey
    split
    · rename_i identifier
      rw [propertyName,if_pos identifier]
      exact ⟨fun _ => identifier_plain identifier,fun _ => rfl⟩
    · rw [propertyName,if_neg (by exact Bool.false_ne_true)]
      exact decodeQuoted_iff (.inl rfl) text
  | memberAccess object =>
    rw [carries_quoted fun is => ScriptLiteral.noConfusion is]
    change accessedName '"' object (tsMemberAccess object text) = _ ↔ _
    unfold tsMemberAccess
    split
    · rename_i identifier
      rw [accessedName_dot identifier]
      exact ⟨fun _ => identifier_plain identifier,fun _ => rfl⟩
    · rw [quoted_access,accessedName_bracket]
      exact decodeQuoted_iff (.inl rfl) text
  | indexAccess object =>
    rw [carries_quoted fun is => ScriptLiteral.noConfusion is]
    change accessedName '\'' object (tsIndexAccess object text) = _ ↔ _
    rw [tsIndexAccess,quoted_access,accessedName_bracket]
    exact decodeQuoted_iff (.inr rfl) text

-- A carriage return in a template is a line feed of its value, and a line feed in a
-- column's name ends the literal.
theorem script_literals_broken :
    ScriptLiteral.template.decode (ScriptLiteral.template.emit "'a\rb'".toList) = some "'a\nb'".toList ∧
      ScriptLiteral.propertyKey.decode (ScriptLiteral.propertyKey.emit "two\nlines".toList) = none ∧
        (ScriptLiteral.indexAccess "row".toList).decode
          ((ScriptLiteral.indexAccess "row".toList).emit "two\nlines".toList) = none := by
  refine ⟨?_,?_,?_⟩ <;> decide +kernel

end Scythe
