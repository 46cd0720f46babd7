import Scythe.Literals

-- The SQL of a query as a double-quoted string of Ruby, where a `#` before a
-- brace, a global variable or an instance variable is replaced by a value.
namespace Scythe
open StringLiteral

def escapeRubyDoubleQuoted (sql : List Char) : List Char := escapeInterpolatingDoubleQuoted '#' sql

def emitRuby (sql : List Char) : List Char := '"' :: escapeRubyDoubleQuoted sql ++ ['"']

section Ruby

def isNameStart (c : Char) : Bool := Text.asciiIsLower c || Text.asciiIsUpper c || c = '_' || 128 ≤ c.toNat

-- The special global variables of one character.
def globalPunctuation : List Char :=
  ['~','*','$','?','!','@','/','\\',';',',','.','=',':','<','>','"','&',Char.ofNat 0x60,'\'','+']

def startsName (cs : List Char) : Bool := (cs.head?.map isNameStart).getD false

def isGlobal (c : Char) : Bool := isNameStart c || Text.isDigit c || globalPunctuation.contains c

-- Whether a `#` is not text before these characters.
def interpolates : List Char → Bool
  | '$' :: '-' :: cs => startsName cs
  | '$' :: c :: _ => isGlobal c
  | '@' :: '@' :: cs => startsName cs
  | '@' :: cs => startsName cs
  | cs => opensBrace cs

def rubyEscapes : List (Char × Char) :=
  [('n','\n'),('t','\t'),('s',' '),('r','\r'),('f','\x0c'),('v','\x0b'),('a','\x07'),('e','\x1b'),('b','\x08')]

-- Escapes by number or of a control character are read as invalid, like all that
-- no emitted literal holds.
def rubyReading : List Char → Reading
  | '"' :: cs => .close cs
  | '\\' :: '\n' :: cs => .text [] cs
  | '\\' :: c :: cs =>
    if Text.isDigit c ∨ c ∈ ['x','u','c','C','M'] then .invalid else .text [(rubyEscapes.lookup c).getD c] cs
  | '\\' :: [] => .invalid
  | '#' :: cs => if interpolates cs then .invalid else .text ['#'] cs
  | c :: cs => .text [c] cs
  | [] => .invalid

-- A carriage return before a line feed is dropped, any other one stays.
def rubyLineEnds : LineEnds := ⟨some '\r',fun _ => false⟩

def decodeRuby (literal : List Char) : Option (List Char) :=
  (rubyLineEnds.translate literal).bind (opened ['"'] ⟨['"'],rubyReading⟩)

end Ruby

-- What the SQL has behind a `#` that Ruby takes for a variable. A backslash and
-- a quote come out as an escape, and so does a second `#` before a brace: the
-- backslash behind the `$` makes a variable, as does the quote that ends the literal.
def beginsVariable : List Char → Bool
  | ['$'] => true
  | '$' :: '-' :: cs => startsName cs
  | '$' :: '#' :: cs => opensBrace cs
  | '$' :: c :: _ => isGlobal c
  | '@' :: '@' :: cs => startsName cs
  | '@' :: cs => startsName cs
  | _ => false

def rubyPlain : List Char → Bool
  | '#' :: cs => !beginsVariable cs
  | _ => true

theorem escape_front (c : Char) (cs : List Char) :
    (∃ d,escapeRubyDoubleQuoted (c :: cs) = '\\' :: d :: escapeRubyDoubleQuoted cs ∧
      (c = '\\' ∨ c = '"' ∨ c = '#' ∧ opensBrace cs)) ∨
    (escapeRubyDoubleQuoted (c :: cs) = c :: escapeRubyDoubleQuoted cs ∧ c ≠ '\\' ∧ c ≠ '"' ∧
      ¬(c = '#' ∧ opensBrace cs)) := by
  change (∃ d,escapeInterpolatingDoubleQuoted '#' (c :: cs) = _ ∧ _) ∨
    escapeInterpolatingDoubleQuoted '#' (c :: cs) = _ ∧ _
  unfold escapeInterpolatingDoubleQuoted
  dsimp only
  split
  · rename_i backslash
    exact .inl ⟨'\\',rfl,.inl backslash⟩
  · split
    · rename_i quote
      exact .inl ⟨'"',rfl,.inr (.inl quote)⟩
    · split
      · rename_i marker
        exact .inl ⟨'#',rfl,.inr (.inr marker)⟩
      · rename_i backslash quote marker
        exact .inr ⟨rfl,backslash,quote,marker⟩

theorem startsName_escaped (cs : List Char) : startsName (escapeRubyDoubleQuoted cs ++ ['"']) = startsName cs := by
  cases cs with
  | nil => rfl
  | cons c cs =>
    rcases escape_front c cs with ⟨d,is,escaped⟩ | ⟨is,_⟩
    · rw [is]
      rcases escaped with rfl | rfl | ⟨rfl,_⟩
      · rfl
      · rfl
      · rfl
    · rw [is]
      rfl

theorem dollar_escaped (cs : List Char) :
    interpolates ('$' :: (escapeRubyDoubleQuoted cs ++ ['"'])) = beginsVariable ('$' :: cs) := by
  cases cs with
  | nil => rfl
  | cons c cs =>
    rcases escape_front c cs with ⟨d,is,escaped⟩ | ⟨is,_,_,unmarked⟩
    · rw [is]
      rcases escaped with rfl | rfl | ⟨rfl,opens⟩
      · rfl
      · rfl
      · exact opens.symm
    · rw [is]
      by_cases dash : c = '-'
      · subst dash
        exact startsName_escaped cs
      · by_cases hash : c = '#'
        · subst hash
          have closed : opensBrace cs = false := by simpa using unmarked
          exact closed.symm
        · simp [interpolates,beginsVariable]

theorem at_escaped (cs : List Char) :
    interpolates ('@' :: (escapeRubyDoubleQuoted cs ++ ['"'])) = beginsVariable ('@' :: cs) := by
  cases cs with
  | nil => rfl
  | cons c cs =>
    rcases escape_front c cs with ⟨d,is,escaped⟩ | ⟨is,_⟩
    · rw [is]
      rcases escaped with rfl | rfl | ⟨rfl,_⟩
      · rfl
      · rfl
      · rfl
    · rw [is]
      by_cases again : c = '@'
      · subst again
        exact startsName_escaped cs
      · simp [interpolates,beginsVariable,again,startsName]

-- A `#` that is left as it is stands before a variable in the literal exactly
-- where it does in the SQL.
theorem interpolates_escaped {cs : List Char} (closed : opensBrace cs = false) :
    interpolates (escapeRubyDoubleQuoted cs ++ ['"']) = beginsVariable cs := by
  cases cs with
  | nil => rfl
  | cons c cs =>
    rcases escape_front c cs with ⟨d,is,escaped⟩ | ⟨is,_⟩
    · rw [is]
      rcases escaped with rfl | rfl | ⟨rfl,_⟩
      · rfl
      · rfl
      · rfl
    · rw [is]
      by_cases dollar : c = '$'
      · subst dollar
        exact dollar_escaped cs
      · by_cases sign : c = '@'
        · subst sign
          exact at_escaped cs
        · have brace : c ≠ Char.ofNat 0x7b := by simpa [opensBrace] using closed
          simp [interpolates,beginsVariable,dollar,sign,opensBrace,brace]

theorem ruby_decides :
    (⟨['"'],rubyReading⟩ : Grammar).Decides rubyPlain escapeRubyDoubleQuoted := by
  refine ⟨rfl,fun c cs => ?_,rfl⟩
  change ∃ text,_ ∧ escapeInterpolatingDoubleQuoted '#' (c :: cs) = _ ∧ _
  unfold escapeInterpolatingDoubleQuoted
  dsimp only
  split
  · rename_i backslash
    subst backslash
    exact ⟨['\\','\\'],List.cons_ne_nil _ _,rfl,rfl⟩
  split
  · rename_i quote
    subst quote
    exact ⟨['\\','"'],List.cons_ne_nil _ _,rfl,rfl⟩
  split
  · rename_i marker
    obtain ⟨rfl,opens⟩ := marker
    refine ⟨['\\','#'],List.cons_ne_nil _ _,rfl,?_⟩
    have plain : rubyPlain ('#' :: cs) = true := by
      cases cs with
      | nil => rfl
      | cons c cs =>
        have brace : c = Char.ofNat 0x7b := by simpa [opensBrace] using opens
        subst brace
        rfl
    rw [plain]
    rfl
  · rename_i backslash quote marker
    refine ⟨[c],List.cons_ne_nil _ _,rfl,?_⟩
    by_cases hash : c = '#'
    · subst hash
      have closed : opensBrace cs = false := by simpa using marker
      change (if interpolates (escapeRubyDoubleQuoted cs ++ ['"']) then _ else _) = _
      rw [interpolates_escaped closed,rubyPlain]
      cases beginsVariable cs <;> rfl
    · have plain : rubyPlain (c :: cs) = true := by
        unfold rubyPlain
        split
        · rename_i is
          exact absurd (List.cons.inj is).1 hash
        · rfl
      rw [plain]
      change rubyReading (c :: (escapeRubyDoubleQuoted cs ++ ['"'])) = _
      unfold rubyReading
      split <;> simp_all

theorem opensBrace_translated {cs text : List Char} (is : rubyLineEnds.translate cs = some text) :
    opensBrace text = opensBrace cs := by
  fun_induction LineEnds.translate rubyLineEnds cs with
  | case1 => cases is; rfl
  | case2 cs =>
    obtain ⟨rest,_,rfl⟩ := Option.map_eq_some_iff.mp is
    rfl
  | case3 cs other =>
    obtain ⟨c,known,there⟩ := Option.bind_eq_some_iff.mp is
    obtain ⟨rest,_,rfl⟩ := Option.map_eq_some_iff.mp there
    cases known
    rfl
  | case4 => cases is
  | case5 c cs _ _ _ =>
    obtain ⟨rest,_,rfl⟩ := Option.map_eq_some_iff.mp is
    rfl

-- The escapes of one character depend on whether a brace follows it.
def rubyWritten (opens : Bool) (c : Char) : List Char :=
  if c = '\\' then ['\\','\\'] else if c = '"' then ['\\','"'] else
  if c = '#' ∧ opens then ['\\','#'] else [c]

theorem escape_cons (c : Char) (cs : List Char) :
    escapeRubyDoubleQuoted (c :: cs) = rubyWritten (opensBrace cs) c ++ escapeRubyDoubleQuoted cs := by
  change escapeInterpolatingDoubleQuoted '#' (c :: cs) = _
  unfold escapeInterpolatingDoubleQuoted rubyWritten
  dsimp only
  repeat' split
  all_goals rfl

theorem written_clean {c : Char} (plain : c ≠ '\r') (opens : Bool) : rubyLineEnds.Clean (rubyWritten opens c) := by
  intro d member
  refine ⟨?_,rfl⟩
  unfold rubyWritten at member
  split at member
  · rcases List.mem_pair.mp member with rfl | rfl <;> decide
  split at member
  · rcases List.mem_pair.mp member with rfl | rfl <;> decide
  split at member
  · rcases List.mem_pair.mp member with rfl | rfl <;> decide
  · rw [List.mem_singleton.mp member]
    exact plain

theorem feed_escaped {cs rest : List Char} (is : escapeRubyDoubleQuoted cs ++ ['"'] = '\n' :: rest) :
    ∃ rest,cs = '\n' :: rest := by
  cases cs with
  | nil => cases is
  | cons c cs =>
    rcases escape_front c cs with ⟨d,front,_⟩ | ⟨front,_⟩
    · rw [front] at is
      cases is
    · rw [front] at is
      cases is
      exact ⟨cs,rfl⟩

-- The line ends of the literal are those of the SQL.
theorem escaped_translated (cs : List Char) :
    rubyLineEnds.translate (escapeRubyDoubleQuoted cs ++ ['"']) =
      (rubyLineEnds.translate cs).map fun text => escapeRubyDoubleQuoted text ++ ['"'] := by
  fun_induction LineEnds.translate rubyLineEnds cs with
  | case1 => rfl
  | case2 cs ih =>
    change rubyLineEnds.translate ('\r' :: '\n' :: (escapeRubyDoubleQuoted cs ++ ['"'])) = _
    rw [LineEnds.translate,ih,Option.map_map,Option.map_map]
    rfl
  | case3 cs other ih =>
    change rubyLineEnds.translate ('\r' :: (escapeRubyDoubleQuoted cs ++ ['"'])) = _
    rw [LineEnds.translate_return,ih]
    · cases rubyLineEnds.translate cs <;> rfl
    · intro rest is
      obtain ⟨after,starts⟩ := feed_escaped is
      exact other after starts
  | case4 c cs _ _ banned => cases banned
  | case5 c cs _ notReturn _ ih =>
    have plain : c ≠ '\r' := fun same => notReturn same
    rw [escape_cons,List.append_assoc,LineEnds.translate_append (written_clean plain _),ih]
    cases is : rubyLineEnds.translate cs with
    | none => rfl
    | some text => simp [escape_cons,opensBrace_translated is]

-- The literal denotes the SQL exactly when no carriage return stands before a line
-- feed in it, and no `#` before what Ruby takes for a variable.
theorem ruby_round_trip_iff (sql : List Char) :
    decodeRuby (emitRuby sql) = some sql ↔
      ¬['\r','\n'] <:+: sql ∧ ∀ before after,sql = before ++ '#' :: after → beginsVariable after = false := by
  have quoteClean : rubyLineEnds.Clean ['"'] := by
    intro c member
    rw [List.mem_singleton.mp member]
    exact ⟨by decide,rfl⟩
  have plain : Throughout rubyPlain sql ↔
      ∀ before after,sql = before ++ '#' :: after → beginsVariable after = false := by
    constructor
    · intro all before after is
      have here := all '#' after ⟨before,is.symm⟩
      simpa [rubyPlain] using here
    · intro all c rest suffix
      obtain ⟨before,is⟩ := suffix
      unfold rubyPlain
      split
      · rename_i after same
        cases same
        rw [all before _ is.symm]
        rfl
      · rfl
  rw [← plain,← @LineEnds.translate_kept_iff rubyLineEnds rfl fun _ => rfl]
  change (rubyLineEnds.translate (['"'] ++ (escapeRubyDoubleQuoted sql ++ ['"']))).bind _ = _ ↔ _
  rw [LineEnds.translate_append quoteClean,escaped_translated,Option.map_map,Option.bind_map,Option.bind_eq_some_iff]
  constructor
  · rintro ⟨text,is,read⟩
    have opens := (opened_emitted ['"'] ⟨['"'],rubyReading⟩ (escapeRubyDoubleQuoted text ++ ['"'])).symm.trans read
    obtain ⟨same,all⟩ := (ruby_decides.body_iff text sql).mp opens
    subst same
    exact ⟨is,all⟩
  · rintro ⟨is,all⟩
    refine ⟨sql,is,?_⟩
    exact (opened_emitted ['"'] ⟨['"'],rubyReading⟩ _).trans ((ruby_decides.body_iff sql sql).mpr ⟨rfl,all⟩)

-- An instance variable of the caller and the name of the program.
theorem ruby_reads_a_variable :
    decodeRuby (emitRuby "SELECT '#@name'".toList) = none ∧ decodeRuby (emitRuby "SELECT '#$0'".toList) = none :=
  ⟨rfl,rfl⟩

end Scythe
