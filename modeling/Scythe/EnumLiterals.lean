import Scythe.Lib.Verbatim
import Scythe.RubyLiterals
import Scythe.ScriptLiterals

-- The labels of an enum as literals of the generated code. Go, Python, Ruby and
-- JavaScript get a label as it is, only TypeScript has it escaped.
namespace Scythe.EnumDefinitions
open StringLiteral

inductive EnumTarget where
  | goPgx
  | pythonPsycopg3
  | rubyPg
  | zod
  | javascript
  deriving DecidableEq

def labelLiteral (value : List Char) : EnumTarget → List Char
  | .zod => '"' :: escapeTsDoubleQuotedLiteral value ++ ['"']
  | _ => '"' :: value ++ ['"']

section Hosts

-- The escapes behind a backslash that give a character by its number or its name, or
-- with a key held down. None is shorter than what it denotes.
structure NumberedEscapes where
  reading : List Char → Option (List Char × List Char)
  within : ∀ cs value rest,reading cs = some (value,rest) → ∃ taken,cs = taken ++ rest ∧ value.length ≤ taken.length

def NumberedEscapes.read (numbered : NumberedEscapes) (cs : List Char) : Reading :=
  match numbered.reading cs with
  | some parts => .text parts.1 parts.2
  | none => .invalid

variable (numbered : NumberedEscapes)

def octalDigits : List Char := ['0','1','2','3','4','5','6','7']

def goEscapes : List (Char × Char) :=
  ('a','\x07') :: ('b','\x08') :: ('f','\x0c') :: ('v','\x0b') :: ('\\','\\') :: ('"','"') :: controls

-- Neither a line feed nor what no source file may hold stands in a literal.
def goQuoted : List Char → Reading
  | '"' :: cs => .close cs
  | '\\' :: c :: cs => if c ∈ ['x','u','U'] ++ octalDigits then numbered.read (c :: cs) else simpleEscape goEscapes c cs
  | '\\' :: [] => .invalid
  | c :: cs => if c ∈ ['\n','\x00','\ufeff'] then .invalid else .text [c] cs
  | [] => .invalid

def pythonEscapes : List (Char × Char) :=
  ('a','\x07') :: ('b','\x08') :: ('f','\x0c') :: ('v','\x0b') :: backslashQuote ++ controls

-- An escape that is none stays as it is.
def pythonQuoted : List Char → Reading
  | '"' :: cs => .close cs
  | '\\' :: '\n' :: cs => .text [] cs
  | '\\' :: c :: cs =>
    if c ∈ ['x','u','U','N'] ++ octalDigits then numbered.read (c :: cs) else
    match pythonEscapes.lookup c with
    | some value => .text [value] cs
    | none => .text ['\\',c] cs
  | '\\' :: [] => .invalid
  | '\n' :: _ => .invalid
  | c :: cs => .text [c] cs
  | [] => .invalid

def rubyQuoted : List Char → Reading
  | '\\' :: c :: cs =>
    if Text.isDigit c ∨ c ∈ ['x','u','c','C','M'] then numbered.read (c :: cs) else rubyReading ('\\' :: c :: cs)
  | cs => rubyReading cs

def scriptQuoted : List Char → Reading
  | '\\' :: c :: cs =>
    if Text.isDigit c ∨ c = 'x' ∨ c = 'u' then numbered.read (c :: cs) else quotedReading '"' ('\\' :: c :: cs)
  | cs => quotedReading '"' cs

def decodeLabel (literal : List Char) : EnumTarget → Option (List Char)
  | .goPgx => opened ['"'] ⟨['"'],goQuoted numbered⟩ literal
  | .pythonPsycopg3 => (pythonLineEnds.translate literal).bind (opened ['"'] ⟨['"'],pythonQuoted numbered⟩)
  | .rubyPg => (rubyLineEnds.translate literal).bind (opened ['"'] ⟨['"'],rubyQuoted numbered⟩)
  | .zod | .javascript => opened ['"'] ⟨['"'],scriptQuoted numbered⟩ literal

end Hosts

-- A backslash that Python keeps, with what is behind it.
def keptEscape (c : Char) : Bool :=
  c ≠ '\n' && !((['x','u','U','N'] ++ octalDigits).contains c) && (pythonEscapes.lookup c).isNone

def pythonPlain : List Char → Bool
  | '\\' :: c :: cs => keptEscape c && pythonPlain cs
  | '\\' :: [] => false
  | c :: cs => c ≠ '"' && c ≠ '\n' && pythonPlain cs
  | [] => true

-- The quote that closes the literal may be the name of a variable.
def rubyPlainFront : List Char → Bool
  | '#' :: cs => !interpolates cs
  | c :: _ => c ≠ '"' && c ≠ '\\'
  | [] => true

-- The labels that a target's definitions carry.
def Carries (label : List Char) : EnumTarget → Prop
  | .goPgx => ∀ c ∈ label,c ∉ ['"','\\','\n','\x00','\ufeff']
  | .pythonPsycopg3 => (∀ c ∈ label,c ≠ '\r' ∧ c ≠ '\x00') ∧ pythonPlain label
  | .rubyPg => ¬['\r','\n'] <:+: label ∧ Throughout (fun cs => rubyPlainFront (cs ++ ['"'])) label
  | .zod => ∀ c ∈ label,c ≠ '\r' ∧ c ≠ '\n'
  | .javascript => ∀ c ∈ label,c ∉ ['"','\\','\n','\r']

section Readings
variable {numbered : NumberedEscapes}

-- What is taken is longer than what it denotes.
def Shortens (cs value rest : List Char) : Prop := ∃ taken,cs = taken ++ rest ∧ value.length < taken.length

theorem Shortens.taken {cs value rest : List Char} (shortens : Shortens cs value rest) :
    ∃ taken,cs = taken ++ rest ∧ taken ≠ [] ∧ (value = taken ∨ value.length < taken.length) := by
  obtain ⟨taken,same,shorter⟩ := shortens
  exact ⟨taken,same,List.length_pos_iff.mp (Nat.zero_lt_of_lt shorter),.inr shorter⟩

theorem read_shortens {cs value rest : List Char} (is : numbered.read cs = .text value rest) :
    Shortens ('\\' :: cs) value rest := by
  unfold NumberedEscapes.read at is
  split at is
  · rename_i parts found
    cases is
    obtain ⟨taken,same,within⟩ := numbered.within _ _ _ found
    exact ⟨'\\' :: taken,congrArg (List.cons '\\') same,Nat.lt_succ_of_le within⟩
  · cases is

theorem read_open {cs rest : List Char} : numbered.read cs ≠ .close rest := by
  unfold NumberedEscapes.read
  split
  · exact Reading.noConfusion
  · exact Reading.noConfusion

theorem simple_shortens {table : List (Char × Char)} {c : Char} {cs value rest : List Char}
    (is : simpleEscape table c cs = .text value rest) : Shortens ('\\' :: c :: cs) value rest := by
  unfold simpleEscape at is
  split at is
  · cases is
    exact ⟨['\\',c],rfl,Nat.lt_succ_self 1⟩
  · cases is

theorem simple_open {table : List (Char × Char)} {c : Char} {cs rest : List Char} : simpleEscape table c cs ≠ .close rest := by
  unfold simpleEscape
  split
  · exact Reading.noConfusion
  · exact Reading.noConfusion

def goPlainFront (cs : List Char) : Bool := cs.head?.all fun c => !(['"','\\','\n','\x00','\ufeff'].contains c)

theorem go_plain (c : Char) (cs : List Char) (plain : goPlainFront (c :: cs) = true) :
    goQuoted numbered (c :: cs) = .text [c] cs := by
  have other : c ∉ ['"','\\','\n','\x00','\ufeff'] := by simpa [goPlainFront] using plain
  unfold goQuoted
  split <;> simp_all

theorem go_other (c : Char) (cs value rest : List Char) (other : goPlainFront (c :: cs) = false)
    (is : goQuoted numbered (c :: cs) = .text value rest) : Shortens (c :: cs) value rest := by
  unfold goQuoted at is
  split at is
  · cases is
  · rename_i equal
    rw [equal]
    split at is
    · exact read_shortens is
    · exact simple_shortens is
  · cases is
  · rename_i d ds quote escape last equal
    cases equal
    split at is
    · cases is
    · have plain : goPlainFront (c :: cs) = true := by
        have backslash : c ≠ '\\' := by
          intro same
          cases cs with
          | nil => exact last same rfl
          | cons e es => exact escape e es same rfl
        simp_all [goPlainFront]
      exact absurd (plain.symm.trans other) (by decide)
  · cases is

theorem go_closed (cs rest : List Char) (is : goQuoted numbered cs = .close rest) : cs = ['"'] ++ rest := by
  unfold goQuoted at is
  split at is
  · cases is
    rfl
  · split at is
    · exact absurd is read_open
    · exact absurd is simple_open
  · cases is
  · split at is <;> cases is
  · cases is

theorem scriptEscape_shortens {cs value rest : List Char} (is : scriptEscape cs = .text value rest) :
    Shortens ('\\' :: cs) value rest := by
  unfold scriptEscape at is
  split at is
  · cases is
    exact ⟨['\\','\r','\n'],rfl,Nat.zero_lt_succ _⟩
  · split at is
    · cases is
      exact ⟨['\\',_],rfl,Nat.zero_lt_succ _⟩
    · split at is
      · cases is
      · cases is
        exact ⟨['\\',_],rfl,Nat.lt_succ_self 1⟩
  · cases is

theorem scriptEscape_open {cs rest : List Char} : scriptEscape cs ≠ .close rest := by
  unfold scriptEscape
  split
  · exact Reading.noConfusion
  · split
    · exact Reading.noConfusion
    · split <;> exact Reading.noConfusion
  · exact Reading.noConfusion

def scriptPlainFront (cs : List Char) : Bool := cs.head?.all fun c => !(['"','\\','\n','\r'].contains c)

theorem script_plain (c : Char) (cs : List Char) (plain : scriptPlainFront (c :: cs) = true) :
    scriptQuoted numbered (c :: cs) = .text [c] cs := by
  have other : c ∉ ['"','\\','\n','\r'] := by simpa [scriptPlainFront] using plain
  unfold scriptQuoted
  split
  · simp_all
  · unfold quotedReading
    split <;> simp_all

theorem script_other (c : Char) (cs value rest : List Char) (other : scriptPlainFront (c :: cs) = false)
    (is : scriptQuoted numbered (c :: cs) = .text value rest) : Shortens (c :: cs) value rest := by
  unfold scriptQuoted at is
  split at is
  · rename_i equal
    rw [equal]
    split at is
    · exact read_shortens is
    · exact scriptEscape_shortens is
  · unfold quotedReading at is
    split at is
    · cases is
    · rename_i equal
      rw [equal]
      exact scriptEscape_shortens is
    · rename_i backslash equal
      cases equal
      split at is
      · cases is
      · split at is
        · cases is
        · have plain : scriptPlainFront (c :: cs) = true := by simp_all [scriptPlainFront]
          exact absurd (plain.symm.trans other) (by decide)

theorem script_closed (cs rest : List Char) (is : scriptQuoted numbered cs = .close rest) : cs = ['"'] ++ rest := by
  unfold scriptQuoted at is
  split at is
  · split at is
    · exact absurd is read_open
    · exact absurd is scriptEscape_open
  · unfold quotedReading at is
    split at is
    · cases is
    · exact absurd is scriptEscape_open
    · split at is
      · rename_i quote
        cases is
        rw [quote]
        rfl
      · split at is <;> cases is

theorem rubyEscape_shortens {c : Char} {cs value rest : List Char} (is : rubyReading ('\\' :: c :: cs) = .text value rest) :
    Shortens ('\\' :: c :: cs) value rest := by
  unfold rubyReading at is
  split at is
  · cases is
  · rename_i equal
    cases equal
    cases is
    exact ⟨['\\','\n'],rfl,Nat.zero_lt_succ _⟩
  · rename_i equal
    cases equal
    split at is
    · cases is
    · cases is
      exact ⟨['\\',c],rfl,Nat.lt_succ_self 1⟩
  · cases is
  · rename_i equal
    cases equal
  · rename_i quote feed escape last hash equal
    cases equal
    exact absurd rfl (escape c cs rfl)
  · cases is

theorem ruby_plain (c : Char) (cs : List Char) (plain : rubyPlainFront (c :: cs) = true) :
    rubyQuoted numbered (c :: cs) = .text [c] cs := by
  unfold rubyPlainFront at plain
  unfold rubyQuoted rubyReading
  split at plain <;> simp_all

theorem ruby_other (c : Char) (cs value rest : List Char) (other : rubyPlainFront (c :: cs) = false)
    (is : rubyQuoted numbered (c :: cs) = .text value rest) : Shortens (c :: cs) value rest := by
  unfold rubyQuoted at is
  split at is
  · rename_i equal
    rw [equal]
    split at is
    · exact read_shortens is
    · exact rubyEscape_shortens is
  · unfold rubyPlainFront at other
    unfold rubyReading at is
    split at is <;> simp_all
    rename_i escape last
    cases rest with
    | nil => exact absurd rfl last
    | cons e es => exact absurd rfl (escape e es)

theorem ruby_closed (cs rest : List Char) (is : rubyQuoted numbered cs = .close rest) : cs = ['"'] ++ rest := by
  unfold rubyQuoted at is
  split at is
  · split at is
    · exact absurd is read_open
    · unfold rubyReading at is
      split at is <;> simp_all
  · unfold rubyReading at is
    split at is <;> simp_all
    split at is <;> cases is

theorem kept_iff {c : Char} : keptEscape c = true ↔
    c ≠ '\n' ∧ c ∉ ['x','u','U','N'] ++ octalDigits ∧ pythonEscapes.lookup c = none := by
  unfold keptEscape
  rw [Bool.and_eq_true,Bool.and_eq_true,decide_eq_true_iff,Bool.not_eq_true',Option.isNone_iff_eq_none,and_assoc,
    ← Bool.not_eq_true,List.contains_iff_mem]

theorem python_kept {c : Char} (kept : keptEscape c = true) (cs : List Char) :
    pythonQuoted numbered ('\\' :: c :: cs) = .text ['\\',c] cs := by
  obtain ⟨feed,other,unknown⟩ := kept_iff.mp kept
  rw [pythonQuoted]
  · rw [if_neg other,unknown]
  · exact feed

theorem python_plain {c : Char} (plain : c ≠ '\\' ∧ c ≠ '"' ∧ c ≠ '\n') (cs : List Char) :
    pythonQuoted numbered (c :: cs) = .text [c] cs := by
  unfold pythonQuoted
  split <;> simp_all

-- A reading of Python that is as long as its text is one character or an escape that
-- stays.
theorem python_reads {cs value rest : List Char} (is : pythonQuoted numbered cs = .text value rest) :
    Shortens cs value rest ∨ (∃ c,keptEscape c ∧ cs = '\\' :: c :: rest ∧ value = ['\\',c]) ∨
      ∃ c,(c ≠ '\\' ∧ c ≠ '"' ∧ c ≠ '\n') ∧ cs = c :: rest ∧ value = [c] := by
  unfold pythonQuoted at is
  split at is
  · cases is
  · cases is
    exact .inl ⟨['\\','\n'],rfl,Nat.zero_lt_succ _⟩
  · rename_i c behind feed
    split at is
    · exact .inl (read_shortens is)
    · split at is
      · cases is
        exact .inl ⟨['\\',c],rfl,Nat.lt_succ_self 1⟩
      · cases is
        exact .inr (.inl ⟨c,kept_iff.mpr ⟨feed,‹_›,‹_›⟩,rfl,rfl⟩)
  · cases is
  · cases is
  · rename_i c behind quote feed escape last line
    cases is
    refine .inr (.inr ⟨c,⟨?_,quote,line⟩,rfl,rfl⟩)
    intro same
    cases rest with
    | nil => exact last same rfl
    | cons e es => exact escape e es same rfl
  · cases is

theorem python_closed (cs rest : List Char) (is : pythonQuoted numbered cs = .close rest) : cs = ['"'] ++ rest := by
  unfold pythonQuoted at is
  split at is
  · cases is
    rfl
  · cases is
  · split at is
    · exact absurd is read_open
    · split at is <;> cases is
  all_goals cases is

end Readings

section Exactness

theorem sparing_of {reading : List Char → Reading} {plain : List Char → Bool}
    (single : ∀ c cs,plain (c :: cs) = true → reading (c :: cs) = .text [c] cs)
    (other : ∀ c cs value rest,plain (c :: cs) = false → reading (c :: cs) = .text value rest → Shortens (c :: cs) value rest)
    (nothing : reading [] = .invalid) (closed : ∀ cs rest,reading cs = .close rest → cs = ['"'] ++ rest)
    (closes : reading ['"'] = .close []) : (⟨['"'],reading⟩ : Grammar).Sparing := by
  refine ⟨closed,fun cs value rest is => ?_,closes⟩
  change reading cs = .text value rest at is
  cases cs with
  | nil =>
    rw [nothing] at is
    cases is
  | cons c cs =>
    cases front : plain (c :: cs) with
    | true =>
      rw [single c cs front] at is
      cases is
      exact ⟨[c],rfl,List.cons_ne_nil _ _,.inl rfl⟩
    | false => exact (other c cs value rest front is).taken

theorem throughout_heads {p : Char → Bool} {closing text : List Char} :
    Throughout (fun cs => (cs ++ closing).head?.all p) text ↔ ∀ c ∈ text,p c = true := by
  induction text with
  | nil => exact ⟨fun _ c absent => absurd absent List.not_mem_nil,fun _ c rest suffix => by cases List.suffix_nil.mp suffix⟩
  | cons c cs ih => rw [throughout_cons,ih,List.forall_mem_cons,List.cons_append,List.head?_cons,Option.all_some]

variable (numbered : NumberedEscapes)

theorem go_sparing : (⟨['"'],goQuoted numbered⟩ : Grammar).Sparing := sparing_of go_plain go_other rfl go_closed rfl

theorem script_sparing : (⟨['"'],scriptQuoted numbered⟩ : Grammar).Sparing :=
  sparing_of script_plain script_other rfl script_closed rfl

theorem ruby_sparing : (⟨['"'],rubyQuoted numbered⟩ : Grammar).Sparing :=
  sparing_of ruby_plain ruby_other rfl ruby_closed rfl

theorem python_sparing : (⟨['"'],pythonQuoted numbered⟩ : Grammar).Sparing := by
  refine ⟨python_closed,fun cs value rest is => ?_,rfl⟩
  rcases python_reads is with shorter | ⟨c,-,rfl,rfl⟩ | ⟨c,-,rfl,rfl⟩
  · exact shorter.taken
  · exact ⟨['\\',c],rfl,List.cons_ne_nil _ _,.inl rfl⟩
  · exact ⟨[c],rfl,List.cons_ne_nil _ _,.inl rfl⟩

-- By the pieces that Python reads, an escape being one of two characters.
theorem python_verbatim (label : List Char) : (⟨['"'],pythonQuoted numbered⟩ : Grammar).Verbatim label ↔ pythonPlain label := by
  constructor
  · intro verbatim
    induction verbatim with
    | nil => rfl
    | @step taken rest written reads later ih =>
      rcases python_reads reads with ⟨front,same,shorter⟩ | ⟨c,kept,-,rfl⟩ | ⟨c,plain,-,rfl⟩
      · cases List.append_cancel_right same
        exact absurd shorter (lt_irrefl _)
      · change pythonPlain ('\\' :: c :: rest) = true
        rw [pythonPlain,kept,ih]
        rfl
      · change pythonPlain (c :: rest) = true
        rw [pythonPlain]
        · simp [plain,ih]
        · exact fun d ds same => absurd same plain.1
        · exact fun same => absurd same plain.1
  · intro plain
    fun_induction pythonPlain label with
    | case1 c cs ih =>
      obtain ⟨kept,later⟩ := Bool.and_eq_true_iff.mp plain
      exact Grammar.Verbatim.step (List.cons_ne_nil '\\' [c]) (python_kept kept _) (ih later)
    | case2 => cases plain
    | case3 c cs escape last ih =>
      simp only [Bool.and_eq_true,decide_eq_true_eq] at plain
      obtain ⟨⟨quote,feed⟩,later⟩ := plain
      have backslash : c ≠ '\\' := by
        intro same
        cases cs with
        | nil => exact last same rfl
        | cons d ds => exact escape d ds same rfl
      exact Grammar.Verbatim.step (List.cons_ne_nil c []) (python_plain ⟨backslash,quote,feed⟩ _) (ih later)
    | case4 => exact .nil

theorem opened_verbatim_iff {g : Grammar} (sparing : g.Sparing) (opening label : List Char) :
    opened opening g (opening ++ (label ++ g.closing)) = some label ↔ g.Verbatim label := by
  rw [opened_emitted,sparing.body_iff]

-- Neither the line ends nor the literal can make up for what the other takes away.
theorem translated_verbatim_iff {reading : List Char → Reading} (sparing : (⟨['"'],reading⟩ : Grammar).Sparing)
    {ends : LineEnds} (allowed : ends.forbidden '"' = false) (label : List Char) :
    (ends.translate ('"' :: label ++ ['"'])).bind (opened ['"'] ⟨['"'],reading⟩) = some label ↔
      ends.translate label = some label ∧ (⟨['"'],reading⟩ : Grammar).Verbatim label := by
  have clean : ends.Clean ['"'] := List.forall_mem_singleton.mpr ⟨by decide,allowed⟩
  have moved := ends.translate_between clean clean (by decide) label
  change (ends.translate (['"'] ++ (label ++ ['"']))).bind _ = _ ↔ _
  rw [moved]
  constructor
  · intro is
    obtain ⟨whole,translated,read⟩ := Option.bind_eq_some_iff.mp is
    obtain ⟨text,there,rfl⟩ := Option.map_eq_some_iff.mp translated
    rw [opened_emitted] at read
    obtain ⟨within,same⟩ := sparing.body_within read
    obtain ⟨rfl,verbatim⟩ := same (le_antisymm within (LineEnds.translate_length there))
    exact ⟨there,verbatim⟩
  · rintro ⟨there,verbatim⟩
    rw [there,Option.map_some,Option.bind_some]
    exact (opened_verbatim_iff sparing ['"'] label).mpr verbatim

theorem escaped_decides : (⟨['"'],scriptQuoted numbered⟩ : Grammar).Decides quotedPlain escapeTsDoubleQuotedLiteral := by
  refine ⟨rfl,fun c cs => ?_,rfl⟩
  unfold escapeTsDoubleQuotedLiteral
  rw [escapeQuoted_cons (.inl rfl)]
  refine ⟨_,?_,rfl,?_⟩
  · split <;> exact List.cons_ne_nil _ _
  · split
    · rename_i escaped
      rcases escaped with rfl | rfl <;> rfl
    · rename_i plain
      obtain ⟨backslash,quote⟩ := not_or.mp plain
      change scriptQuoted numbered (c :: _) = _
      rw [scriptQuoted,quotedReading]
      · rw [if_neg quote]
        by_cases ends : c = '\n' ∨ c = '\r'
        · have ended : quotedPlain (c :: cs) = false := by rcases ends with rfl | rfl <;> rfl
          rw [if_pos ends,ended]
          rfl
        · rw [if_neg ends,if_pos (by simpa [quotedPlain,not_or] using ends)]
          rfl
      · exact backslash
      · exact fun d ds same => absurd (List.cons.inj same).1 backslash

theorem throughout_quotedPlain {text : List Char} : Throughout quotedPlain text ↔ ∀ c ∈ text,c ≠ '\r' ∧ c ≠ '\n' := by
  induction text with
  | nil => exact ⟨fun _ c absent => absurd absent List.not_mem_nil,fun _ c rest suffix => by cases List.suffix_nil.mp suffix⟩
  | cons c cs ih =>
    rw [throughout_cons,ih,List.forall_mem_cons]
    exact and_congr_left fun _ => by simp [quotedPlain,and_comm]

theorem plain_heads {banned closing text : List Char} :
    Throughout (fun cs => (cs ++ closing).head?.all fun c => !(banned.contains c)) text ↔ ∀ c ∈ text,c ∉ banned :=
  throughout_heads.trans (forall₂_congr fun c _ => by simp)

theorem label_literal_iff (target : EnumTarget) (label : List Char) :
    decodeLabel numbered (labelLiteral label target) target = some label ↔ Carries label target := by
  cases target with
  | goPgx =>
    refine (opened_verbatim_iff (go_sparing numbered) ['"'] label).trans ?_
    exact (Grammar.verbatim_throughout go_plain go_other label).trans plain_heads
  | pythonPsycopg3 =>
    refine (translated_verbatim_iff (python_sparing numbered) rfl label).trans ?_
    refine and_congr ?_ (python_verbatim numbered label)
    rw [LineEnds.translate_self_iff (by decide)]
    exact forall₂_congr fun c _ => and_congr_right fun _ => by simp [pythonLineEnds]
  | rubyPg =>
    refine (translated_verbatim_iff (ruby_sparing numbered) rfl label).trans ?_
    refine and_congr (LineEnds.translate_kept_iff rfl fun _ => rfl) ?_
    exact Grammar.verbatim_throughout ruby_plain ruby_other label
  | zod =>
    refine (iff_of_eq (congrArg (· = some label) (opened_emitted ['"'] _ _))).trans ?_
    refine ((escaped_decides numbered).body_iff label label).trans ?_
    exact (and_iff_right rfl).trans throughout_quotedPlain
  | javascript =>
    refine (opened_verbatim_iff (script_sparing numbered) ['"'] label).trans ?_
    exact (Grammar.verbatim_throughout script_plain script_other label).trans plain_heads

end Exactness

end Scythe.EnumDefinitions
