import Scythe.Provenance

-- Whether the languages that a header is written for read it as one comment.
namespace Scythe
open Text FieldLine

inductive HeaderLanguage where
  | csharp
  | elixir
  | go
  | java
  | kotlin
  | php
  | python
  | ruby
  | rust
  | typescript
deriving DecidableEq

def HeaderLanguage.name : HeaderLanguage → String
  | .csharp => "csharp"
  | .elixir => "elixir"
  | .go => "go"
  | .java => "java"
  | .kotlin => "kotlin"
  | .php => "php"
  | .python => "python"
  | .ruby => "ruby"
  | .rust => "rust"
  | .typescript => "typescript"

def HeaderLanguage.opener : HeaderLanguage → List Char
  | .elixir | .python | .ruby => ['#']
  | _ => ['/','/']

-- The line breaks of all the languages together.
def isLineBreak (c : Char) : Bool := c.toNat ∈ [0x0a,0x0b,0x0c,0x0d,0x85,0x2028,0x2029]

-- A one-line comment of PHP also ends before a closing tag.
def HeaderLanguage.endsAt (language : HeaderLanguage) (c d : Char) : Bool := language = .php && c == '?' && d == '>'

-- Characters that are no line break and may still stand in no comment: those that
-- change the direction of writing, and a byte order mark.
def HeaderLanguage.rejects : HeaderLanguage → Char → Bool
  | .elixir,c => (0x202a ≤ c.toNat && c.toNat ≤ 0x202e) || (0x2066 ≤ c.toNat && c.toNat ≤ 0x2069)
  | .go,c => c.toNat = 0xfeff
  | _,_ => false

-- What is left behind the text of a comment.
def HeaderLanguage.readComment (language : HeaderLanguage) : List Char → Option (List Char)
  | [] => some []
  | c :: cs =>
    if isLineBreak c || cs.head?.any (language.endsAt c) then some (c :: cs) else
    if language.rejects c then none else language.readComment cs

-- Java translates Unicode escapes before it reads tokens. A backslash behind
-- another one opens none.
def javaUnescape : List Char → Option (List Char)
  | [] => some []
  | '\\' :: '\\' :: cs => (javaUnescape cs).map fun text => '\\' :: '\\' :: text
  | '\\' :: 'u' :: cs =>
    match _h : cs.dropWhile (· = 'u') with
    | a :: b :: c :: d :: rest =>
      (hexNat [a,b,c,d]).bind fun unit => (javaUnescape rest).map fun text => Char.ofNat unit :: text
    | _ => none
  | c :: cs => (javaUnescape cs).map fun text => c :: text
termination_by cs => cs.length
decreasing_by
  · simp only [List.length_cons]
    omega
  · have shorter := (List.dropWhile_suffix (l := cs) (· = 'u')).length_le
    rw [_h] at shorter
    simp only [List.length_cons] at shorter ⊢
    omega
  · exact Nat.lt_succ_self _

def HeaderLanguage.sourceText (language : HeaderLanguage) (text : List Char) : Option (List Char) :=
  if language = .java then javaUnescape text else some text

-- One comment, from the first character up to the line feed at the end.
def HeaderLanguage.isCommentLine (language : HeaderLanguage) (line : List Char) : Bool :=
  (language.sourceText line).any fun text =>
    (language.opener.isPrefixOf? text).any fun comment => language.readComment comment = some ['\n']

structure CommentSafe (language : HeaderLanguage) (value : List Char) : Prop where
  untagged : value.IsChain fun c d => ¬language.endsAt c d
  allowed : ∀ c ∈ value,language.rejects c = false
  unescaped : language = .java → ∀ c ∈ value,isSpace c = false ∧ isControl c = false

theorem readComment_line {language : HeaderLanguage} {body : List Char} (unbroken : ∀ c ∈ body,isLineBreak c = false) :
    language.readComment (body ++ ['\n']) = some ['\n'] ↔
      (body.IsChain fun c d => ¬language.endsAt c d) ∧ ∀ c ∈ body,language.rejects c = false := by
  induction body with
  | nil => simp [HeaderLanguage.readComment,isLineBreak]
  | cons c body ih =>
    have tail := ih fun d member => unbroken d (List.mem_cons_of_mem _ member)
    have inLine := unbroken c List.mem_cons_self
    have next : (body ++ ['\n']).head?.any (language.endsAt c) = body.head?.any (language.endsAt c) := by
      cases body with
      | nil => simp [HeaderLanguage.endsAt]
      | cons d body => rfl
    rw [List.cons_append,HeaderLanguage.readComment,inLine,Bool.false_or,next,List.isChain_cons,List.forall_mem_cons]
    have ended : body.head?.any (language.endsAt c) ↔ ∃ d ∈ body.head?,language.endsAt c d := by
      cases body.head? <;> simp
    by_cases ends : body.head?.any (language.endsAt c)
    · obtain ⟨d,is,closing⟩ := ended.mp ends
      rw [if_pos ends]
      constructor
      · intro equal
        simp at equal
      · intro safe
        exact absurd closing (safe.1.1 d is)
    · have separate : ∀ d ∈ body.head?,¬language.endsAt c d := by
        intro d is closing
        exact ends (ended.mpr ⟨d,is,closing⟩)
      rw [if_neg ends]
      cases rejected : language.rejects c with
      | true => simp
      | false =>
        rw [if_neg Bool.false_ne_true,tail]
        simp only [true_and]
        constructor
        · intro both
          exact ⟨⟨separate,both.1⟩,both.2⟩
        · intro all
          exact ⟨all.1.2,all.2⟩

-- The translation leaves a text as it is, or fails unless something holds.
def Kept (front : List Char) (P : Prop) : Prop :=
  ∀ rest text,javaUnescape (front ++ rest) = some text ↔
    P ∧ ∃ after,javaUnescape rest = some after ∧ text = front ++ after

theorem Kept.append {front back : List Char} {P Q : Prop} (first : Kept front P) (second : Kept back Q) :
    Kept (front ++ back) (P ∧ Q) := by
  intro rest text
  rw [List.append_assoc,first]
  constructor
  · rintro ⟨holds,middle,is,rfl⟩
    obtain ⟨holdsToo,after,rest,rfl⟩ := (second _ _).mp is
    exact ⟨⟨holds,holdsToo⟩,after,rest,(List.append_assoc _ _ _).symm⟩
  · rintro ⟨⟨holds,holdsToo⟩,after,is,rfl⟩
    exact ⟨holds,back ++ after,(second _ _).mpr ⟨holdsToo,after,is,rfl⟩,List.append_assoc _ _ _⟩

theorem Kept.flatMap {f : α → List Char} {P : α → Prop} {found : List α} (each : ∀ a ∈ found,Kept (f a) (P a)) :
    Kept (found.flatMap f) (∀ a ∈ found,P a) := by
  induction found with
  | nil =>
    intro rest text
    simp
  | cons a found ih =>
    intro rest text
    rw [List.flatMap_cons,List.forall_mem_cons]
    have tail := ih fun b member => each b (List.mem_cons_of_mem _ member)
    exact (each a List.mem_cons_self).append tail rest text

theorem javaUnescape_cons {c : Char} (other : c ≠ '\\') (cs : List Char) :
    javaUnescape (c :: cs) = (javaUnescape cs).map fun text => c :: text := by
  rw [javaUnescape]
  · intro rest equal
    cases equal
    exact absurd rfl other
  · intro rest equal
    cases equal
    exact absurd rfl other

theorem kept_plain {text : List Char} (plain : '\\' ∉ text) : Kept text True := by
  induction text with
  | nil =>
    intro rest after
    simp
  | cons c text ih =>
    have other : c ≠ '\\' := fun equal => plain (equal ▸ List.mem_cons_self)
    have tail := ih fun member => plain (List.mem_cons_of_mem _ member)
    have head : Kept [c] True := by
      intro rest after
      rw [List.singleton_append,javaUnescape_cons other]
      simp [eq_comm]
    intro rest after
    have both := head.append tail rest after
    rw [and_self] at both
    exact both

-- An escape of a blank or a control character is none that Java knows.
theorem javaUnescape_code (cs : List Char) : javaUnescape ('\\' :: 'u' :: '\x7b' :: cs) = none := by
  rw [javaUnescape]
  split
  · rename_i a b c d rest equal
    have first : a = '\x7b' := by
      simp at equal
      exact equal.1.symm
    subst first
    rfl
  · rfl

theorem kept_escaped {c : Char} {text : List Char} (escaped : Escaped c text) :
    Kept text (isSpace c = false ∧ isControl c = false) := by
  cases escaped with
  | plain other solid printed =>
    have kept : Kept [c] True := kept_plain (by simpa using other.symm)
    simpa [solid,printed] using kept
  | slash is =>
    subst is
    have solid : isSpace '\\' = false ∧ isControl '\\' = false := by decide
    intro rest after
    rw [List.cons_append,List.cons_append,javaUnescape]
    simp [solid,eq_comm]
  | code other needs =>
    have broken : ¬(isSpace c = false ∧ isControl c = false) := by
      intro both
      rcases needs with blank | control
      · simp [both.1] at blank
      · simp [both.2] at control
    intro rest after
    have unread : javaUnescape ('\\' :: 'u' :: '\x7b' :: Nat.toDigits 16 c.toNat ++ ['\x7d'] ++ rest) = none :=
      javaUnescape_code _
    rw [unread]
    simp [broken]

def Printed (value : List Char) : Prop := ∀ c ∈ value,isSpace c = false ∧ isControl c = false

theorem kept_sanitized (value : List Char) : Kept (sanitizeField value) (Printed value) := by
  rw [sanitizeField_eq]
  exact Kept.flatMap fun c _ => kept_escaped (escapeOf_escaped c)

theorem literal_slash {text : List Char} (literal : ∀ c ∈ text,Literal c) : '\\' ∉ text := by
  intro member
  rcases literal _ member with space | ⟨_,_,other,_⟩
  · cases space
  · exact other rfl

theorem entry_eq (field : List Char × List Char) :
    entry sanitizeField field = ([' '] ++ field.1 ++ ['=']) ++ sanitizeField field.2 := by
  simp [entry]

theorem entry_literal {fields : HeaderFields} {field : List Char × List Char} (among : field ∈ fields.entries) :
    ∀ c ∈ [' '] ++ field.1 ++ ['='],Literal c := by
  intro c member
  simp only [List.mem_append,List.mem_singleton] at member
  rcases member with (rfl | inKey) | rfl
  · exact Or.inl rfl
  · exact headerKeys_literal _ (entries_headerKeys fields among) c inKey
  · exact Or.inr (by decide)

theorem kept_headerTail (language : String) (fields : HeaderFields) :
    Kept (headerTail language fields) (∀ field ∈ fields.entries,Printed field.2) := by
  have each : ∀ field ∈ fields.entries,Kept (entry sanitizeField field) (Printed field.2) := by
    intro field among
    have opened := kept_plain (literal_slash (entry_literal among))
    have whole := opened.append (kept_sanitized field.2)
    rw [true_and,← entry_eq] at whole
    exact whole
  have closed := kept_plain (literal_slash (headerSuffix_literal language))
  have whole := (Kept.flatMap each).append closed
  rw [and_true] at whole
  exact whole

section
variable (language : HeaderLanguage)

def Untagged (text : List Char) : Prop := text.IsChain fun c d => ¬language.endsAt c d

variable {language}

theorem endsAt_chars {c d : Char} (ends : language.endsAt c d) : c = '?' ∧ d = '>' := by
  simp only [HeaderLanguage.endsAt,Bool.and_eq_true,beq_iff_eq] at ends
  exact ⟨ends.1.2,ends.2⟩

theorem untagged_plain {front : List Char} (plain : '?' ∉ front) (back : List Char) :
    Untagged language (front ++ back) ↔ Untagged language back := by
  induction front with
  | nil => rfl
  | cons c front ih =>
    have tail := ih fun member => plain (List.mem_cons_of_mem _ member)
    have open' : ∀ d,¬language.endsAt c d := by
      intro d ends
      exact plain ((endsAt_chars ends).1 ▸ List.mem_cons_self)
    unfold Untagged at tail ⊢
    rw [List.cons_append,List.isChain_cons,tail]
    constructor
    · intro both
      exact both.2
    · intro rest
      exact ⟨fun d _ => open' d,rest⟩

theorem untagged_append {front back : List Char} (apart : ∀ d ∈ back.head?,d ≠ '>') :
    Untagged language (front ++ back) ↔ Untagged language front ∧ Untagged language back := by
  unfold Untagged
  rw [List.isChain_append]
  constructor
  · intro all
    exact ⟨all.1,all.2.1⟩
  · intro both
    refine ⟨both.1,both.2,?_⟩
    intro c _ d inBack ends
    exact apart d inBack (endsAt_chars ends).2

theorem escaped_head {c d : Char} {text : List Char} (escaped : Escaped d text) (rest : List Char) :
    (∀ e ∈ (text ++ rest).head?,¬language.endsAt c e) ↔ ¬language.endsAt c d := by
  have slash : ¬language.endsAt c '\\' := by
    intro ends
    cases (endsAt_chars ends).2
  cases escaped with
  | plain other solid printed => simp
  | slash is => simp [is]
  | code other needs =>
    have open' : ¬language.endsAt c d := by
      intro ends
      rw [(endsAt_chars ends).2] at needs
      revert needs
      decide
    simp [slash,open']

theorem escaped_question {c : Char} {text : List Char} (escaped : Escaped c text) (other : text ≠ [c]) :
    '?' ∉ text ∧ c ≠ '?' := by
  cases escaped with
  | plain _ _ _ => exact absurd rfl other
  | slash is => exact ⟨by decide,by rw [is]; decide⟩
  | code _ needs =>
    constructor
    · intro member
      rcases escaped_mem (Escaped.code ‹_› needs) member with ⟨equal,solid⟩ | mark | ordinary
      · revert needs
        rw [← equal]
        decide
      · revert mark
        decide
      · revert ordinary
        unfold Ordinary
        decide
    · rintro rfl
      revert needs
      decide

theorem untagged_sanitized (value : List Char) : Untagged language (sanitizeField value) ↔ Untagged language value := by
  rw [sanitizeField_eq]
  induction value with
  | nil => rfl
  | cons c cs ih =>
    have shape := escapeOf_escaped c
    rw [List.flatMap_cons]
    by_cases plain : escapeOf c = [c]
    · have next : (∀ e ∈ (cs.flatMap escapeOf).head?,¬language.endsAt c e) ↔ ∀ d ∈ cs.head?,¬language.endsAt c d := by
        cases cs with
        | nil => rfl
        | cons d cs =>
          rw [List.flatMap_cons,escaped_head (escapeOf_escaped d)]
          simp
      unfold Untagged at ih ⊢
      rw [plain,List.singleton_append,List.isChain_cons,List.isChain_cons,next,ih]
    · obtain ⟨absent,other⟩ := escaped_question shape plain
      have single : '?' ∉ [c] := by simpa using other.symm
      rw [untagged_plain absent,ih]
      exact (untagged_plain single cs).symm

theorem literal_question {text : List Char} (literal : ∀ c ∈ text,Literal c) : '?' ∉ text := by
  intro member
  rcases literal _ member with space | ⟨_,other,_⟩
  · cases space
  · exact other rfl

theorem untagged_entries {entries : List (List Char × List Char)} {suffix : List Char}
    (literal : ∀ field ∈ entries,∀ c ∈ [' '] ++ field.1 ++ ['='],Literal c) (closed : ∀ c ∈ suffix,Literal c)
    (ending : suffix.head? ≠ some '>') :
    Untagged language (entries.flatMap (entry sanitizeField) ++ suffix) ↔ ∀ field ∈ entries,Untagged language field.2 := by
  induction entries with
  | nil =>
    have empty := @untagged_plain language _ (literal_question closed) []
    simpa [Untagged] using empty
  | cons field entries ih =>
    have tail := ih fun other member => literal other (List.mem_cons_of_mem _ member)
    have apart : ∀ d ∈ (entries.flatMap (entry sanitizeField) ++ suffix).head?,d ≠ '>' := by
      intro d is equal
      cases entries with
      | nil => exact ending (equal ▸ is)
      | cons other entries =>
        simp only [List.flatMap_cons,entry,List.cons_append,List.head?_cons,Option.mem_def,Option.some.injEq] at is
        cases is.trans equal
    have opened := literal_question (literal field List.mem_cons_self)
    rw [List.flatMap_cons,entry_eq,List.append_assoc,List.append_assoc,untagged_plain opened,untagged_append apart,
      untagged_sanitized,List.forall_mem_cons]
    exact and_congr_right fun _ => tail

theorem untagged_headerTail (name : String) (fields : HeaderFields) :
    Untagged language (headerTail name fields) ↔ ∀ field ∈ fields.entries,Untagged language field.2 := by
  apply untagged_entries (fun field => entry_literal) (headerSuffix_literal name)
  unfold headerSuffix
  split <;> decide

theorem rejects_printed {c : Char} (rejected : language.rejects c) :
    isSpace c = false ∧ isControl c = false ∧ 0x80 ≤ c.toNat := by
  have range : (0x202a ≤ c.toNat ∧ c.toNat ≤ 0x202e) ∨ (0x2066 ≤ c.toNat ∧ c.toNat ≤ 0x2069) ∨ c.toNat = 0xfeff := by
    cases language <;> simp [HeaderLanguage.rejects] at rejected <;> omega
  refine ⟨?_,?_,by omega⟩
  · apply Bool.eq_false_iff.mpr
    intro blank
    simp only [isSpace,isAsciiSpace,List.mem_cons,List.not_mem_nil,or_false,Bool.or_eq_true,
      decide_eq_true_eq,Bool.and_eq_true] at blank
    omega
  · simp only [isControl,Bool.or_eq_false_iff,Bool.and_eq_false_iff,decide_eq_false_iff_not]
    omega

theorem rejects_sanitized {value : List Char} {c : Char} (rejected : language.rejects c) :
    c ∈ sanitizeField value ↔ c ∈ value := by
  obtain ⟨solid,printed,wide⟩ := rejects_printed rejected
  rw [sanitizeField_eq,List.mem_flatMap]
  constructor
  · rintro ⟨source,member,inside⟩
    rcases escaped_mem (escapeOf_escaped source) inside with ⟨rfl,_⟩ | mark | ordinary
    · exact member
    · simp only [List.mem_cons,List.not_mem_nil,or_false] at mark
      rcases mark with rfl | rfl | rfl <;> cases Nat.lt_irrefl _ (Nat.lt_of_lt_of_le (by decide) wide)
    · have range := ordinary_range ordinary
      omega
  · intro member
    have other : c ≠ '\\' := by
      rintro rfl
      cases Nat.lt_irrefl _ (Nat.lt_of_lt_of_le (by decide) wide)
    exact ⟨c,member,by simp [escapeOf,needsEscape,other,solid,printed]⟩

theorem literal_allowed {c : Char} (literal : Literal c) : language.rejects c = false := by
  apply Bool.eq_false_iff.mpr
  intro rejected
  have wide := (rejects_printed rejected).2.2
  rcases literal with rfl | ⟨_,_,_,ascii⟩
  · cases Nat.lt_irrefl _ (Nat.lt_of_lt_of_le (by decide) wide)
  · omega

theorem allowed_headerTail (name : String) (fields : HeaderFields) :
    (∀ c ∈ headerTail name fields,language.rejects c = false) ↔
      ∀ field ∈ fields.entries,∀ c ∈ field.2,language.rejects c = false := by
  constructor
  · intro allowed field among c member
    apply Bool.eq_false_iff.mpr
    intro rejected
    have inTail : c ∈ headerTail name fields := by
      apply List.mem_append_left
      apply List.mem_flatMap.mpr
      refine ⟨field,among,?_⟩
      rw [entry_eq]
      exact List.mem_append_right _ ((rejects_sanitized rejected).mpr member)
    rw [allowed c inTail] at rejected
    cases rejected
  · intro allowed c member
    apply Bool.eq_false_iff.mpr
    intro rejected
    rcases headerTail_mem member with literal | ⟨field,among,inside⟩
    · rw [literal_allowed literal] at rejected
      cases rejected
    · rw [allowed field among c ((rejects_sanitized rejected).mp inside)] at rejected
      cases rejected

end

section
variable (language : HeaderLanguage) (fields : HeaderFields)

-- The text of the comment, behind its opener.
def headerBody : List Char := [' '] ++ headerSentinel ++ headerTail language.name fields

theorem headerBody_literal : ∀ c ∈ [' '] ++ headerSentinel,Literal c := by
  intro c member
  rcases List.mem_append.mp member with blank | inSentinel
  · exact Or.inl (List.mem_singleton.mp blank)
  · exact headerSentinel_literal c inSentinel

theorem header_opened : buildHeaderLine language.name fields = language.opener ++ headerBody language fields ++ ['\n'] := by
  rw [buildHeaderLine_eq]
  cases language <;> rfl

theorem headerBody_unbroken : ∀ c ∈ headerBody language fields,isLineBreak c = false := by
  have solid : ∀ {c : Char},isSpace c = false → isLineBreak c = false := by
    intro c solid
    apply Bool.eq_false_iff.mpr
    intro broken
    simp only [isLineBreak,List.mem_cons,List.not_mem_nil,or_false,decide_eq_true_eq] at broken
    simp only [isSpace,isAsciiSpace,Bool.or_eq_false_iff,decide_eq_false_iff_not,List.mem_cons,List.not_mem_nil] at solid
    omega
  intro c member
  cases blank : isSpace c with
  | false => exact solid blank
  | true =>
    have space : c = ' ' := by
      rcases List.mem_append.mp member with front | inTail
      · rcases headerBody_literal c front with space | other
        · exact space
        · rw [other.1] at blank
          cases blank
      · exact headerTail_blank inTail blank
    exact space ▸ rfl

theorem kept_header : Kept (language.opener ++ headerBody language fields) (∀ field ∈ fields.entries,Printed field.2) := by
  have opener : Kept language.opener True := by
    apply kept_plain
    cases language <;> decide
  have front : Kept ([' '] ++ headerSentinel) True := kept_plain (literal_slash headerBody_literal)
  have whole := opener.append (front.append (kept_headerTail language.name fields))
  rw [true_and,true_and] at whole
  exact whole

theorem sourceText_header (text : List Char) :
    language.sourceText (buildHeaderLine language.name fields) = some text ↔
      (language = .java → ∀ field ∈ fields.entries,Printed field.2) ∧
        text = language.opener ++ headerBody language fields ++ ['\n'] := by
  have kept := kept_header language fields ['\n'] text
  have ending : javaUnescape ['\n'] = some ['\n'] := by simp [javaUnescape]
  rw [header_opened]
  unfold HeaderLanguage.sourceText
  split
  · rename_i java
    simpa [java,ending] using kept
  · rename_i other
    simp [other,eq_comm]

theorem isCommentLine_iff (line : List Char) :
    language.isCommentLine line ↔ ∃ text comment,language.sourceText line = some text ∧
      text = language.opener ++ comment ∧ language.readComment comment = some ['\n'] := by
  unfold HeaderLanguage.isCommentLine
  cases source : language.sourceText line with
  | none => simp
  | some text =>
    cases matched : language.opener.isPrefixOf? text with
    | none =>
      have unopened : ∀ comment,text ≠ language.opener ++ comment := by
        intro comment equal
        rw [List.isPrefixOf?_eq_some_iff_append_eq.mpr equal.symm] at matched
        cases matched
      simp [matched,unopened]
    | some comment =>
      have equal := List.isPrefixOf?_eq_some_iff_append_eq.mp matched
      rw [Option.any_some,matched]
      simp [← equal]

theorem isCommentLine_header :
    language.isCommentLine (buildHeaderLine language.name fields) ↔
      ∀ field ∈ fields.entries,CommentSafe language field.2 := by
  have read := @readComment_line language _ (headerBody_unbroken language fields)
  have untagged := (@untagged_plain language _ (literal_question headerBody_literal)
    (headerTail language.name fields)).trans (untagged_headerTail language.name fields)
  have allowed : (∀ c ∈ headerBody language fields,language.rejects c = false) ↔
      ∀ field ∈ fields.entries,∀ c ∈ field.2,language.rejects c = false := by
    unfold headerBody
    rw [List.forall_mem_append,allowed_headerTail]
    have front : ∀ c ∈ [' '] ++ headerSentinel,language.rejects c = false :=
      fun c member => literal_allowed (headerBody_literal c member)
    exact and_iff_right front
  rw [isCommentLine_iff]
  constructor
  · rintro ⟨text,comment,source,opened,ends⟩
    obtain ⟨solid,rfl⟩ := (sourceText_header language fields text).mp source
    rw [List.append_assoc] at opened
    rw [← List.append_cancel_left opened] at ends
    have clean := read.mp ends
    intro field among
    exact ⟨untagged.mp clean.1 field among,allowed.mp clean.2 field among,fun java => solid java field among⟩
  · intro safe
    refine ⟨_,headerBody language fields ++ ['\n'],(sourceText_header language fields _).mpr ⟨?_,rfl⟩,
      List.append_assoc _ _ _,read.mpr ⟨untagged.mpr ?_,allowed.mpr ?_⟩⟩
    · exact fun java field among => (safe field among).unescaped java
    · exact fun field among => (safe field among).untagged
    · exact fun field among => (safe field among).allowed

end

-- A header is one comment line from which its fields are read back, and every
-- value is decoded to what was encoded.
theorem header_round_trip_iff (language : HeaderLanguage) (fields : HeaderFields) :
    (language.isCommentLine (buildHeaderLine language.name fields) ∧
      parseHeaderFields (buildHeaderLine language.name fields) = some fields.entries ∧
      ∀ value,decodeField (sanitizeField value) = value) ↔
        ∀ field ∈ fields.entries,CommentSafe language field.2 := by
  rw [isCommentLine_header]
  constructor
  · intro all
    exact all.1
  · intro safe
    exact ⟨safe,parse_header language.name fields,decode_sanitize⟩

def closedHeader : HeaderFields := ⟨"1".toList,"php-pdo".toList,"a?>b".toList,[],[],none⟩

-- The rest of the line is outside of the comment, and of the program.
theorem closedHeader_ends : HeaderLanguage.php.isCommentLine (buildHeaderLine HeaderLanguage.php.name closedHeader) = false := by
  decide

end Scythe
