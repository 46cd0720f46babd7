import Scythe.Lib.Lexing
import Scythe.Rewrite

-- The tokens of a statement: comments and white space left out, every quoted text
-- whole, and the code between cut into words, operators and single characters.
namespace Scythe
open Text

inductive CharClass where
  | space
  | operator
  | colon
  | word
  | single
  deriving DecidableEq,Repr

-- ~ ! @ # ^ & | ` ? + - * / % < > =
def isOperatorChar (c : Char) : Bool :=
  c.toNat ∈ [0x7e,0x21,0x40,0x23,0x5e,0x26,0x7c,0x60,0x3f,0x2b,0x2d,0x2a,0x2f,0x25,0x3c,0x3e,0x3d]

inductive Item where
  | space (c : Char)
  | comment (text : List Char)
  | quoted (kind : SqlSpanKind) (text : List Char)
  | run (k : CharClass) (text : List Char)
  | single (c : Char)
  deriving DecidableEq,Repr

def Item.text : Item → List Char
  | .space c => [c]
  | .comment text => text
  | .quoted _ text => text
  | .run _ text => text
  | .single c => [c]

def Item.isToken : Item → Bool
  | .space _ => false
  | .comment _ => false
  | _ => true

def SqlSpanKind.isComment : SqlSpanKind → Bool
  | .lineComment => true
  | .blockComment => true
  | _ => false

section Reader
variable [CaseMap]

def isTag (c : Char) : Bool := CaseMap.isAlphanumeric c || c = '_'

def classOf (c : Char) : CharClass :=
  if isSpace c then .space
  else if isOperatorChar c then .operator
  else if c = ':' then .colon
  else if isTag c || c = '$' then .word
  else .single

def opens (cs : List Char) : Bool := (readSpan .postgreSQL cs).isSome

-- A run of one class ends where a comment or a quoted text opens.
def takeRun (k : CharClass) : List Char → List Char × List Char
  | [] => ([],[])
  | c :: cs => if classOf c = k ∧ !opens (c :: cs) then (c :: (takeRun k cs).1,(takeRun k cs).2) else ([],c :: cs)

def readItem : List Char → Option (Item × List Char)
  | [] => none
  | c :: cs =>
    match readSpan .postgreSQL (c :: cs) with
    | some (kind,text,rest) => some (if kind.isComment then .comment text else .quoted kind text,rest)
    | none =>
      match classOf c with
      | .space => some (.space c,cs)
      | .single => some (.single c,cs)
      | k => some (.run k (c :: (takeRun k cs).1),(takeRun k cs).2)

theorem takeRun_append (k : CharClass) (cs : List Char) : (takeRun k cs).1 ++ (takeRun k cs).2 = cs := by
  induction cs with
  | nil => rfl
  | cons c cs ih =>
    rw [takeRun]
    split
    · rw [List.cons_append,ih]
    · rfl

theorem readItem_splits {cs rest : List Char} {item : Item} (is : readItem cs = some (item,rest)) :
    item.text ++ rest = cs ∧ item.text ≠ [] := by
  cases cs with
  | nil => cases is
  | cons c cs =>
    rw [readItem] at is
    split at is
    · rename_i kind text rest' found
      have whole := (readSpan_splits .postgreSQL).whole _ _ _ _ found
      have taken := (readSpan_splits .postgreSQL).taken _ _ _ _ found
      obtain ⟨rfl,rfl⟩ := Prod.mk.inj (Option.some.inj is)
      cases kind.isComment with
      | true => exact ⟨whole,taken⟩
      | false => exact ⟨whole,taken⟩
    · split at is
      · cases is
        exact ⟨rfl,List.cons_ne_nil _ _⟩
      · cases is
        exact ⟨rfl,List.cons_ne_nil _ _⟩
      · cases is
        exact ⟨by rw [Item.text,List.cons_append,takeRun_append],List.cons_ne_nil _ _⟩

theorem readItem_total {cs : List Char} (is : readItem cs = none) : cs = [] := by
  cases cs with
  | nil => rfl
  | cons c cs =>
    rw [readItem] at is
    split at is
    · cases is
    · split at is
      · cases is
      · cases is
      · cases is

def sqlLexer : Lexing.Lexer Item where
  text := Item.text
  read := readItem
  whole is := (readItem_splits is).1
  taken is := (readItem_splits is).2
  total := readItem_total

theorem readItem_shorter {cs rest : List Char} {item : Item} (is : readItem cs = some (item,rest)) :
    rest.length < cs.length := sqlLexer.read_shorter is

-- What is relied on of the classes of characters: in ASCII, letters and digits alone
-- are alphanumeric, and no alphanumeric character is white space.
structure OrdinaryCharacters : Prop where
  letters : ∀ c : Char,CaseMap.isAlphanumeric c →
    (0x30 ≤ c.toNat ∧ c.toNat ≤ 0x39) ∨ (0x41 ≤ c.toNat ∧ c.toNat ≤ 0x5a) ∨ (0x61 ≤ c.toNat ∧ c.toNat ≤ 0x7a) ∨
      0x80 ≤ c.toNat
  space : ∀ c : Char,CaseMap.isAlphanumeric c → isSpace c = false

def items (sql : String) : List Item := sqlLexer.items sql.toList
def tokens (sql : String) : List Item := (items sql).filter Item.isToken

theorem OrdinaryCharacters.tag (ordinary : OrdinaryCharacters) {c : Char} (tag : isTag c) :
    c = '_' ∨ (0x30 ≤ c.toNat ∧ c.toNat ≤ 0x39) ∨ (0x41 ≤ c.toNat ∧ c.toNat ≤ 0x5a) ∨
      (0x61 ≤ c.toNat ∧ c.toNat ≤ 0x7a) ∨ 0x80 ≤ c.toNat := by
  rcases (Bool.or_eq_true _ _).mp tag with alphanumeric | underscore
  · exact Or.inr (ordinary.letters c alphanumeric)
  · exact Or.inl (by simpa using underscore)

theorem OrdinaryCharacters.tag_ne (ordinary : OrdinaryCharacters) {c d : Char} (tag : isTag c)
    (other : d ≠ '_' ∧ d.toNat < 0x30 ∨ d = ':') : c ≠ d := by
  rintro rfl
  rcases ordinary.tag tag with rfl | range
  · rcases other with ⟨differs,-⟩ | colon
    · exact differs rfl
    · exact absurd colon (by decide)
  · rcases other with ⟨-,small⟩ | rfl
    · omega
    · revert range
      decide

theorem classOf_tag (ordinary : OrdinaryCharacters) {c : Char} (tag : isTag c) : classOf c = .word := by
  have notSpace : isSpace c = false := by
    rcases (Bool.or_eq_true _ _).mp tag with alphanumeric | underscore
    · exact ordinary.space c alphanumeric
    · have is : c = '_' := by simpa using underscore
      subst is
      decide
  have notOperator : isOperatorChar c = false := by
    unfold isOperatorChar
    rcases ordinary.tag tag with rfl | range
    · decide
    · simp only [List.mem_cons,List.not_mem_nil,or_false,decide_eq_false_iff_not]
      omega
  have notColon : c ≠ ':' := ordinary.tag_ne tag (Or.inr rfl)
  simp [classOf,notSpace,notOperator,notColon,tag]

theorem classOf_dollar : classOf '$' = .word := by
  have notSpace : isSpace '$' = false := by decide
  have notOperator : isOperatorChar '$' = false := by decide
  simp [classOf,notSpace,notOperator]

theorem classOf_operator {c : Char} (operator : isOperatorChar c) : classOf c = .operator := by
  have notSpace : isSpace c = false := by
    by_contra space
    simp only [isOperatorChar,List.mem_cons,List.not_mem_nil,or_false,decide_eq_true_eq] at operator
    simp only [isSpace,isAsciiSpace,List.mem_cons,List.not_mem_nil,or_false,Bool.not_eq_false,Bool.or_eq_true,
      decide_eq_true_eq,Bool.and_eq_true] at space
    omega
  simp [classOf,notSpace,operator]

theorem classOf_space {c : Char} : classOf c = .space ↔ isSpace c := by
  unfold classOf
  split
  · simp [*]
  · rename_i notSpace
    simp only [notSpace,Bool.false_eq_true,iff_false]
    split
    · exact fun equal => CharClass.noConfusion equal
    · split
      · exact fun equal => CharClass.noConfusion equal
      · split
        · exact fun equal => CharClass.noConfusion equal
        · exact fun equal => CharClass.noConfusion equal

-- What opens a dollar quote after its first dollar sign.
theorem matchDollarQuoteOpen_isSome (ordinary : OrdinaryCharacters) {cs : List Char} :
    (matchDollarQuoteOpen cs).isSome ↔ cs.head? = some '$' ∨
      ∃ first tag rest,cs = first :: tag ++ '$' :: rest ∧ (∀ c ∈ first :: tag,isTag c) ∧ isDigit first = false := by
  have differs : isTag '$' = false := by
    by_contra tag
    exact ordinary.tag_ne (by simpa using tag) (Or.inl (by decide)) rfl
  have classes : (fun c => CaseMap.isAlphanumeric c || decide (c = '_')) = isTag := rfl
  unfold matchDollarQuoteOpen
  split
  · simp
  · rename_i notDollar
    have head : cs.head? ≠ some '$' := by
      cases cs with
      | nil => simp
      | cons c cs =>
        intro is
        exact notDollar cs (by rw [Option.some.inj is])
    simp only [classes,head,false_or]
    constructor
    · intro found
      split at found
      · rename_i first tag rest taken left
        split at found
        · cases found
        · rename_i notDigit
          refine ⟨first,tag,rest,?_,?_,by simpa using notDigit⟩
          · rw [←taken,←left,List.takeWhile_append_dropWhile]
          · intro c member
            rw [←taken] at member
            exact List.all_eq_true.mp List.all_takeWhile c member
      · cases found
    · rintro ⟨first,tag,rest,rfl,tags,notDigit⟩
      have taken : (first :: tag ++ '$' :: rest).takeWhile isTag = first :: tag := by
        rw [List.takeWhile_append_of_pos tags]
        simp [differs]
      have left : (first :: tag ++ '$' :: rest).dropWhile isTag = '$' :: rest := by
        rw [List.dropWhile_append_of_pos tags]
        simp [differs]
      rw [taken,left]
      simp [notDigit]

-- What opens a span: two characters decide, but for a dollar quote.
theorem opens_cons {c : Char} {cs : List Char} :
    opens (c :: cs) ↔ c = '-' ∧ cs.head? = some '-' ∨ c = '/' ∧ cs.head? = some '*' ∨ c = '\'' ∨ c = '"' ∨
      c = '$' ∧ (matchDollarQuoteOpen cs).isSome := by
  unfold opens readSpan
  split
  · simp_all [spanOf]
  · simp_all [spanOf]
  · simp_all [spanOf]
  · simp_all [spanOf]
  · simp_all [spanOf,Option.isSome_bind]
  · rename_i c' cs' notLine notBlock notSingle notDouble notDollar is
    obtain ⟨rfl,rfl⟩ := List.cons.inj is
    simp only [List.head?_eq_some_iff]
    constructor
    · intro found
      simp at found
    · rintro (⟨is,cs',at'⟩ | ⟨is,cs',at'⟩ | is | is | ⟨is,-⟩)
      · exact (notLine cs' is at').elim
      · exact (notBlock cs' is at').elim
      · exact (notSingle is).elim
      · exact (notDouble is).elim
      · exact (notDollar is).elim
  · simp_all

theorem opens_append (ordinary : OrdinaryCharacters) {cs : List Char} (opened : opens cs) (more : List Char) :
    opens (cs ++ more) := by
  cases cs with
  | nil => cases opened
  | cons c cs =>
    rw [List.cons_append]
    rcases opens_cons.mp opened with ⟨is,head⟩ | ⟨is,head⟩ | is | is | ⟨is,dollar⟩
    · exact opens_cons.mpr (Or.inl ⟨is,by simp [List.head?_append,head]⟩)
    · exact opens_cons.mpr (Or.inr (Or.inl ⟨is,by simp [List.head?_append,head]⟩))
    · exact opens_cons.mpr (by simp [is])
    · exact opens_cons.mpr (by simp [is])
    · refine opens_cons.mpr (Or.inr (Or.inr (Or.inr (Or.inr ⟨is,?_⟩))))
      rw [matchDollarQuoteOpen_isSome ordinary] at dollar ⊢
      rcases dollar with head | ⟨first,tag,rest,rfl,tags,notDigit⟩
      · exact Or.inl (by simp [List.head?_append,head])
      · exact Or.inr ⟨first,tag,rest ++ more,by simp,tags,notDigit⟩

theorem not_opens_tag (ordinary : OrdinaryCharacters) {c : Char} {cs : List Char} (tag : isTag c) :
    opens (c :: cs) = false := by
  by_contra opened
  rcases opens_cons.mp (by simpa using opened) with ⟨is,-⟩ | ⟨is,-⟩ | is | is | ⟨is,-⟩
  all_goals exact ordinary.tag_ne tag (Or.inl (by decide)) is

-- Whether a span opens inside a run depends on what comes after the run only through
-- the next character.
theorem not_opens_inside (ordinary : OrdinaryCharacters) {k : CharClass} {c : Char} {u rest rest' : List Char}
    (all : ∀ d ∈ c :: u,classOf d = k) (stops : ∀ d ∈ rest.head?,classOf d = k → opens rest)
    (alike : ∀ d ∈ rest'.head?,classOf d = k → rest.head? = some d)
    (closed : opens (c :: u ++ rest) = false) : opens (c :: u ++ rest') = false := by
  by_contra opened
  have here : ∀ {d : Char},(u ++ rest').head? = some d → classOf d = k → (u ++ rest).head? = some d := by
    intro d head same
    cases u with
    | nil => exact alike d head same
    | cons e u => exact head
  have absurd' : opens (c :: u ++ rest) → False := by
    intro yes
    rw [closed] at yes
    cases yes
  rw [Bool.not_eq_false,List.cons_append,opens_cons] at opened
  rcases opened with ⟨rfl,head⟩ | ⟨rfl,head⟩ | is | is | ⟨rfl,dollar⟩
  · have whole : classOf '-' = k := all '-' List.mem_cons_self
    exact absurd' (opens_cons.mpr (Or.inl ⟨rfl,here head whole⟩))
  · have whole : classOf '*' = k := by
      rw [←all '/' List.mem_cons_self,classOf_operator (by decide),classOf_operator (by decide)]
    exact absurd' (opens_cons.mpr (Or.inr (Or.inl ⟨rfl,here head whole⟩)))
  · exact absurd' (opens_cons.mpr (by simp [is]))
  · exact absurd' (opens_cons.mpr (by simp [is]))
  · have word : k = .word := by rw [←all '$' List.mem_cons_self,classOf_dollar]
    subst word
    refine absurd' (opens_cons.mpr (Or.inr (Or.inr (Or.inr (Or.inr ⟨rfl,?_⟩)))))
    rw [matchDollarQuoteOpen_isSome ordinary] at dollar ⊢
    rcases dollar with head | ⟨first,tag,left,is,tags,notDigit⟩
    · exact Or.inl (here head classOf_dollar)
    · -- The tag and its dollar sign lie within the run, or the run ends before the sign.
      have sign : u = first :: tag → rest'.head? = some '$' →
          (u ++ rest).head? = some '$' ∨ ∃ first tag left,u ++ rest = first :: tag ++ '$' :: left ∧
            (∀ c ∈ first :: tag,isTag c) ∧ isDigit first = false := by
        intro whole head
        obtain ⟨more,rest_is⟩ := List.head?_eq_some_iff.mp (alike '$' head classOf_dollar)
        exact Or.inr ⟨first,tag,more,by rw [whole,rest_is],tags,notDigit⟩
      rcases List.append_eq_append_iff.mp is with ⟨inside,whole,left_is⟩ | ⟨inside,whole,left_is⟩
      · cases inside with
        | nil => exact sign (by simpa using whole.symm) (by simp [left_is])
        | cons e inside =>
          have tag' : isTag e := tags e (by rw [whole]; simp)
          have head := alike e (by simp [left_is]) (classOf_tag ordinary tag')
          obtain ⟨more,rest_is⟩ := List.head?_eq_some_iff.mp head
          have opened := stops e head (classOf_tag ordinary tag')
          rw [rest_is,not_opens_tag ordinary tag'] at opened
          cases opened
      · cases inside with
        | nil =>
          rw [List.nil_append] at left_is
          exact sign (by simpa using whole) (by rw [←left_is]; rfl)
        | cons e inside =>
          obtain ⟨rfl,more⟩ := List.cons.inj left_is
          exact Or.inr ⟨first,tag,inside ++ rest,by rw [whole]; simp,tags,notDigit⟩

theorem takeRun_cons {k : CharClass} {c : Char} {u rest : List Char} :
    takeRun k (c :: u ++ rest) = (c :: u,rest) ↔
      classOf c = k ∧ opens (c :: u ++ rest) = false ∧ takeRun k (u ++ rest) = (u,rest) := by
  rw [List.cons_append,takeRun]
  by_cases taken : classOf c = k ∧ !opens (c :: (u ++ rest))
  · have closed : opens (c :: (u ++ rest)) = false := by simpa using taken.2
    rw [if_pos taken]
    simp [taken.1,closed,Prod.ext_iff]
  · rw [if_neg taken]
    constructor
    · intro is
      cases is
    · rintro ⟨same,closed,-⟩
      exact absurd ⟨same,by simp [closed]⟩ taken

theorem takeRun_nil {k : CharClass} {rest : List Char} :
    takeRun k rest = ([],rest) ↔ ∀ d ∈ rest.head?,classOf d = k → opens rest := by
  cases rest with
  | nil => simp [takeRun]
  | cons c cs =>
    rw [takeRun]
    by_cases taken : classOf c = k ∧ !opens (c :: cs)
    · have closed : opens (c :: cs) = false := by simpa using taken.2
      rw [if_pos taken]
      simp [taken.1,closed]
    · rw [if_neg taken]
      simpa using taken

theorem takeRun_facts {k : CharClass} {u rest : List Char} (taken : takeRun k (u ++ rest) = (u,rest)) :
    (∀ d ∈ u,classOf d = k) ∧ ∀ d ∈ rest.head?,classOf d = k → opens rest := by
  induction u with
  | nil => exact ⟨fun _ member => absurd member List.not_mem_nil,takeRun_nil.mp taken⟩
  | cons c u ih =>
    obtain ⟨same,-,tail⟩ := takeRun_cons.mp taken
    obtain ⟨all,stops⟩ := ih tail
    exact ⟨List.forall_mem_cons.mpr ⟨same,all⟩,stops⟩

-- A text that may stand after an item in place of another: none, white space, or
-- one that begins and opens alike.
inductive Replaces (rest : List Char) : List Char → Prop where
  | none : Replaces rest []
  | space {c : Char} {cs : List Char} : rest ≠ [] → isSpace c → Replaces rest (c :: cs)
  | alike {c : Char} {cs cs' : List Char} : rest = c :: cs → (opens rest → opens (c :: cs')) → Replaces rest (c :: cs')

theorem Replaces.heads {rest rest' : List Char} (replaces : Replaces rest rest') {k : CharClass} (notSpace : k ≠ .space) :
    ∀ d ∈ rest'.head?,classOf d = k → rest.head? = some d := by
  intro d head same
  cases replaces with
  | none => cases head
  | space _ space =>
    cases head
    exact absurd (same.symm.trans (classOf_space.mpr space)) notSpace
  | alike is _ =>
    cases head
    rw [is]
    rfl

theorem takeRun_replaces (ordinary : OrdinaryCharacters) {k : CharClass} {u rest rest' : List Char}
    (notSpace : k ≠ .space) (replaces : Replaces rest rest') (taken : takeRun k (u ++ rest) = (u,rest)) :
    takeRun k (u ++ rest') = (u,rest') := by
  induction u with
  | nil =>
    refine takeRun_nil.mpr fun d head same => ?_
    have stops := takeRun_nil.mp taken
    cases replaces with
    | none => cases head
    | space _ space =>
      cases head
      exact absurd (same.symm.trans (classOf_space.mpr space)) notSpace
    | alike is opened =>
      cases head
      exact opened (stops d (by rw [is]; rfl) same)
  | cons c u ih =>
    obtain ⟨same,closed,tail⟩ := takeRun_cons.mp taken
    obtain ⟨all,stops⟩ := takeRun_facts tail
    have class' : ∀ d ∈ c :: u,classOf d = k := List.forall_mem_cons.mpr ⟨same,all⟩
    exact takeRun_cons.mpr
      ⟨same,not_opens_inside ordinary class' stops (replaces.heads notSpace) closed,ih tail⟩

-- A quoted text that a reading takes: up to its closing quote, or through its
-- closing delimiter.
inductive QuotedText (rest : List Char) : SqlSpanKind → List Char → Prop where
  | single {body : List Char} : Scanner.quoted '\'' (body ++ rest) = (body,rest) →
    QuotedText rest .singleQuoted ('\'' :: body)
  | double {body : List Char} : Scanner.quoted '"' (body ++ rest) = (body,rest) →
    QuotedText rest .doubleQuoted ('"' :: body)
  | dollar {delimiter body : List Char} :
    (∀ more,matchDollarQuoteOpen (delimiter ++ more) = some (delimiter,more)) →
    Scanner.through ('$' :: delimiter) (body ++ rest) = (body,rest) →
    QuotedText rest .dollarQuoted ('$' :: delimiter ++ body)

theorem matchDollarQuoteOpen_elsewhere (ordinary : OrdinaryCharacters) {cs delimiter rest : List Char}
    (found : matchDollarQuoteOpen cs = some (delimiter,rest)) (more : List Char) :
    matchDollarQuoteOpen (delimiter ++ more) = some (delimiter,more) := by
  have differs : isTag '$' = false := by
    by_contra tag
    exact ordinary.tag_ne (by simpa using tag) (Or.inl (by decide)) rfl
  have classes : (fun c => CaseMap.isAlphanumeric c || decide (c = '_')) = isTag := rfl
  unfold matchDollarQuoteOpen at found
  split at found
  · cases found
    rfl
  · simp only [classes] at found
    split at found
    · rename_i first tag rest' taken left
      split at found
      · cases found
      · rename_i notDigit
        cases found
        have tags : ∀ c ∈ first :: tag,isTag c := by
          intro c member
          rw [←taken] at member
          exact List.all_eq_true.mp List.all_takeWhile c member
        have notDollar : first ≠ '$' := by
          rintro rfl
          rw [tags '$' List.mem_cons_self] at differs
          cases differs
        have taken' : (first :: (tag ++ '$' :: more)).takeWhile isTag = first :: tag := by
          rw [←List.cons_append,List.takeWhile_append_of_pos tags]
          simp [differs]
        have left' : (first :: (tag ++ '$' :: more)).dropWhile isTag = '$' :: more := by
          rw [←List.cons_append,List.dropWhile_append_of_pos tags]
          simp [differs]
        simp only [List.cons_append,List.append_assoc,List.nil_append]
        unfold matchDollarQuoteOpen
        split
        · rename_i is
          exact absurd (List.cons.inj is).1 notDollar
        · simp only [classes,taken',left',notDigit]
          rfl
    · cases found

theorem readSpan_quotedText (ordinary : OrdinaryCharacters) {kind : SqlSpanKind} {cs text rest : List Char}
    (is : readSpan .postgreSQL cs = some (kind,text,rest)) (quoted : kind.isComment = false) :
    QuotedText rest kind text := by
  unfold readSpan at is
  split at is
  · cases is
    cases quoted
  · cases is
    cases quoted
  · rename_i inner
    have whole := congrArg (Scanner.quoted '\'') (Scanner.quoted_append '\'' inner)
    cases is
    exact .single whole
  · rename_i inner
    have whole := congrArg (Scanner.quoted '"') (Scanner.quoted_append '"' inner)
    cases is
    exact .double whole
  · obtain ⟨⟨delimiter,inner⟩,opened,spanned⟩ := Option.bind_eq_some_iff.mp is
    cases spanned
    exact .dollar (matchDollarQuoteOpen_elsewhere ordinary opened) (by rw [Scanner.through_append])
  · simp at is
  · cases is

theorem QuotedText.read {kind : SqlSpanKind} {text rest : List Char} (is : QuotedText rest kind text) :
    readSpan .postgreSQL (text ++ rest) = some (kind,text,rest) ∧ kind.isComment = false := by
  cases is with
  | single inner => simp [readSpan,spanOf,inner,SqlSpanKind.isComment]
  | double inner => simp [readSpan,spanOf,inner,SqlSpanKind.isComment]
  | dollar opened inner => simp [readSpan,spanOf,opened,inner,SqlSpanKind.isComment]

theorem Replaces.none_or_closed {rest rest' : List Char} (replaces : Replaces rest rest') :
    rest' = [] ∨ rest ≠ [] := by
  cases replaces with
  | none => exact Or.inl rfl
  | space present _ => exact Or.inr present
  | alike is _ => exact Or.inr (by rw [is]; exact List.cons_ne_nil _ _)

theorem QuotedText.replaces {kind : SqlSpanKind} {text rest rest' : List Char} (is : QuotedText rest kind text)
    (replaces : Replaces rest rest') : QuotedText rest' kind text := by
  have quoted : ∀ {close : Char} {body : List Char},isSpace close = false →
      Scanner.quoted close (body ++ rest) = (body,rest) → Scanner.quoted close (body ++ rest') = (body,rest') := by
    intro close body notSpace inner
    refine Scanner.quoted_elsewhere inner ?_
    cases replaces with
    | none => exact Or.inl rfl
    | space present space =>
      refine Or.inr ⟨present,fun head => ?_⟩
      rw [Option.some.inj head,notSpace] at space
      cases space
    | alike rest_is _ =>
      have head := Scanner.quoted_head inner
      rw [rest_is] at head
      exact Or.inr ⟨by rw [rest_is]; exact List.cons_ne_nil _ _,head⟩
  cases is with
  | single inner => exact .single (quoted (by decide) inner)
  | double inner => exact .double (quoted (by decide) inner)
  | dollar opened inner =>
    exact .dollar opened (Scanner.through_elsewhere (List.cons_ne_nil _ _) inner replaces.none_or_closed)

theorem readItem_quoted {kind : SqlSpanKind} {cs text rest : List Char} :
    readItem cs = some (.quoted kind text,rest) ↔
      readSpan .postgreSQL cs = some (kind,text,rest) ∧ kind.isComment = false := by
  cases cs with
  | nil => simp [readItem,readSpan]
  | cons c cs =>
    rw [readItem]
    cases is : readSpan .postgreSQL (c :: cs) with
    | none =>
      cases classOf c <;> simp
    | some found =>
      obtain ⟨kind',text',rest'⟩ := found
      cases comment : kind'.isComment with
      | true =>
        simp only [comment,if_true,Option.some.injEq,Prod.mk.injEq,reduceCtorEq,false_and,false_iff]
        rintro ⟨⟨rfl,-⟩,quoted⟩
        rw [comment] at quoted
        cases quoted
      | false =>
        simp only [comment,Bool.false_eq_true,if_false,Option.some.injEq,Prod.mk.injEq,Item.quoted.injEq,and_assoc]
        constructor
        · rintro ⟨rfl,rfl,rfl⟩
          exact ⟨rfl,rfl,rfl,comment⟩
        · rintro ⟨rfl,rfl,rfl,-⟩
          exact ⟨rfl,rfl,rfl⟩

theorem readItem_closed {c : Char} {cs : List Char} (closed : opens (c :: cs) = false) :
    readItem (c :: cs) = match classOf c with
      | .space => some (.space c,cs)
      | .single => some (.single c,cs)
      | k => some (.run k (c :: (takeRun k cs).1),(takeRun k cs).2) := by
  have none' : readSpan .postgreSQL (c :: cs) = none := Option.not_isSome_iff_eq_none.mp (by simpa [opens] using closed)
  rw [readItem,none']

theorem not_opens_space {c : Char} {cs : List Char} (space : isSpace c) : opens (c :: cs) = false := by
  by_contra opened
  have other : ∀ {d : Char},isSpace d = false → c ≠ d := by
    rintro d notSpace rfl
    rw [space] at notSpace
    cases notSpace
  rcases opens_cons.mp (by simpa using opened) with ⟨is,-⟩ | ⟨is,-⟩ | is | is | ⟨is,-⟩
  all_goals exact other (by decide) is

theorem readItem_space {c : Char} {cs : List Char} (space : isSpace c) :
    readItem (c :: cs) = some (.space c,cs) := by
  rw [readItem_closed (not_opens_space space),classOf_space.mpr space]

theorem readItem_opens {cs rest : List Char} {t : Item} (is : readItem cs = some (t,rest)) (opened : opens cs) :
    (∃ text,t = .comment text) ∨ ∃ kind text,t = .quoted kind text := by
  cases cs with
  | nil => cases is
  | cons c cs =>
    obtain ⟨⟨kind,text,rest'⟩,found⟩ := Option.isSome_iff_exists.mp opened
    rw [readItem,found] at is
    dsimp only at is
    cases comment : kind.isComment with
    | true =>
      rw [comment] at is
      exact Or.inl ⟨text,((Prod.mk.inj (Option.some.inj is)).1).symm⟩
    | false =>
      rw [comment] at is
      exact Or.inr ⟨kind,text,((Prod.mk.inj (Option.some.inj is)).1).symm⟩

theorem isSpace_of_readItem {c : Char} {cs rest : List Char} (is : readItem cs = some (.space c,rest)) :
    isSpace c := by
  have closed : opens cs = false := by
    by_contra opened
    rcases readItem_opens is (by simpa using opened) with ⟨_,same⟩ | ⟨_,_,same⟩
    · cases same
    · cases same
  cases cs with
  | nil => cases is
  | cons d cs =>
    rw [readItem_closed closed] at is
    split at is
    · rename_i class'
      cases is
      exact classOf_space.mp class'
    · cases is
    · cases is

theorem readItem_single {c : Char} {cs rest : List Char} :
    readItem cs = some (.single c,rest) ↔ cs = c :: rest ∧ opens cs = false ∧ classOf c = .single := by
  constructor
  · intro is
    have closed : opens cs = false := by
      by_contra opened
      rcases readItem_opens is (by simpa using opened) with ⟨_,same⟩ | ⟨_,_,same⟩
      · cases same
      · cases same
    cases cs with
    | nil => cases is
    | cons d cs =>
      rw [readItem_closed closed] at is
      split at is
      · cases is
      · rename_i class'
        cases is
        exact ⟨rfl,closed,class'⟩
      · cases is
  · rintro ⟨rfl,closed,class'⟩
    rw [readItem_closed closed,class']

def CharClass.runs (k : CharClass) : Bool := k ≠ .space && k ≠ .single

theorem readItem_run {k : CharClass} {cs text rest : List Char} :
    readItem cs = some (.run k text,rest) ↔
      takeRun k cs = (text,rest) ∧ text ≠ [] ∧ k.runs := by
  constructor
  · intro is
    have closed : opens cs = false := by
      by_contra opened
      rcases readItem_opens is (by simpa using opened) with ⟨_,same⟩ | ⟨_,_,same⟩
      · cases same
      · cases same
    cases cs with
    | nil => cases is
    | cons c cs =>
      rw [readItem_closed closed] at is
      split at is
      · cases is
      · cases is
      · rename_i k' notSpace notSingle
        cases is
        refine ⟨?_,List.cons_ne_nil _ _,?_⟩
        · rw [takeRun,if_pos ⟨rfl,by simp [closed]⟩]
        · simp [CharClass.runs]
          exact ⟨notSpace,notSingle⟩
  · rintro ⟨taken,present,runs⟩
    cases cs with
    | nil =>
      cases taken
      exact absurd rfl present
    | cons c cs =>
      rw [takeRun] at taken
      split at taken
      · rename_i here
        have closed : opens (c :: cs) = false := by simpa using here.2
        rw [readItem_closed closed,here.1]
        cases taken
        cases k <;> first | rfl | cases runs
      · cases taken
        exact absurd rfl present

-- A token is read alike before whatever may stand in place of what follows it.
theorem readItem_replaces (ordinary : OrdinaryCharacters) {t : Item} {rest rest' : List Char} (token : t.isToken)
    (is : readItem (t.text ++ rest) = some (t,rest)) (replaces : Replaces rest rest') :
    readItem (t.text ++ rest') = some (t,rest') := by
  cases t with
  | space c => cases token
  | comment text => cases token
  | quoted kind text =>
    obtain ⟨span,quoted⟩ := readItem_quoted.mp is
    exact readItem_quoted.mpr ((readSpan_quotedText ordinary span quoted).replaces replaces).read
  | run k text =>
    obtain ⟨taken,present,runs⟩ := readItem_run.mp is
    have notSpace : k ≠ .space := by
      rintro rfl
      cases runs
    exact readItem_run.mpr ⟨takeRun_replaces ordinary notSpace replaces taken,present,runs⟩
  | single c =>
    obtain ⟨-,closed,class'⟩ := readItem_single.mp is
    refine readItem_single.mpr ⟨rfl,?_,class'⟩
    have never : ∀ {d : Char},classOf d ≠ .single → c ≠ d := by
      rintro d other rfl
      exact other class'
    by_contra opened
    rw [Bool.not_eq_false] at opened
    rcases opens_cons.mp opened with ⟨is,-⟩ | ⟨is,-⟩ | is | is | ⟨is,-⟩
    · exact never (by rw [classOf_operator (by decide)]; exact CharClass.noConfusion) is
    · exact never (by rw [classOf_operator (by decide)]; exact CharClass.noConfusion) is
    · exact Bool.false_ne_true (closed.symm.trans (opens_cons.mpr (by simp [is])))
    · exact Bool.false_ne_true (closed.symm.trans (opens_cons.mpr (by simp [is])))
    · exact never (by rw [classOf_dollar]; exact CharClass.noConfusion) is

end Reader

theorem ascii_ordinary : @OrdinaryCharacters ascii := by
  have ranges : ∀ c : Char,ascii.isAlphanumeric c →
      (0x30 ≤ c.toNat ∧ c.toNat ≤ 0x39) ∨ (0x41 ≤ c.toNat ∧ c.toNat ≤ 0x5a) ∨ (0x61 ≤ c.toNat ∧ c.toNat ≤ 0x7a) := by
    intro c alphanumeric
    change (asciiIsLower c || asciiIsUpper c || isDigit c) = true at alphanumeric
    simp only [asciiIsLower,asciiIsUpper,isDigit,Bool.or_eq_true,Bool.and_eq_true,decide_eq_true_eq] at alphanumeric
    have bounds : '0'.toNat = 0x30 ∧ '9'.toNat = 0x39 ∧ 'A'.toNat = 0x41 ∧ 'Z'.toNat = 0x5a ∧ 'a'.toNat = 0x61 ∧
        'z'.toNat = 0x7a := by decide
    omega
  refine @OrdinaryCharacters.mk ascii (fun c alphanumeric => ?_) fun c alphanumeric => ?_
  · have range := ranges c alphanumeric
    omega
  · have range := ranges c alphanumeric
    by_contra space
    simp only [isSpace,isAsciiSpace,List.mem_cons,List.not_mem_nil,or_false,Bool.not_eq_false,Bool.or_eq_true,
      decide_eq_true_eq,Bool.and_eq_true] at space
    omega

end Scythe
