import Scythe.Extraction
import Scythe.Lib.Letters

-- Which IDENTITY clauses are stripped from a schema. The scanner goes by the plain
-- reading of quotes and comments, and writes the keyword anew where it finds no
-- seed and step behind it.
namespace Scythe
open Text Lexis

def AllSpaces (cs : List Char) : Prop := ∀ c ∈ cs,isAsciiSpace c = true

-- A number with spaces around it, and the character that ends it.
structure NumberBefore (sign : List Char → Prop) (close : Char) (text after : List Char) : Prop where
  spelled : ∃ gap signed number trailing : List Char,
    text = gap ++ (signed ++ (number ++ (trailing ++ close :: after))) ∧ AllSpaces gap ∧ sign signed ∧ number ≠ [] ∧
      (∀ d ∈ number,isDigit d = true) ∧ AllSpaces trailing

structure SeedAndStep (sign : List Char → Prop) (text after : List Char) : Prop where
  spelled : ∃ rest,NumberBefore sign ',' text rest ∧ NumberBefore sign ')' rest after

-- The keyword up to its parenthesis.
structure Opening (read : List Char) : Prop where
  spelled : ∃ keyword gap : List Char,read = keyword ++ (gap ++ ['(']) ∧ keyword.map asciiUpper = "IDENTITY".toList ∧
    AllSpaces gap

-- A whole clause.
structure ClauseText (sign : List Char → Prop) (read : List Char) : Prop where
  spelled : ∃ opening inner,read = opening ++ inner ∧ Opening opening ∧ SeedAndStep sign inner []

def Unsigned (signed : List Char) : Prop := signed = []
def Signed (signed : List Char) : Prop := signed = [] ∨ signed = ['-'] ∨ signed = ['+']

theorem skipSpaces_append {gap rest : List Char} (spaces : AllSpaces gap) : skipSpaces (gap ++ rest) = skipSpaces rest := by
  induction gap with
  | nil => rfl
  | cons c gap ih =>
    have here := spaces c List.mem_cons_self
    have later := ih fun d member => spaces d (List.mem_cons_of_mem _ member)
    simpa [skipSpaces,here] using later

theorem skipSpaces_stays {c : Char} {rest : List Char} (solid : isAsciiSpace c = false) :
    skipSpaces (c :: rest) = c :: rest := by
  simp [skipSpaces,solid]

theorem skipSpaces_split (cs : List Char) : ∃ gap,cs = gap ++ skipSpaces cs ∧ AllSpaces gap :=
  ⟨cs.takeWhile isAsciiSpace,List.takeWhile_append_dropWhile.symm,List.all_eq_true.mp List.all_takeWhile⟩

theorem takeDigits {number rest : List Char} {e : Char} (digits : ∀ d ∈ number,isDigit d = true)
    (ends : isDigit e = false) :
    (number ++ e :: rest).takeWhile isDigit = number ∧ (number ++ e :: rest).dropWhile isDigit = e :: rest := by
  induction number with
  | nil => simp [ends]
  | cons d number ih =>
    obtain ⟨taken,dropped⟩ := ih fun f member => digits f (List.mem_cons_of_mem _ member)
    have here := digits d List.mem_cons_self
    simp [here,taken,dropped]

theorem digit_solid {d : Char} (digit : isDigit d = true) : isAsciiSpace d = false := by
  unfold isDigit at digit
  unfold isAsciiSpace
  simp only [Bool.and_eq_true,decide_eq_true_eq] at digit
  have zero : '0'.toNat = 48 := rfl
  have nine : '9'.toNat = 57 := rfl
  apply decide_eq_false
  simp only [List.mem_cons,List.not_mem_nil,or_false]
  omega

theorem space_noDigit {c : Char} (space : isAsciiSpace c = true) : isDigit c = false := by
  cases digit : isDigit c with
  | false => rfl
  | true =>
    rw [digit_solid digit] at space
    cases space

theorem digitsBehind_iff {text after : List Char} {close : Char} (solid : isAsciiSpace close = false)
    (other : isDigit close = false) :
    digitsBehind text = some (close :: after) ↔ NumberBefore Unsigned close text after := by
  unfold digitsBehind
  constructor
  · intro found
    split at found
    · cases found
    · rename_i digits
      have rest := Option.some.inj found
      obtain ⟨gap,is,spaces⟩ := skipSpaces_split text
      obtain ⟨trailing,behind,trailingSpaces⟩ := skipSpaces_split ((skipSpaces text).dropWhile isDigit)
      rw [rest] at behind
      refine ⟨gap,[],(skipSpaces text).takeWhile isDigit,trailing,?_,spaces,rfl,digits,
        List.all_eq_true.mp List.all_takeWhile,trailingSpaces⟩
      rw [← behind,List.nil_append,List.takeWhile_append_dropWhile]
      exact is
  · intro ⟨gap,signed,number,trailing,is,spaces,unsigned,some',digits,trailingSpaces⟩
    cases unsigned
    obtain ⟨first,others,rfl⟩ := List.exists_cons_of_ne_nil some'
    have skipped : skipSpaces text = first :: others ++ (trailing ++ close :: after) := by
      rw [is,skipSpaces_append spaces,List.nil_append,List.cons_append,
        skipSpaces_stays (digit_solid (digits first List.mem_cons_self))]
    obtain ⟨e,rest,front,noDigit⟩ : ∃ e rest,trailing ++ close :: after = e :: rest ∧ isDigit e = false := by
      cases trailing with
      | nil => exact ⟨close,after,rfl,other⟩
      | cons c trailing => exact ⟨c,_,rfl,space_noDigit (trailingSpaces c List.mem_cons_self)⟩
    obtain ⟨taken,dropped⟩ := @takeDigits _ rest _ digits noDigit
    rw [skipped,front,taken,dropped,if_neg some',← front,skipSpaces_append trailingSpaces,skipSpaces_stays solid]

theorem behindChar_iff {c : Char} {cs rest : List Char} : behindChar c cs = some rest ↔ cs = c :: rest := by
  cases cs with
  | nil => simp [behindChar]
  | cons d cs => by_cases same : d = c <;> simp [behindChar,same]

theorem behindSeedAndStep_iff {text after : List Char} :
    behindSeedAndStep text = some after ↔ SeedAndStep Unsigned text after := by
  have comma (text after : List Char) := @digitsBehind_iff text after ',' rfl rfl
  have closing (text after : List Char) := @digitsBehind_iff text after ')' rfl rfl
  simp only [behindSeedAndStep,Option.bind_eq_bind,Option.bind_eq_some_iff,behindChar_iff]
  constructor
  · intro ⟨behindSeed,seed,rest,isComma,behindStep,step,isClosing⟩
    subst isComma isClosing
    exact ⟨rest,(comma _ _).mp seed,(closing _ _).mp step⟩
  · intro ⟨rest,seed,step⟩
    exact ⟨_,(comma _ _).mpr seed,rest,rfl,_,(closing _ _).mpr step,rfl⟩

theorem NumberBefore.longer {sign : List Char → Prop} {close : Char} {text after : List Char}
    (number : NumberBefore sign close text after) (more : List Char) :
    NumberBefore sign close (text ++ more) (after ++ more) := by
  obtain ⟨gap,signed,digits,trailing,rfl,facts⟩ := number
  exact ⟨gap,signed,digits,trailing,by simp,facts⟩

theorem NumberBefore.own {sign : List Char → Prop} {close : Char} {text after : List Char}
    (number : NumberBefore sign close text after) :
    ∃ own,text = own ++ after ∧ ∀ more,NumberBefore sign close (own ++ more) more := by
  obtain ⟨gap,signed,digits,trailing,rfl,facts⟩ := number
  refine ⟨gap ++ (signed ++ (digits ++ (trailing ++ [close]))),by simp,fun more => ?_⟩
  exact ⟨gap,signed,digits,trailing,by simp,facts⟩

theorem SeedAndStep.longer {sign : List Char → Prop} {text after : List Char} (both : SeedAndStep sign text after)
    (more : List Char) : SeedAndStep sign (text ++ more) (after ++ more) := by
  obtain ⟨rest,seed,step⟩ := both
  exact ⟨rest ++ more,seed.longer more,step.longer more⟩

theorem SeedAndStep.own {sign : List Char → Prop} {text after : List Char} (both : SeedAndStep sign text after) :
    ∃ own,text = own ++ after ∧ SeedAndStep sign own [] := by
  obtain ⟨rest,seed,step⟩ := both
  obtain ⟨seedText,isSeed,seeds⟩ := seed.own
  obtain ⟨stepText,isStep,steps⟩ := step.own
  refine ⟨seedText ++ stepText,by rw [isSeed,isStep,List.append_assoc],stepText,seeds stepText,?_⟩
  simpa using steps []

-- What is changed in front of a text: a clause goes, and a keyword with a
-- parenthesis but no seed and step behind it is spelled anew.
inductive Change : List Char → Copied → List Char → Prop where
  | clause {read rest : List Char} (spelled : ClauseText Unsigned read) : Change (read ++ rest) ⟨read,[]⟩ rest
  | respelled {read rest : List Char} (opening : Opening read) (open' : ∀ after,¬SeedAndStep Unsigned rest after) :
    Change (read ++ rest) ⟨read,"IDENTITY(".toList⟩ rest

theorem Change.text {text rest : List Char} {piece : Copied} (change : Change text piece rest) :
    text = piece.read ++ rest := by
  cases change <;> rfl

theorem keyword_front {keyword more : List Char} (is : keyword.map asciiUpper = "IDENTITY".toList) :
    (keyword ++ more).take 8 = keyword ∧ (keyword ++ more).drop 8 = more ∧
      matchesIdentityKeyword (keyword ++ more) = true := by
  have eight : keyword.length = 8 := by simpa using congrArg List.length is
  have front : (keyword ++ more).take 8 = keyword := by rw [← eight,List.take_left]
  refine ⟨front,by rw [← eight,List.drop_left],?_⟩
  rw [matchesIdentityKeyword,front,is]
  rfl

theorem opening_skipped {keyword gap more : List Char} (is : keyword.map asciiUpper = "IDENTITY".toList)
    (spaces : AllSpaces gap) :
    skipSpaces ((keyword ++ (gap ++ ['(']) ++ more).drop 8) = '(' :: more := by
  rw [List.append_assoc,(keyword_front is).2.1,List.append_assoc,skipSpaces_append spaces]
  rfl

theorem taken_front (read rest : List Char) : (read ++ rest).take ((read ++ rest).length - rest.length) = read := by
  rw [List.length_append,Nat.add_sub_cancel,List.take_left]

-- The step of the scanner makes just the change that stands in front of the text.
theorem identityStep_of_change {text rest : List Char} {piece : Copied} (change : Change text piece rest) :
    matchesIdentityKeyword text = true ∧ identityStep text = (piece,rest) := by
  cases change with
  | @clause read rest spelled =>
    obtain ⟨opening,inner,rfl,⟨keyword,gap,rfl,is,spaces⟩,both⟩ := spelled
    have skipped := @opening_skipped _ _ (inner ++ rest) is spaces
    have behind : behindSeedAndStep (inner ++ rest) = some rest := behindSeedAndStep_iff.mpr (by simpa using both.longer rest)
    rw [← List.append_assoc] at skipped
    refine ⟨?_,?_⟩
    · rw [List.append_assoc,List.append_assoc]
      exact (keyword_front is).2.2
    · simp only [identityStep,skipped,behind,taken_front]
  | @respelled read rest opening open' =>
    obtain ⟨keyword,gap,rfl,is,spaces⟩ := opening
    have skipped := @opening_skipped _ _ rest is spaces
    have behind : behindSeedAndStep rest = none := by
      cases found : behindSeedAndStep rest with
      | none => rfl
      | some after => exact absurd (behindSeedAndStep_iff.mp found) (open' after)
    refine ⟨?_,?_⟩
    · rw [List.append_assoc]
      exact (keyword_front is).2.2
    · simp only [identityStep,skipped,behind,taken_front]

theorem change_of_identityStep {text : List Char} (keyword : matchesIdentityKeyword text = true) :
    (identityStep text).1 = ⟨text.take 8,text.take 8⟩ ∧ (identityStep text).2 = text.drop 8 ∨
      Change text (identityStep text).1 (identityStep text).2 := by
  have is : (text.take 8).map asciiUpper = "IDENTITY".toList := of_decide_eq_true keyword
  obtain ⟨gap,split,spaces⟩ := skipSpaces_split (text.drop 8)
  cases skipped : skipSpaces (text.drop 8) with
  | nil => exact .inl (by simp only [identityStep,skipped,and_self])
  | cons c inner =>
    by_cases opens : c = '('
    · subst opens
      rw [skipped] at split
      have whole : text = text.take 8 ++ (gap ++ ['(']) ++ inner := by
        conv_lhs => rw [← List.take_append_drop 8 text,split]
        simp
      have opening : Opening (text.take 8 ++ (gap ++ ['('])) := ⟨text.take 8,gap,rfl,is,spaces⟩
      refine .inr ?_
      cases behind : behindSeedAndStep inner with
      | none =>
        have open' : ∀ after,¬SeedAndStep Unsigned inner after := by
          intro after both
          rw [behindSeedAndStep_iff.mpr both] at behind
          cases behind
        have change := Change.respelled opening open'
        rw [← whole] at change
        rw [(identityStep_of_change change).2]
        exact change
      | some after =>
        obtain ⟨own,rfl,both⟩ := (behindSeedAndStep_iff.mp behind).own
        rw [← List.append_assoc] at whole
        have change : Change _ _ after := Change.clause ⟨_,own,rfl,opening,both⟩
        rw [← whole] at change
        rw [(identityStep_of_change change).2]
        exact change
    · refine .inl ?_
      simp only [identityStep,skipped]
      split
      · rename_i same
        cases same
        exact absurd rfl opens
      · exact ⟨rfl,rfl⟩

def wordBefore (before : List Char) : Bool := (before.getLast?.map isWordChar).getD false

-- A change that the scanner's own reading of the text allows at its place.
structure StandsAt (before text : List Char) (piece : Copied) (rest : List Char) : Prop where
  code : plainCode before = true
  apart : wordBefore before = false
  change : Change text piece rest

theorem letter_I {c : Char} (is : asciiUpper c = 'I') : c.toNat = 73 ∨ c.toNat = 105 := by
  unfold asciiUpper at is
  split at is
  · rename_i lower
    unfold asciiIsLower at lower
    simp only [Bool.and_eq_true,decide_eq_true_eq] at lower
    have small : 'a'.toNat = 97 ∧ 'z'.toNat = 122 := ⟨rfl,rfl⟩
    have number := congrArg Char.toNat is
    rw [Letters.ofNat_small (by omega)] at number
    have capital : 'I'.toNat = 73 := rfl
    omega
  · subst is
    exact .inl rfl

theorem letter_word {c : Char} (upper : asciiIsUpper (asciiUpper c) = true) : isWordChar c = true := by
  unfold isWordChar isAsciiAlphanumeric
  unfold asciiUpper at upper
  split at upper
  · rename_i lower
    simp [lower]
  · simp [upper]

theorem Change.first {text rest : List Char} {piece : Copied} (change : Change text piece rest) :
    ∃ d tail,text = d :: tail ∧ asciiUpper d = 'I' := by
  have keyword := (identityStep_of_change change).1
  cases text with
  | nil => cases keyword
  | cons d tail =>
    refine ⟨d,tail,rfl,?_⟩
    have letters : (d :: tail.take 7).map asciiUpper = "IDENTITY".toList := of_decide_eq_true keyword
    exact (List.cons.inj letters).1

-- Behind the first character of what is read, no change stands.
def ChangeFree (read : List Char) : Prop :=
  ∀ front d back,read = front ++ d :: back → front ≠ [] → wordBefore front = true ∨ asciiUpper d ≠ 'I'

theorem wordBefore_append {before front : List Char} (some' : front ≠ []) :
    wordBefore (before ++ front) = wordBefore front := by
  unfold wordBefore
  rw [List.getLast?_append_of_ne_nil _ some']

theorem free_single (c : Char) : ChangeFree [c] := by
  intro front d back is some'
  cases front with
  | nil => exact absurd rfl some'
  | cons e front => simp at is

-- Letters, and then characters that are none.
theorem free_keyword {keyword tail : List Char} (letters : ∀ c ∈ keyword,isWordChar c = true)
    (others : ∀ c ∈ tail,asciiUpper c ≠ 'I') : ChangeFree (keyword ++ tail) := by
  intro front d back is some'
  rcases List.append_eq_append_iff.mp is with ⟨more,split,rest⟩ | ⟨more,split,rest⟩
  · cases more with
    | nil =>
      rw [List.append_nil] at split
      subst split
      refine .inl ?_
      have last := letters _ (List.getLast_mem some')
      rw [wordBefore,List.getLast?_eq_some_getLast some']
      exact last
    | cons e more =>
      refine .inr (others d ?_)
      rw [rest]
      simp
  · refine .inl ?_
    have inside : ∀ c ∈ front,c ∈ keyword := fun c member => by rw [split]; exact List.mem_append_left _ member
    have last := letters _ (inside _ (List.getLast_mem some'))
    rw [wordBefore,List.getLast?_eq_some_getLast some']
    exact last

theorem keyword_letters {keyword : List Char} (is : keyword.map asciiUpper = "IDENTITY".toList) :
    ∀ c ∈ keyword,isWordChar c = true := by
  intro c member
  have upper : asciiUpper c ∈ "IDENTITY".toList := is ▸ List.mem_map_of_mem member
  have capitals : "IDENTITY".toList.all asciiIsUpper = true := rfl
  exact letter_word (List.all_eq_true.mp capitals _ upper)

theorem space_inert {c : Char} (space : isAsciiSpace c = true) : asciiUpper c ≠ 'I' := by
  intro is
  have small : c.toNat ∈ [0x09,0x0a,0x0c,0x0d,0x20] := of_decide_eq_true space
  simp only [List.mem_cons,List.not_mem_nil,or_false] at small
  have letter := letter_I is
  omega

theorem digit_inert {c : Char} (digit : isDigit c = true) : asciiUpper c ≠ 'I' := by
  intro is
  unfold isDigit at digit
  simp only [Bool.and_eq_true,decide_eq_true_eq] at digit
  have bounds : '0'.toNat = 48 ∧ '9'.toNat = 57 := ⟨rfl,rfl⟩
  have letter := letter_I is
  omega

-- What the clauses are made of besides the keyword.
theorem number_chars {P : Char → Prop} {close : Char} {text after : List Char}
    (number : NumberBefore Unsigned close text after) (space : ∀ c,isAsciiSpace c = true → P c)
    (digit : ∀ c,isDigit c = true → P c) (closing : P close) (later : ∀ c ∈ after,P c) : ∀ c ∈ text,P c := by
  obtain ⟨gap,signed,digits,trailing,rfl,spaces,unsigned,-,all,trailingSpaces⟩ := number
  cases unsigned
  simp only [List.nil_append,List.mem_append,List.mem_cons]
  rintro c (inside | inside | inside | rfl | inside)
  · exact space c (spaces c inside)
  · exact digit c (all c inside)
  · exact space c (trailingSpaces c inside)
  · exact closing
  · exact later c inside

theorem change_read {P : Char → Prop} {text rest : List Char} {piece : Copied} (change : Change text piece rest)
    (space : ∀ c,isAsciiSpace c = true → P c) (digit : ∀ c,isDigit c = true → P c) (marks : P '(' ∧ P ',' ∧ P ')') :
    ∃ keyword tail,piece.read = keyword ++ tail ∧ keyword.map asciiUpper = "IDENTITY".toList ∧ ∀ c ∈ tail,P c := by
  cases change with
  | @clause read rest spelled =>
    obtain ⟨opening,inner,rfl,⟨keyword,gap,rfl,is,spaces⟩,⟨behind,seed,step⟩⟩ := spelled
    refine ⟨keyword,gap ++ '(' :: inner,by simp,is,?_⟩
    have stepChars := number_chars step space digit marks.2.2 nofun
    have seedChars := number_chars seed space digit marks.2.1 stepChars
    simp only [List.mem_append,List.mem_cons]
    rintro c (inside | rfl | inside)
    · exact space c (spaces c inside)
    · exact marks.1
    · exact seedChars c inside
  | @respelled read rest opening open' =>
    obtain ⟨keyword,gap,rfl,is,spaces⟩ := opening
    refine ⟨keyword,gap ++ ['('],rfl,is,?_⟩
    simp only [List.mem_append,List.mem_singleton]
    rintro c (inside | rfl)
    · exact space c (spaces c inside)
    · exact marks.1

-- Characters after which the plain reading is in code as before.
def KeepsCode (c : Char) : Prop := c ≠ '\'' ∧ c ≠ '"' ∧ c ≠ '-' ∧ c ≠ '/'

theorem plain_read {read rest : List Char} {region : Region} (plain : ∀ c ∈ read,KeepsCode c) (some' : read ≠ [])
    (inStep : InStep .code region (read ++ rest)) : read.foldl (step plainRules) region = .code .none := by
  have stays (cs : List Char) (all : ∀ c ∈ cs,KeepsCode c) : cs.foldl (step plainRules) (.code .none) = .code .none := by
    induction cs with
    | nil => rfl
    | cons c cs ih =>
      obtain ⟨single,double,dash,slash⟩ := all c List.mem_cons_self
      have here : step plainRules (.code .none) c = .code .none := by
        rw [step,plain_ofCode,if_neg single,if_neg double,if_neg dash,if_neg slash]
      rw [List.foldl_cons,here]
      exact ih fun d member => all d (List.mem_cons_of_mem _ member)
  obtain ⟨c,read,rfl⟩ := List.exists_cons_of_ne_nil some'
  obtain ⟨single,double,dash,slash⟩ := plain c List.mem_cons_self
  have here : step plainRules region c = .code .none := by
    rw [(agrees_code inStep).2,plain_ofCode,if_neg single,if_neg double,if_neg dash,if_neg slash]
  rw [List.foldl_cons,here]
  exact stays read fun d member => plain d (List.mem_cons_of_mem _ member)

-- One round of the scanner: it reads something, stays in step, changes only what
-- stands there, and goes over no change.
structure Round (before text : List Char) (piece : Copied) (mode : Quoting) (rest : List Char) : Prop where
  split : text = piece.read ++ rest
  some' : piece.read ≠ []
  inStep : InStep mode (regionAfter plainRules (before ++ piece.read)) rest
  sound : piece.written = piece.read ∨ StandsAt before text piece rest
  here : ∀ other after,StandsAt before text other after → other = piece
  within : ChangeFree piece.read

theorem pair_free {c d : Char} (inert : asciiUpper d ≠ 'I') : ChangeFree [c,d] := by
  intro front e back is some'
  cases front with
  | nil => exact absurd rfl some'
  | cons f front =>
    cases front with
    | nil =>
      simp only [List.cons_append,List.nil_append,List.cons.injEq] at is
      exact .inr (is.2.1 ▸ inert)
    | cons g front => simp at is

theorem quotedStep_free {mode : Quoting} {text read rest : List Char} {next : Quoting}
    (taken : quotedStep mode text = some (read,next,rest)) :
    ChangeFree read ∧ (mode = .code → ∀ d tail,text = d :: tail → asciiUpper d ≠ 'I') := by
  cases text with
  | nil => cases taken
  | cons c cs =>
    cases mode with
    | lineComment => cases taken; exact ⟨free_single c,fun is => Quoting.noConfusion is⟩
    | doubleQuote => cases taken; exact ⟨free_single c,fun is => Quoting.noConfusion is⟩
    | blockComment =>
      simp only [quotedStep] at taken
      split at taken <;> cases taken
      · exact ⟨pair_free (by decide),fun is => Quoting.noConfusion is⟩
      · exact ⟨free_single c,fun is => Quoting.noConfusion is⟩
    | singleQuote =>
      simp only [quotedStep] at taken
      split at taken <;> cases taken
      · exact ⟨pair_free (by decide),fun is => Quoting.noConfusion is⟩
      · exact ⟨free_single c,fun is => Quoting.noConfusion is⟩
    | code =>
      have inert (mark : Char) (other : asciiUpper mark ≠ 'I') (is : c = mark) :
          ∀ d tail,c :: cs = d :: tail → asciiUpper d ≠ 'I' := by
        intro d tail same
        rw [← (List.cons.inj same).1,is]
        exact other
      simp only [quotedStep] at taken
      split at taken
      · rename_i quote
        cases taken
        exact ⟨free_single c,fun _ => inert _ (by decide) quote⟩
      · split at taken
        · rename_i quote
          cases taken
          exact ⟨free_single c,fun _ => inert _ (by decide) quote⟩
        · split at taken
          · rename_i opens
            cases taken
            exact ⟨pair_free (by decide),fun _ => inert _ (by decide) opens.1⟩
          · split at taken
            · rename_i opens
              cases taken
              exact ⟨pair_free (by decide),fun _ => inert _ (by decide) opens.1⟩
            · cases taken

theorem inStep_code {mode : Quoting} {region : Region} {text : List Char} (inStep : InStep mode region text)
    (code : region.isCode = true) : mode = .code := by
  cases mode with
  | code => rfl
  | lineComment => cases inStep; cases code
  | singleQuote => cases inStep; cases code
  | doubleQuote => cases inStep; cases code
  | blockComment => obtain rfl | ⟨rfl,-⟩ := inStep <;> cases code

theorem round_quoted {mode next : Quoting} {before text read rest : List Char}
    (taken : quotedStep mode text = some (read,next,rest)) (inStep : InStep mode (regionAfter plainRules before) text) :
    Round before text ⟨read,read⟩ next rest := by
  have passed := quotedStep_read taken inStep
  have free := quotedStep_free taken
  refine ⟨passed.text,passed.some',?_,.inl rfl,?_,free.1⟩
  · rw [regionAfter_append]
    exact passed.agrees
  · intro other after stands
    obtain ⟨d,tail,is,letter⟩ := stands.change.first
    exact absurd letter (free.2 (inStep_code inStep stands.code) d tail is)

theorem word_plain {c : Char} (word : isWordChar c = true) : KeepsCode c := by
  refine ⟨?_,?_,?_,?_⟩ <;> (rintro rfl; cases word)

theorem space_plain {c : Char} (space : isAsciiSpace c = true) : KeepsCode c := by
  refine ⟨?_,?_,?_,?_⟩ <;> (rintro rfl; cases space)

theorem digit_plain {c : Char} (digit : isDigit c = true) : KeepsCode c := by
  refine ⟨?_,?_,?_,?_⟩ <;> (rintro rfl; cases digit)

theorem change_plain {text rest : List Char} {piece : Copied} (change : Change text piece rest) :
    piece.read ≠ [] ∧ (∀ c ∈ piece.read,KeepsCode c) ∧ ChangeFree piece.read := by
  have marks : KeepsCode '(' ∧ KeepsCode ',' ∧ KeepsCode ')' := by unfold KeepsCode; decide
  obtain ⟨keyword,tail,is,keywordIs,plain⟩ := change_read change (fun _ => space_plain) (fun _ => digit_plain) marks
  obtain ⟨keyword',tail',is',keywordIs',inert⟩ := change_read change (P := fun c => asciiUpper c ≠ 'I')
    (fun _ => space_inert) (fun _ => digit_inert) (by decide)
  have letters := keyword_letters keywordIs
  refine ⟨?_,?_,?_⟩
  · intro empty
    rw [is] at empty
    rw [(List.append_eq_nil_iff.mp empty).1] at keywordIs
    cases keywordIs
  · intro c member
    rw [is] at member
    rcases List.mem_append.mp member with inside | inside
    · exact word_plain (letters c inside)
    · exact plain c inside
  · rw [is']
    exact free_keyword (keyword_letters keywordIs') inert

theorem round_keyword {before text : List Char} (inStep : InStep .code (regionAfter plainRules before) text)
    (code : plainCode before = true) (apart : wordBefore before = false) (keyword : matchesIdentityKeyword text = true) :
    Round before text (identityStep text).1 .code (identityStep text).2 := by
  have here : ∀ other after,StandsAt before text other after → other = (identityStep text).1 := by
    intro other after stands
    rw [(identityStep_of_change stands.change).2]
  obtain ⟨copied,rest⟩ | change := change_of_identityStep keyword
  · have letters := keyword_letters (of_decide_eq_true keyword)
    have split : text = (identityStep text).1.read ++ (identityStep text).2 := by
      rw [copied,rest]
      exact (List.take_append_drop 8 text).symm
    have some' : (identityStep text).1.read ≠ [] := by
      rw [copied]
      intro empty
      have is : (text.take 8).map asciiUpper = "IDENTITY".toList := of_decide_eq_true keyword
      rw [show text.take 8 = [] from empty] at is
      cases is
    refine ⟨split,some',.inl ?_,.inl (by rw [copied]),here,?_⟩
    · rw [regionAfter_append]
      refine plain_read ?_ some' (split ▸ inStep)
      rw [copied]
      exact fun c member => word_plain (letters c member)
    · have free := @free_keyword _ [] letters nofun
      rw [List.append_nil] at free
      rw [copied]
      exact free
  · obtain ⟨some',plain,free⟩ := change_plain change
    refine ⟨change.text,some',.inl ?_,.inr ⟨code,apart,change⟩,here,free⟩
    rw [regionAfter_append]
    exact plain_read plain some' (change.text ▸ inStep)

-- The first piece is a round, and the others are those of the rest.
theorem identityPieces_round {fuel : Nat} {mode : Quoting} {before text : List Char} (some' : text ≠ [])
    (inStep : InStep mode (regionAfter plainRules before) text) :
    ∃ piece next rest,Round before text piece next rest ∧
      identityPieces (fuel + 1) mode (wordBefore before) text =
        piece :: identityPieces fuel next (wordBefore (before ++ piece.read)) rest := by
  obtain ⟨c,cs,rfl⟩ := List.exists_cons_of_ne_nil some'
  have last {read : List Char} (some' : read ≠ []) :
      (read.getLast?.map isWordChar).getD false = wordBefore (before ++ read) := (wordBefore_append some').symm
  cases taken : quotedStep mode (c :: cs) with
  | some parts =>
    obtain ⟨read,next,rest⟩ := parts
    have round := round_quoted taken inStep
    refine ⟨_,next,rest,round,?_⟩
    rw [identityPieces,taken,← last round.some']
  | none =>
    obtain ⟨rfl,code,stays⟩ := quotedStep_code taken inStep
    by_cases keyword : matchesIdentityKeyword (c :: cs) = true ∧ wordBefore before = false
    · have round := round_keyword inStep code keyword.2 keyword.1
      refine ⟨_,.code,_,round,?_⟩
      rw [identityPieces,taken]
      dsimp only
      rw [if_pos keyword,← last round.some']
    · refine ⟨⟨[c],[c]⟩,.code,cs,⟨rfl,by simp,?_,.inl rfl,?_,free_single c⟩,?_⟩
      · rw [regionAfter_append]
        exact stays
      · intro other after stands
        exact absurd ⟨(identityStep_of_change stands.change).1,stands.apart⟩ keyword
      · rw [identityPieces,taken]
        dsimp only
        rw [if_neg keyword,← last (by simp)]
        rfl

-- The pieces of a text, and what is read before each.
structure Pieces (before text : List Char) (pieces : List Copied) : Prop where
  split : pieces.flatMap Copied.read = text
  some' : ∀ piece ∈ pieces,piece.read ≠ []
  sound : ∀ (front : List Copied) (piece : Copied) (back : List Copied),pieces = front ++ piece :: back →
    piece.written = piece.read ∨
      StandsAt (before ++ front.flatMap Copied.read) ((piece :: back).flatMap Copied.read) piece
        (back.flatMap Copied.read)
  complete : ∀ (x : List Char) (piece : Copied) (rest : List Char),text = x ++ (piece.read ++ rest) →
    StandsAt (before ++ x) (piece.read ++ rest) piece rest →
      ∃ front back,pieces = front ++ piece :: back ∧ front.flatMap Copied.read = x

-- A place behind the first piece is one in the rest of the text.
theorem behind_round {before text rest x tail : List Char} {piece other : Copied} {next : Quoting}
    {after : List Char} (round : Round before text piece next rest) (is : text = x ++ tail) (some' : x ≠ [])
    (stands : StandsAt (before ++ x) tail other after) : ∃ y,x = piece.read ++ y ∧ rest = y ++ tail := by
  have both := round.split.symm.trans is
  rcases List.append_eq_append_iff.mp both with ⟨y,front,later⟩ | ⟨y,front,later⟩
  · exact ⟨y,front,later⟩
  · cases y with
    | nil => exact ⟨[],by simpa using front.symm,by simpa using later.symm⟩
    | cons d y =>
      obtain ⟨e,t,begins,letter⟩ := stands.change.first
      rw [begins,List.cons_append,List.cons.injEq] at later
      rcases round.within x d y front some' with word | inert
      · have apart := stands.apart
        rw [wordBefore_append some',word] at apart
        cases apart
      · exact absurd (later.1 ▸ letter) inert

theorem identityPieces_nil (fuel : Nat) (mode : Quoting) (previous : Bool) : identityPieces fuel mode previous [] = [] := by
  cases fuel <;> rfl

theorem identityPieces_run {fuel : Nat} {mode : Quoting} {before text : List Char} (enough : text.length ≤ fuel)
    (inStep : InStep mode (regionAfter plainRules before) text) :
    Pieces before text (identityPieces fuel mode (wordBefore before) text) := by
  induction fuel generalizing mode before text with
  | zero =>
    cases List.length_eq_zero_iff.mp (Nat.le_zero.mp enough)
    refine ⟨rfl,nofun,?_,?_⟩
    · intro front piece back is
      cases front <;> cases is
    · intro x piece rest is stands
      obtain ⟨d,tail,front,-⟩ := stands.change.first
      rw [front] at is
      cases x <;> cases is
  | succ fuel ih =>
    by_cases empty : text = []
    · subst empty
      have none' := ih (Nat.zero_le _) inStep
      rw [identityPieces_nil] at none' ⊢
      exact none'
    · obtain ⟨piece,next,rest,round,unfolds⟩ := identityPieces_round empty inStep
      have shorter : rest.length ≤ fuel := by
        have lengths := congrArg List.length round.split
        have positive := List.length_pos_of_ne_nil round.some'
        rw [List.length_append] at lengths
        omega
      have later := ih shorter round.inStep
      rw [unfolds]
      refine ⟨?_,?_,?_,?_⟩
      · rw [List.flatMap_cons,later.split,← round.split]
      · exact List.forall_mem_cons.mpr ⟨round.some',later.some'⟩
      · intro front other back is
        cases front with
        | nil =>
          rw [List.nil_append,List.cons.injEq] at is
          obtain ⟨rfl,rest'⟩ := is
          rw [← rest',List.flatMap_cons,later.split,List.flatMap_nil,List.append_nil,← round.split]
          exact round.sound
        | cons first front =>
          rw [List.cons_append,List.cons.injEq] at is
          obtain ⟨rfl,is⟩ := is
          rw [List.flatMap_cons,← List.append_assoc]
          exact later.sound front other back is
      · intro x other after is stands
        by_cases first : x = []
        · subst first
          rw [List.nil_append] at is
          rw [List.append_nil,← is] at stands
          have same := round.here other after stands
          subst same
          exact ⟨[],_,rfl,rfl⟩
        · obtain ⟨y,rfl,split⟩ := behind_round round is first stands
          rw [← List.append_assoc] at stands
          obtain ⟨front,back,found,reads⟩ := later.complete y other after split stands
          refine ⟨piece :: front,back,by rw [found,List.cons_append],?_⟩
          rw [List.flatMap_cons,reads]

theorem identityPieces_whole (sql : List Char) : Pieces [] sql (identityPieces sql.length .code false sql) :=
  identityPieces_run (Nat.le_refl _) (.inl rfl)

section
variable (rules : Rules)

-- A clause as the language has it: comments may stand between its parts, and the
-- numbers may be signed.
structure IdentityToken (before read : List Char) : Prop where
  starts : (regionAfter rules before).startsWord = true
  spelled : ClauseText Signed (withoutComments rules (.code .none) read)

-- Exactly the clauses are taken out, and everything else is written as it is read.
structure IdentityExact (sql : List Char) : Prop where
  removed : ∀ before read after : List Char,sql = before ++ (read ++ after) →
    ((∃ front back,identityPieces sql.length .code false sql = front ++ ⟨read,[]⟩ :: back ∧
      front.flatMap Copied.read = before) ↔ IdentityToken rules before read)
  others : ∀ piece ∈ identityPieces sql.length .code false sql,piece.written = piece.read ∨ piece.written = []

-- A clause with plain numbers and white space, where the plain reading has code.
structure IdentityFound (before read : List Char) : Prop where
  code : plainCode before = true
  apart : wordBefore before = false
  spelled : ClauseText Unsigned read

-- A keyword with a parenthesis that no seed and step follow is written anew.
structure IdentityRespelled (before read after : List Char) : Prop where
  code : plainCode before = true
  apart : wordBefore before = false
  opening : Opening read
  open' : ∀ rest,¬SeedAndStep Unsigned after rest

theorem removed_iff {sql before read after : List Char} (is : sql = before ++ (read ++ after)) :
    (∃ front back,identityPieces sql.length .code false sql = front ++ ⟨read,[]⟩ :: back ∧
      front.flatMap Copied.read = before) ↔ IdentityFound before read := by
  have pieces := identityPieces_whole sql
  constructor
  · intro ⟨front,back,found,reads⟩
    obtain same | stands := pieces.sound front _ back found
    · exact absurd same.symm (pieces.some' ⟨read,[]⟩ (by rw [found]; simp))
    · rw [List.nil_append,reads] at stands
      refine ⟨stands.code,stands.apart,?_⟩
      generalize whole : (Copied.mk read [] :: back).flatMap Copied.read = text at stands
      obtain ⟨-,-,change⟩ := stands
      cases change with
      | clause spelled => exact spelled
  · intro found
    refine pieces.complete before ⟨read,[]⟩ after is ⟨found.code,found.apart,.clause found.spelled⟩

theorem identity_exact_iff (sql : List Char) :
    IdentityExact rules sql ↔
      (∀ before read after,sql = before ++ (read ++ after) →
        (IdentityFound before read ↔ IdentityToken rules before read)) ∧
      ∀ before read after,sql = before ++ (read ++ after) → IdentityRespelled before read after →
        read = "IDENTITY(".toList := by
  have pieces := identityPieces_whole sql
  have respelled : (∀ piece ∈ identityPieces sql.length .code false sql,piece.written = piece.read ∨ piece.written = []) ↔
      ∀ before read after,sql = before ++ (read ++ after) → IdentityRespelled before read after →
        read = "IDENTITY(".toList := by
    constructor
    · intro each before read after is anew
      obtain ⟨front,back,found,-⟩ := pieces.complete before ⟨read,"IDENTITY(".toList⟩ after is
        ⟨anew.code,anew.apart,.respelled anew.opening anew.open'⟩
      obtain same | empty := each ⟨read,"IDENTITY(".toList⟩ (by rw [found]; simp)
      · exact same.symm
      · cases empty
    · intro spelled piece member
      obtain ⟨front,back,found⟩ := List.append_of_mem member
      obtain same | stands := pieces.sound front piece back found
      · exact .inl same
      · have split : sql = front.flatMap Copied.read ++ (piece.read ++ back.flatMap Copied.read) := by
          rw [← pieces.split,found]
          simp
        generalize whole : (piece :: back).flatMap Copied.read = text at stands
        obtain ⟨code,apart,change⟩ := stands
        cases change with
        | clause => exact .inr rfl
        | respelled opening open' => exact .inl (spelled _ _ _ split ⟨code,apart,opening,open'⟩).symm
  constructor
  · intro exact'
    refine ⟨?_,respelled.mp exact'.others⟩
    intro before read after is
    rw [← removed_iff is]
    exact exact'.removed before read after is
  · intro ⟨places,spelled⟩
    refine ⟨?_,respelled.mpr spelled⟩
    intro before read after is
    rw [removed_iff is]
    exact places before read after is

end

end Scythe
