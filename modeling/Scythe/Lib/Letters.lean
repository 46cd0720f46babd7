import Scythe.Lib.Text

-- Names that are written with capitals: the words they are cut into, and what becomes of
-- them when each word is given its capital again.
namespace Letters
open Text

section
variable [CaseMap]

def titled : List Char → List Char
  | [] => []
  | first :: rest => CaseMap.upperChar first ++ rest

def lowerText (cs : List Char) : List Char := (CaseMap.lowercase (String.ofList cs)).toList

-- What the tables of a runtime keep to. The lower case of a text is that of its characters
-- but for the final sigma, which comes behind another letter only.
structure CaseTables : Prop where
  lowerSome : ∀ c,CaseMap.lowerChar c ≠ []
  upperSome : ∀ c,CaseMap.upperChar c ≠ []
  lowerFixed : ∀ c,∀ d ∈ CaseMap.lowerChar c,CaseMap.lowerChar d = [d]
  upperFixed : ∀ c,∀ d ∈ CaseMap.upperChar c,CaseMap.upperChar d = [d]
  apart : ∀ c,CaseMap.isLower c = true → CaseMap.isUpper c = false
  capital : ∀ c,CaseMap.isUpper c = true → CaseMap.upperChar c = [c]
  small : ∀ c,CaseMap.isUpper c = true → CaseMap.lowerChar c ≠ [c] → ∃ first rest,CaseMap.lowerChar c = first :: rest ∧
    CaseMap.isLower first = true ∧ ∀ d ∈ rest,CaseMap.isUpper d = false
  returns : ∀ c,CaseMap.isUpper c = false → ∀ d ∈ CaseMap.upperChar c,CaseMap.isUpper d = true →
    ∃ s,CaseMap.lowerChar d = [s] ∧ CaseMap.upperChar s = [d]
  settled : ∀ c,CaseMap.isUpper c = false → CaseMap.upperChar c = [c] → CaseMap.lowerChar c = [c]
  retitled : ∀ c,CaseMap.isUpper c = false → titled (CaseMap.lowerChar c) = CaseMap.upperChar c
  lineLower : CaseMap.lowerChar '_' = ['_']
  lineUpper : CaseMap.isUpper '_' = false
  lowerLine : ∀ c,'_' ∈ CaseMap.lowerChar c → c = '_'
  upperLine : ∀ c,'_' ∈ CaseMap.upperChar c → c = '_'
  textFixed : ∀ cs,(∀ c ∈ cs,CaseMap.lowerChar c = [c]) → lowerText cs = cs
  textLowered : ∀ cs,∀ d ∈ lowerText cs,CaseMap.lowerChar d = [d]
  textLine : ∀ cs,'_' ∈ lowerText cs → '_' ∈ cs
  textParts : ∀ before after,lowerText (before ++ '_' :: after) = lowerText before ++ '_' :: lowerText after
  textFirst : ∀ first rest,∃ others,lowerText (first :: rest) = CaseMap.lowerChar first ++ others ∧
    others.length = (rest.flatMap CaseMap.lowerChar).length

-- A capital begins a word where no capital is before it, or a small letter behind it.
def begins (prev next : Option Char) (c : Char) : Bool :=
  CaseMap.isUpper c && (!prev.any CaseMap.isUpper || next.any CaseMap.isLower)

def lowered (c : Char) : List Char := if CaseMap.isUpper c then CaseMap.lowerChar c else [c]

-- The rest of the word that is being read, and the words behind it.
def cut : Option Char → List Char → List Char × List (List Char)
  | _,[] => ([],[])
  | prev,c :: cs =>
    let later := cut (some c) cs
    if prev.isSome && begins prev cs.head? c then ([],(lowered c ++ later.1) :: later.2) else (lowered c ++ later.1,later.2)

def words (cs : List Char) : List (List Char) := (cut none cs).1 :: (cut none cs).2

-- The words put together, each but the one that is being read with a capital.
def rejoined (prev : Option Char) (cs : List Char) : List Char := (cut prev cs).1 ++ (cut prev cs).2.flatMap titled

-- Every capital is as its word writes it: it begins the word and comes back from its small
-- letter, or has none.
def Spelled (prev : Option Char) (cs : List Char) : Prop := ∀ before c after,cs = before ++ c :: after → CaseMap.isUpper c = true →
  CaseMap.lowerChar c = [c] ∨ begins (before.getLast?.or prev) after.head? c = true ∧ titled (CaseMap.lowerChar c) = [c]

-- Words in which a capital is left only where it has no small letter.
def Settled (parts : List (List Char)) : Prop :=
  ∀ word ∈ parts,∀ c ∈ word,CaseMap.isUpper c = true → CaseMap.lowerChar c = [c]

-- Of the words with their capitals: one that has a small letter is the first of the name, or
-- no capital is before it, or a small letter behind it.
def CapitalsApart (parts : List (List Char)) : Prop := ∀ before word after,parts = before ++ word :: after →
  ∀ left c right,titled word = left ++ c :: right → CaseMap.isUpper c = true → CaseMap.lowerChar c = [c] ∨
    begins (before.flatMap titled ++ left).getLast? (right ++ after.flatMap titled).head? c = true

def Uncut (prev : Option Char) (cs : List Char) : Prop := (cut prev cs).2 = []

theorem titled_append {word : List Char} (present : word ≠ []) (others : List Char) :
    titled (word ++ others) = titled word ++ others := by
  cases word with
  | nil => exact absurd rfl present
  | cons first rest => simp [titled]

theorem lowered_plain {c : Char} (plain : CaseMap.isUpper c = false) : lowered c = [c] := by
  simp [lowered,plain]

theorem lowered_capital {c : Char} (is : CaseMap.isUpper c = true) : lowered c = CaseMap.lowerChar c := by
  simp [lowered,is]

theorem cut_first (c : Char) (cs : List Char) :
    cut none (c :: cs) = (lowered c ++ (cut (some c) cs).1,(cut (some c) cs).2) := by
  simp [cut]

theorem cut_begins {p c : Char} {cs : List Char} (is : begins (some p) cs.head? c = true) :
    cut (some p) (c :: cs) = ([],(lowered c ++ (cut (some c) cs).1) :: (cut (some c) cs).2) := by
  simp [cut,is]

theorem cut_inside {p c : Char} {cs : List Char} (is : begins (some p) cs.head? c = false) :
    cut (some p) (c :: cs) = (lowered c ++ (cut (some c) cs).1,(cut (some c) cs).2) := by
  simp [cut,is]

-- Without capitals there is one word.
theorem cut_plain {cs : List Char} (plain : ∀ c ∈ cs,CaseMap.isUpper c = false) (prev : Option Char) : cut prev cs = (cs,[]) := by
  induction cs generalizing prev with
  | nil => rfl
  | cons c cs ih =>
    have first := plain c List.mem_cons_self
    have rest := ih fun d member => plain d (List.mem_cons_of_mem _ member)
    simp [cut,begins,first,rest,lowered_plain first]

omit [CaseMap] in
theorem last_or (c : Char) (before : List Char) (prev : Option Char) :
    (c :: before).getLast?.or prev = before.getLast?.or (some c) := by
  rw [List.getLast?_cons]
  cases before.getLast? <;> rfl

theorem spelled_nil (prev : Option Char) : Spelled prev [] := by
  intro before c after split
  exact absurd split.symm (List.append_ne_nil_of_right_ne_nil _ (List.cons_ne_nil _ _))

theorem spelled_cons {prev : Option Char} {c : Char} {cs : List Char} : Spelled prev (c :: cs) ↔
    (CaseMap.isUpper c = true → CaseMap.lowerChar c = [c] ∨
      begins prev cs.head? c = true ∧ titled (CaseMap.lowerChar c) = [c]) ∧ Spelled (some c) cs := by
  constructor
  · intro spelled
    refine ⟨fun is => spelled [] c cs rfl is,?_⟩
    rintro before d after rfl is
    have inner := spelled (c :: before) d after rfl is
    rw [last_or] at inner
    exact inner
  · rintro ⟨first,rest⟩ before d after split is
    cases before with
    | nil =>
      obtain ⟨rfl,rfl⟩ := List.cons.inj split
      exact first is
    | cons e before =>
      obtain ⟨rfl,rfl⟩ := List.cons.inj split
      rw [last_or]
      exact rest before d after rfl is

theorem cut_flatten (prev : Option Char) (cs : List Char) : (cut prev cs).1 ++ (cut prev cs).2.flatten = cs.flatMap lowered := by
  induction cs generalizing prev with
  | nil => rfl
  | cons c cs ih =>
    rw [List.flatMap_cons,← ih (some c),cut]
    split <;> simp

theorem uncut_cons {p c : Char} {cs : List Char} :
    Uncut (some p) (c :: cs) ↔ begins (some p) cs.head? c = false ∧ Uncut (some c) cs := by
  unfold Uncut
  cases is : begins (some p) cs.head? c with
  | true =>
    rw [cut_begins is]
    simp
  | false =>
    rw [cut_inside is]
    simp

theorem uncut_first {c : Char} {cs : List Char} : Uncut none (c :: cs) ↔ Uncut (some c) cs := by
  unfold Uncut
  rw [cut_first]

-- Behind a letter that is no capital, every capital begins a word.
theorem uncut_plain {p : Char} (plain : CaseMap.isUpper p = false) {cs : List Char} :
    Uncut (some p) cs ↔ ∀ c ∈ cs,CaseMap.isUpper c = false := by
  constructor
  · intro uncut
    induction cs generalizing p with
    | nil => simp
    | cons c cs ih =>
      obtain ⟨inside,later⟩ := uncut_cons.mp uncut
      have first : CaseMap.isUpper c = false := by simpa [begins,plain] using inside
      exact List.forall_mem_cons.mpr ⟨first,ih first later⟩
  · intro none
    unfold Uncut
    rw [cut_plain none]

omit [CaseMap] in
theorem flatMap_split {α : Type} (f : List Char → List α) {parts : List (List Char)} {left right : List α} {a : α} :
    parts.flatMap f = left ++ a :: right ↔ ∃ before word after inner outer,parts = before ++ word :: after ∧
      f word = inner ++ a :: outer ∧ left = before.flatMap f ++ inner ∧ right = outer ++ after.flatMap f := by
  constructor
  · intro split
    induction parts generalizing left with
    | nil => exact absurd split.symm (List.append_ne_nil_of_right_ne_nil _ (List.cons_ne_nil _ _))
    | cons word parts ih =>
      rw [List.flatMap_cons] at split
      rcases List.append_eq_append_iff.mp split with ⟨inner,rfl,rest⟩ | ⟨outer,front,rest⟩
      · obtain ⟨before,word',after,inner',outer,rfl,is,rfl,rfl⟩ := ih rest
        exact ⟨word :: before,word',after,inner',outer,rfl,is,by simp,rfl⟩
      · cases outer with
        | nil =>
          rw [List.append_nil] at front
          obtain ⟨before,word',after,inner',outer',rfl,is,empty,rfl⟩ := @ih [] rest.symm
          exact ⟨word :: before,word',after,inner',outer',rfl,is,by simp [front,← empty],rfl⟩
        | cons b outer =>
          obtain ⟨rfl,rfl⟩ := List.cons.inj rest
          exact ⟨[],word,parts,left,outer,rfl,front,rfl,rfl⟩
  · rintro ⟨before,word,after,inner,outer,rfl,is,rfl,rfl⟩
    simp [is]

section
variable (tables : CaseTables)
include tables

theorem capital_large {c : Char} (upper : CaseMap.isUpper c = true) : CaseMap.isLower c = false := by
  cases lower : CaseMap.isLower c with
  | false => rfl
  | true =>
    rw [tables.apart c lower] at upper
    cases upper

theorem large_next {cs : List Char} (capitals : ∀ c ∈ cs,CaseMap.isUpper c = true) : cs.head?.any CaseMap.isLower = false := by
  cases cs with
  | nil => rfl
  | cons c cs => exact capital_large tables (capitals c List.mem_cons_self)

theorem lowered_some (c : Char) : lowered c ≠ [] := by
  unfold lowered
  split
  · exact tables.lowerSome c
  · exact List.cons_ne_nil _ _

theorem titled_length {word : List Char} (present : word ≠ []) : word.length ≤ (titled word).length := by
  cases word with
  | nil => exact absurd rfl present
  | cons first rest =>
    have some := List.length_pos_iff.mpr (tables.upperSome first)
    simp only [titled,List.length_append,List.length_cons]
    omega

theorem rejoined_cons (p c : Char) (cs : List Char) : rejoined (some p) (c :: cs) =
    (if begins (some p) cs.head? c then titled (lowered c) else lowered c) ++ rejoined (some c) cs := by
  unfold rejoined
  cases is : begins (some p) cs.head? c with
  | true =>
    rw [cut_begins is]
    simp [titled_append (lowered_some tables c)]
  | false =>
    rw [cut_inside is]
    simp

theorem rejoined_length (p : Char) (cs : List Char) : cs.length ≤ (rejoined (some p) cs).length := by
  induction cs generalizing p with
  | nil => exact Nat.zero_le _
  | cons c cs ih =>
    have rest := ih c
    have small := List.length_pos_iff.mpr (lowered_some tables c)
    have large := titled_length tables (lowered_some tables c)
    rw [rejoined_cons tables,List.length_append,List.length_cons]
    split <;> omega

-- Where a letter is put back, it is as it was.
theorem rejoined_spelled (p : Char) (cs : List Char) : rejoined (some p) cs = cs ↔ Spelled (some p) cs := by
  induction cs generalizing p with
  | nil =>
    exact ⟨fun _ => spelled_nil _,fun _ => rfl⟩
  | cons c cs ih =>
    rw [rejoined_cons tables,spelled_cons,← ih]
    have longer := rejoined_length tables c cs
    have whole : ∀ front : List Char,front ≠ [] → (front ++ rejoined (some c) cs = c :: cs ↔ front = [c] ∧ rejoined (some c) cs = cs) := by
      intro front present
      constructor
      · intro same
        have lengths := congrArg List.length same
        have some := List.length_pos_iff.mpr present
        rw [List.length_append,List.length_cons] at lengths
        exact List.append_inj (same : _ = [c] ++ cs) (by rw [List.length_singleton]; omega)
      · rintro ⟨rfl,same⟩
        rw [same]
        rfl
    have large := titled_length tables (lowered_some tables c)
    have present := lowered_some tables c
    cases upper : CaseMap.isUpper c with
    | false =>
      have inside : begins (some p) cs.head? c = false := by simp [begins,upper]
      rw [inside,lowered_plain upper]
      simp
    | true =>
      have alone := tables.capital c upper
      rw [lowered_capital upper] at large present ⊢
      cases is : begins (some p) cs.head? c with
      | true =>
        have titled_some : titled (CaseMap.lowerChar c) ≠ [] := by
          intro none
          rw [none] at large
          exact present (List.length_eq_zero_iff.mp (Nat.le_zero.mp large))
        rw [if_pos rfl,whole _ titled_some]
        apply and_congr_left
        intro _
        constructor
        · intro back _
          exact .inr ⟨rfl,back⟩
        · intro either
          rcases either rfl with same | ⟨_,back⟩
          · rw [same]
            simp [titled,alone]
          · exact back
      | false =>
        rw [if_neg Bool.false_ne_true,whole _ present]
        simp

theorem words_titled (first : Char) (rest : List Char) :
    (words (first :: rest)).flatMap titled = titled (lowered first) ++ rejoined (some first) rest := by
  unfold words rejoined
  rw [cut_first]
  simp [titled_append (lowered_some tables first)]

theorem spelled_first {first : Char} {rest : List Char} : Spelled none (first :: rest) ↔
    titled (lowered first) = CaseMap.upperChar first ∧ Spelled (some first) rest := by
  rw [spelled_cons]
  apply and_congr_left
  intro _
  cases upper : CaseMap.isUpper first with
  | false => simp [lowered_plain upper,titled]
  | true =>
    have alone := tables.capital first upper
    rw [lowered_capital upper,alone]
    constructor
    · intro either
      rcases either rfl with same | ⟨_,back⟩
      · rw [same]
        simp [titled,alone]
      · exact back
    · intro back _
      exact .inr ⟨by simp [begins,upper],back⟩

-- The words of a name give its letters back just if the name is spelled by its words.
theorem words_spelled (first : Char) (rest : List Char) :
    (words (first :: rest)).flatMap titled = CaseMap.upperChar first ++ rest ↔ Spelled none (first :: rest) := by
  rw [words_titled tables,spelled_first tables,← rejoined_spelled tables]
  constructor
  · intro same
    have lengths := congrArg List.length same
    have later := rejoined_length tables first rest
    have front : (CaseMap.upperChar first).length ≤ (titled (lowered first)).length := by
      cases upper : CaseMap.isUpper first with
      | false => simp [lowered_plain upper,titled]
      | true =>
        have large := titled_length tables (lowered_some tables first)
        have some := List.length_pos_iff.mpr (lowered_some tables first)
        rw [tables.capital first upper,List.length_singleton]
        omega
    rw [List.length_append,List.length_append] at lengths
    exact List.append_inj same (by omega)
  · rintro ⟨front,back⟩
    rw [front,back]

section
variable {parts : List (List Char)} (settled : Settled parts)
include settled

-- A capital of the words comes back from its small letter.
theorem titled_returns {d : Char} (member : d ∈ parts.flatMap titled) (upper : CaseMap.isUpper d = true) :
    titled (CaseMap.lowerChar d) = [d] := by
  have caseless : CaseMap.lowerChar d = [d] → titled (CaseMap.lowerChar d) = [d] := by
    intro same
    rw [same]
    simp [titled,tables.capital d upper]
  obtain ⟨word,inside,letter⟩ := List.mem_flatMap.mp member
  cases word with
  | nil => cases letter
  | cons first rest =>
    rcases List.mem_append.mp letter with front | back
    · cases capital : CaseMap.isUpper first with
      | false =>
        obtain ⟨s,low,up⟩ := tables.returns first capital d front upper
        rw [low]
        simp [titled,up]
      | true =>
        rw [tables.capital first capital] at front
        obtain rfl := List.mem_singleton.mp front
        exact caseless (settled _ inside _ List.mem_cons_self upper)
    · exact caseless (settled _ inside _ (List.mem_cons_of_mem _ back) upper)

omit settled in
theorem titled_fixed {x : Char} {rest : List Char} (is : parts.flatMap titled = x :: rest) : CaseMap.upperChar x = [x] := by
  have opened : parts.flatMap titled = [] ++ x :: rest := is
  obtain ⟨before,word,after,inner,outer,_,split,left,_⟩ := (flatMap_split titled).mp opened
  obtain ⟨_,rfl⟩ := List.append_eq_nil_iff.mp left.symm
  cases word with
  | nil => cases split
  | cons first others =>
    obtain ⟨y,ys,up⟩ := List.exists_cons_of_ne_nil (tables.upperSome first)
    rw [titled,up] at split
    obtain ⟨rfl,_⟩ := List.cons.inj split
    exact tables.upperFixed first _ (up ▸ List.mem_cons_self)

omit settled in
theorem titled_line (unlined : ∀ word ∈ parts,'_' ∉ word) : '_' ∉ parts.flatMap titled := by
  intro member
  obtain ⟨word,inside,letter⟩ := List.mem_flatMap.mp member
  have none := unlined word inside
  cases word with
  | nil => cases letter
  | cons first rest =>
    rcases List.mem_append.mp letter with front | back
    · exact none (tables.upperLine first front ▸ List.mem_cons_self)
    · exact none (List.mem_cons_of_mem _ back)

theorem apart_spelled : CapitalsApart parts ↔ Spelled none (parts.flatMap titled) := by
  constructor
  · intro apart left c right split upper
    have back := titled_returns tables settled (split ▸ List.mem_append_right _ List.mem_cons_self) upper
    obtain ⟨before,word,after,inner,outer,whole,is,rfl,rfl⟩ := (flatMap_split titled).mp split
    rw [Option.or_none]
    exact (apart before word after whole inner c outer is upper).imp id fun begun => ⟨begun,back⟩
  · intro spelled before word after whole inner c outer is upper
    have split := (flatMap_split titled).mpr ⟨before,word,after,inner,outer,whole,is,rfl,rfl⟩
    have placed := spelled _ c _ split upper
    rw [Option.or_none] at placed
    exact placed.imp id And.left

-- The name in its capitals has the same words just if they stand apart.
theorem titled_again : (words (parts.flatMap titled)).flatMap titled = parts.flatMap titled ↔ CapitalsApart parts := by
  rw [apart_spelled tables settled]
  cases is : parts.flatMap titled with
  | nil =>
    exact ⟨fun _ => spelled_nil _,fun _ => rfl⟩
  | cons x rest =>
    rw [← words_spelled tables,titled_fixed tables is]
    rfl

theorem first_returns {x : Char} {rest : List Char} (is : parts.flatMap titled = x :: rest) :
    ∃ s,CaseMap.lowerChar x = [s] ∧ CaseMap.upperChar s = [x] := by
  cases upper : CaseMap.isUpper x with
  | false =>
    have fixed := titled_fixed tables is
    exact ⟨x,tables.settled x upper fixed,fixed⟩
  | true =>
    have back := titled_returns tables settled (is ▸ List.mem_cons_self) upper
    obtain ⟨s,others,low⟩ := List.exists_cons_of_ne_nil (tables.lowerSome x)
    have large := List.length_pos_iff.mpr (tables.upperSome s)
    rw [low,titled] at back
    have lengths := congrArg List.length back
    rw [List.length_append,List.length_singleton] at lengths
    obtain rfl := List.length_eq_zero_iff.mp (by omega : others.length = 0)
    rw [List.append_nil] at back
    exact ⟨s,low,back⟩

end

omit tables in
theorem spelled_behind {x s : Char} (same : CaseMap.isUpper s = true → s = x) {cs : List Char} (spelled : Spelled (some x) cs) :
    Spelled (some s) cs := by
  cases upper : CaseMap.isUpper s with
  | true =>
    rw [same upper]
    exact spelled
  | false =>
    cases cs with
    | nil => exact spelled_nil _
    | cons c cs =>
      obtain ⟨first,rest⟩ := spelled_cons.mp spelled
      refine spelled_cons.mpr ⟨?_,rest⟩
      intro capital
      refine (first capital).imp id fun begun => ⟨?_,begun.2⟩
      simp [begins,capital,upper]

-- With a small first letter the words are the same.
theorem camel_again {parts : List (List Char)} (settled : Settled parts) (apart : CapitalsApart parts) {x : Char} {rest : List Char}
    (is : parts.flatMap titled = x :: rest) {s : Char} (low : CaseMap.lowerChar x = [s]) :
    (words (s :: rest)).flatMap titled = x :: rest := by
  obtain ⟨s',low',up⟩ := first_returns tables settled is
  obtain rfl := (List.cons.inj (low.symm.trans low')).1
  have spelled := (apart_spelled tables settled).mp apart
  rw [is,spelled_first tables] at spelled
  have fixed : CaseMap.lowerChar s = [s] := tables.lowerFixed x s (low ▸ List.mem_singleton_self s)
  have same : CaseMap.isUpper s = true → s = x := by
    intro upper
    have alone := tables.capital s upper
    rw [up] at alone
    exact (List.cons.inj alone).1.symm
  have front : lowered s = [s] := by
    unfold lowered
    split
    · exact fixed
    · rfl
  rw [words_titled tables,front,(rejoined_spelled tables s rest).mpr (spelled_behind same spelled.2)]
  simp [titled,up]

omit tables in
theorem lowered_word {prev : Option Char} {cs : List Char} (uncut : Uncut prev cs) : (cut prev cs).1 = cs.flatMap lowered := by
  have whole := cut_flatten prev cs
  rw [uncut] at whole
  simpa using whole

theorem small_plain {c : Char} (upper : CaseMap.isUpper c = true) (cased : CaseMap.lowerChar c ≠ [c]) :
    ∀ d ∈ CaseMap.lowerChar c,CaseMap.isUpper d = false := by
  obtain ⟨first,rest,low,small,plain⟩ := tables.small c upper cased
  rw [low]
  exact List.forall_mem_cons.mpr ⟨tables.apart first small,plain⟩

-- In small letters behind one of them, a capital is left where it has no small letter.
theorem uncut_lowered {p : Char} (plain : CaseMap.isUpper p = false) {cs : List Char} :
    Uncut (some p) (cs.flatMap lowered) ↔ ∀ c ∈ cs,CaseMap.isUpper c = true → CaseMap.lowerChar c ≠ [c] := by
  rw [uncut_plain plain]
  constructor
  · intro none c member upper alone
    have inside : c ∈ lowered c := by simp [lowered,upper,alone]
    have never := none c (List.mem_flatMap.mpr ⟨c,member,inside⟩)
    rw [upper] at never
    cases never
  · intro cased d member
    obtain ⟨c,inside,letter⟩ := List.mem_flatMap.mp member
    cases upper : CaseMap.isUpper c with
    | false =>
      rw [lowered_plain upper] at letter
      rw [List.mem_singleton.mp letter,upper]
    | true =>
      rw [lowered_capital upper] at letter
      exact small_plain tables upper (cased c inside upper) d letter

theorem uncut_small {p c : Char} (upper : CaseMap.isUpper c = true) (cased : CaseMap.lowerChar c ≠ [c]) {cs : List Char} :
    Uncut (some p) ((c :: cs).flatMap lowered) ↔ ∀ d ∈ cs,CaseMap.isUpper d = true → CaseMap.lowerChar d ≠ [d] := by
  obtain ⟨first,rest,low,small,plain⟩ := tables.small c upper cased
  have firstPlain := tables.apart first small
  rw [List.flatMap_cons,lowered_capital upper,low,List.cons_append,uncut_cons,uncut_plain firstPlain,
    ← uncut_lowered tables firstPlain,uncut_plain firstPlain,List.forall_mem_append]
  constructor
  · rintro ⟨_,_,all⟩
    exact all
  · intro all
    exact ⟨by simp [begins,firstPlain],plain,all⟩

-- A run of capitals stays one word in small letters if all of them have one or none has.
theorem uncut_again {p : Char} (capital : CaseMap.isUpper p = true) {cs : List Char} (uncut : Uncut (some p) cs) :
    Uncut (some p) (cs.flatMap lowered) ↔ (∀ c ∈ cs,CaseMap.isUpper c = true → CaseMap.lowerChar c ≠ [c]) ∨
      ∀ c ∈ cs,CaseMap.isUpper c = true → CaseMap.lowerChar c = [c] := by
  induction cs generalizing p with
  | nil => exact ⟨fun _ => .inl fun _ member => absurd member List.not_mem_nil,fun _ => uncut⟩
  | cons c cs ih =>
    obtain ⟨inside,later⟩ := uncut_cons.mp uncut
    cases upper : CaseMap.isUpper c with
    | false =>
      have none : ∀ d ∈ c :: cs,CaseMap.isUpper d = false :=
        List.forall_mem_cons.mpr ⟨upper,(uncut_plain upper).mp later⟩
      have same : (c :: cs).flatMap lowered = c :: cs := by
        rw [← lowered_word uncut,cut_plain none]
      rw [same]
      refine ⟨fun _ => .inr ?_,fun _ => uncut⟩
      intro d member is
      rw [none d member] at is
      cases is
    | true =>
      by_cases cased : CaseMap.lowerChar c = [c]
      · have word : (c :: cs).flatMap lowered = c :: cs.flatMap lowered := by
          rw [List.flatMap_cons,lowered_capital upper,cased]
          rfl
        have settled : begins (some p) (cs.flatMap lowered).head? c = false ↔
            (cs.flatMap lowered).head?.any CaseMap.isLower = false := by
          simp [begins,upper,capital]
        rw [word,uncut_cons,settled,ih upper later]
        constructor
        · rintro ⟨behind,either⟩
          refine .inr (List.forall_mem_cons.mpr ⟨fun _ => cased,?_⟩)
          rcases either with all | none
          · cases cs with
            | nil => exact fun _ member => absurd member List.not_mem_nil
            | cons d cs =>
              cases next : CaseMap.isUpper d with
              | true =>
                exfalso
                obtain ⟨first,rest,low,small,_⟩ := tables.small d next (all d List.mem_cons_self next)
                simp [lowered_capital next,low,small] at behind
              | false =>
                have plain := (uncut_plain next).mp (uncut_cons.mp later).2
                intro e member is
                rcases List.mem_cons.mp member with rfl | inner
                · rw [next] at is
                  cases is
                · rw [plain e inner] at is
                  cases is
          · exact none
        · intro either
          have none : ∀ d ∈ cs,CaseMap.isUpper d = true → CaseMap.lowerChar d = [d] := by
            rcases either with all | none
            · exact absurd cased (all c List.mem_cons_self upper)
            · exact fun d member => none d (List.mem_cons_of_mem _ member)
          refine ⟨?_,.inr none⟩
          cases cs with
          | nil => rfl
          | cons d cs =>
            have same : lowered d = [d] := by
              cases next : CaseMap.isUpper d with
              | true => rw [lowered_capital next,none d List.mem_cons_self next]
              | false => exact lowered_plain next
            rw [List.flatMap_cons,same]
            simpa [begins,upper,capital] using inside
      · rw [uncut_small tables upper cased]
        constructor
        · intro all
          exact .inl (List.forall_mem_cons.mpr ⟨fun _ => cased,all⟩)
        · intro either
          rcases either with all | none
          · exact fun d member => all d (List.mem_cons_of_mem _ member)
          · exact absurd (none c List.mem_cons_self upper) cased

theorem uncut_whole {first : Char} {rest : List Char} (uncut : Uncut none (first :: rest)) :
    Uncut none ((first :: rest).flatMap lowered) ↔
      (∀ c ∈ rest,CaseMap.isUpper c = true → CaseMap.lowerChar c ≠ [c]) ∨
        ∀ c ∈ first :: rest,CaseMap.isUpper c = true → CaseMap.lowerChar c = [c] := by
  have later := uncut_first.mp uncut
  cases upper : CaseMap.isUpper first with
  | false =>
    have none : ∀ d ∈ first :: rest,CaseMap.isUpper d = false :=
      List.forall_mem_cons.mpr ⟨upper,(uncut_plain upper).mp later⟩
    have same : (first :: rest).flatMap lowered = first :: rest := by
      rw [← lowered_word uncut,cut_plain none]
    rw [same]
    refine ⟨fun _ => .inr ?_,fun _ => uncut⟩
    intro d member is
    rw [none d member] at is
    cases is
  | true =>
    by_cases cased : CaseMap.lowerChar first = [first]
    · have word : (first :: rest).flatMap lowered = first :: rest.flatMap lowered := by
        rw [List.flatMap_cons,lowered_capital upper,cased]
        rfl
      rw [word,uncut_first,uncut_again tables upper later]
      simp [upper,cased]
    · obtain ⟨s,others,low,small,plain⟩ := tables.small first upper cased
      have smallPlain := tables.apart s small
      rw [List.flatMap_cons,lowered_capital upper,low,List.cons_append,uncut_first,uncut_plain smallPlain,List.forall_mem_append,
        ← @uncut_plain _ _ smallPlain (rest.flatMap lowered),uncut_lowered tables smallPlain]
      constructor
      · rintro ⟨_,all⟩
        exact .inl all
      · intro either
        rcases either with all | none
        · exact ⟨plain,all⟩
        · exact absurd (none first List.mem_cons_self upper) cased

-- Nothing but capitals is one word.
theorem uncut_capitals {cs : List Char} (capitals : ∀ c ∈ cs,CaseMap.isUpper c = true) : Uncut none cs := by
  have behind : ∀ {p},CaseMap.isUpper p = true → Uncut (some p) cs := by
    intro p upper
    induction cs generalizing p with
    | nil => rfl
    | cons c cs ih =>
      have rest := fun d member => capitals d (List.mem_cons_of_mem _ member)
      refine uncut_cons.mpr ⟨?_,ih rest (capitals c List.mem_cons_self)⟩
      simp [begins,upper,large_next tables rest]
  cases cs with
  | nil => rfl
  | cons c cs =>
    have later := uncut_cons.mp (behind (capitals c List.mem_cons_self))
    exact uncut_first.mpr later.2

-- Between capitals, one that has a small letter is not as the words write it.
theorem spelled_capitals {first : Char} {rest : List Char} (spelled : Spelled none (first :: rest))
    (capitals : ∀ c ∈ first :: rest,CaseMap.isUpper c = true) : ∀ c ∈ rest,CaseMap.lowerChar c = [c] := by
  intro c member
  obtain ⟨before,after,rfl⟩ := List.append_of_mem member
  have front : (first :: before).getLast?.any CaseMap.isUpper = true := by
    rw [List.getLast?_eq_getLast_of_ne_nil (List.cons_ne_nil _ _)]
    exact capitals _ (List.mem_append_left (c :: after) (List.getLast_mem (List.cons_ne_nil first before)))
  have behind : after.head?.any CaseMap.isLower = false := by
    apply large_next tables
    intro d inside
    exact capitals d (List.mem_cons_of_mem _ (List.mem_append_right _ (List.mem_cons_of_mem _ inside)))
  rcases spelled (first :: before) c after rfl (capitals c (List.mem_cons_of_mem _ member)) with same | ⟨begun,_⟩
  · exact same
  · rw [Option.or_none,begins,front,behind] at begun
    simp at begun

theorem words_capitals {first : Char} {rest : List Char} (capitals : ∀ c ∈ first :: rest,CaseMap.isUpper c = true) :
    (words (first :: rest)).flatMap titled = titled (CaseMap.lowerChar first) ++ rest.flatMap CaseMap.lowerChar := by
  have uncut := uncut_capitals tables capitals
  have low : (first :: rest).flatMap lowered = (first :: rest).flatMap CaseMap.lowerChar :=
    List.flatMap_congr fun c member => lowered_capital (capitals c member)
  unfold words
  rw [lowered_word uncut,uncut,low,List.flatMap_cons,List.flatMap_cons,titled_append (tables.lowerSome first)]
  simp

theorem lowerText_length (cs : List Char) : (lowerText cs).length = (cs.flatMap CaseMap.lowerChar).length := by
  cases cs with
  | nil =>
    have empty := tables.textFixed [] fun _ member => absurd member List.not_mem_nil
    rw [empty]
    rfl
  | cons first rest =>
    obtain ⟨others,text,same⟩ := tables.textFirst first rest
    rw [text,List.flatMap_cons,List.length_append,List.length_append,same]

theorem lowerText_parts (cs : List Char) : splitChars '_' (lowerText cs) = (splitChars '_' cs).map lowerText := by
  induction len : cs.length using Nat.strongRecOn generalizing cs with
  | ind n ih =>
    by_cases present : '_' ∈ cs
    · obtain ⟨before,after,rfl,absent⟩ := List.eq_append_cons_of_mem present
      have shorter : after.length < n := by
        rw [← len,List.length_append,List.length_cons]
        omega
      have front : '_' ∉ lowerText before := fun member => absent (tables.textLine before member)
      rw [tables.textParts,splitChars_append,splitChars_append,ih _ shorter after rfl,splitChars_single front,
        splitChars_single absent]
      rfl
    · rw [splitChars_single fun member => present (tables.textLine cs member),splitChars_single present]
      rfl

omit [CaseMap] tables in
theorem flatMap_shorter {α β : Type} {f g : α → List β} {items : List α} (shorter : ∀ a ∈ items,(f a).length ≤ (g a).length) :
    (items.flatMap f).length ≤ (items.flatMap g).length := by
  induction items with
  | nil => exact Nat.le_refl _
  | cons a items ih =>
    have front := shorter a List.mem_cons_self
    have rest := ih fun b member => shorter b (List.mem_cons_of_mem a member)
    rw [List.flatMap_cons,List.flatMap_cons,List.length_append,List.length_append]
    omega

omit [CaseMap] tables in
-- Pieces that are no shorter than others, piece by piece, and the same when put together.
theorem flatMap_pieces {α β : Type} {f g : α → List β} {items : List α} (shorter : ∀ a ∈ items,(f a).length ≤ (g a).length)
    (same : items.flatMap f = items.flatMap g) : ∀ a ∈ items,f a = g a := by
  induction items with
  | nil => exact fun _ member => absurd member List.not_mem_nil
  | cons a items ih =>
    have later := fun b member => shorter b (List.mem_cons_of_mem a member)
    have rest := flatMap_shorter later
    have lengths := congrArg List.length same
    rw [List.flatMap_cons,List.flatMap_cons,List.length_append,List.length_append] at lengths
    have front := shorter a List.mem_cons_self
    obtain ⟨first,others⟩ := List.append_inj same (by omega)
    exact List.forall_mem_cons.mpr ⟨first,ih later others⟩

end

end

section Ascii
local instance letterCase : CaseMap := ascii

theorem asciiUpper_iff {c : Char} : asciiIsUpper c = true ↔ 65 ≤ c.toNat ∧ c.toNat ≤ 90 := by
  unfold asciiIsUpper
  rw [Bool.and_eq_true,decide_eq_true_eq,decide_eq_true_eq]
  exact Iff.rfl

theorem asciiLower_iff {c : Char} : asciiIsLower c = true ↔ 97 ≤ c.toNat ∧ c.toNat ≤ 122 := by
  unfold asciiIsLower
  rw [Bool.and_eq_true,decide_eq_true_eq,decide_eq_true_eq]
  exact Iff.rfl

theorem ofNat_small {n : Nat} (small : n < 128) : (Char.ofNat n).toNat = n := by
  have valid : n.isValidChar := .inl (by omega)
  unfold Char.ofNat
  rw [dif_pos valid]
  rfl

theorem asciiLower_plain {c : Char} (plain : asciiIsUpper c = false) : asciiLower c = c := by
  simp [asciiLower,plain]

theorem asciiUpper_plain {c : Char} (plain : asciiIsLower c = false) : asciiUpper c = c := by
  simp [asciiUpper,plain]

theorem asciiLower_capital {c : Char} (upper : asciiIsUpper c = true) : (asciiLower c).toNat = c.toNat + 32 := by
  have range := asciiUpper_iff.mp upper
  unfold asciiLower
  rw [if_pos upper,ofNat_small (by omega)]

theorem asciiUpper_small {c : Char} (lower : asciiIsLower c = true) : (asciiUpper c).toNat = c.toNat - 32 := by
  have range := asciiLower_iff.mp lower
  unfold asciiUpper
  rw [if_pos lower,ofNat_small (by omega)]

theorem ascii_apart {c : Char} (lower : asciiIsLower c = true) : asciiIsUpper c = false := by
  have range := asciiLower_iff.mp lower
  apply Bool.eq_false_iff.mpr
  intro upper
  have other := asciiUpper_iff.mp upper
  omega

theorem asciiLower_lower {c : Char} (upper : asciiIsUpper c = true) : asciiIsLower (asciiLower c) = true := by
  have range := asciiUpper_iff.mp upper
  rw [asciiLower_iff,asciiLower_capital upper]
  omega

theorem asciiUpper_upper {c : Char} (lower : asciiIsLower c = true) : asciiIsUpper (asciiUpper c) = true := by
  have range := asciiLower_iff.mp lower
  rw [asciiUpper_iff,asciiUpper_small lower]
  omega

theorem asciiLower_never (c : Char) : asciiIsUpper (asciiLower c) = false := by
  cases upper : asciiIsUpper c with
  | false => rw [asciiLower_plain upper,upper]
  | true => exact ascii_apart (asciiLower_lower upper)

theorem asciiUpper_never (c : Char) : asciiIsLower (asciiUpper c) = false := by
  cases lower : asciiIsLower c with
  | false => rw [asciiUpper_plain lower,lower]
  | true =>
    apply Bool.eq_false_iff.mpr
    intro still
    have large := ascii_apart still
    rw [asciiUpper_upper lower] at large
    cases large

theorem asciiUpper_returns {c : Char} (upper : asciiIsUpper c = true) : asciiUpper (asciiLower c) = c := by
  have same : (asciiUpper (asciiLower c)).toNat = c.toNat := by
    rw [asciiUpper_small (asciiLower_lower upper),asciiLower_capital upper]
    omega
  rw [← Char.ofNat_toNat (asciiUpper (asciiLower c)),same,Char.ofNat_toNat]

theorem asciiLower_line {c : Char} (is : asciiLower c = '_') : c = '_' := by
  cases upper : asciiIsUpper c with
  | false => exact (asciiLower_plain upper).symm.trans is
  | true =>
    have large := asciiLower_lower upper
    rw [is] at large
    cases large

theorem asciiUpper_line {c : Char} (is : asciiUpper c = '_') : c = '_' := by
  cases lower : asciiIsLower c with
  | false => exact (asciiUpper_plain lower).symm.trans is
  | true =>
    have large := asciiUpper_upper lower
    rw [is] at large
    cases large

theorem ascii_text (cs : List Char) : lowerText cs = cs.map asciiLower := by
  change (asciiLowercase (String.ofList cs)).toList = _
  unfold asciiLowercase
  rw [String.toList_ofList,String.toList_ofList]

theorem ascii_tables : CaseTables where
  lowerSome _ := List.cons_ne_nil _ _
  upperSome _ := List.cons_ne_nil _ _
  lowerFixed c d member := by
    obtain rfl := List.mem_singleton.mp member
    exact congrArg List.singleton (asciiLower_plain (asciiLower_never c))
  upperFixed c d member := by
    obtain rfl := List.mem_singleton.mp member
    exact congrArg List.singleton (asciiUpper_plain (asciiUpper_never c))
  apart _ := ascii_apart
  capital c upper := by
    have notLower : asciiIsLower c = false := by
      apply Bool.eq_false_iff.mpr
      intro lower
      have large := ascii_apart lower
      rw [show asciiIsUpper c = true from upper] at large
      cases large
    exact congrArg List.singleton (asciiUpper_plain notLower)
  small c upper _ := ⟨asciiLower c,[],rfl,asciiLower_lower upper,fun _ member => absurd member List.not_mem_nil⟩
  returns c _ d member upper := by
    exact ⟨asciiLower d,rfl,congrArg List.singleton (asciiUpper_returns upper)⟩
  settled c plain _ := congrArg List.singleton (asciiLower_plain plain)
  retitled c plain := by
    have same : CaseMap.lowerChar c = [c] := congrArg List.singleton (asciiLower_plain plain)
    rw [same]
    rfl
  lineLower := by decide
  lineUpper := by decide
  lowerLine c member := asciiLower_line (List.mem_singleton.mp member).symm
  upperLine c member := asciiUpper_line (List.mem_singleton.mp member).symm
  textFixed cs fixed := by
    have each : cs.map asciiLower = cs.map id := List.map_congr_left fun c member => (List.cons.inj (fixed c member)).1
    rw [ascii_text,each,List.map_id]
  textLowered cs d member := by
    rw [ascii_text] at member
    obtain ⟨c,_,rfl⟩ := List.mem_map.mp member
    exact congrArg List.singleton (asciiLower_plain (asciiLower_never c))
  textLine cs member := by
    rw [ascii_text] at member
    obtain ⟨c,inside,is⟩ := List.mem_map.mp member
    exact asciiLower_line is ▸ inside
  textParts before after := by
    rw [ascii_text,ascii_text,ascii_text,List.map_append,List.map_cons]
    rfl
  textFirst first rest := by
    refine ⟨rest.map asciiLower,?_,?_⟩
    · rw [ascii_text]
      rfl
    · have same : rest.flatMap CaseMap.lowerChar = rest.map asciiLower := List.map_eq_flatMap.symm
      rw [same]

end Ascii

end Letters
