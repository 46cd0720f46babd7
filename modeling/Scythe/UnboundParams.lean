import Scythe.Lib.Delimited
import Scythe.LivePlaceholders

-- The numbers that a query names after dollar signs, and those of its placeholders.
namespace Scythe.UnboundParams
open Text Splice

structure LintFix where
  description : String
  replacement : String
  deriving DecidableEq,Repr

structure Violation where
  ruleId : String
  message : List Char
  fix : Option LintFix
  deriving DecidableEq,Repr

-- What the rule reads of a query.
structure LintContext where
  sql : List Char
  params : List AnalyzedParam

-- What follows each dollar sign. No digit is one, so that none is skipped.
def dollarDigits : List Char → List (List Char)
  | [] => []
  | c :: cs => if c = '$' then cs.takeWhile isDigit :: dollarDigits cs else dollarDigits cs

def referenced (sql : List Char) : List Int :=
  (dollarDigits sql).filterMap fun digits => if digits = [] then none else parseI64 (String.ofList digits)

-- A hash set, as it is gone through: in any order.
structure HashOrder (found : List Int) where
  items : List Int
  distinct : items.Nodup
  same : ∀ n,n ∈ items ↔ n ∈ found

-- What a violation says of a number.
def absence : List Char :=
  "appears in SQL but is absent from the generated parameter signature — it may have been silently dropped during analysis".toList

def message (n : Int) : List Char := "parameter ".toList ++ '$' :: ((toString n).toList ++ ' ' :: absence)

def violation (n : Int) : Violation where
  ruleId := "SC-S07"
  message := message n
  fix := none

-- The first word after the first dollar sign.
def messageNumber (message : List Char) : Int :=
  let found := (splitChars '$' message)[1]?.bind fun after =>
    parseI64 (String.ofList ((after.dropWhile isSpace).takeWhile fun c => !isSpace c))
  found.getD 0

def LintContext.bound (ctx : LintContext) : List Int := ctx.params.map (·.position)

def checkQuery (ctx : LintContext) (order : HashOrder (referenced ctx.sql)) : List Violation :=
  if order.items = [] then []
  else ((order.items.filter fun n => n ∉ ctx.bound).map violation).mergeSort fun a b =>
    messageNumber a.message ≤ messageNumber b.message

def largest : Int := 9223372036854775807

theorem parseNat_digits {digits : List Char} (present : digits ≠ []) (plain : ∀ d ∈ digits,isDigit d = true) :
    parseNat digits = some (natOfDigits digits) :=
  if_pos ⟨present,List.all_eq_true.mpr plain⟩

theorem parseI64_digits {digits : List Char} (present : digits ≠ []) (plain : ∀ d ∈ digits,isDigit d = true) :
    parseI64 (String.ofList digits) = if (natOfDigits digits : Int) ≤ largest then some (natOfDigits digits : Int) else none := by
  have parsed := parseNat_digits present plain
  unfold parseI64
  rw [String.toList_ofList]
  have unsigned : ∀ c ∈ digits.head?,c ≠ '-' ∧ c ≠ '+' := by
    intro c head
    have digit := plain c (List.mem_of_mem_head? head)
    constructor
    · rintro rfl
      cases digit
    · rintro rfl
      cases digit
  cases digits with
  | nil => exact absurd rfl present
  | cons d digits =>
    obtain ⟨minus,plus⟩ := unsigned d rfl
    dsimp only
    split
    · rename_i same
      exact absurd (List.cons.inj same).1 minus
    · rename_i same
      exact absurd (List.cons.inj same).1 plus
    · rw [parsed]
      unfold largest
      by_cases small : (natOfDigits (d :: digits) : Int) ≤ 9223372036854775807
      · rw [if_pos small]
        simp [Option.filter,small]
      · rw [if_neg small]
        simp [Option.filter,small]

theorem dollarDigits_plain {front : List Char} (plain : '$' ∉ front) (rest : List Char) :
    dollarDigits (front ++ rest) = dollarDigits rest := by
  induction front with
  | nil => rfl
  | cons c front ih =>
    rw [List.mem_cons,not_or] at plain
    rw [List.cons_append,dollarDigits,if_neg (Ne.symm plain.1)]
    exact ih plain.2

theorem digits_undollared {digits : List Char} (plain : ∀ d ∈ digits,isDigit d = true) : '$' ∉ digits := by
  intro member
  cases plain _ member

theorem dollarDigits_digits {sql digits : List Char} (member : digits ∈ dollarDigits sql) :
    ∀ d ∈ digits,isDigit d = true := by
  induction sql with
  | nil => cases member
  | cons c sql ih =>
    rw [dollarDigits] at member
    split at member
    · rcases List.mem_cons.mp member with rfl | later
      · exact fun d inside => List.mem_takeWhile_imp inside
      · exact ih later
    · exact ih member

theorem matchUnambiguousOperator_undollared {cs operator rest : List Char}
    (found : matchUnambiguousOperator cs = some (operator,rest)) : '$' ∉ operator := by
  obtain ⟨op,member,matched⟩ := List.exists_of_findSome?_eq_some found
  obtain ⟨rest',_,equal⟩ := Option.map_eq_some_iff.mp matched
  obtain ⟨rfl,rfl⟩ := Prod.mk.inj equal
  have plain : ∀ op ∈ unambiguousOperators,'$' ∉ op.toList := by decide
  exact plain op member

theorem takeWhile_present {cs : List Char} (digitNext : (cs.head?.map isDigit).getD false = true) :
    cs.takeWhile isDigit ≠ [] := by
  cases cs with
  | nil => cases digitNext
  | cons d cs =>
    have digit : isDigit d = true := digitNext
    rw [List.takeWhile_cons_of_pos digit]
    exact List.cons_ne_nil _ _

-- The scan of a code span sees every dollar sign with a number.
theorem codeSpan_dollars (bare : Bool) (digits : List Char) {fuel : Nat} {cs : List Char} (enough : cs.length ≤ fuel) :
    .site ('$' :: digits) ∈ codeSpanCuts bare fuel cs ↔ digits ∈ dollarDigits cs ∧ digits ≠ [] := by
  induction fuel generalizing cs with
  | zero =>
    have empty : cs = [] := List.eq_nil_of_length_eq_zero (by omega)
    rw [empty]
    simp [codeSpanCuts,dollarDigits]
  | succ fuel ih =>
    cases cs with
    | nil => simp [codeSpanCuts,dollarDigits]
    | cons c cs =>
      have tail : cs.length ≤ fuel := Nat.le_of_succ_le_succ enough
      rw [codeSpanCuts]
      cases operator : matchUnambiguousOperator (c :: cs) with
      | some found =>
        obtain ⟨op,rest⟩ := found
        obtain ⟨whole,nonempty⟩ := matchUnambiguousOperator_spec operator
        have positive := List.length_pos_iff.mpr nonempty
        have length := congrArg List.length whole
        rw [List.length_append,List.length_cons] at length
        have plain := matchUnambiguousOperator_undollared operator
        rw [whole,dollarDigits_plain plain,← ih (by omega)]
        simp
      | none =>
        dsimp only
        split
        next dollar =>
          obtain ⟨rfl,digitNext⟩ := dollar
          have shorter := (List.dropWhile_suffix isDigit (l := cs)).length_le
          have skipped : dollarDigits cs = dollarDigits (cs.dropWhile isDigit) := by
            have plain := digits_undollared fun d (inside : d ∈ cs.takeWhile isDigit) => List.mem_takeWhile_imp inside
            have whole := dollarDigits_plain plain (cs.dropWhile isDigit)
            rw [List.takeWhile_append_dropWhile] at whole
            exact whole
          have present : cs.takeWhile isDigit ≠ [] := takeWhile_present digitNext
          rw [dollarDigits,if_pos rfl,skipped,List.mem_cons,List.mem_cons,ih (by omega)]
          constructor
          · rintro (here | later)
            · cases here
              exact ⟨.inl rfl,present⟩
            · exact ⟨.inr later.1,later.2⟩
          · rintro ⟨rfl | later,some⟩
            · exact .inl rfl
            · exact .inr ⟨later,some⟩
        next silent =>
          have further : digits ∈ dollarDigits (c :: cs) ∧ digits ≠ [] ↔ digits ∈ dollarDigits cs ∧ digits ≠ [] := by
            rw [dollarDigits]
            split
            · rename_i dollar
              have empty : cs.takeWhile isDigit = [] := by
                cases cs with
                | nil => rfl
                | cons d cs => exact List.takeWhile_cons_of_neg fun digit => silent ⟨dollar,digit⟩
              rw [empty,List.mem_cons]
              constructor
              · rintro ⟨rfl | later,some⟩
                · exact absurd rfl some
                · exact ⟨later,some⟩
              · exact fun later => ⟨.inr later.1,later.2⟩
            · rfl
          rw [further,← ih tail]
          split
          · rw [List.mem_cons]
            constructor
            · rintro (here | later)
              · cases here
              · exact later
            · exact .inr
          · rw [List.mem_cons]
            constructor
            · rintro (here | later)
              · cases here
              · exact later
            · exact .inr

-- What follows the dollar signs of a part of the text.
def partDigits (rest : List Char) : List Char → List (List Char)
  | [] => []
  | c :: cs => if c = '$' then (cs ++ rest).takeWhile isDigit :: partDigits rest cs else partDigits rest cs

theorem dollarDigits_parts (text rest : List Char) :
    dollarDigits (text ++ rest) = partDigits rest text ++ dollarDigits rest := by
  induction text with
  | nil => rfl
  | cons c text ih =>
    rw [List.cons_append,dollarDigits,partDigits,ih]
    split
    · rfl
    · rfl

theorem takeWhile_stopped {cs rest : List Char} (stops : Stops isDigit rest) :
    (cs ++ rest).takeWhile isDigit = cs.takeWhile isDigit := by
  have last : rest.takeWhile isDigit = [] := by
    cases rest with
    | nil => rfl
    | cons c rest =>
      have other : isDigit c = false := stops c rfl
      exact List.takeWhile_cons_of_neg (by simp [other])
  induction cs with
  | nil => exact last
  | cons c cs ih =>
    rw [List.cons_append,List.takeWhile_cons,List.takeWhile_cons,ih]

-- Where what follows is no digit it does not matter.
theorem partDigits_stopped {text rest : List Char} (stops : Stops isDigit rest) :
    partDigits rest text = dollarDigits text := by
  induction text with
  | nil => rfl
  | cons c text ih => rw [partDigits,dollarDigits,ih,takeWhile_stopped stops]

-- The numbers that start in a literal, a quoted identifier, a comment or a
-- dollar-quoted body.
def quotedDigits : List SqlSpan → List (List Char)
  | [] => []
  | span :: spans =>
    (if span.1 = .code then [] else partDigits (Scanner.concatenation spans) span.2) ++ quotedDigits spans

theorem dollars_spans (bare : Bool) {spans : List SqlSpan} (apart : Scanner.Apart (Stops isDigit) .code spans)
    (digits : List Char) (present : digits ≠ []) :
    digits ∈ dollarDigits (Scanner.concatenation spans) ↔
      .site ('$' :: digits) ∈ spans.flatMap (spanCuts (codeScan bare)) ∨ digits ∈ quotedDigits spans := by
  induction spans with
  | nil => simp [Scanner.concatenation,dollarDigits,quotedDigits]
  | cons span spans ih =>
    have whole : Scanner.concatenation (span :: spans) = span.2 ++ Scanner.concatenation spans := List.flatMap_cons
    rw [whole,dollarDigits_parts,List.mem_append,List.flatMap_cons,List.mem_append,quotedDigits,List.mem_append,ih apart.2,
      spanCuts]
    by_cases code : span.1 = .code
    · rw [if_pos code,if_pos code,partDigits_stopped (apart.1 code)]
      have seen := codeSpan_dollars bare digits (Nat.le_refl span.2.length)
      have cuts : (codeScan bare).cuts span.2 = codeSpanCuts bare span.2.length span.2 := rfl
      rw [cuts,seen]
      constructor
      · rintro (here | live | quoted)
        · exact .inl (.inl ⟨here,present⟩)
        · exact .inl (.inr live)
        · exact .inr (.inr quoted)
      · rintro ((here | live) | none | quoted)
        · exact .inl here.1
        · exact .inr (.inl live)
        · cases none
        · exact .inr (.inr quoted)
    · rw [if_neg code,if_neg code]
      constructor
      · rintro (here | live | quoted)
        · exact .inr (.inl here)
        · exact .inl (.inr live)
        · exact .inr (.inr quoted)
      · rintro ((plain | live) | here | quoted)
        · obtain ⟨c,_,same⟩ := List.mem_map.mp plain
          cases same
        · exact .inr (.inl live)
        · exact .inl here
        · exact .inr (.inr quoted)

section
variable [CaseMap]

-- A placeholder of this number is alive: the scan of a code span finds it.
def Live (dialect : SqlDialect) (sql : List Char) (n : Int) : Prop :=
  ∃ digits,digits ≠ [] ∧ .site ('$' :: digits) ∈ (generatorLexer dialect).cuts sql ∧ (natOfDigits digits : Int) = n

def Quoted (dialect : SqlDialect) (sql : List Char) (n : Int) : Prop :=
  ∃ digits ∈ quotedDigits (tokenizeSql sql dialect),digits ≠ [] ∧ (natOfDigits digits : Int) = n

theorem tokenizeSql_apart (dialect : SqlDialect) (sql : List Char) :
    Scanner.Apart (Stops isDigit) .code (tokenizeSql sql dialect) :=
  Scanner.spans_apart (readSpan_splits dialect) (fun _ none => by cases none)
    (fun _ _ _ _ found => readSpan_starts found) sql

-- The rule finds what is alive, and what is quoted as well.
theorem referenced_iff (dialect : SqlDialect) (sql : List Char) (n : Int) :
    n ∈ referenced sql ↔ (Live dialect sql n ∨ Quoted dialect sql n) ∧ n ≤ largest := by
  have spans := dollars_spans (dialectAllowsBareQuestionMarkPlaceholder dialect) (tokenizeSql_apart dialect sql)
  rw [tokenizeSql_whole] at spans
  unfold referenced
  rw [List.mem_filterMap]
  constructor
  · rintro ⟨digits,member,parsed⟩
    split at parsed
    · cases parsed
    · rename_i present
      rw [parseI64_digits present (dollarDigits_digits member)] at parsed
      split at parsed
      · rename_i small
        cases parsed
        refine ⟨?_,small⟩
        rcases (spans digits present).mp member with live | quoted
        · exact .inl ⟨digits,present,live,rfl⟩
        · exact .inr ⟨digits,quoted,present,rfl⟩
      · cases parsed
  · rintro ⟨found,small⟩
    have digits : ∃ digits,digits ≠ [] ∧ digits ∈ dollarDigits sql ∧ (natOfDigits digits : Int) = n := by
      rcases found with ⟨digits,present,live,rfl⟩ | ⟨digits,quoted,present,rfl⟩
      · exact ⟨digits,present,(spans digits present).mpr (.inl live),rfl⟩
      · exact ⟨digits,present,(spans digits present).mpr (.inr quoted),rfl⟩
    obtain ⟨digits,present,member,rfl⟩ := digits
    refine ⟨digits,member,?_⟩
    rw [if_neg present,parseI64_digits present (dollarDigits_digits member),if_pos small]

end

theorem natOfDigits_toString (k : Nat) : natOfDigits (toString k).toList = k := by
  rw [Nat.toString_eq_repr,Nat.toList_repr]
  have read : natOfDigits (Nat.toDigits 10 k) = Nat.ofDigitChars 10 (Nat.toDigits 10 k) 0 := by
    unfold natOfDigits Nat.ofDigitChars
    congr 1
    funext total c
    rw [Nat.mul_comm]
  rw [read]
  simp

theorem toString_digits (k : Nat) : (toString k).toList ≠ [] ∧ ∀ d ∈ (toString k).toList,isDigit d = true := by
  rw [Nat.toString_eq_repr,Nat.toList_repr]
  refine ⟨Nat.toDigits_ne_nil,?_⟩
  intro d member
  have digit := Nat.isDigit_of_mem_toDigits (b := 10) (by decide) (by decide) member
  simpa [isDigit,Char.isDigit,UInt32.le_iff_toNat_le] using digit

theorem absence_undollared : '$' ∉ absence := by
  intro member
  have found := List.contains_iff_mem.mpr member
  have none : absence.contains '$' = false := by decide +kernel
  rw [none] at found
  cases found

theorem digit_solid {d : Char} (digit : isDigit d = true) : isSpace d = false := by
  unfold isDigit at digit
  rw [Bool.and_eq_true,decide_eq_true_eq,decide_eq_true_eq] at digit
  have low : 48 ≤ d.toNat := digit.1
  have high : d.toNat ≤ 57 := digit.2
  rw [Bool.eq_false_iff]
  intro blank
  simp only [isSpace,isAsciiSpace,Bool.or_eq_true,Bool.and_eq_true,decide_eq_true_eq,List.mem_cons,List.not_mem_nil,or_false] at blank
  omega

-- The number that the violations are sorted by is the one that they are about.
theorem messageNumber_message {k : Nat} (small : (k : Int) ≤ largest) : messageNumber (message k) = k := by
  obtain ⟨present,plain⟩ := toString_digits k
  have number : toString (k : Int) = toString k := rfl
  have absent : '$' ∉ (toString k).toList ++ ' ' :: absence := by
    rw [List.mem_append,not_or,List.mem_cons,not_or]
    exact ⟨digits_undollared plain,by decide,absence_undollared⟩
  have parts : splitChars '$' (message k) = ["parameter ".toList,(toString k).toList ++ ' ' :: absence] := by
    unfold message
    rw [number,splitChars_append,splitChars_single absent,splitChars_single (by decide)]
    rfl
  have solid : ∀ d ∈ (toString k).toList,(!isSpace d) = true := by
    intro d member
    rw [digit_solid (plain d member)]
    rfl
  have front : ((toString k).toList ++ ' ' :: absence).dropWhile isSpace = (toString k).toList ++ ' ' :: absence := by
    cases digits : (toString k).toList with
    | nil => exact absurd digits present
    | cons d digits =>
      have first := digit_solid (plain d (by rw [digits]; exact List.mem_cons_self))
      exact List.dropWhile_cons_of_neg (by simp [first])
  have word : ((toString k).toList ++ ' ' :: absence).takeWhile (fun c => !isSpace c) = (toString k).toList := by
    rw [List.takeWhile_append_of_pos solid,List.takeWhile_cons_of_neg (by decide),List.append_nil]
  have first : (["parameter ".toList,(toString k).toList ++ ' ' :: absence])[1]? =
      some ((toString k).toList ++ ' ' :: absence) := rfl
  unfold messageNumber
  rw [parts,first,Option.bind_some,front,word,parseI64_digits present plain,natOfDigits_toString,if_pos small]
  rfl

theorem message_inj {k j : Nat} (same : message k = message j) : k = j := by
  unfold message at same
  have numbers := List.append_cancel_right (List.cons.inj (List.append_cancel_left same)).2
  exact Delimited.nat_inj (String.toList_inj.mp numbers)

section
variable [CaseMap]

-- The report of exactly the placeholders that are alive and not bound.
def Exact (dialect : SqlDialect) (ctx : LintContext) (found : List Violation) : Prop :=
  ∃ positions : List Int,positions.Pairwise (fun n m => n < m) ∧
    (∀ n,n ∈ positions ↔ Live dialect ctx.sql n ∧ n ∉ ctx.bound) ∧ found = positions.map violation

theorem live_natural {dialect : SqlDialect} {sql : List Char} {n : Int} (live : Live dialect sql n) : ∃ k : Nat,n = k := by
  obtain ⟨digits,_,_,rfl⟩ := live
  exact ⟨_,rfl⟩

theorem referenced_natural {sql : List Char} {n : Int} (found : n ∈ referenced sql) : (∃ k : Nat,n = k) ∧ n ≤ largest := by
  obtain ⟨either,small⟩ := (referenced_iff .postgreSQL sql n).mp found
  refine ⟨?_,small⟩
  rcases either with live | quoted
  · exact live_natural live
  · obtain ⟨digits,_,_,rfl⟩ := quoted
    exact ⟨_,rfl⟩

-- The report is sorted by number, in whatever order the numbers were gone through.
theorem checkQuery_sorted (ctx : LintContext) (order : HashOrder (referenced ctx.sql)) :
    checkQuery ctx order = ((order.items.filter fun n => n ∉ ctx.bound).mergeSort fun n m => n ≤ m).map violation := by
  unfold checkQuery
  split
  · rename_i empty
    rw [empty]
    simp
  · refine (List.map_mergeSort ?_).symm
    intro n left m right
    have known : ∀ n ∈ order.items.filter fun n => n ∉ ctx.bound,messageNumber (violation n).message = n := by
      intro n member
      obtain ⟨⟨k,rfl⟩,small⟩ := referenced_natural ((order.same n).mp (List.mem_filter.mp member).1)
      exact messageNumber_message small
    rw [known n left,known m right]

omit [CaseMap] in
theorem sorted_strict {items : List Int} (distinct : items.Nodup) :
    (items.mergeSort fun n m => n ≤ m).Pairwise fun n m => n < m := by
  have sorted : (items.mergeSort fun n m => n ≤ m).Pairwise fun n m => n ≤ m := by
    have through : ∀ a b c : Int,decide (a ≤ b) = true → decide (b ≤ c) = true → decide (a ≤ c) = true := by
      intro a b c first second
      rw [decide_eq_true_eq] at first second ⊢
      exact Int.le_trans first second
    have either : ∀ a b : Int,(decide (a ≤ b) || decide (b ≤ a)) = true := by
      intro a b
      rw [Bool.or_eq_true,decide_eq_true_eq,decide_eq_true_eq]
      exact Int.le_total a b
    have ordered := List.pairwise_mergeSort through either items
    simpa using ordered
  have apart := (List.mergeSort_perm items fun n m => n ≤ m).nodup_iff.mpr distinct
  exact (List.Pairwise.and sorted apart).imp fun both => lt_of_le_of_ne both.1 both.2

theorem exact_iff_same (dialect : SqlDialect) (ctx : LintContext) (order : HashOrder (referenced ctx.sql)) :
    Exact dialect ctx (checkQuery ctx order) ↔
      ∀ n,n ∉ ctx.bound → (n ∈ referenced ctx.sql ↔ Live dialect ctx.sql n) := by
  have sorted := checkQuery_sorted ctx order
  have members : ∀ n,n ∈ ((order.items.filter fun n => n ∉ ctx.bound).mergeSort fun n m => n ≤ m) ↔
      n ∈ referenced ctx.sql ∧ n ∉ ctx.bound := by
    intro n
    rw [List.mem_mergeSort,List.mem_filter,order.same,decide_eq_true_eq]
  constructor
  · rintro ⟨positions,_,live,same⟩
    rw [sorted] at same
    intro n new
    constructor
    · intro found
      have reported := List.mem_map_of_mem (f := violation) ((members n).mpr ⟨found,new⟩)
      rw [same] at reported
      obtain ⟨m,member,equal⟩ := List.mem_map.mp reported
      obtain ⟨⟨k,rfl⟩,_⟩ := referenced_natural found
      obtain ⟨j,rfl⟩ := live_natural ((live m).mp member).1
      rw [← message_inj (Violation.mk.inj equal).2.1]
      exact ((live j).mp member).1
    · intro alive
      have reported := List.mem_map_of_mem (f := violation) ((live n).mpr ⟨alive,new⟩)
      rw [← same] at reported
      obtain ⟨m,member,equal⟩ := List.mem_map.mp reported
      have found := ((members m).mp member).1
      obtain ⟨⟨k,rfl⟩,_⟩ := referenced_natural found
      obtain ⟨j,rfl⟩ := live_natural alive
      rw [← message_inj (Violation.mk.inj equal).2.1]
      exact found
  · intro same
    refine ⟨_,sorted_strict (order.distinct.filter _),?_,sorted⟩
    intro n
    rw [members]
    constructor
    · exact fun found => ⟨(same n found.2).mp found.1,found.2⟩
    · exact fun live => ⟨(same n live.2).mpr live.1,live.2⟩

-- The report is exact just if every unbound number of a quoted part is one of a
-- placeholder too, and no placeholder has one past 63 bits.
theorem unboundParams_iff (dialect : SqlDialect) (ctx : LintContext) (order : HashOrder (referenced ctx.sql)) :
    Exact dialect ctx (checkQuery ctx order) ↔
      (∀ n,Quoted dialect ctx.sql n → n ≤ largest → n ∉ ctx.bound → Live dialect ctx.sql n) ∧
        ∀ n,Live dialect ctx.sql n → n ∉ ctx.bound → n ≤ largest := by
  rw [exact_iff_same]
  constructor
  · intro same
    constructor
    · intro n quoted small new
      exact (same n new).mp ((referenced_iff dialect ctx.sql n).mpr ⟨.inr quoted,small⟩)
    · intro n live new
      exact ((referenced_iff dialect ctx.sql n).mp ((same n new).mpr live)).2
  · rintro ⟨covered,bounded⟩ n new
    rw [referenced_iff dialect]
    constructor
    · rintro ⟨live | quoted,small⟩
      · exact live
      · exact covered n quoted small new
    · exact fun live => ⟨.inl live,bounded n live new⟩

end

section

local instance unboundAscii : CaseMap := ascii

def quotedDollar : LintContext := ⟨"SELECT '$1'".toList,[]⟩

-- A literal is read as if it held a placeholder.
theorem literal_reported : ∃ order : HashOrder (referenced quotedDollar.sql),
    checkQuery quotedDollar order = [violation 1] ∧ ¬Exact .postgreSQL quotedDollar (checkQuery quotedDollar order) := by
  have found : referenced quotedDollar.sql = [1] := by decide
  refine ⟨⟨[1],by decide,fun n => by rw [found]⟩,?_,?_⟩
  · rw [checkQuery_sorted]
    have kept : [(1 : Int)].filter (fun n => n ∉ quotedDollar.bound) = [1] := by decide
    rw [kept,List.mergeSort_singleton]
    rfl
  · intro report
    have alive := ((exact_iff_same .postgreSQL quotedDollar _).mp report 1 (by decide)).mp (by decide)
    obtain ⟨digits,_,site,_⟩ := alive
    have plain : (generatorLexer .postgreSQL).cuts quotedDollar.sql = quotedDollar.sql.map .plain := by decide
    rw [plain] at site
    obtain ⟨c,_,same⟩ := List.mem_map.mp site
    cases same

end

end Scythe.UnboundParams
