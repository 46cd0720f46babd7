import Scythe.Lib.Lexis
import Scythe.Lib.Marks
import Scythe.Preprocess

-- Which placeholders of Oracle and SQL Server become those of the parser. The
-- conversion knows literals by their apostrophes; the languages have quoted names
-- and comments too, which hold apostrophes of their own.
namespace Scythe
open Text Marks Lexis

-- A placeholder of one spelling: the characters before its number, and the number.
structure Spelled (convert : List Char → Option (List Char)) (extra : Nat) : Prop where
  nothing : convert [] = none
  digits : ∀ c cs digits,convert (c :: cs) = some digits →
    c ≠ '$' ∧ c ≠ '\'' ∧ extra ≤ cs.length ∧ digits = cs.drop extra ∧
      ∀ index < extra,∃ d rest,cs.drop index = d :: rest ∧ d ≠ '\'' ∧ convert (d :: rest) = none
  numbers : ∀ c cs,isDigit c = true → convert (c :: cs) = none

theorem oracle_spelled : Spelled oraclePlaceholder 0 := by
  refine ⟨rfl,?_,?_⟩
  · intro c cs digits is
    unfold oraclePlaceholder at is
    split at is
    · rename_i d rest same
      cases same
      split at is
      · cases is
        exact ⟨by decide,by decide,Nat.zero_le _,rfl,fun _ below => absurd below (Nat.not_lt_zero _)⟩
      · cases is
    · cases is
  · intro c cs digit
    unfold oraclePlaceholder
    split
    · rename_i same
      cases same
      cases digit
    · rfl

theorem mssql_spelled : Spelled mssqlPlaceholder 1 := by
  refine ⟨rfl,?_,?_⟩
  · intro c cs digits is
    unfold mssqlPlaceholder at is
    split at is
    · rename_i p d rest same
      cases same
      split at is
      · rename_i spelled
        cases is
        refine ⟨by decide,by decide,by simp,rfl,?_⟩
        intro index below
        obtain rfl : index = 0 := by omega
        rcases spelled.1 with rfl | rfl
        · exact ⟨'p',d :: rest,rfl,by decide,rfl⟩
        · exact ⟨'P',d :: rest,rfl,by decide,rfl⟩
      · cases is
    · cases is
  · intro c cs digit
    unfold mssqlPlaceholder
    split
    · rename_i same
      cases same
      cases digit
    · rfl

def markOf {convert : List Char → Option (List Char)} {extra : Nat} (spelled : Spelled convert extra) : Mark where
  length := fun cs => (convert cs).map fun _ => extra
  sign := '$'
  none_nil := by rw [spelled.nothing]; rfl
  apart := by
    intro c cs length is
    obtain ⟨digits,found,rfl⟩ := Option.map_eq_some_iff.mp is
    obtain ⟨sign,_,enough,_,inner⟩ := spelled.digits c cs digits found
    refine ⟨sign,enough,fun index below => ?_⟩
    obtain ⟨d,rest,dropped,_,unmarked⟩ := inner index below
    rw [dropped,unmarked]
    rfl

-- The conversion's own machine: inside a literal or not.
def apostrophes : Machine Bool where
  step := fun inside c => if c = '\'' then !inside else inside
  live := fun inside _ => !inside

theorem apostrophes_steady {s : Bool} {cs : List Char} (free : '\'' ∉ cs) : cs.foldl apostrophes.step s = s := by
  induction cs with
  | nil => rfl
  | cons c cs ih =>
    rw [List.mem_cons,not_or] at free
    have here : apostrophes.step s c = s := if_neg (Ne.symm free.1)
    rw [List.foldl_cons,here,ih free.2]

-- Inside a literal is behind an odd number of apostrophes.
theorem apostrophes_parity (s : Bool) (cs : List Char) :
    cs.foldl apostrophes.step s = (s ^^ decide (cs.count '\'' % 2 = 1)) := by
  induction cs generalizing s with
  | nil => simp
  | cons c cs ih =>
    rw [List.foldl_cons,ih]
    by_cases quote : c = '\''
    · subst quote
      have flips : apostrophes.step s '\'' = !s := rfl
      rw [flips,List.count_cons_self]
      rcases Nat.mod_two_eq_zero_or_one (cs.count '\'') with even | odd
      · have next : (cs.count '\'' + 1) % 2 = 1 := by omega
        simp [even,next]
      · have next : (cs.count '\'' + 1) % 2 = 0 := by omega
        simp [odd,next]
    · have stays : apostrophes.step s c = s := if_neg quote
      rw [stays,List.count_cons_of_ne quote]

section Conversion
variable {convert : List Char → Option (List Char)} {extra : Nat}

theorem unmarked_of_none {spelled : Spelled convert extra} {cs : List Char} (none' : convert cs = none) :
    (markOf spelled).length cs = none := by
  change (convert cs).map _ = none
  rw [none']
  rfl

theorem quote_unmarked (spelled : Spelled convert extra) (cs : List Char) : convert ('\'' :: cs) = none := by
  cases is : convert ('\'' :: cs) with
  | none => rfl
  | some digits => exact absurd rfl (spelled.digits _ cs digits is).2.1

theorem mark_skipped (spelled : Spelled convert extra) (s : Bool) {skip : Nat} {cs : List Char}
    (plain : ∀ index < skip,∃ d rest,cs.drop index = d :: rest ∧ d ≠ '\'') :
    apostrophes.rewrite (markOf spelled) skip s cs = apostrophes.rewrite (markOf spelled) 0 s (cs.drop skip) := by
  induction skip generalizing cs with
  | zero => rfl
  | succ skip ih =>
    obtain ⟨d,rest,is,other⟩ := plain 0 (Nat.succ_pos _)
    rw [List.drop_zero] at is
    subst is
    have stays : apostrophes.step s d = s := if_neg other
    rw [Machine.rewrite,stays,List.drop_succ_cons]
    exact ih fun index below => plain (index + 1) (Nat.succ_lt_succ below)

theorem digits_copied (spelled : Spelled convert extra) (s : Bool) (cs : List Char) :
    apostrophes.rewrite (markOf spelled) 0 s cs =
      cs.takeWhile isDigit ++ apostrophes.rewrite (markOf spelled) 0 s (cs.dropWhile isDigit) := by
  have digit : ∀ d ∈ cs.takeWhile isDigit,isDigit d = true := List.all_eq_true.mp List.all_takeWhile
  have free : '\'' ∉ cs.takeWhile isDigit := by
    intro member
    cases digit _ member
  have unmarked : ∀ before c after,cs.takeWhile isDigit = before ++ c :: after →
      (markOf spelled).length (c :: (after ++ cs.dropWhile isDigit)) = none := by
    intro before c after is
    apply unmarked_of_none
    apply spelled.numbers
    apply digit
    rw [is]
    simp
  have copied := @rewrite_copies Bool (markOf spelled) apostrophes _ s (cs.dropWhile isDigit) unmarked
  rw [List.takeWhile_append_dropWhile,apostrophes_steady free] at copied
  exact copied

theorem quote_opens (fuel : Nat) (cs : List Char) :
    outsideLiterals convert false (fuel + 1) ('\'' :: cs) = '\'' :: outsideLiterals convert true fuel cs := rfl

theorem quote_doubled (fuel : Nat) (cs : List Char) :
    outsideLiterals convert true (fuel + 1) ('\'' :: '\'' :: cs) =
      '\'' :: '\'' :: outsideLiterals convert true fuel cs := rfl

theorem quote_closes {cs : List Char} (single : cs.head? ≠ some '\'') (fuel : Nat) :
    outsideLiterals convert true (fuel + 1) ('\'' :: cs) = '\'' :: outsideLiterals convert false fuel cs := by
  cases cs with
  | nil => rfl
  | cons d cs =>
    have other : d ≠ '\'' := by simpa using single
    simp [outsideLiterals,other]

theorem literal_copied {c : Char} (other : c ≠ '\'') (fuel : Nat) (cs : List Char) :
    outsideLiterals convert true (fuel + 1) (c :: cs) = c :: outsideLiterals convert true fuel cs := by
  simp [outsideLiterals,other]

theorem code_converted {c : Char} (other : c ≠ '\'') (fuel : Nat) (cs : List Char) :
    outsideLiterals convert false (fuel + 1) (c :: cs) = match convert (c :: cs) with
      | some digits =>
        '$' :: digits.takeWhile isDigit ++ outsideLiterals convert false fuel (digits.dropWhile isDigit)
      | none => c :: outsideLiterals convert false fuel cs := by
  have unfolded : outsideLiterals convert false (fuel + 1) (c :: cs) =
      if c = '\'' then c :: outsideLiterals convert true fuel cs
      else match convert (c :: cs) with
        | some digits =>
          '$' :: digits.takeWhile isDigit ++ outsideLiterals convert false fuel (digits.dropWhile isDigit)
        | none => c :: outsideLiterals convert false fuel cs := rfl
  rw [unfolded,if_neg other]

theorem outsideLiterals_eq (spelled : Spelled convert extra) {fuel : Nat} {cs : List Char} (enough : cs.length ≤ fuel)
    (inside : Bool) :
    outsideLiterals convert inside fuel cs = apostrophes.rewrite (markOf spelled) 0 inside cs := by
  induction fuel generalizing cs inside with
  | zero =>
    cases List.length_eq_zero_iff.mp (Nat.le_zero.mp enough)
    rfl
  | succ fuel ih =>
    cases cs with
    | nil => rfl
    | cons c cs =>
      have shorter : cs.length ≤ fuel := Nat.le_of_succ_le_succ enough
      by_cases quote : c = '\''
      · subst quote
        have quoted (s : Bool) (rest : List Char) : apostrophes.rewrite (markOf spelled) 0 s ('\'' :: rest) =
            '\'' :: apostrophes.rewrite (markOf spelled) 0 (!s) rest := by
          rw [Machine.rewrite,unmarked_of_none (quote_unmarked spelled rest)]
          rfl
        rw [quoted]
        cases inside with
        | false => rw [quote_opens,ih shorter,Bool.not_false]
        | true =>
          by_cases doubled : cs.head? = some '\''
          · obtain ⟨rest,rfl⟩ := List.head?_eq_some_iff.mp doubled
            rw [quote_doubled,ih (Nat.le_of_succ_le shorter),quoted]
            rfl
          · rw [quote_closes doubled,ih shorter,Bool.not_true]
      · have stays : apostrophes.step inside c = inside := if_neg quote
        cases inside with
        | true =>
          rw [literal_copied quote,ih shorter,Machine.rewrite,stays]
          cases (markOf spelled).length (c :: cs) <;> rfl
        | false =>
          rw [code_converted quote,Machine.rewrite,stays]
          cases found : convert (c :: cs) with
          | none =>
            rw [unmarked_of_none found,ih shorter]
          | some digits =>
            obtain ⟨_,_,_,rfl,plain⟩ := spelled.digits c cs digits found
            have marked : (markOf spelled).length (c :: cs) = some extra := by
              change (convert (c :: cs)).map _ = _
              rw [found]
              rfl
            have within : ((cs.drop extra).dropWhile isDigit).length ≤ fuel :=
              ((List.dropWhile_sublist _).trans (List.drop_sublist _ _)).length_le.trans shorter
            have skipped := mark_skipped spelled false fun index below => by
              obtain ⟨d,rest,is,other,-⟩ := plain index below
              exact ⟨d,rest,is,other⟩
            rw [marked]
            dsimp only
            rw [skipped,digits_copied,ih within]
            rfl

end Conversion

section Contexts
variable [CaseMap]

-- A name goes on with letters and digits of any script.
def oracleRules : Rules where
  brackets := false
  backticks := false
  nests := false
  alternative := true
  dollars := false
  escapes := false
  nameChar := fun c => CaseMap.isAlphanumeric c || ['_','$','#'].contains c

def msSqlRules : Rules where
  brackets := true
  backticks := false
  nests := true
  alternative := false
  dollars := false
  escapes := false
  nameChar := fun c => CaseMap.isAlphanumeric c || ['_','$','#','@'].contains c

-- The number ends the placeholder: no name goes on behind it.
def numberEnds (rules : Rules) (number : List Char) : Bool :=
  !((number.dropWhile isDigit).head?.map rules.nameChar).getD false

-- A placeholder of Oracle is one wherever its colon stands in code.
def IsOraclePlaceholder (before after : List Char) : Prop :=
  (regionAfter oracleRules before).isCode ∧ numberEnds oracleRules (after.drop 1)

-- One of SQL Server is a name, which no other name stands before.
def IsMssqlPlaceholder (before after : List Char) : Prop :=
  (regionAfter msSqlRules before).startsWord ∧ numberEnds msSqlRules (after.drop 2)

def oracleTokens : Machine Region where
  step := step oracleRules
  live := fun region after => region.isCode && numberEnds oracleRules (after.drop 1)

def msSqlTokens : Machine Region where
  step := step msSqlRules
  live := fun region after => region.startsWord && numberEnds msSqlRules (after.drop 2)

-- The text with each placeholder that is a token of the language replaced.
def oracleConverted (sql : List Char) : List Char := oracleTokens.rewrite (markOf oracle_spelled) 0 (.code .none) sql
def msSqlConverted (sql : List Char) : List Char := msSqlTokens.rewrite (markOf mssql_spelled) 0 (.code .none) sql

omit [CaseMap] in
theorem converted_iff {convert : List Char → Option (List Char)} {extra : Nat} (spelled : Spelled convert extra)
    (tokens : Machine Region) (sql : List Char) :
    convertPlaceholders convert sql = tokens.rewrite (markOf spelled) 0 (.code .none) sql ↔
      ∀ before after,sql = before ++ after → (convert after).isSome →
        (before.count '\'' % 2 = 0 ↔ tokens.live (before.foldl tokens.step (.code .none)) after = true) := by
  rw [convertPlaceholders,outsideLiterals_eq spelled (Nat.le_refl _),
    rewrite_eq_iff sql 0 _ _ fun _ below => absurd below (Nat.not_lt_zero _)]
  have marked (after : List Char) : ((markOf spelled).length after).isSome = (convert after).isSome := Option.isSome_map
  have parity (before : List Char) :
      (!before.foldl apostrophes.step false) = true ↔ before.count '\'' % 2 = 0 := by
    rw [apostrophes_parity]
    simp
  constructor
  · intro alike before after is placeholder
    rw [← parity,← Bool.eq_iff_iff]
    exact alike before after is ((marked after).trans placeholder)
  · intro same before after is placeholder
    rw [Bool.eq_iff_iff]
    exact (parity before).trans (same before after is ((marked after).symm.trans placeholder))

-- Both conversions change the same text exactly when every placeholder has an even
-- number of apostrophes before it just where it is a token of the language.
theorem conversion_exact_iff (sql : List Char) :
    (convertPlaceholders oraclePlaceholder sql = oracleConverted sql ↔
      ∀ before after,sql = before ++ after → (oraclePlaceholder after).isSome →
        (before.count '\'' % 2 = 0 ↔ IsOraclePlaceholder before after)) ∧
    (convertMssqlPlaceholders sql = msSqlConverted sql ↔
      ∀ before after,sql = before ++ after → (mssqlPlaceholder after).isSome →
        (before.count '\'' % 2 = 0 ↔ IsMssqlPlaceholder before after)) := by
  constructor
  · rw [oracleConverted,converted_iff]
    simp only [oracleTokens,IsOraclePlaceholder,regionAfter,Bool.and_eq_true]
  · rw [convertMssqlPlaceholders,msSqlConverted,converted_iff]
    simp only [msSqlTokens,IsMssqlPlaceholder,regionAfter,Bool.and_eq_true]

end Contexts

section Comments
local instance commentCase : CaseMap := ascii

-- An apostrophe in a comment, or in a quoted name.
theorem comment_hides_placeholder :
    convertPlaceholders oraclePlaceholder "SELECT 1 -- it's\n, :1".toList = "SELECT 1 -- it's\n, :1".toList ∧
      oracleConverted "SELECT 1 -- it's\n, :1".toList = "SELECT 1 -- it's\n, $1".toList ∧
        convertMssqlPlaceholders "SELECT \"it's\", @p1".toList = "SELECT \"it's\", @p1".toList ∧
          msSqlConverted "SELECT \"it's\", @p1".toList = "SELECT \"it's\", $1".toList :=
  ⟨rfl,rfl,rfl,rfl⟩

end Comments
end Scythe
