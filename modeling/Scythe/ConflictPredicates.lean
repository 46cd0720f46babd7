import Scythe.IdentityClauses
import Scythe.Lib.Occurrences

-- Which predicates between the columns of ON CONFLICT and its DO are removed. The
-- scan goes over a copy of the text in upper case, with line comments, flat block
-- comments and literals blanked out, and knows no other words than those of ASCII.
namespace Scythe
open Text Lexis Occurrences

inductive ConflictStep where
  | done
  | unclosed
  | next (from' : Nat)
  | cut (start stop : Nat)
  deriving DecidableEq

-- One round of the scan.
def conflictStep (mask : List Char) (searchFrom : Nat) : ConflictStep :=
  match findKeyword (mask.drop searchFrom) "ON CONFLICT" with
  | none => .done
  | some found =>
    let afterOnConflict := searchFrom + found + "ON CONFLICT".length
    let opening := afterOnConflict + spaces (mask.drop afterOnConflict)
    if mask[opening]? ≠ some '(' then .next afterOnConflict else
    match closingParen 0 (mask.drop opening) with
    | none => .unclosed
    | some offset =>
      let close := opening + offset
      let afterCols := close + 1 + spaces (mask.drop (close + 1))
      match "WHERE".toList.isPrefixOf? (mask.drop afterCols) with
      | none => .next (close + 1)
      | some rest =>
        match findKeyword rest "DO" with
        | none => .next (close + 1)
        | some doFound => .cut afterCols (afterCols + "WHERE".length + doFound)

-- The parts that are removed; there is no such list where parentheses stay open.
def conflictCuts (mask : List Char) : Nat → Nat → Option (List (Nat × Nat))
  | 0,_ => some []
  | fuel + 1,searchFrom =>
    match conflictStep mask searchFrom with
    | .done => some []
    | .unclosed => none
    | .next from' => conflictCuts mask fuel from'
    | .cut start stop => (conflictCuts mask fuel stop).map ((start,stop) :: ·)

-- What is left of a text from an offset on.
def remaining (sql : List Char) : Nat → List (Nat × Nat) → List Char
  | last,[] => sql.drop last
  | last,(start,stop) :: cuts => (sql.take start).drop last ++ remaining sql stop cuts

theorem stripConflictPredicates_eq (sql mask : List Char) (fuel searchFrom last : Nat) (result : List Char) :
    stripConflictPredicates sql mask fuel searchFrom last result =
      match conflictCuts mask fuel searchFrom with
      | none => sql
      | some cuts => result ++ remaining sql last cuts := by
  induction fuel generalizing searchFrom last result with
  | zero => rfl
  | succ fuel ih =>
    rw [stripConflictPredicates,conflictCuts,conflictStep]
    cases findKeyword (mask.drop searchFrom) "ON CONFLICT" with
    | none => rfl
    | some found =>
      dsimp only
      split
      · exact ih _ _ _
      · cases closingParen 0 _ with
        | none => rfl
        | some offset =>
          dsimp only
          cases "WHERE".toList.isPrefixOf? _ with
          | none => exact ih _ _ _
          | some rest =>
            dsimp only
            cases findKeyword rest "DO" with
            | none => exact ih _ _ _
            | some doFound =>
              dsimp only
              rw [ih]
              cases conflictCuts mask fuel _ with
              | none => rfl
              | some cuts => simp [remaining]

def conflictMask (sql : List Char) : List Char := maskPostgresForScan .code sql

def conflictRemoved (sql : List Char) : List (Nat × Nat) :=
  (conflictCuts (conflictMask sql) sql.length 0).getD []

theorem preprocessPostgresSql_eq (sql : String) :
    preprocessPostgresSql sql = String.ofList (remaining sql.toList 0 (conflictRemoved sql.toList)) := by
  have length : sql.length = sql.toList.length := rfl
  unfold preprocessPostgresSql conflictRemoved conflictMask
  dsimp only
  rw [stripConflictPredicates_eq,length]
  cases conflictCuts _ _ _ <;> rfl

theorem mask_length (mode : MaskMode) (cs : List Char) : (maskPostgresForScan mode cs).length = cs.length := by
  fun_induction maskPostgresForScan mode cs <;> simp_all

-- The offset of a word is the length of what stands before its first place.
theorem findKeywordFrom_eq (keyword : List Char) (previous : Bool) (cs : List Char) :
    findKeywordFrom keyword previous cs =
      (firstWord isAsciiAlphanumeric keyword previous cs).map fun parts => parts.1.length := by
  induction cs generalizing previous with
  | nil => rfl
  | cons c cs ih =>
    have unfolded : findKeywordFrom keyword previous (c :: cs) =
        if wordHere isAsciiAlphanumeric keyword previous (c :: cs) then some 0
        else (findKeywordFrom keyword (isAsciiAlphanumeric c) cs).map (· + 1) := rfl
    rw [unfolded,firstWord,ih]
    split
    · rfl
    · cases firstWord isAsciiAlphanumeric keyword (isAsciiAlphanumeric c) cs <;> rfl

-- The first place of a word in a text, by its offset.
structure WordAt (word : String) (text : List Char) (offset : Nat) : Prop where
  place : ∃ front rest : List Char,FirstAt (BeginsWord isAsciiAlphanumeric word.toList) text front rest ∧
    front.length = offset

theorem findKeyword_iff {text : List Char} {word : String} {offset : Nat} (some' : word.toList ≠ []) :
    findKeyword text word = some offset ↔ WordAt word text offset := by
  rw [findKeyword,findKeywordFrom_eq,Option.map_eq_some_iff]
  constructor
  · intro ⟨parts,found,length⟩
    exact ⟨parts.1,parts.2,(firstWord_iff some').mp found,length⟩
  · intro ⟨front,rest,place,length⟩
    exact ⟨(front,rest),(firstWord_iff some').mpr place,length⟩

-- The parenthesis behind the words ON CONFLICT that stand next.
structure TargetOpens (mask : List Char) (searchFrom behind opening : Nat) : Prop where
  words : ∃ found,WordAt "ON CONFLICT" (mask.drop searchFrom) found ∧ behind = searchFrom + found + 11
  opening : opening = behind + spaces (mask.drop behind)

-- Where the columns end, and what stands behind them.
structure TargetCloses (mask : List Char) (opening close after : Nat) : Prop where
  opens : mask[opening]? = some '('
  closes : ∃ offset,closingParen 0 (mask.drop opening) = some offset ∧ close = opening + offset
  after : after = close + 1 + spaces (mask.drop (close + 1))

structure PredicateEnds (mask : List Char) (after stop : Nat) : Prop where
  ends : ∃ rest offset,"WHERE".toList ++ rest = mask.drop after ∧ WordAt "DO" rest offset ∧ stop = after + 5 + offset

-- What one round finds.
inductive ScanRound (mask : List Char) (searchFrom : Nat) : ConflictStep → Prop where
  | done (absent : ∀ found,¬WordAt "ON CONFLICT" (mask.drop searchFrom) found) : ScanRound mask searchFrom .done
  | bare {behind opening : Nat} (words : TargetOpens mask searchFrom behind opening)
    (other : mask[opening]? ≠ some '(') : ScanRound mask searchFrom (.next behind)
  | unclosed {behind opening : Nat} (words : TargetOpens mask searchFrom behind opening)
    (opens : mask[opening]? = some '(') (never : closingParen 0 (mask.drop opening) = none) :
    ScanRound mask searchFrom .unclosed
  | plain {behind opening close after : Nat} (words : TargetOpens mask searchFrom behind opening)
    (columns : TargetCloses mask opening close after) (none' : ∀ stop,¬PredicateEnds mask after stop) :
    ScanRound mask searchFrom (.next (close + 1))
  | cut {behind opening close after stop : Nat} (words : TargetOpens mask searchFrom behind opening)
    (columns : TargetCloses mask opening close after) (predicate : PredicateEnds mask after stop) :
    ScanRound mask searchFrom (.cut after stop)

theorem WordAt.unique {word : String} {text : List Char} {offset other : Nat} (one : WordAt word text offset)
    (two : WordAt word text other) : offset = other := by
  obtain ⟨front,rest,place,rfl⟩ := one
  obtain ⟨front',rest',place',rfl⟩ := two
  rw [(place.unique place').1]

theorem TargetOpens.unique {mask : List Char} {searchFrom behind opening behind' opening' : Nat}
    (one : TargetOpens mask searchFrom behind opening) (two : TargetOpens mask searchFrom behind' opening') :
    behind = behind' ∧ opening = opening' := by
  obtain ⟨⟨found,words,rfl⟩,rfl⟩ := one
  obtain ⟨⟨found',words',rfl⟩,rfl⟩ := two
  rw [words.unique words']
  exact ⟨rfl,rfl⟩

theorem TargetCloses.unique {mask : List Char} {opening close after close' after' : Nat}
    (one : TargetCloses mask opening close after) (two : TargetCloses mask opening close' after') :
    close = close' ∧ after = after' := by
  obtain ⟨-,⟨offset,closes,rfl⟩,rfl⟩ := one
  obtain ⟨-,⟨offset',closes',rfl⟩,rfl⟩ := two
  cases Option.some.inj (closes.symm.trans closes')
  exact ⟨rfl,rfl⟩

theorem PredicateEnds.unique {mask : List Char} {after stop stop' : Nat} (one : PredicateEnds mask after stop)
    (two : PredicateEnds mask after stop') : stop = stop' := by
  obtain ⟨rest,offset,begins,ends,rfl⟩ := one
  obtain ⟨rest',offset',begins',ends',rfl⟩ := two
  cases List.append_cancel_left (begins.trans begins'.symm)
  rw [ends.unique ends']

-- A round has one outcome.
theorem ScanRound.unique {mask : List Char} {searchFrom : Nat} {one two : ConflictStep}
    (left : ScanRound mask searchFrom one) (right : ScanRound mask searchFrom two) : one = two := by
  have absentWords {behind opening : Nat} (absent : ∀ found,¬WordAt "ON CONFLICT" (mask.drop searchFrom) found)
      (words : TargetOpens mask searchFrom behind opening) : False := by
    obtain ⟨found,stands,-⟩ := words.words
    exact absent found stands
  cases left with
  | done absent =>
    cases right with
    | done => rfl
    | bare words => exact (absentWords absent words).elim
    | unclosed words => exact (absentWords absent words).elim
    | plain words => exact (absentWords absent words).elim
    | cut words => exact (absentWords absent words).elim
  | bare words other =>
    cases right with
    | done absent => exact (absentWords absent words).elim
    | bare words' => rw [(words.unique words').1]
    | unclosed words' opens => exact absurd ((words.unique words').2 ▸ opens) other
    | plain words' columns => exact absurd ((words.unique words').2 ▸ columns.opens) other
    | cut words' columns => exact absurd ((words.unique words').2 ▸ columns.opens) other
  | unclosed words opens never =>
    have open' {opening close after : Nat} {behind : Nat} (words' : TargetOpens mask searchFrom behind opening)
        (columns : TargetCloses mask opening close after) : False := by
      obtain ⟨offset,closes,-⟩ := columns.closes
      rw [← (words.unique words').2,never] at closes
      cases closes
    cases right with
    | done absent => exact (absentWords absent words).elim
    | bare words' other => exact absurd ((words.unique words').2 ▸ opens) other
    | unclosed => rfl
    | plain words' columns => exact (open' words' columns).elim
    | cut words' columns => exact (open' words' columns).elim
  | plain words columns none' =>
    cases right with
    | done absent => exact (absentWords absent words).elim
    | bare words' other => exact absurd ((words.unique words').2 ▸ columns.opens) other
    | unclosed words' opens never =>
      obtain ⟨offset,closes,-⟩ := columns.closes
      rw [(words.unique words').2,never] at closes
      cases closes
    | plain words' columns' =>
      cases (words.unique words').2
      rw [(columns.unique columns').1]
    | cut words' columns' predicate =>
      cases (words.unique words').2
      cases (columns.unique columns').2
      exact absurd predicate (none' _)
  | cut words columns predicate =>
    cases right with
    | done absent => exact (absentWords absent words).elim
    | bare words' other => exact absurd ((words.unique words').2 ▸ columns.opens) other
    | unclosed words' opens never =>
      obtain ⟨offset,closes,-⟩ := columns.closes
      rw [(words.unique words').2,never] at closes
      cases closes
    | plain words' columns' none' =>
      cases (words.unique words').2
      cases (columns.unique columns').2
      exact absurd predicate (none' _)
    | cut words' columns' predicate' =>
      cases (words.unique words').2
      cases (columns.unique columns').2
      rw [predicate.unique predicate']

theorem conflictStep_round (mask : List Char) (searchFrom : Nat) :
    ScanRound mask searchFrom (conflictStep mask searchFrom) := by
  unfold conflictStep
  cases words : findKeyword (mask.drop searchFrom) "ON CONFLICT" with
  | none =>
    refine .done fun found stands => ?_
    rw [(findKeyword_iff (by decide)).mpr stands] at words
    cases words
  | some found =>
    have opens : TargetOpens mask searchFrom _ _ := ⟨⟨found,(findKeyword_iff (by decide)).mp words,rfl⟩,rfl⟩
    have eleven : "ON CONFLICT".length = 11 := rfl
    dsimp only
    rw [eleven]
    split
    · rename_i other
      exact .bare opens other
    · rename_i parenthesis
      have parenthesis := not_not.mp parenthesis
      cases closes : closingParen 0 (mask.drop (searchFrom + found + 11 + spaces (mask.drop (searchFrom + found + 11)))) with
      | none => exact .unclosed opens parenthesis closes
      | some offset =>
        have columns : TargetCloses mask _ _ _ := ⟨parenthesis,⟨offset,closes,rfl⟩,rfl⟩
        dsimp only
        cases begins : "WHERE".toList.isPrefixOf? (mask.drop _) with
        | none =>
          refine .plain opens columns fun stop predicate => ?_
          obtain ⟨rest,-,is,-⟩ := predicate.ends
          rw [List.isPrefixOf?_eq_some_iff_append_eq.mpr is] at begins
          cases begins
        | some rest =>
          have front := List.isPrefixOf?_eq_some_iff_append_eq.mp begins
          dsimp only
          cases ends : findKeyword rest "DO" with
          | none =>
            refine .plain opens columns fun stop predicate => ?_
            obtain ⟨rest',offset',is,stands,-⟩ := predicate.ends
            cases List.append_cancel_left (is.trans front.symm)
            rw [(findKeyword_iff (by decide)).mpr stands] at ends
            cases ends
          | some doFound =>
            exact .cut opens columns ⟨rest,doFound,front,(findKeyword_iff (by decide)).mp ends,rfl⟩

theorem conflictStep_iff {mask : List Char} {searchFrom : Nat} {outcome : ConflictStep} :
    conflictStep mask searchFrom = outcome ↔ ScanRound mask searchFrom outcome :=
  ⟨fun is => is ▸ conflictStep_round mask searchFrom,fun round => (conflictStep_round mask searchFrom).unique round⟩

-- What the rounds from one offset on remove, and whether one of them meets
-- parentheses that stay open.
inductive ConflictFound (mask : List Char) : Nat → Nat × Nat → Prop where
  | here {searchFrom start stop : Nat} (round : ScanRound mask searchFrom (.cut start stop)) :
    ConflictFound mask searchFrom (start,stop)
  | behind {searchFrom start stop : Nat} {cut : Nat × Nat} (round : ScanRound mask searchFrom (.cut start stop))
    (later : ConflictFound mask stop cut) : ConflictFound mask searchFrom cut
  | next {searchFrom from' : Nat} {cut : Nat × Nat} (round : ScanRound mask searchFrom (.next from'))
    (later : ConflictFound mask from' cut) : ConflictFound mask searchFrom cut

inductive ConflictUnclosed (mask : List Char) : Nat → Prop where
  | here {searchFrom : Nat} (round : ScanRound mask searchFrom .unclosed) : ConflictUnclosed mask searchFrom
  | behind {searchFrom start stop : Nat} (round : ScanRound mask searchFrom (.cut start stop))
    (later : ConflictUnclosed mask stop) : ConflictUnclosed mask searchFrom
  | next {searchFrom from' : Nat} (round : ScanRound mask searchFrom (.next from'))
    (later : ConflictUnclosed mask from') : ConflictUnclosed mask searchFrom

theorem ScanRound.progress {mask : List Char} {searchFrom : Nat} {outcome : ConflictStep}
    (round : ScanRound mask searchFrom outcome) :
    (∀ from',outcome = .next from' → searchFrom < from') ∧ ∀ start stop,outcome = .cut start stop → searchFrom < stop := by
  have further {behind opening : Nat} (words : TargetOpens mask searchFrom behind opening) :
      searchFrom < behind ∧ behind ≤ opening := by
    obtain ⟨⟨found,-,rfl⟩,rfl⟩ := words
    omega
  have closing {opening close after : Nat} (columns : TargetCloses mask opening close after) :
      opening ≤ close ∧ close < after := by
    obtain ⟨-,⟨offset,-,rfl⟩,rfl⟩ := columns
    omega
  cases round with
  | done => exact ⟨nofun,nofun⟩
  | unclosed => exact ⟨nofun,nofun⟩
  | bare words =>
    refine ⟨?_,nofun⟩
    rintro from' ⟨⟩
    exact (further words).1
  | plain words columns =>
    refine ⟨?_,nofun⟩
    rintro from' ⟨⟩
    have bounds := further words
    have more := closing columns
    omega
  | cut words columns predicate =>
    refine ⟨nofun,?_⟩
    rintro start stop ⟨⟩
    have bounds := further words
    have more := closing columns
    obtain ⟨rest,offset,-,-,rfl⟩ := predicate.ends
    omega

theorem conflictStep_end {mask : List Char} {searchFrom : Nat} (ended : mask.length ≤ searchFrom) :
    conflictStep mask searchFrom = .done := by
  unfold conflictStep
  rw [List.drop_eq_nil_of_le ended]
  rfl

theorem found_cases {mask : List Char} {searchFrom : Nat} {cut : Nat × Nat} (found : ConflictFound mask searchFrom cut) :
    (∃ start stop,conflictStep mask searchFrom = .cut start stop ∧ (cut = (start,stop) ∨ ConflictFound mask stop cut)) ∨
      ∃ from',conflictStep mask searchFrom = .next from' ∧ ConflictFound mask from' cut := by
  cases found with
  | here round => exact .inl ⟨_,_,conflictStep_iff.mpr round,.inl rfl⟩
  | behind round later => exact .inl ⟨_,_,conflictStep_iff.mpr round,.inr later⟩
  | next round later => exact .inr ⟨_,conflictStep_iff.mpr round,later⟩

theorem unclosed_cases {mask : List Char} {searchFrom : Nat} (unclosed : ConflictUnclosed mask searchFrom) :
    conflictStep mask searchFrom = .unclosed ∨
      (∃ start stop,conflictStep mask searchFrom = .cut start stop ∧ ConflictUnclosed mask stop) ∨
      ∃ from',conflictStep mask searchFrom = .next from' ∧ ConflictUnclosed mask from' := by
  cases unclosed with
  | here round => exact .inl (conflictStep_iff.mpr round)
  | behind round later => exact .inr (.inl ⟨_,_,conflictStep_iff.mpr round,later⟩)
  | next round later => exact .inr (.inr ⟨_,conflictStep_iff.mpr round,later⟩)

-- What the rounds of the scan say of the list of what is removed.
structure CutsOf (mask : List Char) (searchFrom : Nat) (cuts : Option (List (Nat × Nat))) : Prop where
  unclosed : cuts = none ↔ ConflictUnclosed mask searchFrom
  found : ∀ list : List (Nat × Nat),cuts = some list → ∀ cut,cut ∈ list ↔ ConflictFound mask searchFrom cut

theorem cutsOf_done {mask : List Char} {searchFrom : Nat} (done : conflictStep mask searchFrom = .done) :
    CutsOf mask searchFrom (some []) := by
  refine ⟨?_,?_⟩
  · constructor
    · intro none'
      cases none'
    · intro unclosed
      obtain is | ⟨_,_,is,_⟩ | ⟨_,is,_⟩ := unclosed_cases unclosed <;> cases done.symm.trans is
  · rintro list ⟨⟩ cut
    constructor
    · intro member
      cases member
    · intro found
      obtain ⟨_,_,is,_⟩ | ⟨_,is,_⟩ := found_cases found <;> cases done.symm.trans is

theorem conflictCuts_of {mask : List Char} {fuel searchFrom : Nat} (enough : mask.length ≤ searchFrom + fuel) :
    CutsOf mask searchFrom (conflictCuts mask fuel searchFrom) := by
  induction fuel generalizing searchFrom with
  | zero => exact cutsOf_done (conflictStep_end enough)
  | succ fuel ih =>
    have round := conflictStep_round mask searchFrom
    unfold conflictCuts
    cases step : conflictStep mask searchFrom with
    | done => exact cutsOf_done step
    | unclosed =>
      rw [step] at round
      exact ⟨⟨fun _ => .here round,fun _ => rfl⟩,nofun⟩
    | next from' =>
      rw [step] at round
      have forward := round.progress.1 from' rfl
      have later := @ih from' (by omega)
      refine ⟨later.unclosed.trans ⟨.next round,?_⟩,fun list is cut => (later.found list is cut).trans ⟨.next round,?_⟩⟩
      · intro unclosed
        obtain is | ⟨_,_,is,_⟩ | ⟨_,is,more⟩ := unclosed_cases unclosed
        · cases step.symm.trans is
        · cases step.symm.trans is
        · cases step.symm.trans is
          exact more
      · intro found
        obtain ⟨_,_,is,_⟩ | ⟨_,is,more⟩ := found_cases found
        · cases step.symm.trans is
        · cases step.symm.trans is
          exact more
    | cut start stop =>
      rw [step] at round
      have forward := round.progress.2 start stop rfl
      have later := @ih stop (by omega)
      refine ⟨?_,?_⟩
      · rw [Option.map_eq_none_iff,later.unclosed]
        refine ⟨.behind round,fun unclosed => ?_⟩
        obtain is | ⟨_,_,is,more⟩ | ⟨_,is,_⟩ := unclosed_cases unclosed
        · cases step.symm.trans is
        · cases step.symm.trans is
          exact more
        · cases step.symm.trans is
      · intro list is cut
        obtain ⟨cuts,some',rfl⟩ := Option.map_eq_some_iff.mp is
        rw [List.mem_cons,later.found cuts some' cut]
        constructor
        · intro member
          obtain rfl | more := member
          · exact .here round
          · exact .behind round more
        · intro found
          obtain ⟨_,_,is,more⟩ | ⟨_,is,_⟩ := found_cases found
          · cases step.symm.trans is
            exact more
          · cases step.symm.trans is

-- By the scan of the mask.
def PredicateShown (sql : List Char) (cut : Nat × Nat) : Prop :=
  ¬ConflictUnclosed (conflictMask sql) 0 ∧ ConflictFound (conflictMask sql) 0 cut

theorem conflictRemoved_iff {sql : List Char} {cut : Nat × Nat} : cut ∈ conflictRemoved sql ↔ PredicateShown sql cut := by
  have whole : (conflictMask sql).length ≤ 0 + sql.length := by
    rw [conflictMask,mask_length,Nat.zero_add]
  have cuts := conflictCuts_of whole
  unfold conflictRemoved PredicateShown
  rw [← cuts.unclosed]
  cases is : conflictCuts (conflictMask sql) sql.length 0 with
  | none => simp
  | some list =>
    rw [← cuts.found list is]
    simp

section
variable (rules : Rules)

-- The text in upper case, with comments blanked out and what stands in a literal, a
-- quoted name or a dollar quote hidden.
def tokensShown : Region → List Char → List Char
  | _,[] => []
  | region,c :: cs =>
    let next := step rules region c
    let opens := decide (next = .dash ∨ next = .slash) && (cs.head?.map fun d => isComment (step rules next d)).getD false
    (if isComment region || isComment next || opens then ' ' else if region.isCode then asciiUpper c else '\'') ::
      tokensShown next cs

def shownText (sql : List Char) : List Char := tokensShown rules (.code .none) sql

-- By the tokens of the language: the words ON CONFLICT, a list in parentheses, the
-- word WHERE, and the first word DO behind it.
structure ConflictPredicate (sql : List Char) (cut : Nat × Nat) : Prop where
  spelled : ∃ before gap gap' target gap'' predicate rest : List Char,
    shownText rules sql = before ++ ("ON".toList ++ (gap ++ ("CONFLICT".toList ++ (gap' ++ (target ++ (gap'' ++
      ("WHERE".toList ++ (predicate ++ rest)))))))) ∧
    (before.getLast?.map rules.nameChar).getD false = false ∧ AllSpaces gap ∧ gap ≠ [] ∧ AllSpaces gap' ∧
    target.head? = some '(' ∧ closingParen 0 target = some (target.length - 1) ∧ AllSpaces gap'' ∧
    ((predicate ++ rest).head?.map rules.nameChar).getD false = false ∧
    FirstAt (BeginsWord rules.nameChar "DO".toList) (predicate ++ rest) predicate rest ∧
    cut.1 = before.length + gap.length + gap'.length + target.length + gap''.length + 10 ∧
    cut.2 = cut.1 + 5 + predicate.length

-- Exactly the predicates are removed, and a text without one is unchanged.
structure ConflictExact (sql : String) : Prop where
  text : preprocessPostgresSql sql = String.ofList (remaining sql.toList 0 (conflictRemoved sql.toList))
  removed : ∀ cut : Nat × Nat,cut ∈ conflictRemoved sql.toList ↔ ConflictPredicate rules sql.toList cut
  unchanged : (∀ cut,¬ConflictPredicate rules sql.toList cut) → preprocessPostgresSql sql = sql

end

section
local instance conflictCase : CaseMap := ascii

-- The name ends in the letters of DO.
def underscored : String := "INSERT INTO t VALUES (1) ON CONFLICT (a) WHERE my_do DO NOTHING"

end
end Scythe
