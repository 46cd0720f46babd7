import Scythe.Lib.Occurrences
import Scythe.PlaceholderContexts

-- Where the clauses of Oracle and SQL Server are cut out of a query. The keywords
-- are looked for in an upper-case copy, and the offsets found there are used on
-- the text, whose characters may take another number of bytes.
namespace Scythe
open Text Lexis Occurrences

@[simp] theorem byteLength_cons (c : Char) (cs : List Char) : byteLength (c :: cs) = c.utf8Size + byteLength cs := by
  simp [byteLength]

theorem splitAtByte_cons (n : Nat) (c : Char) (cs : List Char) :
    splitAtByte (n + 1) (c :: cs) = if n + 1 < c.utf8Size then none
      else (splitAtByte (n + 1 - c.utf8Size) cs).map fun parts => (c :: parts.1,parts.2) := rfl

theorem splitAtByte_zero (cs : List Char) : splitAtByte 0 cs = some ([],cs) := by cases cs <;> rfl

theorem splitAtByte_iff {n : Nat} {text before after : List Char} :
    splitAtByte n text = some (before,after) ↔ text = before ++ after ∧ byteLength before = n := by
  induction text generalizing n before with
  | nil =>
    cases n with
    | zero =>
      constructor
      · intro found
        cases found
        exact ⟨rfl,rfl⟩
      · intro ⟨is,_⟩
        obtain ⟨rfl,rfl⟩ := List.append_eq_nil_iff.mp is.symm
        rfl
    | succ n =>
      constructor
      · intro found
        cases found
      · intro ⟨is,length⟩
        obtain ⟨rfl,rfl⟩ := List.append_eq_nil_iff.mp is.symm
        cases length
  | cons c text ih =>
    have size := Char.utf8Size_pos c
    cases n with
    | zero =>
      constructor
      · intro found
        cases found
        exact ⟨rfl,rfl⟩
      · intro ⟨is,empty⟩
        cases before with
        | nil =>
          rw [List.nil_append] at is
          rw [is,splitAtByte_zero]
        | cons d before =>
          have large := Char.utf8Size_pos d
          rw [byteLength_cons] at empty
          omega
    | succ n =>
      rw [splitAtByte_cons]
      by_cases inside : n + 1 < c.utf8Size
      · rw [if_pos inside]
        constructor
        · intro found
          cases found
        · intro ⟨is,length⟩
          cases before with
          | nil => cases length
          | cons d before =>
            rw [List.cons_append,List.cons.injEq] at is
            rw [is.1] at inside
            rw [byteLength_cons] at length
            omega
      · rw [if_neg inside,Option.map_eq_some_iff]
        constructor
        · intro ⟨parts,later,same⟩
          cases same
          obtain ⟨is,length⟩ := ih.mp later
          refine ⟨by rw [is,List.cons_append],?_⟩
          rw [byteLength_cons]
          omega
        · intro ⟨is,length⟩
          cases before with
          | nil => cases length
          | cons d before =>
            rw [List.cons_append,List.cons.injEq] at is
            obtain ⟨rfl,rest⟩ := is
            rw [byteLength_cons] at length
            exact ⟨(before,after),ih.mpr ⟨rest,by omega⟩,rfl⟩

@[simp] theorem byteLength_append (front back : List Char) :
    byteLength (front ++ back) = byteLength front + byteLength back := by
  simp [byteLength]

-- A keyword takes one byte for each letter.
theorem keyword_bytes {spelled letters : List Char} (ascii : ∀ c ∈ letters,c.toNat < 128)
    (is : spelled.map asciiUpper = letters) : byteLength spelled = letters.length := by
  subst is
  induction spelled with
  | nil => rfl
  | cons c spelled ih =>
    have rest := ih fun d member => ascii d (List.mem_cons_of_mem _ member)
    have small : c.toNat ≤ 127 := by
      have upper := ascii (asciiUpper c) List.mem_cons_self
      unfold asciiUpper at upper
      split at upper
      · rename_i lower
        unfold asciiIsLower at lower
        simp only [Bool.and_eq_true,decide_eq_true_eq] at lower
        have z : 'z'.toNat = 122 := rfl
        omega
      · omega
    have one : c.utf8Size = 1 := Char.utf8Size_eq_one_iff.mpr (by exact_mod_cast small)
    simp only [byteLength_cons,List.length_cons,List.length_map] at rest ⊢
    omega

theorem splitLast_iff {p text before after : List Char} :
    splitLast p text = some (before,after) ↔ LastAt (Begins p) text before (p ++ after) := by
  unfold splitLast
  rw [Option.map_eq_some_iff]
  constructor
  · intro ⟨parts,found,same⟩
    cases same
    apply last_of_first
    rw [List.reverse_reverse,List.reverse_reverse]
    exact splitFirst_iff.mp found
  · intro last
    exact ⟨(after.reverse,before.reverse),splitFirst_iff.mpr (first_of_last last),by simp⟩

theorem findWordFrom_eq (word : List Char) (previous : Bool) (cs : List Char) :
    findWordFrom word previous cs = firstWord isWordChar word previous cs := by
  induction cs generalizing previous with
  | nil => rfl
  | cons c cs ih =>
    rw [firstWord,← ih]
    rfl

theorem findWordPosition_iff {word : String} {text before after : List Char} (some' : word.toList ≠ []) :
    findWordPosition text word = some (before,after) ↔ FirstAt (BeginsWord isWordChar word.toList) text before after := by
  rw [findWordPosition,findWordFrom_eq,firstWord_iff some']

section
variable [CaseMap]

-- A word of its own in the code of a query.
structure StandsAs (rules : Rules) (word : String) (before spelled after : List Char) : Prop where
  spelled : spelled.map asciiUpper = word.toList
  starts : (regionAfter rules before).startsWord = true
  ends : (after.head?.map rules.nameChar).getD false = false

-- Two keywords of a text, found behind `upper` and `between` in its upper-case copy.
structure Located (rules : Rules) (first second : String) (sql upper between before one middle two after : List Char) :
    Prop where
  text : sql = before ++ one ++ middle ++ (two ++ after)
  first : StandsAs rules first before one (middle ++ (two ++ after))
  second : StandsAs rules second (before ++ one ++ middle) two after
  upper : upperText before = upper
  between : upperText middle = between

-- In upper case, the first INTO behind the last RETURNING.
def FindsInto (sql upper between : List Char) : Prop :=
  ∃ after rest,LastAt (Begins "RETURNING".toList) (upperText sql) upper ("RETURNING".toList ++ after) ∧
    FirstAt (Begins "INTO".toList) after between ("INTO".toList ++ rest)

-- In upper case, the first word OUTPUT, which stands behind an INSERT, and the
-- first word VALUES behind it.
def FindsOutput (sql upper between : List Char) : Prop :=
  ∃ after rest,FirstAt (BeginsWord isWordChar "OUTPUT".toList) (upperText sql) upper ("OUTPUT".toList ++ after) ∧
    "INSERT".toList <:+: upper ∧ FirstAt (BeginsWord isWordChar "VALUES".toList) after between rest

-- INTO and what follows it are cut off exactly at the keyword.
structure IntoCutExactly (sql : List Char) : Prop where
  absent : (∀ upper between,¬FindsInto sql upper between) → stripReturningInto sql = some sql
  found : ∀ upper between,FindsInto sql upper between →
    ∃ before returning middle into after,
      Located oracleRules "RETURNING" "INTO" sql upper between before returning middle into after ∧
      splitAtByte (byteLength upper + "RETURNING".utf8ByteSize + byteLength between) sql =
        some (before ++ returning ++ middle,into ++ after) ∧
      stripReturningInto sql = some (trimEndChars (before ++ returning ++ middle))

def outputMoved (sql before columns fromValues : List Char) : List Char :=
  if parseInsertedColumns (String.ofList columns) = "" then sql
  else returningFromOutput (parseInsertedColumns (String.ofList columns)) before fromValues

-- OUTPUT and its columns are cut out exactly from the keyword to VALUES.
structure OutputCutExactly (sql : List Char) : Prop where
  absent : (∀ upper between,¬FindsOutput sql upper between) → stripAndConvertMssqlOutput sql = some sql
  found : ∀ upper between,FindsOutput sql upper between →
    ∃ before output columns values after,
      Located msSqlRules "OUTPUT" "VALUES" sql upper between before output columns values after ∧
      splitAtByte (byteLength upper) sql = some (before,output ++ columns ++ (values ++ after)) ∧
      splitAtByte (byteLength upper + "OUTPUT".utf8ByteSize + byteLength between) sql =
        some (before ++ output ++ columns,values ++ after) ∧
      stripAndConvertMssqlOutput sql = some (outputMoved sql before columns (values ++ after))

theorem stripReturningInto_absent {sql : List Char} (absent : ∀ upper between,¬FindsInto sql upper between) :
    stripReturningInto sql = some sql := by
  unfold stripReturningInto
  cases last : splitLast "RETURNING".toList (upperText sql) with
  | none => rfl
  | some parts =>
    cases first : splitFirst "INTO".toList parts.2 with
    | none => simp only [first]
    | some inner =>
      exact absurd ⟨parts.2,inner.2,splitLast_iff.mp last,splitFirst_iff.mp first⟩ (absent parts.1 inner.1)

theorem stripReturningInto_found {sql upper between : List Char} (found : FindsInto sql upper between) :
    stripReturningInto sql =
      (splitAtByte (byteLength upper + "RETURNING".utf8ByteSize + byteLength between) sql).map fun parts =>
        trimEndChars parts.1 := by
  obtain ⟨after,rest,last,first⟩ := found
  unfold stripReturningInto
  rw [splitLast_iff.mpr last]
  dsimp only
  rw [splitFirst_iff.mpr first]

def outputSlices (sql upper between : List Char) : Option (List Char) :=
  (splitAtByte (byteLength upper + "OUTPUT".utf8ByteSize + byteLength between) sql).bind fun atValues =>
  (splitAtByte (byteLength upper + "OUTPUT".utf8ByteSize) atValues.1).bind fun afterOutput =>
  let cols := parseInsertedColumns (String.ofList afterOutput.2)
  if cols = "" then some sql else
  (splitAtByte (byteLength upper) sql).map fun atOutput => returningFromOutput cols atOutput.1 atValues.2

theorem output_absent {sql : List Char} (absent : ∀ upper between,¬FindsOutput sql upper between) :
    stripAndConvertMssqlOutput sql = some sql := by
  unfold stripAndConvertMssqlOutput
  dsimp only
  split
  · rfl
  · split
    · rfl
    · rename_i before fromOutput found
      split
      · rfl
      · rename_i insert
        split
        · rfl
        · rename_i columns rest values
          have output := (findWordPosition_iff (by decide)).mp found
          obtain ⟨after,begins,-⟩ := output.here
          rw [← begins] at output values
          have dropped : ("OUTPUT".toList ++ after).drop "OUTPUT".length = after := rfl
          rw [dropped] at values
          refine absurd ⟨after,rest,output,?_,(findWordPosition_iff (by decide)).mp values⟩ (absent before columns)
          exact splitFirst_isSome.mp (not_not.mp insert)

theorem output_found {sql upper between : List Char} (found : FindsOutput sql upper between) :
    stripAndConvertMssqlOutput sql = outputSlices sql upper between := by
  obtain ⟨after,rest,output,insert,values⟩ := found
  have inserts : (splitFirst "INSERT".toList (upperText sql)).isSome := by
    rw [splitFirst_isSome,output.split]
    exact insert.trans (List.prefix_append _ _).isInfix
  have outputs : (splitFirst "OUTPUT".toList (upperText sql)).isSome := by
    rw [splitFirst_isSome,output.split]
    exact ⟨upper,after,by simp⟩
  have front : (splitFirst "INSERT".toList upper).isSome := splitFirst_isSome.mpr insert
  have position := (findWordPosition_iff (by decide)).mpr output
  have behind := (findWordPosition_iff (by decide)).mpr values
  have dropped : ("OUTPUT".toList ++ after).drop "OUTPUT".length = after := rfl
  unfold stripAndConvertMssqlOutput outputSlices
  simp only [inserts,outputs,not_true_eq_false,or_self,if_false,position,front,dropped,behind]

omit [CaseMap] in
theorem StandsAs.bytes {rules : Rules} {word : String} {before spelled after : List Char}
    (stands : StandsAs rules word before spelled after) (ascii : word.toList.all fun c => c.toNat < 128) :
    byteLength spelled = word.toList.length :=
  keyword_bytes (fun c letter => of_decide_eq_true (List.all_eq_true.mp ascii c letter)) stands.spelled

theorem into_cut_iff (sql : List Char) :
    IntoCutExactly sql ↔ ∀ upper between,FindsInto sql upper between →
      ∃ before returning middle into after,
        Located oracleRules "RETURNING" "INTO" sql upper between before returning middle into after ∧
        byteLength before + byteLength middle = byteLength upper + byteLength between := by
  have size : "RETURNING".utf8ByteSize = 9 := rfl
  constructor
  · intro exact' upper between finds
    obtain ⟨before,returning,middle,into,after,located,cut,-⟩ := exact'.found upper between finds
    refine ⟨before,returning,middle,into,after,located,?_⟩
    have length := (splitAtByte_iff.mp cut).2
    have nine : byteLength returning = 9 := located.first.bytes rfl
    simp only [byteLength_append] at length
    omega
  · intro same
    refine ⟨stripReturningInto_absent,?_⟩
    intro upper between finds
    obtain ⟨before,returning,middle,into,after,located,equal⟩ := same upper between finds
    have nine : byteLength returning = 9 := located.first.bytes rfl
    have cut : splitAtByte (byteLength upper + "RETURNING".utf8ByteSize + byteLength between) sql =
        some (before ++ returning ++ middle,into ++ after) := by
      refine splitAtByte_iff.mpr ⟨located.text,?_⟩
      simp only [byteLength_append]
      omega
    refine ⟨before,returning,middle,into,after,located,cut,?_⟩
    rw [stripReturningInto_found finds,cut]
    rfl

theorem output_cut_iff (sql : List Char) :
    OutputCutExactly sql ↔ ∀ upper between,FindsOutput sql upper between →
      ∃ before output columns values after,
        Located msSqlRules "OUTPUT" "VALUES" sql upper between before output columns values after ∧
        byteLength before = byteLength upper ∧ byteLength columns = byteLength between := by
  have size : "OUTPUT".utf8ByteSize = 6 := rfl
  constructor
  · intro exact' upper between finds
    obtain ⟨before,output,columns,values,after,located,cut,cutValues,-⟩ := exact'.found upper between finds
    have length := (splitAtByte_iff.mp cut).2
    have lengthValues := (splitAtByte_iff.mp cutValues).2
    have six : byteLength output = 6 := located.first.bytes rfl
    simp only [byteLength_append] at lengthValues
    exact ⟨before,output,columns,values,after,located,length,by omega⟩
  · intro same
    refine ⟨output_absent,?_⟩
    intro upper between finds
    obtain ⟨before,output,columns,values,after,located,equal,equalColumns⟩ := same upper between finds
    have six : byteLength output = 6 := located.first.bytes rfl
    have cut : splitAtByte (byteLength upper) sql = some (before,output ++ columns ++ (values ++ after)) :=
      splitAtByte_iff.mpr ⟨by rw [located.text]; simp,equal⟩
    have cutValues : splitAtByte (byteLength upper + "OUTPUT".utf8ByteSize + byteLength between) sql =
        some (before ++ output ++ columns,values ++ after) := by
      refine splitAtByte_iff.mpr ⟨located.text,?_⟩
      simp only [byteLength_append]
      omega
    have cutColumns : splitAtByte (byteLength upper + "OUTPUT".utf8ByteSize) (before ++ output ++ columns) =
        some (before ++ output,columns) := by
      refine splitAtByte_iff.mpr ⟨rfl,?_⟩
      simp only [byteLength_append]
      omega
    refine ⟨before,output,columns,values,after,located,cut,cutValues,?_⟩
    rw [output_found finds,outputSlices,cutValues,Option.bind_some,cutColumns,Option.bind_some,cut]
    dsimp only [outputMoved,Option.map_some]
    split <;> rfl

-- Both cuts stand at the keywords that they were found by exactly when these are
-- words of the code and the text up to them has as many bytes in upper case.
theorem clauses_cut_iff (sql : List Char) :
    (IntoCutExactly sql ↔ ∀ upper between,FindsInto sql upper between →
      ∃ before returning middle into after,
        Located oracleRules "RETURNING" "INTO" sql upper between before returning middle into after ∧
        byteLength before + byteLength middle = byteLength upper + byteLength between) ∧
    (OutputCutExactly sql ↔ ∀ upper between,FindsOutput sql upper between →
      ∃ before output columns values after,
        Located msSqlRules "OUTPUT" "VALUES" sql upper between before output columns values after ∧
        byteLength before = byteLength upper ∧ byteLength columns = byteLength between) :=
  ⟨into_cut_iff sql,output_cut_iff sql⟩

end

section
local instance cutCase : CaseMap := ascii

theorem into_in_a_name : ¬IntoCutExactly "UPDATE t SET a = 1 RETURNING into_a INTO :1".toList := by
  intro exact'
  have finds : FindsInto "UPDATE t SET a = 1 RETURNING into_a INTO :1".toList "UPDATE T SET A = 1 ".toList " ".toList :=
    ⟨" INTO_A INTO :1".toList,"_A INTO :1".toList,splitLast_iff.mp (by decide +kernel),
      splitFirst_iff.mp (by decide +kernel)⟩
  obtain ⟨before,returning,middle,into,after,located,cut,-⟩ := exact'.found _ _ finds
  have slices : splitAtByte (byteLength "UPDATE T SET A = 1 ".toList + "RETURNING".utf8ByteSize + byteLength " ".toList)
      "UPDATE t SET a = 1 RETURNING into_a INTO :1".toList =
        some ("UPDATE t SET a = 1 RETURNING ".toList,"into_a INTO :1".toList) := by decide +kernel
  have parts := Option.some.inj (slices.symm.trans cut)
  have four : into.length = 4 := by simpa using congrArg List.length located.second.spelled
  have behind : "_a INTO :1".toList = after := by
    have dropped := congrArg (fun parts : List Char × List Char => parts.2.drop 4) parts
    simpa [four] using dropped
  have ends := located.second.ends
  rw [← behind] at ends
  cases ends

theorem output_in_a_comment : ¬OutputCutExactly "INSERT INTO t /* output */ OUTPUT INSERTED.a VALUES (1)".toList := by
  intro exact'
  have finds : FindsOutput "INSERT INTO t /* output */ OUTPUT INSERTED.a VALUES (1)".toList "INSERT INTO T /* ".toList
      " */ OUTPUT INSERTED.A ".toList :=
    ⟨" */ OUTPUT INSERTED.A VALUES (1)".toList,"VALUES (1)".toList,
      (findWordPosition_iff (by decide)).mp (by decide +kernel),⟨[],_,rfl⟩,
      (findWordPosition_iff (by decide)).mp (by decide +kernel)⟩
  obtain ⟨before,output,columns,values,after,located,cut,-⟩ := exact'.found _ _ finds
  have slices : splitAtByte (byteLength "INSERT INTO T /* ".toList)
      "INSERT INTO t /* output */ OUTPUT INSERTED.a VALUES (1)".toList =
        some ("INSERT INTO t /* ".toList,"output */ OUTPUT INSERTED.a VALUES (1)".toList) := by decide +kernel
  have parts := Option.some.inj (slices.symm.trans cut)
  have starts := located.first.starts
  rw [← (Prod.mk.inj parts).1] at starts
  cases starts

end

-- One letter whose capital takes three bytes, where it takes two.
@[reducible] def turnedCase : CaseMap :=
  { ascii with uppercase := fun s => String.ofList (s.toList.map fun c => if c = 'ɐ' then 'Ɐ' else asciiUpper c) }

-- INTO in a name, OUTPUT in a comment, and an offset beyond the end of the text.
theorem clauses_cut_wrongly :
    ¬@IntoCutExactly ascii "UPDATE t SET a = 1 RETURNING into_a INTO :1".toList ∧
      ¬@OutputCutExactly ascii "INSERT INTO t /* output */ OUTPUT INSERTED.a VALUES (1)".toList ∧
        @stripReturningInto turnedCase "RETURNING ɐɐɐɐɐ INTO".toList = none :=
  ⟨into_in_a_name,output_in_a_comment,by decide +kernel⟩

end Scythe
