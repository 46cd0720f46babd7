import Scythe.MigratePieces
import Scythe.MigrateSpans

-- When the migration of a query file gives queries that are read as they were meant.
namespace Scythe.Migrate
open Text Splice Verification QueryFile

def Reads (piece : Piece) (block : List Char) : Prop :=
  ∃ header body,readHeader block = .ok (header,body) ∧ header.name = String.ofList piece.name ∧
    corresponding piece.returnType = some header.command

section
variable [CaseMap] [classes : WordClasses]

-- An annotation that is no part of a literal or of another comment.
def Lexed (dialect : SqlDialect) (input left : List Char) : Prop :=
  ∃ front kind text text' rest,tokenizeSql input dialect = front ++ (kind,text ++ text') :: rest ∧
    left = text' ++ Scanner.concatenation rest ∧ text' ≠ [] ∧ (text = [] ∨ kind = .code)

-- The parameters have numbers of their own, and what is quoted or commented out stays.
structure Piece.Renamed (dialect : SqlDialect) (piece : Piece) : Prop where
  replaced : (numbered piece.body).body = (tokenizeSql piece.body dialect).flatMap (codeRenamed piece.number)
  distinct : ∀ first ∈ (numbered piece.body).paramNames,∀ second ∈ (numbered piece.body).paramNames,
    piece.number first = piece.number second → first = second
  unused : ∀ name ∈ (numbered piece.body).paramNames,piece.number name ∉ usedNumbers dialect piece.body
  gapless : Gapless (usedNumbers dialect piece.body) ((numbered piece.body).paramNames.map piece.number)

structure Migrated (dialect : SqlDialect) (input : List Char) (converted : Converted) : Prop where
  blocks : (splitQueryFile converted.text).length = converted.queries
  read : List.Forall₂ Reads (pieces input).2 (splitQueryFile converted.text)
  outside : ∀ piece ∈ (pieces input).2,Lexed dialect input piece.left
  renamed : ∀ piece ∈ (pieces input).2,piece.Renamed dialect
  settled : convertQueryContent converted.text = .ok ⟨converted.text,0,0⟩

structure Piece.Clean (dialect : SqlDialect) (input : List Char) (piece : Piece) : Prop where
  outside : Lexed dialect input piece.left
  closed : Closed piece.body
  agrees : piece.Agrees
  quoted : ∀ span ∈ tokenizeSql piece.body dialect,span.1 ≠ .code → nextCall span.2 = none
  positive : 0 ∉ usedNumbers dialect piece.body
  filled : ∀ m,1 ≤ m → m ≤ lastNumber dialect piece.body → m ∈ usedNumbers dialect piece.body

structure Clean (dialect : SqlDialect) (input : List Char) : Prop where
  before : Closed (pieces input).1
  each : ∀ piece ∈ (pieces input).2,piece.Clean dialect input

omit [CaseMap] in
theorem convert_ok {input : List Char} {converted : Converted} (ok : convertQueryContent input = .ok converted) :
    converted.text = (pieces input).1 ++ (pieces input).2.flatMap Piece.converted ∧
      converted.queries = (pieces input).2.length ∧
      ∀ loose ∈ looseNames input,loose.1 ∈ (pieces input).2.map Piece.left := by
  have whole := (pieces_cutting input).whole
  unfold convertQueryContent at ok
  cases split : pieces input with
  | mk before found =>
    rw [split] at ok whole
    dsimp only at ok whole ⊢
    cases stray : (looseNames input).find? fun loose => loose.1 ∉ found.map Piece.left with
    | some loose =>
      rw [stray] at ok
      cases ok
    | none =>
      rw [stray] at ok
      dsimp only at ok
      have strict : ∀ loose ∈ looseNames input,loose.1 ∈ found.map Piece.left := by
        intro loose member
        have is := List.find?_eq_none.mp stray loose member
        simpa using is
      split at ok
      · rename_i none
        cases ok
        subst none
        have same : input = before := whole.trans (List.append_nil before)
        exact ⟨same.trans (List.append_nil before).symm,rfl,strict⟩
      · split at ok
        · cases ok
        · cases ok
          exact ⟨rfl,rfl,strict⟩

omit [CaseMap] in
theorem pieces_laid (input : List Char) : Laid (pieces input).1 (pieces input).2 := by
  have cut := pieces_cutting input
  refine ⟨fun piece member => (cut.proper piece member).1,?_,cut.ended.2⟩
  rcases cut.ended.1 with none | ⟨empty,_⟩ | last
  · exact .inl none
  · exact .inr (.inl empty)
  · exact .inr (.inr last)

variable (lawful : classes.Lawful)
include lawful

omit [CaseMap] in
theorem reads_iff {piece : Piece} (proper : piece.Proper) : Reads piece piece.block ↔ piece.Agrees := by
  rw [← block_read lawful proper]
  constructor
  · intro reads
    obtain ⟨header,body,is,name,corresponds⟩ := reads
    exact ⟨_,corresponds,(readHeader_iff (corresponding_single corresponds)).mp ⟨header,body,is,name,rfl⟩⟩
  · intro found
    obtain ⟨command,corresponds,names⟩ := found
    obtain ⟨header,body,is,name,rfl⟩ := (readHeader_iff (corresponding_single corresponds)).mpr names
    exact ⟨header,body,is,name,corresponds⟩

theorem renamed_iff (dialect : SqlDialect) (piece : Piece) : piece.Renamed dialect ↔
    (∀ span ∈ tokenizeSql piece.body dialect,span.1 ≠ .code → nextCall span.2 = none) ∧
      0 ∉ usedNumbers dialect piece.body ∧
      ∀ m,1 ≤ m → m ≤ lastNumber dialect piece.body → m ∈ usedNumbers dialect piece.body := by
  have names : (numbered piece.body).paramNames = paramNames piece.body := by rw [numbered_eq lawful]
  have body : (numbered piece.body).body = renamed piece.number piece.body := by
    rw [numbered_eq lawful]
    rfl
  have new : (numbered piece.body).paramNames.map piece.number = newNumbers piece.body := by
    rw [names]
    rfl
  rw [← gapless_iff lawful,← quoted_iff lawful dialect piece.body piece.number]
  constructor
  · intro held
    obtain ⟨replaced,_,_,gapless⟩ := held
    rw [new] at gapless
    rw [body] at replaced
    exact ⟨replaced,gapless⟩
  · intro both
    refine ⟨body.trans both.1,?_,?_,?_⟩
    · rw [names]
      intro first member second _ same
      exact numberOf_inj piece.body member same
    · intro name member
      apply new_unused lawful
      rw [← new]
      exact List.mem_map_of_mem member
    · rw [new]
      exact both.2

omit [CaseMap] in
theorem migrated_settled {input : List Char} {converted : Converted} (ok : convertQueryContent input = .ok converted) :
    convertQueryContent converted.text = .ok ⟨converted.text,0,0⟩ := by
  obtain ⟨text,_,strict⟩ := convert_ok ok
  have cut := pieces_cutting input
  have laid := pieces_laid input
  obtain ⟨before,bodies⟩ := quiet_cutting lawful cut (Nat.le_refl _) strict
  obtain ⟨tail,dash⟩ := quiet_pieces lawful laid.proper (fun piece member => (cut.proper piece member).2) laid.ended bodies
  apply convert_quiet lawful
  rw [text]
  rcases laid.first with none | ended
  · rw [none,List.flatMap_nil,List.append_nil]
    exact before
  · exact quiet_append ended before tail dash

end

-- The classes of a text that is all ASCII.
@[reducible] def asciiClasses : WordClasses := ⟨isAsciiWord,isDigit⟩

theorem asciiClasses_lawful : asciiClasses.Lawful := by
  refine ⟨fun _ _ => rfl,?_,fun _ _ => rfl,?_⟩
  · intro c space
    change isAsciiWord c = false
    unfold isAsciiWord asciiIsLower asciiIsUpper isDigit
    simp only [isSpace,isAsciiSpace,List.mem_cons,List.not_mem_nil,or_false,Bool.or_eq_true,decide_eq_true_eq,
      Bool.and_eq_true] at space
    simp only [Bool.or_eq_false_iff,Bool.and_eq_false_imp,decide_eq_true_eq,decide_eq_false_iff_not]
    have bounds : 'a'.toNat = 97 ∧ 'z'.toNat = 122 ∧ 'A'.toNat = 65 ∧ 'Z'.toNat = 90 ∧ '0'.toNat = 48 ∧ '9'.toNat = 57 ∧
        '_'.toNat = 95 := ⟨rfl,rfl,rfl,rfl,rfl,rfl,rfl⟩
    refine ⟨⟨⟨fun _ => by omega,fun _ => by omega⟩,fun _ => by omega⟩,?_⟩
    rintro rfl
    omega
  · intro c digit
    change isAsciiWord c = true
    have digit : isDigit c = true := digit
    unfold isAsciiWord
    rw [digit,Bool.or_true,Bool.true_or]

section
local instance migrationWords : WordClasses := asciiClasses
local instance migrationCase : CaseMap := ascii

end

end Scythe.Migrate
