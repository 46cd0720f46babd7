import Scythe.QueryLines
import Scythe.Rewrite

-- Where a query file is cut, and where its queries begin.
namespace Scythe.QueryFile
open Text Verification

-- Whether some SQL stands before the first annotation, and so in no block.
def unannotatedWithin : Bool → List (List Char) → Bool
  | sawContent,[] => sawContent
  | sawContent,line :: content =>
    let trimmed := trimChars line
    if trimmed = [] then unannotatedWithin sawContent content
    else if "-- name:".toList.isPrefixOf trimmed || "-- @name".toList.isPrefixOf trimmed then sawContent
    else unannotatedWithin (sawContent || !"--".toList.isPrefixOf trimmed) content

def hasUnannotatedSql (content : List Char) : Bool := unannotatedWithin false (lines content)

-- A line that is neither blank nor a comment.
def SqlLine (line : List Char) : Prop := trimChars line ≠ [] ∧ "--".toList.isPrefixOf (trimChars line) = false

-- Whether the annotations of a query take a line for its name.
def namesQuery (line : List Char) : Bool := (annotationIn line).any fun entry => entry.1 = "name".toList

-- Whether a place lies within a literal, a quoted identifier or a block comment.
def insideAt : List SqlSpan → Nat → Bool
  | [],_ => false
  | span :: spans,place =>
    if place < span.2.length then place ≠ 0 && span.1 ≠ .code && span.1 ≠ .lineComment
    else insideAt spans (place - span.2.length)

def placesFrom : Nat → List (List Char) → List (List Char × Nat)
  | _,[] => []
  | place,piece :: pieces => (piece,place) :: placesFrom (place + piece.length) pieces

-- The lines of a file, and whether the name of a query stands on them.
def nameMarks [CaseMap] (dialect : SqlDialect) (content : List Char) : List (List Char × Bool) :=
  (placesFrom 0 (splitInclusive content)).map fun piece =>
    (lineText piece.1,namesQuery (lineText piece.1) && !insideAt (tokenizeSql content dialect) piece.2)

def openMarks (content : List Char) : List (List Char × Bool) := (lines content).map fun line => (line,opensBlock line)

-- The lines before the first that is marked, and from each marked one to the next.
def sections : List (List Char × Bool) → List (List Char) × List (List (List Char))
  | [] => ([],[])
  | (line,true) :: marks => ([],(line :: (sections marks).1) :: (sections marks).2)
  | (line,false) :: marks => (line :: (sections marks).1,(sections marks).2)

def blockText (block : List (List Char)) : List Char := ['\n'].intercalate block

theorem blockText_cons (first line : List Char) (others : List (List Char)) :
    blockText (first :: line :: others) = first ++ '\n' :: blockText (line :: others) := by
  unfold blockText
  rw [List.intercalate_cons_cons]
  simp

theorem blockText_join (first : List Char) (others : List (List Char)) :
    blockText (first :: others) = joinLines first others := by
  induction others generalizing first with
  | nil => simp [blockText,joinLines]
  | cons line others ih => rw [blockText_cons,joinLines_cons,ih]

theorem sections_whole (marks : List (List Char × Bool)) :
    (sections marks).1 ++ (sections marks).2.flatten = marks.map (·.1) := by
  induction marks with
  | nil => rfl
  | cons mark marks ih =>
    obtain ⟨line,marked⟩ := mark
    cases marked with
    | true => rw [sections,List.nil_append,List.flatten_cons,List.cons_append,ih]; rfl
    | false => rw [sections,List.cons_append,ih]; rfl

theorem sections_present (marks : List (List Char × Bool)) : ∀ block ∈ (sections marks).2,block ≠ [] := by
  induction marks with
  | nil => exact fun _ member => by cases member
  | cons mark marks ih =>
    obtain ⟨line,marked⟩ := mark
    cases marked with
    | true =>
      intro block member
      rcases List.mem_cons.mp member with rfl | later
      · exact List.cons_ne_nil _ _
      · exact ih block later
    | false => exact ih

theorem sections_marks {marks others : List (List Char × Bool)} (lines : marks.map (·.1) = others.map (·.1))
    (same : sections marks = sections others) : marks = others := by
  induction marks generalizing others with
  | nil =>
    cases others with
    | nil => rfl
    | cons => cases lines
  | cons mark marks ih =>
    cases others with
    | nil => cases lines
    | cons other others =>
      obtain ⟨line,marked⟩ := mark
      obtain ⟨line',marked'⟩ := other
      obtain ⟨first,rest⟩ := List.cons.inj lines
      have first : line = line' := first
      subst first
      cases marked with
      | true =>
        cases marked' with
        | true =>
          obtain ⟨_,blocks⟩ := Prod.mk.inj same
          obtain ⟨block,later⟩ := List.cons.inj blocks
          rw [ih rest (Prod.ext (List.cons.inj block).2 later)]
        | false => cases (Prod.mk.inj same).1
      | false =>
        cases marked' with
        | true => cases (Prod.mk.inj same).1
        | false =>
          obtain ⟨before,blocks⟩ := Prod.mk.inj same
          rw [ih rest (Prod.ext (List.cons.inj before).2 blocks)]

theorem splitChars_block {block : List (List Char)} (present : block ≠ []) (unbroken : ∀ line ∈ block,'\n' ∉ line) :
    splitChars '\n' (blockText block) = block := by
  induction block with
  | nil => exact absurd rfl present
  | cons first others ih =>
    have head := splitChars_single (unbroken first List.mem_cons_self)
    cases others with
    | nil =>
      have text : blockText [first] = first := by simp [blockText]
      rw [text,head]
    | cons line others =>
      rw [blockText_cons,splitChars_append,head,ih (List.cons_ne_nil _ _) fun other member =>
        unbroken other (List.mem_cons_of_mem _ member)]
      rfl

theorem sections_lines (marks : List (List Char × Bool)) (unbroken : ∀ mark ∈ marks,'\n' ∉ mark.1) :
    ((sections marks).2.map blockText).map (splitChars '\n') = (sections marks).2 := by
  rw [List.map_map]
  have each : ∀ block ∈ (sections marks).2,(splitChars '\n' ∘ blockText) block = id block := by
    intro block member
    apply splitChars_block (sections_present marks block member)
    intro line inside
    have known : line ∈ marks.map (·.1) := by
      rw [← sections_whole]
      exact List.mem_append_right _ (List.mem_flatten.mpr ⟨block,member,inside⟩)
    obtain ⟨mark,marked,rfl⟩ := List.mem_map.mp known
    exact unbroken mark marked
  rw [List.map_congr_left each,List.map_id]

-- Two ways to cut the same lines give the same blocks only where they are the same.
theorem blocks_marks {marks others : List (List Char × Bool)} (unbroken : ∀ mark ∈ marks,'\n' ∉ mark.1)
    (lines : marks.map (·.1) = others.map (·.1))
    (same : (sections marks).2.map blockText = (sections others).2.map blockText) : marks = others := by
  have unbroken' : ∀ mark ∈ others,'\n' ∉ mark.1 := by
    intro mark member
    have known : mark.1 ∈ marks.map (·.1) := lines ▸ List.mem_map_of_mem member
    obtain ⟨mark',marked,is⟩ := List.mem_map.mp known
    rw [← is]
    exact unbroken mark' marked
  have blocks : (sections marks).2 = (sections others).2 := by
    rw [← sections_lines marks unbroken,same,sections_lines others unbroken']
  apply sections_marks lines
  refine Prod.ext ?_ blocks
  have whole := sections_whole marks
  rw [lines,← sections_whole others,blocks] at whole
  exact List.append_cancel_right whole

theorem push_openMarks (content : List (List Char)) (blocks : List (List Char)) :
    (content.foldl Blocks.push ⟨blocks,none⟩).all =
        blocks ++ (sections (content.map fun line => (line,opensBlock line))).2.map blockText ∧
      ∀ block,(content.foldl Blocks.push ⟨blocks,some block⟩).all =
        blocks ++ joinLines block (sections (content.map fun line => (line,opensBlock line))).1 ::
          (sections (content.map fun line => (line,opensBlock line))).2.map blockText := by
  induction content generalizing blocks with
  | nil => exact ⟨rfl,fun _ => rfl⟩
  | cons line content ih =>
    rw [List.map_cons]
    cases opens : opensBlock line with
    | true =>
      have step : ∀ current,Blocks.push ⟨blocks,current⟩ line = ⟨blocks ++ current.toList,some line⟩ := by
        intro current
        unfold Blocks.push
        rw [if_pos opens]
      rw [sections]
      constructor
      · rw [List.foldl_cons,step,(ih _).2,List.map_cons,blockText_join]
        simp
      · intro block
        rw [List.foldl_cons,step,(ih _).2,List.map_cons,blockText_join]
        simp [joinLines]
    | false =>
      have step : ∀ current,Blocks.push ⟨blocks,current⟩ line =
          ⟨blocks,current.map fun block => block ++ '\n' :: line⟩ := by
        intro current
        unfold Blocks.push
        rw [opens]
        rfl
      rw [sections]
      constructor
      · rw [List.foldl_cons,step]
        exact (ih blocks).1
      · intro block
        rw [List.foldl_cons,step]
        exact (ih blocks).2 _

-- The file is cut at the lines that open a block.
theorem splitQueryFile_marks (content : List Char) :
    splitQueryFile content = (sections (openMarks content)).2.map blockText := by
  unfold splitQueryFile openMarks
  rw [(push_openMarks _ _).1]
  rfl

theorem openMarks_lines (content : List Char) : (openMarks content).map (·.1) = lines content := by
  unfold openMarks
  rw [List.map_map]
  exact List.map_id _

theorem placesFrom_pieces (place : Nat) (pieces : List (List Char)) : (placesFrom place pieces).map (·.1) = pieces := by
  induction pieces generalizing place with
  | nil => rfl
  | cons piece pieces ih => rw [placesFrom,List.map_cons,ih]

theorem openMarks_unbroken (content : List Char) : ∀ mark ∈ openMarks content,'\n' ∉ mark.1 := by
  intro mark member
  obtain ⟨line,inside,rfl⟩ := List.mem_map.mp member
  exact lines_unbroken content line inside

theorem unannotated_seen (content : List (List Char)) : unannotatedWithin true content = true := by
  induction content with
  | nil => rfl
  | cons line content ih =>
    rw [unannotatedWithin]
    split
    · exact ih
    · split
      · rfl
      · exact ih

theorem prefix_trimmed {p line : List Char} (starts : p.isPrefixOf (trimChars line) = true) :
    p.isPrefixOf (line.dropWhile isSpace) = true := by
  rw [trimChars_eq] at starts
  obtain ⟨ending,whole,_⟩ := trimEnd_cut (line.dropWhile isSpace)
  rw [List.isPrefixOf_iff_prefix] at starts ⊢
  rw [whole]
  exact starts.trans (List.prefix_append _ _)

-- What stands before the first block is blank or commented out, or else reported.
theorem unannotated_before {content : List (List Char)}
    (silent : unannotatedWithin false content = false) :
    ∀ line ∈ (sections (content.map fun line => (line,opensBlock line))).1,¬SqlLine line := by
  induction content with
  | nil => exact fun _ member => by cases member
  | cons line content ih =>
    rw [List.map_cons]
    cases opens : opensBlock line with
    | true =>
      rw [sections]
      exact fun _ member => by cases member
    | false =>
      rw [sections]
      have plain : ("-- name:".toList.isPrefixOf (trimChars line) || "-- @name".toList.isPrefixOf (trimChars line)) = false := by
        rw [Bool.eq_false_iff]
        intro starts
        rw [Bool.or_eq_true] at starts
        have opened : opensBlock line = true := by
          unfold opensBlock
          rw [Bool.or_eq_true]
          exact starts.imp prefix_trimmed prefix_trimmed
        rw [opens] at opened
        cases opened
      rw [unannotatedWithin,plain] at silent
      intro other member
      rcases List.mem_cons.mp member with rfl | later
      · intro written
        rw [if_neg written.1,written.2] at silent
        have seen := unannotated_seen content
        simp only [Bool.false_eq_true,if_false,Bool.false_or,Bool.not_false] at silent
        rw [seen] at silent
        cases silent
      · refine ih ?_ other later
        split at silent
        · exact silent
        · rename_i written
          cases comment : "--".toList.isPrefixOf (trimChars line) with
          | true =>
            rw [comment] at silent
            exact silent
          | false =>
            rw [comment] at silent
            have seen := unannotated_seen content
            simp only [Bool.false_eq_true,if_false,Bool.false_or,Bool.not_false] at silent
            rw [seen] at silent
            cases silent

theorem annotate_sqlLines {draft draft' : Draft} {keyword value : List Char} {lineNo : Nat}
    (is : draft.annotate keyword value lineNo = .ok draft') : draft'.sqlLines = draft.sqlLines := by
  unfold Draft.annotate at is
  dsimp only at is
  split at is
  case h_2 =>
    cases parsed : returnsCommand value with
    | error failure =>
      rw [parsed] at is
      cases is
    | ok command =>
      rw [parsed] at is
      cases is
      rfl
  all_goals
    cases is
    rfl

theorem push_sqlLines {content : List (List Char)} {place : Nat} {draft draft' : Draft}
    (is : (content.zipIdx place).foldlM Draft.push draft = .ok draft') :
    draft'.sqlLines = draft.sqlLines ++ content.filter fun line => (annotationIn line).isNone := by
  induction content generalizing place draft with
  | nil =>
    cases is
    exact (List.append_nil _).symm
  | cons line content ih =>
    rw [List.zipIdx_cons,List.foldlM_cons] at is
    cases pushed : draft.push (line,place) with
    | error failure =>
      rw [pushed] at is
      cases is
    | ok next =>
      rw [pushed] at is
      have later := ih is
      unfold Draft.push at pushed
      cases found : annotationIn line with
      | none =>
        rw [found] at pushed
        cases pushed
        rw [later,List.filter_cons_of_pos (by simp [found]),List.append_assoc]
        rfl
      | some entry =>
        rw [found] at pushed
        rw [later,annotate_sqlLines pushed,List.filter_cons_of_neg (by simp [found])]

theorem finish_sql {draft : Draft} {header : Header} {sql : List Char} (is : draft.finish = .ok (header,sql)) :
    sql = blockText draft.sqlLines := by
  unfold Draft.finish at is
  split at is
  · cases is
  · rename_i name named
    cases valid : validateQueryName name with
    | error failure =>
      rw [valid] at is
      cases is
    | ok _ =>
      simp only [valid,Except.bind] at is
      split at is
      · cases is
      · split at is
        · cases is
        · cases is
          rfl

-- The SQL of a query is its block without the annotations.
theorem readHeader_sql {block sql : List Char} {header : Header} (is : readHeader block = .ok (header,sql)) :
    sql = blockText ((lines block).filter fun line => (annotationIn line).isNone) := by
  unfold readHeader at is
  cases drafted : (lines block).zipIdx.foldlM Draft.push Draft.empty with
  | error failure =>
    rw [drafted] at is
    cases is
  | ok draft =>
    rw [drafted] at is
    rw [finish_sql is,push_sqlLines drafted]
    rfl

section
variable [CaseMap]

theorem nameMarks_lines (dialect : SqlDialect) (content : List Char) :
    (nameMarks dialect content).map (·.1) = lines content := by
  unfold nameMarks lines
  rw [List.map_map]
  have pieces := placesFrom_pieces 0 (splitInclusive content)
  calc _ = ((placesFrom 0 (splitInclusive content)).map (·.1)).map lineText := by
        rw [List.map_map]
        rfl
    _ = _ := by rw [pieces]

-- Splitting agrees with parsing: a block for each name of a query, no SQL lost that is
-- not reported, and the SQL of each block what is left of it without annotations.
structure Agrees (dialect : SqlDialect) (content : List Char) : Prop where
  starts : splitQueryFile content = (sections (nameMarks dialect content)).2.map blockText
  kept : ∃ before,lines content = before ++ ((splitQueryFile content).map (splitChars '\n')).flatten ∧
    (hasUnannotatedSql content = false → ∀ line ∈ before,¬SqlLine line)
  sql : ∀ block ∈ splitQueryFile content,∀ header sql,readHeader block = .ok (header,sql) →
    sql = blockText ((lines block).filter fun line => (annotationIn line).isNone)

theorem starts_iff (dialect : SqlDialect) (content : List Char) :
    splitQueryFile content = (sections (nameMarks dialect content)).2.map blockText ↔
      ∀ mark ∈ nameMarks dialect content,opensBlock mark.1 = mark.2 := by
  have sameLines := (openMarks_lines content).trans (nameMarks_lines dialect content).symm
  rw [splitQueryFile_marks]
  constructor
  · intro same
    rw [← blocks_marks (openMarks_unbroken content) sameLines same]
    intro mark member
    obtain ⟨line,_,rfl⟩ := List.mem_map.mp member
    rfl
  · intro each
    have marks : openMarks content = nameMarks dialect content := by
      unfold openMarks
      rw [← nameMarks_lines dialect content,List.map_map]
      have same : ∀ mark ∈ nameMarks dialect content,((fun line => (line,opensBlock line)) ∘ Prod.fst) mark = id mark := by
        intro mark member
        exact Prod.ext rfl (each mark member)
      rw [List.map_congr_left same,List.map_id]
    rw [marks]

end

section

local instance splitAscii : CaseMap := ascii

end

end Scythe.QueryFile
