import Scythe.Tokens
import Mathlib.Data.List.Chain
import Mathlib.Data.List.TakeWhile

-- How the SQL text is cleaned before it is written into generated code: comments and
-- the lines they leave empty go, lines are trimmed together, semicolons at the end go.
namespace Scythe
open Text

-- `replace("\r\n", "\n")`.
def normalized : List Char → List Char
  | [] => []
  | [c] => [c]
  | c :: d :: cs => if c = '\r' ∧ d = '\n' then '\n' :: normalized cs else c :: normalized (d :: cs)

structure CleanLine where
  kept : List Char
  touchedByComment : Bool
  deriving DecidableEq,Repr

structure CleanLines where
  lines : List CleanLine
  last : CleanLine

def CleanLines.push (isComment : Bool) (s : CleanLines) (ch : Char) : CleanLines :=
  let touched := {s.last with touchedByComment := true}
  if ch = '\n' then ⟨s.lines ++ [if isComment then touched else s.last],⟨[],false⟩⟩
  else if isComment then {s with last := touched}
  else {s with last := {s.last with kept := s.last.kept ++ [ch]}}

def CleanLine.stays (l : CleanLine) : Bool := !(l.touchedByComment && trimChars l.kept = [])

section Clean
variable [CaseMap]

def cleanSqlLines (sql : List Char) (dialect : SqlDialect) : List (List Char) :=
  let spans := tokenizeSql (normalized sql) dialect
  let read := spans.foldl (fun s span => span.2.foldl (CleanLines.push span.1.isComment) s) ⟨[],⟨[],false⟩⟩
  ((read.lines ++ [read.last]).filter CleanLine.stays).map CleanLine.kept

def trimEndMatches (c : Char) (cs : List Char) : List Char := (cs.reverse.dropWhile (· = c)).reverse

def finishSql (joined : List Char) : List Char := trimChars (trimEndMatches ';' (trimChars joined))

def cleanSql (sql : String) : String :=
  String.ofList (finishSql (['\n'].intercalate (cleanSqlLines sql.toList .postgreSQL)))

def cleanSqlOneline (sql : String) : String :=
  String.ofList (finishSql ([' '].intercalate (cleanSqlLines sql.toList .postgreSQL)))

end Clean

-- Each character with whether a comment holds it.
abbrev Marked := Char × Bool

def spanMarks (spans : List SqlSpan) : List Marked := spans.flatMap fun span => span.2.map (·,span.1.isComment)

def Item.marks (item : Item) : List Marked :=
  match item with
  | .comment text => text.map (·,true)
  | _ => item.text.map (·,false)

-- The lines of a marked text after what is read of the first of them.
def linesFrom (kept : List Char) (touched : Bool) : List Marked → List CleanLine
  | [] => [⟨kept,touched⟩]
  | (ch,isComment) :: marked =>
    if ch = '\n' then ⟨kept,touched || isComment⟩ :: linesFrom [] false marked
    else if isComment then linesFrom kept true marked
    else linesFrom (kept ++ [ch]) touched marked

theorem push_lines (s : CleanLines) (marked : List Marked) :
    let read := marked.foldl (fun s m => s.push m.2 m.1) s
    read.lines ++ [read.last] = s.lines ++ linesFrom s.last.kept s.last.touchedByComment marked := by
  induction marked generalizing s with
  | nil => rfl
  | cons m marked ih =>
    obtain ⟨ch,isComment⟩ := m
    dsimp only at ih ⊢
    rw [List.foldl_cons,ih,linesFrom]
    by_cases newline : ch = '\n'
    · cases isComment <;> simp [CleanLines.push,newline]
    · cases isComment <;> simp [CleanLines.push,newline]

section Marks
variable [CaseMap]

omit [CaseMap] in
theorem foldl_spans (s : CleanLines) (spans : List SqlSpan) :
    spans.foldl (fun s span => span.2.foldl (CleanLines.push span.1.isComment) s) s =
      (spanMarks spans).foldl (fun s m => s.push m.2 m.1) s := by
  induction spans generalizing s with
  | nil => rfl
  | cons span spans ih =>
    have marks : spanMarks (span :: spans) = span.2.map (·,span.1.isComment) ++ spanMarks spans := List.flatMap_cons
    rw [List.foldl_cons,ih,marks,List.foldl_append,List.foldl_map]

def markedItems (cs : List Char) : List Marked := (sqlLexer.items cs).flatMap Item.marks

theorem markedItems_read {cs rest : List Char} {item : Item} (read : readItem cs = some (item,rest)) :
    markedItems cs = item.marks ++ markedItems rest := by
  unfold markedItems
  rw [sqlLexer.items_cons read,List.flatMap_cons]

-- A run is read to the same end from within it.
theorem markedItems_closed {c : Char} {cs : List Char} (closed : opens (c :: cs) = false) :
    markedItems (c :: cs) = (c,false) :: markedItems cs := by
  have read := readItem_closed closed
  cases class' : classOf c with
  | space => exact markedItems_read (readItem_space (classOf_space.mp class'))
  | single => exact markedItems_read (readItem_single.mpr ⟨rfl,closed,class'⟩)
  | _ =>
    rw [class'] at read
    rw [markedItems_read read]
    cases taken : takeRun (classOf c) cs with
    | mk text rest =>
      rw [class'] at taken
      rw [taken]
      cases text with
      | nil =>
        have whole := takeRun_append (classOf c) cs
        rw [class',taken,List.nil_append] at whole
        rw [whole]
        rfl
      | cons d text =>
        have next := readItem_run.mpr ⟨taken,List.cons_ne_nil _ _,rfl⟩
        rw [markedItems_read next]
        rfl

omit [CaseMap] in
theorem spanMarks_flush (buffer : List Char) :
    spanMarks (Scanner.flush .code buffer) = buffer.map (·,false) := by
  unfold Scanner.flush
  split
  · rename_i empty
    rw [empty]
    rfl
  · simp [spanMarks,SqlSpanKind.isComment]

theorem spanMarks_items {fuel : Nat} {buffer cs : List Char} (enough : cs.length ≤ fuel) :
    spanMarks (Scanner.spansWithin (readSpan .postgreSQL) .code fuel buffer cs) =
      buffer.map (·,false) ++ markedItems cs := by
  induction fuel generalizing buffer cs with
  | zero =>
    have empty : cs = [] := List.eq_nil_of_length_eq_zero (by omega)
    rw [empty,Scanner.spansWithin,spanMarks_flush]
    simp [markedItems,Lexing.Lexer.items,Lexing.Lexer.itemsWithin]
  | succ fuel ih =>
    cases cs with
    | nil =>
      rw [Scanner.spansWithin,spanMarks_flush]
      simp [markedItems,Lexing.Lexer.items,Lexing.Lexer.itemsWithin]
    | cons c cs =>
      rw [Scanner.spansWithin]
      cases found : readSpan .postgreSQL (c :: cs) with
      | none =>
        have closed : opens (c :: cs) = false := by rw [opens,found]; rfl
        rw [ih (by simpa using enough),markedItems_closed closed]
        simp
      | some taken =>
        obtain ⟨kind,text,rest⟩ := taken
        have read : readItem (c :: cs) = some (if kind.isComment then .comment text else .quoted kind text,rest) := by
          rw [readItem,found]
        have shorter := readItem_shorter read
        rw [List.length_cons] at enough shorter
        have marks : ∀ more,spanMarks (Scanner.flush .code buffer ++ (kind,text) :: more) =
            buffer.map (·,false) ++ (text.map (·,kind.isComment) ++ spanMarks more) := by
          intro more
          rw [←spanMarks_flush]
          simp [spanMarks]
        dsimp only
        rw [marks,ih (by omega),markedItems_read read]
        cases comment : kind.isComment <;> simp [Item.marks,Item.text]

-- The marks of a text by its spans are those by its items.
theorem spanMarks_tokenizeSql (cs : List Char) : spanMarks (tokenizeSql cs .postgreSQL) = markedItems cs :=
  spanMarks_items (Nat.le_refl _)

theorem cleanSqlLines_eq (sql : List Char) :
    cleanSqlLines sql .postgreSQL =
      ((linesFrom [] false (markedItems (normalized sql))).filter CleanLine.stays).map CleanLine.kept := by
  unfold cleanSqlLines
  dsimp only
  rw [foldl_spans,push_lines,spanMarks_tokenizeSql]
  rfl

end Marks

-- The lines that stay, joined; none where no line stays.
def render (separator : Char) : List CleanLine → Option (List Char)
  | [] => none
  | l :: ls =>
    if l.stays then some (l.kept ++ ((render separator ls).map (separator :: ·)).getD []) else render separator ls

theorem render_eq (separator : Char) (ls : List CleanLine) :
    [separator].intercalate ((ls.filter CleanLine.stays).map CleanLine.kept) = (render separator ls).getD [] ∧
      (render separator ls = none ↔ ls.filter CleanLine.stays = []) := by
  induction ls with
  | nil => exact ⟨rfl,by simp [render]⟩
  | cons l ls ih =>
    rw [render]
    by_cases stays : l.stays
    · rw [if_pos stays,List.filter_cons_of_pos stays,List.map_cons]
      cases rendered : render separator ls with
      | none =>
        rw [ih.2.mp rendered]
        simp
      | some more =>
        obtain ⟨joined,nonempty⟩ := ih
        rw [rendered] at joined nonempty
        obtain ⟨l',ls',is⟩ := List.exists_cons_of_ne_nil (fun empty => by simpa using nonempty.mpr empty)
        rw [is] at joined ⊢
        rw [List.map_cons] at joined ⊢
        simp [List.intercalate_cons_cons,joined]
    · rw [if_neg stays,List.filter_cons_of_neg stays]
      exact ih

theorem trimChars_nil {cs : List Char} : trimChars cs = [] ↔ ∀ c ∈ cs,isSpace c := by
  unfold trimChars
  rw [List.reverse_eq_nil_iff,List.dropWhile_eq_nil_iff]
  constructor
  · intro all
    rw [←List.takeWhile_append_dropWhile (p := isSpace) (l := cs)]
    intro c member
    rcases List.mem_append.mp member with taken | left
    · exact List.all_eq_true.mp List.all_takeWhile c taken
    · exact all c (List.mem_reverse.mpr left)
  · intro all c member
    exact all c ((List.dropWhile_sublist _).mem (List.mem_reverse.mp member))

theorem stays_of_mem {kept : List Char} {touched : Bool} {c : Char} (member : c ∈ kept) (notSpace : isSpace c = false) :
    CleanLine.stays ⟨kept,touched⟩ := by
  have present : trimChars kept ≠ [] := by
    rw [Ne,trimChars_nil]
    intro all
    rw [all c member] at notSpace
    cases notSpace
  simp [CleanLine.stays,present]

theorem linesFrom_split (marked : List Marked) : ∃ (l : CleanLine) (ls : List CleanLine),∀ kept touched,
    linesFrom kept touched marked = ⟨kept ++ l.kept,touched || l.touchedByComment⟩ :: ls := by
  induction marked with
  | nil => exact ⟨⟨[],false⟩,[],by simp [linesFrom]⟩
  | cons m marked ih =>
    obtain ⟨ch,isComment⟩ := m
    obtain ⟨l,ls,is⟩ := ih
    by_cases newline : ch = '\n'
    · exact ⟨⟨[],isComment⟩,linesFrom [] false marked,by simp [linesFrom,newline]⟩
    · cases isComment with
      | true => exact ⟨⟨l.kept,true⟩,ls,by simp [linesFrom,newline,is]⟩
      | false => exact ⟨⟨ch :: l.kept,l.touchedByComment⟩,ls,by simp [linesFrom,newline,is]⟩

-- A text that begins and ends with no white space is a piece of its line, also when it
-- holds line breaks.
structure Solid (text : List Char) : Prop where
  first : ∃ c cs,text = c :: cs ∧ isSpace c = false
  last : ∃ c cs,text = cs ++ [c] ∧ isSpace c = false

theorem stays_append {kept : List Char} {touched : Bool} (stays : CleanLine.stays ⟨kept,touched⟩) (more : List Char) :
    CleanLine.stays ⟨kept ++ more,touched⟩ := by
  cases touched with
  | false => rfl
  | true =>
    have present : ¬∀ c ∈ kept,isSpace c := by
      rw [←trimChars_nil]
      simpa [CleanLine.stays] using stays
    push Not at present
    obtain ⟨c,member,notSpace⟩ := present
    exact stays_of_mem (List.mem_append_left _ member) (by simpa using notSpace)

theorem render_token_tail {separator c : Char} {text kept : List Char} {touched : Bool} {marked : List Marked}
    (breaks : separator = '\n' ∨ '\n' ∉ text ++ [c]) (notSpace : isSpace c = false)
    (stays : CleanLine.stays ⟨kept,touched⟩) :
    render separator (linesFrom kept touched ((text ++ [c]).map (·,false) ++ marked)) =
      render separator (linesFrom (kept ++ (text ++ [c])) touched marked) := by
  induction text generalizing kept touched with
  | nil =>
    have notBreak : c ≠ '\n' := by
      rintro rfl
      revert notSpace
      decide
    simp [linesFrom,notBreak]
  | cons d text ih =>
    have later : separator = '\n' ∨ '\n' ∉ text ++ [c] :=
      breaks.imp_right fun absent member => absent (List.mem_cons_of_mem _ member)
    by_cases newline : d = '\n'
    · -- A break inside the text: both lines stay, so the separator takes its place.
      obtain ⟨l,ls,lines⟩ := linesFrom_split marked
      have separates : separator = d := newline ▸ breaks.resolve_right fun absent => absent (by simp [newline])
      have whole : CleanLine.stays ⟨kept ++ (d :: text ++ [c]) ++ l.kept,touched || l.touchedByComment⟩ :=
        stays_of_mem (c := c) (by simp) notSpace
      have after : CleanLine.stays ⟨text ++ [c] ++ l.kept,false || l.touchedByComment⟩ :=
        stays_of_mem (c := c) (by simp) notSpace
      have rest := @ih [] false later rfl
      rw [List.nil_append,lines,render,if_pos after] at rest
      have first : linesFrom kept touched ((d :: text ++ [c]).map (·,false) ++ marked) =
          ⟨kept,touched⟩ :: linesFrom [] false ((text ++ [c]).map (·,false) ++ marked) := by
        simp [linesFrom,newline]
      rw [first,render,if_pos stays,rest,lines,render,if_pos whole]
      simp [separates]
    · have rest := ih later (stays_append stays [d])
      simpa [linesFrom,newline] using rest

theorem render_token {separator : Char} {text kept : List Char} {touched : Bool} {marked : List Marked}
    (breaks : separator = '\n' ∨ '\n' ∉ text) (solid : Solid text) :
    render separator (linesFrom kept touched (text.map (·,false) ++ marked)) =
      render separator (linesFrom (kept ++ text) touched marked) := by
  obtain ⟨c,cs,rfl,notSpace⟩ := solid.last
  cases cs with
  | nil =>
    have notBreak : c ≠ '\n' := by
      rintro rfl
      revert notSpace
      decide
    simp [linesFrom,notBreak]
  | cons d cs =>
    obtain ⟨e,es,is,first⟩ := solid.first
    obtain ⟨rfl,-⟩ := List.cons.inj is
    have notBreak : d ≠ '\n' := by
      rintro rfl
      revert first
      decide
    have later : separator = '\n' ∨ '\n' ∉ cs ++ [c] :=
      breaks.imp_right fun absent member => absent (List.mem_cons_of_mem _ member)
    have stays : CleanLine.stays ⟨kept ++ [d],touched⟩ := stays_of_mem (c := d) (by simp) first
    have rest := @render_token_tail separator c cs (kept ++ [d]) touched marked later notSpace stays
    simpa [linesFrom,notBreak] using rest

-- What cleaning sees of an item: a break of the line, a comment's character, or an
-- item that it copies.
inductive CleanStep where
  | lineBreak (inComment : Bool)
  | touch
  | copied (item : Item)

def Item.steps : Item → List CleanStep
  | .space c => if c = '\n' then [.lineBreak false] else [.copied (.space c)]
  | .comment text => text.map fun ch => if ch = '\n' then .lineBreak true else .touch
  | item => [.copied item]

def stepLines (kept : List Item) (touched : Bool) : List CleanStep → List (List Item × Bool)
  | [] => [(kept,touched)]
  | .lineBreak inComment :: steps => (kept,touched || inComment) :: stepLines [] false steps
  | .touch :: steps => stepLines kept true steps
  | .copied item :: steps => stepLines (kept ++ [item]) touched steps

section Lines
variable [CaseMap]

def spelledLine (l : List Item × Bool) : CleanLine := ⟨sqlLexer.spelled l.1,l.2⟩

omit [CaseMap] in
theorem render_cons {separator : Char} {l : CleanLine} {ls ls' : List CleanLine}
    (same : render separator ls = render separator ls') : render separator (l :: ls) = render separator (l :: ls') := by
  rw [render,render,same]

theorem spelled_snoc (kept : List Item) (item : Item) :
    sqlLexer.spelled kept ++ item.text = sqlLexer.spelled (kept ++ [item]) := by
  rw [sqlLexer.spelled_append,sqlLexer.spelled_cons,sqlLexer.spelled_nil,List.append_nil]
  rfl

theorem render_comment {separator : Char} {marked : List Marked} {steps : List CleanStep}
    (rest : ∀ kept touched,render separator (linesFrom (sqlLexer.spelled kept) touched marked) =
      render separator ((stepLines kept touched steps).map spelledLine))
    (text : List Char) (kept : List Item) (touched : Bool) :
    render separator (linesFrom (sqlLexer.spelled kept) touched ((Item.comment text).marks ++ marked)) =
      render separator ((stepLines kept touched ((Item.comment text).steps ++ steps)).map spelledLine) := by
  simp only [Item.marks,Item.steps]
  induction text generalizing kept touched with
  | nil => exact rest kept touched
  | cons ch text ih =>
    by_cases newline : ch = '\n'
    · simp only [newline,if_true,List.map_cons,List.cons_append,linesFrom,stepLines]
      exact render_cons (ih [] false)
    · simp only [newline,if_false,List.map_cons,List.cons_append,linesFrom,stepLines]
      exact ih kept true

-- Line by line and item by item, the same text is kept.
theorem render_steps {separator : Char} {found : List Item}
    (solid : ∀ t ∈ found,t.isToken → Solid t.text ∧ (separator = '\n' ∨ '\n' ∉ t.text))
    (kept : List Item) (touched : Bool) :
    render separator (linesFrom (sqlLexer.spelled kept) touched (found.flatMap Item.marks)) =
      render separator ((stepLines kept touched (found.flatMap Item.steps)).map spelledLine) := by
  induction found generalizing kept touched with
  | nil => rfl
  | cons item found ih =>
    have rest := ih fun t member => solid t (List.mem_cons_of_mem _ member)
    have token : item.isToken → render separator (linesFrom (sqlLexer.spelled kept) touched
        (item.text.map (·,false) ++ found.flatMap Item.marks)) =
          render separator ((stepLines (kept ++ [item]) touched (found.flatMap Item.steps)).map spelledLine) := by
      intro isToken
      obtain ⟨solid',breaks⟩ := solid item List.mem_cons_self isToken
      rw [render_token breaks solid',spelled_snoc,rest]
    rw [List.flatMap_cons,List.flatMap_cons]
    cases item with
    | space c =>
      by_cases newline : c = '\n'
      · simp only [Item.marks,Item.text,Item.steps,newline,if_true,List.map_cons,List.map_nil,List.cons_append,
          List.nil_append,linesFrom,stepLines]
        exact render_cons (rest [] false)
      · have moved := rest (kept ++ [.space c]) touched
        rw [←spelled_snoc] at moved
        simpa [Item.marks,Item.text,Item.steps,newline,linesFrom,stepLines] using moved
    | comment text => exact render_comment rest text kept touched
    | quoted kind text => exact token rfl
    | run k text => exact token rfl
    | single c => exact token rfl

def renderItems (separator : Char) : List (List Item × Bool) → Option (List Item)
  | [] => none
  | l :: ls =>
    if (spelledLine l).stays then some (l.1 ++ ((renderItems separator ls).map (.space separator :: ·)).getD [])
    else renderItems separator ls

theorem render_spelled (separator : Char) (ls : List (List Item × Bool)) :
    render separator (ls.map spelledLine) = (renderItems separator ls).map sqlLexer.spelled := by
  induction ls with
  | nil => rfl
  | cons l ls ih =>
    rw [List.map_cons,render,renderItems,ih]
    split
    · cases renderItems separator ls with
      | none => simp [spelledLine]
      | some more =>
        simp only [spelledLine,Option.map_some,Option.getD_some,sqlLexer.spelled_append,sqlLexer.spelled_cons]
        rfl
    · rfl

def CleanStep.token? : CleanStep → Option Item
  | .copied item => if item.isToken then some item else none
  | _ => none

omit [CaseMap] in
theorem tokens_steps (found : List Item) :
    (found.flatMap Item.steps).filterMap CleanStep.token? = found.filter Item.isToken := by
  induction found with
  | nil => rfl
  | cons item found ih =>
    rw [List.flatMap_cons,List.filterMap_append,ih]
    cases item with
    | space c => by_cases newline : c = '\n' <;> simp [Item.steps,newline,CleanStep.token?,Item.isToken]
    | comment text =>
      have none : ((Item.comment text).steps).filterMap CleanStep.token? = [] := by
        rw [List.filterMap_eq_nil_iff]
        intro step member
        obtain ⟨ch,-,rfl⟩ := List.mem_map.mp member
        by_cases newline : ch = '\n' <;> simp [newline,CleanStep.token?]
      rw [none]
      rfl
    | quoted kind text => rfl
    | run k text => rfl
    | single c => rfl

theorem tokens_dropped {l : List Item × Bool} (solid : ∀ t ∈ l.1,t.isToken → Solid t.text)
    (dropped : (spelledLine l).stays = false) : l.1.filter Item.isToken = [] := by
  refine List.filter_eq_nil_iff.mpr fun t member isToken => ?_
  obtain ⟨c,cs,is,notSpace⟩ := (solid t member isToken).first
  have inside : c ∈ sqlLexer.spelled l.1 := by
    refine List.mem_flatMap.mpr ⟨t,member,?_⟩
    change c ∈ t.text
    rw [is]
    exact List.mem_cons_self
  have stays : (spelledLine l).stays := stays_of_mem inside notSpace
  rw [dropped] at stays
  cases stays

-- A line that goes holds no token.
theorem tokens_renderItems (separator : Char) {steps : List CleanStep} {kept : List Item} {touched : Bool}
    (solid : ∀ t ∈ kept,t.isToken → Solid t.text)
    (solid' : ∀ t ∈ steps.filterMap CleanStep.token?,Solid t.text) :
    ((renderItems separator (stepLines kept touched steps)).getD []).filter Item.isToken =
      kept.filter Item.isToken ++ steps.filterMap CleanStep.token? := by
  induction steps generalizing kept touched with
  | nil =>
    rw [stepLines,renderItems]
    split
    · simp [renderItems]
    · rename_i dropped
      rw [tokens_dropped (l := (kept,touched)) solid (by simpa using dropped)]
      rfl
  | cons step steps ih =>
    cases step with
    | lineBreak inComment =>
      have rest := @ih [] false (fun _ member => by cases member) solid'
      have skipped : (CleanStep.lineBreak inComment :: steps).filterMap CleanStep.token? =
          steps.filterMap CleanStep.token? := rfl
      rw [stepLines,renderItems,skipped]
      split
      · cases more : renderItems separator (stepLines [] false steps) with
        | none =>
          rw [more] at rest
          simpa using rest
        | some found =>
          rw [more] at rest
          have space : (Item.space separator).isToken = false := rfl
          simpa [space] using rest
      · rename_i dropped
        rw [tokens_dropped (l := (kept,touched || inComment)) solid (by simpa using dropped)]
        exact rest
    | touch => exact ih solid solid'
    | copied item =>
      by_cases isToken : item.isToken
      · have taken : (CleanStep.copied item :: steps).filterMap CleanStep.token? =
            item :: steps.filterMap CleanStep.token? := by simp [CleanStep.token?,isToken]
        rw [taken] at solid' ⊢
        obtain ⟨here,later⟩ := List.forall_mem_cons.mp solid'
        have kept' : ∀ t ∈ kept ++ [item],t.isToken → Solid t.text := by
          intro t member token
          rcases List.mem_append.mp member with before | last
          · exact solid t before token
          · rw [List.mem_singleton.mp last]
            exact here
        have rest := @ih (kept ++ [item]) touched kept' later
        rw [List.filter_append] at rest
        simpa [stepLines,isToken] using rest
      · have passed : (CleanStep.copied item :: steps).filterMap CleanStep.token? =
            steps.filterMap CleanStep.token? := by simp [CleanStep.token?,isToken]
        rw [passed] at solid' ⊢
        have kept' : ∀ t ∈ kept ++ [item],t.isToken → Solid t.text := by
          intro t member token
          rcases List.mem_append.mp member with before | last
          · exact solid t before token
          · exact absurd (List.mem_singleton.mp last ▸ token) isToken
        have rest := @ih (kept ++ [item]) touched kept' solid'
        rw [List.filter_append] at rest
        simpa [stepLines,isToken] using rest

-- Two items that stand side by side are read apart.
def Link (x y : Item) : Prop := x.isToken → readItem (x.text ++ y.text) = some (x,y.text)

def nextItem : List CleanStep → Option Item
  | [] => none
  | .lineBreak _ :: _ => some (.space '\n')
  | .touch :: steps => nextItem steps
  | .copied item :: _ => some item

def Linked : List CleanStep → Prop
  | [] => True
  | .copied item :: steps => (∀ y ∈ nextItem steps,Link item y) ∧ Linked steps
  | _ :: steps => Linked steps

theorem Link.space (ordinary : OrdinaryCharacters) {x : Item} {c d : Char} (link : Link x (.space c))
    (space : isSpace d) : Link x (.space d) :=
  fun isToken => readItem_replaces ordinary isToken (link isToken) (.space (List.cons_ne_nil _ _) space)

theorem linked_renderItems (ordinary : OrdinaryCharacters) {separator : Char} (space : isSpace separator)
    {steps : List CleanStep} {kept : List Item} {touched : Bool} (linked : Linked steps)
    (chain : List.IsChain Link kept) (joins : ∀ x ∈ kept.getLast?,∀ y ∈ nextItem steps,Link x y) :
    ∀ found ∈ renderItems separator (stepLines kept touched steps),List.IsChain Link found := by
  induction steps generalizing kept touched with
  | nil =>
    intro found is
    rw [stepLines,renderItems] at is
    split at is
    · cases is
      simpa [renderItems] using chain
    · cases is
  | cons step steps ih =>
    cases step with
    | lineBreak inComment =>
      have rest := @ih [] false linked List.isChain_nil (fun _ member => by cases member)
      intro found is
      rw [stepLines,renderItems] at is
      split at is
      · cases more : renderItems separator (stepLines [] false steps) with
        | none =>
          rw [more] at is
          cases is
          simpa using chain
        | some after =>
          rw [more] at is
          cases is
          have chain' : List.IsChain Link (.space separator :: after) :=
            List.isChain_cons.mpr ⟨fun _ _ isToken => absurd isToken Bool.false_ne_true,rest after more⟩
          refine List.isChain_append.mpr ⟨chain,chain',fun x last y first => ?_⟩
          obtain rfl : Item.space separator = y := Option.some.inj first
          exact (joins x last _ rfl).space ordinary space
      · exact rest found is
    | touch => exact ih linked chain joins
    | copied item =>
      refine ih linked.2 ?_ ?_
      · refine List.isChain_append.mpr ⟨chain,List.isChain_singleton item,fun x last y first => ?_⟩
        obtain rfl : item = y := Option.some.inj first
        exact joins x last _ rfl
      · intro x last y next
        rw [List.getLast?_concat] at last
        obtain rfl : item = x := Option.some.inj last
        exact linked.1 y next

-- What the lexer makes of items that are read apart.
structure Separate (found : List Item) : Prop where
  alone : ∀ x ∈ found,x.isToken → readItem x.text = some (x,[])
  spaces : ∀ x ∈ found,x.isToken = false → ∃ c,x = .space c ∧ isSpace c
  chain : List.IsChain Link found

theorem Separate.present {found : List Item} (separate : Separate found) {x : Item} (member : x ∈ found) :
    x.text ≠ [] := by
  cases isToken : x.isToken with
  | true => exact (readItem_splits (separate.alone x member isToken)).2
  | false =>
    obtain ⟨c,rfl,-⟩ := separate.spaces x member isToken
    exact List.cons_ne_nil _ _

theorem Separate.genuine (ordinary : OrdinaryCharacters) {found : List Item} (separate : Separate found) :
    sqlLexer.Genuine found := by
  induction found with
  | nil => trivial
  | cons x found ih =>
    obtain ⟨here,later⟩ := List.isChain_cons.mp separate.chain
    refine ⟨?_,ih ⟨fun y member => separate.alone y (List.mem_cons_of_mem _ member),
      fun y member => separate.spaces y (List.mem_cons_of_mem _ member),later⟩⟩
    cases isToken : x.isToken with
    | false =>
      obtain ⟨c,rfl,space⟩ := separate.spaces x List.mem_cons_self isToken
      exact readItem_space space
    | true =>
      have alone := separate.alone x List.mem_cons_self isToken
      cases found with
      | nil =>
        rw [sqlLexer.spelled_nil,List.append_nil]
        exact alone
      | cons y found =>
        have link := here y rfl isToken
        rw [sqlLexer.spelled_cons]
        have present := separate.present (List.mem_cons_of_mem _ List.mem_cons_self)
        obtain ⟨c,cs,is⟩ := List.exists_cons_of_ne_nil present
        refine readItem_replaces ordinary isToken link ?_
        change Replaces y.text (y.text ++ sqlLexer.spelled found)
        rw [is,List.cons_append]
        refine .alike rfl fun opened => ?_
        rw [←List.cons_append]
        exact opens_append ordinary opened _

theorem Separate.within {found found' : List Item} (separate : Separate found) (inside : found' <:+: found) :
    Separate found' := by
  refine ⟨fun x member => separate.alone x (inside.subset member),
    fun x member => separate.spaces x (inside.subset member),?_⟩
  obtain ⟨before,after,rfl⟩ := inside
  exact separate.chain.left_of_append.right_of_append

end Lines

-- Trimming a text is trimming its items.
section Trim
variable [CaseMap]

theorem trimStart_spelled {p : Char → Bool} {q : Item → Bool} {found : List Item}
    (trimmed : ∀ x ∈ found,q x → ∃ c,x.text = [c] ∧ p c)
    (stays : ∀ x ∈ found,q x = false → ∃ c cs,x.text = c :: cs ∧ p c = false) :
    (sqlLexer.spelled found).dropWhile p = sqlLexer.spelled (found.dropWhile q) := by
  induction found with
  | nil => rfl
  | cons x found ih =>
    have rest := ih (fun y member => trimmed y (List.mem_cons_of_mem _ member))
      fun y member => stays y (List.mem_cons_of_mem _ member)
    have text : sqlLexer.text x = x.text := rfl
    rw [sqlLexer.spelled_cons,text]
    cases goes : q x with
    | true =>
      obtain ⟨c,is,holds⟩ := trimmed x List.mem_cons_self goes
      rw [is,List.dropWhile_cons_of_pos goes,←rest,List.singleton_append,List.dropWhile_cons_of_pos holds]
    | false =>
      obtain ⟨c,cs,is,fails⟩ := stays x List.mem_cons_self goes
      have goes' : ¬q x := by simp [goes]
      have fails' : ¬p c := by simp [fails]
      rw [is,List.dropWhile_cons_of_neg goes',List.cons_append,List.dropWhile_cons_of_neg fails',
        sqlLexer.spelled_cons,text,is,List.cons_append]

theorem trimEnd_spelled {p : Char → Bool} {q : Item → Bool} {found : List Item}
    (trimmed : ∀ x ∈ found,q x → ∃ c,x.text = [c] ∧ p c)
    (stays : ∀ x ∈ found,q x = false → ∃ c cs,x.text = cs ++ [c] ∧ p c = false) :
    ((sqlLexer.spelled found).reverse.dropWhile p).reverse =
      sqlLexer.spelled (found.reverse.dropWhile q).reverse := by
  induction found using List.reverseRecOn with
  | nil => rfl
  | append_singleton found x ih =>
    have rest := ih (fun y member => trimmed y (List.mem_append_left _ member))
      fun y member => stays y (List.mem_append_left _ member)
    have last : x ∈ found ++ [x] := List.mem_append_right _ List.mem_cons_self
    rw [←spelled_snoc,List.reverse_append,List.reverse_append,List.reverse_singleton,List.singleton_append]
    cases goes : q x with
    | true =>
      obtain ⟨c,is,holds⟩ := trimmed x last goes
      rw [is,List.dropWhile_cons_of_pos goes,←rest,List.reverse_singleton,List.singleton_append,
        List.dropWhile_cons_of_pos holds]
    | false =>
      obtain ⟨c,cs,is,fails⟩ := stays x last goes
      have goes' : ¬q x := by simp [goes]
      have fails' : ¬p c := by simp [fails]
      rw [is,List.dropWhile_cons_of_neg goes',List.reverse_append,List.reverse_singleton,List.singleton_append,
        List.cons_append,List.dropWhile_cons_of_neg fails']
      rw [List.reverse_cons,List.reverse_cons,List.reverse_append,List.reverse_reverse,List.reverse_reverse,
        List.reverse_reverse,←spelled_snoc,is,List.append_assoc]

def Item.blank (x : Item) : Bool := !x.isToken
def Item.semicolon (x : Item) : Bool := x = .single ';'

omit [CaseMap] in
theorem filter_dropWhile_blank (found : List Item) :
    (found.dropWhile Item.blank).filter Item.isToken = found.filter Item.isToken := by
  induction found with
  | nil => rfl
  | cons x found ih =>
    cases isToken : x.isToken with
    | true => simp [Item.blank,isToken]
    | false => simpa [Item.blank,isToken] using ih

-- A token ends with no white space, and with a semicolon only if it is one.
structure EndsWell (t : Item) : Prop where
  solid : Solid t.text
  semicolon : t.semicolon = false → ∃ c cs,t.text = cs ++ [c] ∧ c ≠ ';'

omit [CaseMap] in
theorem prefix_trimEnd {α : Type} (q : α → Bool) (found : List α) : (found.reverse.dropWhile q).reverse <+: found := by
  rw [←List.reverse_suffix,List.reverse_reverse]
  exact List.dropWhile_suffix q

theorem trimChars_spelled {found : List Item} (separate : Separate found)
    (ends : ∀ t ∈ found,t.isToken → EndsWell t) : ∃ found',trimChars (sqlLexer.spelled found) = sqlLexer.spelled found' ∧
      found' <:+: found ∧ found'.filter Item.isToken = found.filter Item.isToken := by
  have blank : ∀ x ∈ found,x.blank → ∃ c,x.text = [c] ∧ isSpace c := by
    intro x member isBlank
    obtain ⟨c,rfl,space⟩ := separate.spaces x member (by simpa [Item.blank] using isBlank)
    exact ⟨c,rfl,space⟩
  have solid : ∀ x ∈ found,x.blank = false → Solid x.text := by
    intro x member isToken
    exact (ends x member (by simpa [Item.blank] using isToken)).solid
  have started := trimStart_spelled blank fun x member stays => (solid x member stays).first
  have suffix := List.dropWhile_suffix (l := found) Item.blank
  have ended := trimEnd_spelled (fun x member => blank x (suffix.subset member))
    fun x member stays => (solid x (suffix.subset member) stays).last
  refine ⟨((found.dropWhile Item.blank).reverse.dropWhile Item.blank).reverse,?_,?_,?_⟩
  · rw [trimChars,started,ended]
  · exact (prefix_trimEnd _ _).isInfix.trans suffix.isInfix
  · rw [List.filter_reverse,filter_dropWhile_blank,List.filter_reverse,List.reverse_reverse,filter_dropWhile_blank]

theorem trimSemicolons_spelled {found : List Item} (separate : Separate found)
    (ends : ∀ t ∈ found,t.isToken → EndsWell t) :
    ∃ found' k,trimEndMatches ';' (sqlLexer.spelled found) = sqlLexer.spelled found' ∧ found' <:+: found ∧
      found.filter Item.isToken = found'.filter Item.isToken ++ List.replicate k (.single ';') := by
  have goes : ∀ x ∈ found,x.semicolon → ∃ c,x.text = [c] ∧ decide (c = ';') := by
    intro x member semicolon
    have is : x = .single ';' := by simpa [Item.semicolon] using semicolon
    exact ⟨';',by rw [is]; rfl,by decide⟩
  have stays : ∀ x ∈ found,x.semicolon = false → ∃ c cs,x.text = cs ++ [c] ∧ decide (c = ';') = false := by
    intro x member other
    cases isToken : x.isToken with
    | true =>
      obtain ⟨c,cs,is,differs⟩ := (ends x member isToken).semicolon other
      exact ⟨c,cs,is,by simpa using differs⟩
    | false =>
      obtain ⟨c,rfl,space⟩ := separate.spaces x member isToken
      refine ⟨c,[],rfl,?_⟩
      by_contra same
      have semicolon : c = ';' := by simpa using same
      subst semicolon
      revert space
      decide
  have ended := trimEnd_spelled goes stays
  refine ⟨(found.reverse.dropWhile Item.semicolon).reverse,(found.reverse.takeWhile Item.semicolon).length,ended,
    (prefix_trimEnd _ _).isInfix,?_⟩
  have whole : found = (found.reverse.dropWhile Item.semicolon).reverse ++
      (found.reverse.takeWhile Item.semicolon).reverse := by
    rw [←List.reverse_append,List.takeWhile_append_dropWhile,List.reverse_reverse]
  have semicolons : found.reverse.takeWhile Item.semicolon =
      List.replicate (found.reverse.takeWhile Item.semicolon).length (.single ';') := by
    refine List.eq_replicate_iff.mpr ⟨rfl,fun x member => ?_⟩
    simpa [Item.semicolon] using List.all_eq_true.mp List.all_takeWhile x member
  conv_lhs => rw [whole,semicolons]
  rw [List.filter_append,List.reverse_replicate]
  congr 1
  exact List.filter_eq_self.mpr fun x member => by rw [List.eq_of_mem_replicate member]; rfl

theorem finishSql_spelled {found : List Item} (separate : Separate found)
    (ends : ∀ t ∈ found,t.isToken → EndsWell t) :
    ∃ found' k,finishSql (sqlLexer.spelled found) = sqlLexer.spelled found' ∧ found' <:+: found ∧
      found.filter Item.isToken = found'.filter Item.isToken ++ List.replicate k (.single ';') := by
  obtain ⟨first,trimmed,inside,same⟩ := trimChars_spelled separate ends
  have ends' : ∀ t ∈ first,t.isToken → EndsWell t := fun t member => ends t (inside.subset member)
  obtain ⟨second,k,stripped,inside',less⟩ := trimSemicolons_spelled (separate.within inside) ends'
  have ends'' : ∀ t ∈ second,t.isToken → EndsWell t := fun t member => ends' t (inside'.subset member)
  obtain ⟨third,trimmed',inside'',same'⟩ := trimChars_spelled ((separate.within inside).within inside') ends''
  refine ⟨third,k,?_,(inside''.trans inside').trans inside,?_⟩
  · rw [finishSql,trimmed,stripped,trimmed']
  · rw [←same,less,same']

end Trim
end Scythe
