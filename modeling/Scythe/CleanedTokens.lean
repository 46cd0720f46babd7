import Scythe.Cleaning

-- Cleaning keeps the tokens of a statement in their order, but for semicolons at its
-- end: first for the line ends that it normalizes, then for the comments it removes.
namespace Scythe
open Text

theorem normalized_cons (c : Char) (cs : List Char) :
    normalized (c :: cs) = if c = '\r' ∧ cs.head? = some '\n' then normalized cs else c :: normalized cs := by
  cases cs with
  | nil => simp [normalized]
  | cons d cs =>
    have newline : normalized ('\n' :: cs) = '\n' :: normalized cs := by
      cases cs with
      | nil => rfl
      | cons e cs => simp [normalized]
    rw [normalized]
    by_cases pair : c = '\r' ∧ d = '\n'
    · rw [if_pos pair,if_pos (by simpa using pair),pair.2,newline]
    · rw [if_neg pair,if_neg (by simpa using pair)]

theorem normalized_other {c : Char} (other : c ≠ '\r') (cs : List Char) : normalized (c :: cs) = c :: normalized cs := by
  rw [normalized_cons,if_neg fun pair => other pair.1]

theorem normalized_append {text rest : List Char} (apart : text.getLast? ≠ some '\r' ∨ rest.head? ≠ some '\n') :
    normalized (text ++ rest) = normalized text ++ normalized rest := by
  induction text with
  | nil => rfl
  | cons c text ih =>
    rw [List.cons_append,normalized_cons,normalized_cons]
    cases text with
    | nil =>
      simp only [List.nil_append,List.head?_nil,reduceCtorEq,and_false,if_false]
      have notPair : ¬(c = '\r' ∧ rest.head? = some '\n') := by
        rintro ⟨rfl,head⟩
        rcases apart with last | first
        · exact last rfl
        · exact first head
      rw [if_neg notPair]
      rfl
    | cons d text =>
      have rest' := ih (by simpa using apart)
      rw [rest']
      by_cases pair : c = '\r' ∧ d = '\n'
      · simp [pair]
      · simp [pair]

theorem normalized_same {text : List Char} (absent : ¬['\r','\n'] <:+: text) : normalized text = text := by
  induction text with
  | nil => rfl
  | cons c text ih =>
    rw [normalized_cons,ih fun inside => absent (inside.trans (List.suffix_cons c text).isInfix)]
    refine if_neg ?_
    rintro ⟨rfl,head⟩
    obtain ⟨cs,rfl⟩ := List.head?_eq_some_iff.mp head
    exact absent ⟨[],cs,rfl⟩

def normalizedBefore (text rest : List Char) : List Char :=
  if text.getLast? = some '\r' ∧ rest.head? = some '\n' then normalized text.dropLast else normalized text

theorem normalizedBefore_append (text rest : List Char) :
    normalizedBefore text rest ++ normalized rest = normalized (text ++ rest) := by
  unfold normalizedBefore
  split
  · rename_i pair
    obtain ⟨last,head⟩ := pair
    obtain ⟨before,is⟩ := List.getLast?_eq_some_iff.mp last
    have notNewline : ('\r' :: rest).head? ≠ some '\n' := by simp
    rw [is,List.dropLast_concat,List.append_assoc,List.singleton_append,normalized_append (Or.inr notNewline),
      normalized_cons,if_pos ⟨rfl,head⟩]
  · rename_i apart
    rw [normalized_append (not_and_or.mp apart)]

theorem mem_normalized {text : List Char} : '\n' ∈ normalized text ↔ '\n' ∈ text := by
  induction text with
  | nil => rfl
  | cons c text ih =>
    rw [normalized_cons]
    split
    · rename_i pair
      rw [ih,pair.1]
      simp
    · simp [ih]

theorem mem_normalizedBefore {text rest : List Char} : '\n' ∈ normalizedBefore text rest ↔ '\n' ∈ text := by
  unfold normalizedBefore
  split
  · rename_i pair
    obtain ⟨before,is⟩ := List.getLast?_eq_some_iff.mp pair.1
    rw [mem_normalized,is,List.dropLast_concat]
    simp
  · exact mem_normalized

theorem normalized_head {cs : List Char} {c : Char} (head : (normalized cs).head? = some c) (other : c ≠ '\n') :
    cs.head? = some c := by
  induction cs with
  | nil => cases head
  | cons d cs ih =>
    rw [normalized_cons] at head
    split at head
    · rename_i pair
      exact absurd (Option.some.inj ((ih head).symm.trans pair.2)) other
    · exact head

theorem block_other {depth : Nat} {c : Char} {cs : List Char} (notOpen : ¬(c = '/' ∧ cs.head? = some '*'))
    (notClose : ¬(c = '*' ∧ cs.head? = some '/')) :
    Scanner.block (depth + 1) (c :: cs) =
      (c :: (Scanner.block (depth + 1) cs).1,(Scanner.block (depth + 1) cs).2) := by
  rw [Scanner.block]
  · rintro cs' rfl rfl
    exact notOpen ⟨rfl,rfl⟩
  · rintro cs' rfl rfl
    exact notClose ⟨rfl,rfl⟩

-- A line end is normalized in the same way inside a comment.
theorem block_normalized (depth : Nat) (cs : List Char) :
    Scanner.block depth (normalized cs) =
      (normalized (Scanner.block depth cs).1,normalized (Scanner.block depth cs).2) := by
  fun_induction Scanner.block depth cs with
  | case1 cs => simp [Scanner.block,normalized]
  | case2 depth => simp [Scanner.block,normalized]
  | case3 depth cs text rest is ih =>
    rw [is] at ih
    have slash : ('/' : Char) ≠ '\r' := by decide
    have star : ('*' : Char) ≠ '\r' := by decide
    rw [normalized_other slash,normalized_other star,Scanner.block,ih,normalized_other slash,normalized_other star]
  | case4 depth cs text rest is ih =>
    rw [is] at ih
    have slash : ('/' : Char) ≠ '\r' := by decide
    have star : ('*' : Char) ≠ '\r' := by decide
    rw [normalized_other star,normalized_other slash,Scanner.block,ih,normalized_other star,normalized_other slash]
  | case5 depth c cs notOpen notClose text rest is ih =>
    rw [is] at ih
    have opening : ∀ d,d ≠ '\n' → (normalized cs).head? = some d → cs.head? = some d :=
      fun d other head => normalized_head head other
    have notOpen' : ¬(c = '/' ∧ (normalized cs).head? = some '*') := by
      rintro ⟨same,head⟩
      obtain ⟨cs',more⟩ := List.head?_eq_some_iff.mp (opening '*' (by decide) head)
      exact notOpen cs' same more
    have notClose' : ¬(c = '*' ∧ (normalized cs).head? = some '/') := by
      rintro ⟨same,head⟩
      obtain ⟨cs',more⟩ := List.head?_eq_some_iff.mp (opening '/' (by decide) head)
      exact notClose cs' same more
    have whole := Scanner.block_append (depth + 1) cs
    rw [is] at whole
    rw [normalized_cons c cs,normalized_cons c text]
    by_cases pair : c = '\r' ∧ cs.head? = some '\n'
    · obtain ⟨cs',more⟩ := List.head?_eq_some_iff.mp pair.2
      have taken : text.head? = some '\n' := by
        rw [more,block_other (by simp) (by simp)] at is
        rw [←(Prod.mk.inj is).1]
        rfl
      rw [if_pos pair,if_pos ⟨pair.1,taken⟩,ih]
    · have apart : ¬(c = '\r' ∧ text.head? = some '\n') := by
        rintro ⟨same,head⟩
        refine pair ⟨same,?_⟩
        obtain ⟨text',more⟩ := List.head?_eq_some_iff.mp head
        rw [←whole,more]
        rfl
      rw [if_neg pair,if_neg apart,block_other notOpen' notClose',ih]

section Normalize
variable [CaseMap]

def normalizedItems : List Item → List Item
  | [] => []
  | .space c :: found =>
    if c = '\r' ∧ (sqlLexer.spelled found).head? = some '\n' then normalizedItems found
    else .space c :: normalizedItems found
  | .comment text :: found => .comment (normalizedBefore text (sqlLexer.spelled found)) :: normalizedItems found
  | item :: found => item :: normalizedItems found

-- A token keeps its text through line end normalization.
def Plain (text : List Char) : Prop := ¬['\r','\n'] <:+: text ∧ text.getLast? ≠ some '\r'

omit [CaseMap] in
theorem Plain.normalized {text : List Char} (plain : Plain text) (rest : List Char) :
    Scythe.normalized (text ++ rest) = text ++ Scythe.normalized rest := by
  rw [normalized_append (Or.inl plain.2),normalized_same plain.1]

theorem spelled_normalizedItems {found : List Item} (plain : ∀ t ∈ found,t.isToken → Plain t.text) :
    sqlLexer.spelled (normalizedItems found) = normalized (sqlLexer.spelled found) := by
  induction found with
  | nil => rfl
  | cons item found ih =>
    have rest := ih fun t member => plain t (List.mem_cons_of_mem _ member)
    have token : item.isToken → sqlLexer.spelled (item :: normalizedItems found) =
        normalized (sqlLexer.spelled (item :: found)) := by
      intro isToken
      rw [sqlLexer.spelled_cons,sqlLexer.spelled_cons,rest]
      exact ((plain item List.mem_cons_self isToken).normalized _).symm
    cases item with
    | space c =>
      have spelled : sqlLexer.spelled (.space c :: found) = c :: sqlLexer.spelled found := rfl
      rw [spelled,normalized_cons,normalizedItems]
      split
      · exact rest
      · rw [sqlLexer.spelled_cons,rest]
        rfl
    | comment text =>
      rw [normalizedItems,sqlLexer.spelled_cons,sqlLexer.spelled_cons,rest]
      exact normalizedBefore_append _ _
    | quoted kind text => exact token rfl
    | run k text => exact token rfl
    | single c => exact token rfl

theorem opens_normalized (ordinary : OrdinaryCharacters) {c : Char} {cs : List Char} (opened : opens (c :: cs)) :
    opens (c :: normalized cs) := by
  have head : ∀ {d : Char},d ≠ '\r' → cs.head? = some d → (normalized cs).head? = some d := by
    intro d other is
    obtain ⟨cs',rfl⟩ := List.head?_eq_some_iff.mp is
    rw [normalized_other other]
    rfl
  rcases opens_cons.mp opened with ⟨is,next⟩ | ⟨is,next⟩ | is | is | ⟨is,dollar⟩
  · exact opens_cons.mpr (Or.inl ⟨is,head (by decide) next⟩)
  · exact opens_cons.mpr (Or.inr (Or.inl ⟨is,head (by decide) next⟩))
  · exact opens_cons.mpr (by simp [is])
  · exact opens_cons.mpr (by simp [is])
  · refine opens_cons.mpr (Or.inr (Or.inr (Or.inr (Or.inr ⟨is,?_⟩))))
    rw [matchDollarQuoteOpen_isSome ordinary] at dollar ⊢
    rcases dollar with next | ⟨first,tag,rest,rfl,tags,notDigit⟩
    · exact Or.inl (head (by decide) next)
    · refine Or.inr ⟨first,tag,normalized rest,?_,tags,notDigit⟩
      have notReturn : '\r' ∉ first :: tag := fun member => ordinary.tag_ne (tags _ member) (Or.inl (by decide)) rfl
      have plain : Plain (first :: tag) :=
        ⟨fun inside => notReturn (inside.subset List.mem_cons_self),fun last => notReturn (List.mem_of_getLast? last)⟩
      rw [plain.normalized,normalized_other (by decide)]

theorem replaces_normalized (ordinary : OrdinaryCharacters) (rest : List Char) : Replaces rest (normalized rest) := by
  cases rest with
  | nil => exact .none
  | cons c cs =>
    rw [normalized_cons]
    split
    · rename_i pair
      obtain ⟨cs',rfl⟩ := List.head?_eq_some_iff.mp pair.2
      rw [normalized_other (by decide)]
      exact .space (List.cons_ne_nil _ _) (by decide)
    · exact .alike rfl (opens_normalized ordinary)

-- A comment that a reading takes: to the end of its line, or to its own end.
inductive CommentText (rest : List Char) : List Char → Prop where
  | line {body : List Char} : Scanner.line (body ++ rest) = (body,rest) → CommentText rest ('-' :: '-' :: body)
  | block {body : List Char} : Scanner.block 1 (body ++ rest) = (body,rest) → CommentText rest ('/' :: '*' :: body)

theorem CommentText.read {text rest : List Char} (is : CommentText rest text) :
    readItem (text ++ rest) = some (.comment text,rest) := by
  cases is with
  | line inner => simp [readItem,readSpan,spanOf,inner,SqlSpanKind.isComment]
  | block inner => simp [readItem,readSpan,spanOf,inner,SqlSpanKind.isComment]

theorem readItem_comment {cs text rest : List Char} (is : readItem cs = some (.comment text,rest)) :
    CommentText rest text := by
  have opened : opens cs := by
    by_contra closed
    cases cs with
    | nil => cases is
    | cons c cs =>
      rw [readItem_closed (by simpa using closed)] at is
      split at is
      · cases is
      · cases is
      · cases is
  cases cs with
  | nil => cases is
  | cons c cs =>
    obtain ⟨⟨kind,text',rest'⟩,found⟩ := Option.isSome_iff_exists.mp opened
    rw [readItem,found] at is
    have comment : kind.isComment := by
      by_contra quoted
      simp [quoted] at is
    simp only [comment,if_true,Option.some.injEq,Prod.mk.injEq,Item.comment.injEq] at is
    obtain ⟨rfl,rfl⟩ := is
    unfold readSpan at found
    split at found
    · rename_i inner _
      have whole := congrArg Scanner.line (Scanner.line_append inner)
      cases found
      exact .line whole
    · rename_i inner _
      have whole := congrArg (Scanner.block 1) (Scanner.block_append 1 inner)
      cases found
      exact .block whole
    · cases found
      cases comment
    · cases found
      cases comment
    · obtain ⟨_,-,spanned⟩ := Option.bind_eq_some_iff.mp found
      cases spanned
      cases comment
    · simp at found
    · cases found

omit [CaseMap] in
theorem line_iff {body rest : List Char} :
    Scanner.line (body ++ rest) = (body,rest) ↔ '\n' ∉ body ∧ ∀ c ∈ rest.head?,c = '\n' := by
  unfold Scanner.line
  constructor
  · intro is
    obtain ⟨taken,left⟩ := Prod.mk.inj is
    constructor
    · intro member
      rw [←taken] at member
      simpa using List.all_eq_true.mp List.all_takeWhile _ member
    · intro c head
      rw [←left] at head
      have stopped := List.head?_dropWhile_not (fun c => decide (c ≠ '\n')) (body ++ rest)
      rw [head] at stopped
      simpa using stopped
  · rintro ⟨absent,head⟩
    have all : ∀ c ∈ body,decide (c ≠ '\n') = true := by
      intro c member
      have other : c ≠ '\n' := fun same => absent (same ▸ member)
      simpa using other
    rw [List.takeWhile_append_of_pos all,List.dropWhile_append_of_pos all]
    cases rest with
    | nil => simp
    | cons c rest =>
      rw [head c rfl]
      simp

theorem comment_normalized {text rest : List Char} (is : readItem (text ++ rest) = some (.comment text,rest)) :
    readItem (normalizedBefore text rest ++ normalized rest) =
      some (.comment (normalizedBefore text rest),normalized rest) := by
  have dash : ('-' : Char) ≠ '\r' := by decide
  have slash : ('/' : Char) ≠ '\r' := by decide
  have star : ('*' : Char) ≠ '\r' := by decide
  have whole := normalizedBefore_append text rest
  refine CommentText.read ?_
  cases readItem_comment is with
  | @line body inner =>
    obtain ⟨absent,head⟩ := line_iff.mp inner
    rw [List.cons_append,List.cons_append,normalized_other dash,normalized_other dash,
      ←normalizedBefore_append body] at whole
    have same : normalizedBefore ('-' :: '-' :: body) rest = '-' :: '-' :: normalizedBefore body rest :=
      List.append_cancel_right whole
    rw [same]
    refine .line (line_iff.mpr ⟨fun member => absent (mem_normalizedBefore.mp member),?_⟩)
    cases rest with
    | nil => exact head
    | cons c rest =>
      obtain rfl : c = '\n' := head c rfl
      rw [normalized_other (by decide)]
      exact head
  | @block body inner =>
    have parts := block_normalized 1 (body ++ rest)
    rw [inner] at parts
    have joined := Scanner.block_append 1 (normalized (body ++ rest))
    rw [parts] at joined
    rw [List.cons_append,List.cons_append,normalized_other slash,normalized_other star,←joined] at whole
    have same : normalizedBefore ('/' :: '*' :: body) rest = '/' :: '*' :: normalized body :=
      List.append_cancel_right whole
    rw [same]
    refine .block ?_
    rw [joined,parts]

theorem genuine_normalizedItems (ordinary : OrdinaryCharacters) {found : List Item}
    (genuine : sqlLexer.Genuine found) (plain : ∀ t ∈ found,t.isToken → Plain t.text) :
    sqlLexer.Genuine (normalizedItems found) := by
  induction found with
  | nil => trivial
  | cons item found ih =>
    have plain' : ∀ t ∈ found,t.isToken → Plain t.text := fun t member => plain t (List.mem_cons_of_mem _ member)
    have rest := ih genuine.2 plain'
    have spelled := spelled_normalizedItems plain'
    have token : item.isToken → sqlLexer.Genuine (item :: normalizedItems found) := by
      intro isToken
      refine ⟨?_,rest⟩
      rw [spelled]
      exact readItem_replaces ordinary isToken genuine.1 (replaces_normalized ordinary _)
    cases item with
    | space c =>
      rw [normalizedItems]
      split
      · exact rest
      · have is : readItem (c :: sqlLexer.spelled found) = some (.space c,sqlLexer.spelled found) := genuine.1
        exact ⟨readItem_space (isSpace_of_readItem is),rest⟩
    | comment text =>
      refine ⟨?_,rest⟩
      rw [spelled]
      exact comment_normalized genuine.1
    | quoted kind text => exact token rfl
    | run k text => exact token rfl
    | single c => exact token rfl

-- The items of a text with normalized line ends.
theorem items_normalized (ordinary : OrdinaryCharacters) {cs : List Char}
    (plain : ∀ t ∈ sqlLexer.items cs,t.isToken → Plain t.text) :
    sqlLexer.items (normalized cs) = normalizedItems (sqlLexer.items cs) := by
  have spelled := spelled_normalizedItems plain
  rw [sqlLexer.spelled_items] at spelled
  rw [←spelled]
  exact sqlLexer.items_of_genuine (genuine_normalizedItems ordinary (sqlLexer.items_genuine cs) plain)

omit [CaseMap] in
theorem nextItem_comment (text : List Char) (steps : List CleanStep) :
    nextItem ((Item.comment text).steps ++ steps) =
      if '\n' ∈ text then some (.space '\n') else nextItem steps := by
  simp only [Item.steps]
  induction text with
  | nil => rfl
  | cons ch text ih =>
    by_cases newline : ch = '\n'
    · simp [newline,nextItem]
    · have other : '\n' ≠ ch := Ne.symm newline
      simp [newline,other,nextItem,ih]

theorem linked_comment (text : List Char) {steps : List CleanStep} :
    Linked ((Item.comment text).steps ++ steps) ↔ Linked steps := by
  simp only [Item.steps]
  induction text with
  | nil => rfl
  | cons ch text ih =>
    by_cases newline : ch = '\n'
    · simp [newline,Linked,ih]
    · simp [newline,Linked,ih]

theorem linked_space (c : Char) {steps : List CleanStep} : Linked ((Item.space c).steps ++ steps) ↔ Linked steps := by
  simp only [Item.steps]
  by_cases newline : c = '\n'
  · simp [newline,Linked]
  · simp only [newline,if_false,List.singleton_append,Linked,and_iff_right_iff_imp]
    intro _ y _ isToken
    cases isToken

theorem tokens_normalizedItems (found : List Item) :
    (normalizedItems found).filter Item.isToken = found.filter Item.isToken := by
  induction found with
  | nil => rfl
  | cons item found ih =>
    cases item with
    | space c =>
      rw [normalizedItems]
      split
      · exact ih
      · exact ih
    | comment text => exact ih
    | quoted kind text => exact congrArg (Item.quoted kind text :: ·) ih
    | run k text => exact congrArg (Item.run k text :: ·) ih
    | single c => exact congrArg (Item.single c :: ·) ih

-- What comes next is the same once line ends are normalized, or white space all the same.
def Alike (y y' : Item) : Prop := y = y' ∨ ∃ c d,y = .space c ∧ y' = .space d ∧ isSpace d

theorem genuine_newline {found : List Item} (genuine : sqlLexer.Genuine found)
    (head : (sqlLexer.spelled found).head? = some '\n') : ∃ found',found = .space '\n' :: found' := by
  cases found with
  | nil => cases head
  | cons item found =>
    obtain ⟨cs,spelled⟩ := List.head?_eq_some_iff.mp head
    have read : readItem (sqlLexer.spelled (item :: found)) = some (item,sqlLexer.spelled found) := genuine.1
    rw [spelled,readItem_space (by decide)] at read
    obtain ⟨rfl,-⟩ := Prod.mk.inj (Option.some.inj read)
    exact ⟨found,rfl⟩

theorem nextItem_normalizedItems {found : List Item} (genuine : sqlLexer.Genuine found) :
    ∀ y' ∈ nextItem ((normalizedItems found).flatMap Item.steps),
      ∃ y ∈ nextItem (found.flatMap Item.steps),Alike y y' := by
  induction found with
  | nil =>
    intro y' next
    cases next
  | cons item found ih =>
    cases item with
    | space c =>
      intro y' next
      rw [normalizedItems] at next
      split at next
      · rename_i pair
        obtain ⟨found',rfl⟩ := genuine_newline genuine.2 pair.2
        obtain ⟨rfl,-⟩ := pair
        rw [normalizedItems,if_neg (by simp)] at next
        obtain rfl : Item.space '\n' = y' := Option.some.inj next
        exact ⟨.space '\r',rfl,Or.inr ⟨'\r','\n',rfl,rfl,by decide⟩⟩
      · by_cases newline : c = '\n'
        · subst newline
          exact ⟨y',next,Or.inl rfl⟩
        · refine ⟨y',?_,Or.inl rfl⟩
          rw [List.flatMap_cons,Item.steps,if_neg newline] at next ⊢
          exact next
    | comment text =>
      intro y' next
      rw [normalizedItems,List.flatMap_cons,nextItem_comment] at next
      rw [List.flatMap_cons,nextItem_comment]
      by_cases breaks : '\n' ∈ text
      · rw [if_pos (mem_normalizedBefore.mpr breaks)] at next
        rw [if_pos breaks]
        exact ⟨y',next,Or.inl rfl⟩
      · rw [if_neg fun member => breaks (mem_normalizedBefore.mp member)] at next
        rw [if_neg breaks]
        exact ih genuine.2 y' next
    | quoted kind text => exact fun y' next => ⟨y',next,Or.inl rfl⟩
    | run k text => exact fun y' next => ⟨y',next,Or.inl rfl⟩
    | single c => exact fun y' next => ⟨y',next,Or.inl rfl⟩

theorem linked_normalizedItems (ordinary : OrdinaryCharacters) {found : List Item} (genuine : sqlLexer.Genuine found)
    (linked : Linked (found.flatMap Item.steps)) : Linked ((normalizedItems found).flatMap Item.steps) := by
  induction found with
  | nil => trivial
  | cons item found ih =>
    have next := nextItem_normalizedItems genuine.2
    have token : (∀ y ∈ nextItem (found.flatMap Item.steps),Link item y) ∧ Linked (found.flatMap Item.steps) →
        Linked (.copied item :: (normalizedItems found).flatMap Item.steps) := by
      rintro ⟨here,later⟩
      refine ⟨fun y' next' => ?_,ih genuine.2 later⟩
      obtain ⟨y,is,alike⟩ := next y' next'
      rcases alike with rfl | ⟨c,d,rfl,rfl,space⟩
      · exact here y is
      · exact (here _ is).space ordinary space
    cases item with
    | space c =>
      have later := (linked_space c).mp linked
      rw [normalizedItems]
      split
      · exact ih genuine.2 later
      · exact (linked_space c).mpr (ih genuine.2 later)
    | comment text =>
      have later := (linked_comment text).mp linked
      exact (linked_comment _).mpr (ih genuine.2 later)
    | quoted kind text => exact token linked
    | run k text => exact token linked
    | single c => exact token linked

-- The token that nothing but comments without a line break stand before.
def nextToken : List Item → Option Item
  | [] => none
  | .comment text :: found => if '\n' ∈ text then none else nextToken found
  | item :: _ => if item.isToken then some item else none

-- Tokens with nothing but such comments between them are read as they are when written
-- together. Of tokens that stand side by side it holds at all times.
def apart : List Item → Bool
  | [] => true
  | t :: found =>
    (match nextToken found with
      | some t' => !t.isToken || sqlLexer.items (t.text ++ t'.text) = [t,t']
      | none => true) && apart found

-- A quoted text comes whole through line end normalization, through joining the lines,
-- and, if it is left open at the end, through trimming.
def Item.comesThrough (oneline : Bool) : Item → Bool
  | .quoted _ text =>
    !decide (['\r','\n'] <:+: text) && !(oneline && '\n' ∈ text) &&
      text.getLast?.all fun c => !isSpace c && c ≠ ';'
  | _ => true

structure Cleanable (oneline : Bool) (found : List Item) : Prop where
  apart : apart found
  quoted : ∀ item ∈ found,item.comesThrough oneline

omit [CaseMap] in
theorem nextItem_token {found : List Item} {y : Item} (next : y ∈ nextItem (found.flatMap Item.steps))
    (isToken : y.isToken) : nextToken found = some y := by
  induction found with
  | nil => cases next
  | cons item found ih =>
    cases item with
    | space c =>
      rw [List.flatMap_cons,Item.steps] at next
      split at next
      · obtain rfl : Item.space '\n' = y := Option.some.inj next
        cases isToken
      · obtain rfl : Item.space c = y := Option.some.inj next
        cases isToken
    | comment text =>
      rw [List.flatMap_cons,nextItem_comment] at next
      rw [nextToken]
      split at next
      · obtain rfl : Item.space '\n' = y := Option.some.inj next
        cases isToken
      · rename_i inline
        rw [if_neg inline,ih next]
    | quoted kind text => exact next
    | run k text => exact next
    | single c => exact next

theorem nextItem_space {found : List Item} {y : Item} (genuine : sqlLexer.Genuine found)
    (next : y ∈ nextItem (found.flatMap Item.steps)) (notToken : y.isToken = false) :
    ∃ c,y = .space c ∧ isSpace c := by
  induction found with
  | nil => cases next
  | cons item found ih =>
    have newline : ∀ {y : Item},Item.space '\n' = y → ∃ c,y = .space c ∧ isSpace c := by
      rintro y rfl
      exact ⟨'\n',rfl,by decide⟩
    cases item with
    | space c =>
      rw [List.flatMap_cons,Item.steps] at next
      split at next
      · exact newline (Option.some.inj next)
      · obtain rfl : Item.space c = y := Option.some.inj next
        have is : readItem (c :: sqlLexer.spelled found) = some (.space c,sqlLexer.spelled found) := genuine.1
        exact ⟨c,rfl,isSpace_of_readItem is⟩
    | comment text =>
      rw [List.flatMap_cons,nextItem_comment] at next
      split at next
      · exact newline (Option.some.inj next)
      · exact ih genuine.2 next
    | quoted kind text =>
      obtain rfl : Item.quoted kind text = y := Option.some.inj next
      cases notToken
    | run k text =>
      obtain rfl : Item.run k text = y := Option.some.inj next
      cases notToken
    | single c =>
      obtain rfl : Item.single c = y := Option.some.inj next
      cases notToken

theorem link_of_items {x y : Item} (apart : sqlLexer.items (x.text ++ y.text) = [x,y]) : Link x y := by
  intro _
  have genuine := sqlLexer.items_genuine (x.text ++ y.text)
  rw [apart] at genuine
  have read := genuine.1
  rw [sqlLexer.spelled_cons,sqlLexer.spelled_nil,List.append_nil] at read
  exact read

theorem linked_of_apart (ordinary : OrdinaryCharacters) {found : List Item} (genuine : sqlLexer.Genuine found)
    (separate : apart found) : Linked (found.flatMap Item.steps) := by
  induction found with
  | nil => trivial
  | cons item found ih =>
    rw [apart,Bool.and_eq_true] at separate
    obtain ⟨here,there⟩ := separate
    have later := ih genuine.2 there
    have token : item.isToken → Linked (.copied item :: found.flatMap Item.steps) := by
      intro isToken
      refine ⟨fun y next => ?_,later⟩
      cases isToken' : y.isToken with
      | false =>
        obtain ⟨c,rfl,space⟩ := nextItem_space genuine.2 next isToken'
        intro _
        refine readItem_replaces ordinary isToken genuine.1 (.space ?_ space)
        cases found with
        | nil => cases next
        | cons z found =>
          rw [sqlLexer.spelled_cons]
          exact List.append_ne_nil_of_left_ne_nil (sqlLexer.taken genuine.2.1) _
      | true =>
        rw [nextItem_token next isToken'] at here
        exact link_of_items (by simpa [isToken] using here)
    cases item with
    | space c => exact (linked_space c).mpr later
    | comment text => exact (linked_comment text).mpr later
    | quoted kind text => exact token rfl
    | run k text => exact token rfl
    | single c => exact token rfl

theorem genuine_mem {found : List Item} (genuine : sqlLexer.Genuine found) {x : Item} (member : x ∈ found) :
    ∃ rest,readItem (x.text ++ rest) = some (x,rest) := by
  induction found with
  | nil => cases member
  | cons item found ih =>
    rcases List.mem_cons.mp member with rfl | later
    · exact ⟨_,genuine.1⟩
    · exact ih genuine.2 later

structure TokenText (oneline : Bool) (t : Item) : Prop where
  ends : EndsWell t
  plain : Plain t.text
  breaks : oneline → '\n' ∉ t.text

omit [CaseMap] in
theorem solid_of_all {text : List Char} (present : text ≠ []) (all : ∀ c ∈ text,isSpace c = false) : Solid text := by
  obtain ⟨c,cs,is⟩ := List.exists_cons_of_ne_nil present
  obtain ⟨cs',c',is'⟩ := List.eq_nil_or_concat text |>.resolve_left present
  exact ⟨⟨c,cs,is,all c (by rw [is]; exact List.mem_cons_self)⟩,⟨c',cs',by simpa using is',all c' (by rw [is']; simp)⟩⟩

omit [CaseMap] in
theorem tokenText_of_all {oneline : Bool} {t : Item} (present : t.text ≠ []) (all : ∀ c ∈ t.text,isSpace c = false)
    (semicolon : t.semicolon = false → ';' ∉ t.text) : TokenText oneline t := by
  have solid := solid_of_all present all
  have absent : ∀ {c : Char},isSpace c → c ∉ t.text := by
    intro c space member
    rw [all c member] at space
    cases space
  refine ⟨⟨solid,fun other => ?_⟩,⟨fun inside => ?_,fun last => ?_⟩,fun _ => absent (by decide)⟩
  · obtain ⟨c,cs,is,-⟩ := solid.last
    refine ⟨c,cs,is,?_⟩
    rintro rfl
    exact semicolon other (by rw [is]; simp)
  · have return' : '\r' ∈ t.text := inside.subset List.mem_cons_self
    exact absent (by decide) return'
  · exact absent (by decide) (List.mem_of_getLast? last)

theorem classOf_semicolon (ordinary : OrdinaryCharacters) : classOf ';' = .single := by
  have notSpace : isSpace ';' = false := by decide
  have notOperator : isOperatorChar ';' = false := by decide
  have notTag : isTag ';' = false := by
    by_contra tag
    rcases ordinary.tag (by simpa using tag) with is | range
    · exact absurd is (by decide)
    · revert range
      decide
  simp [classOf,notSpace,notOperator,notTag]

theorem tokenText_of_cleanable (ordinary : OrdinaryCharacters) {oneline : Bool} {found : List Item}
    (genuine : sqlLexer.Genuine found) (cleanable : Cleanable oneline found) {t : Item} (member : t ∈ found)
    (isToken : t.isToken) : TokenText oneline t := by
  obtain ⟨rest,read⟩ := genuine_mem genuine member
  cases t with
  | space c => cases isToken
  | comment text => cases isToken
  | quoted kind text =>
    obtain ⟨span,quoted⟩ := readItem_quoted.mp read
    have first : ∃ c cs,text = c :: cs ∧ isSpace c = false := by
      cases readSpan_quotedText ordinary span quoted with
      | single => exact ⟨_,_,rfl,by decide⟩
      | double => exact ⟨_,_,rfl,by decide⟩
      | dollar => exact ⟨_,_,rfl,by decide⟩
    obtain ⟨cs,c,is⟩ := (List.eq_nil_or_concat text).resolve_left (readItem_splits read).2
    have whole : text = cs ++ [c] := by simpa using is
    have isLast : text.getLast? = some c := by simp [whole]
    have through := cleanable.quoted _ member
    simp only [Item.comesThrough,isLast,Option.all_some,Bool.and_eq_true,Bool.not_eq_true',decide_eq_false_iff_not,
      decide_eq_true_eq] at through
    obtain ⟨⟨lineEnds,noBreak⟩,notSpace,notSemicolon⟩ := through
    refine ⟨⟨⟨first,c,cs,whole,notSpace⟩,fun _ => ⟨c,cs,whole,notSemicolon⟩⟩,
      ⟨lineEnds,?_⟩,fun one => by simpa [one,Item.text] using noBreak⟩
    change text.getLast? ≠ some '\r'
    rw [isLast]
    intro last
    rw [Option.some.inj last] at notSpace
    revert notSpace
    decide
  | run k text =>
    obtain ⟨taken,present,runs⟩ := readItem_run.mp read
    have all := (takeRun_facts taken).1
    have other : ∀ {c : Char},c ∈ text → classOf c ≠ .space ∧ classOf c ≠ .single := by
      intro c inside
      rw [all c inside]
      simpa [CharClass.runs] using runs
    refine tokenText_of_all present (fun c inside => ?_) fun _ inside => (other inside).2 (classOf_semicolon ordinary)
    by_contra space
    exact (other inside).1 (classOf_space.mpr (by simpa using space))
  | single c =>
    obtain ⟨-,-,class'⟩ := readItem_single.mp read
    refine tokenText_of_all (List.cons_ne_nil _ _) (fun d inside => ?_) fun other inside => ?_
    · obtain rfl : d = c := by simpa [Item.text] using inside
      by_contra space
      rw [classOf_space.mpr (by simpa using space)] at class'
      cases class'
    · have is : ';' = c := by simpa [Item.text] using inside
      rw [←is] at other
      revert other
      decide

theorem mem_renderItems {separator : Char} {steps : List CleanStep} {kept : List Item} {touched : Bool} {x : Item}
    (member : x ∈ (renderItems separator (stepLines kept touched steps)).getD []) :
    x ∈ kept ∨ x = .space separator ∨ .copied x ∈ steps := by
  induction steps generalizing kept touched with
  | nil =>
    rw [stepLines,renderItems] at member
    split at member
    · exact Or.inl (by simpa [renderItems] using member)
    · cases member
  | cons step steps ih =>
    cases step with
    | lineBreak inComment =>
      have later : x ∈ (renderItems separator (stepLines [] false steps)).getD [] →
          x = .space separator ∨ CleanStep.copied x ∈ CleanStep.lineBreak inComment :: steps :=
        fun inside => (ih inside).elim (fun absent => absurd absent List.not_mem_nil)
          (Or.imp_right (List.mem_cons_of_mem _))
      rw [stepLines,renderItems] at member
      split at member
      · rw [Option.getD_some,List.mem_append] at member
        rcases member with here | after
        · exact Or.inl here
        · cases more : renderItems separator (stepLines [] false steps) with
          | none =>
            rw [more] at after
            cases after
          | some found =>
            rw [more] at after later
            rcases List.mem_cons.mp after with first | inside
            · exact Or.inr (Or.inl first)
            · exact Or.inr (later inside)
      · exact Or.inr (later member)
    | touch => exact (ih member).imp_right (Or.imp_right (List.mem_cons_of_mem _))
    | copied item =>
      rcases ih member with inside | is | copied
      · rcases List.mem_append.mp inside with before | last
        · exact Or.inl before
        · rw [List.mem_singleton.mp last]
          exact Or.inr (Or.inr List.mem_cons_self)
      · exact Or.inr (Or.inl is)
      · exact Or.inr (Or.inr (List.mem_cons_of_mem _ copied))

theorem copied_steps {found : List Item} {x : Item} (genuine : sqlLexer.Genuine found)
    (copied : .copied x ∈ found.flatMap Item.steps) : x ∈ found ∧ (x.isToken = false → ∃ c,x = .space c ∧ isSpace c) := by
  obtain ⟨item,member,step⟩ := List.mem_flatMap.mp copied
  cases item with
  | space c =>
    rw [Item.steps] at step
    split at step
    · simp at step
    · obtain rfl : x = .space c := by simpa using step
      obtain ⟨rest,read⟩ := genuine_mem genuine member
      exact ⟨member,fun _ => ⟨c,rfl,isSpace_of_readItem read⟩⟩
  | comment text =>
    obtain ⟨ch,-,is⟩ := List.mem_map.mp step
    split at is
    · cases is
    · cases is
  | quoted kind text =>
    obtain rfl : x = .quoted kind text := by simpa [Item.steps] using step
    exact ⟨member,fun notToken => by cases notToken⟩
  | run k text =>
    obtain rfl : x = .run k text := by simpa [Item.steps] using step
    exact ⟨member,fun notToken => by cases notToken⟩
  | single c =>
    obtain rfl : x = .single c := by simpa [Item.steps] using step
    exact ⟨member,fun notToken => by cases notToken⟩

-- What cleaning keeps of the items of a text, line by line.
theorem cleaned_items (ordinary : OrdinaryCharacters) {separator : Char} {oneline : Bool} {found : List Item}
    (space : isSpace separator) (breaks : separator = '\n' ∨ oneline) (genuine : sqlLexer.Genuine found)
    (linked : Linked (found.flatMap Item.steps))
    (text : ∀ t ∈ found,t.isToken → TokenText oneline t) :
    ∃ kept,(render separator (linesFrom [] false (found.flatMap Item.marks))).getD [] = sqlLexer.spelled kept ∧
      Separate kept ∧ kept.filter Item.isToken = found.filter Item.isToken := by
  have solid : ∀ t ∈ found,t.isToken → Solid t.text ∧ (separator = '\n' ∨ '\n' ∉ t.text) :=
    fun t member isToken => ⟨(text t member isToken).ends.solid,breaks.imp_right (text t member isToken).breaks⟩
  have solid' : ∀ t ∈ (found.flatMap Item.steps).filterMap CleanStep.token?,Solid t.text := by
    rw [tokens_steps]
    intro t member
    obtain ⟨inside,isToken⟩ := List.mem_filter.mp member
    exact (solid t inside isToken).1
  have rendered := render_steps solid [] false
  rw [render_spelled] at rendered
  have same : ((renderItems separator (stepLines [] false (found.flatMap Item.steps))).getD []).filter Item.isToken =
      [] ++ (found.flatMap Item.steps).filterMap CleanStep.token? :=
    tokens_renderItems separator (fun _ absent => by cases absent) solid'
  rw [tokens_steps] at same
  refine ⟨(renderItems separator (stepLines [] false (found.flatMap Item.steps))).getD [],?_,?_,same⟩
  · rw [sqlLexer.spelled_nil] at rendered
    rw [rendered]
    cases renderItems separator (stepLines [] false (found.flatMap Item.steps)) with
    | none => rfl
    | some kept => rfl
  · have from' : ∀ x ∈ (renderItems separator (stepLines [] false (found.flatMap Item.steps))).getD [],
        x = .space separator ∨ (x ∈ found ∧ (x.isToken = false → ∃ c,x = .space c ∧ isSpace c)) := by
      intro x member
      rcases mem_renderItems member with absent | is | copied
      · cases absent
      · exact Or.inl is
      · exact Or.inr (copied_steps genuine copied)
    refine ⟨fun x member isToken => ?_,fun x member notToken => ?_,?_⟩
    · rcases from' x member with rfl | ⟨inside,-⟩
      · cases isToken
      · obtain ⟨rest,read⟩ := genuine_mem genuine inside
        have alone := readItem_replaces ordinary isToken read .none
        rwa [List.append_nil] at alone
    · rcases from' x member with rfl | ⟨-,blank⟩
      · exact ⟨separator,rfl,space⟩
      · exact blank notToken
    · cases is : renderItems separator (stepLines [] false (found.flatMap Item.steps)) with
      | none => exact List.isChain_nil
      | some kept =>
        exact linked_renderItems ordinary space linked List.isChain_nil (fun _ absent => by cases absent) kept is

theorem cleaned_tokens (ordinary : OrdinaryCharacters) {separator : Char} {oneline : Bool} {sql : String}
    (space : isSpace separator) (breaks : separator = '\n' ∨ oneline)
    (cleanable : Cleanable oneline (items sql)) :
    ∃ k,tokens sql = tokens (String.ofList (finishSql ([separator].intercalate (cleanSqlLines sql.toList .postgreSQL)))) ++
      List.replicate k (.single ';') := by
  have genuine := sqlLexer.items_genuine sql.toList
  have text : ∀ t ∈ sqlLexer.items sql.toList,t.isToken → TokenText oneline t :=
    fun t member => tokenText_of_cleanable ordinary genuine cleanable member
  have plain : ∀ t ∈ sqlLexer.items sql.toList,t.isToken → Plain t.text :=
    fun t member isToken => (text t member isToken).plain
  have linked := linked_normalizedItems ordinary genuine
    (linked_of_apart ordinary genuine cleanable.apart)
  have genuine' := genuine_normalizedItems ordinary genuine plain
  have same := tokens_normalizedItems (sqlLexer.items sql.toList)
  have text' : ∀ t ∈ normalizedItems (sqlLexer.items sql.toList),t.isToken → TokenText oneline t := by
    intro t member isToken
    have inside : t ∈ (normalizedItems (sqlLexer.items sql.toList)).filter Item.isToken :=
      List.mem_filter.mpr ⟨member,isToken⟩
    rw [same] at inside
    exact text t (List.mem_filter.mp inside).1 isToken
  obtain ⟨kept,joined,separate,same'⟩ := cleaned_items ordinary space breaks genuine' linked text'
  have ends : ∀ t ∈ kept,t.isToken → EndsWell t := by
    intro t member isToken
    have inside : t ∈ kept.filter Item.isToken := List.mem_filter.mpr ⟨member,isToken⟩
    rw [same'] at inside
    exact (text' t (List.mem_filter.mp inside).1 isToken).ends
  obtain ⟨kept',k,finished,inside,less⟩ := finishSql_spelled separate ends
  have written : finishSql ([separator].intercalate (cleanSqlLines sql.toList .postgreSQL)) = sqlLexer.spelled kept' := by
    rw [cleanSqlLines_eq,(render_eq separator _).1,markedItems,items_normalized ordinary plain,joined,finished]
  refine ⟨k,?_⟩
  rw [tokens,tokens,items,items,written,String.toList_ofList,
    sqlLexer.items_of_genuine ((separate.within inside).genuine ordinary),←less,same',same]

end Normalize

section Examples
local instance cleaningAscii : CaseMap := ascii

def commented : String := "SELECT a -- first\n FROM t /* all */ ;"

end Examples
end Scythe
