import Mathlib.Data.List.Infix

-- Cutting a text into spans. A reader takes one span off the front of a text;
-- what no reader takes is gathered into spans of its own.
namespace Scanner
variable {κ : Type}

abbrev Reader (κ : Type) := List Char → Option (κ × List Char × List Char)

-- Up to a closing character; a doubled one does not close.
def quoted (close : Char) : List Char → List Char × List Char
  | [] => ([],[])
  | [c] => ([c],[])
  | c :: d :: cs =>
    if c = close then
      if d = close then
        let (text,rest) := quoted close cs
        (c :: d :: text,rest)
      else ([c],d :: cs)
    else
      let (text,rest) := quoted close (d :: cs)
      (c :: text,rest)

-- To the end of the line, which stays.
def line (cs : List Char) : List Char × List Char := (cs.takeWhile (· ≠ '\n'),cs.dropWhile (· ≠ '\n'))

-- A comment that nests.
def block : Nat → List Char → List Char × List Char
  | 0,cs => ([],cs)
  | _,[] => ([],[])
  | depth + 1,'/' :: '*' :: cs =>
    let (text,rest) := block (depth + 2) cs
    ('/' :: '*' :: text,rest)
  | depth + 1,'*' :: '/' :: cs =>
    let (text,rest) := block depth cs
    ('*' :: '/' :: text,rest)
  | depth + 1,c :: cs =>
    let (text,rest) := block (depth + 1) cs
    (c :: text,rest)

-- Through the first occurrence of a delimiter.
def through (delimiter : List Char) : List Char → List Char × List Char
  | [] => ([],[])
  | c :: cs =>
    match delimiter.isPrefixOf? (c :: cs) with
    | some rest => (delimiter,rest)
    | none =>
      let (text,rest) := through delimiter cs
      (c :: text,rest)

theorem quoted_append (close : Char) (cs : List Char) : (quoted close cs).1 ++ (quoted close cs).2 = cs := by
  fun_induction quoted close cs with
  | case1 => rfl
  | case2 => rfl
  | case3 _ _ _ is ih => simpa [is] using ih
  | case4 => rfl
  | case5 _ _ _ _ _ _ is ih => simpa [is] using ih

theorem line_append (cs : List Char) : (line cs).1 ++ (line cs).2 = cs := List.takeWhile_append_dropWhile

theorem block_append (depth : Nat) (cs : List Char) : (block depth cs).1 ++ (block depth cs).2 = cs := by
  fun_induction block depth cs with
  | case1 => rfl
  | case2 => rfl
  | case3 _ _ _ _ is ih => simpa [is] using ih
  | case4 _ _ _ _ is ih => simpa [is] using ih
  | case5 _ _ _ _ _ _ _ is ih => simpa [is] using ih

theorem through_append (delimiter cs : List Char) :
    (through delimiter cs).1 ++ (through delimiter cs).2 = cs := by
  induction cs with
  | nil => rfl
  | cons c cs ih =>
    unfold through
    split
    · rename_i rest found
      exact List.isPrefixOf?_eq_some_iff_append_eq.mp found
    · simpa using ih

theorem quoted_taken (close : Char) {cs : List Char} (present : cs ≠ []) : (quoted close cs).1 ≠ [] := by
  fun_cases quoted close cs <;> simp_all

-- A quoted text is read alike before any text that does not double its closing
-- character, and only before none if it is not closed.
theorem quoted_elsewhere {close : Char} : ∀ {body rest rest' : List Char},
    quoted close (body ++ rest) = (body,rest) → rest' = [] ∨ (rest ≠ [] ∧ rest'.head? ≠ some close) →
    quoted close (body ++ rest') = (body,rest')
  | [],rest,rest',is,after => by
    have empty : rest = [] := by
      by_contra present
      have taken := quoted_taken close present
      rw [List.nil_append] at is
      exact taken (congrArg Prod.fst is)
    rcases after with rfl | ⟨present,-⟩
    · rfl
    · exact absurd empty present
  | [c],[],rest',_,after => by
    rcases after with rfl | ⟨present,-⟩
    · rfl
    · exact absurd rfl present
  | [c],d :: rest,rest',is,after => by
    rw [List.singleton_append,quoted] at is
    split at is
    · rename_i closes
      split at is
      · cases is
      · cases rest' with
        | nil => rfl
        | cons e rest' =>
          have differs : e ≠ close := by simpa using after
          simp [quoted,closes,differs]
    · have taken := quoted_taken close (List.cons_ne_nil d rest)
      rw [Prod.mk.injEq,List.cons.injEq] at is
      exact absurd is.1.2 taken
  | c :: d :: body,rest,rest',is,after => by
    rw [List.cons_append,List.cons_append,quoted] at is ⊢
    split at is
    · rename_i closes
      rw [if_pos closes]
      split at is
      · rename_i doubled
        rw [if_pos doubled]
        have tail : quoted close (body ++ rest) = (body,rest) := by
          rw [Prod.mk.injEq,List.cons.injEq,List.cons.injEq] at is
          exact Prod.ext is.1.2.2 is.2
        rw [quoted_elsewhere tail after]
      · cases is
    · rename_i inside
      rw [if_neg inside]
      have tail : quoted close (d :: body ++ rest) = (d :: body,rest) := by
        rw [Prod.mk.injEq,List.cons.injEq] at is
        exact Prod.ext is.1.2 is.2
      have moved := quoted_elsewhere tail after
      rw [List.cons_append] at moved
      rw [moved]

theorem quoted_head {close : Char} : ∀ {body rest : List Char},
    quoted close (body ++ rest) = (body,rest) → rest.head? ≠ some close
  | [],rest,is,head => by
    obtain ⟨cs,rfl⟩ := List.head?_eq_some_iff.mp head
    exact quoted_taken close (List.cons_ne_nil close cs) (congrArg Prod.fst is)
  | [c],[],_,head => by cases head
  | [c],d :: rest,is,head => by
    obtain rfl : d = close := Option.some.inj head
    rw [List.singleton_append,quoted] at is
    split at is
    · rw [if_pos rfl] at is
      cases is
    · have taken := quoted_taken d (List.cons_ne_nil d rest)
      rw [Prod.mk.injEq,List.cons.injEq] at is
      exact taken is.1.2
  | c :: d :: body,rest,is,head => by
    rw [List.cons_append,List.cons_append,quoted] at is
    split at is
    · split at is
      · rw [Prod.mk.injEq,List.cons.injEq,List.cons.injEq] at is
        exact quoted_head (Prod.ext is.1.2.2 is.2) head
      · cases is
    · rw [Prod.mk.injEq,List.cons.injEq] at is
      have tail : quoted close (d :: body ++ rest) = (d :: body,rest) := Prod.ext is.1.2 is.2
      exact quoted_head tail head

theorem through_closed {delimiter body rest : List Char} (is : through delimiter (body ++ rest) = (body,rest))
    (closed : rest ≠ []) : delimiter.length ≤ body.length := by
  induction body with
  | nil =>
    obtain ⟨c,cs,rfl⟩ := List.exists_cons_of_ne_nil closed
    rw [List.nil_append,through] at is
    split at is
    · rw [(Prod.mk.inj is).1]
    · cases is
  | cons c body ih =>
    rw [List.cons_append,through] at is
    split at is
    · rw [(Prod.mk.inj is).1]
    · rw [Prod.mk.injEq,List.cons.injEq] at is
      have tail := ih (Prod.ext is.1.2 is.2)
      rw [List.length_cons]
      omega

-- Likewise up to a delimiter.
theorem through_elsewhere {delimiter body rest rest' : List Char} (present : delimiter ≠ [])
    (is : through delimiter (body ++ rest) = (body,rest)) (after : rest' = [] ∨ rest ≠ []) :
    through delimiter (body ++ rest') = (body,rest') := by
  induction body with
  | nil =>
    have empty : rest = [] := by
      by_contra closed
      have length := through_closed is closed
      exact present (List.eq_nil_of_length_eq_zero (by simpa using length))
    rcases after with rfl | closed
    · rfl
    · exact absurd empty closed
  | cons c body ih =>
    rw [List.cons_append,through] at is ⊢
    cases found : delimiter.isPrefixOf? (c :: (body ++ rest)) with
    | some left =>
      rw [found] at is
      obtain ⟨rfl,rfl⟩ := Prod.mk.inj is
      have here : (c :: body).isPrefixOf? (c :: (body ++ rest')) = some rest' :=
        List.isPrefixOf?_eq_some_iff_append_eq.mpr rfl
      rw [here]
    | none =>
      rw [found] at is
      rw [Prod.mk.injEq,List.cons.injEq] at is
      have tail : through delimiter (body ++ rest) = (body,rest) := Prod.ext is.1.2 is.2
      have absent : delimiter.isPrefixOf? (c :: (body ++ rest')) = none := by
        rw [←Option.not_isSome_iff_eq_none]
        intro found'
        obtain ⟨left,is'⟩ := Option.isSome_iff_exists.mp found'
        have whole := List.isPrefixOf?_eq_some_iff_append_eq.mp is'
        have inside : delimiter <+: c :: body := by
          have first : delimiter <+: c :: body ++ rest' := ⟨left,by rw [List.cons_append,whole]⟩
          rcases after with rfl | closed
          · simpa using first
          · have length := through_closed tail closed
            exact List.prefix_of_prefix_length_le first (List.prefix_append _ _) (by rw [List.length_cons]; omega)
        obtain ⟨more,is''⟩ := inside
        have before : delimiter.isPrefixOf? (c :: (body ++ rest)) = some (more ++ rest) := by
          rw [List.isPrefixOf?_eq_some_iff_append_eq,←List.append_assoc,is'',List.cons_append]
        rw [before] at found
        cases found
      rw [absent]
      dsimp only
      rw [ih tail]

def flush (kind : κ) (buffer : List Char) : List (κ × List Char) := if buffer = [] then [] else [(kind,buffer)]

-- A reader takes at least one character, so the text's length is fuel enough.
def spansWithin (read : Reader κ) (code : κ) : Nat → List Char → List Char → List (κ × List Char)
  | _,buffer,[] => flush code buffer
  | 0,buffer,_ => flush code buffer
  | fuel + 1,buffer,c :: cs =>
    match read (c :: cs) with
    | some (kind,text,rest) => flush code buffer ++ (kind,text) :: spansWithin read code fuel [] rest
    | none => spansWithin read code fuel (buffer ++ [c]) cs

def spans (read : Reader κ) (code : κ) (cs : List Char) : List (κ × List Char) :=
  spansWithin read code cs.length [] cs

def concatenation (found : List (κ × List Char)) : List Char := found.flatMap (·.2)

structure Reader.Splits (read : Reader κ) : Prop where
  whole : ∀ cs kind text rest,read cs = some (kind,text,rest) → text ++ rest = cs
  taken : ∀ cs kind text rest,read cs = some (kind,text,rest) → text ≠ []

theorem concatenation_flush (kind : κ) (buffer : List Char) : concatenation (flush kind buffer) = buffer := by
  unfold flush concatenation
  split
  · rename_i empty
    rw [empty,List.flatMap_nil]
  · simp

theorem spansWithin_whole {read : Reader κ} (splits : read.Splits) (code : κ) {fuel : Nat} {buffer cs : List Char}
    (enough : cs.length ≤ fuel) : concatenation (spansWithin read code fuel buffer cs) = buffer ++ cs := by
  induction fuel generalizing buffer cs with
  | zero =>
    have empty : cs = [] := List.eq_nil_of_length_eq_zero (by omega)
    rw [empty,spansWithin,concatenation_flush,List.append_nil]
  | succ fuel ih =>
    cases cs with
    | nil => rw [spansWithin,concatenation_flush,List.append_nil]
    | cons c cs =>
      rw [spansWithin]
      split
      · rename_i kind text rest found
        have whole := splits.whole _ _ _ _ found
        have taken := List.length_pos_iff.mpr (splits.taken _ _ _ _ found)
        have shorter : rest.length ≤ fuel := by
          have length := congrArg List.length whole
          rw [List.length_append] at length
          omega
        have tail : concatenation (spansWithin read code fuel [] rest) = [] ++ rest := ih shorter
        unfold concatenation at tail ⊢
        rw [List.flatMap_append,List.flatMap_cons,tail,←concatenation,concatenation_flush,List.nil_append,whole]
      · rw [ih (by simpa using enough),List.append_assoc,List.singleton_append]

-- The spans are the text, cut.
theorem spans_whole {read : Reader κ} (splits : read.Splits) (code : κ) (cs : List Char) :
    concatenation (spans read code cs) = cs := spansWithin_whole splits code (Nat.le_refl _)

-- What follows a span that no reader took.
def Apart (after : List Char → Prop) (code : κ) : List (κ × List Char) → Prop
  | [] => True
  | span :: found => (span.1 = code → after (concatenation found)) ∧ Apart after code found

theorem flush_apart {after : List Char → Prop} {code : κ} {found : List (κ × List Char)} (buffer : List Char)
    (follows : after (concatenation found)) (apart : Apart after code found) :
    Apart after code (flush code buffer ++ found) := by
  unfold flush
  split
  · exact apart
  · exact ⟨fun _ => follows,apart⟩

theorem spansWithin_apart {read : Reader κ} (splits : read.Splits) {code : κ} {after : List Char → Prop}
    (none : after []) (starts : ∀ cs kind text rest,read cs = some (kind,text,rest) → kind ≠ code ∧ after cs)
    {fuel : Nat} {buffer cs : List Char} (enough : cs.length ≤ fuel) :
    Apart after code (spansWithin read code fuel buffer cs) := by
  have last (buffer : List Char) : Apart after code (flush code buffer) := by
    have ends := @flush_apart _ after code [] buffer none trivial
    rwa [List.append_nil] at ends
  induction fuel generalizing buffer cs with
  | zero =>
    have empty : cs = [] := List.eq_nil_of_length_eq_zero (by omega)
    rw [empty,spansWithin]
    exact last buffer
  | succ fuel ih =>
    cases cs with
    | nil =>
      rw [spansWithin]
      exact last buffer
    | cons c cs =>
      rw [spansWithin]
      split
      · rename_i kind text rest found
        obtain ⟨other,opens⟩ := starts _ _ _ _ found
        have whole := splits.whole _ _ _ _ found
        have taken := List.length_pos_iff.mpr (splits.taken _ _ _ _ found)
        have shorter : rest.length ≤ fuel := by
          have length := congrArg List.length whole
          rw [List.length_append] at length
          omega
        have inner : concatenation (spansWithin read code fuel [] rest) = rest := spansWithin_whole splits code shorter
        apply flush_apart
        · have text' : concatenation ((kind,text) :: spansWithin read code fuel [] rest) = c :: cs := by
            rw [concatenation,List.flatMap_cons,←concatenation,inner,whole]
          rw [text']
          exact opens
        · exact ⟨fun is => absurd is other,ih shorter⟩
      · exact ih (by simpa using enough)

theorem spans_apart {read : Reader κ} (splits : read.Splits) {code : κ} {after : List Char → Prop} (none : after [])
    (starts : ∀ cs kind text rest,read cs = some (kind,text,rest) → kind ≠ code ∧ after cs) (cs : List Char) :
    Apart after code (spans read code cs) := spansWithin_apart splits none starts (Nat.le_refl _)

-- How each way of reading ends, if the text does not end first.
theorem line_ends (cs : List Char) : ∀ c ∈ (line cs).2.head?,c = '\n' := by
  intro c head
  have stopped := List.head?_dropWhile_not (fun c : Char => decide (c ≠ '\n')) cs
  unfold line at head
  rw [head] at stopped
  simpa using stopped

theorem quoted_ends (close : Char) (cs : List Char) :
    (quoted close cs).2 = [] ∨ (quoted close cs).1.getLast? = some close := by
  fun_induction quoted close cs with
  | case1 => exact .inl rfl
  | case2 => exact .inl rfl
  | case3 cs text rest is ih =>
    rw [is] at ih
    rcases ih with empty | last
    · exact .inl empty
    · exact .inr (by simp [List.getLast?_cons,last])
  | case4 => exact .inr rfl
  | case5 c d cs _ text rest is ih =>
    rw [is] at ih
    rcases ih with empty | last
    · exact .inl empty
    · exact .inr (by simp [List.getLast?_cons,last])

theorem block_ends (depth : Nat) (cs : List Char) :
    depth = 0 ∨ (block depth cs).2 = [] ∨ (block depth cs).1.getLast? = some '/' := by
  fun_induction block depth cs with
  | case1 => exact .inl rfl
  | case2 => exact .inr (.inl rfl)
  | case3 depth cs text rest is ih =>
    rw [is] at ih
    rcases ih with outside | empty | last
    · omega
    · exact .inr (.inl empty)
    · exact .inr (.inr (by simp [List.getLast?_cons,last]))
  | case4 depth cs text rest is ih =>
    rw [is] at ih
    rcases ih with outside | empty | last
    · rw [outside,block] at is
      cases is
      exact .inr (.inr rfl)
    · exact .inr (.inl empty)
    · exact .inr (.inr (by simp [List.getLast?_cons,last]))
  | case5 depth c cs _ _ text rest is ih =>
    rw [is] at ih
    rcases ih with outside | empty | last
    · omega
    · exact .inr (.inl empty)
    · exact .inr (.inr (by simp [List.getLast?_cons,last]))

theorem through_ends (delimiter cs : List Char) :
    (through delimiter cs).2 = [] ∨ ∃ before,(through delimiter cs).1 = before ++ delimiter := by
  induction cs with
  | nil => exact .inl rfl
  | cons c cs ih =>
    unfold through
    split
    · exact .inr ⟨[],rfl⟩
    · rcases ih with empty | ⟨before,is⟩
      · exact .inl empty
      · exact .inr ⟨c :: before,by simp [is]⟩

-- What each span has to do with the text after it.
def Bounded (bound : List Char → List Char → Prop) : List (κ × List Char) → Prop
  | [] => True
  | span :: found => bound span.2 (concatenation found) ∧ Bounded bound found

theorem flush_bounded {bound : List Char → List Char → Prop} {code : κ} {found : List (κ × List Char)}
    (buffer : List Char) (here : bound buffer (concatenation found)) (bounded : Bounded bound found) :
    Bounded bound (flush code buffer ++ found) := by
  unfold flush
  split
  · exact bounded
  · exact ⟨here,bounded⟩

theorem spansWithin_bounded {read : Reader κ} (splits : read.Splits) {code : κ} {bound : List Char → List Char → Prop}
    (last : ∀ text,bound text [])
    (reads : ∀ cs kind text rest,read cs = some (kind,text,rest) → (∀ before,bound before cs) ∧ bound text rest)
    {fuel : Nat} {buffer cs : List Char} (enough : cs.length ≤ fuel) :
    Bounded bound (spansWithin read code fuel buffer cs) := by
  have ends (buffer : List Char) : Bounded bound (flush code buffer) := by
    have flushed := @flush_bounded κ bound code [] buffer (last buffer) trivial
    rwa [List.append_nil] at flushed
  induction fuel generalizing buffer cs with
  | zero =>
    have empty : cs = [] := List.eq_nil_of_length_eq_zero (by omega)
    rw [empty,spansWithin]
    exact ends buffer
  | succ fuel ih =>
    cases cs with
    | nil =>
      rw [spansWithin]
      exact ends buffer
    | cons c cs =>
      rw [spansWithin]
      split
      · rename_i kind text rest found
        obtain ⟨opens,closes⟩ := reads _ _ _ _ found
        have whole := splits.whole _ _ _ _ found
        have taken := List.length_pos_iff.mpr (splits.taken _ _ _ _ found)
        have shorter : rest.length ≤ fuel := by
          have length := congrArg List.length whole
          rw [List.length_append] at length
          omega
        have inner : concatenation (spansWithin read code fuel [] rest) = rest := spansWithin_whole splits code shorter
        apply flush_bounded
        · have text' : concatenation ((kind,text) :: spansWithin read code fuel [] rest) = c :: cs := by
            rw [concatenation,List.flatMap_cons,←concatenation,inner,whole]
          rw [text']
          exact opens buffer
        · refine ⟨?_,ih shorter⟩
          dsimp only
          rw [inner]
          exact closes
      · exact ih (by simpa using enough)

theorem spans_bounded {read : Reader κ} (splits : read.Splits) {code : κ} {bound : List Char → List Char → Prop}
    (last : ∀ text,bound text [])
    (reads : ∀ cs kind text rest,read cs = some (kind,text,rest) → (∀ before,bound before cs) ∧ bound text rest)
    (cs : List Char) : Bounded bound (spans read code cs) := spansWithin_bounded splits last reads (Nat.le_refl _)

end Scanner
