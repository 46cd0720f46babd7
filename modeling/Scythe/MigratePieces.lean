import Scythe.MigrateBlocks

-- How a query file falls into pieces, and that nothing is left in what becomes of
-- it that a piece could start with.
namespace Scythe.Migrate
open Text Splice Verification QueryFile

-- What opens a line that is taken for an annotation.
structure LooseHead (head : List Char) (gap word gap' : List Char) : Prop where
  spelt : head = "--".toList ++ (gap ++ (word ++ (gap' ++ [':'])))
  space : ∀ c ∈ gap,isSpace c = true
  named : word.map foldCase = "name".toList
  space' : ∀ c ∈ gap',isSpace c = true

def Loose (head : List Char) : Prop := ∃ gap word gap',LooseHead head gap word gap'

theorem name_solid {c : Char} (member : foldCase c ∈ "name".toList) : isSpace c = false := by
  rw [Bool.eq_false_iff]
  intro space
  have lower : foldCase c = c := by
    unfold foldCase asciiLower asciiIsUpper
    simp only [isSpace,isAsciiSpace,List.mem_cons,List.not_mem_nil,or_false,Bool.or_eq_true,
      decide_eq_true_eq,Bool.and_eq_true] at space
    rw [if_neg (by omega),if_neg]
    intro upper
    simp only [Bool.and_eq_true,decide_eq_true_eq] at upper
    have low : 'A'.toNat = 65 := rfl
    have high : 'Z'.toNat = 90 := rfl
    omega
  rw [lower] at member
  have solid : ∀ c ∈ "name".toList,isSpace c = false := List.all_iff_forall_prop.mp (by decide)
  rw [solid c member] at space
  cases space

theorem name_other {c : Char} (member : foldCase c ∈ "name".toList) : c ≠ '-' ∧ c ≠ 's' ∧ c ≠ '$' := by
  refine ⟨?_,?_,?_⟩
  all_goals
    rintro rfl
    revert member
    decide

theorem space_other {c : Char} (space : isSpace c = true) : c ≠ '-' ∧ c ≠ 's' ∧ c ≠ '$' := by
  refine ⟨?_,?_,?_⟩
  all_goals
    rintro rfl
    revert space
    decide

theorem LooseHead.tail {head gap word gap' : List Char} (loose : LooseHead head gap word gap') :
    ∃ tail,head = '-' :: '-' :: tail ∧ ∀ c ∈ tail,c ≠ '-' ∧ c ≠ 's' ∧ c ≠ '$' := by
  refine ⟨gap ++ (word ++ (gap' ++ [':'])),loose.spelt,?_⟩
  intro c member
  rcases List.mem_append.mp member with space | member
  · exact space_other (loose.space c space)
  rcases List.mem_append.mp member with named | member
  · apply name_other
    rw [← loose.named]
    exact List.mem_map_of_mem named
  rcases List.mem_append.mp member with space | colon
  · exact space_other (loose.space' c space)
  · rw [List.mem_singleton.mp colon]
    decide

theorem caseless_eq {word cs rest : List Char} (is : caseless word cs = some rest) :
    ∃ spelt,cs = spelt ++ rest ∧ spelt.map foldCase = word := by
  unfold caseless at is
  split at is
  · rename_i same
    cases is
    exact ⟨cs.take word.length,(List.take_append_drop _ _).symm,same⟩
  · cases is

theorem caseless_text {spelt : List Char} (rest : List Char) : caseless (spelt.map foldCase) (spelt ++ rest) = some rest := by
  unfold caseless
  rw [List.length_map,List.take_left,if_pos rfl,List.drop_left]

theorem looseNameAt_eq {cs rest : List Char} (is : looseNameAt cs = some rest) :
    ∃ head tail,cs = head ++ tail ∧ Loose head ∧ rest = (tail.dropWhile isSpace).dropWhile (· ≠ '\n') := by
  unfold looseNameAt at is
  obtain ⟨name,opened,is⟩ := Option.bind_eq_some_iff.mp is
  obtain ⟨colon,named,is⟩ := Option.bind_eq_some_iff.mp is
  obtain ⟨value,closed,is⟩ := Option.bind_eq_some_iff.mp is
  rw [List.isPrefixOf?_eq_some_iff_append_eq] at opened closed
  obtain ⟨word,whole,spelt⟩ := caseless_eq named
  have first := List.takeWhile_append_dropWhile (p := isSpace) (l := name)
  have second := List.takeWhile_append_dropWhile (p := isSpace) (l := colon)
  refine ⟨"--".toList ++ (name.takeWhile isSpace ++ (word ++ (colon.takeWhile isSpace ++ [':']))),value,?_,
    ⟨_,_,_,rfl,fun c member => List.mem_takeWhile_imp member,spelt,fun c member => List.mem_takeWhile_imp member⟩,
    (Option.some.inj is).symm⟩
  calc cs = "--".toList ++ name := opened.symm
    _ = "--".toList ++ (name.takeWhile isSpace ++ (word ++ (colon.takeWhile isSpace ++ ":".toList ++ value))) := by
      rw [List.append_assoc,closed,second,← whole,first]
    _ = _ := by simp

theorem looseNameAt_text {head : List Char} (loose : Loose head) (tail : List Char) :
    looseNameAt (head ++ tail) = some ((tail.dropWhile isSpace).dropWhile (· ≠ '\n')) := by
  obtain ⟨gap,word,gap',loose⟩ := loose
  have opened : "--".toList.isPrefixOf? (head ++ tail) = some (gap ++ (word ++ (gap' ++ ':' :: tail))) := by
    rw [List.isPrefixOf?_eq_some_iff_append_eq,loose.spelt]
    simp
  have solid : isSpace ':' = false := by decide
  have dropped : (gap ++ (word ++ (gap' ++ ':' :: tail))).dropWhile isSpace = word ++ (gap' ++ ':' :: tail) := by
    rw [List.dropWhile_append_of_pos loose.space]
    cases spelt : word with
    | nil =>
      have named := loose.named
      rw [spelt] at named
      cases named
    | cons c word =>
      have member : foldCase c ∈ "name".toList := by
        rw [← loose.named,spelt]
        exact List.mem_cons_self
      rw [List.cons_append,List.dropWhile_cons_of_neg (by simp [name_solid member])]
  have named := @caseless_text word (gap' ++ ':' :: tail)
  rw [loose.named] at named
  have dropped' : (gap' ++ ':' :: tail).dropWhile isSpace = ':' :: tail := by
    rw [List.dropWhile_append_of_pos loose.space',List.dropWhile_cons_of_neg (by simp [solid])]
  have closed : ":".toList.isPrefixOf? (':' :: tail) = some tail := by
    rw [List.isPrefixOf?_eq_some_iff_append_eq]
    rfl
  unfold looseNameAt
  rw [opened,Option.bind_eq_bind,Option.bind_some,dropped,named,Option.bind_some,dropped',closed]
  rfl

-- What is no annotation does not become one by what follows, unless it goes on
-- among the characters of one.
theorem looseNameAt_shorter {text more : List Char} (silent : looseNameAt (text ++ more) = none) :
    looseNameAt text = none := by
  rw [Option.eq_none_iff_forall_not_mem] at silent ⊢
  intro rest is
  obtain ⟨head,tail,rfl,loose,_⟩ := looseNameAt_eq is
  rw [List.append_assoc] at silent
  exact silent _ (looseNameAt_text loose _)

theorem Loose.inside {head text more : List Char} {c : Char} (loose : Loose head) (whole : head = text ++ c :: more) :
    c ≠ 's' ∧ c ≠ '$' ∧ (2 ≤ text.length → c ≠ '-') := by
  obtain ⟨gap,word,gap',spelt⟩ := loose
  obtain ⟨chars,opens,plain⟩ := spelt.tail
  rw [opens] at whole
  cases text with
  | nil =>
    cases whole
    exact ⟨by decide,by decide,fun long => absurd long (by decide)⟩
  | cons a text =>
    obtain ⟨_,whole⟩ := List.cons.inj whole
    cases text with
    | nil =>
      cases whole
      exact ⟨by decide,by decide,fun long => absurd long (by simp)⟩
    | cons b text =>
      obtain ⟨_,whole⟩ := List.cons.inj whole
      obtain ⟨dash,call,placeholder⟩ := plain c (by
        rw [whole]
        exact List.mem_append_right _ List.mem_cons_self)
      exact ⟨call,placeholder,fun _ => dash⟩

theorem looseNameAt_blocked {c : Char} {text : List Char} (silent : looseNameAt text = none)
    (blocking : c = 's' ∨ c = '$' ∨ c = '-' ∧ 2 ≤ text.length) (more : List Char) : looseNameAt (text ++ c :: more) = none := by
  rw [Option.eq_none_iff_forall_not_mem] at silent ⊢
  intro rest is
  obtain ⟨head,tail,whole,loose,_⟩ := looseNameAt_eq is
  rcases List.append_eq_append_iff.mp whole with ⟨inside,long,further⟩ | ⟨left,short,_⟩
  · cases inside with
    | nil =>
      rw [List.append_nil] at long
      rw [long] at loose
      have found := looseNameAt_text loose []
      rw [List.append_nil] at found
      exact silent _ found
    | cons d inside =>
      obtain ⟨rfl,_⟩ := List.cons.inj further
      obtain ⟨call,placeholder,dash⟩ := loose.inside long
      rcases blocking with is | is | ⟨is,long⟩
      · exact call is
      · exact placeholder is
      · exact dash long is
  · rw [short] at silent
    exact silent _ (looseNameAt_text loose left)

theorem looseNameAt_start {c : Char} (other : c ≠ '-') (cs : List Char) : looseNameAt (c :: cs) = none := by
  rw [Option.eq_none_iff_forall_not_mem]
  intro rest is
  obtain ⟨head,tail,whole,⟨gap,word,gap',spelt⟩,_⟩ := looseNameAt_eq is
  obtain ⟨chars,opens,_⟩ := spelt.tail
  rw [opens] at whole
  exact other (List.cons.inj whole).1

-- No line of a text starts like an annotation. Whether its first character starts
-- one is said beside it.
def Quiet : Bool → List Char → Prop
  | _,[] => True
  | starts,c :: cs => (starts = true → looseNameAt (c :: cs) = none) ∧ Quiet (decide (c = '\n')) cs

theorem Quiet.weaken {text : List Char} (quiet : Quiet true text) (starts : Bool) : Quiet starts text := by
  cases text with
  | nil => trivial
  | cons c cs => exact ⟨fun _ => quiet.1 rfl,quiet.2⟩

theorem quiet_append {starts : Bool} {text rest : List Char} (ended : Ended text) (quiet : Quiet starts text)
    (further : Quiet true rest) (dash : rest = [] ∨ ∃ more,rest = '-' :: more) : Quiet starts (text ++ rest) := by
  induction text generalizing starts with
  | nil => exact further.weaken starts
  | cons c text ih =>
    refine ⟨?_,ih ended.tail quiet.2⟩
    intro opens
    have silent := quiet.1 opens
    rcases dash with rfl | ⟨more,rfl⟩
    · have same : (c :: text) ++ [] = c :: text := List.append_nil _
      exact (congrArg looseNameAt same).trans silent
    · by_cases short : text = []
      · subst short
        have newline : c = '\n' := by
          rcases ended with none | last
          · cases none
          · exact Option.some.inj last
        rw [newline]
        exact looseNameAt_start (by decide) _
      · apply looseNameAt_blocked silent (.inr (.inr ⟨rfl,?_⟩)) more
        have some := List.length_pos_iff.mpr short
        rw [List.length_cons]
        omega

theorem quiet_run {text : List Char} (unbroken : '\n' ∉ text) (present : text ≠ []) (rest : List Char) (starts : Bool) :
    Quiet starts (text ++ rest) ↔ (starts = true → looseNameAt (text ++ rest) = none) ∧ Quiet false rest := by
  induction text generalizing starts with
  | nil => exact absurd rfl present
  | cons c text ih =>
    rw [List.mem_cons,not_or] at unbroken
    rw [List.cons_append,Quiet,decide_eq_false fun same => unbroken.1 same.symm]
    by_cases more : text = []
    · subst more
      exact Iff.rfl
    · rw [ih unbroken.2 more]
      simp

section
variable {σ : Type} {read read' : σ → List Char} {mark mark' inner inner' : Char}

-- What stands in the text instead of something that a line cannot start with.
theorem quiet_cuts {cuts : List (Cut Char σ)} (blocked' : mark' = 's' ∨ mark' = '$')
    (sites : SitesIn (Marked read mark inner) cuts) (sites' : SitesIn (Marked read' mark' inner') cuts) {starts : Bool}
    (quiet : Quiet starts (spelled read cuts)) : Quiet starts (spelled read' cuts) := by
  induction cuts generalizing starts with
  | nil => exact quiet
  | cons cut cuts ih =>
    have tail : ∀ {starts},Quiet starts (spelled read cuts) → Quiet starts (spelled read' cuts) :=
      ih (fun s member => sites s (List.mem_cons_of_mem _ member))
        fun s member => sites' s (List.mem_cons_of_mem _ member)
    cases cut with
    | plain c =>
      rw [spelled_plain] at quiet ⊢
      refine ⟨?_,tail quiet.2⟩
      intro opens
      have silent := quiet.1 opens
      rcases first_site cuts with ⟨text,rfl⟩ | ⟨text,s,more,rfl⟩
      · rw [spelled_plains] at silent ⊢
        exact silent
      · have member : Cut.site s ∈ text.map Cut.plain ++ Cut.site s :: more := List.mem_append_right _ List.mem_cons_self
        obtain ⟨rest',starts'⟩ := (sites' s (List.mem_cons_of_mem _ member)).first
        rw [spelled_append,spelled_plains] at silent ⊢
        have front : looseNameAt (c :: text) = none := looseNameAt_shorter silent
        rw [spelled_site,starts']
        apply looseNameAt_blocked front
        rcases blocked' with is | is
        · exact .inl is
        · exact .inr (.inl is)
    | site s =>
      have marked := sites s List.mem_cons_self
      have marked' := sites' s List.mem_cons_self
      obtain ⟨rest',starts'⟩ := marked'.first
      have further := ((quiet_run marked.unbroken marked.present _ _).mp quiet).2
      apply (quiet_run marked'.unbroken marked'.present _ _).mpr ⟨?_,tail further⟩
      intro _
      rw [starts']
      apply looseNameAt_start
      rcases blocked' with rfl | rfl
      · decide
      · decide

end

section
variable [classes : WordClasses]

-- How a text falls into pieces, read from left to right.
inductive Cutting : Bool → List Char → List Char → List Piece → Prop
  | nil {starts : Bool} : Cutting starts [] [] []
  | hit {cs name rest body : List Char} {returnType : String} {found : List Piece}
      (opening : annotationAt cs = some ((name,returnType),rest)) (further : Cutting false rest body found) :
      Cutting true cs [] (⟨cs,name,returnType,body⟩ :: found)
  | skip {starts : Bool} {c : Char} {cs before : List Char} {found : List Piece}
      (silent : starts = true → annotationAt (c :: cs) = none) (further : Cutting (decide (c = '\n')) cs before found) :
      Cutting starts (c :: cs) (c :: before) found

omit classes in
theorem lineEnd_eq {cs rest : List Char} (is : lineEnd cs = some rest) :
    ∃ gap,cs = gap ++ rest ∧ (∀ c ∈ gap,isSpace c = true) ∧ (rest = [] ∨ ∃ more,rest = '\n' :: more) := by
  have whole := List.takeWhile_append_dropWhile (p := isSpace) (l := cs)
  unfold lineEnd at is
  split at is
  · rename_i all
    cases is
    rw [all] at whole
    exact ⟨_,whole.symm,fun c member => List.mem_takeWhile_imp member,.inl rfl⟩
  · obtain ⟨parts,found,rfl⟩ := Option.map_eq_some_iff.mp is
    have turned := congrArg List.reverse (splitFirst_eq found)
    rw [List.reverse_reverse] at turned
    simp only [List.singleton_append,List.reverse_append,List.reverse_cons,List.append_assoc] at turned
    refine ⟨parts.2.reverse,?_,?_,.inr ⟨_,rfl⟩⟩
    · calc cs = cs.takeWhile isSpace ++ cs.dropWhile isSpace := whole.symm
        _ = (parts.2.reverse ++ '\n' :: parts.1.reverse) ++ cs.dropWhile isSpace := by rw [turned]
        _ = _ := by rw [List.append_assoc]
    · intro c member
      apply List.mem_takeWhile_imp (l := cs)
      rw [turned]
      exact List.mem_append_left _ member

-- What an annotation consists of.
structure Opening (cs name : List Char) (returnType : String) (rest : List Char) (gap word gap' : List Char) : Prop where
  spelt : cs = "--".toList ++ (gap ++ ("name:".toList ++ (gap' ++ (name ++ (word ++ rest)))))
  space : ∀ c ∈ gap,isSpace c = true
  space' : ∀ c ∈ gap',isSpace c = true
  present : name ≠ []
  named : ∀ c ∈ name,WordClasses.isWord c = true
  known : returnType ∈ sqlcCommands
  plain : '-' ∉ word
  ends : rest = [] ∨ ∃ more,rest = '\n' :: more

omit classes in
theorem commandAt_eq {cs rest : List Char} {command : String} (is : commandAt cs = some (command,rest)) :
    command ∈ sqlcCommands ∧ ∃ gap,cs = command.toList ++ gap ++ rest ∧ (∀ c ∈ gap,isSpace c = true) ∧
      (rest = [] ∨ ∃ more,rest = '\n' :: more) := by
  unfold commandAt at is
  obtain ⟨word,member,is⟩ := List.exists_of_findSome?_eq_some is
  obtain ⟨tail,found,same⟩ := Option.map_eq_some_iff.mp is
  cases same
  obtain ⟨inner,opened,ended⟩ := Option.bind_eq_some_iff.mp found
  rw [List.isPrefixOf?_eq_some_iff_append_eq] at opened
  obtain ⟨gap,rfl,spaces,ends⟩ := lineEnd_eq ended
  exact ⟨member,gap,by rw [List.append_assoc,opened],spaces,ends⟩

theorem annotationAt_eq {cs name rest : List Char} {returnType : String}
    (is : annotationAt cs = some ((name,returnType),rest)) :
    ∃ gap word gap',Opening cs name returnType rest gap word gap' := by
  unfold annotationAt at is
  obtain ⟨first,opened,is⟩ := Option.bind_eq_some_iff.mp is
  obtain ⟨value,named,is⟩ := Option.bind_eq_some_iff.mp is
  obtain ⟨colon,closed,is⟩ := Option.bind_eq_some_iff.mp is
  obtain ⟨⟨command,tail⟩,commanded,is⟩ := Option.bind_eq_some_iff.mp is
  rw [List.isPrefixOf?_eq_some_iff_append_eq] at opened named closed
  obtain ⟨known,gap,spelt,spaces,ends⟩ := commandAt_eq commanded
  dsimp only at is
  split at is
  · cases is
  · rename_i present
    cases is
    have first' := List.takeWhile_append_dropWhile (p := isSpace) (l := first)
    have value' := List.takeWhile_append_dropWhile (p := isSpace) (l := value)
    have word' := List.takeWhile_append_dropWhile (p := WordClasses.isWord) (l := value.dropWhile isSpace)
    have gap' := List.takeWhile_append_dropWhile (p := isSpace)
      (l := (value.dropWhile isSpace).dropWhile WordClasses.isWord)
    rw [not_or] at present
    have solid : ∀ {text : List Char},(∀ c ∈ text,isSpace c = true) → '-' ∉ text :=
      fun spaces member => (space_other (spaces _ member)).1 rfl
    have commands : ∀ command ∈ sqlcCommands,'-' ∉ command.toList := by decide
    refine ⟨first.takeWhile isSpace,
      ((value.dropWhile isSpace).dropWhile WordClasses.isWord).takeWhile isSpace ++ (":".toList ++ (returnType.toList ++ gap)),
      value.takeWhile isSpace,?_,fun c member => List.mem_takeWhile_imp member,fun c member => List.mem_takeWhile_imp member,
      present.1,fun c member => List.mem_takeWhile_imp member,known,?_,ends⟩
    · rw [List.append_assoc,List.append_assoc,← spelt,closed,gap',word',value',named,first',opened]
    · simp only [List.mem_append,not_or]
      exact ⟨solid fun c member => List.mem_takeWhile_imp member,by decide,commands _ known,solid spaces⟩

theorem annotation_shorter {cs name rest : List Char} {returnType : String}
    (is : annotationAt cs = some ((name,returnType),rest)) : rest.length < cs.length := by
  obtain ⟨gap,word,gap',opening⟩ := annotationAt_eq is
  rw [opening.spelt]
  simp only [List.length_append]
  have dashes : "--".toList.length = 2 := rfl
  omega

theorem piecesWithin_cutting {fuel : Nat} {starts : Bool} {cs : List Char} (enough : cs.length ≤ fuel) :
    Cutting starts cs (piecesWithin fuel starts cs).1 (piecesWithin fuel starts cs).2 := by
  induction fuel generalizing starts cs with
  | zero =>
    rw [List.eq_nil_of_length_eq_zero (Nat.le_zero.mp enough)]
    exact .nil
  | succ fuel ih =>
    cases cs with
    | nil => exact .nil
    | cons c cs =>
      rw [piecesWithin]
      split
      · rename_i name returnType rest found
        split at found
        · rename_i opens
          rw [opens]
          have shorter := annotation_shorter found
          exact .hit found (ih (by omega))
        · cases found
      · rename_i absent
        refine .skip ?_ (ih (by simpa using enough))
        intro opens
        rwa [if_pos opens] at absent

theorem pieces_cutting (input : List Char) : Cutting true input (pieces input).1 (pieces input).2 :=
  piecesWithin_cutting (Nat.le_refl _)

-- What comes after a text that has no annotation.
def following (found : List Piece) : List Char := (found.head?.map Piece.left).getD []

theorem Cutting.whole {starts : Bool} {cs before : List Char} {found : List Piece} (cut : Cutting starts cs before found) :
    cs = before ++ following found := by
  induction cut with
  | nil => rfl
  | hit => rfl
  | skip _ _ ih => rw [List.cons_append,← ih]

theorem Cutting.shorter {starts : Bool} {cs before : List Char} {found : List Piece} (cut : Cutting starts cs before found) :
    ∀ piece ∈ found,piece.left.length ≤ cs.length := by
  induction cut with
  | nil =>
    intro piece member
    cases member
  | hit opening _ ih =>
    have shorter := annotation_shorter opening
    intro piece member
    rcases List.mem_cons.mp member with rfl | later
    · exact Nat.le_refl _
    · have := ih piece later
      omega
  | skip _ _ ih =>
    intro piece member
    have := ih piece member
    rw [List.length_cons]
    omega

theorem Cutting.ended {starts : Bool} {cs before : List Char} {found : List Piece} (cut : Cutting starts cs before found) :
    (found = [] ∨ before = [] ∧ starts = true ∨ before.getLast? = some '\n') ∧ ∀ piece ∈ found.dropLast,Ended piece.body := by
  induction cut with
  | nil => exact ⟨.inl rfl,fun _ member => by cases member⟩
  | @hit cs name rest body returnType found opening further ih =>
    refine ⟨.inr (.inl ⟨rfl,rfl⟩),?_⟩
    intro piece member
    cases found with
    | nil => cases member
    | cons next found =>
      rcases List.mem_cons.mp member with rfl | later
      · rcases ih.1 with none | ⟨_,never⟩ | last
        · cases none
        · cases never
        · exact .inr last
      · exact ih.2 piece later
  | @skip starts c cs before found silent further ih =>
    refine ⟨?_,ih.2⟩
    rcases ih.1 with none | ⟨rfl,newline⟩ | last
    · exact .inl none
    · rw [of_decide_eq_true newline]
      exact .inr (.inr rfl)
    · right
      right
      cases before with
      | nil => cases last
      | cons d before => rwa [List.getLast?_cons_cons]

theorem Cutting.proper {starts : Bool} {cs before : List Char} {found : List Piece} (cut : Cutting starts cs before found) :
    ∀ piece ∈ found,piece.Proper ∧ (piece.body = [] ∨ ∃ more,piece.body = '\n' :: more) := by
  induction cut with
  | nil =>
    intro piece member
    cases member
  | hit opening further ih =>
    obtain ⟨gap,word,gap',opening⟩ := annotationAt_eq opening
    intro piece member
    rcases List.mem_cons.mp member with rfl | later
    · refine ⟨⟨opening.present,opening.named,opening.known⟩,?_⟩
      rcases opening.ends with rfl | ⟨more,rfl⟩
      · cases further
        exact .inl rfl
      · cases further with
        | skip _ _ => exact .inr ⟨_,rfl⟩
    · exact ih piece later
  | skip _ _ ih => exact ih

omit classes in
theorem looseNames_shorter {fuel : Nat} {starts : Bool} {cs : List Char} :
    ∀ loose ∈ looseNamesWithin fuel starts cs,loose.1.length ≤ cs.length := by
  induction fuel generalizing starts cs with
  | zero =>
    intro loose member
    cases member
  | succ fuel ih =>
    cases cs with
    | nil =>
      intro loose member
      cases member
    | cons c cs =>
      intro loose member
      rw [looseNamesWithin] at member
      split at member
      · rename_i rest found
        split at found
        · obtain ⟨head,tail,whole,_,is⟩ := looseNameAt_eq found
          have short : rest.length ≤ (c :: cs).length := by
            have first := (List.dropWhile_suffix (p := isSpace) (l := tail)).length_le
            have second := (List.dropWhile_suffix (p := (· ≠ '\n')) (l := tail.dropWhile isSpace)).length_le
            rw [whole,List.length_append,is]
            omega
          rcases List.mem_cons.mp member with rfl | later
          · exact Nat.le_refl _
          · exact Nat.le_trans (ih loose later) short
        · cases found
      · have := ih loose member
        rw [List.length_cons]
        omega

omit classes in
-- A stretch that no annotation starts in.
theorem looseNames_stretch {stretch rest : List Char} (plain : '-' ∉ stretch) (ends : rest = [] ∨ ∃ more,rest = '\n' :: more)
    (fuel : Nat) (starts : Bool) :
    looseNamesWithin (stretch.length + fuel) starts (stretch ++ rest) = looseNamesWithin fuel false rest := by
  induction stretch generalizing starts with
  | nil =>
    rw [List.length_nil,Nat.zero_add,List.nil_append]
    cases fuel with
    | zero => rfl
    | succ fuel =>
      rcases ends with rfl | ⟨more,rfl⟩
      · rfl
      · have silent : looseNameAt ('\n' :: more) = none := looseNameAt_start (by decide) more
        rw [looseNamesWithin,looseNamesWithin,silent]
        cases starts <;> rfl
  | cons c stretch ih =>
    rw [List.mem_cons,not_or] at plain
    have silent := looseNameAt_start (fun same => plain.1 same.symm) (stretch ++ rest)
    have fuelled : (c :: stretch).length + fuel = (stretch.length + fuel) + 1 := by
      rw [List.length_cons]
      omega
    rw [fuelled,List.cons_append,looseNamesWithin,silent,ite_self]
    exact ih plain.2 _

variable (lawful : classes.Lawful)
include lawful

-- Where an annotation starts a loose one does, and ends before it or with the
-- line of its name.
theorem annotation_loose {cs name rest : List Char} {returnType : String}
    (is : annotationAt cs = some ((name,returnType),rest)) :
    ∃ stretch,looseNameAt cs = some (stretch ++ rest) ∧ '-' ∉ stretch ∧ (rest = [] ∨ ∃ more,rest = '\n' :: more) := by
  obtain ⟨gap,word,gap',opening⟩ := annotationAt_eq is
  have loose : Loose ("--".toList ++ (gap ++ ("name".toList ++ ([] ++ [':'])))) :=
    ⟨gap,"name".toList,[],rfl,opening.space,by decide,fun _ member => by cases member⟩
  have found := looseNameAt_text loose (gap' ++ (name ++ (word ++ rest)))
  have whole : cs = "--".toList ++ (gap ++ ("name".toList ++ ([] ++ [':']))) ++ (gap' ++ (name ++ (word ++ rest))) := by
    rw [opening.spelt]
    simp
  have dropped : (gap' ++ (name ++ (word ++ rest))).dropWhile isSpace = name ++ (word ++ rest) := by
    obtain ⟨c,more,rfl,solid⟩ := word_first lawful opening.present opening.named
    rw [List.dropWhile_append_of_pos opening.space',List.cons_append,List.dropWhile_cons_of_neg (by simp [solid])]
  have line : (name ++ (word ++ rest)).dropWhile (· ≠ '\n') = (name ++ word).dropWhile (· ≠ '\n') ++ rest := by
    rw [← List.append_assoc]
    rcases opening.ends with rfl | ⟨more,rfl⟩
    · rw [List.append_nil,List.append_nil]
    · exact dropWhile_barrier (by decide) _ _
  refine ⟨(name ++ word).dropWhile (· ≠ '\n'),?_,?_,opening.ends⟩
  · rw [whole,found,dropped,line]
  · intro member
    rcases List.mem_append.mp ((List.dropWhile_suffix _).subset member) with named | other
    · exact word_ne lawful (opening.named _ named) (by decide) (by decide) rfl
    · exact opening.plain other

-- A file that is converted has no line that only seems to start an annotation.
theorem quiet_cutting {starts : Bool} {cs before : List Char} {found : List Piece} (cut : Cutting starts cs before found)
    {fuel : Nat} (enough : cs.length ≤ fuel)
    (strict : ∀ loose ∈ looseNamesWithin fuel starts cs,loose.1 ∈ found.map Piece.left) :
    Quiet starts before ∧ ∀ piece ∈ found,Quiet false piece.body := by
  induction cut generalizing fuel with
  | nil => exact ⟨trivial,fun _ member => by cases member⟩
  | @hit cs name rest body returnType found opening further ih =>
    obtain ⟨stretch,loose,plain,ends⟩ := annotation_loose lawful opening
    have shorter := annotation_shorter opening
    have short : (stretch ++ rest).length < cs.length := by
      obtain ⟨head,tail,whole,⟨gap,word,gap',spelt⟩,is⟩ := looseNameAt_eq loose
      have first := (List.dropWhile_suffix (p := isSpace) (l := tail)).length_le
      have second := (List.dropWhile_suffix (p := (· ≠ '\n')) (l := tail.dropWhile isSpace)).length_le
      obtain ⟨chars,opens,_⟩ := spelt.tail
      rw [whole,is,opens]
      simp only [List.length_append,List.length_cons]
      omega
    rw [List.length_append] at short
    cases fuel with
    | zero => omega
    | succ fuel =>
      cases cs with
      | nil => cases shorter
      | cons c cs =>
        rw [looseNamesWithin,if_pos rfl,loose] at strict
        have split : fuel = stretch.length + (fuel - stretch.length) := by omega
        rw [split] at strict
        dsimp only at strict
        rw [looseNames_stretch plain ends] at strict
        have tail := @ih (fuel - stretch.length) (by omega) (by
          intro other member
          have inside := strict other (List.mem_cons_of_mem _ member)
          rcases List.mem_cons.mp inside with same | later
          · have length := looseNames_shorter other member
            rw [same] at length
            have whole : (⟨c :: cs,name,returnType,body⟩ : Piece).left = c :: cs := rfl
            rw [whole] at length
            omega
          · exact later)
        refine ⟨trivial,?_⟩
        intro piece member
        rcases List.mem_cons.mp member with rfl | later
        · exact tail.1
        · exact tail.2 piece later
  | @skip starts c cs before found silent further ih =>
    cases fuel with
    | zero => cases enough
    | succ fuel =>
      have absent : (if starts = true then looseNameAt (c :: cs) else none) = none := by
        rw [Option.eq_none_iff_forall_not_mem]
        intro rest is
        have is : (if starts = true then looseNameAt (c :: cs) else none) = some rest := is
        rw [looseNamesWithin,is] at strict
        obtain ⟨piece,inside,same⟩ := List.mem_map.mp (strict _ List.mem_cons_self)
        have short := further.shorter piece inside
        rw [same,List.length_cons] at short
        omega
      rw [looseNamesWithin,absent] at strict
      obtain ⟨quiet,bodies⟩ := ih (by simpa using enough) strict
      refine ⟨⟨?_,quiet⟩,bodies⟩
      intro opens
      rw [if_pos opens,further.whole,← List.cons_append] at absent
      exact looseNameAt_shorter absent

omit lawful in
theorem quiet_header {piece : Piece} {rest : List Char} (whole : ∀ line ∈ piece.header,Whole line) (quiet : Quiet true rest) :
    Quiet true (piece.header.flatMap (fun line => line ++ ['\n']) ++ rest) := by
  have sign : ∀ line ∈ piece.header,∃ more,line = '-' :: '-' :: ' ' :: '@' :: more := by
    intro line member
    rcases List.mem_cons.mp member with rfl | member
    · exact ⟨_,rfl⟩
    rcases List.mem_cons.mp member with rfl | member
    · exact ⟨_,rfl⟩
    obtain ⟨param,_,rfl⟩ := List.mem_map.mp member
    exact ⟨_,rfl⟩
  generalize piece.header = header at whole sign
  induction header with
  | nil => exact quiet
  | cons line header ih =>
    have tail := ih (fun other member => whole other (List.mem_cons_of_mem _ member))
      fun other member => sign other (List.mem_cons_of_mem _ member)
    have unbroken := (whole line List.mem_cons_self).unbroken
    obtain ⟨more,rfl⟩ := sign line List.mem_cons_self
    rw [List.flatMap_cons,List.append_assoc,List.append_assoc,List.singleton_append]
    apply (quiet_run unbroken (List.cons_ne_nil _ _) _ _).mpr
    constructor
    · intro _
      rfl
    · constructor
      · intro never
        cases never
      · exact tail

theorem quiet_renamed {starts : Bool} {text : List Char} (number : List Char → Nat) (quiet : Quiet starts text) :
    Quiet starts (renamed number text) := by
  rw [← (scan_text lawful (callCuts_scan lawful text)).1] at quiet
  exact quiet_cuts (.inr rfl) (calls_marked lawful text) (fun call _ => placeholder_marked number call) quiet

theorem quiet_pieces {found : List Piece} (proper : ∀ piece ∈ found,piece.Proper)
    (starts : ∀ piece ∈ found,piece.body = [] ∨ ∃ more,piece.body = '\n' :: more)
    (ended : ∀ piece ∈ found.dropLast,Ended piece.body) (quiet : ∀ piece ∈ found,Quiet false piece.body) :
    Quiet true (found.flatMap Piece.converted) ∧
      (found.flatMap Piece.converted = [] ∨ ∃ more,found.flatMap Piece.converted = '-' :: more) := by
  induction found with
  | nil => exact ⟨trivial,.inl rfl⟩
  | cons piece found ih =>
    obtain ⟨tail,dash⟩ := ih (fun other member => proper other (List.mem_cons_of_mem _ member))
      (fun other member => starts other (List.mem_cons_of_mem _ member)) (by
        intro other member
        cases found with
        | nil => cases member
        | cons next found => exact ended other (List.mem_cons_of_mem _ member))
      fun other member => quiet other (List.mem_cons_of_mem _ member)
    have own : Quiet true piece.body := by
      have body := quiet piece List.mem_cons_self
      rcases starts piece List.mem_cons_self with none | ⟨more,is⟩
      · rw [none]
        trivial
      · rw [is] at body ⊢
        exact ⟨fun _ => looseNameAt_start (by decide) more,body.2⟩
    have body := quiet_renamed lawful piece.number own
    have inner : Quiet true (renamed piece.number piece.body ++ found.flatMap Piece.converted) := by
      cases found with
      | nil => rwa [List.flatMap_nil,List.append_nil]
      | cons next found =>
        exact quiet_append (ended_renamed lawful piece.number (ended piece List.mem_cons_self)) body tail dash
    have whole := header_whole lawful (proper piece List.mem_cons_self)
    rw [List.flatMap_cons,converted_eq lawful,List.append_assoc]
    exact ⟨quiet_header whole inner,.inr ⟨_,rfl⟩⟩

end

section
variable [classes : WordClasses]

omit classes in
theorem looseNames_quiet {starts : Bool} {text : List Char} (quiet : Quiet starts text) (fuel : Nat) :
    looseNamesWithin fuel starts text = [] := by
  induction fuel generalizing starts text with
  | zero => rfl
  | succ fuel ih =>
    cases text with
    | nil => rfl
    | cons c text =>
      have absent : (if starts = true then looseNameAt (c :: text) else none) = none := by
        split
        · rename_i opens
          exact quiet.1 opens
        · rfl
      rw [looseNamesWithin,absent]
      exact ih quiet.2

variable (lawful : classes.Lawful)
include lawful

theorem pieces_quiet {starts : Bool} {text before : List Char} {found : List Piece} (quiet : Quiet starts text)
    (cut : Cutting starts text before found) : found = [] := by
  induction cut with
  | nil => rfl
  | @hit cs _ _ _ _ _ opening _ _ =>
    obtain ⟨stretch,loose,_⟩ := annotation_loose lawful opening
    cases cs with
    | nil => cases loose
    | cons c cs =>
      rw [quiet.1 rfl] at loose
      cases loose
  | skip _ _ ih => exact ih quiet.2

-- Nothing is left to convert.
theorem convert_quiet {text : List Char} (quiet : Quiet true text) : convertQueryContent text = .ok ⟨text,0,0⟩ := by
  have none : (pieces text).2 = [] := pieces_quiet lawful quiet (pieces_cutting text)
  have loose : looseNames text = [] := looseNames_quiet quiet _
  unfold convertQueryContent
  rw [loose]
  cases split : pieces text with
  | mk before found =>
    rw [split] at none
    change found = [] at none
    subst none
    rfl

end

end Scythe.Migrate
