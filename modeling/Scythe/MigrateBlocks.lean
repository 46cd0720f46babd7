import Scythe.MigrateLines

-- The blocks of a converted file and what their annotations say.
namespace Scythe.Migrate
open Text Splice Verification QueryFile

-- The command that a command of sqlc goes by.
def corresponding (returnType : String) : Option QueryCommand :=
  match returnType with
  | "one" => some .one
  | "many" => some .many
  | "exec" => some .exec
  | "execrows" => some .execRows
  | "execresult" => some .execResult
  | "batchone" => some .batch
  | "batchmany" => some .batch
  | "batchexec" => some .batch
  | _ => none

theorem corresponding_single {returnType : String} {command : QueryCommand} (is : corresponding returnType = some command) :
    command ≠ .grouped := by
  rintro rfl
  unfold corresponding at is
  split at is <;> cases is

def sharedCommands : List String := ["one","many","exec"]

theorem trimEnd_solid {text : List Char} {c : Char} (last : text.getLast? = some c) (solid : isSpace c = false) :
    trimEndChars text = text := by
  have whole := List.dropLast_append_getLast? c last
  unfold trimEndChars
  rw [← whole,List.reverse_append,List.reverse_singleton,List.singleton_append,
    List.dropWhile_cons_of_neg (by simp [solid]),List.reverse_cons,List.reverse_reverse]

def annotationText (keyword value : List Char) : List Char := "-- @".toList ++ (keyword ++ ' ' :: value)

theorem annotationIn_text {keyword value : List Char} (word : ∀ c ∈ keyword,isSpace c = false)
    (first : ∃ c rest,value = c :: rest ∧ isSpace c = false) (ends : ∃ c,value.getLast? = some c ∧ isSpace c = false) :
    annotationIn (annotationText keyword value) = some (keyword.map asciiLower,value) := by
  obtain ⟨c,rest,rfl,solid⟩ := first
  obtain ⟨d,last,solid'⟩ := ends
  have ending : (annotationText keyword (c :: rest)).getLast? = some d := by
    unfold annotationText
    rw [← List.append_assoc,← List.singleton_append,← List.append_assoc,List.getLast?_append,last]
    rfl
  have trimmed : trimChars (annotationText keyword (c :: rest)) = annotationText keyword (c :: rest) := by
    rw [trimChars_eq]
    have start : (annotationText keyword (c :: rest)).dropWhile isSpace = annotationText keyword (c :: rest) := rfl
    rw [start]
    exact trimEnd_solid ending solid'
  have gap : (' ' :: c :: rest).takeWhile (fun c => !isSpace c) = [] := rfl
  have stays : (' ' :: c :: rest).dropWhile (fun c => !isSpace c) = ' ' :: c :: rest := rfl
  have all : ∀ c ∈ keyword,(!isSpace c) = true := by
    intro c member
    rw [word c member]
    rfl
  have value : trimChars (' ' :: c :: rest) = c :: rest := by
    have dropped : (' ' :: c :: rest).dropWhile isSpace = c :: rest := by
      rw [List.dropWhile_cons_of_pos (by decide),List.dropWhile_cons_of_neg (by simp [solid])]
    rw [trimChars_eq,dropped]
    exact trimEnd_solid last solid'
  unfold annotationIn
  rw [trimmed]
  have inner : "--".toList.isPrefixOf? (annotationText keyword (c :: rest)) = some (' ' :: '@' :: (keyword ++ ' ' :: c :: rest)) := by
    rw [List.isPrefixOf?_eq_some_iff_append_eq]
    rfl
  have sign : "@".toList.isPrefixOf? ((' ' :: '@' :: (keyword ++ ' ' :: c :: rest)).dropWhile isSpace) =
      some (keyword ++ ' ' :: c :: rest) := by
    rw [List.isPrefixOf?_eq_some_iff_append_eq]
    rfl
  rw [inner,Option.bind_eq_bind,Option.bind_some,sign,Option.bind_some,List.takeWhile_append_of_pos all,
    List.dropWhile_append_of_pos all,gap,stays,value,List.append_nil]
  rfl

theorem Ended.append {text rest : List Char} (first : Ended text) (second : Ended rest) : Ended (text ++ rest) := by
  rcases second with rfl | last
  · rwa [List.append_nil]
  · right
    rw [List.getLast?_append,last]
    rfl

theorem Ended.line (text : List Char) : Ended (text ++ ['\n']) := .inr List.getLast?_concat

section
variable [classes : WordClasses]

structure Piece.Proper (piece : Piece) : Prop where
  present : piece.name ≠ []
  word : ∀ c ∈ piece.name,WordClasses.isWord c = true
  known : piece.returnType ∈ sqlcCommands

def Piece.number (piece : Piece) : List Char → Nat := numberOf (maxPositional piece.body) (paramNames piece.body)

def paramText (maxPositional : Nat) (param : List Char × Nat) : List Char :=
  annotationText "param".toList (placeholder (maxPositional + 1 + param.2) ++ ' ' :: param.1)

def Piece.sectioned (piece : Piece) : Section :=
  (annotationText "name".toList piece.name,annotationText "returns".toList (':' :: piece.returnType.toList) ::
    ((paramNames piece.body).zipIdx.map (paramText (maxPositional piece.body)) ++
      lines (renamed piece.number piece.body)))

omit classes in
theorem namesFrom_mem {cuts : List (Cut Char Call)} {names : List (List Char)} {name : List Char}
    (member : name ∈ namesFrom names cuts) : name ∈ names ∨ ∃ call,Cut.site call ∈ cuts ∧ call.name = name := by
  induction cuts generalizing names with
  | nil => exact .inl member
  | cons cut cuts ih =>
    cases cut with
    | plain c =>
      rcases ih member with before | ⟨call,inside,is⟩
      · exact .inl before
      · exact .inr ⟨call,List.mem_cons_of_mem _ inside,is⟩
    | site call =>
      rcases ih member with before | ⟨other,inside,is⟩
      · unfold nameAdded at before
        split at before
        · exact .inl before
        · rcases List.mem_append.mp before with old | new
          · exact .inl old
          · exact .inr ⟨call,List.mem_cons_self,(List.mem_singleton.mp new).symm⟩
      · exact .inr ⟨other,List.mem_cons_of_mem _ inside,is⟩

variable (lawful : classes.Lawful)
include lawful

theorem paramNames_proper {body name : List Char} (member : name ∈ paramNames body) :
    name ≠ [] ∧ ∀ c ∈ name,WordClasses.isWord c = true := by
  rcases namesFrom_mem member with none | ⟨call,inside,rfl⟩
  · cases none
  · exact (scan_text lawful (callCuts_scan lawful body)).2 call inside

theorem word_line {c : Char} (word : WordClasses.isWord c = true) : c ≠ '\n' ∧ c ≠ '\r' :=
  ⟨word_ne lawful word (by decide) (by decide),word_ne lawful word (by decide) (by decide)⟩

theorem word_first {name : List Char} (present : name ≠ []) (word : ∀ c ∈ name,WordClasses.isWord c = true) :
    ∃ c rest,name = c :: rest ∧ isSpace c = false := by
  cases name with
  | nil => exact absurd rfl present
  | cons c rest => exact ⟨c,rest,rfl,word_solid lawful (word c List.mem_cons_self)⟩

theorem word_last {name : List Char} (present : name ≠ []) (word : ∀ c ∈ name,WordClasses.isWord c = true) :
    ∃ c,name.getLast? = some c ∧ isSpace c = false := by
  have last := List.getLast?_eq_some_getLast present
  exact ⟨_,last,word_solid lawful (word _ (List.mem_of_getLast? last))⟩

end

-- A line that is written whole.
structure Whole (line : List Char) : Prop where
  unbroken : '\n' ∉ line
  plain : '\r' ∉ line

theorem whole_of {line : List Char} (each : ∀ c ∈ line,c ≠ '\n' ∧ c ≠ '\r') : Whole line :=
  ⟨fun member => (each _ member).1 rfl,fun member => (each _ member).2 rfl⟩

theorem lines_whole {found : List (List Char)} (whole : ∀ line ∈ found,Whole line) (rest : List Char) :
    lines (found.flatMap (fun line => line ++ ['\n']) ++ rest) = found ++ lines rest := by
  induction found with
  | nil => rfl
  | cons line found ih =>
    obtain ⟨unbroken,plain⟩ := whole line List.mem_cons_self
    rw [List.flatMap_cons,List.append_assoc,List.append_assoc,List.singleton_append,lines_line unbroken plain,
      ih fun other member => whole other (List.mem_cons_of_mem _ member),List.cons_append]

section
variable [classes : WordClasses] 

def Piece.header (piece : Piece) : List (List Char) :=
  annotationText "name".toList piece.name :: annotationText "returns".toList (':' :: piece.returnType.toList) ::
    (paramNames piece.body).zipIdx.map (paramText (maxPositional piece.body))

variable (lawful : classes.Lawful)
include lawful

theorem converted_eq (piece : Piece) :
    piece.converted = piece.header.flatMap (fun line => line ++ ['\n']) ++ renamed piece.number piece.body := by
  have params : ∀ (names : List (List Char × Nat)) (m : Nat),
      names.flatMap (fun param => "-- @param ".toList ++ placeholder (m + 1 + param.2) ++ ' ' :: param.1 ++ ['\n']) =
        (names.map (paramText m)).flatMap fun line => line ++ ['\n'] := by
    intro names m
    rw [List.flatMap_map]
    congr 1
  unfold Piece.converted Piece.header paramLines
  rw [numbered_eq lawful,params]
  unfold annotationText Piece.number
  simp

theorem header_whole {piece : Piece} (proper : piece.Proper) : ∀ line ∈ piece.header,Whole line := by
  have ofParts : ∀ {keyword value : List Char},Whole keyword → Whole value → Whole (annotationText keyword value) := by
    intro keyword value first second
    constructor
    · simp [annotationText,first.unbroken,second.unbroken]
    · simp [annotationText,first.plain,second.plain]
  have name : ∀ {name : List Char},(∀ c ∈ name,WordClasses.isWord c = true) → Whole name :=
    fun word => whole_of fun c member => word_line lawful (word c member)
  have commands : ∀ command ∈ sqlcCommands,'\n' ∉ ':' :: command.toList ∧ '\r' ∉ ':' :: command.toList := by decide
  intro line member
  rcases List.mem_cons.mp member with rfl | member
  · exact ofParts ⟨by decide,by decide⟩ (name proper.word)
  rcases List.mem_cons.mp member with rfl | member
  · have command := commands _ proper.known
    exact ofParts ⟨by decide,by decide⟩ ⟨command.1,command.2⟩
  obtain ⟨param,inside,rfl⟩ := List.mem_map.mp member
  have inner := (paramNames_proper lawful (List.fst_mem_of_mem_zipIdx inside)).2
  have digits : Whole (placeholder (maxPositional piece.body + 1 + param.2)) := by
    apply whole_of
    intro c digit
    rcases List.mem_cons.mp digit with rfl | digit
    · exact ⟨by decide,by decide⟩
    · have solid := digit_solid (placeholder_digits _ c digit)
      constructor
      · rintro rfl
        exact absurd solid (by decide)
      · rintro rfl
        exact absurd solid (by decide)
  have second := name inner
  apply ofParts ⟨by decide,by decide⟩
  constructor
  · simp [digits.unbroken,second.unbroken]
  · simp [digits.plain,second.plain]

theorem lines_converted {piece : Piece} (proper : piece.Proper) (rest : List Char) (ended : rest = [] ∨ Ended piece.body) :
    lines (piece.converted ++ rest) = piece.sectioned.1 :: piece.sectioned.2 ++ lines rest := by
  have body : lines (renamed piece.number piece.body ++ rest) = lines (renamed piece.number piece.body) ++ lines rest := by
    rcases ended with rfl | ended
    · rw [List.append_nil]
      exact (List.append_nil _).symm
    · exact lines_append (ended_renamed lawful piece.number ended) rest
  rw [converted_eq lawful,List.append_assoc,lines_whole (header_whole lawful proper),body]
  unfold Piece.header Piece.sectioned
  simp

theorem lines_pieces {found : List Piece} (proper : ∀ piece ∈ found,piece.Proper)
    (ended : ∀ piece ∈ found.dropLast,Ended piece.body) :
    lines (found.flatMap Piece.converted) = sectionLines (found.map Piece.sectioned) := by
  induction found with
  | nil => rfl
  | cons piece found ih =>
    have tail : lines (found.flatMap Piece.converted) = sectionLines (found.map Piece.sectioned) := by
      apply ih fun other member => proper other (List.mem_cons_of_mem _ member)
      intro other member
      cases found with
      | nil => cases member
      | cons next found => exact ended other (List.mem_cons_of_mem _ member)
    have closes : found.flatMap Piece.converted = [] ∨ Ended piece.body := by
      cases found with
      | nil => exact .inl rfl
      | cons next found => exact .inr (ended piece List.mem_cons_self)
    rw [List.flatMap_cons,lines_converted lawful (proper piece List.mem_cons_self) _ closes,tail]
    rfl

omit lawful in
theorem params_quiet (piece : Piece) : ∀ line ∈ (paramNames piece.body).zipIdx.map (paramText (maxPositional piece.body)),
    opensBlock line = false := by
  intro line member
  obtain ⟨param,_,rfl⟩ := List.mem_map.mp member
  rfl

theorem sectioned_count (piece : Piece) :
    (piece.sectioned.1 :: piece.sectioned.2).countP opensBlock = 1 + (lines piece.body).countP opensBlock := by
  have opens : opensBlock piece.sectioned.1 = true := rfl
  have returns : opensBlock (annotationText "returns".toList (':' :: piece.returnType.toList)) = false := rfl
  have params : ((paramNames piece.body).zipIdx.map (paramText (maxPositional piece.body))).countP opensBlock = 0 := by
    rw [List.countP_eq_zero]
    intro line member
    rw [params_quiet piece line member]
    exact Bool.false_ne_true
  rw [List.countP_cons,if_pos opens]
  unfold Piece.sectioned
  rw [List.countP_cons,returns,List.countP_append,params,opening_renamed lawful]
  simp only [Bool.false_eq_true,if_false]
  omega

theorem sections_count (found : List Piece) :
    (sectionLines (found.map Piece.sectioned)).countP opensBlock =
      found.length + (found.map fun piece => (lines piece.body).countP opensBlock).sum := by
  induction found with
  | nil => rfl
  | cons piece found ih =>
    have unfolded : sectionLines ((piece :: found).map Piece.sectioned) =
        (piece.sectioned.1 :: piece.sectioned.2) ++ sectionLines (found.map Piece.sectioned) := rfl
    rw [unfolded,List.countP_append,sectioned_count lawful,ih,List.map_cons,List.sum_cons,List.length_cons]
    omega

-- No line of the text opens a block.
def Closed (text : List Char) : Prop := ∀ line ∈ lines text,opensBlock line = false

omit classes lawful in
theorem closed_count (text : List Char) : Closed text ↔ (lines text).countP opensBlock = 0 := by
  rw [List.countP_eq_zero]
  exact forall₂_congr fun line _ => (Bool.not_eq_true _).symm.to_iff

theorem closed_renamed (piece : Piece) : Closed (renamed piece.number piece.body) ↔ Closed piece.body := by
  rw [closed_count,closed_count,opening_renamed lawful]

-- What a converted file consists of.
structure Laid (before : List Char) (found : List Piece) : Prop where
  proper : ∀ piece ∈ found,piece.Proper
  first : found = [] ∨ Ended before
  ended : ∀ piece ∈ found.dropLast,Ended piece.body

theorem lines_laid {before : List Char} {found : List Piece} (laid : Laid before found) :
    lines (before ++ found.flatMap Piece.converted) = lines before ++ sectionLines (found.map Piece.sectioned) := by
  rcases laid.first with rfl | ended
  · rw [List.flatMap_nil,List.append_nil]
    exact (List.append_nil _).symm
  · rw [lines_append ended,lines_pieces lawful laid.proper laid.ended]

theorem blocks_count {before : List Char} {found : List Piece} (laid : Laid before found) :
    (splitQueryFile (before ++ found.flatMap Piece.converted)).length = found.length ↔
      Closed before ∧ ∀ piece ∈ found,Closed piece.body := by
  rw [splitQueryFile_length,lines_laid lawful laid,List.countP_append,sections_count lawful,closed_count]
  have zero : (found.map fun piece => (lines piece.body).countP opensBlock).sum = 0 ↔
      ∀ piece ∈ found,Closed piece.body := by
    rw [List.sum_eq_zero_iff_forall_eq_nat]
    constructor
    · intro all piece member
      exact (closed_count _).mpr (all _ (List.mem_map_of_mem member))
    · intro all count member
      obtain ⟨piece,inside,rfl⟩ := List.mem_map.mp member
      exact (closed_count _).mp (all piece inside)
  rw [← zero]
  omega

def Piece.block (piece : Piece) : List Char := joinLines piece.sectioned.1 piece.sectioned.2

theorem blocks_are {before : List Char} {found : List Piece} (laid : Laid before found) (quiet : Closed before)
    (bodies : ∀ piece ∈ found,Closed piece.body) :
    splitQueryFile (before ++ found.flatMap Piece.converted) = found.map Piece.block := by
  have parts : ∀ part ∈ found.map Piece.sectioned,part.Block := by
    intro part member
    obtain ⟨piece,inside,rfl⟩ := List.mem_map.mp member
    refine ⟨rfl,?_⟩
    intro line later
    rcases List.mem_cons.mp later with rfl | later
    · rfl
    · rcases List.mem_append.mp later with param | body
      · exact params_quiet piece line param
      · exact (closed_renamed lawful piece).mpr (bodies piece inside) line body
  rw [splitQueryFile_sections (lines_laid lawful laid) quiet parts,List.map_map]
  rfl

theorem annotations_block {piece : Piece} (proper : piece.Proper) : annotationsOf piece.block =
    ("name".toList,piece.name) :: ("returns".toList,':' :: piece.returnType.toList) ::
      (((paramNames piece.body).zipIdx.map (paramText (maxPositional piece.body))).filterMap annotationIn ++
        annotationsOf (renamed piece.number piece.body)) := by
  have whole := header_whole lawful proper
  have name : annotationIn (annotationText "name".toList piece.name) = some ("name".toList,piece.name) :=
    annotationIn_text (List.all_iff_forall_prop.mp (by decide)) (word_first lawful proper.present proper.word) (word_last lawful proper.present proper.word)
  have ends : ∀ command ∈ sqlcCommands,∃ c,(':' :: command.toList).getLast? = some c ∧ isSpace c = false := by
    intro command member
    have all : ∀ command ∈ sqlcCommands,((':' :: command.toList).all fun c => isSpace c = false) = true := by decide
    have each := fun command member => List.all_iff_forall_prop.mp (all command member)
    have last := List.getLast?_eq_some_getLast (List.cons_ne_nil ':' command.toList)
    exact ⟨_,last,each command member _ (List.mem_of_getLast? last)⟩
  have returns : annotationIn (annotationText "returns".toList (':' :: piece.returnType.toList)) =
      some ("returns".toList,':' :: piece.returnType.toList) :=
    annotationIn_text (List.all_iff_forall_prop.mp (by decide)) ⟨_,_,rfl,by decide⟩ (ends _ proper.known)
  have first : '\n' ∉ piece.sectioned.1 := (whole _ List.mem_cons_self).unbroken
  have others : ∀ line ∈ piece.sectioned.2,'\n' ∉ line := by
    intro line member
    rcases List.mem_cons.mp member with rfl | member
    · exact (whole _ (List.mem_cons_of_mem _ List.mem_cons_self)).unbroken
    · rcases List.mem_append.mp member with param | body
      · exact (whole _ (List.mem_cons_of_mem _ (List.mem_cons_of_mem _ param))).unbroken
      · exact lines_unbroken _ line body
  unfold Piece.block
  rw [annotationsOf_join first others]
  unfold Piece.sectioned
  rw [List.filterMap_cons_some name,List.filterMap_cons_some returns,List.filterMap_append]
  rfl

theorem params_values (piece : Piece) (keyword : String) (other : "param".toList ≠ keyword.toList) :
    valuesOf keyword (((paramNames piece.body).zipIdx.map (paramText (maxPositional piece.body))).filterMap annotationIn) =
      [] := by
  have each : ∀ param ∈ (paramNames piece.body).zipIdx,∃ value,
      annotationIn (paramText (maxPositional piece.body) param) = some ("param".toList,value) := by
    intro param member
    obtain ⟨present,word⟩ := paramNames_proper lawful (List.fst_mem_of_mem_zipIdx member)
    obtain ⟨c,last,solid⟩ := word_last lawful present word
    refine ⟨_,annotationIn_text (List.all_iff_forall_prop.mp (by decide)) ⟨_,_,rfl,by decide⟩ ⟨c,?_,solid⟩⟩
    rw [← List.singleton_append,List.getLast?_append,List.getLast?_append,last]
    rfl
  rw [valuesOf_lines]
  apply List.flatMap_eq_nil_iff.mpr
  intro line member
  obtain ⟨param,inside,rfl⟩ := List.mem_map.mp member
  obtain ⟨value,is⟩ := each param inside
  unfold valuesAt valuesOf
  rw [is,Option.toList_some,List.filter_cons_of_neg]
  · rfl
  · intro same
    exact other (of_decide_eq_true same)

omit classes lawful in
theorem valuesOf_append (keyword : String) (first second : List (List Char × List Char)) :
    valuesOf keyword (first ++ second) = valuesOf keyword first ++ valuesOf keyword second := by
  unfold valuesOf
  rw [List.filter_append,List.map_append]

omit classes lawful in
theorem valuesOf_own {keyword : String} {word : List Char} (is : word = keyword.toList) (value : List Char)
    (rest : List (List Char × List Char)) : valuesOf keyword ((word,value) :: rest) = value :: valuesOf keyword rest := by
  rw [valuesOf_cons]
  exact if_pos is

omit classes lawful in
theorem valuesOf_other {keyword : String} {word : List Char} (other : word ≠ keyword.toList) (value : List Char)
    (rest : List (List Char × List Char)) : valuesOf keyword ((word,value) :: rest) = valuesOf keyword rest := by
  rw [valuesOf_cons]
  exact if_neg other

theorem block_names {piece : Piece} (proper : piece.Proper) :
    valuesOf "name" (annotationsOf piece.block) =
      piece.name :: valuesOf "name" (annotationsOf (renamed piece.number piece.body)) := by
  have other : "returns".toList ≠ "name".toList := by decide
  rw [annotations_block lawful proper,valuesOf_own rfl,valuesOf_other other,valuesOf_append,
    params_values lawful piece _ (by decide),List.nil_append]

theorem block_returns {piece : Piece} (proper : piece.Proper) :
    valuesOf "returns" (annotationsOf piece.block) =
      (':' :: piece.returnType.toList) :: valuesOf "returns" (annotationsOf (renamed piece.number piece.body)) := by
  have other : "name".toList ≠ "returns".toList := by decide
  rw [annotations_block lawful proper,valuesOf_other other,valuesOf_own rfl,valuesOf_append,
    params_values lawful piece _ (by decide),List.nil_append]

end

section
variable {α β : Type} {R : α → β → Prop} {P : α → Prop} {Q : β → Prop}

theorem forall_related {xs : List α} {ys : List β} (related : List.Forall₂ R xs ys) (alike : ∀ x y,R x y → (P x ↔ Q y)) :
    (∀ x ∈ xs,P x) ↔ ∀ y ∈ ys,Q y := by
  induction related with
  | nil => simp
  | cons head _ ih => rw [List.forall_mem_cons,List.forall_mem_cons,ih,alike _ _ head]

theorem last_related {xs : List α} {ys : List β} (related : List.Forall₂ R xs ys) (alike : ∀ x y,R x y → (P x ↔ Q y)) :
    (∀ x ∈ xs.getLast?,P x) ↔ ∀ y ∈ ys.getLast?,Q y := by
  induction related with
  | nil => simp
  | cons head tail ih =>
    cases tail with
    | nil => simpa using alike _ _ head
    | cons next more => simpa only [List.getLast?_cons_cons] using ih

end

-- A value with a call in it, or with a placeholder, is no command.
theorem returnsCommand_marked {value : List Char} (marked : '(' ∈ value ∨ '$' ∈ value) :
    (returnsCommand value).toOption = none := by
  have spelt : ∀ command : String,(commandOf command).toOption ≠ none →
      command ∈ ["one","opt","many","exec","exec_result","exec_rows","batch","grouped"] := by
    intro command parsed
    unfold commandOf at parsed
    split at parsed
    case h_9 => exact absurd rfl parsed
    all_goals decide
  have plain : ∀ command ∈ ["one","opt","many","exec","exec_result","exec_rows","batch","grouped"],
      '(' ∉ ':' :: command.toList ∧ '$' ∉ ':' :: command.toList := by decide
  by_contra parsed
  have known := plain _ (spelt _ parsed)
  rw [String.toList_ofList] at known
  have inside : ∀ c ∈ value,c ∈ ':' :: ((":".toList.isPrefixOf? value).getD value) := by
    intro c member
    cases found : ":".toList.isPrefixOf? value with
    | none => exact List.mem_cons_of_mem _ member
    | some rest =>
      rw [List.isPrefixOf?_eq_some_iff_append_eq] at found
      rw [← found] at member
      exact member
  rcases marked with call | placeholder
  · exact known.1 (inside _ call)
  · exact known.2 (inside _ placeholder)

-- What the annotation of a piece says, and no annotation of its own denies.
structure Piece.Agrees (piece : Piece) : Prop where
  valid : validateQueryName (String.ofList piece.name) = .ok ()
  shared : piece.returnType ∈ sharedCommands
  named : ∀ value ∈ (valuesOf "name" (annotationsOf piece.body)).getLast?,value = piece.name
  parsed : ∀ value ∈ valuesOf "returns" (annotationsOf piece.body),(returnsCommand value).toOption ≠ none
  returned : ∀ value ∈ (valuesOf "returns" (annotationsOf piece.body)).getLast?,
    (returnsCommand value).toOption = corresponding piece.returnType

section
variable [classes : WordClasses] (lawful : classes.Lawful)
include lawful

theorem block_named {piece : Piece} (proper : piece.Proper) :
    (valuesOf "name" (annotationsOf piece.block)).getLast? = some piece.name ↔
      ∀ value ∈ (valuesOf "name" (annotationsOf piece.body)).getLast?,value = piece.name := by
  have changed := @values_renamed _ lawful "name" (by decide) (by decide) piece.number piece.body
  have apart : ∀ value value',Changed '(' '$' value value' → (value = piece.name ↔ value' = piece.name) := by
    intro value value' either
    rcases either with rfl | ⟨call,placeholder⟩
    · exact Iff.rfl
    · constructor
      · rintro rfl
        exact absurd rfl (word_ne lawful (proper.word _ call) (by decide) (by decide))
      · rintro rfl
        exact absurd rfl (word_ne lawful (proper.word _ placeholder) (by decide) (by decide))
  rw [last_related changed apart,block_names lawful proper,List.getLast?_cons]
  cases (valuesOf "name" (annotationsOf (renamed piece.number piece.body))).getLast? with
  | none => simp
  | some value => simp

theorem block_parsed {piece : Piece} (proper : piece.Proper) :
    (∀ value ∈ valuesOf "returns" (annotationsOf piece.block),(returnsCommand value).toOption ≠ none) ↔
      (returnsCommand (':' :: piece.returnType.toList)).toOption ≠ none ∧
        ∀ value ∈ valuesOf "returns" (annotationsOf piece.body),(returnsCommand value).toOption ≠ none := by
  have changed := @values_renamed _ lawful "returns" (by decide) (by decide) piece.number piece.body
  have alike : ∀ value value',Changed '(' '$' value value' →
      ((returnsCommand value).toOption ≠ none ↔ (returnsCommand value').toOption ≠ none) := by
    intro value value' either
    rcases either with rfl | ⟨call,placeholder⟩
    · exact Iff.rfl
    · rw [returnsCommand_marked (.inl call),returnsCommand_marked (.inr placeholder)]
  rw [forall_related changed alike,block_returns lawful proper,List.forall_mem_cons]

theorem block_returned {piece : Piece} (proper : piece.Proper) {command : QueryCommand}
    (shared : (returnsCommand (':' :: piece.returnType.toList)).toOption = some command) :
    (∀ value ∈ (valuesOf "returns" (annotationsOf piece.block)).getLast?,(returnsCommand value).toOption = some command) ↔
      ∀ value ∈ (valuesOf "returns" (annotationsOf piece.body)).getLast?,(returnsCommand value).toOption = some command := by
  have changed := @values_renamed _ lawful "returns" (by decide) (by decide) piece.number piece.body
  have alike : ∀ value value',Changed '(' '$' value value' →
      ((returnsCommand value).toOption = some command ↔ (returnsCommand value').toOption = some command) := by
    intro value value' either
    rcases either with rfl | ⟨call,placeholder⟩
    · exact Iff.rfl
    · rw [returnsCommand_marked (.inl call),returnsCommand_marked (.inr placeholder)]
  rw [last_related changed alike,block_returns lawful proper,List.getLast?_cons]
  cases (valuesOf "returns" (annotationsOf (renamed piece.number piece.body))).getLast? with
  | none => simpa using shared
  | some value => simp

omit classes lawful in
theorem toOption_some {ε α : Type} {result : Except ε α} {x : α} : result.toOption = some x ↔ result = .ok x := by
  cases result with
  | error failure => simp [Except.toOption]
  | ok y => simp [Except.toOption]

omit classes lawful in
theorem toOption_ok {ε α : Type} {result : Except ε α} : result.toOption ≠ none ↔ ∃ x,result = .ok x := by
  rw [Option.ne_none_iff_exists']
  exact exists_congr fun _ => toOption_some

omit classes lawful in
theorem shared_command {returnType : String} (shared : returnType ∈ sharedCommands) :
    ∃ command,corresponding returnType = some command ∧ returnsCommand (':' :: returnType.toList) = .ok command := by
  have each : ∀ returnType ∈ sharedCommands,corresponding returnType ≠ none ∧
      corresponding returnType = (returnsCommand (':' :: returnType.toList)).toOption := by decide
  obtain ⟨some,same⟩ := each returnType shared
  obtain ⟨command,is⟩ := Option.ne_none_iff_exists'.mp some
  exact ⟨command,is,toOption_some.mp (same.symm.trans is)⟩

omit classes lawful in
theorem parsed_shared {returnType : String} (known : returnType ∈ sqlcCommands)
    (parsed : (returnsCommand (':' :: returnType.toList)).toOption ≠ none) : returnType ∈ sharedCommands := by
  have each : ∀ returnType ∈ sqlcCommands,(returnsCommand (':' :: returnType.toList)).toOption ≠ none →
      returnType ∈ sharedCommands := by decide
  exact each returnType known parsed

theorem block_read {piece : Piece} (proper : piece.Proper) :
    (∃ command,corresponding piece.returnType = some command ∧ Names (annotationsOf piece.block) piece.name command) ↔
      piece.Agrees := by
  constructor
  · intro found
    obtain ⟨command,corresponds,names⟩ := found
    have all : ∀ value ∈ valuesOf "returns" (annotationsOf piece.block),(returnsCommand value).toOption ≠ none :=
      fun value member => toOption_ok.mpr (names.parsed value member)
    obtain ⟨own,parsed⟩ := (block_parsed lawful proper).mp all
    have shared := parsed_shared proper.known own
    obtain ⟨other,same,ok⟩ := shared_command shared
    have last : ∀ value ∈ (valuesOf "returns" (annotationsOf piece.block)).getLast?,
        (returnsCommand value).toOption = some command := by
      intro value member
      have returns := names.returns
      rw [member,Option.map_some] at returns
      exact toOption_some.mpr (Option.some.inj returns)
    rw [corresponds] at same
    cases same
    refine ⟨names.valid,shared,(block_named lawful proper).mp names.last,parsed,?_⟩
    rw [corresponds]
    exact (block_returned lawful proper (toOption_some.mpr ok)).mp last
  · intro agrees
    obtain ⟨command,corresponds,ok⟩ := shared_command agrees.shared
    have own := toOption_some.mpr ok
    have returned := agrees.returned
    rw [corresponds] at returned
    have last := (block_returned lawful proper own).mpr returned
    refine ⟨command,corresponds,(block_named lawful proper).mpr agrees.named,agrees.valid,?_,?_⟩
    · intro value member
      apply toOption_ok.mp
      apply (block_parsed lawful proper).mpr ⟨?_,agrees.parsed⟩ value member
      rw [own]
      exact Option.some_ne_none command
    · have some : valuesOf "returns" (annotationsOf piece.block) ≠ [] := by
        rw [block_returns lawful proper]
        exact List.cons_ne_nil _ _
      have is := List.getLast?_eq_some_getLast some
      rw [is,Option.map_some,toOption_some.mp (last _ is)]

end

end Scythe.Migrate
