import Scythe.QueryFile
import Mathlib.Data.Bool.AllAny
import Mathlib.Data.List.TakeWhile

-- The lines of a query file, its blocks and what their annotations say.
namespace Scythe.QueryFile
open Text Verification

theorem splitInclusive_ne {cs : List Char} (present : cs ≠ []) : splitInclusive cs ≠ [] := by
  cases cs with
  | nil => exact absurd rfl present
  | cons c cs =>
    unfold splitInclusive
    split
    · exact List.cons_ne_nil _ _
    · split <;> exact List.cons_ne_nil _ _

-- Text that ends its last line.
def Ended (text : List Char) : Prop := text = [] ∨ text.getLast? = some '\n'

theorem Ended.tail {c : Char} {text : List Char} (ended : Ended (c :: text)) : Ended text := by
  rcases ended with none | last
  · cases none
  · cases text with
    | nil => exact .inl rfl
    | cons d text => exact .inr (by rwa [List.getLast?_cons_cons] at last)

theorem splitInclusive_append {text : List Char} (ended : Ended text) (rest : List Char) :
    splitInclusive (text ++ rest) = splitInclusive text ++ splitInclusive rest := by
  induction text with
  | nil => rfl
  | cons c text ih =>
    rw [List.cons_append,splitInclusive,splitInclusive,ih ended.tail]
    by_cases newline : c = '\n'
    · rw [if_pos newline,if_pos newline,List.cons_append]
    · rw [if_neg newline,if_neg newline]
      have more : text ≠ [] := by
        rintro rfl
        rcases ended with none | last
        · cases none
        · exact newline (Option.some.inj last)
      cases found : splitInclusive text with
      | nil => exact absurd found (splitInclusive_ne more)
      | cons line others => rfl

theorem lines_append {text : List Char} (ended : Ended text) (rest : List Char) :
    lines (text ++ rest) = lines text ++ lines rest := by
  unfold lines
  rw [splitInclusive_append ended,List.map_append]

theorem lineText_cut (line : List Char) : ∃ ending,line = lineText line ++ ending ∧ ∀ c ∈ ending,c ∈ ['\r','\n'] := by
  unfold lineText
  split
  · rename_i last
    have whole := List.dropLast_append_getLast? '\n' last
    split
    · rename_i carriage
      have inner := List.dropLast_append_getLast? '\r' carriage
      refine ⟨['\r','\n'],?_,fun c member => member⟩
      calc line = line.dropLast ++ ['\n'] := whole.symm
        _ = (line.dropLast.dropLast ++ ['\r']) ++ ['\n'] := by rw [inner]
        _ = line.dropLast.dropLast ++ ['\r','\n'] := by rw [List.append_assoc]; rfl
    · exact ⟨['\n'],whole.symm,fun c member => List.mem_cons_of_mem _ member⟩
  · exact ⟨[],(List.append_nil _).symm,fun c member => by cases member⟩

-- What a pattern finds does not reach past a character that is not in it.
theorem prefix_barrier {p : List Char} {c : Char} (absent : c ∉ p) (front rest : List Char) :
    p.isPrefixOf? (front ++ c :: rest) = (p.isPrefixOf? front).map fun more => more ++ c :: rest := by
  induction p generalizing front with
  | nil => rfl
  | cons a p ih =>
    rw [List.mem_cons,not_or] at absent
    cases front with
    | nil =>
      rw [List.nil_append]
      unfold List.isPrefixOf?
      rw [if_neg]
      · rfl
      · simpa using fun same => absent.1 same.symm
    | cons b front =>
      rw [List.cons_append]
      unfold List.isPrefixOf?
      split
      · exact ih absent.2 front
      · rfl

theorem prefixOf_barrier {p : List Char} {c : Char} (absent : c ∉ p) (front rest : List Char) :
    p.isPrefixOf (front ++ c :: rest) = p.isPrefixOf front := by
  have through := prefix_barrier absent front rest
  have whole : ∀ text,p.isPrefixOf text = (p.isPrefixOf? text).isSome := by
    intro text
    rw [Bool.eq_iff_iff,List.isPrefixOf_iff_prefix]
    constructor
    · intro initial
      obtain ⟨more,rfl⟩ := initial
      rw [List.isPrefixOf?_eq_some_iff_append_eq.mpr rfl]
      rfl
    · intro found
      obtain ⟨more,is⟩ := Option.isSome_iff_exists.mp found
      exact ⟨more,List.isPrefixOf?_eq_some_iff_append_eq.mp is⟩
  rw [whole,whole,through,Option.isSome_map]

theorem dropWhile_barrier {p : Char → Bool} {c : Char} (stops : p c = false) (front rest : List Char) :
    (front ++ c :: rest).dropWhile p = front.dropWhile p ++ c :: rest := by
  rw [List.dropWhile_append]
  split
  · rename_i empty
    rw [List.isEmpty_iff.mp empty,List.dropWhile_cons_of_neg (by simp [stops]),List.nil_append]
  · rfl

def trimEndChars (cs : List Char) : List Char := (cs.reverse.dropWhile isSpace).reverse

theorem trimChars_eq (cs : List Char) : trimChars cs = trimEndChars (cs.dropWhile isSpace) := rfl

theorem trimEnd_spaces {cs ending : List Char} (spaces : ∀ c ∈ ending,isSpace c = true) :
    trimEndChars (cs ++ ending) = trimEndChars cs := by
  unfold trimEndChars
  rw [List.reverse_append,List.dropWhile_append_of_pos fun c member => spaces c (List.mem_reverse.mp member)]

theorem trimEnd_cut (cs : List Char) : ∃ ending,cs = trimEndChars cs ++ ending ∧ ∀ c ∈ ending,isSpace c = true := by
  refine ⟨(cs.reverse.takeWhile isSpace).reverse,?_,fun c member => List.mem_takeWhile_imp (List.mem_reverse.mp member)⟩
  have whole := List.takeWhile_append_dropWhile (p := isSpace) (l := cs.reverse)
  have turned := congrArg List.reverse whole
  rw [List.reverse_append,List.reverse_reverse] at turned
  exact turned.symm

theorem mem_trimEnd {cs : List Char} {c : Char} (member : c ∈ cs) (solid : isSpace c = false) : c ∈ trimEndChars cs := by
  obtain ⟨ending,whole,spaces⟩ := trimEnd_cut cs
  rw [whole] at member
  rcases List.mem_append.mp member with inside | last
  · exact inside
  · rw [spaces c last] at solid
    cases solid

-- A character that is no space keeps all before it.
theorem trimEnd_barrier {c : Char} (solid : isSpace c = false) (front rest : List Char) :
    ∃ more,trimEndChars (front ++ c :: rest) = front ++ c :: more ∧ trimEndChars (c :: rest) = c :: more := by
  have split : ∀ front : List Char,
      trimEndChars (front ++ c :: rest) = front ++ c :: trimEndChars rest := by
    intro front
    unfold trimEndChars
    have stops : (rest.reverse ++ c :: front.reverse).dropWhile isSpace =
        rest.reverse.dropWhile isSpace ++ c :: front.reverse := dropWhile_barrier solid _ _
    rw [List.reverse_append,List.reverse_cons,List.append_assoc,List.singleton_append,stops,List.reverse_append,
      List.reverse_cons,List.reverse_reverse,List.append_assoc,List.singleton_append]
  exact ⟨trimEndChars rest,split front,split []⟩

theorem spaces_dropped {cs ending : List Char} (spaces : ∀ c ∈ ending,isSpace c = true) :
    trimChars (cs ++ ending) = trimChars cs := by
  rw [trimChars_eq,trimChars_eq,List.dropWhile_append]
  split
  · rename_i empty
    have all : ending.dropWhile isSpace = [] := List.dropWhile_eq_nil_iff.mpr spaces
    rw [List.isEmpty_iff.mp empty,all]
  · exact trimEnd_spaces spaces

theorem annotationIn_lineText (line : List Char) : annotationIn (lineText line) = annotationIn line := by
  obtain ⟨ending,whole,breaks⟩ := lineText_cut line
  have spaces : ∀ c ∈ ending,isSpace c = true := by
    intro c member
    have either : ∀ c ∈ ['\r','\n'],isSpace c = true := List.all_iff_forall_prop.mp (by decide)
    exact either c (breaks c member)
  have trimmed : trimChars (lineText line ++ ending) = trimChars (lineText line) := spaces_dropped spaces
  rw [← whole] at trimmed
  unfold annotationIn
  rw [trimmed]

theorem opensBlock_lineText (line : List Char) : opensBlock (lineText line) = opensBlock line := by
  obtain ⟨ending,whole,breaks⟩ := lineText_cut line
  cases ending with
  | nil =>
    rw [List.append_nil] at whole
    rw [← whole]
  | cons c ending =>
    have first := breaks c List.mem_cons_self
    have spaces : ∀ d ∈ c :: ending,isSpace d = true := by
      intro d member
      have either : ∀ d ∈ ['\r','\n'],isSpace d = true := List.all_iff_forall_prop.mp (by decide)
      exact either d (breaks d member)
    have apart : c ∉ "-- name:".toList ∧ c ∉ "-- @name".toList := by
      have either : ∀ c ∈ ['\r','\n'],c ∉ "-- name:".toList ∧ c ∉ "-- @name".toList :=
        List.all_iff_forall_prop.mp (by decide)
      exact either c first
    have dropped : line.dropWhile isSpace = (lineText line).dropWhile isSpace ∨
        line.dropWhile isSpace = (lineText line).dropWhile isSpace ++ c :: ending := by
      have cut : line.dropWhile isSpace = (lineText line ++ c :: ending).dropWhile isSpace := by rw [← whole]
      rw [cut,List.dropWhile_append]
      split
      · rename_i empty
        rw [List.isEmpty_iff.mp empty]
        exact .inl (List.dropWhile_eq_nil_iff.mpr spaces)
      · exact .inr rfl
    unfold opensBlock
    rcases dropped with same | cut
    · rw [same]
    · rw [cut,prefixOf_barrier apart.1,prefixOf_barrier apart.2]

theorem splitInclusive_unbroken {line : List Char} (unbroken : '\n' ∉ line) (present : line ≠ []) :
    splitInclusive line = [line] := by
  induction line with
  | nil => exact absurd rfl present
  | cons c line ih =>
    rw [List.mem_cons,not_or] at unbroken
    rw [splitInclusive,if_neg fun same => unbroken.1 same.symm]
    cases line with
    | nil => rfl
    | cons d line => rw [ih unbroken.2 (List.cons_ne_nil _ _)]

theorem splitInclusive_pieces (cs : List Char) :
    ∀ piece ∈ splitInclusive cs,∃ line,'\n' ∉ line ∧ (piece = line ∨ piece = line ++ ['\n']) := by
  induction cs with
  | nil => exact fun _ member => by cases member
  | cons c cs ih =>
    intro piece member
    rw [splitInclusive] at member
    split at member
    · rename_i newline
      rcases List.mem_cons.mp member with rfl | later
      · exact ⟨[],List.not_mem_nil,.inr (by rw [newline,List.nil_append])⟩
      · exact ih piece later
    · rename_i other
      split at member
      · rw [List.mem_singleton.mp member]
        exact ⟨[c],by simpa using fun same => other same.symm,.inl rfl⟩
      · rename_i line rest found
        rw [found] at ih
        rcases List.mem_cons.mp member with rfl | later
        · obtain ⟨inner,unbroken,either⟩ := ih line List.mem_cons_self
          refine ⟨c :: inner,by simpa using ⟨fun same => other same.symm,unbroken⟩,?_⟩
          rcases either with rfl | rfl
          · exact .inl rfl
          · exact .inr rfl
        · exact ih piece (List.mem_cons_of_mem _ later)

theorem lines_unbroken (content : List Char) : ∀ line ∈ lines content,'\n' ∉ line := by
  intro line member
  obtain ⟨piece,inside,rfl⟩ := List.mem_map.mp member
  obtain ⟨text,unbroken,either⟩ := splitInclusive_pieces content piece inside
  unfold lineText
  rcases either with rfl | rfl
  · split
    · rename_i last
      exact absurd (List.mem_of_getLast? last) unbroken
    · exact unbroken
  · rw [if_pos List.getLast?_concat,List.dropLast_concat]
    split
    · exact fun inner => unbroken (List.mem_of_mem_dropLast inner)
    · exact unbroken

-- A line that opens a block, and the lines that follow in it.
abbrev Section := List Char × List (List Char)

def joinLines (first : List Char) (others : List (List Char)) : List Char :=
  others.foldl (fun block line => block ++ '\n' :: line) first

def sectionLines (sections : List Section) : List (List Char) := sections.flatMap fun part => part.1 :: part.2

def Section.Block (part : Section) : Prop := opensBlock part.1 = true ∧ ∀ line ∈ part.2,opensBlock line = false

theorem push_count (state : Blocks) (content : List (List Char)) :
    (content.foldl Blocks.push state).all.length = state.all.length + content.countP opensBlock := by
  induction content generalizing state with
  | nil => rfl
  | cons line content ih =>
    rw [List.foldl_cons,ih,List.countP_cons]
    unfold Blocks.push Blocks.all
    by_cases opens : opensBlock line = true
    · rw [if_pos opens,if_pos opens]
      simp only [List.length_append,Option.toList_some,List.length_singleton]
      omega
    · rw [if_neg opens,if_neg opens]
      cases state.currentBlock with
      | none => rfl
      | some block =>
        simp only [List.length_append,Option.map_some,Option.toList_some,List.length_singleton]
        omega

theorem splitQueryFile_length (content : List Char) :
    (splitQueryFile content).length = (lines content).countP opensBlock := by
  unfold splitQueryFile
  rw [push_count]
  exact Nat.zero_add _

theorem push_inside (blocks : List (List Char)) (block : List Char) {content : List (List Char)}
    (inside : ∀ line ∈ content,opensBlock line = false) :
    content.foldl Blocks.push ⟨blocks,some block⟩ = ⟨blocks,some (joinLines block content)⟩ := by
  induction content generalizing block with
  | nil => rfl
  | cons line content ih =>
    have plain := inside line List.mem_cons_self
    have step : Blocks.push ⟨blocks,some block⟩ line = ⟨blocks,some (block ++ '\n' :: line)⟩ := by
      unfold Blocks.push
      rw [plain]
      rfl
    rw [List.foldl_cons,step,ih _ fun other member => inside other (List.mem_cons_of_mem _ member)]
    rfl

theorem push_before {content : List (List Char)} (quiet : ∀ line ∈ content,opensBlock line = false) :
    content.foldl Blocks.push ⟨[],none⟩ = ⟨[],none⟩ := by
  induction content with
  | nil => rfl
  | cons line content ih =>
    have step : Blocks.push ⟨[],none⟩ line = ⟨[],none⟩ := by
      unfold Blocks.push
      rw [quiet line List.mem_cons_self]
      rfl
    rw [List.foldl_cons,step,ih fun other member => quiet other (List.mem_cons_of_mem _ member)]

theorem push_sections (state : Blocks) {sections : List Section} (blocks : ∀ part ∈ sections,part.Block) :
    ((sectionLines sections).foldl Blocks.push state).all =
      state.all ++ sections.map fun part => joinLines part.1 part.2 := by
  induction sections generalizing state with
  | nil => exact (List.append_nil _).symm
  | cons part sections ih =>
    obtain ⟨opens,inside⟩ := blocks part List.mem_cons_self
    have step : state.push part.1 = ⟨state.all,some part.1⟩ := by
      unfold Blocks.push
      rw [opens]
      rfl
    have unfolded : sectionLines (part :: sections) = part.1 :: (part.2 ++ sectionLines sections) := rfl
    rw [unfolded,List.foldl_cons,List.foldl_append,step,push_inside _ _ inside,
      ih _ fun other member => blocks other (List.mem_cons_of_mem _ member),List.map_cons]
    unfold Blocks.all
    rw [Option.toList_some,List.append_assoc,List.singleton_append]

theorem splitQueryFile_sections {content : List Char} {before : List (List Char)} {sections : List Section}
    (whole : lines content = before ++ sectionLines sections) (quiet : ∀ line ∈ before,opensBlock line = false)
    (blocks : ∀ part ∈ sections,part.Block) :
    splitQueryFile content = sections.map fun part => joinLines part.1 part.2 := by
  unfold splitQueryFile
  rw [whole,List.foldl_append,push_before quiet,push_sections _ blocks]
  rfl

def annotationsOf (text : List Char) : List (List Char × List Char) := (lines text).filterMap annotationIn

theorem annotationsOf_unbroken {line : List Char} (unbroken : '\n' ∉ line) :
    annotationsOf line = (annotationIn line).toList := by
  by_cases present : line = []
  · subst present
    rfl
  · unfold annotationsOf lines
    rw [splitInclusive_unbroken unbroken present,List.map_singleton]
    cases found : annotationIn line with
    | none => simp [annotationIn_lineText,found]
    | some entry => simp [annotationIn_lineText,found]

theorem annotationIn_newline (line : List Char) : annotationIn (line ++ ['\n']) = annotationIn line := by
  have spaces : ∀ c ∈ ['\n'],isSpace c = true := List.all_iff_forall_prop.mp (by decide)
  have trimmed : trimChars (line ++ ['\n']) = trimChars line := spaces_dropped spaces
  unfold annotationIn
  rw [trimmed]

theorem annotationsOf_line {line : List Char} (unbroken : '\n' ∉ line) (rest : List Char) :
    annotationsOf (line ++ '\n' :: rest) = (annotationIn line).toList ++ annotationsOf rest := by
  unfold annotationsOf lines
  rw [splitInclusive_line unbroken,List.map_cons]
  cases found : annotationIn line with
  | none => simp [annotationIn_lineText,annotationIn_newline,found]
  | some entry => simp [annotationIn_lineText,annotationIn_newline,found]

theorem joinLines_cons (first line : List Char) (others : List (List Char)) :
    joinLines first (line :: others) = first ++ '\n' :: joinLines line others := by
  have shift : ∀ (others : List (List Char)) (front back : List Char),
      joinLines (front ++ back) others = front ++ joinLines back others := by
    intro others
    induction others with
    | nil => exact fun _ _ => rfl
    | cons line others ih =>
      intro front back
      unfold joinLines at ih ⊢
      rw [List.foldl_cons,List.foldl_cons,List.append_assoc,ih]
  have split : first ++ '\n' :: line = (first ++ ['\n']) ++ line := by simp
  have step : joinLines first (line :: others) = joinLines (first ++ '\n' :: line) others := rfl
  rw [step,split,shift]
  simp

theorem annotationsOf_join {first : List Char} {others : List (List Char)} (unbroken : '\n' ∉ first)
    (all : ∀ line ∈ others,'\n' ∉ line) :
    annotationsOf (joinLines first others) = (first :: others).filterMap annotationIn := by
  induction others generalizing first with
  | nil =>
    rw [joinLines,List.foldl_nil,annotationsOf_unbroken unbroken]
    cases found : annotationIn first <;> simp [found]
  | cons line others ih =>
    rw [joinLines_cons,annotationsOf_line unbroken,ih (all line List.mem_cons_self)
      fun other member => all other (List.mem_cons_of_mem _ member)]
    cases found : annotationIn first <;> simp [found]

def valuesOf (keyword : String) (annotations : List (List Char × List Char)) : List (List Char) :=
  (annotations.filter fun entry => entry.1 = keyword.toList).map (·.2)

-- The part of a draft that a name and a command are taken from.
abbrev Core := Option String × Option QueryCommand

def Draft.core (draft : Draft) : Core := (draft.name,draft.command)

def coreStep (core : Core) (entry : List Char × List Char) : Except AnnotationError Core :=
  if entry.1 = "name".toList then .ok (some (String.ofList entry.2),core.2) else
  if entry.1 = "returns".toList then (returnsCommand entry.2).map fun command => (core.1,some command)
  else .ok core

theorem annotate_core (draft : Draft) (keyword value : List Char) (lineNo : Nat) :
    (draft.annotate keyword value lineNo).map Draft.core = coreStep draft.core (keyword,value) := by
  have spelt : ∀ word : String,keyword = word.toList ↔ String.ofList keyword = word := by
    intro word
    constructor
    · intro same
      rw [same,String.ofList_toList]
    · intro same
      rw [← same,String.toList_ofList]
  unfold Draft.annotate coreStep
  simp only [spelt]
  by_cases name : String.ofList keyword = "name"
  · rw [name]
    rfl
  rw [if_neg name]
  by_cases returns : String.ofList keyword = "returns"
  · rw [returns,if_pos rfl]
    cases returnsCommand value with
    | error failure => rfl
    | ok command => rfl
  rw [if_neg returns]
  split <;> first | rfl | exact absurd ‹_› name | exact absurd ‹_› returns

theorem push_core (draft : Draft) (line : List Char × Nat) :
    (draft.push line).map Draft.core = (annotationIn line.1).toList.foldlM coreStep draft.core := by
  unfold Draft.push
  cases annotationIn line.1 with
  | none => rfl
  | some entry =>
    rw [Option.toList_some,List.foldlM_cons]
    dsimp only
    rw [annotate_core]
    cases coreStep draft.core entry with
    | error failure => rfl
    | ok core => rfl

theorem drafts_core (content : List (List Char)) (place : Nat) (draft : Draft) :
    ((content.zipIdx place).foldlM Draft.push draft).map Draft.core =
      (content.filterMap annotationIn).foldlM coreStep draft.core := by
  induction content generalizing place draft with
  | nil => rfl
  | cons line content ih =>
    have step := push_core draft (line,place)
    rw [List.zipIdx_cons,List.foldlM_cons]
    have parts : (line :: content).filterMap annotationIn =
        (annotationIn line).toList ++ content.filterMap annotationIn := by
      cases found : annotationIn line <;> simp [found]
    rw [parts,List.foldlM_append,← step]
    cases draft.push (line,place) with
    | error failure => rfl
    | ok next => exact ih (place + 1) next

structure CoreRead (annotations : List (List Char × List Char)) (core core' : Core) : Prop where
  parsed : ∀ value ∈ valuesOf "returns" annotations,∃ command,returnsCommand value = .ok command
  name : core'.1 = ((valuesOf "name" annotations).getLast?.map String.ofList).or core.1
  command : core'.2 = ((valuesOf "returns" annotations).getLast?.bind fun value => (returnsCommand value).toOption).or core.2

theorem valuesOf_cons (keyword : String) (entry : List Char × List Char)
    (annotations : List (List Char × List Char)) : valuesOf keyword (entry :: annotations) =
      if entry.1 = keyword.toList then entry.2 :: valuesOf keyword annotations
      else valuesOf keyword annotations := by
  unfold valuesOf
  by_cases same : entry.1 = keyword.toList <;> simp [same]

theorem coreRead_name {entry : List Char × List Char} {annotations : List (List Char × List Char)}
    {core core' : Core} (is : entry.1 = "name".toList) :
    CoreRead (entry :: annotations) core core' ↔
      CoreRead annotations (some (String.ofList entry.2),core.2) core' := by
  have other : entry.1 ≠ "returns".toList := by rw [is]; decide
  have names : valuesOf "name" (entry :: annotations) = entry.2 :: valuesOf "name" annotations := by
    rw [valuesOf_cons,if_pos is]
  have returns : valuesOf "returns" (entry :: annotations) = valuesOf "returns" annotations := by
    rw [valuesOf_cons,if_neg other]
  have last : ((entry.2 :: valuesOf "name" annotations).getLast?.map String.ofList).or core.1 =
      ((valuesOf "name" annotations).getLast?.map String.ofList).or (some (String.ofList entry.2)) := by
    rw [List.getLast?_cons]
    cases (valuesOf "name" annotations).getLast? <;> rfl
  constructor
  · intro read
    obtain ⟨parsed,name,command⟩ := read
    rw [returns] at parsed command
    rw [names,last] at name
    exact ⟨parsed,name,command⟩
  · intro read
    obtain ⟨parsed,name,command⟩ := read
    constructor
    · rwa [returns]
    · rwa [names,last]
    · rwa [returns]

theorem coreRead_returns {entry : List Char × List Char} {annotations : List (List Char × List Char)}
    {core core' : Core} (is : entry.1 = "returns".toList) :
    CoreRead (entry :: annotations) core core' ↔ ∃ command,returnsCommand entry.2 = .ok command ∧
      CoreRead annotations (core.1,some command) core' := by
  have other : entry.1 ≠ "name".toList := by rw [is]; decide
  have names : valuesOf "name" (entry :: annotations) = valuesOf "name" annotations := by
    rw [valuesOf_cons,if_neg other]
  have returns : valuesOf "returns" (entry :: annotations) = entry.2 :: valuesOf "returns" annotations := by
    rw [valuesOf_cons,if_pos is]
  have last : ∀ {command},returnsCommand entry.2 = .ok command →
      (((entry.2 :: valuesOf "returns" annotations).getLast?.bind fun value => (returnsCommand value).toOption).or
        core.2 = ((valuesOf "returns" annotations).getLast?.bind fun value => (returnsCommand value).toOption).or
          (some command) ∨ ∃ value ∈ valuesOf "returns" annotations,(returnsCommand value).toOption = none) := by
    intro command parsed
    rw [List.getLast?_cons]
    cases found : (valuesOf "returns" annotations).getLast? with
    | none =>
      refine .inl ?_
      rw [Option.getD_none,Option.bind_some,parsed]
      rfl
    | some value =>
      rw [Option.getD_some,Option.bind_some]
      cases read : (returnsCommand value).toOption with
      | some command => exact .inl rfl
      | none => exact .inr ⟨value,List.mem_of_getLast? found,read⟩
  have contradiction : (∀ value ∈ valuesOf "returns" annotations,∃ command,returnsCommand value = .ok command) →
      ¬∃ value ∈ valuesOf "returns" annotations,(returnsCommand value).toOption = none := by
    intro parsed failing
    obtain ⟨value,member,none⟩ := failing
    obtain ⟨command,ok⟩ := parsed value member
    rw [ok] at none
    cases none
  constructor
  · intro read
    obtain ⟨parsed,name,command⟩ := read
    rw [returns] at parsed command
    rw [names] at name
    obtain ⟨first,ok⟩ := parsed entry.2 List.mem_cons_self
    have later := fun value member => parsed value (List.mem_cons_of_mem entry.2 member)
    rw [(last ok).resolve_right (contradiction later)] at command
    exact ⟨first,ok,later,name,command⟩
  · intro found
    obtain ⟨first,ok,parsed,name,command⟩ := found
    rw [← (last ok).resolve_right (contradiction parsed)] at command
    constructor
    · rw [returns]
      intro value member
      rcases List.mem_cons.mp member with rfl | later
      · exact ⟨first,ok⟩
      · exact parsed value later
    · rwa [names]
    · rwa [returns]

theorem coreRead_other {entry : List Char × List Char} {annotations : List (List Char × List Char)}
    {core core' : Core} (noName : entry.1 ≠ "name".toList) (noReturns : entry.1 ≠ "returns".toList) :
    CoreRead (entry :: annotations) core core' ↔ CoreRead annotations core core' := by
  have names : valuesOf "name" (entry :: annotations) = valuesOf "name" annotations := by
    rw [valuesOf_cons,if_neg noName]
  have returns : valuesOf "returns" (entry :: annotations) = valuesOf "returns" annotations := by
    rw [valuesOf_cons,if_neg noReturns]
  constructor
  · intro read
    obtain ⟨parsed,name,command⟩ := read
    rw [returns] at parsed command
    rw [names] at name
    exact ⟨parsed,name,command⟩
  · intro read
    obtain ⟨parsed,name,command⟩ := read
    constructor
    · rwa [returns]
    · rwa [names]
    · rwa [returns]

theorem core_read (annotations : List (List Char × List Char)) (core core' : Core) :
    annotations.foldlM coreStep core = .ok core' ↔ CoreRead annotations core core' := by
  induction annotations generalizing core with
  | nil =>
    constructor
    · intro is
      cases is
      refine ⟨?_,rfl,rfl⟩
      intro value member
      cases member
    · intro read
      have same : core = core' := Prod.ext read.name.symm read.command.symm
      rw [same]
      rfl
  | cons entry annotations ih =>
    rw [List.foldlM_cons]
    unfold coreStep
    by_cases name : entry.1 = "name".toList
    · rw [if_pos name,coreRead_name name]
      exact ih _
    rw [if_neg name]
    by_cases returns : entry.1 = "returns".toList
    · rw [if_pos returns,coreRead_returns returns]
      cases read : returnsCommand entry.2 with
      | error failure =>
        constructor
        · intro is
          cases is
        · intro found
          obtain ⟨command,ok,_⟩ := found
          cases ok
      | ok command =>
        constructor
        · intro is
          exact ⟨command,rfl,(ih _).mp is⟩
        · intro found
          obtain ⟨other,same,rest⟩ := found
          cases same
          exact (ih _).mpr rest
    · rw [if_neg returns,coreRead_other name returns]
      exact ih _

-- When a block has a name and a command, and which.
structure Names (annotations : List (List Char × List Char)) (name : List Char) (command : QueryCommand) : Prop where
  last : (valuesOf "name" annotations).getLast? = some name
  valid : validateQueryName (String.ofList name) = .ok ()
  parsed : ∀ value ∈ valuesOf "returns" annotations,∃ command,returnsCommand value = .ok command
  returns : (valuesOf "returns" annotations).getLast?.map returnsCommand = some (.ok command)

theorem finish_iff {draft : Draft} {name : String} {command : QueryCommand} (single : command ≠ .grouped) :
    (∃ header body,draft.finish = .ok (header,body) ∧ header.name = name ∧ header.command = command) ↔
      draft.core = (some name,some command) ∧ validateQueryName name = .ok () := by
  constructor
  · intro found
    obtain ⟨header,body,is,rfl,rfl⟩ := found
    unfold Draft.finish at is
    split at is
    · cases is
    · rename_i spelt named
      cases valid : validateQueryName spelt with
      | error failure =>
        rw [valid] at is
        cases is
      | ok _ =>
        simp only [valid,Except.bind] at is
        split at is
        · cases is
        · rename_i given commanded
          split at is
          · cases is
          · cases is
            exact ⟨Prod.ext named commanded,valid⟩
  · intro both
    obtain ⟨core,valid⟩ := both
    obtain ⟨named,commanded⟩ := Prod.mk.inj core
    unfold Draft.finish
    refine ⟨⟨name,command,draft.annotations⟩,['\n'].intercalate draft.sqlLines,?_,rfl,rfl⟩
    simp only [named,valid,Except.bind,commanded]
    exact if_neg fun grouped => single grouped.1

theorem readHeader_iff {block name : List Char} {command : QueryCommand} (single : command ≠ .grouped) :
    (∃ header body,readHeader block = .ok (header,body) ∧ header.name = String.ofList name ∧ header.command = command) ↔
      Names (annotationsOf block) name command := by
  have folded := drafts_core (lines block) 0 Draft.empty
  unfold readHeader
  constructor
  · intro found
    obtain ⟨header,body,is,named,commanded⟩ := found
    cases drafted : (lines block).zipIdx.foldlM Draft.push Draft.empty with
    | error failure =>
      rw [drafted] at is
      cases is
    | ok draft =>
      rw [drafted] at is folded
      obtain ⟨core,valid⟩ := (finish_iff single).mp ⟨header,body,is,named,commanded⟩
      obtain ⟨parsed,names,returns⟩ := (core_read _ _ _).mp folded.symm
      rw [core] at names returns
      refine ⟨?_,valid,parsed,?_⟩
      · cases last : (valuesOf "name" (annotationsOf block)).getLast? with
        | none =>
          unfold annotationsOf at last
          rw [last] at names
          cases names
        | some value =>
          unfold annotationsOf at last
          rw [last] at names
          have same : String.ofList name = String.ofList value := Option.some.inj names
          rw [String.ofList_injective same]
      · cases last : (valuesOf "returns" (annotationsOf block)).getLast? with
        | none =>
          unfold annotationsOf at last
          rw [last] at returns
          cases returns
        | some value =>
          obtain ⟨other,ok⟩ := parsed value (List.mem_of_getLast? last)
          unfold annotationsOf at last
          rw [last,Option.bind_some,ok] at returns
          cases returns
          rw [Option.map_some,ok]
  · intro names
    have read : CoreRead (annotationsOf block) (none,none) (some (String.ofList name),some command) := by
      refine ⟨names.parsed,?_,?_⟩
      · rw [names.last]
        rfl
      · obtain ⟨value,last,ok⟩ := Option.map_eq_some_iff.mp names.returns
        rw [last,Option.bind_some,ok]
        rfl
    have core := (core_read _ _ _).mpr read
    unfold annotationsOf at core
    have start : Draft.empty.core = (none,none) := rfl
    rw [start,core] at folded
    cases drafted : (lines block).zipIdx.foldlM Draft.push Draft.empty with
    | error failure =>
      rw [drafted] at folded
      cases folded
    | ok draft =>
      rw [drafted] at folded
      have same : draft.core = (some (String.ofList name),some command) := Except.ok.inj folded
      exact (finish_iff single).mpr ⟨same,names.valid⟩

-- A character that no annotation is recognized by.
def Mark (c : Char) : Prop := isSpace c = false ∧ c ∉ "-- name:".toList ∧ c ∉ "-- @name".toList

theorem opensBlock_mark {c : Char} (mark : Mark c) (front rest : List Char) :
    opensBlock (front ++ c :: rest) = opensBlock front := by
  unfold opensBlock
  rw [dropWhile_barrier mark.1,prefixOf_barrier mark.2.1,prefixOf_barrier mark.2.2]

theorem takeWhile_trimEnd (cs : List Char) :
    (trimEndChars cs).takeWhile (fun c => !isSpace c) = cs.takeWhile fun c => !isSpace c := by
  obtain ⟨ending,whole,spaces⟩ := trimEnd_cut cs
  have none : ending.takeWhile (fun c => !isSpace c) = [] := by
    cases ending with
    | nil => rfl
    | cons c ending => rw [List.takeWhile_cons_of_neg (by simp [spaces c List.mem_cons_self])]
  conv_rhs => rw [whole]
  rw [List.takeWhile_append]
  split
  · rename_i all
    rw [none,List.append_nil]
    exact (List.takeWhile_prefix _).eq_of_length all
  · rfl

theorem mem_trimChars {cs : List Char} {c : Char} (member : c ∈ cs) (solid : isSpace c = false) : c ∈ trimChars cs := by
  rw [trimChars_eq]
  apply mem_trimEnd _ solid
  have whole := List.takeWhile_append_dropWhile (p := isSpace) (l := cs)
  rw [← whole] at member
  rcases List.mem_append.mp member with space | inside
  · rw [List.mem_takeWhile_imp space] at solid
    cases solid
  · exact inside

-- What a line up to a mark makes of it: no annotation, the value of one whose
-- keyword is known by then, or a part of its keyword.
theorem annotationIn_mark (front : List Char) :
    (∀ c rest,Mark c → annotationIn (front ++ c :: rest) = none) ∨
    (∃ keyword,∀ c rest,Mark c → ∃ value,annotationIn (front ++ c :: rest) = some (keyword,value) ∧
      ∀ d ∈ c :: rest,isSpace d = false → d ∈ value) ∨
    ∀ c rest,Mark c → ∃ keyword value,annotationIn (front ++ c :: rest) = some (keyword,value) ∧
      ∀ d ∈ (c :: rest).takeWhile fun d => !isSpace d,asciiLower d ∈ keyword := by
  have trimmed : ∀ c rest,Mark c → ∃ more,trimChars (front ++ c :: rest) = front.dropWhile isSpace ++ c :: more ∧
      trimEndChars (c :: rest) = c :: more := by
    intro c rest mark
    rw [trimChars_eq,dropWhile_barrier mark.1]
    exact trimEnd_barrier mark.1 _ _
  have dashes : ∀ c,Mark c → c ∉ "--".toList := by
    intro c mark member
    have inside : ∀ c ∈ "--".toList,c ∈ "-- name:".toList := List.all_iff_forall_prop.mp (by decide)
    exact mark.2.1 (inside c member)
  have sign : ∀ c,Mark c → c ∉ "@".toList := by
    intro c mark member
    have inside : ∀ c ∈ "@".toList,c ∈ "-- @name".toList := List.all_iff_forall_prop.mp (by decide)
    exact mark.2.2 (inside c member)
  cases opened : "--".toList.isPrefixOf? (front.dropWhile isSpace) with
  | none =>
    refine .inl ?_
    intro c rest mark
    obtain ⟨more,whole,_⟩ := trimmed c rest mark
    unfold annotationIn
    rw [whole,prefix_barrier (dashes c mark),opened]
    rfl
  | some inner =>
    cases named : "@".toList.isPrefixOf? (inner.dropWhile isSpace) with
    | none =>
      refine .inl ?_
      intro c rest mark
      obtain ⟨more,whole,_⟩ := trimmed c rest mark
      unfold annotationIn
      rw [whole,prefix_barrier (dashes c mark),opened,Option.map_some,Option.bind_eq_bind,Option.bind_some,
        dropWhile_barrier mark.1,prefix_barrier (sign c mark),named]
      rfl
    | some word =>
      have read : ∀ c rest,Mark c → ∃ more,trimEndChars (c :: rest) = c :: more ∧ annotationIn (front ++ c :: rest) =
          some (((word ++ c :: more).takeWhile fun c => !isSpace c).map asciiLower,
            trimChars ((word ++ c :: more).dropWhile fun c => !isSpace c)) := by
        intro c rest mark
        obtain ⟨more,whole,ends⟩ := trimmed c rest mark
        refine ⟨more,ends,?_⟩
        unfold annotationIn
        rw [whole,prefix_barrier (dashes c mark),opened,Option.map_some,Option.bind_eq_bind,Option.bind_some,
          dropWhile_barrier mark.1,prefix_barrier (sign c mark),named]
        rfl
      by_cases spaced : (word.dropWhile fun c => !isSpace c) = []
      · refine .inr (.inr ?_)
        intro c rest mark
        obtain ⟨more,ends,is⟩ := read c rest mark
        refine ⟨_,_,is,?_⟩
        intro d member
        rw [← takeWhile_trimEnd,ends] at member
        apply List.mem_map_of_mem
        rw [List.takeWhile_append_of_pos (List.dropWhile_eq_nil_iff.mp spaced)]
        exact List.mem_append_right _ member
      · refine .inr (.inl ⟨(word.takeWhile fun c => !isSpace c).map asciiLower,?_⟩)
        intro c rest mark
        obtain ⟨more,ends,is⟩ := read c rest mark
        have short : ¬(word.takeWhile fun c => !isSpace c).length = word.length := by
          intro all
          have whole := List.takeWhile_append_dropWhile (p := fun c => !isSpace c) (l := word)
          have length := congrArg List.length whole
          rw [List.length_append,all] at length
          exact spaced (List.eq_nil_of_length_eq_zero (by omega))
        have left : ¬(word.dropWhile fun c => !isSpace c).isEmpty = true := by simpa using spaced
        rw [List.takeWhile_append,if_neg short,List.dropWhile_append,if_neg left] at is
        refine ⟨_,is,?_⟩
        intro d member solid
        have inside := mem_trimEnd member solid
        rw [ends] at inside
        exact mem_trimChars (List.mem_append_right _ inside) solid

end Scythe.QueryFile
