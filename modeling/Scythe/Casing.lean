import Scythe.Identifiers
import Scythe.Lib.Letters

-- What a name becomes when it is cased that is cased already.
namespace Scythe.Casing
open Text Letters

section
variable [CaseMap]

-- The words of a name: between its underscores, in small letters, or else as its capitals
-- divide it.
def nameWords (cs : List Char) : List (List Char) := if '_' ∈ cs then splitChars '_' (lowerText cs) else words cs

-- Snake case leaves a letter that has a small one: one that is no capital, and the capitals
-- of a single word.
structure SnakeSteady (cs : List Char) : Prop where
  divided : '_' ∉ cs → ¬Uncut none cs → ∀ c ∈ cs,CaseMap.isUpper c = false → CaseMap.lowerChar c = [c]
  whole : '_' ∉ cs → Uncut none cs → ∀ first rest,cs = first :: rest →
    (∀ c ∈ rest,CaseMap.isUpper c = true → CaseMap.lowerChar c ≠ [c]) ∨
      ∀ c ∈ cs,CaseMap.isUpper c = true → CaseMap.lowerChar c = [c]

-- The analyzer's own conversion takes the words for those of the backends.
structure CopyAgrees (cs : List Char) : Prop where
  parts : '_' ∈ cs → ∀ first rest,first :: rest ∈ splitChars '_' cs →
    titled (CaseMap.lowerChar first) = CaseMap.upperChar first ∧ lowerText (first :: rest) = (first :: rest).flatMap CaseMap.lowerChar
  capitals : '_' ∉ cs → (∀ c ∈ cs,CaseMap.isUpper c = true) → ∀ first rest,cs = first :: rest →
    titled (CaseMap.lowerChar first) = [first] ∧ lowerText rest = rest.flatMap CaseMap.lowerChar
  mixed : '_' ∉ cs → (∃ c ∈ cs,CaseMap.isUpper c = false) → Spelled none cs
  first : '_' ∉ cs → ∀ first rest,cs = first :: rest → CaseMap.isLower first = false → CaseMap.upperChar first = [first]

-- Casing a name again changes nothing, whichever of the conversions came first.
structure CasedOnce (s : String) : Prop where
  snake : toSnakeCase (toSnakeCase s) = toSnakeCase s
  camel : Identifiers.toCamelCase (Identifiers.toCamelCase s) = Identifiers.toCamelCase s
  pascal : Identifiers.toPascalCase (Identifiers.toPascalCase s) = Identifiers.toPascalCase s
  camelSnake : Identifiers.toCamelCase (toSnakeCase s) = Identifiers.toCamelCase s
  pascalSnake : Identifiers.toPascalCase (toSnakeCase s) = Identifiers.toPascalCase s
  copy : toPascalCase (toPascalCase s) = toPascalCase s
  copySnake : toPascalCase (toSnakeCase s) = toPascalCase s
  copyPascal : Identifiers.toPascalCase (toPascalCase s) = toPascalCase s

section Words

omit [CaseMap] in
theorem contains_line {s : String} : contains s "_" = true ↔ '_' ∈ s.toList := by
  rw [contains_iff]
  exact List.singleton_infix_iff '_' s.toList

theorem lowerText_string (s : String) : lowerText s.toList = (CaseMap.lowercase s).toList := by
  unfold lowerText
  rw [String.ofList_toList]

-- The words with an underscore between them.
def lined (parts : List Char × List (List Char)) : List Char := parts.1 ++ parts.2.flatMap fun word => '_' :: word

theorem snakeChars_lined (prev : Option Char) (cs : List Char) : snakeChars prev cs = lined (cut prev cs) := by
  induction cs generalizing prev with
  | nil => rfl
  | cons c cs ih =>
    unfold snakeChars
    rw [ih]
    cases upper : CaseMap.isUpper c with
    | false =>
      have inside : begins prev cs.head? c = false := by simp [begins,upper]
      simp [cut,inside,lined,lowered_plain upper]
    | true =>
      rw [if_pos rfl,← lowered_capital upper]
      cases prev with
      | none => simp [cut,lined]
      | some p =>
        have same : ((cs.head?.map CaseMap.isLower).getD false) = cs.head?.any CaseMap.isLower := by
          cases cs.head? <;> rfl
        simp only [same]
        cases is : begins (some p) cs.head? c with
        | true =>
          have separated : (!CaseMap.isUpper p || cs.head?.any CaseMap.isLower) = true := by simpa [begins,upper] using is
          rw [separated,cut_begins is]
          simp [lined]
        | false =>
          have separated : (!CaseMap.isUpper p || cs.head?.any CaseMap.isLower) = false := by simpa [begins,upper] using is
          rw [separated,cut_inside is]
          simp [lined]

theorem snake_line {s : String} (present : '_' ∈ s.toList) : (toSnakeCase s).toList = lowerText s.toList := by
  unfold toSnakeCase
  rw [if_pos (contains_line.mpr present),lowerText_string]

theorem snake_words {s : String} (absent : '_' ∉ s.toList) : (toSnakeCase s).toList = lined (cut none s.toList) := by
  unfold toSnakeCase
  rw [if_neg fun present => absent (contains_line.mp present)]
  split
  · rename_i all
    have plain : ∀ c ∈ s.toList,CaseMap.isUpper c = false := by simpa using all
    rw [cut_plain plain]
    simp [lined]
  · rw [String.toList_ofList,snakeChars_lined]

section
variable (tables : CaseTables)
include tables

omit tables in
theorem cut_letters {prev : Option Char} {cs word : List Char} (member : word ∈ (cut prev cs).1 :: (cut prev cs).2) {d : Char}
    (letter : d ∈ word) : ∃ c ∈ cs,d ∈ lowered c := by
  have inside : d ∈ (cut prev cs).1 ++ (cut prev cs).2.flatten := by
    rcases List.mem_cons.mp member with rfl | among
    · exact List.mem_append_left _ letter
    · exact List.mem_append_right _ (List.mem_flatten.mpr ⟨word,among,letter⟩)
  rw [cut_flatten] at inside
  exact List.mem_flatMap.mp inside

theorem lowered_line {c : Char} (member : '_' ∈ lowered c) : c = '_' := by
  unfold lowered at member
  split at member
  · exact tables.lowerLine c member
  · exact (List.mem_singleton.mp member).symm

theorem nameWords_unlined (cs : List Char) : ∀ word ∈ nameWords cs,'_' ∉ word := by
  intro word member
  unfold nameWords at member
  split at member
  · exact (splitChars_part member).1
  · rename_i absent
    intro line
    obtain ⟨c,inside,is⟩ := cut_letters member line
    exact absent (lowered_line tables is ▸ inside)

theorem nameWords_settled (cs : List Char) : Settled (nameWords cs) := by
  intro word member d letter upper
  unfold nameWords at member
  split at member
  · exact tables.textLowered cs d ((splitChars_part member).2 d letter)
  · obtain ⟨c,_,is⟩ := cut_letters member letter
    cases capital : CaseMap.isUpper c with
    | false =>
      rw [lowered_plain capital] at is
      rw [List.mem_singleton.mp is,capital] at upper
      cases upper
    | true =>
      rw [lowered_capital capital] at is
      exact tables.lowerFixed c d is

theorem snake_split (s : String) : splitChars '_' (toSnakeCase s).toList = nameWords s.toList := by
  have unlined := nameWords_unlined tables s.toList
  unfold nameWords at unlined ⊢
  by_cases present : '_' ∈ s.toList
  · rw [if_pos present,snake_line present]
  · rw [if_neg present] at unlined ⊢
    rw [snake_words present]
    exact splitChars_lined (unlined _ List.mem_cons_self) fun word member => unlined word (List.mem_cons_of_mem _ member)

end

end Words

section Snake
variable (tables : CaseTables)
include tables

omit [CaseMap] tables in
theorem mem_lined {parts : List Char × List (List Char)} {d : Char} :
    d ∈ lined parts ↔ d ∈ parts.1 ++ parts.2.flatten ∨ d = '_' ∧ parts.2 ≠ [] := by
  obtain ⟨first,others⟩ := parts
  unfold lined
  cases others with
  | nil => simp
  | cons word others =>
    simp only [List.mem_append,List.mem_flatMap,List.mem_cons,List.mem_flatten]
    constructor
    · rintro (front | ⟨part,inside,rfl | letter⟩)
      · exact .inl (.inl front)
      · exact .inr ⟨rfl,List.cons_ne_nil _ _⟩
      · exact .inl (.inr ⟨part,inside,letter⟩)
    · rintro ((front | ⟨part,inside,letter⟩) | ⟨rfl,_⟩)
      · exact .inl front
      · exact .inr ⟨part,inside,.inr letter⟩
      · exact .inr ⟨word,.inl rfl,.inl rfl⟩

theorem lowerText_line {cs : List Char} (present : '_' ∈ cs) : '_' ∈ lowerText cs := by
  obtain ⟨before,after,rfl⟩ := List.append_of_mem present
  rw [tables.textParts]
  exact List.mem_append_right _ List.mem_cons_self

theorem lowerText_settled (cs : List Char) : lowerText cs = cs ↔ ∀ c ∈ cs,CaseMap.lowerChar c = [c] := by
  constructor
  · intro same c member
    exact tables.textLowered cs c (same.symm ▸ member)
  · exact tables.textFixed cs

-- A text of small letters is cut no further just if it is one word.
omit tables in
theorem lined_again {cs : List Char} (small : ∀ c ∈ cs,lowered c = [c]) (unlined : '_' ∉ cs) :
    lined (cut none cs) = cs ↔ Uncut none cs := by
  have same : cs.flatMap lowered = cs := by
    have each := List.flatMap_congr (l := cs) (f := lowered) (g := fun c => [c]) small
    simpa using each
  constructor
  · intro whole
    apply Classical.byContradiction
    intro divided
    have line : '_' ∈ lined (cut none cs) := mem_lined.mpr (.inr ⟨rfl,divided⟩)
    exact unlined (whole ▸ line)
  · intro uncut
    unfold lined
    rw [lowered_word uncut,uncut,same]
    simp

theorem snake_steady (s : String) : toSnakeCase (toSnakeCase s) = toSnakeCase s ↔ SnakeSteady s.toList := by
  rw [← String.toList_inj]
  by_cases present : '_' ∈ s.toList
  · have line : '_' ∈ (toSnakeCase s).toList := by
      rw [snake_line present]
      exact lowerText_line tables present
    rw [snake_line line,snake_line present]
    constructor
    · intro _
      exact ⟨fun absent => absurd present absent,fun absent => absurd present absent⟩
    · intro _
      exact (lowerText_settled tables _).mpr (tables.textLowered _)
  · have text := snake_words present
    by_cases uncut : Uncut none s.toList
    · have word : (toSnakeCase s).toList = s.toList.flatMap lowered := by
        rw [text]
        unfold lined
        rw [lowered_word uncut,uncut]
        simp
      have unlined : '_' ∉ s.toList.flatMap lowered := by
        intro member
        obtain ⟨c,inside,is⟩ := List.mem_flatMap.mp member
        exact present (lowered_line tables is ▸ inside)
      have small : ∀ d ∈ s.toList.flatMap lowered,lowered d = [d] := by
        intro d member
        obtain ⟨c,_,is⟩ := List.mem_flatMap.mp member
        unfold lowered at is
        split at is
        · unfold lowered
          split
          · exact tables.lowerFixed c d is
          · rfl
        · rename_i plain
          rw [List.mem_singleton.mp is]
          exact lowered_plain (Bool.eq_false_iff.mpr plain)
      rw [snake_words (word ▸ unlined),word,lined_again small unlined]
      cases is : s.toList with
      | nil =>
        refine ⟨fun _ => ⟨fun _ divided => ?_,fun _ _ first rest equal => ?_⟩,fun _ => rfl⟩
        · exact absurd rfl divided
        · cases equal
      | cons first rest =>
        rw [is] at uncut present
        rw [uncut_whole tables uncut]
        constructor
        · intro either
          refine ⟨fun _ divided => absurd uncut divided,fun _ _ first' rest' equal => ?_⟩
          obtain ⟨rfl,rfl⟩ := List.cons.inj equal
          exact either
        · intro steady
          exact steady.whole present uncut first rest rfl
    · have line : '_' ∈ (toSnakeCase s).toList := by
        rw [text]
        exact mem_lined.mpr (.inr ⟨rfl,uncut⟩)
      rw [snake_line line,lowerText_settled tables]
      constructor
      · intro each
        refine ⟨fun _ _ c member plain => ?_,fun _ whole => absurd whole uncut⟩
        apply each c
        rw [text,mem_lined,cut_flatten]
        exact .inl (List.mem_flatMap.mpr ⟨c,member,by simp [lowered_plain plain]⟩)
      · intro steady d member
        rw [text,mem_lined,cut_flatten] at member
        rcases member with letter | ⟨rfl,_⟩
        · obtain ⟨c,inside,is⟩ := List.mem_flatMap.mp letter
          cases upper : CaseMap.isUpper c with
          | true =>
            rw [lowered_capital upper] at is
            exact tables.lowerFixed c d is
          | false =>
            rw [lowered_plain upper] at is
            rw [List.mem_singleton.mp is]
            exact steady.divided present uncut c inside upper
        · exact tables.lineLower

end Snake

section Pascal
variable (tables : CaseTables)
include tables

def inCapitals (cs : List Char) : List Char := (nameWords cs).flatMap titled

omit tables in
theorem capitalized_titled : Identifiers.capitalized = titled := by
  funext cs
  cases cs <;> rfl

theorem pascal_capitals {s : String} (present : inCapitals s.toList ≠ []) :
    (Identifiers.toPascalCase s).toList = inCapitals s.toList := by
  unfold Identifiers.toPascalCase
  dsimp only
  rw [snake_split tables,capitalized_titled]
  exact (congrArg String.toList (if_neg present)).trans String.toList_ofList

theorem pascal_lines {s : String} (none : inCapitals s.toList = []) : Identifiers.toPascalCase s = toSnakeCase s := by
  unfold Identifiers.toPascalCase
  dsimp only
  rw [snake_split tables,capitalized_titled]
  exact if_pos none

theorem inCapitals_line (cs : List Char) : '_' ∉ inCapitals cs := titled_line tables (nameWords_unlined tables cs)

omit tables in
theorem words_unlined {cs : List Char} (absent : '_' ∉ cs) : inCapitals cs = (words cs).flatMap titled := by
  unfold inCapitals nameWords
  rw [if_neg absent]

theorem inCapitals_some {first : Char} {rest : List Char} (absent : '_' ∉ first :: rest) : inCapitals (first :: rest) ≠ [] := by
  rw [words_unlined absent,words_titled tables]
  have large := titled_length tables (lowered_some tables first)
  have some := List.length_pos_iff.mpr (lowered_some tables first)
  apply List.append_ne_nil_of_left_ne_nil
  apply List.length_pos_iff.mp
  omega

-- A name without a letter in any of its words.
theorem lines_steady {s : String} (none : inCapitals s.toList = []) : toSnakeCase (toSnakeCase s) = toSnakeCase s := by
  rw [snake_steady tables]
  by_cases present : '_' ∈ s.toList
  · exact ⟨fun absent => absurd present absent,fun absent => absurd present absent⟩
  · cases is : s.toList with
    | nil =>
      refine ⟨fun _ divided => ?_,fun _ _ first rest equal => ?_⟩
      · exact absurd rfl divided
      · cases equal
    | cons first rest =>
      rw [is] at present none
      exact absurd none (inCapitals_some tables present)

omit tables in
theorem pascal_snake {s : String} (steady : toSnakeCase (toSnakeCase s) = toSnakeCase s) :
    Identifiers.toPascalCase (toSnakeCase s) = Identifiers.toPascalCase s := by
  unfold Identifiers.toPascalCase
  rw [steady]

theorem pascal_steady (s : String) :
    Identifiers.toPascalCase (Identifiers.toPascalCase s) = Identifiers.toPascalCase s ↔ CapitalsApart (nameWords s.toList) := by
  have settled := nameWords_settled tables s.toList
  have absent := inCapitals_line tables s.toList
  by_cases none : inCapitals s.toList = []
  · rw [pascal_lines tables none,pascal_snake (lines_steady tables none),pascal_lines tables none,apart_spelled tables settled]
    refine ⟨fun _ => ?_,fun _ => rfl⟩
    unfold inCapitals at none
    rw [none]
    exact spelled_nil _
  · have text := pascal_capitals tables none
    have again : inCapitals (Identifiers.toPascalCase s).toList ≠ [] := by
      rw [text]
      cases is : inCapitals s.toList with
      | nil => exact absurd is none
      | cons first rest =>
        rw [is] at absent
        exact inCapitals_some tables absent
    rw [← String.toList_inj,pascal_capitals tables again,text,words_unlined absent]
    exact titled_again tables settled

-- What a text without letters begins with.
theorem lines_first {s : String} (none : inCapitals s.toList = []) {first : Char} {rest : List Char}
    (is : (toSnakeCase s).toList = first :: rest) : first = '_' := by
  apply Classical.byContradiction
  intro other
  unfold inCapitals at none
  rw [← snake_split tables,is,splitChars,if_neg other] at none
  have titled_some : ∀ others,titled (first :: others) ≠ [] := fun others =>
    List.append_ne_nil_of_left_ne_nil (tables.upperSome first) _
  split at none
  · rw [List.flatMap_cons] at none
    exact titled_some _ (List.append_eq_nil_iff.mp none).1
  · rw [List.flatMap_cons] at none
    exact titled_some _ (List.append_eq_nil_iff.mp none).1

omit tables in
theorem camel_first {s : String} {first : Char} {rest : List Char} (is : (Identifiers.toPascalCase s).toList = first :: rest) :
    Identifiers.toCamelCase s = String.ofList (CaseMap.lowerChar first ++ rest) := by
  unfold Identifiers.toCamelCase
  rw [is]

theorem camel_steady {s : String} (apart : CapitalsApart (nameWords s.toList)) :
    Identifiers.toCamelCase (Identifiers.toCamelCase s) = Identifiers.toCamelCase s := by
  have settled := nameWords_settled tables s.toList
  have absent := inCapitals_line tables s.toList
  cases is : inCapitals s.toList with
  | nil =>
    have kept : Identifiers.toPascalCase (toSnakeCase s) = toSnakeCase s := by
      rw [pascal_snake (lines_steady tables is),pascal_lines tables is]
    cases text : (toSnakeCase s).toList with
    | nil =>
      have same : Identifiers.toCamelCase s = s := by
        unfold Identifiers.toCamelCase
        rw [pascal_lines tables is,text]
      rw [same,same]
    | cons first rest =>
      obtain rfl := lines_first tables is text
      have same : ∀ name,Identifiers.toPascalCase name = toSnakeCase s → Identifiers.toCamelCase name = toSnakeCase s := by
        intro name pascal
        rw [camel_first (pascal ▸ text),tables.lineLower,← String.toList_inj,String.toList_ofList,text]
        rfl
      rw [same s (pascal_lines tables is),same _ kept]
  | cons first rest =>
    have text := pascal_capitals tables (is ▸ List.cons_ne_nil _ _)
    rw [is] at text absent
    obtain ⟨small,low,_⟩ := first_returns tables settled is
    have camel := camel_first text
    rw [low] at camel
    have unlined : '_' ∉ small :: rest := by
      intro member
      rcases List.mem_cons.mp member with rfl | inside
      · exact absent (tables.lowerLine first (low ▸ List.mem_singleton_self _) ▸ List.mem_cons_self)
      · exact absent (List.mem_cons_of_mem _ inside)
    have letters : (Identifiers.toCamelCase s).toList = small :: rest := by
      rw [camel,String.toList_ofList]
      rfl
    have again : (Identifiers.toPascalCase (Identifiers.toCamelCase s)).toList = first :: rest := by
      have some := inCapitals_some tables unlined
      rw [← letters] at some
      rw [pascal_capitals tables some,letters,words_unlined unlined]
      exact camel_again tables settled apart is low
    rw [camel_first again,low,← camel]

theorem snake_none {s : String} (none : (toSnakeCase s).toList = []) : s = "" := by
  have capitals : inCapitals s.toList = [] := by
    unfold inCapitals
    rw [← snake_split tables,none]
    rfl
  cases is : s.toList with
  | nil => exact String.toList_inj.mp is
  | cons first rest =>
    exfalso
    by_cases present : '_' ∈ s.toList
    · have line := lowerText_line tables present
      rw [← snake_line present,none] at line
      cases line
    · rw [is] at present capitals
      exact inCapitals_some tables present capitals

theorem camel_snake {s : String} (steady : toSnakeCase (toSnakeCase s) = toSnakeCase s) :
    Identifiers.toCamelCase (toSnakeCase s) = Identifiers.toCamelCase s := by
  cases text : (toSnakeCase s).toList with
  | nil =>
    have empty := snake_none tables text
    have same : toSnakeCase s = s := by
      rw [← String.toList_inj,text,empty]
      rfl
    rw [same]
  | cons first rest =>
    have some : ∃ c cs,(Identifiers.toPascalCase s).toList = c :: cs := by
      by_cases none : inCapitals s.toList = []
      · exact ⟨first,rest,pascal_lines tables none ▸ text⟩
      · rw [pascal_capitals tables none]
        exact List.exists_cons_of_ne_nil none
    obtain ⟨c,cs,is⟩ := some
    rw [camel_first is,camel_first ((pascal_snake steady).symm ▸ is)]

end Pascal

section Copy
variable (tables : CaseTables)
include tables

section
variable {s : String}

omit tables in
theorem copy_line (present : '_' ∈ s.toList) : (toPascalCase s).toList = (splitChars '_' s.toList).flatMap pascalPart := by
  unfold toPascalCase
  rw [if_pos (contains_line.mpr present),String.toList_ofList]

variable {first : Char} {rest : List Char} (absent : '_' ∉ first :: rest) (is : s.toList = first :: rest)
include absent is

omit tables in
theorem copy_lower (lower : CaseMap.isLower first = true) : (toPascalCase s).toList = CaseMap.upperChar first ++ rest := by
  unfold toPascalCase
  rw [if_neg fun present => absent (is ▸ contains_line.mp present)]
  simp only [is]
  rw [if_pos lower,String.toList_ofList]

theorem copy_capitals (capitals : ∀ c ∈ first :: rest,CaseMap.isUpper c = true) :
    (toPascalCase s).toList = first :: lowerText rest := by
  have upper := capitals first List.mem_cons_self
  have notLower := capital_large tables upper
  have all : ((first :: rest).all fun c => CaseMap.isUpper c || c = '_') = true :=
    List.all_eq_true.mpr fun c member => by simp [capitals c member]
  unfold toPascalCase
  rw [if_neg fun present => absent (is ▸ contains_line.mp present)]
  simp only [is]
  rw [if_neg (Bool.eq_false_iff.mp notLower),if_pos all,String.toList_append,String.toList_ofList,tables.capital first upper]
  rfl

omit tables in
theorem copy_other (notLower : CaseMap.isLower first = false) (mixed : ∃ c ∈ first :: rest,CaseMap.isUpper c = false) :
    toPascalCase s = s := by
  have some : ¬((first :: rest).all fun c => CaseMap.isUpper c || c = '_') = true := by
    intro all
    obtain ⟨c,member,plain⟩ := mixed
    have each := List.all_eq_true.mp all c member
    rw [plain,Bool.false_or,decide_eq_true_eq] at each
    exact absent (each ▸ member)
  unfold toPascalCase
  rw [if_neg fun present => absent (is ▸ contains_line.mp present)]
  simp only [is]
  rw [if_neg (Bool.eq_false_iff.mp notLower),if_neg some]

omit tables in
-- A name that is not all in capitals.
theorem copy_mixed (mixed : ∃ c ∈ first :: rest,CaseMap.isUpper c = false)
    (kept : CaseMap.isLower first = false → CaseMap.upperChar first = [first]) :
    (toPascalCase s).toList = CaseMap.upperChar first ++ rest := by
  cases lower : CaseMap.isLower first with
  | true => exact copy_lower absent is lower
  | false =>
    rw [copy_other absent is lower mixed,is,kept lower]
    rfl

end

omit tables in
theorem capitals_or (cs : List Char) : (∀ c ∈ cs,CaseMap.isUpper c = true) ∨ ∃ c ∈ cs,CaseMap.isUpper c = false := by
  by_cases all : ∀ c ∈ cs,CaseMap.isUpper c = true
  · exact .inl all
  · simp only [not_forall,Bool.not_eq_true] at all
    obtain ⟨c,member,plain⟩ := all
    exact .inr ⟨c,member,plain⟩

omit tables in
theorem pascalPart_fixed {word : List Char} (small : ∀ c ∈ word,CaseMap.lowerChar c = [c]) : pascalPart word = titled word := by
  cases word with
  | nil => rfl
  | cons first rest =>
    have same : rest.flatMap CaseMap.lowerChar = rest.flatMap fun c => [c] :=
      List.flatMap_congr fun c member => small c (List.mem_cons_of_mem _ member)
    simp [pascalPart,titled,same]

-- The copy on a name in snake case.
theorem copy_snake {s : String} (steady : toSnakeCase (toSnakeCase s) = toSnakeCase s)
    (kept : ∀ first rest,'_' ∉ first :: rest → (toSnakeCase s).toList = first :: rest → CaseMap.isLower first = false →
      CaseMap.upperChar first = [first]) : (toPascalCase (toSnakeCase s)).toList = inCapitals s.toList := by
  unfold inCapitals
  have settled := nameWords_settled tables s.toList
  rw [← snake_split tables] at settled ⊢
  by_cases present : '_' ∈ (toSnakeCase s).toList
  · have small : ∀ c ∈ (toSnakeCase s).toList,CaseMap.lowerChar c = [c] := by
      rw [← lowerText_settled tables,← snake_line present,steady]
    rw [copy_line present]
    apply List.flatMap_congr
    intro word member
    exact pascalPart_fixed fun c letter => small c ((splitChars_part member).2 c letter)
  · rw [splitChars_single present] at settled ⊢
    rw [List.flatMap_singleton]
    cases is : (toSnakeCase s).toList with
    | nil =>
      have empty : toSnakeCase s = "" := String.toList_inj.mp is
      rw [empty]
      rfl
    | cons first rest =>
      rw [is] at present settled
      rcases capitals_or (first :: rest) with capitals | mixed
      · have small : ∀ c ∈ rest,CaseMap.lowerChar c = [c] := fun c member =>
          settled _ (List.mem_singleton_self _) c (List.mem_cons_of_mem _ member) (capitals c (List.mem_cons_of_mem _ member))
        rw [copy_capitals tables present is capitals,tables.textFixed rest small,titled,
          tables.capital first (capitals first List.mem_cons_self)]
        rfl
      · exact copy_mixed present is mixed (kept first rest present is)

theorem absent_name {s : String} {text : List Char} (unlined : '_' ∉ text) (is : (toSnakeCase s).toList = text) : '_' ∉ s.toList := by
  intro present
  have line := lowerText_line tables present
  rw [← snake_line present,is] at line
  exact unlined line

-- A single word begins with a letter that keeps its case if the name does.
theorem first_kept {s : String} (kept : ∀ first rest,s.toList = first :: rest → CaseMap.isLower first = false →
      CaseMap.upperChar first = [first]) {c : Char} {cs : List Char} (unlined : '_' ∉ c :: cs)
    (is : (toSnakeCase s).toList = c :: cs) (notLower : CaseMap.isLower c = false) : CaseMap.upperChar c = [c] := by
  have absent := absent_name tables unlined is
  have text := snake_words absent
  rw [is] at text
  have uncut : Uncut none s.toList := by
    apply Classical.byContradiction
    intro divided
    exact unlined (text ▸ mem_lined.mpr (.inr ⟨rfl,divided⟩))
  unfold lined at text
  rw [lowered_word uncut,uncut,List.flatMap_nil,List.append_nil] at text
  cases name : s.toList with
  | nil =>
    rw [name] at text
    cases text
  | cons first rest =>
    rw [name,List.flatMap_cons] at text
    cases upper : CaseMap.isUpper first with
    | false =>
      rw [lowered_plain upper] at text
      obtain ⟨rfl,_⟩ := List.cons.inj text
      exact kept c rest name notLower
    | true =>
      rw [lowered_capital upper] at text
      by_cases caseless : CaseMap.lowerChar first = [first]
      · rw [caseless] at text
        obtain ⟨rfl,_⟩ := List.cons.inj text
        exact tables.capital c upper
      · obtain ⟨small,others,low,lower,_⟩ := tables.small first upper caseless
        rw [low] at text
        obtain ⟨rfl,_⟩ := List.cons.inj text
        rw [lower] at notLower
        cases notLower

theorem copy_titled {s : String} (steady : toSnakeCase (toSnakeCase s) = toSnakeCase s) (agrees : CopyAgrees s.toList) :
    (toPascalCase s).toList = inCapitals s.toList := by
  by_cases present : '_' ∈ s.toList
  · unfold inCapitals nameWords
    rw [copy_line present,if_pos present,lowerText_parts tables,List.flatMap_map]
    apply List.flatMap_congr
    intro part member
    cases part with
    | nil =>
      have empty := tables.textFixed [] fun _ member => absurd member List.not_mem_nil
      rw [empty]
      rfl
    | cons first rest =>
      obtain ⟨back,text⟩ := agrees.parts present first rest member
      rw [text,List.flatMap_cons,titled_append (tables.lowerSome first),back]
      rfl
  · rw [words_unlined present]
    cases is : s.toList with
    | nil =>
      obtain rfl : s = "" := String.toList_inj.mp is
      rfl
    | cons first rest =>
      have first_kept := agrees.first present first rest is
      rw [is] at present
      rcases capitals_or (first :: rest) with capitals | mixed
      · obtain ⟨back,text⟩ := agrees.capitals (is ▸ present) (is ▸ capitals) first rest is
        rw [copy_capitals tables present is capitals,words_capitals tables capitals,back,text]
        rfl
      · rw [copy_mixed present is mixed first_kept]
        exact ((words_spelled tables first rest).mpr (is ▸ agrees.mixed (is ▸ present) (is ▸ mixed))).symm

-- And the other way round, where the copy writes the capitals that the words have.
theorem titled_agrees {s : String} (same : (toPascalCase s).toList = inCapitals s.toList) : CopyAgrees s.toList := by
  constructor
  · intro present
    have pieces : ∀ part ∈ splitChars '_' s.toList,pascalPart part = titled (lowerText part) := by
      apply flatMap_pieces
      · intro part _
        cases part with
        | nil => exact Nat.zero_le _
        | cons first rest =>
          obtain ⟨others,text,lengths⟩ := tables.textFirst first rest
          have front : (CaseMap.upperChar first).length ≤ (titled (CaseMap.lowerChar first)).length := by
            cases upper : CaseMap.isUpper first with
            | false => rw [tables.retitled first upper]
            | true =>
              have large := titled_length tables (tables.lowerSome first)
              have some := List.length_pos_iff.mpr (tables.lowerSome first)
              rw [tables.capital first upper,List.length_singleton]
              omega
          rw [text,titled_append (tables.lowerSome first),pascalPart,List.length_append,List.length_append,lengths]
          omega
      · unfold inCapitals nameWords at same
        rw [copy_line present,if_pos present,lowerText_parts tables,List.flatMap_map] at same
        exact same
    intro first rest member
    obtain ⟨others,text,lengths⟩ := tables.textFirst first rest
    have piece := pieces _ member
    rw [text,titled_append (tables.lowerSome first),pascalPart] at piece
    obtain ⟨front,back⟩ := List.append_inj' piece lengths.symm
    exact ⟨front.symm,by rw [text,← back]; rfl⟩
  · intro absent capitals first rest is
    rw [is] at absent capitals
    rw [words_unlined (is ▸ absent),copy_capitals tables absent is capitals,is,words_capitals tables capitals] at same
    have whole : [first] ++ lowerText rest = titled (CaseMap.lowerChar first) ++ rest.flatMap CaseMap.lowerChar := same
    obtain ⟨front,back⟩ := List.append_inj' whole (lowerText_length tables rest)
    exact ⟨front.symm,back⟩
  · intro absent mixed
    cases is : s.toList with
    | nil => exact spelled_nil _
    | cons first rest =>
      rw [is] at absent mixed
      have kept : CaseMap.isLower first = false → CaseMap.upperChar first = [first] := by
        intro notLower
        rw [copy_other absent is notLower mixed,is] at same
        exact titled_fixed tables same.symm
      rw [copy_mixed absent is mixed kept,is,words_unlined absent] at same
      exact (words_spelled tables first rest).mp same.symm
  · intro absent first rest is notLower
    rw [is] at absent
    rcases capitals_or (first :: rest) with capitals | mixed
    · exact tables.capital first (capitals first List.mem_cons_self)
    · rw [copy_other absent is notLower mixed,is] at same
      exact titled_fixed tables same.symm

-- The copy on a name that has its capitals.
theorem copy_again {cs : List Char} (spelled : Spelled none cs) (unlined : '_' ∉ cs)
    (fixed : ∀ first rest,cs = first :: rest → CaseMap.upperChar first = [first]) :
    toPascalCase (String.ofList cs) = String.ofList cs := by
  rw [← String.toList_inj,String.toList_ofList]
  cases cs with
  | nil => rfl
  | cons first rest =>
    have front := fixed first rest rfl
    rcases capitals_or (first :: rest) with capitals | mixed
    · have small := spelled_capitals tables spelled capitals
      rw [copy_capitals tables unlined String.toList_ofList capitals,tables.textFixed rest small]
    · rw [copy_mixed unlined String.toList_ofList mixed fun _ => front,front]
      rfl

end Copy

section
variable (tables : CaseTables) {s : String}
include tables

theorem once_titled (once : CasedOnce s) : (toPascalCase s).toList = inCapitals s.toList := by
  rw [← once.copySnake]
  apply copy_snake tables once.snake
  intro first rest unlined is notLower
  rcases capitals_or (first :: rest) with capitals | mixed
  · exact tables.capital first (capitals first List.mem_cons_self)
  · have copied : toPascalCase s = toSnakeCase s := by
      rw [← once.copySnake,copy_other unlined is notLower mixed]
    have pascal := once.copyPascal
    rw [copied,once.pascalSnake] at pascal
    by_cases none : inCapitals s.toList = []
    · exact absurd (lines_first tables none is ▸ List.mem_cons_self) unlined
    · have text := pascal_capitals tables none
      rw [pascal,is] at text
      exact titled_fixed tables text.symm

theorem agrees_once (steady : toSnakeCase (toSnakeCase s) = toSnakeCase s) (apart : CapitalsApart (nameWords s.toList))
    (agrees : CopyAgrees s.toList) : CasedOnce s := by
  have pascal := (pascal_steady tables s).mpr apart
  have copied := copy_titled tables steady agrees
  have text : toPascalCase s = String.ofList (inCapitals s.toList) := by
    rw [← String.toList_inj,String.toList_ofList,copied]
  refine ⟨steady,camel_steady tables apart,pascal,camel_snake tables steady,pascal_snake steady,?_,?_,?_⟩
  · rw [text]
    have spelled := (apart_spelled tables (nameWords_settled tables s.toList)).mp apart
    exact copy_again tables spelled (inCapitals_line tables _) fun first rest is => titled_fixed tables is
  · rw [← String.toList_inj,copied]
    exact copy_snake tables steady fun first rest unlined is notLower =>
      first_kept tables (fun first rest name lower => agrees.first (absent_name tables unlined is) first rest name lower)
        unlined is notLower
  · by_cases none : inCapitals s.toList = []
    · rw [text,none]
      rfl
    · have same : toPascalCase s = Identifiers.toPascalCase s := by
        rw [← String.toList_inj,pascal_capitals tables none,copied]
      rw [same]
      exact pascal

end

-- Casing once is enough just for the names whose words take their capitals without running
-- into each other, in letters that come back.
theorem cased_once_iff (tables : CaseTables) (s : String) : CasedOnce s ↔
    SnakeSteady s.toList ∧ CapitalsApart (nameWords s.toList) ∧ CopyAgrees s.toList := by
  constructor
  · intro once
    exact ⟨(snake_steady tables s).mp once.snake,(pascal_steady tables s).mp once.pascal,
      titled_agrees tables (once_titled tables once)⟩
  · rintro ⟨snake,apart,agrees⟩
    exact agrees_once tables ((snake_steady tables s).mpr snake) apart agrees

end

section Once
local instance nameCase : CaseMap := ascii

theorem user_status_once : CasedOnce "user_status" := by
  apply (cased_once_iff ascii_tables "user_status").mpr
  refine ⟨(snake_steady ascii_tables _).mp ?_,(pascal_steady ascii_tables _).mp ?_,titled_agrees ascii_tables ?_⟩
  · decide
  · decide
  · decide

-- Words of one letter run into each other.
theorem single_letters_twice : ¬CasedOnce "a_b_c" ∧
    Identifiers.toPascalCase "a_b_c" = "ABC" ∧ Identifiers.toPascalCase "ABC" = "Abc" ∧
    Identifiers.toCamelCase "a_b_c" = "aBC" ∧ Identifiers.toCamelCase "aBC" = "aBc" := by
  refine ⟨?_,by decide,by decide,by decide,by decide⟩
  intro once
  have again : Identifiers.toPascalCase (Identifiers.toPascalCase "a_b_c") ≠ Identifiers.toPascalCase "a_b_c" := by decide
  exact again once.pascal

end Once

end Scythe.Casing
