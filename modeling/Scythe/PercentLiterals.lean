import Scythe.PercentStyle

-- The literals that python-psycopg3 puts its SQL in, and the names in them.
namespace Scythe.PercentStyle
open Text Splice Doubling Identifiers Verification

section Names
variable [CaseMap]

-- No line end that Python changes, no character that it refuses, no end of a key.
def Inert (c : Char) : Prop := c ≠ '\r' ∧ c ≠ '\x00' ∧ c ≠ ')'

-- What is relied on of lower case: it brings in none of these.
structure InertCase : Prop where
  text : ∀ s : String,(∀ c ∈ s.toList,Inert c) → ∀ c ∈ (CaseMap.lowercase s).toList,Inert c
  letter : ∀ c : Char,Inert c → ∀ d ∈ CaseMap.lowerChar c,Inert d

omit [CaseMap] in
theorem inert_underscore : Inert '_' := ⟨by decide,by decide,by decide⟩

omit [CaseMap] in
theorem mem_separator {separated : Bool} {c d : Char} (member : d ∈ if separated then [c] else []) : d = c := by
  cases separated with
  | true => exact List.mem_singleton.mp member
  | false => cases member

theorem snakeChars_inert (inert : InertCase) {cs : List Char} (given : ∀ c ∈ cs,Inert c) (prev : Option Char) :
    ∀ d ∈ snakeChars prev cs,Inert d := by
  induction cs generalizing prev with
  | nil =>
    intro d absent
    cases absent
  | cons c cs ih =>
    have here := given c List.mem_cons_self
    have tail := ih (fun d member => given d (List.mem_cons_of_mem _ member)) (some c)
    intro d member
    unfold snakeChars at member
    split at member
    · rcases List.mem_append.mp member with front | rest
      · rcases List.mem_append.mp front with separator | lower
        · rw [mem_separator separator]
          exact inert_underscore
        · exact inert.letter c here d lower
      · exact tail d rest
    · rcases List.mem_cons.mp member with rfl | rest
      · exact here
      · exact tail d rest

theorem toSnakeCase_inert (inert : InertCase) {s : String} (given : ∀ c ∈ s.toList,Inert c) :
    ∀ d ∈ (toSnakeCase s).toList,Inert d := by
  unfold toSnakeCase
  split
  · exact inert.text s given
  · split
    · exact given
    · rw [String.toList_ofList]
      exact snakeChars_inert inert given none

theorem replaced_inert (ordinary : OrdinaryCharacters) (s : String) :
    ∀ c ∈ (replaceNonIdentifierChars s).toList,Inert c := by
  intro c member
  rw [replaceNonIdentifierChars,String.toList_ofList] at member
  obtain ⟨d,-,rfl⟩ := List.mem_map.mp member
  split
  next tag =>
    exact ⟨ordinary.tag_ne tag (.inl ⟨by decide,by decide⟩),ordinary.tag_ne tag (.inl ⟨by decide,by decide⟩),
      ordinary.tag_ne tag (.inl ⟨by decide,by decide⟩)⟩
  next => exact inert_underscore

omit [CaseMap] in
theorem append_inert {a b : String} (left : ∀ c ∈ a.toList,Inert c) (right : ∀ c ∈ b.toList,Inert c) :
    ∀ c ∈ (a ++ b).toList,Inert c := by
  intro c member
  rw [String.toList_append] at member
  exact (List.mem_append.mp member).elim (left c) (right c)

omit [CaseMap] in
theorem unreserved_inert (naming : NamingConfig) {cased : String} (given : ∀ c ∈ cased.toList,Inert c) :
    ∀ c ∈ (unreserved naming cased).toList,Inert c := by
  unfold unreserved
  split
  · apply append_inert given
    have mark : "_".toList = ['_'] := rfl
    rw [mark]
    simp [Inert]
  · exact given

theorem applyCase_snake (s : String) : applyCase s "snake_case" = toSnakeCase s := by
  unfold applyCase
  rw [if_neg (by decide),if_pos rfl]

theorem identifierName_inert (ordinary : OrdinaryCharacters) (inert : InertCase) (sqlName : String) :
    ∀ c ∈ (identifierName pythonNaming sqlName).toList,Inert c := by
  have replaced := replaced_inert ordinary sqlName
  have col : ∀ c ∈ "col_".toList,Inert c := by
    have letters : "col_".toList = ['c','o','l','_'] := rfl
    rw [letters]
    simp [Inert]
  unfold identifierName
  apply unreserved_inert
  change ∀ c ∈ (applyCase _ "snake_case").toList,Inert c
  rw [applyCase_snake]
  apply toSnakeCase_inert inert
  split
  · exact append_inert col replaced
  · exact replaced

theorem resolveParam_fieldName (overrides : List TypeOverride) (sourceTable : String) (param : AnalyzedParam) :
    (resolveParam overrides sourceTable param).fieldName = identifierName pythonNaming param.name := by
  rw [resolveParam]

theorem keyAt_inert (ordinary : OrdinaryCharacters) (inert : InertCase) {analyzed : List AnalyzedParam}
    {params : List ResolvedParam} {overrides : List TypeOverride} {sourceTable : String}
    (resolved : resolveParams analyzed overrides sourceTable = some params) (position : Nat) :
    ∀ c ∈ (keyAt analyzed params position).toList,Inert c := by
  unfold keyAt
  cases found : nameMap analyzed params position with
  | none =>
    have mark : "?".toList = ['?'] := rfl
    rw [Option.getD_none,mark]
    simp [Inert]
  | some name =>
    obtain ⟨pair,is,rfl⟩ := Option.map_eq_some_iff.mp found
    have member := (List.of_mem_zip (List.mem_reverse.mp (List.mem_of_find?_eq_some is))).2
    unfold resolveParams at resolved
    dsimp only at resolved
    split at resolved
    · rw [← Option.some.inj resolved] at member
      obtain ⟨param,-,same⟩ := List.mem_map.mp member
      rw [Option.getD_some,← same,resolveParam_fieldName]
      exact identifierName_inert ordinary inert param.name
    · exact absurd resolved (Option.some_ne_none _).symm

end Names

section Frame

-- Escaping the quotes of a line leaves its end.
def quotedChar (c : Char) : List Char := ((quoteSubstitute c).map (·.toList)).getD [c]

theorem quotedChar_spec (c : Char) : (quotedChar c = [c] ∨ quotedChar c = ['\\',c]) ∧ (c = '\n' → quotedChar c = [c]) ∧
    (c = '\r' → quotedChar c = [c]) := by
  unfold quotedChar quoteSubstitute
  split
  next => exact ⟨.inr rfl,by decide,by decide⟩
  next => exact ⟨.inr rfl,by decide,by decide⟩
  next => exact ⟨.inl rfl,fun _ => rfl,fun _ => rfl⟩

theorem escaped_append (cs ds : List Char) :
    escapePythonTripleDouble (cs ++ ds) = escapePythonTripleDouble cs ++ escapePythonTripleDouble ds := by
  simp [escapePythonTripleDouble,escapeCharByChar,StringLiteral.substituted]

theorem escaped_cons (c : Char) (cs : List Char) :
    escapePythonTripleDouble (c :: cs) = quotedChar c ++ escapePythonTripleDouble cs := by
  unfold escapePythonTripleDouble escapeCharByChar
  rw [StringLiteral.substituted_cons]
  rfl

-- The lines of a text, with one more character in front.
def begun (c : Char) : List (List Char) → List (List Char)
  | [] => [[c]]
  | line :: rest => (c :: line) :: rest

theorem splitInclusive_cons {c : Char} (inside : c ≠ '\n') (cs : List Char) :
    splitInclusive (c :: cs) = begun c (splitInclusive cs) := by
  rw [splitInclusive,if_neg inside]
  cases splitInclusive cs <;> rfl

theorem splitInclusive_escaped (cs : List Char) :
    splitInclusive (escapePythonTripleDouble cs) = (splitInclusive cs).map escapePythonTripleDouble := by
  induction cs with
  | nil => rfl
  | cons c cs ih =>
    obtain ⟨either,feed,-⟩ := quotedChar_spec c
    rw [escaped_cons]
    by_cases ends : c = '\n'
    · rw [feed ends,ends,List.singleton_append,splitInclusive,if_pos rfl,splitInclusive,if_pos rfl,ih]
      rfl
    · have single : escapePythonTripleDouble [c] = quotedChar c := by
        rw [escaped_cons]
        exact List.append_nil _
      rw [splitInclusive_cons ends]
      rcases either with plain | behind
      · rw [plain,List.singleton_append,splitInclusive_cons ends,ih]
        cases splitInclusive cs with
        | nil => simp [begun,single,plain]
        | cons line rest => simp [begun,escaped_cons,plain]
      · rw [behind,List.cons_append,List.singleton_append,splitInclusive_cons (by decide),splitInclusive_cons ends,ih]
        cases splitInclusive cs with
        | nil => simp [begun,single,behind]
        | cons line rest => simp [begun,escaped_cons,behind]

theorem escaped_last (cs : List Char) (c : Char) : (escapePythonTripleDouble (cs ++ [c])).getLast? = some c := by
  rw [escaped_append,escaped_cons]
  rcases (quotedChar_spec c).1 with plain | behind
  · rw [plain]
    simp [escapePythonTripleDouble,escapeCharByChar]
  · rw [behind]
    simp [escapePythonTripleDouble,escapeCharByChar]

theorem escaped_whole {cs : List Char} {c : Char} (plain : quotedChar c = [c]) :
    escapePythonTripleDouble (cs ++ [c]) = escapePythonTripleDouble cs ++ [c] := by
  rw [escaped_append,escaped_cons,plain]
  rfl

theorem lineText_escaped (line : List Char) :
    lineText (escapePythonTripleDouble line) = escapePythonTripleDouble (lineText line) := by
  rcases List.eq_nil_or_concat' line with rfl | ⟨front,c,rfl⟩
  · rfl
  unfold lineText
  rw [escaped_last,List.getLast?_concat]
  by_cases ends : c = '\n'
  · subst ends
    rw [if_pos rfl,if_pos rfl,escaped_whole ((quotedChar_spec '\n').2.1 rfl),List.dropLast_concat,List.dropLast_concat]
    rcases List.eq_nil_or_concat' front with rfl | ⟨front,d,rfl⟩
    · rfl
    rw [escaped_last,List.getLast?_concat]
    by_cases carriage : d = '\r'
    · subst carriage
      rw [if_pos rfl,if_pos rfl,escaped_whole ((quotedChar_spec '\r').2.2 rfl),List.dropLast_concat,List.dropLast_concat]
    · rw [if_neg (by simpa using carriage),if_neg (by simpa using carriage)]
  · rw [if_neg (by simpa using ends),if_neg (by simpa using ends)]

-- Each line of a text, with its end.
def closedLines (cs : List Char) : List Char := (lines cs).flatMap (· ++ ['\n'])

theorem closedLines_escaped (cs : List Char) :
    closedLines (escapePythonTripleDouble cs) = escapePythonTripleDouble (closedLines cs) := by
  have feed : escapePythonTripleDouble ['\n'] = ['\n'] := rfl
  have joined : ∀ found : List (List Char),
      (found.map escapePythonTripleDouble).flatMap (· ++ ['\n']) = escapePythonTripleDouble (found.flatMap (· ++ ['\n'])) := by
    intro found
    induction found with
    | nil => rfl
    | cons line found ih => rw [List.map_cons,List.flatMap_cons,List.flatMap_cons,ih,escaped_append,escaped_append,feed]
  unfold closedLines lines
  rw [splitInclusive_escaped,List.map_map,← joined,List.map_map]
  congr 1
  exact List.map_congr_left fun line _ => lineText_escaped line

theorem closing_append {cs ds : List Char} (present : ds ≠ []) : closing (cs ++ ds) = closing ds := by
  unfold closing
  rw [List.getLast?_append_of_ne_nil _ present]

theorem closing_cons (c : Char) {cs : List Char} (present : cs ≠ []) : closing (c :: cs) = closing cs := by
  have moved : closing ([c] ++ cs) = closing cs := closing_append present
  exact moved

theorem splitInclusive_eq_nil {cs : List Char} (none : splitInclusive cs = []) : cs = [] := by
  cases cs with
  | nil => rfl
  | cons c cs =>
    rw [splitInclusive] at none
    split at none
    · cases none
    · split at none <;> cases none

theorem lineText_cons {c : Char} {line : List Char} (plain : c ≠ '\r') (present : line ≠ []) :
    lineText (c :: line) = c :: lineText line := by
  obtain ⟨front,d,rfl⟩ := (List.eq_nil_or_concat' line).resolve_left present
  unfold lineText
  rw [← List.cons_append,List.getLast?_concat,List.getLast?_concat,List.dropLast_concat,List.dropLast_concat]
  by_cases ends : d = '\n'
  · rw [if_pos (congrArg some ends),if_pos (congrArg some ends)]
    rcases List.eq_nil_or_concat' front with rfl | ⟨front,e,rfl⟩
    · simp [plain]
    · rw [← List.cons_append,List.getLast?_concat,List.getLast?_concat,List.dropLast_concat,List.dropLast_concat]
      split <;> rfl
  · rw [if_neg (by simpa using ends),if_neg (by simpa using ends)]
    rfl

theorem pieces_present {cs piece : List Char} (member : piece ∈ splitInclusive cs) : piece ≠ [] := by
  induction cs generalizing piece with
  | nil => cases member
  | cons c cs ih =>
    rw [splitInclusive] at member
    split at member
    · rcases List.mem_cons.mp member with rfl | rest
      · exact List.cons_ne_nil _ _
      · exact ih rest
    · split at member
      · rw [List.mem_singleton.mp member]
        exact List.cons_ne_nil _ _
      · rename_i line rest found
        rcases List.mem_cons.mp member with rfl | inside
        · exact List.cons_ne_nil _ _
        · exact ih (found ▸ List.mem_cons_of_mem _ inside)

-- Where no line ends in a carriage return, the lines make up the text.
theorem closedLines_eq {cs : List Char} (returns : '\r' ∉ cs) : closedLines cs = cs ++ closing cs := by
  induction cs with
  | nil => rfl
  | cons c cs ih =>
    rw [List.mem_cons,not_or] at returns
    have tail := ih returns.2
    unfold closedLines lines at tail ⊢
    by_cases ends : c = '\n'
    · subst ends
      rw [splitInclusive,if_pos rfl,List.map_cons,List.flatMap_cons,tail]
      cases cs with
      | nil => rfl
      | cons d cs => rw [closing_cons '\n' (List.cons_ne_nil d cs)]; rfl
    · rw [splitInclusive_cons ends]
      cases found : splitInclusive cs with
      | nil =>
        rw [splitInclusive_eq_nil found]
        simp [begun,lineText,closing,ends]
      | cons line rest =>
        have present : cs ≠ [] := by
          rintro rfl
          cases found
        have filled : line ≠ [] := pieces_present (found ▸ List.mem_cons_self)
        rw [found,List.map_cons,List.flatMap_cons] at tail
        rw [begun,List.map_cons,List.flatMap_cons,lineText_cons (Ne.symm returns.1) filled,closing_cons c present,List.cons_append,
          List.cons_append,List.cons_append,tail]

def Emitter.frame (text : List Char) : Emitter → List Char
  | .flat => text
  | .grouped => '\n' :: closedLines text

theorem Emitter.literal_eq (emitter : Emitter) (text : List Char) :
    emitter.literal (escapePythonTripleDouble text) = HostLiteral.python.emit (emitter.frame text) := by
  cases emitter with
  | flat => rfl
  | grouped =>
    have lines := closedLines_escaped text
    unfold Emitter.literal HostLiteral.emit
    change _ :: _ :: _ :: '\n' :: closedLines (escapePythonTripleDouble text) ++ _ = _
    rw [lines]
    rfl

end Frame

end Scythe.PercentStyle
