import Scythe.Lib.StringLiteral
import Scythe.Lib.Text

-- The SQL of a query as a string literal of the generated source.
namespace Scythe
open StringLiteral

def escapeCharByChar (sql : List Char) (substitute : Char → Option String) : List Char :=
  substituted (fun c => (substitute c).map (·.toList)) sql

def kotlinSubstitute : Char → Option String
  | '\\' => some "\\\\"
  | '"' => some "\\\""
  | '$' => some "\\$"
  | '\n' => some "\\n"
  | '\r' => some "\\r"
  | '\t' => some "\\t"
  | _ => none

def controlSubstitute : Char → Option String
  | '\\' => some "\\\\"
  | '"' => some "\\\""
  | '\n' => some "\\n"
  | '\r' => some "\\r"
  | '\t' => some "\\t"
  | _ => none

def quoteSubstitute : Char → Option String
  | '\\' => some "\\\\"
  | '"' => some "\\\""
  | _ => none

def phpSubstitute : Char → Option String
  | '\\' => some "\\\\"
  | '\'' => some "\\'"
  | _ => none

def escapeKotlinString (sql : List Char) : List Char := escapeCharByChar sql kotlinSubstitute
def escapePhpSingleQuoted (sql : List Char) : List Char := escapeCharByChar sql phpSubstitute
def escapeJavaString (sql : List Char) : List Char := escapeCharByChar sql controlSubstitute
def escapeGoInterpretedString (sql : List Char) : List Char := escapeCharByChar sql controlSubstitute
def escapePythonTripleDouble (sql : List Char) : List Char := escapeCharByChar sql quoteSubstitute
def escapeRustString (sql : List Char) : List Char := escapeCharByChar sql quoteSubstitute

def opensBrace (cs : List Char) : Bool := cs.head? = some (Char.ofNat 0x7b)

def escapeInterpolatingDoubleQuoted (marker : Char) : List Char → List Char
  | [] => []
  | c :: cs =>
    let rest := escapeInterpolatingDoubleQuoted marker cs
    if c = '\\' then '\\' :: '\\' :: rest
    else if c = '"' then '\\' :: '"' :: rest
    else if c = marker ∧ opensBrace cs then '\\' :: marker :: rest
    else c :: rest

def escapeElixirDoubleQuoted (sql : List Char) : List Char := escapeInterpolatingDoubleQuoted '#' sql

def escapeCsharpVerbatimString (sql : List Char) : List Char :=
  substituted (fun c => if c = '"' then some ['"','"'] else none) sql

def rawMarker (hashes : Nat) : List Char := '"' :: List.replicate hashes '#'

-- A marker longer than the text is not in it, so the text's length is fuel
-- enough.
def rawHashes (sql : List Char) : Nat → Nat → Nat
  | 0,hashes => hashes
  | fuel + 1,hashes =>
    if (Text.splitFirst (rawMarker hashes) sql).isSome then rawHashes sql fuel (hashes + 1) else hashes

def rustRawStringLiteral (sql : List Char) : List Char :=
  let hashes := rawHashes sql sql.length 1
  let delim := List.replicate hashes '#'
  'r' :: delim ++ '"' :: sql ++ '"' :: delim

-- The forms of literal that the code generators emit.
inductive HostLiteral where
  | kotlin
  | elixir
  | php
  | java
  | go
  | csharp
  | python
  | rust
  | rustRaw
  deriving DecidableEq,Repr

def HostLiteral.emit (sql : List Char) : HostLiteral → List Char
  | .kotlin => '"' :: escapeKotlinString sql ++ ['"']
  | .elixir => '"' :: escapeElixirDoubleQuoted sql ++ ['"']
  | .php => '\'' :: escapePhpSingleQuoted sql ++ ['\'']
  | .java => '"' :: escapeJavaString sql ++ ['"']
  | .go => '"' :: escapeGoInterpretedString sql ++ ['"']
  | .csharp => '@' :: '"' :: escapeCsharpVerbatimString sql ++ ['"']
  | .python => '"' :: '"' :: '"' :: escapePythonTripleDouble sql ++ ['"','"','"']
  | .rust => '"' :: escapeRustString sql ++ ['"']
  | .rustRaw => rustRawStringLiteral sql

-- The rules of the languages themselves. Escapes by number, which no emitted
-- literal holds, are read as invalid.
section Hosts

def simpleEscape (table : List (Char × Char)) (c : Char) (rest : List Char) : Reading :=
  match table.lookup c with
  | some value => .text [value] rest
  | none => .invalid

def backslashQuote : List (Char × Char) := [('\\','\\'),('"','"'),('\'','\'')]
def controls : List (Char × Char) := [('n','\n'),('r','\r'),('t','\t')]

-- A `$` that is not escaped may start a template.
def kotlinReading : List Char → Reading
  | '"' :: cs => .close cs
  | '\\' :: c :: cs => simpleEscape (('$','$') :: ('b','\x08') :: backslashQuote ++ controls) c cs
  | '$' :: _ => .invalid
  | '\n' :: _ => .invalid
  | '\r' :: _ => .invalid
  | '\\' :: [] => .invalid
  | c :: cs => .text [c] cs
  | [] => .invalid

def javaReading : List Char → Reading
  | '"' :: cs => .close cs
  | '\\' :: c :: cs =>
    simpleEscape (('b','\x08') :: ('f','\x0c') :: ('s',' ') :: backslashQuote ++ controls) c cs
  | '\n' :: _ => .invalid
  | '\r' :: _ => .invalid
  | '\\' :: [] => .invalid
  | c :: cs => .text [c] cs
  | [] => .invalid

def goReading : List Char → Reading
  | '"' :: cs => .close cs
  | '\\' :: c :: cs =>
    simpleEscape (('a','\x07') :: ('b','\x08') :: ('f','\x0c') :: ('v','\x0b') :: ('\\','\\') :: ('"','"') :: controls) c cs
  | '\n' :: _ => .invalid
  | '\\' :: [] => .invalid
  | c :: cs => .text [c] cs
  | [] => .invalid

def elixirReading : List Char → Reading
  | '"' :: cs => .close cs
  | '\\' :: 'u' :: _ => .invalid
  | '\\' :: 'x' :: _ => .invalid
  | '\\' :: '\n' :: cs => .text [] cs
  | '\\' :: c :: cs =>
    let table := [('0','\x00'),('a','\x07'),('b','\x08'),('d','\x7f'),('e','\x1b'),('f','\x0c'),('s',' '),('v','\x0b')]
    .text [((table ++ controls).lookup c).getD c] cs
  | '\\' :: [] => .invalid
  | '#' :: cs => if opensBrace cs then .invalid else .text ['#'] cs
  | c :: cs => .text [c] cs
  | [] => .invalid

def phpReading : List Char → Reading
  | '\'' :: cs => .close cs
  | '\\' :: '\\' :: cs => .text ['\\'] cs
  | '\\' :: '\'' :: cs => .text ['\''] cs
  | c :: cs => .text [c] cs
  | [] => .invalid

def csharpReading : List Char → Reading
  | '"' :: '"' :: cs => .text ['"'] cs
  | '"' :: cs => .close cs
  | c :: cs => .text [c] cs
  | [] => .invalid

-- An escape that is none stays as it is.
def pythonReading : List Char → Reading
  | '"' :: '"' :: '"' :: cs => .close cs
  | '\\' :: 'u' :: _ => .invalid
  | '\\' :: 'U' :: _ => .invalid
  | '\\' :: 'x' :: _ => .invalid
  | '\\' :: 'N' :: _ => .invalid
  | '\\' :: '\n' :: cs => .text [] cs
  | '\\' :: c :: cs =>
    if Text.isDigit c then .invalid else
    let table := ('a','\x07') :: ('b','\x08') :: ('f','\x0c') :: ('v','\x0b') :: backslashQuote ++ controls
    match table.lookup c with
    | some value => .text [value] cs
    | none => .text ['\\',c] cs
  | '\\' :: [] => .invalid
  | c :: cs => .text [c] cs
  | [] => .invalid

def rustReading : List Char → Reading
  | '"' :: cs => .close cs
  | '\\' :: '\n' :: cs => .text [] (cs.dropWhile Text.isAsciiSpace)
  | '\\' :: c :: cs => simpleEscape (('0','\x00') :: backslashQuote ++ controls) c cs
  | '\\' :: [] => .invalid
  | c :: cs => .text [c] cs
  | [] => .invalid

def rawReading (hashes : Nat) (cs : List Char) : Reading :=
  match (rawMarker hashes).isPrefixOf? cs with
  | some rest => .close rest
  | none =>
    match cs with
    | c :: cs => .text [c] cs
    | [] => .invalid

def pythonLineEnds : LineEnds := ⟨some '\n',fun c => c = '\x00'⟩
def rustLineEnds : LineEnds := ⟨none,fun _ => false⟩

-- The literal behind its opening delimiter.
def opened (opening : List Char) (g : Grammar) (source : List Char) : Option (List Char) :=
  (opening.isPrefixOf? source).bind g.body

def rawBody (cs : List Char) : Option (List Char) :=
  let hashes := (cs.takeWhile (· = '#')).length
  match cs.dropWhile (· = '#') with
  | '"' :: body => (⟨rawMarker hashes,rawReading hashes⟩ : Grammar).body body
  | _ => none

def openedRaw : List Char → Option (List Char)
  | 'r' :: cs => rawBody cs
  | _ => none

-- The text that a literal denotes, if it is one.
def HostLiteral.decode (literal : List Char) : HostLiteral → Option (List Char)
  | .kotlin => opened ['"'] ⟨['"'],kotlinReading⟩ literal
  | .elixir => opened ['"'] ⟨['"'],elixirReading⟩ literal
  | .php => opened ['\''] ⟨['\''],phpReading⟩ literal
  | .java => opened ['"'] ⟨['"'],javaReading⟩ literal
  | .go => opened ['"'] ⟨['"'],goReading⟩ literal
  | .csharp => opened ['@','"'] ⟨['"'],csharpReading⟩ literal
  | .python => (pythonLineEnds.translate literal).bind (opened ['"','"','"'] ⟨['"','"','"'],pythonReading⟩)
  | .rust => (rustLineEnds.translate literal).bind (opened ['"'] ⟨['"'],rustReading⟩)
  | .rustRaw => (rustLineEnds.translate literal).bind openedRaw

end Hosts

-- The characters of SQL that a host's literals carry.
def HostLiteral.carries : HostLiteral → Char → Bool
  | .python,c => c ≠ '\r' && c ≠ '\x00'
  | .rust,c | .rustRaw,c => c ≠ '\r'
  | _,_ => true

section Inverses

theorem charByChar_inverts {closing : List Char} {reading : List Char → Reading} {substitute : Char → Option String}
    (escaped : ∀ c written rest,substitute c = some written →
      written.toList ≠ [] ∧ reading (written.toList ++ rest) = .text [c] rest)
    (plain : ∀ c rest,substitute c = none → reading (c :: rest) = .text [c] rest)
    (closes : reading closing = .close []) :
    (⟨closing,reading⟩ : Grammar).Inverts (fun _ => True) fun sql => escapeCharByChar sql substitute := by
  refine inverts_substituted (fun c text rest is => ?_) (fun c rest is => ?_) closes
  · obtain ⟨written,known,rfl⟩ := Option.map_eq_some_iff.mp is
    exact escaped c written rest known
  · exact plain c rest (Option.map_eq_none_iff.mp is)

theorem kotlin_inverts :
    (⟨['"'],kotlinReading⟩ : Grammar).Inverts (fun _ => True) fun sql => escapeCharByChar sql kotlinSubstitute := by
  refine charByChar_inverts (fun c written rest is => ?_) (fun c rest is => ?_) rfl
  · unfold kotlinSubstitute at is
    split at is <;> cases is <;> exact ⟨by decide,rfl⟩
  · unfold kotlinSubstitute at is
    unfold kotlinReading
    split <;> simp_all

theorem java_inverts :
    (⟨['"'],javaReading⟩ : Grammar).Inverts (fun _ => True) fun sql => escapeCharByChar sql controlSubstitute := by
  refine charByChar_inverts (fun c written rest is => ?_) (fun c rest is => ?_) rfl
  · unfold controlSubstitute at is
    split at is <;> cases is <;> exact ⟨by decide,rfl⟩
  · unfold controlSubstitute at is
    unfold javaReading
    split <;> simp_all

theorem go_inverts :
    (⟨['"'],goReading⟩ : Grammar).Inverts (fun _ => True) fun sql => escapeCharByChar sql controlSubstitute := by
  refine charByChar_inverts (fun c written rest is => ?_) (fun c rest is => ?_) rfl
  · unfold controlSubstitute at is
    split at is <;> cases is <;> exact ⟨by decide,rfl⟩
  · unfold controlSubstitute at is
    unfold goReading
    split <;> simp_all

theorem php_inverts :
    (⟨['\''],phpReading⟩ : Grammar).Inverts (fun _ => True) fun sql => escapeCharByChar sql phpSubstitute := by
  refine charByChar_inverts (fun c written rest is => ?_) (fun c rest is => ?_) rfl
  · unfold phpSubstitute at is
    split at is <;> cases is <;> exact ⟨by decide,rfl⟩
  · unfold phpSubstitute at is
    unfold phpReading
    split <;> simp_all

theorem python_inverts : (⟨['"','"','"'],pythonReading⟩ : Grammar).Inverts (fun _ => True) fun sql =>
    escapeCharByChar sql quoteSubstitute := by
  refine charByChar_inverts (fun c written rest is => ?_) (fun c rest is => ?_) rfl
  · unfold quoteSubstitute at is
    split at is <;> cases is <;> exact ⟨by decide,rfl⟩
  · unfold quoteSubstitute at is
    unfold pythonReading
    split <;> simp_all

theorem rust_inverts :
    (⟨['"'],rustReading⟩ : Grammar).Inverts (fun _ => True) fun sql => escapeCharByChar sql quoteSubstitute := by
  refine charByChar_inverts (fun c written rest is => ?_) (fun c rest is => ?_) rfl
  · unfold quoteSubstitute at is
    split at is <;> cases is <;> exact ⟨by decide,rfl⟩
  · unfold quoteSubstitute at is
    unfold rustReading
    split <;> simp_all

theorem csharp_inverts :
    (⟨['"'],csharpReading⟩ : Grammar).Inverts (fun _ => True) escapeCsharpVerbatimString := by
  refine inverts_substituted (fun c text rest is => ?_) (fun c rest is => ?_) rfl
  · split at is
    · rename_i quote
      cases is
      exact ⟨by decide,by rw [quote]; rfl⟩
    · cases is
  · split at is
    · cases is
    · change csharpReading (c :: rest) = _
      unfold csharpReading
      split <;> simp_all

-- A brace behind a `#` is still there when what follows is escaped, and no
-- other comes up.
theorem opensBrace_escaped {cs : List Char}
    (opens : opensBrace (escapeInterpolatingDoubleQuoted '#' cs ++ ['"'])) : opensBrace cs := by
  cases cs with
  | nil => exact absurd opens (by decide)
  | cons c cs =>
    unfold escapeInterpolatingDoubleQuoted at opens
    dsimp only at opens
    split at opens
    · exact absurd opens (by simp [opensBrace])
    split at opens
    · exact absurd opens (by simp [opensBrace])
    split at opens
    · exact absurd opens (by simp [opensBrace])
    · simpa [opensBrace] using opens

theorem elixir_inverts :
    (⟨['"'],elixirReading⟩ : Grammar).Inverts (fun _ => True) escapeElixirDoubleQuoted := by
  refine ⟨rfl,fun _ _ _ => trivial,fun c cs _ => ?_,rfl⟩
  change ∃ text,_ ∧ escapeInterpolatingDoubleQuoted '#' (c :: cs) = _ ∧ _
  unfold escapeInterpolatingDoubleQuoted
  dsimp only
  split
  · rename_i backslash
    exact ⟨['\\','\\'],List.cons_ne_nil _ _,rfl,by rw [backslash]; rfl⟩
  split
  · rename_i quote
    exact ⟨['\\','"'],List.cons_ne_nil _ _,rfl,by rw [quote]; rfl⟩
  split
  · rename_i marker
    exact ⟨['\\','#'],List.cons_ne_nil _ _,rfl,by rw [marker.1]; rfl⟩
  · rename_i backslash quote marker
    refine ⟨[c],List.cons_ne_nil _ _,rfl,?_⟩
    by_cases hash : c = '#'
    · subst hash
      refine if_neg fun opens => ?_
      exact marker ⟨rfl,opensBrace_escaped opens⟩
    · change elixirReading (c :: (escapeElixirDoubleQuoted cs ++ ['"'])) = _
      unfold elixirReading
      split <;> simp_all

end Inverses

section RawStrings

theorem rawHashes_absent {sql : List Char} {fuel hashes : Nat} (enough : sql.length ≤ fuel + hashes) :
    ¬rawMarker (rawHashes sql fuel hashes) <:+: sql := by
  induction fuel generalizing hashes with
  | zero =>
    intro inside
    have shorter := inside.length_le
    rw [rawHashes,rawMarker,List.length_cons,List.length_replicate] at shorter
    omega
  | succ fuel ih =>
    rw [rawHashes]
    split
    · exact ih (by omega)
    · rename_i absent
      exact fun inside => absent (Text.splitFirst_isSome.mpr inside)

-- No marker begins before the closing one.
theorem rawMarker_starts {hashes : Nat} {c : Char} {cs : List Char}
    (early : rawMarker hashes <+: c :: (cs ++ rawMarker hashes)) : rawMarker hashes <:+: c :: cs := by
  have front : c :: cs <+: c :: (cs ++ rawMarker hashes) := ⟨rawMarker hashes,rfl⟩
  rcases List.prefix_or_prefix_of_prefix early front with whole | short
  · exact whole.isInfix
  · obtain ⟨rest,is⟩ := short
    obtain ⟨after,equal⟩ := early
    have tail : rest ++ after = rawMarker hashes := by
      have both : c :: cs ++ (rest ++ after) = c :: cs ++ rawMarker hashes := by
        rw [←List.append_assoc,is,equal,List.cons_append]
      exact List.append_cancel_left both
    cases rest with
    | nil => exact ⟨[],[],by simpa using is.symm⟩
    | cons d rest =>
      have quote : d = '"' := (List.cons.inj tail).1
      have hash : d ∈ List.replicate hashes '#' := by
        have behind := (List.cons.inj is).2
        rw [←behind]
        exact List.mem_append_right _ List.mem_cons_self
      rw [List.eq_of_mem_replicate hash] at quote
      cases quote

theorem raw_inverts (hashes : Nat) :
    (⟨rawMarker hashes,rawReading hashes⟩ : Grammar).Inverts (fun cs => ¬rawMarker hashes <:+: cs) id := by
  refine ⟨rfl,fun c cs absent inside => absent (inside.trans (List.suffix_cons c cs).isInfix),fun c cs absent => ?_,?_⟩
  · refine ⟨[c],List.cons_ne_nil _ _,rfl,?_⟩
    change rawReading hashes (c :: (cs ++ rawMarker hashes)) = .text [c] (cs ++ rawMarker hashes)
    unfold rawReading
    split
    · rename_i rest found
      exact absurd (rawMarker_starts (List.isPrefixOf?_eq_some_iff_append_eq.mp found ▸ List.prefix_append _ _)) absent
    · rfl
  · change rawReading hashes (rawMarker hashes) = .close []
    unfold rawReading
    rw [List.isPrefixOf?_eq_some_iff_append_eq.mpr (List.append_nil _)]

theorem raw_plain (hashes : Nat) (cs value rest : List Char) (is : rawReading hashes cs = .text value rest) :
    value ⊆ cs ∧ rest ⊆ cs := by
  unfold rawReading at is
  split at is
  · cases is
  · split at is
    · cases is
      exact ⟨by simp,List.subset_cons_self _ _⟩
    · cases is

theorem openedRaw_emitted (hashes : Nat) (sql : List Char) :
    openedRaw ('r' :: List.replicate hashes '#' ++ '"' :: sql ++ '"' :: List.replicate hashes '#') =
      (⟨rawMarker hashes,rawReading hashes⟩ : Grammar).body (sql ++ rawMarker hashes) := by
  have taken (rest : List Char) : (List.replicate hashes '#' ++ '"' :: rest).takeWhile (· = '#') =
      List.replicate hashes '#' := by
    rw [List.takeWhile_append_of_pos (by simp)]
    simp
  have left (rest : List Char) : (List.replicate hashes '#' ++ '"' :: rest).dropWhile (· = '#') = '"' :: rest := by
    rw [List.dropWhile_append_of_pos (by simp)]
    simp
  rw [List.append_assoc]
  change rawBody (List.replicate hashes '#' ++ '"' :: (sql ++ rawMarker hashes)) = _
  unfold rawBody
  rw [taken,left,List.length_replicate]
  rfl

theorem openedRaw_subset {cs value : List Char} (is : openedRaw cs = some value) : value ⊆ cs := by
  unfold openedRaw at is
  split at is
  · rename_i rest
    unfold rawBody at is
    dsimp only at is
    split at is
    · rename_i body after
      have inBody := Grammar.body_subset (raw_plain _) is
      have inRest : body ⊆ rest := fun c member =>
        (List.dropWhile_sublist _).subset (after ▸ List.mem_cons_of_mem _ member)
      exact fun c member => List.mem_cons_of_mem _ (inRest (inBody member))
    · cases is
  · cases is

end RawStrings

theorem opened_emitted (opening : List Char) (g : Grammar) (body : List Char) :
    opened opening g (opening ++ body) = g.body body := by
  unfold opened
  rw [List.isPrefixOf?_eq_some_iff_append_eq.mpr rfl,Option.bind_some]

theorem opened_inverts {g : Grammar} {escape : List Char → List Char} (inverts : g.Inverts (fun _ => True) escape)
    (opening sql : List Char) : opened opening g (opening ++ (escape sql ++ g.closing)) = some sql := by
  rw [opened_emitted,inverts.body trivial]

theorem quote_spares {ends : LineEnds} (allowed : ends.forbidden '\\' = false ∧ ends.forbidden '"' = false)
    (lone : ∀ c ∈ ends.lone,quoteSubstitute c = none) :
    ends.Spares fun c => (quoteSubstitute c).map (·.toList) := by
  refine ⟨fun c text is => ?_,fun c text is => ?_,fun c known => by rw [lone c known]; rfl⟩
  · obtain ⟨written,known,rfl⟩ := Option.map_eq_some_iff.mp is
    unfold quoteSubstitute at known
    split at known <;> cases known
    · exact ⟨by decide,by decide,allowed.1⟩
    · exact ⟨by decide,by decide,allowed.2⟩
  · obtain ⟨written,known,rfl⟩ := Option.map_eq_some_iff.mp is
    unfold quoteSubstitute at known
    split at known <;> cases known <;> refine ⟨?_,by decide,by decide⟩
    · intro d member
      have : d = '\\' := by simpa using member
      exact this ▸ ⟨by decide,allowed.1⟩
    · intro d member
      have : d = '\\' ∨ d = '"' := by simpa using member
      rcases this with rfl | rfl
      · exact ⟨by decide,allowed.1⟩
      · exact ⟨by decide,allowed.2⟩

-- The escapes leave the text's line ends to the host, which reads them its way.
theorem quoted_translated {ends : LineEnds} {reading : List Char → Reading} {closing : List Char}
    (spares : ends.Spares fun c => (quoteSubstitute c).map (·.toList))
    (inverts : (⟨closing,reading⟩ : Grammar).Inverts (fun _ => True) fun sql => escapeCharByChar sql quoteSubstitute)
    (clean : ends.Clean closing) (feed : '\n' ∉ closing) (sql : List Char) :
    (ends.translate (closing ++ (escapeCharByChar sql quoteSubstitute ++ closing))).bind
      (opened closing ⟨closing,reading⟩) = ends.translate sql := by
  rw [LineEnds.translate_append clean,escapeCharByChar,spares.translate clean feed]
  cases ends.translate sql with
  | none => rfl
  | some text => exact opened_inverts inverts closing text

theorem clean_iff {ends : LineEnds} {carries : Char → Bool} {sql : List Char}
    (same : ∀ c,carries c ↔ c ≠ '\r' ∧ ends.forbidden c = false) : ends.Clean sql ↔ ∀ c ∈ sql,carries c :=
  forall_congr' fun c => forall_congr' fun _ => (same c).symm

theorem python_decode (sql : List Char) :
    HostLiteral.python.decode (HostLiteral.python.emit sql) = pythonLineEnds.translate sql := by
  have spares : pythonLineEnds.Spares fun c => (quoteSubstitute c).map (·.toList) :=
    quote_spares ⟨by decide,by decide⟩ (by rintro c ⟨⟩; rfl)
  have clean : pythonLineEnds.Clean ['"','"','"'] := by
    intro c member
    have is : c = '"' := by simpa using member
    subst is
    exact ⟨by decide,rfl⟩
  exact quoted_translated spares python_inverts clean (by decide) sql

theorem rust_decode (sql : List Char) :
    HostLiteral.rust.decode (HostLiteral.rust.emit sql) = rustLineEnds.translate sql := by
  have spares : rustLineEnds.Spares fun c => (quoteSubstitute c).map (·.toList) :=
    quote_spares ⟨by decide,by decide⟩ (by rintro c ⟨⟩)
  have clean : rustLineEnds.Clean ['"'] := by
    intro c member
    have is : c = '"' := by simpa using member
    subst is
    exact ⟨by decide,rfl⟩
  exact quoted_translated spares rust_inverts clean (by decide) sql

theorem rustRaw_decode (sql : List Char) :
    HostLiteral.rustRaw.decode (HostLiteral.rustRaw.emit sql) = some sql ↔ rustLineEnds.Clean sql := by
  change (rustLineEnds.translate (rustRawStringLiteral sql)).bind openedRaw = some sql ↔ _
  constructor
  · intro decoded
    obtain ⟨text,translated,read⟩ := Option.bind_eq_some_iff.mp decoded
    have returns := LineEnds.translate_members (by decide) translated
    exact fun c member => ⟨fun equal => returns (openedRaw_subset read (equal ▸ member)),rfl⟩
  · intro clean
    have literal : rustLineEnds.Clean (rustRawStringLiteral sql) := by
      intro c member
      unfold rustRawStringLiteral at member
      simp only [List.cons_append,List.append_assoc,List.mem_cons,List.mem_append,List.mem_replicate] at member
      refine ⟨?_,rfl⟩
      rcases member with rfl | ⟨-,rfl⟩ | rfl | inside | rfl | ⟨-,rfl⟩
      all_goals first | decide | exact (clean c inside).1
    rw [LineEnds.translate_clean literal,Option.bind_some]
    unfold rustRawStringLiteral
    rw [openedRaw_emitted]
    exact (raw_inverts _).body (rawHashes_absent (Nat.le_add_right _ _))

end Scythe
