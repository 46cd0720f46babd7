import Scythe.Lib.Record
import Mathlib.Data.List.Infix

-- The composite types of the generated code, as text. Every template is the same
-- scanner over its language's string units (bytes, code units or characters).
namespace Scythe
open Record

inductive TemplateLanguage where
  | php
  | go
  | ruby
  | python
  | java
  | kotlin
  | csharp
  | typescript
  deriving DecidableEq,Repr

variable {α : Type} [DecidableEq α]

-- What each language's trimming takes for white space.
abbrev WhiteSpace (α : Type) := TemplateLanguage → α → Bool

def trimmed (isSpace : α → Bool) (raw : List α) : List α :=
  ((raw.dropWhile isSpace).reverse.dropWhile isSpace).reverse

def hasDelimiter (d : Delimiters α) (raw : List α) : Bool :=
  raw.any fun c => c ∈ [d.comma,d.opening,d.closing,d.quote,d.backslash]

-- A template writes a field without quotes when it is not empty, holds no
-- delimiter, and trimming leaves it alone. One template looks for white space
-- anywhere in the field.
def leftPlain (d : Delimiters α) (space : WhiteSpace α) (language : TemplateLanguage) (raw : List α) : Bool :=
  raw ≠ [] && !hasDelimiter d raw &&
    match language with
    | .typescript => !raw.any (space .typescript)
    | language => raw = trimmed (space language) raw

-- The rule of record_out.
def recordOutPlain (d : Delimiters α) (isSpace : α → Bool) (raw : List α) : Bool :=
  raw ≠ [] && !hasDelimiter d raw && !raw.any isSpace

def quotingOf (d : Delimiters α) (plain : List α → Bool)
    (cautious : ∀ raw,plain raw → raw ≠ [] ∧ hasDelimiter d raw = false) : Quoting d where
  plain := plain
  written raw is := (cautious raw is).1
  commaless raw is member := by
    have none := (cautious raw is).2
    simp only [hasDelimiter,List.any_eq_false] at none
    exact none _ member (by simp)
  quoteless raw is member := by
    have none := (cautious raw is).2
    simp only [hasDelimiter,List.any_eq_false] at none
    exact none _ member (by simp)

def encodeCompositeField (d : Delimiters α) (space : WhiteSpace α) (language : TemplateLanguage) : Quoting d :=
  quotingOf d (leftPlain d space language) fun raw is => by
    simp only [leftPlain,Bool.and_eq_true,Bool.not_eq_true',decide_eq_true_eq] at is
    exact is.1

def recordOut (d : Delimiters α) (isSpace : α → Bool) : Quoting d :=
  quotingOf d (recordOutPlain d isSpace) fun raw is => by
    simp only [recordOutPlain,Bool.and_eq_true,Bool.not_eq_true',decide_eq_true_eq] at is
    exact is.1

def toPgText (d : Delimiters α) (space : WhiteSpace α) (language : TemplateLanguage)
    (fields : List (Option (List α))) : List α := (encodeCompositeField d space language).text fields

-- The rounds of the scanner's loop are counted, so that a loop that went on for
-- ever would return a longer list with each round more.
def parseCompositeFields (d : Delimiters α) (rounds : Nat) (text : List α) : List (Option (List α)) :=
  read d rounds text

theorem parse_inverts (d : Delimiters α) (space : WhiteSpace α) (language : TemplateLanguage)
    (isSpace : α → Bool) (fields : List (Option (List α))) (nonempty : fields ≠ []) (rounds : Nat) :
    ((toPgText d space language fields).length ≤ rounds →
      parseCompositeFields d rounds (toPgText d space language fields) = fields) ∧
    (((recordOut d isSpace).text fields).length ≤ rounds →
      parseCompositeFields d rounds ((recordOut d isSpace).text fields) = fields) :=
  ⟨read_text _ nonempty,read_text _ nonempty⟩

def charDelimiters : Delimiters Char := ⟨'"',',','\\','(',')',by decide⟩

-- A null, an empty field, a nested record and a backslash.
def nestedFields : List (Option (List Char)) := [none,some [],some ['(','"',',','"',')'],some ['\\']]

theorem parse_inverts_nested :
    parseCompositeFields charDelimiters 40 (toPgText charDelimiters (fun _ c => c = ' ') .php nestedFields) =
      nestedFields :=
  (parse_inverts charDelimiters (fun _ c => c = ' ') .php (fun c => c = ' ') nestedFields
    (List.cons_ne_nil _ _) 40).1 (by decide)

end Scythe
