import Mathlib.Data.List.DropRight
import Scythe.Lib.Text

-- A line of `key=value` fields with blanks between them. Every value is escaped
-- so that it holds no blank and is read back as it was.
namespace FieldLine
open Text

structure Codec where
  encode : List Char → List Char
  decode : List Char → List Char
  inverts : ∀ value,decode (encode value) = value
  spaceless : ∀ value,∀ c ∈ encode value,isSpace c = false

def words (cs : List Char) : List (List Char) := (cs.splitOnP isAsciiSpace).filter fun word => !word.isEmpty

def splitField (word : List Char) : Option (List Char × List Char) := splitFirst ['='] word

def fieldsOf (decode : List Char → List Char) (found : List (List Char)) : List (List Char × List Char) :=
  (found.filterMap splitField).map fun field => (field.1,decode field.2)

def entry (encode : List Char → List Char) (field : List Char × List Char) : List Char :=
  ' ' :: field.1 ++ '=' :: encode field.2

theorem asciiSpace_space {c : Char} (ascii : isAsciiSpace c) : isSpace c := by
  simp [isSpace,ascii]

theorem words_append (before after : List Char) {c : Char} (blank : isAsciiSpace c) :
    words (before ++ c :: after) = words before ++ words after := by
  rw [words,List.splitOnP_append_cons _ _ blank,List.filter_append]
  rfl

theorem words_cons (cs : List Char) {c : Char} (blank : isAsciiSpace c) : words (c :: cs) = words cs := by
  have first := words_append [] cs blank
  simpa [words] using first

theorem words_single {word : List Char} (written : word ≠ []) (solid : ∀ c ∈ word,isAsciiSpace c = false) :
    words word = [word] := by
  rw [words,List.splitOnP_eq_singleton solid]
  simp [written]

theorem words_dropWhile {cs : List Char} (ascii : ∀ c ∈ cs,isSpace c → isAsciiSpace c) :
    words (cs.dropWhile isSpace) = words cs := by
  induction cs with
  | nil => rfl
  | cons c cs ih =>
    rw [List.dropWhile_cons]
    split
    · rename_i blank
      rw [ih fun d member => ascii d (List.mem_cons_of_mem _ member),
        words_cons cs (ascii c List.mem_cons_self blank)]
    · rfl

theorem words_rdropWhile {cs : List Char} (ascii : ∀ c ∈ cs,isSpace c → isAsciiSpace c) :
    words (cs.rdropWhile isSpace) = words cs := by
  induction cs using List.reverseRecOn with
  | nil => rfl
  | append_singleton cs c ih =>
    rw [List.rdropWhile_concat]
    split
    · rename_i blank
      have last := words_append cs [] (ascii c (by simp) blank)
      rw [ih fun d member => ascii d (List.mem_append_left _ member),last]
      simp [words]
    · rfl

-- Trimming takes no character from a word, as long as every blank separates.
theorem words_trimChars {cs : List Char} (ascii : ∀ c ∈ cs,isSpace c → isAsciiSpace c) :
    words (trimChars cs) = words cs := by
  have front := words_dropWhile ascii
  have back : words ((cs.dropWhile isSpace).rdropWhile isSpace) = words (cs.dropWhile isSpace) := by
    apply words_rdropWhile
    intro c member
    exact ascii c ((List.dropWhile_suffix _).subset member)
  rw [← front,← back]
  rfl

theorem splitField_key {key : List Char} (plain : '=' ∉ key) (value : List Char) :
    splitField (key ++ '=' :: value) = some (key,value) := splitFirst_single plain value

-- A key is a word of its own that no `=` ends early.
def Key (key : List Char) : Prop := '=' ∉ key ∧ ∀ c ∈ key,isAsciiSpace c = false

-- Nothing stands behind a word but a blank.
def Apart (rest : List Char) : Prop := rest = [] ∨ ∃ c cs,rest = c :: cs ∧ isAsciiSpace c

namespace Codec
variable (codec : Codec)

theorem words_entry {key : List Char} (is : Key key) (value : List Char) {rest : List Char} (apart : Apart rest) :
    words (entry codec.encode (key,value) ++ rest) = (key ++ '=' :: codec.encode value) :: words rest := by
  have solid : ∀ c ∈ key ++ '=' :: codec.encode value,isAsciiSpace c = false := by
    intro c member
    rcases List.mem_append.mp member with inKey | inValue
    · exact is.2 c inKey
    · rcases List.mem_cons.mp inValue with rfl | encoded
      · rfl
      · apply Bool.eq_false_iff.mpr
        intro blank
        have space := codec.spaceless value c encoded
        rw [asciiSpace_space blank] at space
        cases space
  have word : words (key ++ '=' :: codec.encode value) = [key ++ '=' :: codec.encode value] :=
    words_single (by simp) solid
  have opened : entry codec.encode (key,value) ++ rest = ' ' :: (key ++ '=' :: codec.encode value ++ rest) := by
    simp [entry]
  rw [opened,words_cons _ (by rfl)]
  rcases apart with rfl | ⟨c,cs,rfl,blank⟩
  · rw [List.append_nil,word]
    rfl
  · rw [words_append _ _ blank,words_cons cs blank,word]
    rfl

theorem words_entries {fields : List (List Char × List Char)} (keys : ∀ field ∈ fields,Key field.1)
    {rest : List Char} (apart : Apart rest) :
    words (fields.flatMap (entry codec.encode) ++ rest) =
      fields.map (fun field => field.1 ++ '=' :: codec.encode field.2) ++ words rest := by
  induction fields with
  | nil => rfl
  | cons field fields ih =>
    obtain ⟨key,value⟩ := field
    have is := keys _ List.mem_cons_self
    have tail := ih fun field member => keys field (List.mem_cons_of_mem _ member)
    have next : Apart (fields.flatMap (entry codec.encode) ++ rest) := by
      cases fields with
      | nil => exact apart
      | cons field fields => exact Or.inr ⟨' ',_,rfl,rfl⟩
    rw [List.flatMap_cons,List.append_assoc,codec.words_entry is value next,tail]
    rfl

-- Every key is cut from its value as it was written, escapes and all.
theorem splitField_entries {fields : List (List Char × List Char)} (keys : ∀ field ∈ fields,Key field.1) :
    (fields.map fun field => field.1 ++ '=' :: codec.encode field.2).filterMap splitField =
      fields.map fun field => (field.1,codec.encode field.2) := by
  induction fields with
  | nil => rfl
  | cons field fields ih =>
    have is := keys _ List.mem_cons_self
    have tail := ih fun field member => keys field (List.mem_cons_of_mem _ member)
    rw [List.map_cons,List.filterMap_cons,splitField_key is.1,tail]
    rfl

-- The fields of a line come back, with whatever fields stand behind them.
theorem fields_entries {fields : List (List Char × List Char)} (keys : ∀ field ∈ fields,Key field.1)
    {rest : List Char} (apart : Apart rest) :
    fieldsOf codec.decode (words (fields.flatMap (entry codec.encode) ++ rest)) =
      fields ++ fieldsOf codec.decode (words rest) := by
  have decoded : (fun field : List Char × List Char => (field.1,codec.decode (codec.encode field.2))) = id := by
    funext field
    rw [codec.inverts]
    rfl
  unfold fieldsOf
  rw [codec.words_entries keys apart,List.filterMap_append,codec.splitField_entries keys,List.map_append,List.map_map]
  exact congrArg (· ++ _) ((congrArg (List.map · fields) decoded).trans (List.map_id fields))

end Codec

end FieldLine
