import Mathlib.Data.List.Chain
import Mathlib.Tactic.IntervalCases
import Scythe.Lib.FieldLine

namespace Scythe
open Text FieldLine

def headerSentinel : List Char := "scythe:provenance".toList

def commentPrefix (language : String) : List Char :=
  if language = "python" ∨ language = "ruby" ∨ language = "elixir" then ['#'] else ['/','/']

def headerSuffix (language : String) : List Char :=
  if language = "python" then "  # noqa: E501".toList else []

-- The general category Cc.
def isControl (c : Char) : Bool := c.toNat < 0x20 || (0x7f ≤ c.toNat && c.toNat ≤ 0x9f)

def needsEscape (c : Char) : Bool := c == '\\' || isSpace c || isControl c

def escapeOf (c : Char) : List Char :=
  if c = '\\' then ['\\','\\'] else
  if needsEscape c then ['\\','u','\x7b'] ++ Nat.toDigits 16 c.toNat ++ ['\x7d'] else [c]

def sanitizeField (value : List Char) : List Char :=
  if value.any needsEscape then value.flatMap escapeOf else value

def hexDigit (c : Char) : Option Nat :=
  if isDigit c then some (c.toNat - 0x30) else
  if 'a'.toNat ≤ c.toNat ∧ c.toNat ≤ 'f'.toNat then some (c.toNat - 'a'.toNat + 10) else
  if 'A'.toNat ≤ c.toNat ∧ c.toNat ≤ 'F'.toNat then some (c.toNat - 'A'.toNat + 10) else none

def hexNat (digits : List Char) : Option Nat :=
  digits.foldlM (fun total c => (hexDigit c).map (total * 16 + ·)) 0

-- `u32::from_str_radix` of sixteen: an optional plus sign, at least one digit.
def parseHex (cs : List Char) : Option Nat :=
  let digits := match cs with
    | '+' :: rest => rest
    | cs => cs
  if digits = [] then none else (hexNat digits).filter (· < 2 ^ 32)

def charFromU32 (n : Nat) : Option Char := if n.isValidChar then some (Char.ofNat n) else none

def decodeUnicodeEscape (afterBackslash : List Char) : Option (Char × List Char) :=
  match afterBackslash with
  | 'u' :: '\x7b' :: body => (splitFirst ['\x7d'] body).bind fun parts =>
    ((parseHex parts.1).bind charFromU32).map fun c => (c,parts.2)
  | _ => none

-- Every round takes at least the backslash it stops at.
def decodeFrom : Nat → List Char → List Char
  | 0,rest => rest
  | fuel + 1,rest =>
    match splitFirst ['\\'] rest with
    | none => rest
    | some (before,afterBackslash) =>
      before ++ match afterBackslash with
        | '\\' :: tail => '\\' :: decodeFrom fuel tail
        | _ =>
          match decodeUnicodeEscape afterBackslash with
          | some (c,tail) => c :: decodeFrom fuel tail
          | none => '\\' :: decodeFrom fuel afterBackslash

def decodeField (value : List Char) : List Char :=
  if '\\' ∈ value then decodeFrom value.length value else value

def parseHeaderFields (line : List Char) : Option (List (List Char × List Char)) :=
  (splitFirst headerSentinel line).map fun parts => fieldsOf decodeField (words (trimChars parts.2))

structure HeaderFields where
  version : List Char
  backend : List Char
  engine : List Char
  schema : List Char
  queries : List Char
  options : Option (List Char)

def buildHeaderLine (language : String) (fields : HeaderFields) : List Char :=
  let optionsField := match fields.options with
    | some value => " options=".toList ++ sanitizeField value
    | none => []
  commentPrefix language ++ ' ' :: headerSentinel ++ " v=".toList ++ sanitizeField fields.version ++
    " backend=".toList ++ sanitizeField fields.backend ++ " engine=".toList ++ sanitizeField fields.engine ++
    " schema=".toList ++ sanitizeField fields.schema ++ " queries=".toList ++ sanitizeField fields.queries ++
    optionsField ++ headerSuffix language ++ ['\n']

def HeaderFields.entries (fields : HeaderFields) : List (List Char × List Char) :=
  [("v".toList,fields.version),("backend".toList,fields.backend),("engine".toList,fields.engine),
    ("schema".toList,fields.schema),("queries".toList,fields.queries)] ++
    (fields.options.map fun value => ("options".toList,value)).toList

theorem sanitizeField_eq (value : List Char) : sanitizeField value = value.flatMap escapeOf := by
  unfold sanitizeField
  split
  · rfl
  · rename_i none
    induction value with
    | nil => rfl
    | cons c cs ih =>
      simp only [List.any_cons,Bool.or_eq_true,not_or] at none
      have plain : escapeOf c = [c] := by
        have other : c ≠ '\\' := by
          rintro rfl
          exact none.1 rfl
        simp [escapeOf,other,none.1]
      rw [List.flatMap_cons,plain,← ih none.2]
      rfl

theorem digitChar_hex {n : Nat} (small : n < 16) : hexDigit n.digitChar = some n := by
  interval_cases n <;> rfl

theorem hexNat_append (digits : List Char) (c : Char) :
    hexNat (digits ++ [c]) = (hexNat digits).bind fun total => (hexDigit c).map (total * 16 + ·) := by
  simp [hexNat,List.foldlM_append]

theorem hexNat_toDigits (n : Nat) : hexNat (Nat.toDigits 16 n) = some n := by
  induction n using Nat.strongRecOn with
  | ind n ih =>
    by_cases small : n < 16
    · have digit := digitChar_hex small
      rw [Nat.toDigits_of_lt_base small]
      simp [hexNat,digit]
    · have digit := digitChar_hex (Nat.mod_lt n (by omega : 0 < 16))
      rw [Nat.toDigits_of_base_le (by omega) (by omega),hexNat_append,ih (n / 16) (by omega)]
      simp only [Option.bind_some,digit,Option.map_some]
      congr 1
      omega

theorem parseHex_toDigits (c : Char) : parseHex (Nat.toDigits 16 c.toNat) = some c.toNat := by
  have read := hexNat_toDigits c.toNat
  have unsigned : ∀ rest,Nat.toDigits 16 c.toNat ≠ '+' :: rest := by
    intro rest signed
    rw [signed,hexNat,List.foldlM_cons] at read
    cases read
  have written : Nat.toDigits 16 c.toNat ≠ [] := Nat.toDigits_ne_nil
  have small : c.toNat < 2 ^ 32 := c.val.toNat_lt
  unfold parseHex
  split
  · rename_i rest equal
    exact absurd equal (unsigned rest)
  · simpa [written,read] using small

theorem charFromU32_toNat (c : Char) : charFromU32 c.toNat = some c := by
  have valid : c.toNat.isValidChar := c.valid
  rw [charFromU32,if_pos valid,Char.ofNat_toNat]

theorem mem_hexDigits {n : Nat} {c : Char} (member : c ∈ Nat.toDigits 16 n) : ∃ d,d < 16 ∧ c = d.digitChar := by
  induction n using Nat.strongRecOn with
  | ind n ih =>
    by_cases small : n < 16
    · rw [Nat.toDigits_of_lt_base small] at member
      exact ⟨n,small,List.mem_singleton.mp member⟩
    · rw [Nat.toDigits_of_base_le (by omega) (by omega)] at member
      rcases List.mem_append.mp member with front | last
      · exact ih (n / 16) (by omega) front
      · exact ⟨n % 16,Nat.mod_lt n (by omega),List.mem_singleton.mp last⟩

-- No digit is one of the characters that the header or a comment reads.
def Ordinary (c : Char) : Prop := asciiIsLower c ∨ isDigit c

theorem ordinary_hexDigits {n : Nat} {c : Char} (member : c ∈ Nat.toDigits 16 n) : Ordinary c := by
  obtain ⟨d,small,rfl⟩ := mem_hexDigits member
  unfold Ordinary
  interval_cases d <;> decide

inductive Escaped (c : Char) : List Char → Prop where
  | plain (other : c ≠ '\\') (solid : isSpace c = false) (printed : isControl c = false) : Escaped c [c]
  | slash (is : c = '\\') : Escaped c ['\\','\\']
  | code (other : c ≠ '\\') (needs : isSpace c ∨ isControl c) :
      Escaped c ('\\' :: 'u' :: '\x7b' :: Nat.toDigits 16 c.toNat ++ ['\x7d'])

theorem escapeOf_escaped (c : Char) : Escaped c (escapeOf c) := by
  unfold escapeOf
  split
  · rename_i is
    exact .slash is
  · rename_i other
    split
    · rename_i needs
      apply Escaped.code other
      simpa [needsEscape,other] using needs
    · rename_i needs
      have both : isSpace c = false ∧ isControl c = false := by simpa [needsEscape,other] using needs
      exact .plain other both.1 both.2

theorem ordinary_range {c : Char} (is : Ordinary c) : (0x30 ≤ c.toNat ∧ c.toNat ≤ 0x39) ∨ (0x61 ≤ c.toNat ∧ c.toNat ≤ 0x7a) := by
  rcases is with lower | digit
  · exact Or.inr (by simpa [asciiIsLower] using lower)
  · exact Or.inl (by simpa [isDigit] using digit)

theorem space_range {c : Char} (blank : isSpace c) : c.toNat ≤ 0x20 ∨ 0x80 ≤ c.toNat := by
  simp only [isSpace,isAsciiSpace,List.mem_cons,List.not_mem_nil,or_false,Bool.or_eq_true,
    decide_eq_true_eq,Bool.and_eq_true] at blank
  omega

theorem ordinary_solid {c : Char} (is : Ordinary c) : isSpace c = false := by
  have range := ordinary_range is
  apply Bool.eq_false_iff.mpr
  intro blank
  have far := space_range blank
  omega

-- What an escape is made of.
theorem escaped_mem {c d : Char} {text : List Char} (escaped : Escaped c text) (member : d ∈ text) :
    (d = c ∧ isSpace c = false) ∨ d ∈ ['\\','\x7b','\x7d'] ∨ Ordinary d := by
  cases escaped with
  | plain other solid printed => exact Or.inl ⟨List.mem_singleton.mp member,solid⟩
  | slash is =>
    right; left
    have same : d = '\\' := by simpa using member
    exact same ▸ List.mem_cons_self
  | code other needs =>
    simp only [List.cons_append,List.mem_cons,List.mem_append,List.not_mem_nil,or_false] at member
    rcases member with rfl | rfl | rfl | digit | rfl
    · exact Or.inr (Or.inl (by simp))
    · exact Or.inr (Or.inr (Or.inl rfl))
    · exact Or.inr (Or.inl (by simp))
    · exact Or.inr (Or.inr (ordinary_hexDigits digit))
    · exact Or.inr (Or.inl (by simp))

theorem sanitize_solid (value : List Char) : ∀ c ∈ sanitizeField value,isSpace c = false := by
  intro c member
  rw [sanitizeField_eq] at member
  obtain ⟨source,_,inside⟩ := List.mem_flatMap.mp member
  rcases escaped_mem (escapeOf_escaped source) inside with ⟨rfl,solid⟩ | mark | ordinary
  · exact solid
  · simp only [List.mem_cons,List.not_mem_nil,or_false] at mark
    rcases mark with rfl | rfl | rfl <;> rfl
  · exact ordinary_solid ordinary

theorem ordinary_closing {digits : List Char} (ordinary : ∀ c ∈ digits,Ordinary c) : '\x7d' ∉ digits := by
  intro member
  have range := ordinary_range (ordinary _ member)
  revert range
  decide

theorem decodeUnicodeEscape_code (c : Char) (rest : List Char) :
    decodeUnicodeEscape ('u' :: '\x7b' :: (Nat.toDigits 16 c.toNat ++ '\x7d' :: rest)) = some (c,rest) := by
  have closed := ordinary_closing fun d (member : d ∈ Nat.toDigits 16 c.toNat) => ordinary_hexDigits member
  have split := splitFirst_single closed rest
  simp only [decodeUnicodeEscape]
  rw [split,Option.bind_some,parseHex_toDigits,Option.bind_some,charFromU32_toNat]
  rfl

theorem decodeFrom_plain (fuel : Nat) {c : Char} (other : c ≠ '\\') (rest : List Char) :
    decodeFrom fuel (c :: rest) = c :: decodeFrom fuel rest := by
  cases fuel with
  | zero => rfl
  | succ fuel =>
    have first : '\\' ≠ c := fun equal => other equal.symm
    unfold decodeFrom
    rw [splitFirst]
    cases splitFirst ['\\'] rest <;> simp [List.isPrefixOf?,first]

theorem decodeFrom_escaped {c : Char} {text : List Char} (escaped : Escaped c text) (rest : List Char) {fuel : Nat}
    (enough : (text ++ rest).length ≤ fuel) :
    ∃ less,rest.length ≤ less ∧ decodeFrom fuel (text ++ rest) = c :: decodeFrom less rest := by
  cases escaped with
  | plain other solid printed =>
    have longer : rest.length + 1 ≤ fuel := by simpa using enough
    exact ⟨fuel,by omega,decodeFrom_plain fuel other rest⟩
  | slash is =>
    subst is
    have longer : rest.length + 1 + 1 ≤ fuel := by simpa using enough
    obtain ⟨less,rfl⟩ : ∃ n,fuel = n + 1 := ⟨fuel - 1,by omega⟩
    exact ⟨less,by omega,by simp [decodeFrom,splitFirst,List.isPrefixOf?]⟩
  | code other needs =>
    have longer : rest.length + 1 ≤ fuel := by
      simp only [List.cons_append,List.length_cons,List.length_append,List.append_assoc] at enough
      omega
    obtain ⟨less,rfl⟩ : ∃ n,fuel = n + 1 := ⟨fuel - 1,by omega⟩
    refine ⟨less,by omega,?_⟩
    have escape := decodeUnicodeEscape_code c rest
    simp [decodeFrom,splitFirst,List.isPrefixOf?,escape]

theorem decodeFrom_sanitized (value : List Char) {fuel : Nat} (enough : (value.flatMap escapeOf).length ≤ fuel) :
    decodeFrom fuel (value.flatMap escapeOf) = value := by
  induction value generalizing fuel with
  | nil => cases fuel <;> rfl
  | cons c cs ih =>
    rw [List.flatMap_cons] at enough ⊢
    obtain ⟨less,within,decoded⟩ := decodeFrom_escaped (escapeOf_escaped c) _ enough
    rw [decoded,ih within]

theorem decodeField_eq (value : List Char) : decodeField value = decodeFrom value.length value := by
  unfold decodeField
  split
  · rfl
  · rename_i absent
    have whole : splitFirst ['\\'] value = none := by
      apply Option.not_isSome_iff_eq_none.mp
      rw [splitFirst_isSome,List.singleton_infix_iff]
      exact absent
    cases value with
    | nil => rfl
    | cons c cs => simp [decodeFrom,whole]

theorem decode_sanitize (value : List Char) : decodeField (sanitizeField value) = value := by
  rw [decodeField_eq,sanitizeField_eq]
  exact decodeFrom_sanitized value (Nat.le_refl _)

def headerCodec : Codec := ⟨sanitizeField,decodeField,decode_sanitize,sanitize_solid⟩


def headerKeys : List (List Char) :=
  ["v".toList,"backend".toList,"engine".toList,"schema".toList,"queries".toList,"options".toList]

theorem headerKeys_key : ∀ key ∈ headerKeys,Key key := by
  have checked : (headerKeys.all fun key => key.all fun c => c != '=' && !isAsciiSpace c) = true := by decide
  intro key among
  have each := List.all_eq_true.mp (List.all_eq_true.mp checked key among)
  constructor
  · intro member
    have plain := each '=' member
    simp at plain
  · intro c member
    have plain := each c member
    simp only [Bool.and_eq_true,Bool.not_eq_true'] at plain
    exact plain.2

theorem entries_headerKeys (fields : HeaderFields) {field : List Char × List Char} (member : field ∈ fields.entries) :
    field.1 ∈ headerKeys := by
  unfold HeaderFields.entries at member
  rcases List.mem_append.mp member with required | optional
  · simp only [List.mem_cons,List.not_mem_nil,or_false] at required
    rcases required with rfl | rfl | rfl | rfl | rfl <;> simp [headerKeys]
  · obtain ⟨value,_,rfl⟩ := Option.map_eq_some_iff.mp (Option.mem_toList.mp optional)
    simp [headerKeys]

-- The line, its literal texts gathered around the escaped fields.
def headerTail (language : String) (fields : HeaderFields) : List Char :=
  fields.entries.flatMap (entry sanitizeField) ++ headerSuffix language

theorem buildHeaderLine_eq (language : String) (fields : HeaderFields) :
    buildHeaderLine language fields =
      commentPrefix language ++ ([' '] ++ headerSentinel ++ headerTail language fields) ++ ['\n'] := by
  obtain ⟨version,backend,engine,schema,queries,options⟩ := fields
  cases options <;> simp [buildHeaderLine,headerTail,HeaderFields.entries,entry]

theorem splitFirst_sentinel (language : String) (tail : List Char) :
    splitFirst headerSentinel (commentPrefix language ++ ([' '] ++ headerSentinel ++ tail)) =
      some (commentPrefix language ++ [' '],tail) := by
  have sentinel : headerSentinel = ['s','c','y','t','h','e',':','p','r','o','v','e','n','a','n','c','e'] := by
    decide
  unfold commentPrefix
  rw [sentinel]
  split <;> rfl

theorem suffix_fields (language : String) : fieldsOf decodeField (words (headerSuffix language ++ ['\n'])) = [] := by
  unfold headerSuffix
  split
  · rfl
  · rfl

-- What the line holds besides the values of its fields.
def Literal (c : Char) : Prop := c = ' ' ∨ isSpace c = false ∧ c ≠ '?' ∧ c ≠ '\\' ∧ c.toNat < 0x80

theorem literal_of {text : List Char} (checked : text.all (fun c => c == ' ' ||
    !isSpace c && c != '?' && c != '\\' && c.toNat < 0x80) = true) : ∀ c ∈ text,Literal c := by
  intro c member
  have plain := List.all_eq_true.mp checked c member
  simp only [Bool.or_eq_true,Bool.and_eq_true,beq_iff_eq,Bool.not_eq_true',bne_iff_ne,decide_eq_true_eq,
    and_assoc] at plain
  exact plain

theorem headerKeys_literal : ∀ key ∈ headerKeys,∀ c ∈ key,Literal c := by
  intro key among
  apply literal_of
  revert key
  apply List.all_eq_true.mp
  decide

theorem headerSentinel_literal : ∀ c ∈ headerSentinel,Literal c := by
  apply literal_of
  decide

theorem headerSuffix_literal (language : String) : ∀ c ∈ headerSuffix language,Literal c := by
  apply literal_of
  unfold headerSuffix
  split <;> decide

theorem headerTail_mem {language : String} {fields : HeaderFields} {c : Char} (member : c ∈ headerTail language fields) :
    Literal c ∨ ∃ field ∈ fields.entries,c ∈ sanitizeField field.2 := by
  rcases List.mem_append.mp member with inFields | inSuffix
  · obtain ⟨field,among,inside⟩ := List.mem_flatMap.mp inFields
    have keys := headerKeys_literal _ (entries_headerKeys fields among)
    simp only [entry,List.cons_append,List.mem_cons,List.mem_append] at inside
    rcases inside with rfl | inKey | rfl | inValue
    · exact Or.inl (Or.inl rfl)
    · exact Or.inl (keys c inKey)
    · exact Or.inl (Or.inr (by decide))
    · exact Or.inr ⟨field,among,inValue⟩
  · exact Or.inl (headerSuffix_literal language c inSuffix)

theorem headerTail_blank {language : String} {fields : HeaderFields} {c : Char} (member : c ∈ headerTail language fields)
    (blank : isSpace c) : c = ' ' := by
  rcases headerTail_mem member with (space | solid) | ⟨field,_,inside⟩
  · exact space
  · rw [solid.1] at blank
    cases blank
  · rw [sanitize_solid field.2 c inside] at blank
    cases blank

theorem headerTail_ascii (language : String) (fields : HeaderFields) :
    ∀ c ∈ headerTail language fields ++ ['\n'],isSpace c → isAsciiSpace c := by
  intro c member blank
  rcases List.mem_append.mp member with inTail | ending
  · have space := headerTail_blank inTail blank
    exact space ▸ rfl
  · have newline := List.mem_singleton.mp ending
    exact newline ▸ rfl

theorem parse_header (language : String) (fields : HeaderFields) :
    parseHeaderFields (buildHeaderLine language fields) = some fields.entries := by
  have keys : ∀ field ∈ fields.entries,Key field.1 :=
    fun field member => headerKeys_key _ (entries_headerKeys fields member)
  have apart : Apart (headerSuffix language ++ ['\n']) := by
    unfold headerSuffix
    split
    · exact Or.inr ⟨' ',_,rfl,rfl⟩
    · exact Or.inr ⟨'\n',_,rfl,rfl⟩
  have read := headerCodec.fields_entries keys apart
  rw [parseHeaderFields,buildHeaderLine_eq,List.append_assoc,List.append_assoc,splitFirst_sentinel,Option.map_some,
    words_trimChars (headerTail_ascii language fields),headerTail,List.append_assoc]
  exact congrArg some (read.trans (by rw [show headerCodec.decode = decodeField from rfl,suffix_fields,List.append_nil]))
end Scythe
