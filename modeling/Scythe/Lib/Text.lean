import Mathlib.Algebra.Order.Ring.Nat
import Mathlib.Data.List.Infix
import Mathlib.Data.List.Lex

-- Strings are read through their characters, so that every test below computes.
namespace Text

def startsWith (s p : String) : Bool := p.toList.isPrefixOf s.toList
def endsWith (s p : String) : Bool := p.toList.isSuffixOf s.toList

def stripPrefix (s p : String) : Option String := (p.toList.isPrefixOf? s.toList).map String.ofList
def stripSuffix (s p : String) : Option String := (p.toList.isSuffixOf? s.toList).map String.ofList

-- The text before and after the first occurrence of a pattern.
def splitFirst (p : List Char) : List Char → Option (List Char × List Char)
  | [] => if p = [] then some ([],[]) else none
  | c :: cs =>
    match p.isPrefixOf? (c :: cs) with
    | some rest => some ([],rest)
    | none => (splitFirst p cs).map fun parts => (c :: parts.1,parts.2)

def contains (s p : String) : Bool := (splitFirst p.toList s.toList).isSome

def splitOnce (s : String) (c : Char) : Option (String × String) :=
  (splitFirst [c] s.toList).map fun parts => (String.ofList parts.1,String.ofList parts.2)

-- Split at the last occurrence of a character.
def rsplitOnce (s : String) (c : Char) : Option (String × String) :=
  (splitFirst [c] s.toList.reverse).map fun parts =>
    (String.ofList parts.2.reverse,String.ofList parts.1.reverse)

def replaceFirst (s p by' : String) : String :=
  match splitFirst p.toList s.toList with
  | none => s
  | some (before,after) => String.ofList (before ++ by'.toList ++ after)

def splitChars (c : Char) : List Char → List (List Char)
  | [] => [[]]
  | d :: ds =>
    if d = c then [] :: splitChars c ds else
    match splitChars c ds with
    | [] => [[d]]
    | part :: parts => (d :: part) :: parts

theorem splitChars_append (c : Char) (before after : List Char) :
    splitChars c (before ++ c :: after) = splitChars c before ++ splitChars c after := by
  induction before with
  | nil => simp [splitChars]
  | cons d before ih =>
    rw [List.cons_append,splitChars,splitChars,ih]
    split
    · rfl
    · cases parts : splitChars c before with
      | nil =>
        exfalso
        cases before with
        | nil => cases parts
        | cons e before =>
          unfold splitChars at parts
          split at parts
          · cases parts
          · split at parts <;> cases parts
      | cons part parts => rfl

theorem splitChars_single {c : Char} {cs : List Char} (absent : c ∉ cs) : splitChars c cs = [cs] := by
  induction cs with
  | nil => rfl
  | cons d cs ih =>
    rw [List.mem_cons,not_or] at absent
    rw [splitChars,if_neg (Ne.symm absent.1),ih absent.2]

theorem splitChars_lined {c : Char} {first : List Char} {others : List (List Char)} (single : c ∉ first)
    (each : ∀ part ∈ others,c ∉ part) : splitChars c (first ++ others.flatMap fun part => c :: part) = first :: others := by
  induction others generalizing first with
  | nil => simp [splitChars_single single]
  | cons part others ih =>
    have rest := ih (each part List.mem_cons_self) fun other member => each other (List.mem_cons_of_mem _ member)
    rw [List.flatMap_cons,List.cons_append,splitChars_append,splitChars_single single,rest]
    rfl

theorem splitChars_part {c : Char} {cs part : List Char} (member : part ∈ splitChars c cs) : c ∉ part ∧ ∀ d ∈ part,d ∈ cs := by
  induction cs generalizing part with
  | nil =>
    rw [List.mem_singleton.mp member]
    exact ⟨List.not_mem_nil,fun _ none => none⟩
  | cons e cs ih =>
    have later : ∀ part ∈ splitChars c cs,c ∉ part ∧ ∀ d ∈ part,d ∈ e :: cs := by
      intro part inside
      exact ⟨(ih inside).1,fun d letter => List.mem_cons_of_mem _ ((ih inside).2 d letter)⟩
    unfold splitChars at member
    split at member
    · rcases List.mem_cons.mp member with rfl | inside
      · exact ⟨List.not_mem_nil,fun _ none => absurd none List.not_mem_nil⟩
      · exact later part inside
    · rename_i other
      split at member
      · rw [List.mem_singleton.mp member]
        exact ⟨by simpa using Ne.symm other,by simp⟩
      · rename_i first parts is
        rcases List.mem_cons.mp member with rfl | inside
        · have front := later first (is ▸ List.mem_cons_self)
          refine ⟨?_,List.forall_mem_cons.mpr ⟨List.mem_cons_self,front.2⟩⟩
          rw [List.mem_cons,not_or]
          exact ⟨Ne.symm other,front.1⟩
        · exact later part (is ▸ List.mem_cons_of_mem _ inside)

def split (s : String) (c : Char) : List String := (splitChars c s.toList).map String.ofList

def join (separator : String) : List String → String
  | [] => ""
  | [part] => part
  | part :: parts => part ++ separator ++ join separator parts

def isAsciiSpace (c : Char) : Bool := c.toNat ∈ [0x09,0x0a,0x0c,0x0d,0x20]

def isSpace (c : Char) : Bool :=
  let n := c.toNat
  n ∈ [0x0b,0x20,0x85,0xa0,0x1680,0x2028,0x2029,0x202f,0x205f,0x3000] || isAsciiSpace c ||
    (0x2000 ≤ n && n ≤ 0x200a)

def trimChars (cs : List Char) : List Char := ((cs.dropWhile isSpace).reverse.dropWhile isSpace).reverse
def trim (s : String) : String := String.ofList (trimChars s.toList)

def trimMatches (s : String) (c : Char) : String :=
  String.ofList (((s.toList.dropWhile (· = c)).reverse.dropWhile (· = c)).reverse)

def isDigit (c : Char) : Bool := '0'.toNat ≤ c.toNat && c.toNat ≤ '9'.toNat

def natOfDigits (digits : List Char) : Nat :=
  digits.foldl (fun total c => total * 10 + (c.toNat - '0'.toNat)) 0

def parseNat (cs : List Char) : Option Nat :=
  if cs ≠ [] ∧ cs.all isDigit then some (natOfDigits cs) else none

-- Case conversion and the classes of characters belong to the language runtime
-- and cover all of Unicode. Everything below holds for any such tables; the
-- ASCII ones compute.
class CaseMap where
  lowercase : String → String
  uppercase : String → String
  lowerChar : Char → List Char
  upperChar : Char → List Char
  isLower : Char → Bool
  isUpper : Char → Bool
  isAlphanumeric : Char → Bool

def asciiIsUpper (c : Char) : Bool := 'A'.toNat ≤ c.toNat && c.toNat ≤ 'Z'.toNat
def asciiIsLower (c : Char) : Bool := 'a'.toNat ≤ c.toNat && c.toNat ≤ 'z'.toNat
def asciiLower (c : Char) : Char := if asciiIsUpper c then Char.ofNat (c.toNat + 32) else c
def asciiUpper (c : Char) : Char := if asciiIsLower c then Char.ofNat (c.toNat - 32) else c
def asciiLowercase (s : String) : String := String.ofList (s.toList.map asciiLower)
def asciiUppercase (s : String) : String := String.ofList (s.toList.map asciiUpper)

@[reducible] def ascii : CaseMap where
  lowercase := asciiLowercase
  uppercase := asciiUppercase
  lowerChar c := [asciiLower c]
  upperChar c := [asciiUpper c]
  isLower := asciiIsLower
  isUpper := asciiIsUpper
  isAlphanumeric c := asciiIsLower c || asciiIsUpper c || isDigit c

-- An optional sign and decimal digits, within the range of an i64.
def parseI64 (s : String) : Option Int :=
  let parsed : Option Int := match s.toList with
    | '-' :: cs => (parseNat cs).map fun n => -(n : Int)
    | '+' :: cs => (parseNat cs).map Int.ofNat
    | cs => (parseNat cs).map Int.ofNat
  parsed.filter fun n => -9223372036854775808 ≤ n ∧ n ≤ 9223372036854775807

-- An optional plus sign and decimal digits, within `bits` bits.
def parseUnsigned (bits : Nat) (s : String) : Option Nat :=
  let parsed := match s.toList with
    | '+' :: cs => parseNat cs
    | cs => parseNat cs
  parsed.filter (· < 2 ^ bits)

-- A slice takes bytes, and there is none that ends inside a character.
def splitAtByte : Nat → List Char → Option (List Char × List Char)
  | 0,cs => some ([],cs)
  | _,[] => none
  | n,c :: cs =>
    if n < c.utf8Size then none
    else (splitAtByte (n - c.utf8Size) cs).map fun parts => (c :: parts.1,parts.2)

def byteLength (cs : List Char) : Nat := (cs.map Char.utf8Size).sum

theorem splitFirst_eq {p s before after : List Char} (found : splitFirst p s = some (before,after)) :
    s = before ++ p ++ after := by
  induction s generalizing before after with
  | nil =>
    unfold splitFirst at found
    split at found
    · rename_i empty; cases found; simp [empty]
    · cases found
  | cons c cs ih =>
    unfold splitFirst at found
    split at found
    · rename_i rest matched
      cases found
      simpa using (List.isPrefixOf?_eq_some_iff_append_eq.mp matched).symm
    · cases rec : splitFirst p cs with
      | none => simp [rec] at found
      | some parts =>
        simp only [rec,Option.map_some,Option.some.injEq,Prod.mk.injEq] at found
        obtain ⟨rfl,rfl⟩ := found
        have tail := @ih parts.1 parts.2 rec
        simp [tail]

theorem splitFirst_isSome {p s : List Char} : (splitFirst p s).isSome ↔ p <:+: s := by
  constructor
  · intro found
    obtain ⟨parts,equal⟩ := Option.isSome_iff_exists.mp found
    exact ⟨parts.1,parts.2,(splitFirst_eq equal).symm⟩
  · rintro ⟨before,after,equal⟩
    induction s generalizing before with
    | nil =>
      have : p = [] := by simp at equal; exact equal.2.1
      simp [splitFirst,this]
    | cons c cs ih =>
      unfold splitFirst
      cases matched : p.isPrefixOf? (c :: cs) with
      | some rest => rfl
      | none =>
        cases before with
        | nil =>
          rw [List.nil_append] at equal
          rw [List.isPrefixOf?_eq_some_iff_append_eq.mpr equal] at matched
          cases matched
        | cons b bs =>
          simp only [List.cons_append,List.cons.injEq] at equal
          simpa using ih bs (by simpa using equal.2)

theorem splitFirst_single {c : Char} {before : List Char} (absent : c ∉ before) (after : List Char) :
    splitFirst [c] (before ++ c :: after) = some (before,after) := by
  induction before with
  | nil => simp [splitFirst,List.isPrefixOf?]
  | cons d before ih =>
    have other : c ≠ d := fun equal => absent (equal ▸ List.mem_cons_self)
    have rest := ih fun member => absent (List.mem_cons_of_mem _ member)
    rw [List.cons_append,splitFirst]
    simp [List.isPrefixOf?,other,rest]

theorem contains_iff {s p : String} : contains s p ↔ p.toList <:+: s.toList := splitFirst_isSome

theorem stripSuffix_eq {s p rest : String} : stripSuffix s p = some rest ↔ s = rest ++ p := by
  unfold stripSuffix List.isSuffixOf?
  constructor
  · intro stripped
    obtain ⟨cs,matched,rfl⟩ := Option.map_eq_some_iff.mp stripped
    obtain ⟨front,found,rfl⟩ := Option.map_eq_some_iff.mp matched
    have equal := congrArg List.reverse (List.isPrefixOf?_eq_some_iff_append_eq.mp found)
    apply String.toList_inj.mp
    simpa using equal.symm
  · rintro rfl
    refine Option.map_eq_some_iff.mpr ⟨rest.toList,Option.map_eq_some_iff.mpr ⟨rest.toList.reverse,?_,by simp⟩,by simp⟩
    exact List.isPrefixOf?_eq_some_iff_append_eq.mpr (by simp)

theorem rsplitOnce_within {s before after : String} {c : Char} (split : rsplitOnce s c = some (before,after)) :
    before.toList <:+: s.toList := by
  obtain ⟨parts,found,same⟩ := Option.map_eq_some_iff.mp split
  cases same
  have whole := congrArg List.reverse (splitFirst_eq found)
  rw [List.reverse_reverse] at whole
  refine ⟨[],c :: parts.1.reverse,?_⟩
  simp [whole]

theorem trim_within (s : String) : (trim s).toList <:+: s.toList := by
  unfold trim trimChars
  rw [String.toList_ofList]
  have back := (List.dropWhile_suffix (l := (s.toList.dropWhile isSpace).reverse) isSpace).isInfix
  have front := (List.dropWhile_suffix (l := s.toList) isSpace).isInfix
  exact (List.reverse_infix.mp (by simpa using back)).trans front

end Text
