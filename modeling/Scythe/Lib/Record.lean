import Mathlib.Data.List.Nodup

-- The text form of a row: its fields between commas, quoted where they have to
-- be. The symbols are bytes, code units or characters, as the reader indexes
-- them.
namespace Record
variable {α : Type}

structure Delimiters (α : Type) where
  quote : α
  comma : α
  backslash : α
  opening : α
  closing : α
  distinct : [quote,comma,backslash,opening,closing].Nodup

namespace Delimiters
variable (d : Delimiters α)

theorem comma_ne_quote : d.comma ≠ d.quote := by
  have distinct := d.distinct
  simp_all [eq_comm]

theorem backslash_ne_quote : d.backslash ≠ d.quote := by
  have distinct := d.distinct
  simp_all [eq_comm]

end Delimiters

variable [DecidableEq α] (d : Delimiters α)

def double (symbol : α) (raw : List α) : List α := raw.flatMap fun c => if c = symbol then [c,c] else [c]

-- Backslashes are doubled first, then quotes.
def escape (raw : List α) : List α := double d.quote (double d.backslash raw)

-- Which fields are written without quotes. Such a field is not empty and holds
-- nothing that the reader would take for a delimiter.
structure Quoting where
  plain : List α → Bool
  written : ∀ raw,plain raw → raw ≠ []
  commaless : ∀ raw,plain raw → d.comma ∉ raw
  quoteless : ∀ raw,plain raw → d.quote ∉ raw

variable {d} in
def Quoting.encode (quoting : Quoting d) : Option (List α) → List α
  | none => []
  | some raw => if quoting.plain raw then raw else d.quote :: escape d raw ++ [d.quote]

def fieldsText : List (List α) → List α
  | [] => []
  | [field] => field
  | field :: fields => field ++ d.comma :: fieldsText fields

variable {d} in
def Quoting.text (quoting : Quoting d) (fields : List (Option (List α))) : List α :=
  d.opening :: fieldsText d (fields.map quoting.encode) ++ [d.closing]

-- Behind the opening quote: a backslash or a quote takes the symbol after it
-- along, a quote alone ends the field.
def quotedField : List α → List α × List α
  | [] => ([],[])
  | [c] => if c = d.quote then ([],[]) else ([c],[])
  | c :: e :: cs =>
    if c = d.backslash then
      let (field,rest) := quotedField cs
      (e :: field,rest)
    else if c = d.quote ∧ e = d.quote then
      let (field,rest) := quotedField cs
      (d.quote :: field,rest)
    else if c = d.quote then ([],e :: cs)
    else
      let (field,rest) := quotedField (e :: cs)
      (c :: field,rest)

def plainField (cs : List α) : List α × List α := (cs.takeWhile (· ≠ d.comma),cs.dropWhile (· ≠ d.comma))

-- An unquoted field without symbols is null.
def readField (cs : List α) : Option (List α) × List α :=
  let plain := fun (parts : List α × List α) => (if parts.1 = [] then none else some parts.1,parts.2)
  match cs with
  | c :: rest =>
    if c = d.quote then
      let (field,rest) := quotedField d rest
      (some field,rest)
    else plain (plainField d cs)
  | [] => plain (plainField d cs)

-- Each round takes a comma at least.
def readFields : Nat → List α → List (Option (List α))
  | 0,_ => []
  | fuel + 1,cs =>
    let (field,rest) := readField d cs
    field :: match rest with
      | c :: rest => if c = d.comma then readFields fuel rest else []
      | [] => []

def read (fuel : Nat) (text : List α) : List (Option (List α)) := readFields d fuel (text.drop 1).dropLast

theorem double_cons (symbol c : α) (raw : List α) :
    double symbol (c :: raw) = (if c = symbol then [c,c] else [c]) ++ double symbol raw := rfl

theorem escape_cons (c : α) (raw : List α) :
    escape d (c :: raw) = (if c = d.quote ∨ c = d.backslash then [c,c] else [c]) ++ escape d raw := by
  have apart := d.backslash_ne_quote
  unfold escape
  rw [double_cons,double,List.flatMap_append,←double,←double]
  by_cases backslash : c = d.backslash
  · simp [backslash,double,apart]
  · by_cases quote : c = d.quote <;> simp [backslash,quote,double,apart.symm]

variable {d}

-- Behind an escaped field and its closing quote stands the end or a comma.
theorem quotedField_escape {rest : List α} (after : ∀ c ∈ rest.head?,c = d.comma) (raw : List α) :
    quotedField d (escape d raw ++ d.quote :: rest) = (raw,rest) := by
  have comma := d.comma_ne_quote
  have apart := d.backslash_ne_quote
  induction raw with
  | nil =>
    change quotedField d (d.quote :: rest) = _
    cases rest with
    | nil => simp [quotedField]
    | cons c rest =>
      have is : c = d.comma := after c rfl
      simp [quotedField,is,comma,apart.symm]
  | cons c raw ih =>
    rw [escape_cons]
    by_cases special : c = d.quote ∨ c = d.backslash
    · rw [if_pos special]
      change quotedField d (c :: c :: (escape d raw ++ d.quote :: rest)) = _
      rcases special with rfl | rfl
      · simp [quotedField,ih,apart.symm]
      · simp [quotedField,ih]
    · rw [if_neg special]
      rw [not_or] at special
      obtain ⟨e,tail,is⟩ : ∃ e tail,escape d raw ++ d.quote :: rest = e :: tail :=
        List.exists_cons_of_ne_nil (by simp)
      change quotedField d (c :: (escape d raw ++ d.quote :: rest)) = _
      rw [is] at ih ⊢
      rw [quotedField,if_neg special.2,if_neg (fun both => special.1 both.1),if_neg special.1,ih]

theorem plainField_append {raw rest : List α} (commaless : d.comma ∉ raw) (after : ∀ c ∈ rest.head?,c = d.comma) :
    plainField d (raw ++ rest) = (raw,rest) := by
  have kept : ∀ c ∈ raw,decide (c ≠ d.comma) = true := fun c member => by
    have differs : c ≠ d.comma := fun equal => commaless (equal ▸ member)
    simpa using differs
  unfold plainField
  rw [List.takeWhile_append_of_pos kept,List.dropWhile_append_of_pos kept]
  cases rest with
  | nil => simp
  | cons c rest =>
    have is : c = d.comma := after c rfl
    simp [is]

-- One encoded field is read back, whether the text ends or goes on behind it.
theorem readField_encode (quoting : Quoting d) {rest : List α} (after : ∀ c ∈ rest.head?,c = d.comma)
    (field : Option (List α)) : readField d (quoting.encode field ++ rest) = (field,rest) := by
  have comma := d.comma_ne_quote
  cases field with
  | none =>
    change readField d rest = _
    have nothing : plainField d ([] ++ rest) = ([],rest) := plainField_append List.not_mem_nil after
    rw [List.nil_append] at nothing
    unfold readField
    cases rest with
    | nil => simp [nothing]
    | cons c rest =>
      have is : c = d.comma := after c rfl
      rw [is] at nothing ⊢
      simp [comma,nothing]
  | some raw =>
    unfold Quoting.encode
    dsimp only
    split
    · rename_i plain
      have taken := plainField_append (quoting.commaless raw plain) after
      obtain ⟨c,tail,rfl⟩ := List.exists_cons_of_ne_nil (quoting.written raw plain)
      have differs : c ≠ d.quote := fun equal => quoting.quoteless _ plain (equal ▸ List.mem_cons_self)
      unfold readField
      rw [taken]
      simp [differs]
    · have read := quotedField_escape after raw
      unfold readField
      simp [read]

theorem readFields_text (quoting : Quoting d) {fields : List (Option (List α))} (nonempty : fields ≠ [])
    {fuel : Nat} (enough : fields.length ≤ fuel) :
    readFields d fuel (fieldsText d (fields.map quoting.encode)) = fields := by
  induction fields generalizing fuel with
  | nil => exact absurd rfl nonempty
  | cons field fields ih =>
    obtain ⟨fuel,rfl⟩ : ∃ n,fuel = n + 1 := ⟨fuel - 1,by rw [List.length_cons] at enough; omega⟩
    cases fields with
    | nil =>
      have read : readField d (quoting.encode field ++ []) = (field,[]) := readField_encode quoting (by simp) field
      rw [List.append_nil] at read
      rw [readFields,List.map_cons,List.map_nil,fieldsText,read]
    | cons next fields =>
      have later := ih (List.cons_ne_nil _ _) (Nat.le_of_succ_le_succ enough)
      have read : readField d (quoting.encode field ++ d.comma :: fieldsText d ((next :: fields).map quoting.encode)) =
          (field,d.comma :: fieldsText d ((next :: fields).map quoting.encode)) :=
        readField_encode quoting (by simp) field
      have first : fieldsText d ((field :: next :: fields).map quoting.encode) =
          quoting.encode field ++ d.comma :: fieldsText d ((next :: fields).map quoting.encode) := rfl
      rw [first,readFields,read]
      dsimp only
      rw [if_pos rfl,later]

omit [DecidableEq α] in
theorem fieldsText_length (fields : List (List α)) : fields.length ≤ (fieldsText d fields).length + 1 := by
  fun_induction fieldsText d fields with
  | case1 => simp
  | case2 => simp
  | case3 field fields _ ih => simp only [List.length_cons,List.length_append] at ih ⊢; omega

-- What was written is read back, by any fuel from the text's length on.
theorem read_text (quoting : Quoting d) {fields : List (Option (List α))} (nonempty : fields ≠ []) {fuel : Nat}
    (enough : (quoting.text fields).length ≤ fuel) : read d fuel (quoting.text fields) = fields := by
  have inner : ((quoting.text fields).drop 1).dropLast = fieldsText d (fields.map quoting.encode) := by
    simp [Quoting.text]
  rw [read,inner]
  refine readFields_text quoting nonempty ?_
  have length := fieldsText_length (d := d) (fields.map quoting.encode)
  simp only [Quoting.text,List.length_map,List.length_cons,List.length_append] at length enough
  omega

end Record
