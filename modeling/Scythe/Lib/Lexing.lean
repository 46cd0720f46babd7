import Mathlib.Data.List.Basic

-- Lexing a text item by item, where every text is lexed whole. The items of a text
-- are the only ones that spell it and are read back one by one.
namespace Lexing
variable {τ : Type}

structure Lexer (τ : Type) where
  text : τ → List Char
  read : List Char → Option (τ × List Char)
  whole : ∀ {cs item rest},read cs = some (item,rest) → text item ++ rest = cs
  taken : ∀ {cs item rest},read cs = some (item,rest) → text item ≠ []
  total : ∀ {cs},read cs = none → cs = []

namespace Lexer
variable (lexer : Lexer τ)

def spelled (found : List τ) : List Char := found.flatMap lexer.text

@[simp] theorem spelled_nil : lexer.spelled [] = [] := rfl

@[simp] theorem spelled_cons (item : τ) (found : List τ) :
    lexer.spelled (item :: found) = lexer.text item ++ lexer.spelled found := List.flatMap_cons

@[simp] theorem spelled_append (found found' : List τ) :
    lexer.spelled (found ++ found') = lexer.spelled found ++ lexer.spelled found' := List.flatMap_append

def itemsWithin : Nat → List Char → List τ
  | 0,_ => []
  | fuel + 1,cs =>
    match lexer.read cs with
    | some (item,rest) => item :: itemsWithin fuel rest
    | none => []

-- Every item takes a character, so the text's length is fuel enough.
def items (cs : List Char) : List τ := lexer.itemsWithin cs.length cs

def Genuine : List τ → Prop
  | [] => True
  | item :: found =>
    lexer.read (lexer.text item ++ lexer.spelled found) = some (item,lexer.spelled found) ∧ Genuine found

theorem read_nil : lexer.read [] = none := by
  cases is : lexer.read [] with
  | none => rfl
  | some found =>
    have whole := lexer.whole is
    exact absurd (List.append_eq_nil_iff.mp whole).1 (lexer.taken is)

theorem read_shorter {cs rest : List Char} {item : τ} (is : lexer.read cs = some (item,rest)) :
    rest.length < cs.length := by
  have length := congrArg List.length (lexer.whole is)
  have taken := List.length_pos_iff.mpr (lexer.taken is)
  rw [List.length_append] at length
  omega

theorem itemsWithin_spelled {fuel : Nat} {cs : List Char} (enough : cs.length ≤ fuel) :
    lexer.spelled (lexer.itemsWithin fuel cs) = cs ∧ lexer.Genuine (lexer.itemsWithin fuel cs) := by
  induction fuel generalizing cs with
  | zero =>
    have empty : cs = [] := List.eq_nil_of_length_eq_zero (by omega)
    exact ⟨empty.symm,trivial⟩
  | succ fuel ih =>
    rw [itemsWithin]
    cases is : lexer.read cs with
    | none => exact ⟨(lexer.total is).symm,trivial⟩
    | some found =>
      obtain ⟨item,rest⟩ := found
      have shorter := lexer.read_shorter is
      obtain ⟨spelled,genuine⟩ := @ih rest (by omega)
      refine ⟨?_,?_,genuine⟩
      · rw [spelled_cons,spelled,lexer.whole is]
      · rw [spelled,lexer.whole is,is]

theorem spelled_items (cs : List Char) : lexer.spelled (lexer.items cs) = cs :=
  (lexer.itemsWithin_spelled (Nat.le_refl _)).1

theorem items_genuine (cs : List Char) : lexer.Genuine (lexer.items cs) :=
  (lexer.itemsWithin_spelled (Nat.le_refl _)).2

theorem itemsWithin_of_genuine {fuel : Nat} {found : List τ} (genuine : lexer.Genuine found)
    (enough : (lexer.spelled found).length ≤ fuel) : lexer.itemsWithin fuel (lexer.spelled found) = found := by
  induction found generalizing fuel with
  | nil =>
    cases fuel with
    | zero => rfl
    | succ fuel => rw [spelled_nil,itemsWithin,lexer.read_nil]
  | cons item found ih =>
    have shorter := lexer.read_shorter genuine.1
    rw [spelled_cons] at enough
    cases fuel with
    | zero => omega
    | succ fuel =>
      rw [spelled_cons,itemsWithin,genuine.1]
      dsimp only
      rw [ih genuine.2 (by omega)]

theorem items_of_genuine {found : List τ} (genuine : lexer.Genuine found) :
    lexer.items (lexer.spelled found) = found := lexer.itemsWithin_of_genuine genuine (Nat.le_refl _)

theorem items_cons {cs rest : List Char} {item : τ} (is : lexer.read cs = some (item,rest)) :
    lexer.items cs = item :: lexer.items rest := by
  have genuine : lexer.Genuine (item :: lexer.items rest) := by
    refine ⟨?_,lexer.items_genuine rest⟩
    rw [lexer.spelled_items,lexer.whole is,is]
  have spelled := lexer.items_of_genuine genuine
  rwa [spelled_cons,lexer.spelled_items,lexer.whole is] at spelled

end Lexer
end Lexing
