import Mathlib.Tactic.Tauto

-- JSON documents, read by their members.
namespace JsonTree

inductive Json where
  | null
  | bool (value : Bool)
  | number (value : Int)
  | string (value : String)
  | array (items : List Json)
  | object (members : List (String × Json))

namespace Json

def asObject : Json → Option (List (String × Json))
  | .object members => some members
  | _ => none

def asArray : Json → Option (List Json)
  | .array items => some items
  | _ => none

def asString : Json → Option String
  | .string value => some value
  | _ => none

def asInt : Json → Option Int
  | .number value => some value
  | _ => none

def get (value : Json) (key : String) : Option Json := value.asObject.bind fun members => members.lookup key

end Json

-- Every member at every depth, each before the members inside it.
mutual
def within : Json → List (String × Json)
  | .null => []
  | .bool _ => []
  | .number _ => []
  | .string _ => []
  | .array items => withinItems items
  | .object members => withinMembers members
termination_by structural value => value

def withinItems : List Json → List (String × Json)
  | [] => []
  | item :: items => within item ++ withinItems items
termination_by structural items => items

def withinMembers : List (String × Json) → List (String × Json)
  | [] => []
  | (key,child) :: members => (key,child) :: within child ++ withinMembers members
termination_by structural members => members
end

section
variable (stops : String → Bool)

-- The members that a walk stops at. It goes on inside every other one.
mutual
def stopped : Json → List (String × Json)
  | .null => []
  | .bool _ => []
  | .number _ => []
  | .string _ => []
  | .array items => stoppedItems items
  | .object members => stoppedMembers members
termination_by structural value => value

def stoppedItems : List Json → List (String × Json)
  | [] => []
  | item :: items => stopped item ++ stoppedItems items
termination_by structural items => items

def stoppedMembers : List (String × Json) → List (String × Json)
  | [] => []
  | (key,child) :: members => (if stops key then [(key,child)] else stopped child) ++ stoppedMembers members
termination_by structural members => members
end

-- The members that the walk passes or never comes to.
mutual
def passed : Json → List (String × Json)
  | .null => []
  | .bool _ => []
  | .number _ => []
  | .string _ => []
  | .array items => passedItems items
  | .object members => passedMembers members
termination_by structural value => value

def passedItems : List Json → List (String × Json)
  | [] => []
  | item :: items => passed item ++ passedItems items
termination_by structural items => items

def passedMembers : List (String × Json) → List (String × Json)
  | [] => []
  | (key,child) :: members =>
    (if stops key then within child else (key,child) :: passed child) ++ passedMembers members
termination_by structural members => members
end

variable (member : String × Json)

mutual
theorem stops_stopped : ∀ value,member ∈ stopped stops value → stops member.1
  | .null => by simp [stopped]
  | .bool _ => by simp [stopped]
  | .number _ => by simp [stopped]
  | .string _ => by simp [stopped]
  | .array items => by
    simp only [stopped]
    exact stops_stoppedItems items
  | .object members => by
    simp only [stopped]
    exact stops_stoppedMembers members
termination_by structural value => value

theorem stops_stoppedItems : ∀ items,member ∈ stoppedItems stops items → stops member.1
  | [] => by simp [stoppedItems]
  | item :: items => by
    intro among
    rcases List.mem_append.mp among with inFirst | inRest
    · exact stops_stopped item inFirst
    · exact stops_stoppedItems items inRest
termination_by structural items => items

theorem stops_stoppedMembers : ∀ members,member ∈ stoppedMembers stops members → stops member.1
  | [] => by simp [stoppedMembers]
  | (key,child) :: members => by
    intro among
    rcases List.mem_append.mp among with inFirst | inRest
    · split at inFirst
      · rename_i stop
        exact List.mem_singleton.mp inFirst ▸ stop
      · exact stops_stopped child inFirst
    · exact stops_stoppedMembers members inRest
termination_by structural members => members
end

mutual
theorem mem_within : ∀ value,member ∈ within value ↔ member ∈ stopped stops value ∨ member ∈ passed stops value
  | .null => by simp [within,stopped,passed]
  | .bool _ => by simp [within,stopped,passed]
  | .number _ => by simp [within,stopped,passed]
  | .string _ => by simp [within,stopped,passed]
  | .array items => by
    simp only [within,stopped,passed]
    exact mem_withinItems items
  | .object members => by
    simp only [within,stopped,passed]
    exact mem_withinMembers members
termination_by structural value => value

theorem mem_withinItems : ∀ items,member ∈ withinItems items ↔
    member ∈ stoppedItems stops items ∨ member ∈ passedItems stops items
  | [] => by simp [withinItems,stoppedItems,passedItems]
  | item :: items => by
    have first := mem_within item
    have rest := mem_withinItems items
    simp only [withinItems,stoppedItems,passedItems,List.mem_append,first,rest]
    exact or_or_or_comm
termination_by structural items => items

theorem mem_withinMembers : ∀ members,member ∈ withinMembers members ↔
    member ∈ stoppedMembers stops members ∨ member ∈ passedMembers stops members
  | [] => by simp [withinMembers,stoppedMembers,passedMembers]
  | (key,child) :: members => by
    have first := mem_within child
    have rest := mem_withinMembers members
    simp only [withinMembers,stoppedMembers,passedMembers,List.cons_append,List.mem_cons,List.mem_append,rest]
    split
    · simp only [List.mem_singleton]
      rw [← or_assoc]
      exact or_or_or_comm
    · simp only [first,List.mem_cons]
      tauto
termination_by structural members => members
end

end

end JsonTree
