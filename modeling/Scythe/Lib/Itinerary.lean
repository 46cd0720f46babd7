import Scythe.Lib.Numbering

-- What a traversal may come by, as far as that is known before it runs. Names
-- that the traversal binds on its way decide some of its branches; `maybe`
-- leaves a branch open.
namespace Numbering

inductive Itinerary (ν κ : Type) where
  | skip
  | one (key : κ)
  | bind (name : ν)
  | seq (first last : Itinerary ν κ)
  | table (inner : Itinerary ν κ)
  | maybe (inner : Itinerary ν κ)
  | unbound (name : ν) (inner : Itinerary ν κ)

namespace Itinerary
variable {ν κ : Type}

-- A nested traversal knows the names bound outside; what it binds it forgets.
def outcomes [DecidableEq ν] : Itinerary ν κ → List ν → List (List (Visit κ) × List ν)
  | .skip,names => [([],names)]
  | .one key,names => [([.one key],names)]
  | .bind name,names => [([],name :: names)]
  | .seq first last,names => (first.outcomes names).flatMap fun before =>
    (last.outcomes before.2).map fun after => (before.1 ++ after.1,after.2)
  | .table inner,names => (inner.outcomes names).map fun outcome => ([.table outcome.1],names)
  | .maybe inner,names => ([],names) :: inner.outcomes names
  | .unbound name inner,names => if name ∈ names then [([],names)] else inner.outcomes names

-- The logs that a whole traversal can leave behind.
def logs [DecidableEq ν] (itinerary : Itinerary ν κ) : List (List (Visit κ)) :=
  (itinerary.outcomes []).map (·.1)

def all : List (Itinerary ν κ) → Itinerary ν κ
  | [] => .skip
  | itinerary :: rest => itinerary.seq (all rest)

def ofOption : Option (Itinerary ν κ) → Itinerary ν κ
  | none => .skip
  | some itinerary => itinerary

theorem outcomes_seq_assoc [DecidableEq ν] (first middle last : Itinerary ν κ) (names : List ν) :
    ((first.seq middle).seq last).outcomes names = (first.seq (middle.seq last)).outcomes names := by
  simp only [outcomes,List.flatMap_assoc,List.flatMap_map,List.map_flatMap,List.map_map,Function.comp_def,
    List.append_assoc]

theorem mem_logs [DecidableEq ν] {itinerary : Itinerary ν κ} {visits : List (Visit κ)} {names : List ν}
    (member : (visits,names) ∈ itinerary.outcomes []) : visits ∈ itinerary.logs := List.mem_map.mpr ⟨_,member,rfl⟩

-- The keys on the itinerary, whatever branches are taken.
def mentions : Itinerary ν κ → List κ
  | .skip => []
  | .one key => [key]
  | .bind _ => []
  | .seq first last => first.mentions ++ last.mentions
  | .table inner => inner.mentions
  | .maybe inner => inner.mentions
  | .unbound _ inner => inner.mentions

theorem keys_mentioned [DecidableEq ν] {itinerary : Itinerary ν κ} {names : List ν} {visits : List (Visit κ)}
    {names' : List ν} (member : (visits,names') ∈ itinerary.outcomes names) :
    ∀ key ∈ keys visits,key ∈ itinerary.mentions := by
  induction itinerary generalizing names visits names' with
  | skip => simp_all [outcomes]
  | one key => simp_all [outcomes,mentions]
  | bind name => simp_all [outcomes]
  | seq first last ihFirst ihLast =>
    simp only [outcomes,List.mem_flatMap,List.mem_map] at member
    obtain ⟨before,known,after,later,is⟩ := member
    cases is
    intro key met
    rw [keys_append] at met
    rcases List.mem_append.mp met with old | new
    · exact List.mem_append_left _ (ihFirst known key old)
    · exact List.mem_append_right _ (ihLast later key new)
  | table inner ih =>
    simp only [outcomes,List.mem_map] at member
    obtain ⟨outcome,known,is⟩ := member
    cases is
    rw [keys_table]
    exact ih known
  | maybe inner ih =>
    rcases List.mem_cons.mp member with none | taken
    · cases none; simp [keys]
    · exact ih taken
  | unbound name inner ih =>
    simp only [outcomes] at member
    split at member
    · simp_all
    · exact ih member

theorem mem_mentions_all {itineraries : List (Itinerary ν κ)} {key : κ} :
    key ∈ (all itineraries).mentions ↔ ∃ itinerary ∈ itineraries,key ∈ itinerary.mentions := by
  induction itineraries with
  | nil => simp [all,mentions]
  | cons itinerary rest ih => simp [all,mentions,ih]

end Itinerary
end Numbering
