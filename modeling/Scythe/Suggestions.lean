import Mathlib.Data.List.MinMax
import Scythe.Lib.EditDistance

-- The near misses that messages about unknown words suggest.
namespace Scythe.Suggestions
open EditDistance

def editDistance (a b : String) : Nat :=
  twoRow (fun substitution deletion insertion => min (min substitution deletion) insertion) a.toList b.toList

def annotationLevenshteinDistance (a b : String) : Nat :=
  twoRow (fun substitution deletion insertion => min (min deletion insertion) substitution) a.toList b.toList

-- The same function again, for the names of options.
def levenshteinDistance (a b : String) : Nat :=
  twoRow (fun substitution deletion insertion => min (min deletion insertion) substitution) a.toList b.toList

-- The first of the nearest candidates within a bound.
def nearest (distance : String → Nat) (bound : Nat) (candidates : List String) : Option String :=
  (((candidates.map fun candidate => (distance candidate,candidate)).filter fun near => near.1 ≤ bound).argmin
    (·.1)).map (·.2)

-- The bound grows with the length of the key in bytes.
def threshold (key : String) : Nat := if key.utf8ByteSize ≤ 4 then 1 else 2

def closestKey (key : String) (candidates : List String) : Option String :=
  nearest (editDistance key) (threshold key) candidates

def knownAnnotationKeywords : List String :=
  ["name","returns","param","nullable","nonnull","json","deprecated","group_by","optional"]

def annotationTypoDistanceThreshold : Nat := 2

def suggestKnownKeyword (name : String) : Option String :=
  nearest (annotationLevenshteinDistance name) annotationTypoDistanceThreshold knownAnnotationKeywords

def suggestOption (key : String) (known : List String) : Option String :=
  nearest (levenshteinDistance key) 2 known

-- The least number of single edits between two texts.
def Levenshtein (a b : String) (n : Nat) : Prop := IsLeast {n | Edits n a.toList b.toList} n

theorem editDistance_least (a b : String) : Levenshtein a b (editDistance a b) := by
  unfold Levenshtein editDistance
  rw [twoRow_distance fun a b c => Nat.min_assoc a b c]
  exact distance_least _ _

theorem annotationLevenshteinDistance_least (a b : String) : Levenshtein a b (annotationLevenshteinDistance a b) := by
  unfold Levenshtein annotationLevenshteinDistance
  rw [twoRow_distance fun a b c => Nat.min_comm (min b c) a]
  exact distance_least _ _

theorem levenshteinDistance_least (a b : String) : Levenshtein a b (levenshteinDistance a b) :=
  annotationLevenshteinDistance_least a b

-- A suggestion is a nearest candidate, and there is one when some candidate is near.
structure Suggests (bound : Nat) (word : String) (candidates : List String) (suggestion : Option String) : Prop where
  given : suggestion ≠ none ↔ ∃ candidate ∈ candidates,∃ n ≤ bound,Edits n word.toList candidate.toList
  best : ∀ candidate,suggestion = some candidate → candidate ∈ candidates ∧ ∃ n ≤ bound,Levenshtein word candidate n ∧
    ∀ other ∈ candidates,∀ m,Edits m word.toList other.toList → n ≤ m

theorem nearest_suggests {distance : String → Nat} {word : String}
    (least : ∀ candidate,Levenshtein word candidate (distance candidate)) (bound : Nat) (candidates : List String) :
    Suggests bound word candidates (nearest distance bound candidates) := by
  constructor
  · unfold nearest
    rw [ne_eq,Option.map_eq_none_iff,List.argmin_eq_none,List.filter_eq_nil_iff,List.forall_mem_map]
    push Not
    refine exists_congr fun candidate => and_congr_right fun _ => ?_
    rw [decide_eq_true_eq]
    constructor
    · intro near
      exact ⟨_,near,(least candidate).1⟩
    · rintro ⟨n,near,edits⟩
      exact ((least candidate).2 edits).trans near
  · intro candidate suggested
    obtain ⟨pair,chosen,rfl⟩ := Option.map_eq_some_iff.mp suggested
    have listed := List.mem_filter.mp (List.argmin_mem chosen)
    obtain ⟨candidate,member,rfl⟩ := List.mem_map.mp listed.1
    have near : distance candidate ≤ bound := of_decide_eq_true listed.2
    refine ⟨member,_,near,least candidate,fun other among m edits => ?_⟩
    rcases Nat.le_total (distance other) bound with within | beyond
    · have kept : (distance other,other) ∈ (candidates.map fun candidate => (distance candidate,candidate)).filter
          fun near => near.1 ≤ bound :=
        List.mem_filter.mpr ⟨List.mem_map.mpr ⟨other,among,rfl⟩,decide_eq_true within⟩
      exact (List.le_of_mem_argmin kept chosen).trans ((least other).2 edits)
    · exact (near.trans beyond).trans ((least other).2 edits)

structure NearMisses : Prop where
  keys : ∀ a b,Levenshtein a b (editDistance a b)
  annotations : ∀ a b,Levenshtein a b (annotationLevenshteinDistance a b)
  options : ∀ a b,Levenshtein a b (levenshteinDistance a b)
  closest : ∀ key candidates,Suggests (threshold key) key candidates (closestKey key candidates)
  keyword : ∀ name,Suggests annotationTypoDistanceThreshold name knownAnnotationKeywords (suggestKnownKeyword name)
  option : ∀ key known,Suggests 2 key known (suggestOption key known)

theorem near_misses : NearMisses where
  keys := editDistance_least
  annotations := annotationLevenshteinDistance_least
  options := levenshteinDistance_least
  closest key candidates := nearest_suggests (editDistance_least key) (threshold key) candidates
  keyword name :=
    nearest_suggests (annotationLevenshteinDistance_least name) annotationTypoDistanceThreshold knownAnnotationKeywords
  option key known := nearest_suggests (levenshteinDistance_least key) 2 known

example : suggestKnownKeyword "nullible" = some "nullable" := by decide +kernel

end Scythe.Suggestions
