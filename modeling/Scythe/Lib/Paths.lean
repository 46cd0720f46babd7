import Scythe.Lib.Text

-- Paths through their components: where one leads from a directory, and what is
-- left of it when every step back has been taken.
namespace Paths
open Text

inductive Component where
  | prefixed (text : List Char)
  | rootDir
  | curDir
  | parentDir
  | normal (name : List Char)
  deriving DecidableEq,Repr

-- The place below a directory that a component leads to, the innermost name
-- first. Nothing leads out of the directory.
def descend : List (List Char) → Component → Option (List (List Char))
  | place,.normal name => some (name :: place)
  | place,.curDir => some place
  | _ :: place,.parentDir => some place
  | _,_ => none

def walk (place : List (List Char)) (components : List Component) : Option (List (List Char)) :=
  components.foldlM descend place

-- No part of the way leaves the directory.
def Stays (components : List Component) : Prop := ∀ front,front <+: components → (walk [] front).isSome

-- A path with nothing more to undo, the innermost component first.
def settle : List Component → Component → List Component
  | settled,.curDir => settled
  | .normal _ :: settled,.parentDir => settled
  | .rootDir :: settled,.parentDir => .rootDir :: settled
  | settled,component => component :: settled

def normalized (components : List Component) : List Component := (components.foldl settle []).reverse

theorem walk_cons (place : List (List Char)) (component : Component) (components : List Component) :
    walk place (component :: components) = (descend place component).bind fun next => walk next components := by
  unfold walk
  rw [List.foldlM_cons]
  rfl

theorem walk_append (place : List (List Char)) (components others : List Component) :
    walk place (components ++ others) = (walk place components).bind fun next => walk next others := by
  unfold walk
  rw [List.foldlM_append]
  rfl

theorem stays_iff (components : List Component) : Stays components ↔ (walk [] components).isSome := by
  constructor
  · intro stays
    exact stays components (List.prefix_refl components)
  · intro walked front initial
    obtain ⟨rest,rfl⟩ := initial
    rw [walk_append] at walked
    cases found : walk [] front with
    | none =>
      rw [found] at walked
      cases walked
    | some place => rfl

-- A way that stays below a place settles to that place and what it reaches.
theorem settled_walk {place reached : List (List Char)} {components : List Component}
    (walked : walk place components = some reached) (base : List Component) :
    components.foldl settle (place.map .normal ++ base) = reached.map .normal ++ base := by
  induction components generalizing place with
  | nil =>
    cases walked
    rfl
  | cons component components ih =>
    rw [walk_cons] at walked
    obtain ⟨next,step,further⟩ := Option.bind_eq_some_iff.mp walked
    have settled : settle (place.map .normal ++ base) component = next.map .normal ++ base := by
      cases component with
      | prefixed text => cases place <;> cases step
      | rootDir => cases place <;> cases step
      | curDir =>
        cases place <;> (cases step; rfl)
      | parentDir =>
        cases place with
        | nil => cases step
        | cons name place =>
          cases step
          rfl
      | normal name =>
        cases place <;> (cases step; rfl)
    rw [List.foldl_cons,settled]
    exact ih further

theorem normalized_walk {reached : List (List Char)} {components : List Component}
    (walked : walk [] components = some reached) (base : List Component) :
    normalized (base ++ components) = normalized base ++ reached.reverse.map .normal := by
  unfold normalized
  rw [List.foldl_append]
  have settled := settled_walk walked (base.foldl settle [])
  rw [List.map_nil,List.nil_append] at settled
  rw [settled,List.reverse_append,List.map_reverse]

theorem settle_here (settled : List Component) : settle settled .curDir = settled := by
  cases settled with
  | nil => rfl
  | cons component settled => cases component <;> rfl

theorem normalized_moves (components : List Component) :
    normalized components = normalized (components.filter (· ≠ .curDir)) := by
  have moves : ∀ settled,components.foldl settle settled = (components.filter (· ≠ .curDir)).foldl settle settled := by
    induction components with
    | nil => exact fun _ => rfl
    | cons component components ih =>
      intro settled
      rw [List.foldl_cons,ih]
      by_cases here : component = .curDir
      · subst here
        rw [settle_here]
        rfl
      · rw [List.filter_cons_of_pos (by simpa using here),List.foldl_cons]
  unfold normalized
  rw [moves]

-- How a platform reads a path and puts one behind another.
structure PathSyntax where
  components : List Char → List Component
  isAbsolute : List Char → Bool
  hasRoot : List Char → Bool
  join : List Char → List Char → List Char

-- A path that does not go from where it is joined to.
def PathSyntax.Rooted (paths : PathSyntax) (path : List Char) : Prop :=
  paths.isAbsolute path = true ∨ paths.hasRoot path = true ∨
    ∃ component ∈ paths.components path,component = .rootDir ∨ ∃ text,component = .prefixed text

structure PathSyntax.Lawful (paths : PathSyntax) : Prop where
  joined : ∀ base path,¬paths.Rooted path →
    normalized (paths.components (paths.join base path)) = normalized (paths.components base ++ paths.components path)

-- The paths of Unix. Repeated slashes and dots are left out, but for a dot that a
-- path starts with.
def unixPart (part : List Char) : Option Component :=
  if part = [] ∨ part = ['.'] then none else
  if part = ['.','.'] then some .parentDir else some (.normal part)

def unixRoot (path : List Char) : Bool := path.head? = some '/'

def unixComponents (path : List Char) : List Component :=
  if unixRoot path then .rootDir :: (splitChars '/' path).filterMap unixPart else
  (if (splitChars '/' path).head? = some ['.'] then [.curDir] else []) ++ (splitChars '/' path).filterMap unixPart

def unixJoin (base path : List Char) : List Char :=
  if unixRoot path then path else
  if base = [] ∨ base.getLast? = some '/' then base ++ path else base ++ '/' :: path

def unix : PathSyntax := ⟨unixComponents,unixRoot,unixRoot,unixJoin⟩

theorem unixPart_moves (part : List Char) : unixPart part ≠ some .curDir := by
  unfold unixPart
  split
  · exact fun same => by cases same
  · split
    · exact fun same => by cases same
    · exact fun same => by cases same

theorem unixComponents_moves (path : List Char) : (unixComponents path).filter (· ≠ .curDir) =
    (if unixRoot path then [.rootDir] else []) ++ (splitChars '/' path).filterMap unixPart := by
  have parts : ((splitChars '/' path).filterMap unixPart).filter (· ≠ .curDir) =
      (splitChars '/' path).filterMap unixPart := by
    apply List.filter_eq_self.mpr
    intro component member
    obtain ⟨part,_,is⟩ := List.mem_filterMap.mp member
    apply decide_eq_true
    rintro rfl
    exact unixPart_moves part is
  unfold unixComponents
  split
  · rw [List.filter_cons_of_pos (by decide),parts]
    rfl
  · rw [List.filter_append,parts]
    split <;> rfl

theorem splitChars_joined {base path : List Char} (relative : unixRoot path = false) :
    (splitChars '/' (unixJoin base path)).filterMap unixPart =
      (splitChars '/' base).filterMap unixPart ++ (splitChars '/' path).filterMap unixPart := by
  have empty : unixPart [] = none := rfl
  unfold unixJoin
  rw [relative,if_neg Bool.false_ne_true]
  split
  · rename_i opens
    rcases opens with rfl | last
    · rfl
    · have whole := List.dropLast_append_getLast? '/' last
      have ended := splitChars_append '/' base.dropLast []
      rw [← whole,List.append_assoc,List.singleton_append,splitChars_append,ended,List.filterMap_append,
        List.filterMap_append]
      simp [splitChars,empty]
  · rw [splitChars_append,List.filterMap_append]

theorem unixRoot_joined {base path : List Char} (relative : unixRoot path = false) :
    unixRoot (unixJoin base path) = unixRoot base := by
  unfold unixJoin
  rw [relative,if_neg Bool.false_ne_true]
  cases base with
  | nil => exact relative
  | cons c base =>
    split
    · rfl
    · rfl

theorem unix_lawful : unix.Lawful := by
  constructor
  intro base path relative
  have unrooted : unixRoot path = false := by
    rw [Bool.eq_false_iff]
    exact fun rooted => relative (.inl rooted)
  change normalized (unixComponents (unixJoin base path)) = normalized (unixComponents base ++ unixComponents path)
  rw [normalized_moves,normalized_moves (unixComponents base ++ unixComponents path),List.filter_append,
    unixComponents_moves,unixComponents_moves,unixComponents_moves,unixRoot_joined unrooted,splitChars_joined unrooted,
    unrooted,if_neg Bool.false_ne_true,List.nil_append,List.append_assoc]

end Paths
