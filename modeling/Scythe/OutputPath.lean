import Scythe.Lib.Paths

-- Where generated code may be written.
namespace Scythe.OutputPath
open Text Paths

def escapesFrom : Int → List Component → Bool
  | _,[] => false
  | depth,component :: components =>
    match component with
    | .parentDir => if depth - 1 < 0 then true else escapesFrom (depth - 1) components
    | .normal _ => escapesFrom (depth + 1) components
    | .curDir => escapesFrom depth components
    | .rootDir => true
    | .prefixed _ => true

section
variable (paths : PathSyntax)

def outputEscapesBase (output : List Char) : Bool :=
  if paths.isAbsolute output || paths.hasRoot output then true else escapesFrom 0 (paths.components output)

def escapeMessage (label output base : String) : String :=
  label ++ ": output '" ++ output ++ "' escapes the project root '" ++ base ++ "'; scythe refuses to create " ++
    "directories or write files outside the project by default -- pass --allow-output-escape " ++
    "if writing there is deliberate"

def resolveContainedOutput (baseDir output : List Char) (label : String) (allowEscape : Bool) :
    Except String (List Char) :=
  let joined := paths.join baseDir output
  if allowEscape || !outputEscapesBase paths output then .ok joined else
  .error (escapeMessage label (String.ofList output) (String.ofList baseDir))

end

-- The depth is how far below the base a path has come.
theorem escapesFrom_iff (place : List (List Char)) (components : List Component) :
    escapesFrom place.length components = false ↔ (walk place components).isSome := by
  induction components generalizing place with
  | nil => exact ⟨fun _ => rfl,fun _ => rfl⟩
  | cons component components ih =>
    rw [walk_cons]
    cases component with
    | prefixed text =>
      have outside : descend place (.prefixed text) = none := by cases place <;> rfl
      simp [escapesFrom,outside]
    | rootDir =>
      have outside : descend place .rootDir = none := by cases place <;> rfl
      simp [escapesFrom,outside]
    | curDir =>
      have here : descend place .curDir = some place := by cases place <;> rfl
      rw [here]
      exact ih place
    | parentDir =>
      cases place with
      | nil => simp [escapesFrom,descend]
      | cons name place =>
        have up : ((name :: place).length : Int) - 1 = place.length := by
          rw [List.length_cons]
          omega
        have inside : ¬(place.length : Int) < 0 := by omega
        rw [escapesFrom,up,if_neg inside]
        exact ih place
    | normal name =>
      have down : descend place (.normal name) = some (name :: place) := by cases place <;> rfl
      have below : (place.length : Int) + 1 = (name :: place).length := by
        rw [List.length_cons]
        omega
      rw [down,escapesFrom,below]
      exact ih (name :: place)

section
variable (paths : PathSyntax)

theorem escapes_iff (output : List Char) :
    outputEscapesBase paths output = false ↔ ¬paths.Rooted output ∧ Stays (paths.components output) := by
  have start := escapesFrom_iff [] (paths.components output)
  unfold outputEscapesBase
  rw [stays_iff,← start]
  constructor
  · intro stays
    split at stays
    · cases stays
    · rename_i relative
      refine ⟨?_,stays⟩
      rintro (absolute | root | ⟨component,member,outside⟩)
      · exact relative (by rw [absolute]; rfl)
      · exact relative (by rw [root,Bool.or_true])
      · obtain ⟨front,rest,split⟩ := List.append_of_mem member
        have walked := start.mp stays
        rw [split,walk_append] at walked
        cases reached : walk [] front with
        | none =>
          rw [reached] at walked
          cases walked
        | some place =>
          have blocked : descend place component = none := by
            rcases outside with rfl | ⟨text,rfl⟩
            · cases place <;> rfl
            · cases place <;> rfl
          rw [reached,Option.bind_some,walk_cons,blocked] at walked
          cases walked
  · intro both
    rw [if_neg]
    · exact both.2
    · intro rooted
      rcases Bool.or_eq_true_iff.mp rooted with absolute | root
      · exact both.1 (.inl absolute)
      · exact both.1 (.inr (.inl root))

-- An output is taken just if it is not rooted and never leaves the base on its way,
-- and what it is joined to stays in front of it.
theorem output_contained (lawful : paths.Lawful) (baseDir output : List Char) :
    (outputEscapesBase paths output = false ↔ ¬paths.Rooted output ∧ Stays (paths.components output)) ∧
      ∀ label joined,resolveContainedOutput paths baseDir output label false = .ok joined →
        normalized (paths.components baseDir) <+: normalized (paths.components joined) := by
  refine ⟨escapes_iff paths output,?_⟩
  intro label joined ok
  unfold resolveContainedOutput at ok
  cases escapes : outputEscapesBase paths output with
  | true =>
    rw [escapes] at ok
    cases ok
  | false =>
    rw [escapes] at ok
    cases ok
    obtain ⟨relative,stays⟩ := (escapes_iff paths output).mp escapes
    obtain ⟨reached,walked⟩ := Option.isSome_iff_exists.mp ((stays_iff _).mp stays)
    rw [lawful.joined baseDir output relative,normalized_walk walked]
    exact List.prefix_append _ _

theorem output_contained_unix : (outputEscapesBase unix "gen/../../app".toList = false ↔
      ¬unix.Rooted "gen/../../app".toList ∧ Stays (unix.components "gen/../../app".toList)) ∧
    ∀ label joined,resolveContainedOutput unix "project".toList "gen/../../app".toList label false = .ok joined →
      normalized (unix.components "project".toList) <+: normalized (unix.components joined) :=
  output_contained unix unix_lawful "project".toList "gen/../../app".toList

end

end Scythe.OutputPath
