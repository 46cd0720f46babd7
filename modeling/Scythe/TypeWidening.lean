import Scythe.Lib.Widening
import Scythe.Statements

-- The type that the arms of a CASE, COALESCE, GREATEST, VALUES or UNION widen to,
-- and what their order does to it.
namespace Scythe
open Effect Widening

def typeScale : Scale String where
  unknown := "unknown"
  graded t := t ∈ numericTypes
  sup := widenType
  unknown_ungraded := by decide
  sup_graded a b gradedA gradedB := by
    have all : ∀ x ∈ numericTypes,∀ y ∈ numericTypes,widenType x y ∈ numericTypes := by decide
    simp only [decide_eq_true_eq] at gradedA gradedB ⊢
    exact all a gradedA b gradedB
  sup_self a _ := if_pos rfl
  sup_comm a b gradedA gradedB := by
    have all : ∀ x ∈ numericTypes,∀ y ∈ numericTypes,widenType x y = widenType y x := by decide
    simp only [decide_eq_true_eq] at gradedA gradedB
    exact all a gradedA b gradedB
  sup_assoc a b c gradedA gradedB gradedC := by
    have all : ∀ x ∈ numericTypes,∀ y ∈ numericTypes,∀ z ∈ numericTypes,
      widenType (widenType x y) z = widenType x (widenType y z) := by decide
    simp only [decide_eq_true_eq] at gradedA gradedB gradedC
    exact all a gradedA b gradedB c gradedC

theorem ungraded_ranks {t : String} (outside : t ∉ numericTypes) :
    intRank t = none ∧ floatRank t = none ∧ isDecimal t = false := by
  simp only [numericTypes,List.mem_cons,List.not_mem_nil,or_false,not_or] at outside
  simp [intRank,floatRank,isDecimal,List.lookup_cons,outside,beq_false_of_ne]

theorem widenType_merge (a b : String) : widenType a b = typeScale.merge a b := by
  by_cases same : a = b
  · subst same
    rw [typeScale.merge_self]
    exact if_pos rfl
  by_cases unknownA : a = "unknown"
  · subst unknownA
    unfold widenType
    rw [if_neg same,if_pos rfl]
    exact (typeScale.merge_unknown_left b).symm
  by_cases unknownB : b = "unknown"
  · subst unknownB
    unfold widenType
    rw [if_neg same,if_neg unknownA,if_pos rfl]
    exact (typeScale.merge_unknown_right a).symm
  by_cases gradedA : a ∈ numericTypes
  · by_cases gradedB : b ∈ numericTypes
    · exact (typeScale.merge_graded (decide_eq_true gradedA) (decide_eq_true gradedB)).symm
    · rw [typeScale.merge_into (decide_eq_true gradedA) fun graded => gradedB (of_decide_eq_true graded)]
      obtain ⟨noInt,noFloat,noDecimal⟩ := ungraded_ranks gradedB
      unfold widenType
      rw [if_neg same,if_neg unknownA,if_neg unknownB]
      simp [noInt,noFloat,noDecimal]
  · rw [typeScale.merge_outside unknownA fun graded => gradedA (of_decide_eq_true graded)]
    obtain ⟨noInt,noFloat,noDecimal⟩ := ungraded_ranks gradedA
    unfold widenType
    rw [if_neg same,if_neg unknownA,if_neg unknownB]
    simp [noInt,noFloat,noDecimal]

-- What CASE, COALESCE, GREATEST and LEAST and a column of VALUES make of their arms.
def widenTypes (arms : List String) : String := arms.foldl widenNeutralType "unknown"

theorem widenTypes_merge (arms : List String) : widenTypes arms = typeScale.mergeAll arms := by
  unfold widenTypes Scale.mergeAll widenNeutralType
  congr 1
  funext a b
  exact widenType_merge a b

theorem widenAll_types (infos : List TypeInfo) : widenAll infos = widenTypes (infos.map (·.neutralType)) := by
  unfold widenAll widenTypes
  rw [List.foldl_map]

-- The results of CASE, with the one of ELSE last.
theorem case_types (branches : List (String × Bool)) (elseType : String) :
    widenNeutralType (branches.foldl (fun widened branch => widenNeutralType widened branch.1) "unknown") elseType =
      widenTypes (branches.map (·.1) ++ [elseType]) := by
  unfold widenTypes
  rw [List.foldl_append,List.foldl_map]
  rfl

-- The types of some expressions, each inferred in the state that the one before
-- left behind.
inductive Infers (self : Methods) (scope : Scope) : List Expr → Analyzer → List String → Analyzer → Prop where
  | nil : Infers self scope [] s [] s
  | cons (ran : (self.inferExprType e scope).run s = some (.ok ti,between))
      (rest : Infers self scope es between types after) : Infers self scope (e :: es) s (ti.neutralType :: types) after

theorem inferAll_infers {self : Methods} {scope : Scope} {es : List Expr} {s after : Analyzer} {infos : List TypeInfo}
    (ran : (inferAll self scope es).run s = some (.ok infos,after)) :
    Infers self scope es s (infos.map (·.neutralType)) after := by
  induction es generalizing s infos with
  | nil =>
    cases ran
    exact .nil
  | cons e es ih =>
    obtain ⟨ti,between,first,ran⟩ := analysis_run_bind ran
    obtain ⟨others,_,rest,ran⟩ := analysis_run_bind ran
    cases ran
    exact .cons first (ih rest)

-- A row of VALUES widens the columns that it has a value for.
theorem widenRow_types {self : Methods} {row : List Expr} {cols next : List (String × Bool)} {s after : Analyzer}
    (ran : (widenRow self cols row).run s = some (.ok next,after)) :
    ∃ types,Infers self .empty (row.take cols.length) s types after ∧
      next.map (·.1) = types.zipWith (fun t col => widenNeutralType col t) (cols.map (·.1)) ++
        (cols.map (·.1)).drop row.length := by
  induction cols generalizing row next s with
  | nil =>
    cases ran
    refine ⟨[],?_,by simp⟩
    rw [List.length_nil,List.take_zero]
    exact .nil
  | cons col cols ih =>
    cases row with
    | nil =>
      cases ran
      exact ⟨[],.nil,by simp⟩
    | cons e es =>
      obtain ⟨ti,between,first,ran⟩ := analysis_run_bind ran
      obtain ⟨others,_,rest,ran⟩ := analysis_run_bind ran
      cases ran
      obtain ⟨types,infers,same⟩ := ih rest
      refine ⟨ti.neutralType :: types,.cons first infers,?_⟩
      simp only [List.map_cons,same,List.zipWith_cons_cons,List.cons_append,List.length_cons,List.drop_succ_cons]

-- What two arms of a set operation become: the type, and the complaint about
-- nested shapes that do not go together.
def unionType (left right : String) : String :=
  match findNestedPlaceholderId left,findNestedPlaceholderId right with
  | some _,some _ => left
  | _,_ => widenNeutralType left right

def shapeOf (pending : List PendingNestedStruct) (t : String) : Option (List NestedFieldInfo) :=
  (findNestedPlaceholderId t).bind (pendingFields pending)

def unionError (pending : List PendingNestedStruct) (left right : String) : Option String :=
  match findNestedPlaceholderId left,findNestedPlaceholderId right with
  | some leftId,some rightId =>
    if (pendingFields pending leftId).isSome ∧ pendingFields pending leftId = pendingFields pending rightId then none
    else some shapesDifferError
  | some _,none => some (otherArmError "left" right)
  | none,some _ => some (otherArmError "right" left)
  | none,none => none

theorem widenUnionArmType_run (left right : String) (s : Analyzer) : (widenUnionArmType left right).run s =
    some (.ok (unionType left right),
      {s with typeErrors:=s.typeErrors ++ (unionError s.pendingNested left right).toList}) := by
  unfold widenUnionArmType unionType unionError
  cases findNestedPlaceholderId left with
  | none =>
    cases findNestedPlaceholderId right with
    | none =>
      rw [Option.toList_none,List.append_nil]
      rfl
    | some rightId => rfl
  | some leftId =>
    cases findNestedPlaceholderId right with
    | none => rfl
    | some rightId =>
      change Analysis.run (if (pendingFields s.pendingNested leftId).isSome ∧
        pendingFields s.pendingNested leftId = pendingFields s.pendingNested rightId then _ else _) s = _
      by_cases same : (pendingFields s.pendingNested leftId).isSome ∧
          pendingFields s.pendingNested leftId = pendingFields s.pendingNested rightId
      · dsimp only
        rw [if_pos same,if_pos same,Option.toList_none,List.append_nil]
        rfl
      · dsimp only
        rw [if_neg same,if_neg same]
        rfl

theorem widenUnionArmType_returns (left right : String) :
    (widenUnionArmType left right).Returns fun widened => widened = unionType left right := by
  unfold widenUnionArmType unionType
  cases findNestedPlaceholderId left with
  | none => cases findNestedPlaceholderId right with
    | none => rfl
    | some rightId => exact fun _ => rfl
  | some leftId => cases findNestedPlaceholderId right with
    | none => exact fun _ => rfl
    | some rightId =>
      intro pending
      change Program.Returns (fun widened => widened = left) (if _ then _ else _)
      split
      · rfl
      · exact fun _ => rfl

theorem widenArms_types (lefts rights : List AnalyzedColumn) : (widenArms lefts rights).Returns fun columns =>
    ∀ (i : Nat) (left right : AnalyzedColumn),lefts[i]? = some left → rights[i]? = some right →
      (columns[i]?).map (·.neutralType) = some (unionType left.neutralType right.neutralType) := by
  induction lefts generalizing rights with
  | nil =>
    intro i left right at'
    cases at'
  | cons first lefts ih =>
    cases rights with
    | nil =>
      apply Program.returns_after
      intro columns i left right _ at'
      cases at'
    | cons other rights =>
      apply (widenUnionArmType_returns _ _).bind
      intro widened same
      apply (ih rights).bind
      intro columns below i left right leftAt rightAt
      cases i with
      | zero =>
        cases leftAt
        cases rightAt
        exact congrArg some same
      | succ i => exact below i left right leftAt rightAt

-- Each column of a set operation widens the two that its operands have there.
theorem setOperation_types [Text.CaseMap] {self : Methods} {op : SetOperator} {left right : SetExpr} {s after : Analyzer}
    {columns : List AnalyzedColumn}
    (ran : (analyzeSetExpr self (.setOperation op left right)).run s = some (.ok columns,after)) :
    ∃ leftCols rightCols middle between,(self.analyzeSetExpr left).run s = some (.ok leftCols,middle) ∧
      (self.analyzeSetExpr right).run middle = some (.ok rightCols,between) ∧
      ∀ (i : Nat) (l r : AnalyzedColumn),leftCols[i]? = some l → rightCols[i]? = some r →
        (columns[i]?).map (·.neutralType) = some (unionType l.neutralType r.neutralType) := by
  obtain ⟨leftCols,middle,leftRan,ran⟩ := analysis_run_bind ran
  obtain ⟨rightCols,between,rightRan,ran⟩ := analysis_run_bind ran
  refine ⟨leftCols,rightCols,middle,between,leftRan,rightRan,?_⟩
  split at ran
  · cases ran
  · exact (widenArms_types leftCols rightCols).run ran

-- The arms of a UNION of several queries, which widen from the left.
def unionStep (pending : List PendingNestedStruct) (widened : String × List String) (right : String) :
    String × List String :=
  (unionType widened.1 right,widened.2 ++ (unionError pending widened.1 right).toList)

def unionTypes (pending : List PendingNestedStruct) : List String → String × List String
  | [] => ("unknown",[])
  | first :: rest => rest.foldl (unionStep pending) (first,[])

theorem widened_plain {a b : String} (left : findNestedPlaceholderId a = none) (right : findNestedPlaceholderId b = none) :
    findNestedPlaceholderId (widenNeutralType a b) = none := by
  have numbers : ∀ t ∈ numericTypes,findNestedPlaceholderId t = none := by decide
  rw [widenNeutralType,widenType_merge]
  unfold Scale.merge
  split
  · exact right
  · split
    · exact left
    · split
      · rename_i both
        exact numbers _ (of_decide_eq_true (typeScale.sup_graded a b both.1 both.2))
      · exact left

-- Arms that a UNION takes: none has a nested shape, or all have one shape.
def ShapesAgree (pending : List PendingNestedStruct) (arms : List String) : Prop :=
  (∀ arm ∈ arms,findNestedPlaceholderId arm = none) ∨ arms.length ≤ 1 ∨
    ∃ fields,∀ arm ∈ arms,shapeOf pending arm = some fields

section
variable {pending : List PendingNestedStruct}

theorem foldl_errors (rest : List String) (widened : String × List String) :
    (rest.foldl (unionStep pending) widened).2 = [] → widened.2 = [] := by
  induction rest generalizing widened with
  | nil => exact id
  | cons arm rest ih =>
    intro none
    exact (List.append_eq_nil_iff.mp (ih _ none)).1

theorem foldl_plain (rest : List String) {first : String} (plain : findNestedPlaceholderId first = none) :
    (rest.foldl (unionStep pending) (first,[])).2 = [] ↔ ∀ arm ∈ rest,findNestedPlaceholderId arm = none := by
  induction rest generalizing first with
  | nil => simp
  | cons arm rest ih =>
    rw [List.foldl_cons]
    cases nested : findNestedPlaceholderId arm with
    | none =>
      have step : unionStep pending (first,[]) arm = (widenNeutralType first arm,[]) := by
        simp [unionStep,unionType,unionError,plain,nested]
      rw [step,ih (widened_plain plain nested)]
      simp [nested]
    | some id =>
      have step : (unionStep pending (first,[]) arm).2 ≠ [] := by
        simp [unionStep,unionError,plain,nested]
      refine iff_of_false (fun accepted => step (foldl_errors rest _ accepted)) fun all => ?_
      rw [all arm List.mem_cons_self] at nested
      cases nested

theorem foldl_plain_type (rest : List String) {first : String} {errors : List String}
    (plain : findNestedPlaceholderId first = none) (others : ∀ arm ∈ rest,findNestedPlaceholderId arm = none) :
    (rest.foldl (unionStep pending) (first,errors)).1 = rest.foldl widenNeutralType first := by
  induction rest generalizing first errors with
  | nil => rfl
  | cons arm rest ih =>
    have nested := others arm List.mem_cons_self
    rw [List.foldl_cons,List.foldl_cons]
    have step : unionStep pending (first,errors) arm = (widenNeutralType first arm,errors) := by
      simp [unionStep,unionType,unionError,plain,nested]
    rw [step]
    exact ih (widened_plain plain nested) fun other member => others other (List.mem_cons_of_mem arm member)

-- A nested shape stays, and takes only arms of its own shape.
theorem foldl_nested (rest : List String) {first : String} {id : Nat} (nested : findNestedPlaceholderId first = some id) :
    ((rest.foldl (unionStep pending) (first,[])).2 = [] ↔
      ∀ arm ∈ rest,∃ fields,shapeOf pending first = some fields ∧ shapeOf pending arm = some fields) ∧
    ((rest.foldl (unionStep pending) (first,[])).2 = [] → (rest.foldl (unionStep pending) (first,[])).1 = first) := by
  induction rest with
  | nil => simp
  | cons arm rest ih =>
    rw [List.foldl_cons]
    have shape : shapeOf pending first = pendingFields pending id := by
      unfold shapeOf
      rw [nested,Option.bind_some]
    by_cases agrees : ∃ fields,shapeOf pending first = some fields ∧ shapeOf pending arm = some fields
    · obtain ⟨fields,left,right⟩ := agrees
      cases other : findNestedPlaceholderId arm with
      | none =>
        unfold shapeOf at right
        rw [other] at right
        cases right
      | some otherId =>
        have step : unionStep pending (first,[]) arm = (first,[]) := by
          unfold shapeOf at right
          rw [other,Option.bind_some] at right
          rw [shape] at left
          simp [unionStep,unionType,unionError,nested,other,left,right]
        rw [step]
        refine ⟨?_,ih.2⟩
        rw [ih.1]
        simp only [List.mem_cons,forall_eq_or_imp]
        exact ⟨fun all => ⟨⟨fields,left,right⟩,all⟩,fun all => all.2⟩
    · have refused : (unionStep pending (first,[]) arm).2 ≠ [] := by
        unfold unionStep unionError
        rw [List.nil_append]
        cases other : findNestedPlaceholderId arm with
        | none => simp [nested]
        | some otherId =>
          simp only [nested]
          split
          · rename_i same
            obtain ⟨fields,known⟩ := Option.isSome_iff_exists.mp same.1
            have right : shapeOf pending arm = some fields := by
              unfold shapeOf
              rw [other,Option.bind_some,←same.2,known]
            exact absurd ⟨fields,shape.trans known,right⟩ agrees
          · simp
      refine ⟨iff_of_false (fun accepted => refused (foldl_errors rest _ accepted)) fun all => ?_,fun accepted =>
        absurd (foldl_errors rest _ accepted) refused⟩
      exact agrees (all arm List.mem_cons_self)

theorem union_accepted_iff (arms : List String) : (unionTypes pending arms).2 = [] ↔ ShapesAgree pending arms := by
  unfold ShapesAgree
  cases arms with
  | nil => simp [unionTypes]
  | cons first rest =>
    unfold unionTypes
    cases nested : findNestedPlaceholderId first with
    | none =>
      rw [foldl_plain rest nested]
      constructor
      · intro all
        exact .inl (List.forall_mem_cons.mpr ⟨nested,all⟩)
      · rintro (plain | single | ⟨fields,shaped⟩)
        · exact (List.forall_mem_cons.mp plain).2
        · have alone : rest = [] := by simpa using single
          simp [alone]
        · have shape := shaped first List.mem_cons_self
          unfold shapeOf at shape
          rw [nested] at shape
          cases shape
    | some id =>
      rw [(foldl_nested rest nested).1]
      constructor
      · intro all
        cases rest with
        | nil => exact .inr (.inl (Nat.le_refl 1))
        | cons arm rest =>
          obtain ⟨fields,left,right⟩ := all arm List.mem_cons_self
          refine .inr (.inr ⟨fields,List.forall_mem_cons.mpr ⟨left,fun other member => ?_⟩⟩)
          obtain ⟨again,same,shape⟩ := all other member
          rw [left] at same
          cases same
          exact shape
      · rintro (plain | single | ⟨fields,shaped⟩)
        · rw [(List.forall_mem_cons.mp plain).1] at nested
          cases nested
        · have alone : rest = [] := by simpa using single
          simp [alone]
        · intro arm member
          exact ⟨fields,shaped first List.mem_cons_self,shaped arm (List.mem_cons_of_mem first member)⟩

theorem unionTypes_plain {arms : List String} (plain : ∀ arm ∈ arms,findNestedPlaceholderId arm = none) :
    (unionTypes pending arms).1 = widenTypes arms := by
  cases arms with
  | nil => rfl
  | cons first rest =>
    obtain ⟨head,tail⟩ := List.forall_mem_cons.mp plain
    unfold unionTypes
    have start : widenNeutralType "unknown" first = first :=
      (widenType_merge _ _).trans (typeScale.merge_unknown_left first)
    rw [foldl_plain_type rest head tail,widenTypes,List.foldl_cons,start]

theorem unionTypes_shaped {arms : List String} {fields : List NestedFieldInfo} (some' : arms ≠ [])
    (shaped : ∀ arm ∈ arms,shapeOf pending arm = some fields) :
    shapeOf pending (unionTypes pending arms).1 = some fields := by
  have accepted := (union_accepted_iff arms).mpr (.inr (.inr ⟨fields,shaped⟩))
  cases arms with
  | nil => exact absurd rfl some'
  | cons first rest =>
    have shape := shaped first List.mem_cons_self
    unfold unionTypes at accepted ⊢
    cases nested : findNestedPlaceholderId first with
    | none =>
      unfold shapeOf at shape
      rw [nested] at shape
      cases shape
    | some id =>
      rw [(foldl_nested rest nested).2 accepted]
      exact shape

theorem ShapesAgree.perm {arms others : List String} (agree : ShapesAgree pending arms) (perm : others.Perm arms) :
    ShapesAgree pending others := by
  rcases agree with plain | single | ⟨fields,shaped⟩
  · exact .inl fun arm member => plain arm (perm.mem_iff.mp member)
  · exact .inr (.inl (perm.length_eq.trans_le single))
  · exact .inr (.inr ⟨fields,fun arm member => shaped arm (perm.mem_iff.mp member)⟩)

theorem unionTypes_shape {arms others : List String} (agree : ShapesAgree pending arms) (perm : others.Perm arms)
    (nested : ∃ arm ∈ arms,findNestedPlaceholderId arm ≠ none) :
    shapeOf pending (unionTypes pending others).1 = shapeOf pending (unionTypes pending arms).1 := by
  obtain ⟨arm,member,isNested⟩ := nested
  rcases agree with plain | single | ⟨fields,shaped⟩
  · exact absurd (plain arm member) isNested
  · obtain ⟨only,alone⟩ := List.length_eq_one_iff.mp (Nat.le_antisymm single (List.length_pos_of_mem member))
    subst alone
    rw [List.perm_singleton.mp perm]
  · have some' : arms ≠ [] := List.ne_nil_of_mem member
    have someOther : others ≠ [] := fun none => some' (List.nil_perm.mp (none ▸ perm))
    rw [unionTypes_shaped some' shaped,
      unionTypes_shaped someOther fun other inside => shaped other (perm.mem_iff.mp inside)]

end

end Scythe
