import Scythe.Fixtures
import Scythe.Interchange
import Scythe.Traversal.Expressions

-- The choice among the overloads of a catalog function, and what a chosen one
-- binds its parameters to.
namespace Scythe
open Text Contents

-- The overloads of each function were declared in another order, and nothing
-- else differs.
structure Redeclared (a b : Catalog) : Prop where
  functions : ∀ key,Option.Rel List.Perm (a.functions.lookup key) (b.functions.lookup key)
  rest : b = { a with functions := b.functions }

theorem Redeclared.interchangeable {a b : Catalog} (redeclared : Redeclared a b) : Interchangeable a b := by
  obtain ⟨functions,rest⟩ := redeclared
  rw [rest]
  refine ⟨same_refl _ _,same_refl _ _,same_refl _ _,fun key => ?_,same_refl _ _,rfl,rfl,rfl,same_refl _ _⟩
  have related := functions key
  generalize a.functions.lookup key = x at related
  generalize b.functions.lookup key = y at related
  cases related with
  | none => rfl
  | some perm => exact congrArg some (Multiset.coe_eq_coe.mpr perm)

-- A parameter that a call has to give a value for.
structure FunctionArgument.Required (declaration : FunctionArgument) : Prop where
  mode : declaration.mode ≠ .out
  single : declaration.mode ≠ .variadic
  noDefault : declaration.hasDefault = false

-- Pairs of an argument of the call and the parameter it goes to, by their places.
structure WellBound (function : CatalogFunction) (callArguments : List CallArgument) (bindings : List (Nat × Nat)) :
    Prop where
  arguments : bindings.map (·.1) = List.range callArguments.length
  declared : ∀ binding ∈ bindings,(function.arguments[binding.2]?).isSome
  required : ∀ (index : Nat) (declaration : FunctionArgument),function.arguments[index]? = some declaration →
    declaration.Required → index ∈ bindings.map (·.2)
  once : ∀ (index : Nat) (declaration : FunctionArgument),function.arguments[index]? = some declaration →
    declaration.mode ≠ .variadic → (bindings.map (·.2)).count index ≤ 1

theorem mem_declarationIndices {function : CatalogFunction} {index : Nat} {declaration : FunctionArgument}
    (declared : function.arguments[index]? = some declaration) (mode : declaration.mode ≠ .out) :
    index ∈ declarationIndices function := by
  unfold declarationIndices
  refine List.mem_map.mpr ⟨(declaration,index),List.mem_filter.mpr ⟨?_,by simpa using mode⟩,rfl⟩
  exact List.mem_zipIdx_iff_getElem?.mpr declared

theorem variadicIndex_mode {function : CatalogFunction} {index : Nat} {declaration : FunctionArgument}
    (declared : function.arguments[index]? = some declaration) (single : declaration.mode ≠ .variadic) :
    some index ≠ variadicIndex function := by
  intro variadic
  have held := (Option.filter_eq_some_iff.mp variadic.symm).2
  simp [declared,single] at held

section
variable [CaseMap]

omit [CaseMap] in
-- An argument whose parameter is taken already ends the match, unless it is
-- the variadic one.
theorem bindArguments_cons {function : CatalogFunction} {argument : CallArgument} {arguments : List CallArgument}
    {callIndex nextPositional : Nat} {used after : List Nat} {bindings : List (Nat × Nat)}
    (bound : bindArguments function (argument :: arguments) callIndex used nextPositional = some (bindings,after)) :
    ∃ index following later,(some index = variadicIndex function ∨ index ∉ used) ∧
      bindArguments function arguments (callIndex + 1) (index :: used) following = some (later,after) ∧
      bindings = (callIndex,index) :: later := by
  obtain ⟨⟨index,following⟩,chosen,rest⟩ := Option.bind_eq_some_iff.mp bound
  dsimp only at rest
  split at rest
  · cases rest
  · rename_i free
    obtain ⟨⟨later,taken⟩,boundLater,same⟩ := Option.map_eq_some_iff.mp rest
    cases same
    refine ⟨index,following,later,?_,boundLater,rfl⟩
    by_cases variadic : some index = variadicIndex function
    · exact .inl variadic
    · exact .inr fun inside => free ⟨variadic,inside⟩

omit [CaseMap] in
theorem bindArguments_used {function : CatalogFunction} {arguments : List CallArgument} {callIndex nextPositional : Nat}
    {used after : List Nat} {bindings : List (Nat × Nat)}
    (bound : bindArguments function arguments callIndex used nextPositional = some (bindings,after)) :
    ∀ index ∈ after,index ∈ used ∨ index ∈ bindings.map (·.2) := by
  induction arguments generalizing callIndex nextPositional used bindings with
  | nil =>
    cases bound
    exact fun index inside => .inl inside
  | cons argument arguments ih =>
    obtain ⟨taken,following,later,-,boundLater,rfl⟩ := bindArguments_cons bound
    intro index inside
    rw [List.map_cons,List.mem_cons]
    cases ih boundLater index inside with
    | inl before => exact (List.mem_cons.mp before).elim (fun same => .inr (.inl same)) .inl
    | inr after => exact .inr (.inr after)

omit [CaseMap] in
theorem bindArguments_once {function : CatalogFunction} {arguments : List CallArgument} {callIndex nextPositional : Nat}
    {used after : List Nat} {bindings : List (Nat × Nat)} {index : Nat} (single : some index ≠ variadicIndex function)
    (bound : bindArguments function arguments callIndex used nextPositional = some (bindings,after)) :
    (bindings.map (·.2)).count index ≤ if index ∈ used then 0 else 1 := by
  induction arguments generalizing callIndex nextPositional used bindings with
  | nil =>
    cases bound
    exact Nat.zero_le _
  | cons argument arguments ih =>
    obtain ⟨taken,following,later,free,boundLater,rfl⟩ := bindArguments_cons bound
    have others := ih boundLater
    rw [List.map_cons,List.count_cons]
    by_cases own : taken = index
    · subst own
      have fresh := free.resolve_left single
      simpa [fresh] using others
    · have apart : index ≠ taken := fun same => own same.symm
      simpa [own,apart] using others

theorem match_wellBound {catalog : Catalog} {function : CatalogFunction} {callArguments : List CallArgument}
    {inferred : List TypeInfo} {found : CatalogFunctionMatch}
    (is : matchCatalogFunction catalog function callArguments inferred = some found) :
    found.function = function ∧ WellBound function callArguments found.bindings := by
  obtain ⟨indices,declared⟩ := match_bindings is
  obtain ⟨⟨bindings,used⟩,bound,rest⟩ := Option.bind_eq_some_iff.mp is
  dsimp only at rest
  split at rest
  · cases rest
  · rename_i complete
    obtain ⟨scores,-,done⟩ := Option.bind_eq_some_iff.mp rest
    cases done
    refine ⟨rfl,by rw [indices,List.range_eq_range'],declared,?_,?_⟩
    · intro index declaration held required
      have taken : index ∈ used := by
        by_contra missing
        refine complete (List.any_eq_true.mpr ⟨index,mem_declarationIndices held required.mode,?_⟩)
        simp [missing,held,required.single,required.noDefault]
      exact (bindArguments_used bound index taken).resolve_left List.not_mem_nil
    · intro index declaration held single
      simpa using bindArguments_once (variadicIndex_mode held single) bound

theorem resolved_match {catalog : Catalog} {overloads : List CatalogFunction} {callArguments : List CallArgument}
    {inferred : List TypeInfo} {best : CatalogFunctionMatch}
    (is : resolveOverload catalog overloads callArguments inferred = .best best) :
    matchCatalogFunction catalog best.function callArguments inferred = some best := by
  rw [resolveOverload_pick] at is
  cases picked : LeastScore.pick (·.score) (overloads.filterMap fun function =>
      matchCatalogFunction catalog function callArguments inferred) with
  | none =>
    rw [picked] at is
    cases is
  | tied =>
    rw [picked] at is
    cases is
  | alone found =>
    rw [picked] at is
    cases is
    have inside := LeastScore.alone_mem ((LeastScore.pick_alone _ _ _).mp picked)
    obtain ⟨function,-,matched⟩ := List.mem_filterMap.mp inside
    rw [(match_wellBound matched).1]
    exact matched

variable [Printer]

-- Catalogs whose overloads were declared in different orders give a call the
-- same outcome, in an expression and in FROM, and what is chosen is well bound.
theorem overload_outcome {a b : Catalog} (redeclared : Redeclared a b) (fuel : Nat) :
    inferCatalogFunctionType a (methods a fuel) = inferCatalogFunctionType b (methods b fuel) ∧
      catalogFunctionColumns a (methods a fuel) = catalogFunctionColumns b (methods b fuel) ∧
      ∀ overloads others callArguments inferred,overloads.Perm others →
        resolveOverload a overloads callArguments inferred = resolveOverload b others callArguments inferred ∧
        ∀ best,resolveOverload a overloads callArguments inferred = .best best →
          WellBound best.function callArguments best.bindings := by
  have same := redeclared.interchangeable
  refine ⟨?_,?_,?_⟩
  · rw [same.methods,same.inferCatalogFunctionType]
  · rw [same.methods,same.catalogFunctionColumns]
  · intro overloads others callArguments inferred perm
    exact ⟨same.resolveOverload perm callArguments inferred,fun best is => (match_wellBound (resolved_match is)).2⟩

end

section
open Fixtures

local instance overloadCase : CaseMap := ascii
local instance overloadPrinter : Printer := printer

def areaOf (sqlType : String) : CatalogFunction := ⟨[⟨none,sqlType,.in,false⟩],.scalar sqlType⟩

def withAreas (overloads : List CatalogFunction) : Catalog :=
  { Catalog.new .postgreSQL with functions := (∅ : AHashMap (List CatalogFunction)).insert "area" overloads }

theorem areas_redeclared {overloads others : List CatalogFunction} (perm : overloads.Perm others) :
    Redeclared (withAreas overloads) (withAreas others) := by
  refine ⟨fun key => ?_,rfl⟩
  unfold withAreas
  by_cases own : key = "area"
  · rw [own,AList.lookup_insert,AList.lookup_insert]
    exact .some perm
  · rw [AList.lookup_insert_ne own,AList.lookup_insert_ne own]
    exact .none

theorem area_outcome :
    (inferCatalogFunctionType (withAreas [areaOf "integer",areaOf "text"])
      (methods (withAreas [areaOf "integer",areaOf "text"]) 1)) =
    inferCatalogFunctionType (withAreas [areaOf "text",areaOf "integer"])
      (methods (withAreas [areaOf "text",areaOf "integer"]) 1) :=
  (overload_outcome (areas_redeclared (.swap _ _ _)) 1).1

end

end Scythe
