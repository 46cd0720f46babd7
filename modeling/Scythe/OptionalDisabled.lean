import Scythe.Disambiguation
import Scythe.Lib.Register
import Scythe.OptionalMeaning

-- What becomes of the comparisons with an optional parameter that is NULL.
namespace Scythe
open Text Splice

-- The parameters under the names by which the annotation looks them up. Names
-- that occur twice are told apart only afterwards.
def namedParams (annotations : Annotations) (infos : List ParamInfo) : List AnalyzedParam :=
  (dedupParams (sortParams infos)).map (nameParam annotations)

def optionalPositions (annotations : Annotations) (infos : List ParamInfo) : List Int :=
  ((namedParams annotations infos).filter fun p => p.name ∈ annotations.optionalParams).map (·.position)

-- Only a parameter whose name no other parameter had is found again.
def soughtPasses (annotations : Annotations) (infos : List ParamInfo) : List Pass :=
  passesOf (soughtParam (namedParams annotations infos)) annotations.optionalParams

theorem resolveParams_ok {annotations : Annotations} {infos : List ParamInfo} {params : List AnalyzedParam}
    (resolved : resolveParams annotations infos = .ok params) :
    params = renameParams ((namedParams annotations infos).map (optionalParam annotations)) ∧
      ∀ optName ∈ annotations.optionalParams,
        optName ∈ ((namedParams annotations infos).map (optionalParam annotations)).map (·.name) := by
  rw [resolveParams] at resolved
  obtain ⟨_,-,afterTypes⟩ := Register.bind_ok resolved
  obtain ⟨_,known,afterKnown⟩ := Register.bind_ok afterTypes
  refine ⟨(Except.ok.inj afterKnown).symm,?_⟩
  intro optName member
  unfold rejectUnknownOptional at known
  split at known
  next => cases known
  next none =>
    have found := List.find?_eq_none.mp none optName member
    simp only [Bool.not_eq_true,List.any_eq_false,decide_eq_true_eq,not_forall,not_not] at found
    obtain ⟨p,inside,equal⟩ := found
    exact List.mem_map.mpr ⟨p,inside,equal⟩

theorem optionalParam_same (annotations : Annotations) (p : AnalyzedParam) :
    (optionalParam annotations p).name = p.name ∧ (optionalParam annotations p).position = p.position := by
  unfold optionalParam
  split
  · exact ⟨rfl,rfl⟩
  · exact ⟨rfl,rfl⟩

theorem soughtParam_marked (annotations : Annotations) (named : List AnalyzedParam) (name : String) :
    (soughtParam (named.map (optionalParam annotations)) name).map (·.position) =
      (soughtParam named name).map (·.position) := by
  have names : (named.map (optionalParam annotations)).map (·.name) = named.map (·.name) := by
    rw [List.map_map]
    exact List.map_congr_left fun p _ => (optionalParam_same annotations p).1
  rw [soughtParam,soughtParam,names]
  split
  · rw [List.find?_map,Option.map_map]
    have same : (fun p : AnalyzedParam => decide (p.name = name)) ∘ optionalParam annotations =
        fun p => decide (p.name = name) := by
      funext p
      simp only [Function.comp_apply,(optionalParam_same annotations p).1]
    rw [same]
    congr 1
    funext p
    exact (optionalParam_same annotations p).2
  · rfl

theorem passes_sought {annotations : Annotations} {infos : List ParamInfo} {params : List AnalyzedParam}
    (resolved : resolveParams annotations infos = .ok params) :
    passes params annotations.optionalParams = soughtPasses annotations infos := by
  obtain ⟨renamed,known⟩ := resolveParams_ok resolved
  apply List.flatMap_congr
  intro optName member
  have positions := find_renameParams (known optName member)
  rw [soughtParam_marked,←renamed] at positions
  dsimp only
  cases found : params.find? fun p => p.name = optName with
  | none =>
    cases sought : soughtParam (namedParams annotations infos) optName with
    | none => rfl
    | some other =>
      rw [found,sought] at positions
      cases positions
  | some param =>
    cases sought : soughtParam (namedParams annotations infos) optName with
    | none =>
      rw [found,sought] at positions
      cases positions
    | some other =>
      rw [found,sought] at positions
      have same : param.position = other.position := Option.some.inj positions
      simp only [same]

section
variable {α Row Result : Type}

-- NULL for the parameter makes the condition true, whatever else is bound.
def Off (database : Database α Row) (param : Int) (condition : Condition) : Prop :=
  ∀ bindings : Bindings α,bindings param = none → ∀ row,condition.truth database bindings row = some true

def Guards (param : Int) (condition : Condition) : Prop := param ∈ condition.guards

def ForOptional (annotations : Annotations) (infos : List ParamInfo) (holds : Int → Condition → Prop)
    (parts : List Part) : Prop :=
  ∀ param ∈ optionalPositions annotations infos,∀ condition ∈ conditionsOf parts,
    condition.comparison.param = param → holds param condition

theorem truthOr_true (truth : Truth) : truthOr truth (some true) = some true := by
  cases truth with
  | none => rfl
  | some value => cases value <;> rfl

theorem guards_true {bindings : Bindings α} {guards : List Int} {param : Int} (member : param ∈ guards)
    (null : bindings param = none) (truth : Truth) :
    guards.foldr (fun param truth => truthOr (isNull (bindings param)) truth) truth = some true := by
  induction guards with
  | nil => cases member
  | cons guard guards ih =>
    rw [List.foldr_cons]
    rcases List.mem_cons.mp member with here | later
    · rw [←here,null]
      rfl
    · rw [ih later,truthOr_true]

theorem guards_false {bindings : Bindings α} {guards : List Int} (bound : ∀ guard ∈ guards,bindings guard ≠ none)
    (truth : Truth) :
    guards.foldr (fun param truth => truthOr (isNull (bindings param)) truth) truth = truth := by
  induction guards with
  | nil => rfl
  | cons guard guards ih =>
    have off : isNull (bindings guard) = some false := by
      cases value : bindings guard with
      | none => exact absurd value (bound guard List.mem_cons_self)
      | some value => rfl
    rw [List.foldr_cons,off,truthOr_false,ih fun guard member => bound guard (List.mem_cons_of_mem _ member)]

theorem comparison_null (database : Database α Row) {comparison : Comparison} {bindings : Bindings α}
    (null : bindings comparison.param = none) (row : Row) : comparison.truth database bindings row = none := by
  unfold Comparison.truth
  dsimp only
  rw [null]
  split
  · cases database.value comparison.operand row <;> rfl
  · cases database.value comparison.operand row <;> rfl

-- Only its own guard makes a comparison true where its parameter is NULL.
theorem off_iff [Inhabited α] [Inhabited Row] (database : Database α Row) {param : Int} {condition : Condition}
    (against : condition.comparison.param = param) : Off database param condition ↔ Guards param condition := by
  constructor
  · intro off
    by_contra unguarded
    have alone := off (fun other => if other = param then none else some default) (if_pos rfl) default
    have bound : ∀ guard ∈ condition.guards,(if guard = param then none else some (default : α)) ≠ none := by
      intro guard member
      have other : guard ≠ param := by
        intro same
        rw [same] at member
        exact unguarded member
      rw [if_neg other]
      exact Option.some_ne_none _
    rw [Condition.truth,guards_false bound,comparison_null database (by rw [against]; exact if_pos rfl)] at alone
    cases alone
  · intro member bindings null row
    exact guards_true member null _

variable [CaseMap]

-- The statement comes out with guards around comparisons, and those of optional
-- parameters are off where the parameter is NULL.
def Disables (database : Database α Row) (annotations : Annotations) (infos : List ParamInfo)
    (params : List AnalyzedParam) (statement : SqlStatement Row Result) : Prop :=
  ∃ final,PassRun PassGuards (passes params annotations.optionalParams) statement.parts final ∧
    (rewriteOptionalParams (String.ofList statement.text) annotations.optionalParams params).toList =
      final.flatMap Part.text ∧
    ForOptional annotations infos (Off database) final

theorem optional_null_disables [Inhabited α] [Inhabited Row] (ordinary : OrdinaryCharacters)
    (database : Database α Row) {annotations : Annotations} {infos : List ParamInfo} {params : List AnalyzedParam}
    (resolved : resolveParams annotations infos = .ok params) (statement : SqlStatement Row Result) :
    Disables database annotations infos params statement ↔
      ∃ final,PassRun PassFinds (soughtPasses annotations infos) statement.parts final ∧
        ForOptional annotations infos Guards final := by
  rw [←passes_sought resolved]
  constructor
  · intro disables
    obtain ⟨final,run,-,off⟩ := disables
    refine ⟨final,(passes_exact ordinary passes_operators).mpr run,?_⟩
    intro param optional condition member against
    exact (off_iff database against).mp (off param optional condition member against)
  · intro finds
    obtain ⟨final,found,guards⟩ := finds
    have run := (passes_exact ordinary passes_operators).mp found
    refine ⟨final,run,?_,?_⟩
    · rw [rewriteOptionalParams_passes]
      exact passes_text run
    · intro param optional condition member against
      exact (off_iff database against).mpr (guards param optional condition member against)

omit [CaseMap] in
theorem mem_conditionsOf {parts : List Part} {condition : Condition} :
    condition ∈ conditionsOf parts ↔ .condition condition ∈ parts := by
  rw [conditionsOf,List.mem_filterMap]
  constructor
  · intro found
    obtain ⟨part,member,equal⟩ := found
    cases part with
    | character c => cases equal
    | condition inner =>
      cases equal
      exact member
  · intro member
    exact ⟨_,member,rfl⟩

-- What the passes made of a part: every new guard of a condition is the one that
-- some pass puts around such a comparison.
inductive Grown (steps : List Pass) : Part → Part → Prop
  | character (c : Char) : Grown steps (.character c) (.character c)
  | condition {condition other : Condition} (param : other.comparison.param = condition.comparison.param)
      (guards : ∀ guard ∈ other.guards,Guards guard condition ∨
        ∃ pass ∈ steps,pass.1 = guard ∧ Guardable pass.2 guard condition.comparison) :
      Grown steps (.condition condition) (.condition other)

theorem grown_refl (steps : List Pass) (part : Part) : Grown steps part part := by
  cases part with
  | character c => exact .character c
  | condition condition => exact .condition rfl fun guard member => Or.inl member

theorem pass_grown {pass : Pass} {rest : List Pass} {parts others final : List Part}
    (guards : GuardsSome pass.2 pass.1 parts others) (later : List.Forall₂ (Grown rest) others final) :
    List.Forall₂ (Grown (pass :: rest)) parts final := by
  have more {condition other : Condition} (grown : ∀ guard ∈ other.guards,Guards guard condition ∨
      ∃ pass ∈ rest,pass.1 = guard ∧ Guardable pass.2 guard condition.comparison) :
      ∀ guard ∈ other.guards,Guards guard condition ∨
        ∃ pass' ∈ pass :: rest,pass'.1 = guard ∧ Guardable pass'.2 guard condition.comparison := by
    intro guard member
    rcases grown guard member with old | ⟨pass',inside,found⟩
    · exact Or.inl old
    · exact Or.inr ⟨pass',List.mem_cons_of_mem _ inside,found⟩
  induction guards generalizing final with
  | nil =>
    cases later
    exact .nil
  | keep part guards ih =>
    cases later with
    | cons here later =>
      refine .cons ?_ (ih later)
      cases here with
      | character c => exact .character c
      | condition param grown => exact .condition param (more grown)
  | @guard condition parts others guardable guards ih =>
    cases later with
    | cons here later =>
      refine .cons ?_ (ih later)
      cases here with
      | condition param grown =>
        refine .condition param ?_
        intro guard member
        have itself : pass.1 = condition.comparison.param := guardable.parameter.symm
        rcases grown guard member with old | ⟨pass',-,-,found⟩
        · rcases List.mem_append.mp old with before | added
          · exact Or.inl before
          · have same : guard = pass.1 := (List.mem_singleton.mp added).trans itself.symm
            rw [same]
            exact Or.inr ⟨pass,List.mem_cons_self,rfl,guardable⟩
        · have same : guard = pass.1 := found.parameter.symm.trans itself.symm
          rw [same]
          exact Or.inr ⟨pass,List.mem_cons_self,rfl,guardable⟩

theorem passes_grown {steps : List Pass} {parts final : List Part} (run : PassRun PassGuards steps parts final) :
    List.Forall₂ (Grown steps) parts final := by
  induction run with
  | nil parts => exact List.forall₂_same.mpr fun part _ => grown_refl [] part
  | cons first later ih => exact pass_grown first.1 ih

-- A comparison that comes out guarded was so before, or its parameter's name is
-- its own and the comparison is one of those that are sought.
theorem guarded_shape (ordinary : OrdinaryCharacters) {annotations : Annotations} {infos : List ParamInfo}
    {parts final : List Part} (found : PassRun PassFinds (soughtPasses annotations infos) parts final)
    (guards : ForOptional annotations infos Guards final) {param : Int}
    (optional : param ∈ optionalPositions annotations infos) {condition : Condition}
    (member : condition ∈ conditionsOf parts) (against : condition.comparison.param = param) :
    Guards param condition ∨
      ∃ pass ∈ soughtPasses annotations infos,pass.1 = param ∧ Guardable pass.2 param condition.comparison := by
  have grown := passes_grown ((passes_exact ordinary passes_operators).mp found)
  obtain ⟨part,inside,here⟩ := Register.forall₂_mem grown (mem_conditionsOf.mp member)
  cases here with
  | condition same outside =>
    exact outside param (guards param optional _ (mem_conditionsOf.mpr inside) (same.trans against))

end

section Examples
local instance disabledAscii : CaseMap := ascii

def byPrice : Annotations := {Annotations.empty with optionalParams:=["price"]}

def priceParam (position : Int) : ParamInfo := ⟨position,some "price",some "int32",false,none⟩

def optionalPrice : List AnalyzedParam := [⟨"price","int32",true,1,none⟩]

theorem optionalPrice_disables :
    Disables prices byPrice [priceParam 1] optionalPrice (pricedAbove 0) ↔
      ∃ final,PassRun PassFinds (soughtPasses byPrice [priceParam 1]) (pricedAbove 0).parts final ∧
        ForOptional byPrice [priceParam 1] Guards final :=
  optional_null_disables ascii_ordinary prices (by decide) (pricedAbove 0)

def priceBelow : Comparison := ⟨"price".toList,2,"$2".toList,"<",[' '],['<'],[' '],false⟩

-- A lower and an upper bound of one column, both optional.
def pricedBetween : SqlStatement Int (List Int) where
  parts := priceText.map .character ++ .condition ⟨[],priceAbove⟩ :: " AND ".toList.map .character ++
    [.condition ⟨[],priceBelow⟩]
  meaning truths := [3,7].filter fun price => truths.all fun truth => truth price = some true

-- Both bounds are looked up by the name that they no longer have.
theorem pricedBetween_renamed :
    resolveParams byPrice [priceParam 1,priceParam 2] =
        .ok [⟨"price_1","int32",true,1,none⟩,⟨"price_2","int32",true,2,none⟩] ∧
      String.ofList pricedBetween.text = "SELECT id FROM items WHERE price > $1 AND price < $2" ∧
      rewriteOptionalParams "SELECT id FROM items WHERE price > $1 AND price < $2" ["price"]
          [⟨"price_1","int32",true,1,none⟩,⟨"price_2","int32",true,2,none⟩] =
        "SELECT id FROM items WHERE price > $1 AND price < $2" ∧
      pricedBetween.eval prices (fun _ => none) = [] ∧
      ¬Disables prices byPrice [priceParam 1,priceParam 2]
          [⟨"price_1","int32",true,1,none⟩,⟨"price_2","int32",true,2,none⟩] pricedBetween := by
  refine ⟨by decide,by decide,by decide,by decide,?_⟩
  intro disables
  obtain ⟨final,run,-,off⟩ := disables
  have none : passes [⟨"price_1","int32",true,1,none⟩,⟨"price_2","int32",true,2,none⟩] byPrice.optionalParams = [] := by
    decide
  rw [none] at run
  cases run
  have truth := off 1 (by decide) ⟨[],priceAbove⟩ (by decide) rfl (fun _ => .none) rfl 0
  revert truth
  decide

end Examples
end Scythe
