import Scythe.Lib.Reached
import Scythe.Analyze

-- What an analyzer has once learned stays with it, whatever it analyzes after that and
-- whatever comes of it.
namespace Scythe.Learning
open Effect

-- A parameter that has got what it lacked.
structure FilledIn (param filled : ParamInfo) : Prop where
  position : filled.position = param.position
  nullable : filled.nullable = param.nullable
  name : ∀ name,param.name = some name → filled.name = some name
  neutralType : ∀ neutralType,param.neutralType = some neutralType → filled.neutralType = some neutralType
  sourceRelation : ∀ relation,param.sourceRelation = some relation → filled.sourceRelation = some relation

theorem FilledIn.refl (param : ParamInfo) : FilledIn param param := ⟨rfl,rfl,fun _ => id,fun _ => id,fun _ => id⟩

theorem FilledIn.trans {a b c : ParamInfo} (first : FilledIn a b) (second : FilledIn b c) : FilledIn a c where
  position := second.position.trans first.position
  nullable := second.nullable.trans first.nullable
  name name known := second.name name (first.name name known)
  neutralType neutralType known := second.neutralType neutralType (first.neutralType neutralType known)
  sourceRelation relation known := second.sourceRelation relation (first.sourceRelation relation known)

theorem fillParam_filledIn (registration : Registration) (param : ParamInfo) :
    FilledIn param (fillParam registration param) where
  position := rfl
  nullable := rfl
  name name known := by simp [fillParam,known]
  neutralType neutralType known := by simp [fillParam,known]
  sourceRelation relation known := by simp [fillParam,known]

-- Parameters keep their places, and new ones come behind them.
inductive ParamsGrow : List ParamInfo → List ParamInfo → Prop where
  | new (params : List ParamInfo) : ParamsGrow [] params
  | filled {param other : ParamInfo} {params others : List ParamInfo} (first : FilledIn param other)
      (rest : ParamsGrow params others) : ParamsGrow (param :: params) (other :: others)

theorem ParamsGrow.append (params new : List ParamInfo) : ParamsGrow params (params ++ new) := by
  induction params with
  | nil => exact .new new
  | cons param params ih => exact .filled (.refl param) ih

theorem ParamsGrow.refl (params : List ParamInfo) : ParamsGrow params params := by
  simpa using ParamsGrow.append params []

theorem ParamsGrow.trans {a b c : List ParamInfo} (first : ParamsGrow a b) (second : ParamsGrow b c) : ParamsGrow a c := by
  induction first generalizing c with
  | new params => exact .new c
  | filled param _ ih =>
    cases second with
    | filled other rest => exact .filled (param.trans other) (ih rest)

theorem registerIn_grows (position : Int) (registration : Registration) (params : List ParamInfo) :
    ParamsGrow params (registerIn position registration params) := by
  induction params with
  | nil => exact .new _
  | cons param params ih =>
    unfold registerIn
    split
    · exact .filled (fillParam_filledIn registration param) (.refl params)
    · exact .filled (.refl param) ih

-- Nested structs get numbers one after another.
def NestedGrow (before after : Analyzer) : Prop :=
  ∃ new : List PendingNestedStruct,after.pendingNested = before.pendingNested ++ new ∧
    new.map (·.id) = List.range' before.nextNestedId new.length ∧ after.nextNestedId = before.nextNestedId + new.length

-- A place that has a position keeps one, and a position that is new is one of those
-- counted since.
structure SpansGrow (before after : Int) (memo found : AList fun _ : Span => Int) : Prop where
  counted : before ≤ after
  known : ∀ span ∈ memo,span ∈ found
  position : ∀ span position,found.lookup span = some position →
    memo.lookup span = some position ∨ before < position ∧ position ≤ after

structure Grown (before after : Analyzer) : Prop where
  errors : before.typeErrors <+: after.typeErrors
  params : ParamsGrow before.params after.params
  ctes : ∀ name ∈ before.ctes,name ∈ after.ctes
  nested : NestedGrow before after
  spans : SpansGrow before.positionalParamCounter after.positionalParamCounter before.resolvedPlaceholders
    after.resolvedPlaceholders

theorem NestedGrow.trans {a b c : Analyzer} (first : NestedGrow a b) (second : NestedGrow b c) : NestedGrow a c := by
  obtain ⟨new,table,ids,next⟩ := first
  obtain ⟨later,table',ids',next'⟩ := second
  refine ⟨new ++ later,by rw [table',table,List.append_assoc],?_,by rw [next',next,List.length_append,Nat.add_assoc]⟩
  rw [List.map_append,ids,ids',next,List.length_append,List.range'_append_1]

theorem SpansGrow.trans {a b c : Int} {first second third : AList fun _ : Span => Int} (one : SpansGrow a b first second)
    (two : SpansGrow b c second third) : SpansGrow a c first third where
  counted := one.counted.trans two.counted
  known span known := two.known span (one.known span known)
  position span position found := by
    rcases two.position span position found with old | ⟨above,within⟩
    · rcases one.position span position old with older | ⟨above,within⟩
      · exact .inl older
      · exact .inr ⟨above,within.trans two.counted⟩
    · exact .inr ⟨lt_of_le_of_lt one.counted above,within⟩

theorem Grown.refl (s : Analyzer) : Grown s s where
  errors := List.prefix_refl _
  params := .refl _
  ctes _ known := known
  nested := ⟨[],(List.append_nil _).symm,rfl,rfl⟩
  spans := ⟨le_refl _,fun _ known => known,fun _ _ found => .inl found⟩

theorem Grown.trans {a b c : Analyzer} (first : Grown a b) (second : Grown b c) : Grown a c where
  errors := first.errors.trans second.errors
  params := first.params.trans second.params
  ctes name known := second.ctes name (first.ctes name known)
  nested := first.nested.trans second.nested
  spans := first.spans.trans second.spans

theorem registerParam_grown (position : Int) (registration : Registration) (s : Analyzer) :
    Grown s (registerParam position registration s) :=
  { Grown.refl s with params := registerIn_grows position registration s.params }

-- A position is given out by counting on.
theorem resolvePlaceholderPosition_grown (placeholder : String) (span : Span) (s : Analyzer) :
    Grown s (resolvePlaceholderPosition placeholder span s).2 := by
  unfold resolvePlaceholderPosition
  split
  · exact .refl s
  · split
    · dsimp only
      split
      · exact .refl s
      · rename_i fresh
        refine { Grown.refl s with spans := ?_ }
        by_cases empty : span = .empty
        · rw [if_pos empty]
          exact ⟨by simp,fun _ known => known,fun _ _ found => .inl found⟩
        · rw [if_neg empty]
          refine ⟨by simp,fun other known => (AList.mem_insert _).mpr (.inr known),fun other position found => ?_⟩
          by_cases same : other = span
          · subst same
            rw [AList.lookup_insert,Option.some.injEq] at found
            subst found
            exact .inr ⟨lt_add_one _,le_refl _⟩
          · rw [AList.lookup_insert_ne same] at found
            exact .inl found
    · exact { Grown.refl s with errors := List.prefix_append _ _ }

theorem runOp_grown {operation : AnalyzerOp β} {s s' : Analyzer} {r : Except ScytheError β}
    (ran : runOp operation s = some (r,s')) : Grown s s' := by
  cases operation with
  | typeError message =>
    cases ran
    exact { Grown.refl s with errors := List.prefix_append _ _ }
  | insertCte name columns =>
    cases ran
    exact { Grown.refl s with ctes := fun _ known => (AList.mem_insert _).mpr (.inr known) }
  | pushPendingNested fields =>
    cases ran
    exact { Grown.refl s with nested := ⟨[⟨s.nextNestedId,fields⟩],rfl,rfl,rfl⟩ }
  | ctes | pendingNested | fail =>
    cases ran
    exact .refl s
  | diverge => cases ran

-- What a derived table's analyzer has learned comes on top of what its parent knew.
theorem merge_grown {s sub : Analyzer} (grown : Grown (subAnalyzer s) sub) : Grown s (s.merge sub) where
  errors := List.prefix_append _ _
  params := .append _ _
  ctes _ known := known
  nested := by
    obtain ⟨new,table,ids,next⟩ := grown.nested
    exact ⟨new,by rw [show (s.merge sub).pendingNested = s.pendingNested ++ sub.pendingNested from rfl,table]; rfl,ids,next⟩
  spans := by
    refine ⟨grown.spans.counted,fun span known => AList.mem_union.mpr (.inr known),fun span position found => ?_⟩
    rcases AList.lookup_union_eq_some.mp found with inner | ⟨_,own⟩
    · refine .inr ((grown.spans.position span position inner).resolve_left ?_)
      exact fun absent => nomatch (show none = some position from absent)
    · exact .inl own

theorem grown_maintained : Analyzer.handler.Maintains Grown where
  op _ _ _ _ _ grown ran := grown.trans (runOp_grown ran)
  within operation body bodies before s r s' grown ran := by
    cases operation with
    | place occurrence =>
      have resolving := resolvePlaceholderPosition_grown occurrence.token occurrence.span s
      simp only [Analyzer.handler,runScoped] at ran
      rcases resolved : resolvePlaceholderPosition occurrence.token occurrence.span s with ⟨_ | position,middle⟩
        <;> rw [resolved] at resolving ran
      · cases ran
        exact grown.trans resolving
      · rcases chain_cases ran with ⟨failure,first,-⟩ | ⟨registration,inner,first,last⟩
        · exact bodies _ _ _ _ (grown.trans resolving) first
        · cases last
          exact (bodies _ _ _ _ (grown.trans resolving) first).trans (registerParam_grown position registration inner)
    | derived =>
      simp only [Analyzer.handler,runScoped] at ran
      split at ran
      · cases ran
      · cases ran
        exact grown
      · rename_i columns sub first
        cases ran
        exact grown.trans (merge_grown (bodies _ _ _ _ (.refl (subAnalyzer s)) first))
    | attempt =>
      simp only [Analyzer.handler,runScoped] at ran
      split at ran
      · cases ran
      · rename_i failure after first
        cases ran
        exact bodies _ _ _ _ grown first
      · rename_i columns after first
        cases ran
        exact bodies _ _ _ _ grown first

theorem analysis_grown {program : Analysis α} {before after : Analyzer} {r : Except ScytheError α}
    (ran : program.run before = some (r,after)) : Grown before after :=
  grown_maintained.run program before before r after (.refl before) ran

-- The bodies that run on the analyzer itself, and not on one for a derived table.
def entersItself : ∀ {β γ : Type},AnalyzerScoped β γ → Analyzer → Analyzer → Prop
  | _,_,.place occurrence,s,s' => ∃ position,
    resolvePlaceholderPosition occurrence.token occurrence.span s = (some position,s')
  | _,_,.attempt,s,s' => s' = s
  | _,_,.derived,_,_ => False

abbrev PassesBy (place : Analysis δ) (there : Analyzer) (program : Analysis α) (s : Analyzer) : Prop :=
  ComesBy Analyzer.handler entersItself place there program s

-- Nothing that a body has learned is lost behind it.
theorem body_grown {operation : AnalyzerScoped β γ} {body : Analysis β} {s inside after there : Analyzer}
    {r : Except ScytheError γ} (entered : entersItself operation s inside)
    (bodies : ∀ r after,body.run inside = some (r,after) → Grown there after)
    (ran : Analyzer.handler.within operation (Analyzer.handler.run body) s = some (r,after)) : Grown there after := by
  cases operation with
  | place occurrence =>
    obtain ⟨position,resolved⟩ := entered
    simp only [Analyzer.handler,runScoped,resolved] at ran
    rcases chain_cases ran with ⟨failure,first,-⟩ | ⟨registration,middle,first,last⟩
    · exact bodies _ _ first
    · cases last
      exact (bodies _ _ first).trans (registerParam_grown position registration middle)
  | attempt =>
    cases entered
    simp only [Analyzer.handler,runScoped] at ran
    split at ran
    · cases ran
    · rename_i failure other first
      cases ran
      exact bodies _ _ first
    · rename_i columns other first
      cases ran
      exact bodies _ _ first
  | derived => exact entered.elim

theorem passed_grown {place : Analysis δ} {there s : Analyzer} {program : Analysis α}
    (passes : PassesBy place there program s) :
    ∀ r after,program.run s = some (r,after) → Grown there after := by
  induction passes with
  | here => exact fun _ _ ran => analysis_grown ran
  | op stepped _ ih =>
    intro r after ran
    rcases chain_cases ran with ⟨failure,first,-⟩ | ⟨answer,middle,first,rest⟩
    · cases stepped.symm.trans first
    · cases stepped.symm.trans first
      exact ih r after rest
  | body entered _ ih =>
    intro r after ran
    rcases chain_cases ran with ⟨failure,first,-⟩ | ⟨answer,middle,first,rest⟩
    · exact body_grown entered ih first
    · exact (body_grown entered ih first).trans (analysis_grown rest)
  | after stepped _ ih =>
    intro r after ran
    rcases chain_cases ran with ⟨failure,first,-⟩ | ⟨answer,middle,first,rest⟩
    · cases stepped.symm.trans first
    · cases stepped.symm.trans first
      exact ih r after rest

theorem first_error {there after : Analyzer} {message : String} {others : List String} (grown : Grown there after)
    (noticed : there.typeErrors = message :: others) : ∃ later,after.typeErrors = message :: later := by
  obtain ⟨new,is⟩ := grown.errors
  exact ⟨others ++ new,by rw [← is,noticed,List.cons_append]⟩

-- Whatever is analyzed and whatever comes of it, the analyzer only learns. An error that
-- it has noticed on the way is what the query fails with, unless its statement fails.
structure Learns [Text.CaseMap] [Printer] (catalog : Catalog) (query : ParsedQuery) : Prop where
  grown : ∀ {α : Type} (program : Analysis α) before r after,program.run before = some (r,after) → Grown before after
  passed : ∀ {α δ : Type} (program : Analysis α) (place : Analysis δ) before there r after,
    PassesBy place there program before → program.run before = some (r,after) → Grown there after
  noticed : ∀ {δ : Type} (place : Analysis δ) there message others result,
    PassesBy place there (analyzeStatement catalog query.stmt) .new → there.typeErrors = message :: others →
      analyze catalog query = some result →
        result = .error (.typeMismatch message) ∨ ∃ failure after,
          (analyzeStatement catalog query.stmt).run .new = some (.error failure,after) ∧ result = .error failure

end Scythe.Learning
