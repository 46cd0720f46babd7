import Scythe.Lib.Effect
import Scythe.Helpers

namespace Scythe
open Effect

-- What the analyzer's functions do to the analyzer they run on. They never see
-- a placeholder's position, only whether it has one, so its bookkeeping stays
-- behind `place`.
inductive AnalyzerOp : Type → Type where
  | typeError (message : String) : AnalyzerOp Unit
  | ctes : AnalyzerOp (AHashMap (List ScopeColumn))
  | insertCte (name : String) (columns : List ScopeColumn) : AnalyzerOp Unit
  | pushPendingNested (fields : List NestedFieldInfo) : AnalyzerOp Nat
  | pendingNested : AnalyzerOp (List PendingNestedStruct)
  | fail (failure : ScytheError) : AnalyzerOp Empty
  | diverge : AnalyzerOp Empty

structure Registration where
  name : Option String
  neutralType : Option String
  nullable : Bool
  sourceRelation : Option String
  deriving DecidableEq,Repr

-- `place` resolves a placeholder's position, then runs the body for what is to
-- be registered under it. `derived` runs its body on a sub-analyzer of its own.
-- `attempt` drops the body's error, but not what the body did before it.
inductive AnalyzerScoped : Type → Type → Type where
  | place (occurrence : Occurrence) : AnalyzerScoped Registration Bool
  | derived : AnalyzerScoped (List AnalyzedColumn) (List AnalyzedColumn)
  | attempt : AnalyzerScoped (List AnalyzedColumn) (Option (List AnalyzedColumn))

def analyzer : Signature := ⟨AnalyzerOp,AnalyzerScoped⟩

abbrev Analysis (α : Type) := Program analyzer α

namespace Analysis

def typeError (message : String) : Analysis Unit := @Program.perform analyzer _ (.typeError message)
def ctes : Analysis (AHashMap (List ScopeColumn)) := @Program.perform analyzer _ .ctes
def insertCte (name : String) (columns : List ScopeColumn) : Analysis Unit :=
  @Program.perform analyzer _ (.insertCte name columns)
def pushPendingNested (fields : List NestedFieldInfo) : Analysis Nat :=
  @Program.perform analyzer _ (.pushPendingNested fields)
def pendingNested : Analysis (List PendingNestedStruct) := @Program.perform analyzer _ .pendingNested
def fail (failure : ScytheError) : Analysis α := @Program.op analyzer _ _ (.fail failure) nofun
def diverge : Analysis α := @Program.op analyzer _ _ .diverge nofun
def place (occurrence : Occurrence) (body : Analysis Registration) : Analysis Bool :=
  @Program.enclose analyzer _ _ (.place occurrence) body
def derived (body : Analysis (List AnalyzedColumn)) : Analysis (List AnalyzedColumn) :=
  @Program.enclose analyzer _ _ .derived body
def attempt (body : Analysis (List AnalyzedColumn)) : Analysis (Option (List AnalyzedColumn)) :=
  @Program.enclose analyzer _ _ .attempt body

def ofExcept : Except ScytheError α → Analysis α
  | .ok value => .pure value
  | .error failure => fail failure

end Analysis

structure Analyzer where
  params : List ParamInfo
  ctes : AHashMap (List ScopeColumn)
  typeErrors : List String
  positionalParamCounter : Int
  pendingNested : List PendingNestedStruct
  nextNestedId : Nat
  resolvedPlaceholders : AList fun _ : Span => Int

def Analyzer.new : Analyzer := ⟨[],∅,[],0,[],0,∅⟩

def namedPlaceholderError (placeholder : String) : String :=
  s!"unsupported placeholder \"{placeholder}\": named placeholders are not supported; " ++
    "use $N (PostgreSQL) or ? (MySQL/SQLite) instead"

-- A `?` keeps the position that its span was given first. The empty span, which
-- only synthetic nodes carry, is never remembered.
def resolvePlaceholderPosition (placeholder : String) (span : Span) (self : Analyzer) : Option Int × Analyzer :=
  match parsePlaceholder placeholder with
  | some pos => (some pos,self)
  | none =>
    if isPositionalPlaceholder placeholder then
      let known := if span = .empty then none else self.resolvedPlaceholders.lookup span
      match known with
      | some pos => (some pos,self)
      | none =>
        let pos := self.positionalParamCounter + 1
        let memo := if span = .empty then self.resolvedPlaceholders else self.resolvedPlaceholders.insert span pos
        (some pos,{self with positionalParamCounter:=pos,resolvedPlaceholders:=memo})
    else (none,{self with typeErrors:=self.typeErrors ++ [namedPlaceholderError placeholder]})

def fillParam (registration : Registration) (existing : ParamInfo) : ParamInfo :=
  {existing with
    name:=existing.name.or registration.name
    neutralType:=existing.neutralType.or registration.neutralType
    sourceRelation:=existing.sourceRelation.or registration.sourceRelation}

-- The first entry at the position takes what it lacks; without one, the
-- position gets its entry.
def registerIn (position : Int) (registration : Registration) : List ParamInfo → List ParamInfo
  | [] => [⟨position,registration.name,registration.neutralType,registration.nullable,registration.sourceRelation⟩]
  | param :: params =>
    if param.position = position then fillParam registration param :: params
    else param :: registerIn position registration params

def registerParam (position : Int) (registration : Registration) (self : Analyzer) : Analyzer :=
  {self with params:=registerIn position registration self.params}

def subAnalyzer (self : Analyzer) : Analyzer :=
  ⟨[],self.ctes,[],self.positionalParamCounter,[],self.nextNestedId,∅⟩

-- What a derived table's analyzer leaves behind goes to its parent, except the
-- CTEs it defined.
def Analyzer.merge (self sub : Analyzer) : Analyzer where
  params := self.params ++ sub.params
  ctes := self.ctes
  typeErrors := self.typeErrors ++ sub.typeErrors
  positionalParamCounter := sub.positionalParamCounter
  pendingNested := self.pendingNested ++ sub.pendingNested
  nextNestedId := sub.nextNestedId
  resolvedPlaceholders := sub.resolvedPlaceholders ∪ self.resolvedPlaceholders

def runOp : AnalyzerOp β → Run Analyzer ScytheError β
  | .typeError message => fun s => some (.ok (),{s with typeErrors:=s.typeErrors ++ [message]})
  | .ctes => fun s => some (.ok s.ctes,s)
  | .insertCte name columns => fun s => some (.ok (),{s with ctes:=s.ctes.insert name columns})
  | .pushPendingNested fields => fun s =>
    some (.ok s.nextNestedId,{s with
      nextNestedId:=s.nextNestedId + 1,pendingNested:=s.pendingNested ++ [⟨s.nextNestedId,fields⟩]})
  | .pendingNested => fun s => some (.ok s.pendingNested,s)
  | .fail failure => fun s => some (.error failure,s)
  | .diverge => fun _ => none

def runScoped : AnalyzerScoped β γ → Run Analyzer ScytheError β → Run Analyzer ScytheError γ
  | .place occurrence,body => fun s =>
    match resolvePlaceholderPosition occurrence.token occurrence.span s with
    | (none,s') => some (.ok false,s')
    | (some position,s') =>
      chain body (fun registration s => some (.ok true,registerParam position registration s)) s'
  | .derived,body => fun s =>
    match body (subAnalyzer s) with
    | none => none
    | some (.error failure,_) => some (.error failure,s)
    | some (.ok columns,sub) => some (.ok columns,s.merge sub)
  | .attempt,body => fun s =>
    match body s with
    | none => none
    | some (.error _,s') => some (.ok none,s')
    | some (.ok columns,s') => some (.ok (some columns),s')

-- The recursive calls of the analyzer's functions. Each function is written
-- over the record; the record of all of them is tied together afterwards.
structure Methods where
  inferExprType : Expr → Scope → Analysis TypeInfo
  collectParamsFromWhere : Expr → Scope → Analysis Unit
  collectParamFromExprWithTypeNullable : Expr → String → String → Bool → Analysis Unit
  collectParamFromAny : Expr → TypeInfo → String → Analysis Unit
  analyzeQuery : Query → Analysis (List AnalyzedColumn)
  analyzeSetExpr : SetExpr → Analysis (List AnalyzedColumn)
  addTableFactorToScope : TableFactor → Scope → Bool → Analysis Scope

def Analyzer.handler : Handler analyzer Analyzer ScytheError := ⟨runOp,runScoped⟩

def Analysis.run (program : Analysis α) : Run Analyzer ScytheError α := Analyzer.handler.run program

theorem analysis_run_bind {program : Analysis α} {next : α → Analysis β}
    (ran : (program >>= next).run before = some (.ok value,after)) :
    ∃ middle between,program.run before = some (.ok middle,between) ∧
      (next middle).run between = some (.ok value,after) := by
  unfold Analysis.run at ran ⊢
  rw [Program.bind_eq,Handler.run_bind] at ran
  exact chain_some ran

end Scythe
