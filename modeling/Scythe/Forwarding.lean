import Scythe.Statements

-- Where the type of an expression is a column's, handed on unchanged.
namespace Scythe
open Effect Text
variable [CaseMap]

-- An expression whose type is that of another one inside it. A row of one
-- expression is written with ROW or without it.
inductive Construct where
  | nested
  | unary
  | row
  | call (func : Function) (others : List Expr)

def forwards : Expr → Option (Construct × Expr)
  | .nested inner => some (.nested,inner)
  | .unaryOp op inner => if op = .not then none else some (.unary,inner)
  | .tuple [only] => some (.row,only)
  | .function func =>
    match functionArm func.callName,getFunctionArgs func with
    | some .firstOrUnknown,first :: others => some (.call func others,first)
    | some .mod,first :: others => some (.call func others,first)
    | some .row,[only] => some (.row,only)
    | _,_ => none
  | _ => none

omit [CaseMap] in
theorem functionArgExprs_smaller {args : List FunctionArg} {e : Expr} (member : e ∈ functionArgExprs args) :
    sizeOf e < sizeOf args := by
  obtain ⟨arg,inside,is⟩ := List.mem_filterMap.mp member
  have smaller := List.sizeOf_lt_of_mem inside
  split at is
  · cases is
    simp only [FunctionArg.unnamed.sizeOf_spec,FunctionArgExpr.expr.sizeOf_spec] at smaller
    omega
  · cases is
    simp only [FunctionArg.named.sizeOf_spec,FunctionArgExpr.expr.sizeOf_spec] at smaller
    omega
  · cases is

omit [CaseMap] in
theorem getFunctionArgs_smaller {func : Function} {e : Expr} (member : e ∈ getFunctionArgs func) :
    sizeOf e < sizeOf func := by
  obtain ⟨name,args,filter,nullTreatment,overWindow,unread⟩ := func
  unfold getFunctionArgs at member
  split at member
  · rename_i list clause others is
    have smaller := functionArgExprs_smaller member
    dsimp only at is
    subst is
    simp only [Function.mk.sizeOf_spec,FunctionArguments.list.sizeOf_spec]
    omega
  · cases member

theorem forwards_smaller {e inner : Expr} {construct : Construct} (is : forwards e = some (construct,inner)) :
    sizeOf inner < sizeOf e := by
  unfold forwards at is
  split at is
  · cases is
    simp only [Expr.nested.sizeOf_spec]
    omega
  · split at is
    · cases is
    · cases is
      simp only [Expr.unaryOp.sizeOf_spec]
      omega
  · cases is
    simp only [Expr.tuple.sizeOf_spec,List.cons.sizeOf_spec]
    omega
  · rename_i func
    have inside : inner ∈ getFunctionArgs func := by
      split at is
      · rename_i args
        cases is
        rw [args]
        exact List.mem_cons_self
      · rename_i args
        cases is
        rw [args]
        exact List.mem_cons_self
      · rename_i args
        cases is
        rw [args]
        exact List.mem_cons_self
      · cases is
    have smaller := getFunctionArgs_smaller inside
    simp only [Expr.function.sizeOf_spec]
    omega
  · cases is

-- The constructs around the expression whose type is handed on, the outermost
-- first, and that expression.
structure Path where
  constructs : List (Expr × Construct)
  innermost : Expr

def path (e : Expr) : Path :=
  match is : forwards e with
  | none => ⟨[],e⟩
  | some (construct,inner) =>
    have := forwards_smaller is
    ⟨(e,construct) :: (path inner).constructs,(path inner).innermost⟩
termination_by sizeOf e

theorem path_stops {e : Expr} (is : forwards e = none) : path e = ⟨[],e⟩ := by
  unfold path
  split
  · rfl
  · rename_i found
    rw [is] at found
    cases found

theorem path_continues {e inner : Expr} {construct : Construct} (is : forwards e = some (construct,inner)) :
    path e = ⟨(e,construct) :: (path inner).constructs,(path inner).innermost⟩ := by
  conv => lhs; unfold path
  split
  · rename_i found
    rw [is] at found
    cases found
  · rename_i found
    rw [is] at found
    cases found
    rfl

-- The source and its column that a name is resolved to.
def findIn (source : ScopeSource) (colName : String) : Option (ScopeSource × ScopeColumn) :=
  (source.columns.find? fun c => c.name = colName).map fun col => (source,col)

def findColumn (colName : String) (qualifier : Option String) (scope : Scope) : Option (ScopeSource × ScopeColumn) :=
  match qualifier with
  | some qual => (scope.sources.filter fun s => s.aliasName = qual ∨ s.tableName = qual).findSome? fun s => findIn s colName
  | none =>
    match scope.sources.filterMap fun s => findIn s colName with
    | [found] => some found
    | _ => none

-- The qualifier, if there is one, and the name that an expression consists of.
def reference : Expr → Option (Option String × String)
  | .identifier ident => some (none,identToLower ident)
  | .compoundIdentifier parts =>
    match parts.reverse with
    | name :: qualifier :: _ => some (some (CaseMap.lowercase qualifier.value),CaseMap.lowercase name.value)
    | _ => none
  | _ => none

def Reads (scope : Scope) (e : Expr) (source : ScopeSource) (column : ScopeColumn) : Prop :=
  ∃ name,reference (path e).innermost = some name ∧ findColumn name.2 name.1 scope = some (source,column)

-- A type that is not a column's.
def TypeInfo.Computed (ti : TypeInfo) : Prop := ti.joinGroup = none ∧ ti.sourceRelation = none

def HandedOn (scope : Scope) (e : Expr) (ti : TypeInfo) : Prop :=
  ti.Computed ∨ ∃ source column,Reads scope e source column ∧ ti = .fromScopeColumn column source

omit [CaseMap] in
theorem computed_new (neutralType : String) (nullable : Bool) : (TypeInfo.new neutralType nullable).Computed := ⟨rfl,rfl⟩

omit [CaseMap] in
theorem columnIn_found (source : ScopeSource) (colName : String) :
    columnIn source colName = (findIn source colName).map fun found => .fromScopeColumn found.2 found.1 := by
  unfold columnIn findIn
  rw [Option.map_map]
  rfl

omit [CaseMap] in
theorem findSome_map (sources : List ScopeSource) (colName : String) :
    sources.findSome? (fun s => columnIn s colName) =
      (sources.findSome? fun s => findIn s colName).map fun found => TypeInfo.fromScopeColumn found.2 found.1 := by
  simp only [columnIn_found]
  induction sources with
  | nil => rfl
  | cons source sources ih =>
    rw [List.findSome?_cons,List.findSome?_cons,ih]
    cases findIn source colName with
    | none => rfl
    | some found => rfl

omit [CaseMap] in
theorem filterMap_map (sources : List ScopeSource) (colName : String) :
    sources.filterMap (fun s => columnIn s colName) =
      (sources.filterMap fun s => findIn s colName).map fun found => TypeInfo.fromScopeColumn found.2 found.1 := by
  simp only [columnIn_found]
  rw [List.map_filterMap]

omit [CaseMap] in
theorem resolveColumnInScope_found (colName : String) (qualifier : Option String) (scope : Scope) :
    (resolveColumnInScope colName qualifier scope).Computed ∨
      ∃ source column,findColumn colName qualifier scope = some (source,column) ∧
        resolveColumnInScope colName qualifier scope = .fromScopeColumn column source := by
  unfold resolveColumnInScope findColumn
  cases qualifier with
  | some qual =>
    dsimp only
    rw [findSome_map]
    cases (scope.sources.filter fun s => s.aliasName = qual ∨ s.tableName = qual).findSome? fun s => findIn s colName with
    | none => exact .inl (computed_new _ _)
    | some found => exact .inr ⟨found.1,found.2,rfl,rfl⟩
  | none =>
    dsimp only
    rw [filterMap_map]
    cases scope.sources.filterMap fun s => findIn s colName with
    | nil => exact .inl (computed_new _ _)
    | cons found others =>
      cases others with
      | nil => exact .inr ⟨found.1,found.2,rfl,rfl⟩
      | cons => exact .inl (computed_new _ _)

theorem handedOn_reference {e : Expr} {name : Option String × String} (stops : forwards e = none)
    (is : reference e = some name) (scope : Scope) : HandedOn scope e (resolveColumnInScope name.2 name.1 scope) := by
  rcases resolveColumnInScope_found name.2 name.1 scope with computed | ⟨source,column,found,same⟩
  · exact .inl computed
  · refine .inr ⟨source,column,⟨name,?_,found⟩,same⟩
    rw [path_stops stops]
    exact is

theorem HandedOn.forward {e inner : Expr} {construct : Construct} (is : forwards e = some (construct,inner))
    (handed : HandedOn scope inner ti) : HandedOn scope e ti := by
  rcases handed with computed | ⟨source,column,⟨name,names,found⟩,same⟩
  · exact .inl computed
  · refine .inr ⟨source,column,⟨name,?_,found⟩,same⟩
    rw [path_continues is]
    exact names

-- A list of types, each of which is handed on by its expression, is only ever
-- read by the functions that follow; what they return is computed.
def Computes (program : Analysis TypeInfo) : Prop := program.Returns TypeInfo.Computed

def MaybeComputes (program : Analysis (Option TypeInfo)) : Prop :=
  program.Returns fun result => ∀ ti,result = some ti → ti.Computed

omit [CaseMap] in
theorem computes_new (neutralType : String) (nullable : Bool) :
    Computes (pure (TypeInfo.new neutralType nullable)) := computed_new neutralType nullable

omit [CaseMap] in
theorem computes_after {program : Analysis α} {next : α → Analysis TypeInfo} (last : ∀ value,Computes (next value)) :
    Computes (program >>= next) := Program.returns_after last

omit [CaseMap] in
theorem maybeComputes_after {program : Analysis α} {next : α → Analysis (Option TypeInfo)}
    (last : ∀ value,MaybeComputes (next value)) : MaybeComputes (program >>= next) := Program.returns_after last

omit [CaseMap] in
theorem maybeComputes_none : MaybeComputes (pure none) := by
  intro ti is
  cases is

omit [CaseMap] in
theorem maybeComputes_some (computed : TypeInfo.Computed ti) : MaybeComputes (pure (some ti)) := by
  intro found is
  cases is
  exact computed

omit [CaseMap] in
theorem computes_getD {program : Analysis (Option TypeInfo)} (maybe : MaybeComputes program)
    (otherwise : TypeInfo.Computed ti) : Computes (do return (← program).getD ti) := by
  apply Program.Returns.bind maybe
  intro result computed
  cases result with
  | none => exact otherwise
  | some found => exact computed found rfl

variable (catalog : Catalog) (self : Methods)

theorem inferInlineObjectAggregateType_computes (func : Function) (scope : Scope) :
    MaybeComputes (inferInlineObjectAggregateType self func scope) := by
  unfold inferInlineObjectAggregateType
  apply maybeComputes_after
  intro fields
  split
  · exact maybeComputes_none
  · split
    · exact maybeComputes_none
    · split
      · exact maybeComputes_after fun _ => maybeComputes_none
      · exact maybeComputes_after fun id => maybeComputes_some (computed_new _ _)

theorem inferRelationAggregateType_computes (func : Function) (scope : Scope) (wrap : WrapArray) (aliasName : String) :
    MaybeComputes (inferRelationAggregateType func scope wrap aliasName) := by
  unfold inferRelationAggregateType
  dsimp only
  split
  · exact maybeComputes_none
  · split
    · exact maybeComputes_after fun _ => maybeComputes_none
    · exact maybeComputes_after fun id => maybeComputes_some (computed_new _ _)

theorem inferNestedAggregateType_computes (func : Function) (scope : Scope) (wrap : WrapArray) :
    MaybeComputes (inferNestedAggregateType catalog self func scope wrap) := by
  unfold inferNestedAggregateType
  split
  · split
    · exact inferInlineObjectAggregateType_computes self _ scope
    · exact inferRelationAggregateType_computes func scope _ _
    · exact maybeComputes_none
  · exact maybeComputes_none

theorem inferCatalogFunctionType_computes (func : Function) (scope : Scope) :
    MaybeComputes (inferCatalogFunctionType catalog self func scope) := by
  unfold inferCatalogFunctionType
  split
  · apply maybeComputes_after
    intro inferred
    split
    · exact maybeComputes_after fun _ => maybeComputes_some ⟨rfl,rfl⟩
    · exact maybeComputes_some (computed_new _ _)
    · apply maybeComputes_after
      intro _
      split
      · exact maybeComputes_some (computed_new _ _)
      · exact maybeComputes_some (computed_new _ _)
      · exact maybeComputes_some (computed_new _ _)
  · exact maybeComputes_none

omit [CaseMap] in
theorem inferLagLead_computes (func : Function) (scope : Scope) (ti : TypeInfo) :
    Computes (inferLagLead self func scope ti) := by
  unfold inferLagLead
  split
  · exact computes_new _ _
  · split
    · exact computes_after fun _ => computes_new _ _
    · exact computes_new _ _

-- The arms of a call that hand the first argument's type on; a row of one does
-- the same with its own.
def FunctionArm.HandsOn : FunctionArm → Prop
  | .firstOrUnknown | .mod | .row => True
  | _ => False

theorem inferArm_computes (func : Function) (scope : Scope) (firstArgTi : Option TypeInfo) (arm : FunctionArm)
    (own : ¬arm.HandsOn) : Computes (inferArm catalog self func scope firstArgTi arm) := by
  cases arm with
  | firstOrUnknown => exact absurd trivial own
  | mod => exact absurd trivial own
  | row => exact absurd trivial own
  | jsonAgg => exact computes_getD (inferNestedAggregateType_computes catalog self func scope .yes) (computed_new _ _)
  | rowToJson => exact computes_getD (inferNestedAggregateType_computes catalog self func scope .no) (computed_new _ _)
  | toJson => exact computes_getD (inferNestedAggregateType_computes catalog self func scope .no) (computed_new _ _)
  | lagLead => exact inferLagLead_computes self func scope _
  | coalesce => exact computes_after fun _ => computes_after fun _ => computes_new _ _
  | greatestLeast => exact computes_after fun _ => computes_new _ _
  | strictInAll => exact computes_after fun _ => computes_new _ _
  | concat =>
    rw [inferArm]
    split
    · exact computes_after fun _ => computes_new _ _
    · exact computes_new _ _
  | dateTrunc =>
    rw [inferArm]
    split
    · exact computes_after fun _ => computes_new _ _
    · exact computes_new _ _
  | jsonbSetLax =>
    rw [inferArm]
    split
    · exact computes_new _ _
    · exact computes_after fun _ => computes_new _ _
  | _ => exact computes_new _ _

theorem getFirstArgType_handsOn {func : Function} {first : Expr} {others : List Expr}
    (args : getFunctionArgs func = first :: others)
    (inner : (self.inferExprType first scope).Returns (HandedOn scope first)) :
    (getFirstArgType self func scope).Returns fun result => ∃ ti,result = some ti ∧ HandedOn scope first ti := by
  unfold getFirstArgType
  rw [args]
  exact inner.bind fun ti handed => ⟨ti,rfl,handed⟩

omit [CaseMap] in
theorem getFirstArgType_none {func : Function} (args : getFunctionArgs func = []) (scope : Scope) :
    getFirstArgType self func scope = pure none := by
  unfold getFirstArgType
  rw [args]

variable {catalog self}

-- A call of one of these arms hands on what its first argument does.
theorem inferFirst_handsOn (all : ∀ e,(self.inferExprType e scope).Returns (HandedOn scope e)) {func : Function}
    {arm : FunctionArm} (is : functionArm func.callName = some arm) (otherwise : TypeInfo)
    (computed : otherwise.Computed) (forwarded : ∀ first others,getFunctionArgs func = first :: others →
      forwards (.function func) = some (.call func others,first))
    (arms : ∀ firstArgTi,inferArm catalog self func scope firstArgTi arm = pure (firstArgTi.getD otherwise)) :
    (inferFunctionType catalog self func scope).Returns (HandedOn scope (.function func)) := by
  unfold inferFunctionType
  rw [is]
  dsimp only
  cases args : getFunctionArgs func with
  | nil =>
    rw [getFirstArgType_none self args]
    dsimp only [Program.bind_eq,Program.pure_eq,Program.bind_pure_left]
    rw [arms]
    exact .inl computed
  | cons first others =>
    apply (getFirstArgType_handsOn self args (all first)).bind
    rintro result ⟨ti,rfl,handed⟩
    rw [arms]
    exact handed.forward (forwarded first others args)

theorem inferRow_handsOn (all : ∀ e,(self.inferExprType e scope).Returns (HandedOn scope e)) {e : Expr}
    {exprs : List Expr} (forwarded : ∀ only,exprs = [only] → forwards e = some (.row,only)) :
    (inferRow self exprs scope).Returns (HandedOn scope e) := by
  unfold inferRow
  split
  · rename_i only
    exact (all only).weaken fun ti handed => handed.forward (forwarded only rfl)
  · exact Program.returns_after fun _ => .inl (computed_new _ _)

theorem inferFunctionType_handsOn (all : ∀ e,(self.inferExprType e scope).Returns (HandedOn scope e))
    (func : Function) :
    (inferFunctionType catalog self func scope).Returns (HandedOn scope (.function func)) := by
  cases is : functionArm func.callName with
  | none =>
    unfold inferFunctionType
    rw [is]
    apply Program.returns_after
    intro firstArgTi
    have computes := computes_getD (inferCatalogFunctionType_computes catalog self func scope)
      (computed_new (unknownFunctionMarker ++ func.callName) (firstArgTi.getD .unknown).nullable)
    exact computes.weaken fun ti computed => .inl computed
  | some arm =>
    by_cases own : arm.HandsOn
    · cases arm with
      | firstOrUnknown =>
        apply inferFirst_handsOn all is .unknown ⟨rfl,rfl⟩
        · intro first others args
          simp only [forwards,is,args]
        · intro firstArgTi
          rfl
      | mod =>
        apply inferFirst_handsOn all is (.new "int32" false) ⟨rfl,rfl⟩
        · intro first others args
          simp only [forwards,is,args]
        · intro firstArgTi
          rfl
      | row =>
        unfold inferFunctionType
        rw [is]
        apply Program.returns_after
        intro firstArgTi
        apply inferRow_handsOn all
        intro only args
        simp only [forwards,is,args]
      | _ => exact absurd own id
    · unfold inferFunctionType
      rw [is]
      apply Program.returns_after
      intro firstArgTi
      have computes := inferArm_computes catalog self func scope firstArgTi arm own
      exact computes.weaken fun ti computed => .inl computed

omit [CaseMap] in
theorem inferValue_computes (e : Expr) (vws : ValueWithSpan) : Computes (inferValue catalog e vws) := by
  unfold inferValue
  split
  · exact computes_new _ _
  · exact computes_new _ _
  · exact computes_new _ _
  · exact computes_new _ _
  · exact ⟨rfl,rfl⟩
  · exact computes_after fun _ => ⟨rfl,rfl⟩
  · exact computes_new _ _
  · exact computes_new _ _
  · exact computes_new _ _
  · exact computes_new _ _

theorem inferCase_computes (operand : Option Expr) (conditions : List CaseWhen) (elseResult : Option Expr)
    (scope : Scope) : Computes (inferCase self operand conditions elseResult scope) := by
  unfold inferCase
  apply computes_after
  intro operandTi
  apply computes_after
  intro branches
  cases elseResult with
  | none => exact computes_new _ _
  | some elseExpr => exact computes_after fun _ => computes_new _ _

theorem inferSubquery_computes (query : Query) : Computes (inferSubquery self query) := by
  unfold inferSubquery
  apply computes_after
  intro result
  split
  · exact computes_new _ _
  · exact computes_new _ _

omit [CaseMap] in
theorem widenTypeInfo_computed (left right : TypeInfo) : (widenTypeInfo left right).Computed := by
  unfold widenTypeInfo
  exact computed_new _ _

omit [CaseMap] in
theorem binaryOpType_computed (op : BinaryOperator) (left right : TypeInfo) : (binaryOpType op left right).Computed := by
  cases op with
  | plus => exact widenTypeInfo_computed left right
  | minus => exact widenTypeInfo_computed left right
  | multiply => exact widenTypeInfo_computed left right
  | divide => exact widenTypeInfo_computed left right
  | modulo => exact widenTypeInfo_computed left right
  | _ => exact computed_new _ _

theorem inferFieldAccess_computed (rootTi : TypeInfo) (accessChain : List AccessExpr) :
    (inferFieldAccess catalog rootTi accessChain).Computed := by
  unfold inferFieldAccess
  split
  · exact computed_new _ _
  · exact computed_new _ _

-- One case for each constructor: those whose type is a new one, and those that
-- `forwards` knows.
theorem inferExprType_handsOn (all : ∀ e,(self.inferExprType e scope).Returns (HandedOn scope e)) (e : Expr) :
    (inferExprType catalog self e scope).Returns (HandedOn scope e) := by
  have own {e : Expr} {program : Analysis TypeInfo} (computes : Computes program) :
      program.Returns (HandedOn scope e) := computes.weaken fun ti computed => .inl computed
  cases e with
  | identifier ident =>
    have name : reference (.identifier ident) = some (none,identToLower ident) := rfl
    exact handedOn_reference rfl name scope
  | compoundIdentifier parts =>
    show HandedOn scope _ (inferCompoundIdentifier parts scope)
    unfold inferCompoundIdentifier
    cases shape : parts.reverse with
    | nil => exact .inl (computed_new _ _)
    | cons name rest =>
      cases rest with
      | nil => exact .inl (computed_new _ _)
      | cons qualifier outer =>
        have names : reference (.compoundIdentifier parts) =
            some (some (CaseMap.lowercase qualifier.value),CaseMap.lowercase name.value) := by
          simp only [reference,shape]
        exact handedOn_reference rfl names scope
  | value vws => exact own (inferValue_computes _ vws)
  | cast kind inner dataType => exact own (computes_after fun _ => computes_after fun _ => computes_new _ _)
  | function func => exact inferFunctionType_handsOn all func
  | binaryOp left op right =>
    exact own (computes_after fun _ => computes_after fun _ => binaryOpType_computed op _ _)
  | unaryOp op inner =>
    cases op with
    | not => exact own (computes_after fun _ => computes_new _ _)
    | minus => exact (all inner).bind fun ti handed => handed.forward rfl
    | plus => exact (all inner).bind fun ti handed => handed.forward rfl
    | other => exact (all inner).bind fun ti handed => handed.forward rfl
  | nested inner => exact (all inner).weaken fun ti handed => handed.forward rfl
  | isNull inner => exact own (computes_new _ _)
  | isNotNull inner => exact own (computes_new _ _)
  | isTruth test inner => exact own (computes_new _ _)
  | inList inner list negated => exact own (computes_after fun _ => computes_after fun _ => computes_new _ _)
  | inSubquery inner subquery negated => exact own (computes_after fun _ => computes_new _ _)
  | between inner negated low high =>
    exact own (computes_after fun _ => computes_after fun _ => computes_after fun _ => computes_after fun _ =>
      computes_after fun _ => computes_new _ _)
  | like inner negated pattern =>
    exact own (computes_after fun _ => computes_after fun _ => computes_after fun _ => computes_new _ _)
  | iLike inner negated pattern =>
    exact own (computes_after fun _ => computes_after fun _ => computes_after fun _ => computes_new _ _)
  | case operand conditions elseResult => exact own (inferCase_computes operand conditions elseResult scope)
  | subquery query => exact own (inferSubquery_computes query)
  | «exists» subquery negated => exact own (computes_new _ _)
  | anyOp left op right =>
    exact own (computes_after fun _ => computes_after fun _ => computes_after fun _ => computes_new _ _)
  | allOp left op right => exact own (computes_after fun _ => computes_after fun _ => computes_new _ _)
  | array elem =>
    cases elem with
    | nil => exact own (computes_new _ _)
    | cons first rest => exact own (computes_after fun _ => computes_new _ _)
  | tuple exprs =>
    apply inferRow_handsOn all
    rintro only rfl
    rfl
  | extract inner => exact own (computes_after fun _ => computes_new _ _)
  | substring inner bounds => exact own (computes_after fun _ => computes_new _ _)
  | trim inner characters => exact own (computes_after fun _ => computes_new _ _)
  | position needle haystack => exact own (computes_after fun _ => computes_after fun _ => computes_new _ _)
  | atTimeZone timestamp timeZone => exact own (computes_after fun _ => computed_new _ _)
  | typedString dataType => exact own (computes_new _ _)
  | interval value => exact own (computes_new _ _)
  | compoundFieldAccess root accessChain => exact own (computes_after fun _ => inferFieldAccess_computed _ _)
  | ceil inner => exact own (computes_after fun _ => computes_new _ _)
  | floor inner => exact own (computes_after fun _ => computes_new _ _)
  | other children => exact own (computes_new _ _)

variable [Printer]

theorem methods_handsOn (catalog : Catalog) (fuel : Nat) (e : Expr) (scope : Scope) :
    ((methods catalog fuel).inferExprType e scope).Returns (HandedOn scope e) := by
  induction fuel generalizing e scope with
  | zero => exact nofun
  | succ fuel ih => exact inferExprType_handsOn (fun e => ih e scope) e

end Scythe
