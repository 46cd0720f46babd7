import Scythe.Lib.Outcomes
import Scythe.AssembledFile
import Scythe.EnumDefinitions
import Scythe.TypeRendering

-- The columns and the parameters of a query in the words of a backend: the type that
-- its manifest has for them, or for the type that an override puts there, and a name
-- that no other one has.
namespace Scythe.ColumnResolution
open Text Identifiers TypeRendering BracketTerms Outcomes
open AssembledFile (CodegenBackend internalError duplicateAlias firstCollision checkFieldNameCollisions)

-- How the language of the generator prints a text in quotes.
class DebugText where
  quoted : String → String

structure ResolvedColumn where
  name : String
  fieldName : String
  langType : String
  fullType : String
  neutralType : String
  nullable : Bool
  joinGroup : Option String
  nullableBeforeJoin : Bool
  sqlType : String
  deriving DecidableEq,Repr

structure ResolvedParam where
  name : String
  fieldName : String
  langType : String
  fullType : String
  borrowedType : String
  neutralType : String
  nullable : Bool
  deriving DecidableEq,Repr

section
variable [DebugText]

def display : BackendError → String
  | .unknownType neutral => s!"unknown neutral type: {neutral}"
  | .unknownContainer name => s!"unknown container: {name}"
  | .manifestError message => s!"manifest error: {message}"
  | .unrecognizedNullableRendering langType fullType =>
    s!"rendered type {DebugText.quoted fullType} matches neither the base form {DebugText.quoted langType} nor its " ++
      "nullable-wrapped form for this manifest -- the manifest's \"nullable\" container pattern and the type that " ++
        s!"produced {DebugText.quoted fullType} have drifted apart"

end

def copyTypes : List String := ["bool","i16","i32","i64","f32","f64","u64"]

-- What stands between a container's name and its last bracket.
def between? (opening : List Char) (text : List Char) : Option (List Char) :=
  (opening.isPrefixOf? text).bind (['>'].isSuffixOf? ·)

theorem between_iff {opening text inner : List Char} :
    between? opening text = some inner ↔ text = opening ++ inner ++ ['>'] := by
  unfold between?
  rw [Option.bind_eq_some_iff]
  constructor
  · rintro ⟨rest,front,back⟩
    rw [List.append_assoc,← List.isPrefixOf?_eq_some_iff_append_eq.mp front,suffix_iff.mp back]
    rfl
  · rintro rfl
    refine ⟨inner ++ ['>'],?_,suffix_iff.mpr rfl⟩
    rw [List.isPrefixOf?_eq_some_iff_append_eq,List.append_assoc]

theorem between_shorter {opening text inner : List Char} (found : between? opening text = some inner) :
    inner.length < text.length := by
  rw [between_iff.mp found]
  simp only [List.length_append,List.length_cons,List.length_nil]
  omega

def paramTypeToBorrowed (rustType : List Char) : List Char :=
  if String.ofList rustType ∈ copyTypes then rustType
  else if rustType = "String".toList then "&str".toList
  else
    match found : between? "Option<".toList rustType with
    | some inner =>
      have := between_shorter found
      "Option<".toList ++ paramTypeToBorrowed inner ++ ['>']
    | none =>
      match between? "Vec<".toList rustType with
      | some inner => "&[".toList ++ inner ++ [']']
      | none => '&' :: rustType
termination_by rustType.length

variable [CaseMap]

-- The other words that a parameter must not be called, beside those that no name must be.
def paramName (naming : NamingConfig) (reservedBindings : List String) (sqlName : String) : String :=
  let name := identifierName naming sqlName
  if name ∈ reservedBindings then name ++ "_" else name

variable [DebugText] (manifest : BackendManifest) (overrides : List TypeOverride)

def resolveColumn (col : AnalyzedColumn) : Except String ResolvedColumn :=
  let effective := col.effectiveNeutralType overrides
  match resolveTypePair effective.toList manifest col.nullable with
  | .error e => .error (internalError s!"type resolution failed for column '{col.name}': {display e}")
  | .ok (fullType,langType) => .ok
    { name := col.name,fieldName := fieldName manifest.naming col.name,langType := String.ofList langType
      fullType := String.ofList fullType,neutralType := effective,nullable := col.nullable,joinGroup := col.joinGroup
      nullableBeforeJoin := col.nullableBeforeJoin,sqlType := col.sqlType }

def resolveParam (reservedBindings : List String) (sourceTable : String) (param : AnalyzedParam) :
    Except String ResolvedParam :=
  let effective := param.effectiveNeutralType overrides sourceTable
  match resolveTypePair effective.toList manifest param.nullable with
  | .error e => .error (internalError s!"type resolution failed for param '{param.name}': {display e}")
  | .ok (fullType,langType) => .ok
    { name := param.name,fieldName := paramName manifest.naming reservedBindings param.name
      langType := String.ofList langType,fullType := String.ofList fullType
      borrowedType := String.ofList (paramTypeToBorrowed fullType),neutralType := effective,nullable := param.nullable }

-- One after another, and then all of their names.
def resolveAll {α β : Type} (resolve : α → Except String β) (names : β → String × String) (kind : String)
    (naming : NamingConfig) (items : List α) : Except String (List β) := do
  let resolved ← items.mapM resolve
  checkFieldNameCollisions (resolved.map names) kind naming
  pure resolved

def resolveColumns (columns : List AnalyzedColumn) : Except String (List ResolvedColumn) :=
  resolveAll (resolveColumn manifest overrides) (fun col => (col.name,col.fieldName)) "columns" manifest.naming columns

def resolveParams (reservedBindings : List String) (params : List AnalyzedParam) (sourceTable : String) :
    Except String (List ResolvedParam) :=
  resolveAll (resolveParam manifest overrides reservedBindings sourceTable) (fun param => (param.name,param.fieldName))
    "params" manifest.naming params

section Names

omit [CaseMap] [DebugText]

theorem collision_fresh {first : String × String} {rest : List (String × String)}
    (fresh : ∀ item ∈ rest,first.2 ≠ item.2) : firstCollision (first :: rest) = firstCollision rest := by
  have none : rest.find? (fun other => other.2 = first.2) = none := by
    rw [List.find?_eq_none]
    intro item member is
    exact fresh item member (by simpa [eq_comm] using is)
  rw [firstCollision,none]

theorem collision_here {sourceA sourceB name : String} {between after : List (String × String)}
    (apart : ∀ item ∈ between,item.2 ≠ name) :
    firstCollision ((sourceA,name) :: (between ++ (sourceB,name) :: after)) = some (sourceA,sourceB,name) := by
  have found : (between ++ (sourceB,name) :: after).find? (fun other => other.2 = name) = some (sourceB,name) := by
    rw [List.find?_eq_some_iff_append]
    exact ⟨by simp,between,after,rfl,by simpa using apart⟩
  rw [firstCollision,found]

-- The names that collide are the first two that are the same.
theorem firstCollision_some {items : List (String × String)} {sourceA sourceB name : String} :
    firstCollision items = some (sourceA,sourceB,name) ↔ FirstShared Prod.snd items (sourceA,name) (sourceB,name) := by
  constructor
  · intro is
    induction items with
    | nil => cases is
    | cons first rest ih =>
      cases found : rest.find? fun other => other.2 = first.2 with
      | some other =>
        rw [firstCollision,found] at is
        obtain ⟨same,between,after,rfl,apart⟩ := List.find?_eq_some_iff_append.mp found
        cases is
        have same : (other.1,first.2) = other := by simpa [Prod.ext_iff,eq_comm] using same
        exact ⟨[],between,after,by rw [same]; rfl,rfl,by simpa using apart,.nil,by simp⟩
      | none =>
        have fresh : ∀ item ∈ rest,first.2 ≠ item.2 := by
          intro item member is
          exact List.find?_eq_none.mp found item member (by simp [is])
        rw [collision_fresh fresh] at is
        exact (ih is).tail fresh
  · rintro ⟨before,between,after,rfl,-,apart,pairwise,earlier⟩
    induction before with
    | nil => exact collision_here apart
    | cons first before ih =>
      obtain ⟨apart',pairwise⟩ := List.pairwise_cons.mp pairwise
      rw [List.cons_append,collision_fresh]
      · exact ih pairwise fun c member => earlier c (List.mem_cons_of_mem _ member)
      · intro item member
        rcases List.mem_append.mp member with old | later
        · exact apart' item old
        · exact earlier first List.mem_cons_self item later

-- What is said of two names that are the same.
def collided (kind : String) (naming : NamingConfig) (a b : String × String) : String :=
  let alternative := if naming.fieldCase = "snake_case" then "" else ", or set field_case = \"snake_case\""
  duplicateAlias
    (s!"{kind} '{a.1}' and '{b.1}' both resolve to field name '{a.2}' under field_case = \"{naming.fieldCase}\" -- " ++
      s!"alias one of them in SQL{alternative}")

theorem collisions_checked {message : String → String → String → String} {items : List (String × String)} :
    AssembledFile.checkCollisions message items = .ok () ↔ (items.map Prod.snd).Nodup := by
  rw [← EnumDefinitions.firstCollision_none]
  unfold AssembledFile.checkCollisions
  cases firstCollision items with
  | none => simp
  | some found => simp

theorem names_checked {items : List (String × String)} {kind : String} {naming : NamingConfig} :
    checkFieldNameCollisions items kind naming = .ok () ↔ (items.map Prod.snd).Nodup := collisions_checked

theorem names_refused {items : List (String × String)} {kind : String} {naming : NamingConfig} {e : String} :
    checkFieldNameCollisions items kind naming = .error e ↔
      ∃ a b,FirstShared Prod.snd items a b ∧ e = collided kind naming a b := by
  unfold checkFieldNameCollisions AssembledFile.checkCollisions
  constructor
  · intro refused
    cases found : firstCollision items with
    | none => rw [found] at refused; cases refused
    | some pair =>
      obtain ⟨sourceA,sourceB,name⟩ := pair
      rw [found] at refused
      cases refused
      exact ⟨_,_,firstCollision_some.mp found,rfl⟩
  · rintro ⟨⟨sourceA,name⟩,⟨sourceB,other⟩,shared,rfl⟩
    obtain ⟨_,_,_,-,same,-⟩ := id shared
    cases same
    rw [firstCollision_some.mpr shared]
    rfl

end Names

section All

omit [CaseMap] [DebugText]

variable {α β : Type} {resolve : α → Except String β} {names : β → String × String} {kind : String} {naming : NamingConfig}

theorem resolveAll_ok {items : List α} {resolved : List β} : resolveAll resolve names kind naming items = .ok resolved ↔
    Each resolve items resolved ∧ ((resolved.map names).map Prod.snd).Nodup := by
  rw [← mapM_ok,← @names_checked _ kind naming]
  unfold resolveAll
  cases items.mapM resolve with
  | error e => simp [bind,Except.bind]
  | ok found =>
    simp only [bind,Except.bind]
    cases checked : checkFieldNameCollisions (found.map names) kind naming with
    | error e =>
      simp only [reduceCtorEq,Except.ok.injEq,false_iff,not_and]
      rintro rfl
      simp [checked]
    | ok _ =>
      simp only [pure,Except.pure,Except.ok.injEq]
      constructor
      · rintro rfl
        exact ⟨rfl,checked⟩
      · exact And.left

theorem resolveAll_refused {items : List α} {e : String} : resolveAll resolve names kind naming items = .error e ↔
    (∃ before a after,items = before ++ a :: after ∧ (∃ bs,Each resolve before bs) ∧ resolve a = .error e) ∨
      ∃ resolved a b,Each resolve items resolved ∧ FirstShared (Prod.snd ∘ names) resolved a b ∧
        e = collided kind naming (names a) (names b) := by
  rw [← mapM_refused]
  simp only [← mapM_ok]
  unfold resolveAll
  cases items.mapM resolve with
  | error other => simp [bind,Except.bind]
  | ok found =>
    simp only [bind,Except.bind,reduceCtorEq,Except.ok.injEq,false_or]
    cases checked : checkFieldNameCollisions (found.map names) kind naming with
    | error other =>
      constructor
      · intro is
        cases is
        obtain ⟨a,b,shared,rfl⟩ := names_refused.mp checked
        obtain ⟨c,d,among,rfl,rfl⟩ := firstShared_map.mp shared
        exact ⟨found,c,d,rfl,among,rfl⟩
      · rintro ⟨_,c,d,rfl,shared,rfl⟩
        have same := checked.symm.trans (names_refused.mpr ⟨_,_,firstShared_map.mpr ⟨c,d,shared,rfl,rfl⟩,rfl⟩)
        exact congrArg Except.error (Except.error.inj same)
    | ok _ =>
      refine iff_of_false (fun is => by cases is) ?_
      rintro ⟨_,a,b,rfl,shared,-⟩
      have nodup := names_checked.mp checked
      rw [List.map_map] at nodup
      exact shared.repeated nodup

-- Two lists that are accepted are accepted as one when no name of one is in the other.
theorem resolveAll_append {items others : List α} {resolved : List β} :
    resolveAll resolve names kind naming (items ++ others) = .ok resolved ↔
      ∃ first second,resolved = first ++ second ∧ resolveAll resolve names kind naming items = .ok first ∧
        resolveAll resolve names kind naming others = .ok second ∧
          ∀ a ∈ first,∀ b ∈ second,(names a).2 ≠ (names b).2 := by
  simp only [resolveAll_ok,each_append]
  constructor
  · rintro ⟨⟨first,second,rfl,each,each'⟩,nodup⟩
    simp only [List.map_append,List.nodup_append] at nodup
    refine ⟨first,second,rfl,⟨each,nodup.1⟩,⟨each',nodup.2.1⟩,fun a inside b among => ?_⟩
    exact nodup.2.2 _ (List.mem_map_of_mem (List.mem_map_of_mem inside)) _
      (List.mem_map_of_mem (List.mem_map_of_mem among))
  · rintro ⟨first,second,rfl,⟨each,nodup⟩,⟨each',nodup'⟩,apart⟩
    refine ⟨⟨first,second,rfl,each,each'⟩,?_⟩
    simp only [List.map_append,List.nodup_append]
    refine ⟨nodup,nodup',?_⟩
    simp only [List.mem_map]
    rintro _ ⟨_,⟨a,inside,rfl⟩,rfl⟩ _ ⟨_,⟨b,among,rfl⟩,rfl⟩
    exact apart a inside b among

theorem resolveAll_perm {items others : List α} {resolved : List β} (perm : items.Perm others)
    (done : resolveAll resolve names kind naming items = .ok resolved) :
    ∃ reordered,resolved.Perm reordered ∧ resolveAll resolve names kind naming others = .ok reordered := by
  obtain ⟨each,nodup⟩ := resolveAll_ok.mp done
  obtain ⟨reordered,perm',each'⟩ := each_perm perm each
  exact ⟨reordered,perm',resolveAll_ok.mpr ⟨each',((perm'.map _).map _).nodup_iff.mp nodup⟩⟩

end All

-- The words for a type, with its nullable container where it has one.
structure Typed (manifest : BackendManifest) (neutral : String) (nullable : Bool) (langType fullType : String) : Prop where
  base : ∃ term,BracketTerms.Spells angles neutral.toList term ∧
    TypeRendering.render manifest .native term = some langType.toList
  full : nullable = false ∧ fullType = langType ∨ nullable = true ∧
    ∃ pattern,manifest.types.containers.lookup "nullable" = some pattern ∧ fullType.toList = inPattern pattern langType.toList

-- Why there are none.
inductive Untyped (manifest : BackendManifest) (neutral : String) (nullable : Bool) : BackendError → Prop where
  | base {e : BackendError} (defect : Defect manifest .native neutral.toList e) : Untyped manifest neutral nullable e
  | container {langType : List Char}
      (base : ∃ term,BracketTerms.Spells angles neutral.toList term ∧
        TypeRendering.render manifest .native term = some langType)
      (is : nullable = true) (absent : manifest.types.containers.lookup "nullable" = none) :
      Untyped manifest neutral nullable (.unknownContainer "nullable")

variable {manifest overrides}

omit [DebugText] in
theorem typed_iff {neutral fullType langType : String} {nullable : Bool} :
    resolveTypePair neutral.toList manifest nullable = .ok (fullType.toList,langType.toList) ↔
      Typed manifest neutral nullable langType fullType := by
  rw [resolveTypePair_iff,resolveBaseType,resolve_iff,String.toList_inj]
  exact ⟨fun both => ⟨both.1,both.2⟩,fun typed => ⟨typed.base,typed.full⟩⟩

omit [DebugText] in
theorem untyped_iff {neutral : String} {nullable : Bool} {e : BackendError} :
    resolveTypePair neutral.toList manifest nullable = .error e ↔ Untyped manifest neutral nullable e := by
  have same : resolveTypePair neutral.toList manifest nullable = .error e ↔
      resolveTypeAt neutral.toList manifest nullable .native = .error e := by
    unfold resolveTypePair resolveTypeAt resolveBaseType wrapNullable
    cases resolveBaseTypeAt neutral.toList manifest .native with
    | error other => simp [bind,Except.bind]
    | ok base =>
      cases nullable with
      | false => simp [bind,Except.bind,pure,Except.pure]
      | true => cases wrapped : wrapNullableAt base manifest .native <;> simp [bind,Except.bind,pure,Except.pure,wrapped]
  rw [same,resolveTypeAt_refused,refused_iff]
  constructor
  · rintro (defect | ⟨is,⟨base,resolved⟩,absent,rfl⟩)
    · exact .base defect
    · exact .container ((resolve_iff _ _).mp resolved) is absent
  · rintro (defect | ⟨base,is,absent⟩)
    · exact .inl defect
    · exact .inr ⟨is,⟨_,(resolve_iff _ _).mpr base⟩,absent,rfl⟩

-- What a column is resolved to.
structure ColumnOf (manifest : BackendManifest) (overrides : List TypeOverride) (col : AnalyzedColumn)
    (resolved : ResolvedColumn) : Prop where
  name : resolved.name = col.name
  field : resolved.fieldName = fieldName manifest.naming col.name
  neutral : resolved.neutralType = col.effectiveNeutralType overrides
  typed : Typed manifest resolved.neutralType col.nullable resolved.langType resolved.fullType
  kept : resolved.nullable = col.nullable ∧ resolved.joinGroup = col.joinGroup ∧
    resolved.nullableBeforeJoin = col.nullableBeforeJoin ∧ resolved.sqlType = col.sqlType

structure ParamOf (manifest : BackendManifest) (overrides : List TypeOverride) (reservedBindings : List String)
    (sourceTable : String) (param : AnalyzedParam) (resolved : ResolvedParam) : Prop where
  name : resolved.name = param.name
  field : resolved.fieldName = paramName manifest.naming reservedBindings param.name
  neutral : resolved.neutralType = param.effectiveNeutralType overrides sourceTable
  typed : Typed manifest resolved.neutralType param.nullable resolved.langType resolved.fullType
  kept : resolved.nullable = param.nullable
  borrowed : resolved.borrowedType.toList = paramTypeToBorrowed resolved.fullType.toList

theorem resolveColumn_ok {col : AnalyzedColumn} {resolved : ResolvedColumn} :
    resolveColumn manifest overrides col = .ok resolved ↔ ColumnOf manifest overrides col resolved := by
  unfold resolveColumn
  constructor
  · intro done
    dsimp only at done
    split at done
    · cases done
    · rename_i fullType langType pair
      cases done
      refine ⟨rfl,rfl,rfl,typed_iff.mp ?_,rfl,rfl,rfl,rfl⟩
      simpa only [String.toList_ofList] using pair
  · rintro ⟨name,field,neutral,typed,kept⟩
    rw [neutral] at typed
    simp only [typed_iff.mpr typed,String.ofList_toList]
    rw [← name,← neutral,← kept.1,← kept.2.1,← kept.2.2.1,← kept.2.2.2]
    rw [← name] at field
    rw [← field]

theorem resolveColumn_refused {col : AnalyzedColumn} {message : String} :
    resolveColumn manifest overrides col = .error message ↔
      ∃ e,Untyped manifest (col.effectiveNeutralType overrides) col.nullable e ∧
        message = internalError s!"type resolution failed for column '{col.name}': {display e}" := by
  simp only [← untyped_iff]
  unfold resolveColumn
  cases pair : resolveTypePair (col.effectiveNeutralType overrides).toList manifest col.nullable with
  | error e => simp [pair,eq_comm]
  | ok pair => simp [pair]

theorem resolveParam_ok {reservedBindings : List String} {sourceTable : String} {param : AnalyzedParam}
    {resolved : ResolvedParam} :
    resolveParam manifest overrides reservedBindings sourceTable param = .ok resolved ↔
      ParamOf manifest overrides reservedBindings sourceTable param resolved := by
  unfold resolveParam
  constructor
  · intro done
    dsimp only at done
    split at done
    · cases done
    · rename_i fullType langType pair
      cases done
      refine ⟨rfl,rfl,rfl,typed_iff.mp ?_,rfl,?_⟩
      · simpa only [String.toList_ofList] using pair
      · simp only [String.toList_ofList]
  · rintro ⟨name,field,neutral,typed,kept,borrowed⟩
    rw [neutral] at typed
    simp only [typed_iff.mpr typed,← borrowed,String.ofList_toList]
    rw [← name,← neutral,← kept]
    rw [← name] at field
    rw [← field]

theorem resolveParam_refused {reservedBindings : List String} {sourceTable : String} {param : AnalyzedParam}
    {message : String} :
    resolveParam manifest overrides reservedBindings sourceTable param = .error message ↔
      ∃ e,Untyped manifest (param.effectiveNeutralType overrides sourceTable) param.nullable e ∧
        message = internalError s!"type resolution failed for param '{param.name}': {display e}" := by
  simp only [← untyped_iff]
  unfold resolveParam
  cases pair : resolveTypePair (param.effectiveNeutralType overrides sourceTable).toList manifest param.nullable with
  | error e => simp [pair,eq_comm]
  | ok pair => simp [pair]

omit [CaseMap] [DebugText] in
theorem borrowed_option (inner : List Char) : paramTypeToBorrowed ("Option<".toList ++ inner ++ ['>']) =
    "Option<".toList ++ paramTypeToBorrowed inner ++ ['>'] := by
  rw [paramTypeToBorrowed,if_neg,if_neg]
  · have found : between? "Option<".toList ("Option<".toList ++ inner ++ ['>']) = some inner := between_iff.mpr rfl
    split
    · rename_i other is
      cases found.symm.trans is
      rfl
    · rename_i absent
      cases found.symm.trans absent
  · intro is
    exact absurd (congrArg List.head? is) (by simp)
  · intro member
    have starts : ∀ name ∈ copyTypes,name.toList.head? ≠ some 'O' := by decide
    exact starts _ member (by simp)

omit [CaseMap] [DebugText] in
theorem option_pattern (langType : List Char) :
    inPattern "Option<\x7bT\x7d>" langType = "Option<".toList ++ langType ++ ['>'] := by
  have parts : Templates.cuts hole "Option<\x7bT\x7d>".toList = ("Option<".toList.map .plain) ++ [.site (),.plain '>'] := by
    decide
  rw [inPattern_filled,parts]
  simp

-- What a query's columns and parameters are resolved to, and what they are refused for:
-- the first that has no type, or else the first two of one name.
structure ResolvesRows [DebugText] (manifest : BackendManifest) (overrides : List TypeOverride) : Prop where
  columns : ∀ columns resolved,resolveColumns manifest overrides columns = .ok resolved ↔
    List.Forall₂ (ColumnOf manifest overrides) columns resolved ∧ (resolved.map (·.fieldName)).Nodup
  columns_refused : ∀ columns message,resolveColumns manifest overrides columns = .error message ↔
    (∃ before col after e,columns = before ++ col :: after ∧ (∃ rs,List.Forall₂ (ColumnOf manifest overrides) before rs) ∧
      Untyped manifest (col.effectiveNeutralType overrides) col.nullable e ∧
        message = internalError s!"type resolution failed for column '{col.name}': {display e}") ∨
    ∃ resolved a b,List.Forall₂ (ColumnOf manifest overrides) columns resolved ∧
      FirstShared ResolvedColumn.fieldName resolved a b ∧
        message = collided "columns" manifest.naming (a.name,a.fieldName) (b.name,b.fieldName)
  columns_joined : ∀ columns others resolved,resolveColumns manifest overrides (columns ++ others) = .ok resolved ↔
    ∃ first second,resolved = first ++ second ∧ resolveColumns manifest overrides columns = .ok first ∧
      resolveColumns manifest overrides others = .ok second ∧ ∀ a ∈ first,∀ b ∈ second,a.fieldName ≠ b.fieldName
  columns_reordered : ∀ columns others resolved,columns.Perm others →
    resolveColumns manifest overrides columns = .ok resolved →
      ∃ reordered,resolved.Perm reordered ∧ resolveColumns manifest overrides others = .ok reordered
  params : ∀ reserved params sourceTable resolved,resolveParams manifest overrides reserved params sourceTable = .ok resolved ↔
    List.Forall₂ (ParamOf manifest overrides reserved sourceTable) params resolved ∧ (resolved.map (·.fieldName)).Nodup
  params_refused : ∀ reserved params sourceTable message,
    resolveParams manifest overrides reserved params sourceTable = .error message ↔
      (∃ before param after e,params = before ++ param :: after ∧
        (∃ rs,List.Forall₂ (ParamOf manifest overrides reserved sourceTable) before rs) ∧
        Untyped manifest (param.effectiveNeutralType overrides sourceTable) param.nullable e ∧
          message = internalError s!"type resolution failed for param '{param.name}': {display e}") ∨
      ∃ resolved a b,List.Forall₂ (ParamOf manifest overrides reserved sourceTable) params resolved ∧
        FirstShared ResolvedParam.fieldName resolved a b ∧
          message = collided "params" manifest.naming (a.name,a.fieldName) (b.name,b.fieldName)
  borrowed : manifest.types.containers.lookup "nullable" = some "Option<\x7bT\x7d>" →
    ∀ reserved sourceTable param resolved,ParamOf manifest overrides reserved sourceTable param resolved →
      resolved.borrowedType.toList = if param.nullable
        then "Option<".toList ++ paramTypeToBorrowed resolved.langType.toList ++ ['>']
        else paramTypeToBorrowed resolved.langType.toList

theorem rows_resolved (manifest : BackendManifest) (overrides : List TypeOverride) : ResolvesRows manifest overrides where
  columns columns resolved := by
    unfold resolveColumns
    rw [resolveAll_ok]
    simp only [Each,resolveColumn_ok,List.map_map]
    rfl
  columns_refused columns message := by
    unfold resolveColumns
    rw [resolveAll_refused]
    simp only [Each,resolveColumn_ok,resolveColumn_refused]
    refine or_congr ?_ Iff.rfl
    constructor
    · rintro ⟨before,a,after,is,earlier,e,untyped,told⟩
      exact ⟨before,a,after,e,is,earlier,untyped,told⟩
    · rintro ⟨before,a,after,e,is,earlier,untyped,told⟩
      exact ⟨before,a,after,is,earlier,e,untyped,told⟩
  columns_joined columns others resolved := resolveAll_append
  columns_reordered columns others resolved perm done := resolveAll_perm perm done
  params reserved params sourceTable resolved := by
    unfold resolveParams
    rw [resolveAll_ok]
    simp only [Each,resolveParam_ok,List.map_map]
    rfl
  params_refused reserved params sourceTable message := by
    unfold resolveParams
    rw [resolveAll_refused]
    simp only [Each,resolveParam_ok,resolveParam_refused]
    refine or_congr ?_ Iff.rfl
    constructor
    · rintro ⟨before,a,after,is,earlier,e,untyped,told⟩
      exact ⟨before,a,after,e,is,earlier,untyped,told⟩
    · rintro ⟨before,a,after,e,is,earlier,untyped,told⟩
      exact ⟨before,a,after,is,earlier,e,untyped,told⟩
  borrowed is reserved sourceTable param resolved made := by
    rw [made.borrowed]
    rcases made.typed.full with ⟨plain,same⟩ | ⟨nullable,pattern,also,full⟩
    · rw [plain,same]
      rfl
    · cases is.symm.trans also
      rw [nullable,full,option_pattern,borrowed_option]
      rfl

end Scythe.ColumnResolution

-- The code of a query whose backend takes its types and names from its manifest: what
-- the rows and parameters need for it to be generated, and that this is enough.
namespace Scythe.ColumnResolution
open Text Identifiers TypeRendering Outcomes AssembledFile

section
variable [CaseMap] [DebugText] (manifest : BackendManifest) (reserved : List String)
  (backend : CodegenBackend ResolvedColumn ResolvedParam) (overrides : List TypeOverride) (analyzed : AnalyzedQuery)

-- A backend with this manifest.
def resolving : CodegenBackend ResolvedColumn ResolvedParam :=
  { backend with
    naming := manifest.naming
    language := manifest.backend.language
    jsonArray := (manifest.types.scalars.lookup "json_array").isSome
    columnName := ResolvedColumn.name
    columnFieldName := ResolvedColumn.fieldName
    resolveColumns := fun columns overrides => resolveColumns manifest overrides columns
    resolveParams := fun params overrides sourceTable => resolveParams manifest overrides reserved params sourceTable }

def enumSources : List String :=
  firstOfEach id [] (analyzed.columns.filterMap (fun col => enumRef col.neutralType) ++
    analyzed.params.filterMap (fun param => enumRef param.neutralType) ++
      nestedEnumRefs (resolving manifest reserved backend) analyzed)

def enumValues (sqlName : String) : List String :=
  ((analyzed.enums.find? fun info => info.sqlName = sqlName).getD ⟨sqlName,[]⟩).values

-- Every column has a type, and no two the same name.
structure Row (manifest : BackendManifest) (overrides : List TypeOverride) (columns : List AnalyzedColumn) : Prop where
  typed : ∀ col ∈ columns,∃ langType fullType,
    Typed manifest (col.effectiveNeutralType overrides) col.nullable langType fullType
  apart : (columns.map fun col => fieldName manifest.naming col.name).Nodup

structure Arguments (manifest : BackendManifest) (reserved : List String) (overrides : List TypeOverride)
    (params : List AnalyzedParam) (sourceTable : String) : Prop where
  typed : ∀ param ∈ params,∃ langType fullType,
    Typed manifest (param.effectiveNeutralType overrides sourceTable) param.nullable langType fullType
  apart : (params.map fun param => paramName manifest.naming reserved param.name).Nodup

structure Generable : Prop where
  nested : ∀ info ∈ analyzed.nestedStructs,∃ code,backend.generateNestedStructDef info = .ok code
  row : Row manifest overrides (degradeColumns (resolving manifest reserved backend) analyzed analyzed.columns)
  arguments : Arguments manifest reserved overrides analyzed.params (analyzed.sourceTable.getD "")
  types : ((enumSources manifest reserved backend analyzed).map (enumTypeName manifest.naming) ++
    (declaredStructName (resolving manifest reserved backend) analyzed).toList).Nodup
  variants : ∀ sqlName ∈ enumSources manifest reserved backend analyzed,
    ((enumValues analyzed sqlName).map (enumVariantName manifest.naming)).Nodup
  grouped : analyzed.command = .grouped → ∃ groupBy,analyzed.groupBy = some groupBy ∧
    Row manifest overrides (degradeColumns (resolving manifest reserved backend) analyzed groupBy.parentColumns) ∧
    Row manifest overrides (degradeColumns (resolving manifest reserved backend) analyzed groupBy.childColumns) ∧
      ∀ col ∈ degradeColumns (resolving manifest reserved backend) analyzed groupBy.parentColumns,
        fieldName manifest.naming col.name ≠ fieldName manifest.naming groupedChildrenField

-- A backend that has a text for everything.
structure Renders (backend : CodegenBackend ResolvedColumn ResolvedParam) : Prop where
  rowStruct : ∀ name columns,∃ code,backend.generateRowStruct name columns = .ok code
  modelStruct : ∀ name columns,∃ code,backend.generateModelStruct name columns = .ok code
  queryFn : ∀ analyzed name columns params,∃ code,backend.generateQueryFn analyzed name columns params = .ok code
  groupedStructs : ∀ parent child columns others key,∃ code,
    backend.generateGroupedStructs parent child columns others key = .ok code
  groupedQueryFn : ∀ given,∃ code,backend.generateGroupedQueryFn given = .ok code
  enumDef : ∀ info,∃ code,backend.generateEnumDef info = .ok code
  enumDefForNested : ∀ info,∃ code,backend.generateEnumDefForNested info = .ok code
  compositeDef : ∀ comp,∃ code,backend.generateCompositeDef comp = .ok code
  compositeDefForNested : ∀ comp,∃ code,backend.generateCompositeDefForNested comp = .ok code

end

section
variable [CaseMap] [DebugText] {manifest : BackendManifest} {reserved : List String}
  {backend : CodegenBackend ResolvedColumn ResolvedParam} {overrides : List TypeOverride} {analyzed : AnalyzedQuery}

omit [DebugText] in
theorem columnOf_names {columns : List AnalyzedColumn} {resolved : List ResolvedColumn}
    (each : List.Forall₂ (ColumnOf manifest overrides) columns resolved) :
    resolved.map (·.fieldName) = columns.map fun col => fieldName manifest.naming col.name := by
  induction each with
  | nil => rfl
  | cons here _ ih => rw [List.map_cons,List.map_cons,here.field,ih]

omit [DebugText] in
theorem paramOf_names {sourceTable : String} {params : List AnalyzedParam} {resolved : List ResolvedParam}
    (each : List.Forall₂ (ParamOf manifest overrides reserved sourceTable) params resolved) :
    resolved.map (·.fieldName) = params.map fun param => paramName manifest.naming reserved param.name := by
  induction each with
  | nil => rfl
  | cons here _ ih => rw [List.map_cons,List.map_cons,here.field,ih]

theorem column_typed {col : AnalyzedColumn} : (∃ resolved,resolveColumn manifest overrides col = .ok resolved) ↔
    ∃ langType fullType,Typed manifest (col.effectiveNeutralType overrides) col.nullable langType fullType := by
  simp only [resolveColumn_ok]
  constructor
  · rintro ⟨resolved,made⟩
    exact ⟨_,_,made.neutral ▸ made.typed⟩
  · rintro ⟨langType,fullType,typed⟩
    exact ⟨⟨_,_,langType,fullType,_,_,_,_,_⟩,rfl,rfl,rfl,typed,rfl,rfl,rfl,rfl⟩

theorem param_typed {sourceTable : String} {param : AnalyzedParam} :
    (∃ resolved,resolveParam manifest overrides reserved sourceTable param = .ok resolved) ↔
      ∃ langType fullType,
        Typed manifest (param.effectiveNeutralType overrides sourceTable) param.nullable langType fullType := by
  simp only [resolveParam_ok]
  constructor
  · rintro ⟨resolved,made⟩
    exact ⟨_,_,made.neutral ▸ made.typed⟩
  · rintro ⟨langType,fullType,typed⟩
    refine ⟨⟨_,_,langType,fullType,String.ofList (paramTypeToBorrowed fullType.toList),_,_⟩,rfl,rfl,rfl,typed,rfl,?_⟩
    rw [String.toList_ofList]

theorem row_iff {columns : List AnalyzedColumn} :
    (∃ resolved,resolveColumns manifest overrides columns = .ok resolved) ↔ Row manifest overrides columns := by
  unfold resolveColumns
  simp only [resolveAll_ok,List.map_map]
  constructor
  · rintro ⟨resolved,each,nodup⟩
    refine ⟨fun col member => column_typed.mp (each_total.mp ⟨resolved,each⟩ col member),?_⟩
    simp only [Each,resolveColumn_ok] at each
    rw [← columnOf_names each]
    exact nodup
  · rintro ⟨typed,apart⟩
    obtain ⟨resolved,each⟩ := each_total.mpr fun col member => column_typed.mpr (typed col member)
    refine ⟨resolved,each,?_⟩
    simp only [Each,resolveColumn_ok] at each
    rw [← columnOf_names each] at apart
    exact apart

theorem arguments_iff {params : List AnalyzedParam} {sourceTable : String} :
    (∃ resolved,resolveParams manifest overrides reserved params sourceTable = .ok resolved) ↔
      Arguments manifest reserved overrides params sourceTable := by
  unfold resolveParams
  simp only [resolveAll_ok,List.map_map]
  constructor
  · rintro ⟨resolved,each,nodup⟩
    refine ⟨fun param member => param_typed.mp (each_total.mp ⟨resolved,each⟩ param member),?_⟩
    simp only [Each,resolveParam_ok] at each
    rw [← paramOf_names each]
    exact nodup
  · rintro ⟨typed,apart⟩
    obtain ⟨resolved,each⟩ := each_total.mpr fun param member => param_typed.mpr (typed param member)
    refine ⟨resolved,each,?_⟩
    simp only [Each,resolveParam_ok] at each
    rw [← paramOf_names each] at apart
    exact apart

-- The enums of a query have one text after another, each with its own check.
theorem enums_checked {text : String} {declared : Option String}
    (done : generateEnumDefsViaBackend (resolving manifest reserved backend) analyzed declared = .ok text) :
    ((enumSources manifest reserved backend analyzed).map (enumTypeName manifest.naming) ++ declared.toList).Nodup ∧
      ∀ sqlName ∈ enumSources manifest reserved backend analyzed,
        ((enumValues analyzed sqlName).map (enumVariantName manifest.naming)).Nodup := by
  unfold generateEnumDefsViaBackend at done
  obtain ⟨_,types,rest⟩ := Register.bind_ok done
  constructor
  · have apart := collisions_checked.mp types
    simp only [List.map_append,List.map_map,Function.comp_def,List.map_id'] at apart
    exact apart
  · have variants := Register.run_each
      (Q := fun sqlName (_ : String) => ((enumValues analyzed sqlName).map (enumVariantName manifest.naming)).Nodup)
      (fun out sqlName next step => ?_) (fun _ _ _ _ holds _ => holds) rest
    · exact variants
    · obtain ⟨_,checked,-⟩ := Register.bind_ok step
      have apart := collisions_checked.mp checked
      simp only [List.map_map,Function.comp_def] at apart
      exact apart

theorem enums_rendered {declared : Option String} (renders : Renders backend)
    (types : ((enumSources manifest reserved backend analyzed).map (enumTypeName manifest.naming) ++ declared.toList).Nodup)
    (variants : ∀ sqlName ∈ enumSources manifest reserved backend analyzed,
      ((enumValues analyzed sqlName).map (enumVariantName manifest.naming)).Nodup) :
    ∃ text,generateEnumDefsViaBackend (resolving manifest reserved backend) analyzed declared = .ok text := by
  unfold generateEnumDefsViaBackend
  refine bind_total ⟨(),collisions_checked.mpr ?_⟩ fun _ _ => foldlM_total (fun out sqlName member => ?_) ""
  · simp only [List.map_append,List.map_map,Function.comp_def,List.map_id']
    exact types
  · refine bind_total ⟨(),collisions_checked.mpr ?_⟩ fun _ _ => bind_total ?_ fun _ _ => ⟨_,rfl⟩
    · simp only [List.map_map,Function.comp_def]
      exact variants sqlName member
    · unfold generateSingleEnumDef
      split
      · exact renders.enumDefForNested _
      · exact renders.enumDef _

-- A grouped query needs a group, types for both of its rows, and the name of the field
-- for the children.
theorem grouped_checked {columns : List ResolvedColumn} {params : List ResolvedParam} {code : String × String}
    (done : generateGrouped (resolving manifest reserved backend) overrides analyzed columns params = .ok code) :
    ∃ groupBy,analyzed.groupBy = some groupBy ∧
      Row manifest overrides (degradeColumns (resolving manifest reserved backend) analyzed groupBy.parentColumns) ∧
      Row manifest overrides (degradeColumns (resolving manifest reserved backend) analyzed groupBy.childColumns) ∧
        ∀ col ∈ degradeColumns (resolving manifest reserved backend) analyzed groupBy.parentColumns,
          fieldName manifest.naming col.name ≠ fieldName manifest.naming groupedChildrenField := by
  unfold generateGrouped at done
  cases given : analyzed.groupBy with
  | none => rw [given] at done; cases done
  | some groupBy =>
  rw [given] at done
  obtain ⟨_,is,rest⟩ := Register.bind_ok done
  cases is
  obtain ⟨parents,parent,rest⟩ := Register.bind_ok rest
  obtain ⟨children,child,rest⟩ := Register.bind_ok rest
  obtain ⟨_,checked,-⟩ := Register.bind_ok rest
  refine ⟨groupBy,rfl,row_iff.mp ⟨parents,parent⟩,row_iff.mp ⟨children,child⟩,?_⟩
  have apart := names_checked.mp checked
  simp only [List.map_append,List.map_map,List.nodup_append,List.map_cons,List.map_nil] at apart
  have each := (resolveAll_ok.mp parent).1
  simp only [Each,resolveColumn_ok] at each
  intro col member same
  refine apart.2.2 (fieldName manifest.naming col.name) ?_ _ List.mem_cons_self same
  change _ ∈ parents.map (·.fieldName)
  rw [columnOf_names each]
  exact List.mem_map_of_mem member

theorem grouped_rendered {columns : List ResolvedColumn} {params : List ResolvedParam} {groupBy : GroupByConfig}
    (renders : Renders backend) (given : analyzed.groupBy = some groupBy)
    (parent : Row manifest overrides (degradeColumns (resolving manifest reserved backend) analyzed groupBy.parentColumns))
    (child : Row manifest overrides (degradeColumns (resolving manifest reserved backend) analyzed groupBy.childColumns))
    (free : ∀ col ∈ degradeColumns (resolving manifest reserved backend) analyzed groupBy.parentColumns,
      fieldName manifest.naming col.name ≠ fieldName manifest.naming groupedChildrenField) :
    ∃ code,generateGrouped (resolving manifest reserved backend) overrides analyzed columns params = .ok code := by
  unfold generateGrouped
  rw [given]
  refine bind_total ⟨groupBy,rfl⟩ fun found is => ?_
  cases is
  refine bind_total (row_iff.mpr parent) fun parents resolved => bind_total (row_iff.mpr child) fun children _ => ?_
  refine bind_total ⟨(),names_checked.mpr ?_⟩ fun _ _ => bind_total (renders.groupedStructs _ _ _ _ _) fun _ _ =>
    bind_total (renders.groupedQueryFn _) fun _ _ => ⟨_,rfl⟩
  have each := (resolveAll_ok.mp resolved).1
  simp only [Each,resolveColumn_ok] at each
  have names := columnOf_names each
  simp only [List.map_append,List.map_map,List.nodup_append,List.map_cons,List.map_nil]
  change (parents.map (·.fieldName)).Nodup ∧ _ ∧ ∀ a ∈ parents.map (·.fieldName),_
  rw [names]
  refine ⟨parent.apart,List.nodup_singleton _,?_⟩
  intro name member other last
  obtain ⟨col,among,rfl⟩ := List.mem_map.mp member
  rw [List.mem_singleton.mp last]
  exact free col among

theorem nested_rendered {nestedStructs : List NestedStructInfo} :
    (∃ defs,renderNestedStructs (resolving manifest reserved backend) nestedStructs = .ok defs) ↔
      ∀ info ∈ nestedStructs,∃ code,backend.generateNestedStructDef info = .ok code := by
  unfold renderNestedStructs
  constructor
  · rintro ⟨defs,done⟩ info member
    obtain ⟨rendered,each,-⟩ := Register.bind_ok done
    obtain ⟨item,step⟩ := each_total.mp ⟨rendered,mapM_ok.mp each⟩ info member
    obtain ⟨code,is,-⟩ := Register.bind_ok step
    exact ⟨code,is⟩
  · intro rendered
    refine bind_total ?_ fun _ _ => ⟨_,rfl⟩
    simp only [mapM_ok]
    exact each_total.mpr fun info member => bind_total (rendered info member) fun _ _ => ⟨_,rfl⟩

theorem ownStruct_rendered (renders : Renders backend) (columns : List ResolvedColumn) :
    ∃ own,generateOwnStruct (resolving manifest reserved backend) analyzed columns = .ok own := by
  unfold generateOwnStruct
  split
  case h_4 => exact ⟨_,rfl⟩
  all_goals
    split
    · exact ⟨_,rfl⟩
    · cases analyzed.sourceTable with
      | some tableName => exact bind_total (renders.modelStruct _ _) fun _ _ => ⟨_,rfl⟩
      | none => exact bind_total (renders.rowStruct _ _) fun _ _ => ⟨_,rfl⟩

theorem composites_rendered (renders : Renders backend) (names : List String) (composites : List CompositeInfo) :
    ∃ texts,composites.mapM (compositeDef (resolving manifest reserved backend) analyzed names) = .ok texts := by
  simp only [mapM_ok]
  refine each_total.mpr fun comp _ => ?_
  unfold compositeDef
  dsimp only
  split
  · exact renders.compositeDefForNested comp
  · exact renders.compositeDef comp

-- Code is generated only where the rows and parameters have what they need.
theorem code_needs {names : List String} {code : AssembledFile.GeneratedCode}
    (done : generateCode (resolving manifest reserved backend) overrides names analyzed = .ok code) :
    Generable manifest reserved backend overrides analyzed := by
  unfold generateCode at done
  obtain ⟨defs,nested,rest⟩ := Register.bind_ok done
  obtain ⟨columns,row,rest⟩ := Register.bind_ok rest
  obtain ⟨params,arguments,rest⟩ := Register.bind_ok rest
  obtain ⟨enums,checked,rest⟩ := Register.bind_ok rest
  obtain ⟨own,-,rest⟩ := Register.bind_ok rest
  obtain ⟨composites,-,rest⟩ := Register.bind_ok rest
  refine ⟨nested_rendered.mp ⟨defs,nested⟩,row_iff.mp ⟨columns,row⟩,arguments_iff.mp ⟨params,arguments⟩,
    (enums_checked checked).1,(enums_checked checked).2,fun grouped => ?_⟩
  dsimp only at rest
  rw [if_pos grouped] at rest
  obtain ⟨parts,group,-⟩ := Register.bind_ok rest
  exact grouped_checked group

theorem code_enough (renders : Renders backend) (generable : Generable manifest reserved backend overrides analyzed)
    (names : List String) : ∃ code,generateCode (resolving manifest reserved backend) overrides names analyzed = .ok code := by
  unfold generateCode
  refine bind_total (nested_rendered.mpr generable.nested) fun defs _ => ?_
  refine bind_total (row_iff.mpr generable.row) fun columns _ => ?_
  refine bind_total (arguments_iff.mpr generable.arguments) fun params _ => ?_
  refine bind_total (enums_rendered renders generable.types generable.variants) fun _ _ => ?_
  refine bind_total (ownStruct_rendered renders columns) fun own _ => ?_
  refine bind_total (composites_rendered renders names _) fun composites _ => ?_
  dsimp only
  split
  · rename_i grouped
    obtain ⟨groupBy,given,parent,child,free⟩ := generable.grouped grouped
    exact bind_total (grouped_rendered renders given parent child free) fun _ _ => ⟨_,rfl⟩
  · exact bind_total (renders.queryFn _ _ _ _) fun _ _ => ⟨_,rfl⟩

-- The function of a query is written from its columns and parameters as they are resolved.
theorem code_handed {names : List String} {code : AssembledFile.GeneratedCode} (single : analyzed.command ≠ .grouped)
    (done : generateCode (resolving manifest reserved backend) overrides names analyzed = .ok code) :
    ∃ columns params text,List.Forall₂ (ColumnOf manifest overrides)
        (degradeColumns (resolving manifest reserved backend) analyzed analyzed.columns) columns ∧
      List.Forall₂ (ParamOf manifest overrides reserved (analyzed.sourceTable.getD "")) analyzed.params params ∧
        backend.generateQueryFn analyzed (determineStructName (resolving manifest reserved backend) analyzed) columns params =
          .ok text ∧ code.queryFn = some text := by
  unfold generateCode at done
  obtain ⟨defs,-,rest⟩ := Register.bind_ok done
  obtain ⟨columns,row,rest⟩ := Register.bind_ok rest
  obtain ⟨params,arguments,rest⟩ := Register.bind_ok rest
  obtain ⟨enums,-,rest⟩ := Register.bind_ok rest
  obtain ⟨own,-,rest⟩ := Register.bind_ok rest
  obtain ⟨composites,-,rest⟩ := Register.bind_ok rest
  dsimp only at rest
  rw [if_neg single] at rest
  obtain ⟨text,written,last⟩ := Register.bind_ok rest
  cases last
  have columnEach := (resolveAll_ok.mp row).1
  have paramEach := (resolveAll_ok.mp arguments).1
  simp only [Each,resolveColumn_ok] at columnEach
  simp only [Each,resolveParam_ok] at paramEach
  exact ⟨columns,params,text,columnEach,paramEach,written,rfl⟩

end

-- What the generation of code takes from a manifest.
structure Generates [CaseMap] [DebugText] (manifest : BackendManifest) (reserved : List String)
    (backend : CodegenBackend ResolvedColumn ResolvedParam) (overrides : List TypeOverride) : Prop where
  needed : ∀ names analyzed code,generateCode (resolving manifest reserved backend) overrides names analyzed = .ok code →
    Generable manifest reserved backend overrides analyzed
  enough : Renders backend → ∀ names analyzed,Generable manifest reserved backend overrides analyzed →
    ∃ code,generateCode (resolving manifest reserved backend) overrides names analyzed = .ok code
  handed : ∀ names analyzed code,analyzed.command ≠ .grouped →
    generateCode (resolving manifest reserved backend) overrides names analyzed = .ok code →
      ∃ columns params text,List.Forall₂ (ColumnOf manifest overrides)
          (degradeColumns (resolving manifest reserved backend) analyzed analyzed.columns) columns ∧
        List.Forall₂ (ParamOf manifest overrides reserved (analyzed.sourceTable.getD "")) analyzed.params params ∧
          backend.generateQueryFn analyzed (determineStructName (resolving manifest reserved backend) analyzed) columns
            params = .ok text ∧ code.queryFn = some text
  file : ∀ analyzedQueries results,AssembledFile.generateForBackend (resolving manifest reserved backend) overrides
    analyzedQueries = .ok results → ∀ analyzed ∈ analyzedQueries,Generable manifest reserved backend overrides analyzed

theorem code_generated [CaseMap] [DebugText] (manifest : BackendManifest) (reserved : List String)
    (backend : CodegenBackend ResolvedColumn ResolvedParam) (overrides : List TypeOverride) :
    Generates manifest reserved backend overrides where
  needed _ _ _ done := code_needs done
  enough renders names _ generable := code_enough renders generable names
  handed _ _ _ single done := code_handed single done
  file analyzedQueries results done analyzed member := by
    unfold AssembledFile.generateForBackend at done
    obtain ⟨_,-,rest⟩ := Register.bind_ok done
    obtain ⟨codes,initial,-⟩ := Register.bind_ok rest
    obtain ⟨code,-,generated⟩ := Register.mapM_image initial member
    exact code_needs generated

end Scythe.ColumnResolution
