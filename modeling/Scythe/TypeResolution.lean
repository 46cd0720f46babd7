import Mathlib.Data.Set.Finite.Lattice
import Scythe.Ddl
import Scythe.Lib.Chains
import Scythe.Lib.Letters
import Scythe.TypeConversion

-- Whether the resolution of a type comes to an end.
namespace Scythe
open Text Letters Chains Relation

section
variable [CaseMap]

-- The text on which sql_type_to_neutral calls itself.
def innerType (catalog : Catalog) (sqlType : String) : Option String :=
  let lower := CaseMap.lowercase sqlType
  let normalized := stripPrecision lower
  if (bitTypeToNeutral lower catalog.dialect).isSome then none else
  if (numberTypeToNeutral lower).isSome then none else
  if (namedType catalog.dialect normalized).isSome then none else
  match stripSuffix normalized "[]" with
  | some inner => some inner
  | none => catalog.getDomainBaseType normalized

-- What it returns where it does not.
def leafType (catalog : Catalog) (sqlType : String) : String :=
  let lower := CaseMap.lowercase sqlType
  let normalized := stripPrecision lower
  match bitTypeToNeutral lower catalog.dialect with
  | some neutral => neutral
  | none =>
  match numberTypeToNeutral lower with
  | some neutral => neutral
  | none =>
  match namedType catalog.dialect normalized with
  | some neutral => neutral
  | none =>
  if (catalog.getEnum normalized).isSome then s!"enum::{normalized}" else
  if (catalog.getComposite normalized).isSome then s!"composite::{normalized}" else
  normalized

-- What it makes of the type that the call returns.
def outerType (sqlType neutral : String) : String :=
  if (stripSuffix (stripPrecision (CaseMap.lowercase sqlType)) "[]").isSome then s!"array<{neutral}>" else neutral

-- The runs of sql_type_to_neutral that come to an end.
inductive Resolves (catalog : Catalog) : String → String → Prop where
  | leaf {sqlType : String} (last : innerType catalog sqlType = none) : Resolves catalog sqlType (leafType catalog sqlType)
  | call {sqlType inner neutral : String} (on : innerType catalog sqlType = some inner)
      (below : Resolves catalog inner neutral) : Resolves catalog sqlType (outerType sqlType neutral)

theorem within_succ (catalog : Catalog) (fuel : Nat) (sqlType : String) :
    sqlTypeToNeutralWithin catalog (fuel + 1) sqlType = match innerType catalog sqlType with
      | some inner => outerType sqlType (sqlTypeToNeutralWithin catalog fuel inner)
      | none => leafType catalog sqlType := by
  rw [sqlTypeToNeutralWithin]
  unfold innerType leafType outerType
  dsimp only
  cases bitTypeToNeutral (CaseMap.lowercase sqlType) catalog.dialect with
  | some neutral => rfl
  | none =>
    cases numberTypeToNeutral (CaseMap.lowercase sqlType) with
    | some neutral => rfl
    | none =>
      cases namedType catalog.dialect (stripPrecision (CaseMap.lowercase sqlType)) with
      | some neutral => rfl
      | none =>
        cases stripSuffix (stripPrecision (CaseMap.lowercase sqlType)) "[]" with
        | some inner => simp
        | none => cases catalog.getDomainBaseType (stripPrecision (CaseMap.lowercase sqlType)) <;> simp

-- A run that ends returns what the recursion of bounded depth returns, from some
-- depth on.
theorem resolves_within {catalog : Catalog} {sqlType neutral : String} (resolves : Resolves catalog sqlType neutral) :
    ∃ depth,∀ more,sqlTypeToNeutralWithin catalog (depth + more) sqlType = neutral := by
  induction resolves with
  | leaf last =>
    refine ⟨1,fun more => ?_⟩
    rw [Nat.add_comm,within_succ,last]
  | call on _ ih =>
    obtain ⟨depth,below⟩ := ih
    refine ⟨depth + 1,fun more => ?_⟩
    rw [Nat.add_right_comm,within_succ,on]
    dsimp only
    rw [below]

theorem resolves_iff_ends (catalog : Catalog) (sqlType : String) :
    (∃ neutral,Resolves catalog sqlType neutral) ↔ Ends (innerType catalog) sqlType := by
  constructor
  · rintro ⟨neutral,resolves⟩
    induction resolves with
    | leaf last => exact .stop last
    | call on _ ih => exact .step on ih
  · intro ends
    induction ends with
    | stop last => exact ⟨_,.leaf last⟩
    | step on _ ih =>
      obtain ⟨neutral,below⟩ := ih
      exact ⟨_,.call on below⟩

omit [CaseMap] in
theorem stripPrecision_within (s : String) : (stripPrecision s).toList <:+: s.toList := by
  unfold stripPrecision
  split
  · rename_i before after split'
    split
    · split
      · exact (trim_within before).trans (rsplitOnce_within split')
      · exact List.infix_rfl
    · exact List.infix_rfl
  · exact List.infix_rfl

def baseTypes (catalog : Catalog) : List String := catalog.domains.entries.map fun entry => entry.2.baseType

theorem getDomainBaseType_mem {catalog : Catalog} {name base : String}
    (found : catalog.getDomainBaseType name = some base) : base ∈ baseTypes catalog := by
  obtain ⟨domain,held,same⟩ := Option.map_eq_some_iff.mp found
  rw [lookupQualified_key] at held
  obtain ⟨key,_,at'⟩ := Option.bind_eq_some_iff.mp held
  have member : (⟨key,domain⟩ : Σ _ : String, DomainDef) ∈ catalog.domains.entries := List.of_mem_dlookup at'
  exact List.mem_map.mpr ⟨⟨key,domain⟩,member,same⟩

theorem innerType_parts {catalog : Catalog} {sqlType inner : String} (on : innerType catalog sqlType = some inner) :
    inner.toList <:+: (CaseMap.lowercase sqlType).toList ∨ inner ∈ baseTypes catalog := by
  unfold innerType at on
  dsimp only at on
  split at on
  · cases on
  · split at on
    · cases on
    · split at on
      · cases on
      · split at on
        · rename_i element stripped
          cases on
          have whole := stripSuffix_eq.mp stripped
          have front : inner.toList <:+: (stripPrecision (CaseMap.lowercase sqlType)).toList :=
            ⟨[],"[]".toList,by rw [whole,List.nil_append,String.toList_append]⟩
          exact .inl (front.trans (stripPrecision_within _))
        · exact .inr (getDomainBaseType_mem on)

-- What lower-casing returns is in lower case, and so is each part of it.
def LowersOnce : Prop := ∀ s part,part.toList <:+: (CaseMap.lowercase s).toList → CaseMap.lowercase part = part

def partsOf (s : String) : Set String := {part | part.toList <:+: s.toList}

omit [CaseMap] in
theorem partsOf_finite (s : String) : (partsOf s).Finite := by
  have listed : partsOf s ⊆ {part | part ∈ s.toList.sublists.map String.ofList} := by
    intro part inside
    exact List.mem_map.mpr ⟨part.toList,List.mem_sublists.mpr inside.sublist,String.ofList_toList⟩
  exact (List.finite_toSet _).subset listed

theorem reached_finite (lowers : LowersOnce) (catalog : Catalog) (sqlType : String) :
    {reached | ReflTransGen (Step (innerType catalog)) sqlType reached}.Finite := by
  let roots : Set String := {root | root ∈ sqlType :: baseTypes catalog}
  have rootsFinite : roots.Finite := List.finite_toSet _
  have finite : (roots ∪ ⋃ root ∈ roots,partsOf (CaseMap.lowercase root)).Finite :=
    rootsFinite.union (Set.Finite.biUnion rootsFinite fun root _ => partsOf_finite _)
  apply finite_of_closed finite (.inl List.mem_cons_self)
  intro text member inner on
  rcases innerType_parts on with inside | base
  · right
    rcases member with root | part
    · exact Set.mem_biUnion root inside
    · obtain ⟨root,isRoot,part⟩ := Set.mem_iUnion₂.mp part
      rw [lowers root text part] at inside
      exact Set.mem_biUnion isRoot (inside.trans part)
  · exact .inl (List.mem_cons_of_mem _ base)

-- The resolution of a type comes to an end exactly when no text on its way, an
-- element type or the base type of a domain, leads back to itself.
theorem resolution_ends_iff (lowers : LowersOnce) (catalog : Catalog) (sqlType : String) :
    (∃ neutral,Resolves catalog sqlType neutral) ↔
      ∀ reached,ReflTransGen (Step (innerType catalog)) sqlType reached →
        ¬TransGen (Step (innerType catalog)) reached reached := by
  rw [resolves_iff_ends]
  exact ends_iff (reached_finite lowers catalog sqlType)

end

-- A domain over a type of its own name, which may stand in another schema.
section
local instance resolvedCase : CaseMap := ascii

local instance resolvedTypes : TypeParser where
  dataType _ text := some (.custom [.identifier ⟨text,false⟩] [])

local instance resolvedPrinter : Printer where
  query _ := ""
  dataType _ := ""
  expr _ := ""

theorem ascii_lowersOnce : LowersOnce := by
  intro s part inside
  have whole : part.toList.map asciiLower = part.toList := by
    refine (List.map_congr_left fun c member => ?_).trans (List.map_id _)
    have lowered : c ∈ (asciiLowercase s).toList := inside.subset member
    rw [asciiLowercase,String.toList_ofList] at lowered
    obtain ⟨d,_,rfl⟩ := List.mem_map.mp lowered
    exact asciiLower_plain (asciiLower_never d)
  exact (congrArg String.ofList whole).trans String.ofList_toList

def domainCatalog (domains : List CreateDomain) : Catalog :=
  (fromDdlWithDialect [⟨domains,[]⟩] .postgreSQL).toOption.getD (Catalog.new .postgreSQL)

theorem email_resolves : ∃ neutral,Resolves (domainCatalog [⟨"email","text",true⟩]) "email[]" neutral := by
  refine (resolution_ends_iff ascii_lowersOnce (domainCatalog [⟨"email","text",true⟩]) "email[]").mpr ?_
  have ends : Ends (innerType (domainCatalog [⟨"email","text",true⟩])) "email[]" :=
    .step (y := "email") rfl (.step (y := "text") rfl (.stop rfl))
  exact fun reached leads => ends_no_cycle (ends_along ends leads)

theorem domain_of_itself :
    fromDdlWithDialect [⟨[⟨"d","d",false⟩],[]⟩] .postgreSQL = .ok (domainCatalog [⟨"d","d",false⟩]) ∧
      (¬∃ neutral,Resolves (domainCatalog [⟨"d","d",false⟩]) "d" neutral) ∧
        ¬∃ neutral,Resolves (domainCatalog [⟨"app.citext","citext",false⟩]) "app.citext" neutral := by
  refine ⟨rfl,?_,?_⟩
  · rw [resolves_iff_ends]
    intro ends
    exact ends_no_cycle ends (.single rfl)
  · rw [resolves_iff_ends]
    intro ends
    have on : innerType (domainCatalog [⟨"app.citext","citext",false⟩]) "app.citext" = some "citext" := rfl
    exact ends_no_cycle (ends_of_next ends on) (.single rfl)

end
end Scythe
