import Scythe.Interchange
import Scythe.SchemaFingerprint
import Scythe.QueryFingerprint

-- The canonical forms read of a catalog only which entries it holds.
namespace Scythe
open Text Contents Delimited

section
variable {α γ : Type} {f : α → γ} {a b : AHashMap α}

theorem sortByKey_perm {xs ys : List (String × α)} (distinct : (xs.map Prod.fst).Nodup) (perm : xs.Perm ys) :
    sortByKey xs = sortByKey ys := sortBy_eq distinct perm

-- Where stripping the qualifiers would make two keys the same, the keys stay as
-- they are, so what is sorted has distinct keys either way.
theorem canonicalEntries_perm {xs ys : List (String × α)} (distinct : (xs.map Prod.fst).Nodup) (perm : xs.Perm ys) :
    canonicalEntries xs = canonicalEntries ys := by
  have stripped := perm.map fun entry : String × α => (stripLeadingQualifier entry.1,entry.2)
  have clash := (stripped.map Prod.fst).nodup_iff
  unfold canonicalEntries
  dsimp only
  by_cases apart : ((xs.map fun entry => (stripLeadingQualifier entry.1,entry.2)).map Prod.fst).Nodup
  · rw [if_pos apart,if_pos (clash.mp apart)]
    exact sortByKey_perm apart stripped
  · rw [if_neg apart,if_neg fun also => apart (clash.mpr also)]
    exact sortByKey_perm distinct perm

theorem seen_entries (f : α → γ) (map : AHashMap α) :
    (entriesOf map).map (Prod.map id f) = map.entries.map fun entry => (entry.1,f entry.2) := by
  rw [entriesOf,List.map_map]
  rfl

theorem seen_distinct (f : α → γ) (map : AHashMap α) :
    (((entriesOf map).map (Prod.map id f)).map Prod.fst).Nodup := by
  rw [seen_entries,seen_keys]
  exact map.keys_nodup

theorem seen_perm (same : Same f a b) :
    ((entriesOf a).map (Prod.map id f)).Perm ((entriesOf b).map (Prod.map id f)) := by
  rw [seen_entries,seen_entries]
  exact same_entries same

theorem sortedEntries_same (same : Same f a b) :
    (sortedEntries a).map (Prod.map id f) = (sortedEntries b).map (Prod.map id f) := by
  rw [sortedEntries,sortedEntries,←sortByKey_map,←sortByKey_map,sortByKey_perm (seen_distinct f a) (seen_perm same)]

theorem canonicalEntries_same (same : Same f a b) :
    (canonicalEntries (entriesOf a)).map (Prod.map id f) = (canonicalEntries (entriesOf b)).map (Prod.map id f) := by
  rw [←canonicalEntries_map,←canonicalEntries_map,canonicalEntries_perm (seen_distinct f a) (seen_perm same)]

theorem sortedEntries_eq {a b : AHashMap α} (same : Same id a b) : sortedEntries a = sortedEntries b := by
  simpa using sortedEntries_same same

theorem canonicalEntries_eq {a b : AHashMap α} (same : Same id a b) :
    canonicalEntries (entriesOf a) = canonicalEntries (entriesOf b) := by
  simpa using canonicalEntries_same same

end

-- The lines of a function's overloads, sorted.
def overloadLines (overloads : List CatalogFunction) : List String :=
  (overloads.map canonicalFunction).mergeSort fun a b => a ≤ b

theorem overloadLines_perm {overloads others : List CatalogFunction} (perm : overloads.Perm others) :
    overloadLines overloads = overloadLines others := by
  refine List.Perm.eq_of_pairwise ?_ (sortBy_sorted id (overloads.map canonicalFunction))
    (sortBy_sorted id (others.map canonicalFunction)) ?_
  · exact fun a b _ _ => String.le_antisymm
  · exact ((List.mergeSort_perm _ _).trans (perm.map _)).trans (List.mergeSort_perm _ _).symm

def overloadRecords (entry : String × List String) : List String :=
  entry.2.map fun overload => record ["function",escapeComponent entry.1,overload]

theorem functions_records (entries : List (String × List CatalogFunction)) :
    entries.flatMap functionLines = (entries.map (Prod.map id overloadLines)).flatMap overloadRecords := by
  rw [List.flatMap_map]
  rfl

theorem shapeLines_same {a b : Catalog} (same : Interchangeable a b) : shapeLines a = shapeLines b := by
  have functions : Same overloadLines a.functions b.functions :=
    same_mono (fun _ _ equal => overloadLines_perm (Multiset.coe_eq_coe.mp equal)) same.functions
  rw [shapeLines,shapeLines,same.dialect,canonicalEntries_eq same.tables,canonicalEntries_eq same.enums,
    canonicalEntries_eq same.composites,canonicalEntries_eq same.domains,functions_records,functions_records,
    canonicalEntries_same functions]

-- Inspected catalogs that hold the same entries, those about the names and
-- types that the database reports included.
structure InspectedAlike (a b : InspectedCatalog) : Prop extends Interchangeable a.toCatalog b.toCatalog where
  relationNames : Same id a.relationNames b.relationNames
  relationKinds : Same id a.relationKinds b.relationKinds
  generatedColumnKinds :
    Same (fun kinds column => kinds.lookup column) a.generatedColumnKinds b.generatedColumnKinds
  enumNames : Same id a.enumNames b.enumNames
  compositeNames : Same id a.compositeNames b.compositeNames
  domainNames : Same id a.domainNames b.domainNames
  rawDomainTypes : Same id a.rawDomainTypes b.rawDomainTypes

theorem Interchangeable.uninspected {a b : Catalog} (same : Interchangeable a b) :
    InspectedAlike a.uninspected b.uninspected :=
  ⟨same,same_refl _ _,same_refl _ _,same_refl _ _,same_refl _ _,same_refl _ _,same_refl _ _,same_refl _ _⟩

theorem inner_sorted {α : Type} {a b : AHashMap (AHashMap α)}
    (same : Same (fun types column => types.lookup column) a b) : Same sortedEntries a b :=
  same_mono (fun _ _ equal => sortedEntries_eq (same_of_lookup (congrFun equal))) same

section
variable [CaseMap]

theorem rawColumnTypeLines_same {a b : Catalog} (same : Interchangeable a b) :
    rawColumnTypeLines a = rawColumnTypeLines b := by
  have line (relationKey columnKey rawType : String) :
      rawColumnTypeLine a relationKey columnKey rawType = rawColumnTypeLine b relationKey columnKey rawType := by
    rw [rawColumnTypeLine,rawColumnTypeLine,same_lookup same.tables]
  have rows (catalog : Catalog) :
      rawColumnTypeLines catalog =
        ((sortedEntries catalog.rawColumnTypes).map (Prod.map id sortedEntries)).flatMap fun entry =>
          entry.2.filterMap fun column => rawColumnTypeLine catalog entry.1 column.1 column.2 := by
    rw [List.flatMap_map]
    rfl
  rw [rows,rows,sortedEntries_same (inner_sorted same.rawColumnTypes)]
  simp only [line]

omit [CaseMap] in
theorem generatedColumnLines_same {a b : AHashMap (AHashMap GeneratedColumnKind)}
    (same : Same (fun kinds column => kinds.lookup column) a b) : generatedColumnLines a = generatedColumnLines b := by
  have rows (kinds : AHashMap (AHashMap GeneratedColumnKind)) :
      generatedColumnLines kinds =
        ((sortedEntries kinds).map (Prod.map id sortedEntries)).flatMap fun entry =>
          entry.2.map fun column =>
            record ["generated-column",escapeComponent entry.1,escapeComponent column.1,
              generatedColumnKindTag column.2] := by
    rw [List.flatMap_map]
    rfl
  rw [rows,rows,sortedEntries_same (inner_sorted same)]

theorem canonicalForm_same {a b : InspectedCatalog} (same : InspectedAlike a b) : canonicalForm a = canonicalForm b := by
  have relations : appendRelationMetadata a = appendRelationMetadata b := by
    rw [appendRelationMetadata,appendRelationMetadata,relationKindLines,relationKindLines,
      sortedEntries_eq same.relationKinds,rawColumnTypeLines_same same.toInterchangeable,
      generatedColumnLines_same same.generatedColumnKinds]
  have domains : appendRawDomainTypes a = appendRawDomainTypes b := by
    simp only [appendRawDomainTypes,sortedEntries_eq same.rawDomainTypes,same_lookup same.domains]
  have names (objectKind : String) {x y : AHashMap CatalogObjectName} (equal : Same id x y) :
      appendPreservedNames objectKind x = appendPreservedNames objectKind y := by
    rw [appendPreservedNames,appendPreservedNames,sortedEntries_eq equal]
  rw [canonicalForm,canonicalForm,shapeLines_same same.toInterchangeable,appendInspectionMetadata,
    appendInspectionMetadata,relations,domains,names _ same.relationNames,names _ same.enumNames,
    names _ same.compositeNames,names _ same.domainNames]

-- The canonical form of the queries that analysis accepts.
def queriesForm [Printer] (catalog : Catalog) (queries : List ParsedQuery) : String :=
  QueryFingerprint.canonicalForm (queries.filterMap fun query => (analyze catalog query).bind Except.toOption)

theorem queriesForm_same [Printer] {a b : Catalog} (same : Interchangeable a b) (queries : List ParsedQuery) :
    queriesForm a queries = queriesForm b queries := by
  simp only [queriesForm,same.analyze]

end
end Scythe
