import Scythe.DdlFootprints

-- In which orders the statements of a schema may be applied, and what the
-- canonical forms say of the catalogs that they leave.
namespace Scythe
open Text Contents Exchange LastWrite

section
variable [CaseMap] [Printer] [TypeParser]

-- Neither statement looks at what the other is about. `asked` and `other` are
-- what their queries ask the catalog for.
structure DifferentObjects (dialect : SqlDialect) (asked other : CatalogObject → Prop) (x y : DdlStatement) : Prop where
  asks : ∀ query ∈ statementQuery x,Asks asked query
  asksOther : ∀ query ∈ statementQuery y,Asks other query
  left : ∀ object,Targets dialect x object → ¬LooksAt dialect other y object
  right : ∀ object,Targets dialect y object → ¬LooksAt dialect asked x object

def columnEnums (dialect : SqlDialect) : DdlStatement → List (String × EnumType)
  | .createTable table _ => inlineEnums dialect table
  | _ => []

-- The enums in the columns of one statement are nothing that the other looks at,
-- and where both write one of the same name, they give it the same labels.
structure EnumsApart (dialect : SqlDialect) (asked other : CatalogObject → Prop) (x y : DdlStatement) : Prop where
  left : ∀ object,InlineWrites dialect x object → ¬LooksAt dialect other y object
  right : ∀ object,InlineWrites dialect y object → ¬LooksAt dialect asked x object
  shared : ∀ (key : String) (labels others : EnumType),Stands (columnEnums dialect x) (key,labels) →
    Stands (columnEnums dialect y) (key,others) → labels = others

def Exchangeable (dialect : SqlDialect) (x y : DdlStatement) : Prop :=
  ∃ asked other,DifferentObjects dialect asked other x y ∧ EnumsApart dialect asked other x y

-- After a table is created, an enum in its columns has the labels written last.
theorem inline_standing {dialect : SqlDialect} {statement : DdlStatement} {s s' : Catalog} {key : String}
    {labels : EnumType} (is : applied dialect statement s = some s')
    (stands : Stands (columnEnums dialect statement) (key,labels)) : s'.enums.lookup key = some labels := by
  cases statement with
  | createTable table query =>
    have written : inlineEnums dialect table ≠ [] := List.ne_nil_of_mem (stands_mem stands)
    have listed : table.columns ≠ [] := by
      intro unlisted
      simp [inlineEnums,unlisted] at written
    have plain : applied dialect (.createTable table query) s = some (processCreateTable dialect s table) := by
      cases columns : table.columns with
      | nil => exact absurd columns listed
      | cons => simp only [applied,processDdl,columns,Option.bind_some,Except.toOption]
    rw [plain] at is
    cases is
    rw [createTable_written]
    exact lookup_standing stands
  | _ =>
    obtain ⟨before,after,empty,-⟩ := stands
    cases before <;> cases empty

theorem exchangeable_apart {dialect : SqlDialect} {asked other : CatalogObject → Prop} {x y : DdlStatement}
    (objects : DifferentObjects dialect asked other x y) (enums : EnumsApart dialect asked other x y) :
    Apart agree (applied dialect x) (applied dialect y) (Changes dialect x) (LooksAt dialect asked x)
      (Changes dialect y) (LooksAt dialect other y) := by
  refine ⟨?_,?_,?_⟩
  · intro object changed
    exact changed.elim (objects.left object) (enums.left object)
  · intro object changed
    exact changed.elim (objects.right object) (enums.right object)
  · intro object changed changed' s s' t t' first second
    cases changed with
    | inl target =>
      cases changed' with
      | inl target' => exact absurd (.inl target') (objects.left object target)
      | inr inline => exact absurd (.inl target) (enums.right object inline)
    | inr inline =>
      cases changed' with
      | inl target => exact absurd (.inl target) (enums.left object inline)
      | inr inline' =>
        cases x with
        | createTable table query =>
          cases y with
          | createTable table' query' =>
            obtain ⟨entry,among,rfl⟩ := inline
            obtain ⟨entry',among',same⟩ := inline'
            cases entry with | mk key value =>
            cases entry' with | mk key' value' =>
            cases same
            obtain ⟨labels,stands⟩ := written_stands ⟨_,among,rfl⟩
            obtain ⟨others,stands'⟩ := written_stands ⟨_,among',rfl⟩
            have equal := enums.shared key labels others stands stands'
            show s'.enums.lookup key = t'.enums.lookup key
            rw [inline_standing first stands,inline_standing second stands',equal]
          | _ => cases inline'
        | _ => cases inline

theorem exchanged {dialect : SqlDialect} {x y : DdlStatement} (may : Exchangeable dialect x y) {s : Catalog}
    (held : DistinctOverloads s) :
    Option.Rel (Alike DistinctOverloads agree) ((applied dialect x s).bind (applied dialect y))
      ((applied dialect y s).bind (applied dialect x)) := by
  obtain ⟨asked,other,objects,enums⟩ := may
  exact exchange agree_equivalence (footprint x objects.asks) (footprint y objects.asksOther)
    (exchangeable_apart objects enums) held

-- Alike catalogs stay alike. A query may look at everything there is.
theorem applied_respects (dialect : SqlDialect) (statement : DdlStatement) {s t : Catalog}
    (alike : Alike DistinctOverloads agree s t) :
    Option.Rel (Alike DistinctOverloads agree) (applied dialect statement s) (applied dialect statement t) := by
  have all (query : Query) : Asks (fun _ => True) query := by
    intro a b left right same
    have interchangeable := (interchangeable_iff left right).mpr fun object => same object trivial
    rw [resolveSelectColumns,resolveSelectColumns,interchangeable.analyze]
  exact (footprint statement fun query _ => all query).respects agree_equivalence alike

omit [CaseMap] [Printer] [TypeParser] in
theorem alike_iff {a b : Catalog} (left : DistinctOverloads a) (right : DistinctOverloads b) :
    Alike DistinctOverloads agree a b ↔ Interchangeable a b :=
  ⟨fun alike => (interchangeable_iff left right).mpr alike.parts,
    fun same => ⟨left,right,(interchangeable_iff left right).mp same⟩⟩

-- The forms of a schema and of the queries that are analyzed against it.
structure SameForms (a b : Catalog) : Prop where
  schema : canonicalForm a.uninspected = canonicalForm b.uninspected
  queries : ∀ queries,queriesForm a queries = queriesForm b queries

omit [TypeParser] in
theorem sameForms {a b : Catalog} (same : Interchangeable a b) : SameForms a b :=
  ⟨canonicalForm_same same.uninspected,queriesForm_same same⟩

-- Catalogs with the same entries have the same forms, and so have those that are
-- left by reorderings of the same statements, if the statements that change
-- places are about different objects and write no enum of the same name with
-- other labels. Two tables that do leave different catalogs in the two orders.
theorem forms_without_order :
    (∀ a b : InspectedCatalog,InspectedAlike a b →
      canonicalForm a = canonicalForm b ∧ ∀ queries,queriesForm a.toCatalog queries = queriesForm b.toCatalog queries) ∧
    (∀ (dialect : SqlDialect) (a b : Catalog) (xs ys : List DdlStatement),Interchangeable a b → DistinctOverloads a →
      DistinctOverloads b → Reordering (Exchangeable dialect) xs ys →
      Option.Rel SameForms (run (applied dialect) xs a) (run (applied dialect) ys b)) ∧
    ∀ (dialect : SqlDialect) (x y : DdlStatement) (key : String) (labels others : EnumType),
      Stands (columnEnums dialect x) (key,labels) → Stands (columnEnums dialect y) (key,others) → labels ≠ others →
      ∀ s s' s'',run (applied dialect) [x,y] s = some s' → run (applied dialect) [y,x] s = some s'' →
        s'.enums.lookup key ≠ s''.enums.lookup key := by
  refine ⟨?_,?_,?_⟩
  · intro a b same
    exact ⟨canonicalForm_same same,queriesForm_same same.toInterchangeable⟩
  · intro dialect a b xs ys same left right reordering
    have outcome := run_reordered agree_equivalence (fun x s t alike => applied_respects dialect x alike)
      (fun x y s may held => exchanged may held) reordering ((alike_iff left right).mpr same)
    obtain ⟨refused,refused'⟩ | ⟨a',b',one,two,alike⟩ := rel_cases outcome
    · rw [refused,refused']
      exact .none
    · rw [one,two]
      exact .some (sameForms ((alike_iff alike.left alike.right).mp alike))
  · intro dialect x y key labels others stands stands' differ s s' s'' first second same
    obtain ⟨middle,-,last⟩ := Option.bind_eq_some_iff.mp ((run_cons (applied dialect) x [y] s).symm.trans first)
    obtain ⟨middle',-,last'⟩ := Option.bind_eq_some_iff.mp ((run_cons (applied dialect) y [x] s).symm.trans second)
    have one : applied dialect y middle = some s' := by simpa [run] using last
    have two : applied dialect x middle' = some s'' := by simpa [run] using last'
    rw [inline_standing one stands',inline_standing two stands] at same
    exact differ (Option.some.inj same).symm

end

section
local instance orderCase : CaseMap := ascii
local instance orderPrinter : Printer := ⟨fun _ => "",fun _ => "",fun _ => ""⟩
local instance orderTypes : TypeParser := ⟨fun _ _ => none⟩

def enumStatement (table column : String) (labels : List String) : DdlStatement :=
  .createTable (enumTable table column labels) none

-- Nothing but its own table is looked at by such a statement.
theorem enumStatement_looks {table column : String} {labels : List String} {object : CatalogObject}
    (looked : LooksAt .mySQL (fun _ => False) (enumStatement table column labels) object) :
    object = .table (objectNameToKey (enumTable table column labels).name) := by
  obtain same | asked | ⟨dataType,written,key,⟨name,inside,-⟩,-⟩ := looked
  · exact same
  · cases asked
  · cases List.mem_singleton.mp written
    cases inside

theorem enumStatements_different {table column table' column' : String} {labels labels' : List String}
    (differ : objectNameToKey (enumTable table column labels).name ≠ objectNameToKey (enumTable table' column' labels').name) :
    DifferentObjects .mySQL (fun _ => False) (fun _ => False) (enumStatement table column labels)
      (enumStatement table' column' labels') := by
  refine ⟨nofun,nofun,?_,?_⟩
  · intro object target looked
    cases target
    exact differ (CatalogObject.table.inj (enumStatement_looks looked))
  · intro object target looked
    cases target
    exact differ (CatalogObject.table.inj (enumStatement_looks looked)).symm

theorem enumStatements_apart {table column table' column' : String} {labels labels' : List String}
    (differ : inlineEnumKey (objectNameToKey (enumTable table column labels).name) (CaseMap.lowercase column) ≠
      inlineEnumKey (objectNameToKey (enumTable table' column' labels').name) (CaseMap.lowercase column')) :
    EnumsApart .mySQL (fun _ => False) (fun _ => False) (enumStatement table column labels)
      (enumStatement table' column' labels') := by
  have own {table column : String} {labels : List String} {entry : String × EnumType}
      (among : entry ∈ inlineEnums .mySQL (enumTable table column labels)) :
      entry.1 = inlineEnumKey (objectNameToKey (enumTable table column labels).name) (CaseMap.lowercase column) := by
    obtain ⟨colDef,inside,written⟩ := List.mem_filterMap.mp among
    cases List.mem_singleton.mp inside
    obtain ⟨values,-,rfl⟩ := Option.map_eq_some_iff.mp written
    rfl
  refine ⟨?_,?_,?_⟩
  · intro object ⟨entry,among,is⟩ looked
    rw [is] at looked
    cases enumStatement_looks looked
  · intro object ⟨entry,among,is⟩ looked
    rw [is] at looked
    cases enumStatement_looks looked
  · intro key labels others stands stands'
    have first := @own table column _ (key,labels) (stands_mem stands)
    have second := @own table' column' _ (key,others) (stands_mem stands')
    exact absurd (first.symm.trans second) differ

-- Two tables whose enums have names of their own.
theorem enums_apart_reordered :
    Option.Rel SameForms
      (run (applied .mySQL) [enumStatement "orders" "state" ["new"],enumStatement "users" "status" ["old"]]
        (Catalog.new .mySQL))
      (run (applied .mySQL) [enumStatement "users" "status" ["old"],enumStatement "orders" "state" ["new"]]
        (Catalog.new .mySQL)) := by
  refine forms_without_order.2.1 .mySQL _ _ _ _ (.refl _) (distinctOverloads_new _) (distinctOverloads_new _) ?_
  refine .swap [] [] ⟨_,_,enumStatements_different (by decide),enumStatements_apart (by decide)⟩

def formAfter (statements : List DdlStatement) : Option String :=
  (run (applied .mySQL) statements (Catalog.new .mySQL)).map fun catalog => canonicalForm catalog.uninspected

-- Two tables, each with an enum in a column, whose enums get the same name.
theorem enum_of_the_last :
    DifferentObjects .mySQL (fun _ => False) (fun _ => False) (enumStatement "order_item" "state" ["new"])
        (enumStatement "order" "item_state" ["old"]) ∧
      formAfter [enumStatement "order_item" "state" ["new"],enumStatement "order" "item_state" ["old"]] ≠
        formAfter [enumStatement "order" "item_state" ["old"],enumStatement "order_item" "state" ["new"]] := by
  refine ⟨enumStatements_different (by decide),?_⟩
  intro same
  have sections := SchemaFingerprint.form_sections.mp (Option.some.inj same)
  have enums := congrArg (fun sections : List (List String) => sections[2]?) sections
  revert enums
  decide +kernel

end
end Scythe
