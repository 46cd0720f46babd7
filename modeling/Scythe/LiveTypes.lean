import Scythe.LiveSchema

-- The two ways to the neutral type of a column: by the rows of pg_type alone, and by
-- the driver's type that is rebuilt from them.
namespace Scythe.Drift

-- The catalog knows no composite type as an array.
def CompositesApart (rows : LiveRows) : Prop :=
  ∀ oid row,rows.types.lookup oid = some row → row.kind = "c" → row.category = "C"

section
variable {rows : LiveRows}

-- What a type is built from when it is rebuilt, with so many levels left.
theorem resolveType_cases {depth oid : Nat} {t : PgType} (resolved : resolveType rows (depth + 1) oid = some t) :
    rows.fromOid oid = some t ∨ rows.fromOid oid = none ∧ ∃ row,rows.types.lookup oid = some row ∧
      (row.kind = "e" ∧ t = .enum row.name ∨
        row.kind = "d" ∧ (∃ base,resolveType rows depth row.baseTypeOid = some base ∧ t = .domain base) ∨
        row.kind ≠ "e" ∧ row.kind ≠ "d" ∧ (row.category = "A" ∧ row.elementTypeOid ≠ 0) ∧
          ∃ element,resolveType rows depth row.elementTypeOid = some element ∧ t = .array element) := by
  rw [resolveType] at resolved
  cases builtin : rows.fromOid oid with
  | some known =>
    rw [builtin] at resolved
    exact .inl resolved
  | none =>
    rw [builtin] at resolved
    obtain ⟨row,found,is⟩ := Option.bind_eq_some_iff.mp resolved
    refine .inr ⟨rfl,row,found,?_⟩
    split at is
    · rename_i enum
      cases is
      exact .inl ⟨enum,rfl⟩
    rename_i noEnum
    split at is
    · rename_i domain
      obtain ⟨base,below,rfl⟩ := Option.map_eq_some_iff.mp is
      exact .inr (.inl ⟨domain,base,below,rfl⟩)
    rename_i noDomain
    split at is
    · rename_i array
      obtain ⟨element,below,rfl⟩ := Option.map_eq_some_iff.mp is
      exact .inr (.inr ⟨noEnum,noDomain,array,element,below,rfl⟩)
    · cases is

-- However many levels are left, over links of any shape.
theorem resolveNeutral_type (apart : CompositesApart rows) {depth oid : Nat} {t : PgType}
    (resolved : resolveType rows depth oid = some t) : resolveNeutralWithin rows depth oid = neutralTypeFor t := by
  induction depth generalizing oid t with
  | zero => cases resolved
  | succ depth ih =>
    rw [resolveNeutralWithin]
    rcases resolveType_cases resolved with builtin | ⟨unknown,row,found,shape⟩
    · rw [builtin]
    · rw [unknown,found]
      dsimp only [Option.bind_some]
      rcases shape with ⟨enum,rfl⟩ | ⟨domain,base,below,rfl⟩ | ⟨noEnum,noDomain,array,element,below,rfl⟩
      · rw [if_pos enum]
        rfl
      · rw [if_neg (by simp [domain]),if_neg (by simp [domain]),if_pos domain,ih below]
        rfl
      · have noComposite : row.kind ≠ "c" := by
          intro composite
          have category := apart oid row found composite
          rw [array.1] at category
          exact absurd category (by decide)
        rw [if_neg noEnum,if_neg noComposite,if_neg noDomain,if_pos array,ih below]
        rfl

end

-- From any starting depth.
theorem resolvers_agree (rows : LiveRows) (apart : CompositesApart rows) (oid depth : Nat) (t : PgType)
    (resolved : resolveType rows (maxTypeResolutionDepth - depth) oid = some t) :
    resolveNeutralWithin rows (maxTypeResolutionDepth - depth) oid = neutralTypeFor t :=
  resolveNeutral_type apart resolved

-- An array of a domain over a built-in type, and a domain that is its own base.
def domainRows : LiveRows where
  fromOid oid := if oid = 25 then some (.simple "text") else none
  types := [⟨100,⟨"zip","public","d",25,0,"S"⟩⟩,⟨101,⟨"_zip","public","b",0,100,"A"⟩⟩,⟨102,⟨"loop","public","d",102,0,"S"⟩⟩,
    ⟨103,⟨"pair","public","c",0,0,"C"⟩⟩].toAList
  enumLabels := ∅
  scope := ["public"]
  columns := []
  composites := []

theorem domainRows_agree : resolveNeutralWithin domainRows (maxTypeResolutionDepth - 3) 101 = some "array<string>" := by
  have apart : CompositesApart domainRows := by
    intro oid row found composite
    have member := AList.mem_lookup_iff.mp found
    have all : ∀ entry ∈ domainRows.types.entries,entry.2.kind = "c" → entry.2.category = "C" := by decide
    exact all _ member composite
  exact resolvers_agree domainRows apart 101 3 (.array (.domain (.simple "text"))) (by decide)

end Scythe.Drift
