import Scythe.Ddl
import Scythe.Lib.EnumTypes
import Scythe.Lib.Spelling

-- ALTER TYPE beside what PostgreSQL makes of the same statements.
namespace Scythe
open Text EnumTypes Spelling

inductive AlterTypeAddValuePosition where
  | before (neighbor : Ident)
  | after (neighbor : Ident)

inductive AlterTypeOperation where
  | addValue (ifNotExists : Bool) (value : Ident) (position : Option AlterTypeAddValuePosition)
  | renameValue (old new : Ident)
  | rename (newName : Ident)

inductive TypeStatement where
  | createEnum (name : ObjectName) (labels : List Ident)
  | alterType (name : ObjectName) (operation : AlterTypeOperation)

-- The first of the values that is the old one.
def renameFirst (old new : String) : List String → List String
  | [] => []
  | value :: values => if value = old then new :: values else value :: renameFirst old new values

section
variable [CaseMap]

def processAlterType (catalog : Catalog) (name : ObjectName) : AlterTypeOperation → Catalog
  | .addValue _ value _ =>
    let typeKey := objectNameToKey name
    match catalog.enums.lookup typeKey with
    | some enumType => { catalog with enums := catalog.enums.insert typeKey ⟨enumType.values ++ [value.value]⟩ }
    | none => catalog
  | .renameValue old new =>
    let typeKey := objectNameToKey name
    match catalog.enums.lookup typeKey with
    | some enumType =>
      { catalog with enums := catalog.enums.insert typeKey ⟨renameFirst old.value new.value enumType.values⟩ }
    | none => catalog
  | .rename newName =>
    let typeKey := objectNameToKey name
    let newKey := CaseMap.lowercase newName.value
    let enums := match catalog.enums.lookup typeKey with
      | some e => (catalog.enums.erase typeKey).insert newKey e
      | none => catalog.enums
    let composites := match catalog.composites.lookup typeKey with
      | some c => (catalog.composites.erase typeKey).insert newKey c
      | none => catalog.composites
    { catalog with enums := enums, composites := composites }

variable [Printer] in
def processTypeStatement (dialect : SqlDialect) (catalog : Catalog) : TypeStatement → Catalog
  | .createEnum name labels => processCreateType dialect catalog name (.enum labels)
  | .alterType name operation => processAlterType catalog name operation

end

-- A type of the database: its schema and its name, as PostgreSQL folds them.
structure TypeName where
  schema : String
  name : String
  deriving DecidableEq

-- What a session fixes: the schemas in which a bare name is looked for, the one
-- in which it is created, the schemas there are, and how long a label may be.
structure Session where
  searched : List String
  current : String
  hasSchema : String → Bool
  fits : String → Bool

abbrev DatabaseTypes := Types TypeName String

section
variable [CaseMap]

-- A name of one part, or of two: the schema and the name.
def writtenName : ObjectName → Option (Option String × String)
  | [.identifier name] => some (none,identToLower name)
  | [.identifier schema,.identifier name] => some (some (identToLower schema),identToLower name)
  | _ => none

namespace Session

variable (session : Session)

def created (name : ObjectName) : Option TypeName :=
  match writtenName name with
  | some (none,name) => some ⟨session.current,name⟩
  | some (some schema,name) => if session.hasSchema schema then some ⟨schema,name⟩ else none
  | none => none

def found (types : DatabaseTypes) (name : ObjectName) : Option TypeName :=
  match writtenName name with
  | some (none,name) => (session.searched.map (TypeName.mk · name)).find? fun q => (types q).isSome
  | some (some schema,name) => if (types ⟨schema,name⟩).isSome then some ⟨schema,name⟩ else none
  | none => none

def place : Option AlterTypeAddValuePosition → Place String
  | none => .last
  | some (.before neighbor) => .before neighbor.value
  | some (.after neighbor) => .after neighbor.value

def command (types : DatabaseTypes) : TypeStatement → Option (Command TypeName String)
  | .createEnum name labels => (session.created name).map fun q => .create q (labels.map (·.value))
  | .alterType name (.addValue ifNotExists value position) =>
    (session.found types name).map fun q => .addValue q ifNotExists value.value (place position)
  | .alterType name (.renameValue old new) => (session.found types name).map fun q => .renameValue q old.value new.value
  | .alterType name (.rename newName) =>
    (session.found types name).map fun q => .rename q ⟨q.schema,identToLower newName⟩

-- A statement that PostgreSQL refuses leaves the types as they are.
def step (types : DatabaseTypes) (statement : TypeStatement) : DatabaseTypes :=
  match session.command types statement with
  | some command => EnumTypes.process session.fits types command
  | none => types

-- The catalog's keys and the database's names, each with its schema. A key
-- without one belongs to the schema that a bare name is created in.
def spelled (key : String) : String :=
  if contains key "." then key else CaseMap.lowercase session.current ++ "." ++ key

end Session

def TypeName.spelled (q : TypeName) : String := CaseMap.lowercase q.schema ++ "." ++ CaseMap.lowercase q.name

end

def enumValues (catalog : Catalog) (key : String) : Option (List String) := (catalog.enums.lookup key).map (·.values)

section
variable [CaseMap]

-- The catalog's enums are the database's, each with the labels it has there in
-- the order they have there.
def EnumsFollow (session : Session) (catalog : Catalog) (types : DatabaseTypes) : Prop :=
  Match (enumValues catalog) session.spelled (enumLabels types) TypeName.spelled

-- The name of a statement stands in the catalog for the enum that PostgreSQL finds.
structure Addresses (session : Session) (catalog : Catalog) (types : DatabaseTypes) (name : ObjectName) (q : TypeName)
    (labels : List String) : Prop where
  found : session.found types name = some q
  held : enumLabels types q = some labels
  registered : objectNameToKey name ∈ catalog.enums
  spelled : session.spelled (objectNameToKey name) = q.spelled

def SoundStep (session : Session) (catalog : Catalog) (types : DatabaseTypes) : TypeStatement → Prop
  | .createEnum name labels =>
    (∃ q,session.created name = some q ∧ types q = none ∧ (labels.map (·.value)).Nodup ∧
      (labels.map (·.value)).all session.fits ∧ session.spelled (objectNameToKey name) = q.spelled ∧
        ∀ key ∈ catalog.enums,session.spelled key ≠ q.spelled) ∨
    enumLabels (session.step types (.createEnum name labels)) = enumLabels types ∧
      catalog.enums.lookup (objectNameToKey name) = some ⟨labels.map (·.value)⟩
  | .alterType name (.addValue ifNotExists value position) =>
    (∃ q labels,Addresses session catalog types name q labels ∧ value.value ∉ labels ∧ session.fits value.value ∧
      (position = none ∨ ∃ neighbor,position = some (.after neighbor) ∧ labels.getLast? = some neighbor.value)) ∨
    objectNameToKey name ∉ catalog.enums ∧
      enumLabels (session.step types (.alterType name (.addValue ifNotExists value position))) = enumLabels types
  | .alterType name (.renameValue old new) =>
    (∃ q labels,Addresses session catalog types name q labels ∧
      (old.value ∉ labels ∨ old.value = new.value ∨ new.value ∉ labels ∧ session.fits new.value)) ∨
    objectNameToKey name ∉ catalog.enums ∧
      enumLabels (session.step types (.alterType name (.renameValue old new))) = enumLabels types
  | .alterType name (.rename newName) =>
    (∃ q labels,Addresses session catalog types name q labels ∧ types ⟨q.schema,identToLower newName⟩ = none ∧
      session.spelled (CaseMap.lowercase newName.value) = TypeName.spelled ⟨q.schema,identToLower newName⟩ ∧
      (∀ key ∈ catalog.enums,session.spelled key = session.spelled (CaseMap.lowercase newName.value) →
        key = objectNameToKey name) ∧
      ∀ entry ∈ catalog.tables.entries,∀ column ∈ entry.2.columns,
        resolvedKey catalog.enums column.sqlType catalog.searchPath = some (objectNameToKey name) →
          CaseMap.lowercase column.sqlType = CaseMap.lowercase newName.value) ∨
    (objectNameToKey name ∈ catalog.enums → CaseMap.lowercase newName.value = objectNameToKey name) ∧
      enumLabels (session.step types (.alterType name (.rename newName))) = enumLabels types

end

theorem enumValues_insert (catalog : Catalog) (key : String) (values : List String) :
    enumValues { catalog with enums := catalog.enums.insert key ⟨values⟩ } =
      Function.update (enumValues catalog) key (some values) := by
  funext other
  unfold enumValues
  by_cases same : other = key
  · subst same
    simp
  · simp [same]

theorem enumValues_isSome {catalog : Catalog} {key : String} : (enumValues catalog key).isSome ↔ key ∈ catalog.enums := by
  simp [enumValues,AList.lookup_isSome]

theorem enumLabels_set (types : DatabaseTypes) (q : TypeName) (kind : Option (Kind String)) :
    enumLabels (Function.update types q kind) = Function.update (enumLabels types) q (kind.bind Kind.labels) := by
  funext other
  rw [enumLabels_update,Function.update_apply]

theorem renameFirst_absent {old new : String} {values : List String} (absent : old ∉ values) :
    renameFirst old new values = values := by
  induction values with
  | nil => rfl
  | cons value values ih =>
    obtain ⟨different,later⟩ := not_or.mp (List.mem_cons.not.mp absent)
    rw [renameFirst,if_neg (Ne.symm different),ih later]

theorem renameFirst_self (value : String) (values : List String) : renameFirst value value values = values := by
  induction values with
  | nil => rfl
  | cons head values ih =>
    unfold renameFirst
    split
    · rename_i same
      rw [same]
    · rw [ih]

theorem renameFirst_nodup {old new : String} {values : List String} (distinct : values.Nodup) :
    renameFirst old new values = values.map fun value => if value = old then new else value := by
  induction values with
  | nil => rfl
  | cons head values ih =>
    obtain ⟨outside,distinct⟩ := List.nodup_cons.mp distinct
    rw [renameFirst,List.map_cons]
    split
    · rename_i same
      have others : (values.map fun value => if value = old then new else value) = values := by
        refine (List.map_congr_left fun value member => if_neg ?_).trans (List.map_id _)
        rintro rfl
        exact outside (same ▸ member)
      rw [others]
    · rw [ih distinct]

section
variable [CaseMap] {session : Session} {catalog after : Catalog} {types others : DatabaseTypes}

theorem follows_kept (follows : EnumsFollow session catalog types) (values : enumValues after = enumValues catalog)
    (labels : enumLabels others = enumLabels types) : EnumsFollow session after others := by
  unfold EnumsFollow
  rw [values,labels]
  exact follows

theorem processAlterType_unregistered {name : ObjectName} (operation : AlterTypeOperation)
    (unregistered : objectNameToKey name ∉ catalog.enums) :
    enumValues (processAlterType catalog name operation) = enumValues catalog := by
  have absent := AList.lookup_eq_none.mpr unregistered
  funext key
  cases operation <;> simp only [processAlterType,absent,enumValues]

theorem Addresses.values {name : ObjectName} {q : TypeName} {labels : List String} (follows : EnumsFollow session catalog types)
    (address : Addresses session catalog types name q labels) :
    catalog.enums.lookup (objectNameToKey name) = some ⟨labels⟩ := by
  have shown := follows.value address.spelled (enumValues_isSome.mpr address.registered) address.held
  obtain ⟨enumType,found,same⟩ := Option.map_eq_some_iff.mp shown
  rw [found,←same]

theorem Addresses.set {name : ObjectName} {q : TypeName} {labels : List String} (follows : EnumsFollow session catalog types)
    (address : Addresses session catalog types name q labels) (kind : Option (Kind String)) :
    Match (Function.update (enumValues catalog) (objectNameToKey name) (kind.bind Kind.labels)) session.spelled
      (enumLabels (Function.update types q kind)) TypeName.spelled := by
  rw [enumLabels_set]
  apply follows.set address.spelled
  · exact free_of_apart follows.left (enumValues_isSome.mpr address.registered)
  · exact free_of_apart follows.right (Option.isSome_of_eq_some address.held)

theorem step_added {name : ObjectName} {q : TypeName} {labels : List String} (follows : EnumsFollow session catalog types)
    (distinct : Distinct types) (address : Addresses session catalog types name q labels) {value : Ident}
    (fresh : value.value ∉ labels) (fits : session.fits value.value) {position : Option AlterTypeAddValuePosition}
    (last : position = none ∨ ∃ neighbor,position = some (.after neighbor) ∧ labels.getLast? = some neighbor.value)
    (ifNotExists : Bool) :
    EnumsFollow session (processAlterType catalog name (.addValue ifNotExists value position))
      (session.step types (.alterType name (.addValue ifNotExists value position))) := by
  have place : put value.value labels (Session.place position) = some (labels ++ [value.value]) := by
    rcases last with rfl | ⟨neighbor,rfl,last⟩
    · rfl
    · exact insertAfter_last (distinct q labels address.held) last
  have added : addValue session.fits ifNotExists value.value (Session.place position) labels =
      some (labels ++ [value.value]) := by rw [addValue,if_neg fresh,if_pos fits,place]
  have database : session.step types (.alterType name (.addValue ifNotExists value position)) =
      Function.update types q (some (.enum (labels ++ [value.value]))) := by
    simp only [Session.step,Session.command,address.found,Option.map_some,EnumTypes.process,accept,address.held,added,
      Option.bind_eq_bind,Option.bind_some,Option.getD_some]
  rw [database]
  simp only [processAlterType,address.values follows]
  unfold EnumsFollow
  rw [enumValues_insert]
  exact address.set follows (some (.enum (labels ++ [value.value])))

theorem step_valueRenamed {name : ObjectName} {q : TypeName} {labels : List String} (follows : EnumsFollow session catalog types)
    (distinct : Distinct types) (address : Addresses session catalog types name q labels) {old new : Ident}
    (safe : old.value ∉ labels ∨ old.value = new.value ∨ new.value ∉ labels ∧ session.fits new.value) :
    EnumsFollow session (processAlterType catalog name (.renameValue old new))
      (session.step types (.alterType name (.renameValue old new))) := by
  have values := address.values follows
  have refused (no : renameValue session.fits old.value new.value labels = none) :
      session.step types (.alterType name (.renameValue old new)) = types := by
    simp only [Session.step,Session.command,address.found,Option.map_some,EnumTypes.process,accept,address.held,no,
      Option.bind_eq_bind,Option.bind_some,Option.bind_none,Option.getD_none]
  have kept (same : renameFirst old.value new.value labels = labels) :
      enumValues (processAlterType catalog name (.renameValue old new)) = enumValues catalog := by
    simp only [processAlterType,values,same]
    rw [enumValues_insert]
    apply Function.update_eq_self_iff.mpr
    rw [enumValues,values]
    rfl
  by_cases present : old.value ∈ labels
  · by_cases itself : old.value = new.value
    · rw [refused (if_neg fun given => given.2.1 (itself ▸ present))]
      refine follows_kept follows (kept ?_) rfl
      rw [←itself]
      exact renameFirst_self _ _
    · obtain ⟨fresh,fits⟩ := (safe.resolve_left (not_not_intro present)).resolve_left itself
      have renamed : renameValue session.fits old.value new.value labels =
          some (renameFirst old.value new.value labels) := by
        rw [renameValue,if_pos ⟨present,fresh,fits⟩,renameFirst_nodup (distinct q labels address.held)]
      have database : session.step types (.alterType name (.renameValue old new)) =
          Function.update types q (some (.enum (renameFirst old.value new.value labels))) := by
        simp only [Session.step,Session.command,address.found,Option.map_some,EnumTypes.process,accept,address.held,renamed,
          Option.bind_eq_bind,Option.bind_some,Option.getD_some]
      rw [database]
      simp only [processAlterType,values]
      unfold EnumsFollow
      rw [enumValues_insert]
      exact address.set follows (some (.enum (renameFirst old.value new.value labels)))
  · rw [refused (if_neg fun given => present given.1)]
    exact follows_kept follows (kept (renameFirst_absent present)) rfl

theorem step_renamed {name : ObjectName} {q : TypeName} {labels : List String} (follows : EnumsFollow session catalog types)
    (address : Addresses session catalog types name q labels) {newName : Ident}
    (unused : types ⟨q.schema,identToLower newName⟩ = none)
    (spelled : session.spelled (CaseMap.lowercase newName.value) = TypeName.spelled ⟨q.schema,identToLower newName⟩)
    (free : ∀ key ∈ catalog.enums,session.spelled key = session.spelled (CaseMap.lowercase newName.value) →
      key = objectNameToKey name) :
    EnumsFollow session (processAlterType catalog name (.rename newName))
      (session.step types (.alterType name (.rename newName))) := by
  have values := address.values follows
  have enum := enumLabels_enum address.held
  have database : session.step types (.alterType name (.rename newName)) =
      Function.update (Function.update types q none) ⟨q.schema,identToLower newName⟩ (some (.enum labels)) := by
    simp only [Session.step,Session.command,address.found,Option.map_some,EnumTypes.process,accept,enum,unused,if_true,
      Option.getD_some]
  have catalogs : enumValues (processAlterType catalog name (.rename newName)) =
      Function.update (Function.update (enumValues catalog) (objectNameToKey name) none)
        (CaseMap.lowercase newName.value) (some labels) := by
    funext key
    simp only [enumValues,processAlterType,values,Function.update_apply]
    by_cases new : key = CaseMap.lowercase newName.value
    · rw [if_pos new,new,AList.lookup_insert]
      rfl
    · rw [if_neg new,AList.lookup_insert_ne new]
      by_cases old : key = objectNameToKey name
      · rw [if_pos old,old,AList.lookup_erase]
        rfl
      · rw [if_neg old,AList.lookup_erase_ne old]
  have removed := address.set follows none
  have used (key : String) (held : (Function.update (enumValues catalog) (objectNameToKey name) none key).isSome) :
      key ≠ objectNameToKey name ∧ key ∈ catalog.enums := by
    rw [Function.update_apply] at held
    split at held
    · cases held
    · rename_i other
      exact ⟨other,enumValues_isSome.mp held⟩
  have freeKey : Free (Function.update (enumValues catalog) (objectNameToKey name) none) session.spelled
      (CaseMap.lowercase newName.value) := by
    intro key held same
    obtain ⟨other,registered⟩ := used key held
    exact absurd (free key registered same) other
  have fresh : Function.update (enumValues catalog) (objectNameToKey name) none (CaseMap.lowercase newName.value) =
      none := by
    by_contra held
    obtain ⟨other,registered⟩ := used _ (Option.isSome_iff_ne_none.mpr held)
    exact other (free _ registered rfl)
  have added := removed.set spelled freeKey (removed.free spelled freeKey fresh) (some labels)
  rw [database]
  unfold EnumsFollow
  rw [catalogs,enumLabels_set _ ⟨q.schema,identToLower newName⟩]
  exact added

-- After an enum is renamed, a column of it resolves to the renamed enum.
def ColumnsFollow (session : Session) (catalog after : Catalog) (types : DatabaseTypes) : TypeStatement → Prop
  | .alterType name (.rename newName) => ∀ q labels,session.found types name = some q → enumLabels types q = some labels →
    types ⟨q.schema,identToLower newName⟩ = none →
      ∀ entry ∈ catalog.tables.entries,∀ column ∈ entry.2.columns,∀ key,
        resolvedKey catalog.enums column.sqlType catalog.searchPath = some key → session.spelled key = q.spelled →
          ∃ newKey,resolvedKey after.enums column.sqlType after.searchPath = some newKey ∧
            session.spelled newKey = TypeName.spelled ⟨q.schema,identToLower newName⟩
  | _ => True

theorem step_distinct (statement : TypeStatement) (distinct : Distinct types) : Distinct (session.step types statement) := by
  unfold Session.step
  split
  · exact process_distinct session.fits _ distinct
  · exact distinct

variable [Printer]

theorem step_created {name : ObjectName} {labels : List Ident} {q : TypeName} (follows : EnumsFollow session catalog types)
    (place : session.created name = some q) (unused : types q = none) (distinct : (labels.map (·.value)).Nodup)
    (fit : (labels.map (·.value)).all session.fits) (spelled : session.spelled (objectNameToKey name) = q.spelled)
    (free : ∀ key ∈ catalog.enums,session.spelled key ≠ q.spelled) (dialect : SqlDialect) :
    EnumsFollow session (processTypeStatement dialect catalog (.createEnum name labels))
      (session.step types (.createEnum name labels)) := by
  have database : session.step types (.createEnum name labels) =
      Function.update types q (some (.enum (labels.map (·.value)))) := by
    simp only [Session.step,Session.command,place,Option.map_some,EnumTypes.process,accept]
    rw [if_pos ⟨unused,distinct,fit⟩,Option.getD_some]
  have freeKey : Free (enumValues catalog) session.spelled (objectNameToKey name) := by
    intro key held same
    exact absurd (same.trans spelled) (free key (enumValues_isSome.mp held))
  have fresh : enumValues catalog (objectNameToKey name) = none := by
    by_contra held
    exact free _ (enumValues_isSome.mp (Option.isSome_iff_ne_none.mpr held)) spelled
  rw [database]
  unfold EnumsFollow processTypeStatement processCreateType
  dsimp only
  rw [enumValues_insert,enumLabels_set]
  exact follows.set spelled freeKey (follows.free spelled freeKey fresh) (some (labels.map (·.value)))

theorem step_follows {statement : TypeStatement} (follows : EnumsFollow session catalog types) (distinct : Distinct types)
    (sound : SoundStep session catalog types statement) (dialect : SqlDialect) :
    EnumsFollow session (processTypeStatement dialect catalog statement) (session.step types statement) := by
  cases statement with
  | createEnum name labels =>
    rcases sound with ⟨q,place,unused,nodup,fit,spelled,free⟩ | ⟨kept,same⟩
    · exact step_created follows place unused nodup fit spelled free dialect
    · refine follows_kept follows ?_ kept
      unfold processTypeStatement processCreateType
      dsimp only
      rw [enumValues_insert]
      apply Function.update_eq_self_iff.mpr
      rw [enumValues,same]
      rfl
  | alterType name operation =>
    cases operation with
    | addValue ifNotExists value position =>
      rcases sound with ⟨q,labels,address,fresh,fits,last⟩ | ⟨unregistered,kept⟩
      · exact step_added follows distinct address fresh fits last ifNotExists
      · exact follows_kept follows (processAlterType_unregistered _ unregistered) kept
    | renameValue old new =>
      rcases sound with ⟨q,labels,address,safe⟩ | ⟨unregistered,kept⟩
      · exact step_valueRenamed follows distinct address safe
      · exact follows_kept follows (processAlterType_unregistered _ unregistered) kept
    | rename newName =>
      rcases sound with ⟨q,labels,address,unused,spelled,free,_⟩ | ⟨itself,kept⟩
      · exact step_renamed follows address unused spelled free
      · refine follows_kept follows ?_ kept
        by_cases registered : objectNameToKey name ∈ catalog.enums
        · obtain ⟨enumType,found⟩ := Option.isSome_iff_exists.mp (AList.lookup_isSome.mpr registered)
          funext key
          simp only [processTypeStatement,enumValues,processAlterType,found,itself registered]
          by_cases same : key = objectNameToKey name
          · rw [same,AList.lookup_insert,found]
          · rw [AList.lookup_insert_ne same,AList.lookup_erase_ne same]
        · exact processAlterType_unregistered _ registered

theorem step_columns {statement : TypeStatement} (follows : EnumsFollow session catalog types)
    (sound : SoundStep session catalog types statement) (dialect : SqlDialect) :
    ColumnsFollow session catalog (processTypeStatement dialect catalog statement) types statement := by
  cases statement with
  | createEnum => trivial
  | alterType name operation =>
    cases operation with
    | addValue => trivial
    | renameValue => trivial
    | rename newName =>
      intro q labels found held unused entry member column inside key resolved spelled
      rcases sound with ⟨q',labels',address,_,spelledNew,_,columns⟩ | ⟨_,kept⟩
      · have same : q = q' := Option.some.inj (found.symm.trans address.found)
        subst same
        have isKey : key = objectNameToKey name :=
          follows.left key _ (enumValues_isSome.mpr (resolvedKey_registered resolved))
            (enumValues_isSome.mpr address.registered) (spelled.trans address.spelled.symm)
        have text := columns entry member column inside (isKey ▸ resolved)
        refine ⟨CaseMap.lowercase newName.value,?_,spelledNew⟩
        unfold resolvedKey
        rw [text]
        apply if_pos
        simp only [processTypeStatement,processAlterType,address.values follows]
        exact AList.mem_insert _ |>.mpr (.inl rfl)
      · exfalso
        have enum := enumLabels_enum held
        have other : q ≠ ⟨q.schema,identToLower newName⟩ := by
          intro same
          rw [←same,enum] at unused
          cases unused
        have gone := congrFun kept q
        simp only [Session.step,Session.command,found,Option.map_some,EnumTypes.process,accept,enum,unused,if_true,
          Option.getD_some] at gone
        rw [enumLabels_update,if_neg other,enumLabels_update,if_pos rfl,held] at gone
        cases gone

def processTypeStatements (dialect : SqlDialect) (catalog : Catalog) (statements : List TypeStatement) : Catalog :=
  statements.foldl (processTypeStatement dialect) catalog

def Session.steps (session : Session) (types : DatabaseTypes) (statements : List TypeStatement) : DatabaseTypes :=
  statements.foldl session.step types

def SoundRun (session : Session) (dialect : SqlDialect) : Catalog → DatabaseTypes → List TypeStatement → Prop
  | _,_,[] => True
  | catalog,types,statement :: rest =>
    SoundStep session catalog types statement ∧
      SoundRun session dialect (processTypeStatement dialect catalog statement) (session.step types statement) rest

theorem soundRun_append {dialect : SqlDialect} {done rest : List TypeStatement}
    (sound : SoundRun session dialect catalog types (done ++ rest)) :
    SoundRun session dialect catalog types done ∧
      SoundRun session dialect (processTypeStatements dialect catalog done) (session.steps types done) rest := by
  induction done generalizing catalog types with
  | nil => exact ⟨trivial,sound⟩
  | cons statement done ih =>
    obtain ⟨first,later⟩ := ih sound.2
    exact ⟨⟨sound.1,first⟩,later⟩

theorem run_follows {dialect : SqlDialect} {statements : List TypeStatement} (follows : EnumsFollow session catalog types)
    (distinct : Distinct types) (sound : SoundRun session dialect catalog types statements) :
    EnumsFollow session (processTypeStatements dialect catalog statements) (session.steps types statements) ∧
      Distinct (session.steps types statements) := by
  induction statements generalizing catalog types with
  | nil => exact ⟨follows,distinct⟩
  | cons statement rest ih =>
    exact ih (step_follows follows distinct sound.1 dialect) (step_distinct statement distinct) sound.2

-- In a run whose statements the catalog takes as PostgreSQL does, the catalog has
-- the enums of the database in every state, no label twice, and the columns of an
-- enum that is renamed resolve to it.
theorem altered_enums_follow (dialect : SqlDialect) (statements : List TypeStatement)
    (follows : EnumsFollow session catalog types) (distinct : Distinct types)
    (sound : SoundRun session dialect catalog types statements) :
    (∀ done rest,statements = done ++ rest →
      EnumsFollow session (processTypeStatements dialect catalog done) (session.steps types done) ∧
        ∀ key values,enumValues (processTypeStatements dialect catalog done) key = some values → values.Nodup) ∧
    ∀ done statement rest,statements = done ++ statement :: rest →
      ColumnsFollow session (processTypeStatements dialect catalog done)
        (processTypeStatements dialect catalog (done ++ [statement])) (session.steps types done) statement := by
  constructor
  · intro done rest parts
    subst parts
    obtain ⟨followsDone,distinctDone⟩ := run_follows follows distinct (soundRun_append sound).1
    refine ⟨followsDone,fun key values held => ?_⟩
    obtain ⟨q,labels,_⟩ := (followsDone.same _ _).mp ⟨key,held,rfl⟩
    exact distinctDone q values labels
  · intro done statement rest parts
    subst parts
    obtain ⟨before,later⟩ := soundRun_append sound
    have step := step_columns (run_follows follows distinct before).1 later.1 dialect
    have last : processTypeStatements dialect catalog (done ++ [statement]) =
        processTypeStatement dialect (processTypeStatements dialect catalog done) statement := by
      unfold processTypeStatements
      rw [List.foldl_append]
      rfl
    rw [last]
    exact step

end

-- A schema that adds a label which is there.
section
local instance enumCase : CaseMap := ascii

local instance enumPrinter : Printer where
  query _ := ""
  dataType _ := ""
  expr _ := ""

def publicSession : Session := ⟨["public"],"public",fun _ => true,fun label => label.utf8ByteSize ≤ 63⟩

def moodName : ObjectName := [.identifier ⟨"mood",false⟩]
def label (text : String) : Ident := ⟨text,true⟩

def newMood : TypeStatement := .createEnum moodName [label "sad"]
def happyAdded : TypeStatement := .alterType moodName (.addValue false (label "happy") none)
def sadRenamed : TypeStatement := .alterType moodName (.renameValue (label "sad") (label "blue"))

theorem mood_follows : ∃ catalog : Catalog,enumValues catalog "mood" = some ["blue","happy"] ∧
    EnumsFollow publicSession catalog (publicSession.steps (fun _ => none) [newMood,happyAdded,sadRenamed]) := by
  have start : EnumsFollow publicSession (Catalog.new .postgreSQL) fun _ => none := by
    refine ⟨?_,?_,?_⟩
    · intro key other used
      cases used
    · intro name other used
      cases used
    · intro text value
      constructor
      · rintro ⟨key,held,_⟩
        cases held
      · rintro ⟨name,held,_⟩
        cases held
  have sound : SoundRun publicSession .postgreSQL (Catalog.new .postgreSQL) (fun _ => none)
      [newMood,happyAdded,sadRenamed] := by
    refine ⟨.inl ⟨⟨"public","mood"⟩,rfl,rfl,by decide,by decide,rfl,?_⟩,
      .inl ⟨⟨"public","mood"⟩,["sad"],⟨rfl,rfl,by decide,rfl⟩,by decide,by decide,.inl rfl⟩,
      .inl ⟨⟨"public","mood"⟩,["sad","happy"],⟨rfl,rfl,by decide,rfl⟩,.inr (.inr ⟨by decide,by decide⟩)⟩,trivial⟩
    intro key registered
    cases registered
  obtain ⟨run,_⟩ := altered_enums_follow .postgreSQL [newMood,happyAdded,sadRenamed] start
    (by intro name labels held; cases held) sound
  exact ⟨_,rfl,(run [newMood,happyAdded,sadRenamed] [] rfl).1⟩

def sadAgain : TypeStatement := .alterType moodName (.addValue true (label "sad") none)
def angryFirst : TypeStatement := .alterType moodName (.addValue false (label "angry") (some (.before (label "sad"))))
def moodRenamed : TypeStatement := .alterType moodName (.rename ⟨"feeling",false⟩)

def personsTable : Table := ⟨[⟨"mood","mood",true,none,false⟩],"persons"⟩
def withPersons : Catalog := { Catalog.new .postgreSQL with tables := AList.singleton "persons" personsTable }

def catalogAfter (statements : List TypeStatement) : Catalog := processTypeStatements .postgreSQL withPersons statements
def databaseAfter (statements : List TypeStatement) : DatabaseTypes := publicSession.steps (fun _ => none) statements

theorem enum_strays :
    enumValues (catalogAfter [newMood,sadAgain]) "mood" = some ["sad","sad"] ∧
      enumLabels (databaseAfter [newMood,sadAgain]) ⟨"public","mood"⟩ = some ["sad"] ∧
    enumValues (catalogAfter [newMood,angryFirst]) "mood" = some ["sad","angry"] ∧
      enumLabels (databaseAfter [newMood,angryFirst]) ⟨"public","mood"⟩ = some ["angry","sad"] ∧
    ¬EnumsFollow publicSession (catalogAfter [newMood,sadAgain]) (databaseAfter [newMood,sadAgain]) ∧
    ¬ColumnsFollow publicSession (catalogAfter [newMood]) (catalogAfter [newMood,moodRenamed])
      (databaseAfter [newMood]) moodRenamed := by
  refine ⟨rfl,rfl,rfl,rfl,?_,?_⟩
  · intro follows
    have shown : Shows (enumValues (catalogAfter [newMood,sadAgain])) publicSession.spelled "public.mood" ["sad","sad"] :=
      ⟨"mood",rfl,rfl⟩
    have held : Shows (enumLabels (databaseAfter [newMood,sadAgain])) TypeName.spelled "public.mood" ["sad"] :=
      ⟨⟨"public","mood"⟩,rfl,rfl⟩
    have same := shows_unique follows.left shown ((follows.same _ _).mpr held)
    cases same
  · intro follow
    obtain ⟨newKey,resolved,_⟩ := follow ⟨"public","mood"⟩ ["sad"] rfl rfl rfl ⟨"persons",personsTable⟩
      List.mem_cons_self _ List.mem_cons_self "mood" rfl rfl
    cases resolved

end
end Scythe
