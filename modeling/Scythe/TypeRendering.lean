import Mathlib.Data.List.AList
import Scythe.Lib.BracketTerms
import Scythe.Lib.Templates
import Scythe.Identifiers
import Scythe.SplitOperators

-- Neutral types in the words of a target language, as the manifest of a backend
-- gives them.
namespace Scythe.TypeRendering
open Text BracketTerms
open Identifiers (NamingConfig enumTypeName compositeTypeName)

abbrev Mapping := AList fun _ : String => String

structure BackendMeta where
  name : String
  language : String
  fileExtension : String
  engine : String
  description : Option String
  deriving DecidableEq,Repr

structure TypeMappings where
  scalars : Mapping
  containers : Mapping
  docblockContainers : Mapping
  deriving DecidableEq

structure ImportConfig where
  rules : Mapping
  deriving DecidableEq

structure BackendManifest where
  backend : BackendMeta
  types : TypeMappings
  naming : NamingConfig
  imports : Option ImportConfig
  deriving DecidableEq

inductive BackendError where
  | unknownType (neutral : String)
  | unknownContainer (name : String)
  | manifestError (message : String)
  | unrecognizedNullableRendering (langType fullType : String)
  deriving DecidableEq,Repr

inductive TypePosition where
  | native
  | docblock
  deriving DecidableEq,Repr

def containerPattern (name : String) (manifest : BackendManifest) : TypePosition → Option String
  | .native => manifest.types.containers.lookup name
  | .docblock => (manifest.types.docblockContainers.lookup name).orElse fun _ => manifest.types.containers.lookup name

-- The pattern of a container with a type in it.
def inPattern (pattern : String) (resolved : List Char) : List Char :=
  SplitOperators.replace pattern.toList "\x7bT\x7d" (String.ofList resolved)

variable [CaseMap]

-- What has no container around it.
def resolveName (neutral : List Char) (manifest : BackendManifest) : Except BackendError (List Char) :=
  match stripPrefix (String.ofList neutral) "enum::" with
  | some sqlName => .ok (enumTypeName manifest.naming sqlName).toList
  | none =>
    match stripPrefix (String.ofList neutral) "composite::" with
    | some sqlName => .ok (compositeTypeName manifest.naming sqlName).toList
    | none =>
      match manifest.types.scalars.lookup (String.ofList neutral) with
      | some langType => .ok langType.toList
      | none =>
        if (neutral.head?.map CaseMap.isUpper).getD false then .ok neutral
        else .error (.unknownType (String.ofList neutral))

omit [CaseMap] in
theorem inner_shorter {neutral name rest inner : List Char} (found : splitFirst ['<'] neutral = some (name,rest))
    (closed : ['>'].isSuffixOf? rest = some inner) : (trimChars inner).length < neutral.length := by
  have whole := splitFirst_eq found
  have ends := stripSuffix_eq.mp (show stripSuffix (String.ofList rest) ">" = some (String.ofList inner) by
    simp [stripSuffix,closed])
  have parts := congrArg String.toList ends
  simp only [String.toList_ofList,String.toList_append] at parts
  have within := trim_length isSpace inner
  rw [whole,parts]
  simp only [List.length_append,List.length_cons]
  exact lt_of_le_of_lt within (by omega)

mutual

def resolveBaseTypeAt (neutral : List Char) (manifest : BackendManifest) (position : TypePosition) :
    Except BackendError (List Char) :=
  match tryResolveContainer neutral manifest position with
  | .error e => .error e
  | .ok (some resolved) => .ok resolved
  | .ok none => resolveName neutral manifest
termination_by (neutral.length,1)

-- The container is looked up before the text is seen to be closed.
def tryResolveContainer (neutral : List Char) (manifest : BackendManifest) (position : TypePosition) :
    Except BackendError (Option (List Char)) :=
  match found : splitFirst ['<'] neutral with
  | none => .ok none
  | some (name,rest) =>
    match containerPattern (String.ofList name) manifest position with
    | none => .error (.unknownContainer (String.ofList name))
    | some pattern =>
      match closed : ['>'].isSuffixOf? rest with
      | none => .error (.unknownType (String.ofList neutral))
      | some inner =>
        have := inner_shorter found closed
        match resolveBaseTypeAt (trimChars inner) manifest position with
        | .error e => .error e
        | .ok resolved => .ok (some (inPattern pattern resolved))
termination_by (neutral.length,0)

end

def wrapNullableAt (resolved : List Char) (manifest : BackendManifest) (position : TypePosition) :
    Except BackendError (List Char) :=
  match containerPattern "nullable" manifest position with
  | none => .error (.unknownContainer "nullable")
  | some pattern => .ok (inPattern pattern resolved)

def wrapNullable (resolved : List Char) (manifest : BackendManifest) : Except BackendError (List Char) :=
  wrapNullableAt resolved manifest .native

def resolveTypeAt (neutral : List Char) (manifest : BackendManifest) (nullable : Bool) (position : TypePosition) :
    Except BackendError (List Char) := do
  let base ← resolveBaseTypeAt neutral manifest position
  if nullable then wrapNullableAt base manifest position else pure base

def resolveType (neutral : List Char) (manifest : BackendManifest) (nullable : Bool) : Except BackendError (List Char) :=
  resolveTypeAt neutral manifest nullable .native

def resolveDocblockType (neutral : List Char) (manifest : BackendManifest) (nullable : Bool) :
    Except BackendError (List Char) :=
  resolveTypeAt neutral manifest nullable .docblock

def resolveBaseType (neutral : List Char) (manifest : BackendManifest) : Except BackendError (List Char) :=
  resolveBaseTypeAt neutral manifest .native

-- The type with its nullable wrapper where it is needed, and the type without it.
def resolveTypePair (neutral : List Char) (manifest : BackendManifest) (nullable : Bool) :
    Except BackendError (List Char × List Char) := do
  let langType ← resolveBaseType neutral manifest
  let fullType ← if nullable then wrapNullable langType manifest else pure langType
  pure (fullType,langType)

def parseRenderedNullable (langType fullType : List Char) (manifest : BackendManifest) : Except BackendError Bool :=
  if fullType = langType then .ok false
  else
    match wrapNullable langType manifest with
    | .error e => .error e
    | .ok wrapped =>
      if fullType = wrapped then .ok true
      else .error (.unrecognizedNullableRendering (String.ofList langType) (String.ofList fullType))

-- The brackets of neutral types.
def angles : Brackets Char := ⟨'<','>',isSpace,by decide,by decide⟩

-- What a type is in the target language, from the inside out.
def render (manifest : BackendManifest) (position : TypePosition) : Term Char → Option (List Char)
  | .leaf name => (resolveName name manifest).toOption
  | .wrap container inner =>
    (containerPattern (String.ofList container) manifest position).bind fun pattern =>
      (render manifest position inner).map (inPattern pattern)

-- What is wrong with a text, from the outside in.
inductive Defect (manifest : BackendManifest) (position : TypePosition) : List Char → BackendError → Prop where
  | name {text : List Char} {e : BackendError} (plain : angles.opener ∉ text)
      (unknown : resolveName text manifest = .error e) :
      Defect manifest position text e
  | container {name rest : List Char} (plain : angles.opener ∉ name)
      (unknown : containerPattern (String.ofList name) manifest position = none) :
      Defect manifest position (name ++ angles.opener :: rest) (.unknownContainer (String.ofList name))
  | unclosed {name rest : List Char} (plain : angles.opener ∉ name)
      (known : (containerPattern (String.ofList name) manifest position).isSome)
      (unclosed : ∀ padded,rest ≠ padded ++ [angles.closer]) :
      Defect manifest position (name ++ angles.opener :: rest)
        (.unknownType (String.ofList (name ++ angles.opener :: rest)))
  | inside {name padded : List Char} {e : BackendError} (plain : angles.opener ∉ name)
      (known : (containerPattern (String.ofList name) manifest position).isSome)
      (within : Defect manifest position (trim angles.blank padded) e) :
      Defect manifest position (name ++ angles.opener :: (padded ++ [angles.closer])) e

variable {manifest : BackendManifest} {position : TypePosition}

theorem tryResolveContainer_eq (neutral : List Char) :
    tryResolveContainer neutral manifest position =
      match splitFirst ['<'] neutral with
      | none => .ok none
      | some (name,rest) =>
        match containerPattern (String.ofList name) manifest position with
        | none => .error (.unknownContainer (String.ofList name))
        | some pattern =>
          match ['>'].isSuffixOf? rest with
          | none => .error (.unknownType (String.ofList neutral))
          | some inner => (resolveBaseTypeAt (trimChars inner) manifest position).map fun resolved =>
              some (inPattern pattern resolved) := by
  rw [tryResolveContainer]
  split
  · rename_i absent
    simp only [absent]
  · rename_i name rest found
    simp only [found]
    split
    · rfl
    · split
      · rename_i unclosed
        simp only [unclosed]
      · rename_i inner closed
        simp only [closed]
        cases resolveBaseTypeAt (trimChars inner) manifest position <;> rfl

theorem resolve_plain {text : List Char} (plain : angles.opener ∉ text) :
    resolveBaseTypeAt text manifest position = resolveName text manifest := by
  have absent : splitFirst ['<'] text = none := by
    rw [← Option.not_isSome_iff_eq_none,splitFirst_isSome,List.singleton_infix_iff]
    exact plain
  rw [resolveBaseTypeAt,tryResolveContainer_eq,absent]

theorem resolve_unknown {name rest : List Char} (plain : angles.opener ∉ name)
    (unknown : containerPattern (String.ofList name) manifest position = none) :
    resolveBaseTypeAt (name ++ angles.opener :: rest) manifest position =
      .error (.unknownContainer (String.ofList name)) := by
  rw [resolveBaseTypeAt,tryResolveContainer_eq,show splitFirst ['<'] (name ++ angles.opener :: rest) = some (name,rest) from
    splitFirst_single plain rest]
  simp only [unknown]

omit [CaseMap] in
theorem suffix_iff {rest padded : List Char} :
    ['>'].isSuffixOf? rest = some padded ↔ rest = padded ++ [angles.closer] := by
  unfold List.isSuffixOf?
  rw [Option.map_eq_some_iff]
  constructor
  · rintro ⟨front,found,rfl⟩
    have whole := congrArg List.reverse (List.isPrefixOf?_eq_some_iff_append_eq.mp found)
    simpa [angles] using whole.symm
  · rintro rfl
    exact ⟨padded.reverse,List.isPrefixOf?_eq_some_iff_append_eq.mpr (by simp [angles]),by simp⟩

theorem resolve_unclosed {name rest : List Char} (plain : angles.opener ∉ name)
    (known : (containerPattern (String.ofList name) manifest position).isSome)
    (unclosed : ∀ padded,rest ≠ padded ++ [angles.closer]) :
    resolveBaseTypeAt (name ++ angles.opener :: rest) manifest position =
      .error (.unknownType (String.ofList (name ++ angles.opener :: rest))) := by
  obtain ⟨pattern,is⟩ := Option.isSome_iff_exists.mp known
  rw [resolveBaseTypeAt,tryResolveContainer_eq,show splitFirst ['<'] (name ++ angles.opener :: rest) = some (name,rest) from
    splitFirst_single plain rest]
  have open' : ['>'].isSuffixOf? rest = none :=
    Option.eq_none_iff_forall_ne_some.mpr fun padded found => unclosed padded (suffix_iff.mp found)
  simp only [is,open']

theorem resolve_wrapped {name padded : List Char} {pattern : String} (plain : angles.opener ∉ name)
    (is : containerPattern (String.ofList name) manifest position = some pattern) :
    resolveBaseTypeAt (name ++ angles.opener :: (padded ++ [angles.closer])) manifest position =
      (resolveBaseTypeAt (trim angles.blank padded) manifest position).map (inPattern pattern) := by
  rw [resolveBaseTypeAt,tryResolveContainer_eq,show splitFirst ['<'] (name ++ angles.opener :: (padded ++ [angles.closer])) =
    some (name,padded ++ [angles.closer]) from splitFirst_single plain _]
  simp only [is,suffix_iff.mpr rfl]
  change _ = (resolveBaseTypeAt (trimChars padded) manifest position).map _
  cases resolveBaseTypeAt (trimChars padded) manifest position <;> rfl

-- A text resolves where it spells a type that can be rendered, and to that.
theorem resolve_iff (text resolved : List Char) :
    resolveBaseTypeAt text manifest position = .ok resolved ↔
      ∃ term,BracketTerms.Spells angles text term ∧ render manifest position term = some resolved := by
  induction text using text_induction angles generalizing resolved with
  | plain text plain =>
    simp only [resolve_plain plain,spells_plain plain,exists_eq_left,render]
    cases resolveName text manifest <;> simp [Except.toOption]
  | unclosed name rest plain unclosed =>
    constructor
    · intro done
      cases is : containerPattern (String.ofList name) manifest position with
      | none =>
        rw [resolve_unknown plain is] at done
        cases done
      | some pattern =>
        rw [resolve_unclosed plain (by simp [is]) unclosed] at done
        cases done
    · rintro ⟨term,spells,_⟩
      obtain ⟨padded,_,closed,_⟩ := spells_opened plain spells
      exact absurd closed (unclosed padded)
  | wrapped name padded plain ih =>
    cases is : containerPattern (String.ofList name) manifest position with
    | none =>
      rw [resolve_unknown plain is]
      constructor
      · intro done
        cases done
      · rintro ⟨term,spells,rendered⟩
        obtain ⟨inner,rfl,_⟩ := (spells_wrapped plain).mp spells
        simp [render,is] at rendered
    | some pattern =>
      rw [resolve_wrapped plain is]
      constructor
      · intro done
        cases within : resolveBaseTypeAt (trim angles.blank padded) manifest position with
        | error e =>
          rw [within] at done
          cases done
        | ok inside =>
          rw [within] at done
          cases done
          obtain ⟨inner,spells,rendered⟩ := (ih inside).mp within
          exact ⟨.wrap name inner,(spells_wrapped plain).mpr ⟨inner,rfl,spells⟩,by simp [render,is,rendered]⟩
      · rintro ⟨term,spells,rendered⟩
        obtain ⟨inner,rfl,within⟩ := (spells_wrapped plain).mp spells
        simp only [render,is,Option.bind_some,Option.map_eq_some_iff] at rendered
        obtain ⟨inside,rendered,rfl⟩ := rendered
        rw [(ih inside).mpr ⟨inner,within,rendered⟩]
        rfl

-- A text that does not resolve has a defect, and the first one from the outside is told.
theorem refused_iff (text : List Char) (e : BackendError) :
    resolveBaseTypeAt text manifest position = .error e ↔ Defect manifest position text e := by
  constructor
  · intro refused
    induction text using text_induction angles with
    | plain text plain => exact .name plain (by rwa [resolve_plain plain] at refused)
    | unclosed name rest plain unclosed =>
      cases is : containerPattern (String.ofList name) manifest position with
      | none =>
        rw [resolve_unknown plain is] at refused
        cases refused
        exact .container plain is
      | some pattern =>
        have known : (containerPattern (String.ofList name) manifest position).isSome := by simp [is]
        rw [resolve_unclosed plain known unclosed] at refused
        cases refused
        exact .unclosed plain known unclosed
    | wrapped name padded plain ih =>
      cases is : containerPattern (String.ofList name) manifest position with
      | none =>
        rw [resolve_unknown plain is] at refused
        cases refused
        exact .container plain is
      | some pattern =>
        rw [resolve_wrapped plain is] at refused
        refine .inside plain (by simp [is]) (ih ?_)
        cases within : resolveBaseTypeAt (trim angles.blank padded) manifest position with
        | error e => rw [within] at refused; cases refused; rfl
        | ok inside => rw [within] at refused; cases refused
  · intro defect
    induction defect with
    | name plain unknown => rw [resolve_plain plain,unknown]
    | container plain unknown => exact resolve_unknown plain unknown
    | unclosed plain known unclosed => exact resolve_unclosed plain known unclosed
    | inside plain known _ ih =>
      obtain ⟨pattern,is⟩ := Option.isSome_iff_exists.mp known
      rw [resolve_wrapped plain is,ih]
      rfl

theorem resolveTypeAt_plain (text : List Char) :
    resolveTypeAt text manifest false position = resolveBaseTypeAt text manifest position := by
  unfold resolveTypeAt
  cases resolveBaseTypeAt text manifest position <;> rfl

theorem resolveTypeAt_nullable (text resolved : List Char) :
    resolveTypeAt text manifest true position = .ok resolved ↔
      ∃ base pattern,resolveBaseTypeAt text manifest position = .ok base ∧
        containerPattern "nullable" manifest position = some pattern ∧ resolved = inPattern pattern base := by
  unfold resolveTypeAt wrapNullableAt
  cases resolveBaseTypeAt text manifest position with
  | error e => simp [bind,Except.bind]
  | ok base =>
    cases containerPattern "nullable" manifest position with
    | none => simp [bind,Except.bind]
    | some pattern => simp [bind,Except.bind,eq_comm]

-- To ask for a nullable type is to write the nullable container around it.
theorem nullable_spelled {text : List Char} (trimmed : trim angles.blank text = text) (resolved : List Char) :
    resolveTypeAt text manifest true position = .ok resolved ↔
      resolveTypeAt ("nullable".toList ++ angles.opener :: (text ++ [angles.closer])) manifest false position =
        .ok resolved := by
  have plain : angles.opener ∉ "nullable".toList := by decide
  rw [resolveTypeAt_nullable,resolveTypeAt_plain]
  cases is : containerPattern "nullable" manifest position with
  | none =>
    rw [resolve_unknown plain (by rwa [String.ofList_toList])]
    simp
  | some pattern =>
    have found : containerPattern (String.ofList "nullable".toList) manifest position = some pattern := by
      rwa [String.ofList_toList]
    rw [resolve_wrapped plain found,trimmed]
    cases resolveBaseTypeAt text manifest position with
    | error e => simp [Except.map]
    | ok base => simp [Except.map,eq_comm]

-- What the text of a type has to do with what it resolves to.
structure ReadsTypes (manifest : BackendManifest) : Prop where
  resolves : ∀ position text resolved,resolveTypeAt text manifest false position = .ok resolved ↔
    ∃ term,BracketTerms.Spells angles text term ∧ render manifest position term = some resolved
  refuses : ∀ position text e,resolveTypeAt text manifest false position = .error e ↔ Defect manifest position text e
  printed : ∀ position term,Printable angles term →
    (resolveTypeAt (print angles term) manifest false position).toOption = render manifest position term
  nullable : ∀ position text resolved,trim angles.blank text = text →
    (resolveTypeAt text manifest true position = .ok resolved ↔
      resolveTypeAt ("nullable".toList ++ angles.opener :: (text ++ [angles.closer])) manifest false position = .ok resolved)

theorem reads_types (manifest : BackendManifest) : ReadsTypes manifest where
  resolves position text resolved := by rw [resolveTypeAt_plain,resolve_iff]
  refuses position text e := by rw [resolveTypeAt_plain,refused_iff]
  printed position term printable := by
    have spells := print_spells printable
    rw [resolveTypeAt_plain]
    cases is : resolveBaseTypeAt (print angles term) manifest position with
    | ok resolved =>
      obtain ⟨other,also,rendered⟩ := (resolve_iff _ _).mp is
      rw [spells_unique spells also,rendered]
      rfl
    | error e =>
      cases rendered : render manifest position term with
      | none => rfl
      | some resolved =>
        rw [(resolve_iff _ _).mpr ⟨term,spells,rendered⟩] at is
        cases is
  nullable position text resolved trimmed := nullable_spelled trimmed resolved

-- Whether a type resolves, and what is wrong with it, depends on what is in the tables
-- and not on what it stands for there.
structure SameWords (first other : BackendManifest) (position place : TypePosition) : Prop where
  containers : ∀ name,(containerPattern name first position).isSome = (containerPattern name other place).isSome
  scalars : ∀ name,(first.types.scalars.lookup name).isSome = (other.types.scalars.lookup name).isSome

omit [CaseMap] in
theorem SameWords.symm {first other : BackendManifest} {position place : TypePosition}
    (words : SameWords first other position place) : SameWords other first place position :=
  ⟨fun name => (words.containers name).symm,fun name => (words.scalars name).symm⟩

theorem SameWords.name {first other : BackendManifest} {position place : TypePosition} {text : List Char} {e : BackendError}
    (words : SameWords first other position place) (unknown : resolveName text first = .error e) :
    resolveName text other = .error e := by
  unfold resolveName at unknown ⊢
  have scalar := words.scalars (String.ofList text)
  split at unknown
  · cases unknown
  · split at unknown
    · cases unknown
    · split at unknown
      · cases unknown
      · rename_i absent
        rw [absent] at scalar
        rw [Option.isSome_eq_false_iff.mp scalar.symm |> Option.isNone_iff_eq_none.mp]
        exact unknown

theorem SameWords.defect {first other : BackendManifest} {position place : TypePosition} {text : List Char} {e : BackendError}
    (words : SameWords first other position place) (defect : Defect first position text e) : Defect other place text e := by
  induction defect with
  | name plain unknown => exact .name plain (words.name unknown)
  | container plain unknown =>
    refine .container plain ?_
    rw [← Option.not_isSome_iff_eq_none,← words.containers,unknown]
    exact Bool.false_ne_true
  | unclosed plain known unclosed => exact .unclosed plain (words.containers _ ▸ known) unclosed
  | inside plain known _ ih => exact .inside plain (words.containers _ ▸ known) ih

theorem resolveTypeAt_refused (text : List Char) (nullable : Bool) (e : BackendError) :
    resolveTypeAt text manifest nullable position = .error e ↔
      resolveBaseTypeAt text manifest position = .error e ∨
        nullable = true ∧ (∃ base,resolveBaseTypeAt text manifest position = .ok base) ∧
          containerPattern "nullable" manifest position = none ∧ e = .unknownContainer "nullable" := by
  unfold resolveTypeAt wrapNullableAt
  cases resolveBaseTypeAt text manifest position with
  | error other => simp [bind,Except.bind]
  | ok base =>
    cases nullable with
    | false => simp [bind,Except.bind,pure,Except.pure]
    | true =>
      cases containerPattern "nullable" manifest position with
      | none => simp [bind,Except.bind,eq_comm]
      | some pattern => simp [bind,Except.bind]

theorem SameWords.base {first other : BackendManifest} {position place : TypePosition}
    (words : SameWords first other position place) (text : List Char) (e : BackendError) :
    resolveBaseTypeAt text first position = .error e ↔ resolveBaseTypeAt text other place = .error e := by
  rw [refused_iff,refused_iff]
  exact ⟨words.defect,words.symm.defect⟩

theorem resolves_or (text : List Char) :
    (∃ base,resolveBaseTypeAt text manifest position = .ok base) ↔
      ¬∃ e,resolveBaseTypeAt text manifest position = .error e := by
  cases resolveBaseTypeAt text manifest position <;> simp

-- With the same words the same types are refused, for the same reason.
theorem SameWords.refusals {first other : BackendManifest} {position place : TypePosition}
    (words : SameWords first other position place) (text : List Char) (nullable : Bool) (e : BackendError) :
    resolveTypeAt text first nullable position = .error e ↔ resolveTypeAt text other nullable place = .error e := by
  have patterns : containerPattern "nullable" first position = none ↔ containerPattern "nullable" other place = none := by
    rw [← Option.not_isSome_iff_eq_none,words.containers,Option.not_isSome_iff_eq_none]
  rw [resolveTypeAt_refused,resolveTypeAt_refused,resolves_or,resolves_or,patterns]
  simp only [words.base]

-- The containers of documentation comments over those of the language.
def laidOver (manifest : BackendManifest) : BackendManifest :=
  { manifest with types.containers := manifest.types.docblockContainers ∪ manifest.types.containers }

omit [CaseMap] in
theorem containerPattern_laidOver (name : String) :
    containerPattern name (laidOver manifest) .native = containerPattern name manifest .docblock := by
  change (manifest.types.docblockContainers ∪ manifest.types.containers).lookup name = _
  unfold containerPattern
  by_cases own : name ∈ manifest.types.docblockContainers
  · obtain ⟨pattern,is⟩ := Option.isSome_iff_exists.mp (AList.lookup_isSome.mpr own)
    rw [AList.lookup_union_left own,is]
    rfl
  · rw [AList.lookup_union_right own,AList.lookup_eq_none.mpr own]
    rfl

theorem render_laidOver (term : Term Char) : render (laidOver manifest) .native term = render manifest .docblock term := by
  induction term with
  | leaf name => rfl
  | wrap container inner ih => rw [render,render,containerPattern_laidOver,ih]

omit [CaseMap] in
-- What resolves alike, and is refused alike, has the same outcome.
theorem outcome_ext {α ε : Type} {first other : Except ε α} (done : ∀ value,first = .ok value ↔ other = .ok value)
    (refused : ∀ e,first = .error e ↔ other = .error e) : first = other := by
  cases first with
  | ok value => exact ((done value).mp rfl).symm
  | error e => exact ((refused e).mp rfl).symm

omit [CaseMap] in
theorem laidOver_words (manifest : BackendManifest) : SameWords (laidOver manifest) manifest .native .docblock :=
  ⟨fun name => by rw [containerPattern_laidOver],fun _ => rfl⟩

theorem laidOver_base (text : List Char) :
    resolveBaseTypeAt text manifest .docblock = resolveBaseTypeAt text (laidOver manifest) .native := by
  refine outcome_ext (fun resolved => ?_) fun e => ((laidOver_words manifest).base text e).symm
  simp only [resolve_iff,render_laidOver]

-- A type in a documentation comment and the same type in the language.
structure DocblockAgrees (manifest : BackendManifest) : Prop where
  laid_over : ∀ text nullable,resolveDocblockType text manifest nullable = resolveType text (laidOver manifest) nullable
  without : manifest.types.docblockContainers = ∅ →
    ∀ text nullable,resolveDocblockType text manifest nullable = resolveType text manifest nullable
  refusals : (∀ name ∈ manifest.types.docblockContainers,name ∈ manifest.types.containers) →
    ∀ text nullable e,resolveDocblockType text manifest nullable = .error e ↔ resolveType text manifest nullable = .error e

theorem docblock_laidOver (text : List Char) (nullable : Bool) :
    resolveDocblockType text manifest nullable = resolveType text (laidOver manifest) nullable := by
  unfold resolveDocblockType resolveType resolveTypeAt wrapNullableAt
  rw [laidOver_base,containerPattern_laidOver]

theorem docblock_agrees (manifest : BackendManifest) : DocblockAgrees manifest where
  laid_over := docblock_laidOver
  without empty text nullable := by
    have same : laidOver manifest = manifest := by
      unfold laidOver
      rw [empty,AList.empty_union]
    rw [docblock_laidOver,same]
  refusals within := by
    refine SameWords.refusals ⟨fun name => ?_,fun _ => rfl⟩
    unfold containerPattern
    cases is : manifest.types.docblockContainers.lookup name with
    | none => rfl
    | some pattern =>
      have own : name ∈ manifest.types.docblockContainers := AList.lookup_isSome.mp (by rw [is]; rfl)
      rw [AList.lookup_isSome.mpr (within name own)]
      rfl

section Nullable
open Templates

def hole : List Char := "{T}".toList

omit [CaseMap] in
theorem replaceWithin_filled (p by' : List Char) (skip : Nat) (cs : List Char) :
    SplitOperators.replaceWithin p by' skip cs = filled by' (cutsWithin p skip cs) := by
  induction cs generalizing skip with
  | nil => simp [SplitOperators.replaceWithin,cutsWithin]
  | cons c cs ih =>
    cases skip with
    | succ skip => exact ih skip
    | zero =>
      unfold SplitOperators.replaceWithin cutsWithin
      split
      · rw [filled_site,ih]
      · rw [filled_plain,ih]

omit [CaseMap] in
theorem inPattern_filled (pattern : String) (resolved : List Char) :
    inPattern pattern resolved = filled resolved (cuts hole pattern.toList) := by
  unfold inPattern SplitOperators.replace
  rw [replaceWithin_filled,String.toList_ofList]
  rfl

-- A pattern that a type looks the same in as without it.
def Hides (pattern : String) (langType : List Char) : Prop :=
  pattern.toList = hole ∨ holes (cuts hole pattern.toList) = 0 ∧ pattern.toList = langType ∨
    langType = [] ∧ ∀ cut ∈ cuts hole pattern.toList,cut = .site ()

omit [CaseMap] in
theorem hides_iff (pattern : String) (langType : List Char) :
    inPattern pattern langType = langType ↔ Hides pattern langType := by
  rw [inPattern_filled]
  exact filled_self_iff (by decide) _

theorem resolveTypePair_iff (neutral fullType langType : List Char) (nullable : Bool) :
    resolveTypePair neutral manifest nullable = .ok (fullType,langType) ↔
      resolveBaseType neutral manifest = .ok langType ∧
        (nullable = false ∧ fullType = langType ∨ nullable = true ∧
          ∃ pattern,manifest.types.containers.lookup "nullable" = some pattern ∧ fullType = inPattern pattern langType) := by
  unfold resolveTypePair wrapNullable wrapNullableAt containerPattern
  cases resolveBaseType neutral manifest with
  | error e => simp [bind,Except.bind]
  | ok base =>
    cases nullable with
    | false =>
      simp only [bind,Except.bind,pure,Except.pure,Bool.false_eq_true,if_false]
      grind
    | true =>
      cases manifest.types.containers.lookup "nullable" with
      | none => simp [bind,Except.bind]
      | some pattern =>
        simp only [bind,Except.bind,pure,Except.pure,if_true]
        grind

omit [CaseMap] in
theorem parse_wrapped {langType : List Char} {pattern : String}
    (is : manifest.types.containers.lookup "nullable" = some pattern) :
    parseRenderedNullable langType (inPattern pattern langType) manifest =
      .ok (!decide (inPattern pattern langType = langType)) := by
  unfold parseRenderedNullable wrapNullable wrapNullableAt containerPattern
  rw [is]
  by_cases same : inPattern pattern langType = langType <;> simp [same]

-- Whether a type is nullable can be read off its two renderings, but where the pattern
-- for nullable types hides it.
structure ParsesNullable (manifest : BackendManifest) : Prop where
  inverse : ∀ neutral nullable fullType langType,resolveTypePair neutral manifest nullable = .ok (fullType,langType) →
    (parseRenderedNullable langType fullType manifest = .ok nullable ↔
      ∀ pattern,manifest.types.containers.lookup "nullable" = some pattern → nullable = true → ¬Hides pattern langType)
  hidden : ∀ neutral nullable fullType langType pattern,
    resolveTypePair neutral manifest nullable = .ok (fullType,langType) →
      manifest.types.containers.lookup "nullable" = some pattern → Hides pattern langType →
        parseRenderedNullable langType fullType manifest = .ok false
  read : ∀ langType fullType nullable,parseRenderedNullable langType fullType manifest = .ok nullable →
    ∀ neutral,resolveBaseType neutral manifest = .ok langType →
      resolveTypePair neutral manifest nullable = .ok (fullType,langType)

theorem parses_nullable (manifest : BackendManifest) : ParsesNullable manifest where
  inverse neutral nullable fullType langType resolved := by
    obtain ⟨_,⟨rfl,rfl⟩ | ⟨rfl,pattern,is,rfl⟩⟩ := (resolveTypePair_iff _ _ _ _).mp resolved
    · simp [parseRenderedNullable]
    · rw [parse_wrapped is,is]
      simp [← hides_iff]
  hidden neutral nullable fullType langType pattern resolved is hides := by
    obtain ⟨_,⟨rfl,rfl⟩ | ⟨rfl,other,also,rfl⟩⟩ := (resolveTypePair_iff _ _ _ _).mp resolved
    · simp [parseRenderedNullable]
    · cases is.symm.trans also
      rw [parse_wrapped is,(hides_iff _ _).mpr hides]
      simp
  read langType fullType nullable parsed neutral base := by
    refine (resolveTypePair_iff _ _ _ _).mpr ⟨base,?_⟩
    unfold parseRenderedNullable wrapNullable wrapNullableAt containerPattern at parsed
    split at parsed
    · rename_i same
      cases parsed
      exact .inl ⟨rfl,same⟩
    · cases is : manifest.types.containers.lookup "nullable" with
      | none => simp [is] at parsed
      | some pattern =>
        simp only [is] at parsed
        split at parsed
        · rename_i wrapped
          cases parsed
          exact .inr ⟨rfl,pattern,rfl,wrapped⟩
        · cases parsed

end Nullable

end Scythe.TypeRendering
