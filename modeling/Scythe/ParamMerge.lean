import Scythe.Lib.FirstGiven
import Scythe.Fixtures
import Scythe.Positions

namespace Scythe
open Effect FirstGiven

-- What an occurrence of a placeholder registers. It counts while the entry that
-- it went into is the first one of its position.
structure Supplied where
  position : Int
  registration : Registration
  counts : Bool
  deriving DecidableEq,Repr

-- The analyzer with all that was registered, in the order of the traversal and
-- through every analyzer that took part.
structure Ledger where
  state : Analyzer
  log : List Supplied

def Ledger.new : Ledger := ⟨.new,[]⟩

def Ledger.register (position : Int) (registration : Registration) (l : Ledger) : Ledger :=
  ⟨registerParam position registration l.state,l.log ++ [⟨position,registration,true⟩]⟩

def Ledger.sub (l : Ledger) : Ledger := ⟨subAnalyzer l.state,[]⟩

def countsAt (log : List Supplied) (position : Int) : Bool :=
  log.any fun r => r.counts && decide (r.position = position)

-- What a sub-analyzer collected for a position that its parent has met already
-- comes after the parent's entry.
def Supplied.behind (log : List Supplied) (r : Supplied) : Supplied :=
  {r with counts:=r.counts && !countsAt log r.position}

-- What a sub-analyzer collected goes with it when it fails.
def Supplied.gone (r : Supplied) : Supplied := {r with counts:=false}

def Ledger.merge (l sub : Ledger) : Ledger := ⟨l.state.merge sub.state,l.log ++ sub.log.map (.behind l.log)⟩

def ledgerOp (operation : AnalyzerOp β) : Run Ledger ScytheError β := fun l =>
  (runOp operation l.state).map fun outcome => (outcome.1,{l with state:=outcome.2})

def ledgerScoped : AnalyzerScoped β γ → Run Ledger ScytheError β → Run Ledger ScytheError γ
  | .place occurrence,body => fun l =>
    match resolvePlaceholderPosition occurrence.token occurrence.span l.state with
    | (none,analyzer) => some (.ok false,{l with state:=analyzer})
    | (some position,analyzer) =>
      chain body (fun registration l => some (.ok true,l.register position registration)) {l with state:=analyzer}
  | .derived,body => fun l =>
    match body l.sub with
    | none => none
    | some (.error failure,sub) => some (.error failure,{l with log:=l.log ++ sub.log.map .gone})
    | some (.ok columns,sub) => some (.ok columns,l.merge sub)
  | .attempt,body => fun l =>
    match body l with
    | none => none
    | some (.error _,l') => some (.ok none,l')
    | some (.ok columns,l') => some (.ok (some columns),l')

def Ledger.handler : Handler analyzer Ledger ScytheError := ⟨ledgerOp,ledgerScoped⟩

def Analysis.ledger (program : Analysis α) : Run Ledger ScytheError α := Ledger.handler.run program

theorem ledger_projects : Projects Ledger.handler Analyzer.handler Ledger.state where
  op operation l := by
    show Effect.forget _ ((runOp operation l.state).map _) = _
    simp [Effect.forget,Analyzer.handler,Function.comp_def]
  within operation m n same l := by
    cases operation with
    | place occurrence =>
      simp only [Ledger.handler,ledgerScoped,Analyzer.handler,runScoped]
      rcases resolvePlaceholderPosition occurrence.token occurrence.span l.state with ⟨_ | position,analyzer⟩
      · rfl
      · exact forget_chain same (fun _ _ => rfl) {l with state:=analyzer}
    | derived =>
      simp only [Ledger.handler,ledgerScoped,Analyzer.handler,runScoped]
      rw [show subAnalyzer l.state = l.sub.state from rfl,←same l.sub]
      rcases m l.sub with _ | ⟨failure | columns,sub⟩ <;> rfl
    | attempt =>
      simp only [Ledger.handler,ledgerScoped,Analyzer.handler,runScoped]
      rw [←same l]
      rcases m l with _ | ⟨failure | columns,l'⟩ <;> rfl

-- What a registration says of a parameter besides its position.
inductive ParamField where
  | name
  | neutralType
  | sourceRelation
  deriving DecidableEq,Repr

def ParamField.given : ParamField → Registration → Option String
  | .name,r => r.name
  | .neutralType,r => r.neutralType
  | .sourceRelation,r => r.sourceRelation

def ParamField.reported : ParamField → ParamInfo → Option String
  | .name,p => p.name
  | .neutralType,p => p.neutralType
  | .sourceRelation,p => p.sourceRelation

def occurrencesAt (position : Int) (log : List Supplied) : List Supplied :=
  log.filter fun r => r.position = position

def countedAt (position : Int) (log : List Supplied) : List Supplied :=
  (occurrencesAt position log).filter (·.counts)

def firstGiven (field : ParamField) (given : List Supplied) : Option String :=
  given.findSome? fun r => field.given r.registration

def entryAt (position : Int) (params : List ParamInfo) : Option ParamInfo :=
  params.find? fun p => p.position = position

theorem entryAt_registerIn_own (position : Int) (registration : Registration) (params : List ParamInfo) :
    entryAt position (registerIn position registration params) = some (match entryAt position params with
      | some existing => fillParam registration existing
      | none => ⟨position,registration.name,registration.neutralType,registration.nullable,
          registration.sourceRelation⟩) := by
  induction params with
  | nil => simp [registerIn,entryAt]
  | cons param params ih =>
    unfold registerIn
    split
    · rename_i own
      simp [entryAt,fillParam,own]
    · rename_i other
      simpa [entryAt,other] using ih

theorem entryAt_registerIn_other {position p : Int} (other : p ≠ position) (registration : Registration)
    (params : List ParamInfo) : entryAt p (registerIn position registration params) = entryAt p params := by
  induction params with
  | nil => simp [registerIn,entryAt,other.symm]
  | cons param params ih =>
    unfold registerIn
    split
    · rename_i own
      simp [entryAt,fillParam,own,other.symm]
    · simp only [entryAt,List.find?_cons] at ih ⊢
      rw [ih]

theorem entryAt_append (position : Int) (params later : List ParamInfo) :
    entryAt position (params ++ later) = (entryAt position params).or (entryAt position later) := by
  simp [entryAt]

theorem ParamField.reported_fill (field : ParamField) (registration : Registration) (existing : ParamInfo) :
    field.reported (fillParam registration existing) =
      (field.reported existing).or (field.given registration) := by
  cases field <;> rfl

@[simp] theorem countedAt_nil (position : Int) : countedAt position [] = [] := rfl

theorem countedAt_append (position : Int) (log later : List Supplied) :
    countedAt position (log ++ later) = countedAt position log ++ countedAt position later := by
  simp [countedAt,occurrencesAt]

theorem countsAt_iff {log : List Supplied} {position : Int} :
    countsAt log position = true ↔ countedAt position log ≠ [] := by
  simp [countsAt,countedAt,occurrencesAt,List.filter_eq_nil_iff,and_comm]

theorem countedAt_gone (position : Int) (log : List Supplied) : countedAt position (log.map .gone) = [] := by
  simp [countedAt,occurrencesAt,Supplied.gone]

theorem countedAt_behind_met {log : List Supplied} {position : Int} (before : countsAt log position = true)
    (later : List Supplied) : countedAt position (later.map (.behind log)) = [] := by
  simp only [countedAt,occurrencesAt,List.filter_filter,List.filter_eq_nil_iff,List.mem_map]
  rintro _ ⟨r,-,rfl⟩ both
  simp only [Supplied.behind,Bool.and_eq_true] at both
  obtain ⟨⟨-,absent⟩,own⟩ := both
  rw [of_decide_eq_true own,before] at absent
  cases absent

theorem countedAt_behind_new {log : List Supplied} {position : Int} (before : countsAt log position = false)
    (later : List Supplied) : countedAt position (later.map (.behind log)) = countedAt position later := by
  induction later with
  | nil => rfl
  | cons r later ih =>
    by_cases own : r.position = position
    · have same : r.behind log = r := by
        subst own
        cases r
        simp [Supplied.behind,before]
      simp only [List.map_cons,same]
      rw [show r :: later.map (.behind log) = [r] ++ later.map (.behind log) from rfl,countedAt_append,ih,
        ←countedAt_append,List.singleton_append]
    · simpa [countedAt,occurrencesAt,Supplied.behind,own] using ih

-- The entry of a position holds what the registrations that count gave first.
structure Booked (l : Ledger) : Prop where
  entered : ∀ position,(entryAt position l.state.params).isSome = countsAt l.log position
  first : ∀ position entry,entryAt position l.state.params = some entry → ∀ field : ParamField,
    field.reported entry = firstGiven field (countedAt position l.log)

theorem Booked.new : Booked .new where
  entered position := rfl
  first position entry found := by cases found

-- All but the entries and the log is free.
theorem Booked.of_params {l l' : Ledger} (booked : Booked l) (params : l'.state.params = l.state.params)
    (log : l'.log = l.log) : Booked l' where
  entered position := by rw [params,log,booked.entered]
  first position entry found := by
    rw [params] at found
    rw [log]
    exact booked.first position entry found

theorem Booked.register {l : Ledger} (booked : Booked l) (position : Int) (registration : Registration) :
    Booked (l.register position registration) where
  entered p := by
    by_cases own : p = position
    · subst own
      simp [Ledger.register,registerParam,entryAt_registerIn_own,countsAt]
    · have before := booked.entered p
      simp only [Ledger.register,registerParam,entryAt_registerIn_other own,before]
      simp [countsAt,Ne.symm own]
  first p entry found field := by
    by_cases own : p = position
    · subst own
      simp only [Ledger.register,registerParam,entryAt_registerIn_own,Option.some.injEq] at found
      have added : countedAt p [⟨p,registration,true⟩] = [⟨p,registration,true⟩] := by
        simp [countedAt,occurrencesAt]
      rw [Ledger.register,countedAt_append,added]
      cases known : entryAt p l.state.params with
      | some existing =>
        rw [known] at found
        cases found
        rw [ParamField.reported_fill,booked.first p existing known field]
        simp [firstGiven]
      | none =>
        rw [known] at found
        cases found
        have fresh := booked.entered p
        rw [known,Option.isSome_none] at fresh
        have nothing : countedAt p l.log = [] := by
          by_contra some
          rw [countsAt_iff.mpr some] at fresh
          cases fresh
        rw [nothing]
        cases field <;> simp [firstGiven,ParamField.reported,ParamField.given]
    · simp only [Ledger.register,registerParam,entryAt_registerIn_other own] at found
      have apart : countedAt p [⟨position,registration,true⟩] = [] := by
        simp [countedAt,occurrencesAt,Ne.symm own]
      rw [Ledger.register,countedAt_append,apart,List.append_nil]
      exact booked.first p entry found field

theorem Booked.gone {l : Ledger} (booked : Booked l) (log : List Supplied) :
    Booked {l with log:=l.log ++ log.map .gone} where
  entered position := by
    rw [booked.entered]
    simp [countsAt,Supplied.gone]
  first position entry found field := by
    rw [countedAt_append,countedAt_gone,List.append_nil]
    exact booked.first position entry found field

theorem Booked.merge {l sub : Ledger} (booked : Booked l) (inner : Booked sub) : Booked (l.merge sub) where
  entered position := by
    simp only [Ledger.merge,Analyzer.merge,entryAt_append,Option.isSome_or,booked.entered,inner.entered]
    cases before : countsAt l.log position with
    | true => simp [countsAt_iff.mp before,countsAt_iff,countedAt_append]
    | false =>
      have same : countsAt (l.log ++ sub.log.map (.behind l.log)) position = countsAt sub.log position := by
        have nothing : countedAt position l.log = [] := by
          by_contra some
          rw [countsAt_iff.mpr some] at before
          cases before
        rw [Bool.eq_iff_iff,countsAt_iff,countsAt_iff,countedAt_append,countedAt_behind_new before,nothing,
          List.nil_append]
      rw [Bool.false_or,same]
  first position entry found field := by
    simp only [Ledger.merge,Analyzer.merge,entryAt_append] at found ⊢
    rw [countedAt_append]
    cases known : entryAt position l.state.params with
    | some existing =>
      rw [known,Option.some_or] at found
      cases found
      have before : countsAt l.log position = true := by rw [←booked.entered,known,Option.isSome_some]
      rw [countedAt_behind_met before,List.append_nil]
      exact booked.first position entry known field
    | none =>
      rw [known,Option.none_or] at found
      have before : countsAt l.log position = false := by rw [←booked.entered,known,Option.isSome_none]
      have nothing : countedAt position l.log = [] := by
        by_contra some
        rw [countsAt_iff.mpr some] at before
        cases before
      rw [countedAt_behind_new before,nothing,List.nil_append]
      exact inner.first position entry found field

theorem Booked.sub (l : Ledger) : Booked l.sub where
  entered position := rfl
  first position entry found := by cases found

theorem runOp_params {operation : AnalyzerOp β} (ran : runOp operation s = some (r,s')) : s'.params = s.params := by
  cases operation <;> cases ran <;> rfl

theorem resolvePlaceholderPosition_params (placeholder : String) (span : Span) (self : Analyzer) :
    (resolvePlaceholderPosition placeholder span self).2.params = self.params := by
  unfold resolvePlaceholderPosition
  split
  · rfl
  · split
    · dsimp only
      split <;> rfl
    · rfl

theorem booked_keeps : Ledger.handler.Keeps Booked where
  op operation l r l' booked ran := by
    simp only [Ledger.handler,ledgerOp,Option.map_eq_some_iff] at ran
    obtain ⟨⟨r',self⟩,opRan,is⟩ := ran
    cases is
    exact booked.of_params (runOp_params opRan) rfl
  within operation m bodies l r l' booked ran := by
    cases operation with
    | place occurrence =>
      have params := resolvePlaceholderPosition_params occurrence.token occurrence.span l.state
      simp only [Ledger.handler,ledgerScoped] at ran
      rcases resolved : resolvePlaceholderPosition occurrence.token occurrence.span l.state with ⟨_ | position,self⟩
        <;> rw [resolved] at params ran
      · cases ran
        exact booked.of_params params rfl
      · have started : Booked {l with state:=self} := booked.of_params params rfl
        rcases chain_cases ran with ⟨failure,first,-⟩ | ⟨registration,middle,first,last⟩
        · exact bodies _ _ _ started first
        · cases last
          exact (bodies _ _ _ started first).register position registration
    | derived =>
      simp only [Ledger.handler,ledgerScoped] at ran
      split at ran
      · cases ran
      · cases ran
        exact booked.gone _
      · rename_i columns sub first
        cases ran
        exact booked.merge (bodies _ _ _ (.sub l) first)
    | attempt =>
      simp only [Ledger.handler,ledgerScoped] at ran
      split at ran
      · cases ran
      · rename_i failure after first
        cases ran
        exact bodies _ _ _ booked first
      · rename_i columns after first
        cases ran
        exact bodies _ _ _ booked first

theorem entryAt_sortParams (position : Int) (params : List ParamInfo) :
    entryAt position (sortParams params) = entryAt position params :=
  find_insertionSort (fun param : ParamInfo => param.position) position params

theorem entryAt_dedupFrom (position : Int) (kept : ParamInfo) (params : List ParamInfo) :
    entryAt position (dedupFrom kept params) = entryAt position (kept :: params) := by
  induction params generalizing kept with
  | nil => rfl
  | cons param params ih =>
    unfold dedupFrom
    split
    · rename_i same
      rw [ih]
      simp only [entryAt,List.find?_cons,same]
      by_cases own : param.position = position
      · simp [own]
      · simp [own]
    · have later := ih param
      simp only [entryAt,List.find?_cons] at later ⊢
      rw [later]

theorem entryAt_merged (position : Int) (params : List ParamInfo) :
    entryAt position (dedupParams (sortParams params)) = entryAt position params := by
  rw [←entryAt_sortParams position params]
  cases sortParams params with
  | nil => rfl
  | cons kept rest => exact entryAt_dedupFrom position kept rest

theorem entryAt_mem {params : List ParamInfo} (increasing : (paramPositions params).Pairwise (· < ·))
    {info : ParamInfo} : info ∈ params ↔ entryAt info.position params = some info := by
  constructor
  · intro member
    cases found : entryAt info.position params with
    | none => simpa using List.find?_eq_none.mp found info member
    | some entry =>
      have own : entry.position = info.position := by simpa using List.find?_some found
      have other : entry ∈ params := List.mem_of_find?_eq_some found
      have apart : (params.map (·.position)).Nodup := increasing.imp fun lower => ne_of_lt lower
      rw [List.inj_on_of_nodup_map apart other member own]
  · exact fun found => List.mem_of_find?_eq_some found

-- Each position that was registered has an entry with the first of each that was
-- given for it.
def MergesAll (log : List Supplied) (params : List ParamInfo) : Prop :=
  ∀ r ∈ log,∃ info ∈ params,info.position = r.position ∧
    ∀ field : ParamField,field.reported info = firstGiven field (occurrencesAt r.position log)

-- Some registration of the position counts, and where the first to give a name, a
-- type or a relation does not count, the first of those after it that counts gives
-- the same.
def NothingLost (log : List Supplied) : Prop :=
  ∀ r ∈ log,countsAt log r.position = true ∧
    ∀ field : ParamField,Survives (·.counts) (fun r => field.given r.registration) (occurrencesAt r.position log)

theorem Booked.merges_iff {l : Ledger} (booked : Booked l) :
    MergesAll l.log (dedupParams (sortParams l.state.params)) ↔ NothingLost l.log := by
  refine forall_congr' fun r => forall_congr' fun _ => ?_
  constructor
  · rintro ⟨info,member,own,all⟩
    have found := (entryAt_mem (dedupParams_increasing _)).mp member
    rw [entryAt_merged,own] at found
    refine ⟨by rw [←booked.entered,found,Option.isSome_some],fun field => ?_⟩
    have first := booked.first r.position info found field
    rw [all field] at first
    exact (findSome_filter_iff _ _ _).mp first.symm
  · rintro ⟨counts,survives⟩
    rw [←booked.entered,Option.isSome_iff_exists] at counts
    obtain ⟨info,found⟩ := counts
    have own : info.position = r.position := by simpa using List.find?_some found
    refine ⟨info,?_,own,fun field => ?_⟩
    · rw [entryAt_mem (dedupParams_increasing _),entryAt_merged,own]
      exact found
    · rw [booked.first r.position info found field]
      exact (findSome_filter_iff _ _ _).mpr (survives field)

section
variable [Text.CaseMap] [Printer]

-- The entries that names and types are read from.
def mergedParams (catalog : Catalog) (query : ParsedQuery) : List ParamInfo :=
  match (analyzeStatement catalog query.stmt).run .new with
  | some (_,self) => dedupParams (sortParams self.params)
  | none => []

-- All that the occurrences register while the statement is analyzed.
def registrations (catalog : Catalog) (query : ParsedQuery) : List Supplied :=
  match (analyzeStatement catalog query.stmt).ledger .new with
  | some (_,ledger) => ledger.log
  | none => []

theorem merge_iff (catalog : Catalog) (query : ParsedQuery) (result : AnalyzedQuery)
    (accepted : analyze catalog query = some (.ok result)) :
    result.params = renameParams (((mergedParams catalog query).map (nameParam query.annotations)).map
        (optionalParam query.annotations)) ∧
      (MergesAll (registrations catalog query) (mergedParams catalog query) ↔
        NothingLost (registrations catalog query)) := by
  have projected := ledger_projects.run (analyzeStatement catalog query.stmt) .new
  unfold analyze at accepted
  unfold mergedParams registrations
  cases ran : (analyzeStatement catalog query.stmt).ledger .new with
  | none =>
    rw [Analysis.ledger] at ran
    rw [ran] at projected
    rw [show (analyzeStatement catalog query.stmt).run .new = none from projected.symm] at accepted
    cases accepted
  | some outcome =>
    obtain ⟨answer,ledger⟩ := outcome
    have booked := booked_keeps.run _ _ _ _ Booked.new ran
    rw [Analysis.ledger] at ran
    rw [ran] at projected
    have plain : (analyzeStatement catalog query.stmt).run .new = some (answer,ledger.state) := projected.symm
    rw [plain] at accepted ⊢
    refine ⟨?_,booked.merges_iff⟩
    cases answer with
    | error failure => cases accepted
    | ok columns =>
      have resolved := (finish_params (Option.some.inj accepted)).2
      unfold resolveParams at resolved
      simp only [bind,Except.bind] at resolved
      split at resolved
      · cases resolved
      · split at resolved
        · cases resolved
        · exact (Except.ok.inj resolved).symm

end

section
local instance mergeCase : Text.CaseMap := Text.ascii
local instance mergePrinter : Printer := Fixtures.printer

open Fixtures

def wantedTable : TableFactor :=
  .derived (ofBody (.select ⟨[.exprWithAlias (.cast .cast (placeholder "$1" 30) .integer) (ident "wanted")],[],none,
    .expressions [],none,[]⟩)) (some (aliasOf "w"))

def soughtTable : TableFactor :=
  .derived (ofBody (select [column "id"] [source (table "users")]
    (some (.binaryOp (column "id") .eq (placeholder "$1" 90))))) (some (aliasOf "d"))

def selectSought (first second : TableFactor) : ParsedQuery :=
  parsed "SELECT d.id FROM (SELECT CAST($1 AS integer) AS wanted) w, (SELECT id FROM users WHERE id = $1) d" <|
    .query <| ofBody <| select [qualified "d" "id"] [source first,source second] none

def paramsOf (outcome : Option (Except ScytheError AnalyzedQuery)) : List (String × String × Option String) :=
  match outcome with
  | some (.ok result) => result.params.map fun param => (param.name,param.neutralType,param.sourceRelation)
  | _ => []

-- With the other derived table first, all that the cast has to say is known.
theorem sought_first : paramsOf (analyze (catalog .postgreSQL) (selectSought soughtTable wantedTable)) =
      [("id","int32",some "users")] ∧
    MergesAll (registrations (catalog .postgreSQL) (selectSought soughtTable wantedTable))
      (mergedParams (catalog .postgreSQL) (selectSought soughtTable wantedTable)) := by
  obtain ⟨result,is,params⟩ : ∃ result,
      analyze (catalog .postgreSQL) (selectSought soughtTable wantedTable) = some (.ok result) ∧
        result.params = [⟨"id","int32",false,1,some "users"⟩] := ⟨_,rfl,rfl⟩
  have registered : registrations (catalog .postgreSQL) (selectSought soughtTable wantedTable) =
      [⟨1,⟨some "id",some "int32",false,some "users"⟩,true⟩,⟨1,⟨none,none,false,none⟩,true⟩,
        ⟨1,⟨none,some "int32",false,none⟩,false⟩,⟨1,⟨none,none,false,none⟩,false⟩,
        ⟨1,⟨none,none,false,none⟩,false⟩,⟨1,⟨none,some "int32",false,none⟩,false⟩] := rfl
  refine ⟨by rw [is]; simp [paramsOf,params],(merge_iff _ _ _ is).2.mpr ?_⟩
  rw [registered]
  intro r member
  have one : r.position = 1 := by
    simp only [List.mem_cons,List.not_mem_nil,or_false] at member
    rcases member with rfl | rfl | rfl | rfl | rfl | rfl <;> rfl
  rw [one]
  refine ⟨rfl,fun field => (findSome_filter_iff _ _ _).mp ?_⟩
  cases field <;> rfl

-- SELECT d.id FROM (SELECT CAST($1 AS integer) AS wanted) w, (SELECT id FROM users WHERE id = $1) d
theorem wanted_first : paramsOf (analyze (catalog .postgreSQL) (selectSought wantedTable soughtTable)) = [("p1","int32",none)] ∧
    ¬MergesAll (registrations (catalog .postgreSQL) (selectSought wantedTable soughtTable))
      (mergedParams (catalog .postgreSQL) (selectSought wantedTable soughtTable)) := by
  have given : firstGiven .name (occurrencesAt 1 (registrations (catalog .postgreSQL)
      (selectSought wantedTable soughtTable))) = some "id" := by decide +kernel
  obtain ⟨columns,self,ran,entries⟩ : ∃ columns self,
      (analyzeStatement (catalog .postgreSQL) (selectSought wantedTable soughtTable).stmt).run .new =
        some (.ok columns,self) ∧ self.params = [⟨1,none,some "int32",false,none⟩,
          ⟨1,some "id",some "int32",false,some "users"⟩] := ⟨_,_,rfl,rfl⟩
  have params : mergedParams (catalog .postgreSQL) (selectSought wantedTable soughtTable) =
      [⟨1,none,some "int32",false,none⟩] := by
    simp [mergedParams,ran,entries,sortParams,dedupParams,dedupFrom]
  obtain ⟨result,is,reported⟩ : ∃ result,
      analyze (catalog .postgreSQL) (selectSought wantedTable soughtTable) = some (.ok result) ∧
        result.params = [⟨"p1","int32",false,1,none⟩] := ⟨_,rfl,rfl⟩
  refine ⟨by rw [is]; simp [paramsOf,reported],fun merges => ?_⟩
  obtain ⟨r,member,-⟩ := List.exists_of_findSome?_eq_some given
  obtain ⟨met,position⟩ := List.mem_filter.mp member
  obtain ⟨info,infoMember,-,all⟩ := merges r met
  rw [params] at infoMember
  cases List.mem_singleton.mp infoMember
  have name := all .name
  rw [of_decide_eq_true position,given] at name
  cases name

end
end Scythe
