import Scythe.Lib.Numbering
import Scythe.Analyze

namespace Scythe
open Effect Numbering

-- What a placeholder is told apart by: its number, or where it stands.
inductive Slot where
  | numbered (position : Int)
  | bare (span : Span)
  deriving DecidableEq,Repr

def Slot.span? : Slot → Option Span
  | .numbered _ => none
  | .bare span => some span

-- None for a named placeholder, and for a `?` without a place in the text.
def Occurrence.slot (o : Occurrence) : Option Slot :=
  match parsePlaceholder o.token with
  | some position => some (.numbered position)
  | none => if o.token = "?" ∧ o.span ≠ .empty then some (.bare o.span) else none

-- The analyzer's traversal alone: it keeps what the functions read back and a
-- log of the placeholders they come by, and numbers nothing. It stops at the
-- first type error, and at an error that the analyzer would drop.
structure Walk where
  ctes : AHashMap (List ScopeColumn)
  pendingNested : List PendingNestedStruct
  nextNestedId : Nat
  log : List (Visit Slot)

def Walk.new : Walk := ⟨∅,[],0,[]⟩

def Walk.visit (slot : Slot) (w : Walk) : Walk := {w with log:=w.log ++ [.one slot]}
def Walk.sub (w : Walk) : Walk := ⟨w.ctes,[],w.nextNestedId,[]⟩

def Walk.merge (w sub : Walk) : Walk :=
  ⟨w.ctes,w.pendingNested ++ sub.pendingNested,sub.nextNestedId,w.log ++ [.table sub.log]⟩

def walkOp : AnalyzerOp β → Run Walk ScytheError β
  | .typeError message => fun s => some (.error (.typeMismatch message),s)
  | .ctes => fun s => some (.ok s.ctes,s)
  | .insertCte name columns => fun s => some (.ok (),{s with ctes:=s.ctes.insert name columns})
  | .pushPendingNested fields => fun s =>
    some (.ok s.nextNestedId,{s with
      nextNestedId:=s.nextNestedId + 1,pendingNested:=s.pendingNested ++ [⟨s.nextNestedId,fields⟩]})
  | .pendingNested => fun s => some (.ok s.pendingNested,s)
  | .fail failure => fun s => some (.error failure,s)
  | .diverge => fun _ => none

def walkScoped : AnalyzerScoped β γ → Run Walk ScytheError β → Run Walk ScytheError γ
  | .place occurrence,body => fun s =>
    match occurrence.slot with
    | none => some (.error (.typeMismatch (namedPlaceholderError occurrence.token)),s)
    | some slot => chain body (fun _ s => some (.ok true,s)) (s.visit slot)
  | .derived,body => fun s =>
    match body s.sub with
    | none => none
    | some (.error failure,_) => some (.error failure,s)
    | some (.ok columns,sub) => some (.ok columns,s.merge sub)
  | .attempt,body => chain body fun columns s => some (.ok (some columns),s)

def Walk.handler : Handler analyzer Walk ScytheError := ⟨walkOp,walkScoped⟩

def Analysis.walk (program : Analysis α) : Run Walk ScytheError α := Walk.handler.run program

-- The `?`s in the order of the numbers they get.
def numberingOrder (log : List (Visit Slot)) : List Span := fresh [] (filterMap Slot.span? log)

def Placed (base : Int) (log : List (Visit Slot)) (position : Int) : Prop :=
  .numbered position ∈ keys log ∨ base < position ∧ position ≤ base + (numberingOrder log).length

-- The analyzer with the history of the positions that it resolved for a `?`.
structure Traced where
  state : Analyzer
  resolved : List (Span × Int)

def Traced.new : Traced := ⟨.new,[]⟩

def Traced.resolve (occurrence : Occurrence) (position : Int) (analyzer : Analyzer) (t : Traced) : Traced :=
  ⟨analyzer,if (parsePlaceholder occurrence.token).isSome then t.resolved
    else t.resolved ++ [(occurrence.span,position)]⟩

def Traced.register (position : Int) (registration : Registration) (t : Traced) : Traced :=
  {t with state:=registerParam position registration t.state}

def Traced.sub (t : Traced) : Traced := ⟨subAnalyzer t.state,[]⟩
def Traced.merge (t sub : Traced) : Traced := ⟨t.state.merge sub.state,t.resolved ++ sub.resolved⟩

def tracedOp (operation : AnalyzerOp β) : Run Traced ScytheError β := fun t =>
  (runOp operation t.state).map fun outcome => (outcome.1,{t with state:=outcome.2})

def tracedScoped : AnalyzerScoped β γ → Run Traced ScytheError β → Run Traced ScytheError γ
  | .place occurrence,body => fun t =>
    match resolvePlaceholderPosition occurrence.token occurrence.span t.state with
    | (none,analyzer) => some (.ok false,{t with state:=analyzer})
    | (some position,analyzer) =>
      chain body (fun registration t => some (.ok true,t.register position registration))
        (t.resolve occurrence position analyzer)
  | .derived,body => fun t =>
    match body t.sub with
    | none => none
    | some (.error failure,sub) => some (.error failure,{t with resolved:=t.resolved ++ sub.resolved})
    | some (.ok columns,sub) => some (.ok columns,t.merge sub)
  | .attempt,body => fun t =>
    match body t with
    | none => none
    | some (.error _,t') => some (.ok none,t')
    | some (.ok columns,t') => some (.ok (some columns),t')

def Traced.handler : Handler analyzer Traced ScytheError := ⟨tracedOp,tracedScoped⟩

def Analysis.trace (program : Analysis α) : Run Traced ScytheError α := Traced.handler.run program

def Traced.forget (outcome : Option (Except ScytheError α × Traced)) : Option (Except ScytheError α × Analyzer) :=
  outcome.map fun outcome => (outcome.1,outcome.2.state)

-- The history changes nothing.
theorem traced_projects : Projects Traced.handler Analyzer.handler Traced.state where
  op operation t := by
    show Effect.forget _ ((runOp operation t.state).map _) = _
    simp [Effect.forget,Analyzer.handler,Function.comp_def]
  within operation m n same t := by
    cases operation with
    | place occurrence =>
      simp only [Traced.handler,tracedScoped,Analyzer.handler,runScoped]
      rcases resolvePlaceholderPosition occurrence.token occurrence.span t.state with ⟨_ | position,analyzer⟩
      · rfl
      · exact forget_chain same (fun _ _ => rfl) (t.resolve occurrence position analyzer)
    | derived =>
      simp only [Traced.handler,tracedScoped,Analyzer.handler,runScoped]
      rw [show subAnalyzer t.state = t.sub.state from rfl,←same t.sub]
      rcases m t.sub with _ | ⟨failure | columns,sub⟩ <;> rfl
    | attempt =>
      simp only [Traced.handler,tracedScoped,Analyzer.handler,runScoped]
      rw [←same t]
      rcases m t with _ | ⟨failure | columns,t'⟩ <;> rfl

theorem trace_forget (program : Analysis α) (t : Traced) :
    Traced.forget (program.trace t) = program.run t.state :=
  traced_projects.run program t

-- An analyzer that started numbering after `base` has come as far as the walk.
-- Those of `opens` are placeholders that are placed but not yet registered.
structure Tracks (start : Int × List Int) (t : Traced) (w : Walk) : Prop where
  ctes : t.state.ctes = w.ctes
  pendingNested : t.state.pendingNested = w.pendingNested
  nextNestedId : t.state.nextNestedId = w.nextNestedId
  typeErrors : t.state.typeErrors = []
  counter : t.state.positionalParamCounter = start.1 + (numberingOrder w.log).length
  memo : ∀ span,t.state.resolvedPlaceholders.lookup span = lastNumber start.1 (numberingOrder w.log) span
  opens : ∀ position ∈ start.2,Placed start.1 w.log position
  positions : ∀ position,
    (position ∈ t.state.params.map (·.position) ∨ position ∈ start.2) ↔ Placed start.1 w.log position
  resolved : ∀ pair ∈ t.resolved,∃ i : Nat,pair.2 = start.1 + i + 1 ∧ (numberingOrder w.log)[i]? = some pair.1
  met : ∀ span ∈ numberingOrder w.log,∃ position,(span,position) ∈ t.resolved

theorem numberingOrder_numbered (log : List (Visit Slot)) (position : Int) :
    numberingOrder (log ++ [.one (.numbered position)]) = numberingOrder log := by
  rw [numberingOrder,filterMap_append,filterMap_one_none rfl,List.append_nil,numberingOrder]

theorem numberingOrder_bare (log : List (Visit Slot)) (span : Span) :
    numberingOrder (log ++ [.one (.bare span)]) =
      numberingOrder log ++ if span ∈ numberingOrder log then [] else [span] := by
  simp only [numberingOrder,filterMap_append,fresh_append,
    filterMap_one_some (show Slot.span? (.bare span) = some span from rfl),List.append_nil,fresh_one]
  congr

theorem numberingOrder_table (log sub : List (Visit Slot)) :
    numberingOrder (log ++ [.table sub]) = numberingOrder log ++ numberingOrder sub := by
  simp [numberingOrder,filterMap_append,fresh_append]

theorem mem_numberingOrder {log : List (Visit Slot)} {span : Span} :
    span ∈ numberingOrder log ↔ .bare span ∈ keys log := by
  rw [numberingOrder,mem_fresh_iff,keys_filterMap,List.mem_filterMap]
  constructor
  · rintro ⟨slot,member,equal⟩
    cases slot with
    | numbered position => cases equal
    | bare other => cases equal; exact member
  · exact fun member => ⟨_,member,rfl⟩

theorem mem_registerIn {registration : Registration} {position p : Int} {params : List ParamInfo} :
    p ∈ (registerIn position registration params).map (·.position) ↔
      p ∈ params.map (·.position) ∨ p = position := by
  induction params with
  | nil => simp [registerIn]
  | cons param params ih =>
    unfold registerIn
    split
    · rename_i same
      simp only [List.map_cons,List.mem_cons,fillParam]
      rw [same]
      tauto
    · simp only [List.map_cons,List.mem_cons,ih]
      tauto

theorem Placed.mono (placed : Placed base log position) (later : List (Visit Slot)) :
    Placed base (log ++ later) position := by
  rcases placed with number | ⟨low,high⟩
  · exact .inl (by rw [keys_append]; exact List.mem_append_left _ number)
  · refine .inr ⟨low,?_⟩
    simp only [numberingOrder,filterMap_append,fresh_append,List.length_append] at high ⊢
    push_cast
    omega

theorem placed_numbered {base p position : Int} {log : List (Visit Slot)} :
    Placed base (log ++ [.one (.numbered position)]) p ↔ Placed base log p ∨ p = position := by
  unfold Placed
  rw [numberingOrder_numbered,keys_append]
  simp only [keys_one,List.mem_append,List.mem_singleton,Slot.numbered.injEq]
  tauto

theorem placed_bare {base p : Int} {log : List (Visit Slot)} {span : Span} :
    Placed base (log ++ [.one (.bare span)]) p ↔ Placed base log p ∨
      (span ∉ numberingOrder log ∧ p = base + (numberingOrder log).length + 1) := by
  unfold Placed
  rw [numberingOrder_bare,keys_append]
  simp only [keys_one,List.mem_append,List.mem_singleton,reduceCtorEq,or_false,List.length_append]
  by_cases known : span ∈ numberingOrder log
  · simp [known]
  · simp only [known,if_false,List.length_singleton,not_false_eq_true,true_and]
    push_cast
    constructor
    · rintro (number | ⟨low,high⟩)
      · exact .inl (.inl number)
      · by_cases old : p ≤ base + (numberingOrder log).length
        · exact .inl (.inr ⟨low,old⟩)
        · exact .inr (by omega)
    · rintro ((number | ⟨low,high⟩) | rfl)
      · exact .inl number
      · exact .inr ⟨low,by omega⟩
      · exact .inr ⟨by omega,by omega⟩

theorem placed_table {base p : Int} {log sub : List (Visit Slot)} :
    Placed base (log ++ [.table sub]) p ↔
      Placed base log p ∨ Placed (base + (numberingOrder log).length) sub p := by
  unfold Placed
  rw [numberingOrder_table,keys_append]
  simp only [keys_table,List.mem_append,List.length_append]
  push_cast
  constructor
  · rintro ((outer | inner) | ⟨low,high⟩)
    · exact .inl (.inl outer)
    · exact .inr (.inl inner)
    · by_cases old : p ≤ base + (numberingOrder log).length
      · exact .inl (.inr ⟨low,old⟩)
      · exact .inr (.inr ⟨by omega,by omega⟩)
  · rintro ((outer | ⟨low,high⟩) | (inner | ⟨low,high⟩))
    · exact .inl (.inl outer)
    · exact .inr ⟨low,by omega⟩
    · exact .inl (.inr inner)
    · exact .inr ⟨by omega,by omega⟩

-- Resolving a placeholder's position keeps the analyzer level with the walk;
-- the position stays open until it is registered.
theorem Tracks.resolve_numbered {base position : Int} {pending : List Int} {t : Traced} {w : Walk} {o : Occurrence}
    (tracks : Tracks (base,pending) t w) (parsed : parsePlaceholder o.token = some position) :
    Tracks (base,position :: pending) (t.resolve o position t.state) (w.visit (.numbered position)) where
  ctes := tracks.ctes
  pendingNested := tracks.pendingNested
  nextNestedId := tracks.nextNestedId
  typeErrors := tracks.typeErrors
  counter := by simpa only [Traced.resolve,Walk.visit,numberingOrder_numbered] using tracks.counter
  memo := by simpa only [Traced.resolve,Walk.visit,numberingOrder_numbered] using tracks.memo
  opens p member := by
    refine placed_numbered.mpr ?_
    rcases List.mem_cons.mp member with rfl | old
    · exact .inr rfl
    · exact .inl (tracks.opens p old)
  positions p := by
    have before := tracks.positions p
    simp only [Traced.resolve,Walk.visit,placed_numbered,List.mem_cons] at before ⊢
    tauto
  resolved := by
    simpa only [Traced.resolve,parsed,Option.isSome_some,if_true,Walk.visit,numberingOrder_numbered]
      using tracks.resolved
  met := by
    simpa only [Traced.resolve,parsed,Option.isSome_some,if_true,Walk.visit,numberingOrder_numbered] using tracks.met

theorem Tracks.resolve_known {base position : Int} {pending : List Int} {t : Traced} {w : Walk} {o : Occurrence}
    (tracks : Tracks (base,pending) t w) (bare : parsePlaceholder o.token = none)
    (found : t.state.resolvedPlaceholders.lookup o.span = some position) :
    Tracks (base,position :: pending) (t.resolve o position t.state) (w.visit (.bare o.span)) := by
  have numbered : lastNumber base (numberingOrder w.log) o.span = some position := by
    rw [←tracks.memo,found]
  have met : o.span ∈ numberingOrder w.log := by
    by_contra absent
    rw [lastNumber_none.mpr absent] at numbered
    cases numbered
  have order : numberingOrder (w.visit (.bare o.span)).log = numberingOrder w.log := by
    rw [Walk.visit,numberingOrder_bare,if_pos met,List.append_nil]
  have placed : Placed base w.log position := .inr (lastNumber_range numbered)
  refine {tracks with counter:=?_,memo:=?_,opens:=?_,positions:=?_,resolved:=?_,met:=?_}
  · rw [order]; exact tracks.counter
  · rw [order]; exact tracks.memo
  · intro p member
    refine placed_bare.mpr (.inl ?_)
    rcases List.mem_cons.mp member with rfl | old
    · exact placed
    · exact tracks.opens p old
  · intro p
    have before := tracks.positions p
    simp only [Traced.resolve,Walk.visit,placed_bare,List.mem_cons,met,not_true,false_and,or_false] at before ⊢
    constructor
    · rintro (param | rfl | old)
      · exact before.mp (.inl param)
      · exact placed
      · exact before.mp (.inr old)
    · exact fun is => (before.mpr is).imp_right .inr
  · intro pair member
    rw [order]
    simp only [Traced.resolve,bare,Option.isSome_none,Bool.false_eq_true,if_false,List.mem_append,
      List.mem_singleton] at member
    rcases member with old | rfl
    · exact tracks.resolved pair old
    · exact lastNumber_get numbered
  · intro span member
    rw [order] at member
    obtain ⟨p,known⟩ := tracks.met span member
    refine ⟨p,?_⟩
    simp only [Traced.resolve,bare,Option.isSome_none,Bool.false_eq_true,if_false,List.mem_append]
    exact .inl known

theorem Tracks.resolve_new {base : Int} {pending : List Int} {t : Traced} {w : Walk} {o : Occurrence}
    (tracks : Tracks (base,pending) t w) (bare : parsePlaceholder o.token = none)
    (unknown : t.state.resolvedPlaceholders.lookup o.span = none) :
    Tracks (base,(t.state.positionalParamCounter + 1) :: pending)
      (t.resolve o (t.state.positionalParamCounter + 1) {t.state with
        positionalParamCounter:=t.state.positionalParamCounter + 1
        resolvedPlaceholders:=t.state.resolvedPlaceholders.insert o.span (t.state.positionalParamCounter + 1)})
      (w.visit (.bare o.span)) := by
  have absent : o.span ∉ numberingOrder w.log := lastNumber_none.mp (by rw [←tracks.memo,unknown])
  have order : numberingOrder (w.visit (.bare o.span)).log = numberingOrder w.log ++ [o.span] := by
    rw [Walk.visit,numberingOrder_bare,if_neg absent]
  have counter := tracks.counter
  dsimp only at counter
  refine {
    ctes := tracks.ctes
    pendingNested := tracks.pendingNested
    nextNestedId := tracks.nextNestedId
    typeErrors := tracks.typeErrors
    counter := ?_
    memo := ?_
    opens := ?_
    positions := ?_
    resolved := ?_
    met := ?_ }
  · rw [order,List.length_append,List.length_singleton]
    simp only [Traced.resolve]
    push_cast
    omega
  · intro span
    simp only [Traced.resolve,order,lastNumber_append,lastNumber]
    by_cases same : span = o.span
    · subst same
      rw [AList.lookup_insert]
      simp only [if_true,Option.none_or,Option.some_or]
      rw [counter]
    · rw [AList.lookup_insert_ne same,if_neg (Ne.symm same)]
      simpa using tracks.memo span
  · intro p member
    refine placed_bare.mpr ?_
    rcases List.mem_cons.mp member with rfl | old
    · exact .inr ⟨absent,by rw [counter]⟩
    · exact .inl (tracks.opens p old)
  · intro p
    have before := tracks.positions p
    simp only [Traced.resolve,Walk.visit,placed_bare,List.mem_cons,absent,not_false_eq_true,true_and,counter]
      at before ⊢
    tauto
  · intro pair member
    rw [order]
    simp only [Traced.resolve,bare,Option.isSome_none,Bool.false_eq_true,if_false,List.mem_append,
      List.mem_singleton] at member
    rcases member with old | rfl
    · obtain ⟨i,number,is⟩ := tracks.resolved pair old
      exact ⟨i,number,List.getElem?_append_left (List.getElem?_eq_some_iff.mp is).1 ▸ is⟩
    · exact ⟨_,by rw [counter],by simp⟩
  · intro span member
    rw [order] at member
    simp only [Traced.resolve,bare,Option.isSome_none,Bool.false_eq_true,if_false,List.mem_append,
      List.mem_singleton] at member ⊢
    rcases member with old | rfl
    · obtain ⟨p,known⟩ := tracks.met span old
      exact ⟨p,.inl known⟩
    · exact ⟨_,.inr rfl⟩

theorem Tracks.resolve {base : Int} {pending : List Int} {t : Traced} {w : Walk} {o : Occurrence} {slot : Slot}
    (tracks : Tracks (base,pending) t w) (known : o.slot = some slot) :
    ∃ position analyzer,resolvePlaceholderPosition o.token o.span t.state = (some position,analyzer) ∧
      Tracks (base,position :: pending) (t.resolve o position analyzer) (w.visit slot) := by
  unfold Occurrence.slot at known
  unfold resolvePlaceholderPosition
  cases parsed : parsePlaceholder o.token with
  | some position =>
    rw [parsed] at known
    cases known
    exact ⟨position,_,rfl,tracks.resolve_numbered parsed⟩
  | none =>
    rw [parsed] at known
    dsimp only at known
    split at known
    · rename_i written
      cases known
      simp only [isPositionalPlaceholder,written.1,decide_true,if_true,if_neg written.2]
      cases found : t.state.resolvedPlaceholders.lookup o.span with
      | some position => exact ⟨position,_,rfl,tracks.resolve_known parsed found⟩
      | none => exact ⟨_,_,rfl,tracks.resolve_new parsed found⟩
    · cases known

theorem Tracks.register {base position : Int} {pending : List Int} {t : Traced} {w : Walk}
    (tracks : Tracks (base,position :: pending) t w) (registration : Registration) :
    Tracks (base,pending) (t.register position registration) w where
  ctes := tracks.ctes
  pendingNested := tracks.pendingNested
  nextNestedId := tracks.nextNestedId
  typeErrors := tracks.typeErrors
  counter := tracks.counter
  memo := tracks.memo
  opens p member := tracks.opens p (List.mem_cons_of_mem _ member)
  positions p := by
    have before := tracks.positions p
    simp only [Traced.register,registerParam,mem_registerIn,List.mem_cons,or_assoc] at before ⊢
    exact before
  resolved := tracks.resolved
  met := tracks.met

theorem not_placed_nothing (base position : Int) : ¬Placed base [] position := by
  simp only [Placed,numberingOrder,filterMap,fresh,keys,List.not_mem_nil,false_or,List.length_nil]
  push_cast
  rintro ⟨low,high⟩
  omega

theorem Tracks.nothing {base : Int} {t : Traced} {w : Walk} (ctes : t.state.ctes = w.ctes)
    (pendingNested : t.state.pendingNested = w.pendingNested)
    (nextNestedId : t.state.nextNestedId = w.nextNestedId) (typeErrors : t.state.typeErrors = [])
    (counter : t.state.positionalParamCounter = base) (memo : t.state.resolvedPlaceholders = ∅)
    (params : t.state.params = []) (resolved : t.resolved = []) (log : w.log = []) : Tracks (base,[]) t w where
  ctes := ctes
  pendingNested := pendingNested
  nextNestedId := nextNestedId
  typeErrors := typeErrors
  counter := by simp [log,counter,numberingOrder]
  memo span := by simp [log,memo,numberingOrder]
  opens := nofun
  positions p := by simp [params,log,not_placed_nothing]
  resolved := by simp [resolved]
  met := by simp [log,numberingOrder]

theorem Tracks.sub {base : Int} {pending : List Int} {t : Traced} {w : Walk} (tracks : Tracks (base,pending) t w) :
    Tracks (t.state.positionalParamCounter,[]) t.sub w.sub :=
  .nothing tracks.ctes rfl tracks.nextNestedId rfl rfl rfl rfl rfl rfl

theorem Tracks.merge {base : Int} {pending : List Int} {t sub : Traced} {w wsub : Walk}
    (tracks : Tracks (base,pending) t w) (inner : Tracks (t.state.positionalParamCounter,[]) sub wsub) :
    Tracks (base,pending) (t.merge sub) (w.merge wsub) where
  ctes := tracks.ctes
  pendingNested := by
    simp only [Traced.merge,Analyzer.merge,Walk.merge,tracks.pendingNested,inner.pendingNested]
  nextNestedId := inner.nextNestedId
  typeErrors := by
    simp only [Traced.merge,Analyzer.merge,tracks.typeErrors,inner.typeErrors,List.append_nil]
  counter := by
    have outer := tracks.counter
    have counter := inner.counter
    simp only [Traced.merge,Analyzer.merge,Walk.merge,numberingOrder_table,List.length_append] at outer counter ⊢
    push_cast
    omega
  memo span := by
    simp only [Traced.merge,Analyzer.merge,Walk.merge,numberingOrder_table,lastNumber_append]
    rw [←tracks.memo span]
    have first := inner.memo span
    rw [tracks.counter] at first
    rw [←first]
    cases found : sub.state.resolvedPlaceholders.lookup span with
    | none => rw [Option.none_or,AList.lookup_union_right (AList.lookup_eq_none.mp found)]
    | some position =>
      rw [Option.some_or,AList.lookup_union_left (AList.lookup_isSome.mp (by rw [found]; rfl)),found]
  opens p member := (tracks.opens p member).mono _
  positions p := by
    have outer := tracks.positions p
    have positions := inner.positions p
    rw [tracks.counter] at positions
    simp only [Traced.merge,Analyzer.merge,Walk.merge,placed_table,List.map_append,List.mem_append,List.not_mem_nil,
      or_false] at outer positions ⊢
    rw [←outer,←positions]
    tauto
  resolved pair member := by
    simp only [Walk.merge,numberingOrder_table]
    rcases List.mem_append.mp member with old | new
    · obtain ⟨i,number,is⟩ := tracks.resolved pair old
      exact ⟨i,number,List.getElem?_append_left (List.getElem?_eq_some_iff.mp is).1 ▸ is⟩
    · obtain ⟨i,number,is⟩ := inner.resolved pair new
      refine ⟨(numberingOrder w.log).length + i,?_,?_⟩
      · rw [number,tracks.counter]; push_cast; omega
      · rw [List.getElem?_append_right (Nat.le_add_right _ _),Nat.add_sub_cancel_left,is]
  met span member := by
    simp only [Walk.merge,numberingOrder_table,List.mem_append] at member
    rcases member with old | new
    · exact (tracks.met span old).imp fun p known => List.mem_append_left _ known
    · exact (inner.met span new).imp fun p known => List.mem_append_right _ known

theorem tracks_op (operation : AnalyzerOp β) (i : Int × List Int) (t : Traced) (w : Walk) (tracks : Tracks i t w) :
    Refines (Tracks i) (tracedOp operation t) (walkOp operation w) := by
  intro value after ran
  cases operation with
  | typeError message => cases ran
  | ctes =>
    cases ran
    exact ⟨t,by simp [tracedOp,runOp,tracks.ctes],tracks⟩
  | insertCte name columns =>
    cases ran
    exact ⟨_,rfl,{tracks with ctes:=by simp only [tracks.ctes]}⟩
  | pushPendingNested fields =>
    cases ran
    refine ⟨{t with state:={t.state with
      nextNestedId:=t.state.nextNestedId + 1
      pendingNested:=t.state.pendingNested ++ [⟨t.state.nextNestedId,fields⟩]}},
      by simp only [tracedOp,runOp,Option.map_some,tracks.nextNestedId],
      {tracks with pendingNested:=?_,nextNestedId:=?_}⟩
    · simp only [tracks.pendingNested,tracks.nextNestedId]
    · simp only [tracks.nextNestedId]
  | pendingNested =>
    cases ran
    exact ⟨t,by simp [tracedOp,runOp,tracks.pendingNested],tracks⟩
  | fail failure => cases ran
  | diverge => cases ran

theorem tracks_scoped (operation : AnalyzerScoped β γ) (m : Run Traced ScytheError β) (n : Run Walk ScytheError β)
    (bodies : ∀ j t w,Tracks j t w → Refines (Tracks j) (m t) (n w)) (i : Int × List Int) (t : Traced) (w : Walk)
    (tracks : Tracks i t w) : Refines (Tracks i) (tracedScoped operation m t) (walkScoped operation n w) := by
  obtain ⟨base,pending⟩ := i
  intro value after ran
  cases operation with
  | place occurrence =>
    simp only [walkScoped] at ran
    split at ran
    · cases ran
    · rename_i slot known
      obtain ⟨registration,w',bodyRan,done⟩ := chain_some ran
      cases done
      obtain ⟨position,analyzer,resolved,opened⟩ := tracks.resolve known
      obtain ⟨t',bodyDone,closed⟩ := bodies _ _ (w.visit slot) opened registration after bodyRan
      refine ⟨t'.register position registration,?_,closed.register registration⟩
      simp only [tracedScoped,resolved,chain,bodyDone]
  | derived =>
    simp only [walkScoped] at ran
    split at ran
    · cases ran
    · cases ran
    · rename_i columns wsub bodyRan
      cases ran
      obtain ⟨sub,bodyDone,inner⟩ := bodies _ _ _ tracks.sub _ wsub bodyRan
      refine ⟨t.merge sub,?_,tracks.merge inner⟩
      simp only [tracedScoped,bodyDone]
  | attempt =>
    obtain ⟨columns,w',bodyRan,done⟩ := chain_some ran
    cases done
    obtain ⟨t',bodyDone,related⟩ := bodies _ t w tracks columns after bodyRan
    exact ⟨t',by simp only [tracedScoped,bodyDone],related⟩

theorem tracks : Simulation Traced.handler Walk.handler Tracks := ⟨tracks_op,tracks_scoped⟩

theorem Tracks.new : Tracks (0,[]) Traced.new Walk.new := .nothing rfl rfl rfl rfl rfl rfl rfl rfl rfl

-- Where the walk comes to its end the analyzer does, with the same columns.
theorem trace_tracks {program : Analysis α} (walked : program.walk .new = some (.ok value,w)) :
    ∃ t,program.trace .new = some (.ok value,t) ∧ program.run .new = some (.ok value,t.state) ∧
      Tracks (0,[]) t w := by
  obtain ⟨t,traced,level⟩ := tracks.run program _ _ _ .new value w walked
  refine ⟨t,traced,?_,level⟩
  have forgotten := trace_forget program .new
  rw [show program.trace .new = some (.ok value,t) from traced] at forgotten
  exact forgotten.symm

end Scythe
