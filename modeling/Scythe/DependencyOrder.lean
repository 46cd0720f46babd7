import Scythe.TypeClosure

-- The order in which the composites of a query are declared.
namespace Scythe
open Text

-- The order that a recursion of bounded depth comes to.
def orderedWithin (depth : Nat) (composites : List CompositeInfo) : List CompositeInfo :=
  let byName name := composites.reverse.find? fun comp => comp.sqlName = name
  (composites.foldl (fun walk comp => visitComposite byName depth comp walk) ⟨[],[],[]⟩).ordered

-- A field of the one, in whatever containers, has the other as its type.
def DependsOn (composites : List CompositeInfo) (comp dep : CompositeInfo) : Prop :=
  dep ∈ composites ∧ ∃ field ∈ comp.fields,compositeRef field.neutralType = some dep.sqlName

def Acyclic (composites : List CompositeInfo) : Prop :=
  ∀ comp ∈ composites,¬Relation.TransGen (DependsOn composites) comp comp

def DependenciesFirst (composites ordered : List CompositeInfo) : Prop :=
  ∀ before comp after,ordered = before ++ comp :: after → ∀ dep,DependsOn composites comp dep → dep ∈ before

theorem dependenciesFirst_nil (composites : List CompositeInfo) : DependenciesFirst composites [] := by
  intro before comp after is
  cases before <;> cases is

theorem DependenciesFirst.snoc {composites ordered : List CompositeInfo} {comp : CompositeInfo}
    (first : DependenciesFirst composites ordered) (all : ∀ dep,DependsOn composites comp dep → dep ∈ ordered) :
    DependenciesFirst composites (ordered ++ [comp]) := by
  intro before other after is dep depends
  rcases List.eq_nil_or_concat after with rfl | ⟨rest,last,rfl⟩
  · obtain ⟨rfl,same⟩ := List.append_inj' is rfl
    cases same
    exact all dep depends
  · have shifted : ordered ++ [comp] = (before ++ other :: rest) ++ [last] := by
      rw [is,List.concat_eq_append,List.append_assoc,List.cons_append]
    obtain ⟨inner,-⟩ := List.append_inj' shifted rfl
    exact first before other rest inner dep depends

-- The names that a visit may still enter.
def unvisited (composites : List CompositeInfo) (visiting : List String) : Nat :=
  ((composites.map (·.sqlName)).filter (· ∉ visiting)).length

theorem unvisited_entered {composites : List CompositeInfo} {comp : CompositeInfo} {visiting : List String}
    (given : comp ∈ composites) (fresh : comp.sqlName ∉ visiting) :
    unvisited composites (comp.sqlName :: visiting) < unvisited composites visiting := by
  have parts : (composites.map (·.sqlName)).filter (· ∉ comp.sqlName :: visiting) =
      ((composites.map (·.sqlName)).filter (· ∉ visiting)).filter (· ≠ comp.sqlName) := by
    rw [List.filter_filter]
    congr 1
    funext name
    simp [List.mem_cons,not_or]
  rw [unvisited,parts,unvisited,List.length_filter_lt_length_iff_exists]
  refine ⟨comp.sqlName,List.mem_filter.mpr ⟨List.mem_map.mpr ⟨comp,given,rfl⟩,?_⟩,?_⟩
  · exact decide_eq_true fresh
  · simp

theorem unvisited_nil (composites : List CompositeInfo) : unvisited composites [] = composites.length := by
  simp [unvisited]

section Visits
variable {composites : List CompositeInfo} {byName : String → Option CompositeInfo}

def dependencies (byName : String → Option CompositeInfo) (comp : CompositeInfo) : List CompositeInfo :=
  comp.fields.filterMap fun field => (compositeRef field.neutralType).bind byName

theorem visitComposite_succ (depth : Nat) (comp : CompositeInfo) (walk : DependencyWalk) :
    visitComposite byName (depth + 1) comp walk =
      if comp.sqlName ∈ walk.emitted ∨ comp.sqlName ∈ walk.visiting then walk else
      let left := (dependencies byName comp).foldl (fun walk dep => visitComposite byName depth dep walk)
        { walk with visiting := comp.sqlName :: walk.visiting }
      let closed : DependencyWalk := { left with visiting := left.visiting.erase comp.sqlName }
      if comp.sqlName ∈ closed.emitted then closed else
      { closed with emitted := comp.sqlName :: closed.emitted,ordered := closed.ordered ++ [comp] } := rfl

variable (found : ∀ name,∀ comp ∈ byName name,comp ∈ composites)
include found

theorem dependencies_given {comp dep : CompositeInfo} (member : dep ∈ dependencies byName comp) : dep ∈ composites := by
  obtain ⟨field,-,is⟩ := List.mem_filterMap.mp member
  obtain ⟨name,-,known⟩ := Option.bind_eq_some_iff.mp is
  exact found name dep known

-- A visit never goes deeper than there are names that it has not entered.
theorem visit_deeper {depth more : Nat} : ∀ {comp : CompositeInfo} {walk : DependencyWalk},comp ∈ composites →
    unvisited composites walk.visiting < depth →
      visitComposite byName (depth + more) comp walk = visitComposite byName depth comp walk := by
  induction depth with
  | zero => exact fun _ enough => absurd enough (Nat.not_lt_zero _)
  | succ depth ih =>
    intro comp walk given enough
    rw [Nat.add_right_comm,visitComposite_succ,visitComposite_succ]
    split
    · rfl
    · rename_i outside
      have within := unvisited_entered given fun entered => outside (.inr entered)
      have below : ∀ (deps : List CompositeInfo) (next : DependencyWalk),(∀ dep ∈ deps,dep ∈ composites) →
          next.visiting = comp.sqlName :: walk.visiting →
            deps.foldl (fun walk dep => visitComposite byName (depth + more) dep walk) next =
              deps.foldl (fun walk dep => visitComposite byName depth dep walk) next := by
        intro deps
        induction deps with
        | nil => exact fun _ _ _ => rfl
        | cons dep deps inner =>
          intro next all path
          rw [List.foldl_cons,List.foldl_cons,ih (all dep List.mem_cons_self) (by rw [path]; omega)]
          exact inner _ (fun other among => all other (List.mem_cons_of_mem _ among)) (by rw [visit_visiting,path])
      rw [below _ _ (fun dep member => dependencies_given found member) rfl]

-- Each name is emitted once, with its composite.
structure EmittedOnce (composites : List CompositeInfo) (walk : DependencyWalk) : Prop extends Walked composites walk where
  once : (walk.ordered.map (·.sqlName)).Nodup

theorem visit_once (depth : Nat) : ∀ {comp : CompositeInfo} {walk : DependencyWalk},comp ∈ composites →
    EmittedOnce composites walk → EmittedOnce composites (visitComposite byName depth comp walk) := by
  induction depth with
  | zero => exact fun _ holds => holds
  | succ depth ih =>
    intro comp walk given holds
    refine ⟨visit_walked found _ given holds.toWalked,?_⟩
    rw [visitComposite_succ]
    split
    · exact holds.once
    · dsimp only
      have inner : EmittedOnce composites ((dependencies byName comp).foldl
          (fun walk dep => visitComposite byName depth dep walk)
            { walk with visiting := comp.sqlName :: walk.visiting }) := by
        refine List.foldlRecOn (motive := EmittedOnce composites) _ _ ⟨⟨holds.names,holds.given⟩,holds.once⟩ ?_
        intro next keeps dep member
        exact ih (dependencies_given found member) keeps
      split
      · exact inner.once
      · rename_i unknown
        rw [List.map_append,List.map_singleton]
        refine List.nodup_append.mpr ⟨inner.once,List.nodup_singleton _,?_⟩
        intro name emitted other last same
        rw [List.mem_singleton] at last
        obtain ⟨known,among,is⟩ := List.mem_map.mp emitted
        exact unknown ((inner.names _).mpr ⟨known,among,is.trans (same.trans last)⟩)

end Visits

section Order
variable {composites : List CompositeInfo}

def lastNamed (composites : List CompositeInfo) (name : String) : Option CompositeInfo :=
  composites.reverse.find? fun comp => comp.sqlName = name

theorem lastNamed_given (name : String) : ∀ comp ∈ lastNamed composites name,comp ∈ composites :=
  fun _ is => List.mem_reverse.mp (List.mem_of_find?_eq_some is)

variable (distinct : (composites.map (·.sqlName)).Nodup)
include distinct

theorem same_named {a b : CompositeInfo} (givenA : a ∈ composites) (givenB : b ∈ composites)
    (same : a.sqlName = b.sqlName) : a = b := List.inj_on_of_nodup_map distinct givenA givenB same

theorem lastNamed_named {comp : CompositeInfo} (given : comp ∈ composites) :
    lastNamed composites comp.sqlName = some comp := by
  cases is : lastNamed composites comp.sqlName with
  | none =>
    have absent := List.find?_eq_none.mp is comp (List.mem_reverse.mpr given)
    exact absurd (decide_eq_true rfl) absent
  | some other =>
    have named := List.find?_some is
    rw [same_named distinct (lastNamed_given _ other is) given (of_decide_eq_true named)]

theorem mem_dependencies {comp dep : CompositeInfo} :
    dep ∈ dependencies (lastNamed composites) comp ↔ DependsOn composites comp dep := by
  unfold dependencies
  rw [List.mem_filterMap]
  constructor
  · intro member
    obtain ⟨field,inside,is⟩ := member
    obtain ⟨name,ref,known⟩ := Option.bind_eq_some_iff.mp is
    have named := List.find?_some known
    rw [decide_eq_true_eq] at named
    exact ⟨lastNamed_given name dep known,field,inside,ref.trans (congrArg some named.symm)⟩
  · intro depends
    obtain ⟨given,field,inside,ref⟩ := depends
    exact ⟨field,inside,by rw [ref,Option.bind_some,lastNamed_named distinct given]⟩

-- The composites that are being visited lead to the next one, so without cycles
-- none of them is met again and each dependency is emitted before.
def LeadsTo (composites : List CompositeInfo) (visiting : List String) (comp : CompositeInfo) : Prop :=
  ∀ name ∈ visiting,∃ outer ∈ composites,outer.sqlName = name ∧ Relation.TransGen (DependsOn composites) outer comp

omit distinct in
theorem LeadsTo.enter {visiting : List String} {comp dep : CompositeInfo} (leads : LeadsTo composites visiting comp)
    (given : comp ∈ composites) (depends : DependsOn composites comp dep) :
    LeadsTo composites (comp.sqlName :: visiting) dep := by
  intro name member
  rcases List.mem_cons.mp member with rfl | outer
  · exact ⟨comp,given,rfl,.single depends⟩
  · obtain ⟨other,inside,is,path⟩ := leads name outer
    exact ⟨other,inside,is,path.tail depends⟩

theorem visit_ordered (acyclic : Acyclic composites) (depth : Nat) : ∀ {comp : CompositeInfo} {walk : DependencyWalk},
    comp ∈ composites → LeadsTo composites walk.visiting comp → unvisited composites walk.visiting < depth →
      Walked composites walk → DependenciesFirst composites walk.ordered →
        comp.sqlName ∈ (visitComposite (lastNamed composites) depth comp walk).emitted ∧
          DependenciesFirst composites (visitComposite (lastNamed composites) depth comp walk).ordered := by
  induction depth with
  | zero => exact fun _ _ enough => absurd enough (Nat.not_lt_zero _)
  | succ depth ih =>
    intro comp walk given leads enough walked first
    rw [visitComposite_succ]
    split
    · rename_i known
      rcases known with emitted | entered
      · exact ⟨emitted,first⟩
      · obtain ⟨outer,inside,is,path⟩ := leads _ entered
        rw [same_named distinct inside given is] at path
        exact absurd path (acyclic comp given)
    · rename_i outside
      have within := unvisited_entered given fun entered => outside (.inr entered)
      -- The visits of the dependencies, one after the other.
      have below : ∀ (deps : List CompositeInfo) (next : DependencyWalk),(∀ dep ∈ deps,DependsOn composites comp dep) →
          next.visiting = comp.sqlName :: walk.visiting → Walked composites next →
            DependenciesFirst composites next.ordered →
              Walked composites (deps.foldl (fun walk dep => visitComposite (lastNamed composites) depth dep walk) next) ∧
              DependenciesFirst composites
                (deps.foldl (fun walk dep => visitComposite (lastNamed composites) depth dep walk) next).ordered ∧
              ∀ dep,dep ∈ deps ∨ dep.sqlName ∈ next.emitted → dep.sqlName ∈
                (deps.foldl (fun walk dep => visitComposite (lastNamed composites) depth dep walk) next).emitted := by
        intro deps
        induction deps with
        | nil => exact fun next _ _ holds ordered => ⟨holds,ordered,fun dep known => known.resolve_left List.not_mem_nil⟩
        | cons dep deps inner =>
          intro next all path holds ordered
          have depends := all dep List.mem_cons_self
          obtain ⟨emitted,after⟩ := ih depends.1 (by rw [path]; exact leads.enter given depends)
            (by rw [path]; omega) holds ordered
          obtain ⟨walkedAfter,orderedAfter,kept⟩ := inner _
            (fun other among => all other (List.mem_cons_of_mem _ among)) (by rw [visit_visiting,path])
            (visit_walked lastNamed_given depth depends.1 holds) after
          refine ⟨walkedAfter,orderedAfter,fun other known => ?_⟩
          rcases known with among | earlier
          · rcases List.mem_cons.mp among with rfl | later
            · exact kept other (.inr emitted)
            · exact kept other (.inl later)
          · exact kept other (.inr (visit_keeps _ depth earlier))
      obtain ⟨walkedBelow,orderedBelow,emittedBelow⟩ := below (dependencies (lastNamed composites) comp)
        { walk with visiting := comp.sqlName :: walk.visiting } (fun dep member => (mem_dependencies distinct).mp member)
        rfl ⟨walked.names,walked.given⟩ first
      dsimp only
      split
      · rename_i known
        exact ⟨known,orderedBelow⟩
      · refine ⟨List.mem_cons_self,orderedBelow.snoc fun dep depends => ?_⟩
        have emitted := emittedBelow dep (.inl ((mem_dependencies distinct).mpr depends))
        obtain ⟨other,among,is⟩ := (walkedBelow.names _).mp emitted
        rwa [← same_named distinct (walkedBelow.given other among) depends.1 is]

theorem order_first (acyclic : Acyclic composites) : DependenciesFirst composites (compositesInDependencyOrder composites) := by
  have holds : ∀ (rest : List CompositeInfo) (walk : DependencyWalk),(∀ comp ∈ rest,comp ∈ composites) →
      walk.visiting = [] → Walked composites walk → DependenciesFirst composites walk.ordered →
        DependenciesFirst composites (rest.foldl (fun walk comp =>
          visitComposite (lastNamed composites) (composites.length + 1) comp walk) walk).ordered := by
    intro rest
    induction rest with
    | nil => exact fun _ _ _ _ first => first
    | cons comp rest ih =>
      intro walk all idle walked first
      have given := all comp List.mem_cons_self
      have leads : LeadsTo composites walk.visiting comp := by
        rw [idle]
        exact fun name member => absurd member List.not_mem_nil
      have enough : unvisited composites walk.visiting < composites.length + 1 := by
        rw [idle,unvisited_nil]
        exact Nat.lt_succ_self _
      have after := visit_ordered distinct acyclic (composites.length + 1) given leads enough walked first
      exact ih _ (fun other among => all other (List.mem_cons_of_mem _ among)) (by rw [visit_visiting,idle])
        (visit_walked lastNamed_given _ given walked) after.2
  exact holds composites ⟨[],[],[]⟩ (fun _ given => given) rfl
    ⟨fun name => by simp,fun comp member => absurd member List.not_mem_nil⟩ (dependenciesFirst_nil composites)

end Order

theorem order_once (composites : List CompositeInfo) :
    ((compositesInDependencyOrder composites).map (·.sqlName)).Nodup := by
  have holds : EmittedOnce composites (composites.foldl (fun walk comp =>
      visitComposite (lastNamed composites) (composites.length + 1) comp walk) ⟨[],[],[]⟩) := by
    refine List.foldlRecOn (motive := EmittedOnce composites) _ _ ?_ ?_
    · exact ⟨⟨fun name => by simp,fun comp member => absurd member List.not_mem_nil⟩,List.nodup_nil⟩
    · intro walk once comp given
      exact visit_once lastNamed_given _ given once
  exact holds.once

theorem order_deeper (composites : List CompositeInfo) {depth : Nat} (deep : composites.length < depth) :
    orderedWithin depth composites = compositesInDependencyOrder composites := by
  obtain ⟨more,rfl⟩ := Nat.exists_eq_add_of_le deep
  have holds : ∀ (rest : List CompositeInfo) (walk : DependencyWalk),(∀ comp ∈ rest,comp ∈ composites) →
      walk.visiting = [] →
        rest.foldl (fun walk comp => visitComposite (lastNamed composites) (composites.length + 1 + more) comp walk) walk =
          rest.foldl (fun walk comp => visitComposite (lastNamed composites) (composites.length + 1) comp walk) walk := by
    intro rest
    induction rest with
    | nil => exact fun _ _ _ => rfl
    | cons comp rest ih =>
      intro walk all idle
      have enough : unvisited composites walk.visiting < composites.length + 1 := by
        rw [idle,unvisited_nil]
        exact Nat.lt_succ_self _
      rw [List.foldl_cons,List.foldl_cons,visit_deeper lastNamed_given (all comp List.mem_cons_self) enough]
      exact ih _ (fun other among => all other (List.mem_cons_of_mem _ among)) (by rw [visit_visiting,idle])
  exact congrArg DependencyWalk.ordered (holds composites ⟨[],[],[]⟩ (fun _ given => given) rfl)

-- Of several composites with one name one is kept, so it is a permutation for
-- different names only.
theorem order_perm_iff (composites : List CompositeInfo) :
    (compositesInDependencyOrder composites).Perm composites ↔ (composites.map (·.sqlName)).Nodup := by
  constructor
  · intro perm
    exact (perm.map _).nodup_iff.mp (order_once composites)
  · intro distinct
    refine (List.perm_ext_iff_of_nodup (order_once composites).of_map distinct.of_map).mpr fun comp => ?_
    constructor
    · exact dependencyOrder_given
    · intro given
      obtain ⟨ordered,member,same⟩ := dependencyOrder_names given
      rwa [← same_named distinct (dependencyOrder_given member) given same]

theorem dependency_order (composites : List CompositeInfo) :
    (∀ depth,composites.length < depth → orderedWithin depth composites = compositesInDependencyOrder composites) ∧
      ((compositesInDependencyOrder composites).Perm composites ↔ (composites.map (·.sqlName)).Nodup) ∧
        ((composites.map (·.sqlName)).Nodup → Acyclic composites →
          DependenciesFirst composites (compositesInDependencyOrder composites)) :=
  ⟨fun _ deep => order_deeper composites deep,order_perm_iff composites,fun distinct acyclic => order_first distinct acyclic⟩

-- Two definitions of one name, of which the first is lost.
def twicePoint : List CompositeInfo := [⟨"point",[⟨"x","int32",false⟩]⟩,⟨"point",[⟨"y","int32",false⟩]⟩]

theorem twice_named : (compositesInDependencyOrder twicePoint).length = 1 ∧
    ¬(compositesInDependencyOrder twicePoint).Perm twicePoint := by
  refine ⟨by decide +kernel,fun perm => ?_⟩
  exact absurd ((order_perm_iff twicePoint).mp perm) (by decide)

end Scythe
