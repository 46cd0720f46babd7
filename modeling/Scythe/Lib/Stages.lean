import Mathlib.Data.List.Forall2
import Mathlib.Logic.Relation

-- Changes to a state that are made one after another. Each is checked first, and the
-- first check that fails ends them; what was changed before stays changed.
namespace Stages

variable {σ ε : Type}

structure Stage (σ ε : Type) where
  refuse : σ → Option ε
  change : σ → σ

def step (stage : Stage σ ε) (s : σ) : σ × Except ε Unit :=
  match stage.refuse s with
  | some e => (s,.error e)
  | none => (stage.change s,.ok ())

def run : List (Stage σ ε) → σ → σ × Except ε Unit
  | [],s => (s,.ok ())
  | stage :: stages,s =>
    match step stage s with
    | (s',.ok ()) => run stages s'
    | (s',.error e) => (s',.error e)

-- A stage that there may be nothing for.
def Stage.given {α : Type} (stage : α → Stage σ ε) : Option α → Stage σ ε
  | some a => stage a
  | none => ⟨fun _ => none,id⟩

theorem given_refuse {α : Type} {stage : α → Stage σ ε} {given : Option α} {s : σ} :
    (Stage.given stage given).refuse s = none ↔ ∀ a ∈ given,(stage a).refuse s = none := by
  cases given with
  | none => simp [Stage.given]
  | some a => simp [Stage.given]

theorem given_refuses {α : Type} {stage : α → Stage σ ε} {given : Option α} {s : σ} {e : ε}
    (refused : (Stage.given stage given).refuse s = some e) : ∃ a,given = some a ∧ (stage a).refuse s = some e := by
  cases given with
  | none => cases refused
  | some a => exact ⟨a,rfl,refused⟩

theorem run_cons (stage : Stage σ ε) (stages : List (Stage σ ε)) (s : σ) :
    run (stage :: stages) s =
      match stage.refuse s with
      | some e => (s,.error e)
      | none => run stages (stage.change s) := by
  rw [run,step]
  cases stage.refuse s <;> rfl

-- What every change keeps is kept, whether or not a check fails on the way.
theorem run_related {R : σ → σ → Prop} (refl : ∀ s,R s s) (trans : ∀ a b c,R a b → R b c → R a c)
    {stages : List (Stage σ ε)} (each : ∀ stage ∈ stages,∀ s,stage.refuse s = none → R s (stage.change s)) (s : σ) :
    R s (run stages s).1 := by
  induction stages generalizing s with
  | nil => exact refl s
  | cons stage stages ih =>
    rw [run_cons]
    cases refused : stage.refuse s with
    | some e => exact refl s
    | none =>
      exact trans _ _ _ (each stage List.mem_cons_self s refused)
        (ih (fun other member => each other (List.mem_cons_of_mem _ member)) _)

-- Checks that no change before them has a bearing on may all be made on the first state.
def Steady (stages : List (Stage σ ε)) : Prop :=
  stages.Pairwise fun stage later => ∀ s,stage.refuse s = none → later.refuse (stage.change s) = later.refuse s

def refusal (stages : List (Stage σ ε)) (s : σ) : Option ε := stages.findSome? fun stage => stage.refuse s

def changed (stages : List (Stage σ ε)) (s : σ) : σ := stages.foldl (fun s stage => stage.change s) s

theorem refusal_cons (stage : Stage σ ε) (stages : List (Stage σ ε)) (s : σ) :
    refusal (stage :: stages) s = (stage.refuse s).or (refusal stages s) := by
  unfold refusal
  rw [List.findSome?_cons]
  cases stage.refuse s <;> rfl

-- What a check depends on, and what a change leaves as it is.
def DependsOn {β : Type} (view : σ → β) (stage : Stage σ ε) : Prop := ∀ s t,view s = view t → stage.refuse s = stage.refuse t

def Leaves {β : Type} (view : σ → β) (stage : Stage σ ε) : Prop :=
  ∀ s,stage.refuse s = none → view (stage.change s) = view s

theorem given_depends {α β : Type} {view : σ → β} {stage : α → Stage σ ε} (each : ∀ a,DependsOn view (stage a)) :
    ∀ given : Option α,DependsOn view (Stage.given stage given)
  | some a => each a
  | none => fun _ _ _ => rfl

theorem given_leaves {α β : Type} {view : σ → β} {stage : α → Stage σ ε} (each : ∀ a,Leaves view (stage a)) :
    ∀ given : Option α,Leaves view (Stage.given stage given)
  | some a => each a
  | none => fun _ _ => rfl

theorem steady_cons {β : Type} (view : σ → β) {stage : Stage σ ε} {stages : List (Stage σ ε)} (leaves : Leaves view stage)
    (depend : ∀ later ∈ stages,DependsOn view later) (steady : Steady stages) : Steady (stage :: stages) :=
  List.pairwise_cons.mpr ⟨fun later member s accepted => depend later member _ _ (leaves s accepted),steady⟩

theorem refusal_steady {stage : Stage σ ε} {stages : List (Stage σ ε)} {s : σ}
    (steady : ∀ other ∈ stages,other.refuse (stage.change s) = other.refuse s) :
    refusal stages (stage.change s) = refusal stages s := by
  induction stages with
  | nil => rfl
  | cons other stages ih =>
    rw [refusal_cons,refusal_cons,steady other List.mem_cons_self,
      ih fun later member => steady later (List.mem_cons_of_mem _ member)]

theorem run_steady {stages : List (Stage σ ε)} (steady : Steady stages) (s : σ) :
    (run stages s).2 = (match refusal stages s with | some e => .error e | none => .ok ()) ∧
      (refusal stages s = none → (run stages s).1 = changed stages s) := by
  induction stages generalizing s with
  | nil => exact ⟨rfl,fun _ => rfl⟩
  | cons stage stages ih =>
    obtain ⟨first,others⟩ := List.pairwise_cons.mp steady
    have rest := ih others (stage.change s)
    rw [run_cons,refusal_cons]
    cases refused : stage.refuse s with
    | some e => exact ⟨rfl,fun absent => nomatch absent⟩
    | none =>
      have same := @refusal_steady _ _ stage stages s fun later member => first later member s refused
      rw [same] at rest
      exact rest

section Runs

theorem run_append {stages others : List (Stage σ ε)} {s : σ} :
    run (stages ++ others) s =
      match run stages s with
      | (t,.ok ()) => run others t
      | (t,.error e) => (t,.error e) := by
  induction stages generalizing s with
  | nil => rfl
  | cons stage stages ih =>
    rw [List.cons_append,run_cons,run_cons]
    cases stage.refuse s with
    | some e => rfl
    | none => exact ih

section Each
variable {α β : Type} {plan : α → List (Stage σ ε)}

-- Where the stages are those of one member after another, a run that ends has had all
-- of them, and one that fails has had those before a member that fails.
theorem run_each {outcome : α → Except ε β} {change : σ → β → σ}
    (each : ∀ a s t,run (plan a) s = (t,.ok ()) ↔ ∃ b,outcome a = .ok b ∧ t = change s b) {items : List α} {s t : σ} :
    run (items.flatMap plan) s = (t,.ok ()) ↔
      ∃ results,List.Forall₂ (fun a b => outcome a = .ok b) items results ∧ t = results.foldl change s := by
  induction items generalizing s with
  | nil =>
    constructor
    · intro ended
      cases ended
      exact ⟨[],.nil,rfl⟩
    · rintro ⟨results,none,rfl⟩
      cases none
      rfl
  | cons item items ih =>
    rw [List.flatMap_cons,run_append]
    constructor
    · intro ended
      rcases first : run (plan item) s with ⟨middle,e | _⟩
      · rw [first] at ended
        cases ended
      · rw [first] at ended
        obtain ⟨b,is,rfl⟩ := (each item s middle).mp first
        obtain ⟨results,others,rfl⟩ := ih.mp ended
        exact ⟨b :: results,.cons is others,rfl⟩
    · rintro ⟨results,all,rfl⟩
      cases all with
      | cons is others =>
        rw [(each item s _).mpr ⟨_,is,rfl⟩]
        exact ih.mpr ⟨_,others,rfl⟩

theorem run_each_error {items : List α} {s t : σ} {e : ε} : run (items.flatMap plan) s = (t,.error e) ↔
    ∃ before item after middle,items = before ++ item :: after ∧
      run (before.flatMap plan) s = (middle,.ok ()) ∧ run (plan item) middle = (t,.error e) := by
  constructor
  · intro ended
    induction items generalizing s with
    | nil => cases ended
    | cons item items ih =>
      rw [List.flatMap_cons,run_append] at ended
      rcases first : run (plan item) s with ⟨middle,e' | _⟩
      · rw [first] at ended
        cases ended
        exact ⟨[],item,items,s,rfl,rfl,first⟩
      · rw [first] at ended
        obtain ⟨before,last,after,end',rfl,done,failed⟩ := ih ended
        refine ⟨item :: before,last,after,end',rfl,?_,failed⟩
        rw [List.flatMap_cons,run_append,first]
        exact done
  · rintro ⟨before,item,after,middle,rfl,done,failed⟩
    rw [List.flatMap_append,run_append,done,List.flatMap_cons]
    dsimp only
    rw [run_append,failed]

end Each

-- A check whose result the change is made with.
def Stage.of {α : Type} (outcome : Except ε α) (change : α → σ → σ) : Stage σ ε where
  refuse _ := match outcome with | .ok _ => none | .error e => some e
  change s := match outcome with | .ok a => change a s | .error _ => s

end Runs

section Performs
variable {α β : Type}

-- A program that makes these changes and ends with this result.
def Performs (act : ExceptT ε (StateM σ) α) (stages : List (Stage σ ε)) (result : α) : Prop :=
  ∀ s,act.run s =
    match run stages s with
    | (t,.ok ()) => (.ok result,t)
    | (t,.error e) => (.error e,t)

theorem performs_pure (result : α) : Performs (σ := σ) (ε := ε) (pure result) [] result := fun _ => rfl

theorem performs_bind {act : ExceptT ε (StateM σ) α} {next : α → ExceptT ε (StateM σ) β} {stages others : List (Stage σ ε)}
    {middle : α} {result : β} (first : Performs act stages middle) (second : Performs (next middle) others result) :
    Performs (act >>= next) (stages ++ others) result := by
  intro s
  have unfolded : (act >>= next).run s =
      match act.run s with
      | (.ok a,t) => (next a).run t
      | (.error e,t) => (.error e,t) := by
    rw [ExceptT.run_bind]
    change (match (act.run s).1 with
      | .ok a => (next a).run
      | .error e => pure (.error e)) (act.run s).2 = _
    rcases act.run s with ⟨e | a,t⟩ <;> rfl
  rw [unfolded,first s,run_append]
  rcases run stages s with ⟨t,e | done⟩
  · rfl
  · exact second t

-- The first check that fails is the end, whatever would have come after it.
theorem performs_error {e : ε} {next : α → ExceptT ε (StateM σ) β} {result : β} :
    Performs (throw e >>= next) [.of (.error e : Except ε α) fun _ => id] result := fun _ => rfl

theorem performs_modify (change : σ → σ) : Performs (ε := ε) (modify change) [.of (.ok ()) fun _ => change] ⟨⟩ :=
  fun _ => rfl

theorem performs_each {act : α → ExceptT ε (StateM σ) PUnit} {stages : α → List (Stage σ ε)} {items : List α}
    (each : ∀ item ∈ items,Performs (act item) (stages item) ⟨⟩) : Performs (items.forM act) (items.flatMap stages) ⟨⟩ := by
  induction items with
  | nil => exact performs_pure _
  | cons item items ih =>
    rw [List.flatMap_cons]
    exact performs_bind (each item List.mem_cons_self) (ih fun other member => each other (List.mem_cons_of_mem _ member))

theorem Performs.ok {act : ExceptT ε (StateM σ) PUnit} {stages : List (Stage σ ε)} (performs : Performs act stages ⟨⟩)
    {s t : σ} : act.run s = (.ok ⟨⟩,t) ↔ run stages s = (t,.ok ()) := by
  rw [performs s]
  rcases run stages s with ⟨ended,e | _⟩
  · exact ⟨nofun,nofun⟩
  · exact ⟨fun same => by cases same; rfl,fun same => by cases same; rfl⟩

theorem Performs.error {act : ExceptT ε (StateM σ) α} {stages : List (Stage σ ε)} {result : α}
    (performs : Performs act stages result) {s t : σ} {e : ε} :
    act.run s = (.error e,t) ↔ run stages s = (t,.error e) := by
  rw [performs s]
  rcases run stages s with ⟨ended,e' | _⟩
  · exact ⟨fun same => by cases same; rfl,fun same => by cases same; rfl⟩
  · exact ⟨nofun,nofun⟩

end Performs

end Stages
