import Scythe.Lib.Grouping
import Mathlib.Logic.Function.Basic

-- The loops that the backends emit for a `:grouped` query. Rows are numbered as they
-- are fetched; `decode` is the value the host holds for a row's key, compared as its
-- map compares keys, and has no value where reading the key throws. `sqlKey` is the
-- key as the database compares it.
namespace GroupedFold
open Grouping

structure Parent (π χ : Type) where
  fields : π
  children : List χ
  deriving DecidableEq,Repr

def Parent.push {π χ : Type} (c : χ) (p : Parent π χ) : Parent π χ := {p with children := p.children ++ [c]}

section Fold
variable {κ π χ : Type} [DecidableEq κ] (decode : Nat → Option κ) (parent : Nat → π) (child : Nat → χ)

def project (g : RowGroup Nat) : Parent π χ := ⟨parent g.first,g.members.map child⟩

-- What the fold is for: one parent for each key, in order of first appearance.
def groupBy {σ : Type} [DecidableEq σ] (sqlKey : Nat → σ) (n : Nat) : List (Parent π χ) :=
  (groups sqlKey (List.range n)).map (project parent child)

def eachRow {S : Type} (step : S → Nat → κ → Option S) (start : S) : Nat → Option S
  | 0 => some start
  | n + 1 => do
      let s ← eachRow step start n
      let key ← decode n
      step s n key

-- Python, Ruby, PHP: the index holds positions in the list of entries.
structure Positional (κ π χ : Type) where
  index : κ → Option Nat
  entries : List (Parent π χ)

namespace Positional

def start : Positional κ π χ := ⟨fun _ => none,[]⟩

def enter (s : Positional κ π χ) (key : κ) (fields : π) : Positional κ π χ :=
  match s.index key with
  | some _ => s
  | none => ⟨Function.update s.index key (some s.entries.length),s.entries ++ [⟨fields,[]⟩]⟩

def step (s : Positional κ π χ) (j : Nat) (key : κ) : Option (Positional κ π χ) := do
  let s := s.enter key (parent j)
  let p ← s.index key
  let entry ← s.entries[p]?
  some {s with entries := s.entries.set p (entry.push (child j))}

end Positional

-- TypeScript, Java, Kotlin, C#: the result and the lookup share the parents, which
-- are objects on the heap.
structure Objects (κ π χ : Type) where
  heap : List (Parent π χ)
  lookup : κ → Option Nat
  result : List Nat

namespace Objects

def start : Objects κ π χ := ⟨[],fun _ => none,[]⟩

def create (s : Objects κ π χ) (key : κ) (new : Parent π χ) : Objects κ π χ :=
  ⟨s.heap ++ [new],Function.update s.lookup key (some s.heap.length),s.result ++ [s.heap.length]⟩

def pushTo (s : Objects κ π χ) (object : Nat) (c : χ) : Objects κ π χ :=
  {s with heap := s.heap.modify object (Parent.push c)}

-- TypeScript makes the parent without children and pushes every child.
def stepEmpty (s : Objects κ π χ) (j : Nat) (key : κ) : Option (Objects κ π χ) :=
  match s.lookup key with
  | some object => some (s.pushTo object (child j))
  | none => some ((s.create key ⟨parent j,[]⟩).pushTo s.heap.length (child j))

-- Java, Kotlin and C# make the parent with its first child.
def stepSeeded (s : Objects κ π χ) (j : Nat) (key : κ) : Option (Objects κ π χ) :=
  match s.lookup key with
  | some object => some (s.pushTo object (child j))
  | none => some (s.create key ⟨parent j,[child j]⟩)

def returned (s : Objects κ π χ) : Option (List (Parent π χ)) := s.result.mapM fun object => s.heap[object]?

end Objects

-- Rust: no index, the result is searched from its end.
namespace Search

def findLast (key : κ) : List (κ × Parent π χ) → Option Nat
  | [] => none
  | e :: rest =>
      match findLast key rest with
      | some p => some (p + 1)
      | none => if e.1 = key then some 0 else none

def step (result : List (κ × Parent π χ)) (j : Nat) (key : κ) : Option (List (κ × Parent π χ)) :=
  match findLast key result with
  | some p => some (result.modify p fun e => (e.1,e.2.push (child j)))
  | none => some (result ++ [(key,⟨parent j,[child j]⟩)])

end Search

-- Elixir: the keys in reverse order beside a map from each to its parent, whose
-- children are in reverse order too.
structure Accumulated (κ π χ : Type) where
  order : List κ
  acc : κ → Option (Parent π χ)

namespace Accumulated

def start : Accumulated κ π χ := ⟨[],fun _ => none⟩

def step (s : Accumulated κ π χ) (j : Nat) (key : κ) : Option (Accumulated κ π χ) :=
  match s.acc key with
  | some p => some {s with acc := Function.update s.acc key (some {p with children := child j :: p.children})}
  | none => some ⟨key :: s.order,Function.update s.acc key (some ⟨parent j,[child j]⟩)⟩

def returned (s : Accumulated κ π χ) : Option (List (Parent π χ)) :=
  s.order.reverse.mapM fun key => (s.acc key).map fun p => {p with children := p.children.reverse}

end Accumulated

-- How much room `append` makes when a slice is full is left to the Go runtime.
structure Growth where
  grow : Nat → Nat
  grows : ∀ n,n < grow n

namespace Growth

def capacity (g : Growth) : Nat → Nat
  | 0 => 0
  | n + 1 => if n < g.capacity n then g.capacity n else g.grow (g.capacity n)

-- How many arrays a slice of this length has left behind.
def generation (g : Growth) : Nat → Nat
  | 0 => 0
  | n + 1 => if n < g.capacity n then g.generation n else g.generation n + 1

end Growth

-- Go: the index holds pointers into the array of the result slice. A full slice moves
-- to a new array, and the pointers taken before still point into the old one.
structure Pointers (κ π χ : Type) where
  arrays : List (List (Parent π χ))
  capacity : Nat
  index : κ → Option (Nat × Nat)

namespace Pointers

def start : Pointers κ π χ := ⟨[[]],0,fun _ => none⟩

def result (s : Pointers κ π χ) : List (Parent π χ) := s.arrays.getLastD []

def append (growth : Growth) (s : Pointers κ π χ) (new : Parent π χ) : Pointers κ π χ :=
  if s.result.length < s.capacity then
    {s with arrays := s.arrays.modify (s.arrays.length - 1) (· ++ [new])}
  else
    {s with arrays := s.arrays ++ [s.result ++ [new]],capacity := growth.grow s.capacity}

def step (growth : Growth) (s : Pointers κ π χ) (j : Nat) (key : κ) : Option (Pointers κ π χ) :=
  match s.index key with
  | some (array,p) => some {s with arrays := s.arrays.modify array (·.modify p (Parent.push (child j)))}
  | none =>
      let s := s.append growth ⟨parent j,[child j]⟩
      some {s with index := Function.update s.index key (some (s.arrays.length - 1,s.result.length - 1))}

end Pointers

inductive Language
  | python
  | ruby
  | php
  | typescript
  | java
  | kotlin
  | csharp
  | rust
  | elixir
  | go (growth : Growth)

def emitted (language : Language) (n : Nat) : Option (List (Parent π χ)) :=
  match language with
  | .python | .ruby | .php => (eachRow decode (Positional.step parent child) .start n).map (·.entries)
  | .typescript => (eachRow decode (Objects.stepEmpty parent child) .start n).bind (·.returned)
  | .java | .kotlin | .csharp => (eachRow decode (Objects.stepSeeded parent child) .start n).bind (·.returned)
  | .rust => (eachRow decode (Search.step parent child) [] n).map (·.map Prod.snd)
  | .elixir => (eachRow decode (Accumulated.step parent child) .start n).bind (·.returned)
  | .go growth => (eachRow decode (Pointers.step parent child growth) .start n).map (·.result)

theorem mapM_some_of_getElem? {α β : Type} {f : α → Option β} {l : List α} {results : List β}
    (lengths : l.length = results.length) (each : ∀ (i : Nat) a,l[i]? = some a → f a = results[i]?) :
    l.mapM f = some results := by
  induction l generalizing results with
  | nil =>
    rw [List.eq_nil_of_length_eq_zero lengths.symm]
    rfl
  | cons a l ih =>
    cases results with
    | nil => cases lengths
    | cons b results =>
      have here := each 0 a rfl
      have rest := ih (Nat.succ.inj lengths) fun i a' at' => each (i + 1) a' at'
      rw [List.mapM_cons,here,rest]
      rfl

theorem modify_snoc {α : Type} (l : List α) (a : α) (f : α → α) : (l ++ [a]).modify l.length f = l ++ [f a] := by
  induction l with
  | nil => rfl
  | cons b l ih =>
    rw [List.cons_append,List.length_cons,List.modify_succ_cons,ih]
    rfl

theorem map_modify {α β : Type} {view : α → β} {f : α → α} {f' : β → β} (commute : ∀ a,view (f a) = f' (view a))
    (l : List α) (p : Nat) : (l.modify p f).map view = (l.map view).modify p f' := by
  refine List.ext_getElem? fun n => ?_
  rw [List.getElem?_map,List.getElem?_modify,List.getElem?_modify,List.getElem?_map]
  cases l[n]? with
  | none => rfl
  | some a =>
    by_cases here : p = n
    · simp [here,commute]
    · simp [here]

section Rows
variable {decode parent child}

omit [DecidableEq κ] in
theorem eachRow_none {S : Type} {step : S → Nat → κ → Option S} {start : S} {j n : Nat} (before : j < n)
    (throws : decode j = none) : eachRow decode step start n = none := by
  induction n with
  | zero => omega
  | succ n ih =>
    rw [eachRow]
    by_cases last : j = n
    · subst last
      cases eachRow decode step start j with
      | none => rfl
      | some s => simp [throws]
    · rw [ih (by omega)]
      rfl

omit [DecidableEq κ] in
-- What every row keeps holds after all of them.
theorem eachRow_invariant {S : Type} {I : Nat → S → Prop} {step : S → Nat → κ → Option S} {start : S} {n : Nat}
    (read : ∀ j < n,(decode j).isSome) (begins : I 0 start)
    (keeps : ∀ j s key,I j s → decode j = some key → ∃ s',step s j key = some s' ∧ I (j + 1) s') :
    ∃ s,eachRow decode step start n = some s ∧ I n s := by
  induction n with
  | zero => exact ⟨start,rfl,begins⟩
  | succ n ih =>
    obtain ⟨s,ran,holds⟩ := ih fun j before => read j (by omega)
    obtain ⟨key,is⟩ := Option.isSome_iff_exists.mp (read n (by omega))
    obtain ⟨s',stepped,holds'⟩ := keeps n s key holds is
    refine ⟨s',?_,holds'⟩
    rw [eachRow,ran,is]
    exact stepped

-- Where the parent of a key stands among the parents of the rows before row j.
def place (decode : Nat → Option κ) (j : Nat) (key : κ) : Option Nat :=
  position decode (List.range j) (some key)

theorem place_succ_known {j p : Nat} {key : κ} (is : decode j = some key) (at' : place decode j key = some p)
    (k : κ) : place decode (j + 1) k = place decode j k := by
  have known : Known decode (List.range j) (decode j) := by
    rw [is]
    exact position_some at'
  rw [place,List.range_succ,position_snoc_known known,place]

theorem place_succ_new {j : Nat} {key : κ} (is : decode j = some key) (new : place decode j key = none) :
    place decode (j + 1) =
      Function.update (place decode j) key (some (firsts decode (List.range j)).length) := by
  have unknown : ¬Known decode (List.range j) (decode j) := by
    rw [is]
    exact position_none new
  funext k
  rw [place,List.range_succ,position_snoc_new unknown,is,Function.update_apply]
  simp [place]

theorem groupBy_length (n : Nat) :
    (groupBy parent child decode n).length = (firsts decode (List.range n)).length := by
  simp [groupBy,groups]

theorem project_add (j : Nat) (g : RowGroup Nat) : project parent child (g.add j) = (project parent child g).push (child j) := by
  simp [project,RowGroup.add,Parent.push]

theorem groupBy_succ_known {j p : Nat} {key : κ} (is : decode j = some key) (at' : place decode j key = some p) :
    groupBy parent child decode (j + 1) = (groupBy parent child decode j).modify p (Parent.push (child j)) := by
  have known : Known decode (List.range j) (decode j) := by
    rw [is]
    exact position_some at'
  unfold groupBy
  rw [List.range_succ,groups_snoc_known known,List.map_map,groups,List.map_map,List.map_map,modify_at_position at']
  refine List.map_congr_left fun i _ => ?_
  by_cases same : decode i = some key
  · simp [same,is,project_add]
  · simp [same,is]

theorem groupBy_succ_new {j : Nat} {key : κ} (is : decode j = some key) (new : place decode j key = none) :
    groupBy parent child decode (j + 1) = groupBy parent child decode j ++ [⟨parent j,[child j]⟩] := by
  have unknown : ¬Known decode (List.range j) (decode j) := by
    rw [is]
    exact position_none new
  unfold groupBy
  rw [List.range_succ,groups_snoc_new unknown,List.map_append]
  rfl

theorem place_inside {j p : Nat} {key : κ} (at' : place decode j key = some p) :
    p < (groupBy parent child decode j).length := by
  have inside := (List.getElem?_eq_some_iff.mp (position_get at')).1
  rw [groupBy_length]
  simpa using inside

end Rows

section Loops
variable {decode parent child}

def Positional.Invariant (decode : Nat → Option κ) (parent : Nat → π) (child : Nat → χ) (j : Nat)
    (s : Positional κ π χ) : Prop :=
  s.index = place decode j ∧ s.entries = groupBy parent child decode j

theorem Positional.start_invariant : Invariant decode parent child 0 (Positional.start : Positional κ π χ) := ⟨rfl,rfl⟩

theorem Positional.step_invariant {j : Nat} {s : Positional κ π χ} {key : κ}
    (holds : Invariant decode parent child j s) (is : decode j = some key) :
    ∃ s',step parent child s j key = some s' ∧ Invariant decode parent child (j + 1) s' := by
  obtain ⟨index,entries⟩ := holds
  cases at' : place decode j key with
  | some p =>
    have inside : p < (groupBy parent child decode j).length := place_inside at'
    have entered : s.enter key (parent j) = s := by simp [enter,index,at']
    refine ⟨{s with entries := s.entries.modify p (Parent.push (child j))},?_,?_,?_⟩
    · rw [step,entered,index,at',entries]
      simp [List.getElem?_eq_getElem inside,List.modify_eq_set_getElem?]
    · funext k
      rw [place_succ_known is at',index]
    · rw [groupBy_succ_known is at',entries]
  | none =>
    have entered : s.enter key (parent j) =
        ⟨Function.update s.index key (some s.entries.length),s.entries ++ [⟨parent j,[]⟩]⟩ := by
      simp [enter,index,at']
    refine ⟨⟨Function.update s.index key (some s.entries.length),s.entries ++ [⟨parent j,[child j]⟩]⟩,?_,?_,?_⟩
    · rw [step,entered]
      simp [Parent.push]
    · rw [place_succ_new is at',index,entries,groupBy_length]
    · rw [groupBy_succ_new is at',entries]

def Objects.Invariant (decode : Nat → Option κ) (parent : Nat → π) (child : Nat → χ) (j : Nat)
    (s : Objects κ π χ) : Prop :=
  s.lookup = place decode j ∧ s.heap = groupBy parent child decode j ∧ s.result = List.range s.heap.length

theorem Objects.start_invariant : Invariant decode parent child 0 (Objects.start : Objects κ π χ) := ⟨rfl,rfl,rfl⟩

-- Pushing to a parent just made is making it with the child.
theorem Objects.stepEmpty_eq_stepSeeded (s : Objects κ π χ) (j : Nat) (key : κ) :
    stepEmpty parent child s j key = stepSeeded parent child s j key := by
  unfold stepEmpty stepSeeded
  cases s.lookup key with
  | some object => rfl
  | none => simp [create,pushTo,modify_snoc,Parent.push]

theorem Objects.step_invariant {j : Nat} {s : Objects κ π χ} {key : κ}
    (holds : Invariant decode parent child j s) (is : decode j = some key) :
    ∃ s',stepSeeded parent child s j key = some s' ∧ Invariant decode parent child (j + 1) s' := by
  obtain ⟨lookup,heap,result⟩ := holds
  cases at' : place decode j key with
  | some p =>
    refine ⟨s.pushTo p (child j),?_,?_,?_,?_⟩
    · simp [stepSeeded,lookup,at']
    · funext k
      rw [place_succ_known is at']
      exact congrFun lookup k
    · rw [groupBy_succ_known is at',←heap]
      rfl
    · simpa [pushTo] using result
  | none =>
    refine ⟨s.create key ⟨parent j,[child j]⟩,?_,?_,?_,?_⟩
    · simp [stepSeeded,lookup,at']
    · have length : (groupBy parent child decode j).length = _ := groupBy_length j
      rw [place_succ_new is at',←length,←heap,←lookup]
      rfl
    · rw [groupBy_succ_new is at',←heap]
      rfl
    · simp [create,result,List.range_succ]

theorem Objects.returned_invariant {j : Nat} {s : Objects κ π χ} (holds : Invariant decode parent child j s) :
    s.returned = some (groupBy parent child decode j) := by
  obtain ⟨-,heap,result⟩ := holds
  rw [returned,result,heap]
  refine mapM_some_of_getElem? List.length_range fun i object at' => ?_
  obtain ⟨-,rfl⟩ := List.getElem?_eq_some_iff.mp at'
  rw [List.getElem_range]

def Search.Invariant (decode : Nat → Option κ) (parent : Nat → π) (child : Nat → χ) (j : Nat)
    (result : List (κ × Parent π χ)) : Prop :=
  result.map (fun e => some e.1) = (firsts decode (List.range j)).map decode ∧
    result.map Prod.snd = groupBy parent child decode j

theorem Search.start_invariant : Invariant decode parent child 0 ([] : List (κ × Parent π χ)) := ⟨rfl,rfl⟩

-- Each key stands once in the result, so the last parent of a key is the only one.
theorem Search.findLast_eq {key : κ} {result : List (κ × Parent π χ)}
    (nodup : (result.map fun e => some e.1).Nodup) :
    findLast key result = result.findIdx? fun e => e.1 = key := by
  induction result with
  | nil => rfl
  | cons e result ih =>
    rw [List.map_cons,List.nodup_cons] at nodup
    rw [findLast,ih nodup.2,List.findIdx?_cons]
    by_cases same : e.1 = key
    · have absent : result.findIdx? (fun e => e.1 = key) = none := by
        rw [List.findIdx?_eq_none_iff]
        intro e' member
        have differs : e'.1 ≠ e.1 := fun equal => nodup.1 (equal ▸ List.mem_map_of_mem member)
        simpa [same] using differs
      simp [absent,same]
    · cases result.findIdx? fun e => e.1 = key with
      | none => simp [same]
      | some p => simp [same]

theorem Search.step_invariant {j : Nat} {result : List (κ × Parent π χ)} {key : κ}
    (holds : Invariant decode parent child j result) (is : decode j = some key) :
    ∃ result',step parent child result j key = some result' ∧ Invariant decode parent child (j + 1) result' := by
  obtain ⟨keys,parents⟩ := holds
  have found : findLast key result = place decode j key := by
    have nodup : (result.map fun e => some e.1).Nodup := by
      rw [keys]
      exact firsts_nodup _
    have moved := congrArg (List.findIdx? fun k => k = some key) keys
    rw [List.findIdx?_map,List.findIdx?_map] at moved
    rw [findLast_eq nodup,place,position]
    simpa [Function.comp_def] using moved
  cases at' : place decode j key with
  | some p =>
    have known : Known decode (List.range j) (decode j) := by
      rw [is]
      exact position_some at'
    refine ⟨result.modify p fun e => (e.1,e.2.push (child j)),?_,?_,?_⟩
    · rw [step,found,at']
    · have same : ∀ e : κ × Parent π χ,some (e.1,e.2.push (child j)).1 = id (some e.1) := fun _ => rfl
      rw [List.range_succ,firsts_snoc_known known,←keys,map_modify same,List.modify_id]
    · have pushed : ∀ e : κ × Parent π χ,(e.1,e.2.push (child j)).2 = e.2.push (child j) := fun _ => rfl
      rw [groupBy_succ_known is at',←parents,map_modify pushed]
  | none =>
    have unknown : ¬Known decode (List.range j) (decode j) := by
      rw [is]
      exact position_none at'
    refine ⟨result ++ [(key,⟨parent j,[child j]⟩)],?_,?_,?_⟩
    · rw [step,found,at']
    · rw [List.map_append,keys,List.range_succ,firsts_snoc_new unknown,List.map_append,List.map_singleton,List.map_singleton,is]
    · rw [List.map_append,parents,groupBy_succ_new is at']
      rfl

def Parent.reversed (p : Parent π χ) : Parent π χ := {p with children := p.children.reverse}

def Accumulated.Invariant (decode : Nat → Option κ) (parent : Nat → π) (child : Nat → χ) (j : Nat)
    (s : Accumulated κ π χ) : Prop :=
  s.order.reverse.map some = (firsts decode (List.range j)).map decode ∧
    ∀ key,s.acc key = (groupOf decode (List.range j) (some key)).map fun g => (project parent child g).reversed

theorem Accumulated.start_invariant : Invariant decode parent child 0 (Accumulated.start : Accumulated κ π χ) := ⟨rfl,fun _ => rfl⟩

theorem Accumulated.step_invariant {j : Nat} {s : Accumulated κ π χ} {key : κ}
    (holds : Invariant decode parent child j s) (is : decode j = some key) :
    ∃ s',step parent child s j key = some s' ∧ Invariant decode parent child (j + 1) s' := by
  obtain ⟨order,acc⟩ := holds
  cases at' : groupOf decode (List.range j) (some key) with
  | some g =>
    have known : Known decode (List.range j) (decode j) := by
      rw [is]
      by_contra unknown
      rw [groupOf_none.mpr unknown] at at'
      cases at'
    have held := acc key
    rw [at'] at held
    refine ⟨{s with acc := Function.update s.acc key (some (project parent child (g.add j)).reversed)},?_,?_,?_⟩
    · rw [step,held]
      simp [Parent.reversed,project_add,Parent.push]
    · rw [List.range_succ,firsts_snoc_known known]
      exact order
    · intro k
      rw [List.range_succ,groupOf_snoc_known known,is]
      by_cases same : k = key
      · subst same
        simp [at']
      · simp [same,Ne.symm same,acc k]
  | none =>
    have unknown : ¬Known decode (List.range j) (decode j) := by
      rw [is]
      exact groupOf_none.mp at'
    have held := acc key
    rw [at'] at held
    refine ⟨⟨key :: s.order,Function.update s.acc key (some ⟨parent j,[child j]⟩)⟩,?_,?_,?_⟩
    · rw [step,held]
      rfl
    · rw [List.range_succ,firsts_snoc_new unknown,List.reverse_cons,List.map_append,order,List.map_append,
        List.map_singleton,List.map_singleton,is]
    · intro k
      rw [List.range_succ,groupOf_snoc_new unknown,is]
      by_cases same : k = key
      · subst same
        simp [Parent.reversed,project]
      · simp [same,Ne.symm same,acc k]

theorem Accumulated.returned_invariant {j : Nat} {s : Accumulated κ π χ} (holds : Invariant decode parent child j s) :
    s.returned = some (groupBy parent child decode j) := by
  obtain ⟨order,acc⟩ := holds
  have lengths := congrArg List.length order
  simp only [List.length_map] at lengths
  refine mapM_some_of_getElem? (by rw [groupBy_length,lengths]) fun i key at' => ?_
  have keyed := congrArg (·[i]?) order
  simp only [List.getElem?_map,at'] at keyed
  cases first : (firsts decode (List.range j))[i]? with
  | none =>
    rw [first] at keyed
    cases keyed
  | some row =>
    rw [first] at keyed
    have is : decode row = some key := (Option.some.inj keyed).symm
    have group := groupOf_first (List.mem_of_getElem? first)
    rw [is] at group
    rw [acc,group,groupBy,groups,List.map_map,List.getElem?_map,first]
    simp [Parent.reversed,is]

-- The distinct keys of the rows before row j.
def distinct (decode : Nat → Option κ) (j : Nat) : Nat := (firsts decode (List.range j)).length

-- A later row of a known key comes late when the slice has moved since the pointer
-- to that key's parent was taken.
def late (growth : Growth) (decode : Nat → Option κ) (j : Nat) : Bool :=
  match position decode (List.range j) (decode j) with
  | none => false
  | some p => growth.generation (p + 1) != growth.generation (distinct decode j)

def Pointers.kept (growth : Growth) (decode : Nat → Option κ) (parent : Nat → π) (child : Nat → χ) (j : Nat) :
    List (Parent π χ) :=
  (groups decode (List.range j)).map fun g =>
    project parent child ⟨g.first,g.members.filter fun i => !late growth decode i⟩

theorem Pointers.kept_length (growth : Growth) (j : Nat) :
    (kept growth decode parent child j).length = distinct decode j := by simp [kept,groups,distinct]

theorem Pointers.kept_succ_known {growth : Growth} {j p : Nat} {key : κ} (is : decode j = some key)
    (at' : place decode j key = some p) :
    kept growth decode parent child (j + 1) =
      if late growth decode j then kept growth decode parent child j
      else (kept growth decode parent child j).modify p (Parent.push (child j)) := by
  have known : Known decode (List.range j) (decode j) := by
    rw [is]
    exact position_some at'
  unfold kept
  rw [List.range_succ,groups_snoc_known known,List.map_map]
  by_cases isLate : late growth decode j
  · rw [if_pos isLate]
    refine List.map_congr_left fun g _ => ?_
    by_cases same : decode g.first = decode j
    · simp [same,RowGroup.add,List.filter_append,isLate]
    · simp [same]
  · rw [if_neg isLate,groups,List.map_map,List.map_map,modify_at_position at']
    refine List.map_congr_left fun i _ => ?_
    by_cases same : decode i = some key
    · simp [same,is,RowGroup.add,List.filter_append,isLate,project,Parent.push]
    · simp [same,is]

theorem Pointers.kept_succ_new {growth : Growth} {j : Nat} {key : κ} (is : decode j = some key)
    (new : place decode j key = none) :
    kept growth decode parent child (j + 1) = kept growth decode parent child j ++ [⟨parent j,[child j]⟩] := by
  have unknown : ¬Known decode (List.range j) (decode j) := by
    rw [is]
    exact position_none new
  have inTime : late growth decode j = false := by
    unfold late
    rw [is,←place,new]
  unfold kept
  rw [List.range_succ,groups_snoc_new unknown,List.map_append]
  simp [inTime,project]

structure Pointers.Invariant (growth : Growth) (decode : Nat → Option κ) (parent : Nat → π) (child : Nat → χ)
    (j : Nat) (s : Pointers κ π χ) : Prop where
  arrays : s.arrays.length = growth.generation (distinct decode j) + 1
  capacity : s.capacity = growth.capacity (distinct decode j)
  index : ∀ key,s.index key = (place decode j key).map fun p => (growth.generation (p + 1),p)
  result : s.result = kept growth decode parent child j

theorem Pointers.start_invariant {growth : Growth} :
    Invariant growth decode parent child 0 (Pointers.start : Pointers κ π χ) := ⟨rfl,rfl,fun _ => rfl,rfl⟩

-- A write through a pointer shows in the result only when it points into the last array.
theorem Pointers.result_modify {arrays : List (List (Parent π χ))} {last : Nat} (length : arrays.length = last + 1)
    (array : Nat) (f : List (Parent π χ) → List (Parent π χ)) :
    (arrays.modify array f).getLastD [] = if array = last then f (arrays.getLastD []) else arrays.getLastD [] := by
  rw [List.getLastD_eq_getLast?,List.getLastD_eq_getLast?,List.getLast?_eq_getElem?,List.getLast?_eq_getElem?,
    List.length_modify,length,Nat.add_sub_cancel,List.getElem?_modify]
  have inside : last < arrays.length := by omega
  rw [List.getElem?_eq_getElem inside]
  by_cases here : array = last
  · simp [here]
  · simp [here]

theorem Pointers.append_invariant {growth : Growth} {j : Nat} {s : Pointers κ π χ}
    (holds : Invariant growth decode parent child j s) (new : Parent π χ) :
    (s.append growth new).arrays.length = growth.generation (distinct decode j + 1) + 1 ∧
      (s.append growth new).capacity = growth.capacity (distinct decode j + 1) ∧
      (s.append growth new).result = s.result ++ [new] ∧ (s.append growth new).index = s.index := by
  have length : s.result.length = distinct decode j := by rw [holds.result,kept_length]
  unfold append
  rw [length,holds.capacity,Growth.capacity,Growth.generation]
  split
  · rename_i room
    refine ⟨?_,rfl,?_,rfl⟩
    · rw [List.length_modify,holds.arrays]
    · have same : s.arrays.length - 1 = growth.generation (distinct decode j) := by rw [holds.arrays]; rfl
      rw [result,result_modify holds.arrays,if_pos same]
      rfl
  · refine ⟨?_,rfl,?_,rfl⟩
    · rw [List.length_append,holds.arrays]
      rfl
    · simp [result,List.getLastD_eq_getLast?]

theorem Pointers.step_invariant {growth : Growth} {j : Nat} {s : Pointers κ π χ} {key : κ}
    (holds : Invariant growth decode parent child j s) (is : decode j = some key) :
    ∃ s',step parent child growth s j key = some s' ∧ Invariant growth decode parent child (j + 1) s' := by
  cases at' : place decode j key with
  | some p =>
    have known : Known decode (List.range j) (decode j) := by
      rw [is]
      exact position_some at'
    have same : distinct decode (j + 1) = distinct decode j := by
      rw [distinct,List.range_succ,firsts_snoc_known known,distinct]
    have isLate : late growth decode j =
        (growth.generation (p + 1) != growth.generation (distinct decode j)) := by
      unfold late
      rw [is,←place,at']
    refine ⟨{s with arrays := s.arrays.modify (growth.generation (p + 1)) (·.modify p (Parent.push (child j)))},
      ?_,?_,?_,?_,?_⟩
    · rw [step,holds.index,at']
      rfl
    · rw [List.length_modify,holds.arrays,same]
    · rw [same]
      exact holds.capacity
    · intro k
      rw [place_succ_known is at']
      exact holds.index k
    · rw [result,result_modify holds.arrays,kept_succ_known is at',isLate,←holds.result]
      by_cases here : growth.generation (p + 1) = growth.generation (distinct decode j)
      · simp [here,result]
      · simp [here,result]
  | none =>
    have unknown : ¬Known decode (List.range j) (decode j) := by
      rw [is]
      exact position_none at'
    have more : distinct decode (j + 1) = distinct decode j + 1 := by
      rw [distinct,List.range_succ,firsts_snoc_new unknown,List.length_append,distinct]
      rfl
    obtain ⟨arrays,capacity,appended,index⟩ := append_invariant holds ⟨parent j,[child j]⟩
    have length : (s.append growth ⟨parent j,[child j]⟩).result.length = distinct decode j + 1 := by
      rw [appended,List.length_append,holds.result,kept_length]
      rfl
    refine ⟨_,by rw [step,holds.index,at']; rfl,?_,?_,?_,?_⟩
    · rw [more]
      exact arrays
    · rw [more]
      exact capacity
    · intro k
      rw [place_succ_new is at',Function.update_apply]
      change Function.update _ key _ k = _
      rw [Function.update_apply,arrays,length,index]
      by_cases here : k = key
      · simp [here,distinct]
      · simp [here,holds.index k]
    · rw [kept_succ_new is at',←holds.result]
      exact appended

end Loops

section Emitted
variable {decode parent child} {n : Nat}

-- What each loop returns once every key is read.
theorem emitted_eq (read : ∀ j < n,(decode j).isSome) (language : Language) :
    emitted decode parent child language n = some (match language with
      | .go growth => Pointers.kept growth decode parent child n
      | _ => groupBy parent child decode n) := by
  have positional : (eachRow decode (Positional.step parent child) .start n).map (·.entries) =
      some (groupBy parent child decode n) := by
    obtain ⟨s,ran,holds⟩ : ∃ s,eachRow decode (Positional.step parent child) .start n = some s ∧
        Positional.Invariant decode parent child n s := eachRow_invariant read Positional.start_invariant fun _ _ _ => Positional.step_invariant
    rw [ran,Option.map_some,holds.2]
  have seeded : (eachRow decode (Objects.stepSeeded parent child) .start n).bind (·.returned) =
      some (groupBy parent child decode n) := by
    obtain ⟨s,ran,holds⟩ : ∃ s,eachRow decode (Objects.stepSeeded parent child) .start n = some s ∧
        Objects.Invariant decode parent child n s := eachRow_invariant read Objects.start_invariant fun _ _ _ => Objects.step_invariant
    rw [ran]
    exact Objects.returned_invariant holds
  cases language with
  | python => exact positional
  | ruby => exact positional
  | php => exact positional
  | typescript =>
    have same : Objects.stepEmpty (κ := κ) parent child = Objects.stepSeeded parent child := by
      funext s j key
      exact Objects.stepEmpty_eq_stepSeeded s j key
    rw [emitted,same]
    exact seeded
  | java => exact seeded
  | kotlin => exact seeded
  | csharp => exact seeded
  | rust =>
    obtain ⟨result,ran,holds⟩ : ∃ s,eachRow decode (Search.step parent child) [] n = some s ∧
        Search.Invariant decode parent child n s := eachRow_invariant read Search.start_invariant fun _ _ _ => Search.step_invariant
    rw [emitted,ran,Option.map_some,holds.2]
  | elixir =>
    obtain ⟨s,ran,holds⟩ : ∃ s,eachRow decode (Accumulated.step parent child) .start n = some s ∧
        Accumulated.Invariant decode parent child n s := eachRow_invariant read Accumulated.start_invariant fun _ _ _ => Accumulated.step_invariant
    rw [emitted,ran]
    exact Accumulated.returned_invariant holds
  | go growth =>
    obtain ⟨s,ran,holds⟩ : ∃ s,eachRow decode (Pointers.step parent child growth) .start n = some s ∧
        Pointers.Invariant growth decode parent child n s := eachRow_invariant read Pointers.start_invariant fun _ _ _ => Pointers.step_invariant
    rw [emitted,ran,Option.map_some,holds.result]

theorem emitted_none {j : Nat} (before : j < n) (throws : decode j = none) (language : Language) :
    emitted decode parent child language n = none := by
  cases language <;> simp [emitted,eachRow_none before throws]

theorem groupBy_congr {σ : Type} [DecidableEq σ] {sqlKey : Nat → σ}
    (same : ∀ i < n,∀ j < n,decode i = decode j ↔ sqlKey i = sqlKey j) :
    groupBy parent child decode n = groupBy parent child sqlKey n := by
  unfold groupBy
  rw [groups_congr fun i iMember j jMember => same i (List.mem_range.mp iMember) j (List.mem_range.mp jMember)]

-- The groups show in the result when parents and children say which row they are from.
theorem groupBy_id_injective {σ : Type} [DecidableEq σ] {sqlKey : Nat → σ}
    (equal : groupBy id id decode n = groupBy id id sqlKey n) :
    groups decode (List.range n) = groups sqlKey (List.range n) := by
  have injective : Function.Injective (project (id : Nat → Nat) (id : Nat → Nat)) := by
    intro a b same
    simp only [project,Parent.mk.injEq,List.map_id,id] at same
    cases a
    cases b
    simp_all
  exact List.map_injective_iff.mpr injective equal

theorem kept_of_inTime {growth : Growth} (inTime : ∀ j < n,late growth decode j = false) :
    Pointers.kept growth decode parent child n = groupBy parent child decode n := by
  unfold Pointers.kept groupBy groups
  rw [List.map_map,List.map_map]
  refine List.map_congr_left fun i _ => ?_
  have whole : ((List.range n).filter fun j => decode j = decode i).filter (fun j => !late growth decode j) =
      (List.range n).filter fun j => decode j = decode i := by
    refine List.filter_eq_self.mpr fun j member => ?_
    rw [inTime j (List.mem_range.mp (List.mem_of_mem_filter member))]
    rfl
  simp only [Function.comp,whole]

-- A row that comes late is a child of no parent.
theorem late_lost {growth : Growth} {j : Nat} (isLate : late growth decode j) :
    ∀ p ∈ Pointers.kept growth decode parent (id : Nat → Nat) n,j ∉ p.children := by
  intro p member inside
  obtain ⟨g,-,rfl⟩ := List.mem_map.mp member
  simp [project,isLate] at inside

theorem groupBy_covers {σ : Type} [DecidableEq σ] {sqlKey : Nat → σ} {j : Nat} (before : j < n) :
    ∃ p ∈ groupBy parent (id : Nat → Nat) sqlKey n,j ∈ p.children := by
  have own : sqlKey j = sqlKey j := rfl
  obtain ⟨g,member,inside,-⟩ := (same_group_iff (List.mem_range.mpr before) (List.mem_range.mpr before)).mp own
  exact ⟨_,List.mem_map_of_mem member,by simpa [project] using inside⟩

end Emitted

-- The emitted fold is a group-by for every choice of parents and children exactly when
-- the host reads every key, tells apart the keys the database tells apart and no others,
-- and in Go no row comes late.
theorem emitted_groups_iff {σ : Type} [DecidableEq σ] (language : Language) (sqlKey : Nat → σ) (n : Nat) :
    (∀ (π χ : Type) (parent : Nat → π) (child : Nat → χ),
      emitted decode parent child language n = some (groupBy parent child sqlKey n)) ↔
    (∀ j < n,(decode j).isSome) ∧ (∀ i < n,∀ j < n,decode i = decode j ↔ sqlKey i = sqlKey j) ∧
      (∀ growth,language = .go growth → ∀ j < n,late growth decode j = false) := by
  constructor
  · intro correct
    have rows := correct Nat Nat id id
    have read : ∀ j < n,(decode j).isSome := by
      intro j before
      by_contra throws
      rw [emitted_none before (Option.not_isSome_iff_eq_none.mp throws)] at rows
      cases rows
    rw [emitted_eq read] at rows
    have inTime : ∀ growth,language = .go growth → ∀ j < n,late growth decode j = false := by
      rintro growth rfl j before
      by_contra isLate
      obtain ⟨p,member,inside⟩ : ∃ p ∈ groupBy id id sqlKey n,j ∈ p.children := groupBy_covers before
      rw [←Option.some.inj rows] at member
      exact late_lost (by simpa using isLate) p member inside
    have grouped : groupBy id id decode n = groupBy id id sqlKey n := by
      cases language with
      | go growth => rw [←kept_of_inTime (inTime growth rfl)]; exact Option.some.inj rows
      | _ => exact Option.some.inj rows
    have same := groupBy_id_injective grouped
    refine ⟨read,fun i iBefore j jBefore => ?_,inTime⟩
    have iMember := List.mem_range.mpr iBefore
    have jMember := List.mem_range.mpr jBefore
    have host : decode i = decode j ↔ _ := same_group_iff iMember jMember
    rw [host,same,←same_group_iff iMember jMember]
  · rintro ⟨read,same,inTime⟩ π χ parent child
    rw [emitted_eq read,←groupBy_congr same]
    cases language with
    | go growth => exact congrArg some (kept_of_inTime (inTime growth rfl))
    | _ => rfl

-- A capacity that doubles, as that of a small slice does.
def doubling : Growth := ⟨fun n => 2 * n + 1,fun n => by omega⟩

-- Keys 1, 2, 1: the second append moves the slice, and the third row goes to the
-- parent in the array that is left behind.
def interleaved (j : Nat) : Option Nat := [1,2,1][j]?

theorem interleaved_loses_a_child :
    ¬∀ (π χ : Type) (parent : Nat → π) (child : Nat → χ),
      emitted interleaved parent child (.go doubling) 3 = some (groupBy parent child interleaved 3) := by
  intro correct
  have rows := correct Nat Nat id id
  have lost : emitted interleaved id id (.go doubling) 3 = some [⟨0,[0]⟩,⟨1,[1]⟩] := by decide
  have whole : groupBy id id interleaved 3 = [⟨0,[0,2]⟩,⟨1,[1]⟩] := by decide
  rw [lost,whole] at rows
  exact absurd rows (by decide)

end Fold
end GroupedFold
