import Mathlib.Data.List.Basic

-- Trees given by the parts of a node, each behind a step with a name: where a node
-- stands, and what a walk that takes only some of the steps comes to.
namespace TreeWalk

structure Tree (α σ : Type) where
  parts : α → List (σ × α)
  sized : ∃ size : α → Nat,∀ x,∀ part ∈ parts x,size part.2 < size x

section
variable {α σ β : Type}

-- What a walk gathers from the parts behind the steps that it takes.
def follow (through : σ → Bool) (walk : α → List β) (parts : List (σ × α)) : List β :=
  (parts.filter fun part => through part.1).flatMap fun part => walk part.2

variable {through : σ → Bool} {walk : α → List β}

theorem follow_nil : follow through walk [] = [] := rfl

theorem follow_cons (part : σ × α) (parts : List (σ × α)) : follow through walk (part :: parts) =
    (if through part.1 then walk part.2 else []) ++ follow through walk parts := by
  unfold follow
  rw [List.filter_cons]
  split
  · rw [List.flatMap_cons]
  · rw [List.nil_append]

theorem follow_append (front back : List (σ × α)) :
    follow through walk (front ++ back) = follow through walk front ++ follow through walk back := by
  unfold follow
  rw [List.filter_append,List.flatMap_append]

theorem follow_flatMap {γ : Type} (items : List γ) (parts : γ → List (σ × α)) :
    follow through walk (items.flatMap parts) = items.flatMap fun item => follow through walk (parts item) := by
  induction items with
  | nil => rfl
  | cons item items ih => rw [List.flatMap_cons,List.flatMap_cons,follow_append,ih]

-- Parts that stand behind one and the same step.
theorem follow_map {γ : Type} (step : σ) (node : γ → α) (items : List γ) :
    follow through walk (items.map fun item => (step,node item)) =
      if through step then items.flatMap fun item => walk (node item) else [] := by
  induction items with
  | nil => exact (ite_self _).symm
  | cons item items ih =>
    rw [List.map_cons,follow_cons,ih]
    split
    · rw [List.flatMap_cons]
    · rfl

-- Every node with the steps that lead to it.
def Tree.located (tree : Tree α σ) (x : α) : List (List σ × α) :=
  ([],x) :: (tree.parts x).attach.flatMap fun part =>
    (tree.located part.1.2).map fun place => (part.1.1 :: place.1,place.2)
termination_by tree.sized.choose x
decreasing_by exact tree.sized.choose_spec x part.1 part.2

variable (tree : Tree α σ)

theorem Tree.located_eq (x : α) : tree.located x =
    ([],x) :: (tree.parts x).flatMap fun part =>
      (tree.located part.2).map fun place => (part.1 :: place.1,place.2) := by
  have flat (below : σ × α → List (List σ × α)) :
      ((tree.parts x).attach.flatMap fun part => below part.1) = (tree.parts x).flatMap below := by
    have mapped := List.flatMap_map Subtype.val below (tree.parts x).attach
    rw [List.attach_map_subtype_val] at mapped
    exact mapped.symm
  rw [Tree.located]
  exact congrArg _ (flat fun part => (tree.located part.2).map fun place => (part.1 :: place.1,place.2))

theorem Tree.located_self (x : α) : ([],x) ∈ tree.located x := by
  rw [tree.located_eq]
  exact List.mem_cons_self

variable {tree}

theorem Tree.located_part {x y : α} {step : σ} (part : (step,y) ∈ tree.parts x) {steps : List σ} {z : α}
    (place : (steps,z) ∈ tree.located y) : (step :: steps,z) ∈ tree.located x := by
  rw [tree.located_eq]
  exact List.mem_cons_of_mem _ (List.mem_flatMap.mpr ⟨_,part,List.mem_map.mpr ⟨_,place,rfl⟩⟩)

variable (tree)

theorem Tree.induct {motive : α → Prop} (node : ∀ x,(∀ part ∈ tree.parts x,motive part.2) → motive x) (x : α) :
    motive x := by
  obtain ⟨size,smaller⟩ := tree.sized
  induction is : size x using Nat.strongRecOn generalizing x with
  | ind n ih =>
    refine node x fun part member => ih _ ?_ part.2 rfl
    rw [← is]
    exact smaller x part member

def Tree.nodes (x : α) : List α := (tree.located x).map (·.2)

def Tree.reached (through : σ → Bool) (x : α) : List α :=
  ((tree.located x).filter fun place => place.1.all through).map (·.2)

theorem Tree.reached_eq (through : σ → Bool) (x : α) : tree.reached through x =
    x :: ((tree.parts x).filter fun part => through part.1).flatMap fun part => tree.reached through part.2 := by
  unfold Tree.reached
  rw [tree.located_eq,List.filter_cons_of_pos (by rfl),List.map_cons]
  refine congrArg (x :: ·) ?_
  induction tree.parts x with
  | nil => rfl
  | cons part parts ih =>
    rw [List.flatMap_cons,List.filter_append,List.map_append,ih,List.filter_map,List.map_map]
    cases taken : through part.1 with
    | true =>
      rw [List.filter_cons,if_pos taken,List.flatMap_cons]
      have same : ((fun place => place.1.all through) ∘ fun place : List σ × α => (part.1 :: place.1,place.2)) =
          fun place => place.1.all through := by
        funext place
        rw [Function.comp_apply,List.all_cons,taken,Bool.true_and]
      rw [same]
      rfl
    | false =>
      have none : (tree.located part.2).filter
          ((fun place => place.1.all through) ∘ fun place => (part.1 :: place.1,place.2)) = [] := by
        refine List.filter_eq_nil_iff.mpr fun place _ all => ?_
        rw [Function.comp_apply,List.all_cons,taken,Bool.false_and] at all
        cases all
      rw [List.filter_cons,if_neg (taken ▸ Bool.false_ne_true),none]
      rfl

-- A walk that says at each node what is its own, and goes on along the steps it takes,
-- among nodes that these steps do not lead out of.
theorem Tree.walk_reached {own : α → List β} (inside : α → Prop)
    (closed : ∀ x,inside x → ∀ part ∈ tree.parts x,through part.1 = true → inside part.2)
    (goes : ∀ x,inside x → walk x = own x ++ follow through walk (tree.parts x)) (x : α) (start : inside x) :
    walk x = (tree.reached through x).flatMap own := by
  induction x using tree.induct with
  | node x ih =>
    rw [goes x start,tree.reached_eq,List.flatMap_cons,List.flatMap_assoc]
    refine congrArg (own x ++ ·) ?_
    unfold follow
    simp only [List.flatMap]
    refine congrArg List.flatten (List.map_congr_left fun part taken => ?_)
    obtain ⟨member,through⟩ := List.mem_filter.mp taken
    exact ih part member (closed x start part member through)

-- What is found first where each item's own search comes to the same.
theorem findSome?_flatMap_congr {γ δ : Type} {items : List γ} {own : γ → Option β} {below : γ → List δ} {test : δ → Option β}
    (same : ∀ item ∈ items,own item = (below item).findSome? test) :
    items.findSome? own = (items.flatMap below).findSome? test := by
  induction items with
  | nil => rfl
  | cons item items ih =>
    rw [List.forall_mem_cons] at same
    rw [List.flatMap_cons,List.findSome?_append,List.findSome?_cons,same.1,ih same.2]
    cases (below item).findSome? test
    all_goals rfl

-- A search for the first thing there is to find, along the steps it takes, among nodes
-- that these steps do not lead out of.
theorem Tree.first_located {inside : α → Prop} (here found : α → Option β)
    (closed : ∀ x,inside x → ∀ part ∈ tree.parts x,through part.1 = true → inside part.2)
    (goes : ∀ x,inside x →
      found x = (here x).or ((tree.parts x).findSome? fun part => if through part.1 then found part.2 else none))
    (x : α) (start : inside x) :
    found x = (tree.located x).findSome? fun place => if place.1.all through then here place.2 else none := by
  induction x using tree.induct with
  | node x ih =>
    have below (part : σ × α) (member : part ∈ tree.parts x) :
        (if through part.1 then found part.2 else none) =
          ((tree.located part.2).map fun place => (part.1 :: place.1,place.2)).findSome?
            fun place => if place.1.all through then here place.2 else none := by
      rw [List.findSome?_map]
      cases taken : through part.1 with
      | true =>
        rw [if_pos rfl,ih part member (closed x start part member taken)]
        refine congrArg (fun test => (tree.located part.2).findSome? test) (funext fun place => ?_)
        rw [Function.comp_apply,List.all_cons,taken,Bool.true_and]
      | false =>
        refine (List.findSome?_eq_none_iff.mpr fun place _ => ?_).symm
        rw [Function.comp_apply,List.all_cons,taken]
        rfl
    rw [goes x start,tree.located_eq,List.findSome?_cons]
    rw [findSome?_flatMap_congr below,List.all_nil,if_pos rfl]
    cases here x
    all_goals rfl

theorem findSome?_given {γ : Type} (p : γ → Bool) (items : List γ) :
    (items.findSome? fun item => if p item then some () else none) = if items.any p then some () else none := by
  induction items with
  | nil => rfl
  | cons item items ih =>
    rw [List.findSome?_cons,ih,List.any_cons]
    cases p item
    all_goals rfl

-- The same where all that is asked is whether there is such a thing.
theorem Tree.search_located {inside : α → Prop} (here found : α → Bool)
    (closed : ∀ x,inside x → ∀ part ∈ tree.parts x,through part.1 = true → inside part.2)
    (goes : ∀ x,inside x → found x = (here x || (tree.parts x).any fun part => through part.1 && found part.2))
    (x : α) (start : inside x) :
    found x = (tree.located x).any fun place => place.1.all through && here place.2 := by
  have asked (a b : Bool) : (if a = true then (if b = true then some () else none) else none) =
      if (a && b) = true then some () else none := by
    cases a
    all_goals rfl
  have first := tree.first_located (fun x => if here x then some () else none)
    (fun x => if found x then some () else none) closed (fun x start => ?_) x start
  · simp only [asked,findSome?_given] at first
    cases given : found x
    all_goals cases located : (tree.located x).any fun place => place.1.all through && here place.2
    all_goals simp [given,located] at first
    all_goals rfl
  · simp only [asked,findSome?_given]
    rw [goes x start]
    cases here x
    all_goals rfl

-- Of two tests, the weaker one counts no more just where it takes nothing more.
theorem countP_agrees {γ : Type} {p q : γ → Bool} (weaker : ∀ item,p item = true → q item = true) (items : List γ) :
    items.countP p = items.countP q ↔ ∀ item ∈ items,q item = true → p item = true := by
  induction items with
  | nil => exact iff_of_true rfl fun item absent => absurd absent List.not_mem_nil
  | cons item items ih =>
    have fewer : items.countP p ≤ items.countP q := List.countP_mono_left fun item _ => weaker item
    rw [List.countP_cons,List.countP_cons,List.forall_mem_cons,← ih]
    cases strong : p item with
    | true => simp [weaker item strong]
    | false =>
      cases q item with
      | false => simp
      | true =>
        simp only [Bool.false_eq_true,if_false,if_true,true_implies,false_and,iff_false]
        omega

-- A walk counts all that there is when nothing of it stands behind a step it does not take.
theorem Tree.count_iff (through : σ → Bool) (p : α → Bool) (x : α) :
    (tree.reached through x).countP p = (tree.nodes x).countP p ↔
      ∀ place ∈ tree.located x,p place.2 = true → place.1.all through = true := by
  unfold Tree.reached Tree.nodes
  rw [List.countP_map,List.countP_map,List.countP_filter,countP_agrees]
  · refine forall₂_congr fun place _ => imp_congr_right fun here => ?_
    rw [here,Bool.true_and]
  · intro place both
    exact (Bool.and_eq_true_iff.mp both).1

end

end TreeWalk
