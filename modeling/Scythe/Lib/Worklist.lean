import Mathlib.Data.List.Nodup
import Mathlib.Data.List.Perm.Subperm
import Mathlib.Logic.Relation

-- Everything reachable from some starting points, each visited once.
namespace Worklist

variable [DecidableEq α]

-- The elements that are not known yet, in order, each once.
def fresh : List α → List α → List α
  | _,[] => []
  | seen,x :: xs => if x ∈ seen then fresh seen xs else x :: fresh (x :: seen) xs

-- Visit the queue from its front; what a visit discovers goes to its back.
def drain (next : α → List α) : Nat → List α → List α → List α
  | 0,_,_ => []
  | _,_,[] => []
  | fuel + 1,seen,x :: queue =>
    let found := fresh seen (next x)
    x :: drain next fuel (found ++ seen) (queue ++ found)

def visit (next : α → List α) (fuel : Nat) (roots : List α) : List α :=
  drain next fuel (fresh [] roots) (fresh [] roots)

theorem mem_fresh {seen xs : List α} {x : α} : x ∈ fresh seen xs ↔ x ∈ xs ∧ x ∉ seen := by
  induction xs generalizing seen with
  | nil => simp [fresh]
  | cons y ys ih =>
    unfold fresh
    split
    · rename_i known
      rw [ih]
      constructor
      · exact fun ⟨old,unseen⟩ => ⟨List.mem_cons_of_mem y old,unseen⟩
      · rintro ⟨member,unseen⟩
        rcases List.mem_cons.mp member with rfl | old
        · exact absurd known unseen
        · exact ⟨old,unseen⟩
    · rename_i unknown
      rw [List.mem_cons,ih]
      constructor
      · rintro (rfl | ⟨old,unseen⟩)
        · exact ⟨List.mem_cons_self,unknown⟩
        · exact ⟨List.mem_cons_of_mem y old,fun known => unseen (List.mem_cons_of_mem y known)⟩
      · rintro ⟨member,unseen⟩
        rcases List.mem_cons.mp member with rfl | old
        · exact .inl rfl
        · by_cases same : x = y
          · exact .inl same
          · exact .inr ⟨old,fun known => (List.mem_cons.mp known).elim same unseen⟩

theorem fresh_nodup (seen xs : List α) : (fresh seen xs).Nodup := by
  induction xs generalizing seen with
  | nil => exact List.nodup_nil
  | cons y ys ih =>
    unfold fresh
    split
    · exact ih seen
    · exact List.nodup_cons.mpr ⟨fun old => (mem_fresh.mp old).2 List.mem_cons_self,ih (y :: seen)⟩

-- The queue is always part of what has been seen, and each visit moves one
-- element out of it.
structure Ready (seen queue : List α) : Prop where
  nodup : queue.Nodup
  known : ∀ x ∈ queue, x ∈ seen

theorem Ready.step (ready : Ready seen (x :: queue)) (next : α → List α) :
    Ready (fresh seen (next x) ++ seen) (queue ++ fresh seen (next x)) := by
  obtain ⟨nodup,known⟩ := ready
  refine ⟨?_,?_⟩
  · refine List.nodup_append.mpr ⟨(List.nodup_cons.mp nodup).2,fresh_nodup seen _,?_⟩
    rintro y old z new rfl
    exact (mem_fresh.mp new).2 (known y (List.mem_cons_of_mem x old))
  · intro y member
    rcases List.mem_append.mp member with old | new
    · exact List.mem_append_right _ (known y (List.mem_cons_of_mem x old))
    · exact List.mem_append_left _ new

theorem drain_sound {next : α → List α} {R : α → Prop} (closed : ∀ x, R x → ∀ y ∈ next x, R y) :
    ∀ fuel seen queue, (∀ x ∈ queue, R x) → ∀ x ∈ drain next fuel seen queue, R x := by
  intro fuel
  induction fuel with
  | zero => intro seen queue _ x member; simp [drain] at member
  | succ fuel ih =>
    intro seen queue queued x member
    cases queue with
    | nil => simp [drain] at member
    | cons head queue =>
      rcases List.mem_cons.mp member with rfl | later
      · exact queued _ List.mem_cons_self
      · refine ih _ _ ?_ x later
        intro y waiting
        rcases List.mem_append.mp waiting with old | new
        · exact queued y (List.mem_cons_of_mem head old)
        · exact closed head (queued head List.mem_cons_self) y (mem_fresh.mp new).1

theorem drain_seen {next : α → List α} : ∀ fuel (seen queue : List α), Ready seen queue →
    ∀ x ∈ drain next fuel seen queue, x ∈ queue ∨ x ∉ seen := by
  intro fuel
  induction fuel with
  | zero => intro seen queue _ x member; simp [drain] at member
  | succ fuel ih =>
    intro seen queue ready x member
    cases queue with
    | nil => simp [drain] at member
    | cons head queue =>
      rcases List.mem_cons.mp member with rfl | later
      · exact .inl List.mem_cons_self
      · rcases ih _ _ (ready.step next) x later with waiting | unseen
        · rcases List.mem_append.mp waiting with old | new
          · exact .inl (List.mem_cons_of_mem head old)
          · exact .inr (mem_fresh.mp new).2
        · exact .inr fun known => unseen (List.mem_append_right _ known)

theorem drain_nodup {next : α → List α} : ∀ fuel (seen queue : List α), Ready seen queue →
    (drain next fuel seen queue).Nodup := by
  intro fuel
  induction fuel with
  | zero => intro seen queue _; exact List.nodup_nil
  | succ fuel ih =>
    intro seen queue ready
    cases queue with
    | nil => exact List.nodup_nil
    | cons head queue =>
      refine List.nodup_cons.mpr ⟨fun later => ?_,ih _ _ (ready.step next)⟩
      rcases drain_seen fuel _ _ (ready.step next) head later with waiting | unseen
      · rcases List.mem_append.mp waiting with old | new
        · exact (List.nodup_cons.mp ready.nodup).1 old
        · exact (mem_fresh.mp new).2 (ready.known head List.mem_cons_self)
      · exact unseen (List.mem_append_right _ (ready.known head List.mem_cons_self))

-- With a bound on what can still be visited the queue runs empty, and what was
-- visited or seen before is closed under `next`.
theorem drain_closed {next : α → List α} {whole : List α} (within : ∀ x, ∀ y ∈ next x, y ∈ whole) :
    ∀ fuel (seen queue : List α), Ready seen queue →
      queue.length + (whole.filter (· ∉ seen)).length ≤ fuel →
      (∀ x ∈ queue, x ∈ drain next fuel seen queue) ∧
      ∀ x ∈ drain next fuel seen queue, ∀ y ∈ next x, y ∈ seen ∨ y ∈ drain next fuel seen queue := by
  intro fuel
  induction fuel with
  | zero =>
    intro seen queue _ enough
    have empty : queue = [] := List.eq_nil_of_length_eq_zero (by omega)
    simp [empty,drain]
  | succ fuel ih =>
    intro seen queue ready enough
    cases queue with
    | nil => simp [drain]
    | cons head queue =>
      have shrinks : (fresh seen (next head)).length +
          (whole.filter (· ∉ fresh seen (next head) ++ seen)).length ≤ (whole.filter (· ∉ seen)).length := by
        have parts : (whole.filter (· ∉ fresh seen (next head) ++ seen)) =
            (whole.filter (· ∉ seen)).filter (· ∉ fresh seen (next head)) := by
          rw [List.filter_filter]
          congr 1
          funext y
          simp [List.mem_append,not_or]
        have split := @List.length_eq_length_filter_add _ (whole.filter (· ∉ seen)) (· ∈ fresh seen (next head))
        have covered : (fresh seen (next head)).length ≤
            ((whole.filter (· ∉ seen)).filter (· ∈ fresh seen (next head))).length := by
          refine (List.subperm_of_subset (fresh_nodup seen _) ?_).length_le
          intro y new
          have old := mem_fresh.mp new
          simp only [List.mem_filter,decide_eq_true_eq]
          exact ⟨⟨within head y old.1,old.2⟩,new⟩
        rw [parts]
        simp only [decide_not] at split covered ⊢
        omega
      have bound : (queue ++ fresh seen (next head)).length +
          (whole.filter (· ∉ fresh seen (next head) ++ seen)).length ≤ fuel := by
        simp only [List.length_append,List.length_cons] at enough ⊢
        omega
      obtain ⟨all,closed⟩ := ih _ _ (ready.step next) bound
      refine ⟨?_,?_⟩
      · intro y waiting
        rcases List.mem_cons.mp waiting with rfl | later
        · exact List.mem_cons_self
        · exact List.mem_cons_of_mem _ (all y (List.mem_append_left _ later))
      · intro y visited z reached
        rcases List.mem_cons.mp visited with rfl | later
        · by_cases known : z ∈ seen
          · exact .inl known
          · exact .inr (List.mem_cons_of_mem _
              (all z (List.mem_append_right _ (mem_fresh.mpr ⟨reached,known⟩))))
        · rcases closed y later z reached with known | again
          · rcases List.mem_append.mp known with new | old
            · exact .inr (List.mem_cons_of_mem _ (all z (List.mem_append_right _ new)))
            · exact .inl old
          · exact .inr (List.mem_cons_of_mem _ again)

theorem ready_roots (roots : List α) : Ready (fresh [] roots) (fresh [] roots) :=
  ⟨fresh_nodup [] roots,fun _ member => member⟩

theorem visit_nodup (next : α → List α) (fuel : Nat) (roots : List α) : (visit next fuel roots).Nodup :=
  drain_nodup fuel _ _ (ready_roots roots)

-- With enough fuel what is visited is what the roots lead to.
theorem mem_visit {next : α → List α} {whole roots : List α} {fuel : Nat} {x : α}
    (within : ∀ x, ∀ y ∈ next x, y ∈ whole) (enough : roots.length + whole.length ≤ fuel) :
    x ∈ visit next fuel roots ↔ ∃ root ∈ roots, Relation.ReflTransGen (fun x y => y ∈ next x) root x := by
  have shorter : (fresh [] roots).length ≤ roots.length :=
    (List.subperm_of_subset (fresh_nodup [] roots) fun _ member => (mem_fresh.mp member).1).length_le
  have unseen := List.length_filter_le (fun x => decide (x ∉ fresh [] roots)) whole
  obtain ⟨queued,closed⟩ := drain_closed within fuel _ _ (ready_roots roots) (by omega)
  constructor
  · refine drain_sound (R := fun x => ∃ root ∈ roots, Relation.ReflTransGen (fun x y => y ∈ next x) root x)
      ?_ fuel _ _ ?_ x
    · intro x reached y member
      obtain ⟨root,among,path⟩ := reached
      exact ⟨root,among,path.tail member⟩
    · intro root member
      exact ⟨root,(mem_fresh.mp member).1,.refl⟩
  · intro reached
    obtain ⟨root,among,path⟩ := reached
    induction path with
    | refl => exact queued root (mem_fresh.mpr ⟨among,List.not_mem_nil⟩)
    | tail _ step ih =>
      rcases closed _ ih _ step with waiting | visited
      · exact queued _ waiting
      · exact visited

-- Visit a stack from its top. What a visit discovers goes on top of it, known or
-- not, and is dropped when it comes up again.
def explore (next : α → List α) : Nat → List α → List α → Option (List α)
  | _,[],seen => some seen
  | 0,_ :: _,_ => none
  | fuel + 1,x :: stack,seen =>
    if x ∈ seen then explore next fuel stack seen else explore next fuel ((next x).reverse ++ stack) (x :: seen)

theorem explore_sound {next : α → List α} {R : α → Prop} (closed : ∀ x, R x → ∀ y ∈ next x, R y) :
    ∀ {fuel : Nat} {stack seen visited : List α},(∀ x ∈ stack, R x) → (∀ x ∈ seen, R x) →
      explore next fuel stack seen = some visited → ∀ x ∈ visited, R x := by
  intro fuel
  induction fuel with
  | zero =>
    intro stack seen visited waiting known done
    cases stack with
    | nil =>
      cases done
      exact known
    | cons x stack => cases done
  | succ fuel ih =>
    intro stack seen visited waiting known done
    cases stack with
    | nil =>
      cases done
      exact known
    | cons x stack =>
      have top := waiting x List.mem_cons_self
      have others := fun y member => waiting y (List.mem_cons_of_mem x member)
      unfold explore at done
      split at done
      · exact ih others known done
      · apply ih ?_ ?_ done
        · intro y member
          rcases List.mem_append.mp member with new | old
          · exact closed x top y (List.mem_reverse.mp new)
          · exact others y old
        · intro y member
          rcases List.mem_cons.mp member with rfl | old
          · exact top
          · exact known y old

-- Whatever has been seen or waits is visited, and so is what they lead to, but for
-- what the elements seen before lead to.
theorem explore_closed {next : α → List α} :
    ∀ {fuel : Nat} {stack seen visited : List α},explore next fuel stack seen = some visited →
      (∀ x ∈ seen,x ∈ visited) ∧ (∀ x ∈ stack,x ∈ visited) ∧
        ∀ x ∈ visited,x ∈ seen ∨ ∀ y ∈ next x,y ∈ visited := by
  intro fuel
  induction fuel with
  | zero =>
    intro stack seen visited done
    cases stack with
    | nil =>
      cases done
      exact ⟨fun _ known => known,fun x member => absurd member List.not_mem_nil,fun _ known => .inl known⟩
    | cons x stack => cases done
  | succ fuel ih =>
    intro stack seen visited done
    cases stack with
    | nil =>
      cases done
      exact ⟨fun _ known => known,fun x member => absurd member List.not_mem_nil,fun _ known => .inl known⟩
    | cons x stack =>
      unfold explore at done
      split at done
      · rename_i known
        obtain ⟨seenIn,stackIn,closed⟩ := ih done
        refine ⟨seenIn,?_,closed⟩
        intro y member
        rcases List.mem_cons.mp member with rfl | later
        · exact seenIn y known
        · exact stackIn y later
      · obtain ⟨seenIn,stackIn,closed⟩ := ih done
        have new : ∀ y ∈ next x,y ∈ visited :=
          fun y member => stackIn y (List.mem_append_left _ (List.mem_reverse.mpr member))
        refine ⟨fun y known => seenIn y (List.mem_cons_of_mem x known),?_,?_⟩
        · intro y member
          rcases List.mem_cons.mp member with rfl | later
          · exact seenIn y List.mem_cons_self
          · exact stackIn y (List.mem_append_right _ later)
        · intro y inside
          rcases closed y inside with known | leads
          · rcases List.mem_cons.mp known with rfl | old
            · exact .inr new
            · exact .inl old
          · exact .inr leads

theorem explore_iff {next : α → List α} {fuel : Nat} {roots visited : List α}
    (done : explore next fuel roots [] = some visited) (x : α) :
    x ∈ visited ↔ ∃ root ∈ roots,Relation.ReflTransGen (fun x y => y ∈ next x) root x := by
  obtain ⟨-,rootsIn,closed⟩ := explore_closed done
  constructor
  · refine explore_sound (R := fun x => ∃ root ∈ roots,Relation.ReflTransGen (fun x y => y ∈ next x) root x)
      ?_ ?_ (fun y member => absurd member List.not_mem_nil) done x
    · intro x reached y member
      obtain ⟨root,among,path⟩ := reached
      exact ⟨root,among,path.tail member⟩
    · intro root among
      exact ⟨root,among,.refl⟩
  · intro reached
    obtain ⟨root,among,path⟩ := reached
    induction path with
    | refl => exact rootsIn root among
    | tail _ step ih =>
      rcases closed _ ih with none | leads
      · cases none
      · exact leads _ step

-- What the elements that are not seen yet can still put on the stack.
def pending (next : α → List α) (whole seen : List α) : Nat :=
  ((whole.filter fun x => !decide (x ∈ seen)).flatMap next).length

theorem pending_cons (next : α → List α) (whole seen : List α) {x : α} (unseen : x ∉ seen) :
    pending next whole (x :: seen) + (if x ∈ whole then (next x).length else 0) ≤ pending next whole seen := by
  induction whole with
  | nil => simp [pending]
  | cons y whole ih =>
    unfold pending at ih ⊢
    by_cases same : y = x
    · subst same
      simp only [List.filter_cons,List.mem_cons,true_or,decide_true,Bool.not_true,unseen,or_false,decide_false,
        Bool.not_false,if_true,Bool.false_eq_true,if_false,List.flatMap_cons,List.length_append] at ih ⊢
      split at ih <;> omega
    · by_cases known : y ∈ seen
      · simpa [List.filter_cons,known,Ne.symm same] using ih
      · simp [known,same,Ne.symm same] at ih ⊢
        omega

theorem explore_isSome {next : α → List α} {whole : List α} (within : ∀ x,next x ≠ [] → x ∈ whole) :
    ∀ {fuel : Nat} {stack seen : List α},stack.length + pending next whole seen ≤ fuel →
      (explore next fuel stack seen).isSome := by
  intro fuel
  induction fuel with
  | zero =>
    intro stack seen enough
    cases stack with
    | nil => rfl
    | cons x stack => simp at enough
  | succ fuel ih =>
    intro stack seen enough
    cases stack with
    | nil => rfl
    | cons x stack =>
      rw [List.length_cons] at enough
      unfold explore
      split
      · apply ih
        omega
      · rename_i unseen
        apply ih
        have less := pending_cons next whole seen unseen
        rw [List.length_append,List.length_reverse]
        by_cases inside : x ∈ whole
        · rw [if_pos inside] at less
          omega
        · have nothing : next x = [] := by
            by_contra some'
            exact inside (within x some')
          rw [nothing,List.length_nil]
          rw [if_neg inside] at less
          omega

end Worklist
