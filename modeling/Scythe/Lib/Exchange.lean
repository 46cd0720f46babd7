import Mathlib.Data.Option.Basic
import Mathlib.Order.Defs.Unbundled

-- Operations on a state that consists of parts. Each may refuse; where two of
-- them neither change what the other looks at nor leave different values behind
-- in the same part, it does not matter which of them comes first.
namespace Exchange

section
variable {σ ο : Type} {valid : σ → Prop} {agree : ο → σ → σ → Prop}

-- What an operation may change, and what its outcome depends on.
structure Footprint (valid : σ → Prop) (agree : ο → σ → σ → Prop) (op : σ → Option σ) (writes reads : ο → Prop) :
    Prop where
  keeps : ∀ s s',op s = some s' → valid s → valid s'
  frame : ∀ s s',op s = some s' → ∀ part,¬writes part → agree part s s'
  outcome : ∀ s t,valid s → valid t → (∀ part,reads part → agree part s t) →
    Option.Rel (fun s' t' => ∀ part,writes part → agree part s' t') (op s) (op t)

structure Apart (agree : ο → σ → σ → Prop) (first second : σ → Option σ)
    (writes reads otherWrites otherReads : ο → Prop) : Prop where
  left : ∀ part,writes part → ¬otherReads part
  right : ∀ part,otherWrites part → ¬reads part
  meet : ∀ part,writes part → otherWrites part → ∀ s s' t t',first s = some s' → second t = some t' → agree part s' t'

structure Alike (valid : σ → Prop) (agree : ο → σ → σ → Prop) (s t : σ) : Prop where
  left : valid s
  right : valid t
  parts : ∀ part,agree part s t

theorem Alike.trans (laws : ∀ part,Equivalence (agree part)) {s t u : σ} (first : Alike valid agree s t)
    (second : Alike valid agree t u) : Alike valid agree s u :=
  ⟨first.left,second.right,fun part => (laws part).trans (first.parts part) (second.parts part)⟩

variable {first second op : σ → Option σ} {writes reads otherWrites otherReads : ο → Prop}

theorem rel_cases {R : σ → σ → Prop} {x y : Option σ} (related : Option.Rel R x y) :
    (x = none ∧ y = none) ∨ ∃ s t,x = some s ∧ y = some t ∧ R s t := by
  cases related with
  | none => exact .inl ⟨rfl,rfl⟩
  | some both => exact .inr ⟨_,_,rfl,rfl,both⟩

theorem Footprint.respects (laws : ∀ part,Equivalence (agree part))
    (footprint : Footprint valid agree op writes reads) {s t : σ} (alike : Alike valid agree s t) :
    Option.Rel (Alike valid agree) (op s) (op t) := by
  have outcome := footprint.outcome s t alike.left alike.right fun part _ => alike.parts part
  obtain ⟨left,right⟩ | ⟨s',t',left,right,written⟩ := rel_cases outcome
  · rw [left,right]
    exact .none
  · rw [left,right]
    refine .some ⟨footprint.keeps s s' left alike.left,footprint.keeps t t' right alike.right,fun part => ?_⟩
    by_cases inside : writes part
    · exact written part inside
    · have before := (laws part).symm (footprint.frame s s' left part inside)
      exact (laws part).trans before ((laws part).trans (alike.parts part) (footprint.frame t t' right part inside))

-- After the other operation, one that does not look at what it changed comes
-- out as it would have before.
theorem Footprint.undisturbed (footprint : Footprint valid agree first writes reads)
    (other : Footprint valid agree second otherWrites otherReads) (right : ∀ part,otherWrites part → ¬reads part)
    {s t : σ} (held : valid s) (moved : second s = some t) :
    Option.Rel (fun s' t' => ∀ part,writes part → agree part s' t') (first s) (first t) :=
  footprint.outcome s t held (other.keeps s t moved held) fun part looked =>
    other.frame s t moved part fun changed => right part changed looked

theorem exchange (laws : ∀ part,Equivalence (agree part)) (footprint : Footprint valid agree first writes reads)
    (other : Footprint valid agree second otherWrites otherReads)
    (apart : Apart agree first second writes reads otherWrites otherReads) {s : σ} (held : valid s) :
    Option.Rel (Alike valid agree) ((first s).bind second) ((second s).bind first) := by
  cases left : first s with
  | none =>
    cases right : second s with
    | none => exact .none
    | some t =>
      obtain ⟨-,still⟩ | ⟨s',_,moves,_⟩ := rel_cases (footprint.undisturbed other apart.right held right)
      · rw [Option.bind_none,Option.bind_some,still]
        exact .none
      · rw [left] at moves
        cases moves
  | some s' =>
    obtain ⟨refused,still⟩ | ⟨t,s'',right,one,later⟩ := rel_cases (other.undisturbed footprint apart.left held left)
    · rw [refused,Option.bind_none,Option.bind_some,still]
      exact .none
    · obtain ⟨refused,_⟩ | ⟨s₀,t'',left',two,earlier⟩ :=
        rel_cases (footprint.undisturbed other apart.right held right)
      · rw [left] at refused
        cases refused
      · rw [left] at left'
        cases left'
        rw [right,Option.bind_some,Option.bind_some,one,two]
        have reached := other.keeps s' s'' one (footprint.keeps s s' left held)
        have reached' := footprint.keeps t t'' two (other.keeps s t right held)
        refine .some ⟨reached,reached',fun part => ?_⟩
        have eqv := laws part
        by_cases own : writes part
        · by_cases others : otherWrites part
          · exact eqv.symm (apart.meet part own others t t'' s' s'' two one)
          · exact eqv.trans (eqv.symm (other.frame s' s'' one part others)) (earlier part own)
        · have kept := footprint.frame t t'' two part own
          by_cases others : otherWrites part
          · exact eqv.trans (eqv.symm (later part others)) kept
          · have back := eqv.symm (other.frame s' s'' one part others)
            have start := eqv.symm (footprint.frame s s' left part own)
            exact eqv.trans back (eqv.trans start (eqv.trans (other.frame s t right part others) kept))

end

section
variable {α σ ο : Type} {valid : σ → Prop} {agree : ο → σ → σ → Prop} {swaps : α → α → Prop} {xs ys : List α}

-- One sequence becomes the other by exchanging neighbours that may be exchanged.
inductive Reordering (swaps : α → α → Prop) : List α → List α → Prop where
  | refl (xs : List α) : Reordering swaps xs xs
  | swap (before after : List α) {x y : α} (may : swaps x y) :
    Reordering swaps (before ++ x :: y :: after) (before ++ y :: x :: after)
  | trans {xs ys zs : List α} : Reordering swaps xs ys → Reordering swaps ys zs → Reordering swaps xs zs

def run (step : α → σ → Option σ) (xs : List α) (s : σ) : Option σ := xs.foldlM (fun s x => step x s) s

theorem run_cons (step : α → σ → Option σ) (x : α) (xs : List α) (s : σ) :
    run step (x :: xs) s = (step x s).bind (run step xs) := rfl

theorem run_append (step : α → σ → Option σ) (xs ys : List α) (s : σ) :
    run step (xs ++ ys) s = (run step xs s).bind (run step ys) := List.foldlM_append ..

theorem rel_bind {f g : σ → Option σ} {x y : Option σ}
    (after : ∀ s t,Alike valid agree s t → Option.Rel (Alike valid agree) (f s) (g t))
    (alike : Option.Rel (Alike valid agree) x y) : Option.Rel (Alike valid agree) (x.bind f) (y.bind g) := by
  cases alike with
  | none => exact .none
  | some both => exact after _ _ both

theorem rel_trans (laws : ∀ part,Equivalence (agree part)) {x y z : Option σ}
    (first : Option.Rel (Alike valid agree) x y) (second : Option.Rel (Alike valid agree) y z) :
    Option.Rel (Alike valid agree) x z := by
  cases first with
  | none =>
    cases second
    exact .none
  | some left =>
    cases second with
    | some right => exact .some (left.trans laws right)

variable {step : α → σ → Option σ}

theorem run_respects
    (each : ∀ x s t,Alike valid agree s t → Option.Rel (Alike valid agree) (step x s) (step x t)) (xs : List α)
    {s t : σ} (alike : Alike valid agree s t) : Option.Rel (Alike valid agree) (run step xs s) (run step xs t) := by
  induction xs generalizing s t with
  | nil => exact .some alike
  | cons x xs ih =>
    rw [run_cons,run_cons]
    exact rel_bind (fun _ _ => ih) (each x s t alike)

-- If every exchange of neighbours leaves the outcome alike, so does every
-- reordering that is made of them.
theorem run_reordered (laws : ∀ part,Equivalence (agree part))
    (each : ∀ x s t,Alike valid agree s t → Option.Rel (Alike valid agree) (step x s) (step x t))
    (exchanged : ∀ x y s,swaps x y → valid s →
      Option.Rel (Alike valid agree) ((step x s).bind (step y)) ((step y s).bind (step x)))
    (reordering : Reordering swaps xs ys) {s t : σ} (alike : Alike valid agree s t) :
    Option.Rel (Alike valid agree) (run step xs s) (run step ys t) := by
  induction reordering generalizing s t with
  | refl xs => exact run_respects each xs alike
  | @swap before after x y may =>
    have two (x y : α) (s : σ) : run step (x :: y :: after) s = ((step x s).bind (step y)).bind (run step after) := by
      rw [Option.bind_assoc]
      rfl
    rw [run_append,run_append]
    refine rel_bind (fun s' t' near => ?_) (run_respects each before alike)
    rw [two,two]
    have beside := rel_bind (each x) (each y s' t' near)
    exact rel_bind (fun _ _ => run_respects each after) (rel_trans laws (exchanged x y s' may near.left) beside)
  | trans _ _ first second =>
    have here : Alike valid agree s s := ⟨alike.left,alike.left,fun part => (laws part).refl s⟩
    exact rel_trans laws (first here) (second alike)

end

end Exchange
