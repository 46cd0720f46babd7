import Mathlib.Data.List.AList

-- Two registers filled side by side: association lists whose entries stand
-- under the same keys in the same order, and runs of two machines that read
-- matching commands.
namespace Register

section
variable {κ α β : Type}

def Agree (R : α → β → Prop) (a : AList fun _ : κ => α) (b : AList fun _ : κ => β) : Prop :=
  List.Forall₂ (fun x y => x.1 = y.1 ∧ R x.2 y.2) a.entries b.entries

variable {R : α → β → Prop} {a : AList fun _ : κ => α} {b : AList fun _ : κ => β}

theorem agree_empty : Agree R (∅ : AList fun _ : κ => α) ∅ := .nil

theorem keys_eq {xs : List (Σ _ : κ, α)} {ys : List (Σ _ : κ, β)}
    (agree : List.Forall₂ (fun x y => x.1 = y.1 ∧ R x.2 y.2) xs ys) : xs.keys = ys.keys := by
  induction agree with
  | nil => rfl
  | cons head _ ih => simp only [List.keys_cons,head.1,ih]

theorem agree_keys (agree : Agree R a b) : a.keys = b.keys := keys_eq agree

theorem agree_mono {S : α → β → Prop} (implies : ∀ x y, R x y → S x y) (agree : Agree R a b) : Agree S a b :=
  List.Forall₂.imp (fun _ _ both => ⟨both.1,implies _ _ both.2⟩) agree

theorem agree_mem (agree : Agree R a b) (key : κ) : key ∈ a ↔ key ∈ b := by
  rw [AList.mem_keys,AList.mem_keys,agree_keys agree]

variable [DecidableEq κ]

theorem agree_insert (agree : Agree R a b) {x : α} {y : β} (related : R x y) (key : κ) :
    Agree R (a.insert key x) (b.insert key y) := by
  unfold Agree
  rw [AList.entries_insert,AList.entries_insert]
  refine .cons ⟨rfl,related⟩ ?_
  unfold Agree at agree
  generalize a.entries = xs at agree
  generalize b.entries = ys at agree
  induction agree with
  | nil => exact .nil
  | @cons x y xs ys head tail ih =>
    by_cases same : key = x.1
    · rw [List.kerase_cons_eq same,List.kerase_cons_eq (same.trans head.1)]
      exact tail
    · rw [List.kerase_cons_ne same,List.kerase_cons_ne (head.1 ▸ same)]
      exact .cons head ih

theorem agree_lookup (agree : Agree R a b) (key : κ) : Option.Rel R (a.lookup key) (b.lookup key) := by
  unfold Agree at agree
  unfold AList.lookup
  generalize a.entries = xs at agree
  generalize b.entries = ys at agree
  induction agree with
  | nil => exact .none
  | @cons x y xs ys head tail ih =>
    obtain ⟨k,v⟩ := x
    obtain ⟨k',w⟩ := y
    obtain ⟨sameKey,related⟩ : k = k' ∧ R v w := head
    subst sameKey
    by_cases same : key = k
    · subst same
      simpa only [List.dlookup_cons_eq] using Option.Rel.some related
    · have left := List.dlookup_cons_ne xs (⟨k,v⟩ : Σ _ : κ, α) same
      have right := List.dlookup_cons_ne ys (⟨k,w⟩ : Σ _ : κ, β) same
      rw [left,right]
      exact ih

end

theorem eq_of_agree {κ α : Type} [DecidableEq κ] {a b : AList fun _ : κ => α} (agree : Agree Eq a b) : a = b := by
  apply AList.ext
  unfold Agree at agree
  generalize a.entries = xs at agree
  generalize b.entries = ys at agree
  induction agree with
  | nil => rfl
  | @cons x y xs ys head tail ih =>
    obtain ⟨k,v⟩ := x
    obtain ⟨k',w⟩ := y
    obtain ⟨sameKey,sameValue⟩ : k = k' ∧ v = w := head
    rw [ih,sameKey,sameValue]

section
variable {ε σ τ α β : Type}

theorem bind_ok {x : Except ε α} {f : α → Except ε β} {b : β} (done : (x >>= f) = .ok b) :
    ∃ a, x = .ok a ∧ f a = .ok b := by
  cases x with
  | error => cases done
  | ok a => exact ⟨a,rfl,done⟩

theorem forall₂_right {R : α → β → Prop} {P : β → Prop} (implies : ∀ a b, R a b → P b) {as : List α} {bs : List β}
    (all : List.Forall₂ R as bs) : ∀ b ∈ bs, P b := by
  induction all with
  | nil => simp
  | cons head tail ih =>
    intro b member
    rcases List.mem_cons.mp member with rfl | later
    · exact implies _ _ head
    · exact ih b later

theorem forall₂_left {R : α → β → Prop} {P : α → Prop} (implies : ∀ a b, R a b → P a) {as : List α} {bs : List β}
    (all : List.Forall₂ R as bs) : ∀ a ∈ as, P a :=
  forall₂_right (fun b a related => implies a b related) all.flip

theorem forall₂_mem {R : α → β → Prop} {as : List α} {bs : List β} (all : List.Forall₂ R as bs) {a : α}
    (member : a ∈ as) : ∃ b ∈ bs, R a b := by
  induction all with
  | nil => cases member
  | @cons _ b _ _ head tail ih =>
    rcases List.mem_cons.mp member with here | later
    · rw [here]
      exact ⟨b,List.mem_cons_self,head⟩
    · obtain ⟨b,inside,related⟩ := ih later
      exact ⟨b,List.mem_cons_of_mem _ inside,related⟩

theorem mapIdx_map (f : α → β) (g : Nat → β → σ) (as : List α) :
    (as.map f).mapIdx g = as.mapIdx fun index a => g index (f a) := by
  rw [List.mapIdx_eq_iff]
  intro index
  rw [List.getElem?_mapIdx,List.getElem?_map,Option.map_map]
  rfl

theorem map_mapIdx (f : Nat → α → β) (g : β → σ) (as : List α) :
    (as.mapIdx f).map g = as.mapIdx fun index a => g (f index a) := by
  apply List.ext_getElem?
  intro index
  rw [List.getElem?_map,List.getElem?_mapIdx,List.getElem?_mapIdx,Option.map_map]
  rfl

theorem mapM_ok {f : α → Except ε β} {g : α → β} (each : ∀ a b, f a = .ok b → b = g a) {as : List α} {bs : List β}
    (done : as.mapM f = .ok bs) : bs = as.map g := by
  induction as generalizing bs with
  | nil =>
    cases done
    rfl
  | cons a as ih =>
    rw [List.mapM_cons] at done
    obtain ⟨b,first,rest⟩ := bind_ok done
    obtain ⟨others,second,last⟩ := bind_ok rest
    cases last
    rw [each a b first,ih second,List.map_cons]

theorem mapM_total {f : α → Except ε β} {g : α → β} {as : List α} (each : ∀ a ∈ as,f a = .ok (g a)) :
    as.mapM f = .ok (as.map g) := by
  induction as with
  | nil => rfl
  | cons a as ih =>
    have rest := ih fun b member => each b (List.mem_cons_of_mem _ member)
    rw [List.mapM_cons,each a List.mem_cons_self,rest]
    rfl

theorem run_invariant {step : σ → α → Except ε σ} {P : σ → Prop} {commands : List α}
    (kept : ∀ s, ∀ c ∈ commands, ∀ s', P s → step s c = .ok s' → P s') :
    ∀ {s s' : σ}, P s → commands.foldlM step s = .ok s' → P s' := by
  induction commands with
  | nil =>
    intro s s' holds done
    cases done
    exact holds
  | cons c commands ih =>
    intro s s' holds done
    rw [List.foldlM_cons] at done
    obtain ⟨middle,first,rest⟩ := bind_ok done
    have next : P middle := kept s c List.mem_cons_self middle holds first
    exact ih (fun s c member => kept s c (List.mem_cons_of_mem _ member)) next rest

theorem run_keeps {step : σ → α → Except ε σ} (view : σ → β) (kept : ∀ s c s', step s c = .ok s' → view s' = view s)
    {commands : List α} {s s' : σ} (done : commands.foldlM step s = .ok s') : view s' = view s :=
  run_invariant (fun middle c _ next same one => (kept middle c next one).trans same) rfl done

theorem mapM_mem {f : α → Except ε β} {as : List α} {bs : List β} (done : as.mapM f = .ok bs) :
    ∀ b ∈ bs,∃ a ∈ as,f a = .ok b := by
  induction as generalizing bs with
  | nil =>
    cases done
    intro b member
    cases member
  | cons a as ih =>
    rw [List.mapM_cons] at done
    obtain ⟨first,here,rest⟩ := bind_ok done
    obtain ⟨others,later,last⟩ := bind_ok rest
    cases last
    intro b member
    rcases List.mem_cons.mp member with rfl | inside
    · exact ⟨a,List.mem_cons_self,here⟩
    · obtain ⟨source,among,made⟩ := ih later b inside
      exact ⟨source,List.mem_cons_of_mem a among,made⟩

theorem mapM_image {f : α → Except ε β} {as : List α} {bs : List β} (done : as.mapM f = .ok bs) {a : α}
    (member : a ∈ as) : ∃ b ∈ bs,f a = .ok b := by
  induction as generalizing bs with
  | nil => cases member
  | cons first as ih =>
    rw [List.mapM_cons] at done
    obtain ⟨b,here,rest⟩ := bind_ok done
    obtain ⟨others,later,last⟩ := bind_ok rest
    cases last
    rcases List.mem_cons.mp member with rfl | inside
    · exact ⟨b,List.mem_cons_self,here⟩
    · obtain ⟨image,among,made⟩ := ih later inside
      exact ⟨image,List.mem_cons_of_mem b among,made⟩

-- What each command leaves behind and no command takes away.
theorem run_each {step : σ → α → Except ε σ} {Q : α → σ → Prop} (made : ∀ s c s', step s c = .ok s' → Q c s')
    (kept : ∀ c s d s', Q c s → step s d = .ok s' → Q c s') {commands : List α} :
    ∀ {s s' : σ}, commands.foldlM step s = .ok s' → ∀ c ∈ commands, Q c s' := by
  induction commands with
  | nil =>
    intro s s' done c member
    cases member
  | cons d commands ih =>
    intro s s' done c member
    rw [List.foldlM_cons] at done
    obtain ⟨middle,first,rest⟩ := bind_ok done
    rcases List.mem_cons.mp member with rfl | later
    · exact run_invariant (fun _ d _ _ holds step => kept _ _ d _ holds step) (made _ _ _ first) rest
    · exact ih rest c later

end
end Register
