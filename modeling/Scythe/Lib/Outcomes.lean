import Mathlib.Data.List.Forall2

-- The members of a list taken through one check after another, up to the first that
-- fails, and the first two of a list that share a key.
namespace Outcomes

variable {α β κ ε : Type}

def Each (f : α → Except ε β) : List α → List β → Prop := List.Forall₂ fun a b => f a = .ok b

theorem ok_bind (a : α) (f : α → Except ε β) : (Except.ok a >>= f) = f a := rfl

theorem mapError_ok {ε' : Type} {x : Except ε α} {told : ε → ε'} {a : α} : x.mapError told = .ok a ↔ x = .ok a := by
  cases x <;> simp [Except.mapError]

theorem bind_total {x : Except ε α} {f : α → Except ε β} (first : ∃ a,x = .ok a)
    (rest : ∀ a,x = .ok a → ∃ b,f a = .ok b) : ∃ b,(x >>= f) = .ok b := by
  obtain ⟨a,is⟩ := first
  obtain ⟨b,next⟩ := rest a is
  exact ⟨b,by rw [is]; exact next⟩

theorem mapM_cons_eq (f : α → Except ε β) (a : α) (as : List α) :
    (a :: as).mapM f = (f a).bind fun b => (as.mapM f).map fun bs => b :: bs := by
  rw [List.mapM_cons]
  cases f a with
  | error e => rfl
  | ok b => cases as.mapM f <;> rfl

theorem mapM_ok {f : α → Except ε β} {as : List α} {bs : List β} : as.mapM f = .ok bs ↔ Each f as bs := by
  induction as generalizing bs with
  | nil =>
    constructor
    · intro done
      cases done
      exact .nil
    · intro each
      cases each
      rfl
  | cons a as ih =>
    rw [mapM_cons_eq]
    constructor
    · intro done
      cases here : f a with
      | error e => rw [here] at done; cases done
      | ok b =>
        cases later : as.mapM f with
        | error e => rw [here,later] at done; cases done
        | ok others =>
          rw [here,later] at done
          cases done
          exact .cons here (ih.mp later)
    · intro each
      cases each with
      | cons here later =>
        rw [here,ih.mpr later]
        rfl

-- The first member that fails tells why.
theorem mapM_refused {f : α → Except ε β} {as : List α} {e : ε} : as.mapM f = .error e ↔
    ∃ before a after,as = before ++ a :: after ∧ (∃ bs,Each f before bs) ∧ f a = .error e := by
  induction as with
  | nil =>
    constructor
    · intro failed
      cases failed
    · rintro ⟨before,a,after,is,-⟩
      exact absurd is (by simp)
  | cons a as ih =>
    rw [mapM_cons_eq]
    constructor
    · intro failed
      cases here : f a with
      | error other =>
        rw [here] at failed
        cases failed
        exact ⟨[],a,as,rfl,⟨[],.nil⟩,here⟩
      | ok b =>
        cases later : as.mapM f with
        | ok others => rw [here,later] at failed; cases failed
        | error other =>
          rw [here,later] at failed
          cases failed
          obtain ⟨before,c,after,rfl,⟨bs,each⟩,refused⟩ := ih.mp later
          exact ⟨a :: before,c,after,rfl,⟨b :: bs,.cons here each⟩,refused⟩
    · rintro ⟨before,c,after,is,⟨bs,each⟩,refused⟩
      cases each with
      | nil =>
        cases is
        rw [refused]
        rfl
      | cons here each =>
        cases is
        rw [here,ih.mpr ⟨_,c,after,rfl,⟨_,each⟩,refused⟩]
        rfl

theorem each_append {f : α → Except ε β} {as others : List α} {rs : List β} :
    Each f (as ++ others) rs ↔ ∃ bs cs,rs = bs ++ cs ∧ Each f as bs ∧ Each f others cs := by
  constructor
  · intro each
    induction as generalizing rs with
    | nil => exact ⟨[],rs,rfl,.nil,each⟩
    | cons a as ih =>
      cases each with
      | cons here later =>
        obtain ⟨bs,cs,rfl,first,second⟩ := ih later
        exact ⟨_ :: bs,cs,rfl,.cons here first,second⟩
  · rintro ⟨bs,cs,rfl,first,second⟩
    exact List.rel_append first second

theorem each_perm {f : α → Except ε β} {as others : List α} {bs : List β} (perm : as.Perm others) (each : Each f as bs) :
    ∃ cs,bs.Perm cs ∧ Each f others cs := by
  induction perm generalizing bs with
  | nil => exact ⟨bs,List.Perm.refl bs,each⟩
  | cons a _ ih =>
    cases each with
    | cons here each =>
      obtain ⟨cs,perm,others⟩ := ih each
      exact ⟨_ :: cs,perm.cons _,.cons here others⟩
  | swap a b as =>
    cases each with
    | cons first each =>
      cases each with
      | cons second each => exact ⟨_,List.Perm.swap _ _ _,.cons second (.cons first each)⟩
  | trans _ _ ih ih' =>
    obtain ⟨cs,perm,each⟩ := ih each
    obtain ⟨ds,perm',others⟩ := ih' each
    exact ⟨ds,perm.trans perm',others⟩

theorem each_total {f : α → Except ε β} {as : List α} : (∃ bs,Each f as bs) ↔ ∀ a ∈ as,∃ b,f a = .ok b := by
  induction as with
  | nil => exact ⟨fun _ a member => absurd member List.not_mem_nil,fun _ => ⟨[],.nil⟩⟩
  | cons a as ih =>
    rw [List.forall_mem_cons,← ih]
    constructor
    · rintro ⟨bs,each⟩
      cases each with
      | cons here later => exact ⟨⟨_,here⟩,_,later⟩
    · rintro ⟨⟨b,here⟩,bs,later⟩
      exact ⟨b :: bs,.cons here later⟩

theorem each_filterMap {f : α → Except ε β} {as : List α} {bs : List β} (each : Each f as bs) :
    as.filterMap (fun a => (f a).toOption) = bs := by
  induction each with
  | nil => rfl
  | cons here _ ih => rw [List.filterMap_cons_some (by rw [here]; rfl),ih]

-- Something is among the results exactly where what brings it about is among the members.
theorem each_any {f : α → Except ε (List β)} {as : List α} {bs : List (List β)} {P : β → Prop} {Q : α → Prop}
    (each : Each f as bs) (any : ∀ a b,f a = .ok b → ((∃ x ∈ b,P x) ↔ Q a)) : (∃ x ∈ bs.flatten,P x) ↔ ∃ a ∈ as,Q a := by
  induction each with
  | nil => simp
  | cons here _ ih =>
    rw [List.flatten_cons]
    simp only [List.mem_append,List.mem_cons,or_and_right,exists_or,exists_eq_left]
    rw [ih,any _ _ here]

theorem foldlM_total {σ : Type} {step : σ → α → Except ε σ} {as : List α} (each : ∀ s,∀ a ∈ as,∃ s',step s a = .ok s')
    (s : σ) : ∃ s',as.foldlM step s = .ok s' := by
  induction as generalizing s with
  | nil => exact ⟨s,rfl⟩
  | cons a as ih =>
    obtain ⟨middle,first⟩ := each s a List.mem_cons_self
    obtain ⟨last,rest⟩ := ih (fun s b member => each s b (List.mem_cons_of_mem _ member)) middle
    exact ⟨last,by rw [List.foldlM_cons,first]; exact rest⟩

-- The first two members of one key: no member before has the key of a later one, and
-- none between the two has theirs.
def FirstShared (key : α → κ) (items : List α) (a b : α) : Prop :=
  ∃ before between after,items = before ++ a :: (between ++ b :: after) ∧ key a = key b ∧
    (∀ c ∈ between,key c ≠ key a) ∧ before.Pairwise (fun c d => key c ≠ key d) ∧
      ∀ c ∈ before,∀ d ∈ a :: (between ++ b :: after),key c ≠ key d

theorem FirstShared.tail {key : α → κ} {first a b : α} {items : List α} (fresh : ∀ item ∈ items,key first ≠ key item)
    (shared : FirstShared key items a b) : FirstShared key (first :: items) a b := by
  obtain ⟨before,between,after,rfl,same,apart,pairwise,earlier⟩ := shared
  refine ⟨first :: before,between,after,rfl,same,apart,?_,?_⟩
  · exact .cons (fun c member => fresh c (List.mem_append_left _ member)) pairwise
  · intro c member d inside
    rcases List.mem_cons.mp member with rfl | old
    · exact fresh d (List.mem_append_right _ inside)
    · exact earlier c old d inside

theorem FirstShared.repeated {key : α → κ} {items : List α} {a b : α} (shared : FirstShared key items a b) :
    ¬(items.map key).Nodup := by
  obtain ⟨before,between,after,rfl,same,-⟩ := shared
  intro nodup
  rw [List.map_append,List.map_cons,List.map_append,List.map_cons] at nodup
  have inner := (List.nodup_append.mp nodup).2.1
  exact (List.nodup_cons.mp inner).1 (by rw [same]; simp)

theorem firstShared_map {key : β → κ} {f : α → β} {items : List α} {a b : β} :
    FirstShared key (items.map f) a b ↔ ∃ c d,FirstShared (key ∘ f) items c d ∧ a = f c ∧ b = f d := by
  constructor
  · rintro ⟨before,between,after,is,same,apart,pairwise,earlier⟩
    obtain ⟨before,rest,rfl,rfl,rest_is⟩ := List.map_eq_append_iff.mp is
    obtain ⟨c,later,rfl,rfl,later_is⟩ := List.map_eq_cons_iff.mp rest_is
    obtain ⟨between,last,rfl,rfl,last_is⟩ := List.map_eq_append_iff.mp later_is
    obtain ⟨d,after,rfl,rfl,rfl⟩ := List.map_eq_cons_iff.mp last_is
    refine ⟨c,d,⟨before,between,after,rfl,same,?_,?_,?_⟩,rfl,rfl⟩
    · exact fun item member => apart (f item) (List.mem_map_of_mem member)
    · exact (List.pairwise_map (f := f)).mp pairwise
    · intro item member other inside
      refine earlier (f item) (List.mem_map_of_mem member) (f other) ?_
      simpa only [List.map_append,List.map_cons] using List.mem_map_of_mem (f := f) inside
  · rintro ⟨c,d,⟨before,between,after,rfl,same,apart,pairwise,earlier⟩,rfl,rfl⟩
    refine ⟨before.map f,between.map f,after.map f,by simp,same,?_,?_,?_⟩
    · simpa using apart
    · exact (List.pairwise_map (f := f)).mpr pairwise
    · intro item member other inside
      obtain ⟨source,among,rfl⟩ := List.mem_map.mp member
      rw [← List.map_cons,← List.map_append,← List.map_cons] at inside
      obtain ⟨origin,within,rfl⟩ := List.mem_map.mp inside
      exact earlier source among origin within

end Outcomes
