import Mathlib.Data.List.Basic

-- A text cut into characters that stay and sites that are replaced. Where every
-- replacement starts with a mark that no site starts with, the text and what
-- becomes of it tell together where the sites are.
namespace Splice
variable {α σ : Type}

inductive Cut (α σ : Type) where
  | plain (a : α)
  | site (s : σ)
  deriving DecidableEq,Repr

def Cut.text (read : σ → List α) : Cut α σ → List α
  | .plain a => [a]
  | .site s => read s

def spelled (read : σ → List α) (cuts : List (Cut α σ)) : List α := cuts.flatMap (Cut.text read)

section
variable (read : σ → List α)

@[simp] theorem spelled_nil : spelled read [] = [] := rfl

@[simp] theorem spelled_plain (a : α) (cuts : List (Cut α σ)) :
    spelled read (.plain a :: cuts) = a :: spelled read cuts := rfl

@[simp] theorem spelled_site (s : σ) (cuts : List (Cut α σ)) :
    spelled read (.site s :: cuts) = read s ++ spelled read cuts := rfl

@[simp] theorem spelled_append (cuts others : List (Cut α σ)) :
    spelled read (cuts ++ others) = spelled read cuts ++ spelled read others := List.flatMap_append

@[simp] theorem spelled_plains (text : List α) : spelled read (text.map Cut.plain) = text := by
  induction text with
  | nil => rfl
  | cons a text ih => rw [List.map_cons,spelled_plain,ih]

end

def SitesIn (P : σ → Prop) (cuts : List (Cut α σ)) : Prop := ∀ s, .site s ∈ cuts → P s

theorem sitesIn_append {P : σ → Prop} {cuts others : List (Cut α σ)} (left : SitesIn P cuts)
    (right : SitesIn P others) : SitesIn P (cuts ++ others) := by
  intro s member
  rcases List.mem_append.mp member with here | there
  · exact left s here
  · exact right s there

theorem sitesIn_plains {P : σ → Prop} (text : List α) : SitesIn P (text.map (Cut.plain : α → Cut α σ)) := by
  intro s member
  obtain ⟨a,-,equal⟩ := List.mem_map.mp member
  cases equal

structure Recognizable (P : σ → Prop) (source target : σ → List α) (mark : α) : Prop where
  marked : ∀ s, P s → ∃ rest, target s = mark :: rest
  unmarked : ∀ s, P s → ∃ a rest, source s = a :: rest ∧ a ≠ mark
  determined : ∀ s s' r r' t t', P s → P s' → source s ++ r = source s' ++ r' → target s ++ t = target s' ++ t' → s = s'

variable {P : σ → Prop} {source target : σ → List α} {mark : α}

theorem plain_not_site (recognizable : Recognizable P source target mark) {a : α} {s : σ} (proper : P s)
    {r r' t t' : List α} (sources : a :: r = source s ++ r') (targets : a :: t = target s ++ t') : False := by
  obtain ⟨rest,opening⟩ := recognizable.marked s proper
  obtain ⟨b,more,first,differs⟩ := recognizable.unmarked s proper
  rw [opening,List.cons_append] at targets
  rw [first,List.cons_append] at sources
  have isMark := (List.cons.inj targets).1
  have isFirst := (List.cons.inj sources).1
  exact differs (isFirst.symm.trans isMark)

theorem cuts_unique (recognizable : Recognizable P source target mark) {cuts others : List (Cut α σ)}
    (left : SitesIn P cuts) (right : SitesIn P others)
    (sources : spelled source cuts = spelled source others)
    (targets : spelled target cuts = spelled target others) : cuts = others := by
  induction cuts generalizing others with
  | nil =>
    cases others with
    | nil => rfl
    | cons cut others =>
      cases cut with
      | plain a => cases sources
      | site s =>
        obtain ⟨a,rest,first,-⟩ := recognizable.unmarked s (right s List.mem_cons_self)
        rw [spelled_site,first] at sources
        cases sources
  | cons cut cuts ih =>
    have leftRest : SitesIn P cuts := fun s member => left s (List.mem_cons_of_mem _ member)
    cases cut with
    | plain a =>
      cases others with
      | nil => cases sources
      | cons other others =>
        have rightRest : SitesIn P others := fun s member => right s (List.mem_cons_of_mem _ member)
        cases other with
        | plain b =>
          have heads := List.cons.inj sources
          rw [heads.1,ih leftRest rightRest heads.2 (List.cons.inj targets).2]
        | site s => exact (plain_not_site recognizable (right s List.mem_cons_self) sources targets).elim
    | site s =>
      have proper := left s List.mem_cons_self
      cases others with
      | nil =>
        obtain ⟨a,rest,first,-⟩ := recognizable.unmarked s proper
        rw [spelled_site,first] at sources
        cases sources
      | cons other others =>
        have rightRest : SitesIn P others := fun s member => right s (List.mem_cons_of_mem _ member)
        cases other with
        | plain b => exact (plain_not_site recognizable proper sources.symm targets.symm).elim
        | site s' =>
          have same := recognizable.determined s s' _ _ _ _ proper (right s' List.mem_cons_self) sources targets
          subst same
          rw [spelled_site,spelled_site] at sources targets
          rw [ih leftRest rightRest (List.append_cancel_left sources) (List.append_cancel_left targets)]

-- There is a site after so much of the text.
def Finds (read : σ → List α) (cuts : List (Cut α σ)) (before : List α) : Prop :=
  ∃ earlier s later, cuts = earlier ++ .site s :: later ∧ spelled read earlier = before

section
variable {read : σ → List α}

theorem finds_nil (before : List α) : ¬Finds read [] before := by
  intro finds
  obtain ⟨earlier,s,later,equal,-⟩ := finds
  cases earlier <;> cases equal

theorem finds_plain {a : α} {cuts : List (Cut α σ)} {before : List α} :
    Finds read (.plain a :: cuts) before ↔ ∃ after, before = a :: after ∧ Finds read cuts after := by
  constructor
  · intro finds
    obtain ⟨earlier,s,later,equal,upTo⟩ := finds
    cases earlier with
    | nil => cases equal
    | cons cut earlier =>
      obtain ⟨rfl,rest⟩ := List.cons.inj equal
      exact ⟨spelled read earlier,upTo.symm,earlier,s,later,rest,rfl⟩
  · intro finds
    obtain ⟨after,rfl,earlier,s,later,rfl,rfl⟩ := finds
    exact ⟨.plain a :: earlier,s,later,rfl,rfl⟩

theorem finds_site {s : σ} {cuts : List (Cut α σ)} {before : List α} :
    Finds read (.site s :: cuts) before ↔
      before = [] ∨ ∃ after, before = read s ++ after ∧ Finds read cuts after := by
  constructor
  · intro finds
    obtain ⟨earlier,s',later,equal,upTo⟩ := finds
    cases earlier with
    | nil => exact Or.inl upTo.symm
    | cons cut earlier =>
      obtain ⟨rfl,rest⟩ := List.cons.inj equal
      exact Or.inr ⟨spelled read earlier,upTo.symm,earlier,s',later,rest,rfl⟩
  · intro finds
    rcases finds with rfl | ⟨after,rfl,earlier,s',later,rfl,rfl⟩
    · exact ⟨[],s,cuts,rfl,rfl⟩
    · exact ⟨.site s :: earlier,s',later,rfl,rfl⟩

theorem finds_append {cuts others : List (Cut α σ)} {before : List α} :
    Finds read (cuts ++ others) before ↔
      Finds read cuts before ∨ ∃ after, before = spelled read cuts ++ after ∧ Finds read others after := by
  constructor
  · intro finds
    obtain ⟨earlier,s,later,equal,rfl⟩ := finds
    rcases List.append_eq_append_iff.mp equal with ⟨more,whole,rest⟩ | ⟨more,whole,rest⟩
    · exact Or.inr ⟨spelled read more,by rw [whole,spelled_append],more,s,later,rest,rfl⟩
    · cases more with
      | nil =>
        rw [List.append_nil] at whole
        exact Or.inr ⟨[],by rw [whole,List.append_nil],[],s,later,rest.symm,rfl⟩
      | cons cut more =>
        obtain ⟨rfl,-⟩ := List.cons.inj rest
        exact Or.inl ⟨earlier,s,more,whole,rfl⟩
  · intro finds
    rcases finds with ⟨earlier,s,later,rfl,rfl⟩ | ⟨after,rfl,earlier,s,later,rfl,rfl⟩
    · exact ⟨earlier,s,later ++ others,by simp,rfl⟩
    · exact ⟨cuts ++ earlier,s,later,by simp,spelled_append read cuts earlier⟩

theorem finds_plains (text before : List α) : ¬Finds read (text.map .plain) before := by
  intro finds
  obtain ⟨earlier,s,later,equal,-⟩ := finds
  have member : .site s ∈ text.map (Cut.plain : α → Cut α σ) := by rw [equal]; simp
  obtain ⟨a,-,absurd⟩ := List.mem_map.mp member
  cases absurd

end

-- What stands behind a site tells where it ends.
def Delimited (P : σ → List α → Prop) (read : σ → List α) : List (Cut α σ) → Prop
  | [] => True
  | .plain _ :: cuts => Delimited P read cuts
  | .site s :: cuts => P s (spelled read cuts) ∧ Delimited P read cuts

structure Separable (P : σ → List α → Prop) (read : σ → List α) : Prop where
  some : ∀ s rest, P s rest → read s ≠ []
  determined : ∀ s s' rest rest', P s rest → P s' rest' → read s ++ rest = read s' ++ rest' → s = s'

-- Of one text cut twice, the places of the sites tell the cuts.
theorem places_unique {P : σ → List α → Prop} {read : σ → List α} (separable : Separable P read)
    {cuts others : List (Cut α σ)} (left : Delimited P read cuts) (right : Delimited P read others)
    (sources : spelled read cuts = spelled read others)
    (places : ∀ before, Finds read cuts before ↔ Finds read others before) : cuts = others := by
  induction cuts generalizing others with
  | nil =>
    cases others with
    | nil => rfl
    | cons cut others =>
      cases cut with
      | plain a => cases sources
      | site s =>
        have found := (places []).mpr (finds_site.mpr (Or.inl rfl))
        exact absurd found (finds_nil [])
  | cons cut cuts ih =>
    cases cut with
    | plain a =>
      cases others with
      | nil => cases sources
      | cons other others =>
        cases other with
        | plain b =>
          rw [spelled_plain,spelled_plain] at sources
          obtain ⟨same,rest⟩ := List.cons.inj sources
          subst same
          have rightRest : Delimited P read others := right
          have further : ∀ before, Finds read cuts before ↔ Finds read others before := by
            intro before
            have here := places (a :: before)
            simpa [finds_plain] using here
          rw [ih left rightRest rest further]
        | site s =>
          obtain ⟨after,absent,-⟩ := finds_plain.mp ((places []).mpr (finds_site.mpr (Or.inl rfl)))
          cases absent
    | site s =>
      obtain ⟨here,leftRest⟩ := left
      cases others with
      | nil => exact absurd ((places []).mp (finds_site.mpr (Or.inl rfl))) (finds_nil [])
      | cons other others =>
        cases other with
        | plain b =>
          obtain ⟨after,absent,-⟩ := finds_plain.mp ((places []).mp (finds_site.mpr (Or.inl rfl)))
          cases absent
        | site s' =>
          obtain ⟨there,rightRest⟩ := right
          have same := separable.determined s s' _ _ here there sources
          subst same
          have rest := List.append_cancel_left sources
          have further : ∀ before, Finds read cuts before ↔ Finds read others before := by
            intro before
            have nonempty : read s ++ before ≠ [] := List.append_ne_nil_of_left_ne_nil (separable.some s _ here) _
            have both := places (read s ++ before)
            simpa [finds_site,nonempty] using both
          rw [ih leftRest rightRest rest further]

-- So do the texts that come out where a mark no site starts with replaces them.
theorem marks_unique {P : σ → List α → Prop} {read : σ → List α} (separable : Separable P read) {mark : α}
    (unmarked : ∀ s rest, P s rest → ∃ a more, read s = a :: more ∧ a ≠ mark) {cuts others : List (Cut α σ)}
    (left : Delimited P read cuts) (right : Delimited P read others)
    (sources : spelled read cuts = spelled read others)
    (targets : spelled (fun _ => [mark]) cuts = spelled (fun _ => [mark]) others) : cuts = others := by
  induction cuts generalizing others with
  | nil =>
    cases others with
    | nil => rfl
    | cons cut others =>
      cases cut with
      | plain a => cases sources
      | site s =>
        rw [spelled_site] at sources
        exact absurd (List.append_eq_nil_iff.mp sources.symm).1 (separable.some s _ right.1)
  | cons cut cuts ih =>
    cases cut with
    | plain a =>
      cases others with
      | nil => cases sources
      | cons other others =>
        cases other with
        | plain b =>
          rw [spelled_plain,spelled_plain] at sources targets
          have rightRest : Delimited P read others := right
          rw [(List.cons.inj sources).1,ih left rightRest (List.cons.inj sources).2 (List.cons.inj targets).2]
        | site s =>
          obtain ⟨b,more,first,differs⟩ := unmarked s _ right.1
          rw [spelled_plain,spelled_site,first] at sources
          rw [spelled_plain,spelled_site] at targets
          exact absurd ((List.cons.inj sources).1.symm.trans (List.cons.inj targets).1) differs
    | site s =>
      obtain ⟨here,leftRest⟩ := left
      cases others with
      | nil => cases targets
      | cons other others =>
        cases other with
        | plain b =>
          obtain ⟨a,more,first,differs⟩ := unmarked s _ here
          rw [spelled_plain,spelled_site,first] at sources
          rw [spelled_plain,spelled_site] at targets
          exact absurd ((List.cons.inj sources).1.trans (List.cons.inj targets).1.symm) differs
        | site s' =>
          obtain ⟨there,rightRest⟩ := right
          have same := separable.determined s s' _ _ here there sources
          subst same
          have rest := List.append_cancel_left sources
          rw [ih leftRest rightRest rest (List.cons.inj targets).2]

-- A run of one kind of characters ends where another kind stands.
def Stops (p : α → Bool) (text : List α) : Prop := ∀ a ∈ text.head?, p a = false

theorem run_unique {p : α → Bool} {a b x y : List α} (left : ∀ c ∈ a, p c = true) (right : ∀ c ∈ b, p c = true)
    (stopsLeft : Stops p x) (stopsRight : Stops p y) (equal : a ++ x = b ++ y) : a = b ∧ x = y := by
  induction a generalizing b with
  | nil =>
    cases b with
    | nil => exact ⟨rfl,equal⟩
    | cons d b =>
      have stopped := stopsLeft d (by rw [show x = d :: (b ++ y) from equal]; rfl)
      rw [right d List.mem_cons_self] at stopped
      cases stopped
  | cons c a ih =>
    cases b with
    | nil =>
      have stopped := stopsRight c (by rw [show y = c :: (a ++ x) from equal.symm]; rfl)
      rw [left c List.mem_cons_self] at stopped
      cases stopped
    | cons d b =>
      obtain ⟨same,rest⟩ := List.cons.inj equal
      obtain ⟨runs,ends⟩ := ih (fun e member => left e (List.mem_cons_of_mem _ member))
        (fun e member => right e (List.mem_cons_of_mem _ member)) rest
      exact ⟨by rw [same,runs],ends⟩

end Splice
