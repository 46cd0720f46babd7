import Scythe.Lib.Splice

-- Texts with holes that are all filled with the same.
namespace Templates
open Splice

variable {α : Type} [DecidableEq α]

-- The places where a pattern has a hole, from left to right. The number says how much
-- of the last hole is still to be passed over.
def cutsWithin (hole : List α) : Nat → List α → List (Cut α Unit)
  | _,[] => []
  | skip + 1,_ :: cs => cutsWithin hole skip cs
  | 0,c :: cs =>
    if hole.isPrefixOf (c :: cs) then .site () :: cutsWithin hole (hole.length - 1) cs
    else .plain c :: cutsWithin hole 0 cs

def cuts (hole pattern : List α) : List (Cut α Unit) := cutsWithin hole 0 pattern

def filled (filling : List α) (cuts : List (Cut α Unit)) : List α := spelled (fun _ => filling) cuts

def holes (cuts : List (Cut α Unit)) : Nat := cuts.count (.site ())

omit [DecidableEq α] in
@[simp] theorem filled_nil (filling : List α) : filled filling [] = [] := rfl

omit [DecidableEq α] in
@[simp] theorem filled_plain (filling : List α) (c : α) (cuts : List (Cut α Unit)) :
    filled filling (.plain c :: cuts) = c :: filled filling cuts := rfl

omit [DecidableEq α] in
@[simp] theorem filled_site (filling : List α) (cuts : List (Cut α Unit)) :
    filled filling (.site () :: cuts) = filling ++ filled filling cuts := rfl

@[simp] theorem holes_plain (c : α) (cuts : List (Cut α Unit)) : holes (.plain c :: cuts) = holes cuts := by
  simp [holes]

@[simp] theorem holes_site (cuts : List (Cut α Unit)) : holes (.site () :: cuts) = holes cuts + 1 := by
  simp [holes]

-- A pattern is what it is with its holes in it.
theorem filled_hole {hole : List α} (nonempty : hole ≠ []) :
    ∀ (skip : Nat) (pattern : List α),skip ≤ pattern.length →
      filled hole (cutsWithin hole skip pattern) = pattern.drop skip := by
  intro skip pattern
  induction pattern generalizing skip with
  | nil => intro _; simp [cutsWithin]
  | cons c cs ih =>
    intro within
    cases skip with
    | succ skip => exact ih skip (by simpa using within)
    | zero =>
      unfold cutsWithin
      split
      · rename_i found
        obtain ⟨rest,is⟩ := List.isPrefixOf_iff_prefix.mp found
        obtain ⟨first,others,rfl⟩ := List.exists_cons_of_ne_nil nonempty
        obtain ⟨rfl,rfl⟩ := List.cons.inj is
        have after := ih others.length (by simp)
        simp only [List.length_cons,Nat.add_sub_cancel,filled_site,List.drop_zero]
        rw [after]
        simp
      · rw [filled_plain,ih 0 (Nat.zero_le _)]
        rfl

theorem filled_length (filling : List α) (cuts : List (Cut α Unit)) :
    (filled filling cuts).length + holes cuts = cuts.length + holes cuts * filling.length := by
  induction cuts with
  | nil => simp [holes]
  | cons cut cuts ih =>
    cases cut with
    | plain c =>
      rw [filled_plain,holes_plain,List.length_cons,List.length_cons]
      omega
    | site u =>
      rw [filled_site,holes_site,List.length_append,List.length_cons,Nat.add_mul,Nat.one_mul]
      omega

theorem holes_le (cuts : List (Cut α Unit)) : holes cuts ≤ cuts.length := List.count_le_length

theorem filled_plainly {filling other : List α} {cuts : List (Cut α Unit)} (none : holes cuts = 0) :
    filled filling cuts = filled other cuts := by
  induction cuts with
  | nil => rfl
  | cons cut cuts ih =>
    cases cut with
    | plain c => rw [filled_plain,filled_plain,ih (by simpa using none)]
    | site u => rw [holes_site] at none; cases none

-- A filling stays what it is only in the bare hole, or where there is no hole.
theorem filled_self {filling : List α} {cuts : List (Cut α Unit)} (nonempty : filling ≠ [])
    (same : filled filling cuts = filling) : cuts = [.site ()] ∨ holes cuts = 0 := by
  have size := filled_length filling cuts
  have within := holes_le cuts
  have long : 0 < filling.length := List.length_pos_iff.mpr nonempty
  rw [same] at size
  rcases Nat.eq_zero_or_pos (holes cuts) with none | some
  · exact .inr none
  · refine .inl ?_
    have one : holes cuts = 1 := by
      by_contra several
      have two : 2 * filling.length ≤ holes cuts * filling.length := Nat.mul_le_mul_right _ (by omega)
      omega
    have alone : cuts.length = 1 := by
      rw [one] at size
      omega
    obtain ⟨cut,rfl⟩ := List.length_eq_one_iff.mp alone
    cases cut with
    | plain c => simp [holes] at one
    | site u => rfl

theorem cutsWithin_over (hole : List α) (rest : List α) : cutsWithin hole rest.length rest = [] := by
  induction rest with
  | nil => rfl
  | cons c rest ih => exact ih

theorem cuts_hole {hole : List α} (nonempty : hole ≠ []) : cuts hole hole = [.site ()] := by
  obtain ⟨first,others,rfl⟩ := List.exists_cons_of_ne_nil nonempty
  unfold cuts cutsWithin
  rw [if_pos (List.isPrefixOf_iff_prefix.mpr (List.prefix_refl _)),List.length_cons,Nat.add_sub_cancel,cutsWithin_over]

omit [DecidableEq α] in
theorem filled_empty {cuts : List (Cut α Unit)} : filled [] cuts = [] ↔ ∀ cut ∈ cuts,cut = .site () := by
  induction cuts with
  | nil => simp
  | cons cut cuts ih =>
    cases cut with
    | plain c => simp
    | site s =>
      cases s
      simpa using ih

-- A pattern leaves a filling as it is where it is the hole, where it is the filling
-- itself, and where nothing is filled into nothing.
theorem filled_self_iff {hole filling : List α} (nonempty : hole ≠ []) (pattern : List α) :
    filled filling (cuts hole pattern) = filling ↔
      pattern = hole ∨ holes (cuts hole pattern) = 0 ∧ pattern = filling ∨
        filling = [] ∧ ∀ cut ∈ cuts hole pattern,cut = .site () := by
  have whole : filled hole (cuts hole pattern) = pattern := filled_hole nonempty 0 pattern (Nat.zero_le _)
  constructor
  · intro same
    by_cases empty : filling = []
    · subst empty
      exact .inr (.inr ⟨rfl,filled_empty.mp same⟩)
    · rcases filled_self empty same with bare | none
      · refine .inl ?_
        rw [← whole,bare,filled_site,filled_nil,List.append_nil]
      · refine .inr (.inl ⟨none,?_⟩)
        rw [← whole,filled_plainly none,same]
  · rintro (rfl | ⟨none,is⟩ | ⟨rfl,sites⟩)
    · rw [cuts_hole nonempty,filled_site,filled_nil,List.append_nil]
    · rw [filled_plainly none,whole,is]
    · exact filled_empty.mpr sites

end Templates
