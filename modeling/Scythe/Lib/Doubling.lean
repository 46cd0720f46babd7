import Scythe.Lib.Scanner

-- A text with one of its characters doubled. A reader that does not look out for that
-- character cuts it where it cuts the text.
namespace Doubling
open Scanner

section
variable (x : Char)

def double (c : Char) : List Char := if c = x then [x,x] else [c]
def doubled (cs : List Char) : List Char := cs.flatMap (double x)

@[simp] theorem doubled_nil : doubled x [] = [] := rfl

@[simp] theorem doubled_append (cs ds : List Char) : doubled x (cs ++ ds) = doubled x cs ++ doubled x ds := List.flatMap_append

@[simp] theorem doubled_self (cs : List Char) : doubled x (x :: cs) = x :: x :: doubled x cs := by
  simp [doubled,double]

end

variable {x : Char}

theorem doubled_other {c : Char} (differs : c ≠ x) (cs : List Char) : doubled x (c :: cs) = c :: doubled x cs := by
  simp [doubled,double,differs]

theorem doubled_absent {cs : List Char} (absent : x ∉ cs) : doubled x cs = cs := by
  induction cs with
  | nil => rfl
  | cons c cs ih =>
    rw [List.mem_cons,not_or] at absent
    rw [doubled_other (Ne.symm absent.1),ih absent.2]

theorem mem_doubled {c : Char} {cs : List Char} : c ∈ doubled x cs ↔ c ∈ cs := by
  have each (d : Char) : c ∈ double x d ↔ c = d := by
    unfold double
    split
    next same => simp [same]
    next => exact List.mem_singleton
  simp [doubled,each]

theorem doubled_head (cs : List Char) : (doubled x cs).head? = cs.head? := by
  cases cs with
  | nil => rfl
  | cons c cs =>
    by_cases same : c = x
    · subst same
      simp
    · rw [doubled_other same]
      rfl

theorem doubled_ne {cs : List Char} (present : cs ≠ []) : doubled x cs ≠ [] := by
  intro empty
  have head : (doubled x cs).head? = cs.head? := doubled_head cs
  rw [empty] at head
  exact present (List.head?_eq_none_iff.mp head.symm)

theorem takeWhile_doubled (p : Char → Bool) (cs : List Char) :
    (doubled x cs).takeWhile p = doubled x (cs.takeWhile p) := by
  induction cs with
  | nil => rfl
  | cons c cs ih =>
    by_cases same : c = x
    · subst same
      cases held : p c <;> simp [held,ih]
    · rw [doubled_other same]
      cases held : p c <;> simp [held,ih,doubled_other same]

theorem dropWhile_doubled (p : Char → Bool) (cs : List Char) :
    (doubled x cs).dropWhile p = doubled x (cs.dropWhile p) := by
  induction cs with
  | nil => rfl
  | cons c cs ih =>
    by_cases same : c = x
    · subst same
      cases held : p c <;> simp [held,ih]
    · rw [doubled_other same]
      cases held : p c <;> simp [held,ih,doubled_other same]

theorem isPrefixOf_doubled {opening : List Char} (absent : x ∉ opening) (cs : List Char) :
    opening.isPrefixOf? (doubled x cs) = (opening.isPrefixOf? cs).map (doubled x) := by
  induction opening generalizing cs with
  | nil => rfl
  | cons o opening ih =>
    rw [List.mem_cons,not_or] at absent
    cases cs with
    | nil => rfl
    | cons c cs =>
      by_cases same : c = x
      · subst same
        simp [List.isPrefixOf?,Ne.symm absent.1]
      · rw [doubled_other same]
        by_cases here : o = c
        · simp [List.isPrefixOf?,here,ih absent.2]
        · simp [List.isPrefixOf?,here]

-- Both parts of a text cut in two.
def both (x : Char) (parts : List Char × List Char) : List Char × List Char := (doubled x parts.1,doubled x parts.2)

theorem line_doubled (cs : List Char) : line (doubled x cs) = both x (line cs) :=
  Prod.ext (takeWhile_doubled _ _) (dropWhile_doubled _ _)

theorem quoted_inside {close c : Char} (inside : c ≠ close) (cs : List Char) :
    quoted close (c :: cs) = (c :: (quoted close cs).1,(quoted close cs).2) := by
  cases cs with
  | nil => rfl
  | cons d cs => rw [quoted,if_neg inside]

theorem quoted_closes {close : Char} {cs : List Char} (single : cs.head? ≠ some close) :
    quoted close (close :: cs) = ([close],cs) := by
  cases cs with
  | nil => rfl
  | cons d cs =>
    have differs : d ≠ close := by simpa using single
    rw [quoted,if_pos rfl,if_neg differs]

theorem quoted_doubled {close : Char} (other : close ≠ x) (cs : List Char) :
    quoted close (doubled x cs) = both x (quoted close cs) := by
  fun_induction quoted close cs with
  | case1 => rfl
  | case2 c =>
    by_cases same : c = x
    · subst same
      rw [doubled_self,quoted_inside other.symm,doubled_nil,quoted]
      simp [both]
    · rw [doubled_other same]
      simp [quoted,both,doubled_other same]
  | case3 cs text rest is ih =>
    rw [is] at ih
    rw [doubled_other other,doubled_other other,quoted,if_pos rfl,if_pos rfl,ih]
    simp [both,doubled_other other]
  | case4 d cs differs =>
    have single : (doubled x (d :: cs)).head? ≠ some close := by
      rw [doubled_head]
      simpa using differs
    rw [doubled_other other,quoted_closes single]
    simp [both,doubled_other other]
  | case5 c d cs inside text rest is ih =>
    rw [is] at ih
    by_cases same : c = x
    · subst same
      rw [doubled_self,quoted_inside inside,quoted_inside inside,ih]
      simp [both]
    · rw [doubled_other same,quoted_inside inside,ih]
      simp [both,doubled_other same]

theorem block_inside {depth : Nat} {c : Char} {cs : List Char} (opens : c = '/' → cs.head? ≠ some '*')
    (closes : c = '*' → cs.head? ≠ some '/') :
    block (depth + 1) (c :: cs) = (c :: (block (depth + 1) cs).1,(block (depth + 1) cs).2) := by
  rw [block]
  · rintro rest rfl rfl
    exact opens rfl rfl
  · rintro rest rfl rfl
    exact closes rfl rfl

theorem block_doubled (slash : '/' ≠ x) (star : '*' ≠ x) (depth : Nat) (cs : List Char) :
    block depth (doubled x cs) = both x (block depth cs) := by
  fun_induction block depth cs with
  | case1 =>
    rw [block]
    rfl
  | case2 depth positive =>
    cases depth with
    | zero => exact absurd rfl positive
    | succ depth => rfl
  | case3 depth cs text rest is ih =>
    rw [is] at ih
    rw [doubled_other slash,doubled_other star,block,ih]
    simp [both,doubled_other slash,doubled_other star]
  | case4 depth cs text rest is ih =>
    rw [is] at ih
    rw [doubled_other star,doubled_other slash,block,ih]
    simp [both,doubled_other slash,doubled_other star]
  | case5 depth c cs opens closes text rest is ih =>
    rw [is] at ih
    by_cases same : c = x
    · subst same
      rw [doubled_self,block_inside (fun equal => absurd equal.symm slash) (fun equal => absurd equal.symm star),
        block_inside (fun equal => absurd equal.symm slash) (fun equal => absurd equal.symm star),ih]
      simp [both]
    · have opens' : c = '/' → (doubled x cs).head? ≠ some '*' := by
        intro equal head
        rw [doubled_head] at head
        obtain ⟨rest,rfl⟩ := List.head?_eq_some_iff.mp head
        exact opens rest equal rfl
      have closes' : c = '*' → (doubled x cs).head? ≠ some '/' := by
        intro equal head
        rw [doubled_head] at head
        obtain ⟨rest,rfl⟩ := List.head?_eq_some_iff.mp head
        exact closes rest equal rfl
      rw [doubled_other same,block_inside opens' closes',ih]
      simp [both,doubled_other same]

theorem through_doubled {delimiter : List Char} (absent : x ∉ delimiter) (cs : List Char) :
    through delimiter (doubled x cs) = both x (through delimiter cs) := by
  induction cs with
  | nil => rfl
  | cons c cs ih =>
    have found := isPrefixOf_doubled absent (c :: cs)
    rw [through]
    by_cases same : c = x
    · subst same
      rw [doubled_self] at found ⊢
      rw [through,found]
      cases here : delimiter.isPrefixOf? (c :: cs) with
      | some rest => simp [both,doubled_absent absent]
      | none =>
        have none : delimiter.isPrefixOf? (c :: doubled c cs) = none := by
          cases delimiter with
          | nil => cases here
          | cons o delimiter =>
            have differs : o ≠ c := fun equal => absent (equal ▸ List.mem_cons_self)
            simp [List.isPrefixOf?,differs]
        rw [Option.map_none]
        dsimp only
        rw [through,none]
        dsimp only
        rw [ih]
        simp [both]
    · rw [doubled_other same] at found ⊢
      rw [through,found]
      cases here : delimiter.isPrefixOf? (c :: cs) with
      | some rest => simp [both,doubled_absent absent]
      | none =>
        rw [Option.map_none]
        dsimp only
        rw [ih]
        simp [both,doubled_other same]

variable {κ : Type}

def onSpan (x : Char) (span : κ × List Char) : κ × List Char := (span.1,doubled x span.2)

-- A reader that no doubled character leads astray.
structure Blind (x : Char) (read : Reader κ) : Prop where
  alike : ∀ cs,read (doubled x cs) = (read cs).map fun found => (found.1,both x found.2)
  skips : ∀ cs,read (x :: cs) = none

theorem flush_doubled (code : κ) (buffer : List Char) :
    flush code (doubled x buffer) = (flush code buffer).map (onSpan x) := by
  unfold flush
  by_cases empty : buffer = []
  · rw [empty]
    rfl
  · rw [if_neg empty,if_neg (doubled_ne empty)]
    rfl

theorem spansWithin_doubled {read : Reader κ} (splits : read.Splits) (blind : Blind x read) (code : κ)
    {fuel more : Nat} {buffer cs : List Char} (enough : cs.length ≤ fuel) (doubledEnough : (doubled x cs).length ≤ more) :
    spansWithin read code more (doubled x buffer) (doubled x cs) =
      (spansWithin read code fuel buffer cs).map (onSpan x) := by
  induction fuel generalizing more buffer cs with
  | zero =>
    have empty : cs = [] := List.eq_nil_of_length_eq_zero (by omega)
    subst empty
    cases more <;> exact flush_doubled code buffer
  | succ fuel ih =>
    cases cs with
    | nil => cases more <;> exact flush_doubled code buffer
    | cons c cs =>
      have alike := blind.alike (c :: cs)
      by_cases same : c = x
      · subst same
        rw [doubled_self,List.length_cons,List.length_cons] at doubledEnough
        obtain ⟨more,rfl⟩ : ∃ less,more = less + 2 := ⟨more - 2,by omega⟩
        rw [doubled_self,spansWithin,blind.skips,spansWithin,blind.skips,spansWithin,blind.skips]
        dsimp only
        have tail : spansWithin read code more (doubled c (buffer ++ [c])) (doubled c cs) =
            (spansWithin read code fuel (buffer ++ [c]) cs).map (onSpan c) := ih (by simpa using enough) (by omega)
        rw [← tail,doubled_append,doubled_self,doubled_nil,List.append_assoc]
        rfl
      · rw [doubled_other same] at alike doubledEnough ⊢
        rw [List.length_cons] at doubledEnough
        obtain ⟨more,rfl⟩ : ∃ less,more = less + 1 := ⟨more - 1,by omega⟩
        rw [spansWithin,alike,spansWithin]
        cases found : read (c :: cs) with
        | none =>
          have tail : spansWithin read code more (doubled x (buffer ++ [c])) (doubled x cs) =
              (spansWithin read code fuel (buffer ++ [c]) cs).map (onSpan x) := ih (by simpa using enough) (by omega)
          dsimp only [Option.map_none]
          rw [← tail,doubled_append,doubled_other same,doubled_nil]
        | some parts =>
          obtain ⟨kind,text,rest⟩ := parts
          have whole := splits.whole _ _ _ _ found
          have taken := splits.taken _ _ _ _ found
          have length := congrArg List.length whole
          have lengths := congrArg List.length (congrArg (doubled x) whole)
          have positive := List.length_pos_iff.mpr taken
          have positives : 0 < (doubled x text).length := List.length_pos_iff.mpr (doubled_ne taken)
          rw [List.length_append,List.length_cons] at length
          rw [List.length_cons] at enough
          rw [doubled_append,doubled_other same,List.length_append,List.length_cons] at lengths
          have tail : spansWithin read code more (doubled x []) (doubled x rest) =
              (spansWithin read code fuel [] rest).map (onSpan x) := ih (by omega) (by omega)
          dsimp only [Option.map_some,both]
          rw [flush_doubled,List.map_append,List.map_cons,← tail]
          rfl

theorem spans_doubled {read : Reader κ} (splits : read.Splits) (blind : Blind x read) (code : κ) (cs : List Char) :
    spans read code (doubled x cs) = (spans read code cs).map (onSpan x) := by
  have within : spansWithin read code (doubled x cs).length (doubled x []) (doubled x cs) =
      (spansWithin read code cs.length [] cs).map (onSpan x) :=
    spansWithin_doubled splits blind code (Nat.le_refl _) (Nat.le_refl _)
  exact within

theorem replicate_slide (n : Nat) (c : Char) (cs : List Char) :
    List.replicate n c ++ c :: cs = c :: (List.replicate n c ++ cs) := by
  induction n with
  | zero => rfl
  | succ n ih => rw [List.replicate_succ,List.cons_append,ih,List.cons_append]

-- A text against its double, so many of the characters ahead: what follows it makes up
-- for all of them.
theorem shifted {cs a b : List Char} : ∀ {ahead : Nat},cs ++ a = List.replicate ahead x ++ (doubled x cs ++ b) →
    0 < ahead ∨ x ∈ cs → ∃ more,a = List.replicate (more + 1) x ++ b := by
  induction cs with
  | nil =>
    intro ahead equal either
    have positive : 0 < ahead := either.resolve_right List.not_mem_nil
    exact ⟨ahead - 1,by rw [Nat.sub_add_cancel positive]; exact equal⟩
  | cons c cs ih =>
    intro ahead equal either
    by_cases same : c = x
    · subst same
      have counted : List.replicate ahead c ++ (doubled c (c :: cs) ++ b) =
          c :: (List.replicate (ahead + 1) c ++ (doubled c cs ++ b)) := by
        rw [doubled_self,List.cons_append,List.cons_append,replicate_slide,replicate_slide,List.replicate_succ,List.cons_append]
      rw [counted,List.cons_append] at equal
      exact ih (List.cons.inj equal).2 (.inl (Nat.succ_pos _))
    · cases ahead with
      | succ ahead =>
        rw [List.replicate_succ] at equal
        exact absurd (List.cons.inj equal).1 same
      | zero =>
        rw [doubled_other same] at equal
        have inside : x ∈ cs := by
          rcases either with absurd' | member
          · exact absurd absurd' (Nat.lt_irrefl 0)
          · exact (List.mem_cons.mp member).resolve_left (Ne.symm same)
        have rest : cs ++ a = List.replicate 0 x ++ (doubled x cs ++ b) := (List.cons.inj equal).2
        exact ih rest (.inr inside)

end Doubling
