import Mathlib.Data.List.TakeWhile

-- Reading one item after another from a row of tokens. Where an item fails, reading
-- goes on at the next stop.
namespace Recovery

-- A reader of one item says how many tokens it went through, also where it fails.
structure Grammar (α σ ε : Type) where
  blank : α → Bool
  stop : α → Bool
  blanks : ∀ a,stop a = true → blank a = true
  read : List α → Except ε σ × Nat
  advances : ∀ {start item n},read start = (.ok item,n) → 0 < n

-- What was read, and the tokens from its first one on.
structure Attempt (α σ ε : Type) where
  start : List α
  result : Except ε σ

section
variable {α σ ε : Type} (grammar : Grammar α σ ε)

def begin (rest : List α) : List α := rest.dropWhile grammar.blank

-- The first stop of an item, and the first one after what was read of it.
def ownStop (start : List α) : List α := start.dropWhile fun a => !grammar.stop a
def nextStop (start : List α) (n : Nat) : List α := ownStop grammar (start.drop n)

-- Every item that succeeds or fails, one after another, each failure skipped up to
-- the next stop from wherever the reader gave up.
def attemptsFrom : Nat → List α → List (Attempt α σ ε)
  | 0,_ => []
  | fuel + 1,rest =>
    if begin grammar rest = [] then [] else
    match grammar.read (begin grammar rest) with
    | (.ok item,n) => ⟨begin grammar rest,.ok item⟩ :: attemptsFrom fuel ((begin grammar rest).drop n)
    | (.error failure,n) => ⟨begin grammar rest,.error failure⟩ :: attemptsFrom fuel (nextStop grammar (begin grammar rest) n)

-- The items of a row of tokens, where no failure goes beyond its own stop.
inductive Isolated : List α → List (Attempt α σ ε) → Prop
  | done {rest : List α} (none : begin grammar rest = []) : Isolated rest []
  | read {rest start : List α} {item : σ} {n : Nat} {later : List (Attempt α σ ε)} (begins : begin grammar rest = start)
      (some : start ≠ []) (is : grammar.read start = (.ok item,n)) (further : Isolated (start.drop n) later) :
      Isolated rest (⟨start,.ok item⟩ :: later)
  | failed {rest start : List α} {failure : ε} {n : Nat} {later : List (Attempt α σ ε)} (begins : begin grammar rest = start)
      (some : start ≠ []) (is : grammar.read start = (.error failure,n)) (further : Isolated (ownStop grammar start) later) :
      Isolated rest (⟨start,.error failure⟩ :: later)

-- A failure that leaves the item after it where it begins.
def InTime (start : List α) (n : Nat) : Prop := begin grammar (nextStop grammar start n) = begin grammar (ownStop grammar start)

variable {grammar}

theorem Isolated.moved {rest other : List α} {attempts : List (Attempt α σ ε)} (isolated : Isolated grammar rest attempts)
    (same : begin grammar rest = begin grammar other) : Isolated grammar other attempts := by
  cases isolated with
  | done none => exact .done (same ▸ none)
  | read begins some is further => exact .read (same ▸ begins) some is further
  | failed begins some is further => exact .failed (same ▸ begins) some is further

theorem Isolated.unique {rest : List α} {attempts others : List (Attempt α σ ε)} (isolated : Isolated grammar rest attempts)
    (other : Isolated grammar rest others) : attempts = others := by
  induction isolated generalizing others with
  | done none =>
    cases other with
    | done => rfl
    | read begins some => exact absurd (begins.symm.trans none) some
    | failed begins some => exact absurd (begins.symm.trans none) some
  | read begins some is _ ih =>
    cases other with
    | done none => exact absurd (begins.symm.trans none) some
    | read begins' _ is' further =>
      cases begins.symm.trans begins'
      cases is.symm.trans is'
      rw [ih further]
    | failed begins' _ is' =>
      cases begins.symm.trans begins'
      cases is.symm.trans is'
  | failed begins some is _ ih =>
    cases other with
    | done none => exact absurd (begins.symm.trans none) some
    | read begins' _ is' =>
      cases begins.symm.trans begins'
      cases is.symm.trans is'
    | failed begins' _ is' further =>
      cases begins.symm.trans begins'
      cases is.symm.trans is'
      rw [ih further]

theorem begin_length (grammar : Grammar α σ ε) (rest : List α) : (begin grammar rest).length ≤ rest.length := (List.dropWhile_suffix _).length_le

theorem begin_written {rest : List α} (some : begin grammar rest ≠ []) :
    ∃ a more,begin grammar rest = a :: more ∧ grammar.stop a = false := by
  have opens := List.head_dropWhile_not grammar.blank some
  cases found : begin grammar rest with
  | nil => exact absurd found some
  | cons a more =>
    refine ⟨a,more,rfl,?_⟩
    rw [Bool.eq_false_iff]
    intro stop
    have first : (rest.dropWhile grammar.blank).head some = a := by
      have found' : rest.dropWhile grammar.blank = a :: more := found
      simp only [found',List.head_cons]
    rw [first,grammar.blanks a stop] at opens
    cases opens

theorem read_shorter {start : List α} {item : σ} {n : Nat} (some : start ≠ []) (is : grammar.read start = (.ok item,n)) :
    (start.drop n).length < start.length := by
  have advanced := grammar.advances is
  have positive := List.length_pos_iff.mpr some
  rw [List.length_drop]
  omega

theorem nextStop_shorter {rest : List α} (some : begin grammar rest ≠ []) (n : Nat) :
    (nextStop grammar (begin grammar rest) n).length < (begin grammar rest).length := by
  obtain ⟨a,more,starts,unstopped⟩ := begin_written some
  rw [starts]
  have left : (ownStop grammar ((a :: more).drop n)).length ≤ ((a :: more).drop n).length := (List.dropWhile_suffix _).length_le
  cases n with
  | zero =>
    have skipped : nextStop grammar (a :: more) 0 = ownStop grammar more := by
      unfold nextStop ownStop
      rw [List.drop_zero]
      exact List.dropWhile_cons_of_pos (by simp [unstopped])
    rw [skipped]
    exact Nat.lt_succ_of_le (List.dropWhile_suffix _).length_le
  | succ n =>
    rw [List.drop_succ_cons,List.length_drop] at left
    unfold nextStop
    rw [List.drop_succ_cons,List.length_cons]
    omega

theorem isolated_total (grammar : Grammar α σ ε) (rest : List α) : ∃ attempts,Isolated grammar rest attempts := by
  induction size : rest.length using Nat.strongRecOn generalizing rest with
  | ind size ih =>
    subst size
    by_cases written : begin grammar rest = []
    · exact ⟨[],.done written⟩
    · have within := begin_length grammar rest
      cases is : grammar.read (begin grammar rest) with
      | mk result n =>
        cases result with
        | ok item =>
          have shorter := read_shorter written is
          obtain ⟨later,further⟩ := ih _ (shorter.trans_le within) _ rfl
          exact ⟨_,.read rfl written is further⟩
        | error failure =>
          have shorter := nextStop_shorter written 0
          obtain ⟨later,further⟩ := ih _ (shorter.trans_le within) (nextStop grammar (begin grammar rest) 0) rfl
          exact ⟨_,.failed rfl written is further⟩

-- What reading attempts where failures are in time is what there is.
theorem attempts_isolated {fuel : Nat} {rest : List α} (enough : rest.length ≤ fuel)
    (timely : ∀ attempts,Isolated grammar rest attempts → ∀ attempt ∈ attempts,∀ failure n,
      grammar.read attempt.start = (.error failure,n) → InTime grammar attempt.start n) :
    Isolated grammar rest (attemptsFrom grammar fuel rest) := by
  induction fuel generalizing rest with
  | zero =>
    have empty := List.eq_nil_of_length_eq_zero (Nat.le_zero.mp enough)
    rw [empty]
    exact .done rfl
  | succ fuel ih =>
    have within := begin_length grammar rest
    rw [attemptsFrom]
    split
    · rename_i none
      exact .done none
    rename_i written
    cases is : grammar.read (begin grammar rest) with
    | mk result n =>
      cases result with
      | ok item =>
        have shorter := read_shorter written is
        refine .read rfl written is (ih (by omega) ?_)
        intro attempts isolated attempt member
        exact timely _ (.read rfl written is isolated) attempt (List.mem_cons_of_mem _ member)
      | error failure =>
        have shorter := nextStop_shorter written n
        have resumed : InTime grammar (begin grammar rest) n := by
          obtain ⟨later,further⟩ := isolated_total grammar (ownStop grammar (begin grammar rest))
          exact timely _ (.failed rfl written is further) _ List.mem_cons_self failure n is
        have tail : Isolated grammar (nextStop grammar (begin grammar rest) n)
            (attemptsFrom grammar fuel (nextStop grammar (begin grammar rest) n)) := by
          apply ih (by omega)
          intro attempts isolated attempt member
          exact timely _ (.failed rfl written is (isolated.moved resumed)) attempt (List.mem_cons_of_mem _ member)
        exact .failed rfl written is (tail.moved resumed)

theorem attempts_first {fuel : Nat} {rest other : List α} (enough : rest.length ≤ fuel)
    (isolated : Isolated grammar other (attemptsFrom grammar fuel rest)) : begin grammar rest = begin grammar other := by
  cases fuel with
  | zero =>
    have empty := List.eq_nil_of_length_eq_zero (Nat.le_zero.mp enough)
    cases isolated with
    | done none =>
      rw [none,empty]
      rfl
  | succ fuel =>
    rw [attemptsFrom] at isolated
    split at isolated
    · rename_i none
      cases isolated with
      | done none' => rw [none,none']
    · split at isolated
      · cases isolated with
        | read begins => exact begins.symm
      · cases isolated with
        | failed begins => exact begins.symm

theorem attempts_timely {fuel : Nat} {rest : List α} (enough : rest.length ≤ fuel)
    (isolated : Isolated grammar rest (attemptsFrom grammar fuel rest)) :
    ∀ attempt ∈ attemptsFrom grammar fuel rest,∀ failure n,
      grammar.read attempt.start = (.error failure,n) → InTime grammar attempt.start n := by
  induction fuel generalizing rest with
  | zero =>
    intro attempt member
    cases member
  | succ fuel ih =>
    have within := begin_length grammar rest
    rw [attemptsFrom] at isolated ⊢
    split at isolated
    · rename_i none
      rw [if_pos none]
      intro attempt member
      cases member
    rename_i written
    rw [if_neg written]
    cases is : grammar.read (begin grammar rest) with
    | mk result n =>
      rw [is] at isolated
      cases result with
      | ok item =>
        have shorter := read_shorter written is
        cases isolated with
        | read _ _ is' further =>
          cases is.symm.trans is'
          intro attempt member failure m failed
          rcases List.mem_cons.mp member with rfl | later
          · cases is.symm.trans failed
          · exact ih (by omega) further attempt later failure m failed
      | error failure =>
        have shorter := nextStop_shorter written n
        cases isolated with
        | failed _ _ is' further =>
          have resumed := attempts_first (by omega) further
          intro attempt member failure' m failed
          rcases List.mem_cons.mp member with rfl | later
          · cases is.symm.trans failed
            exact resumed
          · exact ih (by omega) (further.moved resumed.symm) attempt later failure' m failed

-- Reading keeps to the items just if every failure of one is in time.
theorem attempts_isolated_iff (grammar : Grammar α σ ε) {fuel : Nat} {rest : List α} (enough : rest.length ≤ fuel) :
    Isolated grammar rest (attemptsFrom grammar fuel rest) ↔
      ∀ attempts,Isolated grammar rest attempts → ∀ attempt ∈ attempts,∀ failure n,
        grammar.read attempt.start = (.error failure,n) → InTime grammar attempt.start n := by
  constructor
  · intro isolated attempts other
    rw [← isolated.unique other]
    exact attempts_timely enough isolated
  · exact attempts_isolated enough

variable (grammar)

-- The first token that is written is a stop, or there is none.
def Ended (rest : List α) : Prop :=
  ∀ a ∈ (rest.dropWhile fun a => grammar.blank a && !grammar.stop a).head?,grammar.stop a = true

-- Items that all succeed, each with a stop before the next.
inductive Delimited : List α → List σ → Prop
  | done {rest : List α} (none : begin grammar rest = []) : Delimited rest []
  | next {rest start : List α} {item : σ} {n : Nat} {items : List σ} (begins : begin grammar rest = start)
      (some : start ≠ []) (is : grammar.read start = (.ok item,n)) (ended : Ended grammar (start.drop n))
      (further : Delimited (start.drop n) items) : Delimited rest (item :: items)

variable {grammar}

-- All that is there succeeds.
theorem Delimited.attempts {rest : List α} {items : List σ} (delimited : Delimited grammar rest items) {fuel : Nat}
    (enough : rest.length ≤ fuel) : (attemptsFrom grammar fuel rest).map (·.result) = items.map .ok := by
  induction delimited generalizing fuel with
  | done none =>
    cases fuel with
    | zero => rfl
    | succ fuel => rw [attemptsFrom,if_pos none]; rfl
  | @next rest start item n items begins some is ended further ih =>
    subst begins
    have within := begin_length grammar rest
    have positive := List.length_pos_iff.mpr some
    cases fuel with
    | zero => omega
    | succ fuel =>
      have shorter := read_shorter some is
      rw [attemptsFrom,if_neg some,is]
      dsimp only
      rw [List.map_cons,List.map_cons,ih (by omega)]

end

end Recovery
