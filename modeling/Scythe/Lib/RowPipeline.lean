import Mathlib.Data.List.Dedup

-- What becomes of the rows of a SELECT after they are formed: the clauses that
-- drop some of them, one after the other.
namespace RowPipeline

-- TOP and FETCH count rows or hundredths of all rows, and may keep the rows that
-- are equal in order to the last one kept.
structure Quota where
  quantity : Nat
  percent : Bool
  withTies : Bool

section
variable {ω : Type}

def Quota.count (quota : Quota) (total : Nat) : Nat :=
  if quota.percent then (total * quota.quantity + 99) / 100 else quota.quantity

def Quota.ties (quota : Quota) (same : ω → ω → Bool) (kept dropped : List ω) : List ω :=
  match kept.getLast? with
  | some last => if quota.withTies then dropped.takeWhile (same last) else []
  | none => []

def keep (same : ω → ω → Bool) : Option Quota → List ω → List ω
  | none,rows => rows
  | some quota,rows =>
    let n := quota.count rows.length
    rows.take n ++ quota.ties same (rows.take n) (rows.drop n)

structure Tail (ω : Type) where
  qualify : List ω → ω → Bool
  distinct : Bool
  arrange : List ω → List ω
  arrange_perm : ∀ rows,(arrange rows).Perm rows
  same : ω → ω → Bool
  top : Option Quota
  offset : Nat
  limit : Option Nat
  fetch : Option Quota

def takeLimit : Option Nat → List ω → List ω
  | none,rows => rows
  | some n,rows => rows.take n

def Tail.rows [DecidableEq ω] (tail : Tail ω) (rows : List ω) : List ω :=
  let qualified := rows.filter (tail.qualify rows)
  let distinct := if tail.distinct then qualified.dedup else qualified
  let topped := keep tail.same tail.top (tail.arrange distinct)
  keep tail.same tail.fetch (takeLimit tail.limit (topped.drop tail.offset))

def Counts (quota : Option Quota) : Prop := ∀ q ∈ quota,q.quantity ≠ 0

-- No clause that counts rows counts none, and none are passed over.
structure Tail.Uncut (tail : Tail ω) : Prop where
  top : Counts tail.top
  offset : tail.offset = 0
  limit : tail.limit ≠ some 0
  fetch : Counts tail.fetch

@[simp] theorem keep_nil (same : ω → ω → Bool) (quota : Option Quota) : keep same quota [] = [] := by
  cases quota <;> simp [keep,Quota.ties]

theorem Quota.count_one (quota : Quota) : quota.count 1 = 0 ↔ quota.quantity = 0 := by
  unfold Quota.count
  split <;> omega

theorem keep_single {quota : Option Quota} (counts : Counts quota) (same : ω → ω → Bool) (row : ω) :
    keep same quota [row] = [row] := by
  cases quota with
  | none => rfl
  | some quota =>
    have some' : quota.count 1 ≠ 0 := fun none => counts quota rfl (quota.count_one.mp none)
    obtain ⟨n,taken⟩ := Nat.exists_eq_succ_of_ne_zero some'
    simp [keep,Quota.ties,taken]

theorem keep_none {quota : Option Quota} (none' : ¬Counts quota) (same : ω → ω → Bool) (row : ω) :
    keep same quota [row] = [] := by
  cases quota with
  | none => exact absurd (fun _ none => by cases none) none'
  | some quota =>
    have zero : quota.count 1 = 0 := by
      rw [quota.count_one]
      by_contra counts
      exact none' fun q same => Option.some.inj same ▸ counts
    simp [keep,Quota.ties,zero]

@[simp] theorem takeLimit_nil (limit : Option Nat) : takeLimit limit ([] : List ω) = [] := by
  cases limit <;> simp [takeLimit]

theorem takeLimit_single {limit : Option Nat} (some' : limit ≠ some 0) (row : ω) : takeLimit limit [row] = [row] := by
  cases limit with
  | none => rfl
  | some n =>
    obtain ⟨m,rfl⟩ := Nat.exists_eq_succ_of_ne_zero fun zero : n = 0 => some' (congrArg some zero)
    simp [takeLimit]

variable [DecidableEq ω]

@[simp] theorem Tail.rows_nil (tail : Tail ω) : tail.rows [] = [] := by
  have empty : tail.arrange [] = [] := List.perm_nil.mp (tail.arrange_perm [])
  simp [Tail.rows,empty]

theorem Tail.rows_qualified (tail : Tail ω) {row : ω} (qualified : tail.qualify [row] row) :
    tail.rows [row] =
      keep tail.same tail.fetch (takeLimit tail.limit ((keep tail.same tail.top [row]).drop tail.offset)) := by
  have alone : tail.arrange [row] = [row] := List.perm_singleton.mp (tail.arrange_perm [row])
  have once : [row].dedup = [row] := rfl
  simp only [Tail.rows,List.filter_cons,qualified,if_true,List.filter_nil,once,ite_self,alone]

theorem Tail.rows_kept (tail : Tail ω) {row : ω} (qualified : tail.qualify [row] row) (uncut : tail.Uncut) :
    tail.rows [row] = [row] := by
  rw [tail.rows_qualified qualified,keep_single uncut.top,uncut.offset,List.drop_zero,takeLimit_single uncut.limit,
    keep_single uncut.fetch]

theorem Tail.rows_cut (tail : Tail ω) {row : ω} (cut : ¬(tail.qualify [row] row ∧ tail.Uncut)) : tail.rows [row] = [] := by
  by_cases qualified : tail.qualify [row] row
  · rw [tail.rows_qualified qualified]
    by_cases top : Counts tail.top
    · rw [keep_single top]
      by_cases offset : tail.offset = 0
      · rw [offset,List.drop_zero]
        by_cases limit : tail.limit = some 0
        · rw [limit]
          exact keep_nil _ _
        · rw [takeLimit_single limit]
          exact keep_none (fun fetch => cut ⟨qualified,top,offset,limit,fetch⟩) _ _
      · rw [List.drop_eq_nil_of_le (Nat.one_le_iff_ne_zero.mpr offset),takeLimit_nil,keep_nil]
    · rw [keep_none top,List.drop_nil,takeLimit_nil,keep_nil]
  · have empty : tail.arrange [] = [] := List.perm_nil.mp (tail.arrange_perm [])
    simp [Tail.rows,qualified,empty]

theorem Tail.one_row_iff (tail : Tail ω) (row : ω) :
    (tail.rows [row]).length = 1 ↔ tail.qualify [row] row ∧ tail.Uncut := by
  constructor
  · intro one
    by_contra cut
    rw [tail.rows_cut cut] at one
    cases one
  · rintro ⟨qualified,uncut⟩
    rw [tail.rows_kept qualified uncut]
    rfl

end
end RowPipeline
