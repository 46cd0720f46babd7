import Mathlib.Data.List.Nodup

-- Numbering the places of a traversal that may come by one place many times. A
-- place gets the next number when it is met and not yet in the table. A nested
-- traversal starts with an empty table, which is then added to the outer one.
namespace Numbering

inductive Visit (κ : Type) where
  | one (key : κ)
  | table (visits : List (Visit κ))

variable {κ μ : Type}

mutual

def Visit.keys : Visit κ → List κ
  | .one key => [key]
  | .table visits => keys visits

def keys : List (Visit κ) → List κ
  | [] => []
  | visit :: visits => visit.keys ++ keys visits

end

mutual

def Visit.filterMap (f : κ → Option μ) : Visit κ → List (Visit μ)
  | .one key => ((f key).map .one).toList
  | .table visits => [.table (filterMap f visits)]

-- The same traversal, of the places that `f` keeps.
def filterMap (f : κ → Option μ) : List (Visit κ) → List (Visit μ)
  | [] => []
  | visit :: visits => visit.filterMap f ++ filterMap f visits

end

@[simp] theorem Visit.keys_one (key : κ) : (Visit.one key).keys = [key] := rfl
@[simp] theorem Visit.keys_table (visits : List (Visit κ)) : (Visit.table visits).keys = Numbering.keys visits := rfl
@[simp] theorem keys_nil : keys ([] : List (Visit κ)) = [] := rfl
theorem keys_cons (visit : Visit κ) (visits : List (Visit κ)) : keys (visit :: visits) = visit.keys ++ keys visits := rfl

theorem Visit.filterMap_one (f : κ → Option μ) (key : κ) : (Visit.one key).filterMap f = ((f key).map .one).toList := rfl
theorem Visit.filterMap_table (f : κ → Option μ) (visits : List (Visit κ)) :
    (Visit.table visits).filterMap f = [.table (Numbering.filterMap f visits)] := rfl
@[simp] theorem filterMap_nil (f : κ → Option μ) : filterMap f [] = [] := rfl
theorem filterMap_cons (f : κ → Option μ) (visit : Visit κ) (visits : List (Visit κ)) :
    filterMap f (visit :: visits) = visit.filterMap f ++ filterMap f visits := rfl

theorem keys_append (first last : List (Visit κ)) : keys (first ++ last) = keys first ++ keys last := by
  induction first with
  | nil => rfl
  | cons visit first ih => simp only [List.cons_append,keys_cons,ih,List.append_assoc]

@[simp] theorem keys_one (key : κ) : keys [.one key] = [key] := by simp [keys_cons]
@[simp] theorem keys_table (visits : List (Visit κ)) : keys [.table visits] = keys visits := by
  simp [keys_cons]

theorem filterMap_append (f : κ → Option μ) (first last : List (Visit κ)) :
    filterMap f (first ++ last) = filterMap f first ++ filterMap f last := by
  induction first with
  | nil => rfl
  | cons visit first ih => simp only [List.cons_append,filterMap_cons,ih,List.append_assoc]

@[simp] theorem filterMap_table (f : κ → Option μ) (visits : List (Visit κ)) :
    filterMap f [.table visits] = [.table (filterMap f visits)] := by simp [filterMap_cons,Visit.filterMap_table]

theorem filterMap_one_some {f : κ → Option μ} (kept : f key = some key') :
    filterMap f [.one key] = [.one key'] := by
  simp [filterMap_cons,Visit.filterMap_one,kept]

theorem filterMap_one_none {f : κ → Option μ} (dropped : f key = none) : filterMap f [.one key] = [] := by
  simp [filterMap_cons,Visit.filterMap_one,dropped]

mutual

theorem Visit.keys_filterMap (f : κ → Option μ) : (visit : Visit κ) →
    keys (visit.filterMap f) = visit.keys.filterMap f
  | .one key => by cases h : f key <;> simp [Visit.filterMap_one,keys_cons,h]
  | .table visits => by simpa [Visit.filterMap_table,keys_cons] using keys_filterMap f visits

theorem keys_filterMap (f : κ → Option μ) : (visits : List (Visit κ)) →
    keys (filterMap f visits) = (keys visits).filterMap f
  | [] => rfl
  | visit :: visits => by
    simp only [filterMap_cons,keys_cons,keys_append,List.filterMap_append,Visit.keys_filterMap f visit,
      keys_filterMap f visits]

end

variable [DecidableEq κ]

mutual

def Visit.fresh (known : List κ) : Visit κ → List κ
  | .one key => if key ∈ known then [] else [key]
  | .table visits => fresh [] visits

-- The keys in the order of their numbers; one met again in a nested traversal
-- is numbered again.
def fresh (known : List κ) : List (Visit κ) → List κ
  | [] => []
  | visit :: visits => visit.fresh known ++ fresh (visit.fresh known ++ known) visits

end

theorem Visit.fresh_one (known : List κ) (key : κ) : (Visit.one key).fresh known = if key ∈ known then [] else [key] := rfl
theorem Visit.fresh_table (known : List κ) (visits : List (Visit κ)) :
    (Visit.table visits).fresh known = Numbering.fresh [] visits := rfl
@[simp] theorem fresh_nil (known : List κ) : fresh known [] = [] := rfl
theorem fresh_cons (known : List κ) (visit : Visit κ) (visits : List (Visit κ)) :
    fresh known (visit :: visits) = visit.fresh known ++ fresh (visit.fresh known ++ known) visits := rfl

-- The number that a table holds for a key is the last it was given.
def lastNumber : Int → List κ → κ → Option Int
  | _,[],_ => none
  | base,key :: rest,wanted =>
    (lastNumber (base + 1) rest wanted).or (if key = wanted then some (base + 1) else none)

@[simp] theorem lastNumber_nil (base : Int) (wanted : κ) : lastNumber base [] wanted = none := rfl
theorem lastNumber_cons (base : Int) (key : κ) (rest : List κ) (wanted : κ) : lastNumber base (key :: rest) wanted =
    (lastNumber (base + 1) rest wanted).or (if key = wanted then some (base + 1) else none) := rfl

theorem Visit.fresh_congr {left right : List κ} (same : ∀ key, key ∈ left ↔ key ∈ right) (visit : Visit κ) :
    visit.fresh left = visit.fresh right := by
  cases visit with
  | one key => simp [Visit.fresh_one,same key]
  | table visits => rfl

theorem fresh_congr {left right : List κ} (same : ∀ key, key ∈ left ↔ key ∈ right) (visits : List (Visit κ)) :
    fresh left visits = fresh right visits := by
  induction visits generalizing left right with
  | nil => rfl
  | cons visit visits ih =>
    have head := visit.fresh_congr same
    simp only [fresh_cons,head]
    congr 1
    exact ih fun key => by simp [same key]

theorem fresh_append (known : List κ) (first last : List (Visit κ)) :
    fresh known (first ++ last) = fresh known first ++ fresh (fresh known first ++ known) last := by
  induction first generalizing known with
  | nil => rfl
  | cons visit first ih =>
    simp only [List.cons_append,fresh_cons,ih,List.append_assoc]
    congr 2
    exact fresh_congr (fun key => by simp; tauto) last

@[simp] theorem fresh_one (known : List κ) (key : κ) :
    fresh known [.one key] = if key ∈ known then [] else [key] := by simp [fresh_cons,Visit.fresh_one]

@[simp] theorem fresh_table (known : List κ) (visits : List (Visit κ)) :
    fresh known [.table visits] = fresh [] visits := by simp [fresh_cons,Visit.fresh_table]

theorem lastNumber_append (base : Int) (first last : List κ) (wanted : κ) :
    lastNumber base (first ++ last) wanted =
      (lastNumber (base + first.length) last wanted).or (lastNumber base first wanted) := by
  induction first generalizing base with
  | nil => simp
  | cons key first ih =>
    simp only [List.cons_append,lastNumber_cons,ih,List.length_cons,Option.or_assoc]
    congr 2
    push_cast
    omega

theorem lastNumber_none {base : Int} {order : List κ} {wanted : κ} :
    lastNumber base order wanted = none ↔ wanted ∉ order := by
  induction order generalizing base with
  | nil => simp
  | cons key order ih =>
    simp only [lastNumber_cons,Option.or_eq_none_iff,ih,List.mem_cons,not_or]
    constructor
    · rintro ⟨absent,other⟩
      refine ⟨fun same => ?_,absent⟩
      simp [same] at other
    · rintro ⟨other,absent⟩
      exact ⟨absent,by simp [Ne.symm other]⟩

-- The number tells where in the order the key stands.
theorem lastNumber_get {base : Int} {order : List κ} {wanted : κ} {number : Int}
    (found : lastNumber base order wanted = some number) :
    ∃ i : Nat,number = base + i + 1 ∧ order[i]? = some wanted := by
  induction order generalizing base with
  | nil => cases found
  | cons key order ih =>
    rcases Option.or_eq_some_iff.mp found with later | ⟨-,here⟩
    · obtain ⟨i,number,is⟩ := ih later
      exact ⟨i + 1,by push_cast; omega,is⟩
    · split at here
      · rename_i same
        cases here
        exact ⟨0,by simp,by simp [same]⟩
      · cases here

theorem lastNumber_range {base : Int} {order : List κ} {wanted : κ} {number : Int}
    (found : lastNumber base order wanted = some number) : base < number ∧ number ≤ base + order.length := by
  induction order generalizing base with
  | nil => cases found
  | cons key order ih =>
    rcases Option.or_eq_some_iff.mp found with later | ⟨-,here⟩
    · have bounds := ih later
      simp only [List.length_cons]
      push_cast
      omega
    · split at here
      · cases here; simp only [List.length_cons]; push_cast; omega
      · cases here

theorem lastNumber_of_nodup {base : Int} {order : List κ} {wanted : κ} {i : Nat} (nodup : order.Nodup)
    (is : order[i]? = some wanted) : lastNumber base order wanted = some (base + i + 1) := by
  cases found : lastNumber base order wanted with
  | none => exact absurd (List.mem_of_getElem? is) (lastNumber_none.mp found)
  | some number =>
    obtain ⟨j,rfl,there⟩ := lastNumber_get found
    have inside := (List.getElem?_eq_some_iff.mp is).1
    rw [(List.getElem?_inj inside nodup).mp (is.trans there.symm)]

mutual

theorem Visit.mem_keys (known : List κ) (key : κ) : (visit : Visit κ) →
    (key ∈ visit.keys → key ∈ known ∨ key ∈ visit.fresh known) ∧ (key ∈ visit.fresh known → key ∈ visit.keys)
  | .one other => by
    constructor
    · intro member
      simp only [Visit.keys_one,List.mem_singleton] at member
      subst member
      by_cases old : key ∈ known <;> simp [Visit.fresh_one,old]
    · intro member
      simp only [Visit.fresh_one] at member
      split at member
      · cases member
      · simpa using member
  | .table visits => by
    obtain ⟨into,outof⟩ := mem_keys [] key visits
    constructor
    · intro member
      rcases into member with old | new
      · cases old
      · exact .inr new
    · exact outof

-- What is met is known or numbered, and only what is met is numbered.
theorem mem_keys (known : List κ) (key : κ) : (visits : List (Visit κ)) →
    (key ∈ keys visits → key ∈ known ∨ key ∈ fresh known visits) ∧ (key ∈ fresh known visits → key ∈ keys visits)
  | [] => by simp
  | visit :: visits => by
    obtain ⟨headInto,headOut⟩ := visit.mem_keys known key
    obtain ⟨tailInto,tailOut⟩ := mem_keys (visit.fresh known ++ known) key visits
    simp only [keys_cons,fresh_cons,List.mem_append] at tailInto ⊢
    constructor
    · rintro (here | later)
      · exact (headInto here).imp_right .inl
      · rcases tailInto later with (new | old) | after
        · exact .inr (.inl new)
        · exact .inl old
        · exact .inr (.inr after)
    · rintro (here | later)
      · exact .inl (headOut here)
      · exact .inr (tailOut later)

end

theorem mem_fresh_iff {visits : List (Visit κ)} {key : κ} : key ∈ fresh [] visits ↔ key ∈ keys visits := by
  obtain ⟨into,outof⟩ := mem_keys [] key visits
  exact ⟨outof,fun member => (into member).elim nofun id⟩

-- The numbers from 1 on, as many as there are keys.
def numbersUpTo (count : Nat) : List Int := (List.range count).map fun i : Nat => (i : Int) + 1

theorem mem_numbersUpTo {count : Nat} {number : Int} : number ∈ numbersUpTo count ↔ 0 < number ∧ number ≤ count := by
  simp only [numbersUpTo,List.mem_map,List.mem_range]
  constructor
  · rintro ⟨i,below,rfl⟩
    omega
  · rintro ⟨low,high⟩
    exact ⟨(number - 1).toNat,by omega,by omega⟩

theorem numbersUpTo_increasing (count : Nat) : (numbersUpTo count).Pairwise (· < ·) := by
  refine List.pairwise_map.mpr (List.pairwise_lt_range.imp fun before => ?_)
  omega

-- An increasing list is known by its members.
theorem eq_numbersUpTo {numbers : List Int} {count : Nat} (increasing : numbers.Pairwise (· < ·))
    (members : ∀ number,number ∈ numbers ↔ 0 < number ∧ number ≤ count) : numbers = numbersUpTo count := by
  refine List.Perm.eq_of_pairwise (fun a b _ _ below above => absurd (Int.lt_trans below above) (Int.lt_irrefl a))
    increasing (numbersUpTo_increasing count) ?_
  refine (List.perm_ext_iff_of_nodup (increasing.imp Int.ne_of_lt) ((numbersUpTo_increasing count).imp Int.ne_of_lt)).mpr ?_
  intro number
  rw [members,mem_numbersUpTo]

@[simp] theorem numbersUpTo_length (count : Nat) : (numbersUpTo count).length = count := by
  simp [numbersUpTo]

end Numbering
