-- Terms over values that may be null. Of an operator one may know that it is null
-- where an operand is, and that it is not where none is.
namespace NullTerms

structure Rules (ω : Type) where
  strict : ω → Bool
  total : ω → Bool

inductive Term (ι ω : Type) where
  | never (i : ι)
  | atom (i : ι)
  | unary (op : ω) (operand : Term ι ω)
  | binary (op : ω) (left right : Term ι ω)
  | isNull (operand : Term ι ω)
  | isNotNull (operand : Term ι ω)

-- All that the rules leave open is the engine's: the value of an operator where they
-- do not say whether it is null, and whether a value that is not null, but may be a
-- row of nulls, counts as one.
structure Engine (ι ω : Type) where
  Row : Type
  Value : Type
  truth : Bool → Value
  distinct : truth true ≠ truth false
  never : Row → ι → Value
  atom : Row → ι → Option Value
  unary : Row → ω → Value → Value
  binary : Row → ω → Value → Value → Value
  unaryOpen : Row → ω → Term ι ω → Option Value
  binaryOpen : Row → ω → Term ι ω → Term ι ω → Option Value
  countsNull : Value → Bool
  countsNotNull : Value → Bool

section
variable {ι ω : Type} (rules : Rules ω)

def Engine.eval (engine : Engine ι ω) (row : engine.Row) : Term ι ω → Option engine.Value
  | .never i => some (engine.never row i)
  | .atom i => engine.atom row i
  | .unary op operand =>
    match engine.eval row operand with
    | some v => if rules.total op then some (engine.unary row op v) else engine.unaryOpen row op operand
    | none => if rules.strict op then none else engine.unaryOpen row op operand
  | .binary op left right =>
    match engine.eval row left,engine.eval row right with
    | some v,some w => if rules.total op then some (engine.binary row op v w) else engine.binaryOpen row op left right
    | _,_ => if rules.strict op then none else engine.binaryOpen row op left right
  | .isNull operand => some (engine.truth ((engine.eval row operand).elim true engine.countsNull))
  | .isNotNull operand => some (engine.truth ((engine.eval row operand).elim false engine.countsNotNull))

theorem Engine.eval_atom (engine : Engine ι ω) (row : engine.Row) (i : ι) :
    engine.eval rules row (.atom i) = engine.atom row i := rfl

theorem Engine.eval_unary (engine : Engine ι ω) (row : engine.Row) (op : ω) (operand : Term ι ω) :
    engine.eval rules row (.unary op operand) = match engine.eval rules row operand with
      | some v => if rules.total op then some (engine.unary row op v) else engine.unaryOpen row op operand
      | none => if rules.strict op then none else engine.unaryOpen row op operand := rfl

theorem Engine.eval_binary (engine : Engine ι ω) (row : engine.Row) (op : ω) (left right : Term ι ω) :
    engine.eval rules row (.binary op left right) = match engine.eval rules row left,engine.eval rules row right with
      | some v,some w => if rules.total op then some (engine.binary row op v w) else engine.binaryOpen row op left right
      | _,_ => if rules.strict op then none else engine.binaryOpen row op left right := rfl

theorem Engine.eval_isNotNull (engine : Engine ι ω) (row : engine.Row) (operand : Term ι ω) :
    engine.eval rules row (.isNotNull operand) =
      some (engine.truth ((engine.eval rules row operand).elim false engine.countsNotNull)) := rfl

-- A row that a condition lets through.
def Engine.Holds (engine : Engine ι ω) (row : engine.Row) (condition : Term ι ω) : Prop :=
  engine.eval rules row condition = some (engine.truth true)

-- What cannot be null unless the whole is.
inductive Needed (whole : Term ι ω) : Term ι ω → Prop
  | self : Needed whole whole
  | operand {op : ω} {t : Term ι ω} (strict : rules.strict op = true) (above : Needed whole (.unary op t)) : Needed whole t
  | left {op : ω} {l r : Term ι ω} (strict : rules.strict op = true) (above : Needed whole (.binary op l r)) : Needed whole l
  | right {op : ω} {l r : Term ι ω} (strict : rules.strict op = true) (above : Needed whole (.binary op l r)) : Needed whole r

-- What cannot be null where the guarded term is not.
inductive Sure (guarded : Term ι ω) : Term ι ω → Prop
  | needed {t : Term ι ω} (needed : Needed rules guarded t) : Sure guarded t
  | never {i : ι} : Sure guarded (.never i)
  | isNull {t : Term ι ω} : Sure guarded (.isNull t)
  | isNotNull {t : Term ι ω} : Sure guarded (.isNotNull t)
  | unary {op : ω} {t : Term ι ω} (total : rules.total op = true) (operand : Sure guarded t) : Sure guarded (.unary op t)
  | binary {op : ω} {l r : Term ι ω} (total : rules.total op = true) (left : Sure guarded l) (right : Sure guarded r) :
      Sure guarded (.binary op l r)

variable {rules}

theorem Engine.unary_present {engine : Engine ι ω} {row : engine.Row} {op : ω} {t : Term ι ω} (strict : rules.strict op = true)
    (present : engine.eval rules row (.unary op t) ≠ none) : engine.eval rules row t ≠ none := by
  intro null
  apply present
  rw [Engine.eval_unary,null]
  exact if_pos strict

theorem Engine.binary_present {engine : Engine ι ω} {row : engine.Row} {op : ω} {l r : Term ι ω}
    (strict : rules.strict op = true) (present : engine.eval rules row (.binary op l r) ≠ none) :
    engine.eval rules row l ≠ none ∧ engine.eval rules row r ≠ none := by
  constructor
  · intro null
    apply present
    rw [Engine.eval_binary,null]
    exact if_pos strict
  · intro null
    apply present
    rw [Engine.eval_binary,null]
    cases engine.eval rules row l with
    | none => exact if_pos strict
    | some v => exact if_pos strict

theorem needed_present {engine : Engine ι ω} {row : engine.Row} {whole t : Term ι ω}
    (present : engine.eval rules row whole ≠ none) (needed : Needed rules whole t) : engine.eval rules row t ≠ none := by
  induction needed with
  | self => exact present
  | operand strict _ ih => exact engine.unary_present strict ih
  | left strict _ ih => exact (engine.binary_present strict ih).1
  | right strict _ ih => exact (engine.binary_present strict ih).2

theorem sure_present {engine : Engine ι ω} {row : engine.Row} {guarded t : Term ι ω}
    (present : engine.eval rules row guarded ≠ none) (sure : Sure rules guarded t) : engine.eval rules row t ≠ none := by
  induction sure with
  | needed needed => exact needed_present present needed
  | never => exact Option.some_ne_none _
  | isNull => exact Option.some_ne_none _
  | isNotNull => exact Option.some_ne_none _
  | @unary op t total _ ih =>
    rw [Engine.eval_unary]
    cases value : engine.eval rules row t with
    | none => exact absurd value ih
    | some v =>
      dsimp only
      rw [if_pos total]
      exact Option.some_ne_none _
  | @binary op l r total _ _ ihl ihr =>
    rw [Engine.eval_binary]
    cases value : engine.eval rules row l with
    | none => exact absurd value ihl
    | some v =>
      cases value' : engine.eval rules row r with
      | none => exact absurd value' ihr
      | some w =>
        dsimp only
        rw [if_pos total]
        exact Option.some_ne_none _

open Classical in
-- The engine where all is null that may be.
noncomputable def least (rules : Rules ω) (guarded : Term ι ω) : Engine ι ω where
  Row := Unit
  Value := Bool
  truth := id
  distinct := Bool.noConfusion
  never _ _ := true
  atom _ i := if Needed rules guarded (.atom i) then some true else none
  unary _ _ _ := true
  binary _ _ _ _ := true
  unaryOpen _ op t := if Needed rules guarded (.unary op t) then some true else none
  binaryOpen _ op l r := if Needed rules guarded (.binary op l r) then some true else none
  countsNull _ := false
  countsNotNull _ := true

theorem given_present {α : Type} {p : Prop} [Decidable p] {v : α} : (if p then some v else none) ≠ none ↔ p := by
  by_cases given : p
  · simp [given]
  · simp [given]

theorem least_atom (guarded : Term ι ω) (row : (least rules guarded).Row) (i : ι) :
    (least rules guarded).atom row i ≠ none ↔ Needed rules guarded (.atom i) := by
  classical exact given_present

theorem least_unary (guarded : Term ι ω) (row : (least rules guarded).Row) (op : ω) (t : Term ι ω) :
    (least rules guarded).unaryOpen row op t ≠ none ↔ Needed rules guarded (.unary op t) := by
  classical exact given_present

theorem least_binary (guarded : Term ι ω) (row : (least rules guarded).Row) (op : ω) (l r : Term ι ω) :
    (least rules guarded).binaryOpen row op l r ≠ none ↔ Needed rules guarded (.binary op l r) := by
  classical exact given_present

theorem least_present (guarded t : Term ι ω) (row : (least rules guarded).Row) :
    (least rules guarded).eval rules row t ≠ none ↔ Sure rules guarded t := by
  induction t with
  | never i =>
    constructor
    · exact fun _ => .never
    · exact fun _ => Option.some_ne_none _
  | isNull t =>
    constructor
    · exact fun _ => .isNull
    · exact fun _ => Option.some_ne_none _
  | isNotNull t =>
    constructor
    · exact fun _ => .isNotNull
    · exact fun _ => Option.some_ne_none _
  | atom i =>
    rw [Engine.eval_atom]
    constructor
    · exact fun present => .needed ((least_atom guarded row i).mp present)
    · intro sure
      cases sure with
      | needed needed => exact (least_atom guarded row i).mpr needed
  | unary op t ih =>
    rw [Engine.eval_unary]
    constructor
    · intro present
      cases value : (least rules guarded).eval rules row t with
      | none =>
        rw [value] at present
        dsimp only at present
        split at present
        · exact absurd rfl present
        · exact .needed ((least_unary guarded row op t).mp present)
      | some v =>
        rw [value] at present
        dsimp only at present
        split at present
        · rename_i total
          exact .unary total (ih.mp (by rw [value]; exact Option.some_ne_none _))
        · exact .needed ((least_unary guarded row op t).mp present)
    · intro sure
      cases sure with
      | unary total operand =>
        have inner := ih.mpr operand
        cases value : (least rules guarded).eval rules row t with
        | none => exact absurd value inner
        | some v =>
          dsimp only
          rw [if_pos total]
          exact Option.some_ne_none _
      | needed needed =>
        cases value : (least rules guarded).eval rules row t with
        | none =>
          dsimp only
          split
          · rename_i strict
            exact absurd value (ih.mpr (.needed (.operand strict needed)))
          · exact (least_unary guarded row op t).mpr needed
        | some v =>
          dsimp only
          split
          · exact Option.some_ne_none _
          · exact (least_unary guarded row op t).mpr needed
  | binary op l r ihl ihr =>
    have opened := least_binary guarded row op l r
    rw [Engine.eval_binary]
    constructor
    · intro present
      cases value : (least rules guarded).eval rules row l with
      | none =>
        rw [value] at present
        dsimp only at present
        split at present
        · exact absurd rfl present
        · exact .needed (opened.mp present)
      | some v =>
        cases value' : (least rules guarded).eval rules row r with
        | none =>
          rw [value,value'] at present
          dsimp only at present
          split at present
          · exact absurd rfl present
          · exact .needed (opened.mp present)
        | some w =>
          rw [value,value'] at present
          dsimp only at present
          split at present
          · rename_i total
            have left := ihl.mp (by rw [value]; exact Option.some_ne_none _)
            have right := ihr.mp (by rw [value']; exact Option.some_ne_none _)
            exact .binary total left right
          · exact .needed (opened.mp present)
    · intro sure
      cases sure with
      | binary total left right =>
        have inner := ihl.mpr left
        have inner' := ihr.mpr right
        cases value : (least rules guarded).eval rules row l with
        | none => exact absurd value inner
        | some v =>
          cases value' : (least rules guarded).eval rules row r with
          | none => exact absurd value' inner'
          | some w =>
            dsimp only
            rw [if_pos total]
            exact Option.some_ne_none _
      | needed needed =>
        have open' := opened.mpr needed
        cases value : (least rules guarded).eval rules row l with
        | none =>
          dsimp only
          split
          · rename_i strict
            exact absurd value (ihl.mpr (.needed (.left strict needed)))
          · exact open'
        | some v =>
          cases value' : (least rules guarded).eval rules row r with
          | none =>
            dsimp only
            split
            · rename_i strict
              exact absurd value' (ihr.mpr (.needed (.right strict needed)))
            · exact open'
          | some w =>
            dsimp only
            split
            · exact Option.some_ne_none _
            · exact open'

theorem least_holds (guarded : Term ι ω) (row : (least rules guarded).Row) :
    (least rules guarded).Holds rules row (.isNotNull guarded) := by
  have present := (least_present guarded guarded row).mpr (.needed .self)
  unfold Engine.Holds
  rw [Engine.eval_isNotNull]
  cases value : (least rules guarded).eval rules row guarded with
  | none => exact absurd value present
  | some v => rfl

-- No engine that keeps to the rules lets a row through where the term is null, just if
-- the rules make it sure.
theorem guarded_iff (rules : Rules ω) (guarded t : Term ι ω) :
    (∀ (engine : Engine ι ω) (row : engine.Row),engine.Holds rules row (.isNotNull guarded) → engine.eval rules row t ≠ none) ↔
      Sure rules guarded t := by
  constructor
  · intro sound
    exact (least_present guarded t ()).mp (sound (least rules guarded) () (least_holds guarded ()))
  · intro sure engine row holds
    refine sure_present ?_ sure
    intro null
    unfold Engine.Holds at holds
    rw [Engine.eval_isNotNull,null] at holds
    exact engine.distinct (Option.some.inj holds).symm

-- The guarded term is one operand of a greater one.
inductive Inside (guarded : Term ι ω) : Term ι ω → Prop
  | self : Inside guarded guarded
  | operand {op : ω} {t : Term ι ω} (within : Inside guarded t) : Inside guarded (.unary op t)
  | left {op : ω} {l r : Term ι ω} (within : Inside guarded l) : Inside guarded (.binary op l r)
  | right {op : ω} {l r : Term ι ω} (within : Inside guarded r) : Inside guarded (.binary op l r)

inductive OneOperand (guarded : Term ι ω) : Term ι ω → Prop
  | left {op : ω} {l r : Term ι ω} (within : Inside guarded l) : OneOperand guarded (.binary op l r)
  | right {op : ω} {l r : Term ι ω} (within : Inside guarded r) : OneOperand guarded (.binary op l r)
  | operand {op : ω} {t : Term ι ω} (within : OneOperand guarded t) : OneOperand guarded (.unary op t)

end

end NullTerms
