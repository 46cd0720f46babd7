import Mathlib.Logic.Relation

namespace Effect

-- Plain operations answer at once. A scoped operation is given a whole program
-- and decides in which state, and whether, that program runs.
structure Signature where
  Op : Type → Type
  Scoped : Type → Type → Type

inductive Program (sig : Signature) : Type → Type 1 where
  | pure (value : α) : Program sig α
  | op (operation : sig.Op β) (rest : β → Program sig α) : Program sig α
  | within (operation : sig.Scoped β γ) (body : Program sig β) (rest : γ → Program sig α) : Program sig α

namespace Program

def bind : Program sig α → (α → Program sig β) → Program sig β
  | .pure value,next => next value
  | .op operation rest,next => .op operation fun answer => (rest answer).bind next
  | .within operation body rest,next => .within operation body fun answer => (rest answer).bind next

instance : Monad (Program sig) where
  pure := .pure
  bind := .bind

def perform (operation : sig.Op β) : Program sig β := .op operation .pure
def enclose (operation : sig.Scoped β γ) (body : Program sig β) : Program sig γ := .within operation body .pure

@[simp] theorem pure_eq (value : α) : (Pure.pure value : Program sig α) = .pure value := rfl
@[simp] theorem bind_eq (program : Program sig α) (next : α → Program sig β) :
    (program >>= next) = program.bind next := rfl
@[simp] theorem bind_pure_left (value : α) (next : α → Program sig β) :
    (Program.pure value).bind next = next value := rfl
@[simp] theorem bind_op (operation : sig.Op γ) (rest : γ → Program sig α) (next : α → Program sig β) :
    (Program.op operation rest).bind next = .op operation fun answer => (rest answer).bind next := rfl
@[simp] theorem bind_within (operation : sig.Scoped γ δ) (body : Program sig γ) (rest : δ → Program sig α)
    (next : α → Program sig β) :
    (Program.within operation body rest).bind next =
      .within operation body fun answer => (rest answer).bind next := rfl

@[simp] theorem bind_pure_right (program : Program sig α) : program.bind .pure = program := by
  induction program with
  | pure value => rfl
  | op operation rest ih => simp [ih]
  | within operation body rest _ ih => simp [ih]

theorem bind_assoc (program : Program sig α) (next : α → Program sig β) (last : β → Program sig γ) :
    (program.bind next).bind last = program.bind fun value => (next value).bind last := by
  induction program with
  | pure value => rfl
  | op operation rest ih => simp [ih]
  | within operation body rest _ ih => simp [ih]

end Program

-- A run that does not end has no outcome. One that ends leaves a state behind
-- whether it succeeded or failed: a failure does not roll anything back.
abbrev Run (σ ε α : Type) := σ → Option (Except ε α × σ)

structure Handler (sig : Signature) (σ ε : Type) where
  op : ∀ {β : Type}, sig.Op β → Run σ ε β
  within : ∀ {β γ : Type}, sig.Scoped β γ → Run σ ε β → Run σ ε γ

def chain (first : Run σ ε α) (next : α → Run σ ε β) : Run σ ε β := fun s =>
  match first s with
  | none => none
  | some (.error failure,s') => some (.error failure,s')
  | some (.ok value,s') => next value s'

def Handler.run (handler : Handler sig σ ε) : Program sig α → Run σ ε α
  | .pure value => fun s => some (.ok value,s)
  | .op operation rest => chain (handler.op operation) fun answer => handler.run (rest answer)
  | .within operation body rest =>
    chain (handler.within operation (handler.run body)) fun answer => handler.run (rest answer)

@[simp] theorem Handler.run_pure (handler : Handler sig σ ε) (value : α) (s : σ) :
    handler.run (.pure value) s = some (.ok value,s) := rfl

theorem chain_assoc (first : Run σ ε α) (next : α → Run σ ε β) (last : β → Run σ ε γ) :
    chain (chain first next) last = chain first fun value => chain (next value) last := by
  funext s
  unfold chain
  cases first s with
  | none => rfl
  | some outcome =>
    obtain ⟨result,s'⟩ := outcome
    cases result <;> rfl

theorem Handler.run_bind (handler : Handler sig σ ε) (program : Program sig α) (next : α → Program sig β) :
    handler.run (program.bind next) = chain (handler.run program) fun value => handler.run (next value) := by
  induction program with
  | pure value => funext s; rfl
  | op operation rest ih => simp only [Program.bind_op,Handler.run,ih,chain_assoc]
  | within operation body rest _ ih => simp only [Program.bind_within,Handler.run,ih,chain_assoc]

theorem chain_some (ran : chain first next s = some (.ok value,after)) :
    ∃ middle state, first s = some (.ok middle,state) ∧ next middle state = some (.ok value,after) := by
  unfold chain at ran
  split at ran
  · cases ran
  · cases ran
  · rename_i middle state equal; exact ⟨middle,state,equal,ran⟩

-- Whenever the right run succeeds the left one does, with its result, in a
-- state that R relates to the right one's.
def Refines (R : σ → τ → Prop) (left : Option (Except ε α × σ)) (right : Option (Except ε α × τ)) : Prop :=
  ∀ value t, right = some (.ok value,t) → ∃ s, left = some (.ok value,s) ∧ R s t

-- The index lets a scoped operation start its body in a state related to the
-- outer one in another way (a fresh table, an empty log).
structure Simulation (left : Handler sig σ ε) (right : Handler sig τ ε) (R : ι → σ → τ → Prop) : Prop where
  op : ∀ {β : Type} (operation : sig.Op β) i s t, R i s t →
    Refines (R i) (left.op operation s) (right.op operation t)
  within : ∀ {β γ : Type} (operation : sig.Scoped β γ) (m : Run σ ε β) (n : Run τ ε β),
    (∀ j s t, R j s t → Refines (R j) (m s) (n t)) →
    ∀ i s t, R i s t → Refines (R i) (left.within operation m s) (right.within operation n t)

theorem chain_refines {R : ι → σ → τ → Prop} {m : Run σ ε α} {n : Run τ ε α} {f : α → Run σ ε β} {g : α → Run τ ε β}
    (first : Refines (R i) (m s) (n t)) (next : ∀ value s t, R i s t → Refines (R i) (f value s) (g value t)) :
    Refines (R i) (chain m f s) (chain n g t) := by
  intro value after ran
  obtain ⟨middle,t',firstRan,nextRan⟩ := chain_some ran
  obtain ⟨s',equal,related⟩ := first middle t' firstRan
  obtain ⟨s'',finished,relatedAfter⟩ := next middle s' t' related value after nextRan
  refine ⟨s'',?_,relatedAfter⟩
  unfold chain
  rw [equal]
  exact finished

theorem Simulation.run {left : Handler sig σ ε} {right : Handler sig τ ε} {R : ι → σ → τ → Prop}
    (sim : Simulation left right R) (program : Program sig α) :
    ∀ i s t, R i s t → Refines (R i) (left.run program s) (right.run program t) := by
  induction program with
  | pure value =>
    intro i s t related result after ran
    cases ran
    exact ⟨s,rfl,related⟩
  | op operation rest ih =>
    exact fun i s t related => chain_refines (sim.op operation i s t related) fun value s t => ih value i s t
  | within operation body rest ihBody ih =>
    exact fun i s t related =>
      chain_refines (sim.within operation _ _ ihBody i s t related) fun value s t => ih value i s t

-- The right handler does what the left one does, once part of the state is
-- forgotten.
def forget (f : σ → τ) (outcome : Option (Except ε α × σ)) : Option (Except ε α × τ) :=
  outcome.map fun outcome => (outcome.1,f outcome.2)

structure Projects (left : Handler sig σ ε) (right : Handler sig τ ε) (f : σ → τ) : Prop where
  op : ∀ {β : Type} (operation : sig.Op β) s,forget f (left.op operation s) = right.op operation (f s)
  within : ∀ {β γ : Type} (operation : sig.Scoped β γ) (m : Run σ ε β) (n : Run τ ε β),
    (∀ s,forget f (m s) = n (f s)) → ∀ s,forget f (left.within operation m s) = right.within operation n (f s)

theorem forget_chain {f : σ → τ} {first : Run σ ε α} {next : α → Run σ ε β} {first' : Run τ ε α}
    {next' : α → Run τ ε β} (head : ∀ s,forget f (first s) = first' (f s))
    (tail : ∀ value s,forget f (next value s) = next' value (f s)) (s : σ) :
    forget f (chain first next s) = chain first' next' (f s) := by
  unfold chain
  rw [←head s]
  rcases first s with _ | ⟨failure | value,s'⟩
  · rfl
  · rfl
  · exact tail value s'

theorem Projects.run {left : Handler sig σ ε} {right : Handler sig τ ε} {f : σ → τ} (projects : Projects left right f)
    (program : Program sig α) : ∀ s,forget f (left.run program s) = right.run program (f s) := by
  induction program with
  | pure value => exact fun s => rfl
  | op operation rest ih => exact forget_chain (projects.op operation) ih
  | within operation body rest ihBody ih => exact forget_chain (projects.within operation _ _ ihBody) ih

-- An invariant of the state that no operation breaks, whatever the outcome,
-- holds after every run.
structure Handler.Keeps (handler : Handler sig σ ε) (I : σ → Prop) : Prop where
  op : ∀ {β : Type} (operation : sig.Op β) s r s', I s → handler.op operation s = some (r,s') → I s'
  within : ∀ {β γ : Type} (operation : sig.Scoped β γ) (m : Run σ ε β),
    (∀ s r s', I s → m s = some (r,s') → I s') →
    ∀ s r s', I s → handler.within operation m s = some (r,s') → I s'

theorem chain_cases {first : Run σ ε α} {next : α → Run σ ε β} (ran : chain first next s = some (r,s')) :
    (∃ failure, first s = some (.error failure,s') ∧ r = .error failure) ∨
      ∃ value middle, first s = some (.ok value,middle) ∧ next value middle = some (r,s') := by
  unfold chain at ran
  split at ran
  · cases ran
  · rename_i failure after equal; cases ran; exact .inl ⟨failure,equal,rfl⟩
  · rename_i value middle equal; exact .inr ⟨value,middle,equal,ran⟩

-- With an index, the body of a scoped operation may keep another one than the
-- operation itself.
structure Handler.Maintains (handler : Handler sig σ ε) (I : ι → σ → Prop) : Prop where
  op : ∀ {β : Type} (operation : sig.Op β) i s r s', I i s → handler.op operation s = some (r,s') → I i s'
  within : ∀ {β γ : Type} (operation : sig.Scoped β γ) (m : Run σ ε β),
    (∀ j s r s', I j s → m s = some (r,s') → I j s') →
    ∀ i s r s', I i s → handler.within operation m s = some (r,s') → I i s'

theorem Handler.Maintains.run {handler : Handler sig σ ε} {I : ι → σ → Prop} (maintains : handler.Maintains I)
    (program : Program sig α) : ∀ i s r s', I i s → handler.run program s = some (r,s') → I i s' := by
  induction program with
  | pure value => intro i s r s' kept ran; cases ran; exact kept
  | op operation rest ih =>
    intro i s r s' kept ran
    rcases chain_cases ran with ⟨failure,first,-⟩ | ⟨value,middle,first,next⟩
    · exact maintains.op operation i s _ s' kept first
    · exact ih value i middle r s' (maintains.op operation i s _ middle kept first) next
  | within operation body rest ihBody ih =>
    intro i s r s' kept ran
    rcases chain_cases ran with ⟨failure,first,-⟩ | ⟨value,middle,first,next⟩
    · exact maintains.within operation _ ihBody i s _ s' kept first
    · exact ih value i middle r s' (maintains.within operation _ ihBody i s _ middle kept first) next

theorem Handler.Keeps.run {handler : Handler sig σ ε} {I : σ → Prop} (keeps : handler.Keeps I)
    (program : Program sig α) (s : σ) (r : Except ε α) (s' : σ) : I s → handler.run program s = some (r,s') → I s' :=
  have maintains : handler.Maintains fun _ : Unit => I :=
    ⟨fun operation _ => keeps.op operation,fun operation m bodies _ => keeps.within operation m (bodies ())⟩
  maintains.run program () s r s'

-- Every value that a program can return, whatever its operations answer.
def Program.Returns (P : α → Prop) : Program sig α → Prop
  | .pure value => P value
  | .op _ rest => ∀ answer,(rest answer).Returns P
  | .within _ _ rest => ∀ answer,(rest answer).Returns P

theorem Program.Returns.bind {program : Program sig α} {next : α → Program sig β} {P : α → Prop} {Q : β → Prop}
    (first : program.Returns P) (last : ∀ value,P value → (next value).Returns Q) :
    (program >>= next).Returns Q := by
  rw [Program.bind_eq]
  induction program with
  | pure value => exact last value first
  | op operation rest ih => exact fun answer => ih answer (first answer) last
  | within operation body rest _ ih => exact fun answer => ih answer (first answer) last

theorem Program.returns_something (program : Program sig α) : program.Returns fun _ => True := by
  induction program with
  | pure value => trivial
  | op operation rest ih => exact ih
  | within operation body rest _ ih => exact ih

theorem Program.returns_after {program : Program sig α} {next : α → Program sig β} {Q : β → Prop}
    (last : ∀ value,(next value).Returns Q) : (program >>= next).Returns Q :=
  program.returns_something.bind fun value _ => last value

theorem Program.Returns.weaken {program : Program sig α} {P Q : α → Prop} (returns : program.Returns P)
    (weaker : ∀ value,P value → Q value) : program.Returns Q := by
  induction program with
  | pure value => exact weaker value returns
  | op operation rest ih => exact fun answer => ih answer (returns answer) weaker
  | within operation body rest _ ih => exact fun answer => ih answer (returns answer) weaker

theorem Program.Returns.run {handler : Handler sig σ ε} {program : Program sig α} {P : α → Prop}
    (returns : program.Returns P) : ∀ {s value s'},handler.run program s = some (.ok value,s') → P value := by
  induction program with
  | pure value => intro s result s' ran; cases ran; exact returns
  | op operation rest ih =>
    intro s result s' ran
    obtain ⟨answer,middle,-,last⟩ := chain_some ran
    exact ih answer (returns answer) last
  | within operation body rest _ ih =>
    intro s result s' ran
    obtain ⟨answer,middle,-,last⟩ := chain_some ran
    exact ih answer (returns answer) last

end Effect
