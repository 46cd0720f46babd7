import Scythe.Lib.Effect

-- The places that a run comes by, those inside the bodies of scoped operations too.
namespace Effect

-- `enters` tells in which state an operation runs its body.
inductive ComesBy (handler : Handler sig σ ε) (enters : ∀ {β γ : Type},sig.Scoped β γ → σ → σ → Prop)
    {δ : Type} (place : Program sig δ) (there : σ) : {α : Type} → Program sig α → σ → Prop where
  | here : ComesBy handler @enters place there place there
  | op {operation : sig.Op β} {rest : β → Program sig α} (ran : handler.op operation s = some (.ok answer,s'))
      (later : ComesBy handler @enters place there (rest answer) s') :
      ComesBy handler @enters place there (.op operation rest) s
  | body {operation : sig.Scoped β γ} {body : Program sig β} {rest : γ → Program sig α}
      (entered : enters operation s s') (inside : ComesBy handler @enters place there body s') :
      ComesBy handler @enters place there (.within operation body rest) s
  | after {operation : sig.Scoped β γ} {body : Program sig β} {rest : γ → Program sig α}
      (ran : handler.within operation (handler.run body) s = some (.ok answer,s'))
      (later : ComesBy handler @enters place there (rest answer) s') :
      ComesBy handler @enters place there (.within operation body rest) s

-- Nothing else about a body matters than what it does in the states that it is
-- entered in.
def Entered (handler : Handler sig σ ε) (enters : ∀ {β γ : Type},sig.Scoped β γ → σ → σ → Prop) : Prop :=
  ∀ {β γ : Type} (operation : sig.Scoped β γ) (m n : Run σ ε β) s,(∀ s',enters operation s s' → m s' = n s') →
    handler.within operation m s = handler.within operation n s

theorem ComesBy.holds {handler : Handler sig σ ε} {enters : ∀ {β γ : Type},sig.Scoped β γ → σ → σ → Prop}
    {I : ι → σ → Prop} (maintains : handler.Maintains I)
    (entered : ∀ {β γ : Type} (operation : sig.Scoped β γ) i s s',I i s → enters operation s s' → ∃ j,I j s')
    {program : Program sig α} {place : Program sig δ} (reaches : ComesBy handler enters place there program s) :
    ∀ i,I i s → ∃ j,I j there := by
  induction reaches with
  | here => exact fun i holds => ⟨i,holds⟩
  | op ran _ ih => exact fun i holds => ih i (maintains.op _ i _ _ _ holds ran)
  | body enter _ ih =>
    intro i holds
    obtain ⟨j,inside⟩ := entered _ i _ _ holds enter
    exact ih j inside
  | after ran _ ih =>
    exact fun i holds => ih i (maintains.within _ _ (maintains.run _) i _ _ _ holds ran)

end Effect
