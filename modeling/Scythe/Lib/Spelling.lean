import Mathlib.Logic.Function.Basic
import Mathlib.Tactic.Common

-- Two registers of the same things. Each knows a thing under a key of its own,
-- and a spelling tells which keys of the one belong to which of the other.
namespace Spelling
section
variable {κ ι τ β : Type} {f : κ → Option β} {t : κ → τ} {g : ι → Option β} {u : ι → τ}

def Shows (f : κ → Option β) (t : κ → τ) (text : τ) (value : β) : Prop := ∃ key,f key = some value ∧ t key = text

def Apart (f : κ → Option β) (t : κ → τ) : Prop :=
  ∀ key other,(f key).isSome → (f other).isSome → t key = t other → key = other

-- No key in use but this one is spelled as it is.
def Free (f : κ → Option β) (t : κ → τ) (key : κ) : Prop := ∀ other,(f other).isSome → t other = t key → other = key

theorem free_of_apart (apart : Apart f t) {key : κ} (used : (f key).isSome) : Free f t key :=
  fun other usedOther same => apart other key usedOther used same

theorem shows_unique (apart : Apart f t) {text : τ} {a b : β} (left : Shows f t text a) (right : Shows f t text b) :
    a = b := by
  obtain ⟨key,foundA,spelledA⟩ := left
  obtain ⟨other,foundB,spelledB⟩ := right
  have same := apart key other (Option.isSome_of_eq_some foundA) (Option.isSome_of_eq_some foundB)
    (spelledA.trans spelledB.symm)
  rw [same,foundB,Option.some.injEq] at foundA
  exact foundA.symm

section
variable [DecidableEq κ]

theorem apart_set (apart : Apart f t) {key : κ} (free : Free f t key) (value : Option β) :
    Apart (Function.update f key value) t := by
  intro a b usedA usedB same
  by_cases atA : a = key
  · by_cases atB : b = key
    · rw [atA,atB]
    · rw [Function.update_of_ne atB] at usedB
      rw [atA] at same ⊢
      exact (free b usedB same.symm).symm
  · rw [Function.update_of_ne atA] at usedA
    by_cases atB : b = key
    · rw [atB] at same ⊢
      exact free a usedA same
    · rw [Function.update_of_ne atB] at usedB
      exact apart a b usedA usedB same

theorem shows_set {key : κ} (free : Free f t key) (value : Option β) (text : τ) (held : β) :
    Shows (Function.update f key value) t text held ↔
      (text = t key ∧ value = some held) ∨ (text ≠ t key ∧ Shows f t text held) := by
  constructor
  · rintro ⟨other,found,spelled⟩
    by_cases at' : other = key
    · rw [at',Function.update_self] at found
      exact .inl ⟨spelled.symm.trans (congrArg t at'),found⟩
    · rw [Function.update_of_ne at'] at found
      refine .inr ⟨fun same => at' ?_,other,found,spelled⟩
      exact free other (Option.isSome_of_eq_some found) (spelled.trans same)
  · rintro (⟨same,isHeld⟩ | ⟨different,other,found,spelled⟩)
    · exact ⟨key,by rw [Function.update_self,isHeld],same.symm⟩
    · refine ⟨other,?_,spelled⟩
      rwa [Function.update_of_ne]
      rintro rfl
      exact different spelled.symm

end

structure Match (f : κ → Option β) (t : κ → τ) (g : ι → Option β) (u : ι → τ) : Prop where
  left : Apart f t
  right : Apart g u
  same : ∀ text value,Shows f t text value ↔ Shows g u text value

theorem Match.free (both : Match f t g u) {key : κ} {name : ι} (spelled : t key = u name)
    (free : Free f t key) (fresh : f key = none) : Free g u name := by
  intro other used same
  obtain ⟨value,found⟩ := Option.isSome_iff_exists.mp used
  obtain ⟨holder,held,at'⟩ := (both.same _ _).mpr ⟨other,found,same⟩
  have isKey := free holder (Option.isSome_of_eq_some held) (at'.trans spelled.symm)
  rw [isKey,fresh] at held
  cases held

-- Of a key in use: the value that the one shows is the value that the other shows.
theorem Match.value (both : Match f t g u) {key : κ} {name : ι} (spelled : t key = u name) {value : β} (used : (f key).isSome)
    (found : g name = some value) : f key = some value := by
  obtain ⟨held,isHeld⟩ := Option.isSome_iff_exists.mp used
  have shown := (both.same _ _).mpr ⟨name,found,spelled.symm⟩
  rw [isHeld,shows_unique both.left ⟨key,isHeld,rfl⟩ shown]

variable [DecidableEq κ] [DecidableEq ι]

-- The same change on both sides.
theorem Match.set (both : Match f t g u) {key : κ} {name : ι} (spelled : t key = u name) (free : Free f t key)
    (freeName : Free g u name) (value : Option β) :
    Match (Function.update f key value) t (Function.update g name value) u where
  left := apart_set both.left free value
  right := apart_set both.right freeName value
  same := by
    intro text held
    rw [shows_set free,shows_set freeName,spelled,both.same]

end
end Spelling
