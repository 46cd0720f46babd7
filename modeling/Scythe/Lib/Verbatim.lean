import Scythe.Lib.StringLiteral

-- Texts that stand in a literal as they are, without an escape.
namespace StringLiteral

-- A reading denotes what it takes, or fewer characters.
structure Grammar.Sparing (g : Grammar) : Prop where
  closed : ∀ cs rest,g.reading cs = .close rest → cs = g.closing ++ rest
  taken : ∀ cs value rest,g.reading cs = .text value rest →
    ∃ taken,cs = taken ++ rest ∧ taken ≠ [] ∧ (value = taken ∨ value.length < taken.length)
  closes : g.reading g.closing = .close []

inductive Grammar.Verbatim (g : Grammar) : List Char → Prop where
  | nil : g.Verbatim []
  | step {taken rest : List Char} (written : taken ≠ [])
      (reads : g.reading (taken ++ (rest ++ g.closing)) = .text taken (rest ++ g.closing)) (later : g.Verbatim rest) :
      g.Verbatim (taken ++ rest)

section
variable {g : Grammar}

theorem Grammar.Sparing.read_splits (sparing : g.Sparing) {fuel : Nat} {cs value : List Char}
    (read : g.read fuel cs = some (value,[])) :
    ∃ taken,cs = taken ++ g.closing ∧ value.length ≤ taken.length ∧
      (value.length = taken.length → value = taken ∧ g.Verbatim taken) := by
  induction fuel generalizing cs value with
  | zero => cases read
  | succ fuel ih =>
    rw [Grammar.read] at read
    split at read
    · rename_i rest is
      cases read
      exact ⟨[],by rw [sparing.closed _ _ is,List.append_nil,List.nil_append],le_refl _,fun _ => ⟨rfl,.nil⟩⟩
    · rename_i front after is
      obtain ⟨parts,tail,equal⟩ := Option.map_eq_some_iff.mp read
      obtain ⟨rfl,nothing⟩ := Prod.mk.inj equal
      obtain ⟨taken,whole,written,shape⟩ := sparing.taken _ _ _ is
      have closed : g.read fuel after = some (parts.1,[]) := tail.trans (by rw [← nothing])
      obtain ⟨later,same,shorter,exactly⟩ := ih closed
      have within : front.length ≤ taken.length := shape.elim (fun same => same ▸ le_refl _) le_of_lt
      refine ⟨taken ++ later,by rw [whole,same,List.append_assoc],?_,fun equal => ?_⟩
      · rw [List.length_append,List.length_append]
        omega
      · rw [List.length_append,List.length_append] at equal
        have front_same : front = taken := shape.resolve_right (by omega)
        obtain ⟨rest_same,verbatim⟩ := exactly (by omega)
        refine ⟨by rw [front_same,rest_same],.step written ?_ verbatim⟩
        rw [← same,← whole,is,front_same]
    · cases read

theorem Grammar.Verbatim.read (closes : g.reading g.closing = .close []) {text : List Char} (verbatim : g.Verbatim text)
    {fuel : Nat} (enough : (text ++ g.closing).length < fuel) : g.read fuel (text ++ g.closing) = some (text,[]) := by
  induction verbatim generalizing fuel with
  | nil =>
    obtain ⟨fuel,rfl⟩ : ∃ n,fuel = n + 1 := ⟨fuel - 1,by omega⟩
    rw [List.nil_append,Grammar.read,closes]
  | @step taken rest written reads later ih =>
    obtain ⟨fuel,rfl⟩ : ∃ n,fuel = n + 1 := ⟨fuel - 1,by omega⟩
    have some := List.length_pos_iff.mpr written
    rw [List.append_assoc,List.length_append] at enough
    rw [List.append_assoc,Grammar.read,reads]
    dsimp only
    rw [ih (by omega)]
    rfl

-- What a literal denotes is no longer than its text, and as long only when it is its text.
theorem Grammar.Sparing.body_within (sparing : g.Sparing) {text value : List Char}
    (is : g.body (text ++ g.closing) = some value) :
    value.length ≤ text.length ∧ (value.length = text.length → value = text ∧ g.Verbatim text) := by
  unfold Grammar.body at is
  split at is
  · rename_i read
    cases is
    obtain ⟨taken,same,within⟩ := sparing.read_splits read
    cases List.append_cancel_right same
    exact within
  · cases is

theorem Grammar.Sparing.body_iff (sparing : g.Sparing) (text : List Char) :
    g.body (text ++ g.closing) = some text ↔ g.Verbatim text := by
  constructor
  · intro is
    exact ((sparing.body_within is).2 rfl).2
  · intro verbatim
    unfold Grammar.body
    rw [verbatim.read sparing.closes (Nat.lt_succ_self _)]

-- Where only single characters stand for themselves, each has to.
theorem Grammar.verbatim_throughout {plain : List Char → Bool}
    (single : ∀ c cs,plain (c :: cs) = true → g.reading (c :: cs) = .text [c] cs)
    (other : ∀ c cs value rest,plain (c :: cs) = false → g.reading (c :: cs) = .text value rest →
      ∃ taken,c :: cs = taken ++ rest ∧ value.length < taken.length) (text : List Char) :
    g.Verbatim text ↔ Throughout (fun cs => plain (cs ++ g.closing)) text := by
  constructor
  · intro verbatim
    induction verbatim with
    | nil =>
      intro c rest suffix
      cases List.suffix_nil.mp suffix
    | @step taken rest written reads later ih =>
      obtain ⟨c,more,rfl⟩ := List.exists_cons_of_ne_nil written
      cases is : plain (c :: (more ++ (rest ++ g.closing))) with
      | true =>
        rw [List.cons_append,single c _ is] at reads
        cases (List.cons.inj (Reading.text.inj reads).1).2
        exact throughout_cons.mpr ⟨is,ih⟩
      | false =>
        obtain ⟨front,same,shorter⟩ := other c _ _ _ is reads
        have whole : (c :: more) ++ (rest ++ g.closing) = front ++ (rest ++ g.closing) := same
        cases List.append_cancel_right whole
        exact absurd shorter (lt_irrefl _)
  · intro all
    induction text with
    | nil => exact .nil
    | cons c cs ih =>
      obtain ⟨here,later⟩ := throughout_cons.mp all
      exact Grammar.Verbatim.step (List.cons_ne_nil c []) (single c _ here) (ih later)

end

-- A source file gets no longer by the reading of its line ends.
theorem LineEnds.translate_length {ends : LineEnds} {cs text : List Char} (is : ends.translate cs = some text) :
    text.length ≤ cs.length := by
  fun_induction LineEnds.translate ends cs generalizing text with
  | case1 =>
    cases is
    exact le_refl _
  | case2 cs ih =>
    obtain ⟨rest,translated,rfl⟩ := Option.map_eq_some_iff.mp is
    exact Nat.succ_le_succ ((ih translated).trans (Nat.le_succ _))
  | case3 cs other ih =>
    obtain ⟨c,-,there⟩ := Option.bind_eq_some_iff.mp is
    obtain ⟨rest,translated,rfl⟩ := Option.map_eq_some_iff.mp there
    exact Nat.succ_le_succ (ih translated)
  | case4 => cases is
  | case5 c cs _ _ _ ih =>
    obtain ⟨rest,translated,rfl⟩ := Option.map_eq_some_iff.mp is
    exact Nat.succ_le_succ (ih translated)

-- The text between two delimiters that no line end touches.
theorem LineEnds.translate_between {ends : LineEnds} {opening closing : List Char} (opens : ends.Clean opening)
    (closes : ends.Clean closing) (feed : '\n' ∉ closing) (text : List Char) :
    ends.translate (opening ++ (text ++ closing)) = (ends.translate text).map fun t => opening ++ (t ++ closing) := by
  have spares : ends.Spares fun _ => none :=
    ⟨fun _ text is => absurd is.symm (Option.some_ne_none text),fun _ text is => absurd is.symm (Option.some_ne_none text),
      fun _ _ => rfl⟩
  have plain (cs : List Char) : substituted (fun _ => none) cs = cs := by
    induction cs with
    | nil => rfl
    | cons c cs ih => rw [substituted_cons,ih,Option.getD_none,List.singleton_append]
  have inner := spares.translate closes feed text
  simp only [plain] at inner
  rw [LineEnds.translate_append opens,inner,Option.map_map]
  rfl

end StringLiteral
