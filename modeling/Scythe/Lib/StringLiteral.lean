import Mathlib.Data.List.Infix

-- String literals of a language, read behind their opening delimiter.
namespace StringLiteral

-- What stands at the front: the closing delimiter, a stretch that denotes some
-- text, or nothing that a constant literal may hold.
inductive Reading where
  | close (rest : List Char)
  | text (value rest : List Char)
  | invalid

structure Grammar where
  closing : List Char
  reading : List Char → Reading

-- A reading takes at least one character.
def Grammar.read (g : Grammar) : Nat → List Char → Option (List Char × List Char)
  | 0,_ => none
  | fuel + 1,cs =>
    match g.reading cs with
    | .close rest => some ([],rest)
    | .text value rest => (g.read fuel rest).map fun parts => (value ++ parts.1,parts.2)
    | .invalid => none

-- A literal and nothing behind it.
def Grammar.body (g : Grammar) (cs : List Char) : Option (List Char) :=
  match g.read (cs.length + 1) cs with
  | some (value,[]) => some value
  | _ => none

-- Each character is written so that it is read back as itself, whatever
-- characters that may follow it come behind.
structure Grammar.Inverts (g : Grammar) (P : List Char → Prop) (escape : List Char → List Char) : Prop where
  nil : escape [] = []
  tail : ∀ c cs,P (c :: cs) → P cs
  cons : ∀ c cs,P (c :: cs) → ∃ text,text ≠ [] ∧ escape (c :: cs) = text ++ escape cs ∧
    g.reading (text ++ (escape cs ++ g.closing)) = .text [c] (escape cs ++ g.closing)
  closes : g.reading g.closing = .close []

theorem Grammar.Inverts.read {g : Grammar} {P : List Char → Prop} {escape : List Char → List Char}
    (inverts : g.Inverts P escape) {cs : List Char} (allowed : P cs) {fuel : Nat}
    (enough : (escape cs ++ g.closing).length < fuel) : g.read fuel (escape cs ++ g.closing) = some (cs,[]) := by
  induction cs generalizing fuel with
  | nil =>
    obtain ⟨fuel,rfl⟩ : ∃ n,fuel = n + 1 := ⟨fuel - 1,by omega⟩
    rw [inverts.nil,List.nil_append,Grammar.read,inverts.closes]
  | cons c cs ih =>
    obtain ⟨fuel,rfl⟩ : ∃ n,fuel = n + 1 := ⟨fuel - 1,by omega⟩
    obtain ⟨text,written,is,reads⟩ := inverts.cons c cs allowed
    have taken := List.length_pos_iff.mpr written
    rw [is,List.append_assoc,List.length_append] at enough
    rw [is,List.append_assoc,Grammar.read,reads]
    dsimp only
    rw [ih (inverts.tail c cs allowed) (by omega)]
    rfl

theorem Grammar.Inverts.body {g : Grammar} {P : List Char → Prop} {escape : List Char → List Char}
    (inverts : g.Inverts P escape) {cs : List Char} (allowed : P cs) :
    g.body (escape cs ++ g.closing) = some cs := by
  unfold Grammar.body
  rw [inverts.read allowed (Nat.lt_succ_self _)]

-- Where a character may come out as more than itself, the whole literal is one
-- exactly when none does.
structure Grammar.Decides (g : Grammar) (plain : List Char → Bool) (escape : List Char → List Char) : Prop where
  nil : escape [] = []
  cons : ∀ c cs,∃ text,text ≠ [] ∧ escape (c :: cs) = text ++ escape cs ∧
    g.reading (text ++ (escape cs ++ g.closing)) =
      if plain (c :: cs) then .text [c] (escape cs ++ g.closing) else .invalid
  closes : g.reading g.closing = .close []

def Throughout (plain : List Char → Bool) (cs : List Char) : Prop :=
  ∀ c rest,c :: rest <:+ cs → plain (c :: rest) = true

theorem throughout_cons {plain : List Char → Bool} {c : Char} {cs : List Char} :
    Throughout plain (c :: cs) ↔ plain (c :: cs) = true ∧ Throughout plain cs := by
  constructor
  · intro all
    exact ⟨all c cs (List.suffix_refl _),fun d rest suffix => all d rest (suffix.trans (List.suffix_cons c cs))⟩
  · rintro ⟨here,later⟩ d rest suffix
    rcases List.suffix_cons_iff.mp suffix with same | inside
    · cases same
      exact here
    · exact later d rest inside

theorem Grammar.Decides.read_iff {g : Grammar} {plain : List Char → Bool} {escape : List Char → List Char}
    (decides : g.Decides plain escape) {cs : List Char} {fuel : Nat}
    (enough : (escape cs ++ g.closing).length < fuel) (parts : List Char × List Char) :
    g.read fuel (escape cs ++ g.closing) = some parts ↔ parts = (cs,[]) ∧ Throughout plain cs := by
  induction cs generalizing fuel parts with
  | nil =>
    obtain ⟨fuel,rfl⟩ : ∃ n,fuel = n + 1 := ⟨fuel - 1,by omega⟩
    have nothing : Throughout plain [] := by
      intro c rest suffix
      cases List.suffix_nil.mp suffix
    rw [decides.nil,List.nil_append,Grammar.read,decides.closes]
    simpa [nothing] using eq_comm
  | cons c cs ih =>
    obtain ⟨fuel,rfl⟩ : ∃ n,fuel = n + 1 := ⟨fuel - 1,by omega⟩
    obtain ⟨text,written,is,reads⟩ := decides.cons c cs
    have taken := List.length_pos_iff.mpr written
    rw [is,List.append_assoc,List.length_append] at enough
    rw [is,List.append_assoc,Grammar.read,reads,throughout_cons]
    cases plain (c :: cs) with
    | false => simp
    | true =>
      simp only [if_true,Option.map_eq_some_iff,ih (by omega : (escape cs ++ g.closing).length < fuel)]
      constructor
      · rintro ⟨inner,⟨rfl,all⟩,rfl⟩
        exact ⟨rfl,trivial,all⟩
      · rintro ⟨rfl,-,all⟩
        exact ⟨(cs,[]),⟨rfl,all⟩,rfl⟩

theorem Grammar.Decides.body_iff {g : Grammar} {plain : List Char → Bool} {escape : List Char → List Char}
    (decides : g.Decides plain escape) (cs value : List Char) :
    g.body (escape cs ++ g.closing) = some value ↔ value = cs ∧ Throughout plain cs := by
  have reads := decides.read_iff (Nat.lt_succ_self (escape cs ++ g.closing).length)
  unfold Grammar.body
  constructor
  · intro is
    split at is
    · rename_i read
      cases is
      obtain ⟨same,all⟩ := (reads _).mp read
      exact ⟨congrArg Prod.fst same,all⟩
    · cases is
  · rintro ⟨rfl,all⟩
    rw [(reads _).mpr ⟨rfl,all⟩]

-- The characters of what is read all stand in the literal, when every reading
-- denotes what it takes.
theorem Grammar.read_subset {g : Grammar}
    (plain : ∀ cs value rest,g.reading cs = .text value rest → value ⊆ cs ∧ rest ⊆ cs) {fuel : Nat}
    {cs value rest : List Char} (read : g.read fuel cs = some (value,rest)) : value ⊆ cs := by
  induction fuel generalizing cs value rest with
  | zero => cases read
  | succ fuel ih =>
    rw [Grammar.read] at read
    split at read
    · cases read
      exact List.nil_subset _
    · rename_i front after is
      obtain ⟨parts,tail,equal⟩ := Option.map_eq_some_iff.mp read
      cases equal
      obtain ⟨inFront,inAfter⟩ := plain _ _ _ is
      exact List.append_subset.mpr ⟨inFront,List.Subset.trans (ih tail) inAfter⟩
    · cases read

theorem Grammar.body_subset {g : Grammar}
    (plain : ∀ cs value rest,g.reading cs = .text value rest → value ⊆ cs ∧ rest ⊆ cs) {cs value : List Char}
    (is : g.body cs = some value) : value ⊆ cs := by
  unfold Grammar.body at is
  split at is
  · rename_i read
    cases is
    exact g.read_subset plain read
  · cases is

-- Escaping character by character.
def substituted (substitute : Char → Option (List Char)) (cs : List Char) : List Char :=
  cs.flatMap fun c => (substitute c).getD [c]

@[simp] theorem substituted_nil (substitute : Char → Option (List Char)) : substituted substitute [] = [] := rfl

@[simp] theorem substituted_cons (substitute : Char → Option (List Char)) (c : Char) (cs : List Char) :
    substituted substitute (c :: cs) = (substitute c).getD [c] ++ substituted substitute cs := by
  simp [substituted]

theorem inverts_substituted {g : Grammar} {substitute : Char → Option (List Char)}
    (escaped : ∀ c text rest,substitute c = some text → text ≠ [] ∧ g.reading (text ++ rest) = .text [c] rest)
    (plain : ∀ c rest,substitute c = none → g.reading (c :: rest) = .text [c] rest)
    (closes : g.reading g.closing = .close []) : g.Inverts (fun _ => True) (substituted substitute) := by
  refine ⟨rfl,fun _ _ _ => trivial,fun c cs _ => ?_,closes⟩
  cases is : substitute c with
  | some text =>
    obtain ⟨written,reads⟩ := escaped c text (substituted substitute cs ++ g.closing) is
    exact ⟨text,written,by simp [is],reads⟩
  | none => exact ⟨[c],List.cons_ne_nil _ _,by simp [is],plain c _ is⟩

-- How the text of a source file is read before its tokens are: a carriage
-- return with its line feed is a line feed, one alone becomes `lone` or is an
-- error, and so is every forbidden character.
structure LineEnds where
  lone : Option Char
  forbidden : Char → Bool

def LineEnds.translate (ends : LineEnds) : List Char → Option (List Char)
  | [] => some []
  | '\r' :: '\n' :: cs => (ends.translate cs).map ('\n' :: ·)
  | '\r' :: cs => ends.lone.bind fun c => (ends.translate cs).map (c :: ·)
  | c :: cs => if ends.forbidden c then none else (ends.translate cs).map (c :: ·)

def LineEnds.Clean (ends : LineEnds) (cs : List Char) : Prop := ∀ c ∈ cs,c ≠ '\r' ∧ ends.forbidden c = false

theorem LineEnds.translate_cons {ends : LineEnds} {c : Char} (plain : c ≠ '\r') (cs : List Char) :
    ends.translate (c :: cs) = if ends.forbidden c then none else (ends.translate cs).map (c :: ·) := by
  rw [LineEnds.translate]
  · rintro rest equal -
    exact plain equal
  · rintro equal
    exact plain equal

theorem LineEnds.translate_append {ends : LineEnds} {text : List Char} (clean : ends.Clean text) (rest : List Char) :
    ends.translate (text ++ rest) = (ends.translate rest).map (text ++ ·) := by
  induction text with
  | nil => simp
  | cons c text ih =>
    obtain ⟨plain,allowed⟩ := clean c List.mem_cons_self
    have tail := ih fun d member => clean d (List.mem_cons_of_mem _ member)
    rw [List.cons_append,LineEnds.translate_cons plain,allowed,tail]
    simp [Function.comp_def]

theorem LineEnds.translate_clean {ends : LineEnds} {text : List Char} (clean : ends.Clean text) :
    ends.translate text = some text := by
  have whole := LineEnds.translate_append clean []
  simpa [LineEnds.translate] using whole

theorem LineEnds.translate_members {ends : LineEnds} (lone : ends.lone ≠ some '\r') {cs text : List Char}
    (is : ends.translate cs = some text) : '\r' ∉ text := by
  fun_induction LineEnds.translate ends cs generalizing text with
  | case1 => cases is; exact List.not_mem_nil
  | case2 cs ih =>
    obtain ⟨rest,translated,rfl⟩ := Option.map_eq_some_iff.mp is
    simpa using ih translated
  | case3 cs other ih =>
    obtain ⟨c,known,there⟩ := Option.bind_eq_some_iff.mp is
    obtain ⟨rest,translated,rfl⟩ := Option.map_eq_some_iff.mp there
    have differs : c ≠ '\r' := fun equal => lone (equal ▸ known)
    simpa using ⟨differs.symm,ih translated⟩
  | case4 => cases is
  | case5 c cs notPair notReturn allowed ih =>
    obtain ⟨rest,translated,rfl⟩ := Option.map_eq_some_iff.mp is
    have differs : c ≠ '\r' := fun equal => notReturn equal
    simpa using ⟨differs.symm,ih translated⟩

-- A text is left as it is exactly when it is clean.
theorem LineEnds.translate_self_iff {ends : LineEnds} (lone : ends.lone ≠ some '\r') {cs : List Char} :
    ends.translate cs = some cs ↔ ends.Clean cs := by
  refine ⟨fun same => ?_,LineEnds.translate_clean⟩
  have returns := LineEnds.translate_members lone same
  induction cs with
  | nil => exact fun c member => absurd member List.not_mem_nil
  | cons c cs ih =>
    have plain : c ≠ '\r' := fun equal => returns (equal ▸ List.mem_cons_self)
    rw [LineEnds.translate_cons plain] at same
    split at same
    · cases same
    · rename_i allowed
      have tail : ends.translate cs = some cs := by simpa using same
      have rest := ih tail fun member => returns (List.mem_cons_of_mem _ member)
      exact List.forall_mem_cons.mpr ⟨⟨plain,by simpa using allowed⟩,rest⟩

theorem LineEnds.translate_return {ends : LineEnds} {cs : List Char} (other : ∀ rest,cs ≠ '\n' :: rest) :
    ends.translate ('\r' :: cs) = ends.lone.bind fun c => (ends.translate cs).map (c :: ·) := by
  rw [LineEnds.translate]
  exact other

-- A host that keeps a lone carriage return and forbids nothing changes line ends
-- only.
theorem LineEnds.translate_kept_iff {ends : LineEnds} (lone : ends.lone = some '\r')
    (allowed : ∀ c,ends.forbidden c = false) {cs : List Char} :
    ends.translate cs = some cs ↔ ¬['\r','\n'] <:+: cs := by
  fun_induction LineEnds.translate ends cs with
  | case1 => simp
  | case2 cs ih =>
    have inside : ['\r','\n'] <:+: '\r' :: '\n' :: cs := List.infix_append [] _ cs
    simp [inside]
  | case3 cs other ih =>
    have front : ¬['\r','\n'] <+: '\r' :: cs := by
      rintro ⟨rest,is⟩
      exact other rest (List.cons.inj is).2.symm
    simp [lone,ih,List.infix_cons_iff,front]
  | case4 c cs _ _ banned =>
    rw [allowed] at banned
    cases banned
  | case5 c cs _ notReturn _ ih =>
    have front : ¬['\r','\n'] <+: c :: cs := by
      rintro ⟨rest,is⟩
      exact notReturn (List.cons.inj is).1.symm
    simp [ih,List.infix_cons_iff,front]

-- Escapes that keep away from the line ends.
structure LineEnds.Spares (ends : LineEnds) (substitute : Char → Option (List Char)) : Prop where
  plain : ∀ c text,substitute c = some text → c ≠ '\r' ∧ c ≠ '\n' ∧ ends.forbidden c = false
  clean : ∀ c text,substitute c = some text → ends.Clean text ∧ text ≠ [] ∧ '\n' ∉ text
  lone : ∀ c ∈ ends.lone,substitute c = none

theorem LineEnds.Spares.feed {ends : LineEnds} {substitute : Char → Option (List Char)}
    (spares : ends.Spares substitute) {tail : List Char} (tailFeed : '\n' ∉ tail) {cs rest : List Char}
    (equal : substituted substitute cs ++ tail = '\n' :: rest) : ∃ rest,cs = '\n' :: rest := by
  have head := congrArg List.head? equal
  cases cs with
  | nil =>
    rw [substituted_nil,List.nil_append] at head
    exact absurd (List.mem_of_mem_head? (by rw [head]; rfl)) tailFeed
  | cons c cs =>
    rw [substituted_cons] at head
    cases is : substitute c with
    | none => exact ⟨cs,by rw [show c = '\n' by simpa [is] using head]⟩
    | some text =>
      obtain ⟨-,written,feedless⟩ := spares.clean c text is
      obtain ⟨d,text,rfl⟩ := List.exists_cons_of_ne_nil written
      have same : d = '\n' := by simpa [is] using head
      exact absurd (same ▸ List.mem_cons_self) feedless

theorem LineEnds.Spares.translate {ends : LineEnds} {substitute : Char → Option (List Char)}
    (spares : ends.Spares substitute) {tail : List Char} (tailClean : ends.Clean tail) (tailFeed : '\n' ∉ tail)
    (cs : List Char) :
    ends.translate (substituted substitute cs ++ tail) =
      (ends.translate cs).map fun text => substituted substitute text ++ tail := by
  have carriage : substitute '\r' = none := by
    cases is : substitute '\r' with
    | none => rfl
    | some text => exact absurd rfl (spares.plain _ text is).1
  have feed : substitute '\n' = none := by
    cases is : substitute '\n' with
    | none => rfl
    | some text => exact absurd rfl (spares.plain _ text is).2.1
  fun_induction LineEnds.translate ends cs with
  | case1 => simpa using LineEnds.translate_clean tailClean
  | case2 cs ih =>
    rw [substituted_cons,substituted_cons,carriage,feed]
    change ends.translate ('\r' :: '\n' :: (substituted substitute cs ++ tail)) = _
    rw [LineEnds.translate,ih]
    cases ends.translate cs <;> simp [feed]
  | case3 cs other ih =>
    rw [substituted_cons,carriage]
    change ends.translate ('\r' :: (substituted substitute cs ++ tail)) = _
    rw [LineEnds.translate_return,ih]
    · cases known : ends.lone with
      | none => rfl
      | some c =>
        have unescaped := spares.lone c known
        cases ends.translate cs <;> simp [unescaped]
    · intro rest equal
      obtain ⟨after,starts⟩ := spares.feed tailFeed equal
      exact other after starts
  | case4 c cs notPair notReturn banned =>
    have unescaped : substitute c = none := by
      cases is : substitute c with
      | none => rfl
      | some text => rw [(spares.plain c text is).2.2] at banned; cases banned
    rw [substituted_cons,unescaped]
    change ends.translate (c :: (substituted substitute cs ++ tail)) = _
    rw [LineEnds.translate_cons notReturn,if_pos banned]
    rfl
  | case5 c cs notPair notReturn allowed ih =>
    rw [substituted_cons,List.append_assoc]
    cases is : substitute c with
    | none =>
      change ends.translate (c :: (substituted substitute cs ++ tail)) = _
      rw [LineEnds.translate_cons notReturn,if_neg allowed,ih]
      cases ends.translate cs <;> simp [is]
    | some text =>
      rw [Option.getD_some,LineEnds.translate_append (spares.clean c text is).1,ih]
      cases ends.translate cs <;> simp [is]

end StringLiteral
