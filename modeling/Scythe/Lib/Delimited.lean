import Mathlib.Data.List.Forall2
import Mathlib.Data.List.Nodup
import Mathlib.Data.Multiset.MapFold
import Scythe.Lib.Text

-- Texts whose parts stand between separators. A part is escaped with backslashes
-- so that no separator is read inside of it, and the parts can be told apart.
namespace Delimited
open Text

inductive Token where
  | bare (c : Char)
  | escaped (c : Char)
  deriving DecidableEq

-- A backslash takes the character behind it with it.
def tokens : List Char → List Token
  | [] => []
  | [c] => [.bare c]
  | c :: d :: cs => if c = '\\' then .escaped d :: tokens cs else .bare c :: tokens (d :: cs)

def Token.spelled : Token → List Char
  | .bare c => [c]
  | .escaped c => ['\\',c]

theorem spelled_tokens (text : List Char) : (tokens text).flatMap Token.spelled = text := by
  induction text using tokens.induct with
  | case1 => rfl
  | case2 c => rfl
  | case3 d cs ih => simp [tokens,Token.spelled,ih]
  | case4 c d cs other ih => simp [tokens,Token.spelled,ih,other]

theorem tokens_inj {text other : List Char} (equal : tokens text = tokens other) : text = other := by
  rw [← spelled_tokens text,equal,spelled_tokens]

@[simp] theorem tokens_bare {c : Char} (plain : c ≠ '\\') (cs : List Char) : tokens (c :: cs) = .bare c :: tokens cs := by
  cases cs <;> simp [tokens,plain]

@[simp] theorem tokens_escaped (c : Char) (cs : List Char) : tokens ('\\' :: c :: cs) = .escaped c :: tokens cs := by
  simp [tokens]

-- No backslash at the end waits for a character.
def Closed (text : List Char) : Prop := ∀ rest,tokens (text ++ rest) = tokens text ++ tokens rest

theorem closed_nil : Closed [] := fun _ => rfl

theorem Closed.append {front back : List Char} (first : Closed front) (second : Closed back) : Closed (front ++ back) := by
  intro rest
  rw [List.append_assoc,first,second,first,List.append_assoc]

theorem closed_plain {text : List Char} (plain : '\\' ∉ text) : Closed text := by
  induction text with
  | nil => exact closed_nil
  | cons c text ih =>
    have other : c ≠ '\\' := fun equal => plain (equal ▸ List.mem_cons_self)
    have tail := ih fun member => plain (List.mem_cons_of_mem _ member)
    intro rest
    rw [List.cons_append,tokens_bare other,tokens_bare other,tail]
    rfl

theorem tokens_plain {text : List Char} (plain : '\\' ∉ text) : tokens text = text.map .bare := by
  induction text with
  | nil => rfl
  | cons c text ih =>
    have other : c ≠ '\\' := fun equal => plain (equal ▸ List.mem_cons_self)
    rw [tokens_bare other,ih fun member => plain (List.mem_cons_of_mem _ member)]
    rfl

-- A text in which none of the separators is read.
structure Part (separators : List Char) (text : String) : Prop where
  closed : Closed text.toList
  apart : ∀ separator ∈ separators,.bare separator ∉ tokens text.toList

section
variable {separators : List Char}

theorem part_plain {text : String} (plain : '\\' ∉ text.toList) (apart : ∀ separator ∈ separators,separator ∉ text.toList) :
    Part separators text := by
  refine ⟨closed_plain plain,?_⟩
  intro separator among member
  rw [tokens_plain plain] at member
  obtain ⟨c,inside,equal⟩ := List.mem_map.mp member
  cases equal
  exact apart _ among inside

theorem part_checked {text : String} (checked : text.toList.all (fun c => c != '\\' && !separators.contains c) = true) :
    Part separators text := by
  have each := List.all_eq_true.mp checked
  apply part_plain
  · intro member
    have plain := each _ member
    simp at plain
  · intro separator among member
    have plain := each _ member
    simp [among] at plain

theorem part_nat (signs : separators.all (fun separator => !separator.isDigit) = true) (n : Nat) :
    Part separators (toString n) := by
  have digit : ∀ c ∈ (toString n).toList,c.isDigit := by
    intro c member
    rw [Nat.toString_eq_repr,Nat.toList_repr] at member
    exact Nat.isDigit_of_mem_toDigits (by decide) (by decide) member
  apply part_plain
  · intro member
    cases digit _ member
  · intro separator among member
    have wrong := List.all_eq_true.mp signs separator among
    rw [digit _ member] at wrong
    cases wrong

theorem Part.append {front back : String} (first : Part separators front) (second : Part separators back) :
    Part separators (front ++ back) := by
  constructor
  · rw [String.toList_append]
    exact first.closed.append second.closed
  · intro separator among member
    rw [String.toList_append,first.closed,List.mem_append] at member
    rcases member with inFront | inBack
    · exact first.apart separator among inFront
    · exact second.apart separator among inBack

theorem Part.of_subset {fewer : List Char} {text : String} (part : Part separators text) (among : fewer ⊆ separators) :
    Part fewer text :=
  ⟨part.closed,fun separator member => part.apart separator (among member)⟩

theorem Part.join {separator : String} (plain : Part separators separator) {parts : List String}
    (each : ∀ part ∈ parts,Part separators part) : Part separators (join separator parts) := by
  induction parts with
  | nil => exact part_plain (by simp [Text.join]) (by simp [Text.join])
  | cons part parts ih =>
    have first := each part List.mem_cons_self
    have rest := ih fun other member => each other (List.mem_cons_of_mem _ member)
    cases parts with
    | nil => exact first
    | cons next parts => exact (first.append plain).append rest

end

-- One part, its separator and the others.
theorem join_cons (separator part next : String) (parts : List String) :
    (join separator (part :: next :: parts)).toList =
      part.toList ++ (separator.toList ++ (join separator (next :: parts)).toList) := by
  rw [join,String.toList_append,String.toList_append,List.append_assoc]
  rintro ⟨⟩

theorem tokens_join {separator : Char} (other : separator ≠ '\\') {part next : String} (closed : Closed part.toList)
    (parts : List String) :
    tokens (join (String.ofList [separator]) (part :: next :: parts)).toList =
      tokens part.toList ++ .bare separator :: tokens (join (String.ofList [separator]) (next :: parts)).toList := by
  rw [join_cons,closed,String.toList_ofList,List.singleton_append,tokens_bare other]

theorem cut_unique {α : Type} {separator : α} {x y xs ys : List α} (left : separator ∉ x) (right : separator ∉ y)
    (equal : x ++ separator :: xs = y ++ separator :: ys) : x = y ∧ xs = ys := by
  induction x generalizing y with
  | nil =>
    cases y with
    | nil => exact ⟨rfl,by simpa using equal⟩
    | cons d y =>
      simp only [List.nil_append,List.cons_append,List.cons.injEq] at equal
      exact absurd (equal.1 ▸ List.mem_cons_self) right
  | cons c x ih =>
    cases y with
    | nil =>
      simp only [List.nil_append,List.cons_append,List.cons.injEq] at equal
      exact absurd (equal.1 ▸ List.mem_cons_self) left
    | cons d y =>
      simp only [List.cons_append,List.cons.injEq] at equal
      have rest := ih (fun member => left (List.mem_cons_of_mem _ member))
        (fun member => right (List.mem_cons_of_mem _ member)) equal.2
      exact ⟨by rw [equal.1,rest.1],rest.2⟩

-- The parts of a text are the only ones that it was joined from.
theorem join_inj {separator : Char} (other : separator ≠ '\\') {xs ys : List String}
    (left : ∀ x ∈ xs,Part [separator] x) (right : ∀ y ∈ ys,Part [separator] y) (some' : xs ≠ []) (someOther : ys ≠ [])
    (equal : join (String.ofList [separator]) xs = join (String.ofList [separator]) ys) : xs = ys := by
  induction xs generalizing ys with
  | nil => exact absurd rfl some'
  | cons x xs ih =>
    cases ys with
    | nil => exact absurd rfl someOther
    | cons y ys =>
      have first := left x List.mem_cons_self
      have firstOther := right y List.mem_cons_self
      have apart := first.apart separator (List.mem_singleton.mpr rfl)
      have apartOther := firstOther.apart separator (List.mem_singleton.mpr rfl)
      have equalTokens := congrArg (fun text => tokens text.toList) equal
      cases xs with
      | nil =>
        cases ys with
        | nil => exact congrArg (fun text => [text]) equal
        | cons next ys =>
          rw [tokens_join other firstOther.closed] at equalTokens
          refine absurd ?_ apart
          rw [show join (String.ofList [separator]) [x] = x from rfl] at equalTokens
          rw [equalTokens]
          simp
      | cons next xs =>
        cases ys with
        | nil =>
          rw [tokens_join other first.closed] at equalTokens
          refine absurd ?_ apartOther
          rw [show join (String.ofList [separator]) [y] = y from rfl] at equalTokens
          rw [← equalTokens]
          simp
        | cons nextOther ys =>
          rw [tokens_join other first.closed,tokens_join other firstOther.closed] at equalTokens
          obtain ⟨heads,tails⟩ := cut_unique apart apartOther equalTokens
          have same : x = y := String.toList_inj.mp (tokens_inj heads)
          have rest := ih (fun z member => left z (List.mem_cons_of_mem _ member))
            (fun z member => right z (List.mem_cons_of_mem _ member)) (List.cons_ne_nil _ _) (List.cons_ne_nil _ _)
            (String.toList_inj.mp (tokens_inj tails))
          rw [same,rest]

-- A text joined from as many parts as another, with the same sign behind both.
theorem join_followed {separator follow : Char} (other : separator ≠ '\\') {xs ys : List String}
    (left : ∀ x ∈ xs,Part [separator,follow] x) (right : ∀ y ∈ ys,Part [separator,follow] y) (written : xs ≠ [])
    (counts : xs.length = ys.length) {rest others : List Token}
    (equal : tokens (join (String.ofList [separator]) xs).toList ++ .bare follow :: rest =
      tokens (join (String.ofList [separator]) ys).toList ++ .bare follow :: others) : xs = ys ∧ rest = others := by
  induction xs generalizing ys with
  | nil => exact absurd rfl written
  | cons x xs ih =>
    cases ys with
    | nil => cases counts
    | cons y ys =>
      have first := left x List.mem_cons_self
      have firstOther := right y List.mem_cons_self
      cases xs with
      | nil =>
        cases ys with
        | nil =>
          obtain ⟨heads,tails⟩ := cut_unique (first.apart follow (by simp)) (firstOther.apart follow (by simp)) equal
          exact ⟨congrArg (fun text => [text]) (String.toList_inj.mp (tokens_inj heads)),tails⟩
        | cons next ys => simp at counts
      | cons next xs =>
        cases ys with
        | nil => simp at counts
        | cons nextOther ys =>
          rw [tokens_join other first.closed,tokens_join other firstOther.closed,List.append_assoc,
            List.append_assoc,List.cons_append,List.cons_append] at equal
          obtain ⟨heads,tails⟩ := cut_unique (first.apart separator (by simp)) (firstOther.apart separator (by simp)) equal
          have more := ih (fun z member => left z (List.mem_cons_of_mem _ member))
            (fun z member => right z (List.mem_cons_of_mem _ member)) (List.cons_ne_nil _ _) (by simpa using counts) tails
          rw [String.toList_inj.mp (tokens_inj heads),more.1]
          exact ⟨rfl,more.2⟩

-- A tag in front of a text that may hold the separator itself.
theorem pair_inj {separator : Char} (other : separator ≠ '\\') {tag name text content : String}
    (left : Part [separator] tag) (right : Part [separator] name)
    (equal : join (String.ofList [separator]) [tag,text] = join (String.ofList [separator]) [name,content]) :
    tag = name ∧ text = content := by
  have equalTokens := congrArg (fun text => tokens text.toList) equal
  rw [tokens_join other left.closed,tokens_join other right.closed] at equalTokens
  obtain ⟨heads,tails⟩ := cut_unique (left.apart separator (by simp)) (right.apart separator (by simp)) equalTokens
  exact ⟨String.toList_inj.mp (tokens_inj heads),String.toList_inj.mp (tokens_inj tails)⟩

theorem join_empty {separator first : String} {rest : List String} (empty : join separator (first :: rest) = "") :
    first = "" := by
  cases rest with
  | nil => exact empty
  | cons next rest =>
    have chars := congrArg String.toList empty
    rw [join_cons] at chars
    simpa using (List.append_eq_nil_iff.mp chars).1

-- Where every part is written, no parts at all are told apart as well.
theorem join_written_inj {separator : Char} (other : separator ≠ '\\') {xs ys : List String}
    (left : ∀ x ∈ xs,Part [separator] x ∧ x ≠ "") (right : ∀ y ∈ ys,Part [separator] y ∧ y ≠ "")
    (equal : join (String.ofList [separator]) xs = join (String.ofList [separator]) ys) : xs = ys := by
  cases xs with
  | nil =>
    cases ys with
    | nil => rfl
    | cons y ys => exact absurd (join_empty equal.symm) (right y List.mem_cons_self).2
  | cons x xs =>
    cases ys with
    | nil => exact absurd (join_empty equal) (left x List.mem_cons_self).2
    | cons y ys =>
      exact join_inj other (fun z member => (left z member).1) (fun z member => (right z member).1)
        (List.cons_ne_nil _ _) (List.cons_ne_nil _ _) equal

-- Each special character is written as a backslash and a letter of its own.
structure Escape where
  letter : Char → Option Char
  slash : letter '\\' ≠ none
  apart : ∀ c d,letter c = letter d → letter c ≠ none → c = d

namespace Escape
variable (escape : Escape)

def token (c : Char) : Token :=
  match escape.letter c with
  | some letter => .escaped letter
  | none => .bare c

def chars (text : List Char) : List Char := text.flatMap fun c => (escape.token c).spelled

theorem token_inj {c d : Char} (equal : escape.token c = escape.token d) : c = d := by
  unfold token at equal
  cases first : escape.letter c <;> cases second : escape.letter d <;> simp only [first,second] at equal
  · cases equal
    rfl
  · cases equal
  · cases equal
  · apply escape.apart c d
    · rw [first,second]
      cases equal
      rfl
    · rw [first]
      exact Option.some_ne_none _

theorem tokens_spelled (c : Char) (rest : List Char) :
    tokens ((escape.token c).spelled ++ rest) = escape.token c :: tokens rest := by
  unfold token
  cases is : escape.letter c with
  | some letter => simp [Token.spelled]
  | none =>
    have plain : c ≠ '\\' := by
      rintro rfl
      exact escape.slash is
    simp [Token.spelled,plain]

theorem tokens_chars (text rest : List Char) : tokens (escape.chars text ++ rest) = text.map escape.token ++ tokens rest := by
  induction text with
  | nil => rfl
  | cons c text ih =>
    have head := escape.tokens_spelled c (escape.chars text ++ rest)
    rw [ih,← List.append_assoc] at head
    exact head

theorem chars_inj {text other : List Char} (equal : escape.chars text = escape.chars other) : text = other := by
  have same : text.map escape.token = other.map escape.token := by
    have left := escape.tokens_chars text []
    have right := escape.tokens_chars other []
    rw [equal,right] at left
    simpa [tokens] using left.symm
  exact List.map_injective_iff.mpr (fun _ _ => escape.token_inj) same

theorem part_chars {separators : List Char} (special : ∀ c ∈ separators,escape.letter c ≠ none) (text : List Char) :
    Part separators (String.ofList (escape.chars text)) := by
  have whole := escape.tokens_chars text []
  constructor
  · intro rest
    have alone : tokens (escape.chars text) = text.map escape.token := by simpa [tokens] using whole
    rw [String.toList_ofList,escape.tokens_chars,alone]
  · intro separator among member
    rw [String.toList_ofList,← List.append_nil (escape.chars text),whole] at member
    obtain ⟨c,_,is⟩ := List.mem_map.mp (by simpa [tokens] using member)
    unfold token at is
    split at is
    · cases is
    · rename_i plain
      cases is
      exact special _ among plain

end Escape

-- The first part of a text.
def tagOf (separator : Char) (text : String) : String :=
  match splitOnce text separator with
  | some (tag,_) => tag
  | none => text

theorem tagOf_join {separator : Char} {tag : String} (apart : separator ∉ tag.toList) (next : String) (parts : List String) :
    tagOf separator (join (String.ofList [separator]) (tag :: next :: parts)) = tag := by
  unfold tagOf splitOnce
  rw [join_cons,String.toList_ofList,List.singleton_append,splitFirst_single apart]
  simp

theorem nat_inj {n m : Nat} (equal : (toString n : String) = toString m) : n = m := by
  have digits : Nat.toDigits 10 n = Nat.toDigits 10 m := by
    rw [Nat.toString_eq_repr,Nat.toString_eq_repr] at equal
    simpa only [Nat.toList_repr] using congrArg String.toList equal
  simpa using congrArg (fun digits => Nat.ofDigitChars 10 digits 0) digits

-- Two sections that no row can be moved between.
theorem sections_inj {β : Type} {isFirst : β → Bool} {front back otherFront otherBack : List β}
    (first : ∀ row ∈ front,isFirst row) (second : ∀ row ∈ back,isFirst row = false)
    (otherFirst : ∀ row ∈ otherFront,isFirst row) (otherSecond : ∀ row ∈ otherBack,isFirst row = false)
    (equal : front ++ back = otherFront ++ otherBack) : front = otherFront ∧ back = otherBack := by
  have chosen : ∀ {xs ys : List β},(∀ row ∈ xs,isFirst row) → (∀ row ∈ ys,isFirst row = false) →
      (xs ++ ys).filter isFirst = xs := by
    intro xs ys inside outside
    rw [List.filter_append,List.filter_eq_self.mpr inside,List.filter_eq_nil_iff.mpr fun row member => by
      rw [outside row member]; exact Bool.false_ne_true]
    exact List.append_nil xs
  have fronts : front = otherFront := by
    rw [← chosen first second,equal,chosen otherFirst otherSecond]
  subst fronts
  exact ⟨rfl,List.append_cancel_left equal⟩

-- Sections in a fixed order, each with rows of its own kind.
theorem kinds_inj {β κ : Type} [DecidableEq κ] {kindOf : β → κ} {kinds : List κ} (distinct : kinds.Nodup)
    {sections others : List (List β)}
    (left : List.Forall₂ (fun kind rows => ∀ row ∈ rows,kindOf row = kind) kinds sections)
    (right : List.Forall₂ (fun kind rows => ∀ row ∈ rows,kindOf row = kind) kinds others)
    (equal : sections.flatten = others.flatten) : sections = others := by
  have later : ∀ {kinds : List κ} {sections : List (List β)},
      List.Forall₂ (fun kind rows => ∀ row ∈ rows,kindOf row = kind) kinds sections →
      ∀ row ∈ sections.flatten,kindOf row ∈ kinds := by
    intro kinds sections all
    induction all with
    | nil =>
      intro row member
      cases member
    | cons head tail ih =>
      intro row member
      rw [List.flatten_cons,List.mem_append] at member
      rcases member with here | there
      · rw [head row here]
        exact List.mem_cons_self
      · exact List.mem_cons_of_mem _ (ih row there)
  induction left generalizing others with
  | nil =>
    cases right
    rfl
  | @cons kind rows kinds sections head tail ih =>
    cases right with
    | @cons _ rowsOther _ others headOther tailOther =>
      obtain ⟨fresh,rest⟩ := List.nodup_cons.mp distinct
      have outside : ∀ {sections : List (List β)},
          List.Forall₂ (fun kind rows => ∀ row ∈ rows,kindOf row = kind) kinds sections →
          ∀ row ∈ sections.flatten,decide (kindOf row = kind) = false := by
        intro sections all row member
        apply decide_eq_false
        intro same
        exact fresh (same ▸ later all row member)
      rw [List.flatten_cons,List.flatten_cons] at equal
      obtain ⟨fronts,backs⟩ := sections_inj (fun row member => decide_eq_true (head row member)) (outside tail)
        (fun row member => decide_eq_true (headOther row member)) (outside tailOther) equal
      rw [fronts,ih rest tailOther backs]

-- What a line holds is known by its lines.
theorem map_iff {α β γ : Type} {f : α → β} {g : α → γ} (same : ∀ x y,f x = f y ↔ g x = g y) (xs ys : List α) :
    xs.map f = ys.map f ↔ xs.map g = ys.map g := by
  induction xs generalizing ys with
  | nil => cases ys <;> simp
  | cons x xs ih =>
    cases ys with
    | nil => simp
    | cons y ys => rw [List.map_cons,List.map_cons,List.map_cons,List.map_cons,List.cons.injEq,List.cons.injEq,same,ih]

-- What is known by a first form of the members is known by the forms of them all.
theorem multiset_map_eq {α β γ : Type} [Nonempty γ] {f : α → β} {g : α → γ} (same : ∀ x y,f x = f y → g x = g y)
    {s t : Multiset α} (equal : s.map f = t.map f) : s.map g = t.map g := by
  have factors : g.FactorsThrough f := fun {x y} => same x y
  obtain ⟨read,is⟩ := (Function.factorsThrough_iff g).mp factors
  have through := congrArg (Multiset.map read) equal
  rw [Multiset.map_map,Multiset.map_map] at through
  rw [is]
  exact through

-- What is numbered by its place is known by its numbered forms.
theorem mapIdx_inj {α β : Type} {f : Nat → α → β} {P : α → α → Prop} (same : ∀ i x y,f i x = f i y → P x y)
    {xs ys : List α} (equal : xs.mapIdx f = ys.mapIdx f) : List.Forall₂ P xs ys := by
  induction xs generalizing ys f with
  | nil =>
    cases ys with
    | nil => exact .nil
    | cons y ys => simp at equal
  | cons x xs ih =>
    cases ys with
    | nil => simp at equal
    | cons y ys =>
      rw [List.mapIdx_cons,List.mapIdx_cons,List.cons.injEq] at equal
      exact .cons (same 0 x y equal.1) (ih (fun i => same (i + 1)) equal.2)

theorem map_eq_of_mapIdx {α β γ : Type} {f : Nat → α → β} {g : α → γ} (same : ∀ i x y,f i x = f i y → g x = g y)
    {xs ys : List α} (equal : xs.mapIdx f = ys.mapIdx f) : xs.map g = ys.map g := by
  have all := mapIdx_inj same equal
  clear equal
  induction all with
  | nil => rfl
  | cons head tail ih => rw [List.map_cons,List.map_cons,head,ih]

theorem mapIdx_eq {α β : Type} {f : Nat → α → β} (same : ∀ i x y,f i x = f i y → x = y) {xs ys : List α}
    (equal : xs.mapIdx f = ys.mapIdx f) : xs = ys := by
  have all := map_eq_of_mapIdx (g := id) same equal
  rwa [List.map_id,List.map_id] at all

-- Blocks that begin with a heading, and have none inside.
theorem blocks_inj {α β : Type} {isHeading : β → Bool} {heading : α → β} {rows : α → List β}
    (opens : ∀ a,isHeading (heading a)) (inside : ∀ a,∀ row ∈ rows a,isHeading row = false) {xs ys : List α}
    (equal : xs.flatMap (fun a => heading a :: rows a) = ys.flatMap (fun a => heading a :: rows a)) :
    List.Forall₂ (fun x y => heading x = heading y ∧ rows x = rows y) xs ys := by
  have opened : ∀ zs : List α,(zs.flatMap fun a => heading a :: rows a).takeWhile (fun row => !isHeading row) = [] := by
    intro zs
    cases zs with
    | nil => rfl
    | cons z zs => simp [opens z]
  have block : ∀ (a : α) (zs : List α),
      (rows a ++ zs.flatMap fun a => heading a :: rows a).takeWhile (fun row => !isHeading row) = rows a := by
    intro a zs
    rw [List.takeWhile_append_of_pos,opened,List.append_nil]
    intro row member
    simp [inside a row member]
  induction xs generalizing ys with
  | nil =>
    cases ys with
    | nil => exact .nil
    | cons y ys => simp at equal
  | cons x xs ih =>
    cases ys with
    | nil => simp at equal
    | cons y ys =>
      rw [List.flatMap_cons,List.flatMap_cons,List.cons_append,List.cons_append,List.cons.injEq] at equal
      have same : rows x = rows y := by
        have left := block x xs
        rw [equal.2,block y ys] at left
        exact left.symm
      have rest := equal.2
      rw [same] at rest
      exact .cons ⟨equal.1,same⟩ (ih (List.append_cancel_left rest))

theorem blocks_eq {α β : Type} {isHeading : β → Bool} {heading : α → β} {rows : α → List β}
    (opens : ∀ a,isHeading (heading a)) (inside : ∀ a,∀ row ∈ rows a,isHeading row = false)
    (same : ∀ x y,heading x = heading y → rows x = rows y → x = y) {xs ys : List α}
    (equal : xs.flatMap (fun a => heading a :: rows a) = ys.flatMap (fun a => heading a :: rows a)) : xs = ys := by
  have all : List.Forall₂ Eq xs ys := (blocks_inj opens inside equal).imp fun x y both => same x y both.1 both.2
  rw [List.forall₂_eq_eq_eq] at all
  exact all

-- Sorting by a key that no two entries share does not depend on their order.
def sortBy {α : Type} (key : α → String) (entries : List α) : List α := entries.mergeSort fun a b => key a ≤ key b

theorem sortBy_perm {α : Type} (key : α → String) (entries : List α) : (sortBy key entries).Perm entries :=
  List.mergeSort_perm _ _

theorem sortBy_sorted {α : Type} (key : α → String) (entries : List α) :
    (sortBy key entries).Pairwise fun a b => key a ≤ key b := by
  have sorted := @List.pairwise_mergeSort _ (fun a b => decide (key a ≤ key b)) (fun a b c first second => by
    simp only [decide_eq_true_eq] at first second ⊢
    exact String.le_trans first second) (fun a b => by
    simp only [Bool.or_eq_true,decide_eq_true_eq]
    exact String.le_total _ _) entries
  exact sorted.imp fun less => of_decide_eq_true less

theorem eq_of_key {α : Type} {key : α → String} {entries : List α} (distinct : (entries.map key).Nodup) {a b : α}
    (left : a ∈ entries) (right : b ∈ entries) (same : key a = key b) : a = b :=
  List.inj_on_of_nodup_map distinct left right same

theorem sortBy_eq {α : Type} {key : α → String} {entries others : List α} (distinct : (entries.map key).Nodup)
    (perm : entries.Perm others) : sortBy key entries = sortBy key others := by
  apply List.Perm.eq_of_pairwise ?_ (sortBy_sorted key entries) (sortBy_sorted key others)
  · exact ((sortBy_perm key entries).trans perm).trans (sortBy_perm key others).symm
  · intro a b left right first second
    have inEntries := (sortBy_perm key entries).mem_iff.mp left
    have inOthers := perm.mem_iff.mpr ((sortBy_perm key others).mem_iff.mp right)
    exact eq_of_key distinct inEntries inOthers (String.le_antisymm first second)

theorem sortBy_map {α β : Type} (f : α → β) {key : α → String} {keyOf : β → String}
    (keeps : ∀ a,keyOf (f a) = key a) (entries : List α) :
    sortBy keyOf (entries.map f) = (sortBy key entries).map f := by
  unfold sortBy
  rw [List.map_mergeSort]
  intro a _ b _
  rw [keeps,keeps]

end Delimited
