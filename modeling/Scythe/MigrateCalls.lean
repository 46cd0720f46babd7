import Mathlib.Data.Bool.AllAny
import Scythe.Lib.Splice
import Scythe.Migrate

-- Replacing one call after another is replacing all of them at once.
namespace Scythe.Migrate
open Text Splice

structure Call where
  nullable : Bool
  name : List Char
  deriving DecidableEq,Repr

def callPrefix (nullable : Bool) : List Char := (if nullable then "sqlc.narg(" else "sqlc.arg(").toList

def Call.text (call : Call) : List Char := callPrefix call.nullable ++ (call.name ++ [')'])

theorem callPrefix_start (nullable : Bool) : ∃ more,callPrefix nullable = 's' :: more := by
  cases nullable with
  | false => exact ⟨"qlc.arg(".toList,by decide⟩
  | true => exact ⟨"qlc.narg(".toList,by decide⟩

theorem Call.text_start (call : Call) : ∃ more,call.text = 's' :: more := by
  obtain ⟨more,starts⟩ := callPrefix_start call.nullable
  exact ⟨more ++ (call.name ++ [')']),by rw [Call.text,starts,List.cons_append]⟩

section
variable [WordClasses]

def callHere (cs : List Char) : Option (Call × List Char) :=
  match callAt "sqlc.arg" cs with
  | some (name,rest) => some (⟨false,name⟩,rest)
  | none => (callAt "sqlc.narg" cs).map fun parts => (⟨true,parts.1⟩,parts.2)

def Call.Proper (call : Call) : Prop := call.name ≠ [] ∧ ∀ c ∈ call.name,WordClasses.isWord c = true

def cutsWithin : Nat → List Char → List (Cut Char Call)
  | 0,_ => []
  | _,[] => []
  | fuel + 1,c :: cs =>
    match callHere (c :: cs) with
    | some (call,rest) => .site call :: cutsWithin fuel rest
    | none => .plain c :: cutsWithin fuel cs

def callCuts (text : List Char) : List (Cut Char Call) := cutsWithin text.length text

def Call.placeholder (number : List Char → Nat) (call : Call) : List Char := Migrate.placeholder (number call.name)

-- A text with all of its calls replaced.
def renamed (number : List Char → Nat) (text : List Char) : List Char :=
  spelled (Call.placeholder number) (callCuts text)

end

section
variable [classes : WordClasses]

theorem callAt_eq {function : String} {cs name rest : List Char} (is : callAt function cs = some (name,rest)) :
    cs = (function ++ "(").toList ++ (name ++ [')']) ++ rest ∧ name ≠ [] ∧ ∀ c ∈ name,WordClasses.isWord c = true := by
  unfold callAt at is
  obtain ⟨inner,opened,is⟩ := Option.bind_eq_some_iff.mp is
  obtain ⟨after,closed,is⟩ := Option.bind_eq_some_iff.mp is
  rw [List.isPrefixOf?_eq_some_iff_append_eq] at opened closed
  split at is
  · cases is
  · rename_i present
    obtain ⟨rfl,rfl⟩ := Prod.mk.inj (Option.some.inj is)
    refine ⟨?_,present,fun c member => List.mem_takeWhile_imp member⟩
    have whole := List.takeWhile_append_dropWhile (p := WordClasses.isWord) (l := inner)
    rw [← opened,List.append_assoc,List.append_assoc,List.singleton_append]
    congr 1
    calc inner = inner.takeWhile WordClasses.isWord ++ inner.dropWhile WordClasses.isWord := whole.symm
      _ = _ := by rw [← closed]; rfl

variable (lawful : classes.Lawful)
include lawful

theorem word_ne {c d : Char} (word : WordClasses.isWord c = true) (ascii : d.toNat < 128)
    (other : isAsciiWord d = false) : c ≠ d := by
  intro same
  rw [same,lawful.ascii d ascii,other] at word
  cases word

theorem callAt_text (function : String) {name : List Char} (rest : List Char) (present : name ≠ [])
    (word : ∀ c ∈ name,WordClasses.isWord c = true) :
    callAt function ((function ++ "(").toList ++ (name ++ [')']) ++ rest) = some (name,rest) := by
  have paren : WordClasses.isWord ')' = false := lawful.ascii ')' (by decide)
  have opened : (function ++ "(").toList.isPrefixOf? ((function ++ "(").toList ++ (name ++ [')']) ++ rest) =
      some (name ++ ')' :: rest) := by
    rw [List.isPrefixOf?_eq_some_iff_append_eq]
    simp
  have taken : (name ++ ')' :: rest).takeWhile WordClasses.isWord = name := by
    rw [List.takeWhile_append_of_pos word]
    simp [paren]
  have dropped : (name ++ ')' :: rest).dropWhile WordClasses.isWord = ')' :: rest := by
    rw [List.dropWhile_append_of_pos word]
    simp [paren]
  have closed : ")".toList.isPrefixOf? (')' :: rest) = some rest := by
    rw [List.isPrefixOf?_eq_some_iff_append_eq]
    rfl
  unfold callAt
  rw [opened,Option.bind_eq_bind,Option.bind_some,dropped,closed,Option.bind_some,taken,if_neg present]

theorem callHere_iff {cs rest : List Char} {call : Call} :
    callHere cs = some (call,rest) ↔ cs = call.text ++ rest ∧ call.Proper := by
  have arg : ("sqlc.arg" ++ "(").toList = callPrefix false := by decide
  have narg : ("sqlc.narg" ++ "(").toList = callPrefix true := by decide
  constructor
  · intro is
    unfold callHere at is
    split at is
    · rename_i name rest' found
      obtain ⟨rfl,rfl⟩ := Prod.mk.inj (Option.some.inj is)
      have read := callAt_eq found
      rw [arg] at read
      exact read
    · obtain ⟨parts,found,same⟩ := Option.map_eq_some_iff.mp is
      obtain ⟨rfl,rfl⟩ := Prod.mk.inj same
      have read := callAt_eq found
      rw [narg] at read
      exact read
  · intro is
    obtain ⟨rfl,present,word⟩ := is
    obtain ⟨nullable,name⟩ := call
    unfold callHere Call.text
    cases nullable with
    | false =>
      have found := callAt_text lawful "sqlc.arg" rest present word
      rw [arg] at found
      rw [found]
    | true =>
      have found := callAt_text lawful "sqlc.narg" rest present word
      have other : callAt "sqlc.arg" (callPrefix true ++ (name ++ [')']) ++ rest) = none := by
        rfl
      rw [narg] at found
      rw [other,found]
      rfl

theorem callHere_text {call : Call} (proper : call.Proper) (rest : List Char) :
    callHere (call.text ++ rest) = some (call,rest) := (callHere_iff lawful).mpr ⟨rfl,proper⟩

-- A call holds no other characters.
def CallChar (c : Char) : Prop := WordClasses.isWord c = true ∨ c ∈ ['.','(',')']

theorem call_chars {call : Call} (proper : call.Proper) : ∀ c ∈ call.text,CallChar c := by
  have plain : ∀ nullable,∀ c ∈ callPrefix nullable,c.toNat < 128 ∧ (isAsciiWord c = true ∨ c ∈ ['.','(',')']) := by
    intro nullable
    cases nullable with
    | false => exact List.all_iff_forall_prop.mp (by decide)
    | true => exact List.all_iff_forall_prop.mp (by decide)
  intro c member
  unfold Call.text at member
  rcases List.mem_append.mp member with opening | inner
  · obtain ⟨ascii,either⟩ := plain _ c opening
    rcases either with word | mark
    · exact Or.inl ((lawful.ascii c ascii).trans word)
    · exact Or.inr mark
  · rcases List.mem_append.mp inner with word | closing
    · exact Or.inl (proper.2 c word)
    · rw [List.mem_singleton.mp closing]
      exact Or.inr (by decide)

theorem callChar_not {c : Char} (ascii : c.toNat < 128) (other : isAsciiWord c = false) (mark : c ∉ ['.','(',')']) :
    ¬CallChar c := by
  intro either
  rcases either with word | member
  · exact word_ne lawful word ascii other rfl
  · exact mark member

-- A call that starts before some other character ends there too.
theorem callHere_local {before rest after : List Char} {c : Char} {call : Call} (other : ¬CallChar c)
    (is : callHere (before ++ c :: rest) = some (call,after)) : ∃ more,before = call.text ++ more := by
  obtain ⟨whole,proper⟩ := (callHere_iff lawful).mp is
  rcases List.append_eq_append_iff.mp whole with ⟨more,text,tail⟩ | ⟨more,inside,_⟩
  · cases more with
    | nil => exact ⟨[],by rw [text]; simp⟩
    | cons d more =>
      obtain ⟨rfl,_⟩ := List.cons.inj tail
      exact absurd (call_chars lawful proper c (by rw [text]; simp)) other
  · exact ⟨more,inside⟩

theorem callHere_before {before rest others : List Char} {c : Char} (other : ¬CallChar c)
    (silent : callHere (before ++ others) = none) : callHere (before ++ c :: rest) = none := by
  rw [Option.eq_none_iff_forall_not_mem]
  intro parts is
  obtain ⟨more,whole⟩ := callHere_local lawful other is
  have proper := ((callHere_iff lawful).mp is).2
  rw [whole,List.append_assoc,callHere_text lawful proper] at silent
  cases silent

end

section
variable [classes : WordClasses]

-- Reading a text for its calls, from left to right.
inductive Scan : List Char → List (Cut Char Call) → Prop
  | nil : Scan [] []
  | hit {cs rest : List Char} {call : Call} {cuts : List (Cut Char Call)} (found : callHere cs = some (call,rest))
      (further : Scan rest cuts) : Scan cs (.site call :: cuts)
  | skip {c : Char} {cs : List Char} {cuts : List (Cut Char Call)} (none : callHere (c :: cs) = none)
      (further : Scan cs cuts) : Scan (c :: cs) (.plain c :: cuts)

variable (lawful : classes.Lawful)
include lawful

theorem callHere_shorter {cs rest : List Char} {call : Call} (is : callHere cs = some (call,rest)) :
    rest.length < cs.length := by
  obtain ⟨rfl,_⟩ := (callHere_iff lawful).mp is
  unfold Call.text
  simp only [List.length_append,List.length_singleton]
  omega

theorem cutsWithin_scan {fuel : Nat} {cs : List Char} (enough : cs.length ≤ fuel) : Scan cs (cutsWithin fuel cs) := by
  induction fuel generalizing cs with
  | zero =>
    rw [List.eq_nil_of_length_eq_zero (Nat.le_zero.mp enough)]
    exact .nil
  | succ fuel ih =>
    cases cs with
    | nil => exact .nil
    | cons c cs =>
      rw [cutsWithin]
      split
      · rename_i call rest found
        have shorter := callHere_shorter lawful found
        exact .hit found (ih (by omega))
      · rename_i absent
        exact .skip absent (ih (by simpa using enough))

theorem callCuts_scan (text : List Char) : Scan text (callCuts text) := cutsWithin_scan lawful (Nat.le_refl _)

theorem scan_nil {cuts : List (Cut Char Call)} (scan : Scan [] cuts) : cuts = [] := by
  cases scan with
  | nil => rfl
  | hit found =>
    have shorter := callHere_shorter lawful found
    exact absurd shorter (Nat.not_lt_zero _)

theorem scan_unique {cs : List Char} {cuts others : List (Cut Char Call)} (scan : Scan cs cuts)
    (other : Scan cs others) : cuts = others := by
  induction scan generalizing others with
  | nil => exact (scan_nil lawful other).symm
  | hit found _ ih =>
    cases other with
    | nil => exact absurd (callHere_shorter lawful found) (Nat.not_lt_zero _)
    | hit found' further =>
      rw [found] at found'
      cases found'
      rw [ih further]
    | skip absent =>
      rw [found] at absent
      cases absent
  | skip absent _ ih =>
    cases other with
    | hit found =>
      rw [absent] at found
      cases found
    | skip _ further => rw [ih further]

theorem scan_text {cs : List Char} {cuts : List (Cut Char Call)} (scan : Scan cs cuts) :
    spelled Call.text cuts = cs ∧ SitesIn Call.Proper cuts := by
  induction scan with
  | nil =>
    refine ⟨rfl,?_⟩
    intro call member
    cases member
  | hit found _ ih =>
    obtain ⟨rfl,proper⟩ := (callHere_iff lawful).mp found
    refine ⟨by rw [spelled_site,ih.1],?_⟩
    intro call member
    rcases List.mem_cons.mp member with same | later
    · cases same
      exact proper
    · exact ih.2 call later
  | skip _ _ ih =>
    refine ⟨by rw [spelled_plain,ih.1],?_⟩
    intro call member
    rcases List.mem_cons.mp member with same | later
    · cases same
    · exact ih.2 call later

end

theorem find_skip {α : Type} {pattern : List Char → Option (α × List Char)} {c : Char} {cs : List Char}
    (absent : pattern (c :: cs) = none) :
    find pattern (c :: cs) = (find pattern cs).map fun parts => (c :: parts.1,parts.2) := by
  rw [find,absent]

theorem find_hit {α : Type} {pattern : List Char → Option (α × List Char)} {c : Char} {cs rest : List Char} {x : α}
    (is : pattern (c :: cs) = some (x,rest)) : find pattern (c :: cs) = some ([],x,rest) := by
  rw [find,is]

theorem find_none {α : Type} {pattern : List Char → Option (α × List Char)} {c : Char} {cs : List Char} :
    find pattern (c :: cs) = none ↔ pattern (c :: cs) = none ∧ find pattern cs = none := by
  rw [find]
  cases pattern (c :: cs) with
  | none => simp
  | some found => simp

theorem placeholder_digits (number : Nat) : ∀ c ∈ (toString number).toList,c.isDigit = true := by
  intro c member
  rw [Nat.toString_eq_repr,Nat.toList_repr] at member
  exact Nat.isDigit_of_mem_toDigits (by decide) (by decide) member

section
variable [classes : WordClasses]

-- No call starts in the front of a text.
def Clear : List Char → List Char → Prop
  | [],_ => True
  | c :: front,rest => callHere (c :: (front ++ rest)) = none ∧ Clear front rest

theorem clear_append {front more rest : List Char} :
    Clear (front ++ more) rest ↔ Clear front (more ++ rest) ∧ Clear more rest := by
  induction front with
  | nil => exact ⟨fun clear => ⟨trivial,clear⟩,fun both => both.2⟩
  | cons c front ih =>
    rw [List.cons_append,Clear,Clear,ih,List.append_assoc,and_assoc]

theorem find_clear {front rest : List Char} (clear : Clear front rest) :
    find callHere (front ++ rest) = (find callHere rest).map fun parts => (front ++ parts.1,parts.2) := by
  induction front with
  | nil => simp
  | cons c front ih =>
    rw [List.cons_append,find_skip clear.1,ih clear.2,Option.map_map]
    rfl

theorem nextCall_eq (body : List Char) :
    nextCall body = (find callHere body).map fun parts => (parts.1,parts.2.1.name,parts.2.2) := by
  induction body with
  | nil => rfl
  | cons c body ih =>
    unfold nextCall at ih ⊢
    cases arg : callAt "sqlc.arg" (c :: body) with
    | some found =>
      obtain ⟨name,rest⟩ := found
      have here : callHere (c :: body) = some (⟨false,name⟩,rest) := by
        unfold callHere
        rw [arg]
      rw [find_hit here,find_hit arg]
      cases find (callAt "sqlc.narg") (c :: body) with
      | none => rfl
      | some other => simp
    | none =>
      cases narg : callAt "sqlc.narg" (c :: body) with
      | some found =>
        obtain ⟨name,rest⟩ := found
        have here : callHere (c :: body) = some (⟨true,name⟩,rest) := by
          unfold callHere
          rw [arg,narg]
          rfl
        rw [find_hit here,find_hit narg,find_skip arg]
        cases find (callAt "sqlc.arg") body with
        | none => rfl
        | some other => simp
      | none =>
        have absent : callHere (c :: body) = none := by
          unfold callHere
          rw [arg,narg]
          rfl
        rw [find_skip arg,find_skip narg,find_skip absent,Option.map_map]
        have same := congrArg (Option.map fun parts : List Char × List Char × List Char => (c :: parts.1,parts.2)) ih
        rw [Option.map_map] at same
        refine Eq.trans ?_ same
        cases find (callAt "sqlc.arg") body with
        | none =>
          cases find (callAt "sqlc.narg") body with
          | none => rfl
          | some narg => rfl
        | some arg =>
          cases find (callAt "sqlc.narg") body with
          | none => rfl
          | some narg => by_cases first : arg.1.length ≤ narg.1.length <;> simp [first]

variable (lawful : classes.Lawful)
include lawful

theorem clear_change {front rest others : List Char} {c : Char} (other : ¬CallChar c) (clear : Clear front rest) :
    Clear front (c :: others) := by
  induction front with
  | nil => trivial
  | cons d front ih =>
    have silent : callHere (d :: front ++ rest) = none := clear.1
    exact ⟨callHere_before lawful other silent,ih clear.2⟩

theorem callHere_start {c : Char} {cs : List Char} (other : c ≠ 's') : callHere (c :: cs) = none := by
  rw [Option.eq_none_iff_forall_not_mem]
  intro parts is
  have whole := ((callHere_iff lawful).mp is).1
  obtain ⟨more,starts⟩ := parts.1.text_start
  rw [starts] at whole
  exact other (List.cons.inj whole).1

theorem clear_other {front : List Char} (others : ∀ c ∈ front,c ≠ 's') (rest : List Char) : Clear front rest := by
  induction front with
  | nil => trivial
  | cons c front ih =>
    exact ⟨callHere_start lawful (others c List.mem_cons_self),ih fun d member => others d (List.mem_cons_of_mem _ member)⟩

theorem clear_placeholder (number : Nat) (rest : List Char) : Clear (placeholder number) rest := by
  apply clear_other lawful
  intro c member same
  subst same
  rcases List.mem_cons.mp member with sign | digit
  · cases sign
  · cases placeholder_digits number _ digit

end

def numberOf (maxPositional : Nat) (paramNames : List (List Char)) (name : List Char) : Nat :=
  maxPositional + 1 + paramNames.idxOf name

def nameAdded (paramNames : List (List Char)) (name : List Char) : List (List Char) :=
  if paramNames.contains name then paramNames else paramNames ++ [name]

theorem nameAdded_known {paramNames : List (List Char)} {name : List Char} (known : name ∈ paramNames) :
    nameAdded paramNames name = paramNames :=
  if_pos (List.contains_iff_mem.mpr known)

theorem nameAdded_new {paramNames : List (List Char)} {name : List Char} (new : name ∉ paramNames) :
    nameAdded paramNames name = paramNames ++ [name] :=
  if_neg fun found => new (List.contains_iff_mem.mp found)

-- The names of the calls, each where it stands first.
def namesFrom : List (List Char) → List (Cut Char Call) → List (List Char)
  | paramNames,[] => paramNames
  | paramNames,.plain _ :: cuts => namesFrom paramNames cuts
  | paramNames,.site call :: cuts => namesFrom (nameAdded paramNames call.name) cuts

def callCount : List (Cut Char Call) → Nat
  | [] => 0
  | .plain _ :: cuts => callCount cuts
  | .site _ :: cuts => callCount cuts + 1

theorem numberFor_eq (maxPositional : Nat) (paramNames : List (List Char)) (name : List Char) :
    numberFor maxPositional paramNames name =
      (numberOf maxPositional (nameAdded paramNames name) name,nameAdded paramNames name) := by
  have place : paramNames.findIdx? (fun other => other = name) =
      if name ∈ paramNames then some (paramNames.idxOf name) else none := by
    have index : paramNames.findIdx (fun other => other = name) = paramNames.idxOf name := by
      unfold List.idxOf
      congr 1
      funext other
      exact (beq_eq_decide other name).symm
    rw [List.findIdx?_eq_guard_findIdx_lt,index,Option.guard]
    simp only [List.idxOf_lt_length_iff,decide_eq_true_eq]
  unfold numberFor numberOf
  rw [place]
  by_cases known : name ∈ paramNames
  · rw [if_pos known,nameAdded_known known]
  · rw [if_neg known,nameAdded_new known,List.idxOf_append_of_notMem known]
    simp

theorem namesFrom_starts (cuts : List (Cut Char Call)) (paramNames : List (List Char)) :
    paramNames <+: namesFrom paramNames cuts := by
  induction cuts generalizing paramNames with
  | nil => exact List.prefix_rfl
  | cons cut cuts ih =>
    cases cut with
    | plain c => exact ih paramNames
    | site call =>
      refine List.IsPrefix.trans ?_ (ih (nameAdded paramNames call.name))
      by_cases known : call.name ∈ paramNames
      · rw [nameAdded_known known]
      · rw [nameAdded_new known]
        exact List.prefix_append _ _

theorem namesFrom_nodup (cuts : List (Cut Char Call)) {paramNames : List (List Char)} (distinct : paramNames.Nodup) :
    (namesFrom paramNames cuts).Nodup := by
  induction cuts generalizing paramNames with
  | nil => exact distinct
  | cons cut cuts ih =>
    cases cut with
    | plain c => exact ih distinct
    | site call =>
      apply ih
      by_cases known : call.name ∈ paramNames
      · rw [nameAdded_known known]
        exact distinct
      · rw [nameAdded_new known,List.nodup_append]
        refine ⟨distinct,List.nodup_singleton _,?_⟩
        intro name member other last same
        rw [List.mem_singleton.mp last] at same
        exact known (same ▸ member)

theorem numberOf_prefix (maxPositional : Nat) {paramNames more : List (List Char)} {name : List Char}
    (member : name ∈ paramNames) (initial : paramNames <+: more) :
    numberOf maxPositional more name = numberOf maxPositional paramNames name := by
  obtain ⟨others,rfl⟩ := initial
  unfold numberOf
  rw [List.idxOf_append_of_mem member]

theorem nameAdded_mem (paramNames : List (List Char)) (name : List Char) : name ∈ nameAdded paramNames name := by
  by_cases known : name ∈ paramNames
  · rw [nameAdded_known known]
    exact known
  · rw [nameAdded_new known]
    exact List.mem_append_right _ List.mem_cons_self

section
variable [classes : WordClasses]

def paramNames (body : List Char) : List (List Char) := namesFrom [] (callCuts body)

theorem paramNames_nodup (body : List Char) : (paramNames body).Nodup := namesFrom_nodup _ List.nodup_nil

variable (lawful : classes.Lawful)
include lawful

-- Replacing the calls one by one.
theorem numberedWithin_scan {maxPositional fuel : Nat} {rest : List Char} {cuts : List (Cut Char Call)}
    (scan : Scan rest cuts) {front : List Char} (clear : Clear front rest) (enough : callCount cuts ≤ fuel)
    (paramNames : List (List Char)) (count : Nat) :
    numberedWithin maxPositional fuel ⟨paramNames,count,front ++ rest⟩ =
      ⟨namesFrom paramNames cuts,count + callCount cuts,
        front ++ spelled (Call.placeholder (numberOf maxPositional (namesFrom paramNames cuts))) cuts⟩ := by
  induction scan generalizing front fuel paramNames count with
  | nil =>
    cases fuel with
    | zero => simp [numberedWithin,namesFrom,callCount]
    | succ fuel =>
      rw [numberedWithin,nextCall_eq,find_clear clear]
      rfl
  | @hit cs rest call cuts found further ih =>
    obtain ⟨text,_⟩ := (callHere_iff lawful).mp found
    obtain ⟨starts,first⟩ := call.text_start
    rw [callCount] at enough
    cases fuel with
    | zero => omega
    | succ fuel =>
      have here : find callHere cs = some ([],call,rest) := by
        rw [text,first,List.cons_append] at found ⊢
        exact find_hit found
      have next : Clear (front ++ placeholder (numberOf maxPositional (nameAdded paramNames call.name) call.name)) rest := by
        rw [clear_append]
        exact ⟨clear_change lawful (callChar_not lawful (by decide) (by decide) (by decide)) clear,
          clear_placeholder lawful _ rest⟩
      have number := numberOf_prefix maxPositional (nameAdded_mem paramNames call.name)
        (namesFrom_starts cuts _)
      have left : callCount cuts ≤ fuel := by omega
      have tail := ih next left (nameAdded paramNames call.name) (count + 1)
      rw [numberedWithin,nextCall_eq,find_clear clear,here]
      simp only [Option.map_some,numberFor_eq,List.append_nil]
      rw [tail,callCount,namesFrom,spelled_site,Call.placeholder,number]
      simp only [Nat.add_comm (callCount cuts) 1,Nat.add_assoc,List.append_assoc]
  | @skip c cs cuts absent further ih =>
    have next : Clear (front ++ [c]) cs := by
      rw [clear_append]
      exact ⟨clear,by simpa using absent,trivial⟩
    have tail := ih next enough paramNames count
    simpa [callCount,namesFrom] using tail

theorem scan_count {cs : List Char} {cuts : List (Cut Char Call)} (scan : Scan cs cuts) :
    callCount cuts ≤ cs.length := by
  induction scan with
  | nil => exact Nat.le_refl 0
  | hit found _ ih =>
    have shorter := callHere_shorter lawful found
    rw [callCount]
    omega
  | skip _ _ ih =>
    rw [callCount,List.length_cons]
    omega

theorem numbered_eq (body : List Char) : numbered body =
    ⟨paramNames body,callCount (callCuts body),renamed (numberOf (maxPositional body) (paramNames body)) body⟩ := by
  have scan := callCuts_scan lawful body
  have clear : Clear [] body := trivial
  have all := @numberedWithin_scan _ lawful (maxPositional body) _ _ _ scan _ clear (scan_count lawful scan) [] 0
  simpa [numbered,paramNames,renamed] using all

end

end Scythe.Migrate
