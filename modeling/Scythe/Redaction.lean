import Mathlib.Data.Bool.AllAny
import Mathlib.Data.List.TakeWhile
import Scythe.Lib.Text

-- What is left of a connection URL where it is shown.
namespace Scythe.Redaction
open Text

-- `[^:/?#@\s]` and `[^@/?#\s]`.
def nameChar (c : Char) : Bool := c ∉ [':','/','?','#','@'] && !isSpace c
def secretChar (c : Char) : Bool := c ∉ ['@','/','?','#'] && !isSpace c

-- The name and the secret that the pattern reads, and the text after the at sign.
def secretAt (cs : List Char) : Option (List Char × List Char × List Char) := do
  let name ← "://".toList.isPrefixOf? cs
  let secret ← ":".toList.isPrefixOf? (name.dropWhile nameChar)
  let rest ← "@".toList.isPrefixOf? (secret.dropWhile secretChar)
  if name.takeWhile nameChar = [] ∨ secret.takeWhile secretChar = [] then none
  else some (name.takeWhile nameChar,secret.takeWhile secretChar,rest)

def opening (name : List Char) : List Char := "://".toList ++ (name ++ [':'])

-- Only the first place is replaced.
def redactUrlPassword : List Char → List Char
  | [] => []
  | c :: cs =>
    match secretAt (c :: cs) with
    | some (name,_,rest) => opening name ++ ("***".toList ++ '@' :: rest)
    | none => c :: redactUrlPassword cs

-- The text before the first secret, the secret and what follows it.
def firstSecret : List Char → Option (List Char × List Char × List Char)
  | [] => none
  | c :: cs =>
    match secretAt (c :: cs) with
    | some (name,secret,rest) => some (opening name,secret,'@' :: rest)
    | none => (firstSecret cs).map fun parts => (c :: parts.1,parts.2)

theorem redact_eq (text : List Char) : redactUrlPassword text =
    match firstSecret text with
    | some (before,_,after) => before ++ ("***".toList ++ after)
    | none => text := by
  induction text with
  | nil => rfl
  | cons c text ih =>
    rw [redactUrlPassword,firstSecret]
    cases secretAt (c :: text) with
    | some parts => rfl
    | none =>
      dsimp only
      rw [ih]
      cases firstSecret text with
      | none => rfl
      | some parts => rfl

structure Name (name : List Char) : Prop where
  present : name ≠ []
  plain : ∀ c ∈ name,nameChar c = true

structure Secret (secret : List Char) : Prop where
  present : secret ≠ []
  plain : ∀ c ∈ secret,secretChar c = true

theorem takeWhile_stop {p : Char → Bool} {c : Char} (stops : p c = false) {front : List Char}
    (inside : ∀ d ∈ front,p d = true) (rest : List Char) :
    (front ++ c :: rest).takeWhile p = front ∧ (front ++ c :: rest).dropWhile p = c :: rest := by
  have taken : (c :: rest).takeWhile p = [] := List.takeWhile_cons_of_neg (by simp [stops])
  have dropped : (c :: rest).dropWhile p = c :: rest := List.dropWhile_cons_of_neg (by simp [stops])
  rw [List.takeWhile_append_of_pos inside,List.dropWhile_append_of_pos inside,taken,dropped,List.append_nil]
  exact ⟨rfl,rfl⟩

theorem secretAt_iff {cs name secret rest : List Char} : secretAt cs = some (name,secret,rest) ↔
    cs = opening name ++ (secret ++ '@' :: rest) ∧ Name name ∧ Secret secret := by
  constructor
  · intro is
    unfold secretAt at is
    obtain ⟨first,opened,is⟩ := Option.bind_eq_some_iff.mp is
    obtain ⟨second,named,is⟩ := Option.bind_eq_some_iff.mp is
    obtain ⟨third,closed,is⟩ := Option.bind_eq_some_iff.mp is
    rw [List.isPrefixOf?_eq_some_iff_append_eq] at opened named closed
    split at is
    · cases is
    · rename_i present
      cases is
      rw [not_or] at present
      have name' := List.takeWhile_append_dropWhile (p := nameChar) (l := first)
      have secret' := List.takeWhile_append_dropWhile (p := secretChar) (l := second)
      refine ⟨?_,⟨present.1,fun c member => List.mem_takeWhile_imp member⟩,present.2,
        fun c member => List.mem_takeWhile_imp member⟩
      calc cs = "://".toList ++ first := opened.symm
        _ = "://".toList ++ (first.takeWhile nameChar ++ (":".toList ++ second)) := by rw [named,name']
        _ = "://".toList ++ (first.takeWhile nameChar ++ (":".toList ++
            (second.takeWhile secretChar ++ ("@".toList ++ rest)))) := by rw [closed,secret']
        _ = _ := by simp [opening]
  · intro is
    obtain ⟨rfl,named,secreted⟩ := is
    have opened : "://".toList.isPrefixOf? (opening name ++ (secret ++ '@' :: rest)) =
        some (name ++ ':' :: (secret ++ '@' :: rest)) := by
      rw [List.isPrefixOf?_eq_some_iff_append_eq]
      simp [opening]
    obtain ⟨taken,dropped⟩ := takeWhile_stop (p := nameChar) (c := ':') (by decide) named.plain (secret ++ '@' :: rest)
    obtain ⟨taken',dropped'⟩ := takeWhile_stop (p := secretChar) (c := '@') (by decide) secreted.plain rest
    have colon : ":".toList.isPrefixOf? (':' :: (secret ++ '@' :: rest)) = some (secret ++ '@' :: rest) := by
      rw [List.isPrefixOf?_eq_some_iff_append_eq]
      rfl
    have sign : "@".toList.isPrefixOf? ('@' :: rest) = some rest := by
      rw [List.isPrefixOf?_eq_some_iff_append_eq]
      rfl
    unfold secretAt
    rw [opened,Option.bind_eq_bind,Option.bind_some,dropped,colon,Option.bind_some,dropped',sign,Option.bind_some,
      taken,taken',if_neg (not_or.mpr ⟨named.present,secreted.present⟩)]

theorem secretAt_start {c : Char} (other : c ≠ ':') (cs : List Char) : secretAt (c :: cs) = none := by
  rw [Option.eq_none_iff_forall_not_mem]
  intro parts is
  have whole := (secretAt_iff.mp is).1
  exact other (List.cons.inj whole).1

-- A slash stands nowhere in a match but where it starts.
theorem match_slash {name secret : List Char} (named : Name name) (secreted : Secret secret) :
    '/' ∉ name ++ (':' :: (secret ++ ['@'])) := by
  intro member
  rcases List.mem_append.mp member with inside | member
  · have plain := named.plain _ inside
    cases plain
  · rcases List.mem_cons.mp member with colon | member
    · cases colon
    · rcases List.mem_append.mp member with inside | sign
      · have plain := secreted.plain _ inside
        cases plain
      · cases List.mem_singleton.mp sign

theorem secretAt_slash {front rest' : List Char} (long : 3 ≤ front.length) (silent : secretAt (front ++ rest') = none)
    (rest : List Char) : secretAt (front ++ '/' :: rest) = none := by
  rw [Option.eq_none_iff_forall_not_mem] at silent ⊢
  intro parts is
  obtain ⟨name,secret,after⟩ := parts
  obtain ⟨whole,named,secreted⟩ := secretAt_iff.mp is
  obtain ⟨inner,rfl⟩ : ∃ inner,front = "://".toList ++ inner := by
    have initial := (List.take_append_drop 3 front).symm
    refine ⟨front.drop 3,?_⟩
    have same := congrArg (List.take 3) whole
    rw [List.take_append_of_le_length long] at same
    rw [same] at initial
    exact initial
  have spelt : name ++ (':' :: (secret ++ ['@'])) ++ after = inner ++ '/' :: rest := by
    have split : "://".toList ++ (inner ++ '/' :: rest) = "://".toList ++ (name ++ (':' :: (secret ++ ['@'])) ++ after) := by
      rw [← List.append_assoc,whole]
      simp [opening]
    exact (List.append_cancel_left split).symm
  have plain := match_slash named secreted
  rcases List.append_eq_append_iff.mp spelt with ⟨more,inside,_⟩ | ⟨more,long,tail⟩
  · apply silent (name,secret,more ++ rest')
    apply secretAt_iff.mpr ⟨?_,named,secreted⟩
    rw [inside]
    simp [opening]
  · cases more with
    | nil =>
      apply silent (name,secret,rest')
      apply secretAt_iff.mpr ⟨?_,named,secreted⟩
      rw [List.append_nil] at long
      rw [← long]
      simp [opening]
    | cons d more =>
      rw [long,← (List.cons.inj tail).1] at plain
      exact plain (List.mem_append_right _ List.mem_cons_self)

theorem secretAt_second {c d : Char} (other : d ≠ '/') (cs : List Char) : secretAt (c :: d :: cs) = none := by
  rw [Option.eq_none_iff_forall_not_mem]
  intro parts is
  have whole := (secretAt_iff.mp is).1
  exact other (List.cons.inj (List.cons.inj whole).2).1

-- What stands before a match does not change how the text in front of it is read.
theorem secretAt_before {c : Char} {front name rest : List Char}
    (silent : secretAt (c :: (front ++ (opening name ++ rest))) = none) (others : List Char) :
    secretAt (c :: (front ++ (opening name ++ others))) = none := by
  cases front with
  | nil => exact secretAt_second (by decide) _
  | cons d front =>
    have long : 3 ≤ (c :: d :: (front ++ [':'])).length := by simp
    have split : ∀ rest : List Char,c :: (d :: front ++ (opening name ++ rest)) =
        c :: d :: (front ++ [':']) ++ '/' :: ('/' :: (name ++ ':' :: rest)) := by
      intro rest
      simp [opening]
    rw [split] at silent ⊢
    exact secretAt_slash long silent _

structure Parted (text before secret after : List Char) : Prop where
  whole : text = before ++ (secret ++ after)
  opened : ∃ front name,before = front ++ opening name
  secreted : Secret secret
  closed : ∃ rest,after = '@' :: rest

theorem firstSecret_parted {text before secret after : List Char} (found : firstSecret text = some (before,secret,after)) :
    Parted text before secret after := by
  induction text generalizing before with
  | nil => cases found
  | cons c text ih =>
    rw [firstSecret] at found
    split at found
    · rename_i name spelt rest here
      cases found
      obtain ⟨whole,named,secreted⟩ := secretAt_iff.mp here
      exact ⟨whole,⟨[],name,rfl⟩,secreted,rest,rfl⟩
    · obtain ⟨parts,inner,same⟩ := Option.map_eq_some_iff.mp found
      obtain ⟨before',secret,after⟩ := parts
      cases same
      obtain ⟨whole,⟨front,name,opened⟩,secreted,closed⟩ := ih inner
      exact ⟨by rw [whole]; rfl,⟨c :: front,name,by rw [opened]; rfl⟩,secreted,closed⟩

-- Where a secret is found another one would be found too.
theorem firstSecret_other {text before secret after secret' : List Char}
    (found : firstSecret text = some (before,secret,after)) (other : Secret secret') :
    firstSecret (before ++ (secret' ++ after)) = some (before,secret',after) := by
  induction text generalizing before with
  | nil => cases found
  | cons c text ih =>
    rw [firstSecret] at found
    split at found
    · rename_i name spelt rest here
      cases found
      obtain ⟨whole,named,secreted⟩ := secretAt_iff.mp here
      have again : secretAt (opening name ++ (secret' ++ '@' :: rest)) = some (name,secret',rest) :=
        secretAt_iff.mpr ⟨rfl,named,other⟩
      have starts : opening name ++ (secret' ++ '@' :: rest) =
          ':' :: ("//".toList ++ (name ++ [':']) ++ (secret' ++ '@' :: rest)) := rfl
      rw [starts] at again ⊢
      rw [firstSecret,again]
    · rename_i silent
      obtain ⟨parts,inner,same⟩ := Option.map_eq_some_iff.mp found
      obtain ⟨before',secret,after⟩ := parts
      cases same
      have again := ih inner
      obtain ⟨whole,⟨front,name,rfl⟩,_,_⟩ := firstSecret_parted inner
      rw [whole,List.append_assoc] at silent
      have still := secretAt_before silent (secret' ++ after)
      rw [List.append_assoc] at again
      rw [List.cons_append,List.append_assoc,firstSecret,still]
      dsimp only
      rw [again]
      rfl

theorem stars_secret : Secret "***".toList := ⟨by decide,List.all_iff_forall_prop.mp (by decide)⟩

-- Two texts look the same just if they are, or differ in the first secret only.
theorem redact_alike {text text' : List Char} : redactUrlPassword text = redactUrlPassword text' ↔
    text = text' ∨ ∃ before secret secret' after,firstSecret text = some (before,secret,after) ∧
      firstSecret text' = some (before,secret',after) := by
  have stars : ∀ {text before secret after : List Char},firstSecret text = some (before,secret,after) →
      firstSecret (redactUrlPassword text) = some (before,"***".toList,after) := by
    intro text before secret after found
    rw [redact_eq,found]
    exact firstSecret_other found stars_secret
  have bare : ∀ {text : List Char},firstSecret text = none → redactUrlPassword text = text := by
    intro text absent
    rw [redact_eq,absent]
  constructor
  · intro alike
    cases found : firstSecret text with
    | none =>
      cases found' : firstSecret text' with
      | none =>
        rw [bare found,bare found'] at alike
        exact .inl alike
      | some parts =>
        obtain ⟨before,secret,after⟩ := parts
        have shown := stars found'
        rw [← alike,bare found,found] at shown
        cases shown
    | some parts =>
      obtain ⟨before,secret,after⟩ := parts
      have shown := stars found
      cases found' : firstSecret text' with
      | none =>
        rw [alike,bare found',found'] at shown
        cases shown
      | some parts =>
        obtain ⟨before',secret',after'⟩ := parts
        have shown' := stars found'
        rw [← alike,shown] at shown'
        cases shown'
        exact .inr ⟨before,secret,secret',after,rfl,rfl⟩
  · intro either
    rcases either with rfl | ⟨before,secret,secret',after,found,found'⟩
    · rfl
    · rw [redact_eq,redact_eq,found,found']

-- A URL with a password. The user ends at the first colon.
structure Url where
  scheme : List Char
  user : List Char
  tail : List Char
  schemed : ':' ∉ scheme
  named : ':' ∉ user

def Url.text (url : Url) (password : List Char) : List Char :=
  url.scheme ++ ("://".toList ++ (url.user ++ ':' :: (password ++ '@' :: url.tail)))

-- The password up to where the pattern ends: at its end or at an at sign in it.
structure Url.Covered (url : Url) (password secret back : List Char) : Prop where
  named : Name url.user
  secreted : Secret secret
  split : password = secret ++ back
  ends : back = [] ∨ ∃ more,back = '@' :: more

def Url.Open (url : Url) (password : List Char) : Prop := ¬∃ secret back,url.Covered password secret back

theorem firstSecret_skip {front : List Char} (plain : ':' ∉ front) (rest : List Char) :
    firstSecret (front ++ rest) = (firstSecret rest).map fun parts => (front ++ parts.1,parts.2) := by
  induction front with
  | nil => simp
  | cons c front ih =>
    rw [List.mem_cons,not_or] at plain
    have silent := secretAt_start (fun same => plain.1 same.symm) (front ++ rest)
    rw [List.cons_append,firstSecret,silent]
    dsimp only
    rw [ih plain.2,Option.map_map]
    rfl

theorem first_covered {url : Url} {password secret back : List Char} (covered : url.Covered password secret back) :
    firstSecret (url.text password) = some (url.scheme ++ opening url.user,secret,back ++ '@' :: url.tail) := by
  obtain ⟨rest,after⟩ : ∃ rest,back ++ '@' :: url.tail = '@' :: rest := by
    rcases covered.ends with rfl | ⟨more,rfl⟩
    · exact ⟨_,rfl⟩
    · exact ⟨_,rfl⟩
  have whole : "://".toList ++ (url.user ++ ':' :: (password ++ '@' :: url.tail)) =
      opening url.user ++ (secret ++ '@' :: rest) := by
    rw [covered.split,← after]
    simp [opening]
  have here := secretAt_iff.mpr ⟨whole,covered.named,covered.secreted⟩
  have starts : "://".toList ++ (url.user ++ ':' :: (password ++ '@' :: url.tail)) =
      ':' :: ("//".toList ++ (url.user ++ ':' :: (password ++ '@' :: url.tail))) := rfl
  unfold Url.text
  rw [firstSecret_skip url.schemed,after]
  rw [starts] at here ⊢
  rw [firstSecret,here]
  rfl

theorem first_open {url : Url} {password : List Char} (uncovered : url.Open password) :
    firstSecret (url.text password) = (firstSecret (':' :: (password ++ '@' :: url.tail))).map fun parts =>
      (url.scheme ++ ("://".toList ++ (url.user ++ parts.1)),parts.2) := by
  have silent : secretAt ("://".toList ++ (url.user ++ ':' :: (password ++ '@' :: url.tail))) = none := by
    rw [Option.eq_none_iff_forall_not_mem]
    intro parts is
    obtain ⟨name,secret,rest⟩ := parts
    obtain ⟨whole,named,secreted⟩ := secretAt_iff.mp is
    have inner : url.user ++ ':' :: (password ++ '@' :: url.tail) = name ++ ':' :: (secret ++ '@' :: rest) := by
      have split : opening name ++ (secret ++ '@' :: rest) = "://".toList ++ (name ++ ':' :: (secret ++ '@' :: rest)) := by
        simp [opening]
      rw [split] at whole
      exact List.append_cancel_left whole
    have colonless : ∀ d ∈ url.user,decide (d ≠ ':') = true := by
      intro d member
      apply decide_eq_true
      rintro rfl
      exact url.named member
    have colonless' : ∀ d ∈ name,decide (d ≠ ':') = true := by
      intro d member
      apply decide_eq_true
      rintro rfl
      cases named.plain _ member
    have first := @takeWhile_stop (fun d => decide (d ≠ ':')) ':' (by decide) _ colonless (password ++ '@' :: url.tail)
    have second := @takeWhile_stop (fun d => decide (d ≠ ':')) ':' (by decide) _ colonless' (secret ++ '@' :: rest)
    rw [inner] at first
    have user : url.user = name := first.1.symm.trans second.1
    have rest' := (List.cons.inj (first.2.symm.trans second.2)).2
    rcases List.append_eq_append_iff.mp rest' with ⟨more,longer,tail⟩ | ⟨more,split,tail⟩
    · cases more with
      | nil =>
        rw [List.append_nil] at longer
        apply uncovered
        exact ⟨secret,[],user ▸ named,secreted,by rw [longer,List.append_nil],.inl rfl⟩
      | cons d more =>
        have sign := (List.cons.inj tail).1
        have plain := secreted.plain d (by
          rw [longer]
          exact List.mem_append_right _ List.mem_cons_self)
        rw [← sign] at plain
        cases plain
    · apply uncovered
      refine ⟨secret,more,user ▸ named,secreted,split,?_⟩
      cases more with
      | nil => exact .inl rfl
      | cons d more =>
        rw [← (List.cons.inj tail).1]
        exact .inr ⟨more,rfl⟩
  have starts : "://".toList ++ (url.user ++ ':' :: (password ++ '@' :: url.tail)) =
      ':' :: ("//".toList ++ url.user ++ ':' :: (password ++ '@' :: url.tail)) := by
    rw [List.append_assoc]
    rfl
  have plain : ':' ∉ "//".toList ++ url.user := by
    intro member
    rcases List.mem_append.mp member with slash | inside
    · exact absurd slash (by decide)
    · exact url.named inside
  unfold Url.text
  rw [firstSecret_skip url.schemed]
  rw [starts] at silent ⊢
  rw [firstSecret,silent]
  dsimp only
  rw [firstSecret_skip plain,Option.map_map,Option.map_map]
  rfl

-- Two passwords that cannot be told apart where the URL is shown.
inductive Url.Hidden (url : Url) (password password' : List Char) : Prop
  | covered {secret secret' back : List Char} (first : url.Covered password secret back)
      (second : url.Covered password' secret' back)
  | inside {before secret secret' after : List Char} (first : url.Open password) (second : url.Open password')
      (found : firstSecret (':' :: (password ++ '@' :: url.tail)) = some (before,secret,after))
      (found' : firstSecret (':' :: (password' ++ '@' :: url.tail)) = some (before,secret',after))

theorem opened_long {text secret after : List Char} (found : firstSecret text = some ([':'],secret,after)) : False := by
  obtain ⟨_,⟨front,name,opened⟩,_,_⟩ := firstSecret_parted found
  have length := congrArg List.length opened
  simp only [opening,List.length_append,List.length_singleton] at length
  have three : "://".toList.length = 3 := rfl
  omega

theorem covered_open {url : Url} {password password' secret back before spelt after : List Char}
    (first : url.Covered password secret back) (second : url.Open password')
    (found : firstSecret (url.text password) = some (before,secret,after))
    (found' : firstSecret (url.text password') = some (before,spelt,after)) : False := by
  rw [first_covered first] at found
  rw [first_open second] at found'
  obtain ⟨parts,inner,same⟩ := Option.map_eq_some_iff.mp found'
  obtain ⟨front,spelt',after'⟩ := parts
  cases found
  have opened := (Prod.mk.inj same).1
  have whole : url.scheme ++ opening url.user = url.scheme ++ ("://".toList ++ (url.user ++ [':'])) := rfl
  rw [whole] at opened
  have colon := List.append_cancel_left (List.append_cancel_left (List.append_cancel_left opened))
  subst colon
  exact opened_long inner

-- A URL shows the same for two passwords just if they are the same, or agree in all
-- that the pattern leaves of them.
theorem redaction_hides_iff (url : Url) (password password' : List Char) :
    redactUrlPassword (url.text password) = redactUrlPassword (url.text password') ↔
      password = password' ∨ url.Hidden password password' := by
  rw [redact_alike]
  apply or_congr
  · constructor
    · intro same
      have inner := List.append_cancel_left (List.append_cancel_left (List.append_cancel_left same))
      exact List.append_cancel_right (List.cons.inj inner).2
    · rintro rfl
      rfl
  · constructor
    · intro found
      obtain ⟨before,secret,secret',after,found,found'⟩ := found
      by_cases first : ∃ spelt back,url.Covered password spelt back
      · obtain ⟨spelt,back,first⟩ := first
        have here := first_covered first
        rw [found] at here
        cases here
        by_cases second : ∃ spelt back,url.Covered password' spelt back
        · obtain ⟨spelt',back',second⟩ := second
          have there := first_covered second
          rw [found'] at there
          have after := (Prod.mk.inj (Prod.mk.inj (Option.some.inj there)).2).2
          rw [← List.append_cancel_right after] at second
          exact .covered first second
        · exact (covered_open first second found found').elim
      · by_cases second : ∃ spelt back,url.Covered password' spelt back
        · obtain ⟨spelt',back',second⟩ := second
          have there := first_covered second
          rw [found'] at there
          cases there
          exact (covered_open second first found' found).elim
        · rw [first_open first] at found
          rw [first_open second] at found'
          obtain ⟨parts,inner,same⟩ := Option.map_eq_some_iff.mp found
          obtain ⟨parts',inner',same'⟩ := Option.map_eq_some_iff.mp found'
          obtain ⟨front,spelt,rest⟩ := parts
          obtain ⟨front',spelt',rest'⟩ := parts'
          obtain ⟨opened,rfl,rfl⟩ := Prod.mk.inj same |>.imp id Prod.mk.inj
          obtain ⟨opened',rfl,rfl⟩ := Prod.mk.inj same' |>.imp id Prod.mk.inj
          rw [← opened'] at opened
          have fronts := List.append_cancel_left (List.append_cancel_left (List.append_cancel_left opened))
          subst fronts
          exact .inside first second inner inner'
    · intro hidden
      cases hidden with
      | covered first second =>
        exact ⟨_,_,_,_,first_covered first,first_covered second⟩
      | @inside before secret secret' after first second found found' =>
        refine ⟨url.scheme ++ ("://".toList ++ (url.user ++ before)),secret,secret',after,?_,?_⟩
        · rw [first_open first,found]
          rfl
        · rw [first_open second,found']
          rfl

-- What stands between two at signs is shown.
theorem redaction_leaks : ∃ url : Url,∃ password password',
    url.text password = "postgres://app:p@ss1@db/x".toList ∧ url.text password' = "postgres://app:p@ss2@db/x".toList ∧
      redactUrlPassword (url.text password) ≠ redactUrlPassword (url.text password') :=
  ⟨⟨"postgres".toList,"app".toList,"db/x".toList,by decide,by decide⟩,"p@ss1".toList,"p@ss2".toList,
    by decide,by decide,by decide⟩

end Scythe.Redaction
