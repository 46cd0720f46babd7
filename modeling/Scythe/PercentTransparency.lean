import Scythe.Lib.Letters
import Scythe.PercentLiterals

-- What reaches the server of the SQL that python-psycopg3 generates.
namespace Scythe.PercentStyle
open Text Splice Doubling Identifiers Verification

section Reading

theorem python_clean {cs : List Char} : pythonLineEnds.Clean cs ↔ ∀ c ∈ cs,HostLiteral.python.carries c :=
  clean_iff fun c => by simp [HostLiteral.carries,pythonLineEnds]

theorem python_all {cs : List Char} (all : cs.all HostLiteral.python.carries) : pythonLineEnds.Clean cs :=
  python_clean.mpr (List.all_eq_true.mp all)

theorem translated_clean {cs text : List Char} (translated : pythonLineEnds.translate cs = some text) :
    pythonLineEnds.Clean text := by
  have feed : '\n' ≠ '\r' ∧ pythonLineEnds.forbidden '\n' = false := ⟨by decide,rfl⟩
  have cons {c : Char} {rest : List Char} (here : c ≠ '\r' ∧ pythonLineEnds.forbidden c = false)
      (tail : pythonLineEnds.Clean rest) : pythonLineEnds.Clean (c :: rest) := List.forall_mem_cons.mpr ⟨here,tail⟩
  fun_induction StringLiteral.LineEnds.translate pythonLineEnds cs generalizing text with
  | case1 =>
    cases translated
    exact fun c absent => absurd absent List.not_mem_nil
  | case2 cs ih =>
    obtain ⟨rest,tail,rfl⟩ := Option.map_eq_some_iff.mp translated
    exact cons feed (ih tail)
  | case3 cs other ih =>
    obtain ⟨c,known,there⟩ := Option.bind_eq_some_iff.mp translated
    obtain ⟨rest,tail,rfl⟩ := Option.map_eq_some_iff.mp there
    cases known
    exact cons feed (ih tail)
  | case4 => cases translated
  | case5 c cs notPair notReturn allowed ih =>
    obtain ⟨rest,tail,rfl⟩ := Option.map_eq_some_iff.mp translated
    exact cons ⟨notReturn,by simpa using allowed⟩ (ih tail)

-- A clean front is read as it stands.
theorem translated_front {front cs text : List Char} (clean : pythonLineEnds.Clean front)
    (translated : pythonLineEnds.translate (front ++ cs) = some text) :
    ∃ rest,text = front ++ rest ∧ pythonLineEnds.translate cs = some rest := by
  rw [StringLiteral.LineEnds.translate_append clean] at translated
  obtain ⟨rest,tail,rfl⟩ := Option.map_eq_some_iff.mp translated
  exact ⟨rest,rfl,tail⟩

variable {bound : Bool}

theorem mem_written {c d : Char} : d ∈ written bound c ↔ d = c := by
  unfold written double
  split
  · split
    next same => simp [same]
    next => exact List.mem_singleton
  · exact List.mem_singleton

theorem written_plain {c : Char} (plain : c ≠ '%') : written bound c = [c] := by
  simp [written,double,plain]

theorem flatMap_written (bound : Bool) (cs : List Char) :
    cs.flatMap (written bound) = if bound then doubled '%' cs else cs := by
  cases bound with
  | true => rfl
  | false => exact List.flatMap_singleton' cs

theorem Spelled.ofText {c : Char} {sent : List Sent} {cs : List Char} (spelled : Spelled bound (.text c :: sent) cs) :
    ∃ rest,cs = written bound c ++ rest ∧ Spelled bound sent rest := by
  cases spelled with
  | text _ rest => exact ⟨_,rfl,rest⟩

theorem Spelled.ofReference {key : String} {sent : List Sent} {cs : List Char}
    (spelled : Spelled bound (.reference key :: sent) cs) :
    ∃ format rest,bound = true ∧ key ≠ "" ∧ ')' ∉ key.toList ∧
      cs = '%' :: '(' :: (key.toList ++ ')' :: format :: rest) ∧ Spelled bound sent rest := by
  cases spelled with
  | reference parsed named closed known rest => exact ⟨_,_,parsed,named,closed,rfl,rest⟩

theorem Spelled.ofTexts {text : List Char} {sent : List Sent} {cs : List Char}
    (spelled : Spelled bound (text.map .text ++ sent) cs) :
    ∃ rest,cs = text.flatMap (written bound) ++ rest ∧ Spelled bound sent rest := by
  induction text generalizing cs with
  | nil => exact ⟨cs,rfl,spelled⟩
  | cons c text ih =>
    obtain ⟨rest,rfl,tail⟩ := spelled.ofText
    obtain ⟨rest',rfl,more⟩ := ih tail
    exact ⟨rest',by rw [List.flatMap_cons,List.append_assoc],more⟩

theorem Spelled.append {sent more : List Sent} {cs ds : List Char} (left : Spelled bound sent cs)
    (right : Spelled bound more ds) : Spelled bound (sent ++ more) (cs ++ ds) := by
  induction left with
  | done => exact right
  | text c rest ih =>
    rw [List.append_assoc]
    exact .text c ih
  | reference parsed named closed known rest ih =>
    have reference := Spelled.reference parsed named closed known ih
    simpa using reference

theorem spelled_texts (text : List Char) : Spelled bound (text.map .text) (text.flatMap (written bound)) := by
  induction text with
  | nil => exact .done
  | cons c text ih => exact .text c ih

theorem Spelled.mem {sent : List Sent} {cs : List Char} (spelled : Spelled bound sent cs) {c : Char}
    (member : .text c ∈ sent) : c ∈ cs := by
  induction spelled with
  | done => cases member
  | text d rest ih =>
    rcases List.mem_cons.mp member with same | later
    · cases same
      exact List.mem_append_left _ (mem_written.mpr rfl)
    · exact List.mem_append_right _ (ih later)
  | reference parsed named closed known rest ih =>
    rcases List.mem_cons.mp member with same | later
    · cases same
    · simp [ih later]

theorem execute_iff (driver : PercentDriver) {text : List Char} {sent : List Sent} :
    driver.execute bound text = some sent ↔ Spelled bound sent text := by
  cases bound with
  | true => exact ⟨driver.only,driver.reads⟩
  | false =>
    change some (text.map Sent.text) = some sent ↔ _
    constructor
    · intro same
      cases same
      have texts : Spelled false (text.map .text) (text.flatMap (written false)) := spelled_texts text
      rwa [flatMap_written] at texts
    · intro spelled
      congr 1
      induction spelled with
      | done => rfl
      | text c rest ih => exact congrArg (Sent.text c :: ·) ih
      | reference parsed => cases parsed

end Reading

section Cuts

theorem numberAt_digits (counter : Nat) (sign : Char) {digits : List Char} (present : digits ≠ []) :
    numberAt counter (sign :: digits) = (placeholderNumber digits,counter) := by
  cases digits with
  | nil => exact absurd rfl present
  | cons d digits => rfl

-- Two ways to cut one text, up to the first placeholder that one of them has alone.
inductive Paired : PlaceholderCuts → PlaceholderCuts → Prop where
  | done : Paired [] []
  | plain {c : Char} {gen lex : PlaceholderCuts} (carried : HostLiteral.python.carries c) (rest : Paired gen lex) :
      Paired (.plain c :: gen) (.plain c :: lex)
  | site {digits : List Char} {gen lex : PlaceholderCuts} (present : digits ≠ []) (rest : Paired gen lex) :
      Paired (.site ('$' :: digits) :: gen) (.site ('$' :: digits) :: lex)
  | unseen (digits : List Char) (gen lex : PlaceholderCuts) : Paired (.plain '$' :: gen) (.site ('$' :: digits) :: lex)
  | foreign {c : Char} (sign : c = '$' ∨ c = '?') (token : List Char) (gen lex : PlaceholderCuts) :
      Paired (.site token :: gen) (.plain c :: lex)

abbrev DollarSites : PlaceholderCuts → Prop := SitesIn fun token => token.head? = some '$'

theorem paired_cuts {gen lex : PlaceholderCuts} (same : spelled id gen = spelled id lex)
    (left : Delimited PlaceholderToken id gen) (right : Delimited PlaceholderToken id lex) (dollar : DollarSites lex)
    (carried : ∀ c ∈ spelled id lex,HostLiteral.python.carries c) : Paired gen lex := by
  induction gen generalizing lex with
  | nil =>
    cases lex with
    | nil => exact .done
    | cons cut lex =>
      cases cut with
      | plain c => cases same
      | site token => exact absurd (List.append_eq_nil_iff.mp same.symm).1 (separableTokens.some _ _ right.1)
  | cons cut gen ih =>
    cases cut with
    | plain c =>
      cases lex with
      | nil => cases same
      | cons other lex =>
        cases other with
        | plain d =>
          obtain ⟨rfl,rest⟩ := List.cons.inj same
          exact .plain (carried c List.mem_cons_self) (ih rest left right
            (fun token member => dollar token (List.mem_cons_of_mem _ member))
            fun d member => carried d (List.mem_cons_of_mem _ member))
        | site token =>
          obtain ⟨digits,rfl⟩ := List.head?_eq_some_iff.mp (dollar token List.mem_cons_self)
          obtain ⟨rfl,-⟩ := List.cons.inj same
          exact .unseen digits gen lex
    | site token =>
      obtain ⟨here,leftRest⟩ := left
      obtain ⟨sign,digits,rfl,signs,allDigits,present,stops⟩ := here
      cases lex with
      | nil => cases same
      | cons other lex =>
        cases other with
        | plain d =>
          obtain ⟨rfl,-⟩ := List.cons.inj same
          exact .foreign signs _ gen lex
        | site token' =>
          obtain ⟨there,rightRest⟩ := right
          have equal : sign :: digits = token' :=
            separableTokens.determined _ _ _ _ ⟨sign,digits,rfl,signs,allDigits,present,stops⟩ there same
          subst equal
          have isDollar : sign = '$' := by simpa using dollar _ List.mem_cons_self
          subst isDollar
          have rest := List.append_cancel_left same
          exact .site (present rfl) (ih rest leftRest rightRest
            (fun token member => dollar token (List.mem_cons_of_mem _ member))
            fun d member => carried d (List.mem_append_right _ member))

end Cuts

section Alignment
variable {query : AnalyzedQuery} {params : List ResolvedParam} {emitter : Emitter} {bound : Bool}

theorem placeholder_text {position : Nat} {text : String}
    (is : emitter.placeholder query.params params position = some text) :
    text.toList = '%' :: '(' :: ((keyAt query.params params position).toList ++ ')' :: 's' ::
      (emitter.cast query params position).toList) := by
  have opening : "%(".toList = ['%','('] := rfl
  have ending : ")s".toList = [')','s'] := rfl
  cases emitter with
  | flat =>
    unfold Emitter.placeholder at is
    obtain ⟨param,known,rfl⟩ := Option.map_eq_some_iff.mp is
    unfold Emitter.cast
    rw [known]
    dsimp only [Option.bind_some]
    cases stripPrefix param.neutralType "composite::" with
    | none => simp [opening,ending]
    | some sqlType => simp [opening,ending]
  | grouped =>
    cases is
    simp [Emitter.cast,opening,ending]

theorem placeholder_isSome {position : Nat} :
    (emitter.placeholder query.params params position).isSome ↔
      (emitter = .flat → (resolvedAt query.params params position).isSome) := by
  cases emitter with
  | flat => simp [Emitter.placeholder]
  | grouped => simp [Emitter.placeholder]

variable (inert : ∀ position,∀ c ∈ (keyAt query.params params position).toList,Inert c)
include inert

theorem reference_clean (position : Nat) :
    pythonLineEnds.Clean ('%' :: '(' :: ((keyAt query.params params position).toList ++ [')','s'])) := by
  rw [python_clean]
  intro c member
  simp only [List.mem_cons,List.mem_append,List.not_mem_nil,or_false] at member
  rcases member with rfl | rfl | inside | rfl | rfl
  · decide
  · decide
  · obtain ⟨returns,nul,-⟩ := inert position c inside
    simp [HostLiteral.carries,returns,nul]
  · decide
  · decide

-- What a placeholder of the generator reads as.
theorem translated_reference {position : Nat} {text : String} {more cs : List Char}
    (is : emitter.placeholder query.params params position = some text)
    (translated : pythonLineEnds.translate (text.toList ++ more) = some cs) :
    ∃ rest,cs = '%' :: '(' :: ((keyAt query.params params position).toList ++ ')' :: 's' :: rest) ∧
      pythonLineEnds.translate ((emitter.cast query params position).toList ++ more) = some rest := by
  have shape : text.toList ++ more = '%' :: '(' :: ((keyAt query.params params position).toList ++ [')','s']) ++
      ((emitter.cast query params position).toList ++ more) := by
    rw [placeholder_text is]
    simp
  rw [shape] at translated
  obtain ⟨rest,rfl,tail⟩ := translated_front (reference_clean inert position) translated
  exact ⟨rest,by simp,tail⟩

-- What the generator writes is never some percent signs ahead of what the lexer's
-- placeholders would have it write.
theorem never_ahead {gen lex : PlaceholderCuts} (paired : Paired gen lex) {counter more : Nat} {tail text cs ds : List Char}
    {sent : List Sent} (plain : '%' ∉ tail) (clean : pythonLineEnds.Clean tail)
    (out : textOf true (fun position => emitter.placeholder query.params params position) counter gen = some text)
    (translated : pythonLineEnds.translate (text ++ tail) = some cs)
    (faithful : Faithful query params emitter lex sent) (read : Spelled true (sent ++ tail.map .text) ds) :
    cs ≠ List.replicate (more + 1) '%' ++ ds := by
  intro ahead
  rw [List.replicate_succ,List.cons_append] at ahead
  induction paired generalizing counter text cs ds sent with
  | done =>
    cases out
    cases faithful
    rw [List.nil_append,StringLiteral.LineEnds.translate_clean clean] at translated
    have ends : Spelled true (tail.map .text ++ []) ds := by rwa [List.append_nil]
    obtain ⟨rest,rfl,nothing⟩ := ends.ofTexts
    cases nothing
    rw [flatMap_written,if_pos rfl,doubled_absent plain,← Option.some.inj translated] at ahead
    have lengths := congrArg List.length ahead
    simp at lengths
    omega
  | plain carried rest ih =>
    rename_i c gen lex
    obtain ⟨text,later,rfl⟩ := Option.map_eq_some_iff.mp out
    cases faithful with
    | text _ faithful =>
      have front : pythonLineEnds.Clean (written true c) := python_clean.mpr fun d member => mem_written.mp member ▸ carried
      rw [List.append_assoc] at translated
      obtain ⟨more',rfl,moved⟩ := translated_front front translated
      obtain ⟨ds',rfl,readOn⟩ := read.ofText
      by_cases percent : c = '%'
      · subst percent
        apply ih later moved faithful readOn
        have twice : written true '%' = ['%','%'] := rfl
        rw [twice] at ahead
        rw [List.cons_append,List.singleton_append,List.cons_append,List.singleton_append,replicate_slide,replicate_slide] at ahead
        exact (List.cons.inj (List.cons.inj ahead).2).2
      · rw [written_plain percent] at ahead
        exact percent (List.cons.inj ahead).1
  | site present rest ih =>
    rename_i digits gen lex
    obtain ⟨w,formatted,out⟩ := Option.bind_eq_some_iff.mp out
    obtain ⟨text,later,rfl⟩ := Option.map_eq_some_iff.mp out
    rw [List.append_assoc] at translated
    obtain ⟨behind,rfl,-⟩ := translated_reference inert formatted translated
    cases faithful with
    | parameter belongs faithful =>
      obtain ⟨format,ds,-,-,-,rfl,-⟩ := read.ofReference
      cases more with
      | zero => exact absurd (List.cons.inj (List.cons.inj ahead).2).1 (by decide)
      | succ more => exact absurd (List.cons.inj (List.cons.inj ahead).2).1 (by decide)
  | unseen digits gen lex =>
    obtain ⟨text,later,rfl⟩ := Option.map_eq_some_iff.mp out
    rw [written_plain (by decide),List.append_assoc] at translated
    obtain ⟨behind,rfl,-⟩ := translated_front (python_all (by decide)) translated
    exact absurd (List.cons.inj ahead).1 (by decide)
  | foreign sign token gen lex =>
    rename_i c
    obtain ⟨w,formatted,out⟩ := Option.bind_eq_some_iff.mp out
    obtain ⟨text,later,rfl⟩ := Option.map_eq_some_iff.mp out
    rw [List.append_assoc] at translated
    obtain ⟨behind,rfl,-⟩ := translated_reference inert formatted translated
    cases faithful with
    | text _ faithful =>
      obtain ⟨ds,rfl,-⟩ := read.ofText
      have percent : c ≠ '%' := by rcases sign with rfl | rfl <;> decide
      rw [written_plain percent] at ahead
      cases more with
      | zero =>
        have second : '(' = c := (List.cons.inj (List.cons.inj ahead).2).1
        rcases sign with rfl | rfl <;> exact absurd second (by decide)
      | succ more => exact absurd (List.cons.inj (List.cons.inj ahead).2).1 (by decide)

-- What the driver makes of the text tells where the generator found placeholders, and
-- what it put there.
theorem aligned {gen lex : PlaceholderCuts} (paired : Paired gen lex) {counter : Nat} {tail text cs : List Char}
    {sent : List Sent} (plain : '%' ∉ tail) (clean : pythonLineEnds.Clean tail)
    (out : textOf bound (fun position => emitter.placeholder query.params params position) counter gen = some text)
    (translated : pythonLineEnds.translate (text ++ tail) = some cs)
    (faithful : Faithful query params emitter lex sent) (read : Spelled bound (sent ++ tail.map .text) cs) :
    gen = lex ∧ ∀ digits,.site ('$' :: digits) ∈ lex → Owned query params emitter digits := by
  induction paired generalizing counter text cs sent with
  | done =>
    refine ⟨rfl,fun digits absent => ?_⟩
    cases absent
  | plain carried rest ih =>
    rename_i c gen lex
    obtain ⟨text,later,rfl⟩ := Option.map_eq_some_iff.mp out
    cases faithful with
    | text _ faithful =>
      have front : pythonLineEnds.Clean (written bound c) := python_clean.mpr fun d member => mem_written.mp member ▸ carried
      rw [List.append_assoc] at translated
      obtain ⟨more',rfl,moved⟩ := translated_front front translated
      obtain ⟨ds,equal,read⟩ := read.ofText
      rw [← List.append_cancel_left equal] at read
      obtain ⟨same,owned⟩ := ih later moved faithful read
      refine ⟨congrArg (Cut.plain c :: ·) same,fun digits member => ?_⟩
      rcases List.mem_cons.mp member with absurd' | inside
      · cases absurd'
      · exact owned digits inside
  | site present rest ih =>
    rename_i digits gen lex
    obtain ⟨w,formatted,out⟩ := Option.bind_eq_some_iff.mp out
    obtain ⟨text,later,rfl⟩ := Option.map_eq_some_iff.mp out
    rw [numberAt_digits counter '$' present] at formatted later
    dsimp only at formatted later
    rw [List.append_assoc] at translated
    obtain ⟨behind,rfl,moved⟩ := translated_reference inert formatted translated
    cases faithful with
    | parameter belongs faithful =>
      rename_i key sent
      rw [List.cons_append] at read
      obtain ⟨format,ds,isBound,named,closed,equal,read⟩ := read.ofReference
      have inner := (List.cons.inj (List.cons.inj equal).2).2
      have stops (cs : List Char) : Stops (fun c => decide (c ≠ ')')) (')' :: cs) := by
        intro c head
        cases head
        decide
      have inKey : ∀ c ∈ (keyAt query.params params (placeholderNumber digits)).toList,decide (c ≠ ')') = true :=
        fun c member => by simpa using (inert _ c member).2.2
      have inName : ∀ c ∈ key.toList,decide (c ≠ ')') = true := fun c member =>
        decide_eq_true fun is => closed (is ▸ member)
      obtain ⟨keys,rests⟩ := run_unique inKey inName (stops _) (stops _) inner
      have sameKey : keyAt query.params params (placeholderNumber digits) = key := String.toList_injective keys
      obtain ⟨-,sameRest⟩ := List.cons.inj (List.cons.inj rests).2
      subst isBound
      rw [List.append_assoc,← sameRest] at read
      obtain ⟨after,castRead,read⟩ := read.ofTexts
      rw [flatMap_written,if_pos rfl] at castRead
      have castClean : pythonLineEnds.Clean (emitter.cast query params (placeholderNumber digits)).toList :=
        fun c member => translated_clean moved c (castRead ▸ List.mem_append_left _ (mem_doubled.mpr member))
      obtain ⟨rest',castWritten,tailMoved⟩ := translated_front castClean moved
      have whole := castWritten.symm.trans castRead
      have plainCast : '%' ∉ (emitter.cast query params (placeholderNumber digits)).toList := by
        intro percent
        have unshifted : (emitter.cast query params (placeholderNumber digits)).toList ++ rest' = List.replicate 0 '%' ++
            (doubled '%' (emitter.cast query params (placeholderNumber digits)).toList ++ after) := whole
        obtain ⟨more,ahead⟩ := shifted unshifted (.inr percent)
        exact never_ahead inert rest plain clean later tailMoved faithful read ahead
      rw [doubled_absent plainCast] at whole
      rw [← List.append_cancel_left whole] at read
      obtain ⟨same,owned⟩ := ih later tailMoved faithful read
      refine ⟨congrArg (Cut.site ('$' :: digits) :: ·) same,fun digits' member => ?_⟩
      rcases List.mem_cons.mp member with here | inside
      · cases here
        refine ⟨sameKey ▸ belongs,sameKey ▸ named,placeholder_isSome.mp (by rw [formatted]; rfl),fun c member => ?_⟩
        exact ⟨python_clean.mp castClean c member,fun is => plainCast (is ▸ member)⟩
      · exact owned digits' inside
  | unseen digits gen lex =>
    obtain ⟨text,later,rfl⟩ := Option.map_eq_some_iff.mp out
    rw [written_plain (by decide),List.append_assoc] at translated
    obtain ⟨behind,rfl,-⟩ := translated_front (python_all (by decide)) translated
    cases faithful with
    | parameter belongs faithful =>
      obtain ⟨format,ds,-,-,-,equal,-⟩ := read.ofReference
      exact absurd (List.cons.inj equal).1 (by decide)
  | foreign sign token gen lex =>
    rename_i c
    obtain ⟨w,formatted,out⟩ := Option.bind_eq_some_iff.mp out
    obtain ⟨text,later,rfl⟩ := Option.map_eq_some_iff.mp out
    rw [List.append_assoc] at translated
    obtain ⟨behind,rfl,-⟩ := translated_reference inert formatted translated
    cases faithful with
    | text _ faithful =>
      obtain ⟨ds,equal,-⟩ := read.ofText
      have percent : c ≠ '%' := by rcases sign with rfl | rfl <;> decide
      rw [written_plain percent] at equal
      exact absurd (List.cons.inj equal).1.symm percent

end Alignment

section Both
variable {query : AnalyzedQuery} {params : List ResolvedParam} {emitter : Emitter}

theorem Faithful.keeps {cuts : PlaceholderCuts} {sent : List Sent} (faithful : Faithful query params emitter cuts sent)
    (delimited : Delimited PlaceholderToken id cuts) :
    ∀ c ∈ spelled id cuts,.text c ∈ sent ∨ HostLiteral.python.carries c := by
  induction faithful with
  | done =>
    intro c absent
    cases absent
  | text d rest ih =>
    intro c member
    rcases List.mem_cons.mp member with rfl | inside
    · exact .inl List.mem_cons_self
    · exact (ih delimited c inside).imp_left (List.mem_cons_of_mem _)
  | parameter belongs rest ih =>
    intro c member
    obtain ⟨⟨sign,digits,equal,-,allDigits,-⟩,after⟩ := delimited
    rcases List.mem_append.mp member with here | inside
    · right
      obtain ⟨rfl,rfl⟩ := List.cons.inj equal
      rcases List.mem_cons.mp here with rfl | digit
      · decide
      · have isDigit' := allDigits c digit
        have plain : c ≠ '\r' ∧ c ≠ '\x00' := by
          constructor
          all_goals
            rintro rfl
            exact absurd isDigit' (by decide)
        simp [HostLiteral.carries,plain]
    · exact (ih after c inside).imp_left fun found => List.mem_cons_of_mem _ (List.mem_append_right _ found)

theorem textOf_mem {bound : Bool} {formatter : Nat → Option String} {counter : Nat} {cuts : PlaceholderCuts}
    {text : List Char} (out : textOf bound formatter counter cuts = some text) :
    ∀ c ∈ text,c ∈ spelled id cuts ∨ ∃ position written,formatter position = some written ∧ c ∈ written.toList := by
  induction cuts generalizing counter text with
  | nil =>
    cases out
    intro c absent
    cases absent
  | cons cut cuts ih =>
    cases cut with
    | plain d =>
      obtain ⟨text,later,rfl⟩ := Option.map_eq_some_iff.mp out
      intro c member
      rcases List.mem_append.mp member with here | inside
      · exact .inl (mem_written.mp here ▸ List.mem_cons_self)
      · exact (ih later c inside).imp_left (List.mem_cons_of_mem _)
    | site token =>
      obtain ⟨w,formatted,out⟩ := Option.bind_eq_some_iff.mp out
      obtain ⟨text,later,rfl⟩ := Option.map_eq_some_iff.mp out
      intro c member
      rcases List.mem_append.mp member with here | inside
      · exact .inr ⟨_,w,formatted,here⟩
      · exact (ih later c inside).imp_left (List.mem_append_right _)

theorem closing_plain (sql : List Char) : '%' ∉ closing sql ∧ pythonLineEnds.Clean (closing sql) := by
  unfold closing
  split
  · exact ⟨List.not_mem_nil,fun c absent => absurd absent List.not_mem_nil⟩
  · exact ⟨by decide,python_all (by decide)⟩

-- A text ends its last line where the SQL that it comes from does.
theorem closing_textOf {bound : Bool} {formatter : Nat → Option String} {counter : Nat} {cuts : PlaceholderCuts}
    {text : List Char} (out : textOf bound formatter counter cuts = some text)
    (ends : ∀ position written,formatter position = some written → closing written.toList = ['\n'])
    (delimited : Delimited PlaceholderToken id cuts) : closing text = closing (spelled id cuts) := by
  have present {cs : List Char} (is : closing cs = ['\n']) : cs ≠ [] := by
    rintro rfl
    cases is
  have whole : closing text = closing (spelled id cuts) ∧ (text = [] ↔ spelled id cuts = []) := by
    induction cuts generalizing counter text with
    | nil =>
      cases out
      exact ⟨rfl,Iff.rfl⟩
    | cons cut cuts ih =>
      cases cut with
      | plain c =>
        obtain ⟨text,later,rfl⟩ := Option.map_eq_some_iff.mp out
        obtain ⟨same,empty⟩ := ih later delimited
        have filled : written bound c ≠ [] := List.ne_nil_of_mem (mem_written.mpr rfl)
        refine ⟨?_,by simp [filled]⟩
        by_cases none : text = []
        · rw [none,empty.mp none |> fun is => (by rw [spelled_plain,is] : spelled id (.plain c :: cuts) = [c]),List.append_nil]
          unfold written double
          split
          · split
            next percent => rw [percent]; rfl
            next => rfl
          · rfl
        · rw [closing_append none,same,spelled_plain,closing_cons c fun is => none (empty.mpr is)]
      | site token =>
        obtain ⟨w,formatted,out⟩ := Option.bind_eq_some_iff.mp out
        obtain ⟨text,later,rfl⟩ := Option.map_eq_some_iff.mp out
        obtain ⟨⟨sign,digits,rfl,signs,allDigits,-⟩,after⟩ := delimited
        obtain ⟨same,empty⟩ := ih later after
        have ended := ends _ _ formatted
        have filled := present ended
        refine ⟨?_,by simp [filled]⟩
        have tokenEnds : closing (sign :: digits) = ['\n'] := by
          have last : (sign :: digits).getLast? ≠ some '\n' := by
            intro is
            have member := List.mem_of_getLast? is
            rcases List.mem_cons.mp member with rfl | digit
            · rcases signs with absurd' | absurd' <;> exact absurd absurd' (by decide)
            · exact absurd (allDigits _ digit) (by decide)
          unfold closing
          rw [if_neg]
          intro all
          obtain ⟨c,is⟩ := Option.isSome_iff_exists.mp (List.getLast?_isSome.mpr (List.cons_ne_nil sign digits))
          rw [is] at all last
          exact last (by simpa using all)
        by_cases none : text = []
        · have source : spelled id (.site (sign :: digits) :: cuts) = sign :: digits := by
            rw [spelled_site,empty.mp none,List.append_nil]
            rfl
          rw [none,List.append_nil,ended,source,tokenEnds]
        · rw [closing_append none,same,spelled_site,closing_append fun is => none (empty.mpr is)]
  exact whole.1

theorem built {bound : Bool} {cuts : PlaceholderCuts} (isBound : bound = !params.isEmpty) (dollar : DollarSites cuts)
    (carried : ∀ c ∈ spelled id cuts,HostLiteral.python.carries c) (delimited : Delimited PlaceholderToken id cuts)
    (inert : ∀ position,∀ c ∈ (keyAt query.params params position).toList,Inert c)
    (owned : ∀ digits,.site ('$' :: digits) ∈ cuts → Owned query params emitter digits) (counter : Nat) :
    ∃ text sent,textOf bound (fun position => emitter.placeholder query.params params position) counter cuts = some text ∧
      pythonLineEnds.Clean text ∧ Faithful query params emitter cuts sent ∧ Spelled bound sent text := by
  induction cuts generalizing counter with
  | nil => exact ⟨[],[],rfl,fun c absent => absurd absent List.not_mem_nil,.done,.done⟩
  | cons cut cuts ih =>
    have dollarRest : DollarSites cuts := fun token member => dollar token (List.mem_cons_of_mem _ member)
    have ownedRest : ∀ digits,.site ('$' :: digits) ∈ cuts → Owned query params emitter digits :=
      fun digits member => owned digits (List.mem_cons_of_mem _ member)
    cases cut with
    | plain c =>
      obtain ⟨text,sent,out,clean,faithful,spelled⟩ := ih dollarRest
        (fun d member => carried d (List.mem_cons_of_mem _ member)) delimited ownedRest counter
      refine ⟨written bound c ++ text,.text c :: sent,?_,?_,.text c faithful,.text c spelled⟩
      · rw [textOf,out]
        rfl
      · have here := carried c List.mem_cons_self
        have front : pythonLineEnds.Clean (written bound c) := python_clean.mpr fun d member => mem_written.mp member ▸ here
        exact fun d member => (List.mem_append.mp member).elim (front d) (clean d)
    | site token =>
      obtain ⟨digits,rfl⟩ := List.head?_eq_some_iff.mp (dollar token List.mem_cons_self)
      obtain ⟨⟨sign,digits',equal,-,-,present,-⟩,after⟩ := delimited
      obtain ⟨rfl,rfl⟩ := List.cons.inj equal
      have own := owned digits List.mem_cons_self
      obtain ⟨text,sent,out,clean,faithful,spelled⟩ := ih dollarRest
        (fun d member => carried d (List.mem_append_right _ member)) after ownedRest counter
      obtain ⟨w,is⟩ := Option.isSome_iff_exists.mp (placeholder_isSome.mpr own.resolved)
      have parsed : bound = true := by
        rw [isBound]
        obtain ⟨pair,member,-⟩ := own.belongs
        cases params with
        | nil => simp at member
        | cons param params => rfl
      subst parsed
      have plain : '%' ∉ (emitter.cast query params (placeholderNumber digits)).toList :=
        fun member => (own.cast '%' member).2 rfl
      have castSpelled : Spelled true ((emitter.cast query params (placeholderNumber digits)).toList.map .text)
          ((emitter.cast query params (placeholderNumber digits)).toList.flatMap (written true)) := spelled_texts _
      rw [flatMap_written,if_pos rfl,doubled_absent plain] at castSpelled
      have closed : ')' ∉ (keyAt query.params params (placeholderNumber digits)).toList :=
        fun member => (inert _ _ member).2.2 rfl
      refine ⟨w.toList ++ text,_,?_,?_,.parameter own.belongs faithful,?_⟩
      · rw [textOf,numberAt_digits counter '$' (present rfl),is,Option.bind_some,out]
        rfl
      · intro c member
        rcases List.mem_append.mp member with here | inside
        · rw [placeholder_text is] at here
          have shape : c ∈ '%' :: '(' :: ((keyAt query.params params (placeholderNumber digits)).toList ++ [')','s']) ++
              (emitter.cast query params (placeholderNumber digits)).toList := by simpa using here
          rcases List.mem_append.mp shape with front | cast
          · exact reference_clean inert _ c front
          · exact python_clean.mpr (fun d member => (own.cast d member).1) c cast
        · exact clean c inside
      · rw [placeholder_text is]
        have reference := Spelled.reference rfl own.named closed (by decide : 's' ∈ ['s','b','t']) (castSpelled.append spelled)
        simpa using reference

variable [CaseMap] {lexer : DialectLexer} {overrides : List TypeOverride} {sourceTable : String}

theorem seenCuts_whole (sql : List Char) : spelled id (seenCuts sql) = sql :=
  ((spanReader .postgreSQL).lexer (codeScan !usesDollarPlaceholders (tokenizeSql sql .postgreSQL))).whole sql

theorem seenCuts_delimited (sql : List Char) : Delimited PlaceholderToken id (seenCuts sql) :=
  ((spanReader .postgreSQL).lexer (codeScan !usesDollarPlaceholders (tokenizeSql sql .postgreSQL))).delimited sql

theorem source_iff (ordinary : OrdinaryCharacters) {source : List Char} :
    emitter.source query params = some source ↔
      ∃ text,textOf (!params.isEmpty) (fun position => emitter.placeholder query.params params position) 0
        (seenCuts (sqlClean query)) = some text ∧ HostLiteral.python.emit (emitter.frame text) = source := by
  have doubling : percentDoubled query params =
      if (!params.isEmpty) = true then doubled '%' (sqlClean query) else sqlClean query := by
    unfold percentDoubled doublePercentForPercentParamstyle
    cases params.isEmpty <;> rfl
  unfold Emitter.source
  rw [doubling,rewritePgPlaceholders_eq ordinary,Option.map_eq_some_iff]
  simp only [Emitter.literal_eq]

-- What the driver gets to read.
theorem executed_iff (ordinary : OrdinaryCharacters) (driver : PercentDriver) {sent : List Sent} :
    executed query params driver emitter = some sent ↔
      ∃ text cs,textOf (!params.isEmpty) (fun position => emitter.placeholder query.params params position) 0
        (seenCuts (sqlClean query)) = some text ∧ pythonLineEnds.translate (emitter.frame text) = some cs ∧
          Spelled (!params.isEmpty) sent cs := by
  unfold executed
  rw [Option.bind_eq_some_iff]
  constructor
  · rintro ⟨cs,decoded,ran⟩
    obtain ⟨source,is,read⟩ := Option.bind_eq_some_iff.mp decoded
    obtain ⟨text,out,rfl⟩ := (source_iff ordinary).mp is
    rw [python_decode] at read
    exact ⟨text,cs,out,read,(execute_iff driver).mp ran⟩
  · rintro ⟨text,cs,out,read,spelled⟩
    refine ⟨cs,Option.bind_eq_some_iff.mpr ⟨_,(source_iff ordinary).mpr ⟨text,out,rfl⟩,?_⟩,(execute_iff driver).mpr spelled⟩
    rw [python_decode,read]

omit [CaseMap] in
theorem grouped_ends {position : Nat} {written : String}
    (is : Emitter.placeholder query.params params position .grouped = some written) : closing written.toList = ['\n'] := by
  have shape : written.toList = ('%' :: '(' :: ((keyAt query.params params position).toList ++ [')'])) ++ ['s'] := by
    rw [placeholder_text is]
    simp [Emitter.cast]
  rw [shape,closing_append (List.cons_ne_nil _ _)]
  rfl

-- What a grouped function has between its quotes.
theorem grouped_frame {text : List Char}
    (out : textOf (!params.isEmpty) (fun position => Emitter.placeholder query.params params position .grouped) 0
      (seenCuts (sqlClean query)) = some text) (clean : pythonLineEnds.Clean text) :
    Emitter.frame text .grouped = '\n' :: (text ++ closing (sqlClean query)) := by
  have closed := closing_textOf out (fun _ _ => grouped_ends) (seenCuts_delimited _)
  rw [seenCuts_whole] at closed
  rw [← closed,← closedLines_eq fun member => (clean _ member).1 rfl]
  rfl

theorem carried_of_transparent (ordinary : OrdinaryCharacters) {driver : PercentDriver}
    (transparent : Transparent query params driver lexer emitter) :
    ∀ c ∈ sqlClean query,HostLiteral.python.carries c := by
  obtain ⟨sent,faithful,ran⟩ := transparent
  obtain ⟨text,cs,-,translated,read⟩ := (executed_iff ordinary driver).mp ran
  intro c member
  rw [← lexer.whole (sqlClean query)] at member
  rcases faithful.keeps (lexer.delimited _) c member with kept | carried
  · have framed : .text c ∈ emitter.framed (sqlClean query) sent := by
      cases emitter with
      | flat => exact kept
      | grouped => exact List.mem_cons_of_mem _ (List.mem_append_left _ kept)
    exact python_clean.mp (translated_clean translated) c (read.mem framed)
  · exact carried

theorem sound_of_transparent (ordinary : OrdinaryCharacters)
    (inert : ∀ position,∀ c ∈ (keyAt query.params params position).toList,Inert c)
    (dollar : ∀ sql,DollarSites (lexer.cuts sql)) {driver : PercentDriver}
    (transparent : Transparent query params driver lexer emitter) : Sound query params lexer emitter := by
  have carried := carried_of_transparent ordinary transparent
  obtain ⟨sent,faithful,ran⟩ := transparent
  obtain ⟨text,cs,out,translated,read⟩ := (executed_iff ordinary driver).mp ran
  have paired : Paired (seenCuts (sqlClean query)) (lexer.cuts (sqlClean query)) :=
    paired_cuts ((seenCuts_whole _).trans (lexer.whole _).symm) (seenCuts_delimited _) (lexer.delimited _) (dollar _)
      (by rwa [lexer.whole])
  have both : seenCuts (sqlClean query) = lexer.cuts (sqlClean query) ∧
      ∀ digits,.site ('$' :: digits) ∈ lexer.cuts (sqlClean query) → Owned query params emitter digits := by
    cases emitter with
    | flat =>
      have whole : pythonLineEnds.translate (text ++ []) = some cs := by rwa [List.append_nil]
      have spelled : Spelled (!params.isEmpty) (sent ++ [].map .text) cs := by rwa [List.map_nil,List.append_nil]
      exact aligned inert paired List.not_mem_nil (fun c absent => absurd absent List.not_mem_nil) out whole faithful spelled
    | grouped =>
      have clean : pythonLineEnds.Clean text := by
        rw [python_clean]
        intro c member
        rcases textOf_mem out c member with inside | ⟨position,written,is,inside⟩
        · exact carried c (seenCuts_whole (sqlClean query) ▸ inside)
        · have reference := reference_clean inert position
          rw [placeholder_text is] at inside
          exact python_clean.mp reference c (by simpa [Emitter.cast] using inside)
      have frame := grouped_frame out clean
      rw [frame] at translated
      have feed : pythonLineEnds.Clean ['\n'] := python_all (by decide)
      obtain ⟨behind,rfl,moved⟩ := translated_front feed translated
      obtain ⟨ds,equal,spelled⟩ := read.ofText
      rw [written_plain (by decide)] at equal
      rw [← List.append_cancel_left equal] at spelled
      exact aligned inert paired (closing_plain _).1 (closing_plain _).2 out moved faithful spelled
  refine ⟨carried,fun before => ?_,both.2⟩
  rw [both.1]

theorem transparent_of_sound (ordinary : OrdinaryCharacters)
    (inert : ∀ position,∀ c ∈ (keyAt query.params params position).toList,Inert c)
    (dollar : ∀ sql,DollarSites (lexer.cuts sql)) (driver : PercentDriver)
    (sound : Sound query params lexer emitter) : Transparent query params driver lexer emitter := by
  have same : seenCuts (sqlClean query) = lexer.cuts (sqlClean query) :=
    places_unique separableTokens (seenCuts_delimited _) (lexer.delimited _)
      ((seenCuts_whole _).trans (lexer.whole _).symm) sound.places
  have carried : ∀ c ∈ spelled id (lexer.cuts (sqlClean query)),HostLiteral.python.carries c := by
    rw [lexer.whole]
    exact sound.carried
  obtain ⟨text,sent,out,clean,faithful,spelled⟩ :=
    built rfl (dollar _) carried (lexer.delimited _) inert sound.owned 0
  rw [← same] at out
  refine ⟨sent,faithful,(executed_iff ordinary driver).mpr ?_⟩
  cases emitter with
  | flat => exact ⟨text,text,out,StringLiteral.LineEnds.translate_clean clean,spelled⟩
  | grouped =>
    have frame := grouped_frame out clean
    have last : Spelled (!params.isEmpty) ((closing (sqlClean query)).map .text)
        ((closing (sqlClean query)).flatMap (written !params.isEmpty)) := spelled_texts _
    have closingPlain : (closing (sqlClean query)).flatMap (written !params.isEmpty) = closing (sqlClean query) := by
      rw [flatMap_written]
      split
      · exact doubled_absent (closing_plain _).1
      · rfl
    rw [closingPlain] at last
    refine ⟨text,'\n' :: (text ++ closing (sqlClean query)),out,?_,?_⟩
    · rw [frame]
      apply StringLiteral.LineEnds.translate_clean
      refine List.forall_mem_cons.mpr ⟨⟨by decide,rfl⟩,fun c member => ?_⟩
      exact (List.mem_append.mp member).elim (clean c) ((closing_plain _).2 c)
    · have first := Spelled.text '\n' (spelled.append last)
      rwa [written_plain (by decide)] at first

end Both

-- The driver sends the SQL with each parameter in its place exactly when Python carries
-- the SQL, the generator finds the placeholders that PostgreSQL finds, and each of them
-- has its parameter.
theorem percent_transparent_iff [CaseMap] (ordinary : OrdinaryCharacters) (inert : InertCase) (driver : PercentDriver)
    {lexer : DialectLexer} (dollar : ∀ sql,DollarSites (lexer.cuts sql)) {query : AnalyzedQuery}
    {overrides : List TypeOverride} {params : List ResolvedParam}
    (resolved : resolveParams query.params overrides (query.sourceTable.getD "") = some params) (emitter : Emitter) :
    Transparent query params driver lexer emitter ↔ Sound query params lexer emitter := by
  have keys := keyAt_inert ordinary inert resolved
  exact ⟨sound_of_transparent ordinary keys dollar,transparent_of_sound ordinary keys dollar driver⟩

section Reader

-- What stands behind a percent sign. A key ends at the first closing parenthesis.
def afterPercent : List Char → Option (Sent × List Char)
  | '%' :: rest => some (.text '%',rest)
  | '(' :: rest =>
    match rest.dropWhile (· ≠ ')') with
    | _ :: format :: behind =>
      if rest.takeWhile (· ≠ ')') ≠ [] ∧ format ∈ ['s','b','t'] then
        some (.reference (String.ofList (rest.takeWhile (· ≠ ')'))),behind) else none
    | _ => none
  | _ => none

def readPercent : Nat → List Char → Option (List Sent)
  | _,[] => some []
  | 0,_ => none
  | fuel + 1,c :: cs =>
    (if c = '%' then afterPercent cs else some (.text c,cs)).bind fun found =>
      (readPercent fuel found.2).map (found.1 :: ·)

theorem afterPercent_reference {key : String} {format : Char} (named : key ≠ "") (closed : ')' ∉ key.toList)
    (known : format ∈ ['s','b','t']) (rest : List Char) :
    afterPercent ('(' :: (key.toList ++ ')' :: format :: rest)) = some (.reference key,rest) := by
  have inside : ∀ c ∈ key.toList,decide (c ≠ ')') = true := fun c member =>
    decide_eq_true fun is => closed (is ▸ member)
  have taken : (key.toList ++ ')' :: format :: rest).takeWhile (fun c => decide (c ≠ ')')) = key.toList := by
    rw [List.takeWhile_append_of_pos inside]
    simp
  have left : (key.toList ++ ')' :: format :: rest).dropWhile (fun c => decide (c ≠ ')')) = ')' :: format :: rest := by
    rw [List.dropWhile_append_of_pos inside]
    simp
  have present : key.toList ≠ [] := fun none => named (String.toList_injective none)
  rw [afterPercent,taken,left]
  dsimp only
  rw [if_pos ⟨present,known⟩,String.ofList_toList]

theorem afterPercent_spelled {cs rest : List Char} {piece : Sent} {sent : List Sent}
    (found : afterPercent cs = some (piece,rest)) (spelled : Spelled true sent rest) :
    Spelled true (piece :: sent) ('%' :: cs) := by
  unfold afterPercent at found
  split at found
  next =>
    cases found
    exact .text '%' spelled
  next after =>
    split at found
    next close format behind left =>
      split at found
      next proper =>
        cases found
        have whole := List.takeWhile_append_dropWhile (p := fun c : Char => decide (c ≠ ')')) (l := after)
        have closes : close = ')' := by
          have stopped := List.head?_dropWhile_not (fun c : Char => decide (c ≠ ')')) after
          rw [left] at stopped
          simpa using stopped
        rw [left,closes] at whole
        have key : (String.ofList (after.takeWhile fun c => decide (c ≠ ')'))).toList =
            after.takeWhile fun c => decide (c ≠ ')') := String.toList_ofList
        have named : String.ofList (after.takeWhile fun c => decide (c ≠ ')')) ≠ "" := by
          intro none
          rw [none] at key
          exact proper.1 key.symm
        have closed : ')' ∉ (String.ofList (after.takeWhile fun c => decide (c ≠ ')'))).toList := by
          rw [key]
          intro member
          exact absurd (List.mem_takeWhile_imp member) (by decide)
        have reference := Spelled.reference rfl named closed proper.2 spelled
        rwa [key,whole] at reference
      next => cases found
    next => cases found
  next => cases found

theorem readPercent_reads {sent : List Sent} {cs : List Char} (spelled : Spelled true sent cs) {fuel : Nat}
    (enough : cs.length ≤ fuel) : readPercent fuel cs = some sent := by
  induction spelled generalizing fuel with
  | done => cases fuel <;> rfl
  | text c rest ih =>
    rename_i sent cs
    by_cases percent : c = '%'
    · subst percent
      have twice : written true '%' ++ cs = '%' :: '%' :: cs := rfl
      rw [twice,List.length_cons,List.length_cons] at enough
      obtain ⟨fuel,rfl⟩ : ∃ less,fuel = less + 1 := ⟨fuel - 1,by omega⟩
      have tail := ih (show cs.length ≤ fuel by omega)
      rw [twice,readPercent,if_pos rfl,afterPercent,Option.bind_some,tail]
      rfl
    · rw [written_plain percent,List.singleton_append] at enough ⊢
      rw [List.length_cons] at enough
      obtain ⟨fuel,rfl⟩ : ∃ less,fuel = less + 1 := ⟨fuel - 1,by omega⟩
      rw [readPercent,if_neg percent,Option.bind_some,ih (Nat.le_of_succ_le_succ enough)]
      rfl
  | reference parsed named closed known rest ih =>
    rename_i key format sent cs
    simp only [List.length_cons,List.length_append] at enough
    obtain ⟨fuel,rfl⟩ : ∃ less,fuel = less + 1 := ⟨fuel - 1,by omega⟩
    rw [readPercent,if_pos rfl,afterPercent_reference named closed known,Option.bind_some,ih (by omega)]
    rfl

theorem readPercent_only {fuel : Nat} {cs : List Char} {sent : List Sent} (read : readPercent fuel cs = some sent) :
    Spelled true sent cs := by
  induction fuel generalizing cs sent with
  | zero =>
    cases cs with
    | nil =>
      cases read
      exact .done
    | cons c cs => cases read
  | succ fuel ih =>
    cases cs with
    | nil =>
      cases read
      exact .done
    | cons c cs =>
      rw [readPercent] at read
      obtain ⟨found,here,tail⟩ := Option.bind_eq_some_iff.mp read
      obtain ⟨sent,later,rfl⟩ := Option.map_eq_some_iff.mp tail
      split at here
      next percent =>
        subst percent
        exact afterPercent_spelled here (ih later)
      next plain =>
        cases here
        have spelled := Spelled.text c (ih later)
        rwa [written_plain plain] at spelled

def percentReader : PercentDriver where
  read cs := readPercent cs.length cs
  reads spelled := readPercent_reads spelled (Nat.le_refl _)
  only := readPercent_only

end Reader

section Examples
local instance percentCase : CaseMap := ascii

theorem asciiLower_inert {c : Char} (inert : Inert c) : Inert (asciiLower c) := by
  unfold asciiLower
  split
  next upper =>
    simp only [asciiIsUpper,Bool.and_eq_true,decide_eq_true_eq] at upper
    have bounds : 'A'.toNat = 0x41 ∧ 'Z'.toNat = 0x5a := by decide
    have number : (Char.ofNat (c.toNat + 32)).toNat = c.toNat + 32 := Letters.ofNat_small (by omega)
    have differs {d : Char} (small : d.toNat < 0x61) : Char.ofNat (c.toNat + 32) ≠ d := by
      intro same
      rw [← same,number] at small
      omega
    exact ⟨differs (by decide),differs (by decide),differs (by decide)⟩
  next => exact inert

theorem ascii_inert : InertCase where
  text s given := by
    have lowered : (CaseMap.lowercase s).toList = s.toList.map asciiLower := String.toList_ofList
    rw [lowered]
    intro c member
    obtain ⟨d,inside,rfl⟩ := List.mem_map.mp member
    exact asciiLower_inert (given d inside)
  letter c here d member := by
    rw [List.mem_singleton.mp member]
    exact asciiLower_inert here

theorem codeSpanCuts_dollar (fuel : Nat) (cs : List Char) : DollarSites (codeSpanCuts false fuel cs) := by
  have cons {token : List Char} {cuts : PlaceholderCuts} (head : token.head? = some '$') (rest : DollarSites cuts) :
      DollarSites (.site token :: cuts) := by
    intro other member
    rcases List.mem_cons.mp member with same | inside
    · cases same
      exact head
    · exact rest other inside
  have skip {c : Char} {cuts : PlaceholderCuts} (rest : DollarSites cuts) : DollarSites (.plain c :: cuts) := by
    intro other member
    rcases List.mem_cons.mp member with same | inside
    · cases same
    · exact rest other inside
  induction fuel generalizing cs with
  | zero =>
    intro token absent
    cases absent
  | succ fuel ih =>
    cases cs with
    | nil =>
      intro token absent
      cases absent
    | cons c cs =>
      rw [codeSpanCuts]
      cases matchUnambiguousOperator (c :: cs) with
      | some parts => exact sitesIn_append (sitesIn_plains _) (ih _)
      | none =>
        dsimp only
        split
        · exact cons rfl (ih _)
        split
        next question => exact absurd question.2.1 Bool.false_ne_true
        next => exact skip (ih _)

theorem postgres_dollar (sql : List Char) : DollarSites ((generatorLexer .postgreSQL).cuts sql) := by
  intro token member
  obtain ⟨span,-,inside⟩ := List.mem_flatMap.mp member
  unfold spanCuts at inside
  split at inside
  · exact codeSpanCuts_dollar _ _ token inside
  · exact sitesIn_plains (P := fun token => token.head? = some '$') _ token inside

def exampleQuery (sql : String) (params : List AnalyzedParam) : AnalyzedQuery where
  name := "FindItems"
  command := .many
  sql := sql
  columns := []
  params := params
  deprecated := none
  sourceTable := none
  composites := []
  enums := []
  optionalParams := []
  groupBy := none
  custom := []
  nestedStructs := []

def classQuery : AnalyzedQuery :=
  exampleQuery "SELECT id FROM items WHERE label LIKE '100%' AND class = $1" [⟨"class","string",false,1,some "items"⟩]

def classParams : List ResolvedParam := [⟨⟨"string"⟩,"class_"⟩]

-- A name that Python reserves is the same one in the text and in the mapping.
theorem class_transparent : Transparent classQuery classParams percentReader (generatorLexer .postgreSQL) .flat := by
  have resolved : resolveParams classQuery.params [] (classQuery.sourceTable.getD "") = some classParams := by decide +kernel
  have cuts : (generatorLexer .postgreSQL).cuts (sqlClean classQuery) =
      "SELECT id FROM items WHERE label LIKE '100%' AND class = ".toList.map .plain ++ [.site ['$','1']] := by
    decide +kernel
  have seen : seenCuts (sqlClean classQuery) = (generatorLexer .postgreSQL).cuts (sqlClean classQuery) := by decide +kernel
  refine (percent_transparent_iff ascii_ordinary ascii_inert percentReader postgres_dollar resolved .flat).mpr
    ⟨List.all_eq_true.mp (by decide +kernel),fun before => by rw [seen],fun digits member => ?_⟩
  rw [cuts] at member
  rcases List.mem_append.mp member with plain | site
  · exact absurd rfl (sitesIn_plains (P := fun token => token ≠ '$' :: digits) _ _ plain)
  · cases List.mem_singleton.mp site
    have castless : (Emitter.flat.cast classQuery classParams (placeholderNumber ['1'])).toList = [] := by decide +kernel
    exact ⟨⟨_,List.mem_cons_self,rfl,by decide +kernel⟩,by decide +kernel,fun _ => by decide +kernel,
      fun c inside => absurd (castless ▸ inside) List.not_mem_nil⟩

def questionQuery : AnalyzedQuery := exampleQuery "SELECT id FROM items WHERE data ? 'active'" []

-- Without a numbered placeholder in sight the generator takes the operator for one, and
-- has no parameter for it.
theorem question_operator_lost : ¬∀ (query : AnalyzedQuery) (params : List ResolvedParam) (emitter : Emitter),
    resolveParams query.params [] (query.sourceTable.getD "") = some params →
      Transparent query params percentReader (generatorLexer .postgreSQL) emitter := by
  intro always
  obtain ⟨sent,-,ran⟩ := always questionQuery [] .flat rfl
  have panics : executed questionQuery [] percentReader .flat = none := by decide +kernel
  rw [panics] at ran
  cases ran

end Examples

end Scythe.PercentStyle
