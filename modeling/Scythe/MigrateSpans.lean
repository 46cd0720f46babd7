import Scythe.LivePlaceholders
import Scythe.MigrateCalls

-- Calls and what is quoted or commented out.
namespace Scythe.Migrate
open Text Splice

section
variable [classes : WordClasses]

-- No call runs over from one text into the next.
def Barrier (text rest : List Char) : Prop :=
  (∀ c ∈ text.getLast?,¬CallChar c) ∨ ∀ c ∈ rest.head?,¬CallChar c

variable (lawful : classes.Lawful)
include lawful

omit lawful in
theorem Barrier.tail {front text rest : List Char} (barrier : Barrier (front ++ text) rest) : Barrier text rest := by
  rcases barrier with last | first
  · refine .inl ?_
    intro c is
    apply last
    rw [List.getLast?_append,is]
    rfl
  · exact .inr first

theorem callHere_barrier {text rest : List Char} (barrier : Barrier text rest) (present : text ≠ [])
    (silent : callHere text = none) : callHere (text ++ rest) = none := by
  rcases barrier with last | first
  · obtain ⟨front,c,is⟩ := (List.eq_nil_or_concat text).resolve_left present
    rw [List.concat_eq_append] at is
    subst is
    have other := last c (by simp)
    rw [List.append_assoc]
    exact callHere_before lawful other silent
  · cases rest with
    | nil => rwa [List.append_nil]
    | cons c rest =>
      have silent' : callHere (text ++ []) = none := by rwa [List.append_nil]
      exact callHere_before lawful (first c rfl) silent'

theorem scan_append {text rest : List Char} {cuts others : List (Cut Char Call)} (scan : Scan text cuts)
    (other : Scan rest others) (barrier : Barrier text rest) : Scan (text ++ rest) (cuts ++ others) := by
  induction scan with
  | nil => exact other
  | hit found _ ih =>
    obtain ⟨rfl,proper⟩ := (callHere_iff lawful).mp found
    rw [List.append_assoc]
    exact .hit (callHere_text lawful proper _) (ih barrier.tail)
  | @skip c cs cuts absent _ ih =>
    have next : Barrier cs rest := @Barrier.tail _ [c] cs rest barrier
    exact .skip (callHere_barrier lawful barrier (List.cons_ne_nil c cs) absent) (ih next)

theorem callCuts_append {text rest : List Char} (barrier : Barrier text rest) :
    callCuts (text ++ rest) = callCuts text ++ callCuts rest := by
  apply scan_unique lawful (callCuts_scan lawful _)
  exact scan_append lawful (callCuts_scan lawful text) (callCuts_scan lawful rest) barrier

theorem renamed_append (number : List Char → Nat) {text rest : List Char} (barrier : Barrier text rest) :
    renamed number (text ++ rest) = renamed number text ++ renamed number rest := by
  unfold renamed
  rw [callCuts_append lawful barrier,spelled_append]

end

section
variable [classes : WordClasses]

omit classes in
theorem matchDollarQuoteOpen_last [CaseMap] {cs delimiter rest : List Char}
    (found : matchDollarQuoteOpen cs = some (delimiter,rest)) : ('$' :: delimiter).getLast? = some '$' := by
  unfold matchDollarQuoteOpen at found
  split at found
  · cases found
    rfl
  · dsimp only at found
    split at found
    · rename_i first tag _ _ _
      split at found
      · cases found
      · cases found
        have last : (('$' :: first :: tag) ++ ['$']).getLast? = some '$' := List.getLast?_concat
        exact last
    · cases found

theorem barrier_first {c : Char} (other : ¬CallChar c) (cs : List Char) : ∀ before,Barrier before (c :: cs) := by
  intro before
  refine .inr ?_
  intro d head
  cases head
  exact other

-- A span that is closed, or that nothing follows.
theorem barrier_closed {kind kind' : SqlSpanKind} {opening text rest : List Char} {parts : List Char × List Char}
    (spanned : spanOf kind opening parts = some (kind',text,rest)) {c : Char} (other : ¬CallChar c)
    (closed : parts.2 = [] ∨ parts.1.getLast? = some c) : Barrier text rest := by
  cases spanned
  rcases closed with empty | last
  · refine .inr ?_
    intro d head
    rw [empty] at head
    cases head
  · refine .inl ?_
    intro d is
    rw [List.getLast?_append,last] at is
    cases is
    exact other

theorem barrier_line {kind kind' : SqlSpanKind} {opening text rest cs : List Char}
    (spanned : spanOf kind opening (Scanner.line cs) = some (kind',text,rest)) (other : ¬CallChar '\n') :
    Barrier text rest := by
  cases spanned
  refine .inr ?_
  intro c head
  rw [Scanner.line_ends cs c head]
  exact other

end

section
variable [CaseMap] [classes : WordClasses] (lawful : classes.Lawful)
include lawful

theorem readSpan_barrier {dialect : SqlDialect} {cs text rest : List Char} {kind : SqlSpanKind}
    (found : readSpan dialect cs = some (kind,text,rest)) : (∀ before,Barrier before cs) ∧ Barrier text rest := by
  have newline : ¬CallChar '\n' := callChar_not lawful (by decide) (by decide) (by decide)
  have slash : ¬CallChar '/' := callChar_not lawful (by decide) (by decide) (by decide)
  have quote : ¬CallChar '\'' := callChar_not lawful (by decide) (by decide) (by decide)
  have double : ¬CallChar '"' := callChar_not lawful (by decide) (by decide) (by decide)
  have dollar : ¬CallChar '$' := callChar_not lawful (by decide) (by decide) (by decide)
  have bracket : ¬CallChar ']' := callChar_not lawful (by decide) (by decide) (by decide)
  unfold readSpan at found
  split at found
  · exact ⟨barrier_first (callChar_not lawful (by decide) (by decide) (by decide)) _,barrier_line found newline⟩
  · exact ⟨barrier_first slash _,barrier_closed found slash ((Scanner.block_ends 1 _).resolve_left (by decide))⟩
  · exact ⟨barrier_first quote _,barrier_closed found quote (Scanner.quoted_ends _ _)⟩
  · exact ⟨barrier_first double _,barrier_closed found double (Scanner.quoted_ends _ _)⟩
  · obtain ⟨⟨delimiter,inner⟩,opened,spanned⟩ := Option.bind_eq_some_iff.mp found
    refine ⟨barrier_first dollar _,barrier_closed spanned dollar ?_⟩
    rcases Scanner.through_ends ('$' :: delimiter) inner with empty | ⟨before,closed⟩
    · exact .inl empty
    · refine .inr ?_
      rw [closed,List.getLast?_append,matchDollarQuoteOpen_last opened]
      rfl
  · split at found
    · rename_i c cs _ _ _ _ _ tick
      have mark : ¬CallChar c := by
        have same : c = Char.ofNat 0x60 := by rw [← tick.1,Char.ofNat_toNat]
        rw [same]
        exact callChar_not lawful (by decide) (by decide) (by decide)
      exact ⟨barrier_first mark _,barrier_closed found mark (Scanner.quoted_ends _ _)⟩
    split at found
    · rename_i hash
      rw [hash.1]
      exact ⟨barrier_first (callChar_not lawful (by decide) (by decide) (by decide)) _,barrier_line found newline⟩
    split at found
    · rename_i opening
      rw [opening.1]
      exact ⟨barrier_first (callChar_not lawful (by decide) (by decide) (by decide)) _,
        barrier_closed found bracket (Scanner.quoted_ends _ _)⟩
    · cases found
  · cases found

theorem tokenizeSql_bounded (sql : List Char) (dialect : SqlDialect) : Scanner.Bounded Barrier (tokenizeSql sql dialect) := by
  apply Scanner.spans_bounded (readSpan_splits dialect)
  · intro text
    refine .inr ?_
    intro c is
    cases is
  · intro cs kind text rest found
    exact readSpan_barrier lawful found

omit [CaseMap] in
theorem renamed_spans (number : List Char → Nat) {spans : List SqlSpan} (bounded : Scanner.Bounded Barrier spans) :
    renamed number (Scanner.concatenation spans) = spans.flatMap fun span => renamed number span.2 := by
  induction spans with
  | nil => rfl
  | cons span spans ih =>
    rw [Scanner.concatenation,List.flatMap_cons,← Scanner.concatenation,renamed_append lawful number bounded.1,
      ih bounded.2,List.flatMap_cons]

theorem readSpan_first {dialect : SqlDialect} {cs text rest : List Char} {kind : SqlSpanKind}
    (found : readSpan dialect cs = some (kind,text,rest)) : ∀ c ∈ cs.head?,¬CallChar c := by
  rcases (readSpan_barrier lawful found).1 ['.'] with last | first
  · exact absurd (Or.inr (by decide)) (last '.' rfl)
  · exact first

end

section
variable [classes : WordClasses]

variable (lawful : classes.Lawful)
include lawful

theorem scan_none {text : List Char} {cuts : List (Cut Char Call)} (scan : Scan text cuts) :
    nextCall text = none ↔ cuts = text.map .plain := by
  rw [nextCall_eq,Option.map_eq_none_iff]
  induction scan with
  | nil => exact ⟨fun _ => rfl,fun _ => rfl⟩
  | @hit cs rest call cuts found _ _ =>
    obtain ⟨text,_⟩ := (callHere_iff lawful).mp found
    obtain ⟨more,first⟩ := call.text_start
    rw [text,first,List.cons_append] at found ⊢
    rw [find_hit found]
    simp
  | skip absent _ ih =>
    rw [find_none,ih,List.map_cons,List.cons_inj_right]
    exact ⟨fun both => both.2,fun same => ⟨absent,same⟩⟩

theorem renamed_none (number : List Char → Nat) {text : List Char} (none : nextCall text = none) :
    renamed number text = text := by
  have cuts := (scan_none lawful (callCuts_scan lawful text)).mp none
  unfold renamed
  rw [cuts,spelled_plains]

-- A placeholder is no call.
theorem scan_unchanged (number : List Char → Nat) {text more others : List Char} {cuts : List (Cut Char Call)}
    (scan : Scan text cuts) (same : spelled (Call.placeholder number) cuts ++ more = text ++ others) :
    cuts = text.map .plain := by
  induction scan with
  | nil => rfl
  | @hit cs rest call cuts found _ _ =>
    obtain ⟨text,_⟩ := (callHere_iff lawful).mp found
    obtain ⟨tail,first⟩ := call.text_start
    rw [text,first,spelled_site] at same
    cases (List.cons.inj same).1
  | skip _ _ ih =>
    rw [spelled_plain] at same
    rw [List.map_cons,ih (List.cons.inj same).2]

theorem renamed_unchanged (number : List Char → Nat) {text more others : List Char}
    (same : renamed number text ++ more = text ++ others) : nextCall text = none :=
  (scan_none lawful (callCuts_scan lawful text)).mpr (scan_unchanged lawful number (callCuts_scan lawful text) same)

end

section
variable [CaseMap] [classes : WordClasses]

-- The calls of the code are replaced, and what is quoted or commented out stays.
def codeRenamed (number : List Char → Nat) (span : SqlSpan) : List Char :=
  if span.1 = .code then renamed number span.2 else span.2

variable (lawful : classes.Lawful)
include lawful

omit [CaseMap] in
theorem spans_unchanged (number : List Char → Nat) (spans : List SqlSpan) :
    spans.flatMap (fun span => renamed number span.2) = spans.flatMap (codeRenamed number) ↔
      ∀ span ∈ spans,span.1 ≠ .code → nextCall span.2 = none := by
  induction spans with
  | nil => simp
  | cons span spans ih =>
    rw [List.flatMap_cons,List.flatMap_cons,List.forall_mem_cons,← ih]
    constructor
    · intro same
      by_cases code : span.1 = .code
      · unfold codeRenamed at same
        rw [if_pos code] at same
        exact ⟨fun quoted => absurd code quoted,List.append_cancel_left same⟩
      · have read := same
        unfold codeRenamed at same
        rw [if_neg code] at same
        have none := renamed_unchanged lawful number same
        rw [renamed_none lawful number none] at same
        exact ⟨fun _ => none,List.append_cancel_left same⟩
    · intro both
      rw [both.2]
      congr 1
      unfold codeRenamed
      split
      · rfl
      · rename_i quoted
        exact renamed_none lawful number (both.1 quoted)

theorem quoted_iff (dialect : SqlDialect) (body : List Char) (number : List Char → Nat) :
    renamed number body = (tokenizeSql body dialect).flatMap (codeRenamed number) ↔
      ∀ span ∈ tokenizeSql body dialect,span.1 ≠ .code → nextCall span.2 = none := by
  have whole := renamed_spans lawful number (tokenizeSql_bounded lawful body dialect)
  rw [tokenizeSql_whole] at whole
  rw [whole]
  exact spans_unchanged lawful number _

end

section
variable [classes : WordClasses]

omit classes in
theorem foldl_max_spec (xs : List Nat) (least : Nat) :
    least ≤ xs.foldl max least ∧ (∀ x ∈ xs,x ≤ xs.foldl max least) ∧
      (xs.foldl max least = least ∨ xs.foldl max least ∈ xs) := by
  induction xs generalizing least with
  | nil => simp
  | cons x xs ih =>
    obtain ⟨first,others,found⟩ := ih (max least x)
    rw [List.foldl_cons]
    refine ⟨by omega,?_,?_⟩
    · intro y member
      rcases List.mem_cons.mp member with rfl | later
      · omega
      · exact others y later
    · rcases found with same | later
      · rw [same]
        by_cases above : x ≤ least
        · exact .inl (by omega)
        · refine .inr ?_
          have is : max least x = x := by omega
          rw [is]
          exact List.mem_cons_self
      · exact .inr (List.mem_cons_of_mem _ later)

theorem positionals_right (text : List Char) {rest : List Char} {m : Nat} (member : m ∈ positionals rest) :
    m ∈ positionals (text ++ rest) := by
  induction text with
  | nil => exact member
  | cons c text ih =>
    rw [List.cons_append,positionals]
    split
    · exact List.mem_append_right _ ih
    · exact ih

theorem positionals_left {text rest : List Char} (stops : Stops WordClasses.isDecimal rest) {m : Nat}
    (member : m ∈ positionals text) : m ∈ positionals (text ++ rest) := by
  induction text with
  | nil => cases member
  | cons c text ih =>
    rw [positionals] at member
    rw [List.cons_append,positionals]
    split at member
    · rename_i sign
      rw [if_pos sign]
      have digits : (text ++ rest).takeWhile WordClasses.isDecimal = text.takeWhile WordClasses.isDecimal := by
        have whole := List.takeWhile_append_dropWhile (p := WordClasses.isDecimal) (l := text)
        have left := fun c member => List.mem_takeWhile_imp (p := WordClasses.isDecimal) (l := text) (x := c) member
        have ends : Stops WordClasses.isDecimal (text.dropWhile WordClasses.isDecimal ++ rest) := by
          intro c head
          cases tail : text.dropWhile WordClasses.isDecimal with
          | nil =>
            rw [tail] at head
            exact stops c head
          | cons d tail' =>
            have stopped := List.head?_dropWhile_not WordClasses.isDecimal text
            rw [tail] at head stopped
            cases head
            simpa using stopped
        have other : Stops WordClasses.isDecimal ((text ++ rest).dropWhile WordClasses.isDecimal) := by
          intro c head
          have stopped := List.head?_dropWhile_not WordClasses.isDecimal (text ++ rest)
          rw [head] at stopped
          simpa using stopped
        have cut : (text ++ rest).takeWhile WordClasses.isDecimal ++ (text ++ rest).dropWhile WordClasses.isDecimal =
            text.takeWhile WordClasses.isDecimal ++ (text.dropWhile WordClasses.isDecimal ++ rest) := by
          rw [List.takeWhile_append_dropWhile,← List.append_assoc,whole]
        exact (run_unique (fun c member => List.mem_takeWhile_imp member) left other ends cut).1
      rw [digits]
      rcases List.mem_append.mp member with here | later
      · exact List.mem_append_left _ here
      · exact List.mem_append_right _ (ih later)
    · rename_i plain
      rw [if_neg plain]
      exact ih member

end

section
variable [CaseMap] [classes : WordClasses]

-- The numbers of the placeholders in the code of a text.
def usedNumbers (dialect : SqlDialect) (body : List Char) : List Nat :=
  (tokenizeSql body dialect).flatMap fun span => if span.1 = .code then positionals span.2 else []

variable (lawful : classes.Lawful)
include lawful

theorem tokenizeSql_apart (sql : List Char) (dialect : SqlDialect) :
    Scanner.Apart (Stops WordClasses.isDecimal) .code (tokenizeSql sql dialect) := by
  apply Scanner.spans_apart (readSpan_splits dialect)
  · intro c head
    cases head
  · intro cs kind text rest found
    refine ⟨(readSpan_starts found).1,?_⟩
    intro c head
    have other := readSpan_first lawful found c head
    rw [Bool.eq_false_iff]
    intro decimal
    exact other (Or.inl (lawful.decimalWord c decimal))

omit [CaseMap] lawful in
theorem spans_used {spans : List SqlSpan} (apart : Scanner.Apart (Stops WordClasses.isDecimal) .code spans) {m : Nat}
    (member : m ∈ spans.flatMap fun span => if span.1 = .code then positionals span.2 else []) :
    m ∈ positionals (Scanner.concatenation spans) := by
  induction spans with
  | nil => cases member
  | cons span spans ih =>
    rw [Scanner.concatenation,List.flatMap_cons,← Scanner.concatenation]
    rw [List.flatMap_cons] at member
    rcases List.mem_append.mp member with here | later
    · split at here
      · rename_i code
        exact positionals_left (apart.1 code) here
      · cases here
    · exact positionals_right _ (ih apart.2 later)

omit [CaseMap] lawful in
theorem le_maxPositional {body : List Char} {m : Nat} (member : m ∈ positionals body) : m ≤ maxPositional body :=
  (foldl_max_spec _ _).2.1 m member

theorem used_le {dialect : SqlDialect} {body : List Char} {m : Nat} (member : m ∈ usedNumbers dialect body) :
    m ≤ maxPositional body := by
  have inside := spans_used (tokenizeSql_apart lawful body dialect) member
  rw [tokenizeSql_whole] at inside
  exact le_maxPositional inside

-- The numbers in use and the new ones are those from one on, without a gap.
def Gapless (used new : List Nat) : Prop := ∃ k,∀ m,m ∈ used ∨ m ∈ new ↔ 1 ≤ m ∧ m ≤ k

def newNumbers (body : List Char) : List Nat :=
  (paramNames body).map (numberOf (maxPositional body) (paramNames body))

-- Without parameters the greatest number counts that is in use, and with some
-- the greatest one that is found anywhere.
def lastNumber (dialect : SqlDialect) (body : List Char) : Nat :=
  if nextCall body = none then (usedNumbers dialect body).foldl max 0 else maxPositional body

omit [CaseMap] lawful in
theorem newNumbers_mem {body : List Char} {m : Nat} :
    m ∈ newNumbers body ↔ maxPositional body < m ∧ m ≤ maxPositional body + (paramNames body).length := by
  unfold newNumbers numberOf
  rw [List.mem_map]
  constructor
  · intro new
    obtain ⟨name,member,rfl⟩ := new
    have place := List.idxOf_lt_length_of_mem member
    omega
  · intro between
    have place : m - maxPositional body - 1 < (paramNames body).length := by omega
    refine ⟨(paramNames body)[m - maxPositional body - 1],List.getElem_mem place,?_⟩
    rw [(paramNames_nodup body).idxOf_getElem]
    omega

omit [CaseMap] lawful in
theorem scan_unnamed {text : List Char} {cuts : List (Cut Char Call)} (scan : Scan text cuts)
    (unnamed : namesFrom [] cuts = []) : cuts = text.map .plain := by
  induction scan with
  | nil => rfl
  | @hit cs rest call cuts found _ _ =>
    have member := (namesFrom_starts cuts _).subset (nameAdded_mem [] call.name)
    rw [namesFrom] at unnamed
    rw [unnamed] at member
    cases member
  | skip _ _ ih => rw [List.map_cons,ih unnamed]

omit [CaseMap] lawful classes in
theorem namesFrom_plain (text : List Char) (paramNames : List (List Char)) :
    namesFrom paramNames (text.map .plain) = paramNames := by
  induction text with
  | nil => rfl
  | cons c text ih => exact ih

omit [CaseMap] in
theorem names_nil (body : List Char) : paramNames body = [] ↔ nextCall body = none := by
  have scan := callCuts_scan lawful body
  rw [scan_none lawful scan]
  constructor
  · intro unnamed
    exact scan_unnamed scan unnamed
  · intro plain
    unfold paramNames
    rw [plain,namesFrom_plain]

theorem gapless_iff (dialect : SqlDialect) (body : List Char) :
    Gapless (usedNumbers dialect body) (newNumbers body) ↔
      0 ∉ usedNumbers dialect body ∧ ∀ m,1 ≤ m → m ≤ lastNumber dialect body → m ∈ usedNumbers dialect body := by
  have bounded : ∀ m ∈ usedNumbers dialect body,m ≤ maxPositional body := fun _ used => used_le lawful used
  obtain ⟨_,below,greatest⟩ := foldl_max_spec (usedNumbers dialect body) 0
  unfold lastNumber
  by_cases unnamed : nextCall body = none
  · have none : paramNames body = [] := (names_nil lawful body).mpr unnamed
    rw [if_pos unnamed]
    unfold Gapless newNumbers
    rw [none,List.map_nil]
    simp only [List.not_mem_nil,or_false]
    constructor
    · intro gapless
      obtain ⟨k,all⟩ := gapless
      refine ⟨fun zero => by have := (all 0).mp zero; omega,?_⟩
      intro m positive within
      rcases greatest with is | member
      · omega
      · have last := (all _).mp member
        exact (all m).mpr ⟨positive,by omega⟩
    · intro held
      refine ⟨_,fun m => ⟨fun member => ⟨?_,below m member⟩,fun between => held.2 m between.1 between.2⟩⟩
      by_contra zero
      have is : m = 0 := by omega
      exact held.1 (is ▸ member)
  · have some : 0 < (paramNames body).length := by
      rw [List.length_pos_iff]
      exact fun none => unnamed ((names_nil lawful body).mp none)
    rw [if_neg unnamed]
    constructor
    · intro gapless
      obtain ⟨k,all⟩ := gapless
      have first := (all (maxPositional body + 1)).mp (.inr (newNumbers_mem.mpr ⟨by omega,by omega⟩))
      refine ⟨fun zero => by have := (all 0).mp (.inl zero); omega,?_⟩
      intro m positive within
      rcases (all m).mpr ⟨positive,by omega⟩ with used | new
      · exact used
      · have above := newNumbers_mem.mp new
        omega
    · intro held
      refine ⟨maxPositional body + (paramNames body).length,?_⟩
      intro m
      constructor
      · intro either
        rcases either with used | new
        · have within := bounded m used
          refine ⟨?_,by omega⟩
          by_contra zero
          have is : m = 0 := by omega
          exact held.1 (is ▸ used)
        · have between := newNumbers_mem.mp new
          omega
      · intro between
        by_cases within : m ≤ maxPositional body
        · exact .inl (held.2 m between.1 within)
        · exact .inr (newNumbers_mem.mpr ⟨by omega,by omega⟩)

theorem new_unused (dialect : SqlDialect) (body : List Char) :
    ∀ m ∈ newNumbers body,m ∉ usedNumbers dialect body := by
  intro m new used
  have above := newNumbers_mem.mp new
  have within := used_le lawful used
  omega

omit [CaseMap] lawful in
theorem numberOf_inj (body : List Char) {first second : List Char} (member : first ∈ paramNames body)
    (same : numberOf (maxPositional body) (paramNames body) first =
      numberOf (maxPositional body) (paramNames body) second) : first = second := by
  unfold numberOf at same
  exact (List.idxOf_inj member).mp (by omega)

end

end Scythe.Migrate
