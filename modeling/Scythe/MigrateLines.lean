import Scythe.MigrateCalls
import Scythe.QueryLines

-- The lines of a converted text beside those of the text.
namespace Scythe.Migrate
open Text Splice Verification QueryFile

section
variable {σ : Type}

def lineBegun (cut : Cut Char σ) : List (List (Cut Char σ)) → List (List (Cut Char σ))
  | [] => [[cut]]
  | line :: rest => (cut :: line) :: rest

def cutLines : List (Cut Char σ) → List (List (Cut Char σ))
  | [] => []
  | .plain c :: cuts => if c = '\n' then [.plain c] :: cutLines cuts else lineBegun (.plain c) (cutLines cuts)
  | .site s :: cuts => lineBegun (.site s) (cutLines cuts)

theorem splitInclusive_run {text : List Char} (unbroken : '\n' ∉ text) (present : text ≠ []) (rest : List Char) :
    splitInclusive (text ++ rest) =
      match splitInclusive rest with
      | [] => [text]
      | line :: others => (text ++ line) :: others := by
  induction text with
  | nil => exact absurd rfl present
  | cons c text ih =>
    rw [List.mem_cons,not_or] at unbroken
    rw [List.cons_append,splitInclusive,if_neg fun same => unbroken.1 same.symm]
    by_cases more : text = []
    · subst more
      rw [List.nil_append]
      cases splitInclusive rest <;> rfl
    · rw [ih unbroken.2 more]
      cases splitInclusive rest <;> rfl

-- What a site is read as: a mark, and no character that could end a line or an
-- annotation's keyword.
structure Marked (read : σ → List Char) (mark inner : Char) (s : σ) : Prop where
  first : ∃ rest,read s = mark :: rest
  inside : inner ∈ read s
  solid : ∀ c ∈ read s,isSpace c = false

theorem Marked.unbroken {read : σ → List Char} {mark inner : Char} {s : σ} (marked : Marked read mark inner s) :
    '\n' ∉ read s := by
  intro member
  have solid := marked.solid _ member
  have space : isSpace '\n' = true := by decide
  rw [space] at solid
  cases solid

theorem Marked.present {read : σ → List Char} {mark inner : Char} {s : σ} (marked : Marked read mark inner s) :
    read s ≠ [] := List.ne_nil_of_mem marked.inside

theorem splitInclusive_cuts {read : σ → List Char} {mark inner : Char} {cuts : List (Cut Char σ)}
    (sites : SitesIn (Marked read mark inner) cuts) :
    splitInclusive (spelled read cuts) = (cutLines cuts).map (spelled read) := by
  induction cuts with
  | nil => rfl
  | cons cut cuts ih =>
    have tail := ih fun s member => sites s (List.mem_cons_of_mem _ member)
    cases cut with
    | plain c =>
      rw [spelled_plain,splitInclusive,tail,cutLines]
      by_cases newline : c = '\n'
      · rw [if_pos newline,if_pos newline]
        rfl
      · rw [if_neg newline,if_neg newline]
        cases cutLines cuts <;> rfl
    | site s =>
      have marked := sites s List.mem_cons_self
      rw [spelled_site,splitInclusive_run marked.unbroken marked.present,tail,cutLines]
      cases cutLines cuts with
      | nil => simp [lineBegun]
      | cons line rest => simp [lineBegun]

theorem lineBegun_sites {P : σ → Prop} {cut : Cut Char σ} {found : List (List (Cut Char σ))} (first : SitesIn P [cut])
    (others : ∀ line ∈ found,SitesIn P line) : ∀ line ∈ lineBegun cut found,SitesIn P line := by
  intro line member
  cases found with
  | nil =>
    rw [List.mem_singleton.mp member]
    exact first
  | cons head rest =>
    rcases List.mem_cons.mp member with rfl | later
    · exact sitesIn_append first (others head List.mem_cons_self)
    · exact others line (List.mem_cons_of_mem _ later)

theorem cutLines_sites {P : σ → Prop} {cuts : List (Cut Char σ)} (sites : SitesIn P cuts) :
    ∀ line ∈ cutLines cuts,SitesIn P line := by
  induction cuts with
  | nil => exact fun _ member => by cases member
  | cons cut cuts ih =>
    have tail := ih fun s member => sites s (List.mem_cons_of_mem _ member)
    have alone : SitesIn P [cut] := fun s member => sites s (by
      rw [List.mem_singleton.mp member]
      exact List.mem_cons_self)
    cases cut with
    | plain c =>
      rw [cutLines]
      split
      · intro line member
        rcases List.mem_cons.mp member with rfl | later
        · exact alone
        · exact tail line later
      · exact lineBegun_sites alone tail
    | site s => exact lineBegun_sites alone tail

theorem first_site (cuts : List (Cut Char σ)) :
    (∃ text : List Char,cuts = text.map .plain) ∨
      ∃ (text : List Char) (s : σ) (more : List (Cut Char σ)),cuts = text.map .plain ++ .site s :: more := by
  induction cuts with
  | nil => exact .inl ⟨[],rfl⟩
  | cons cut cuts ih =>
    cases cut with
    | site s => exact .inr ⟨[],s,cuts,rfl⟩
    | plain c =>
      rcases ih with ⟨text,rfl⟩ | ⟨text,s,more,rfl⟩
      · exact .inl ⟨c :: text,rfl⟩
      · exact .inr ⟨c :: text,s,more,rfl⟩

-- The same value, or one with a call in it and a placeholder instead.
def Changed (inner inner' : Char) (value value' : List Char) : Prop :=
  value = value' ∨ inner ∈ value ∧ inner' ∈ value'

section
variable {read read' : σ → List Char} {mark mark' inner inner' : Char} (isMark : Mark mark) (isMark' : Mark mark')
include isMark isMark'

theorem opensBlock_cuts {cuts : List (Cut Char σ)} (sites : SitesIn (Marked read mark inner) cuts)
    (sites' : SitesIn (Marked read' mark' inner') cuts) :
    opensBlock (spelled read cuts) = opensBlock (spelled read' cuts) := by
  rcases first_site cuts with ⟨text,rfl⟩ | ⟨text,s,more,rfl⟩
  · rw [spelled_plains,spelled_plains]
  · have member : Cut.site s ∈ text.map Cut.plain ++ Cut.site s :: more := List.mem_append_right _ List.mem_cons_self
    obtain ⟨rest,starts⟩ := (sites s member).first
    obtain ⟨rest',starts'⟩ := (sites' s member).first
    rw [spelled_append,spelled_append,spelled_plains,spelled_plains,spelled_site,spelled_site,starts,starts',
      List.cons_append,List.cons_append,opensBlock_mark isMark,opensBlock_mark isMark']

def valuesAt (keyword : String) (line : List Char) : List (List Char) := valuesOf keyword (annotationIn line).toList

omit isMark isMark' in
theorem valuesAt_other {keyword : String} {line word value : List Char} {c : Char}
    (is : annotationIn line = some (word,value)) (member : asciiLower c ∈ word)
    (absent : asciiLower c ∉ keyword.toList) : valuesAt keyword line = [] := by
  unfold valuesAt valuesOf
  rw [is,Option.toList_some,List.filter_cons_of_neg]
  · rfl
  · intro same
    have equal : word = keyword.toList := of_decide_eq_true same
    rw [equal] at member
    exact absent member

omit isMark isMark' in
theorem Marked.word {s : σ} {rest : List Char} (marked : Marked read mark inner s) (starts : read s = mark :: rest)
    (more : List Char) : inner ∈ (mark :: (rest ++ more)).takeWhile fun d => !isSpace d := by
  have whole : mark :: (rest ++ more) = read s ++ more := by rw [starts,List.cons_append]
  rw [whole,List.takeWhile_append_of_pos fun c member => by rw [marked.solid c member]; rfl]
  exact List.mem_append_left _ marked.inside

theorem valuesAt_cuts {keyword : String} {cuts : List (Cut Char σ)} (sites : SitesIn (Marked read mark inner) cuts)
    (sites' : SitesIn (Marked read' mark' inner') cuts) (absent : asciiLower inner ∉ keyword.toList)
    (absent' : asciiLower inner' ∉ keyword.toList) :
    List.Forall₂ (Changed inner inner') (valuesAt keyword (spelled read cuts)) (valuesAt keyword (spelled read' cuts)) := by
  rcases first_site cuts with ⟨text,rfl⟩ | ⟨text,s,more,rfl⟩
  · rw [spelled_plains,spelled_plains]
    exact List.forall₂_same.mpr fun value _ => .inl rfl
  · have member : Cut.site s ∈ text.map Cut.plain ++ Cut.site s :: more := List.mem_append_right _ List.mem_cons_self
    have marked := sites s member
    have marked' := sites' s member
    obtain ⟨rest,starts⟩ := marked.first
    obtain ⟨rest',starts'⟩ := marked'.first
    rw [spelled_append,spelled_append,spelled_plains,spelled_plains,spelled_site,spelled_site,starts,starts',
      List.cons_append,List.cons_append]
    rcases annotationIn_mark text with none | ⟨word,read⟩ | read
    · unfold valuesAt
      rw [none _ _ isMark,none _ _ isMark']
      exact .nil
    · obtain ⟨value,is,all⟩ := read mark (rest ++ spelled _ more) isMark
      obtain ⟨value',is',all'⟩ := read mark' (rest' ++ spelled _ more) isMark'
      unfold valuesAt valuesOf
      rw [is,is',Option.toList_some,Option.toList_some]
      by_cases same : word = keyword.toList
      · rw [List.filter_cons_of_pos (by simpa using same),List.filter_cons_of_pos (by simpa using same)]
        refine .cons (.inr ⟨?_,?_⟩) .nil
        · apply all inner _ (marked.solid inner marked.inside)
          exact (List.takeWhile_prefix _).subset (marked.word starts _)
        · apply all' inner' _ (marked'.solid inner' marked'.inside)
          exact (List.takeWhile_prefix _).subset (marked'.word starts' _)
      · rw [List.filter_cons_of_neg (by simpa using same),List.filter_cons_of_neg (by simpa using same)]
        exact .nil
    · obtain ⟨word,value,is,all⟩ := read mark (rest ++ spelled _ more) isMark
      obtain ⟨word',value',is',all'⟩ := read mark' (rest' ++ spelled _ more) isMark'
      rw [valuesAt_other is (all inner (marked.word starts _)) absent,
        valuesAt_other is' (all' inner' (marked'.word starts' _)) absent']
      exact .nil

omit isMark isMark' in
theorem lines_cuts {cuts : List (Cut Char σ)} (sites : SitesIn (Marked read mark inner) cuts) :
    lines (spelled read cuts) = (cutLines cuts).map fun line => lineText (spelled read line) := by
  unfold lines
  rw [splitInclusive_cuts sites,List.map_map]
  rfl

theorem opening_cuts {cuts : List (Cut Char σ)} (sites : SitesIn (Marked read mark inner) cuts)
    (sites' : SitesIn (Marked read' mark' inner') cuts) :
    (lines (spelled read cuts)).countP opensBlock = (lines (spelled read' cuts)).countP opensBlock := by
  rw [lines_cuts sites,lines_cuts sites',List.countP_map,List.countP_map]
  apply List.countP_congr
  intro line member
  rw [Function.comp_apply,Function.comp_apply,opensBlock_lineText,opensBlock_lineText,
    opensBlock_cuts isMark isMark' (cutLines_sites sites line member) (cutLines_sites sites' line member)]

omit isMark isMark' in
theorem valuesOf_lines (keyword : String) (content : List (List Char)) :
    valuesOf keyword (content.filterMap annotationIn) = content.flatMap (valuesAt keyword) := by
  induction content with
  | nil => rfl
  | cons line content ih =>
    rw [List.flatMap_cons,← ih]
    unfold valuesAt
    cases found : annotationIn line with
    | none =>
      rw [List.filterMap_cons_none found]
      rfl
    | some annotation =>
      rw [List.filterMap_cons_some found,Option.toList_some]
      unfold valuesOf
      rw [← List.map_append,← List.filter_append]
      rfl

theorem values_cuts {keyword : String} {cuts : List (Cut Char σ)} (sites : SitesIn (Marked read mark inner) cuts)
    (sites' : SitesIn (Marked read' mark' inner') cuts) (absent : asciiLower inner ∉ keyword.toList)
    (absent' : asciiLower inner' ∉ keyword.toList) :
    List.Forall₂ (Changed inner inner') (valuesOf keyword (annotationsOf (spelled read cuts)))
      (valuesOf keyword (annotationsOf (spelled read' cuts))) := by
  have plain : ∀ line : List Char,valuesAt keyword (lineText line) = valuesAt keyword line := by
    intro line
    unfold valuesAt
    rw [annotationIn_lineText]
  unfold annotationsOf
  rw [valuesOf_lines,valuesOf_lines,lines_cuts sites,lines_cuts sites']
  have inside := cutLines_sites sites
  have inside' := cutLines_sites sites'
  generalize cutLines cuts = found at inside inside'
  induction found with
  | nil => exact .nil
  | cons line others ih =>
    rw [List.map_cons,List.map_cons,List.flatMap_cons,List.flatMap_cons,plain,plain]
    apply List.rel_append
    · exact valuesAt_cuts isMark isMark' (inside line List.mem_cons_self) (inside' line List.mem_cons_self) absent absent'
    · exact ih (fun other member => inside other (List.mem_cons_of_mem _ member))
        fun other member => inside' other (List.mem_cons_of_mem _ member)

end

end

theorem mark_call : Mark 's' := ⟨by decide,by decide,by decide⟩

theorem mark_placeholder : Mark '$' := ⟨by decide,by decide,by decide⟩

theorem digit_solid {c : Char} (digit : c.isDigit = true) : isSpace c = false := by
  have bounds := Char.isDigit_iff_toNat.mp digit
  have numbers : ∀ n : Nat,48 ≤ n → n ≤ 57 → isSpace (Char.ofNat n) = false := by
    intro n low high
    interval_cases n <;> decide
  have is := numbers c.toNat bounds.1 bounds.2
  rwa [Char.ofNat_toNat] at is

theorem placeholder_marked [WordClasses] (number : List Char → Nat) (call : Call) :
    Marked (Call.placeholder number) '$' '$' call := by
  refine ⟨⟨_,rfl⟩,List.mem_cons_self,?_⟩
  intro c member
  rcases List.mem_cons.mp member with rfl | digit
  · decide
  · exact digit_solid (placeholder_digits _ c digit)

section
variable [classes : WordClasses] (lawful : classes.Lawful)
include lawful

theorem word_solid {c : Char} (word : WordClasses.isWord c = true) : isSpace c = false := by
  rw [Bool.eq_false_iff]
  intro space
  rw [lawful.space c space] at word
  cases word

theorem call_marked {call : Call} (proper : call.Proper) : Marked Call.text 's' '(' call := by
  refine ⟨call.text_start,?_,?_⟩
  · have opening : ∀ nullable,'(' ∈ callPrefix nullable := by decide
    exact List.mem_append_left _ (opening call.nullable)
  · intro c member
    rcases call_chars lawful proper c member with word | mark
    · exact word_solid lawful word
    · have others : ∀ c ∈ ['.','(',')'],isSpace c = false := List.all_iff_forall_prop.mp (by decide)
      exact others c mark

theorem calls_marked (text : List Char) : SitesIn (Marked Call.text 's' '(') (callCuts text) :=
  fun call member => call_marked lawful ((scan_text lawful (callCuts_scan lawful text)).2 call member)

theorem opening_renamed (number : List Char → Nat) (text : List Char) :
    (lines (renamed number text)).countP opensBlock = (lines text).countP opensBlock := by
  have same := opening_cuts mark_call mark_placeholder (calls_marked lawful text)
    fun call _ => placeholder_marked number call
  rw [(scan_text lawful (callCuts_scan lawful text)).1] at same
  exact same.symm

theorem values_renamed {keyword : String} (absent : '(' ∉ keyword.toList) (absent' : '$' ∉ keyword.toList)
    (number : List Char → Nat) (text : List Char) :
    List.Forall₂ (Changed '(' '$') (valuesOf keyword (annotationsOf text))
      (valuesOf keyword (annotationsOf (renamed number text))) := by
  have changed := values_cuts mark_call mark_placeholder (calls_marked lawful text)
    (fun call _ => placeholder_marked number call) absent absent'
  rwa [(scan_text lawful (callCuts_scan lawful text)).1] at changed

theorem ended_renamed (number : List Char → Nat) {text : List Char} (ended : Ended text) : Ended (renamed number text) := by
  have whole := (scan_text lawful (callCuts_scan lawful text)).1
  unfold renamed
  generalize callCuts text = cuts at whole
  subst whole
  induction cuts using List.reverseRecOn with
  | nil => exact .inl rfl
  | append_singleton cuts cut _ =>
    right
    rw [spelled_append] at ended ⊢
    rcases ended with none | last
    · cases cut with
      | plain c => exact absurd none (by simp)
      | site call =>
        obtain ⟨more,starts⟩ := call.text_start
        rw [spelled_site,starts] at none
        exact absurd none (by simp)
    · cases cut with
      | plain c =>
        rw [spelled_plain,spelled_nil,List.getLast?_concat] at last ⊢
        exact last
      | site call =>
        have closing : (spelled Call.text cuts ++ spelled Call.text [.site call]).getLast? = some ')' := by
          rw [spelled_site,spelled_nil,List.append_nil]
          unfold Call.text
          rw [← List.append_assoc,← List.append_assoc,List.getLast?_concat]
        rw [closing] at last
        cases last

end

end Scythe.Migrate
