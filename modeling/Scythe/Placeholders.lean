import Scythe.Fixtures
import Scythe.Positions
import Scythe.Traversal.Within

namespace Scythe
open Effect Numbering Itinerary

-- An analysis that succeeds: the analyzer at its end, with its history, and the
-- query handed to the code generators.
structure Outcome where
  traced : Traced
  result : AnalyzedQuery

section Analyzed
variable [Text.CaseMap] [Printer]

def analyzed (catalog : Catalog) (query : ParsedQuery) : Option Outcome :=
  match (analyzeStatement catalog query.stmt).trace .new with
  | some (.ok columns,traced) =>
    match finish catalog query columns traced.state with
    | .ok result => some ⟨traced,result⟩
    | .error _ => none
  | _ => none

theorem analyzed_result {catalog : Catalog} {query : ParsedQuery} {result : AnalyzedQuery} :
    (∃ traced,analyzed catalog query = some ⟨traced,result⟩) ↔ analyze catalog query = some (.ok result) := by
  unfold analyzed analyze
  rw [show Analyzer.new = Traced.new.state from rfl,←trace_forget]
  rcases (analyzeStatement catalog query.stmt).trace .new with _ | ⟨failure | columns,traced⟩
  · simp [Traced.forget]
  · simp [Traced.forget]
  · simp only [Traced.forget,Option.map_some]
    cases finish catalog query columns traced.state with
    | error failure => simp
    | ok result' => simp

theorem accepted_of_map {β : Type} {catalog : Catalog} {query : ParsedQuery} {f : Outcome → β} {seen : β}
    (run : (analyzed catalog query).map f = some seen) : (analyzed catalog query).isSome := by
  rw [←Option.isSome_map,run]
  rfl

-- Analysis succeeds, and would if it did not drop the failure of any nested
-- query.
def Statement.strict (catalog : Catalog) (stmt : Statement) : Bool :=
  match (analyzeStatement catalog stmt).walk .new with
  | some (.ok _,_) => true
  | _ => false

theorem strict_walked {catalog : Catalog} {stmt : Statement} (strict : stmt.strict catalog) :
    ∃ columns w,(analyzeStatement catalog stmt).walk .new = some (.ok columns,w) := by
  unfold Statement.strict at strict
  split at strict
  · rename_i columns w walked
    exact ⟨columns,w,walked⟩
  · cases strict

theorem analyzed_walked {catalog : Catalog} {query : ParsedQuery} {columns : List AnalyzedColumn} {w : Walk}
    {outcome : Outcome} (walked : (analyzeStatement catalog query.stmt).walk .new = some (.ok columns,w))
    (is : analyzed catalog query = some outcome) :
    Tracks (0,[]) outcome.traced w ∧ outcome.result.positions.Pairwise (· < ·) ∧
      ∀ position,position ∈ outcome.result.positions ↔ Placed 0 w.log position := by
  obtain ⟨t,traced,-,level⟩ := trace_tracks walked
  unfold analyzed at is
  rw [traced] at is
  dsimp only at is
  split at is
  · rename_i result finished
    cases is
    refine ⟨level,finish_increasing finished,fun position => ?_⟩
    have positions := level.positions position
    rw [finish_positions finished,paramPositions,←positions]
    simp
  · cases is

end Analyzed

def Occurrence.isPlaceholder (o : Occurrence) : Bool := (parsePlaceholder o.token).isSome || o.token = "?"

-- What the analyzer holds as the placeholder's position.
def Analyzer.positionOf (self : Analyzer) (o : Occurrence) : Option Int :=
  (parsePlaceholder o.token).or (if o.span = .empty then none else self.resolvedPlaceholders.lookup o.span)

def Outcome.Represents (outcome : Outcome) (o : Occurrence) : Prop :=
  ∃ position ∈ outcome.traced.state.positionOf o,position ∈ outcome.result.positions

-- A placeholder is covered when the traversal comes by it. A numbered one is
-- also covered by another of its number.
def Covered (log : List (Visit Slot)) (o : Occurrence) : Prop :=
  match o.slot with
  | some (.numbered position) => Placed 0 log position
  | some (.bare span) => .bare span ∈ keys log
  | none => False

theorem represents_iff {outcome : Outcome} {w : Walk} {o : Occurrence} (tracks : Tracks (0,[]) outcome.traced w)
    (positions : ∀ position,position ∈ outcome.result.positions ↔ Placed 0 w.log position)
    (placeholder : o.isPlaceholder) : outcome.Represents o ↔ Covered w.log o := by
  unfold Outcome.Represents Covered Occurrence.slot Analyzer.positionOf
  unfold Occurrence.isPlaceholder at placeholder
  cases parsed : parsePlaceholder o.token with
  | some position => simp [positions]
  | none =>
    have written : o.token = "?" := by simpa [parsed] using placeholder
    by_cases empty : o.span = .empty
    · simp [written,empty]
    · simp only [written,empty,Option.none_or,if_false,not_false_eq_true,and_self,if_true,ne_eq]
      rw [tracks.memo,←mem_numberingOrder]
      constructor
      · rintro ⟨position,found,-⟩
        by_contra absent
        rw [Option.mem_def,lastNumber_none.mpr absent] at found
        cases found
      · intro met
        cases found : lastNumber 0 (numberingOrder w.log) o.span with
        | none => exact absurd met (lastNumber_none.mp found)
        | some position => exact ⟨position,rfl,(positions position).mpr (.inr (lastNumber_range found))⟩

section Complete
variable [Text.CaseMap] [Printer]

-- Every placeholder of the statement has its position among the parameters.
def PlaceholdersComplete (catalog : Catalog) (query : ParsedQuery) : Prop :=
  ∀ outcome ∈ analyzed catalog query,∀ o ∈ query.stmt.occurrences,o.isPlaceholder → outcome.Represents o

end Complete

section JoinOn
open Fixtures
local instance : Text.CaseMap := Text.ascii
local instance : Printer := printer

theorem joinOn_run : joinOn.stmt.strict (catalog .postgreSQL) ∧
    (analyzed (catalog .postgreSQL) joinOn).map (·.result.positions) = some [] :=
  ⟨rfl,rfl⟩

end JoinOn

def Location.before (a b : Location) : Bool := a.line < b.line || a.line = b.line && a.column ≤ b.column

-- The statement's `?`s from the left to the right of its text.
def Statement.textOrder (stmt : Statement) : List Span :=
  (stmt.occurrences.map (·.span)).insertionSort fun a b => a.start.before b.start

-- What the parser promises of a text whose placeholders are all bare `?`s: each
-- stands in a place of its own.
structure BareText (stmt : Statement) : Prop where
  bare : ∀ o ∈ stmt.occurrences,o.token = "?"
  placed : ∀ o ∈ stmt.occurrences,o.span ≠ .empty
  distinct : (stmt.occurrences.map (·.span)).Nodup

theorem BareText.slot {stmt : Statement} (text : BareText stmt) {o : Occurrence} (member : o ∈ stmt.occurrences) :
    o.slot = some (.bare o.span) := by
  have written := text.bare o member
  have unnumbered : parsePlaceholder o.token = none := by rw [written]; rfl
  unfold Occurrence.slot
  rw [unnumbered]
  exact if_pos ⟨written,text.placed o member⟩

theorem textOrder_perm (stmt : Statement) : stmt.textOrder.Perm (stmt.occurrences.map (·.span)) :=
  List.perm_insertionSort _ _

theorem textOrder_length (stmt : Statement) : stmt.textOrder.length = stmt.occurrences.length := by
  rw [(textOrder_perm stmt).length_eq,List.length_map]

-- The parameters are numbered from 1 on, and the numbers follow the text.
structure Agrees (stmt : Statement) (outcome : Outcome) : Prop where
  positions : outcome.result.positions = numbersUpTo stmt.textOrder.length
  ordinals : ∀ (i : Nat) span,stmt.textOrder[i]? = some span →
    outcome.traced.state.resolvedPlaceholders.lookup span = some ((i : Int) + 1)

structure EachOnce (stmt : Statement) (outcome : Outcome) : Prop where
  resolved : ∀ o ∈ stmt.occurrences,∃ position,(o.span,position) ∈ outcome.traced.resolved
  same : ∀ span p q,(span,p) ∈ outcome.traced.resolved → (span,q) ∈ outcome.traced.resolved → p = q
  apart : ∀ span other p,(span,p) ∈ outcome.traced.resolved → (other,p) ∈ outcome.traced.resolved → span = other
  count : outcome.result.params.length = stmt.occurrences.length

-- With nothing but bare `?`s the positions are 1 to the number of numberings.
theorem bare_positions {stmt : Statement} {catalog : Catalog} [Text.CaseMap] {log : List (Visit Slot)}
    (text : BareText stmt) (member : log ∈ (stmt.route catalog).logs) {outcome : Outcome}
    (increasing : outcome.result.positions.Pairwise (· < ·))
    (positions : ∀ position,position ∈ outcome.result.positions ↔ Placed 0 log position) :
    outcome.result.positions = numbersUpTo (numberingOrder log).length := by
  refine eq_numbersUpTo increasing fun position => ?_
  rw [positions,Placed,Int.zero_add]
  refine or_iff_right fun met => ?_
  obtain ⟨o,written,slot⟩ := statement_within member met
  rw [text.slot written] at slot
  cases slot

theorem agrees_iff {stmt : Statement} {outcome : Outcome} {w : Walk} (text : BareText stmt)
    (tracks : Tracks (0,[]) outcome.traced w)
    (positions : outcome.result.positions = numbersUpTo (numberingOrder w.log).length) :
    Agrees stmt outcome ↔ numberingOrder w.log = stmt.textOrder := by
  constructor
  · intro agrees
    have lengths : (numberingOrder w.log).length = stmt.textOrder.length := by
      have same := congrArg List.length (positions.symm.trans agrees.positions)
      simpa using same
    refine (List.ext_getElem? fun i => ?_).symm
    cases is : stmt.textOrder[i]? with
    | none =>
      rw [List.getElem?_eq_none_iff] at is
      rw [List.getElem?_eq_none_iff.mpr (by omega)]
    | some span =>
      have number := agrees.ordinals i span is
      rw [tracks.memo] at number
      obtain ⟨j,equal,there⟩ := lastNumber_get number
      rw [show i = j by omega,there]
  · intro order
    have nodup : (numberingOrder w.log).Nodup := by
      rw [order,(textOrder_perm stmt).nodup_iff]
      exact text.distinct
    refine ⟨by rw [positions,order],fun i span is => ?_⟩
    rw [tracks.memo,lastNumber_of_nodup nodup (by rw [order,is])]
    simp

theorem eachOnce_iff {stmt : Statement} {outcome : Outcome} {w : Walk} (text : BareText stmt)
    (tracks : Tracks (0,[]) outcome.traced w)
    (positions : outcome.result.positions = numbersUpTo (numberingOrder w.log).length) :
    EachOnce stmt outcome ↔ (numberingOrder w.log).Perm stmt.textOrder := by
  have count : outcome.result.params.length = (numberingOrder w.log).length := by
    have length := congrArg List.length positions
    rwa [numbersUpTo_length,AnalyzedQuery.positions,List.length_map] at length
  constructor
  · intro once
    have met : stmt.textOrder ⊆ numberingOrder w.log := by
      intro span member
      obtain ⟨o,written,rfl⟩ := List.mem_map.mp ((textOrder_perm stmt).mem_iff.mp member)
      obtain ⟨position,known⟩ := once.resolved o written
      obtain ⟨i,-,there⟩ := tracks.resolved _ known
      exact List.mem_of_getElem? there
    have nodup : stmt.textOrder.Nodup := (textOrder_perm stmt).nodup_iff.mpr text.distinct
    refine ((List.subperm_of_subset nodup met).perm_of_length_le ?_).symm
    rw [textOrder_length,←once.count,count]
  · intro order
    have nodup : (numberingOrder w.log).Nodup :=
      order.nodup_iff.mpr ((textOrder_perm stmt).nodup_iff.mpr text.distinct)
    refine ⟨fun o written => ?_,fun span p q atP atQ => ?_,fun span other p here there => ?_,?_⟩
    · refine tracks.met o.span (order.mem_iff.mpr ((textOrder_perm stmt).mem_iff.mpr ?_))
      exact List.mem_map.mpr ⟨o,written,rfl⟩
    · obtain ⟨i,numberP,isP⟩ := tracks.resolved _ atP
      obtain ⟨j,numberQ,isQ⟩ := tracks.resolved _ atQ
      dsimp only at numberP numberQ isP isQ
      have inside := (List.getElem?_eq_some_iff.mp isP).1
      rw [numberP,numberQ,(List.getElem?_inj inside nodup).mp (isP.trans isQ.symm)]
    · obtain ⟨i,number,is⟩ := tracks.resolved _ here
      obtain ⟨j,number',is'⟩ := tracks.resolved _ there
      dsimp only at number number' is is'
      rw [show j = i by omega,is] at is'
      exact Option.some.inj is'
    · rw [count,order.length_eq,textOrder_length]

section Ordinals
variable [Text.CaseMap] [Printer]

def PositionsAgree (catalog : Catalog) (query : ParsedQuery) : Prop :=
  ∀ outcome ∈ analyzed catalog query,Agrees query.stmt outcome

end Ordinals

section LimitComma
open Fixtures
local instance : Text.CaseMap := Text.ascii
local instance : Printer := printer

theorem limitComma_bare : BareText limitComma.stmt := ⟨by decide,by decide,by decide⟩

theorem limitComma_run : limitComma.stmt.strict (catalog .mySQL) ∧ (analyzed (catalog .mySQL) limitComma).map
    (fun o => o.traced.state.resolvedPlaceholders.lookup ⟨⟨1,28⟩,⟨1,29⟩⟩) = some (some 2) :=
  ⟨rfl,rfl⟩

end LimitComma

section Once
variable [Text.CaseMap] [Printer]

def PlaceholdersOnce (catalog : Catalog) (query : ParsedQuery) : Prop :=
  ∀ outcome ∈ analyzed catalog query,EachOnce query.stmt outcome

end Once

section ScalarTwice
open Fixtures
local instance : Text.CaseMap := Text.ascii
local instance : Printer := printer

theorem scalarTwice_bare : BareText scalarTwice.stmt := ⟨by decide,by decide,by decide⟩

theorem scalarTwice_run : scalarTwice.stmt.strict (catalog .mySQL) ∧
    (analyzed (catalog .mySQL) scalarTwice).map (·.result.params.length) = some 2 :=
  ⟨rfl,rfl⟩

end ScalarTwice

end Scythe
