import Mathlib.Data.List.Perm.Basic
import Scythe.MatcherExactness
import Scythe.SyntaxParts

-- The rule about weak hashes, by the identifiers that the arguments of their calls mention.
namespace Scythe.WeakHash
open Text TreeWalk MatcherArgs

section Mentions
variable (patterns : List String)

-- A sensitive identifier, as it is written.
def sensitiveAt : SyntaxNode → Option String
  | .expr (.identifier ident) => if sensitive patterns ident.value then some ident.value else none
  | .expr (.compoundIdentifier parts) =>
    if parts.getLast?.any fun last => sensitive patterns last.value then some (join "." (parts.map (·.value))) else none
  | _ => none

-- The steps that the search takes.
def searched : SyntaxStep → Bool
  | .nested | .cast | .binary | .argument | .namedArgument => true
  | _ => false

def outsideQuery (step : SyntaxStep) : Bool := !opensQuery step

-- The first sensitive identifier in an argument behind such steps.
def mention (through : SyntaxStep → Bool) (arg : FunctionArg) : Option String :=
  arg.parts.findSome? fun part => if through part.1 then
    (syntaxTree.located part.2).findSome? fun place => if place.1.all through then sensitiveAt patterns place.2 else none
    else none

-- What the search finds in parts, behind the steps that it takes.
def searchParts (parts : SyntaxParts) : Option String :=
  parts.findSome? fun part => if searched part.1 then
    match part.2 with
    | .expr inner => extractSensitiveColumn patterns inner
    | _ => none
    else none

theorem searchParts_append (front back : SyntaxParts) :
    searchParts patterns (front ++ back) = (searchParts patterns front).or (searchParts patterns back) :=
  List.findSome?_append

theorem searchParts_nil : searchParts patterns [] = none := rfl

theorem searchParts_cons (step : SyntaxStep) (x : SyntaxNode) (parts : SyntaxParts) : searchParts patterns ((step,x) :: parts) =
    (if searched step then
      match x with
      | .expr inner => extractSensitiveColumn patterns inner
      | _ => none
      else none).or (searchParts patterns parts) := by
  rw [searchParts,List.findSome?_cons]
  cases (if searched step then
    match x with
    | .expr inner => extractSensitiveColumn patterns inner
    | _ => none
    else none)
  all_goals rfl

theorem searchParts_none {parts : SyntaxParts} (skipped : ∀ part ∈ parts,searched part.1 = false) :
    searchParts patterns parts = none :=
  List.findSome?_eq_none_iff.mpr fun part member => if_neg (skipped part member ▸ Bool.false_ne_true)

theorem searchParts_skipped {step : SyntaxStep} (skipped : searched step = false) (exprs : List Expr) :
    searchParts patterns (exprParts step exprs) = none :=
  searchParts_none patterns (List.forall_mem_map.mpr fun _ _ => skipped)

theorem arg_searched (arg : FunctionArg) : extractArg patterns arg = searchParts patterns arg.parts := by
  cases arg with
  | named name arg =>
    cases arg
    all_goals simp [extractArg,extractArgExpr,FunctionArg.parts,FunctionArgExpr.parts,searchParts,searched]
  | exprNamed name arg =>
    cases arg
    all_goals simp [extractArg,FunctionArg.parts,FunctionArgExpr.parts,searchParts,searched]
  | unnamed arg =>
    cases arg
    all_goals simp [extractArg,extractArgExpr,FunctionArg.parts,FunctionArgExpr.parts,searchParts,searched]

theorem args_searched (args : List FunctionArg) :
    extractArgs patterns args = searchParts patterns (args.flatMap FunctionArg.parts) := by
  induction args with
  | nil => rw [extractArgs,List.flatMap_nil,searchParts,List.findSome?_nil]
  | cons arg args ih => rw [extractArgs,List.flatMap_cons,searchParts_append,arg_searched,ih]

theorem function_searched (f : Function) : extractFunction patterns f = searchParts patterns f.parts := by
  obtain ⟨name,args,filter,nullTreatment,overWindow,unread⟩ := f
  rw [extractFunction,Function.parts,searchParts_append,searchParts_append,searchParts_append,
    searchParts_skipped patterns rfl,searchParts_skipped patterns rfl,searchParts_skipped patterns rfl]
  cases args with
  | none => simp [extractArguments,FunctionArguments.parts,searchParts]
  | subquery query => simp [extractArguments,FunctionArguments.parts,searchParts,searched]
  | list items clause unread =>
    rw [extractArguments,args_searched,FunctionArguments.parts,searchParts_append,searchParts_skipped patterns rfl]
    simp

theorem expr_searched (e : Expr) :
    extractSensitiveColumn patterns e = (sensitiveAt patterns (.expr e)).or (searchParts patterns e.parts) := by
  cases e
  case identifier ident => simp [extractSensitiveColumn,sensitiveAt,Expr.parts,searchParts]
  case compoundIdentifier parts => simp [extractSensitiveColumn,sensitiveAt,Expr.parts,searchParts]
  case function f => rw [extractSensitiveColumn,function_searched,sensitiveAt,Expr.parts,Option.none_or] <;> simp
  case case operand conditions elseResult =>
    have arms : searchParts patterns (conditions.flatMap CaseWhen.parts) = none := by
      refine searchParts_none patterns fun part member => ?_
      obtain ⟨arm,_,inside⟩ := List.mem_flatMap.mp member
      rcases List.mem_cons.mp inside with rfl | inside
      · rfl
      · cases List.mem_singleton.mp inside
        rfl
    rw [Expr.parts,searchParts_append,searchParts_append,searchParts_skipped patterns rfl,arms,
      searchParts_skipped patterns rfl]
    simp [extractSensitiveColumn,sensitiveAt]
  case compoundFieldAccess root chain =>
    have accesses : searchParts patterns (chain.flatMap AccessExpr.parts) = none := by
      refine searchParts_none patterns fun part member => ?_
      obtain ⟨access,_,inside⟩ := List.mem_flatMap.mp member
      cases access with
      | dot e =>
        cases List.mem_singleton.mp inside
        rfl
      | subscript indices =>
        obtain ⟨e,_,rfl⟩ := List.mem_map.mp inside
        rfl
    change _ = (none : Option String).or (searchParts patterns (chain.flatMap AccessExpr.parts))
    rw [accesses,extractSensitiveColumn]
    all_goals simp
  case array elem => exact (searchParts_skipped patterns rfl elem).symm
  case tuple exprs => exact (searchParts_skipped patterns rfl exprs).symm
  case other children => exact (searchParts_skipped patterns rfl children).symm
  case inList e list negated =>
    rw [Expr.parts,searchParts_cons,searchParts_skipped patterns rfl]
    rfl
  case substring e bounds => exact (searchParts_skipped patterns rfl (e :: bounds)).symm
  case trim e characters => exact (searchParts_skipped patterns rfl (e :: characters)).symm
  all_goals simp [extractSensitiveColumn,sensitiveAt,Expr.parts,searchParts_cons,searchParts_nil,searched]

theorem searched_closed (step : SyntaxStep) (opens : opensQuery step = true) : searched step = false := by
  cases step
  all_goals first | rfl | cases opens

theorem extract_first (e : Expr) : extractSensitiveColumn patterns e =
    (syntaxTree.located (.expr e)).findSome? fun place =>
      if place.1.all searched then sensitiveAt patterns place.2 else none :=
  first_exprs searched_closed (expr_searched patterns) e

theorem extractArg_mention (arg : FunctionArg) : extractArg patterns arg = mention patterns searched arg := by
  have inner (step : SyntaxStep) (taken : searched step = true) (arg : FunctionArgExpr) :
      extractArgExpr patterns arg = (arg.parts step).findSome? fun part => if searched part.1 then
        (syntaxTree.located part.2).findSome? fun place =>
          if place.1.all searched then sensitiveAt patterns place.2 else none
        else none := by
    cases arg with
    | expr e =>
      rw [extractArgExpr,extract_first,FunctionArgExpr.parts,List.findSome?_singleton,if_pos taken]
    | _ => rw [extractArgExpr,FunctionArgExpr.parts,List.findSome?_nil] <;> simp
  cases arg with
  | named name arg =>
    rw [extractArg]
    exact inner _ rfl arg
  | exprNamed name arg =>
    rw [extractArg]
    cases arg
    all_goals rfl
  | unnamed arg =>
    rw [extractArg]
    exact inner _ rfl arg

end Mentions

section Calls

-- The arguments of the calls of a hash function, each with the name of the function.
def hashCall (functions : List String) : SyntaxNode → List (String × FunctionArg)
  | .expr (.function f) =>
    match inSet functions f.name,f.args with
    | some last,.list args _ _ => args.map fun arg => (asciiLowercase last,arg)
    | _,_ => []
  | _ => []

def hashArguments (functions : List String) (roots : List SyntaxNode) : List (String × FunctionArg) :=
  (roots.flatMap syntaxTree.nodes).flatMap (hashCall functions)

def visitedExpr : Visited → Option Expr
  | .expr e => some e
  | .relation _ => none

def nodeExpr : SyntaxNode → Option Expr
  | .expr e => some e
  | _ => none

-- The visitor of the parser library comes to every expression of a statement, and once.
structure VisitsAll (library : SqlLibrary) (stmt : AuditStatement) (roots : List SyntaxNode) : Prop where
  known : ∀ nodes,knownRoots stmt = some nodes → roots = nodes
  each : ((library.visited stmt).filterMap visitedExpr).Perm ((roots.flatMap syntaxTree.nodes).filterMap nodeExpr)

variable (patterns : List String)

-- An argument mentions a sensitive identifier outside of every subquery.
def Mentions (arg : FunctionArg) (text : String) : Prop :=
  ∃ part ∈ arg.parts,outsideQuery part.1 = true ∧
    ∃ place ∈ syntaxTree.located part.2,place.1.all outsideQuery = true ∧ sensitiveAt patterns place.2 = some text

-- A hit tells of a call's argument, under the text of an identifier that it mentions.
def TellsOf (hit : MatcherHit) (call : String × FunctionArg) : Prop :=
  ∃ text,Mentions patterns call.2 text ∧ hit = .of [("func",call.1),("column",text)]

def isMentioned (through : SyntaxStep → Bool) (call : String × FunctionArg) : Bool := (mention patterns through call.2).isSome

theorem searched_outside {step : SyntaxStep} (taken : searched step = true) : outsideQuery step = true := by
  cases opens : opensQuery step with
  | false => exact congrArg not opens
  | true =>
    rw [searched_closed step opens] at taken
    cases taken

theorem all_outside {steps : List SyntaxStep} (taken : steps.all searched = true) : steps.all outsideQuery = true :=
  List.all_eq_true.mpr fun step inside => searched_outside (List.all_eq_true.mp taken step inside)

theorem mention_found {through : SyntaxStep → Bool} {arg : FunctionArg} {text : String}
    (found : mention patterns through arg = some text) :
    ∃ part ∈ arg.parts,through part.1 = true ∧
      ∃ place ∈ syntaxTree.located part.2,place.1.all through = true ∧ sensitiveAt patterns place.2 = some text := by
  obtain ⟨part,member,found⟩ := List.exists_of_findSome?_eq_some found
  by_cases taken : through part.1 = true
  · rw [if_pos taken] at found
    obtain ⟨place,there,found⟩ := List.exists_of_findSome?_eq_some found
    by_cases all : place.1.all through = true
    · rw [if_pos all] at found
      exact ⟨part,member,taken,place,there,all,found⟩
    · rw [if_neg all] at found
      cases found
  · rw [if_neg taken] at found
    cases found

theorem mentioned_iff (call : String × FunctionArg) :
    isMentioned patterns outsideQuery call = true ↔ ∃ text,Mentions patterns call.2 text := by
  unfold isMentioned
  rw [Option.isSome_iff_exists]
  constructor
  · rintro ⟨text,found⟩
    exact ⟨text,mention_found patterns found⟩
  · rintro ⟨text,part,member,taken,place,there,all,found⟩
    refine Option.isSome_iff_exists.mp (List.findSome?_isSome_iff.mpr ⟨part,member,?_⟩)
    rw [if_pos taken]
    refine List.findSome?_isSome_iff.mpr ⟨place,there,?_⟩
    rw [if_pos all,found]
    rfl

theorem searched_mentions {call : String × FunctionArg} {text : String}
    (found : mention patterns searched call.2 = some text) : Mentions patterns call.2 text := by
  obtain ⟨part,member,taken,place,there,all,is⟩ := mention_found patterns found
  exact ⟨part,member,searched_outside taken,place,there,all_outside all,is⟩

theorem searched_weaker (call : String × FunctionArg) (found : isMentioned patterns searched call = true) :
    isMentioned patterns outsideQuery call = true := by
  obtain ⟨text,found⟩ := Option.isSome_iff_exists.mp found
  exact (mentioned_iff patterns call).mpr ⟨text,searched_mentions patterns found⟩

def report (call : String × FunctionArg) : Option MatcherHit :=
  (extractArg patterns call.2).map fun column => .of [("func",call.1),("column",column)]

theorem report_isSome (call : String × FunctionArg) : (report patterns call).isSome = isMentioned patterns searched call := by
  rw [report,Option.isSome_map,extractArg_mention,isMentioned]

theorem report_tells {call : String × FunctionArg} {hit : MatcherHit} (told : report patterns call = some hit) :
    TellsOf patterns hit call := by
  rw [report,extractArg_mention] at told
  obtain ⟨text,found,rfl⟩ := Option.map_eq_some_iff.mp told
  exact ⟨text,searched_mentions patterns found,rfl⟩

-- Of calls whose every mention the search comes to, each that mentions something is told of, in their order.
theorem reports_tell {calls : List (String × FunctionArg)}
    (reached : ∀ call ∈ calls,isMentioned patterns outsideQuery call = true → isMentioned patterns searched call = true) :
    List.Forall₂ (TellsOf patterns) (calls.filterMap (report patterns)) (calls.filter (isMentioned patterns outsideQuery)) := by
  induction calls with
  | nil => exact .nil
  | cons call calls ih =>
    rw [List.forall_mem_cons] at reached
    cases told : report patterns call with
    | none =>
      have silent : ¬isMentioned patterns outsideQuery call = true := fun mentioned => by
        have found := reached.1 mentioned
        rw [← report_isSome,told] at found
        cases found
      rw [List.filterMap_cons_none told,List.filter_cons_of_neg silent]
      exact ih reached.2
    | some hit =>
      have found : isMentioned patterns searched call = true := by
        rw [← report_isSome,told]
        rfl
      rw [List.filterMap_cons_some told,List.filter_cons_of_pos (searched_weaker patterns call found)]
      exact .cons (report_tells patterns told) (ih reached.2)

def visitedArguments (library : SqlLibrary) (functions : List String) (stmt : AuditStatement) : List (String × FunctionArg) :=
  ((library.visited stmt).filterMap visitedExpr).flatMap fun e => hashCall functions (.expr e)

variable {patterns}

theorem hashedColumns_reports (functions : List String) (visited : Visited) : hashedColumns functions patterns visited =
    ((visitedExpr visited).toList.flatMap fun e => hashCall functions (.expr e)).filterMap (report patterns) := by
  cases visited with
  | relation name => rfl
  | expr e =>
    rw [visitedExpr,Option.toList_some,List.flatMap_singleton]
    cases e
    case function f =>
      rw [hashedColumns,hashCall]
      cases inSet functions f.name with
      | none => rfl
      | some last =>
        cases f.args with
        | list args clause unread =>
          simp only [List.filterMap_map]
          exact List.map_filterMap
        | _ => rfl
    all_goals rfl

theorem visited_reports (functions : List String) (visited : List Visited) :
    visited.flatMap (hashedColumns functions patterns) =
      ((visited.filterMap visitedExpr).flatMap fun e => hashCall functions (.expr e)).filterMap (report patterns) := by
  induction visited with
  | nil => rfl
  | cons item visited ih =>
    rw [List.flatMap_cons,hashedColumns_reports,ih]
    cases is : visitedExpr item with
    | none => rw [List.filterMap_cons_none is,Option.toList_none,List.flatMap_nil,List.filterMap_nil,List.nil_append]
    | some e =>
      rw [List.filterMap_cons_some is,Option.toList_some,List.flatMap_singleton,List.flatMap_cons,List.filterMap_append]

theorem hashCall_nil (x : SyntaxNode) : hashCall [] x = [] := by
  have none (name : ObjectName) : inSet [] name = none := Option.filter_eq_none_iff.mpr fun _ _ => Bool.false_ne_true
  cases x with
  | expr e =>
    cases e
    case function f => rw [hashCall,none]
    all_goals rfl
  | _ => rfl

theorem sensitiveAt_nil (x : SyntaxNode) : sensitiveAt [] x = none := by
  cases x with
  | expr e =>
    cases e
    case compoundIdentifier parts =>
      rw [sensitiveAt]
      cases parts.getLast?
      all_goals rfl
    all_goals rfl
  | _ => rfl

theorem report_nil (call : String × FunctionArg) : report [] call = none := by
  cases told : report [] call with
  | none => rfl
  | some hit =>
    obtain ⟨text,⟨_,_,_,place,_,_,found⟩,_⟩ := report_tells [] told
    rw [sensitiveAt_nil] at found
    cases found

variable (library : SqlLibrary) (ctx : LintContext) (args : TomlTable)

theorem hits_eq : matchWeakHashOverSensitiveColumn library ctx args =
    (visitedArguments library (readStringList args "functions") ctx.stmt).filterMap
      (report (readStringList args "column_patterns")) := by
  unfold matchWeakHashOverSensitiveColumn visitedArguments
  rw [← visited_reports]
  by_cases empty : (readStringList args "functions").isEmpty || (readStringList args "column_patterns").isEmpty
  · simp only [empty,if_true]
    rw [visited_reports]
    rcases (Bool.or_eq_true _ _).mp empty with functions | patterns
    · rw [List.isEmpty_iff.mp functions]
      simp [hashCall_nil]
    · rw [List.isEmpty_iff.mp patterns]
      simp [report_nil]
  · simp only [empty]
    rfl

variable {library ctx}

theorem arguments_perm {roots : List SyntaxNode} (visits : VisitsAll library ctx.stmt roots) (functions : List String) :
    (visitedArguments library functions ctx.stmt).Perm (hashArguments functions roots) := by
  have exprs (nodes : List SyntaxNode) : nodes.flatMap (hashCall functions) =
      (nodes.filterMap nodeExpr).flatMap fun e => hashCall functions (.expr e) := by
    induction nodes with
    | nil => rfl
    | cons x nodes ih =>
      rw [List.flatMap_cons,ih]
      cases x
      all_goals rfl
  unfold hashArguments visitedArguments
  rw [exprs]
  exact visits.each.flatMap_right _

-- Each argument of a hash call that mentions a sensitive identifier is told of, and once, and nothing else is.
def ExactHits (library : SqlLibrary) (ctx : LintContext) (args : TomlTable) (roots : List SyntaxNode) : Prop :=
  ∃ due : List (String × FunctionArg),
    due.Perm ((hashArguments (readStringList args "functions") roots).filter
      (isMentioned (readStringList args "column_patterns") outsideQuery)) ∧
    List.Forall₂ (TellsOf (readStringList args "column_patterns")) (matchWeakHashOverSensitiveColumn library ctx args) due

theorem exact_searched {roots : List SyntaxNode} (visits : VisitsAll library ctx.stmt roots) (hits : ExactHits library ctx args roots) :
    ∀ call ∈ hashArguments (readStringList args "functions") roots,
      isMentioned (readStringList args "column_patterns") outsideQuery call = true →
        isMentioned (readStringList args "column_patterns") searched call = true := by
  have same := arguments_perm visits (readStringList args "functions")
  obtain ⟨due,perm,told⟩ := hits
  rw [hits_eq] at told
  have lengths := told.length_eq
  rw [perm.length_eq,← List.countP_eq_length_filter,← same.countP_eq,List.length_filterMap_eq_countP] at lengths
  have reported : (fun call => (report (readStringList args "column_patterns") call).isSome) =
      isMentioned (readStringList args "column_patterns") searched := funext (report_isSome _)
  rw [reported] at lengths
  intro call member
  exact (countP_agrees (searched_weaker _) _).mp lengths call (same.mem_iff.mpr member)

theorem searched_exact {roots : List SyntaxNode} (visits : VisitsAll library ctx.stmt roots)
    (reached : ∀ call ∈ hashArguments (readStringList args "functions") roots,
      isMentioned (readStringList args "column_patterns") outsideQuery call = true →
        isMentioned (readStringList args "column_patterns") searched call = true) : ExactHits library ctx args roots := by
  have same := arguments_perm visits (readStringList args "functions")
  unfold ExactHits
  rw [hits_eq]
  exact ⟨_,same.filter _,reports_tell _ fun call member => reached call (same.mem_iff.mp member)⟩

-- The rule is exact just where an argument that mentions something mentions it behind steps that the search takes.
theorem weak_hash_exact_iff {roots : List SyntaxNode} (visits : VisitsAll library ctx.stmt roots) :
    ExactHits library ctx args roots ↔
      ∀ call ∈ hashArguments (readStringList args "functions") roots,
        isMentioned (readStringList args "column_patterns") outsideQuery call = true →
          isMentioned (readStringList args "column_patterns") searched call = true :=
  ⟨exact_searched args visits,searched_exact args visits⟩

end Calls

section Missed

def visitedNodes (stmt : AuditStatement) : List Visited :=
  ((((knownRoots stmt).getD []).flatMap syntaxTree.nodes).filterMap nodeExpr).map .expr

theorem projected_located (e : Expr) (sources : List TableWithJoins) :
    ([SyntaxStep.scope [],.body,.selectBody,.projection],.expr e) ∈
      syntaxTree.located (.query (selectOf [.unnamedExpr e] sources)) := by
  refine Tree.located_part (y := .scope (selectOf [.unnamedExpr e] sources)) List.mem_cons_self ?_
  refine Tree.located_part (y := .body (selectOf [.unnamedExpr e] sources).body) List.mem_cons_self ?_
  refine Tree.located_part List.mem_cons_self ?_
  refine Tree.located_part List.mem_cons_self ?_
  exact syntaxTree.located_self _

theorem projected_node (e : Expr) (sources : List TableWithJoins) :
    SyntaxNode.expr e ∈ [SyntaxNode.query (selectOf [.unnamedExpr e] sources)].flatMap syntaxTree.nodes :=
  List.mem_flatMap.mpr ⟨_,List.mem_singleton.mpr rfl,List.mem_map.mpr ⟨_,projected_located e sources,rfl⟩⟩

-- A visitor that comes to every expression.
def visitingLibrary : SqlLibrary :=
  { plainLibrary with
    visited := visitedNodes
    visits_projection := fun e =>
      List.mem_map.mpr ⟨e,List.mem_filterMap.mpr ⟨_,projected_node e [],rfl⟩,rfl⟩ }

theorem visiting_all (q : Query) : VisitsAll visitingLibrary (.query q) [.query q] where
  known nodes is := Option.some.inj is
  each := by
    have back (exprs : List Expr) : (exprs.map Visited.expr).filterMap visitedExpr = exprs := by
      rw [List.filterMap_map]
      exact List.filterMap_some
    change ((List.map Visited.expr _).filterMap visitedExpr).Perm _
    rw [back]
    exact .refl _

-- SELECT md5(trim(password)) FROM users
def trimmedHash : Query := selectOf [.unnamedExpr (.function md5)] [⟨.table [.identifier ⟨"users",false⟩] none none [],[]⟩]
where
  argument : FunctionArg := .unnamed (.expr (.trim (.identifier ⟨"password",false⟩) []))
  md5 : Function := ⟨[.identifier ⟨"md5",false⟩],.list [argument] false [],none,false,none,[]⟩

def passwordHashes : TomlTable :=
  ((∅ : TomlTable).insert "functions" (.array [.string "md5"])).insert "column_patterns" (.array [.string "password"])

def hashContext : LintContext := ⟨.query trimmedHash,.new .postgreSQL⟩

theorem trimmed_hash_iff : ExactHits visitingLibrary hashContext passwordHashes [.query trimmedHash] ↔
    ∀ call ∈ hashArguments (readStringList passwordHashes "functions") [.query trimmedHash],
      isMentioned (readStringList passwordHashes "column_patterns") outsideQuery call = true →
        isMentioned (readStringList passwordHashes "column_patterns") searched call = true :=
  weak_hash_exact_iff passwordHashes (visiting_all trimmedHash)

theorem trimmed_hash_missed : ¬ExactHits visitingLibrary hashContext passwordHashes [.query trimmedHash] := by
  intro hits
  have functions : readStringList passwordHashes "functions" = ["md5"] := by decide
  have patterns : readStringList passwordHashes "column_patterns" = ["password"] := by decide
  have reached := exact_searched passwordHashes (visiting_all trimmedHash) hits
  rw [functions,patterns] at reached
  have called : ("md5",trimmedHash.argument) ∈ hashArguments ["md5"] [.query trimmedHash] :=
    List.mem_flatMap.mpr ⟨_,projected_node (.function trimmedHash.md5) _,List.mem_singleton.mpr rfl⟩
  have mentioned : isMentioned ["password"] outsideQuery ("md5",trimmedHash.argument) = true := by
    refine (mentioned_iff _ _).mpr ⟨"password",_,List.mem_singleton.mpr rfl,rfl,([.trim],.expr (.identifier ⟨"password",false⟩)),?_,rfl,by decide⟩
    exact Tree.located_part List.mem_cons_self (syntaxTree.located_self _)
  have missed := reached _ called mentioned
  rw [isMentioned,← extractArg_mention] at missed
  cases missed

end Missed

end Scythe.WeakHash
