import Scythe.MatcherExactness
import Scythe.SyntaxParts

-- The rule about policies that call an authentication function for every row.
namespace Scythe.PolicyAuth
open Text TreeWalk MatcherArgs

section Matcher

def problematicAuthFunctions : List (String × String) := [("auth","uid"),("auth","jwt"),("auth","role"),("auth","email")]

def problematicSingleFunctions : List String := ["current_setting"]

def asIdent : ObjectNamePart → Option Ident
  | .identifier ident => some ident
  | .function => none

def matchesProblematicCall (name : ObjectName) : Bool :=
  match name.filterMap fun part => (asIdent part).map fun ident => asciiLowercase ident.value with
  | [single] => problematicSingleFunctions.contains single
  | [schema,func] => problematicAuthFunctions.any fun known => known.1 = schema && known.2 = func
  | _ => false

mutual

def walkForBareAuthCall : Expr → Bool
  | .function function => walkFunction function
  | .nested inner => walkForBareAuthCall inner
  | .binaryOp left _ right => walkForBareAuthCall left || walkForBareAuthCall right
  | .unaryOp _ expr => walkForBareAuthCall expr
  | .cast _ expr _ => walkForBareAuthCall expr
  | .isNull expr | .isNotNull expr | .isTruth _ expr => walkForBareAuthCall expr
  | .between expr _ low high => walkForBareAuthCall expr || (walkForBareAuthCall low || walkForBareAuthCall high)
  | .inList expr list _ => walkForBareAuthCall expr || walkList list
  | .subquery _ => false
  | _ => false

def walkFunction : Function → Bool
  | ⟨name,args,_,_,_,_⟩ => matchesProblematicCall name || walkArguments args

def walkArguments : FunctionArguments → Bool
  | .list args _ _ => walkArgs args
  | _ => false

def walkArgs : List FunctionArg → Bool
  | [] => false
  | arg :: args => walkArg arg || walkArgs args

def walkArg : FunctionArg → Bool
  | .named _ arg => walkArgExpr arg
  | .exprNamed _ arg => walkArgExpr arg
  | .unnamed arg => walkArgExpr arg

def walkArgExpr : FunctionArgExpr → Bool
  | .expr e => walkForBareAuthCall e
  | _ => false

def walkList : List Expr → Bool
  | [] => false
  | e :: es => walkForBareAuthCall e || walkList es

end

variable (library : SqlLibrary)

def matchPolicyUsesUncachedAuthFunction (ctx : LintContext) (_args : TomlTable) : List MatcherHit :=
  match ctx.stmt with
  | .createPolicy policy =>
    let usingHit := policy.usingExpr.any walkForBareAuthCall
    let withCheckHit := policy.withCheck.any walkForBareAuthCall
    if !usingHit && !withCheckHit then []
    else
      [.of [("policy",library.ident policy.name),("table",library.name policy.tableName),
        ("clause",if usingHit then "USING" else "WITH CHECK")]]
  | _ => []

end Matcher

section Calls

-- The steps that the walk takes.
def walked : SyntaxStep → Bool
  | .argument | .namedArgument | .exprNamedArgument | .nested | .binary | .unary | .cast
  | .isNull | .isNotNull | .isTruth | .between | .inListOperand | .inListItem => true
  | _ => false

-- What stands in no scalar subquery.
def outsideSubquery (step : SyntaxStep) : Bool := step ≠ .subquery

def isAuthCall : SyntaxNode → Bool
  | .expr (.function function) => matchesProblematicCall function.name
  | _ => false

def authCall (through : SyntaxStep → Bool) (expr : Expr) : Bool :=
  (syntaxTree.located (.expr expr)).any fun place => place.1.all through && isAuthCall place.2

-- A call in the USING or the WITH CHECK expression of a policy.
def policyCall (through : SyntaxStep → Bool) (policy : CreatePolicy) : Bool :=
  policy.usingExpr.any (authCall through) || policy.withCheck.any (authCall through)

theorem walkArgs_eq (args : List FunctionArg) : walkArgs args = args.any walkArg := by
  induction args with
  | nil => rw [walkArgs,List.any_nil]
  | cons arg args ih => rw [walkArgs,List.any_cons,ih]

theorem walkList_eq (es : List Expr) : walkList es = es.any walkForBareAuthCall := by
  induction es with
  | nil => rw [walkList,List.any_nil]
  | cons e es ih => rw [walkList,List.any_cons,ih]

def walkNode : SyntaxNode → Bool
  | .expr e => walkForBareAuthCall e
  | _ => false

-- What the walk finds behind the steps that it takes.
def walkParts (parts : SyntaxParts) : Bool := parts.any fun part => walked part.1 && walkNode part.2

theorem walkParts_append (front back : SyntaxParts) : walkParts (front ++ back) = (walkParts front || walkParts back) :=
  List.any_append

theorem walkParts_exprs (step : SyntaxStep) (exprs : List Expr) :
    walkParts (exprParts step exprs) = (walked step && exprs.any walkForBareAuthCall) := by
  unfold walkParts exprParts
  rw [List.any_map]
  cases taken : walked step
  all_goals simp [Function.comp_def,taken,walkNode]

theorem walkParts_flatMap {β : Type} (f : β → SyntaxParts) (items : List β) :
    walkParts (items.flatMap f) = items.any fun item => walkParts (f item) :=
  List.any_flatMap

theorem arg_walks (arg : FunctionArg) : walkArg arg = walkParts arg.parts := by
  have inner (step : SyntaxStep) (taken : walked step = true) (arg : FunctionArgExpr) :
      walkArgExpr arg = walkParts (arg.parts step) := by
    cases arg
    all_goals simp [walkArgExpr,FunctionArgExpr.parts,walkParts,taken,walkNode]
  cases arg with
  | named name arg =>
    rw [walkArg]
    exact inner _ rfl arg
  | exprNamed name arg =>
    rw [walkArg]
    exact inner _ rfl arg
  | unnamed arg =>
    rw [walkArg]
    exact inner _ rfl arg

theorem function_walks (f : Function) : walkFunction f = (matchesProblematicCall f.name || walkParts f.parts) := by
  obtain ⟨name,args,filter,nullTreatment,overWindow,unread⟩ := f
  rw [walkFunction,Function.parts,walkParts_append,walkParts_append,walkParts_append,walkParts_exprs,walkParts_exprs,
    walkParts_exprs]
  cases args with
  | none => simp [walkArguments,FunctionArguments.parts,walkParts,walked]
  | subquery query => simp [walkArguments,FunctionArguments.parts,walkParts,walked]
  | list items clause unread =>
    have walks : walkArg = fun arg => walkParts arg.parts := funext arg_walks
    rw [walkArguments,walkArgs_eq,FunctionArguments.parts,walkParts_append,walkParts_flatMap,walkParts_exprs,walks]
    simp [walked]

theorem expr_walks (e : Expr) : walkForBareAuthCall e = (isAuthCall (.expr e) || walkParts e.parts) := by
  cases e
  case function f => rw [walkForBareAuthCall,function_walks,isAuthCall,Expr.parts]
  case case operand conditions elseResult =>
    rw [Expr.parts,walkParts_append,walkParts_append,walkParts_exprs,walkParts_exprs,walkParts_flatMap]
    simp [walkForBareAuthCall,isAuthCall,walked,CaseWhen.parts,walkParts]
  case compoundFieldAccess root chain =>
    have none : walkParts (chain.flatMap AccessExpr.parts) = false := by
      rw [walkParts_flatMap]
      refine List.any_eq_false.mpr fun access _ => ?_
      cases access
      all_goals simp [AccessExpr.parts,walkParts,walked,exprParts]
    change _ = (_ || (false || walkParts (chain.flatMap AccessExpr.parts)))
    rw [none,walkForBareAuthCall,isAuthCall]
    all_goals simp
  all_goals simp [walkForBareAuthCall,Expr.parts,isAuthCall,walkParts,exprParts,walked,walkNode,walkList_eq,Function.comp_def]

theorem walk_finds (e : Expr) : walkForBareAuthCall e = authCall walked e := by
  refine search_exprs (fun step opens => ?_) (fun e => ?_) e
  · cases step
    all_goals first | rfl | cases opens
  · exact expr_walks e

theorem policy_fires (catalog : Catalog) (policy : CreatePolicy) (args : TomlTable) :
    matchPolicyUsesUncachedAuthFunction library ⟨.createPolicy policy,catalog⟩ args ≠ [] ↔
      policyCall walked policy = true := by
  have finds : authCall walked = walkForBareAuthCall := funext fun e => (walk_finds e).symm
  unfold matchPolicyUsesUncachedAuthFunction policyCall
  rw [finds]
  cases usingHit : policy.usingExpr.any walkForBareAuthCall
  all_goals cases withCheckHit : policy.withCheck.any walkForBareAuthCall
  all_goals simp [usingHit,withCheckHit]

theorem walked_outside {step : SyntaxStep} (taken : walked step = true) : outsideSubquery step = true :=
  decide_eq_true fun is => by
    rw [is] at taken
    cases taken

theorem walked_call {expr : Expr} (call : authCall walked expr = true) : authCall outsideSubquery expr = true := by
  obtain ⟨place,there,both⟩ := List.any_eq_true.mp call
  rw [Bool.and_eq_true] at both
  have outside : place.1.all outsideSubquery = true :=
    List.all_eq_true.mpr fun step inside => walked_outside (List.all_eq_true.mp both.1 step inside)
  exact List.any_eq_true.mpr ⟨place,there,Bool.and_eq_true_iff.mpr ⟨outside,both.2⟩⟩

theorem walked_policyCall {policy : CreatePolicy} (call : policyCall walked policy = true) :
    policyCall outsideSubquery policy = true := by
  have clause {given : Option Expr} (found : given.any (authCall walked) = true) :
      given.any (authCall outsideSubquery) = true := by
    cases given with
    | none => exact found
    | some expr => exact walked_call found
  unfold policyCall at call ⊢
  rw [Bool.or_eq_true] at call ⊢
  exact call.imp clause clause

-- The rule fires just where a call stands in no scalar subquery, but for the policies whose
-- every such call stands behind a step that the walk does not take.
theorem bare_call_exact_iff (catalog : Catalog) (policy : CreatePolicy) (args : TomlTable) :
    (matchPolicyUsesUncachedAuthFunction library ⟨.createPolicy policy,catalog⟩ args ≠ [] ↔
        policyCall outsideSubquery policy = true) ↔
      ¬(policyCall outsideSubquery policy = true ∧ policyCall walked policy = false) := by
  rw [policy_fires]
  constructor
  · rintro exact_ ⟨bare,unwalked⟩
    rw [exact_.mpr bare] at unwalked
    cases unwalked
  · intro sound
    refine ⟨walked_policyCall,fun bare => ?_⟩
    cases found : policyCall walked policy with
    | true => rfl
    | false => exact absurd ⟨bare,found⟩ sound

end Calls

section Missed

-- CREATE POLICY member ON teams USING (auth.uid() = ANY (members))
def memberPolicy : CreatePolicy :=
  ⟨⟨"member",false⟩,[.identifier ⟨"teams",false⟩],some (.anyOp (.function uid) .eq (.identifier ⟨"members",false⟩)),none⟩
where uid : Function :=
  ⟨[.identifier ⟨"auth",false⟩,.identifier ⟨"uid",false⟩],.list [] false [],none,false,none,[]⟩

theorem any_call_missed :
    ¬(matchPolicyUsesUncachedAuthFunction plainLibrary ⟨.createPolicy memberPolicy,.new .postgreSQL⟩ ∅ ≠ [] ↔
        policyCall outsideSubquery memberPolicy = true) := by
  intro exact_
  have called : policyCall outsideSubquery memberPolicy = true := by
    refine (Bool.or_eq_true _ _).mpr (.inl (List.any_eq_true.mpr ⟨([.anyOp],.expr (.function memberPolicy.uid)),?_,?_⟩))
    · exact Tree.located_part List.mem_cons_self (syntaxTree.located_self _)
    · decide
  exact exact_.mpr called rfl

end Missed

end Scythe.PolicyAuth
