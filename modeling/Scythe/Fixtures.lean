import Scythe.Analyze
import Scythe.Preprocess

-- Catalogs and statements for the inputs on which a property fails.
namespace Scythe.Fixtures

@[reducible] def printer : Printer := ⟨fun _ => "",fun _ => "",fun _ => ""⟩

def ident (name : String) : Ident := ⟨name,false⟩
def named (name : String) : ObjectName := [.identifier (ident name)]
def column (name : String) : Expr := .identifier (ident name)
def qualified (table name : String) : Expr := .compoundIdentifier [ident table,ident name]
def number (text : String) : Expr := .value ⟨.number text,.empty⟩

-- A placeholder of one line of text, by its column.
def placeholder (token : String) (start : Nat) : Expr := .value ⟨.placeholder token,⟨⟨1,start⟩,⟨1,start + 1⟩⟩⟩

def aliasOf (name : String) : TableAlias := ⟨ident name,[]⟩
def table (name : String) : TableFactor := .table (named name) none none []
def aliased (name as : String) : TableFactor := .table (named name) (some (aliasOf as)) none []
def source (relation : TableFactor) : TableWithJoins := ⟨relation,[]⟩

def select (projection : List Expr) (sources : List TableWithJoins) (selection : Option Expr) : SetExpr :=
  .select ⟨projection.map .unnamedExpr,sources,selection,.expressions [],none,[]⟩

def ofBody (body : SetExpr) : Query := ⟨none,body,[],none,[]⟩

def call (name : String) (args : List Expr) : Expr :=
  .function ⟨named name,.list (args.map fun e => .unnamed (.expr e)) false [],none,false,none,[]⟩

def parsed (sql : String) (stmt : Statement) : ParsedQuery := ⟨"Query",.many,sql,stmt,.empty⟩

def users : Table := ⟨[⟨"id","integer",false,none,true⟩,⟨"name","text",true,none,false⟩],"users"⟩

def catalog (dialect : SqlDialect) : Catalog :=
  {Catalog.new dialect with tables:=(∅ : AHashMap Table).insert "users" users}

-- Nobody looks into the condition of a join.
def joinOn : ParsedQuery := parsed "SELECT u.id FROM users u JOIN users v ON v.id = $1" <| .query <| ofBody <|
  select [qualified "u" "id"] [⟨aliased "users" "u",
    [⟨aliased "users" "v",.inner,some (.binaryOp (qualified "v" "id") .eq (placeholder "$1" 50))⟩]⟩] none

-- The limit comes after the offset in the text and before it in the analysis.
def limitComma : ParsedQuery := parsed "SELECT id FROM users LIMIT ?, ?" <| .query <|
  ⟨none,select [column "id"] [source (table "users")] none,[],
    some (.offsetCommaLimit (placeholder "?" 28) (placeholder "?" 31)),[]⟩

def byId (start : Nat) : TableFactor :=
  .derived (ofBody (select [column "id"] [source (table "users")]
    (some (.binaryOp (column "id") .eq (placeholder "?" start))))) (some (aliasOf "d"))

-- The subquery is analyzed twice, its derived table each time with a table of
-- its own.
def scalarTwice : ParsedQuery :=
  parsed "SELECT (SELECT d.id FROM (SELECT id FROM users WHERE id = ?) d) FROM users" <| .query <| ofBody <|
    select [.subquery (ofBody (select [qualified "d" "id"] [source (byId 59)] none))] [source (table "users")] none

-- The predicate of a partial unique index is dropped before parsing.
def header : Header := ⟨"Query",.exec,.empty⟩

def conflictWhere : String := "INSERT INTO users (id) VALUES ($1) ON CONFLICT (id) WHERE id > $2 DO NOTHING"
def conflictParsed : String := "INSERT INTO users (id) VALUES ($1) ON CONFLICT (id) DO NOTHING"

def conflictInsert : Statement := .insert ⟨.tableName (named "users"),[named "id"],
  some (ofBody (.values [[placeholder "$1" 32]])),[],some (.onConflict .doNothing),none⟩

def conflictParser : SqlParser := fun _ text => if text = conflictParsed then some [some conflictInsert] else none
def conflictQuery : ParsedQuery := ⟨"Query",.exec,conflictWhere,conflictInsert,.empty⟩

end Scythe.Fixtures
