import Scythe.Lib.Text

namespace Scythe
open Text

variable [CaseMap]

def pascalPart : List Char → List Char
  | [] => []
  | c :: cs => CaseMap.upperChar c ++ cs.flatMap CaseMap.lowerChar

def toPascalCase (s : String) : String :=
  if contains s "_" then String.ofList ((splitChars '_' s.toList).flatMap pascalPart) else
  match s.toList with
  | [] => s
  | first :: rest =>
    if CaseMap.isLower first then String.ofList (CaseMap.upperChar first ++ rest) else
    if (first :: rest).all fun c => CaseMap.isUpper c || c = '_' then
      String.ofList (CaseMap.upperChar first) ++ CaseMap.lowercase (String.ofList rest)
    else s

def snakeChars : Option Char → List Char → List Char
  | _,[] => []
  | prev,c :: cs =>
    if CaseMap.isUpper c then
      let separated := match prev with
        | none => false
        | some p => !CaseMap.isUpper p || (cs.head?.map CaseMap.isLower).getD false
      (if separated then ['_'] else []) ++ CaseMap.lowerChar c ++ snakeChars (some c) cs
    else c :: snakeChars (some c) cs

def toSnakeCase (s : String) : String :=
  if contains s "_" then CaseMap.lowercase s else
  if s.toList.all fun c => !CaseMap.isUpper c then s else
  String.ofList (snakeChars none s.toList)

end Scythe
