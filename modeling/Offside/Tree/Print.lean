import Offside.Tree.Basic

/-! Writing trees as source text.

An expression is written for a level: it goes into parentheses when it binds looser than that. A
statement is written at a depth of indentation, four blanks for each step, one line for each simple
statement. Types that checking found are written where the source left them out. -/
namespace Offside

/-- The level that an expression's outermost operator binds at. -/
def Expr.level : Expr → Nat
  | .binary _ op _ _ => op.level
  | .unary _ op _ => if op.isPostfix then postfixLevel else prefixLevel
  | .cast _ _ _ => prefixLevel
  | .call _ _ _ | .index _ _ _ | .member _ _ _ _ => postfixLevel
  | _ => primaryLevel

def inParens (needed : Bool) (written : String) : String :=
  if needed then "(" ++ written ++ ")" else written

def beginsWithSign (written : String) : Bool :=
  match written.toList with
  | c :: _ => c == '+' || c == '-'
  | [] => false

/-- Two signs in a row would read as one symbol, so they are kept apart. -/
def prefixed (op : UnaryOp) (operand : String) : String :=
  match op with
  | .plus | .minus | .preIncrement | .preDecrement =>
    if beginsWithSign operand then op.text ++ " " ++ operand else op.text ++ operand
  | _ => op.text ++ operand

def quoted (quote : Char) (text : List Char) : String :=
  String.ofList (Text.escape quote text)

/-- A function type goes into braces before a suffix. -/
def TypeExpr.suffixBase (base : TypeExpr) (written : String) : String :=
  if base.isFunction then "\x7b" ++ written ++ "\x7d" else written

def commaSeparated (items : List String) : String :=
  String.intercalate ", " items

mutual

/-- The expression without parentheses around it. -/
def Expr.printBare : Expr → String
  | .int _ n => Number.decimal n
  | .float _ x => x.text
  | .char _ c => quoted '\'' [c]
  | .string _ s => quoted '"' s.toList
  | .null _ => "NULL"
  | .name _ n => n
  | .array _ items => "[" ++ commaSeparated (Expr.printList items) ++ "]"
  | .binary _ op l r =>
    inParens (l.level < op.level) (Expr.printBare l) ++ " " ++ op.text ++ " "
      ++ inParens (r.level < op.level + 1) (Expr.printBare r)
  | .unary _ op e =>
    if op.isPostfix then inParens (e.level < postfixLevel) (Expr.printBare e) ++ op.text
    else prefixed op (inParens (e.level < prefixLevel) (Expr.printBare e))
  | .call _ f args =>
    inParens (f.level < postfixLevel) (Expr.printBare f)
      ++ "(" ++ commaSeparated (Expr.printList args) ++ ")"
  | .index _ o i =>
    inParens (o.level < postfixLevel) (Expr.printBare o) ++ "[" ++ Expr.printBare i ++ "]"
  | .member _ o n arrow =>
    inParens (o.level < postfixLevel) (Expr.printBare o) ++ (if arrow then "->" else ".") ++ n
  | .cast _ t e =>
    "<" ++ TypeExpr.print t ++ "> " ++ inParens (e.level < prefixLevel) (Expr.printBare e)
  | .sizeof _ t => "sizeof(" ++ TypeExpr.print t ++ ")"

def Expr.printList : List Expr → List String
  | [] => []
  | e :: rest => Expr.printBare e :: Expr.printList rest

def TypeExpr.print : TypeExpr → String
  | .name _ n => n
  | .vararg _ => "..."
  | .function _ params returns =>
    "(" ++ commaSeparated (TypeExpr.printList params) ++ ") -> " ++ TypeExpr.print returns
  | .pointer _ t => t.suffixBase (TypeExpr.print t) ++ "[]"
  | .array _ t size => t.suffixBase (TypeExpr.print t) ++ "[" ++ Expr.printBare size ++ "]"

def TypeExpr.printList : List TypeExpr → List String
  | [] => []
  | t :: rest => TypeExpr.print t :: TypeExpr.printList rest

end

/-- The expression as an operand of the given level. -/
def Expr.printAt (least : Nat) (e : Expr) : String :=
  inParens (e.level < least) e.printBare

/-- The expression by itself, in which no operator binds too loosely. -/
def Expr.print (e : Expr) : String := e.printBare

/-! ### Parts of statements -/

/-- The type as written, or else the type that checking found. -/
def shownTypeText (declared : Option TypeExpr) (found : Option ValueType) : Option String :=
  match declared, found with
  | some t, _ => some t.print
  | none, some t => some t.text
  | none, none => none

def VarDecl.print (d : VarDecl) : String :=
  let type := match shownTypeText d.declared d.type with
    | some t => ": " ++ t
    | none => ""
  let init := match d.init with
    | some e => " = " ++ e.print
    | none => ""
  d.name ++ type ++ init

def Param.print (p : Param) : String :=
  match p.kind with
  | .vararg => "..."
  | .named n declared =>
    match shownTypeText declared p.type with
    | some t => n ++ ": " ++ t
    | none => n

def FunctionHead.print (f : FunctionHead) : String :=
  let returns := match f.returns, f.signature with
    | some t, _ => " -> " ++ t.print
    | none, some (.function _ t) => " -> " ++ t.text
    | none, _ => ""
  "def " ++ f.name ++ "(" ++ commaSeparated (f.params.map Param.print) ++ ")" ++ returns

/-! ### Statements -/

/-- One line at a depth of indentation. -/
def printLine (depth : Nat) (text : String) : String :=
  String.ofList (List.replicate (4 * depth) ' ') ++ text ++ "\n"

mutual

def Stmt.print (depth : Nat) : Stmt → String
  | .expr _ e => printLine depth e.print
  | .declare _ d => printLine depth d.print
  | .assign _ target value => printLine depth (target.print ++ " = " ++ value.print)
  | .announce _ f => printLine depth f.print
  | .function _ f body => printLine depth (f.print ++ ":") ++ Stmt.printBlock (depth + 1) body
  | .result _ none => printLine depth "return"
  | .result _ (some e) => printLine depth ("return " ++ e.print)
  | .ifElse _ c body orelse =>
    printLine depth ("if " ++ c.print ++ ":") ++ Stmt.printBlock (depth + 1) body
      ++ Stmt.printElse depth orelse
  | .whileLoop _ c body [] =>
    printLine depth ("while " ++ c.print ++ ":") ++ Stmt.printBlock (depth + 1) body
  | .whileLoop _ c body (s :: orelse) =>
    printLine depth ("while " ++ c.print ++ ":") ++ Stmt.printBlock (depth + 1) body
      ++ printLine depth "else:" ++ (Stmt.print (depth + 1) s ++ Stmt.printList (depth + 1) orelse)
  | .doLoop _ body c =>
    printLine depth "do:" ++ Stmt.printBlock (depth + 1) body
      ++ printLine depth ("while " ++ c.print)
  | .switch _ subject cases default =>
    printLine depth ("switch " ++ subject.print ++ ":")
      ++ SwitchCase.printList (depth + 1) cases ++ Stmt.printDefault (depth + 1) default
  | .leave _ => printLine depth "break"
  | .pass _ => printLine depth "pass"
  | .struct _ n [] => printLine depth ("struct " ++ n ++ ": pass")
  | .struct _ n fields =>
    fields.foldl (fun shown f => shown ++ printLine (depth + 1) (f.name ++ ": " ++ f.type.print))
      (printLine depth ("struct " ++ n ++ ":"))
  | .enum _ n members =>
    printLine depth ("enum " ++ n ++ " \x7b" ++ commaSeparated members ++ "\x7d")
  | .typedef _ t n => printLine depth ("typedef " ++ t.print ++ " " ++ n)
  | .define _ n none => printLine depth ("define " ++ n)
  | .define _ n (some e) => printLine depth ("define " ++ n ++ " " ++ e.print)
  | .includeFile _ path => printLine depth ("include " ++ quoted '"' path.toList)
  | .ifndef _ n => printLine depth ("ifndef " ++ n)
  | .endif _ => printLine depth "endif"

def Stmt.printList (depth : Nat) : List Stmt → String
  | [] => ""
  | s :: rest => Stmt.print depth s ++ Stmt.printList depth rest

/-- A block is never empty on paper. -/
def Stmt.printBlock (depth : Nat) : List Stmt → String
  | [] => printLine depth "pass"
  | s :: rest => Stmt.print depth s ++ Stmt.printList depth rest

/-- A condition standing alone in the other branch continues the chain. -/
def Stmt.printElse (depth : Nat) : List Stmt → String
  | [] => ""
  | [.ifElse _ c body orelse] =>
    printLine depth ("elif " ++ c.print ++ ":") ++ Stmt.printBlock (depth + 1) body
      ++ Stmt.printElse depth orelse
  | s :: rest =>
    printLine depth "else:" ++ (Stmt.print (depth + 1) s ++ Stmt.printList (depth + 1) rest)

def Stmt.printDefault (depth : Nat) : Option (List Stmt) → String
  | none => ""
  | some body => printLine depth "else:" ++ Stmt.printBlock (depth + 1) body

def SwitchCase.print (depth : Nat) : SwitchCase → String
  | .mk _ values body =>
    printLine depth ("case " ++ commaSeparated (Expr.printList values) ++ ":")
      ++ Stmt.printBlock (depth + 1) body

def SwitchCase.printList (depth : Nat) : List SwitchCase → String
  | [] => ""
  | c :: rest => SwitchCase.print depth c ++ SwitchCase.printList depth rest

end

def Module.print (m : Module) : String :=
  Stmt.printList 0 m.body

end Offside
