import SmallLisp.Expr

/-!
# Outlines

An outline shows the shape of an expression, one node or label a line, indented by four spaces a
level. Token texts appear as messages mention them, unescaped.
-/

set_option autoImplicit false

namespace SmallLisp

/-- A line of an outline. -/
structure OutlineLine where
  depth : Nat
  text : String
deriving DecidableEq, Repr

namespace OutlineLine

/-- The line with its indentation. -/
def render (l : OutlineLine) : String :=
  String.ofList (List.replicate (4 * l.depth) ' ') ++ l.text

/-- The line that opens a node. -/
def opening (depth : Nat) (node : String) : OutlineLine := ⟨depth, node ++ " \x7b"⟩

/-- The line that ends a node. -/
def closing (depth : Nat) : OutlineLine := ⟨depth, "\x7d"⟩

end OutlineLine

namespace Expr

mutual

/-- The lines of an expression that starts at this depth. -/
def outline (depth : Nat) : Expr → List OutlineLine
  | literal l _ => [⟨depth, "Atom -> " ++ l.lexeme.text⟩]
  | name x _ => [⟨depth, "Atom -> " ++ (Lexeme.ident x).text⟩]
  | unit _ => [⟨depth, "UNIT"⟩]
  | call callee args _ =>
    [.opening depth "FunctionCall", ⟨depth + 1, "op: " ++ callee.lexeme.text⟩,
      ⟨depth + 1, "args: ["⟩] ++
      outlineAll (depth + 2) args ++ [⟨depth + 1, "]"⟩, .closing depth]
  | function params body _ =>
    [.opening depth "FunctionDef", ⟨depth + 1, "params: " ++ " ".intercalate params⟩,
      ⟨depth + 1, "body:"⟩] ++ body.outline (depth + 2) ++ [.closing depth]
  | ifThen cond yes _ =>
    [.opening depth "if", ⟨depth + 1, "condition:"⟩] ++ cond.outline (depth + 2) ++
      [⟨depth + 1, "true_branch:"⟩] ++ yes.outline (depth + 2) ++ [.closing depth]
  | ifThenElse cond yes no _ =>
    [.opening depth "if", ⟨depth + 1, "condition:"⟩] ++ cond.outline (depth + 2) ++
      [⟨depth + 1, "true_branch:"⟩] ++ yes.outline (depth + 2) ++
      [⟨depth + 1, "false_branch:"⟩] ++ no.outline (depth + 2) ++ [.closing depth]
  | declare x _ => [.opening depth "DeclareVar", ⟨depth + 1, "name: " ++ x⟩, .closing depth]
  | declareAs x init _ =>
    [.opening depth "DeclareVar", ⟨depth + 1, "name: " ++ x⟩, ⟨depth + 1, "value:"⟩] ++
      init.outline (depth + 2) ++ [.closing depth]
  | assign x value _ =>
    [.opening depth "AssignVar", ⟨depth + 1, "name: " ++ x⟩, ⟨depth + 1, "value:"⟩] ++
      value.outline (depth + 2) ++ [.closing depth]
  | whileLoop cond body _ =>
    [.opening depth "while", ⟨depth + 1, "condition:"⟩] ++ cond.outline (depth + 2) ++
      [⟨depth + 1, "body:"⟩] ++ body.outline (depth + 2) ++ [.closing depth]
  | forLoop init cond post body _ =>
    [.opening depth "for", ⟨depth + 1, "init:"⟩] ++ init.outline (depth + 2) ++
      [⟨depth + 1, "condition:"⟩] ++ cond.outline (depth + 2) ++
      [⟨depth + 1, "post:"⟩] ++ post.outline (depth + 2) ++
      [⟨depth + 1, "body:"⟩] ++ body.outline (depth + 2) ++ [.closing depth]

/-- The lines of several expressions that start at this depth. -/
def outlineAll (depth : Nat) : List Expr → List OutlineLine
  | [] => []
  | e :: es => e.outline depth ++ outlineAll depth es

end

/-- The outline of expressions that stand side by side, without a final newline. -/
def render (es : List Expr) : String :=
  "\n".intercalate ((outlineAll 0 es).map OutlineLine.render)

end Expr

namespace Program

/-- The outline of a program. -/
def outline (p : Program) : String := Expr.render p.exprs

end Program

end SmallLisp
