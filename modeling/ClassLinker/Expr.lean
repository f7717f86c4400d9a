import ClassLinker.Namespace
import ClassLinker.Ty

/-!
# Expressions

The code of methods, exported members and exports. `Expr.operands` lists the operands of a node in
evaluation order, and `Expr.nodes` all nodes of an expression, every node before its operands and
the operands from left to right; `Expr.nodes_eq` ties the two together.
-/

namespace ClassLinker

/-- A literal value. Doubles are given by the bits of their representation. -/
inductive Literal where
  | null
  | boolean (value : Bool)
  | int (value : Int32)
  | long (value : Int64)
  | double (bits : UInt64)
  | string (value : String)
deriving DecidableEq

/-- An expression: a node together with its operands.

* `call` calls a method with dynamic dispatch on a receiver of the class;
* `callDirect` calls a method on a receiver without dynamic dispatch, starting from the class;
* `callStatic` calls a static method of the class;
* `module` and `jsModule` read the instance of a module, `jsConstructor` the constructor of a
  JavaScript class. -/
inductive Expr where
  | skip
  | block (stats : List Expr)
  | letVar (name : LocalName) (value : Expr)
  | var (name : LocalName)
  | self
  | literal (value : Literal)
  | undefined
  | ifElse (test onTrue onFalse : Expr)
  | ret (value : Expr)
  | assign (target value : Expr)
  | new (cls : ClassName) (ctor : MethodName) (args : List Expr)
  | module (cls : ClassName)
  | field (cls : ClassName) (object : Expr) (field : FieldName)
  | staticField (cls : ClassName) (field : FieldName)
  | privateJSField (cls : ClassName) (object : Expr) (field : FieldName)
  | call (cls : ClassName) (receiver : Expr) (method : MethodName) (args : List Expr)
  | callDirect (cls : ClassName) (space : Namespace) (receiver : Expr) (method : MethodName)
      (args : List Expr)
  | callStatic (cls : ClassName) (space : Namespace) (method : MethodName) (args : List Expr)
  | isInstance (value : Expr) (type : Ty)
  | cast (value : Expr) (type : Ty)
  | classOf (type : Ty)
  | newArray (type : Ty) (lengths : List Expr)
  | jsConstructor (cls : ClassName)
  | jsModule (cls : ClassName)
deriving Inhabited

namespace Expr

/-- The operands of a node, in evaluation order. -/
def operands : Expr → List Expr
  | skip | var _ | self | literal _ | undefined | module _ | staticField _ _ | classOf _
  | jsConstructor _ | jsModule _ => []
  | block stats => stats
  | letVar _ value | ret value | isInstance value _ | cast value _ => [value]
  | ifElse test onTrue onFalse => [test, onTrue, onFalse]
  | assign target value => [target, value]
  | new _ _ args | callStatic _ _ _ args => args
  | field _ object _ | privateJSField _ object _ => [object]
  | call _ receiver _ args | callDirect _ _ receiver _ args => receiver :: args
  | newArray _ lengths => lengths

mutual

/-- The nodes of an expression: the root, then the nodes of each operand in turn. -/
def nodes : Expr → List Expr
  | skip => [skip]
  | block stats => block stats :: nodesOfAll stats
  | letVar name value => letVar name value :: nodes value
  | var name => [var name]
  | self => [self]
  | literal value => [literal value]
  | undefined => [undefined]
  | ifElse test onTrue onFalse =>
    ifElse test onTrue onFalse :: (nodes test ++ nodes onTrue ++ nodes onFalse)
  | ret value => ret value :: nodes value
  | assign target value => assign target value :: (nodes target ++ nodes value)
  | new cls ctor args => new cls ctor args :: nodesOfAll args
  | module cls => [module cls]
  | field cls object name => field cls object name :: nodes object
  | staticField cls name => [staticField cls name]
  | privateJSField cls object name => privateJSField cls object name :: nodes object
  | call cls receiver method args =>
    call cls receiver method args :: (nodes receiver ++ nodesOfAll args)
  | callDirect cls space receiver method args =>
    callDirect cls space receiver method args :: (nodes receiver ++ nodesOfAll args)
  | callStatic cls space method args => callStatic cls space method args :: nodesOfAll args
  | isInstance value type => isInstance value type :: nodes value
  | cast value type => cast value type :: nodes value
  | classOf type => [classOf type]
  | newArray type lengths => newArray type lengths :: nodesOfAll lengths
  | jsConstructor cls => [jsConstructor cls]
  | jsModule cls => [jsModule cls]

/-- The nodes of several expressions in turn. -/
def nodesOfAll : List Expr → List Expr
  | [] => []
  | expr :: rest => nodes expr ++ nodesOfAll rest

end

@[simp] theorem nodesOfAll_eq_flatMap (exprs : List Expr) :
    nodesOfAll exprs = exprs.flatMap nodes := by
  induction exprs with
  | nil => rfl
  | cons expr rest ih => simp [nodesOfAll, ih]

/-- The nodes of an expression are its root and the nodes of its operands, in order. -/
theorem nodes_eq (expr : Expr) : expr.nodes = expr :: expr.operands.flatMap nodes := by
  cases expr <;> simp [nodes, operands]

end Expr

end ClassLinker
