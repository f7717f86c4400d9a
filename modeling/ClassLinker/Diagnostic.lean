import ClassLinker.ClassKind
import ClassLinker.MethodId

/-!
# Errors in the analyzed program

The analysis collects errors instead of stopping at the first. An error says what is wrong and,
unless the whole program is at fault, what led to it:

* `Cause` is what makes something needed: a component, a class, the body of a method, the exports;
* `Diagnostic.message` is the text of an error and `Diagnostic.cause?` its cause.
-/

namespace ClassLinker

/-- What makes something needed. -/
inductive Cause where
  /-- A component that requires it. -/
  | component (text : String)
  /-- The class itself, for instance because it names a parent. -/
  | cls (name : ClassName)
  /-- The body of a method. -/
  | method (method : MethodId)
  /-- What the program exports. -/
  | exports
deriving DecidableEq, Inhabited

/-- The text of a cause in messages. -/
def Cause.display : Cause → String
  | component text => text
  | cls name => "class " ++ name.text
  | method id => "method " ++ id.display
  | exports => "exported members"

/-- An error in the analyzed program. -/
inductive Diagnostic where
  | missingRootClass
  | invalidRootClass
  /-- Each class of a cycle names the next one as a parent, and the last one the first. -/
  | inheritanceCycle (classes : List ClassName) (cause : Cause)
  | missingClass (cls : ClassName) (cause : Cause)
  | missingSuperClass (cls : ClassName) (kind : ClassKind) (cause : Cause)
  | invalidSuperClass (superClass : ClassName) (superKind : ClassKind) (cls : ClassName)
      (kind : ClassKind) (cause : Cause)
  | invalidInterface (interface : ClassName) (interfaceKind : ClassKind) (cls : ClassName)
      (kind : ClassKind) (cause : Cause)
  | notAModule (cls : ClassName) (cause : Cause)
  | missingMethod (method : MethodId) (cause : Cause)
  | conflictingDefaults (methods : List MethodId) (cause : Cause)
  /-- An exporting class is listed once for each time that it exports the name. -/
  | conflictingExports (name : String) (owners : List ClassName)
deriving DecidableEq, Inhabited

namespace Diagnostic

/-- A class in a message about kinds. -/
def ofKind (cls : ClassName) (kind : ClassKind) : String :=
  cls.text ++ " (of kind " ++ kind.display ++ ")"

/-- The text of an error. -/
def message : Diagnostic → String
  | missingRootClass => "Fatal error: java.lang.Object is missing"
  | invalidRootClass =>
    "Fatal error: java.lang.Object is invalid " ++
      "(it must be a Class with no super class nor interfaces)"
  | inheritanceCycle classes _ =>
    "Fatal error: cycle in inheritance chain involving " ++
      String.intercalate ", " (classes.map ClassName.text)
  | missingClass cls _ => "Referring to non-existent class " ++ cls.text
  | missingSuperClass cls kind _ => ofKind cls kind ++ " is missing a super class"
  | invalidSuperClass superClass superKind cls kind _ =>
    ofKind superClass superKind ++ " is not a valid super class of " ++ ofKind cls kind
  | invalidInterface interface interfaceKind cls kind _ =>
    ofKind interface interfaceKind ++ " is not a valid interface implemented by " ++
      ofKind cls kind
  | notAModule cls _ => "Cannot access module for non-module " ++ cls.text
  | missingMethod method _ => "Referring to non-existent method " ++ method.display
  | conflictingDefaults methods _ =>
    "Conflicting default methods: " ++
      String.intercalate " " (methods.map MethodId.display)
  | conflictingExports name owners =>
    "Conflicting top-level exports for name " ++ name ++ " from " ++
      String.intercalate ", " (owners.map ClassName.text)

/-- The cause of an error, unless it lies in the program as a whole. -/
def cause? : Diagnostic → Option Cause
  | missingRootClass | invalidRootClass | conflictingExports _ _ => none
  | inheritanceCycle _ cause | missingClass _ cause | missingSuperClass _ _ cause
  | invalidSuperClass _ _ _ _ cause | invalidInterface _ _ _ _ cause | notAModule _ cause
  | missingMethod _ cause | conflictingDefaults _ cause => some cause

end Diagnostic

end ClassLinker
