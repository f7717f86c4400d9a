import ClassLinker.Order

/-!
# Kinds of classes

Classes come in two families: ordinary classes, below `ClassName.object`, and the types of
JavaScript. Each family has interfaces of its own, `interface` and `abstractJS`. The kind of a class
decides what it may extend and implement, whether instances of it can be created, and whether it is
a module, a class with a single instance.
-/

namespace ClassLinker

/-- The kinds of classes, in their order. -/
inductive ClassKind where
  | plain
  | module
  | interface
  | hijacked
  | js
  | jsModule
  | nativeJS
  | nativeJSModule
  | abstractJS
deriving DecidableEq, Inhabited

namespace ClassKind

/-- All kinds, in order. -/
def all : List ClassKind :=
  [plain, module, interface, hijacked, js, jsModule, nativeJS, nativeJSModule, abstractJS]

/-- The position of a kind in the order. -/
def index : ClassKind → Nat
  | plain => 0
  | module => 1
  | interface => 2
  | hijacked => 3
  | js => 4
  | jsModule => 5
  | nativeJS => 6
  | nativeJSModule => 7
  | abstractJS => 8

instance : Ord ClassKind := ⟨compareOn index⟩

/-- The name of a kind. -/
def display : ClassKind → String
  | plain => "Class"
  | module => "ModuleClass"
  | interface => "Interface"
  | hijacked => "HijackedClass"
  | js => "JSClass"
  | jsModule => "JSModuleClass"
  | nativeJS => "NativeJSClass"
  | nativeJSModule => "NativeJSModuleClass"
  | abstractJS => "AbstractJSType"

/-- The ordinary classes that can have instances. -/
def isOrdinary : ClassKind → Bool
  | plain | module | hijacked => true
  | _ => false

/-- The types of JavaScript. -/
def isJS : ClassKind → Bool
  | js | jsModule | nativeJS | nativeJSModule | abstractJS => true
  | _ => false

/-- The JavaScript classes defined in the program. -/
def isDefinedJS : ClassKind → Bool
  | js | jsModule => true
  | _ => false

/-- The JavaScript classes that the environment provides. -/
def isNativeJS : ClassKind → Bool
  | nativeJS | nativeJSModule => true
  | _ => false

/-- The kinds whose instances can be created. -/
def isInstantiable (kind : ClassKind) : Bool :=
  kind.isOrdinary || kind.isDefinedJS || kind.isNativeJS

/-- The classes with a single instance, which can be read by the name of the class. -/
def isModule : ClassKind → Bool
  | module | jsModule | nativeJSModule => true
  | _ => false

/-- The modules whose instance is created by code of the program. -/
def hasAccessor : ClassKind → Bool
  | module | jsModule => true
  | _ => false

/-- Tells whether a class must name a super class. -/
def needsSuperClass : ClassKind → Bool
  | interface | abstractJS => false
  | _ => true

/-- Tells whether a class may extend a class of the second kind. -/
def mayExtendKind (kind superKind : ClassKind) : Bool :=
  if kind.isOrdinary then superKind = plain
  else kind.isJS && (superKind = js || superKind = nativeJS)

/-- Tells whether a class may extend `ClassName.object` whatever the kind of that class. -/
def mayExtendObject : ClassKind → Bool
  | plain | module | hijacked | nativeJS | nativeJSModule | abstractJS => true
  | _ => false

/-- The kind of the interfaces that a class may implement. -/
def implementedKind (kind : ClassKind) : ClassKind :=
  if kind.isJS then abstractJS else interface

/-- The kind of a module that nothing reads as a module. -/
def withoutAccessor : ClassKind → ClassKind
  | module => plain
  | jsModule => js
  | kind => kind

end ClassKind

end ClassLinker
