import ClassLinker.MethodId

/-!
# Log events

What an analysis or a linking reports besides its result: errors, and warnings with details.
-/

namespace ClassLinker

/-- How serious an event is. -/
inductive EventLevel where
  | error
  | warning
deriving DecidableEq

/-- An event. -/
inductive Event where
  /-- An error in the analyzed program, with what led to it. -/
  | programError (text : String)
  /-- Some errors have not been logged. -/
  | errorsOmitted (count : Nat)
  /-- The declaration of an interface does not have the method that a bridge calls. -/
  | noDefaultMethod (bridge : MethodId) (interface : ClassName)
  /-- No declaration has the method that a proxy calls. -/
  | noProxyTarget (proxy : MethodId) (target : MethodName)
deriving DecidableEq

namespace Event

/-- How serious the event is. -/
def level : Event → EventLevel
  | programError _ => .error
  | errorsOmitted _ | noDefaultMethod _ _ | noProxyTarget _ _ => .warning

/-- What has happened. -/
def message : Event → String
  | programError text => text
  | errorsOmitted _ => "not all link errors are reported"
  | noDefaultMethod _ _ => "default method not found"
  | noProxyTarget _ _ => "proxy target not found"

/-- The details of the event, by name. -/
def details : Event → List (String × String)
  | programError _ => []
  | errorsOmitted count => [("omitted", toString count)]
  | noDefaultMethod bridge interface =>
    [("method", bridge.display), ("interface", interface.text)]
  | noProxyTarget proxy target => [("method", proxy.display), ("target", target.text)]

end Event

end ClassLinker
