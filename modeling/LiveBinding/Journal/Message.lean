/-
# LiveBinding.Journal.Message -- what is reported while bindings work

Each message has a level, a text and fields.  A message can also name a span: a
stretch of work during which other messages are reported.  The span has a name
of its own and its own fields, the first of which is the label it is given when
the work begins.
-/
import LiveBinding.Json.Basic

namespace LiveBinding

set_option autoImplicit false

/-- How much a message matters. -/
inductive Level where
  | error
  | warn
  | info
  | debug
  | trace
  deriving DecidableEq

/-- The word for a level. -/
def Level.word : Level → String
  | .error => "ERROR"
  | .warn => "WARN"
  | .info => "INFO"
  | .debug => "DEBUG"
  | .trace => "TRACE"

/-- Something to report. -/
inductive Message where
  /-- A view bound its declarations. -/
  | viewBound (selectors bindings : Nat)
  /-- A view released its bindings. -/
  | viewUnbound (bindings : Nat)
  /-- A selector found no element. -/
  | selectorSkipped (selector : String)
  /-- An operator was applied to its element for the first time. -/
  | operatorApplied (selector operator : String) (dirty : Bool) (dependencies : Nat)
  /-- A dependency fired and an operator was applied anew. -/
  | operatorReapplied (selector operator event : String) (recompiled : Bool)
  /-- An edited element wrote its value back. -/
  | valuePushed (selector target : String)
  /-- A computed property captured its dependencies. -/
  | computedBound (property : String) (dependencies : List String) (isVirtual : Bool)
  /-- A computed property has a new value. -/
  | computedUpdated (property : String) (isVirtual : Bool)
  /-- Computed properties were released. -/
  | computedUnbound (properties : Nat)
  /-- Computed properties depend on each other in a circle. -/
  | cycleDetected (cycle : List String)
  /-- A configuration did not pass validation. -/
  | configurationRejected (path : String) (errors : Nat)

/-- A stretch of work that messages are reported within. -/
structure Span where
  level : Level
  name : String
  fields : Attributes

namespace Message

private def count (n : Nat) : Json := .int n

def level : Message → Level
  | .viewBound .. => .info
  | .viewUnbound .. => .info
  | .cycleDetected .. => .error
  | .configurationRejected .. => .warn
  | _ => .debug

def arrows (cycle : List String) : String :=
  " -> ".intercalate cycle

/-- The text of a message. -/
def text : Message → String
  | .viewBound selectors bindings =>
      "View bound: " ++ toString bindings ++ " of " ++ toString selectors ++
        " selectors matched an element"
  | .viewUnbound bindings => "View unbound: " ++ toString bindings ++ " bindings disposed"
  | .selectorSkipped selector =>
      "Selector '" ++ selector ++ "' matched no element, binding skipped"
  | .operatorApplied selector operator dirty dependencies =>
      "Applied '" ++ operator ++ "' on '" ++ selector ++ "' (" ++ toString dependencies ++
        " dependencies" ++ (if dirty then ", dirty" else "") ++ ")"
  | .operatorReapplied selector operator event recompiled =>
      "Re-applied '" ++ operator ++ "' on '" ++ selector ++ "' after " ++ event ++
        (if recompiled then " (recompiled)" else "")
  | .valuePushed selector target => "Element '" ++ selector ++ "' wrote attribute '" ++ target ++ "'"
  | .computedBound property dependencies _ =>
      "Computed property '" ++ property ++ "' bound to " ++ toString dependencies.length ++
        " dependencies [" ++ ", ".intercalate dependencies ++ "]"
  | .computedUpdated property isVirtual =>
      "Computed property '" ++ property ++ "' changed, " ++
        (if isVirtual then "broadcast" else "written through")
  | .computedUnbound properties => "Unbound " ++ toString properties ++ " computed properties"
  | .cycleDetected cycle => "Cyclic dependency detected: " ++ arrows cycle
  | .configurationRejected path errors =>
      "View configuration '" ++ path ++ "' failed validation with " ++ toString errors ++ " errors"

/-- The fields of a message. -/
def fields : Message → Attributes
  | .viewBound selectors bindings =>
      [("selector_count", count selectors), ("binding_count", count bindings)]
  | .viewUnbound bindings => [("binding_count", count bindings)]
  | .selectorSkipped selector => [("selector", .text selector)]
  | .operatorApplied selector operator dirty dependencies =>
      [("selector", .text selector), ("operator", .text operator), ("dirty", .bool dirty),
        ("dependency_count", count dependencies)]
  | .operatorReapplied selector operator event recompiled =>
      [("selector", .text selector), ("operator", .text operator), ("event", .text event),
        ("recompiled", .bool recompiled)]
  | .valuePushed selector target => [("selector", .text selector), ("attribute", .text target)]
  | .computedBound property dependencies isVirtual =>
      [("property", .text property), ("dependency_count", count dependencies.length),
        ("is_virtual", .bool isVirtual)]
  | .computedUpdated property isVirtual =>
      [("property", .text property), ("is_virtual", .bool isVirtual)]
  | .computedUnbound properties => [("property_count", count properties)]
  | .cycleDetected cycle =>
      [("cycle", .text (arrows cycle)), ("cycle_length", count cycle.length)]
  | .configurationRejected path errors =>
      [("path", .text path), ("error_count", count errors)]

/-- The name of the span that a message opens. -/
def spanName : Message → String
  | .viewBound .. => "view_bound"
  | .viewUnbound .. => "view_unbound"
  | .selectorSkipped .. => "selector_skipped"
  | .operatorApplied .. => "operator_applied"
  | .operatorReapplied .. => "operator_reapplied"
  | .valuePushed .. => "view_value_pushed"
  | .computedBound .. => "computed_bound"
  | .computedUpdated .. => "computed_update"
  | .computedUnbound .. => "computed_unbound"
  | .cycleDetected .. => "cyclic_dependency"
  | .configurationRejected .. => "config_validation"

/-- The fields of a message that its span shows. -/
def spanFields : Message → Attributes
  | .operatorApplied selector operator _ _ =>
      [("selector", .text selector), ("operator", .text operator)]
  | .operatorReapplied selector operator event _ =>
      [("selector", .text selector), ("operator", .text operator), ("event", .text event)]
  | .computedBound property dependencies _ =>
      [("property", .text property), ("dependency_count", count dependencies.length)]
  | .computedUpdated property _ => [("property", .text property)]
  | message => message.fields

def labelField : Message → String
  | .cycleDetected .. => "name"
  | _ => "span_name"

def span (message : Message) (label : String) : Span where
  level := message.level
  name := message.spanName
  fields := (message.labelField, .text label) :: message.spanFields

end Message

end LiveBinding
