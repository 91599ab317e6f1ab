/-!
# Log entries

Operations that report on their own progress return the report as data: a
list of entries in the order they arose, each a severity and a line of text.
-/

set_option autoImplicit false

namespace Freestanding

inductive Severity
  | trace | debug | warn
  deriving DecidableEq, Repr

structure LogEntry where
  severity : Severity
  text : String
  deriving DecidableEq, Repr

end Freestanding
