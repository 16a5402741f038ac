import Solwright.Json.Basic

/-!
Records of the log. Only those that tell of trouble are kept.
-/

namespace Solwright

inductive LogLevel
  | warning
  | error
  deriving DecidableEq

def LogLevel.name : LogLevel → String
  | .warning => "WARNING"
  | .error => "ERROR"

structure LogRecord where
  level : LogLevel
  message : RawText
  deriving DecidableEq

end Solwright
