import WordMachine.Host.Disk
import WordMachine.Host.Log

/-!
# The host

What the services of a machine reach outside of it.
-/

namespace WordMachine

/-- Files and the log. -/
structure Host where
  disk : Disk
  log : Log

end WordMachine
