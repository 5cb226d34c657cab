/-!
# Case

Letters that names are compared by without regard to case are ASCII letters; all others stay as they
are.
-/

namespace TxRecovery.Text

def lower (s : String) : String := String.ofList (s.toList.map Char.toLower)

end TxRecovery.Text
