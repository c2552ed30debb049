import HashedAssets.Text.Printable

/-!
# Quoted text

A text between quotes, on one line and in printed characters only. Single quotes stand around it,
or double ones if the text holds single and no double quotes.

* `quoteFor`: which quote a text is written in;
* `escape`: how one character is written;
* `quoted`: the whole.
-/

namespace HashedAssets.Text

/-- The quote that stands around a text. -/
def quoteFor (cs : List Char) : Char :=
  if cs.contains '\x27' && !cs.contains '\x22' then '\x22' else '\x27'

/-- A number as exactly `n` hexadecimal digits. -/
def hexDigits : Nat → Nat → List Char
  | 0, _ => []
  | n + 1, x => Nat.digitChar ((x >>> (4 * n)) % 16) :: hexDigits n x

/-- How a character is written inside quotes `q`. -/
def escape (q c : Char) : List Char :=
  if c = q ∨ c = '\\' then ['\\', c]
  else if c = '\n' then ['\\', 'n']
  else if c = '\r' then ['\\', 'r']
  else if c = '\t' then ['\\', 't']
  else if isPrintable c then [c]
  else if c.toNat < 0x100 then '\\' :: 'x' :: hexDigits 2 c.toNat
  else if c.toNat < 0x10000 then '\\' :: 'u' :: hexDigits 4 c.toNat
  else '\\' :: 'U' :: hexDigits 8 c.toNat

/-- A text between quotes. -/
def quoted (s : String) : String :=
  let q := quoteFor s.toList
  String.ofList (q :: s.toList.flatMap (escape q) ++ [q])

end HashedAssets.Text
