import HashedAssets.Document.Yaml.Scalar
import HashedAssets.Text.Utf8

/-!
# Anchors, tags and directives of YAML

* `anchorToken`: an anchor or an alias;
* `tagToken`: a tag;
* `directiveToken`: a directive, with the rest of its line.
-/

namespace HashedAssets.Yaml

/-! ### Anchors -/

/-- What may stand behind an anchor. -/
def endsAnchor (c : Char) : Bool :=
  isBlankOrEnd c || "?:,]\x7d%@\x60".toList.contains c

/-- An anchor, or an alias. -/
def anchorToken (c : Cursor) (isAlias : Bool) : Except Fault (Token × Cursor) :=
  let setting : Setting := if isAlias then .alias else .anchor
  let (name, d) := c.next.take isNameChar
  if name.isEmpty || !endsAnchor d.peek then .error (d.unexpected setting c.mark .name)
  else
    let name := String.ofList name
    .ok (⟨if isAlias then .alias name else .anchor name, c.mark, d.mark⟩, d)

/-! ### Tags -/

/-- The handle of a tag, exclamation marks included. -/
def tagHandle (setting : Setting) (start : Mark) (c : Cursor) : Except Fault (String × Cursor) :=
  if c.peek != '!' then .error (c.unexpected setting start .bang)
  else if c.peekAt 1 == ' ' then .ok ("!", c.next)
  else
    let name := (c.rest.drop 1).takeWhile isNameChar
    let d := c.advance (name.length + 1)
    if d.peek != '!' then .error (d.unexpected setting start .bang)
    else .ok (String.ofList ('!' :: name ++ ['!']), d.next)

/-- The characters that stand for themselves in a tag. -/
def isUriChar (c : Char) : Bool :=
  c.isAlphanum || "-;/?:@&=+$,_.!~*\x27()[]".toList.contains c

/-- The bytes written as percent signs with two digits each. -/
def uriBytes (setting : Setting) (start : Mark) : Nat → Cursor → Bytes →
    Except Fault (Bytes × Cursor)
  | 0, c, read => .ok (read, c)
  | n + 1, c, read =>
      if c.peek != '%' then .ok (read, c)
      else
        let c := c.next
        let digits := (c.rest.take 2).takeWhile isHexDigit
        if digits.length < 2 then
          .error (c.fault (some setting) (some start)
            (.unexpected .uriHexadecimal (c.peekAt digits.length)))
        else uriBytes setting start n (c.advance 2) (read ++ [UInt8.ofNat (hexNumber digits)])

/-- The characters of a tag. -/
def uriText (setting : Setting) (start : Mark) : Nat → Cursor → List Char →
    Except Fault (List Char × Cursor)
  | 0, c, read => .ok (read, c)
  | n + 1, c, read =>
      let (run, c) := c.take isUriChar
      let read := read ++ run
      if c.peek != '%' then .ok (read, c)
      else match uriBytes setting start (c.rest.length + 1) c [] with
        | .error f => .error f
        | .ok (bytes, d) => match Utf8.decode bytes with
          | .error f => .error (c.fault (some setting) (some start) (.notText f.message))
          | .ok s => uriText setting start n d (read ++ s.toList)

/-- A tag without its handle. -/
def uri (setting parsed : Setting) (start : Mark) (c : Cursor) : Except Fault (String × Cursor) :=
  match uriText setting start (c.rest.length + 1) c [] with
  | .error f => .error f
  | .ok (text, d) =>
      if text.isEmpty then .error (d.unexpected parsed start .uri)
      else .ok (String.ofList text, d)

/-- Whether the name of a tag has a handle with a name of its own. -/
def hasHandle (c : Cursor) : Bool :=
  ((c.rest.drop 1).takeWhile fun x => !isSpaceOrEnd x).contains '!'

/-- A tag: in angle brackets, an exclamation mark alone, or behind a handle. -/
def tagToken (c : Cursor) : Except Fault (Token × Cursor) := do
  let x := c.peekAt 1
  let (handle, suffix, d) ←
    if x == '<' then do
      let (suffix, d) ← uri .tag .parsedTag c.mark (c.advance 2)
      if d.peek != '>' then throw (d.unexpected .parsedTag c.mark .angle)
      pure (none, suffix, d.next)
    else if isBlankOrEnd x then pure (none, "!", c.next)
    else do
      let (handle, d) ← if hasHandle c then tagHandle .tag c.mark c else pure ("!", c.next)
      let (suffix, d) ← uri .tag .parsedTag c.mark d
      pure (some handle, suffix, d)
  if isSpaceOrEnd d.peek then pure (⟨.tag handle suffix, c.mark, d.mark⟩, d)
  else throw (d.unexpected .tag c.mark .space)

/-! ### Directives -/

/-- A number in a directive. -/
def directiveNumber (start : Mark) (c : Cursor) : Except Fault (Nat × Cursor) :=
  let (digits, d) := c.take Char.isDigit
  if digits.isEmpty then .error (c.unexpected .directive start .digit)
  else .ok (digits.foldl (fun n x => 10 * n + (x.toNat - '0'.toNat)) 0, d)

/-- The version in a directive. -/
def versionOf (start : Mark) (c : Cursor) : Except Fault (Declaration × Cursor) := do
  let (major, c) ← directiveNumber start c.skipSpaces
  if c.peek != '.' then throw (c.unexpected .directive start .digitOrPoint)
  let (minor, c) ← directiveNumber start c.next
  if isSpaceOrEnd c.peek then pure (.version major minor, c)
  else throw (c.unexpected .directive start .digitOrSpace)

/-- The handle and the beginning of tags in a directive. -/
def handleOf (start : Mark) (c : Cursor) : Except Fault (Declaration × Cursor) := do
  let (handle, c) ← tagHandle .directive start c.skipSpaces
  if c.peek != ' ' then throw (c.unexpected .directive start .space)
  let (tags, c) ← uri .directive .parsedDirective start c.skipSpaces
  if isSpaceOrEnd c.peek then pure (.handle handle tags, c)
  else throw (c.unexpected .directive start .space)

/-- A directive, with the rest of its line. -/
def directiveToken (c : Cursor) : Except Fault (Token × Cursor) := do
  let (name, d) := c.next.take isNameChar
  if name.isEmpty || !isSpaceOrEnd d.peek then throw (d.unexpected .directive c.mark .name)
  let (declaration, d) ← match String.ofList name with
    | "YAML" => versionOf c.mark d
    | "TAG" => handleOf c.mark d
    | name => pure (.other name, d)
  let stop := d.mark
  let d := match declaration with
    | .other _ => d.skip fun x => !isBreakOrEnd x
    | _ => d
  let d ← ignoredLine .directive c.mark d
  pure (⟨.declaration declaration, c.mark, stop⟩, d)

end HashedAssets.Yaml
