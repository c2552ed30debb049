import HashedAssets.Failure
import HashedAssets.Text.Blank

/-!
# Reading directives

A directive stands between the tokens `opening` and `closing` on one line and is at most `maxLength`
bytes long, tokens included. Its body is a kind and a target with a colon between them; blank
characters around either do not count.

* `readBody`: the body of one directive;
* `closeIn?`: where a directive ends;
* `parse`: all directives of an asset, from left to right.
-/

namespace HashedAssets.Directive

/-- The token that opens a directive: two braces, a colon and a space. -/
def opening : Bytes := [0x7b, 0x7b, 0x3a, 0x20]

/-- The token that closes a directive: a space, a colon and two braces. -/
def closing : Bytes := [0x20, 0x3a, 0x7d, 0x7d]

/-- How long a directive may be, tokens included. -/
def maxLength : Nat := 256

/-- Read the bytes between the tokens as kind and target. -/
def readBody (body : Bytes) : Except SyntaxFault (DirectiveKind × String) :=
  match body.text? with
  | none => .error .notText
  | some text =>
      let cs := Text.trimChars text.toList
      if cs = [] then .error .empty
      else if !cs.contains ':' then .error (.withoutColon (String.ofList cs))
      else
        let word := String.ofList (Text.trimChars (cs.takeWhile (· != ':')))
        let target := String.ofList (Text.trimChars ((cs.dropWhile (· != ':')).drop 1))
        match DirectiveKind.ofWord? word with
        | none => .error (.unknownKind word)
        | some kind => if target = "" then .error (.withoutTarget kind) else .ok (kind, target)

/-- Where the first closing token stands in a line that begins with an opening one. The two tokens
may share the space between them. -/
def closeIn? (line : Bytes) : Option Nat := Bytes.findFrom? closing 3 line

/-- The directive at the beginning of a line: its kind, its target and its length. -/
def readAt (line : Bytes) : Except SyntaxFault (DirectiveKind × String × Nat) :=
  match closeIn? (line.take maxLength) with
  -- a closing token further on only says what is wrong
  | none => .error (if (closeIn? line).isSome then .tooLong else .unterminated)
  | some c => (readBody ((line.take c).drop opening.length)).map fun kt =>
      (kt.1, kt.2, c + closing.length)

/-- A directive takes at least the bytes of a closing token. -/
theorem pos_of_readAt {line : Bytes} {kind : DirectiveKind} {target : String} {n : Nat}
    (h : readAt line = .ok (kind, target, n)) : 0 < n := by
  unfold readAt at h
  split at h
  · cases h
  · next c _ =>
      cases hb : readBody ((line.take c).drop opening.length) with
      | error e => rw [hb] at h; cases h
      | ok kt =>
          rw [hb] at h
          simp only [Except.map, Except.ok.injEq, Prod.mk.injEq] at h
          simp only [← h.2.2, closing, List.length_cons, List.length_nil]
          omega

/-- The directives of the bytes `rest`, which begin at `offset`. -/
def parseFrom (path : String) (offset : Nat) (rest : Bytes) : Except Fault (List Directive) :=
  match _hk : Bytes.find? opening rest with
  | none => .ok []
  | some k =>
      match _h : readAt (Bytes.firstLine (rest.drop k)) with
      | .error reason => .error (.malformed path (offset + k) reason)
      | .ok (kind, target, n) =>
          match parseFrom path (offset + k + n) (rest.drop (k + n)) with
          | .error f => .error f
          | .ok ds =>
              .ok ({ kind, target, start := (offset + k : Nat), stop := (offset + k + n : Nat) }
                :: ds)
termination_by rest.length
decreasing_by
  have h1 := Bytes.find?_add_length_le _hk
  have h2 := pos_of_readAt _h
  simp only [opening, List.length_cons, List.length_nil] at h1
  simp only [List.length_drop]
  omega

/-- All directives of an asset, in the order in which they stand. -/
def parse (raw : Bytes) (path : String) : Except Fault (List Directive) := parseFrom path 0 raw

end HashedAssets.Directive
