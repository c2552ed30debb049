import HashedAssets.Failure

/-!
# Putting values in the place of directives

Spans are replaced in one pass from left to right; what is put in is never read again.

* `renderFrom`: the output from a given offset on;
* `render`: the whole output.
-/

namespace HashedAssets.Directive

/-- The output from offset `last` on, where the directives stand behind it. -/
def renderFrom (raw : Bytes) (value : Directive → Except Failure Bytes) (last : Int) :
    List Directive → Except Failure Bytes
  | [] => .ok (raw.cutFrom last)
  | d :: rest =>
      if d.start < last then .error (.overlap d.start)
      else
        match value d with
        | .error f => .error f
        | .ok v =>
            match renderFrom raw value d.stop rest with
            | .error f => .error f
            | .ok tail => .ok (raw.cut last d.start ++ v ++ tail)

/-- The bytes with the value of each directive in its place. Without directives they stay as they
are. -/
def render (raw : Bytes) (ds : List Directive) (value : Directive → Except Failure Bytes) :
    Except Failure Bytes :=
  renderFrom raw value 0 ds

end HashedAssets.Directive
