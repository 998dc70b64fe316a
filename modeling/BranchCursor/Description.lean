import BranchCursor.Cursor
import BranchCursor.Text.Quoted

/-! What cursors and feeds look like when printed for a developer. -/
namespace BranchCursor

/-- A record: its name, then its fields in braces. -/
def fieldText (name : String) (fields : List (String × String)) : String :=
  name ++ " \x7b " ++ ", ".intercalate (fields.map fun (k, v) => k ++ ": " ++ v) ++ " \x7d"

def listing (items : List String) : String := "[" ++ ", ".intercalate items ++ "]"

/-- A character that may be unknown. -/
def describeKnown : Option Char → String
  | some c => "Some(" ++ Text.literal c ++ ")"
  | none => "None"

namespace Cursor

def describe (f : Feed) : Cursor → String
  | finish => "End"
  | text t =>
    "Array(" ++ fieldText "ArrayCursor"
      [("buf", listing (t.buffer.toList.map Text.literal)), ("index", toString t.index)] ++ ")"
  | mark id =>
    let m := f.mark id
    "Stream(" ++ fieldText "StreamCursor"
      [("position", toString m.position), ("head", describeKnown (f.known m))] ++ ")"

end Cursor

namespace Feed

def describe (f : Feed) : String :=
  fieldText "SharedReader"
    [("read_position", toString f.readPosition), ("exhausted", toString f.exhausted),
      ("subscribers", toString f.roster.size)]

end Feed

example : describeKnown (some 'a') = "Some('a')" := by decide +kernel

end BranchCursor
