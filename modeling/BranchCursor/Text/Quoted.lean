import BranchCursor.Text.Visible

/-! Two written forms of text: a character literal in single quotes, and a string of JSON. -/
namespace BranchCursor.Text

/-- The digits of a number to base 16, in lower case and without leading zeros. -/
def hexDigits (n : Nat) : String := String.ofList (Nat.toDigits 16 n)

/-- The inside of a character literal: a few escapes by letter, other characters that do not
show themselves by number, and the rest as they are. -/
def literalBody (c : Char) : String :=
  match c with
  | '\x00' => "\\0"
  | '\t' => "\\t"
  | '\n' => "\\n"
  | '\r' => "\\r"
  | '\'' => "\\'"
  | '\\' => "\\\\"
  | c => if isVisible c then c.toString else "\\u\x7b" ++ hexDigits c.toNat ++ "\x7d"

def literal (c : Char) : String := "'" ++ literalBody c ++ "'"

/-- What stands for a character inside a string of JSON. -/
def jsonBody (c : Char) : String :=
  match c with
  | '"' => "\\\""
  | '\\' => "\\\\"
  | '\x08' => "\\b"
  | '\x0c' => "\\f"
  | '\n' => "\\n"
  | '\r' => "\\r"
  | '\t' => "\\t"
  | c =>
    if c.toNat < 0x10 then "\\u000" ++ hexDigits c.toNat
    else if c.toNat < 0x20 then "\\u00" ++ hexDigits c.toNat
    else c.toString

def jsonString (s : String) : String := "\"" ++ String.join (s.toList.map jsonBody) ++ "\""

example : literal '\'' = "'\\''" := by decide
example : literal '"' = "'\"'" := by decide +kernel
example : jsonString "a\x1b" = "\"a\\u001b\"" := by decide +kernel

end BranchCursor.Text
