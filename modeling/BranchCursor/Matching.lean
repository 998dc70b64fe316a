import BranchCursor.Program

/-! Whether a pattern occurs at a cursor. A text is compared directly, a feed by walking; both
ask the likeness about the same pairs in the same order and stop at the first that differs. -/
namespace BranchCursor

/-- A verdict, and the pairs of pattern and content characters that were compared for it. -/
structure Comparison where
  verdict : Bool
  asked : Array (Char × Char)
  deriving DecidableEq, Repr

namespace TextCursor

/-- Compares with the content characters that are left. -/
def compareWith (like : Char → Char → Bool) (buffer : Array Char) :
    List Char → Nat → Array (Char × Char) → Comparison
  | [], _, asked => ⟨true, asked⟩
  | e :: later, i, asked =>
    match buffer[i]? with
    | none => ⟨false, asked⟩
    | some a =>
      if like e a then compareWith like buffer later (i + 1) (asked.push (e, a))
      else ⟨false, asked.push (e, a)⟩

def compare (like : Char → Char → Bool) (pattern : List Char) (t : TextCursor) : Comparison :=
  compareWith like t.buffer pattern t.index #[]

end TextCursor

namespace Program

/-- Compares while walking; after every pair that is alike the next cursor is made, also after
the last one. -/
def compareWalking (like : Char → Char → Bool) :
    List Char → Cursor → Array (Char × Char) → Program Comparison
  | [], _, asked => done ⟨true, asked⟩
  | e :: later, c, asked =>
    current c [] fun
      | none => done ⟨false, asked⟩
      | some a =>
        if like e a then next c [] fun d => compareWalking like later d (asked.push (e, a))
        else done ⟨false, asked.push (e, a)⟩

/-- Whether `pattern` occurs at a cursor, which is kept meanwhile. An empty pattern is refused
before anything else. -/
def compare (like : Char → Char → Bool) (pattern : List Char) (c : Cursor) :
    Program (Except CursorError Comparison) :=
  match pattern with
  | [] => done (.error (.misuse .emptyPattern))
  | e :: later =>
    match c with
    | .finish => done (.ok ⟨false, #[]⟩)
    | .text t => done (.ok (t.compare like (e :: later)))
    | .mark id =>
      ((compareWalking like (e :: later) (.mark id) #[]).keeping (.mark id)).bind fun r =>
        done (.ok r)

end Program

end BranchCursor
