/-! Lines and tokens of a script. Tokens are separated by ASCII blanks, and a number sign starts a
comment. -/

namespace BehaviorTree.Script

/-- Space, tab, line feed, form feed and carriage return. -/
def isBlank (c : Char) : Bool :=
  c = ' ' || c = '\t' || c = '\n' || c = '\x0c' || c = '\r'

/-- The lines of a text. A line feed ends a line, so that there is no line after the last one. -/
def lines (source : String) : List String :=
  let parts := source.splitOn "\n"
  if parts.getLast? = some "" then parts.dropLast else parts

/-- The maximal runs of characters other than blanks. -/
def words (cs : List Char) : List String :=
  match _h : cs.dropWhile isBlank with
  | [] => []
  | c :: rest =>
    String.ofList (c :: rest.takeWhile (!isBlank ·)) :: words (rest.dropWhile (!isBlank ·))
termination_by cs.length
decreasing_by
  have hskip := (List.dropWhile_sublist (l := cs) isBlank).length_le
  have hword := (List.dropWhile_sublist (l := rest) (!isBlank ·)).length_le
  simp only [_h, List.length_cons] at hskip
  omega

/-- The tokens of a line in front of its comment. -/
def tokens (line : String) : List String :=
  words (line.toList.takeWhile (· ≠ '#'))

/-- The parts of a token before and after the first separator. -/
def splitOnce? (separator : Char) (token : String) : Option (String × String) :=
  let cs := token.toList
  match cs.dropWhile (· ≠ separator) with
  | [] => none
  | _ :: rest => some (String.ofList (cs.takeWhile (· ≠ separator)), String.ofList rest)

end BehaviorTree.Script
