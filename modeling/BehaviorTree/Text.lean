/-! Columns and hexadecimal numerals for listings. -/

namespace BehaviorTree.Text

/-- Fills a text up to `width` characters from the left. -/
def padLeft (fill : Char) (width : Nat) (text : String) : String :=
  String.ofList (List.replicate (width - text.length) fill) ++ text

/-- Fills a text up to `width` characters with blanks from the right. -/
def padRight (width : Nat) (text : String) : String :=
  text ++ String.ofList (List.replicate (width - text.length) ' ')

/-- At least `width` lower-case hexadecimal digits. -/
def hex (width n : Nat) : String :=
  padLeft '0' width (String.ofList (Nat.toDigits 16 n))

end BehaviorTree.Text
