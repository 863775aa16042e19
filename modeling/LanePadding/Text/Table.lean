/-!
# Tables

A table is drawn with a frame of box characters: a line between any two columns, one below the
headers, none between the rows.  All columns are four characters wider than their longest text.
Headers stand in the middle of their column, the other texts at its left.
-/

set_option autoImplicit false

namespace LanePadding
namespace Text

/-- A number of blanks. -/
def blanks (n : Nat) : String := "".pushn ' ' n

/-- A text in the middle of `width` characters; one blank too many stands at the right. -/
def centred (width : Nat) (text : String) : String :=
  let room := width - text.length
  blanks (room / 2) ++ text ++ blanks (room - room / 2)

/-- A text after one blank, in `width` characters. -/
def indented (width : Nat) (text : String) : String :=
  " " ++ text ++ blanks (width - 1 - text.length)

end Text

/-- Headers, and rows with a text for each of them. -/
structure Table where
  headers : List String
  rows : List (List String)

namespace Table

/-- The widths of the columns. -/
def widths (t : Table) : List Nat :=
  (t.rows.foldl (fun longest row => List.zipWith max longest (row.map String.length))
    (t.headers.map String.length)).map (· + 4)

/-- A horizontal line of the frame, with its left end, its crossings and its right end. -/
def rule (widths : List Nat) (left crossing right : String) : String :=
  left ++ crossing.intercalate (widths.map fun w => "".pushn '─' w) ++ right ++ "\n"

/-- A row of texts, each set into its column. -/
def line (widths : List Nat) (set : Nat → String → String) (texts : List String) : String :=
  "│" ++ "│".intercalate (List.zipWith set widths texts) ++ "│\n"

/-- The drawn table. -/
def text (t : Table) : String :=
  let widths := t.widths
  rule widths "┌" "┬" "┐" ++ line widths Text.centred t.headers ++ rule widths "├" "┼" "┤" ++
    String.join (t.rows.map (line widths Text.indented)) ++ rule widths "└" "┴" "┘"

end Table
end LanePadding
