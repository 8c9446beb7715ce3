/-!
# Display

How results are laid out as lines of text: tables, notices and trees. Widths are counted
in bytes.
-/

namespace Flowchart.Display

def blanks (n : Nat) : String := String.ofList (List.replicate n ' ')

/-! ## Tables -/

def padded (width : Nat) (cell : String) : String :=
  cell ++ blanks (width - cell.utf8ByteSize)

/-- The width of each column is that of its widest cell. -/
def columnWidths : List (List String) → List Nat
  | [] => []
  | [row] => row.map (·.utf8ByteSize)
  | row :: rows => List.zipWith max (row.map (·.utf8ByteSize)) (columnWidths rows)

def rowLine (widths : List Nat) (row : List String) : String :=
  " | ".intercalate (List.zipWith padded widths row) ++ "\n"

/-- Rows with equally many cells, a line each. -/
def table (rows : List (List String)) : String :=
  let widths := columnWidths rows
  String.join (rows.map (rowLine widths))

/-! ## Notices -/

/-- A text without the newlines at its end. -/
def cutNewlines (s : String) : String :=
  String.ofList (s.toList.reverse.dropWhile (· == '\n')).reverse

/-- A text behind a mark. Further lines are set in to the same column; newlines at the end
count as one. -/
def notice (mark text : String) : String :=
  let lines := (cutNewlines text).split (· == '\n')
  let indent := "\n" ++ blanks mark.length
  let ending := if text.toList.getLast? = some '\n' then "\n" else ""
  mark ++ indent.intercalate (lines.toList.map (·.toString)) ++ ending ++ "\n"

def info (text : String) : String := notice "   >>  " text

def error (text : String) : String := notice "   Error  " text

/-! ## Trees -/

/-- An item of a tree that is listed top down. -/
structure TreeItem where
  level : Nat
  text : String
deriving Repr, DecidableEq

/-- Does the list go on with a sibling at this level? -/
def continues (level : Nat) (rest : List TreeItem) : Bool :=
  match rest.find? (·.level ≤ level) with
  | some item => item.level == level
  | none => false

/-- Lines lead down from each item to its next sibling, and from the last of them to the
items below it. -/
def treeLine (item : TreeItem) (rest : List TreeItem) : String :=
  let lead := (List.range item.level).map fun k => if continues k rest then "│ " else "  "
  let corner := if continues item.level rest then "├" else "└"
  let branch := if rest.head?.any (item.level < ·.level) then "─┬" else "──"
  String.join lead ++ corner ++ branch ++ item.text ++ "\n"

def treeLines : List TreeItem → String
  | [] => ""
  | item :: rest => treeLine item rest ++ treeLines rest

/-- A tree, and an empty line behind it. -/
def tree (items : List TreeItem) : String := treeLines items ++ "\n"

end Flowchart.Display
