import Flowchart.Document.Lexeme
import Flowchart.Document.Node

/-!
# Reading documents

Lexemes are put together to nodes. Only the first document of a text counts. The reader
looks a little ahead: what cannot be read makes a document invalid as soon as it comes
within reach.
-/

namespace Flowchart.Document

/-- Fails if something that cannot be read is the next lexeme or one of the two behind. -/
def look (ls : List Lexeme) : Except Malformed Lexeme :=
  if (ls.take 3).contains .invalid then .error .layout
  else match ls with
    | l :: _ => .ok l
    | [] => .error .layout

/-- Lexemes in front of which a value is missing, in blocks and between brackets. -/
def endsValue (l : Lexeme) : Bool := l == .key || l == .value || l == .blockEnd

def endsListItem (l : Lexeme) : Bool := l == .entry || l == .blockEnd

def endsMapItem (l : Lexeme) : Bool := l == .value || l == .comma || l == .closeMap

def endsPairItem (l : Lexeme) : Bool := l == .value || l == .comma || l == .closeList

/-- A node and the lexemes behind it. -/
abbrev Reading := Except Malformed (Node × List Lexeme)

mutual

/-- A node. Blocks may not start everywhere, and only as the value of a key may a list be
without indentation. Each level of nesting and each item takes one unit of fuel. -/
def readNode (block unindented : Bool) : Nat → List Lexeme → Reading
  | 0, _ => .error .layout
  | fuel + 1, ls => do
    match ← look ls with
    | .scalar text plain => .ok (.ofScalar text plain, ls.tail)
    | .openList => readFlowList fuel true [] ls.tail
    | .openMap => readFlowMap fuel true [] ls.tail
    | .entry => if unindented then readUnindented fuel [] ls else .error .layout
    | .listStart => if block then readList fuel [] ls.tail else .error .layout
    | .mapStart => if block then readMap fuel [] ls.tail else .error .layout
    | _ => .error .layout

/-- The items of an indented list; those read are in front, last one first. -/
def readList : Nat → List Node → List Lexeme → Reading
  | 0, _, _ => .error .layout
  | fuel + 1, items, ls => do
    match ← look ls with
    | .entry =>
      if endsListItem (← look ls.tail) then readList fuel (.missing :: items) ls.tail
      else
        let (item, ls) ← readNode true false fuel ls.tail
        readList fuel (item :: items) ls
    | .blockEnd => .ok (.list items.reverse, ls.tail)
    | _ => .error .layout

/-- The items of a list at the indentation of its key. -/
def readUnindented : Nat → List Node → List Lexeme → Reading
  | 0, _, _ => .error .layout
  | fuel + 1, items, ls => do
    match ← look ls with
    | .entry =>
      let l ← look ls.tail
      if l == .entry || endsValue l then readUnindented fuel (.missing :: items) ls.tail
      else
        let (item, ls) ← readNode true false fuel ls.tail
        readUnindented fuel (item :: items) ls
    | _ => .ok (.list items.reverse, ls)

/-- The entries of an indented map. -/
def readMap : Nat → List (Node × Node) → List Lexeme → Reading
  | 0, _, _ => .error .layout
  | fuel + 1, entries, ls => do
    match ← look ls with
    | .key =>
      let (key, ls) ← readBlockValue fuel ls.tail
      if (← look ls) == .value then
        let (value, ls) ← readBlockValue fuel ls.tail
        readMap fuel ((key, value) :: entries) ls
      else readMap fuel ((key, .missing) :: entries) ls
    | .blockEnd => .ok (.map entries.reverse, ls.tail)
    | _ => .error .layout

/-- The key or value behind its mark. -/
def readBlockValue : Nat → List Lexeme → Reading
  | 0, _ => .error .layout
  | fuel + 1, ls => do
    if endsValue (← look ls) then .ok (.missing, ls) else readNode true true fuel ls

/-- The items of a list in brackets, from a comma on except for the first one. -/
def readFlowList : Nat → Bool → List Node → List Lexeme → Reading
  | 0, _, _, _ => .error .layout
  | fuel + 1, first, items, ls => do
    let l ← look ls
    if l == .closeList then .ok (.list items.reverse, ls.tail)
    else if !first && l != .comma then .error .layout
    else
      let ls := if first then ls else ls.tail
      match ← look ls with
      | .closeList => .ok (.list items.reverse, ls.tail)
      | .key =>
        let (pair, ls) ← readPair fuel ls.tail
        readFlowList fuel false (pair :: items) ls
      | _ =>
        let (item, ls) ← readNode false false fuel ls
        readFlowList fuel false (item :: items) ls

/-- A single entry of a map as an item of a list. -/
def readPair : Nat → List Lexeme → Reading
  | 0, _ => .error .layout
  | fuel + 1, ls => do
    let (key, ls) ←
      if endsPairItem (← look ls) then .ok (.missing, ls.tail) else readNode false false fuel ls
    if (← look ls) == .value then
      let l ← look ls.tail
      if l == .comma || l == .closeList then .ok (.map [(key, .missing)], ls.tail)
      else
        let (value, ls) ← readNode false false fuel ls.tail
        .ok (.map [(key, value)], ls)
    else .ok (.map [(key, .missing)], ls)

/-- The entries of a map in brackets. -/
def readFlowMap : Nat → Bool → List (Node × Node) → List Lexeme → Reading
  | 0, _, _, _ => .error .layout
  | fuel + 1, first, entries, ls => do
    let l ← look ls
    if l == .closeMap then .ok (.map entries.reverse, ls.tail)
    else if !first && l != .comma then .error .layout
    else
      let ls := if first then ls else ls.tail
      match ← look ls with
      | .closeMap => .ok (.map entries.reverse, ls.tail)
      | .key =>
        let ls := ls.tail
        let (key, ls) ←
          if endsMapItem (← look ls) then .ok (.missing, ls) else readNode false false fuel ls
        let (value, ls) ← readFlowValue fuel ls
        readFlowMap fuel false ((key, value) :: entries) ls
      | _ =>
        let (key, ls) ← readNode false false fuel ls
        readFlowMap fuel false ((key, .missing) :: entries) ls

/-- The value of an entry of a map in brackets, if there is one. -/
def readFlowValue : Nat → List Lexeme → Reading
  | 0, _ => .error .layout
  | fuel + 1, ls => do
    if (← look ls) == .value then
      let l ← look ls.tail
      if l == .comma || l == .closeMap then .ok (.missing, ls.tail)
      else readNode false false fuel ls.tail
    else .ok (.missing, ls)

end

/-- The content of a document behind the mark of its start. -/
def readContent (fuel : Nat) (ls : List Lexeme) : Reading := do
  match ← look ls with
  | .documentStart | .documentEnd | .endOfText => .ok (.missing, ls)
  | _ => readNode true false fuel ls

/-- The first document of a text; a text without any content has none. -/
def parse (text : String) : Except Malformed (Option Node) := do
  let ls := lexemes text
  let fuel := 4 * ls.length + 4
  match ← look ls with
  | .endOfText => return none
  | .documentStart =>
    let (node, rest) ← readContent fuel ls.tail
    let _ ← look rest
    return some node
  | _ =>
    let (node, rest) ← readNode true false fuel ls
    let _ ← look rest
    return some node

end Flowchart.Document
