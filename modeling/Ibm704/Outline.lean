import Ibm704.Core
import Ibm704.Text.Quoted

/-!
# Outlines

An outline shows a symbol table, segments or regions with all their fields, one
to a line, in braces that name what they hold.  Values of neighbouring lines are
aligned, and lists of more than 1024 items are left out.
-/

namespace Ibm704
namespace Outline

def longestList : Nat := 1024

def indent (lines : List Text) : List Text :=
  lines.map (.ofString "  " ++ ·)

def withComma : List Text → List Text
  | [] => []
  | [line] => [line ++ .ofString ","]
  | line :: rest => line :: withComma rest

def braced (heading : String) (lines : List Text) : List Text :=
  [.ofString heading ++ .ofString "\x7b"] ++ indent lines ++ [.ofString "\x7d"]

def listed (heading : String) (items : List (List Text)) : List Text :=
  if items.isEmpty then
    [.ofString heading ++ .ofString "(nil)"]
  else if longestList < items.length then
    [.ofString heading ++ .ofString "\x7b...\x7d"]
  else
    braced heading (items.flatMap withComma)

def labelled (width : Nat) (label : Text) : List Text → List Text
  | [] => []
  | first :: rest => withComma ((Text.padRight (width + 1) label ++ first) :: rest)

def aligned (entries : List (Text × Text)) : List Text :=
  let width := entries.foldl (fun width entry => max width entry.1.glyphs.length) 0
  entries.flatMap fun entry => labelled width entry.1 [entry.2]

/-!
# Words and segments

Lists that are longer than `longestList` are not shown.  Words stand in lines of four.
-/

def wordLines : List Word → List Text
  | a :: b :: c :: d :: rest => line [a, b, c, d] :: wordLines rest
  | [] => []
  | rest => [line rest]
where
  line (words : List Word) : Text :=
    Text.join (.ofString " ") (words.map fun w => Text.decimal w.toNat ++ .ofString ",")

def words (ws : List Word) : List Text :=
  if ws.isEmpty then
    [.ofString "[]word.Word(nil)"]
  else if longestList < ws.length then
    [.ofString "[]word.Word\x7b...\x7d"]
  else
    braced "[]word.Word" (wordLines ws)

def segment (s : Segment) : List Text :=
  braced "assembler.Segment"
    (labelled 7 (.ofString "Format:") [Text.decimal s.format.code] ++
      labelled 7 (.ofString "First:") [Text.decimal s.first.val] ++
      labelled 7 (.ofString "Last:") [Text.decimal s.last.val] ++
      labelled 7 (.ofString "Words:") (words s.words))

def segments (list : List Segment) : List Text :=
  listed "[]assembler.Segment" (list.map segment)

/-!
# Symbols

Symbols are shown in the order of their names, which are compared byte by byte.
-/

def isBefore : Text → Text → Bool
  | [], [] => false
  | [], _ :: _ => true
  | _ :: _, [] => false
  | a :: s, b :: t => a < b || (a == b && isBefore s t)

def insertByName (entry : Text × Word) : List (Text × Word) → List (Text × Word)
  | [] => [entry]
  | head :: rest =>
      if isBefore entry.1 head.1 then entry :: head :: rest else head :: insertByName entry rest

def byName (entries : List (Text × Word)) : List (Text × Word) :=
  entries.foldr insertByName []

/-- The table by name and then the names in the order of their definitions.  The two labels are
aligned with each other only where nothing stands between them. -/
def symbols (table : SymbolTable) : List Text :=
  let values := aligned ((byName table.entries).map fun entry =>
    (entry.1.quoted ++ .ofString ":", Text.decimal entry.2.toNat))
  let order := listed "[]string" (table.names.map fun name => [name.quoted])
  braced "assembler.SymTable"
    (labelled 8 (.ofString "Source:") [.ofString "\"\""] ++
      if values.isEmpty then
        labelled 8 (.ofString "Symbols:") [.ofString "map[string]word.Word\x7b\x7d"] ++
          labelled 8 (.ofString "Order:") order
      else
        labelled 8 (.ofString "Symbols:") (braced "map[string]word.Word" values) ++
          labelled 6 (.ofString "Order:") order)

/-! # Regions -/

def region (r : Core.Region) : List Text :=
  braced "machine.Region"
    (aligned [(.ofString "First:", Text.decimal r.first), (.ofString "Last:", Text.decimal r.last)])

def regions (list : List Core.Region) : List Text :=
  listed "[]machine.Region" (list.map region)

def render (lines : List Text) : Text :=
  lines.flatMap (· ++ Text.ofString "\n")

end Outline
end Ibm704
