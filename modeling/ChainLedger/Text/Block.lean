import ChainLedger.Text.Style

set_option autoImplicit false

namespace ChainLedger

abbrev Block : Type :=
  List (List Char)

namespace Block

def toString (block : Block) : String :=
  String.ofList (List.intercalate ['\n'] block)

def withComma : Block → Block
  | [] => []
  | [line] => [line ++ [',']]
  | line :: rest => line :: withComma rest

def indent (block : Block) : Block :=
  block.map ("    ".toList ++ ·)

/-- Puts a text in front of the first line. -/
def label (text : List Char) : Block → Block
  | [] => [text]
  | line :: rest => (text ++ line) :: rest

/-- Items between an opening and a closing text. Without items nothing separates the two. -/
def enclose (style : Style) (opening closing : List Char) (items : List Block) : Block :=
  if items.isEmpty then
    [opening ++ closing]
  else if style = .spread then
    opening :: (items.flatMap fun item => (withComma item).indent) ++ [closing]
  else
    [opening ++ List.intercalate ", ".toList (items.map List.flatten) ++ closing]

def tuple (style : Style) (name : String) (items : List Block) : Block :=
  enclose style (name.toList ++ ['(']) [')'] items

def list (style : Style) (name : String) (items : List Block) : Block :=
  enclose style (name.toList ++ ['[']) [']'] items

/-- Named items between braces behind a name. On one line the braces stand apart from the items. -/
def record (style : Style) (name : String) (fields : List (String × Block)) : Block :=
  let gap := if style = .spread then [] else [' ']
  enclose style (name.toList ++ " \x7b".toList ++ gap) (gap ++ ['\x7d'])
    (fields.map fun (field, block) => label (field.toList ++ ": ".toList) block)

/-- An item that may be missing. -/
def option (style : Style) : Option Block → Block
  | none => ["None".toList]
  | some block => tuple style "Some" [block]

end Block

end ChainLedger
