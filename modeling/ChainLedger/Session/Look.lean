import ChainLedger.Session.Reply
import ChainLedger.Text.Render
import ChainLedger.ValueStream

set_option autoImplicit false

namespace ChainLedger

variable {T : Layering}

inductive StreamStep where
  | next
  | skip (count : Nat)
  | bounds
  /-- Reads all values that remain. -/
  | rest
  | count
  | last
  | unrecognised
deriving DecidableEq

/-- Reads a stream step by step. Counting the values and asking for the last one use the stream up,
so the steps behind are not taken. -/
def ValueStream.read (stream : ValueStream) : List StreamStep → List (Answer T)
  | [] => []
  | .next :: steps => .ofValue? stream.next.1 :: stream.next.2.read steps
  | .skip count :: steps => .ofValue? (stream.skip count).1 :: (stream.skip count).2.read steps
  | .bounds :: steps => .bounds stream.sizeHint.1 stream.sizeHint.2 :: stream.read steps
  | .rest :: steps => .values stream.remaining :: ValueStream.read ⟨[]⟩ steps
  | .count :: _ => [.count stream.count]
  | .last :: _ => [.ofValue? stream.last]
  | .unrecognised :: steps => .unrecognised :: stream.read steps

inductive CursorStep where
  | value
  | terminal
  | next
  /-- The values from here on. -/
  | values
  | advance
  /-- Remembers the place. -/
  | save
  /-- Goes back to the place remembered. -/
  | restore
  /-- Whether the place remembered is here. -/
  | same
  /-- Shows the cursor in a style, if the style is one. -/
  | render (style : Option Style)
  | unrecognised
deriving DecidableEq

/-- Looks around with a cursor step by step; `saved` is the place remembered. A cursor that cannot
advance stays. -/
def Cursor.look (saved : Cursor T) (cursor : Cursor T) :
    List CursorStep → Except Problem (List (Answer T))
  | [] => .ok []
  | .value :: steps => (look saved cursor steps).map (.value cursor.value :: ·)
  | .terminal :: steps => (look saved cursor steps).map (.truth cursor.isTerminal :: ·)
  | .next :: steps =>
      (look saved cursor steps).map (.ofValue? (cursor.rest.head?.map Node.value) :: ·)
  | .values :: steps => (look saved cursor steps).map (.values (Tail.values cursor.nodes) :: ·)
  | .advance :: steps =>
      match cursor.advance? with
      | some moved => (look saved moved steps).map (.truth true :: ·)
      | none => (look saved cursor steps).map (.nothing :: ·)
  | .save :: steps => (look cursor cursor steps).map (.done :: ·)
  | .restore :: steps => (look saved saved steps).map (.done :: ·)
  | .same :: steps => (look saved cursor steps).map (.truth (saved.isAt cursor) :: ·)
  | .render none :: _ => .error .badInput
  | .render (some style) :: steps =>
      (look saved cursor steps).map (.text (cursor.render style) :: ·)
  | .unrecognised :: steps => (look saved cursor steps).map (.unrecognised :: ·)

end ChainLedger
