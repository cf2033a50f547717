import ChainLedger.Session.Op
import Mathlib.Logic.Function.Basic

/-
Plain lists: what operations do to the lists under all names, said without store, records and links.
`Lists.Acts` gives one equation for each operation, as long as it meets neither a fault nor the end
of the run. A list that no equation mentions stays as it is.
-/

set_option autoImplicit false

namespace ChainLedger

variable {T : Layering}

/-- The lists under all names. A node is known by its address, its value and its allocator; a chain
knows the allocator of new nodes besides. -/
abbrev Lists (T : Layering) : Type :=
  String → Option (Register T)

namespace Lists

/-- The nodes under a name; a name without a list has none. -/
def nodes (lists : Lists T) (name : String) : Tail T :=
  match lists name with
  | none => []
  | some register => register.nodes

def IsChain (lists : Lists T) (name : String) : Prop :=
  ∃ chain, lists name = some (.chain chain)

def set (lists : Lists T) (name : String) (register : Register T) : Lists T :=
  Function.update lists name (some register)

def clear (lists : Lists T) (name : String) : Lists T :=
  Function.update lists name none

def source (lists : Lists T) : Option String → Tail T
  | none => []
  | some name => lists.nodes name

/-- The lists without those linked in. -/
def without (lists : Lists T) : Option String → Lists T
  | none => lists
  | some name => lists.clear name

/-- Stores loose nodes, if a name is given for them. -/
def store (lists : Lists T) (target : Option String) (tail : Tail T) : Lists T :=
  match target with
  | none => lists
  | some name => lists.set name (.loose tail)

def storeAll (lists : Lists T) (aside : List (String × Tail T)) : Lists T :=
  aside.foldl (fun lists entry => lists.set entry.1 (.loose entry.2)) lists

end Lists

/-- A walk under way: the list walked through and the position in it, the lists under all other
names, and the lists that were set aside, in order. -/
structure Excursion (T : Layering) where
  nodes : Tail T
  position : Nat
  lists : Lists T
  aside : List (String × Tail T)

namespace Excursion

/-- The walk with other nodes behind its position. Those that stood there are set aside, if there is
a name for them. -/
def relinked (walk : Excursion T) (successors : Tail T) (target : Option String)
    (lists : Lists T) : Excursion T where
  nodes := walk.nodes.take (walk.position + 1) ++ successors
  position := walk.position
  lists := lists
  aside := walk.aside ++ target.toList.map fun name => (name, walk.nodes.drop (walk.position + 1))

/-- What a step of a walk that goes on afterwards answers and does. -/
inductive Steps : WalkStep → Excursion T → Answer T → Excursion T → Prop where
  | value {walk node} (here : walk.nodes[walk.position]? = some node) :
      Steps .value walk (.value node.value) walk
  | terminal {walk} :
      Steps .terminal walk (.truth (walk.position + 1 == walk.nodes.length)) walk
  | valueAndNext {walk node} (here : walk.nodes[walk.position]? = some node) :
      Steps .valueAndNext walk
        (.valueAndNext node.value (walk.nodes[walk.position + 1]?.map Node.value)) walk
  | next {walk} :
      Steps .next walk (.ofValue? (walk.nodes[walk.position + 1]?.map Node.value)) walk
  | owner {walk node} (here : walk.nodes[walk.position]? = some node) :
      Steps .owner walk (.owner node.owner) walk
  | render {walk node style} (here : walk.nodes[walk.position]? = some node) :
      Steps (.render (some style)) walk (.text (renderValue style "CursorMut" node.value)) walk
  | advance {walk} (inside : walk.position + 1 < walk.nodes.length) :
      Steps .advance walk (.truth true) { walk with position := walk.position + 1 }
  | splitOff {walk target} :
      Steps (.splitOff target) walk (.ofTail (walk.nodes.drop (walk.position + 1)))
        (walk.relinked [] target walk.lists)
  | link {walk source target} :
      Steps (.link source target) walk (.ofTail (walk.nodes.drop (walk.position + 1)))
        (walk.relinked (walk.lists.source source) target (walk.lists.without source))
  | unrecognised {walk} : Steps .unrecognised walk .unrecognised walk

/-- A whole walk. It is over when the steps are used up, when the last node is left behind, or when
the node at the position is taken out. -/
inductive Walks : Excursion T → List WalkStep → Except Problem (List (Answer T)) →
    Excursion T → Prop where
  | done {walk} : Walks walk [] (.ok []) walk
  | go {walk step answer between steps outcome ended} (first : Steps step walk answer between)
      (later : Walks between steps outcome ended) :
      Walks walk (step :: steps) (outcome.map (answer :: ·)) ended
  | passed {walk steps} (last : walk.position + 1 = walk.nodes.length) :
      Walks walk (.advance :: steps) (.ok [.nothing]) walk
  | release {walk node steps} (here : walk.nodes[walk.position]? = some node) :
      Walks walk (.release :: steps) (.ok [.value node.value])
        { walk with nodes := walk.nodes.eraseIdx walk.position }
  | unstyled {walk steps} : Walks walk (.render none :: steps) (.error .badInput) walk

end Excursion

/-- The reply to an operation that reads step by step. -/
def Reply.ofOutcome : Except Problem (List (Answer T)) → Reply T
  | .ok given => .answers given
  | .error cause => .problem cause

variable {π : Type} [Parent π]

/-- Whether an operation concerns ledgers or the parent, and no list. -/
def Op.IsBookkeeping : Op T π → Prop
  | .setBudget .. | .ledger _ | .renderLedger .. | .isLive .. | .allocate .. | .deallocate ..
  | .exchange .. | .configure _ => True
  | _ => False

namespace Lists

/-- What an operation answers that only reads a list. -/
inductive Reads (lists : Lists T) : Op T π → Reply T → Prop where
  | inspect {name position node} (here : (lists.nodes name)[position]? = some node) :
      Reads lists (.inspect name position) (.answer (.node ⟨node.addr, node.owner,
        (lists.nodes name)[position + 1]?.map Node.value, node.value⟩))
  | inspect_none {name position} (outside : (lists.nodes name).length ≤ position) :
      Reads lists (.inspect name position) (.problem .noNode)
  | info {name chain} (found : lists name = some (.chain chain)) :
      Reads lists (.info name) (.chain ⟨chain.owner, chain.nodes.head?.map Node.value,
        chain.digest, chain.nodes.isEmpty, chain.nodes.length⟩)
  | info_none {name} (other : ¬ lists.IsChain name) :
      Reads lists (.info name) (.problem .noChain)
  | values {name} :
      Reads lists (.values name) (.answer (.values ((lists.nodes name).map Node.value)))
  | render_node {name position node style} (here : (lists.nodes name)[position]? = some node) :
      Reads lists (.render name (some position) (some style)) (.answer (.text (node.render style)))
  | render_chain {name chain style} (found : lists name = some (.chain chain)) :
      Reads lists (.render name none (some style)) (.answer (.text (chain.render style)))
  | render_loose {name style} (other : ¬ lists.IsChain name) :
      Reads lists (.render name none (some style))
        (.answer (.text (Tail.render style (lists.nodes name))))
  | render_none {name position style} (outside : (lists.nodes name).length ≤ position) :
      Reads lists (.render name (some position) style) (.problem .noNode)
  | unstyled {name position} (inside : ∀ index ∈ position, index < (lists.nodes name).length) :
      Reads lists (.render name position none) (.problem .badInput)
  | stream {name position steps}
      (inside : position < (lists.nodes name).length ∨ position = 0 ∧ lists.IsChain name) :
      Reads lists (.stream name position (some steps))
        (.answers (ValueStream.read ⟨((lists.nodes name).drop position).map Node.value⟩ steps))
  | stream_none {name position steps} (outside : (lists.nodes name).length ≤ position)
      (front : ¬ (position = 0 ∧ lists.IsChain name)) :
      Reads lists (.stream name position steps) (.problem .noNode)
  | cursor {name position node rest steps}
      (here : (lists.nodes name).drop position = node :: rest) :
      Reads lists (.cursor name position (some steps))
        (.ofOutcome (Cursor.look ⟨node, rest⟩ ⟨node, rest⟩ steps))
  | cursor_empty {name steps} (chain : lists.IsChain name) (empty : lists.nodes name = []) :
      Reads lists (.cursor name 0 steps) (.answer .nothing)
  | cursor_none {name position steps} (outside : (lists.nodes name).length ≤ position)
      (front : ¬ (position = 0 ∧ lists.IsChain name)) :
      Reads lists (.cursor name position steps) (.problem .noNode)
  | unread_stream {name position}
      (inside : position < (lists.nodes name).length ∨ position = 0 ∧ lists.IsChain name) :
      Reads lists (.stream name position none) (.problem .badInput)
  | unread_cursor {name position} (inside : position < (lists.nodes name).length) :
      Reads lists (.cursor name position none) (.problem .badInput)

/-- What an operation answers and makes of the lists. -/
inductive Acts : Op T π → Lists T → Reply T → Lists T → Prop where
  | read {op lists reply} (reads : Reads lists op reply) : Acts op lists reply lists
  | bookkeeping {op lists reply} (other : op.IsBookkeeping) : Acts op lists reply lists
  | node {target demand owner value node lists} (holds : node.value = value)
      (owned : node.owner = owner) :
      Acts (.node target demand owner value) lists (.answer (.value value))
        (lists.set target (.loose [node]))
  | node_refused {target owner value lists} :
      Acts (.node target .attempt owner value) lists (.failed .refused) lists
  | chain {target demand owner values nodes lists} (held : nodes.map Node.value = values)
      (owned : ∀ node ∈ nodes, node.owner = owner) :
      Acts (.chain target demand owner values) lists (.answer (.count values.length))
        (lists.set target (.chain ⟨nodes, owner⟩))
  | chain_refused {target owner values lists} :
      Acts (.chain target .attempt owner values) lists (.failed .refused) lists
  | empty {target owner lists} :
      Acts (.empty target owner) lists (.answer (.count 0)) (lists.set target (.chain ⟨[], owner⟩))
  | link {name position source target register lists} (apart : source ≠ some name)
      (found : lists name = some register) (inside : position < register.nodes.length) :
      Acts (.link name position source target) lists
        (.answer (.ofTail (register.nodes.drop (position + 1))))
        (((lists.without source).set name
          (register.withNodes (register.nodes.take (position + 1) ++ lists.source source))).store
          target (register.nodes.drop (position + 1)))
  | link_none {name position source target lists}
      (impossible : source = some name ∨ (lists.nodes name).length ≤ position) :
      Acts (.link name position source target) lists (.problem .noNode) lists
  | unlink {name position target register lists} (found : lists name = some register)
      (inside : position < register.nodes.length) :
      Acts (.unlink name position target) lists
        (.answer (.ofTail (register.nodes.drop (position + 1))))
        ((lists.set name (register.withNodes (register.nodes.take (position + 1)))).store target
          (register.nodes.drop (position + 1)))
  | unlink_none {name position target lists} (outside : (lists.nodes name).length ≤ position) :
      Acts (.unlink name position target) lists (.problem .noNode) lists
  | release {name target node rest lists} (found : lists.nodes name = node :: rest) :
      Acts (.release name target) lists (.answer (.ofTail rest))
        ((lists.clear name).store target rest)
  | release_none {name target lists} (empty : lists.nodes name = []) :
      Acts (.release name target) lists (.problem .noNode) (lists.clear name)
  | move {name target lists} :
      Acts (.move name (some target)) lists (.answer (.ofTail (lists.nodes name)))
        ((lists.clear name).set target (.loose (lists.nodes name)))
  | move_nowhere {name lists} :
      Acts (.move name none) lists (.problem .badInput) (lists.clear name)
  | drop {name lists} :
      Acts (.drop name) lists (.answer (.truth (lists name).isSome)) (lists.clear name)
  | intoHead {name target lists} (chain : lists.IsChain name) :
      Acts (.intoHead name target) lists (.answer (.ofTail (lists.nodes name)))
        ((lists.clear name).store target (lists.nodes name))
  | intoHead_none {name target lists} (other : ¬ lists.IsChain name) :
      Acts (.intoHead name target) lists (.problem .noChain) lists
  | pushFront {name demand value node chain lists} (found : lists name = some (.chain chain))
      (holds : node.value = value) (owned : node.owner = chain.owner) :
      Acts (.pushFront name demand value) lists (.answer .done)
        (lists.set name (.chain ⟨node :: chain.nodes, chain.owner⟩))
  | pushFront_refused {name value lists} (chain : lists.IsChain name) :
      Acts (.pushFront name .attempt value) lists (.failed .refused) lists
  | pushFront_none {name demand value lists} (other : ¬ lists.IsChain name) :
      Acts (.pushFront name demand value) lists (.problem .noChain) lists
  | popFront {name node rest owner lists}
      (found : lists name = some (.chain ⟨node :: rest, owner⟩)) :
      Acts (.popFront name) lists (.answer (.value node.value))
        (lists.set name (.chain ⟨rest, owner⟩))
  | popFront_empty {name owner lists} (found : lists name = some (.chain ⟨[], owner⟩)) :
      Acts (.popFront name) lists (.answer .nothing) lists
  | popFront_none {name lists} (other : ¬ lists.IsChain name) :
      Acts (.popFront name) lists (.problem .noChain) lists
  | walk {name steps register outcome ended lists} (found : lists name = some register)
      (some : register.nodes ≠ [])
      (walked : Excursion.Walks ⟨register.nodes, 0, lists.clear name, []⟩ steps outcome ended) :
      Acts (.walk name steps) lists (.ofOutcome outcome)
        ((ended.lists.set name (register.withNodes ended.nodes)).storeAll ended.aside)
  | walk_none {name steps lists} (empty : lists.nodes name = []) :
      Acts (.walk name steps) lists (.answer .nothing) lists

/-- Operations that act one after the other. -/
inductive Run : Lists T → List (Op T π) → List (Reply T) → Lists T → Prop where
  | still {lists} : Run lists [] [] lists
  | go {lists op reply between ops replies after} (first : Acts op lists reply between)
      (later : Run between ops replies after) : Run lists (op :: ops) (reply :: replies) after

end Lists

end ChainLedger
