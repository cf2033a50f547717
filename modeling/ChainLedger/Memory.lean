import ChainLedger.Node

set_option autoImplicit false

namespace ChainLedger

/-- What stands at the address of a node. The link owns the record it leads to. -/
structure Record (T : Layering) where
  value : Int64
  next : Option Nat
  owner : Handle T
deriving DecidableEq

/-- What the ownership of records is there to prevent. -/
inductive Hazard where
  /-- A record was about to be written over one that is still in use. -/
  | overwrite (addr : Nat)
  /-- A link was followed to an address without a record. -/
  | dangling (addr : Nat)
  /-- A slot that must own a node was found empty. -/
  | vacant
deriving DecidableEq

/-- The records in use, by address. -/
structure Memory (T : Layering) where
  records : Std.ExtTreeMap Nat (Record T)

variable {T : Layering}

def Record.node (addr : Nat) (record : Record T) : Node T :=
  ⟨addr, record.value, record.owner⟩

namespace Memory

def empty : Memory T :=
  ⟨∅⟩

def get? (addr : Nat) (memory : Memory T) : Option (Record T) :=
  memory.records[addr]?

def write (addr : Nat) (record : Record T) (memory : Memory T) : Memory T :=
  ⟨memory.records.insert addr record⟩

def erase (addr : Nat) (memory : Memory T) : Memory T :=
  ⟨memory.records.erase addr⟩

def size (memory : Memory T) : Nat :=
  memory.records.size

@[simp] theorem get?_empty (addr : Nat) : (empty : Memory T).get? addr = none :=
  Std.ExtTreeMap.getElem?_empty

theorem get?_write (addr other : Nat) (record : Record T) (memory : Memory T) :
    (memory.write addr record).get? other =
      if addr = other then some record else memory.get? other := by
  simp only [get?, write, Std.ExtTreeMap.getElem?_insert, Nat.compare_eq_eq]

theorem get?_erase (addr other : Nat) (memory : Memory T) :
    (memory.erase addr).get? other = if addr = other then none else memory.get? other := by
  simp only [get?, erase, Std.ExtTreeMap.getElem?_erase, Nat.compare_eq_eq]

theorem size_erase_lt {addr : Nat} {record : Record T} {memory : Memory T}
    (found : memory.get? addr = some record) : (memory.erase addr).size < memory.size := by
  have member : memory.records.contains addr = true := by
    rw [← Std.ExtTreeMap.isSome_getElem?_eq_contains]
    exact Option.isSome_of_eq_some found
  have positive : memory.records.size ≠ 0 := by
    intro none
    rw [← Std.ExtTreeMap.eq_empty_iff_size_eq_zero] at none
    simp only [none, Std.ExtTreeMap.contains_empty, Bool.false_eq_true] at member
  simp only [size, erase, Std.ExtTreeMap.size_erase, member, ↓reduceIte]
  omega

def read (addr : Nat) (memory : Memory T) : Except Hazard (Record T) :=
  match memory.get? addr with
  | none => .error (.dangling addr)
  | some record => .ok record

/-- Makes another link the one to the next record, and hands back the link that stood there. -/
def relink (addr : Nat) (link : Option Nat) (memory : Memory T) :
    Except Hazard (Option Nat × Memory T) := do
  let record ← memory.read addr
  return (record.next, memory.write addr { record with next := link })

def follow (memory : Memory T) : Nat → Option Nat → Except Hazard (Option Nat)
  | 0, link => .ok link
  | _ + 1, none => .ok none
  | steps + 1, some addr => do
      let record ← memory.read addr
      memory.follow steps record.next

def next (memory : Memory T) : Option Nat → Except Hazard (Option Int64 × Option Nat)
  | none => .ok (none, none)
  | some addr => do
      let record ← memory.read addr
      return (some record.value, record.next)

/-- Reads past some values and then the one behind them, if the values do not end before. -/
def skip (memory : Memory T) : Nat → Option Nat → Except Hazard (Option Int64 × Option Nat)
  | 0, link => memory.next link
  | count + 1, link => do
      match ← memory.next link with
      | (none, link) => return (none, link)
      | (some _, link) => memory.skip count link

/-- Reads everything behind a link. Records that have been read are set aside, so that a link back
to one of them is found dangling, where it could be followed without end. -/
def gather (memory : Memory T) (link : Option Nat) : Except Hazard (Tail T) :=
  match link with
  | none => .ok []
  | some addr =>
      match found : memory.get? addr with
      | none => .error (.dangling addr)
      | some record =>
          have _smaller := size_erase_lt found
          do
            let rest ← (memory.erase addr).gather record.next
            return record.node addr :: rest
termination_by memory.size

end Memory

end ChainLedger
