import ChainLedger.Event
import ChainLedger.Session.Register
import ChainLedger.Session.Reply

set_option autoImplicit false

namespace ChainLedger

/-- Where an address, an allocator and a layout of one system are found in another. -/
structure Relabelling (T T' : Layering) where
  addr : Nat → Nat
  owner : Handle T → Handle T'
  layout : Layout → Layout

namespace Relabelling

variable {T T' : Layering} (relabelling : Relabelling T T')

def event : Event → Event
  | .nodeAllocated value addr => .nodeAllocated value (relabelling.addr addr)
  | .nodeReleased value addr => .nodeReleased value (relabelling.addr addr)
  | .requestRefused layout => .requestRefused (relabelling.layout layout)
  | .buildAbandoned built total => .buildAbandoned built total

def fault : Fault → Fault
  | .notLive addr => .notLive (relabelling.addr addr)
  | .layoutMismatch addr released allocated =>
      .layoutMismatch (relabelling.addr addr) released allocated
  | .liveBlockReturned addr => .liveBlockReturned (relabelling.addr addr)

def failure : Failure → Failure
  | .refused => .refused
  | .fault cause => .fault (relabelling.fault cause)
  | .aborted layout => .aborted (relabelling.layout layout)

def answer : Answer T → Answer T'
  | .done => .done
  | .nothing => .nothing
  | .value value => .value value
  | .count count => .count count
  | .truth truth => .truth truth
  | .values values => .values values
  | .text text => .text text
  | .node report =>
      .node ⟨relabelling.addr report.addr, relabelling.owner report.owner, report.next,
        report.value⟩
  | .owner owner => .owner (relabelling.owner owner)
  | .valueAndNext value next => .valueAndNext value next
  | .bounds lower upper => .bounds lower upper
  | .unrecognised => .unrecognised

def node (node : Node T) : Node T' :=
  ⟨relabelling.addr node.addr, node.value, relabelling.owner node.owner⟩

def register : Register T → Register T'
  | .loose tail => .loose (tail.map relabelling.node)
  | .chain held => .chain ⟨held.nodes.map relabelling.node, relabelling.owner held.owner⟩

def chainReport (report : ChainReport T) : ChainReport T' :=
  ⟨relabelling.owner report.owner, report.head, report.digest, report.isEmpty, report.length⟩

def ledgerReport (report : LedgerReport T) : LedgerReport T' :=
  ⟨report.allocations, report.budget, report.live, relabelling.owner report.below, report.releases,
    report.snapshot.map fun (addr, size) => (relabelling.addr addr, size)⟩

def reply : Reply T → Reply T'
  | .answer answer => .answer (relabelling.answer answer)
  | .answers answers => .answers (answers.map relabelling.answer)
  | .chain report => .chain (relabelling.chainReport report)
  | .ledger report => .ledger (relabelling.ledgerReport report)
  | .block addr size => .block (relabelling.addr addr) size
  | .problem problem => .problem problem
  | .failed failure => .failed (relabelling.failure failure)

theorem answer_ofValue? (value : Option Int64) :
    relabelling.answer (.ofValue? value) = .ofValue? value := by
  cases value <;> rfl

theorem isAbort_reply (reply : Reply T) : (relabelling.reply reply).isAbort = reply.isAbort := by
  cases reply with
  | failed failure => cases failure <;> rfl
  | _ => rfl

end Relabelling

end ChainLedger
