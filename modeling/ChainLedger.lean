import ChainLedger.Machine.Run
import ChainLedger.Parent.Arena
import ChainLedger.Parent.Heap
import ChainLedger.Proofs.Aftermath
import ChainLedger.Proofs.Capacity
import ChainLedger.Proofs.Discipline
import ChainLedger.Proofs.Editing
import ChainLedger.Proofs.Exactness
import ChainLedger.Proofs.Independence
import ChainLedger.Proofs.Insistence
import ChainLedger.Proofs.Interchange
import ChainLedger.Proofs.Legibility
import ChainLedger.Proofs.Nesting
import ChainLedger.Proofs.Reading
import ChainLedger.Proofs.Recovery
import ChainLedger.Proofs.Refinement
import ChainLedger.Proofs.Removal
import ChainLedger.Proofs.Reversal
import ChainLedger.Proofs.Tour
import ChainLedger.Proofs.Wrapping
import ChainLedger.Session.Run
import ChainLedger.Summation
import ChainLedger.Walkthrough
