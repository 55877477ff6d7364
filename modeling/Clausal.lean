import Clausal.Main
import Clausal.Session.Perform
import Clausal.Workbench
import Clausal.Proofs.Subsumption
import Clausal.Proofs.Table
import Clausal.Proofs.Truth
import Clausal.Proofs.Saturation
import Clausal.Proofs.Completeness
import Clausal.Proofs.Round
import Clausal.Proofs.Bound
import Clausal.Proofs.Search
import Clausal.Proofs.Start
import Clausal.Proofs.Reachable
import Clausal.Proofs.Hooks
import Clausal.Proofs.Verdict
import Clausal.Proofs.Refinement
import Clausal.Proofs.Frame
import Clausal.Proofs.Sessions
import Clausal.Proofs.Bookkeeping
import Clausal.Proofs.Termination
import Clausal.Proofs.Archive
import Clausal.Proofs.Record
import Clausal.Proofs.Walk
import Clausal.Proofs.Display
import Clausal.Proofs.Spelling
import Clausal.Proofs.Lockstep
import Clausal.Proofs.Likeness
import Clausal.Proofs.Retelling
import Clausal.Proofs.Assistants
import Clausal.Proofs.Construction
import Clausal.Proofs.Restoring
import Clausal.Proofs.Reordering
import Clausal.Proofs.Truncation
import Clausal.Proofs.Aftermath
import Clausal.Proofs.Replay
import Clausal.Proofs.Growth
import Clausal.Proofs.Discipline
import Clausal.Proofs.Links
import Clausal.Proofs.Grounds
import Clausal.Proofs.Stability
import Clausal.Proofs.Pauses
import Clausal.Proofs.Editing
import Clausal.Proofs.Recall
import Clausal.Proofs.Legibility
import Clausal.Proofs.Programs
import Clausal.Proofs.Assignment
import Clausal.Proofs.Complaints
import Clausal.Proofs.Clashes
import Clausal.Proofs.Renderings
import Clausal.Proofs.Ledger
import Clausal.Proofs.Extraction
import Clausal.Proofs.Absorption
import Clausal.Proofs.Drawings
