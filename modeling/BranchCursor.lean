import BranchCursor.Audience
import BranchCursor.CommandLine.FileTree
import BranchCursor.Gathering
import BranchCursor.Main
import BranchCursor.Session.Run
import BranchCursor.Proofs.Content
import BranchCursor.Proofs.Broadcast
import BranchCursor.Proofs.Sound
import BranchCursor.Proofs.Operations
import BranchCursor.Proofs.Standing
import BranchCursor.Proofs.ProgramLogic
import BranchCursor.Proofs.Walks
import BranchCursor.Proofs.Searches
import BranchCursor.Proofs.Steps
import BranchCursor.Proofs.Sessions
import BranchCursor.Proofs.Runs
import BranchCursor.Proofs.Answers
import BranchCursor.Proofs.Sequence
import BranchCursor.Proofs.Demand
import BranchCursor.Proofs.Inspections
import BranchCursor.Proofs.Tasks
import BranchCursor.Proofs.ExactDemand
import BranchCursor.Proofs.CatchUp
import BranchCursor.Proofs.Lockstep
import BranchCursor.Proofs.Encoding
import BranchCursor.Proofs.Segments
import BranchCursor.Proofs.Tapes
import BranchCursor.Proofs.Decoding
import BranchCursor.Proofs.Transcripts
import BranchCursor.Proofs.RoundTrip
import BranchCursor.Proofs.Readout
import BranchCursor.Proofs.Faults
import BranchCursor.Proofs.DecodedText
import BranchCursor.Proofs.Occurrences
import BranchCursor.Proofs.Interference
import BranchCursor.Proofs.Crews
import BranchCursor.Proofs.Scans
import BranchCursor.Proofs.Rosters
import BranchCursor.Proofs.Instants
import BranchCursor.Proofs.Waiting
import BranchCursor.Proofs.Histories
import BranchCursor.Proofs.ExactRoster
import BranchCursor.Proofs.Audiences
import BranchCursor.Proofs.FaultReports
import BranchCursor.Proofs.Logs
import BranchCursor.Proofs.Tuning
import BranchCursor.Proofs.Comparisons
import BranchCursor.Proofs.Advances
import BranchCursor.Proofs.Refusals
import BranchCursor.Proofs.Readings
import BranchCursor.Proofs.Boundaries
import BranchCursor.Proofs.Progress
import BranchCursor.Proofs.Modes
import BranchCursor.Proofs.Deliveries
import BranchCursor.Proofs.CaseFolding
import BranchCursor.Proofs.WalkLaws
import BranchCursor.Proofs.SearchFaults
import BranchCursor.Proofs.Numerals
import BranchCursor.Proofs.Spellings
import BranchCursor.Proofs.Settings
import BranchCursor.Proofs.Grammar
import BranchCursor.Proofs.InputTexts
import BranchCursor.Proofs.Printouts
import BranchCursor.Proofs.EagerRuns
