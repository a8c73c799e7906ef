import RobotDesk.CommandLine.Task
import RobotDesk.Endpoint.Router
import RobotDesk.Main
import RobotDesk.Script
import RobotDesk.Workplace
import RobotDesk.Proofs.Instant
import RobotDesk.Proofs.Lifecycle
import RobotDesk.Proofs.Registry
import RobotDesk.Proofs.SlidingWindow
import RobotDesk.Proofs.Interleaving
import RobotDesk.Proofs.Observation
import RobotDesk.Proofs.Session
import RobotDesk.Proofs.Batch
import RobotDesk.Proofs.InvalidRequest
import RobotDesk.Proofs.BatchEndpoint
import RobotDesk.Proofs.SimulatedBatch
import RobotDesk.Proofs.RequestContract
import RobotDesk.Proofs.JobOutput
import RobotDesk.Proofs.Encoding
import RobotDesk.Proofs.FilterText
import RobotDesk.Proofs.JobListing
import RobotDesk.Proofs.JsonText
import RobotDesk.Proofs.RowText
import RobotDesk.Proofs.AssetShelf
import RobotDesk.Proofs.Deadline
import RobotDesk.Proofs.JsonSwitch
import RobotDesk.Proofs.OutputFormat
import RobotDesk.Proofs.PrintedEnvelope
import RobotDesk.Proofs.Calendar
import RobotDesk.Proofs.TimestampText
import RobotDesk.Proofs.NumeralText
import RobotDesk.Proofs.JsonReading
import RobotDesk.Proofs.NormalForm
import RobotDesk.Proofs.RecordForm
import RobotDesk.Proofs.JsonForms
import RobotDesk.Proofs.CaseVerdict
import RobotDesk.Proofs.FilterGrammar
import RobotDesk.Proofs.MarkedRequest
import RobotDesk.Proofs.PercentText
import RobotDesk.Proofs.AddressBelow
import RobotDesk.Proofs.JobAddress
import RobotDesk.Proofs.MemberMap
import RobotDesk.Proofs.Magnitude
import RobotDesk.Proofs.Documents
import RobotDesk.Proofs.DifferenceWalk
import RobotDesk.Proofs.Comparison
import RobotDesk.Proofs.DifferencePlaces
import RobotDesk.Proofs.ArgumentText
import RobotDesk.Proofs.ReadAgreement
import RobotDesk.Proofs.Lifetime
import RobotDesk.Proofs.ReceivedTime
import RobotDesk.Proofs.ResponseMeaning
import RobotDesk.Proofs.TimeRange
import RobotDesk.Proofs.SideBySide
import RobotDesk.Proofs.ArgumentWords
import RobotDesk.Proofs.JobArguments
