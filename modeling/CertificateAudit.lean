import CertificateAudit.Audit.Event
import CertificateAudit.Audit.Run
import CertificateAudit.Audit.World
import CertificateAudit.Calendar.Date
import CertificateAudit.Calendar.Pattern
import CertificateAudit.Candidate
import CertificateAudit.Certificate.Access
import CertificateAudit.Certificate.Basic
import CertificateAudit.Certificate.Container
import CertificateAudit.Certificate.Name
import CertificateAudit.Chunks
import CertificateAudit.CommandLine.Basic
import CertificateAudit.CommandLine.Reader
import CertificateAudit.Der.Charset
import CertificateAudit.Der.Clock
import CertificateAudit.Der.Element
import CertificateAudit.Der.Header
import CertificateAudit.Der.Item
import CertificateAudit.Der.Number
import CertificateAudit.Der.ObjectId
import CertificateAudit.Digest.Sha1
import CertificateAudit.Http.Client
import CertificateAudit.Http.Message
import CertificateAudit.Http.Script
import CertificateAudit.Http.Status
import CertificateAudit.Json.Basic
import CertificateAudit.Json.Printer
import CertificateAudit.Json.Reader
import CertificateAudit.Log.Client
import CertificateAudit.Main
import CertificateAudit.Ocsp.Request
import CertificateAudit.Ocsp.Response
import CertificateAudit.Ocsp.Status
import CertificateAudit.Pem.Base64
import CertificateAudit.Pem.Block
import CertificateAudit.Pem.Certificate
import CertificateAudit.Program.Basic
import CertificateAudit.Program.Terminal
import CertificateAudit.Proofs.Audit.Acceptance
import CertificateAudit.Proofs.Audit.Backing
import CertificateAudit.Proofs.Audit.Conversation
import CertificateAudit.Proofs.Audit.Course
import CertificateAudit.Proofs.Audit.Dates
import CertificateAudit.Proofs.Audit.Repetition
import CertificateAudit.Proofs.Audit.Report
import CertificateAudit.Proofs.Audit.Requests
import CertificateAudit.Proofs.Audit.RunCourse
import CertificateAudit.Proofs.Audit.Simulation
import CertificateAudit.Proofs.Audit.Steps
import CertificateAudit.Proofs.Audit.Trace
import CertificateAudit.Proofs.Audit.Transparency
import CertificateAudit.Proofs.Calendar.Compact
import CertificateAudit.Proofs.Calendar.Stamp
import CertificateAudit.Proofs.Calendar.Text
import CertificateAudit.Proofs.Calendar.TimeStamp
import CertificateAudit.Proofs.Certificate.Access
import CertificateAudit.Proofs.Certificate.Extensions
import CertificateAudit.Proofs.Certificate.Fields
import CertificateAudit.Proofs.Certificate.Outline
import CertificateAudit.Proofs.CommandLine.Json
import CertificateAudit.Proofs.Der.Clock
import CertificateAudit.Proofs.Der.Delimited
import CertificateAudit.Proofs.Der.Encoding
import CertificateAudit.Proofs.Der.Extent
import CertificateAudit.Proofs.Der.Number
import CertificateAudit.Proofs.Der.ObjectId
import CertificateAudit.Proofs.Der.Splitting
import CertificateAudit.Proofs.Der.Strict
import CertificateAudit.Proofs.Der.Tagging
import CertificateAudit.Proofs.Der.Value
import CertificateAudit.Proofs.Http.Failure
import CertificateAudit.Proofs.Json.Grammar
import CertificateAudit.Proofs.Json.Printing
import CertificateAudit.Proofs.Json.Reading
import CertificateAudit.Proofs.Json.Whole
import CertificateAudit.Proofs.Log.Listing
import CertificateAudit.Proofs.Ocsp.Encoding
import CertificateAudit.Proofs.Ocsp.Origin
import CertificateAudit.Proofs.Ocsp.Question
import CertificateAudit.Proofs.Ocsp.RoundTrip
import CertificateAudit.Proofs.Ocsp.Selection
import CertificateAudit.Proofs.Ocsp.SerialNumbers
import CertificateAudit.Proofs.Ocsp.Status
import CertificateAudit.Proofs.Ocsp.Time
import CertificateAudit.Proofs.Ocsp.Truncation
import CertificateAudit.Proofs.Pem.Base64
import CertificateAudit.Proofs.Pem.Block
import CertificateAudit.Proofs.Pem.Certificate
import CertificateAudit.Proofs.Program.Lines
import CertificateAudit.Proofs.Program.Outcome
import CertificateAudit.Proofs.Program.Settings
import CertificateAudit.Proofs.Report.DateText
import CertificateAudit.Proofs.Report.Reading
import CertificateAudit.Proofs.Report.VerdictText
import CertificateAudit.Proofs.Revocation.FirstIssuer
import CertificateAudit.Proofs.Revocation.SecondReading
import CertificateAudit.Proofs.Settings.Overlay
import CertificateAudit.Proofs.Store.Containment
import CertificateAudit.Proofs.Store.Directories
import CertificateAudit.Proofs.Store.Effect
import CertificateAudit.Proofs.Store.Escape
import CertificateAudit.Proofs.Store.FileTree
import CertificateAudit.Proofs.Store.Path
import CertificateAudit.Proofs.Store.Repetition
import CertificateAudit.Proofs.Store.Reruns
import CertificateAudit.Proofs.Store.Save
import CertificateAudit.Proofs.Store.Separation
import CertificateAudit.Proofs.Store.Way
import CertificateAudit.Proofs.Text.Ascii
import CertificateAudit.Proofs.Text.Decimal
import CertificateAudit.Proofs.Text.Lines
import CertificateAudit.Proofs.Text.Pieces
import CertificateAudit.Proofs.Text.RawText
import CertificateAudit.Proofs.Text.Utf8
import CertificateAudit.Proofs.Toml.Building
import CertificateAudit.Proofs.Toml.Change
import CertificateAudit.Proofs.Toml.Document
import CertificateAudit.Proofs.Toml.Grammar
import CertificateAudit.Proofs.Toml.Numbers
import CertificateAudit.Proofs.Toml.Outline
import CertificateAudit.Proofs.Toml.Places
import CertificateAudit.Proofs.Toml.Strings
import CertificateAudit.Proofs.Toml.Values
import CertificateAudit.Proofs.Toml.Writings
import CertificateAudit.Proofs.Traversal
import CertificateAudit.Proofs.Url.Controls
import CertificateAudit.Report
import CertificateAudit.Revocation.Check
import CertificateAudit.Revocation.Issuer
import CertificateAudit.Settings
import CertificateAudit.Settings.File
import CertificateAudit.Store.FileTree
import CertificateAudit.Store.Path
import CertificateAudit.Store.Save
import CertificateAudit.Text.Blank
import CertificateAudit.Text.Decimal
import CertificateAudit.Text.Hex
import CertificateAudit.Text.RawText
import CertificateAudit.Text.Utf8
import CertificateAudit.Toml.Basic
import CertificateAudit.Toml.Reader
import CertificateAudit.Toml.Scalar
import CertificateAudit.Url.Basic
import CertificateAudit.Url.Escape
import CertificateAudit.Url.Host
import CertificateAudit.Url.Punycode
import CertificateAudit.Verdict
