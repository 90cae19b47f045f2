import LayeredFix.Layer.Standard
import LayeredFix.Log.Journal
import LayeredFix.Proofs.Run.KeyBytes
import LayeredFix.Proofs.Run.Outcome
import LayeredFix.Proofs.Text.Utf8
import LayeredFix.Run.Service
import LayeredFix.Settings.Basic
import LayeredFix.Trace.Program
import LayeredFix.Version
import LayeredFix.Proofs.Run.History
import LayeredFix.Proofs.Run.Transparency
import LayeredFix.Proofs.Check.SafeChange
import LayeredFix.Proofs.Run.Omission
import LayeredFix.Proofs.Run.Safety
import LayeredFix.Proofs.Entity.Rewriting
import LayeredFix.Proofs.Entity.Scan
import LayeredFix.Proofs.Entity.Collapse
import LayeredFix.Proofs.Entity.Decoder
import LayeredFix.Proofs.Component.Apart
import LayeredFix.Proofs.Component.FixedPoint
import LayeredFix.Proofs.Guard.FixedPoint
import LayeredFix.Proofs.Json.Numeral
import LayeredFix.Proofs.Json.Proper
import LayeredFix.Proofs.Json.RoundTrip
import LayeredFix.Proofs.Config.Fields
import LayeredFix.Proofs.Config.FixedPoint
import LayeredFix.Proofs.Config.Merging
import LayeredFix.Proofs.Run.Documents
import LayeredFix.Proofs.Run.Imports
import LayeredFix.Proofs.Convention.FixedPoint
import LayeredFix.Proofs.Check.Reasons
import LayeredFix.Proofs.Run.Chain
import LayeredFix.Proofs.Run.Expiry
import LayeredFix.Proofs.Run.Mirror
import LayeredFix.Proofs.Trace.Restoring
import LayeredFix.Proofs.Hardening.FixedPoint
import LayeredFix.Proofs.Hardening.Count
import LayeredFix.Proofs.Run.Log
import LayeredFix.Proofs.Trace.Nesting
import LayeredFix.Proofs.Entity.Free
import LayeredFix.Proofs.Entity.Rounds
import LayeredFix.Proofs.Entity.Escaping
import LayeredFix.Proofs.Guard.Entities
import LayeredFix.Proofs.Guard.Insertion
import LayeredFix.Proofs.Guard.Scope
import LayeredFix.Proofs.Component.AltText
import LayeredFix.Proofs.Component.SecondKey
import LayeredFix.Proofs.Run.Settled
import LayeredFix.Proofs.Run.Distance
import LayeredFix.Proofs.Layer.Registry
import LayeredFix.Proofs.Layer.Swaps
import LayeredFix.Proofs.Run.TimedMap
import LayeredFix.Proofs.Convention.Collapse
import LayeredFix.Proofs.Convention.Repeated
import LayeredFix.Proofs.Hardening.Terminated
import LayeredFix.Proofs.Run.Leading
import LayeredFix.Proofs.Check.Verdict
import LayeredFix.Proofs.Hardening.Preserving
import LayeredFix.Proofs.Hardening.LineLocal
import LayeredFix.Proofs.Hardening.WholeBody
import LayeredFix.Proofs.Hardening.Pairing
import LayeredFix.Proofs.Settings.Discovery
import LayeredFix.Proofs.Check.Conflicts
import LayeredFix.Proofs.Check.Shapes
import LayeredFix.Proofs.Settings.Priority
