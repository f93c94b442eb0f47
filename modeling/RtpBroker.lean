import RtpBroker.LatencyClass
import RtpBroker.Main
import RtpBroker.StreamReport
import RtpBroker.Proofs.EvenPorts
import RtpBroker.Proofs.Contention
import RtpBroker.Proofs.PortExclusion
import RtpBroker.Proofs.SessionMoves
import RtpBroker.Proofs.Posts
import RtpBroker.Proofs.BrokerMoves
import RtpBroker.Proofs.PortConservation
import RtpBroker.Proofs.Conditions
import RtpBroker.Proofs.ExchangeRun
import RtpBroker.Proofs.Records
import RtpBroker.Proofs.Chronicle
import RtpBroker.Proofs.Annals
import RtpBroker.Proofs.Punctual
import RtpBroker.Proofs.Runs
import RtpBroker.Proofs.Causes
import RtpBroker.Proofs.Outcomes
import RtpBroker.Proofs.Slots
import RtpBroker.Proofs.SingleStream
import RtpBroker.Proofs.Changes
import RtpBroker.Proofs.Evolution
import RtpBroker.Proofs.StatusHistory
import RtpBroker.Proofs.Endings
import RtpBroker.Proofs.Standings
import RtpBroker.Proofs.AudioFiles
import RtpBroker.Proofs.Tallies
import RtpBroker.Proofs.Accounting
import RtpBroker.Proofs.Teardown
import RtpBroker.Proofs.Release
import RtpBroker.Proofs.Completion
import RtpBroker.Proofs.Maturity
import RtpBroker.Proofs.Routines
import RtpBroker.Proofs.FirstSender
import RtpBroker.Proofs.Lines
import RtpBroker.Proofs.Encoding
import RtpBroker.Proofs.Inquiry
import RtpBroker.Proofs.Acceptance
import RtpBroker.Proofs.Demands
import RtpBroker.Proofs.Ownership
import RtpBroker.Proofs.Narrowing
import RtpBroker.Proofs.Mirrors
import RtpBroker.Proofs.Lagging
import RtpBroker.Proofs.Isolation
import RtpBroker.Proofs.Admission
import RtpBroker.Proofs.LazyDraining
import RtpBroker.Proofs.StreamOrder
import RtpBroker.Proofs.Shutdown
import RtpBroker.Proofs.FirstFree
import RtpBroker.Proofs.RequestSeries
import RtpBroker.Proofs.IdleSweep
import RtpBroker.Proofs.JsonForms
import RtpBroker.Proofs.Opening
import RtpBroker.Proofs.Activity
import RtpBroker.Proofs.Retiring
import RtpBroker.Proofs.Reapers
import RtpBroker.Proofs.SweepTimes
import RtpBroker.Proofs.Retention
import RtpBroker.Proofs.Undisturbed
import RtpBroker.Proofs.Instants
import RtpBroker.Proofs.LookTimes
import RtpBroker.Proofs.WaitTimes
import RtpBroker.Proofs.Strangers
import RtpBroker.Proofs.WaitOutcomes
import RtpBroker.Proofs.ExactWaits
import RtpBroker.Proofs.NumberTexts
import RtpBroker.Proofs.Overrides
import RtpBroker.Proofs.Origins
import RtpBroker.Proofs.Provenance
import RtpBroker.Proofs.PruneExact
import RtpBroker.Proofs.FileNames
import RtpBroker.Proofs.Payloads
import RtpBroker.Proofs.Extensions
import RtpBroker.Proofs.Directives
import RtpBroker.Proofs.Crowding
import RtpBroker.Proofs.BindAddresses
