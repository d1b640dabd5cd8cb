import GuestShare.Bytes
import GuestShare.Host.Basic
import GuestShare.Host.Contents
import GuestShare.Host.Descriptor
import GuestShare.Host.Entry
import GuestShare.Host.Path
import GuestShare.Host.Resolve
import GuestShare.Host.Tree
import GuestShare.Json.Token
import GuestShare.Json.Value
import GuestShare.Launch
import GuestShare.Main
import GuestShare.Metadata.Basic
import GuestShare.Metadata.CategoryFile
import GuestShare.Metadata.JsonFile
import GuestShare.Metadata.Ledger
import GuestShare.Metadata.Store
import GuestShare.Proofs.Host.Addition
import GuestShare.Proofs.Host.Change
import GuestShare.Proofs.Host.Count
import GuestShare.Proofs.Host.Descent
import GuestShare.Proofs.Host.Missing
import GuestShare.Proofs.Host.Nodes
import GuestShare.Proofs.Host.Parting
import GuestShare.Proofs.Host.Relocation
import GuestShare.Proofs.Host.Sight
import GuestShare.Proofs.Host.Steady
import GuestShare.Proofs.Host.Unlinked
import GuestShare.Proofs.Host.Way
import GuestShare.Proofs.Metadata.Apart
import GuestShare.Proofs.Metadata.ByCategory
import GuestShare.Proofs.Metadata.CategoryFile
import GuestShare.Proofs.Metadata.Change
import GuestShare.Proofs.Metadata.Disk
import GuestShare.Proofs.Metadata.Encoding
import GuestShare.Proofs.Metadata.Filed
import GuestShare.Proofs.Metadata.Flush
import GuestShare.Proofs.Metadata.Ledger
import GuestShare.Proofs.Metadata.Overlay
import GuestShare.Proofs.Metadata.Retry
import GuestShare.Proofs.Metadata.Subtree
import GuestShare.Proofs.Metadata.Touched
import GuestShare.Proofs.Metadata.Truncation
import GuestShare.Proofs.Outcome
import GuestShare.Proofs.Settings.Merge
import GuestShare.Proofs.Share.Act
import GuestShare.Proofs.Share.Answer
import GuestShare.Proofs.Share.Birth
import GuestShare.Proofs.Share.Boundary
import GuestShare.Proofs.Share.Calls
import GuestShare.Proofs.Share.Coherence
import GuestShare.Proofs.Share.CoherentRun
import GuestShare.Proofs.Share.ConfinedRun
import GuestShare.Proofs.Share.Confinement
import GuestShare.Proofs.Share.Deed
import GuestShare.Proofs.Share.Disturbance
import GuestShare.Proofs.Share.Durability
import GuestShare.Proofs.Share.Effect
import GuestShare.Proofs.Share.EntryNames
import GuestShare.Proofs.Share.Export
import GuestShare.Proofs.Share.Failure
import GuestShare.Proofs.Share.Footprint
import GuestShare.Proofs.Share.Hidden
import GuestShare.Proofs.Share.History
import GuestShare.Proofs.Share.Key
import GuestShare.Proofs.Share.Kinds
import GuestShare.Proofs.Share.Lasting
import GuestShare.Proofs.Share.Lifetime
import GuestShare.Proofs.Share.Listing
import GuestShare.Proofs.Share.Lookup
import GuestShare.Proofs.Share.MessageSize
import GuestShare.Proofs.Share.OwnKeys
import GuestShare.Proofs.Share.Reading
import GuestShare.Proofs.Share.Records
import GuestShare.Proofs.Share.Renaming
import GuestShare.Proofs.Share.Reopening
import GuestShare.Proofs.Share.Report
import GuestShare.Proofs.Share.Request
import GuestShare.Proofs.Share.Selection
import GuestShare.Proofs.Share.Setting
import GuestShare.Proofs.Share.Stray
import GuestShare.Proofs.Share.Targets
import GuestShare.Proofs.Share.Undisturbed
import GuestShare.Proofs.Share.Walking
import GuestShare.Proofs.Share.Whereabouts
import GuestShare.Proofs.Stream.Cut
import GuestShare.Proofs.Stream.Serve
import GuestShare.Proofs.Text.Lossy
import GuestShare.Proofs.Wire.Canonical
import GuestShare.Proofs.Wire.Exact
import GuestShare.Proofs.Wire.Fields
import GuestShare.Proofs.Wire.Frame
import GuestShare.Proofs.Wire.Layout
import GuestShare.Proofs.Wire.Reply
import GuestShare.Proofs.Wire.Request
import GuestShare.Settings.Arguments
import GuestShare.Settings.Basic
import GuestShare.Settings.File
import GuestShare.Settings.PathText
import GuestShare.Share.Attributes
import GuestShare.Share.Client
import GuestShare.Share.Error
import GuestShare.Share.Make
import GuestShare.Share.Move
import GuestShare.Share.Node
import GuestShare.Share.Open
import GuestShare.Share.Serve
import GuestShare.Share.State
import GuestShare.Share.Transfer
import GuestShare.Share.Walk
import GuestShare.Stream.Serve
import GuestShare.Stream.Socket
import GuestShare.Stream.Source
import GuestShare.Text.Digits
import GuestShare.Text.Lossy
import GuestShare.Text.Quoted
import GuestShare.Wire.Attributes
import GuestShare.Wire.Error
import GuestShare.Wire.Field
import GuestShare.Wire.Frame
import GuestShare.Wire.Layout
import GuestShare.Wire.Message
import GuestShare.Wire.Operation
import GuestShare.Wire.Qid
import GuestShare.Wire.Reader
