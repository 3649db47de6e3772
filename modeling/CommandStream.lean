import CommandStream.Blob.Basic
import CommandStream.Blob.Digest
import CommandStream.Blob.Header
import CommandStream.Compute
import CommandStream.Console.Arguments
import CommandStream.Console.Session
import CommandStream.Description
import CommandStream.Fault
import CommandStream.FileStore
import CommandStream.Hardware
import CommandStream.Json.Basic
import CommandStream.Json.Lexer
import CommandStream.Json.Printer
import CommandStream.Json.Reader
import CommandStream.Json.Shape
import CommandStream.Layer
import CommandStream.Main
import CommandStream.Optimize.Balance
import CommandStream.Optimize.Batch
import CommandStream.Optimize.Merge
import CommandStream.Optimize.Pipeline
import CommandStream.Optimize.Roll
import CommandStream.Optimize.Spread
import CommandStream.Optimize.Validity
import CommandStream.Proofs.AllOrNothing
import CommandStream.Proofs.BalancedRuns
import CommandStream.Proofs.BatchMeaning
import CommandStream.Proofs.BlobExtent
import CommandStream.Proofs.BlobLayout
import CommandStream.Proofs.BlobRoundTrip
import CommandStream.Proofs.BlockFormation
import CommandStream.Proofs.Charges
import CommandStream.Proofs.ComputeSide
import CommandStream.Proofs.Conservation
import CommandStream.Proofs.DescriptionRoundTrip
import CommandStream.Proofs.Dispatch
import CommandStream.Proofs.DynamicExtents
import CommandStream.Proofs.Gathering
import CommandStream.Proofs.GuardedReading
import CommandStream.Proofs.JsonTokens
import CommandStream.Proofs.LayerIsolation
import CommandStream.Proofs.LayerValidity
import CommandStream.Proofs.LoopExpansion
import CommandStream.Proofs.LoopRecovery
import CommandStream.Proofs.LoopRolling
import CommandStream.Proofs.MarkerChecks
import CommandStream.Proofs.Markers
import CommandStream.Proofs.MaskMoves
import CommandStream.Proofs.MaskRange
import CommandStream.Proofs.MergeAgain
import CommandStream.Proofs.MergeArithmetic
import CommandStream.Proofs.MergeMeaning
import CommandStream.Proofs.MergeNormalForm
import CommandStream.Proofs.MergeOverflow
import CommandStream.Proofs.MergedStreams
import CommandStream.Proofs.MultiplierShift
import CommandStream.Proofs.Neighbours
import CommandStream.Proofs.Outcomes
import CommandStream.Proofs.PackedRuns
import CommandStream.Proofs.PipelineFaults
import CommandStream.Proofs.PipelineMeaning
import CommandStream.Proofs.Placement
import CommandStream.Proofs.Plans
import CommandStream.Proofs.RecordGrammar
import CommandStream.Proofs.RecordRoundTrip
import CommandStream.Proofs.Recording
import CommandStream.Proofs.RegisterWindows
import CommandStream.Proofs.RegularTransfers
import CommandStream.Proofs.Reordering
import CommandStream.Proofs.RepeatedTransfers
import CommandStream.Proofs.RollMeaning
import CommandStream.Proofs.RolledRuns
import CommandStream.Proofs.SettingsReading
import CommandStream.Proofs.SettingsValues
import CommandStream.Proofs.SortedRuns
import CommandStream.Proofs.SpreadAcceptance
import CommandStream.Proofs.SpreadMeaning
import CommandStream.Proofs.Spreading
import CommandStream.Proofs.StatedTransfers
import CommandStream.Proofs.StoreRotation
import CommandStream.Proofs.StoreSpans
import CommandStream.Proofs.StreamCounts
import CommandStream.Proofs.StreamMeaning
import CommandStream.Proofs.TextLines
import CommandStream.Proofs.TransferSizes
import CommandStream.Proofs.TurnOrder
import CommandStream.Proofs.WordMoves
import CommandStream.Record.Codec
import CommandStream.Record.Layout
import CommandStream.Schedule.Context
import CommandStream.Schedule.Plan
import CommandStream.Schedule.Primitive
import CommandStream.Schedule.Recorder
import CommandStream.Schedule.Run
import CommandStream.Segment.Basic
import CommandStream.Segment.Block
import CommandStream.Segment.Listing
import CommandStream.Segment.Run
import CommandStream.Settings.Basic
import CommandStream.Settings.Load
import CommandStream.Settings.Reader
import CommandStream.Text.Blank
import CommandStream.Text.Number
import CommandStream.Transfer.Basic
import CommandStream.Transfer.Loop
import CommandStream.Word.Checked
import CommandStream.Word.Mask
import CommandStream.Word.Order
