import SpinHub.Block
import SpinHub.Build
import SpinHub.Bytecode.Access
import SpinHub.Bytecode.Push
import SpinHub.Bytecode.Stream
import SpinHub.Clock
import SpinHub.Code.Draft
import SpinHub.Code.Expression
import SpinHub.Code.Method
import SpinHub.Code.Statement
import SpinHub.CommandLine.Directory
import SpinHub.CommandLine.Listing
import SpinHub.CommandLine.Options
import SpinHub.CommandLine.Path
import SpinHub.CommandLine.Plan
import SpinHub.Compilation
import SpinHub.Config
import SpinHub.Container
import SpinHub.Dat.Cursor
import SpinHub.Dat.Instruction
import SpinHub.Dat.Section
import SpinHub.Document.Names
import SpinHub.Document.Reader
import SpinHub.Document.Shape
import SpinHub.Document.Writer
import SpinHub.Duplicates
import SpinHub.Error
import SpinHub.Evaluation
import SpinHub.Image
import SpinHub.Json
import SpinHub.Json.Parser
import SpinHub.Json.Printer
import SpinHub.Json.Token
import SpinHub.Layout.Instances
import SpinHub.Layout.Slots
import SpinHub.Layout.Variables
import SpinHub.Main
import SpinHub.Name
import SpinHub.Numeral
import SpinHub.Object
import SpinHub.Operator
import SpinHub.Proofs.AddressableFrames
import SpinHub.Proofs.ArgumentCounts
import SpinHub.Proofs.BareNames
import SpinHub.Proofs.BlockLayout
import SpinHub.Proofs.BootEntry
import SpinHub.Proofs.Bytes
import SpinHub.Proofs.CallOperands
import SpinHub.Proofs.CaseInsensitive
import SpinHub.Proofs.ClosedStreams
import SpinHub.Proofs.CodeInStep
import SpinHub.Proofs.CogAddresses
import SpinHub.Proofs.CompleteSharing
import SpinHub.Proofs.ContainerBodies
import SpinHub.Proofs.CountedSlots
import SpinHub.Proofs.DatPasses
import SpinHub.Proofs.DatPayloads
import SpinHub.Proofs.DatPlacing
import SpinHub.Proofs.DeclaredNames
import SpinHub.Proofs.DocumentReading
import SpinHub.Proofs.DocumentShapes
import SpinHub.Proofs.DraftInvariants
import SpinHub.Proofs.EvaluationFaults
import SpinHub.Proofs.FoldedExpressions
import SpinHub.Proofs.ForwardLinks
import SpinHub.Proofs.Frames
import SpinHub.Proofs.HubAddresses
import SpinHub.Proofs.ImageLayout
import SpinHub.Proofs.ImageWords
import SpinHub.Proofs.IncludeGraph
import SpinHub.Proofs.IncludedFiles
import SpinHub.Proofs.InstanceSlots
import SpinHub.Proofs.InstanceStorage
import SpinHub.Proofs.Invocations
import SpinHub.Proofs.JsonText
import SpinHub.Proofs.JumpReach
import SpinHub.Proofs.KeptStorage
import SpinHub.Proofs.KeyedBuilds
import SpinHub.Proofs.KeyedDat
import SpinHub.Proofs.KeyedEvaluation
import SpinHub.Proofs.KeyedImages
import SpinHub.Proofs.KeyedNames
import SpinHub.Proofs.KeyedRegistration
import SpinHub.Proofs.KeyedStatements
import SpinHub.Proofs.LeastWidths
import SpinHub.Proofs.LoopExits
import SpinHub.Proofs.MemoizedConstants
import SpinHub.Proofs.MemoryMap
import SpinHub.Proofs.ObjectLayout
import SpinHub.Proofs.PackedVariables
import SpinHub.Proofs.ParallelRuns
import SpinHub.Proofs.Phases
import SpinHub.Proofs.PushForms
import SpinHub.Proofs.ReadableAccesses
import SpinHub.Proofs.ReadableContainers
import SpinHub.Proofs.Registered
import SpinHub.Proofs.RepeatedSteps
import SpinHub.Proofs.RootSurvives
import SpinHub.Proofs.Runs
import SpinHub.Proofs.SerializedSections
import SpinHub.Proofs.SettledStreams
import SpinHub.Proofs.SettlingRounds
import SpinHub.Proofs.SharedImages
import SpinHub.Proofs.SharedObjects
import SpinHub.Proofs.ShortestPushes
import SpinHub.Proofs.StableEvaluation
import SpinHub.Proofs.SteadySteps
import SpinHub.Proofs.Subscripts
import SpinHub.Proofs.SymbolTables
import SpinHub.Proofs.TiledFrames
import SpinHub.Registration
import SpinHub.Scope
import SpinHub.Single
import SpinHub.Single.Reading
import SpinHub.Single.Shortest
import SpinHub.Syntax
import SpinHub.Text.Combining
import SpinHub.Text.Ignorable
import SpinHub.Text.Ranges
import SpinHub.Text.Unprintable
import SpinHub.Value
import SpinHub.Word
