import FederatedEdge.Client.Accesses
import FederatedEdge.Client.BackPropagation
import FederatedEdge.Client.FeedFoward
import FederatedEdge.Client.GlobalModel
import FederatedEdge.Client.Gradient
import FederatedEdge.Client.HttpClient
import FederatedEdge.Client.Learning
import FederatedEdge.Client.Loss
import FederatedEdge.Client.NeuralNetworkTraining
import FederatedEdge.Client.Provenance
import FederatedEdge.Client.State
import FederatedEdge.Client.TrainedModels
import FederatedEdge.Client.Training
import FederatedEdge.Client.Turns
import FederatedEdge.Dataset.DatasetSpliter
import FederatedEdge.Dataset.Loader
import FederatedEdge.Dataset.Numerals
import FederatedEdge.Dataset.PrintedNumerals
import FederatedEdge.Dataset.RecordLoaders
import FederatedEdge.Dataset.Records
import FederatedEdge.Dataset.WineToCsv
import FederatedEdge.Federation.AfterLastRound
import FederatedEdge.Federation.Averages
import FederatedEdge.Federation.ConfiguredForms
import FederatedEdge.Federation.Contributions
import FederatedEdge.Federation.Divisors
import FederatedEdge.Federation.Identities
import FederatedEdge.Federation.Leaving
import FederatedEdge.Federation.Messages
import FederatedEdge.Federation.Permissions
import FederatedEdge.Federation.PrintedModels
import FederatedEdge.Federation.Publications
import FederatedEdge.Federation.Reassembly
import FederatedEdge.Federation.Registrations
import FederatedEdge.Federation.Reordering
import FederatedEdge.Federation.Sessions
import FederatedEdge.Federation.System
import FederatedEdge.Federation.TrainingRounds
import FederatedEdge.Fpga.AbsorbedTerm
import FederatedEdge.Fpga.Accumulator
import FederatedEdge.Fpga.Adder
import FederatedEdge.Fpga.AdderBounds
import FederatedEdge.Fpga.AdderRounding
import FederatedEdge.Fpga.AdderSpecial
import FederatedEdge.Fpga.Alu
import FederatedEdge.Fpga.Compare
import FederatedEdge.Fpga.Division
import FederatedEdge.Fpga.Exponential
import FederatedEdge.Fpga.ExponentialSeries
import FederatedEdge.Fpga.ExponentialSums
import FederatedEdge.Fpga.ExponentialTerms
import FederatedEdge.Fpga.Feedforward
import FederatedEdge.Fpga.MemoryPort
import FederatedEdge.Fpga.Miscellaneous
import FederatedEdge.Fpga.Multiplier
import FederatedEdge.Fpga.MultiplierRounding
import FederatedEdge.Fpga.Neuron
import FederatedEdge.Fpga.Number
import FederatedEdge.Fpga.Parts
import FederatedEdge.Fpga.Quotient
import FederatedEdge.Fpga.Reciprocal
import FederatedEdge.Fpga.RepeatedTerm
import FederatedEdge.Fpga.Softmax
import FederatedEdge.Fpga.SoftmaxLayer
import FederatedEdge.Fpga.Transactions
import FederatedEdge.Fpga.Weights
import FederatedEdge.Json.ArrivedTexts
import FederatedEdge.Json.BracketedTexts
import FederatedEdge.Json.CJson
import FederatedEdge.Json.CompleteModel
import FederatedEdge.Json.Completeness
import FederatedEdge.Json.Converter
import FederatedEdge.Json.Double
import FederatedEdge.Json.Grammar
import FederatedEdge.Json.Items
import FederatedEdge.Json.ModelTexts
import FederatedEdge.Json.NonFinite
import FederatedEdge.Json.Numbers
import FederatedEdge.Json.Parser
import FederatedEdge.Json.PrintedText
import FederatedEdge.Json.Printer
import FederatedEdge.Json.Rendering
import FederatedEdge.Json.RoundTrip
import FederatedEdge.Json.SecondTrip
import FederatedEdge.Json.Spellings
import FederatedEdge.Json.StringLiterals
import FederatedEdge.Json.TextLengths
import FederatedEdge.Json.Trees
import FederatedEdge.Library.Arena
import FederatedEdge.Library.BinaryRounding
import FederatedEdge.Library.Buffers
import FederatedEdge.Library.CStrings
import FederatedEdge.Library.CText
import FederatedEdge.Library.Clocked
import FederatedEdge.Library.HeapQueue
import FederatedEdge.Library.LineReader
import FederatedEdge.Library.LinkedList
import FederatedEdge.Library.LinkedListAppend
import FederatedEdge.Library.LinkedListLinks
import FederatedEdge.Library.NearestEven
import FederatedEdge.Library.Nesting
import FederatedEdge.Library.NewtonReciprocal
import FederatedEdge.Library.Outcomes
import FederatedEdge.Library.Path
import FederatedEdge.Library.Printf
import FederatedEdge.Library.RoundBarrier
import FederatedEdge.Library.SignificantDigits
import FederatedEdge.Library.WeightedMean
import FederatedEdge.Library.WrappedSum
import FederatedEdge.Network.Averaging
import FederatedEdge.Network.Content
import FederatedEdge.Network.Decoded
import FederatedEdge.Network.Form
import FederatedEdge.Network.Links
import FederatedEdge.Network.Memory
import FederatedEdge.Network.Position
import FederatedEdge.Network.Runnable
import FederatedEdge.Network.Structure
import FederatedEdge.Server.Acceptance
import FederatedEdge.Server.Aggregation
import FederatedEdge.Server.Construction
import FederatedEdge.Server.Control
import FederatedEdge.Server.Copies
import FederatedEdge.Server.Handlers
import FederatedEdge.Server.HttpServer
import FederatedEdge.Server.Initialization
import FederatedEdge.Server.Ledger
import FederatedEdge.Server.MessageBuffer
import FederatedEdge.Server.PerformanceMetrics
import FederatedEdge.Server.Reachable
import FederatedEdge.Server.ReceivedJson
import FederatedEdge.Server.Requests
import FederatedEdge.Server.State
import FederatedEdge.Server.WebSocketServer
