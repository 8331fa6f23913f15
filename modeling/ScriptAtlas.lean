import ScriptAtlas.Main
import ScriptAtlas.Proofs.FunctionIndex
import ScriptAtlas.Proofs.CycleSoundness
import ScriptAtlas.Proofs.CycleCompleteness
import ScriptAtlas.Proofs.CanonicalPath
import ScriptAtlas.Proofs.GraphConstruction
import ScriptAtlas.Proofs.DependencyList
import ScriptAtlas.Proofs.CallDirections
import ScriptAtlas.Proofs.PathJoin
import ScriptAtlas.Proofs.ImporterDirectory
import ScriptAtlas.Proofs.Relocation
import ScriptAtlas.Proofs.ReportContents
import ScriptAtlas.Proofs.OrphanRoots
import ScriptAtlas.Proofs.GraphInclusion
import ScriptAtlas.Proofs.FileLookup
import ScriptAtlas.Proofs.AddressingModes
import ScriptAtlas.Proofs.CycleDistinctness
import ScriptAtlas.Proofs.NestedComplexity
import ScriptAtlas.Proofs.SourceCollection
import ScriptAtlas.Proofs.ExtensionSpelling
import ScriptAtlas.Proofs.AppendedFiles
import ScriptAtlas.Proofs.ReportRebuilding
import ScriptAtlas.Proofs.ReaderRuns
import ScriptAtlas.Proofs.TextLiterals
import ScriptAtlas.Proofs.JsonSpelling
import ScriptAtlas.Proofs.ValueReading
import ScriptAtlas.Proofs.PrettyText
import ScriptAtlas.Proofs.RecordRoundTrip
import ScriptAtlas.Proofs.ManifestReading
import ScriptAtlas.Proofs.ManifestShape
import ScriptAtlas.Proofs.CanonicalForm
import ScriptAtlas.Proofs.PathSpelling
import ScriptAtlas.Proofs.CallerAttribution
import ScriptAtlas.Proofs.RegularGrammar
import ScriptAtlas.Proofs.ModuleMentions
import ScriptAtlas.Proofs.HubOrder
import ScriptAtlas.Proofs.ClimbingNames
import ScriptAtlas.Proofs.CycleRecursion
import ScriptAtlas.Proofs.KeywordSets
import ScriptAtlas.Proofs.ComplexityRanking
import ScriptAtlas.Proofs.SpanNesting
import ScriptAtlas.Proofs.EntryPointNames
import ScriptAtlas.Proofs.NamedPlaces
import ScriptAtlas.Proofs.WalkedSources
import ScriptAtlas.Proofs.PlainText
import ScriptAtlas.Proofs.GivenPaths
import ScriptAtlas.Proofs.ParallelWork
import ScriptAtlas.Proofs.DistinctKeys
import ScriptAtlas.Proofs.DocumentSettings
import ScriptAtlas.Proofs.CycleTurns
import ScriptAtlas.Proofs.ValuePlaces
