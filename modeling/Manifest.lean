import Manifest.Main
import Manifest.Pattern.Replacement
import Manifest.Proofs.Pipeline
import Manifest.Proofs.Plugin.CrossLayer
import Manifest.Proofs.Reference.Integrity
import Manifest.Proofs.Plugin.Anticipation
import Manifest.Proofs.FieldPath.Compared
import Manifest.Proofs.Reference.Order
import Manifest.Proofs.ContentName.Input
import Manifest.Proofs.Pipeline.Validity
import Manifest.Proofs.Store.History
import Manifest.Proofs.FieldPath.Pointwise
import Manifest.Proofs.Pipeline.Generation
import Manifest.Proofs.Tree.Growth
import Manifest.Proofs.FieldPath.Growth
import Manifest.Proofs.Plugin.Variables
import Manifest.Proofs.Json.NumberText
import Manifest.Proofs.Json.RoundTrip
import Manifest.Proofs.FieldPath.Creating
import Manifest.Proofs.Text.Base64
import Manifest.Proofs.EncodedField
import Manifest.Proofs.Plugin.SearchReplace
import Manifest.Proofs.Reference.Runs
import Manifest.Proofs.Reference.Again
import Manifest.Proofs.Plugin.Repetition
import Manifest.Proofs.Tree.Merge
import Manifest.Proofs.Yaml.Value
import Manifest.Proofs.Plugin.SelectivePatch
import Manifest.Proofs.Pattern.Replacement
import Manifest.Proofs.Decimal.Rounding
import Manifest.Proofs.Decimal.Shortest
import Manifest.Proofs.Decimal.RoundTrip
import Manifest.Proofs.Plugin.Insertion
import Manifest.Proofs.Tree.MergedTwice
import Manifest.Proofs.ContentName.Volatile
import Manifest.Proofs.FieldPath.Completing
import Manifest.Proofs.Plugin.ImageReference
import Manifest.Proofs.Plugin.ContainerImages
import Manifest.Proofs.Plugin.FullPath
import Manifest.Proofs.FieldPath.Rendering
import Manifest.Proofs.Plugin.GeneratedName
import Manifest.Proofs.Plugin.MapData
import Manifest.Proofs.Reference.RuleFile
import Manifest.Proofs.Reference.RunByRun
import Manifest.Proofs.Selection
import Manifest.Proofs.Loading
import Manifest.Proofs.Reference.Template
import Manifest.Proofs.FilePath.Normal
