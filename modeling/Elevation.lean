import Elevation.Main
import Elevation.Proofs.Launch.Effects
import Elevation.Proofs.Launch.Listening
import Elevation.Proofs.Launch.Delivery
import Elevation.Proofs.Launch.Settlement
import Elevation.Proofs.Config.Loading
import Elevation.Proofs.Run.Escalation
import Elevation.Proofs.Run.History
import Elevation.Proofs.Run.Ending
import Elevation.Proofs.Run.Transparency
import Elevation.Proofs.Path.Normal
import Elevation.Proofs.SearchPath.Resolution
import Elevation.Proofs.Config.Conformance
import Elevation.Proofs.Text.Utf8
import Elevation.Proofs.Yaml.Quoting
import Elevation.Proofs.Yaml.Written
import Elevation.Proofs.Yaml.WrittenTree
import Elevation.Proofs.Yaml.WrittenValue
import Elevation.Proofs.Config.RoundTrip
import Elevation.Proofs.FileSystem.Walk
import Elevation.Proofs.SearchPath.FirstMatch
import Elevation.Proofs.Launch.Records
import Elevation.Proofs.Run.Trace
import Elevation.Proofs.Yaml.FieldOrder
import Elevation.Proofs.Yaml.DocumentOrder
import Elevation.Proofs.Config.Diagnosis
import Elevation.Proofs.Failure
