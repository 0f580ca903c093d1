import Gazetteer.Bytes.BigEndian
import Gazetteer.Bytes.Buffer
import Gazetteer.Bytes.Checksum
import Gazetteer.CommandLine.Grammar
import Gazetteer.CommandLine.Request
import Gazetteer.CommandLine.Run
import Gazetteer.Database.Basic
import Gazetteer.Database.Query
import Gazetteer.Database.Summary
import Gazetteer.Draft.Basic
import Gazetteer.Draft.Intake
import Gazetteer.Error
import Gazetteer.Event
import Gazetteer.Files.Basic
import Gazetteer.Files.Disk
import Gazetteer.Files.Path
import Gazetteer.Files.Save
import Gazetteer.Geodesy.Ellipsoid
import Gazetteer.Geodesy.Metric
import Gazetteer.Geodesy.Native
import Gazetteer.Geodesy.Position
import Gazetteer.Geodesy.Validity
import Gazetteer.Header
import Gazetteer.Image
import Gazetteer.Item.Airport
import Gazetteer.Item.Place
import Gazetteer.Item.Schema
import Gazetteer.Json.Number
import Gazetteer.Json.Printer
import Gazetteer.Json.Reader
import Gazetteer.Json.Token
import Gazetteer.Layout
import Gazetteer.Main
import Gazetteer.NameTable.Geometry
import Gazetteer.NameTable.Slots
import Gazetteer.Number.Binary64
import Gazetteer.Number.Reading
import Gazetteer.Number.Rounding
import Gazetteer.Number.Shortest
import Gazetteer.Number.Text
import Gazetteer.Rows
import Gazetteer.Settings.Basic
import Gazetteer.Settings.Toml
import Gazetteer.SpatialTree.Search
import Gazetteer.SpatialTree.Selection
import Gazetteer.SpatialTree.Stored
import Gazetteer.SpatialTree.Tree
import Gazetteer.Strings.Pool
import Gazetteer.Strings.Table
import Gazetteer.Text.Blank
import Gazetteer.Text.Hidden
import Gazetteer.Text.Quoted
import Gazetteer.Text.Utf8
import Gazetteer.Toml.Document
import Gazetteer.Toml.Scalar
import Gazetteer.Proofs.Reading
import Gazetteer.Proofs.Pooling
import Gazetteer.Proofs.Records
import Gazetteer.Proofs.Drafting
import Gazetteer.Proofs.Entering
import Gazetteer.Proofs.Fitting
import Gazetteer.Proofs.NameLookup
import Gazetteer.Proofs.PruneBound
import Gazetteer.Proofs.Ranking
import Gazetteer.Proofs.AnyBytes
import Gazetteer.Proofs.BurstErrors
import Gazetteer.Proofs.Parsing
import Gazetteer.Proofs.MachineWords
import Gazetteer.Proofs.FileForm
import Gazetteer.Proofs.AnyRecord
import Gazetteer.Proofs.AnyTable
import Gazetteer.Proofs.AnyFile
import Gazetteer.Proofs.AnyTree
import Gazetteer.Proofs.Walking
import Gazetteer.Proofs.SameItems
import Gazetteer.Proofs.ChangedFile
import Gazetteer.Proofs.WrittenTable
import Gazetteer.Proofs.Collecting
import Gazetteer.Proofs.PackingLimit
import Gazetteer.Proofs.Answers
import Gazetteer.Proofs.FirstRefusal
import Gazetteer.Proofs.NodeBlocks
import Gazetteer.Proofs.StoredDepth
import Gazetteer.Proofs.DiskChanges
import Gazetteer.Proofs.MedianSelection
import Gazetteer.Proofs.Saving
import Gazetteer.Proofs.Ways
import Gazetteer.Proofs.AnyOrder
import Gazetteer.Proofs.Ladders
import Gazetteer.Proofs.Separating
import Gazetteer.Proofs.Respacing
import Gazetteer.Proofs.Rejoining
import Gazetteer.Proofs.Listing
import Gazetteer.Proofs.Rewriting
import Gazetteer.Proofs.SavedSettings
import Gazetteer.Proofs.Circling
