import NorStore.Bench.Cache
import NorStore.Bench.Device
import NorStore.Bench.Inspector
import NorStore.Bench.Manager
import NorStore.Bench.Outcome
import NorStore.Bench.Settings
import NorStore.Bench.Store
import NorStore.Cli.Command
import NorStore.Cli.Flags
import NorStore.Cli.Run
import NorStore.Cli.Volume
import NorStore.Compress.Decode
import NorStore.Compress.Encode
import NorStore.Compress.Token
import NorStore.Decimal.Binary
import NorStore.Decimal.Digits
import NorStore.Decimal.Fixed
import NorStore.Decimal.Notation
import NorStore.Decimal.Read
import NorStore.Decimal.Shortest
import NorStore.Decimal.Whole
import NorStore.Fault
import NorStore.Flash.Chip
import NorStore.Flash.Geometry
import NorStore.Health.Check
import NorStore.Health.Site
import NorStore.Identity.Record
import NorStore.Identity.Uuid
import NorStore.Inspector.Model
import NorStore.Inspector.View
import NorStore.Log.Logger
import NorStore.Log.Record
import NorStore.Main
import NorStore.Metrics.Registry
import NorStore.Profile.Basic
import NorStore.Profile.Check
import NorStore.Profile.Decode
import NorStore.Proofs.Advance
import NorStore.Proofs.Backend
import NorStore.Proofs.Bounds
import NorStore.Proofs.Cache
import NorStore.Proofs.Cells
import NorStore.Proofs.Checksum
import NorStore.Proofs.Client
import NorStore.Proofs.Codec
import NorStore.Proofs.Collection
import NorStore.Proofs.Confinement
import NorStore.Proofs.Device
import NorStore.Proofs.Flush
import NorStore.Proofs.Frame
import NorStore.Proofs.History
import NorStore.Proofs.Identity
import NorStore.Proofs.Iterate
import NorStore.Proofs.Layout
import NorStore.Proofs.Locate
import NorStore.Proofs.Meters
import NorStore.Proofs.Mount
import NorStore.Proofs.Overwrite
import NorStore.Proofs.PowerCut
import NorStore.Proofs.Profile
import NorStore.Proofs.Programmable
import NorStore.Proofs.Raises
import NorStore.Proofs.Reads
import NorStore.Proofs.Recency
import NorStore.Proofs.Refused
import NorStore.Proofs.Region
import NorStore.Proofs.Remount
import NorStore.Proofs.Ring
import NorStore.Proofs.Rotate
import NorStore.Proofs.Run
import NorStore.Proofs.Scan
import NorStore.Proofs.Search
import NorStore.Proofs.Session
import NorStore.Proofs.Settings
import NorStore.Proofs.Site
import NorStore.Proofs.Space
import NorStore.Proofs.Termination
import NorStore.Proofs.Walk
import NorStore.Proofs.Wear
import NorStore.Proofs.Whole
import NorStore.Proofs.Words
import NorStore.Proofs.Writable
import NorStore.Proofs.Write
import NorStore.Proofs.WriteBack
import NorStore.Screen.Cells
import NorStore.Screen.Key
import NorStore.Screen.LineEdit
import NorStore.Screen.Style
import NorStore.Screen.Table
import NorStore.Settings.Basic
import NorStore.Settings.Value
import NorStore.Storage.Cache
import NorStore.Storage.Manager
import NorStore.Storage.Partition
import NorStore.Storage.WriteBack
import NorStore.Store.Address
import NorStore.Store.Basic
import NorStore.Store.Checksum
import NorStore.Store.Collect
import NorStore.Store.Config
import NorStore.Store.Entry
import NorStore.Store.Iterator
import NorStore.Store.Mount
import NorStore.Store.Read
import NorStore.Store.Reset
import NorStore.Store.Usage
import NorStore.Store.Walk
import NorStore.Store.Write
import NorStore.Text.Blank
import NorStore.Text.Hex
import NorStore.Text.Printable
import NorStore.Text.Quoted
import NorStore.Text.Utf8
import NorStore.Text.Words
import NorStore.Time.Calendar
import NorStore.Time.Duration
import NorStore.Yaml.Compose
import NorStore.Yaml.Parser
import NorStore.Yaml.Resolve
import NorStore.Yaml.Scanner
import NorStore.Yaml.Token
