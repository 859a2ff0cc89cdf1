import MapCatalog.Text.Blank
import MapCatalog.Text.Case
import MapCatalog.Text.Pieces
import MapCatalog.Binary64.Basic
import MapCatalog.Binary64.Rounding
import MapCatalog.Binary64.Scientific
import MapCatalog.Binary64.Shortest
import MapCatalog.Binary64.Layout
import MapCatalog.Json.Basic
import MapCatalog.Json.Printer
import MapCatalog.Json.Reading
import MapCatalog.Json.Numeral
import MapCatalog.Json.Reader
import MapCatalog.Record.Error
import MapCatalog.Record.Decode
import MapCatalog.Record.Id
import MapCatalog.Record.Camera
import MapCatalog.Record.VisualType
import MapCatalog.Record.HoverRow
import MapCatalog.Record.Source
import MapCatalog.Record.Section
import MapCatalog.Record.Group
import MapCatalog.Record.Layer
import MapCatalog.Record.Tree
import MapCatalog.Sequence.StableSort
import MapCatalog.Style.Error
import MapCatalog.Style.Breakpoint
import MapCatalog.Style.Form
import MapCatalog.Style.Compile
import MapCatalog.Editor.LayerForm
import MapCatalog.Bytes.Sha256
import MapCatalog.Bytes.Hmac
import MapCatalog.Bytes.Base64Url
import MapCatalog.Bytes.Utf8
import MapCatalog.Sequence.Table
import MapCatalog.Auth.Time
import MapCatalog.Auth.Error
import MapCatalog.Auth.Token
import MapCatalog.Auth.Revocation
import MapCatalog.Auth.Guard
import MapCatalog.Catalog.Error
import MapCatalog.Catalog.Basic
import MapCatalog.Catalog.Edit
import MapCatalog.Catalog.Move
import MapCatalog.Catalog.Load
import MapCatalog.Catalog.Operation
import MapCatalog.Catalog.InPlace
import MapCatalog.Disk.Path
import MapCatalog.Disk.Basic
import MapCatalog.Catalog.File
import MapCatalog.Service.Method
import MapCatalog.Service.Error
import MapCatalog.Service.Route
import MapCatalog.Service.Message
import MapCatalog.Service.Basic
import MapCatalog.Toml.Moment
import MapCatalog.Toml.Scalar
import MapCatalog.Toml.Quoted
import MapCatalog.Toml.Table
import MapCatalog.Toml.Reader
import MapCatalog.Service.Settings
import MapCatalog.Text.Width
import MapCatalog.Text.Wrap
import MapCatalog.Console.Grid
import MapCatalog.Console.Overview
import MapCatalog.Console.Error
import MapCatalog.Console.Command
import MapCatalog.Console.Level
import MapCatalog.Console.Arguments
import MapCatalog.Console.Run
import MapCatalog.Main
import MapCatalog.Proofs.Catalog.Links
import MapCatalog.Proofs.Catalog.Effect
import MapCatalog.Proofs.Catalog.WellFormed
import MapCatalog.Proofs.Catalog.Loading
import MapCatalog.Proofs.Catalog.History
import MapCatalog.Proofs.Catalog.Forest
import MapCatalog.Proofs.Catalog.Listing
import MapCatalog.Proofs.Catalog.Consistency
import MapCatalog.Proofs.Catalog.Exchange
import MapCatalog.Proofs.Catalog.Frame
import MapCatalog.Proofs.Catalog.Refinement
import MapCatalog.Proofs.Catalog.Revision
import MapCatalog.Proofs.Catalog.Snapshot
import MapCatalog.Proofs.Catalog.InPlace
import MapCatalog.Proofs.Catalog.Apart
import MapCatalog.Proofs.Catalog.Deletion
import MapCatalog.Proofs.Bytes.Base64Url
import MapCatalog.Proofs.Auth.Genuine
import MapCatalog.Proofs.Auth.Revoked
import MapCatalog.Proofs.Auth.Acceptance
import MapCatalog.Proofs.Auth.Agreement
import MapCatalog.Proofs.Auth.Issued
import MapCatalog.Proofs.Service.Handling
import MapCatalog.Proofs.Service.Authorization
import MapCatalog.Proofs.Service.Sessions
import MapCatalog.Proofs.Service.Logout
import MapCatalog.Proofs.Service.History
import MapCatalog.Proofs.Service.Failures
import MapCatalog.Proofs.Style.Interpolation
import MapCatalog.Proofs.Style.Compilation
import MapCatalog.Proofs.Json.Numeral
import MapCatalog.Proofs.Json.Quotation
import MapCatalog.Proofs.Json.RoundTrip
import MapCatalog.Proofs.Bytes.Utf8
import MapCatalog.Proofs.Record.Identifier
import MapCatalog.Proofs.Record.RoundTrip
import MapCatalog.Proofs.Record.Legibility
import MapCatalog.Proofs.Catalog.Alike
import MapCatalog.Proofs.Disk.Saving
import MapCatalog.Proofs.Catalog.Reloading
import MapCatalog.Proofs.Binary64.Finite
import MapCatalog.Proofs.Json.Finite
import MapCatalog.Proofs.Record.Finite
import MapCatalog.Proofs.Catalog.Cameras
import MapCatalog.Proofs.Service.Requests
import MapCatalog.Proofs.Service.Alike
import MapCatalog.Proofs.Catalog.Reopening
import MapCatalog.Proofs.Console.Invocations
import MapCatalog.Proofs.Console.Revisions
import MapCatalog.Proofs.Auth.Minted
import MapCatalog.Proofs.Auth.Spelling
import MapCatalog.Proofs.Record.Readers
import MapCatalog.Proofs.Record.Steady
import MapCatalog.Proofs.Record.Widening
import MapCatalog.Proofs.Editor.Encoding
import MapCatalog.Proofs.Style.Maps
import MapCatalog.Proofs.Catalog.Replacing
import MapCatalog.Proofs.Editor.Returning
import MapCatalog.Proofs.Editor.Storing
import MapCatalog.Proofs.Service.Reached
import MapCatalog.Proofs.Service.Paths
import MapCatalog.Proofs.Service.Addresses
import MapCatalog.Proofs.Service.Returning
import MapCatalog.Proofs.Service.Storing
import MapCatalog.Proofs.Console.Compilation
import MapCatalog.Proofs.Style.Ties
import MapCatalog.Proofs.Catalog.Views
import MapCatalog.Proofs.Catalog.Faults
import MapCatalog.Proofs.Service.Stages
import MapCatalog.Proofs.Service.Bodies
import MapCatalog.Proofs.Service.Statuses
import MapCatalog.Proofs.Console.Snapshots
import MapCatalog.Proofs.Binary64.Order
import MapCatalog.Proofs.Style.Faults
import MapCatalog.Proofs.Catalog.Moves
import MapCatalog.Proofs.Catalog.Overwriting
import MapCatalog.Proofs.Service.Overwriting
import MapCatalog.Proofs.Service.Spelling
import MapCatalog.Proofs.Service.Pieces
import MapCatalog.Proofs.Service.Routing
import MapCatalog.Proofs.Style.Reordering
import MapCatalog.Proofs.Auth.Remembering
import MapCatalog.Proofs.Record.Insertion
import MapCatalog.Proofs.Record.Omission
import MapCatalog.Proofs.Record.Optional
import MapCatalog.Proofs.Editor.PropertyMaps
import MapCatalog.Proofs.Console.Lifetimes
import MapCatalog.Proofs.Console.Rows
import MapCatalog.Proofs.Console.Wrapping
import MapCatalog.Proofs.Console.Columns
import MapCatalog.Proofs.Console.Drawing
import MapCatalog.Proofs.Disk.Temporary
import MapCatalog.Proofs.Disk.Interruption
