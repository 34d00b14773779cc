import BorderTiles.Attribution
import BorderTiles.Bordering
import BorderTiles.CommandLine
import BorderTiles.Document.Printer
import BorderTiles.Document.Reader
import BorderTiles.Document.Reading
import BorderTiles.Document.Value
import BorderTiles.Duration
import BorderTiles.Extract
import BorderTiles.Extract.Document
import BorderTiles.Fault
import BorderTiles.Feature
import BorderTiles.Generate
import BorderTiles.GeoJson
import BorderTiles.IdSet
import BorderTiles.Layer
import BorderTiles.Logged
import BorderTiles.Main
import BorderTiles.Mercator
import BorderTiles.NaturalEarth
import BorderTiles.NaturalEarth.Document
import BorderTiles.Notice
import BorderTiles.Number.Basic
import BorderTiles.Number.Binary
import BorderTiles.Number.Fixed
import BorderTiles.Number.Numeral
import BorderTiles.Number.Shortest
import BorderTiles.Plane.Clip
import BorderTiles.Plane.Faces
import BorderTiles.Plane.Geometry
import BorderTiles.Plane.Kernel
import BorderTiles.Plane.Merge
import BorderTiles.Plane.Network
import BorderTiles.Plane.Point
import BorderTiles.Plane.Region
import BorderTiles.Plane.Segment
import BorderTiles.Plane.Simplify
import BorderTiles.Plane.Spot
import BorderTiles.Pools
import BorderTiles.Proofs.Attribution
import BorderTiles.Proofs.Attribution.Outlines
import BorderTiles.Proofs.Bordering
import BorderTiles.Proofs.Bordering.Election
import BorderTiles.Proofs.Bordering.Enclave
import BorderTiles.Proofs.Bordering.Reversed
import BorderTiles.Proofs.Bordering.Samples
import BorderTiles.Proofs.Exact
import BorderTiles.Proofs.Extract
import BorderTiles.Proofs.Feature
import BorderTiles.Proofs.Fractions
import BorderTiles.Proofs.Generate
import BorderTiles.Proofs.Layer.CountryNames
import BorderTiles.Proofs.Layer.Finish
import BorderTiles.Proofs.Layer.Lifecycle
import BorderTiles.Proofs.Layer.Reachable
import BorderTiles.Proofs.Layer.Registry
import BorderTiles.Proofs.Layer.Routing
import BorderTiles.Proofs.Layer.Schema
import BorderTiles.Proofs.Layer.Segments
import BorderTiles.Proofs.Layer.Sides
import BorderTiles.Proofs.Layer.Steps
import BorderTiles.Proofs.Layer.Visits
import BorderTiles.Proofs.Layer.Ways
import BorderTiles.Proofs.Line.Repeats
import BorderTiles.Proofs.Mercator
import BorderTiles.Proofs.NaturalEarth
import BorderTiles.Proofs.NaturalEarth.Zooms
import BorderTiles.Proofs.Number.Numeral
import BorderTiles.Proofs.Number.Range
import BorderTiles.Proofs.Plane.Covers
import BorderTiles.Proofs.Plane.Leaves
import BorderTiles.Proofs.Pools
import BorderTiles.Proofs.Relation
import BorderTiles.Proofs.Results
import BorderTiles.Proofs.Run
import BorderTiles.Proofs.Segments
import BorderTiles.Proofs.Settings
import BorderTiles.Proofs.Summary
import BorderTiles.Proofs.Summary.Memberships
import BorderTiles.Proofs.Table
import BorderTiles.Proofs.Tags
import BorderTiles.Proofs.Tile.Assign
import BorderTiles.Proofs.Tile.Content
import BorderTiles.Proofs.Tile.Cover
import BorderTiles.Proofs.Tile.Empty
import BorderTiles.Proofs.Tile.Filter
import BorderTiles.Proofs.Tile.Pyramid
import BorderTiles.Proofs.Zooms
import BorderTiles.Relation
import BorderTiles.Run
import BorderTiles.Scalar
import BorderTiles.Settings
import BorderTiles.Table
import BorderTiles.Tags
import BorderTiles.Text.Blank
import BorderTiles.Text.Digit
import BorderTiles.Text.Erase
import BorderTiles.Text.Printable
import BorderTiles.Text.Quoted
import BorderTiles.Tile.Assign
import BorderTiles.Tile.Content
import BorderTiles.Tile.Pyramid
import BorderTiles.Way
import BorderTiles.Zooms
import BorderTiles.Proofs.Plane.Joining
