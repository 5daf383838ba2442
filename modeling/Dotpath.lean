import Dotpath.Array.Cell
import Dotpath.Array.Conversion
import Dotpath.Array.Element
import Dotpath.Array.Plain
import Dotpath.Array.Store
import Dotpath.Array.Text
import Dotpath.CommandLine.Command
import Dotpath.CommandLine.Misuse
import Dotpath.CommandLine.Options
import Dotpath.CommandLine.Run
import Dotpath.Document.Json.Printer
import Dotpath.Document.Json.Reader
import Dotpath.Document.Output
import Dotpath.Document.Plain
import Dotpath.Document.Yaml.Cursor
import Dotpath.Document.Yaml.Meaning
import Dotpath.Document.Yaml.Node
import Dotpath.Document.Yaml.Pen
import Dotpath.Document.Yaml.Printer
import Dotpath.Document.Yaml.Reader
import Dotpath.Document.Yaml.Scalar
import Dotpath.Document.Yaml.Style
import Dotpath.Document.Yaml.Tag
import Dotpath.Document.Yaml.Token.Basic
import Dotpath.Document.Yaml.Token.Stream
import Dotpath.Fault
import Dotpath.Graph.Access
import Dotpath.Graph.Assignment
import Dotpath.Graph.Entries
import Dotpath.Graph.Heap
import Dotpath.Graph.Items
import Dotpath.Graph.Lookup
import Dotpath.Graph.Members
import Dotpath.Graph.Reach
import Dotpath.Graph.Text
import Dotpath.Graph.Value
import Dotpath.Main
import Dotpath.Number.Arithmetic
import Dotpath.Number.Binary64
import Dotpath.Number.Reading
import Dotpath.Number.Shortest
import Dotpath.Path.Basic
import Dotpath.Path.Derived
import Dotpath.Path.Given
import Dotpath.Path.Order
import Dotpath.Scalar.Basic
import Dotpath.Scalar.Equality
import Dotpath.Scalar.Moment
import Dotpath.Scalar.Reading
import Dotpath.Scalar.Text
import Dotpath.Schema.Annotation
import Dotpath.Schema.Assignable
import Dotpath.Schema.Basic
import Dotpath.Schema.Coercion
import Dotpath.Schema.Properties
import Dotpath.Settings.Basic
import Dotpath.Settings.Choice
import Dotpath.Settings.Session
import Dotpath.Text.Classes
import Dotpath.Text.Printable
import Dotpath.Text.Quoted
import Dotpath.Text.Similarity
import Dotpath.Walk.Failure
import Dotpath.Walk.Key
import Dotpath.Walk.Kind
import Dotpath.Walk.Reading
import Dotpath.Walk.Registry
import Dotpath.Walk.Walker
import Dotpath.Walk.Writing
import Dotpath.World
import Dotpath.Proofs.Array.Exact
import Dotpath.Proofs.Array.Integers
import Dotpath.Proofs.Array.Mismatch
import Dotpath.Proofs.CommandLine.Files
import Dotpath.Proofs.CommandLine.Pasting
import Dotpath.Proofs.CommandLine.Running
import Dotpath.Proofs.CommandLine.SetGet
import Dotpath.Proofs.Document.Conversion
import Dotpath.Proofs.Document.Convertible
import Dotpath.Proofs.Document.Copy
import Dotpath.Proofs.Document.JsonNodes
import Dotpath.Proofs.Document.JsonNumber
import Dotpath.Proofs.Document.JsonObject
import Dotpath.Proofs.Document.JsonQuoted
import Dotpath.Proofs.Document.JsonReading
import Dotpath.Proofs.Document.JsonReread
import Dotpath.Proofs.Document.JsonScan
import Dotpath.Proofs.Document.JsonTokens
import Dotpath.Proofs.Document.JsonValues
import Dotpath.Proofs.Document.Lossless
import Dotpath.Proofs.Document.Plain
import Dotpath.Proofs.Document.PlainData
import Dotpath.Proofs.Document.PlainKeys
import Dotpath.Proofs.Document.Reading
import Dotpath.Proofs.Document.Reread
import Dotpath.Proofs.Document.RoundTrip
import Dotpath.Proofs.Document.Text
import Dotpath.Proofs.Document.Tree
import Dotpath.Proofs.Document.Update
import Dotpath.Proofs.Document.YamlNodes
import Dotpath.Proofs.Document.YamlText
import Dotpath.Proofs.Fault
import Dotpath.Proofs.Graph.Acyclic
import Dotpath.Proofs.Graph.Admission
import Dotpath.Proofs.Graph.Assignment
import Dotpath.Proofs.Graph.Defaults
import Dotpath.Proofs.Graph.Difference
import Dotpath.Proofs.Graph.Hereditary
import Dotpath.Proofs.Graph.Keys
import Dotpath.Proofs.Graph.Members
import Dotpath.Proofs.Graph.Objects
import Dotpath.Proofs.Graph.Overwriting
import Dotpath.Proofs.Graph.Printable
import Dotpath.Proofs.Graph.Region
import Dotpath.Proofs.Graph.RegionLookup
import Dotpath.Proofs.Graph.RegionText
import Dotpath.Proofs.Graph.Searched
import Dotpath.Proofs.Graph.Shown
import Dotpath.Proofs.Graph.Slot
import Dotpath.Proofs.Graph.Sound
import Dotpath.Proofs.Graph.Stores
import Dotpath.Proofs.Number.Digits
import Dotpath.Proofs.Path.Algebra
import Dotpath.Proofs.Path.Cutting
import Dotpath.Proofs.Path.Grammar
import Dotpath.Proofs.Path.History
import Dotpath.Proofs.Path.Joining
import Dotpath.Proofs.Path.Order
import Dotpath.Proofs.Path.Pieces
import Dotpath.Proofs.Path.Printable
import Dotpath.Proofs.Scalar.KeyText
import Dotpath.Proofs.Scalar.Text
import Dotpath.Proofs.Schema.Declared
import Dotpath.Proofs.Schema.DeclaredType
import Dotpath.Proofs.Schema.Lookup
import Dotpath.Proofs.Schema.Plain
import Dotpath.Proofs.Schema.ReadOnly
import Dotpath.Proofs.Settings.Choice
import Dotpath.Proofs.Settings.File
import Dotpath.Proofs.Settings.Session
import Dotpath.Proofs.Settings.Word
import Dotpath.Proofs.Text.CodePoint
import Dotpath.Proofs.Walk.Append
import Dotpath.Proofs.Walk.ArrayPart
import Dotpath.Proofs.Walk.Batch
import Dotpath.Proofs.Walk.Commute
import Dotpath.Proofs.Walk.Filling
import Dotpath.Proofs.Walk.Frozen
import Dotpath.Proofs.Walk.IntegerArray
import Dotpath.Proofs.Walk.Key
import Dotpath.Proofs.Walk.Keyed
import Dotpath.Proofs.Walk.Leads
import Dotpath.Proofs.Walk.LetOut
import Dotpath.Proofs.Walk.Missing
import Dotpath.Proofs.Walk.OneSlot
import Dotpath.Proofs.Walk.Overwrite
import Dotpath.Proofs.Walk.Parent
import Dotpath.Proofs.Walk.PathMap
import Dotpath.Proofs.Walk.Place
import Dotpath.Proofs.Walk.Policy
import Dotpath.Proofs.Walk.Position
import Dotpath.Proofs.Walk.PutFaults
import Dotpath.Proofs.Walk.PutGet
import Dotpath.Proofs.Walk.ReadOnly
import Dotpath.Proofs.Walk.Readdress
import Dotpath.Proofs.Walk.Reasons
import Dotpath.Proofs.Walk.Refusal
import Dotpath.Proofs.Walk.Region
import Dotpath.Proofs.Walk.Run
import Dotpath.Proofs.Walk.Step
import Dotpath.Proofs.Walk.Trail
import Dotpath.Proofs.Walk.Typed
import Dotpath.Proofs.Walk.Undisturbed
