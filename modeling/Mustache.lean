import Mustache.Assignment
import Mustache.Context
import Mustache.Context.Lookup
import Mustache.Context.Outline
import Mustache.Context.Populate
import Mustache.Decimal.Binary
import Mustache.Decimal.Layout
import Mustache.Decimal.Read
import Mustache.Decimal.Shortest
import Mustache.Delimiters
import Mustache.Directory
import Mustache.FileTree
import Mustache.Fill
import Mustache.Frame
import Mustache.Json
import Mustache.Json.Number
import Mustache.Json.Read
import Mustache.Json.Token
import Mustache.Loader
import Mustache.Node
import Mustache.Node.Indent
import Mustache.Node.Outline
import Mustache.Node.Source
import Mustache.ParseError
import Mustache.Position
import Mustache.Proofs.Context.Chained
import Mustache.Proofs.Context.Extend
import Mustache.Proofs.Context.Nearest
import Mustache.Proofs.Context.Populate
import Mustache.Proofs.Context.Reachable
import Mustache.Proofs.Context.Shape
import Mustache.Proofs.Context.Stands
import Mustache.Proofs.Json.Distinct
import Mustache.Proofs.Node.Remade
import Mustache.Proofs.Render.Budget
import Mustache.Proofs.Render.Data
import Mustache.Proofs.Render.Direct
import Mustache.Proofs.Render.Indent
import Mustache.Proofs.Render.Markup
import Mustache.Proofs.Render.Names
import Mustache.Proofs.Render.Nodes
import Mustache.Proofs.Render.Partials
import Mustache.Proofs.Render.Remade
import Mustache.Proofs.Render.Reprint
import Mustache.Proofs.Render.Subordinate
import Mustache.Proofs.Render.Switches
import Mustache.Proofs.Render.Transparent
import Mustache.Proofs.Template.Indent
import Mustache.Proofs.Template.Lines
import Mustache.Proofs.Template.Marks
import Mustache.Proofs.Template.Sections
import Mustache.Proofs.Text.Bytes
import Mustache.Proofs.Text.Indent
import Mustache.Proofs.Text.Line
import Mustache.Proofs.Token.Indent
import Mustache.Proofs.Token.Margins
import Mustache.Proofs.Token.Steady
import Mustache.Proofs.Token.Tiling
import Mustache.Render
import Mustache.Table
import Mustache.Template
import Mustache.Text
import Mustache.Text.Blank
import Mustache.Text.Escape
import Mustache.Text.Quoted
import Mustache.Text.Visible
import Mustache.Token
import Mustache.Token.Line
import Mustache.Token.Scan
import Mustache.Proofs.Context.Subordinate
import Mustache.Proofs.Context.Tree
import Mustache.Proofs.Context.Write
import Mustache.Proofs.Context.Search
import Mustache.Proofs.Context.Change
import Mustache.Proofs.Render.Errors
import Mustache.Proofs.Render.Inside
import Mustache.Session
import Mustache.Proofs.Session.Count
import Mustache.Proofs.Session.Reuse
import Mustache.Proofs.Session.Threshold
import Mustache.Proofs.Render.Verbatim
import Mustache.Proofs.Token.Split
import Mustache.Proofs.Template.Grown
import Mustache.Proofs.Template.Places
import Mustache.Proofs.Node.Padded
import Mustache.Proofs.Render.Padded
import Mustache.Proofs.Render.Entered
import Mustache.Proofs.Render.Below
import Mustache.Proofs.Render.Dotted
import Mustache.Proofs.Text.Split
import Mustache.Proofs.Context.Leads
import Mustache.Proofs.Render.EmptyParts
import Mustache.Proofs.FileTree.LinkFree
import Mustache.Proofs.FileTree.Emptied
import Mustache.Proofs.Directory.Confined
import Mustache.Proofs.Render.Turn
import Mustache.Proofs.Text.Escape
import Mustache.Proofs.Directory.Remembered
import Mustache.Proofs.Session.Ends
import Mustache.Proofs.Offset.Parse
