import Gamebook.Decimal
import Gamebook.Diagnostic
import Gamebook.File.Fault
import Gamebook.File.Folder
import Gamebook.File.Path
import Gamebook.Game
import Gamebook.Json
import Gamebook.Main
import Gamebook.Page
import Gamebook.Page.Body
import Gamebook.Page.Forest
import Gamebook.Pattern
import Gamebook.Play.Book
import Gamebook.Play.Eval
import Gamebook.Play.Function
import Gamebook.Play.Operand
import Gamebook.Play.Rehearsal
import Gamebook.Play.Run
import Gamebook.Play.Verb
import Gamebook.Script.Chain
import Gamebook.Script.Expr
import Gamebook.Script.Grammar
import Gamebook.Script.Reply
import Gamebook.Script.Token
import Gamebook.Session
import Gamebook.Session.File
import Gamebook.Session.History
import Gamebook.SortedMap
import Gamebook.Story
import Gamebook.Story.Export
import Gamebook.Story.Source
import Gamebook.Terminal.Command
import Gamebook.Terminal.Console
import Gamebook.Terminal.Controls
import Gamebook.Terminal.Order
import Gamebook.Terminal.Table
import Gamebook.Terminal.Task
import Gamebook.Text.Casing
import Gamebook.Text.CharSet
import Gamebook.Text.CharWidth
import Gamebook.Text.Clean
import Gamebook.Text.Columns
import Gamebook.Text.Emoji
import Gamebook.Text.Escape
import Gamebook.Text.Ligature
import Gamebook.Text.Lower
import Gamebook.Text.Printable
import Gamebook.Text.Quoted
import Gamebook.Text.Scan
import Gamebook.Text.Similarity
import Gamebook.Text.Space
import Gamebook.Text.Span
import Gamebook.Text.Split
import Gamebook.Value
import Gamebook.Value.Literal
import Gamebook.Proofs.Session.Logs
import Gamebook.Proofs.Session.Invariant
import Gamebook.Proofs.Session.Strict
import Gamebook.Proofs.Value.Literal
import Gamebook.Proofs.Session.Views
import Gamebook.Proofs.Session.TimeTravel
import Gamebook.Proofs.Session.Legible
import Gamebook.Proofs.Session.Contents
import Gamebook.Proofs.Session.Loading
import Gamebook.Proofs.Session.Lines
import Gamebook.Proofs.Session.Reading
import Gamebook.Proofs.Session.RoundTrip
import Gamebook.Proofs.Script.Folding
import Gamebook.Proofs.Play.Looking
import Gamebook.Proofs.Play.Guard
import Gamebook.Proofs.Page.Declared
import Gamebook.Proofs.Play.Offer
import Gamebook.Proofs.Session.Trimming
import Gamebook.Proofs.Session.Branching
import Gamebook.Proofs.Story.Defaults
import Gamebook.Proofs.Play.Deeds
import Gamebook.Proofs.Play.Scripted
import Gamebook.Proofs.Play.Effects
import Gamebook.Proofs.Play.Lockstep
import Gamebook.Proofs.Game.Operations
import Gamebook.Proofs.Game.Transaction
import Gamebook.Proofs.Game.UpToDate
import Gamebook.Proofs.Game.Branches
import Gamebook.Proofs.Text.Escaping
import Gamebook.Proofs.Text.Feedless
import Gamebook.Proofs.Game.Verbatim
import Gamebook.Proofs.Script.Words
import Gamebook.Proofs.Value.Atoms
import Gamebook.Proofs.Session.Wording
import Gamebook.Proofs.Page.Wording
import Gamebook.Proofs.Play.Wording
import Gamebook.Proofs.Game.Wording
import Gamebook.Proofs.Text.Pieces
import Gamebook.Proofs.Script.Authored
import Gamebook.Proofs.Script.Results
import Gamebook.Proofs.Script.Complaints
import Gamebook.Proofs.Script.Spelling
import Gamebook.Proofs.Script.Completeness
import Gamebook.Proofs.Script.Writing
import Gamebook.Proofs.Page.Scripts
import Gamebook.Proofs.Play.Parallel
import Gamebook.Proofs.Game.Faultless
import Gamebook.Proofs.Play.Depth
import Gamebook.Proofs.Value.Membership
import Gamebook.Proofs.Play.Answers
import Gamebook.Proofs.Play.Assignment
import Gamebook.Proofs.Page.Origin
import Gamebook.Proofs.Text.Joining
import Gamebook.Proofs.Story.Append
import Gamebook.Proofs.Text.Cleaning
import Gamebook.Proofs.Text.Quotes
import Gamebook.Proofs.Page.Texts
import Gamebook.Proofs.Script.Gaps
import Gamebook.Proofs.Script.NounText
import Gamebook.Proofs.Script.References
import Gamebook.Proofs.Story.Naming
import Gamebook.Proofs.Value.Rereading
import Gamebook.Proofs.Value.Built
import Gamebook.Proofs.Value.Changes
import Gamebook.Proofs.Value.Sets
import Gamebook.Proofs.Value.Equality
import Gamebook.Proofs.Play.ShortCircuit
import Gamebook.Proofs.Play.FanOut
import Gamebook.Proofs.Page.Scopes
import Gamebook.Proofs.Page.Alternatives
import Gamebook.Proofs.Play.Unwinding
import Gamebook.Proofs.Play.OneBranch
import Gamebook.Proofs.Play.Arithmetic
import Gamebook.Proofs.Play.Dereference
import Gamebook.Proofs.Play.Bookless
import Gamebook.Proofs.Game.Listing
import Gamebook.Proofs.Game.Bookmarks
import Gamebook.Proofs.Text.Parity
import Gamebook.Proofs.Script.Breaks
import Gamebook.Proofs.Page.Enclosing
import Gamebook.Proofs.Page.Preorder
import Gamebook.Proofs.Page.Positions
import Gamebook.Proofs.Text.Neighbours
import Gamebook.Proofs.Text.Bare
import Gamebook.Proofs.Text.Balance
import Gamebook.Proofs.Script.Tiling
import Gamebook.Proofs.Story.Places
import Gamebook.Proofs.Script.Lexemes
import Gamebook.Proofs.Script.Sides
import Gamebook.Proofs.Script.Integers
import Gamebook.Proofs.Script.Reports
import Gamebook.Proofs.Script.Spans
import Gamebook.Proofs.Session.Faults
import Gamebook.Proofs.Script.Alike
import Gamebook.Proofs.Pattern.Filling
import Gamebook.Proofs.Pattern.Cleaning
import Gamebook.Proofs.Pattern.Tokens
import Gamebook.Proofs.Pattern.Names
import Gamebook.Proofs.Pattern.Scripts
import Gamebook.Proofs.Pattern.Bodies
import Gamebook.Proofs.Pattern.Expansion
