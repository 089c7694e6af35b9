import DesignComponents.Api.Client
import DesignComponents.Api.Credential
import DesignComponents.Api.Error
import DesignComponents.Api.Exchange
import DesignComponents.Api.Image
import DesignComponents.Color.Palette
import DesignComponents.Color.Rgba
import DesignComponents.Color.Table
import DesignComponents.Command.Create
import DesignComponents.Command.Detect
import DesignComponents.Command.Invocation
import DesignComponents.Command.Options
import DesignComponents.Command.Run
import DesignComponents.Command.Surroundings
import DesignComponents.Command.Usage
import DesignComponents.Component.File
import DesignComponents.Component.Imports
import DesignComponents.Component.Name
import DesignComponents.Component.Role
import DesignComponents.Config
import DesignComponents.Conversion.Component
import DesignComponents.Conversion.Ledger
import DesignComponents.Conversion.Task
import DesignComponents.Conversion.Walk
import DesignComponents.Design.Decode
import DesignComponents.Design.Encode
import DesignComponents.Design.Layer
import DesignComponents.Design.Node
import DesignComponents.Design.NodeId
import DesignComponents.Duration
import DesignComponents.Failure
import DesignComponents.Framework
import DesignComponents.Json.Reader
import DesignComponents.Json.Record
import DesignComponents.Json.Value
import DesignComponents.Json.Writer
import DesignComponents.Link
import DesignComponents.LogFilter
import DesignComponents.Markup.Element
import DesignComponents.Markup.Escape
import DesignComponents.Markup.Fragment
import DesignComponents.Number.Arithmetic
import DesignComponents.Number.Binary
import DesignComponents.Number.Shortest
import DesignComponents.Number.Text
import DesignComponents.Path
import DesignComponents.Project.Configuration
import DesignComponents.Project.FileTree
import DesignComponents.Project.Manifest
import DesignComponents.Project.Programs
import DesignComponents.Project.Store
import DesignComponents.Project.Target
import DesignComponents.Report.Outcome
import DesignComponents.Report.Text
import DesignComponents.Settings
import DesignComponents.Style.ClassList
import DesignComponents.Style.Classes
import DesignComponents.Style.Scale
import DesignComponents.Text.Blank
import DesignComponents.Text.Hex
import DesignComponents.Text.Mark
import DesignComponents.Text.Utf8
import DesignComponents.Toml.Reader
import DesignComponents.Toml.Scan
import DesignComponents.Toml.Table
import DesignComponents.Url.Address
import DesignComponents.Url.Basic
import DesignComponents.Url.Domain.Compatible
import DesignComponents.Url.Domain.Excluded
import DesignComponents.Url.Domain.Joiner
import DesignComponents.Url.Domain.Name
import DesignComponents.Url.Domain.Punycode
import DesignComponents.Url.Percent
import DesignComponents.Url.Query
import DesignComponents.Url.Read
import DesignComponents.Main
import DesignComponents.Proofs.Markup.Escaping
import DesignComponents.Proofs.Markup.Tag
import DesignComponents.Proofs.Markup.Reading
import DesignComponents.Proofs.Markup.Entities
import DesignComponents.Proofs.Text.Hexadecimal
import DesignComponents.Proofs.Color.TableIndex
import DesignComponents.Proofs.Style.Spelling
import DesignComponents.Proofs.Style.PlainClasses
import DesignComponents.Proofs.Style.Families
import DesignComponents.Proofs.Component.Identifier
import DesignComponents.Proofs.Conversion.DepthFirst
import DesignComponents.Proofs.Conversion.Interleaving
import DesignComponents.Proofs.Conversion.Outline
import DesignComponents.Proofs.Conversion.References
import DesignComponents.Proofs.Conversion.Visibility
import DesignComponents.Proofs.Design.Decoding
import DesignComponents.Proofs.Conversion.Creation
import DesignComponents.Proofs.Conversion.OwnName
import DesignComponents.Proofs.Project.FileTrees
import DesignComponents.Proofs.Project.Writing
import DesignComponents.Proofs.Project.Sessions
import DesignComponents.Proofs.Conversion.FailedImages
import DesignComponents.Proofs.Command.Creating
import DesignComponents.Proofs.Conversion.Lookups
import DesignComponents.Proofs.Number.SquareRoots
import DesignComponents.Proofs.Color.Entries
import DesignComponents.Proofs.Color.Nearest
import DesignComponents.Proofs.Conversion.Undisturbed
import DesignComponents.Proofs.Project.Paths
import DesignComponents.Proofs.Project.Grounded
import DesignComponents.Proofs.Project.Repetition
import DesignComponents.Proofs.Markup.Dialects
import DesignComponents.Proofs.Markup.Expressions
import DesignComponents.Proofs.Conversion.Frameworks
import DesignComponents.Proofs.Component.Parts
import DesignComponents.Proofs.Project.Locations
import DesignComponents.Proofs.Project.Collisions
import DesignComponents.Proofs.Number.Values
import DesignComponents.Proofs.Conversion.Arrangement
import DesignComponents.Proofs.Design.Places
import DesignComponents.Proofs.Conversion.Unread
import DesignComponents.Proofs.Json.Forms
import DesignComponents.Proofs.Json.Spellings
import DesignComponents.Proofs.Json.Layouts
import DesignComponents.Proofs.Json.Omissions
import DesignComponents.Proofs.Report.RoundTrip
import DesignComponents.Proofs.Design.RoundTrip
import DesignComponents.Proofs.Text.Bytes
import DesignComponents.Proofs.Url.Escapes
import DesignComponents.Proofs.Url.Queries
import DesignComponents.Proofs.Url.Pairs
import DesignComponents.Proofs.Url.PathNames
import DesignComponents.Proofs.Url.Carrying
import DesignComponents.Proofs.Url.Hosts
import DesignComponents.Proofs.Api.Questions
import DesignComponents.Proofs.Conversion.TableRows
import DesignComponents.Proofs.Style.Paddings
import DesignComponents.Proofs.Component.Contents
import DesignComponents.Proofs.Number.Rounding
import DesignComponents.Proofs.Number.Whole
import DesignComponents.Proofs.Number.Decimals
import DesignComponents.Proofs.Style.Lengths
import DesignComponents.Proofs.Component.KeptLetters
import DesignComponents.Proofs.Text.LowerCase
import DesignComponents.Proofs.Component.Rules
import DesignComponents.Proofs.Url.Written
import DesignComponents.Proofs.Design.NodeIds
import DesignComponents.Proofs.Link.Sharing
import DesignComponents.Proofs.Project.Destinations
import DesignComponents.Proofs.Project.Histories
