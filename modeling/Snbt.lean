import Snbt.Automaton.Longest
import Snbt.Automaton.Moves
import Snbt.Automaton.StateSet
import Snbt.Automaton.Step
import Snbt.Command.Folder
import Snbt.Command.Listing
import Snbt.Command.Options
import Snbt.Command.ReadFailure
import Snbt.Command.Request
import Snbt.Forest.Basic
import Snbt.Forest.Children
import Snbt.Forest.Leaves
import Snbt.Kind.Basic
import Snbt.Kind.Roles
import Snbt.Kind.Set
import Snbt.Lexer.Basic
import Snbt.Lexer.Chain
import Snbt.Lexer.Mask
import Snbt.Lexer.OffsetSet
import Snbt.Lexer.OffsetTable
import Snbt.Lexer.Scan
import Snbt.Lexer.Texts
import Snbt.Lexer.Tokens
import Snbt.Main
import Snbt.Proofs.Automaton.Grammar
import Snbt.Proofs.Automaton.LiveStates
import Snbt.Proofs.Automaton.LongestMatch
import Snbt.Proofs.Automaton.MoveTargets
import Snbt.Proofs.Automaton.QuotedTexts
import Snbt.Proofs.Automaton.Reading
import Snbt.Proofs.Command.ListedTokens
import Snbt.Proofs.Forest.Adoption
import Snbt.Proofs.Forest.FamilyLinks
import Snbt.Proofs.Forest.KeptTokens
import Snbt.Proofs.Forest.LeafWalks
import Snbt.Proofs.Forest.Lineage
import Snbt.Proofs.Forest.Nodes
import Snbt.Proofs.Forest.Operations
import Snbt.Proofs.Forest.Preorder
import Snbt.Proofs.Lexer.ActiveKinds
import Snbt.Proofs.Lexer.Answers
import Snbt.Proofs.Lexer.ChainOrder
import Snbt.Proofs.Lexer.ChainWalks
import Snbt.Proofs.Lexer.Edits
import Snbt.Proofs.Lexer.Histories
import Snbt.Proofs.Lexer.KeptWhitespace
import Snbt.Proofs.Lexer.LexemeOrder
import Snbt.Proofs.Lexer.Links
import Snbt.Proofs.Lexer.Lossless
import Snbt.Proofs.Lexer.MadeOnce
import Snbt.Proofs.Lexer.MaskedChains
import Snbt.Proofs.Lexer.MaskedDeletion
import Snbt.Proofs.Lexer.MaskedLinks
import Snbt.Proofs.Lexer.Masking
import Snbt.Proofs.Lexer.Navigation
import Snbt.Proofs.Lexer.Neighbours
import Snbt.Proofs.Lexer.OffsetSearch
import Snbt.Proofs.Lexer.OrderedEdits
import Snbt.Proofs.Lexer.ParsedWalks
import Snbt.Proofs.Lexer.PlainTokens
import Snbt.Proofs.Lexer.Progress
import Snbt.Proofs.Lexer.Pulling
import Snbt.Proofs.Lexer.QuotedTokens
import Snbt.Proofs.Lexer.Renumbering
import Snbt.Proofs.Lexer.Rescanning
import Snbt.Proofs.Lexer.Resetting
import Snbt.Proofs.Lexer.Scanning
import Snbt.Proofs.Lexer.Segments
import Snbt.Proofs.Lexer.SplicedLists
import Snbt.Proofs.Lexer.Splices
import Snbt.Proofs.Lexer.Splicing
import Snbt.Proofs.Lexer.TableEntries
import Snbt.Proofs.Lexer.TableMaps
import Snbt.Proofs.Lexer.Tiles
import Snbt.Proofs.Lexer.Tokenizing
import Snbt.Proofs.Text.CodeUnits
import Snbt.Proofs.Text.ColumnWalks
import Snbt.Proofs.Text.Columns
import Snbt.Proofs.Text.Encodings
import Snbt.Proofs.Text.EscapeExpansion
import Snbt.Proofs.Text.EscapeSpellings
import Snbt.Proofs.Text.Escapes
import Snbt.Proofs.Text.KeptUnits
import Snbt.Proofs.Text.LineDeletion
import Snbt.Proofs.Text.LineLookup
import Snbt.Proofs.Text.LineMasks
import Snbt.Proofs.Text.LineNumbers
import Snbt.Proofs.Text.MalformedBytes
import Snbt.Proofs.Text.NormalizationPasses
import Snbt.Proofs.Text.NormalizedPrefixes
import Snbt.Proofs.Text.PairSeams
import Snbt.Proofs.Text.PairedUnits
import Snbt.Proofs.Text.PositionOrder
import Snbt.Proofs.Text.TabStops
import Snbt.Proofs.Text.Utf8Sequences
import Snbt.Proofs.Text.VisibleText
import Snbt.Text.Buffer
import Snbt.Text.Charset
import Snbt.Text.Decoding
import Snbt.Text.Fields
import Snbt.Text.LineTable
import Snbt.Text.Normalization
import Snbt.Text.Padding
import Snbt.Text.Quoted
import Snbt.Text.Utf16
import Snbt.Text.Utf8
import Snbt.Text.View
import Snbt.Text.WhiteSpace
import Snbt.Proofs.Lexer.ActiveKinds
import Snbt.Proofs.Lexer.ParsedWalks
