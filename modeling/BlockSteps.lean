import BlockSteps.Dict
import BlockSteps.Text.Blank
import BlockSteps.Text.Quoted
import BlockSteps.Decimal.Format
import BlockSteps.Decimal.Literal
import BlockSteps.Decimal.Truncation
import BlockSteps.Json.Printer
import BlockSteps.Json.Scanner
import BlockSteps.Json.Reader
import BlockSteps.Block.Basic
import BlockSteps.Workspace.Loading
import BlockSteps.Step.Document
import BlockSteps.Compile.Program
import BlockSteps.Settings.Environment
import BlockSteps.Settings.Loading
import BlockSteps.CommandLine.Directory
import BlockSteps.Main
import BlockSteps.Proofs.Compile.Outcome
import BlockSteps.Proofs.Compile.Turns
import BlockSteps.Proofs.Compile.Limit
import BlockSteps.Proofs.Workspace.Insertion
import BlockSteps.Proofs.Workspace.Listing
import BlockSteps.Proofs.Json.Reading
import BlockSteps.Proofs.Workspace.Retained
import BlockSteps.Proofs.Workspace.Forest
import BlockSteps.Proofs.Workspace.Rebuilding
import BlockSteps.Proofs.Compile.Loaded
import BlockSteps.Proofs.Compile.Sources
import BlockSteps.Proofs.Decimal.Rounding
import BlockSteps.Proofs.Compile.Parameters
import BlockSteps.Proofs.Compile.Copies
import BlockSteps.Proofs.Compile.WrittenIds
import BlockSteps.Proofs.Compile.Followed
import BlockSteps.Proofs.Compile.Kept
import BlockSteps.Proofs.Workspace.Links
import BlockSteps.Proofs.Decimal.Nearest
import BlockSteps.Proofs.Decimal.Scientific
import BlockSteps.Proofs.Decimal.ReadBack
import BlockSteps.Proofs.Decimal.Spelling
import BlockSteps.Proofs.Json.Written
import BlockSteps.Proofs.Json.Scanning
import BlockSteps.Proofs.Json.RoundTrip
import BlockSteps.Proofs.Step.Numbers
import BlockSteps.Proofs.Step.RoundTrip
import BlockSteps.Proofs.Compile.HookParameters
import BlockSteps.Proofs.Compile.Truthful
import BlockSteps.Proofs.Compile.Rearranged
import BlockSteps.Proofs.Workspace.Arranged
import BlockSteps.Proofs.Compile.ChainOrder
import BlockSteps.Proofs.Compile.Parts
import BlockSteps.Proofs.Compile.Validation
import BlockSteps.Proofs.Compile.Independent
import BlockSteps.Proofs.Compile.Dressing
import BlockSteps.Proofs.Workspace.Acceptance
import BlockSteps.Proofs.Compile.IdleBodies
import BlockSteps.Proofs.Compile.UnreadFields
import BlockSteps.Proofs.Compile.NextCircles
import BlockSteps.Proofs.Workspace.TopBlocks
import BlockSteps.Proofs.Decimal.PlainText
import BlockSteps.Proofs.Compile.ValueBounds
import BlockSteps.Proofs.Compile.AttachedLiterals
import BlockSteps.Proofs.Compile.Report
import BlockSteps.Proofs.CommandLine.Agreement
import BlockSteps.Proofs.Workspace.Indexed
import BlockSteps.Proofs.Settings.Accepted
import BlockSteps.Proofs.Json.Omission
import BlockSteps.Proofs.Settings.RoundTrip
import BlockSteps.Proofs.Json.Texts
import BlockSteps.Proofs.Json.Rearranged
import BlockSteps.Proofs.Json.MemberOrder
import BlockSteps.Proofs.Workspace.MemberOrder
import BlockSteps.Proofs.Decimal.Comparison
import BlockSteps.Proofs.Compile.WordSizes
import BlockSteps.Proofs.Step.ReadIds
import BlockSteps.Proofs.Step.Amendments
