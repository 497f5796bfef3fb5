import DitaTopic.Config.Load
import DitaTopic.Document.Event
import DitaTopic.Render.Renderer
import DitaTopic.Render.Script
import DitaTopic.Proofs.Render.Balance
import DitaTopic.Proofs.Topic.Content
import DitaTopic.Proofs.Topic.Outline
import DitaTopic.Proofs.Topic.Truncation
import DitaTopic.Proofs.Render.Placement
import DitaTopic.Proofs.Render.ProviderOrder
import DitaTopic.Proofs.Render.Cycles
import DitaTopic.Proofs.Render.Overriding
import DitaTopic.Proofs.Document.Stream
import DitaTopic.Proofs.Topic.Unclaimed
import DitaTopic.Document.Walk
import DitaTopic.Proofs.Document.Growth
import DitaTopic.Proofs.Document.RoundTrip
import DitaTopic.Proofs.Identifier.Distinct
import DitaTopic.Proofs.Topic.Reading
import DitaTopic.Proofs.Topic.Identifiers
import DitaTopic.Proofs.Markup.Reader
import DitaTopic.Proofs.Topic.Layering
import DitaTopic.Proofs.Render.Context
import DitaTopic.Proofs.Topic.LinkMarkup
import DitaTopic.Proofs.Markup.Recording
import DitaTopic.Proofs.Document.RawHtml
import DitaTopic.Proofs.Topic.HiddenHtml
import DitaTopic.Proofs.Topic.Subtree
import DitaTopic.Proofs.Topic.SingleRoot
import DitaTopic.Proofs.Markup.OpenElements
import DitaTopic.Proofs.Document.DepthFirst
import DitaTopic.Proofs.Document.NormalForm
import DitaTopic.Proofs.Document.Payload
import DitaTopic.Proofs.Config.Effective
import DitaTopic.Proofs.Identifier.FirstFree
import DitaTopic.Proofs.Render.InputOrder
import DitaTopic.Proofs.Render.LeftOut
import DitaTopic.Proofs.Render.Regions
import DitaTopic.Proofs.Topic.LinkRegions
import DitaTopic.Proofs.Config.RenderTable
import DitaTopic.Proofs.Config.Scopes
import DitaTopic.Proofs.Document.Additions
import DitaTopic.Proofs.Identifier.Additions
import DitaTopic.Proofs.Options.Inheritance
import DitaTopic.Proofs.Config.Discovery
import DitaTopic.Proofs.Markup.Closing
import DitaTopic.Proofs.Identifier.Dashes
import DitaTopic.Proofs.Text.Escapes
import DitaTopic.Proofs.Text.Trimming
import DitaTopic.Proofs.Document.TextContent
