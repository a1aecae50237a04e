import PeerDiscovery.Beacon
import PeerDiscovery.Beacon.Receiver
import PeerDiscovery.Beacon.Sender
import PeerDiscovery.Beacon.Station
import PeerDiscovery.Bytes
import PeerDiscovery.Config
import PeerDiscovery.Config.File
import PeerDiscovery.Config.Location
import PeerDiscovery.Config.Overrides
import PeerDiscovery.Config.Reading
import PeerDiscovery.Directory
import PeerDiscovery.Discovery.Courier
import PeerDiscovery.Discovery.Dispatch
import PeerDiscovery.Discovery.Engine
import PeerDiscovery.Discovery.Link
import PeerDiscovery.Discovery.Options
import PeerDiscovery.Discovery.Snapshot
import PeerDiscovery.Endpoint
import PeerDiscovery.Envelope
import PeerDiscovery.FactSet
import PeerDiscovery.Framing.Basic
import PeerDiscovery.Framing.Reader
import PeerDiscovery.Framing.Source
import PeerDiscovery.Host
import PeerDiscovery.Mailbox.Basic
import PeerDiscovery.Mailbox.Channel
import PeerDiscovery.Mailbox.Hub
import PeerDiscovery.Mailbox.Port
import PeerDiscovery.Mailbox.Service
import PeerDiscovery.Net.IpAddr
import PeerDiscovery.Net.Ipv4
import PeerDiscovery.Net.Ipv6
import PeerDiscovery.Net.Network
import PeerDiscovery.Node
import PeerDiscovery.Node.Turn
import PeerDiscovery.PeerId
import PeerDiscovery.Proofs.Discovery.Accounts
import PeerDiscovery.Proofs.Discovery.Answers
import PeerDiscovery.Proofs.Discovery.Connections
import PeerDiscovery.Proofs.Discovery.Interleaving
import PeerDiscovery.Proofs.Discovery.Ledger
import PeerDiscovery.Proofs.Discovery.Registry
import PeerDiscovery.Proofs.Discovery.Run
import PeerDiscovery.Proofs.Discovery.Sections
import PeerDiscovery.Proofs.Endpoint
import PeerDiscovery.Proofs.Envelope
import PeerDiscovery.Proofs.Fleet.Couriers
import PeerDiscovery.Proofs.Fleet.Lore
import PeerDiscovery.Proofs.Fleet.Mailboxes
import PeerDiscovery.Proofs.Fleet.Nodes
import PeerDiscovery.Proofs.Fleet.Soundness
import PeerDiscovery.Proofs.Fleet.Streams
import PeerDiscovery.Proofs.Fleet.System
import PeerDiscovery.Proofs.Fleet.Work
import PeerDiscovery.Proofs.Framing
import PeerDiscovery.Proofs.Node.Hosting
import PeerDiscovery.Proofs.Wire.Records
import PeerDiscovery.Scenario.Airing
import PeerDiscovery.Scenario.Cluster
import PeerDiscovery.Scenario.Delivery
import PeerDiscovery.Scenario.Session
import PeerDiscovery.Scenario.World
import PeerDiscovery.Text.Decimal
import PeerDiscovery.Text.Extender
import PeerDiscovery.Text.Order
import PeerDiscovery.Text.Printable
import PeerDiscovery.Text.Quoted
import PeerDiscovery.Text.Ranges
import PeerDiscovery.Text.Split
import PeerDiscovery.Toml.Blank
import PeerDiscovery.Toml.Document
import PeerDiscovery.Toml.Key
import PeerDiscovery.Toml.Literal
import PeerDiscovery.Toml.Moment
import PeerDiscovery.Toml.Numeral
import PeerDiscovery.Toml.Quoted
import PeerDiscovery.Toml.Table
import PeerDiscovery.Toml.Value
import PeerDiscovery.Wire.Fault
import PeerDiscovery.Wire.Key
import PeerDiscovery.Wire.Layout
import PeerDiscovery.Wire.Reader
import PeerDiscovery.Wire.Record
import PeerDiscovery.Wire.Skip
import PeerDiscovery.Wire.Varint
import PeerDiscovery.WireError
import PeerDiscovery.Proofs.Beacon.Silence
import PeerDiscovery.Proofs.Activity.Jobs
import PeerDiscovery.Proofs.Activity.Ownership
import PeerDiscovery.Proofs.Activity.Announcing
import PeerDiscovery.Proofs.Activity.Draining
import PeerDiscovery.Proofs.Activity.Hushing
import PeerDiscovery.Proofs.Activity.Shutdowns
import PeerDiscovery.Proofs.Activity.Stopping
import PeerDiscovery.Proofs.Activity.Alone
import PeerDiscovery.Proofs.Framing.Grammar
import PeerDiscovery.Proofs.Framing.Writing
import PeerDiscovery.Proofs.Framing.Reading
import PeerDiscovery.Proofs.Framing.Shortage
import PeerDiscovery.Proofs.Discovery.Exchange
import PeerDiscovery.Proofs.Courier.Errand
import PeerDiscovery.Proofs.Courier.Trips
import PeerDiscovery.Proofs.Mailbox.Office
import PeerDiscovery.Proofs.Mailbox.Arrivals
import PeerDiscovery.Proofs.Mailbox.Routing
import PeerDiscovery.Proofs.Discovery.Entries
import PeerDiscovery.Proofs.Net.Literals
import PeerDiscovery.Proofs.Wire.Lengths
import PeerDiscovery.Proofs.Discovery.Introduction
import PeerDiscovery.Proofs.Mailbox.Acts
import PeerDiscovery.Proofs.Mailbox.Channel
import PeerDiscovery.Proofs.Mailbox.Cells
import PeerDiscovery.Proofs.Mailbox.Lifecycle
import PeerDiscovery.Proofs.Node.Starting
import PeerDiscovery.Proofs.Endpoint.Text
import PeerDiscovery.Proofs.Net.Ipv6
import PeerDiscovery.Proofs.Wire.Grammar
import PeerDiscovery.Proofs.Wire.Parsing
import PeerDiscovery.Proofs.Wire.Denotation
import PeerDiscovery.Proofs.Beacon.Decoding
import PeerDiscovery.Proofs.FactSet
import PeerDiscovery.Proofs.Envelope.Decoding
import PeerDiscovery.Proofs.Directory
import PeerDiscovery.Proofs.Roster
import PeerDiscovery.Proofs.Forum
import PeerDiscovery.Proofs.Mailbox.Listeners
import PeerDiscovery.Proofs.Discovery.Contacts
import PeerDiscovery.Proofs.Discovery.Subscribers
import PeerDiscovery.Proofs.Activity.Numbering
import PeerDiscovery.Proofs.Activity.Desks
import PeerDiscovery.Proofs.Activity.Correlation
import PeerDiscovery.Proofs.Framing.Cutting
import PeerDiscovery.Proofs.Beacon.Listening
import PeerDiscovery.Proofs.Courier.Conversation
import PeerDiscovery.Proofs.Node.Telling
import PeerDiscovery.Proofs.Node.Docket
import PeerDiscovery.Proofs.Node.Requests
import PeerDiscovery.Proofs.Beacon.Schedule
import PeerDiscovery.Proofs.Endpoint.Grammar
import PeerDiscovery.Proofs.Mailbox.Probing
import PeerDiscovery.Proofs.Beacon.Timing
import PeerDiscovery.Proofs.Beacon.Rota
import PeerDiscovery.Proofs.Net.Canonical
import PeerDiscovery.Proofs.Endpoint.Sockets
import PeerDiscovery.Proofs.Directory.Narrowing
import PeerDiscovery.Proofs.FactSet.Updates
import PeerDiscovery.Proofs.Envelope.Tolerance
import PeerDiscovery.Proofs.Envelope.ShortIds
import PeerDiscovery.Proofs.Net.Zeros
import PeerDiscovery.Proofs.Endpoint.Wildcards
import PeerDiscovery.Proofs.Discovery.Reaching
import PeerDiscovery.Proofs.Config.Reading
import PeerDiscovery.Proofs.Config.Precedence
