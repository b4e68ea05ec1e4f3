import CidrTable.Subnet.Key
import CidrTable.Table.Decode
import CidrTable.Datum
import CidrTable.Binary64.Shortest
import CidrTable.Binary64.Numeral
import CidrTable.Text.Quoted
import CidrTable.Json.Reader
import CidrTable.Json.Writer
import CidrTable.Schema.Collection
import CidrTable.Schema.Policy
import CidrTable.Table.OfDatum
import CidrTable.Hook
import CidrTable.Telemetry
import CidrTable.Proofs.SharedBits
import CidrTable.Proofs.Netmask
import CidrTable.Proofs.LeadingBits
import CidrTable.Proofs.Nesting
import CidrTable.Proofs.Trie.Shape
import CidrTable.Proofs.Trie.Entries
import CidrTable.Proofs.LastWrite
import CidrTable.Proofs.Trie.Refinement
import CidrTable.Proofs.Trie.Canonical
import CidrTable.Proofs.Address.DottedQuad
import CidrTable.Proofs.Address.Groups
import CidrTable.Proofs.Address.Text
import CidrTable.Proofs.Address.Family
import CidrTable.Proofs.Subnet.Key
import CidrTable.Proofs.Subnet.Grammar
import CidrTable.Proofs.Fields
import CidrTable.Proofs.Table.Texts
import CidrTable.Proofs.Table.Arrangement
import CidrTable.Proofs.Table.Decode
import CidrTable.Proofs.Table.Represents
import CidrTable.Proofs.Table.LongestMatch
import CidrTable.Proofs.Table.Verdict
import CidrTable.Proofs.Table.Insertion
import CidrTable.Proofs.Datum
import CidrTable.Proofs.Table.RoundTrip
import CidrTable.Proofs.Json.Stored
import CidrTable.Proofs.Table.Outcome
import CidrTable.Proofs.Hook
import CidrTable.Proofs.Located
import CidrTable.Proofs.Table.Presented
import CidrTable.Proofs.Json.Finite
import CidrTable.Proofs.Table.OfText
import CidrTable.Proofs.Table.Stream
import CidrTable.Proofs.Order
import CidrTable.Proofs.Trie.Walk
import CidrTable.Proofs.Trie.Compressed
import CidrTable.Proofs.Table.Walk
import CidrTable.Proofs.Datum.BreaksOff
import CidrTable.Proofs.Table.Broken
import CidrTable.Proofs.Table.EntryOrder
import CidrTable.Proofs.Table.KeyKinds
import CidrTable.Proofs.Table.Records
import CidrTable.Proofs.Table.Counted
import CidrTable.Proofs.Subnet.Mapped
import CidrTable.Proofs.Guarded
import CidrTable.Proofs.Interval
import CidrTable.Proofs.Report
