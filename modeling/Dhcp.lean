import Dhcp.Main
import Dhcp.Server.Basic
import Dhcp.Proofs.PoolPartition
import Dhcp.Proofs.ReplyFields
import Dhcp.Proofs.Dispatch
import Dhcp.Proofs.Calls
import Dhcp.Proofs.Interleaving
import Dhcp.Proofs.FirstContact
import Dhcp.Proofs.Codec
import Dhcp.Proofs.Dropped
import Dhcp.Proofs.Honoured
import Dhcp.Proofs.ReplyOctets
import Dhcp.Proofs.OptionWalk
import Dhcp.Proofs.OptionGrammar
import Dhcp.Proofs.FixedPart
import Dhcp.Proofs.NextLease
import Dhcp.Proofs.Overrides
import Dhcp.Proofs.Decimal
import Dhcp.Proofs.TextOctets
import Dhcp.Proofs.Tokens
import Dhcp.Proofs.ConfigGrammar
import Dhcp.Proofs.SavedConfig
import Dhcp.Proofs.PoolSize
import Dhcp.Proofs.Settings
import Dhcp.Proofs.Truncation
import Dhcp.Proofs.ListLimits
import Dhcp.Proofs.ClientIdentity
import Dhcp.Proofs.Loopback
import Dhcp.Proofs.EventLog
import Dhcp.Proofs.TornText
import Dhcp.Proofs.TornFile
import Dhcp.Proofs.HostNames
import Dhcp.Proofs.LeaseList
import Dhcp.Proofs.AcceptedValues
import Dhcp.Proofs.MemberOrder
import Dhcp.Proofs.RefusedObjects
import Dhcp.Proofs.AssignedAddresses
import Dhcp.Proofs.Subnet
import Dhcp.Proofs.TextOrder
