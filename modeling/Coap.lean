import Coap.Session.Background
import Coap.Session.Inbound
import Coap.Session.Outbound
import Coap.Proofs.Digits
import Coap.Proofs.Extended
import Coap.Proofs.Grammar
import Coap.Proofs.Reading
import Coap.Proofs.Datagram
import Coap.Proofs.Writing
import Coap.Proofs.Canonical
import Coap.Proofs.Action
import Coap.Proofs.AtMostOnce
import Coap.Proofs.OptionMap
import Coap.Proofs.RetrySchedule
import Coap.Proofs.Correlation
import Coap.Proofs.Deduplication
import Coap.Proofs.Replies
import Coap.Proofs.Run
import Coap.Proofs.Authentication
import Coap.Proofs.FreshIds
import Coap.Proofs.Answered
import Coap.Proofs.Awaited
import Coap.Proofs.Unsent
import Coap.Proofs.SweepEvents
import Coap.Proofs.Reopened
import Coap.Proofs.Aftermath
import Coap.Proofs.Refusal
import Coap.Proofs.Timers
import Coap.Proofs.Keepalive
import Coap.Proofs.Rejection
import Coap.Proofs.Footprint
import Coap.Proofs.Commuting
import Coap.Proofs.Repeated
import Coap.Proofs.UriText
import Coap.Proofs.HeaderFields
import Coap.Proofs.Truncation
import Coap.Proofs.Limits
import Coap.Proofs.UriReturn
import Coap.Proofs.Parameters
import Coap.Proofs.Waits
import Coap.Proofs.Allocation
import Coap.Proofs.InPlace
import Coap.Proofs.KeyByKey
import Coap.Proofs.Spellings
