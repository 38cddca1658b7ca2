import GroupChat.Bytes.Hex
import GroupChat.Bytes.Base64
import GroupChat.OrderedSet.Lemmas
import GroupChat.Record.Cursor
import GroupChat.Signature.Ed25519
import GroupChat.Greet.Summary
import GroupChat.Greet.Wire
import GroupChat.Record.Appending
import GroupChat.Greet.Codec
import GroupChat.Depot
import GroupChat.Session.Limit
import GroupChat.Session.Transcript
import GroupChat.Proofs.Membership
import GroupChat.Proofs.Transition
import GroupChat.Proofs.Largest
import GroupChat.Proofs.Mailbox
import GroupChat.Proofs.Settlement
import GroupChat.Proofs.Announcement
import GroupChat.Proofs.Run
import GroupChat.Proofs.Step
import GroupChat.Proofs.Backlog
import GroupChat.Proofs.Consistency
import GroupChat.Proofs.Delivery
import GroupChat.Proofs.History
import GroupChat.Proofs.Session
import GroupChat.Proofs.Packets
import GroupChat.Proofs.Conflict
import GroupChat.Proofs.Commutation
import GroupChat.Proofs.Onlookers
import GroupChat.Proofs.Schedule
import GroupChat.Proofs.Convergence
import GroupChat.Proofs.Removal
import GroupChat.Proofs.GreetFields
import GroupChat.Proofs.SummaryFields
import GroupChat.Proofs.GreetGrammar
import GroupChat.Proofs.GreetRoundTrip
import GroupChat.Proofs.GreetSummary
import GroupChat.Proofs.GreetSignature
import GroupChat.Proofs.RecordStreams
import GroupChat.Proofs.WireRoundTrip
import GroupChat.Proofs.WireCategory
import GroupChat.Proofs.GreetCanonical
import GroupChat.Proofs.Scans
import GroupChat.Proofs.Moments
import GroupChat.Proofs.SetClasses
import GroupChat.Proofs.Retention
import GroupChat.Proofs.ChannelRuns
import GroupChat.Proofs.Deliveries
import GroupChat.Proofs.DeliveryOrder
import GroupChat.Proofs.NoticeChecks
import GroupChat.Proofs.SubscriptionTables
import GroupChat.Proofs.Publication
import GroupChat.Proofs.Cancellation
import GroupChat.Proofs.NetEffect
import GroupChat.Proofs.SetChanges
import GroupChat.Proofs.Requests
import GroupChat.Proofs.Base64Texts
import GroupChat.Proofs.Cursors
import GroupChat.Proofs.Words
import GroupChat.Proofs.GreetMixing
import GroupChat.Proofs.MarkedTexts
import GroupChat.Proofs.HexTexts
import GroupChat.Proofs.RecordWrites
import GroupChat.Proofs.CodecMessages
import GroupChat.Proofs.Observers
import GroupChat.Proofs.Logging
import GroupChat.Proofs.Returning
import GroupChat.Proofs.Handing
import GroupChat.Proofs.Sends
import GroupChat.Proofs.Tables
import GroupChat.Proofs.TableRuns
