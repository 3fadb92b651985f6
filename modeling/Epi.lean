import Epi.Library.Outcome
import Epi.Library.Effect
import Epi.Library.Binary64
import Epi.Library.OrderedMap
import Epi.Library.ByteParser
import Epi.Error
import Epi.Type.Term
import Epi.Type.Equals
import Epi.Type.Binding
import Epi.Type.Compound
import Epi.Type.Subst
import Epi.Type.Match
import Epi.Type.PatternMatch
import Epi.Type.MatchRefinement
import Epi.Type.SubstCorrect
import Epi.Type.MatchCorrect
import Epi.Type.ListPattern
import Epi.Buffer.Ei
import Epi.Buffer.ExternalFormat
import Epi.Buffer.OutputBuffer
import Epi.Buffer.InputBuffer
import Epi.Buffer.Item
import Epi.Buffer.Written
import Epi.Buffer.Received
import Epi.Buffer.RoundTrip
import Epi.Buffer.Agreement
import Epi.Node.PidOrder
import Epi.Library.Run
import Epi.Queue.GenericQueue
import Epi.Queue.History
import Epi.Library.Matching
import Epi.Queue.WakeUp
import Epi.Node.LocalNode
import Epi.Node.Message
import Epi.Type.MatchAnswers
import Epi.Node.MailBox
import Epi.Node.Receive
import Epi.Node.AutoNode
import Epi.Node.Registry
import Epi.Node.Failure
import Epi.Node.Acceptor
import Epi.Node.Cookie
import Epi.Node.AcceptorThread
import Epi.Node.ConnectionCookie
import Epi.Library.Counter
import Epi.Node.Counters
import Epi.Node.Conversion
import Epi.Node.Identifier
import Epi.Buffer.EIBuffer
import Epi.Buffer.Progress
import Epi.Buffer.Sequence
import Epi.Buffer.Tolerance
import Epi.Buffer.Strings
import Epi.Buffer.Identifiers
import Epi.Node.Name
import Epi.Node.Rewind
import Epi.Node.Sending
import Epi.Library.Exchange
import Epi.Library.Fifo
import Epi.Node.Calls
import Epi.Node.TimedCalls
import Epi.Node.MailBoxes
import Epi.Node.Messaging
import Epi.Node.Reuse
import Epi.Library.Acyclic
import Epi.Type.Pool
import Epi.Type.PoolInvariant
import Epi.Type.PoolTerms
import Epi.Type.TermPtr
import Epi.Type.TermPtrCounts
import Epi.Library.Worklist
import Epi.Type.Close
import Epi.Type.SubstVisits
import Epi.Type.SubstComplete
import Epi.Type.SubstExceptions
import Epi.Type.MatchExceptions
import Epi.Queue.TimedGet
import Epi.Type.TupleAccess
import Epi.Type.Tails
import Epi.Type.SearchUnbound
import Epi.Type.MatchCongruence
import Epi.Type.TermPtrReset
import Epi.Node.Guards
import Epi.Node.Dispatch
import Epi.Node.FailingGuards
import Epi.Node.Retries
import Epi.Type.SubstIncomplete
import Epi.Buffer.Rejected
import Epi.Buffer.Traces
import Epi.Type.Conses
import Epi.Type.ConsedTerms
import Epi.Parse.Format
import Epi.Parse.Conses
import Epi.Library.Machine
import Epi.Parse.Reading
import Epi.Parse.Descent
import Epi.Parse.Grammar
import Epi.Parse.Recognition
import Epi.Type.Printing
import Epi.Parse.Printing
import Epi.Parse.Bounds
import Epi.Parse.Acceptance
import Epi.Buffer.Conses
import Epi.Library.Relay
import Epi.Node.Wire
import Epi.Node.Growth
import Epi.Node.Network
import Epi.Node.NetworkOrder
import Epi.Node.NetworkDrain
import Epi.Library.Items
import Epi.Parse.Template
import Epi.Parse.Filling
import Epi.Parse.Inlining
import Epi.Library.Locking
import Epi.Node.Deadlock
import Epi.Type.MatchSubst
import Epi.Library.Selective
import Epi.Node.Selective
