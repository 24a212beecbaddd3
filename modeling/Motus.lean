import Motus.Foundation.Custody
import Motus.Foundation.Gather
import Motus.InMemory.System
import Motus.InMemory.Accounting
import Motus.InMemory.Capacity
import Motus.InMemory.Conservation
import Motus.InMemory.Order
import Motus.Amqp.Stream
import Motus.Amqp.Usability
import Motus.Amqp.Memory
import Motus.Amqp.Session
import Motus.Amqp.CppTransport
import Motus.Amqp.Frame
import Motus.Amqp.Teardown
import Motus.Amqp.SimpleTransport
import Motus.Amqp.Remembered
import Motus.Amqp.Shutdown
import Motus.InMemory.Shutdown
import Motus.Backends.Shutdown
import Motus.InMemory.Redeclaration
import Motus.Consumer.ByteMessage
import Motus.Backends.Redeclaration
import Motus.Backends.Routing
import Motus.InMemory.Calls
import Motus.InMemory.Settle
import Motus.Consumer.Counters
import Motus.Consumer.Settlements
import Motus.Consumer.Attempts
import Motus.Consumer.Retries
import Motus.InMemory.Bindings
import Motus.InMemory.Declarations
import Motus.InMemory.Undeclared
import Motus.InMemory.Forensic
import Motus.InMemory.Returns
import Motus.InMemory.Distinct
import Motus.Amqp.Backoff
import Motus.Amqp.Dispositions
import Motus.Amqp.HandlerFailures
import Motus.Logger.AsyncLogSink
import Motus.InMemory.Chain
import Motus.InMemory.Bounded
import Motus.InMemory.Pressure
import Motus.InMemory.Refusal
import Motus.Consumer.Policy
import Motus.Logger.Allocation
import Motus.Amqp.Readings
import Motus.Amqp.Inspection
import Motus.Publishing.Published
import Motus.Foundation.Ledger
import Motus.Foundation.Refinement
import Motus.Foundation.Numerals
import Motus.Amqp.Settlement
import Motus.Logger.Wakeups
import Motus.Logger.HexDump
import Motus.InMemory.Competition
import Motus.Consumer.Received
import Motus.Consumer.Acknowledged
import Motus.Consumer.Emptied
import Motus.Amqp.Recovery
import Motus.InMemory.Overshoot
import Motus.Publishing.Rendezvous
import Motus.Backends.OverSimple
