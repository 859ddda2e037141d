import Kvdb.Hold.Delete
import Kvdb.Hold.Sequence
import Kvdb.Hold.SequenceOrder
import Kvdb.Hold.Lifecycle
import Kvdb.Hold.SequenceSessions
