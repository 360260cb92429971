import SealedStore.Table
/-!
# Counters

What an engine counts: each counter adds up increments, and the one histogram counts its samples.
-/
namespace SealedStore

/-- Something that is counted. -/
inductive Metric where
  | recordsInitialized
  | writesCommitted
  | finalizeTotal
  | finalizeDuration
  | messagesPublished
  | messagesPublishFailed
  | messagesReceived
  | messagesRejected
  | messagesEchoDropped
  | writesReplicated
  | writesReplicationFailed
deriving DecidableEq, Repr

namespace Metric

/-- Every metric, in the order of its registration. -/
def all : List Metric :=
  [recordsInitialized, writesCommitted, finalizeTotal, finalizeDuration, messagesPublished,
    messagesPublishFailed, messagesReceived, messagesRejected,
    messagesEchoDropped, writesReplicated, writesReplicationFailed]

/-- The name under which a metric is exported. -/
def name : Metric → String
  | recordsInitialized => "confstore.records.initialized"
  | writesCommitted => "confstore.writes.committed"
  | finalizeTotal => "confstore.finalize.total"
  | finalizeDuration => "confstore.finalize.duration_ms"
  | messagesPublished => "confstore.messages.published"
  | messagesPublishFailed => "confstore.messages.publish_failed"
  | messagesReceived => "confstore.messages.received"
  | messagesRejected => "confstore.messages.rejected"
  | messagesEchoDropped => "confstore.messages.echo_dropped"
  | writesReplicated => "confstore.writes.replicated"
  | writesReplicationFailed => "confstore.writes.replication_failed"

/-- What a metric tells. -/
def about : Metric → String
  | recordsInitialized => "Records persisted by finalize"
  | writesCommitted => "Keyed values persisted by finalize"
  | finalizeTotal => "Successful finalize calls"
  | finalizeDuration => "Finalize duration in milliseconds"
  | messagesPublished => "Replication messages published"
  | messagesPublishFailed => "Replication messages the transport refused"
  | messagesReceived => "Replication messages consumed"
  | messagesRejected => "Replication messages failing validation"
  | messagesEchoDropped => "Own replication messages ignored"
  | writesReplicated => "Remote keyed values applied"
  | writesReplicationFailed => "Remote keyed values that could not be applied"

/-- Whether the metric is a histogram or a counter. -/
def kind : Metric → String
  | finalizeDuration => "histogram"
  | _ => "counter"

end Metric

/-- The total of each metric that was touched. -/
abbrev Metrics := Table Metric Nat

namespace Metrics

/-- The total of a metric. -/
def count (t : Metrics) (m : Metric) : Nat := (Table.find? t m).getD 0

/-- The totals after an increment. -/
def add (t : Metrics) (m : Metric) (n : Nat) : Metrics := Table.insert t m (count t m + n)

theorem count_add (t : Metrics) (m k : Metric) (n : Nat) :
    count (add t m n) k = if m = k then count t k + n else count t k := by
  unfold count add
  rw [Table.find?_insert]
  by_cases h : m = k
  · subst h; simp [count]
  · simp [h]

end Metrics
end SealedStore
