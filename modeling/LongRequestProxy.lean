import LongRequestProxy.Delivery.Agreement
import LongRequestProxy.Delivery.Frames
import LongRequestProxy.Delivery.LastEventId
import LongRequestProxy.Delivery.LiveDelivery
import LongRequestProxy.Delivery.Overtaking
import LongRequestProxy.Delivery.Verdicts
import LongRequestProxy.Delivery.WebhookPayload
import LongRequestProxy.Executor.Attempts
import LongRequestProxy.Executor.ProgressReports
import LongRequestProxy.Executor.Repetitions
import LongRequestProxy.Executor.Secrecy
import LongRequestProxy.HttpRetry.Transient
import LongRequestProxy.Idempotency.Creations
import LongRequestProxy.Idempotency.Window
import LongRequestProxy.Maintenance.RetentionPeriod
import LongRequestProxy.Redis.ClusterNodes
import LongRequestProxy.Tasks.CancelAnswers
import LongRequestProxy.Tasks.Cancellation
import LongRequestProxy.Tasks.CreationAnswers
