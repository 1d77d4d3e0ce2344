import BabelQueue.App.Bounded
import BabelQueue.App.Shutdown
import BabelQueue.App.Survives
import BabelQueue.App.UnknownUrn
import BabelQueue.App.WriteBack
import BabelQueue.Codec.Make
import BabelQueue.Codec.NormalForm
import BabelQueue.EnvelopeShape.Grammar
import BabelQueue.Gdpr.Exact
import BabelQueue.Kafka.Delay
import BabelQueue.Kafka.NoLoss
import BabelQueue.Kafka.Reinject
import BabelQueue.Kafka.Settle
import BabelQueue.Otel
import BabelQueue.Outbox.Drain
import BabelQueue.PoisonRecord.Identifies
import BabelQueue.PoisonRecord.Surrogates
import BabelQueue.PoisonVerdict
import BabelQueue.Pulsar.Routing
import BabelQueue.Redrive.Inverse
import BabelQueue.Redrive.Poison
import BabelQueue.Redis.Laravel
import BabelQueue.Redis.Legacy
import BabelQueue.Redis.Unframe
import BabelQueue.Schema.Decides
import BabelQueue.Schema.Minimum
import BabelQueue.Transports.Delivery
import BabelQueue.Transports.Projection
import BabelQueue.Transports.Reconcile
