import TelemetryForge.Autonomy.Controller
import TelemetryForge.Change.Marker
import TelemetryForge.Connectors.Prometheus
import TelemetryForge.Costsim.Series
import TelemetryForge.Ebpf.Agent
import TelemetryForge.Edge.Replay
import TelemetryForge.Fastpath.Ring
import TelemetryForge.Incident.Identifiers
import TelemetryForge.Incidentarchive.MemberName
import TelemetryForge.Lifecycle.Gate
import TelemetryForge.Mesh.Manager
import TelemetryForge.Multicloudproof.Fabric
import TelemetryForge.Policy.Budgets
import TelemetryForge.Policy.Frame
import TelemetryForge.Reliability.Backoff
import TelemetryForge.Replication.Domains
import TelemetryForge.Router.Fallbacks
import TelemetryForge.Schema.Paths
import TelemetryForge.Shaping.Explained
import TelemetryForge.Shaping.Preview
import TelemetryForge.Stream.Consumer
import TelemetryForge.Wal.Pressure
import TelemetryForge.Wal.Tamper
import TelemetryForge.Wal.TornTail
import TelemetryForge.Wasmplugin.Binary
import TelemetryForge.Worker.Pool
