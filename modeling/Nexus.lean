import Nexus.Wire.Binary
import Nexus.Wire.Protowire
import Nexus.Wire.Messages
import Nexus.IdUtil
import Nexus.Replicator.Basic
import Nexus.Replicator.Step
import Nexus.Replicator.Slots
import Nexus.Replicator.Apply
import Nexus.Replicator.Answers
import Nexus.Replicator.Envelope
import Nexus.Replicator.Ids
import Nexus.Cluster
import Nexus.Log
import Nexus.Routing
import Nexus.Progress
import Nexus.Completion
import Nexus.Runs
import Nexus.Replicator.Stored
import Nexus.Linearizable
import Nexus.Crashes
import Nexus.Members
