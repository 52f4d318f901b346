import Nre.Shadowsocks.Handshake
import Nre.Shadowsocks.Sniffing
import Nre.Shadowsocks.Relay
import Nre.Shadowsocks.PanelSerial
import Nre.Shadowsocks.ServiceRuns
import Nre.PolicyGuest.Codec
import Nre.PolicyGuest.HostBudget
import Nre.IpPolicy.Trie
import Nre.IpPolicy.IndexSafe
import Nre.RateLimit.Decisions
import Nre.Waf.Overlay
import Nre.Waf.RuleIds
import Nre.DockerApp.Atomicity
import Nre.DockerApp.Risk
import Nre.DockerApp.ObjectKeys
import Nre.DockerApp.Extraction
import Nre.DockerApp.DeployRuns
import Nre.Doh.Overlap
import Nre.Doh.Shutdown
import Nre.Accelerator.TokenTiming
import Nre.Shadowsocks.QrCode
