import Redsuite.WsDelivery
import Redsuite.MixedLoad
import Redsuite.Continuous
import Redsuite.Serialization
import Redsuite.RentOracle
import Redsuite.Restart
import Redsuite.Causal
import Redsuite.Settlement
import Redsuite.PayloadFault
import Redsuite.WsAttribution
import Redsuite.HttpRequests
import Redsuite.ScopeExclusion
import Redsuite.Bmf
import Redsuite.Metrics
import Redsuite.BoundedLoad
import Redsuite.FanoutWindows
import Redsuite.Quantile
import Redsuite.Reservoir
import Redsuite.Pacer
import Redsuite.ReceiptFetch
import Redsuite.RawWs
import Redsuite.AccountImages
import Redsuite.Wakeups
import Redsuite.Random
import Redsuite.Blockhash
import Redsuite.Catalog
import Redsuite.Identity
import Redsuite.Stamp
import Redsuite.Ports
import Redsuite.Prepare
import Redsuite.ReceiptLogs
