import Loadpace.Adapter.Guarantees
import Loadpace.Adapter.TowerFailure
import Loadpace.Deadline
import Loadpace.Dns.Addresses
import Loadpace.Dns.Cache
import Loadpace.Dns.Refresh
import Loadpace.Dns.Expiry
import Loadpace.Lib.LockOrder
import Loadpace.Locks
import Loadpace.Lib.Loop
import Loadpace.Simulator
import Loadpace.Repeat
import Loadpace.Lib.Stations
import Loadpace.Simulator.Endpoints
import Loadpace.Simulator.Accounting
import Loadpace.Simulator.Passes
import Loadpace.Simulator.Report
import Loadpace.Simulator.Histories
import Loadpace.Simulator.Unprocessed
import Loadpace.Gating
import Loadpace.Growth
import Loadpace.Predictions
import Loadpace.Adapter.Pairs
import Loadpace.Adapter.Balancer
import Loadpace.Adapter.Selection
import Loadpace.Baseline
import Loadpace.Silence
import Loadpace.Representable
import Loadpace.Sustained
import Loadpace.Lib.Traps
import Loadpace.Lib.Bucket
import Loadpace.Saturation
import Loadpace.Throughput
import Loadpace.Lib.Contraction
import Loadpace.Settling
import Loadpace.Adapter.Histories
import Loadpace.Lib.Servers
import Loadpace.Simulator.Servers
import Loadpace.Adapter.BalancerHistories
import Loadpace.Lib.Sampling
import Loadpace.Adapter.Shares
import Loadpace.Lib.Outflow
import Loadpace.Adapter.Conservation
import Loadpace.Dns.Eviction
import Loadpace.Lib.Smoothing
import Loadpace.Averages
import Loadpace.Lib.Fair
import Loadpace.Adapter.Progress
import Loadpace.Adapter.Polling
import Loadpace.Adapter.Liveness
