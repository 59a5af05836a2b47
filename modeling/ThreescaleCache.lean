import ThreescaleCache.Accounting
import ThreescaleCache.AppKeys
import ThreescaleCache.BoundedWaiting
import ThreescaleCache.Broadcast
import ThreescaleCache.CacheFilterRoot
import ThreescaleCache.CachedApps
import ThreescaleCache.Charging
import ThreescaleCache.ConcurrentQuota
import ThreescaleCache.Conservation
import ThreescaleCache.Credentials
import ThreescaleCache.DefaultBuild
import ThreescaleCache.Disposition
import ThreescaleCache.ExactCheck
import ThreescaleCache.HierarchyExpansion
import ThreescaleCache.HitTries
import ThreescaleCache.InFlight
import ThreescaleCache.Isolation
import ThreescaleCache.Linearization
import ThreescaleCache.LockFreedom
import ThreescaleCache.MemoryAccounting
import ThreescaleCache.MemoryCounter
import ThreescaleCache.PanicFreedom
import ThreescaleCache.Quota
import ThreescaleCache.QuotaBound
import ThreescaleCache.RateLimitHeaders
import ThreescaleCache.RateLimitInfos
import ThreescaleCache.RefusedRefresh
import ThreescaleCache.ReportKeys
import ThreescaleCache.Reporting
import ThreescaleCache.RequestFates
import ThreescaleCache.RequestPaths
import ThreescaleCache.SameApplication
import ThreescaleCache.SingletonRefinement
import ThreescaleCache.SingletonUpdates
import ThreescaleCache.SoundApplications
import ThreescaleCache.StoreSize
import ThreescaleCache.Tokens
import ThreescaleCache.UsageDrain
import ThreescaleCache.UsageLimits
import ThreescaleCache.Waiters
import ThreescaleCache.WokenWaiters
