import Argvio.Otlp.SpanRuns
import Argvio.Storage.InstallRuns
import Argvio.Storage.InstallMethods
import Argvio.Otlp.DimLossless
import Argvio.Otlp.DimKeys
import Argvio.Otlp.MergedQuantiles
import Argvio.Authn.AdminOn
import Argvio.Oidc.KeyLookups
import Argvio.Otlp.Governed
import Argvio.Storage.CatalogTxns
import Argvio.Metricsapi.Computable
import Argvio.Tenant.Revocation
import Argvio.Oidc.Introspections
import Argvio.Otlp.OverflowRuns
import Argvio.Metricsapi.Retries
import Argvio.Consent.EffectiveTier
import Argvio.Otlp.LogBodies
import Argvio.Allowlist.MostSpecific
import Argvio.Otlp.StoredNames
import Argvio.Storage.ErrorCeiling
import Argvio.Storage.Plans
import Argvio.Otlp.ResentRows
import Argvio.Storage.InUse
import Argvio.Cli.Retention
import Argvio.Storage.ChangeLog
import Argvio.Storage.Backfill
import Argvio.Ratelimit.Limiter
import Argvio.Storage.Replays
import Argvio.Metricsapi.Tenants
import Argvio.Otlp.Transports
import Argvio.Otlp.CatalogCache
import Argvio.Oidc.Flights
import Argvio.Storage.BucketSizes
import Argvio.Storage.GroupTies
import Argvio.Storage.Listings
import Argvio.Storage.Footprint
import Argvio.Storage.Precedence
import Argvio.Errfp.Machines
import Argvio.Errfp.Named
import Argvio.Otlp.DimTuples
import Argvio.Storage.SessionSequences
import Argvio.Storage.GroupIdentity
import Argvio.Storage.ColdRuns
