import Argvio.GoTypes
import Argvio.Allowlist.Finalize

open gostrings

namespace argvio.allowlist

/-- What names, labels, reasons and dimension values have to match. -/
def identifierPattern : String := "^[a-z0-9][a-z0-9._-]*$"

/-- What a dimension key has to match. -/
def dimKeyPattern : String := "^[a-z0-9][a-z0-9._-]\x7b0,63\x7d$"

/-- The attributes of `schema/allowlist/v1.yaml`. -/
def v1Attributes : List (String × AttrSpec) := [
  ("cli.analytics.tier", { type := .string, enum := ["anonymous", "basic", "full", "optin_plus"], minTier := "anonymous" }),
  ("cli.command.name", { type := .string, maxLength := 128, minTier := "anonymous" }),
  ("cli.command.exit_code", { type := .int, minTier := "anonymous" }),
  ("cli.command.duration_ms", { type := .int, minTier := "anonymous" }),
  ("cli.process.peak_rss_bytes", { type := .int, minTier := "basic" }),
  ("cli.process.cpu_time_ms", { type := .int, minTier := "basic" }),
  ("cli.binary.size_bytes", { type := .int, minTier := "basic" }),
  ("cli.startup.duration_ms", { type := .int, minTier := "basic" }),
  ("cli.version", { type := .string, maxLength := 32, minTier := "anonymous" }),
  ("cli.os", { type := .string, enum := ["linux", "darwin", "windows", "other"], minTier := "anonymous" }),
  ("cli.arch", { type := .string, enum := ["amd64", "arm64", "386", "arm", "other"], minTier := "anonymous" }),
  ("cli.is_ci", { type := .bool, minTier := "anonymous" }),
  ("cli.ci_provider", { type := .string, maxLength := 64, minTier := "anonymous" }),
  ("cli.session_id", { type := .string, maxLength := 64, minTier := "basic" }),
  ("cli.install_id", { type := .string, maxLength := 64, minTier := "basic" }),
  ("cli.flag.names", { type := .stringArray, maxLength := 64, maxItems := 64, minTier := "basic" }),
  ("cli.shell", { type := .string, maxLength := 32, minTier := "basic" }),
  ("cli.terminal", { type := .string, maxLength := 32, minTier := "basic" }),
  ("cli.stdout.is_tty", { type := .bool, minTier := "basic" }),
  ("cli.runtime.name", { type := .string, maxLength := 32, minTier := "basic" }),
  ("cli.runtime.version", { type := .string, maxLength := 32, minTier := "basic" }),
  ("cli.config.customized_count", { type := .int, minTier := "basic" }),
  ("cli.auth.state", { type := .string, enum := ["authenticated", "anonymous", "unknown"], minTier := "basic" }),
  ("cli.error.type", { type := .string, maxLength := 128, minTier := "basic" }),
  ("cli.error.reason", { type := .string, maxLength := 64, pattern := identifierPattern, minTier := "basic" }),
  ("cli.error.message", { type := .string, maxLength := 2048, minTier := "full" }),
  ("cli.error.stacktrace", { type := .string, maxLength := 16384, minTier := "full" }),
  ("cli.help.flag", { type := .string, maxLength := 64, minTier := "anonymous" }),
  ("cli.install.method", { type := .string, maxLength := 32, minTier := "anonymous" }),
  ("cli.activation.feature", { type := .string, maxLength := 64, minTier := "basic" }),
  ("cli.command.suggestion", { type := .string, maxLength := 128, minTier := "basic" }),
  ("cli.counter.name", { type := .string, maxLength := 64, pattern := identifierPattern, minTier := "anonymous" }),
  ("cli.counter.label", { type := .string, maxLength := 64, pattern := identifierPattern, minTier := "anonymous" }),
  ("cli.measure.name", { type := .string, maxLength := 64, pattern := identifierPattern, minTier := "anonymous" }),
  ("cli.measure.label", { type := .string, maxLength := 64, pattern := identifierPattern, minTier := "anonymous" }),
  ("cli.value.name", { type := .string, maxLength := 64, pattern := identifierPattern, minTier := "anonymous" }),
  ("cli.value.label", { type := .string, maxLength := 64, pattern := identifierPattern, minTier := "anonymous" }),
  ("cli.value.unit", { type := .string, enum := ["1", "By", "%"], minTier := "anonymous" }),
  ("cli.dim.*",
    { type := .string, maxLength := 64, pattern := identifierPattern, keyPattern := dimKeyPattern, minTier := "anonymous" }),
  ("cli.args.raw", { type := .string, maxLength := 4096, minTier := "optin_plus" }),
  ("cli.env.vars", { type := .stringArray, maxLength := 256, maxItems := 64, minTier := "optin_plus" }),
  ("cli.host.name", { type := .string, maxLength := 256, minTier := "optin_plus" }),
  ("cli.user.name", { type := .string, maxLength := 128, minTier := "optin_plus" }),
  ("cli.path.raw", { type := .string, maxLength := 1024, minTier := "optin_plus" })]

def v1Metrics : List MetricDef := [
  { name := "cli.command.invocations", type := .sum, unit := "1", monotonic := true,
    allowedAttributes := ["cli.command.name", "cli.command.exit_code", "cli.version", "cli.os", "cli.arch",
      "cli.is_ci", "cli.ci_provider"] },
  { name := "cli.command.duration", type := .histogram, unit := "ms",
    allowedAttributes := ["cli.command.name", "cli.command.exit_code", "cli.version", "cli.os", "cli.arch",
      "cli.is_ci"] },
  { name := "cli.errors", type := .sum, unit := "1", monotonic := true,
    allowedAttributes := ["cli.command.name", "cli.error.type", "cli.error.reason", "cli.version", "cli.os",
      "cli.arch"] },
  { name := "cli.counter", type := .sum, unit := "1", monotonic := true, temporality := .delta,
    requiredAttributes := ["cli.counter.name"],
    allowedAttributes := ["cli.counter.name", "cli.counter.label", "cli.install_id", "cli.dim.*", "cli.command.name",
      "cli.version", "cli.os", "cli.arch", "cli.is_ci"] },
  { name := "cli.measure", type := .histogram, unit := "ms", temporality := .delta,
    explicitBounds := [1, 5, 10, 50, 100, 500, 1000, 5000, 10000, 60000, 300000].map .finite,
    requiredAttributes := ["cli.measure.name"],
    allowedAttributes := ["cli.measure.name", "cli.measure.label", "cli.install_id", "cli.dim.*", "cli.command.name",
      "cli.version", "cli.os", "cli.arch", "cli.is_ci"] },
  { name := "cli.value", type := .histogram, unit := "1", temporality := .delta,
    explicitBounds := [0, 1, 2, 5, 10, 20, 50, 100, 200, 500, 1000, 5000, 10000, 100000].map .finite,
    requiredAttributes := ["cli.value.name"],
    allowedAttributes := ["cli.value.name", "cli.value.label", "cli.value.unit", "cli.install_id", "cli.dim.*",
      "cli.command.name", "cli.version", "cli.os", "cli.arch", "cli.is_ci"] },
  { name := "cli.sessions.active", type := .gauge, unit := "1",
    allowedAttributes := ["cli.version", "cli.os", "cli.is_ci"] }]

def v1Spans : List SpanDef := [
  { namePattern := "cli.command.*",
    allowedAttributes := ["cli.command.name", "cli.command.exit_code", "cli.command.duration_ms",
      "cli.process.peak_rss_bytes", "cli.process.cpu_time_ms", "cli.version", "cli.os", "cli.arch", "cli.is_ci",
      "cli.ci_provider", "cli.flag.names", "cli.args.raw"] },
  { namePattern := "cli.subcommand.*",
    allowedAttributes := ["cli.command.name", "cli.command.exit_code", "cli.version", "cli.os", "cli.arch"] }]

def v1Logs : List LogDef := [
  { eventName := "cli.command.invoked",
    allowedAttributes := ["cli.command.name", "cli.version", "cli.os", "cli.arch", "cli.is_ci", "cli.ci_provider",
      "cli.session_id", "cli.install_id", "cli.flag.names"] },
  { eventName := "cli.command.completed",
    allowedAttributes := ["cli.command.name", "cli.command.exit_code", "cli.command.duration_ms", "cli.version",
      "cli.os", "cli.arch", "cli.session_id", "cli.install_id"] },
  { eventName := "cli.error.raised",
    allowedAttributes := ["cli.command.name", "cli.error.type", "cli.error.reason", "cli.error.message",
      "cli.error.stacktrace", "cli.version", "cli.os", "cli.arch", "cli.session_id", "cli.install_id"] },
  { eventName := "cli.command.unknown", dropBody := true,
    allowedAttributes := ["cli.command.suggestion", "cli.version", "cli.os", "cli.arch", "cli.is_ci"] },
  { eventName := "cli.help.viewed",
    allowedAttributes := ["cli.help.flag", "cli.command.name", "cli.version"] },
  { eventName := "cli.install.completed",
    allowedAttributes := ["cli.install.method", "cli.version", "cli.os", "cli.arch"] },
  { eventName := "cli.session.started",
    allowedAttributes := ["cli.session_id", "cli.install_id", "cli.install.method", "cli.binary.size_bytes",
      "cli.startup.duration_ms", "cli.version", "cli.os", "cli.arch", "cli.is_ci", "cli.shell", "cli.terminal",
      "cli.stdout.is_tty", "cli.runtime.name", "cli.runtime.version", "cli.config.customized_count",
      "cli.auth.state"] },
  { eventName := "cli.feature.activated",
    allowedAttributes := ["cli.activation.feature", "cli.command.name", "cli.version", "cli.session_id",
      "cli.install_id"] },
  { eventName := "cli.diagnostic.env",
    allowedAttributes := ["cli.env.vars", "cli.host.name", "cli.user.name", "cli.path.raw", "cli.version"] }]

/-- The taxonomy `schema/allowlist/v1.yaml`. -/
def v1File : SchemaFile where
  supportedSignalTypes := ["metrics", "logs", "traces"]
  standardResourceAttributes :=
    ["service.name", "service.version", "service.namespace", "telemetry.sdk.name", "telemetry.sdk.language",
      "telemetry.sdk.version"]
  consentTiers := [⟨"anonymous", 0⟩, ⟨"basic", 1⟩, ⟨"full", 2⟩, ⟨"optin_plus", 3⟩]
  attributes := GoMap.putAll ∅ v1Attributes
  metrics := v1Metrics
  spans := v1Spans
  logs := v1Logs

/-- `regexp.Compile` on the two expressions of the taxonomy. -/
structure V1Patterns (compile : RegexpCompiler) : Prop where
  identifier : compile identifierPattern = .ok ⟨isIdentifier⟩
  dimKey : compile dimKeyPattern = .ok ⟨isShortIdentifier⟩

/-- The two expressions of the taxonomy and no other. -/
def v1Compile : RegexpCompiler := fun pattern =>
  if pattern = identifierPattern then .ok ⟨isIdentifier⟩
  else if pattern = dimKeyPattern then .ok ⟨isShortIdentifier⟩
  else .error "unknown expression"

theorem v1Patterns_v1Compile : V1Patterns v1Compile := ⟨rfl, rfl⟩

theorem isSome_finalize_v1File : (finalize v1Compile v1File).toOption.isSome = true := by decide +kernel

@[irreducible] def v1Schema : Schema := (finalize v1Compile v1File).toOption.get isSome_finalize_v1File

theorem finalize_v1File : finalize v1Compile v1File = .ok v1Schema := by
  unfold v1Schema
  exact Except.eq_ok_of_isSome isSome_finalize_v1File

end argvio.allowlist
