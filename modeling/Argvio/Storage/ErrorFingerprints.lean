import Mathlib.Data.Finset.Sort
import Mathlib.Data.Prod.Lex
import Argvio.Errfp.Frames
import Argvio.GoTypes
import Argvio.Storage.Semver
import Argvio.Storage.Values

open argvio.allowlist argvio.errfp

namespace argvio.storage

/-- The ranks of the consent tiers, by name. -/
abbrev TierRanks := GoMap String Int

def errorSampleMaxLen : Nat := 512

structure ErrorFingerprintPoint where
  bucket : Int
  eventCount : Nat
  affectedInstalls : Nat
  deriving DecidableEq

structure ErrorFingerprint where
  fingerprint : String
  source : String
  message : Option String
  topFrame : Option String
  eventCount : Nat
  affectedInstalls : Nat
  firstSeen : Int
  lastSeen : Int
  commands : List String
  versions : List String
  trend : List ErrorFingerprintPoint
  deriving DecidableEq

/-- What one event's raw message and stack are shown as. -/
def errorSample (message stack : Option String) : String × Option String × Option String :=
  let res := (compute (message.getD "") (stack.getD "")).getD {}
  let nonEmpty (v : String) := if v = "" then none else some (truncate v errorSampleMaxLen)
  (res.source, nonEmpty res.message, nonEmpty res.topFrame)

/-- The raw message and stack of an event. -/
abbrev RawDetail := Option String × Option String

/-- What the query leaves to the database. -/
structure ErrorsEnv where
  dateTrunc : Bucket → Int → Int
  render : AttrValue → String
  /-- Which of the latest events of a fingerprint `DISTINCT ON` keeps. -/
  pick : Multiset RawDetail → Option RawDetail
  pick_isSome : ∀ s, s ≠ 0 → (pick s).isSome = true
  pick_mem : ∀ s d, pick s = some d → d ∈ s

section Readable

variable (tiers : TierRanks) (ceilings : GoMap UUID String) (tenant : UUID)

/-- The table `tier`. -/
def tierRows : List (String × Int) := tiers.entries.map (fun e => (e.1, wrapInt32 e.2))

/-- The table `readable`, given the column `tier_ceiling` of tenant_config. -/
def readable : List String :=
  match ceilings.lookup tenant with
  | none => []
  | some name =>
    ((tierRows tiers).filter (fun ceiling => ceiling.1 = name)).flatMap (fun ceiling =>
      ((tierRows tiers).filter (fun t => t.2 ≤ ceiling.2)).map Prod.fst)

end Readable

/-- A row of the table `ev`. -/
structure ErrorEvent where
  time : Int
  fp : String
  commandName : Option String
  cliVersion : Option String
  installID : Option String
  message : Option String
  stack : Option String
  deriving DecidableEq

def errorPredicates (tenant : UUID) (f : Filters) (r : LogRow) : Bool :=
  r.tenantID = tenant && r.eventName = eventName && decide (f.from_ ≤ r.time) && decide (r.time < f.to_) &&
    ifAnyStr f.commandNames r.commandName && ifAnyStr f.cliVersions r.cliVersion && ifAnyStr f.oses r.os &&
    ifAnyStr f.arches r.arch && f.isCI.all (r.isCI = some ·)

def errorEvent (env : ErrorsEnv) (r : LogRow) : Option ErrorEvent :=
  r.errorFingerprint.map (fun fp =>
    { time := r.time
      fp := fp
      commandName := r.commandName
      cliVersion := r.cliVersion
      installID := r.logAttributes.jsonText env.render attrInstallID
      message := r.logAttributes.jsonText env.render attrMessage
      stack := r.logAttributes.jsonText env.render attrStacktrace })

/-- The table `ev`. -/
def errorEvents (env : ErrorsEnv) (readable : List String) (tenant : UUID) (f : Filters) (logs : Multiset LogRow) :
    Multiset ErrorEvent :=
  (logs.filter (fun r => errorPredicates tenant f r = true ∧ r.consentTier ∈ readable)).filterMap (errorEvent env)

section Tables

variable (ev : Multiset ErrorEvent)

def fingerprints : Finset String := (ev.map ErrorEvent.fp).toFinset

def eventsWith (fp : String) : Multiset ErrorEvent := ev.filter (fun e => e.fp = fp)

/-- `count(DISTINCT install_id)`. -/
def affectedInstalls : Nat := (ev.filterMap ErrorEvent.installID).toFinset.card

/-- A row of the table `page`. -/
structure PageRow where
  fp : String
  eventCount : Nat
  affectedInstalls : Nat
  firstSeen : Int
  lastSeen : Int
  commands : List String
  versions : List String

def pageRow (fp : String) : PageRow :=
  let group := eventsWith ev fp
  let times := (group.map ErrorEvent.time).sort
  { fp := fp
    eventCount := group.card
    affectedInstalls := affectedInstalls group
    firstSeen := times.headD 0
    lastSeen := times.getLastD 0
    commands := (group.filterMap ErrorEvent.commandName).toFinset.sort
    versions := (group.filterMap ErrorEvent.cliVersion).toFinset.sort }

/-- `ORDER BY affected_installs DESC, event_count DESC, fp ASC`. -/
def rankKey (fp : String) : ℕᵒᵈ ×ₗ ℕᵒᵈ ×ₗ String :=
  toLex (.toDual (affectedInstalls (eventsWith ev fp)), toLex (.toDual (eventsWith ev fp).card, fp))

/-- The table `page`. -/
def pageTable (limit offset : Nat) : List PageRow :=
  (groupby.page offset limit ((fingerprints ev).image (rankKey ev)).sort).map (fun key => pageRow ev (ofLex (ofLex key).2).2)

/-- `ev JOIN page USING (fp)`. -/
def onPage (page : List PageRow) : Multiset ErrorEvent := ev.filter (fun e => e.fp ∈ page.map PageRow.fp)

/-- A row of the table `trend`. -/
structure TrendRow where
  fp : String
  buckets : List Int
  counts : List Nat
  installs : List Nat

def trendRow (bucketExpr : Int → Int) (fp : String) : TrendRow :=
  let group := eventsWith ev fp
  let buckets := (group.map (fun e => bucketExpr e.time)).toFinset.sort
  let inBucket (b : Int) := group.filter (fun e => bucketExpr e.time = b)
  { fp := fp
    buckets := buckets
    counts := buckets.map (fun b => (inBucket b).card)
    installs := buckets.map (fun b => affectedInstalls (inBucket b)) }

/-- The table `trend`. -/
def trendTable (bucketExpr : Int → Int) : List TrendRow := (fingerprints ev).sort.map (trendRow ev bucketExpr)

/-- A row of the table `sample`. -/
structure SampleRow where
  fp : String
  detail : RawDetail

/-- The raw details of the events no other comes after. -/
def latestDetails : Multiset RawDetail :=
  (ev.filter (fun e => ∀ e' ∈ ev, e'.time ≤ e.time)).map (fun e => (e.message, e.stack))

def sampleRow (env : ErrorsEnv) (fp : String) : Option SampleRow :=
  (env.pick (latestDetails (eventsWith ev fp))).map (fun detail => { fp, detail })

/-- The table `sample`. -/
def sampleTable (env : ErrorsEnv) : List SampleRow := (fingerprints ev).sort.filterMap (sampleRow ev env)

end Tables

/-- One turn of the loop over the rows. -/
def scanFingerprint (p : PageRow) (t : TrendRow) (s : SampleRow) : ErrorFingerprint :=
  let sample := errorSample s.detail.1 s.detail.2
  { fingerprint := p.fp
    source := sample.1
    message := sample.2.1
    topFrame := sample.2.2
    eventCount := p.eventCount
    affectedInstalls := p.affectedInstalls
    firstSeen := p.firstSeen
    lastSeen := p.lastSeen
    commands := p.commands.insertionSort (· ≤ ·)
    versions := p.versions.insertionSort (fun a b => compareVersionKeys (some a) (some b) ≠ .gt)
    trend := (t.buckets.zip (t.counts.zip t.installs)).map (fun b =>
      { bucket := b.1, eventCount := b.2.1, affectedInstalls := b.2.2 }) }

/-- The final SELECT, in the order of the page. -/
def joinFingerprints (page : List PageRow) (trend : List TrendRow) (sample : List SampleRow) :
    List ErrorFingerprint :=
  page.flatMap (fun p =>
    (trend.filter (fun t => t.fp = p.fp)).flatMap (fun t =>
      (sample.filter (fun s => s.fp = p.fp)).map (scanFingerprint p t)))

inductive FingerprintsError where
  | unsupportedBucket (b : Bucket)
  | negativeOffset
  deriving DecidableEq

def FingerprintsError.text (isPrint : Char → Bool) : FingerprintsError → String
  | .unsupportedBucket b => "storage: unsupported bucket " ++ gostrings.quote isPrint b.text
  | .negativeOffset => "storage: error fingerprints: ERROR: OFFSET must not be negative (SQLSTATE 2201X)"

/-- `ErrorFingerprints`, on the logs and on the ceilings of all tenants. -/
def errorFingerprints (env : ErrorsEnv) (tenant : UUID) (f : Filters) (bucket : Bucket) (tiers : TierRanks)
    (ceilings : GoMap UUID String) (logs : Multiset LogRow) : Except FingerprintsError (List ErrorFingerprint) :=
  if bucketRank bucket = none then .error (.unsupportedBucket bucket)
  else if f.offset < 0 then .error .negativeOffset
  else
    let ev := errorEvents env (readable tiers ceilings tenant) tenant f logs
    let page := pageTable ev (clampLimit f.limit).toNat f.offset.toNat
    let paged := onPage ev page
    .ok (joinFingerprints page (trendTable paged (env.dateTrunc bucket)) (sampleTable paged env))

end argvio.storage
