import Argvio.Oidc.Introspect

open argvio.authn List

namespace argvio.oidc

namespace IntrospectionCache

variable {P : Digest → IntrospectionEntry → Prop} {c : IntrospectionCache} {key : Digest} {now : Int}

variable {e : IntrospectionEntry}

theorem lookup_of_get (h : (c.get key now).2 = some e) : c.lookup key = some e ∧ now < e.expiresAt := by
  unfold get at h
  cases hlookup : c.lookup key with
  | none => simp [hlookup] at h
  | some old =>
    by_cases hfresh : now < old.expiresAt
    · simp only [hlookup, if_pos hfresh, Option.some.injEq] at h
      subst h
      exact ⟨rfl, hfresh⟩
    · simp [hlookup, hfresh] at h

theorem forall_get (h : ∀ k e, c.lookup k = some e → P k e) : ∀ k e, (c.get key now).1.lookup k = some e → P k e := by
  unfold get
  split
  · exact h
  · split
    · exact h
    · exact GoMap.forall_lookup_erase h

theorem length_get_le : (c.get key now).1.entries.length ≤ c.entries.length := by
  unfold get
  split
  · exact Nat.le_refl _
  · split
    · exact Nat.le_refl _
    · exact GoMap.length_erase_le c key

theorem forall_put (h : ∀ k e, c.lookup k = some e → P k e) (hkey : P key e) :
    ∀ k e', (c.put key e now).lookup k = some e' → P k e' := by
  unfold put
  split
  · dsimp only
    split
    · exact GoMap.forall_lookup_keep h
    · exact GoMap.forall_lookup_insert (GoMap.forall_lookup_keep h) hkey
  · exact GoMap.forall_lookup_insert h hkey

theorem length_put_le (h : c.entries.length ≤ maxIntrospectionCacheEntries) :
    (c.put key e now).entries.length ≤ maxIntrospectionCacheEntries := by
  unfold put
  split
  · dsimp only
    split
    · exact Nat.le_trans (GoMap.length_keep_le _ _) h
    · rename_i hroom
      exact Nat.le_trans (GoMap.length_insert_le _ _ _) (Nat.lt_of_not_le hroom)
  · rename_i hfits
    by_cases hmem : key ∈ c
    · rw [GoMap.length_insert_of_mem hmem]
      exact h
    · have hlt : c.entries.length < maxIntrospectionCacheEntries :=
        Nat.lt_of_not_le (fun hfull => hfits ⟨hmem, hfull⟩)
      exact Nat.le_trans (GoMap.length_insert_le _ _ _) hlt

end IntrospectionCache

/-- How far the call that leads a flight has come. -/
inductive Stage where
  | started
  | asking
  | judged (e : IntrospectionEntry) (now : Int)
  | done (time : Int) (result : Except OIDCError Claims)

/-- A call to the provider that other calls for the same key may join. -/
structure IntroFlight where
  id : Nat
  token : String
  waiters : List String
  stage : Stage

/-- An answer of the provider, with the flight it was obtained in and the clock when it
was judged. -/
structure ProviderAnswer where
  flight : Nat
  token : String
  time : Int
  exchange : Exchange

/-- A call that has returned. `time` is the clock when its result was decided: when the
cache was read, or when the provider's answer was judged. `flight` is the flight that it
led or joined, if any. -/
structure IntroReturn where
  token : String
  time : Int
  flight : Option Nat
  result : Except OIDCError Claims

/-- A verifier and the calls on it, with the history of what was answered and returned. -/
structure Introspections where
  now : Int
  cache : IntrospectionCache := ∅
  waiting : List String := []
  flights : GoMap Digest IntroFlight := ∅
  started : Nat := 0
  answers : List ProviderAnswer := []
  returned : List IntroReturn := []

namespace Introspections

/-- A flight moves on to another stage. -/
def advance (s : Introspections) (key : Digest) (f : IntroFlight) (stage : Stage) : Introspections :=
  { s with flights := s.flights.insert key { f with stage := stage } }

/-- A step of one call, or of the clock. -/
inductive Step (v : Introspector) : Introspections → Introspections → Prop where
  | tick {s : Introspections} {t : Int} (hle : s.now ≤ t) : Step v s { s with now := t }
  | hit {s : Introspections} {token : String} {e : IntrospectionEntry}
      (hget : (s.cache.get (sum256 token) s.now).2 = some e) :
      Step v s
        { s with
          cache := (s.cache.get (sum256 token) s.now).1
          returned := ⟨token, s.now, none, e.result⟩ :: s.returned }
  | miss {s : Introspections} {token : String} (hget : (s.cache.get (sum256 token) s.now).2 = none) :
      Step v s { s with cache := (s.cache.get (sum256 token) s.now).1, waiting := token :: s.waiting }
  | lead {s : Introspections} {before after : List String} {token : String}
      (hwaiting : s.waiting = before ++ token :: after) (hnone : s.flights.lookup (sum256 token) = none) :
      Step v s
        { s with
          waiting := before ++ after
          started := s.started + 1
          flights := s.flights.insert (sum256 token) ⟨s.started, token, [token], .started⟩ }
  | join {s : Introspections} {before after : List String} {token : String} {f : IntroFlight}
      (hwaiting : s.waiting = before ++ token :: after) (hflight : s.flights.lookup (sum256 token) = some f) :
      Step v s
        { s with
          waiting := before ++ after
          flights := s.flights.insert (sum256 token) { f with waiters := token :: f.waiters } }
  -- The leading call reads the cache once more, which may have been filled meanwhile.
  | found {s : Introspections} {key : Digest} {f : IntroFlight} {e : IntrospectionEntry}
      (hflight : s.flights.lookup key = some f) (hstage : f.stage = .started)
      (hget : (s.cache.get key s.now).2 = some e) :
      Step v s { s.advance key f (.done s.now e.result) with cache := (s.cache.get key s.now).1 }
  | ask {s : Introspections} {key : Digest} {f : IntroFlight}
      (hflight : s.flights.lookup key = some f) (hstage : f.stage = .started)
      (hget : (s.cache.get key s.now).2 = none) :
      Step v s { s.advance key f .asking with cache := (s.cache.get key s.now).1 }
  | fail {s : Introspections} {key : Digest} {f : IntroFlight} {x : Exchange} {err : OIDCError}
      (hflight : s.flights.lookup key = some f) (hstage : f.stage = .asking) (hjudge : v.judge x s.now = .error err) :
      Step v s
        { s.advance key f (.done s.now (.error err)) with answers := ⟨f.id, f.token, s.now, x⟩ :: s.answers }
  | answer {s : Introspections} {key : Digest} {f : IntroFlight} {x : Exchange} {e : IntrospectionEntry}
      (hflight : s.flights.lookup key = some f) (hstage : f.stage = .asking) (hjudge : v.judge x s.now = .ok e) :
      Step v s { s.advance key f (.judged e s.now) with answers := ⟨f.id, f.token, s.now, x⟩ :: s.answers }
  | store {s : Introspections} {key : Digest} {f : IntroFlight} {e : IntrospectionEntry} {now : Int}
      (hflight : s.flights.lookup key = some f) (hstage : f.stage = .judged e now) :
      Step v s
        { s.advance key f (.done now e.result) with
          cache := if e.expiresAt > now then s.cache.put key e now else s.cache }
  | finish {s : Introspections} {key : Digest} {f : IntroFlight} {time : Int} {result : Except OIDCError Claims}
      (hflight : s.flights.lookup key = some f) (hstage : f.stage = .done time result) :
      Step v s
        { s with
          flights := s.flights.erase key
          returned := f.waiters.map (fun token => ⟨token, time, some f.id, result⟩) ++ s.returned }

def Reaches (v : Introspector) : Introspections → Introspections → Prop := Relation.ReflTransGen (Step v)

end Introspections

/-- What the calls of its flight get out of an answer. -/
def ProviderAnswer.verdict (a : ProviderAnswer) (v : Introspector) : Except OIDCError Claims :=
  v.judge a.exchange a.time >>= IntrospectionEntry.result

/-- A result for a key, decided at `time`, rests on an answer: one of the flight itself,
or one that was remembered and had not expired. -/
inductive RestsOn (v : Introspector) (answers : List ProviderAnswer) (key : Digest) (flight : Option Nat) (time : Int)
    (result : Except OIDCError Claims) : Prop where
  | obtained {a : ProviderAnswer} (hmem : a ∈ answers) (hkey : sum256 a.token = key) (hflight : flight = some a.flight)
      (htime : a.time = time) (hresult : a.verdict v = result)
  | remembered {a : ProviderAnswer} {e : IntrospectionEntry} (hmem : a ∈ answers) (hkey : sum256 a.token = key)
      (hjudge : v.judge a.exchange a.time = .ok e) (hle : a.time ≤ time) (hfresh : time < e.expiresAt)
      (hresult : e.result = result)

variable {v : Introspector} {answers answers' : List ProviderAnswer} {key : Digest}

theorem RestsOn.mono {flight : Option Nat} {time : Int} {result : Except OIDCError Claims}
    (h : RestsOn v answers key flight time result) (hsub : answers ⊆ answers') :
    RestsOn v answers' key flight time result := by
  cases h with
  | obtained hmem hkey hflight htime hresult => exact .obtained (hsub hmem) hkey hflight htime hresult
  | remembered hmem hkey hjudge hle hfresh hresult => exact .remembered (hsub hmem) hkey hjudge hle hfresh hresult

/-- An entry is what an answer for its key was judged to be. -/
def Remembers (v : Introspector) (answers : List ProviderAnswer) (key : Digest) (e : IntrospectionEntry) : Prop :=
  ∃ a ∈ answers, sum256 a.token = key ∧ v.judge a.exchange a.time = .ok e

theorem Remembers.mono {e : IntrospectionEntry} (h : Remembers v answers key e) (hsub : answers ⊆ answers') :
    Remembers v answers' key e := by
  obtain ⟨a, hmem, hkey, hjudge⟩ := h
  exact ⟨a, hsub hmem, hkey, hjudge⟩

def Stage.RestsOn (v : Introspector) (answers : List ProviderAnswer) (key : Digest) (id : Nat) : Stage → Prop
  | .started => True
  | .asking => True
  | .judged e now =>
    ∃ a ∈ answers, sum256 a.token = key ∧ a.flight = id ∧ a.time = now ∧ v.judge a.exchange now = .ok e
  | .done time result => oidc.RestsOn v answers key (some id) time result

theorem Stage.RestsOn.mono {id : Nat} {stage : Stage} (h : stage.RestsOn v answers key id) (hsub : answers ⊆ answers') :
    stage.RestsOn v answers' key id := by
  cases stage with
  | started | asking => trivial
  | judged e now =>
    obtain ⟨a, hmem, hrest⟩ := h
    exact ⟨a, hsub hmem, hrest⟩
  | done time result => exact oidc.RestsOn.mono h hsub

structure IntroFlight.Sound (v : Introspector) (answers : List ProviderAnswer) (key : Digest) (f : IntroFlight) :
    Prop where
  token : sum256 f.token = key
  waiters : ∀ token ∈ f.waiters, sum256 token = key
  stage : f.stage.RestsOn v answers key f.id

theorem IntroFlight.Sound.mono {f : IntroFlight} (h : f.Sound v answers key) (hsub : answers ⊆ answers') :
    f.Sound v answers' key :=
  ⟨h.token, h.waiters, h.stage.mono hsub⟩

namespace Introspections

/-- Everything that is remembered, under way or returned rests on the provider's
answers. -/
structure Sound (v : Introspector) (s : Introspections) : Prop where
  past : ∀ a ∈ s.answers, a.time ≤ s.now
  cached : ∀ key e, s.cache.lookup key = some e → Remembers v s.answers key e
  room : s.cache.entries.length ≤ maxIntrospectionCacheEntries
  flights : ∀ key f, s.flights.lookup key = some f → f.Sound v s.answers key
  returned : ∀ r ∈ s.returned, RestsOn v s.answers (sum256 r.token) r.flight r.time r.result

variable {v : Introspector} {s s' : Introspections}

theorem sound_start (now : Int) : Sound v { now := now } where
  past := by simp
  cached := by simp
  room := Nat.zero_le _
  flights := by simp
  returned := by simp

/-- What a read of the cache finds rests on an answer. -/
theorem Sound.restsOn_of_get (h : s.Sound v) {e : IntrospectionEntry} (hget : (s.cache.get key s.now).2 = some e)
    (flight : Option Nat) : RestsOn v s.answers key flight s.now e.result := by
  obtain ⟨hlookup, hfresh⟩ := IntrospectionCache.lookup_of_get hget
  obtain ⟨a, hmem, hkey, hjudge⟩ := h.cached key e hlookup
  exact .remembered hmem hkey hjudge (h.past a hmem) hfresh rfl

theorem Sound.readCache (h : s.Sound v) (key : Digest) : Sound v { s with cache := (s.cache.get key s.now).1 } :=
  { h with
    cached := IntrospectionCache.forall_get h.cached
    room := Nat.le_trans IntrospectionCache.length_get_le h.room }

variable {r : IntroReturn} {f : IntroFlight}

theorem Sound.setFlight (h : s.Sound v) (hf : f.Sound v s.answers key) :
    Sound v { s with flights := s.flights.insert key f } :=
  { h with flights := GoMap.forall_lookup_insert h.flights hf }

theorem Sound.advance (h : s.Sound v) (hflight : s.flights.lookup key = some f) {stage : Stage}
    (hstage : stage.RestsOn v s.answers key f.id) : (s.advance key f stage).Sound v :=
  h.setFlight ⟨(h.flights key f hflight).token, (h.flights key f hflight).waiters, hstage⟩

/-- The provider answers a flight now. -/
theorem Sound.answered (h : s.Sound v) (f : IntroFlight) (x : Exchange) :
    Sound v { s with answers := ⟨f.id, f.token, s.now, x⟩ :: s.answers } where
  past := by
    intro a ha
    rcases mem_cons.mp ha with rfl | ha
    · exact Int.le_refl _
    · exact h.past a ha
  cached := fun key e hlookup => (h.cached key e hlookup).mono (subset_cons_self _ _)
  room := h.room
  flights := fun key f hlookup => (h.flights key f hlookup).mono (subset_cons_self _ _)
  returned := fun r hr => (h.returned r hr).mono (subset_cons_self _ _)

theorem Sound.step (h : s.Sound v) (hstep : Step v s s') : s'.Sound v := by
  cases hstep with
  | tick hle => exact { h with past := fun a ha => Int.le_trans (h.past a ha) hle }
  | @hit token e hget =>
    have hread := h.readCache (sum256 token)
    exact { hread with returned := forall_mem_cons.mpr ⟨h.restsOn_of_get hget none, hread.returned⟩ }
  | @miss token hget => exact { h.readCache (sum256 token) with }
  | @lead before after token hwaiting hnone =>
    have hflight : IntroFlight.Sound v s.answers (sum256 token) ⟨s.started, token, [token], .started⟩ :=
      ⟨rfl, by simp, trivial⟩
    exact { h.setFlight hflight with }
  | @join before after token f hwaiting hflight =>
    have hsound := h.flights _ f hflight
    have hjoined : IntroFlight.Sound v s.answers (sum256 token) { f with waiters := token :: f.waiters } :=
      ⟨hsound.token, forall_mem_cons.mpr ⟨rfl, hsound.waiters⟩, hsound.stage⟩
    exact { h.setFlight hjoined with }
  | @found key f e hflight hstage hget =>
    exact (h.readCache key).advance hflight (h.restsOn_of_get hget (some f.id))
  | @ask key f hflight hstage hget => exact (h.readCache key).advance hflight trivial
  | @fail key f x err hflight hstage hjudge =>
    refine (h.answered f x).advance hflight (.obtained (mem_cons_self ..) (h.flights key f hflight).token rfl rfl ?_)
    simp [ProviderAnswer.verdict, hjudge, bind, Except.bind]
  | @answer key f x e hflight hstage hjudge =>
    exact (h.answered f x).advance hflight
      ⟨_, mem_cons_self .., (h.flights key f hflight).token, rfl, rfl, hjudge⟩
  | @store key f e now hflight hstage =>
    have hjudged := (h.flights key f hflight).stage
    rw [hstage] at hjudged
    obtain ⟨a, hmem, hkey, hid, rfl, hjudge⟩ := hjudged
    have hput : Sound v { s with cache := if e.expiresAt > a.time then s.cache.put key e a.time else s.cache } := by
      split
      · exact { h with
          cached := IntrospectionCache.forall_put h.cached ⟨a, hmem, hkey, hjudge⟩
          room := IntrospectionCache.length_put_le h.room }
      · exact h
    refine hput.advance hflight (.obtained hmem hkey (by rw [hid]) rfl ?_)
    simp [ProviderAnswer.verdict, hjudge, bind, Except.bind]
  | @finish key f time result hflight hstage =>
    have hsound := h.flights key f hflight
    have hrests := hsound.stage
    rw [hstage] at hrests
    refine { h with flights := GoMap.forall_lookup_erase h.flights, returned := ?_ }
    intro r hr
    rcases mem_append.mp hr with hr | hr
    · obtain ⟨token, htoken, rfl⟩ := mem_map.mp hr
      dsimp only
      rw [hsound.waiters token htoken]
      exact hrests
    · exact h.returned r hr

theorem sound_of_reaches {now : Int} (h : Reaches v { now := now } s) : s.Sound v := by
  induction h with
  | refl => exact sound_start now
  | tail _ hstep ih => exact ih.step hstep

/-- The tokens that the provider was asked about, and those of the calls that returned. -/
def tokens (s : Introspections) : List String := s.answers.map (fun a => a.token) ++ s.returned.map (fun r => r.token)

/-- Nothing is trusted, and nothing held against a token, for longer than configured. -/
structure Timely (v : Introspector) (s : Introspections) : Prop where
  claims : ∀ r ∈ s.returned, ∀ claims, r.result = .ok claims →
    ∃ a ∈ s.answers, a.token = r.token ∧ a.time ≤ r.time ∧
      v.callIntrospection a.exchange = .ok claims ∧ v.Acceptable claims a.time ∧
      ((r.flight = some a.flight ∧ r.time = a.time) ∨
        (r.time < a.time + v.cacheTTL ∧ ∀ exp, v.getExpirationTime claims = .ok (some exp) → r.time < exp))
  rejections : ∀ r ∈ s.returned, ∀ err, r.result = .error err →
    ∃ a ∈ s.answers, a.token = r.token ∧ a.time ≤ r.time ∧ a.verdict v = .error err ∧
      ((r.flight = some a.flight ∧ r.time = a.time) ∨ r.time < a.time + v.negativeCacheTTL)
  stored : ∀ key e, s.cache.lookup key = some e → ∀ detail, e.result ≠ .error (.providerUnavailable detail)
  room : s.cache.entries.length ≤ maxIntrospectionCacheEntries

/-- Without a collision among the tokens, an answer for a token's key is one for the token. -/
theorem token_eq_of_sum256 (hsum : Set.InjOn sum256 {token | token ∈ s.tokens}) {a : ProviderAnswer}
    (ha : a ∈ s.answers) (hr : r ∈ s.returned) (heq : sum256 a.token = sum256 r.token) : a.token = r.token :=
  hsum (mem_append_left _ (mem_map_of_mem ha)) (mem_append_right _ (mem_map_of_mem hr)) heq

section Claims

variable (h : s.Sound v) (hsum : Set.InjOn sum256 {token | token ∈ s.tokens}) (hr : r ∈ s.returned)

include h hsum hr

theorem Sound.claims {claims : Claims} (hclaims : r.result = .ok claims) :
    ∃ a ∈ s.answers, a.token = r.token ∧ a.time ≤ r.time ∧
      v.callIntrospection a.exchange = .ok claims ∧ v.Acceptable claims a.time ∧
      ((r.flight = some a.flight ∧ r.time = a.time) ∨
        (r.time < a.time + v.cacheTTL ∧ ∀ exp, v.getExpirationTime claims = .ok (some exp) → r.time < exp)) := by
  cases h.returned r hr with
  | @obtained a hmem hkey hflight htime hresult =>
    obtain ⟨e, hjudge, he⟩ := Except.bind_eq_ok_iff.mp (hresult.trans hclaims)
    obtain ⟨hcall, haccept⟩ := Introspector.acceptable_of_judge hjudge he
    exact ⟨a, hmem, token_eq_of_sum256 hsum hmem hr hkey, Int.le_of_eq htime, hcall, haccept,
      .inl ⟨hflight, htime.symm⟩⟩
  | @remembered a e hmem hkey hjudge hle hfresh hresult =>
    have he := hresult.trans hclaims
    obtain ⟨hcall, haccept⟩ := Introspector.acceptable_of_judge hjudge he
    have httl := Int.lt_of_lt_of_le hfresh (Introspector.expiresAt_le_of_accepted hjudge he)
    exact ⟨a, hmem, token_eq_of_sum256 hsum hmem hr hkey, hle, hcall, haccept,
      .inr ⟨httl, fun exp hexp => Introspector.lt_exp_of_accepted hjudge he hexp hle hfresh⟩⟩

theorem Sound.rejections {err : OIDCError} (herr : r.result = .error err) :
    ∃ a ∈ s.answers, a.token = r.token ∧ a.time ≤ r.time ∧ a.verdict v = .error err ∧
      ((r.flight = some a.flight ∧ r.time = a.time) ∨ r.time < a.time + v.negativeCacheTTL) := by
  cases h.returned r hr with
  | @obtained a hmem hkey hflight htime hresult =>
    exact ⟨a, hmem, token_eq_of_sum256 hsum hmem hr hkey, Int.le_of_eq htime, hresult.trans herr,
      .inl ⟨hflight, htime.symm⟩⟩
  | @remembered a e hmem hkey hjudge hle hfresh hresult =>
    have he := hresult.trans herr
    have hverdict : a.verdict v = .error err := by
      simp [ProviderAnswer.verdict, hjudge, he, bind, Except.bind]
    rw [Introspector.expiresAt_of_rejected hjudge he] at hfresh
    exact ⟨a, hmem, token_eq_of_sum256 hsum hmem hr hkey, hle, hverdict, .inr hfresh⟩

end Claims

/-- Whatever calls were made and however they interleaved, a result rests on an answer
that its own flight obtained or that was still within its time, trouble with the provider
is not remembered, and the cache stays within its size. -/
theorem introspections_timely {now : Int} (h : Reaches v { now := now } s)
    (hsum : Set.InjOn sum256 {token | token ∈ s.tokens}) : s.Timely v := by
  have hsound := sound_of_reaches h
  refine ⟨fun r hr claims hclaims => hsound.claims hsum hr hclaims,
    fun r hr err herr => hsound.rejections hsum hr herr, fun key e hlookup => ?_, hsound.room⟩
  obtain ⟨a, -, -, hjudge⟩ := hsound.cached key e hlookup
  exact Introspector.blamesToken_of_judge hjudge

end Introspections

/-- A verifier for the API "api", with lifetimes of a minute and of ten seconds. -/
def apiIntrospector : Introspector where
  issuerURL := "https://idp.example"
  audience := "api"
  requiredScopes := []
  endpoint := "https://idp.example/introspect"
  cacheTTL := 60
  negativeCacheTTL := 10
  isPrint := fun _ => true
  getIssuer := fun _ => none
  getAudience := fun claims =>
    match claims.lookup "aud" with
    | some (.str audience) => some [audience]
    | _ => none
  getExpirationTime := fun _ => .ok none
  getNotBefore := fun _ => .ok none

def activeClaims : Claims := (AList.singleton "active" (.other "true")).insert "aud" (.str "api")

def activeExchange : Exchange where
  discover := .error ""
  request := .ok ()
  response := .ok { status := 200, body := .ok activeClaims }

namespace Introspections

/-- One call asks the provider at 0, and a second one finds its answer at 59. -/
theorem introspections_timely_reused :
    ∃ s, Reaches apiIntrospector { now := 0 } s ∧
      (∃ r ∈ s.returned, r.time = 59 ∧ r.flight = none ∧ r.result = .ok activeClaims) ∧ s.Timely apiIntrospector := by
  have hjudge : apiIntrospector.judge activeExchange 0 = .ok ⟨.ok activeClaims, 60⟩ := rfl
  have hasked : Reaches apiIntrospector { now := 0 } _ :=
    (((Relation.ReflTransGen.single (@Step.miss apiIntrospector { now := 0 } "t" rfl)).tail
      (@Step.lead _ _ [] [] "t" rfl rfl)).tail
      (.ask (AList.lookup_insert _) rfl rfl)).tail
      (.answer (AList.lookup_insert _) rfl hjudge)
  have hfinished := (hasked.tail (.store (AList.lookup_insert _) rfl)).tail (.finish (AList.lookup_insert _) rfl)
  have hlater : (0 : Int) ≤ 59 := by decide
  have hcached : ((IntrospectionCache.put ∅ (sum256 "t") ⟨.ok activeClaims, 60⟩ 0).get (sum256 "t") 59).2 =
      some ⟨.ok activeClaims, 60⟩ := by
    unfold IntrospectionCache.put
    rw [if_neg (fun hfull => absurd hfull.2 (by decide)), IntrospectionCache.get, AList.lookup_insert]
    rfl
  have hreused := (hfinished.tail (.tick hlater)).tail (@Step.hit _ _ "t" ⟨.ok activeClaims, 60⟩ hcached)
  refine ⟨_, hreused, ⟨_, mem_cons_self .., rfl, rfl, rfl⟩, introspections_timely hreused ?_⟩
  -- Both calls are about the one token.
  have htoken : ∀ token ∈ ["t", "t", "t"], token = "t" := by decide
  intro token htokens token' htokens' _
  exact (htoken token htokens).trans (htoken token' htokens').symm

end Introspections

end argvio.oidc
