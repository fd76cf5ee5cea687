import Argvio.Otlp.Catalog
import Argvio.StampedCache

open stampedcache

namespace argvio.otlp

/-- Each tenant's rules for a TTL. The cache does not look into them. -/
structure CatalogCache (ρ : Type) where
  ttl : Int
  entries : UUID → Option (Entry ρ)

def minute : Int := 60 * 10 ^ 9

def newCatalogCache (ρ : Type) (ttl : Int) : CatalogCache ρ where
  ttl := if ttl ≤ 0 then minute else ttl
  entries := fun _ => none

section Rules

variable {ρ : Type}

/-- The part after the cache missed, given what the load returns. Errors are not kept. -/
def CatalogCache.loadRules (c : CatalogCache ρ) (tenantID : UUID) (now : Int) :
    Except String ρ → Except String ρ × CatalogCache ρ
  | .error err => (.error err, c)
  | .ok rules =>
    (.ok rules, { c with entries := Function.update c.entries tenantID (some ⟨rules, now + c.ttl⟩) })

/-- `rules`, for a request that no other interrupts. -/
def CatalogCache.rules (c : CatalogCache ρ) (tenantID : UUID) (now : Int) (load : Except String ρ) :
    Except String ρ × CatalogCache ρ :=
  match c.entries tenantID with
  | some e => if now < e.expires then (.ok e.value, c) else c.loadRules tenantID now load
  | none => c.loadRules tenantID now load

theorem newCatalogCache_ttl_pos (ttl : Int) : 0 < (newCatalogCache ρ ttl).ttl := by
  unfold newCatalogCache minute
  dsimp only
  split_ifs <;> omega

/-- `rules` answers from a live entry, or goes on to its load. -/
theorem CatalogCache.rules_cases (c : CatalogCache ρ) (tenantID : UUID) (now : Int) (load : Except String ρ) :
    (∃ e, c.entries tenantID = some e ∧ now < e.expires ∧ c.rules tenantID now load = (.ok e.value, c)) ∨
      (∀ e, c.entries tenantID = some e → e.expires ≤ now) ∧
        c.rules tenantID now load = c.loadRules tenantID now load := by
  unfold CatalogCache.rules
  cases c.entries tenantID with
  | none => exact .inr ⟨fun e he => (by cases he), rfl⟩
  | some e =>
    by_cases hlive : now < e.expires
    · exact .inl ⟨e, rfl, hlive, if_pos hlive⟩
    · refine .inr ⟨fun e' he' => ?_, if_neg hlive⟩
      cases he'
      exact Int.not_lt.mp hlive

end Rules

/-- The requests of a server and the catalogs they read. -/
abbrev CatalogSystem (ι : Type) := System ι UUID Catalog

/-- The system with one request further on and nothing else changed but the cache. -/
def CatalogSystem.after {ι : Type} [DecidableEq ι] (s : CatalogSystem ι) (i : ι) (p : Phase Catalog)
    (entries : UUID → Option (Entry (Loaded Catalog))) : CatalogSystem ι :=
  { s with phase := Function.update s.phase i p, entries := entries }

section Requests

variable {ι : Type} [DecidableEq ι] {tenantOf : ι → UUID} {initial : UUID → Catalog} {s : CatalogSystem ι} {i : ι}
  {c : CatalogCache (Loaded Catalog)}

theorem move_after {p p' : Phase Catalog} {entries : UUID → Option (Entry (Loaded Catalog))} {ttl : Int}
    (hmove : Move tenantOf initial (s.after i p entries) i p p') :
    Step tenantOf initial ttl (s.after i p entries) (s.after i p' (written ttl entries (tenantOf i) p')) := by
  have hphase : (s.after i p entries).phase i = p := Function.update_self ..
  have hnext : Move tenantOf initial (s.after i p entries) i ((s.after i p entries).phase i) p' := by
    rw [hphase]
    exact hmove
  have hstep : Step tenantOf initial ttl (s.after i p entries) _ := .move hnext
  simpa [CatalogSystem.after, Function.update_idem] using hstep

/-- A request by itself goes through the steps that `rules` stands for. -/
theorem rules_reaches (hidle : s.phase i = .idle) (hentries : s.entries = c.entries) (load : Except String (Loaded Catalog))
    (hload : ∀ l, load = .ok l → l = s.load initial (tenantOf i)) :
    ∃ p, Reaches tenantOf initial c.ttl s (s.after i p (c.rules (tenantOf i) s.now load).2.entries) ∧
      match (c.rules (tenantOf i) s.now load).1 with
      | .ok l => p.Uses s.now l
      | .error _ => p = .failed s.now := by
  have hread : Reaches tenantOf initial c.ttl s (s.after i (.read s.now) c.entries) := by
    have hsame : s.after i .idle c.entries = s := by
      rw [CatalogSystem.after, ← hidle, Function.update_eq_self, ← hentries]
    have hstep := @move_after ι _ tenantOf initial s i .idle _ c.entries c.ttl .read
    rw [hsame] at hstep
    exact .single hstep
  rcases c.rules_cases (tenantOf i) s.now load with ⟨e, hentry, hlive, hrules⟩ | ⟨hmiss, hrules⟩
  · rw [hrules]
    exact ⟨.hit s.now e.value, hread.tail (move_after (.hit hentry hlive)), .inr rfl⟩
  rw [hrules]
  have hmissed := hread.tail (move_after (.miss hmiss))
  cases load with
  | error err => exact ⟨.failed s.now, hmissed.tail (move_after .fail), rfl⟩
  | ok l =>
    have hloaded := hmissed.tail (move_after .load)
    rw [hload l rfl]
    exact ⟨_, hloaded.tail (move_after .store), .inl rfl⟩

/-- In every interleaving of requests with changes to the catalogs, a request answers from a
load, and one that reads the clock a TTL after a change or later from a load after it. Only
what a successful load returned is in the cache, and a live entry is answered from. -/
theorem catalog_changes_reach_ingest {ttl start : Int}
    (hrun : Reaches tenantOf initial (newCatalogCache (Loaded Catalog) ttl).ttl (.start start) s) :
    (∀ i n l, (s.phase i).Uses n l →
        (∃ later earlier, s.history (tenantOf i) = later ++ earlier ∧ l.changes = earlier.length ∧
          l.value = latest (initial (tenantOf i)) earlier) ∧
        ∀ after change before, s.history (tenantOf i) = after ++ change :: before →
          change.1 + (newCatalogCache (Loaded Catalog) ttl).ttl ≤ n → before.length < l.changes) ∧
      (∀ tenantID e, s.entries tenantID = some e →
        ∃ i n, tenantOf i = tenantID ∧ s.phase i = .stored n e.value) ∧
      (∀ i n, s.phase i = .failed n →
        ∀ s', Reaches tenantOf initial (newCatalogCache (Loaded Catalog) ttl).ttl s s' → s'.phase i = .failed n) ∧
      (∀ i n e, s.phase i = .read n → s.entries (tenantOf i) = some e → n < e.expires →
        ∀ s', Step tenantOf initial (newCatalogCache (Loaded Catalog) ttl).ttl s s' →
          s'.phase i = .read n ∨ s'.phase i = .hit n e.value) ∧
      ∀ i n l, s.phase i = .hit n l →
        ∀ s', Reaches tenantOf initial (newCatalogCache (Loaded Catalog) ttl).ttl s s' → s'.phase i = .hit n l := by
  have httl := @newCatalogCache_ttl_pos (Loaded Catalog) ttl
  have hconsistent := (consistent_start start).reaches httl hrun
  refine ⟨fun i n l huses => ?_, fun tenantID e hentry => ?_, fun i n hfailed s' hrun' => ?_,
    fun i n e hread hentry hlive s' hstep => hstep.phase_of_live hread hentry hlive, fun i n l hhit s' hrun' => ?_⟩
  · have hmissed := hconsistent.uses httl huses
    constructor
    · obtain ⟨later, earlier, hhistory, hchanges, hvalue, -⟩ := hmissed
      exact ⟨later, earlier, hhistory, hchanges, hvalue⟩
    · intro after change before hhistory hlate
      exact hmissed.lt_changes hhistory (Int.not_lt.mpr hlate)
  · obtain ⟨i, n, hkey, hphase, -⟩ := hconsistent.entries tenantID e hentry
    exact ⟨i, n, hkey, hphase⟩
  · exact hrun'.phase_eq hfailed (fun _ _ hmove => hmove.not_done.2.2 n rfl)
  · exact hrun'.phase_eq hhit (fun _ _ hmove => hmove.not_done.2.1 n l rfl)

end Requests

/-- A first request fills the cache, the catalog changes, and a second request a minute later
answers from a load after the change. -/
theorem catalog_changes_reach_ingest_minute_later :
    ∃ (s : CatalogSystem Bool) (l : Loaded Catalog) (v : Catalog),
      Reaches (fun _ => 7) (fun _ => ∅) (newCatalogCache (Loaded Catalog) 0).ttl (.start 0) s ∧
        s.history 7 = [(0, v)] ∧ (s.phase true).Uses minute l ∧ 0 < l.changes := by
  let c := newCatalogCache (Loaded Catalog) 0
  let s₀ : CatalogSystem Bool := .start 0
  obtain ⟨p, hfirst, -⟩ := @rules_reaches Bool _ (fun _ => 7) (fun _ => ∅) s₀ false c rfl rfl (.ok _)
    (fun l hl => (Except.ok.inj hl).symm)
  let s₁ : CatalogSystem Bool := s₀.after false p (c.rules 7 0 (.ok (s₀.load (fun _ => ∅) 7))).2.entries
  let s₂ : CatalogSystem Bool := { s₁ with history := Function.update s₁.history 7 ((s₁.now, ∅) :: s₁.history 7) }
  let s₃ : CatalogSystem Bool := { s₂ with now := minute }
  have hchange : Step (fun _ => 7) (fun _ => ∅) c.ttl s₁ s₂ := .change 7 ∅
  have htick : Step (fun _ => 7) (fun _ => ∅) c.ttl s₂ s₃ := .tick (show (0 : Int) ≤ minute by decide)
  obtain ⟨p', hsecond, huses⟩ := @rules_reaches Bool _ (fun _ => 7) (fun _ => ∅) s₃ true
    { c with entries := s₃.entries } rfl rfl (.ok _) (fun l hl => (Except.ok.inj hl).symm)
  have hrun := ((hfirst.tail hchange).tail htick).trans hsecond
  have hused : (Function.update s₃.phase true p' true).Uses minute (s₃.load (fun _ => ∅) 7) := by
    rw [Function.update_self]
    exact huses
  refine ⟨_, _, ∅, hrun, rfl, hused, ?_⟩
  exact ((catalog_changes_reach_ingest hrun).1 true minute _ hused).2 [] (0, ∅) [] rfl (by decide)

end argvio.otlp
