import Argvio.Storage.InstallArrivals

open List

namespace argvio.storage

/-- An event without an install method has an empty one. -/
def InstallEvent.Reports (e : InstallEvent) : Prop := e.installMeth ≠ ""

instance (e : InstallEvent) : Decidable e.Reports := inferInstanceAs (Decidable (_ ≠ _))

structure NewestReport (events : List InstallEvent) (e : InstallEvent) : Prop where
  mem : e ∈ events
  reports : e.Reports
  newest : ∀ e' ∈ events, e'.Reports → e'.at_ ≤ e.at_

/-- What is to be stored for some events: the method of the newest report. -/
def LatestMethod (events : List InstallEvent) : Option String → Prop
  | none => ∀ e ∈ events, ¬ e.Reports
  | some method => ∃ e, NewestReport events e ∧ e.installMeth = method

def storedMethod (t : InstallTables) (k : InstallKey) : Option String := (t.installs k).bind InstallState.installMethod

/-- The last batch to arrive that has a report. -/
def lastReporting (batches : List (List InstallEvent)) : Option (List InstallEvent) :=
  (batches.filter (fun batch => batch.any (fun e => e.Reports))).getLast?

variable {events : List InstallEvent}

/-- The method of a row is that of the last event to report one, whatever its time. -/
theorem installMethod_runEvents {st : InstallState} (hrun : runEvents none events = some st) :
    st.installMethod = (events.filter (fun e => e.Reports)).getLast?.map InstallEvent.installMeth := by
  refine run_induction (P := fun events st =>
    st.installMethod = (events.filter (fun e => e.Reports)).getLast?.map InstallEvent.installMeth) ?_ ?_ hrun
  · intro e
    rw [InstallState.fold_eq]
    by_cases hmethod : e.installMeth = ""
    · simp [hmethod, InstallEvent.Reports, InstallState.new]
    · simp [hmethod, InstallEvent.Reports]
  · intro done st e _ ih
    rw [InstallState.fold_eq, filter_append, getLast?_append]
    by_cases hmethod : e.installMeth = ""
    · simp [hmethod, InstallEvent.Reports, ih]
    · simp [hmethod, InstallEvent.Reports]

theorem getLast?_filter_flatMap {α β : Type} (f : β → List α) (p : α → Bool) (bs : List β) :
    ((bs.flatMap f).filter p).getLast? =
      (bs.filter (fun b => (f b).any p)).getLast?.bind (fun b => ((f b).filter p).getLast?) := by
  induction bs using reverseRecOn with
  | nil => rfl
  | append_singleton bs b ih =>
    rw [flatMap_append, filter_append, filter_append, getLast?_append, getLast?_append, ih,
      flatMap_singleton]
    cases hany : (f b).any p with
    | false =>
      have hnil : (f b).filter p = [] := by
        rw [filter_eq_nil_iff]
        exact fun a ha hp => by simp [any_eq_false.mp hany a ha] at hp
      simp [hnil, hany]
    | true =>
      have hne : (f b).filter p ≠ [] := by
        obtain ⟨a, ha, hp⟩ := any_eq_true.mp hany
        exact ne_nil_of_mem (mem_filter.mpr ⟨ha, hp⟩)
      have hb : [b].filter (fun b => (f b).any p) = [b] := by simp [hany]
      rw [hb, getLast?_eq_some_getLast hne]
      exact (getLast?_eq_some_getLast hne).symm

theorem lastReport_storedByTime (events : List InstallEvent) :
    ((storedByTime events).filter (fun e => e.Reports)).getLast?.map InstallEvent.installMeth =
      ((byTime events).filter (fun e => e.Reports)).getLast?.map InstallEvent.installMeth := by
  have hstored : ((fun e : InstallEvent => decide e.Reports) ∘ InstallEvent.stored) = fun e => decide e.Reports := rfl
  rw [storedByTime, filter_map, hstored, getLast?_map, Option.map_map]
  rfl

theorem mem_reports_byTime {e : InstallEvent} :
    e ∈ (byTime events).filter (fun e => e.Reports) ↔ e ∈ events ∧ e.Reports := by
  rw [mem_filter, mem_byTime, decide_eq_true_eq]

/-- In order of time the last report is the newest. -/
theorem newestReport_getLast {e : InstallEvent} (h : ((byTime events).filter (fun e => e.Reports)).getLast? = some e) :
    NewestReport events e := by
  obtain ⟨before, hsplit⟩ := getLast?_eq_some_iff.mp h
  obtain ⟨hmem, hreports⟩ := mem_reports_byTime.mp (mem_of_getLast? h)
  refine ⟨hmem, hreports, ?_⟩
  intro e' he' hreports'
  have hmem' := mem_reports_byTime.mpr ⟨he', hreports'⟩
  have hpairwise := (byTime_pairwise events).filter (fun e => e.Reports)
  rw [hsplit] at hmem' hpairwise
  rcases mem_append.mp hmem' with hbefore | hlast
  · exact (pairwise_append.mp hpairwise).2.2 e' hbefore e mem_cons_self
  · rw [mem_singleton.mp hlast]

theorem exists_newestReport (h : ∃ e ∈ events, e.Reports) : ∃ e, NewestReport events e := by
  obtain ⟨e, he, hreports⟩ := h
  have hmem := mem_reports_byTime.mpr ⟨he, hreports⟩
  exact ⟨_, newestReport_getLast (getLast?_eq_some_getLast (ne_nil_of_mem hmem))⟩

theorem NewestReport.unique {events part : List InstallEvent} (hdistinct : (events.map InstallEvent.at_).Nodup)
    (hpart : ∀ e ∈ part, e ∈ events) {e e' : InstallEvent} (h : NewestReport part e) (h' : NewestReport part e') :
    e = e' := by
  have hle := h.newest e' h'.mem h'.reports
  have hge := h'.newest e h.mem h.reports
  exact inj_on_of_nodup_map hdistinct (hpart e h.mem) (hpart e' h'.mem) (le_antisymm hge hle)

section Arrivals

variable {t : InstallTables} {k : InstallKey} {events : List InstallEvent} {batches : List (List InstallEvent)}
  (hfresh : t.installs k = none) (hkey : ∀ e ∈ events, e.key = k) (hsplit : batches.flatten.Perm events)

theorem mem_of_mem_lastReporting {b : List InstallEvent} (hb : lastReporting batches = some b) :
    b ∈ batches ∧ ∃ e ∈ b, e.Reports := by
  obtain ⟨hmem, hany⟩ := mem_filter.mp (mem_of_getLast? hb)
  exact ⟨hmem, by simpa using hany⟩

include hfresh hkey hsplit

/-- The calls store the method of the newest report of the last batch that has one. -/
theorem storedMethod_foldl_trackInstalls : storedMethod (batches.foldl trackInstalls t) k =
    (lastReporting batches).bind (fun b =>
      ((byTime b).filter (fun e => e.Reports)).getLast?.map InstallEvent.installMeth) := by
  have hruns : storedMethod (batches.foldl trackInstalls t) k =
      ((arrivals batches k).filter (fun e => e.Reports)).getLast?.map InstallEvent.installMeth := by
    unfold storedMethod
    have hrow : StoredRow (t.installs k) := by rw [hfresh]; rfl
    rw [installs_foldl_trackInstalls hrow, hfresh]
    cases hrun : runEvents none (arrivals batches k) with
    | none =>
      cases harrivals : arrivals batches k with
      | nil => rfl
      | cons first rest =>
        rw [harrivals] at hrun
        cases hrun
    | some st => exact installMethod_runEvents hrun
  have hfilter : batches.filter (fun b => (storedByTime (eventsOf b k)).any (fun e => e.Reports)) =
      batches.filter (fun b => b.any (fun e => e.Reports)) := by
    refine filter_congr fun b hb => ?_
    rw [eventsOf_batch hkey hsplit hb, storedByTime, any_map]
    exact (perm_insertionSort _ b).any_eq
  rw [hruns]
  unfold arrivals
  rw [getLast?_filter_flatMap, hfilter]
  change Option.map _ ((lastReporting batches).bind _) = _
  cases hlast : lastReporting batches with
  | none => rfl
  | some b =>
    have hb := eventsOf_batch hkey hsplit (mem_of_mem_lastReporting hlast).1
    rw [Option.bind_some, Option.bind_some, hb, lastReport_storedByTime]

theorem install_method_latest_iff (hdistinct : (events.map InstallEvent.at_).Nodup) :
    LatestMethod events (storedMethod (batches.foldl trackInstalls t) k) ↔
      ∀ b, lastReporting batches = some b → ∀ last newest, NewestReport b last → NewestReport events newest →
        last.installMeth = newest.installMeth := by
  rw [storedMethod_foldl_trackInstalls hfresh hkey hsplit]
  cases hlast : lastReporting batches with
  | none =>
    -- No batch has a report, so that no event has one.
    refine iff_of_true ?_ fun b hb => nomatch hb
    intro e he hreports
    obtain ⟨b, hb, heb⟩ := mem_flatten.mp (hsplit.mem_iff.mpr he)
    have hnone := filter_eq_nil_iff.mp (getLast?_eq_none_iff.mp hlast) b hb
    exact hnone (any_eq_true.mpr ⟨e, heb, by simpa using hreports⟩)
  | some b =>
    obtain ⟨hb, e, he, hreports⟩ := mem_of_mem_lastReporting hlast
    have hpart : ∀ e ∈ b, e ∈ events := fun e he => hsplit.mem_iff.mp (mem_flatten.mpr ⟨b, hb, he⟩)
    have hstored := getLast?_eq_some_getLast (ne_nil_of_mem (mem_reports_byTime.mpr ⟨he, hreports⟩))
    have hlatest := newestReport_getLast hstored
    rw [Option.bind_some, hstored, Option.map_some]
    constructor
    · rintro ⟨e', hnewest', hmethod⟩ b' hb' last newest hlast' hnewest
      cases hb'
      rw [hlast'.unique hdistinct hpart hlatest, hnewest.unique hdistinct (fun _ => id) hnewest']
      exact hmethod.symm
    · intro hcond
      obtain ⟨newest, hnewest⟩ := exists_newestReport ⟨e, hpart e he, hreports⟩
      exact ⟨newest, hnewest, (hcond b rfl _ newest hlatest hnewest).symm⟩

end Arrivals

def methodEvent (at_ : Int) (installMeth : String) : InstallEvent where
  tenantID := 1
  installID := "i"
  at_ := at_
  version := none
  os := none
  arch := none
  completed := false
  exitCode := none
  installMeth := installMeth

/-- A late event without a method leaves that of the newest report. -/
theorem install_method_latest_iff_methodEvent :
    let t : InstallTables := ⟨fun _ => none, []⟩
    let older := methodEvent 1 "brew"
    let late := methodEvent 2 ""
    let newer := methodEvent 3 "npm"
    LatestMethod [older, late, newer] (storedMethod ([[older], [newer], [late]].foldl trackInstalls t) ⟨1, "i"⟩) := by
  intro t older late newer
  have hkey : ∀ e ∈ [older, late, newer], e.key = ⟨1, "i"⟩ := by decide
  have hsplit : [[older], [newer], [late]].flatten.Perm [older, late, newer] := by decide
  refine (install_method_latest_iff (t := t) rfl hkey hsplit (by decide)).mpr ?_
  intro b hb last newest hlast hnewest
  have hnewer : lastReporting [[older], [newer], [late]] = some [newer] := by decide
  cases hnewer.symm.trans hb
  have hsame : newest.at_ = 3 := by
    have hge : (3 : Int) ≤ newest.at_ := hnewest.newest newer (by decide) (by decide)
    have hle : ∀ e ∈ [older, late, newer], e.at_ ≤ 3 := by decide
    exact le_antisymm (hle newest hnewest.mem) hge
  have hnpm : ∀ e ∈ [older, late, newer], e.at_ = 3 → e.installMeth = "npm" := by decide
  rw [mem_singleton.mp hlast.mem, hnpm newest hnewest.mem hsame]
  rfl

/-- The newer of two reports arrives first, and the older one replaces it. -/
theorem storedMethod_replaced_by_older :
    let t : InstallTables := ⟨fun _ => none, []⟩
    let older := methodEvent 1 "brew"
    let newer := methodEvent 2 "npm"
    storedMethod ([[newer], [older]].foldl trackInstalls t) ⟨1, "i"⟩ = some "brew" ∧
      ¬ LatestMethod [newer, older] (storedMethod ([[newer], [older]].foldl trackInstalls t) ⟨1, "i"⟩) := by
  intro t older newer
  have hstored : storedMethod ([[newer], [older]].foldl trackInstalls t) ⟨1, "i"⟩ = some "brew" := by decide
  refine ⟨hstored, ?_⟩
  rw [hstored]
  rintro ⟨e, hnewest, hmethod⟩
  have hge : (2 : Int) ≤ e.at_ := hnewest.newest newer (by decide) (by decide)
  have hbrew : ∀ e ∈ [newer, older], e.installMeth = "brew" → e.at_ < 2 := by decide
  have hlt := hbrew e hnewest.mem hmethod
  omega

end argvio.storage
