import Argvio.Storage.InstallArrivals

open List

namespace argvio.storage

open InstallState

/-- A column that the latest event sets, when that event has a value for it. -/
structure LastColumn (column : InstallState → Option String) (sent : InstallEvent → Option String) : Prop where
  new : ∀ e, column (.new e) = sent e
  fold : ∀ st e, column (st.fold e) = if e.at_ < st.lastSeen then column st else (sent e).or (column st)

theorem lastColumn_version : LastColumn lastVersion InstallEvent.version where
  new := fun _ => rfl
  fold := fun st e => by rw [fold_eq]

theorem lastColumn_os : LastColumn lastOS InstallEvent.os where
  new := fun _ => rfl
  fold := fun st e => by rw [fold_eq]

theorem lastColumn_arch : LastColumn lastArch InstallEvent.arch where
  new := fun _ => rfl
  fold := fun st e => by rw [fold_eq]

theorem firstVersion_fold (st : InstallState) (e : InstallEvent) : (st.fold e).firstVersion =
    if e.at_ < st.firstSeen then e.version.or st.firstVersion else st.firstVersion := by
  rw [fold_eq]

theorem firstSeen_fold (st : InstallState) (e : InstallEvent) : (st.fold e).firstSeen = min st.firstSeen e.at_ := by
  rw [fold_eq]

/-- The columns that follow the newest events. -/
inductive LastField where
  | version
  | os
  | arch
  deriving DecidableEq

namespace LastField

def sent : LastField → InstallEvent → Option String
  | .version => InstallEvent.version
  | .os => InstallEvent.os
  | .arch => InstallEvent.arch

def column : LastField → InstallState → Option String
  | .version => lastVersion
  | .os => lastOS
  | .arch => lastArch

theorem lastColumn : (f : LastField) → LastColumn f.column f.sent
  | .version => lastColumn_version
  | .os => lastColumn_os
  | .arch => lastColumn_arch

end LastField

theorem LastField.sent_stored (f : LastField) (e : InstallEvent) : f.sent e.stored = f.sent e := by
  cases f <;> rfl

/-- The install method an event reports. -/
def InstallEvent.method (e : InstallEvent) : Option String := if e.installMeth = "" then none else some e.installMeth

section LastSent

variable (sent : InstallEvent → Option String)

/-- What the last of some events to send a value sends, in the order given. -/
def lastSent (events : List InstallEvent) : Option String := events.foldl (fun v e => (sent e).or v) none

theorem foldl_or_eq (events : List InstallEvent) (v : Option String) :
    events.foldl (fun v e => (sent e).or v) v = (lastSent sent events).or v := by
  induction events generalizing v with
  | nil => rfl
  | cons e rest ih =>
    unfold lastSent
    rw [foldl_cons, foldl_cons, ih, ih ((sent e).or none), Option.or_none, Option.or_assoc]

theorem lastSent_cons (e : InstallEvent) (rest : List InstallEvent) :
    lastSent sent (e :: rest) = (lastSent sent rest).or (sent e) := by
  rw [lastSent, foldl_cons, foldl_or_eq, Option.or_none]

variable {events : List InstallEvent}

theorem filter_eq_self_of_sorted {e : InstallEvent} {t : Int} (ht : t ≤ e.at_)
    (hsorted : (e :: events).Pairwise (fun a b => a.at_ ≤ b.at_)) :
    (e :: events).filter (fun e => t ≤ e.at_) = e :: events := by
  rw [filter_eq_self]
  intro e' he'
  rcases mem_cons.mp he' with rfl | he'
  · exact decide_eq_true ht
  · exact decide_eq_true (ht.trans ((pairwise_cons.mp hsorted).1 e' he'))

end LastSent

section Columns

variable {f : LastField}

/-- Events in time order change a column from the row's newest event on. -/
theorem column_foldl (f : LastField) {events : List InstallEvent}
    (hsorted : events.Pairwise (fun a b => a.at_ ≤ b.at_)) (st : InstallState) :
    f.column (events.foldl fold st) =
      (lastSent f.sent (events.filter (fun e => st.lastSeen ≤ e.at_))).or (f.column st) := by
  induction events generalizing st with
  | nil => rfl
  | cons e rest ih =>
    rw [foldl_cons, ih (pairwise_cons.mp hsorted).2, f.lastColumn.fold, lastSeen_fold]
    by_cases holder : e.at_ < st.lastSeen
    · rw [if_pos holder, max_eq_left holder.le, filter_cons_of_neg (by simpa using holder)]
    have hle : st.lastSeen ≤ e.at_ := not_lt.mp holder
    have hrest : rest.filter (fun e' => e.at_ ≤ e'.at_) = rest :=
      filter_eq_self.mpr fun e' he' => decide_eq_true ((pairwise_cons.mp hsorted).1 e' he')
    rw [if_neg holder, max_eq_right hle, filter_eq_self_of_sorted hle hsorted, hrest, lastSent_cons, Option.or_assoc]

/-- What a run of events in time order leaves in a column. -/
theorem column_runEvents (f : LastField) {row : Option InstallState} {events : List InstallEvent} {st : InstallState}
    (hsorted : events.Pairwise (fun a b => a.at_ ≤ b.at_)) (hrun : runEvents row events = some st) :
    f.column st =
      (lastSent f.sent (events.filter (fun e => ∀ s ∈ row, s.lastSeen ≤ e.at_))).or (row.bind f.column) := by
  cases row with
  | some s =>
    cases hrun
    simpa using column_foldl f hsorted s
  | none =>
    cases events with
    | nil => cases hrun
    | cons first rest =>
      cases hrun
      have hnew : (new first).lastSeen = first.at_ := rfl
      rw [column_foldl f hsorted, hnew, filter_eq_self_of_sorted (le_refl _) hsorted, f.lastColumn.new, lastSent_cons,
        Option.or_assoc, Option.or_self]
      simp [lastSent_cons]

theorem installMethod_fold (st : InstallState) (e : InstallEvent) :
    (st.fold e).installMethod = e.method.or st.installMethod := by
  rw [fold_eq]
  unfold InstallEvent.method
  dsimp only
  split
  · rfl
  · rfl

theorem installMethod_foldl (events : List InstallEvent) (st : InstallState) :
    (events.foldl fold st).installMethod = (lastSent InstallEvent.method events).or st.installMethod := by
  induction events generalizing st with
  | nil => rfl
  | cons e rest ih => rw [foldl_cons, ih, installMethod_fold, lastSent_cons, Option.or_assoc]

end Columns

end argvio.storage
