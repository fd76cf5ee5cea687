import Argvio.Storage.InstallVersions

open List

namespace argvio.storage

open InstallState

section Planned

variable {A : List InstallEvent} {a : InstallState} (hA : runEvents none (storedByTime A) = some a)

include hA

end Planned

/-- The times of a row are determined by its events, the other columns have to be
compared. -/
theorem InstallState.Exact.ext {st st' : InstallState} {events : Set InstallEvent} (h : st.Exact events)
    (h' : st'.Exact events) (hfirst : st.firstVersion = st'.firstVersion) (hlast : ∀ f : LastField, f.column st = f.column st')
    (hmethod : st.installMethod = st'.installMethod) : st = st' := by
  have hseen := h.firstSeen.unique h'.firstSeen
  have hseen' := h.lastSeen.unique h'.lastSeen
  have hcommand := h.firstCommandAt.unique h'.firstCommandAt
  have hsuccess := h.firstSuccessAt.unique h'.firstSuccessAt
  have hversion : st.lastVersion = st'.lastVersion := hlast .version
  have hos : st.lastOS = st'.lastOS := hlast .os
  have harch : st.lastArch = st'.lastArch := hlast .arch
  cases st
  cases st'
  simp_all

section TwoWriters

variable {A B : List InstallEvent} {a b : InstallState} (hA : runEvents none (storedByTime A) = some a)
  (hB : runEvents none (storedByTime B) = some b)

include hA hB

end TwoWriters

variable {events : List InstallEvent} {k : InstallKey}

def sessionStart (at_ : Int) (version : Option String) (installMeth : String) : InstallEvent where
  tenantID := 1
  installID := "install"
  at_ := at_
  version := version
  os := none
  arch := none
  completed := false
  exitCode := none
  installMeth := installMeth

end argvio.storage
