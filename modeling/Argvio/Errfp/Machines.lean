import Argvio.Errfp.GoTraceback

open List

namespace argvio.errfp

/-- Two events are grouped alike: they have the same fingerprint and top frame, if any. -/
def Alike (a b : Option Result) : Prop :=
  a.map (fun r => (r.fingerprint, r.topFrame)) = b.map (fun r => (r.fingerprint, r.topFrame))

section Clean

variable {r r' : List (GoFrame × Place)} {message message' : String}

/-- In clean directories the same frames are grouped alike. -/
theorem alike_of_clean (hne : r ≠ []) (hframes : r.map Prod.fst = r'.map Prod.fst)
    (hclean : ∀ e ∈ r ++ r', Clean e.2.dir.path) :
    Alike (compute message (traceback r)) (compute message' (traceback r')) := by
  obtain ⟨hr, hr'⟩ := forall_mem_append.mp hclean
  have hne' : r' ≠ [] := by
    rintro rfl
    exact hne (map_eq_nil_iff.mp hframes)
  have hreduced : r.map (fun e => e.1.reduced) = r'.map (fun e => e.1.reduced) := by
    have hmap := congrArg (map GoFrame.reduced) hframes
    rwa [map_map, map_map] at hmap
  have hsame : frames (traceback r) = frames (traceback r') := by
    rw [frames_clean hne hr, frames_clean hne' hr', hreduced]
  obtain ⟨top, rest, htop⟩ : ∃ top rest, frames (traceback r) = top :: rest := by
    obtain ⟨e, r, rfl⟩ := exists_cons_of_ne_nil hne
    exact ⟨_, _, frames_clean hne hr⟩
  rw [Alike, compute_of_frames htop, compute_of_frames (hsame.symm.trans htop), Option.map_some, Option.map_some]

theorem topFrame_of_clean {f : GoFrame} {p : Place} (hclean : Clean p.dir.path) :
    (compute message (traceback [(f, p)])).map (fun r => r.topFrame) = some f.reduced := by
  have hframes : frames (traceback [(f, p)]) = [f.reduced] :=
    frames_clean (cons_ne_nil _ _) (forall_mem_singleton.mpr hclean)
  rw [compute_of_frames hframes, Option.map_some]

end Clean

section NotClean

variable {p : Place} {f f' : GoFrame}

theorem frames_single (f : GoFrame) (p : Place) :
    frames (traceback [(f, p)]) =
      let read := match reLocation.firstAt [] (f.location p) with
        | some m => (false, [frame (goFunc (String.ofList f.function.line)) (String.ofList ((m.group 1).getD []))])
        | none => readLines false [String.ofList ('\t' :: f.location p)]
      (if read.1 then read.2.reverse else read.2).take maxFrames := by
  have hread : readLines false ((tracebackLines [(f, p)]).map String.ofList) =
      match reLocation.firstAt [] (f.location p) with
        | some m => (false, [frame (goFunc (String.ofList f.function.line)) (String.ofList ((m.group 1).getD []))])
        | none => readLines false [String.ofList ('\t' :: f.location p)] := readLines_frame f p []
  rw [frames_traceback (cons_ne_nil _ _), hread]

/-- In another directory the file does not matter, or the function does not. -/
theorem frames_of_not_clean (hclean : ¬Clean p.dir.path) :
    (∀ f f' : GoFrame, f.function = f'.function → frames (traceback [(f, p)]) = frames (traceback [(f', p)])) ∨
      ∀ f f' : GoFrame, f.stem = f'.stem → frames (traceback [(f, p)]) = frames (traceback [(f', p)]) := by
  obtain ⟨m, hm⟩ | hnone := firstAt_of_not_clean hclean
  · refine .inl (fun f f' hfunction => ?_)
    have hlocated : ∀ f : GoFrame, reLocation.firstAt [] (f.location p) = some m := fun f => hm _
    rw [frames_single, frames_single, hlocated f, hlocated f', hfunction]
  · refine .inr (fun f f' hstem => ?_)
    have hhidden : ∀ f : GoFrame, reLocation.firstAt [] (f.location p) = none := fun f => hnone _
    have hlocation : f.location p = f'.location p := by
      rw [GoFrame.location, GoFrame.file, hstem, GoFrame.location, GoFrame.file]
    rw [frames_single, frames_single, hhidden f, hhidden f', hlocation]

end NotClean

/-- The root directory, which is clean. -/
def rootDirectory : Directory := ⟨['/'], rfl, by decide⟩

theorem clean_root : Clean rootDirectory.path := by decide

theorem spaceless_of_all {text : List Char} (h : text.all (fun c => !gostrings.isSpace c) = true) :
    ∀ c ∈ text, gostrings.isSpace c = false :=
  fun c hc => (Bool.not_eq_true' _).mp (all_eq_true.mp h c hc)

/-- Frames of two functions in two files. -/
def sampleFrame (fn file : Bool) : GoFrame where
  function :=
    .called ⟨['m', '.', if fn then 'f' else 'g'], cons_ne_nil _ _, spaceless_of_all (by cases fn <;> decide)⟩ []
      not_mem_nil
  unlocated := by cases fn <;> decide
  stem := [if file then 'a' else 'b']
  named := cons_ne_nil _ _
  identifier := all_eq_true.mp (by cases file <;> decide)

theorem reduced_sampleFrame :
    (sampleFrame true true).reduced = "m.f a.go" ∧ (sampleFrame true false).reduced = "m.f b.go" ∧
      (sampleFrame false true).reduced = "m.g a.go" := by
  decide +kernel

/-- The renderings of any frames, in a directory and in clean ones, are grouped alike exactly when
that directory is clean too. -/
theorem same_fingerprint_iff (d : Directory) (message message' : String) :
    (∀ r r' : List (GoFrame × Place), r ≠ [] → r.map Prod.fst = r'.map Prod.fst →
      (∀ e ∈ r ++ r', e.2.dir = d ∨ Clean e.2.dir.path) →
      Alike (compute message (traceback r)) (compute message' (traceback r'))) ↔ Clean d.path := by
  constructor
  · intro halike
    by_contra hclean
    let here : Place := ⟨d, 1, none⟩
    let there : Place := ⟨rootDirectory, 1, none⟩
    have htop : ∀ f : GoFrame, (compute message (traceback [(f, here)])).map (fun r => r.topFrame) = some f.reduced := by
      intro f
      have hsame := halike [(f, here)] [(f, there)] (cons_ne_nil _ _) rfl
        (by simp [here, there, clean_root])
      have htop := congrArg (Option.map Prod.snd) hsame
      rw [Option.map_map, Option.map_map] at htop
      exact htop.trans (topFrame_of_clean clean_root)
    have hreduced : ∀ f f' : GoFrame, frames (traceback [(f, here)]) = frames (traceback [(f', here)]) →
        f.reduced = f'.reduced := by
      intro f f' hframes
      have hcompute : compute message (traceback [(f, here)]) = compute message (traceback [(f', here)]) := by
        rw [compute, compute, hframes]
      rw [← Option.some_inj, ← htop f, ← htop f', hcompute]
    -- One of the function and the file is lost in this directory, and two frames that differ in it fall together.
    obtain ⟨hfile, hother, hfunction⟩ := reduced_sampleFrame
    obtain hlost | hlost := @frames_of_not_clean here hclean
    · have hequal := hreduced _ _ (hlost (sampleFrame true true) (sampleFrame true false) rfl)
      rw [hfile, hother] at hequal
      exact absurd hequal (by decide)
    · have hequal := hreduced _ _ (hlost (sampleFrame true true) (sampleFrame false true) rfl)
      rw [hfile, hfunction] at hequal
      exact absurd hequal (by decide)
  · intro hclean r r' hne hframes hdirs
    refine alike_of_clean hne hframes (fun e he => ?_)
    obtain hd | hd := hdirs e he
    · rwa [hd]
    · exact hd

def runFrame : GoFrame where
  function := .called ⟨['m', 'a', 'i', 'n', '.', 'r', 'u', 'n'], by decide, spaceless_of_all (by decide)⟩ [] (by decide)
  unlocated := by decide
  stem := ['r', 'u', 'n']
  named := by decide
  identifier := all_eq_true.mp (by decide)

def home : Place := ⟨⟨['/', 'h', 'o', 'm', 'e', '/', 'j', 'o'], rfl, by decide⟩, 11, some 0x1d⟩

def spacedHome : Place := ⟨⟨['/', 'h', 'o', 'm', 'e', '/', 'j', 'o', ' ', 'x'], rfl, by decide⟩, 11, some 0x1d⟩

theorem traceback_homes : traceback [(runFrame, home)] = "main.run()\n\t/home/jo/run.go:11 +0x1d" ∧
    traceback [(runFrame, spacedHome)] = "main.run()\n\t/home/jo x/run.go:11 +0x1d" := by
  decide +kernel

theorem frames_homes : frames "main.run()\n\t/home/jo/run.go:11 +0x1d" = ["main.run run.go"] ∧
    frames "main.run()\n\t/home/jo x/run.go:11 +0x1d" = ["<path> run.go"] ∧
    hash sourceStack ["main.run run.go"] ≠ hash sourceStack ["<path> run.go"] := by
  decide +kernel

/-- A home directory with a space in it hides the function, and its beginning takes its place. -/
theorem fingerprint_of_spaced_home :
    traceback [(runFrame, home)] = "main.run()\n\t/home/jo/run.go:11 +0x1d" ∧
      traceback [(runFrame, spacedHome)] = "main.run()\n\t/home/jo x/run.go:11 +0x1d" ∧
      (compute "" (traceback [(runFrame, home)])).map (fun r => r.topFrame) = some "main.run run.go" ∧
      (compute "" (traceback [(runFrame, spacedHome)])).map (fun r => r.topFrame) = some "<path> run.go" ∧
      (compute "" (traceback [(runFrame, home)])).map (fun r => r.fingerprint) ≠
        (compute "" (traceback [(runFrame, spacedHome)])).map (fun r => r.fingerprint) := by
  obtain ⟨htext, hspaced⟩ := traceback_homes
  obtain ⟨hframes, hframes', hhash⟩ := frames_homes
  rw [htext, hspaced, compute_of_frames hframes, compute_of_frames hframes']
  exact ⟨rfl, rfl, rfl, rfl, fun hsame => hhash (Option.some.inj hsame)⟩

end argvio.errfp
