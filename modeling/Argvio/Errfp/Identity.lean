import Argvio.Errfp.Frames

open List

namespace argvio.errfp

open gostrings goregexp.Regex
open gobytes (hexString)

section Newlines

variable {s : String} {c : Char}

theorem mem_of_mem_trimSpace (h : c ∈ (trimSpace s).toList) : c ∈ s.toList := by
  rw [trimSpace_eq, String.toList_ofList, mem_reverse] at h
  have hfront := (dropWhile_sublist isSpace).subset h
  exact (dropWhile_sublist isSpace).subset (mem_reverse.mp hfront)

/-- Whitespace is collapsed last, so that no newline is left. -/
theorem newline_notMem_normalizeMessage (s : String) : '\n' ∉ (normalizeMessage s).toList := by
  intro hmem
  have hspaced := mem_of_mem_trimSpace hmem
  rw [String.toList_ofList] at hspaced
  refine @forall_mem_replaceAll_plus_one space _ (· ≠ '\n') _ ?_ ?_ '\n' hspaced rfl
  · rintro c hc rfl
    cases hc
  · intro m c hc
    rw [mem_singleton.mp hc]
    decide

theorem newline_notMem_frame (fn file : String) : '\n' ∉ (frame fn file).toList := by
  intro hmem
  have hjoined := mem_of_mem_trimSpace hmem
  rw [String.toList_append, String.toList_append, mem_append, mem_append] at hjoined
  obtain (hfn | hspace) | hfile := hjoined
  · exact newline_notMem_normalizeMessage _ hfn
  · exact absurd hspace (by decide)
  · exact newline_notMem_normalizeMessage _ hfile

end Newlines

section Read

variable {line raw f : String} {next : Option String} {P : String → Prop}

theorem genericFrame_frame (hframe : ∀ fn file, P (frame fn file)) (h : genericFrame line = some f) : P f := by
  rw [genericFrame] at h
  simp only at h
  split_ifs at h
  split at h
  · rw [← Option.some.inj h]
    exact hframe _ _
  · split at h <;> rw [← Option.some.inj h] <;> exact hframe _ _

theorem goFrame_frame (hframe : ∀ fn file, P (frame fn file)) (h : goFrame line next = some f) : P f := by
  cases next with
  | none => cases h
  | some next =>
    rw [goFrame] at h
    split_ifs at h
    split at h
    · split_ifs at h
      rw [← Option.some.inj h]
      exact hframe _ _
    · cases h

/-- The frame of a line that is one, by itself or with the next. -/
def LineRead.frame? : LineRead → Option String
  | .nothing | .traceback => none
  | .single f | .pair f => some f

/-- Every frame that is read is one of a function and a file. -/
theorem readLine_frame (hframe : ∀ fn file, P (frame fn file)) (h : (readLine raw next).frame? = some f) : P f := by
  simp only [readLine] at h
  split_ifs at h
  · cases h
  · cases h
  · split at h
    · rw [← Option.some.inj h]
      exact hframe _ _
    · split at h
      case h_1 hgo => exact goFrame_frame hframe (Option.some.inj h ▸ hgo)
      · split at h
        case h_1 hgeneric => exact genericFrame_frame hframe (Option.some.inj h ▸ hgeneric)
        · cases h

theorem readLines_frame_all (hframe : ∀ fn file, P (frame fn file)) (skip : Bool) (lines : List String) :
    ∀ f ∈ (readLines skip lines).2, P f := by
  induction lines generalizing skip with
  | nil => exact nofun
  | cons raw rest ih =>
    rw [readLines]
    split_ifs
    · exact ih false
    split
    · exact ih false
    · exact ih false
    case h_3 f hread => exact forall_mem_cons.mpr ⟨readLine_frame hframe (congrArg LineRead.frame? hread), ih false⟩
    case h_4 f hread => exact forall_mem_cons.mpr ⟨readLine_frame hframe (congrArg LineRead.frame? hread), ih true⟩

theorem frames_all (hframe : ∀ fn file, P (frame fn file)) (stack : String) : ∀ f ∈ frames stack, P f := by
  intro f hf
  have hread := mem_of_mem_take hf
  split_ifs at hread
  · exact readLines_frame_all hframe _ _ f (mem_reverse.mp hread)
  · exact readLines_frame_all hframe _ _ f hread

end Read

section Digests

/-- The bytes a fingerprint is the hash of. -/
def hashed (source : String) (lines : List String) : gobytes.Text :=
  gobytes.ofString (version ++ "\n" ++ source ++ "\n" ++ "\n".intercalate lines)

/-- The first 64 bits of the digest of some bytes. -/
def digest64 (bytes : gobytes.Text) : List UInt8 := (sha256.sum256 bytes).take 8

theorem digitChar_inj {m n : ℕ} (hm : m < 16) (hn : n < 16) (h : Nat.digitChar m = Nat.digitChar n) : m = n := by
  have hdigits : ∀ m n : Fin 16, Nat.digitChar m = Nat.digitChar n → m = n := by decide
  exact Fin.mk.inj (hdigits ⟨m, hm⟩ ⟨n, hn⟩ h)

theorem hexString_cons (b : UInt8) (bytes : List UInt8) :
    hexString (b :: bytes) = Nat.digitChar (b.toNat / 16) :: Nat.digitChar (b.toNat % 16) :: hexString bytes := rfl

theorem take_hexString (n : ℕ) (bytes : List UInt8) : (hexString bytes).take (2 * n) = hexString (bytes.take n) := by
  induction n generalizing bytes with
  | zero => rfl
  | succ n ih =>
    cases bytes with
    | nil => rfl
    | cons b bytes =>
      rw [take_succ_cons, hexString_cons, hexString_cons, Nat.mul_succ, take_succ_cons, take_succ_cons, ih]

theorem hexString_inj {a b : List UInt8} : hexString a = hexString b ↔ a = b := by
  refine ⟨fun h => ?_, congrArg hexString⟩
  induction a generalizing b with
  | nil =>
    cases b with
    | nil => rfl
    | cons y b => cases h
  | cons x a ih =>
    cases b with
    | nil => cases h
    | cons y b =>
      rw [hexString_cons, hexString_cons] at h
      obtain ⟨hhigh, hrest⟩ := cons.inj h
      obtain ⟨hlow, hrest⟩ := cons.inj hrest
      have hx := x.toNat_lt
      have hy := y.toNat_lt
      have hhigh := digitChar_inj (by omega) (by omega) hhigh
      have hlow := digitChar_inj (by omega) (by omega) hlow
      have hbyte : x = y := UInt8.toNat_inj.mp (by omega)
      rw [hbyte, ih hrest]

/-- Fingerprints are equal exactly when the first 64 bits of the digests are. -/
theorem hash_inj {source source' : String} {lines lines' : List String} :
    hash source lines = hash source' lines' ↔ digest64 (hashed source lines) = digest64 (hashed source' lines') := by
  rw [hash, hash, String.ofList_inj, take_hexString 8, take_hexString 8, hexString_inj]
  rfl

/-- Lines without a newline in them are told apart in what is hashed. -/
theorem hashed_inj {source source' : String} {lines lines' : List String} (hne : lines ≠ []) (hne' : lines' ≠ [])
    (hfree : ∀ l ∈ source :: lines, '\n' ∉ l.toList) (hfree' : ∀ l ∈ source' :: lines', '\n' ∉ l.toList) :
    hashed source lines = hashed source' lines' ↔ source = source' ∧ lines = lines' := by
  have hjoin : ∀ {source : String} {lines : List String}, lines ≠ [] →
      (version ++ "\n" ++ source ++ "\n" ++ "\n".intercalate lines).toList =
        ['\n'].intercalate ((version :: source :: lines).map String.toList) := by
    intro source lines hne
    obtain ⟨l, rest, rfl⟩ := exists_cons_of_ne_nil hne
    have hlist : ['\n'] = "\n".toList := rfl
    rw [hlist, ← String.toList_intercalate, String.intercalate_cons_cons, String.intercalate_cons_cons,
      String.append_assoc, String.append_assoc, String.append_assoc]
    simp only [String.append_assoc]
  have hsplit : ∀ {source : String} {lines : List String}, (∀ l ∈ source :: lines, '\n' ∉ l.toList) →
      splitOn '\n' (['\n'].intercalate ((version :: source :: lines).map String.toList)) =
        (version :: source :: lines).map String.toList := by
    intro source lines hfree
    refine splitOn_intercalate '\n' (forall_mem_map.mpr ?_) (cons_ne_nil _ _)
    exact forall_mem_cons.mpr ⟨by decide, hfree⟩
  constructor
  · intro h
    have htext := congrArg String.toList (gobytes.ofString_inj.mp h)
    rw [hjoin hne, hjoin hne'] at htext
    have hlists := congrArg (splitOn '\n') htext
    rw [hsplit hfree, hsplit hfree'] at hlists
    have hlists := map_injective_iff.mpr (fun _ _ => String.toList_injective) hlists
    exact ⟨(cons.inj (cons.inj hlists).2).1, (cons.inj (cons.inj hlists).2).2⟩
  · rintro ⟨rfl, rfl⟩
    rfl

end Digests

/-- The lines a fingerprint covers: the frames, or the normalized message. -/
def coveredLines (r : Result) (message stack : String) : List String :=
  if r.source = sourceStack then frames stack else [normalizeMessage message]

/-- No two of some inputs have the same first 64 bits of the digest. -/
def CollisionFree (inputs : List gobytes.Text) : Prop :=
  ∀ a ∈ inputs, ∀ b ∈ inputs, digest64 a = digest64 b → a = b

section Events

variable {message stack message' stack' : String} {r r' : Result}

/-- A fingerprint is the hash of its source and the lines it covers, of which there are some. -/
theorem compute_eq_some (h : compute message stack = some r) :
    r.fingerprint = hash r.source (coveredLines r message stack) ∧ coveredLines r message stack ≠ [] ∧
      (r.source = sourceStack ∨ r.source = sourceMessage) := by
  cases hframes : frames stack with
  | nil =>
    simp only [compute, hframes] at h
    split_ifs at h
    obtain rfl := Option.some.inj h
    exact ⟨rfl, cons_ne_nil _ _, .inr rfl⟩
  | cons top rest =>
    rw [compute_of_frames hframes] at h
    obtain rfl := Option.some.inj h
    have hcovered : frames stack ≠ [] := by
      rw [hframes]
      exact cons_ne_nil top rest
    rw [coveredLines, if_pos rfl]
    exact ⟨congrArg (hash sourceStack) hframes.symm, hcovered, .inl rfl⟩

theorem newline_notMem_coveredLines (h : r.source = sourceStack ∨ r.source = sourceMessage) :
    ∀ l ∈ r.source :: coveredLines r message stack, '\n' ∉ l.toList := by
  refine forall_mem_cons.mpr ⟨?_, ?_⟩
  · obtain h | h := h <;> rw [h] <;> decide
  rw [coveredLines]
  split_ifs
  · exact frames_all newline_notMem_frame stack
  · exact forall_mem_singleton.mpr (newline_notMem_normalizeMessage message)

/-- Without collisions a fingerprint stands for its source and the lines it covers, none of which
has a newline in it. -/
theorem fingerprint_eq_iff (h : compute message stack = some r) (h' : compute message' stack' = some r')
    (hfree : CollisionFree [hashed r.source (coveredLines r message stack),
      hashed r'.source (coveredLines r' message' stack')]) :
    (r.fingerprint = r'.fingerprint ↔
      r.source = r'.source ∧ coveredLines r message stack = coveredLines r' message' stack') ∧
      (r.source = sourceStack → r'.source = sourceMessage → r.fingerprint ≠ r'.fingerprint) ∧
      (∀ text : String, '\n' ∉ (normalizeMessage text).toList) ∧
      ∀ trace : String, ∀ f ∈ frames trace, '\n' ∉ f.toList := by
  obtain ⟨hhash, hne, hsource⟩ := compute_eq_some h
  obtain ⟨hhash', hne', hsource'⟩ := compute_eq_some h'
  have hequal : r.fingerprint = r'.fingerprint ↔
      r.source = r'.source ∧ coveredLines r message stack = coveredLines r' message' stack' := by
    rw [hhash, hhash', hash_inj, ← hashed_inj hne hne' (newline_notMem_coveredLines hsource)
      (newline_notMem_coveredLines hsource')]
    exact ⟨hfree _ mem_cons_self _ (mem_cons_of_mem _ mem_cons_self), congrArg digest64⟩
  refine ⟨hequal, ?_, newline_notMem_normalizeMessage, frames_all newline_notMem_frame⟩
  intro hstack hmessage hsame
  have hsources := (hequal.mp hsame).1
  rw [hstack, hmessage] at hsources
  exact absurd hsources (by decide)

end Events

def denied : Result :=
  { source := sourceMessage, message := "open <path> denied", topFrame := "",
    fingerprint := hash sourceMessage ["open <path> denied"] }

def deniedTrace : Result :=
  { source := sourceStack, message := "open <path> denied", topFrame := "load fs.js",
    fingerprint := hash sourceStack ["load fs.js"] }

theorem texts_denied : normalizeMessage "open /etc/x denied" = "open <path> denied" ∧ frames "" = [] ∧
    frames "at load (/srv/fs.js:3:7)" = ["load fs.js"] := by
  decide +kernel

theorem digest64_denied :
    digest64 (hashed sourceMessage ["open <path> denied"]) ≠ digest64 (hashed sourceStack ["load fs.js"]) := by
  decide +kernel

/-- An error with its stack and without. -/
theorem fingerprint_denied_ne :
    compute "open /etc/x denied" "at load (/srv/fs.js:3:7)" = some deniedTrace ∧
      compute "open /etc/x denied" "" = some denied ∧ deniedTrace.fingerprint ≠ denied.fingerprint := by
  obtain ⟨hmessage, hnone, hframes⟩ := texts_denied
  have htrace : compute "open /etc/x denied" "at load (/srv/fs.js:3:7)" = some deniedTrace := by
    rw [compute_of_frames hframes, hmessage, deniedTrace]
  have hplain : compute "open /etc/x denied" "" = some denied := by
    simp only [compute, hnone, hmessage]
    rfl
  have hcovered : coveredLines deniedTrace "open /etc/x denied" "at load (/srv/fs.js:3:7)" = ["load fs.js"] :=
    (if_pos rfl).trans hframes
  have hcovered' : coveredLines denied "open /etc/x denied" "" = ["open <path> denied"] :=
    (if_neg (by decide)).trans (congrArg (fun text => [text]) hmessage)
  have hfree : CollisionFree [hashed deniedTrace.source (coveredLines deniedTrace "open /etc/x denied"
      "at load (/srv/fs.js:3:7)"), hashed denied.source (coveredLines denied "open /etc/x denied" "")] := by
    rw [hcovered, hcovered']
    intro a ha b hb hsame
    simp only [mem_cons, not_mem_nil, or_false] at ha hb
    obtain rfl | rfl := ha <;> obtain rfl | rfl := hb
    · rfl
    · exact absurd hsame.symm digest64_denied
    · exact absurd hsame digest64_denied
    · rfl
  exact ⟨htrace, hplain, (fingerprint_eq_iff htrace hplain hfree).2.1 rfl rfl⟩

end argvio.errfp
