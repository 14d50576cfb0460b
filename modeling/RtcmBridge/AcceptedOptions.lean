import RtcmBridge.MachineInt
import RtcmBridge.Nats2Ntrip.Parser

/-!
# The options of a file that is accepted

An option is the last value that the file gives it, or its default
(`optionsOf`); the values are positive. `throughput_log_kb` is checked before it
is multiplied by 1024, and the product need not be an `int`:
`options_faithful_iff` says when it is.
-/

namespace RtcmBridge

namespace ConfigurationFile

section Accepted

variable {σ γ : Type} {header : Bytes → Except Bytes σ} {body : σ → Bytes → γ → Parsed γ}
  {current : σ} {ls : List Bytes} {configuration configuration' : γ}

/-- The lines of a file but the blank ones, the comments and the headers: trimmed,
    with their sections. -/
def bodyLines (header : Bytes → Except Bytes σ) : σ → List Bytes → List (σ × Bytes)
  | _, [] => []
  | current, line :: ls =>
    let trimmedLine := trimCopy line
    if trimmedLine ≠ [] ∧ trimmedLine.head? ≠ some 35 then
      if trimmedLine.head? = some 91 then
        match header trimmedLine with
        | .error _ => []
        | .ok current => bodyLines header current ls
      else (current, trimmedLine) :: bodyLines header current ls
    else bodyLines header current ls

/-- What each body line adds to, the file adds to line by line, if it is accepted. -/
theorem parseLines_accepted {P : List (σ × Bytes) → γ → Prop}
    (hbody : ∀ seen current line configuration configuration', P seen configuration →
      body current line configuration = (none, configuration') →
      P (seen ++ [(current, line)]) configuration')
    (h : P [] configuration)
    (hparse : parseLines header body current ls configuration = (none, configuration')) :
    P (bodyLines header current ls) configuration' := by
  -- The lines read so far come in front, and `P` holds of them.
  suffices hfrom : ∀ current seen configuration, P seen configuration →
      parseLines header body current ls configuration = (none, configuration') →
      P (seen ++ bodyLines header current ls) configuration' from
    hfrom current [] configuration h hparse
  clear h hparse
  induction ls with
  | nil =>
    intro current seen configuration h hparse
    rw [bodyLines, List.append_nil]
    exact (Prod.mk.inj hparse).2 ▸ h
  | cons line ls ih =>
    intro current seen configuration h hparse
    rw [parseLines] at hparse
    rw [bodyLines]
    split_ifs at hparse ⊢ with hline hheader
    · rcases hsection : header (trimCopy line) with error | next
      · simp [hsection] at hparse
      · simp only [hsection] at hparse
        exact ih _ _ _ h hparse
    · rcases hstep : body current (trimCopy line) configuration with ⟨_ | error, between⟩
      · simp only [hstep] at hparse
        have := ih _ _ _ (hbody seen current _ configuration between h hstep) hparse
        rwa [List.append_assoc] at this
      · simp [hstep] at hparse
    · exact ih _ _ _ h hparse

end Accepted

/-! ### Options -/

/-- The value that a line gives the option `key`. -/
def given (key line : Bytes) : Option Int32 :=
  match findFrom 61 line 0 with
  | none => none
  | some eq =>
    if toLowerCopy (trimCopy (line.take eq)) = key then
      parsePositiveInt (trimCopy (line.drop (eq + 1)))
    else none

/-- The last value that the lines give the option `key`, or its default. -/
def lastGiven (key : Bytes) (default : Int32) (ls : List Bytes) : Int32 :=
  (ls.filterMap (given key)).getLast?.getD default

/-- The last size that the lines give, or the default one. -/
def throughputLogKb (ls : List Bytes) : Int32 := lastGiven (ascii "throughput_log_kb") 100 ls

/-- The options that the lines of a file give. -/
def optionsOf (ls : List Bytes) : Options where
  readBufferBytes := lastGiven (ascii "read_buffer_bytes") 4096 ls
  reconnectMinSec := lastGiven (ascii "reconnect_min_sec") 2 ls
  reconnectMaxSec := lastGiven (ascii "reconnect_max_sec") 32 ls
  throughputLogEveryBytes := throughputLogKb ls * 1024

variable {key line : Bytes} {default n : Int32} {ls : List Bytes} {options : Options}

/-- `std::stoi` throws for what does not fit an `int`. -/
theorem stoi_bounds {value : Bytes} {parsed : ℤ} {pos : ℕ} (h : stoi value = some (parsed, pos)) :
    -2 ^ 31 ≤ parsed ∧ parsed < 2 ^ 31 := by
  simp only [stoi] at h
  split_ifs at h with hbounds
  obtain ⟨rfl, -⟩ := Prod.mk.inj (Option.some.inj h)
  omega

theorem parsePositiveInt_pos {value : Bytes} (h : parsePositiveInt value = some n) :
    0 < n.toInt := by
  rw [parsePositiveInt] at h
  rcases hvalue : stoi value with _ | ⟨parsed, pos⟩
  · simp [hvalue] at h
  simp only [hvalue] at h
  split_ifs at h with hcheck
  rw [← Option.some.inj h]
  have hbounds := stoi_bounds hvalue
  rw [Int32.toInt_ofInt_of_le (by omega) (by omega)]
  omega

theorem given_pos (h : given key line = some n) : 0 < n.toInt := by
  rw [given] at h
  rcases hfind : findFrom 61 line 0 with _ | eq
  · simp [hfind] at h
  simp only [hfind] at h
  split_ifs at h
  exact parsePositiveInt_pos h

/-- The last line that gives a value decides. -/
theorem lastGiven_concat (key : Bytes) (default : Int32) (ls : List Bytes) (line : Bytes) :
    lastGiven key default (ls ++ [line]) = (given key line).getD (lastGiven key default ls) := by
  rw [lastGiven, List.filterMap_append]
  rcases hgiven : given key line with _ | n
  · rw [List.filterMap_cons_none hgiven, List.filterMap_nil, List.append_nil]
    rfl
  · rw [List.filterMap_cons_some hgiven, List.filterMap_nil, List.getLast?_concat]
    rfl

theorem lastGiven_pos (hdefault : 0 < default.toInt) (key : Bytes) (ls : List Bytes) :
    0 < (lastGiven key default ls).toInt := by
  induction ls using List.reverseRecOn with
  | nil => exact hdefault
  | append_singleton ls line ih =>
    rw [lastGiven_concat]
    rcases hgiven : given key line with _ | n
    · exact ih
    · exact given_pos hgiven

/-- One more line sets the option that it gives. -/
theorem optionsOf_concat (ls : List Bytes) (line : Bytes) : optionsOf (ls ++ [line]) =
    { readBufferBytes :=
        (given (ascii "read_buffer_bytes") line).getD (optionsOf ls).readBufferBytes
      reconnectMinSec :=
        (given (ascii "reconnect_min_sec") line).getD (optionsOf ls).reconnectMinSec
      reconnectMaxSec :=
        (given (ascii "reconnect_max_sec") line).getD (optionsOf ls).reconnectMaxSec
      throughputLogEveryBytes :=
        (given (ascii "throughput_log_kb") line).getD (throughputLogKb ls) * 1024 } := by
  simp only [optionsOf, throughputLogKb, lastGiven_concat]

/-- A line that is accepted gives one of the options its value. -/
theorem parseOptionsLine_optionsOf (h : (parseOptionsLine line (optionsOf ls)).1 = none) :
    (parseOptionsLine line (optionsOf ls)).2 = optionsOf (ls ++ [line]) := by
  rw [parseOptionsLine] at h ⊢
  rcases hfind : findFrom 61 line 0 with _ | eq
  · simp [hfind] at h
  simp only [hfind] at h ⊢
  have hgiven (name : Bytes) : given name line =
      if toLowerCopy (trimCopy (line.take eq)) = name then
        parsePositiveInt (trimCopy (line.drop (eq + 1))) else none := by
    rw [given, hfind]
  generalize toLowerCopy (trimCopy (line.take eq)) = key at h hgiven ⊢
  generalize trimCopy (line.drop (eq + 1)) = value at h hgiven ⊢
  rw [optionsOf_concat, hgiven, hgiven, hgiven, hgiven]
  rcases hparse : parsePositiveInt value with _ | n
  · simp only [parseOption, hparse] at h
    split_ifs at h
  · simp only [parseOption, hparse] at h ⊢
    split_ifs at h with hempty h₁ h₂ h₃ h₄
    all_goals
      have hkb : (optionsOf ls).throughputLogEveryBytes = throughputLogKb ls * 1024 := rfl
      rw [if_neg hempty]
      simp +decide only [*, reduceIte, Option.getD_some, Option.getD_none]

/-! ### Whole files -/

section Files

variable {σ γ : Type} {header : Bytes → Except Bytes σ} {body : σ → Bytes → γ → Parsed γ}
  {current : σ} {configuration configuration' : γ} {optionsIn : γ → Options} {isOptions : σ → Bool}

/-- The lines in the sections of options. -/
def optionLines (header : Bytes → Except Bytes σ) (isOptions : σ → Bool) (current : σ)
    (ls : List Bytes) : List Bytes :=
  ((bodyLines header current ls).filter fun p => isOptions p.1).map Prod.snd

/-- The options of a configuration that is accepted are those that its lines give. -/
theorem optionsIn_of_accepted
    (hoptions : ∀ current line configuration, isOptions current = true →
      ((body current line configuration).1, optionsIn (body current line configuration).2) =
        parseOptionsLine line (optionsIn configuration))
    (hother : ∀ current line configuration, isOptions current = false →
      optionsIn (body current line configuration).2 = optionsIn configuration)
    (hdefault : optionsIn configuration = {})
    (hparse : parseLines header body current ls configuration = (none, configuration')) :
    optionsIn configuration' = optionsOf (optionLines header isOptions current ls) := by
  refine parseLines_accepted (P := fun seen configuration =>
    optionsIn configuration = optionsOf ((seen.filter fun p => isOptions p.1).map Prod.snd))
    (fun seen current line configuration configuration' h hbody => ?_) hdefault hparse
  rw [List.filter_append, List.map_append]
  have hbody₂ : (body current line configuration).2 = configuration' := by rw [hbody]
  cases hcurrent : isOptions current with
  | true =>
    have hline := hoptions current line configuration hcurrent
    rw [hbody, h] at hline
    have := parseOptionsLine_optionsOf (congrArg Prod.fst hline).symm
    rw [← hline] at this
    simpa [hcurrent] using this
  | false =>
    rw [← hbody₂, hother current line configuration hcurrent, h]
    simp [hcurrent]

end Files

/-- The options are positive, the delays are ordered, and the size is `kb`. -/
structure Faithful (options : Options) (kb : Int32) : Prop where
  readBufferBytes : 0 < options.readBufferBytes
  reconnectMinSec : 0 < options.reconnectMinSec
  reconnectMaxSec : 0 < options.reconnectMaxSec
  throughputLogEveryBytes : 0 < options.throughputLogEveryBytes
  ordered : options.reconnectMinSec ≤ options.reconnectMaxSec
  throughput : options.throughputLogEveryBytes.toInt = 1024 * kb.toInt

/-- The product is positive and an `int`, or it has wrapped around. -/
theorem faithful_iff (hle : (optionsOf ls).reconnectMinSec ≤ (optionsOf ls).reconnectMaxSec) :
    Faithful (optionsOf ls) (throughputLogKb ls) ↔ (throughputLogKb ls).toInt < 2 ^ 21 := by
  have hpos (key : Bytes) {default : Int32} (hdefault : 0 < default.toInt) :
      0 < lastGiven key default ls :=
    Int32.lt_iff_toInt_lt.2 (lastGiven_pos hdefault key ls)
  have hkb : 0 < (throughputLogKb ls).toInt := lastGiven_pos (by decide) _ ls
  have h1024 : (1024 : Int32).toInt = 1024 := rfl
  constructor
  · intro h
    have hint := Int32.toInt_lt (optionsOf ls).throughputLogEveryBytes
    rw [h.throughput] at hint
    omega
  · intro h
    have hmul :
        (optionsOf ls).throughputLogEveryBytes.toInt = 1024 * (throughputLogKb ls).toInt := by
      rw [optionsOf, toInt_mul (by rw [h1024]; omega) (by rw [h1024]; omega), h1024, mul_comm]
    refine ⟨hpos _ (by decide), hpos _ (by decide), hpos _ (by decide), ?_, hle, hmul⟩
    rw [Int32.lt_iff_toInt_lt, hmul]
    exact Int.mul_pos (by decide) hkb

end ConfigurationFile

open ConfigurationFile

/-! ### The two programs -/

namespace Ntrip2Nats

/-- The section `[options]`. -/
def Section.isOptions : Section → Bool
  | .options => true
  | _ => false

/-- The lines of a file that set options. -/
def optionLines (text : Bytes) : List Bytes :=
  ConfigurationFile.optionLines parseSectionHeader Section.isOptions .options (lines text)

variable {path text : Bytes} {configuration : Configuration}

/-- The options of a configuration that is accepted are those that its lines give. -/
theorem options_of_accepted (h : parseConfiguration path (some text) {} = (none, configuration)) :
    configuration.options = optionsOf (optionLines text) := by
  refine optionsIn_of_accepted (fun current line configuration hcurrent => ?_)
    (fun current line configuration hcurrent => ?_) rfl (parseLines_of_accepted h).1
  · cases current with
    | options => rfl
    | _ => exact absurd hcurrent (by decide)
  · cases current with
    | options => exact absurd hcurrent (by decide)
    | natsDestinations =>
      rw [parseBodyLine, parseNatsDestinationsBodyLine]
      split <;> rfl
    | ntripSources =>
      rw [parseBodyLine, parseNtripSourcesBodyLine]
      repeat' split
      all_goals rfl

end Ntrip2Nats

namespace Nats2Ntrip

/-- The section `[options]`. -/
def Section.isOptions : Section → Bool
  | .options => true
  | _ => false

/-- The lines of a file that set options. -/
def optionLines (text : Bytes) : List Bytes :=
  ConfigurationFile.optionLines parseSectionHeader Section.isOptions .options (lines text)

variable {path text : Bytes} {configuration : Configuration}

/-- The options of a configuration that is accepted are those that its lines give. -/
theorem options_of_accepted (h : parseConfiguration path (some text) {} = (none, configuration)) :
    configuration.options = optionsOf (optionLines text) := by
  refine optionsIn_of_accepted (fun current line configuration hcurrent => ?_)
    (fun current line configuration hcurrent => ?_) rfl (parseLines_of_accepted h).1
  · cases current with
    | options => rfl
    | _ => exact absurd hcurrent (by decide)
  · cases current with
    | options => exact absurd hcurrent (by decide)
    | natsSources =>
      rw [parseBodyLine, parseNatsSourcesBodyLine]
      split <;> rfl
    | natsMountpoints =>
      rw [parseBodyLine, parseNatsMountpointBodyLine]
      split_ifs <;> rfl
    | ntripDestinations =>
      rw [parseBodyLine, parseNtripDestinationBodyLine]
      repeat' split
      all_goals rfl

end Nats2Ntrip

/-- **The options of an accepted file are what it says, unless the size is too
    large.** In both programs they are positive, the delays are ordered, and the
    size is 1024 times the last one that the file gives, or the default one, if
    and only if that is less than 2 ^ 21. -/
theorem options_faithful_iff (path text : Bytes) :
    (∀ configuration,
      Ntrip2Nats.parseConfiguration path (some text) {} = (none, configuration) →
      (Faithful configuration.options (throughputLogKb (Ntrip2Nats.optionLines text)) ↔
        (throughputLogKb (Ntrip2Nats.optionLines text)).toInt < 2 ^ 21)) ∧
    ∀ configuration,
      Nats2Ntrip.parseConfiguration path (some text) {} = (none, configuration) →
      (Faithful configuration.options (throughputLogKb (Nats2Ntrip.optionLines text)) ↔
        (throughputLogKb (Nats2Ntrip.optionLines text)).toInt < 2 ^ 21) := by
  constructor
  · intro configuration h
    have hle := (Ntrip2Nats.checkConfiguration_eq_none_iff.1 (parseLines_of_accepted h).2).1
    rw [Ntrip2Nats.options_of_accepted h] at hle ⊢
    exact faithful_iff hle
  · intro configuration h
    have hle := (Nats2Ntrip.checkConfiguration_eq_none_iff.1 (parseLines_of_accepted h).2).1
    rw [Nats2Ntrip.options_of_accepted h] at hle ⊢
    exact faithful_iff hle

/-- A file of `nats2ntrip` that sets the size to `kb`. -/
def sizeFile (kb : Bytes) : Bytes :=
  ascii "throughput_log_kb=" ++ kb ++ 10 :: Nats2Ntrip.fileOf (ascii "M")

theorem options_faithful_iff_sizeFile : ∃ configuration,
    Nats2Ntrip.parseConfiguration [] (some (sizeFile (ascii "200"))) {} = (none, configuration) ∧
    throughputLogKb (Nats2Ntrip.optionLines (sizeFile (ascii "200"))) = 200 ∧
    Faithful configuration.options
      (throughputLogKb (Nats2Ntrip.optionLines (sizeFile (ascii "200")))) :=
  ⟨_, rfl, rfl, ((options_faithful_iff [] (sizeFile (ascii "200"))).2 _ rfl).2 (by decide)⟩

/-- A size of two gigabytes has wrapped around. -/
theorem sizeFile_wraps : ∃ configuration,
    Nats2Ntrip.parseConfiguration [] (some (sizeFile (ascii "2097152"))) {} =
      (none, configuration) ∧
    throughputLogKb (Nats2Ntrip.optionLines (sizeFile (ascii "2097152"))) = 2097152 ∧
    configuration.options.throughputLogEveryBytes = -2147483648 ∧
    ¬Faithful configuration.options
      (throughputLogKb (Nats2Ntrip.optionLines (sizeFile (ascii "2097152")))) :=
  ⟨_, rfl, rfl, rfl, fun h => absurd h.throughputLogEveryBytes (by decide)⟩

end RtcmBridge
