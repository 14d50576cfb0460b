import RtcmBridge.Configuration
import RtcmBridge.Text

/-!
# Configuration files

The parsers of `ntrip2nats` and `nats2ntrip` have the loop over the lines in
common, the section headers up to their names, the options, the servers up to
the texts of the errors, and the search for delimiters; and so the way from a
file to its configuration, up to the checks after the last line
(`parseConfiguration_eq_none_iff`).

A parser returns the text of its error, if there is one, and the configuration as
it leaves it, also on failure.
-/

namespace RtcmBridge.ConfigurationFile

/-- What a parser leaves: an error if it fails, and the configuration. -/
abbrev Parsed (γ : Type) := Option Bytes × γ

/-- `parse_positive_int`. -/
def parsePositiveInt (value : Bytes) : Option Int32 :=
  match stoi value with
  | none => none
  | some (parsed, pos) =>
    if pos ≠ value.length ∨ parsed ≤ 0 then none else some (Int32.ofInt parsed)

/-! ### Sections -/

/-- `parse_section_header`, with the names of the sections. -/
def parseSectionHeader {σ : Type} (names : List (Bytes × σ)) (line : Bytes) : Except Bytes σ :=
  if line.length < 2 ∨ line.head? ≠ some 91 ∨ line.getLast? ≠ some 93 then
    .error (ascii "Invalid section header")
  else
    let sectionLine := toLowerCopy ((line.drop 1).take (line.length - 2))
    match names.lookup sectionLine with
    | some current => .ok current
    | none => .error (ascii "Unknown section '" ++ sectionLine ++ ascii "'")

/-- The loop of `parse_configuration` over the lines. -/
def parseLines {σ γ : Type} (header : Bytes → Except Bytes σ)
    (body : σ → Bytes → γ → Parsed γ) : σ → List Bytes → γ → Parsed γ
  | _, [], configuration => (none, configuration)
  | current, line :: ls, configuration =>
    let trimmedLine := trimCopy line
    if trimmedLine ≠ [] ∧ trimmedLine.head? ≠ some 35 then
      if trimmedLine.head? = some 91 then
        match header trimmedLine with
        | .error error => (some error, configuration)
        | .ok current => parseLines header body current ls configuration
      else
        match body current trimmedLine configuration with
        | (some error, configuration) => (some error, configuration)
        | (none, configuration) => parseLines header body current ls configuration
    else parseLines header body current ls configuration

/-- `parse_configuration`, with the parsers of the headers and of the body lines, the section
    that the file begins in, and the checks after the last line, which give the error of the
    first one that fails. The file is `none` if it cannot be opened. -/
def parseConfiguration {σ γ : Type} (header : Bytes → Except Bytes σ)
    (body : σ → Bytes → γ → Parsed γ) (first : σ) (check : γ → Option Bytes) (path : Bytes)
    (file : Option Bytes) (configuration : γ) : Parsed γ :=
  match file with
  | none => (some (ascii "Cannot open configuration file " ++ path), configuration)
  | some text =>
    match parseLines header body first (lines text) configuration with
    | (some error, configuration) => (some error, configuration)
    | (none, configuration) => (check configuration, configuration)

/-! ### Options -/

/-- The branch of one key: `set` stores the value. -/
def parseOption (key value : Bytes) (options : Options) (set : Int32 → Options) : Parsed Options :=
  match parsePositiveInt value with
  | none => (some (ascii "Invalid option value '" ++ key ++ ascii "'"), options)
  | some n => (none, set n)

/-- `parse_options_body_line`, on the options. -/
def parseOptionsLine (line : Bytes) (options : Options) : Parsed Options :=
  match findFrom 61 line 0 with
  | none => (some (ascii "Invalid option format"), options)
  | some eq =>
    let key := toLowerCopy (trimCopy (line.take eq))
    let value := trimCopy (line.drop (eq + 1))
    if key = [] ∨ value = [] then (some (ascii "Invalid option format"), options)
    else if key = ascii "read_buffer_bytes" then
      parseOption key value options fun n => { options with readBufferBytes := n }
    else if key = ascii "reconnect_min_sec" then
      parseOption key value options fun n => { options with reconnectMinSec := n }
    else if key = ascii "reconnect_max_sec" then
      parseOption key value options fun n => { options with reconnectMaxSec := n }
    else if key = ascii "throughput_log_kb" then
      parseOption key value options fun n => { options with throughputLogEveryBytes := n * 1024 }
    else (some (ascii "Invalid option key '" ++ key ++ ascii "'"), options)

/-! ### Servers -/

/-- `parse_nats_destinations_body_line` and `parse_nats_sources_body_line`: the
    server, or an error about what `what` is. -/
def parseNatsLine (what line : Bytes) : Except Bytes Bytes :=
  let scheme := ascii "nats://"
  let invalid := ascii "Invalid NATS " ++ what ++ ascii " format"
  if line.take scheme.length ≠ scheme then .error invalid
  else
    match findFrom 58 line scheme.length with
    | none => .error (invalid ++ ascii ": missing ':'")
    | some hostLimit =>
      if hostLimit = 0 then .error (invalid ++ ascii ": missing ':'")
      else
        match parsePositiveInt (line.drop (hostLimit + 1)) with
        | none => .error (invalid ++ ascii ": invalid port")
        | some port =>
          .ok (scheme ++ (line.drop scheme.length).take (hostLimit - scheme.length) ++ ascii ":" ++
            ascii (toString port))

/-! ### Delimiters -/

/-- The next `b` in a line from `pos` on, unless it is at `pos`. -/
def delimiter (b : UInt8) (line : Bytes) (pos : ℕ) : Option ℕ :=
  (findFrom b line pos).filter (· ≠ pos)

variable {b : UInt8} {line w m : Bytes} {pos k : ℕ}

/-- A part of a line that `b` ends. -/
structure Part (b : UInt8) (w : Bytes) : Prop where
  nonempty : w ≠ []
  noDelimiter : b ∉ w

/-- A delimiter is found behind a part that is not empty, and has none in it. -/
theorem delimiter_eq_some_iff : delimiter b line pos = some k ↔
    ∃ w m, line.drop pos = w ++ b :: m ∧ Part b w ∧ k = pos + w.length := by
  rw [delimiter, Option.filter_eq_some_iff, findFrom_eq_some_iff]
  constructor
  · rintro ⟨⟨w, m, hs, hw, rfl⟩, hne⟩
    exact ⟨w, m, hs, ⟨fun h => by simp [h] at hne, hw⟩, rfl⟩
  · rintro ⟨w, m, hs, ⟨hne, hw⟩, rfl⟩
    have := List.length_pos_of_ne_nil hne
    exact ⟨⟨w, m, hs, hw, rfl⟩, by simp; omega⟩

theorem delimiter_of_drop (h : line.drop pos = w ++ b :: m) (hw : Part b w) :
    delimiter b line pos = some (pos + w.length) := delimiter_eq_some_iff.2 ⟨w, m, h, hw, rfl⟩

/-- What the parsers cut out before a delimiter, and what is left behind it. -/
theorem cut_of_drop (h : line.drop pos = w ++ b :: m) :
    (line.drop pos).take (pos + w.length - pos) = w ∧ line.drop (pos + w.length + 1) = m := by
  constructor
  · rw [h, Nat.add_sub_cancel_left, List.take_left]
  · rw [Nat.add_assoc, ← List.drop_drop, h, ← List.drop_drop, List.drop_left]
    rfl

theorem cut_of_delimiter (h : delimiter b line pos = some k) : ∃ w m,
    line.drop pos = w ++ b :: m ∧ Part b w ∧
      (line.drop pos).take (k - pos) = w ∧ line.drop (k + 1) = m := by
  obtain ⟨w, m, hdrop, hw, rfl⟩ := delimiter_eq_some_iff.1 h
  exact ⟨w, m, hdrop, hw, cut_of_drop hdrop⟩

/-- The parts `user:pass host:` at the beginning of a line. -/
theorem credentials_of_delimiters {a c : ℕ} (hu : delimiter 58 line 0 = some a)
    (hp : delimiter 32 line (a + 1) = some c) (hh : delimiter 58 line (c + 1) = some k) :
    ∃ user pass host m, line = user ++ 58 :: (pass ++ 32 :: (host ++ 58 :: m)) ∧
      Part 58 user ∧ Part 32 pass ∧ Part 58 host ∧ line.take a = user ∧
      (line.drop (a + 1)).take (c - (a + 1)) = pass ∧
      (line.drop (c + 1)).take (k - (c + 1)) = host ∧ line.drop (k + 1) = m := by
  obtain ⟨user, m₁, hr₁, user_part, huser, h₁⟩ := cut_of_delimiter hu
  obtain ⟨pass, m₂, hr₂, pass_part, hpass, h₂⟩ := cut_of_delimiter hp
  obtain ⟨host, m₃, hr₃, host_part, hhost, h₃⟩ := cut_of_delimiter hh
  rw [List.drop_zero] at hr₁ huser
  rw [Nat.sub_zero] at huser
  refine ⟨user, pass, host, m₃, ?_, user_part, pass_part, host_part, huser, hpass, hhost, h₃⟩
  rw [hr₁, ← h₁, hr₂, ← h₂, hr₃]

/-! ### The loop -/

section Loop

variable {σ γ : Type} {header : Bytes → Except Bytes σ} {body : σ → Bytes → γ → Parsed γ}
  {current current' : σ} {ls : List Bytes} {configuration configuration' : γ}

/-- A body line, as the loop hands it over. -/
structure BodyLine (line : Bytes) : Prop where
  trimmed : Trimmed line
  nonempty : line ≠ []
  noComment : line.head? ≠ some 35
  noHeader : line.head? ≠ some 91
  noNewline : 10 ∉ line

/-- A line of a body is parsed as its section asks. -/
theorem parseLines_body (hl : BodyLine line) :
    parseLines header body current (line :: ls) configuration =
      match body current line configuration with
      | (some error, configuration) => (some error, configuration)
      | (none, configuration) => parseLines header body current ls configuration := by
  rw [parseLines, trimCopy_of_trimmed hl.trimmed, if_pos ⟨hl.nonempty, hl.noComment⟩,
    if_neg hl.noHeader]

/-- What each body line preserves, the whole file preserves. -/
theorem parseLines_invariant {P : γ → Prop} (hls : ∀ line ∈ ls, 10 ∉ line)
    (hbody : ∀ current line configuration, BodyLine line → P configuration →
      P (body current line configuration).2) (h : P configuration) :
    P (parseLines header body current ls configuration).2 := by
  induction ls generalizing current configuration with
  | nil => exact h
  | cons line ls ih =>
    have hls' := fun l hl => hls l (List.mem_cons_of_mem _ hl)
    rw [parseLines]
    split_ifs with hl hc
    · split
      · exact h
      · exact ih hls' h
    · have hline : BodyLine (trimCopy line) :=
        ⟨trimmed_trimCopy line, hl.1, hl.2, hc, fun h =>
          hls line List.mem_cons_self ((isInfix_trimCopy line).subset h)⟩
      have hstep := hbody current (trimCopy line) configuration hline h
      split
      · next heq => rwa [heq] at hstep
      · next heq =>
        rw [heq] at hstep
        exact ih hls' hstep
    · exact ih hls' h

/-! ### Whole files -/

variable {check : γ → Option Bytes} {path text : Bytes} {file : Option Bytes}

/-- A file is accepted if it can be opened, its lines are accepted, and what they give passes
    the checks. -/
theorem parseConfiguration_eq_none_iff :
    parseConfiguration header body current check path file configuration =
        (none, configuration') ↔
      ∃ text, file = some text ∧
        parseLines header body current (lines text) configuration = (none, configuration') ∧
        check configuration' = none := by
  rcases file with _ | text
  · simp [parseConfiguration]
  simp only [parseConfiguration, Option.some.injEq, exists_eq_left']
  rcases parseLines header body current (lines text) configuration with ⟨_ | error, between⟩
  · simp only [Prod.mk.injEq, true_and]
    constructor
    · rintro ⟨hcheck, rfl⟩
      exact ⟨rfl, hcheck⟩
    · rintro ⟨rfl, hcheck⟩
      exact ⟨hcheck, rfl⟩
  · simp

/-- The lines of a file that is accepted are. -/
theorem parseLines_of_accepted
    (h : parseConfiguration header body current check path (some text) configuration =
      (none, configuration')) :
    parseLines header body current (lines text) configuration = (none, configuration') ∧
      check configuration' = none := by
  obtain ⟨text', heq, hparse⟩ := parseConfiguration_eq_none_iff.1 h
  cases heq
  exact hparse

end Loop

end RtcmBridge.ConfigurationFile
