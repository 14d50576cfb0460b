import RtcmBridge.Canonical.Numbers
import RtcmBridge.Endpoints.Usable

/-!
# Canonical files

What the two programs have in common when a configuration is written as a file again: a
text of lines (`unlines`), a section with a line for each entry, which goes into one part of
the configuration (`Slot`, `parseLines_section`), the
lines of the options (`optionLine`), of a server, and of an address with its credentials
(`credentials`).

The options that can be written are those that a file can give (`WritableOptions`). The
size is a multiple of 1024, but for the wrap-around of the multiplication, which is the same
for one of the positive factors (`kbOf`).
-/

namespace RtcmBridge

/-- The text of the lines, each with its end. -/
def unlines (ls : List Bytes) : Bytes := ls.flatMap fun line => line ++ [10]

/-- Lines without a line feed in them are read back as they were written. -/
theorem lines_unlines {ls : List Bytes} (h : ∀ line ∈ ls, 10 ∉ line) : lines (unlines ls) = ls := by
  induction ls with
  | nil => rfl
  | cons line ls ih =>
    have hcons : unlines (line :: ls) = line ++ 10 :: unlines ls := by simp [unlines]
    rw [hcons, lines_append (h line List.mem_cons_self),
      ih fun l hl => h l (List.mem_cons_of_mem _ hl)]

namespace ConfigurationFile

/-! ### Sections -/

/-- A part of a configuration, which can be replaced. -/
structure Slot (γ δ : Type) where
  get : γ → δ
  put : γ → δ → γ
  get_put : ∀ c d, get (put c d) = d
  put_put : ∀ c d d', put (put c d) d' = put c d'
  put_get : ∀ c, put c (get c) = c

section Sections

variable {σ γ δ ε : Type} {header : Bytes → Except Bytes σ} {body : σ → Bytes → γ → Parsed γ}
  {current next : σ} {title : Bytes} {slot : Slot γ δ} {line : ε → Bytes} {store : δ → ε → δ}
  {entries : List ε}

/-- The title of a section. -/
structure Titles (header : Bytes → Except Bytes σ) (title : Bytes) (next : σ) : Prop where
  trimmed : trimCopy title = title
  head : title.head? = some 91
  section_eq : header title = .ok next

/-- The line of an entry is accepted, and stores it. -/
structure Stores (body : σ → Bytes → γ → Parsed γ) (next : σ) (slot : Slot γ δ)
    (line : ε → Bytes) (store : δ → ε → δ) (entry : ε) : Prop where
  bodyLine : BodyLine (line entry)
  body_eq : ∀ c, body next (line entry) c = (none, slot.put c (store (slot.get c) entry))

/-- The lines of a section have no line feed in them. -/
theorem notMem_map_line (h : ∀ entry ∈ entries, Stores body next slot line store entry) :
    ∀ l ∈ entries.map line, 10 ∉ l := by
  intro l hl
  obtain ⟨entry, hentry, rfl⟩ := List.mem_map.1 hl
  exact (h entry hentry).bodyLine.noNewline

/-- The lines of a section store their entries, in order, and change nothing else. -/
theorem parseLines_entries (h : ∀ entry ∈ entries, Stores body next slot line store entry)
    (ls : List Bytes) (c : γ) :
    parseLines header body next (entries.map line ++ ls) c =
      parseLines header body next ls (slot.put c (entries.foldl store (slot.get c))) := by
  induction entries generalizing c with
  | nil => rw [List.foldl_nil, slot.put_get]; rfl
  | cons entry entries ih =>
    have hentry := h entry List.mem_cons_self
    rw [List.map_cons, List.cons_append, parseLines_body hentry.bodyLine, hentry.body_eq]
    dsimp only
    rw [ih (fun e he => h e (List.mem_cons_of_mem _ he)), slot.get_put, slot.put_put]
    rfl

/-- A section is read entry by entry. -/
theorem parseLines_section (htitle : Titles header title next)
    (h : ∀ entry ∈ entries, Stores body next slot line store entry) (ls : List Bytes) (c : γ) :
    parseLines header body current (title :: (entries.map line ++ ls)) c =
      parseLines header body next ls (slot.put c (entries.foldl store (slot.get c))) := by
  have hne : title ≠ [] := fun hnil => absurd htitle.head (by simp [hnil])
  have hcomment : title.head? ≠ some 35 := by rw [htitle.head]; decide
  rw [parseLines, htitle.trimmed, if_pos ⟨hne, hcomment⟩, if_pos htitle.head, htitle.section_eq]
  exact parseLines_entries h ls c

end Sections

/-- The entry comes last. -/
def concat {ε : Type} (entries : List ε) (entry : ε) : List ε := entries ++ [entry]

theorem foldl_concat {ε : Type} (entries before : List ε) :
    entries.foldl concat before = before ++ entries := by
  induction entries generalizing before with
  | nil => exact (List.append_nil before).symm
  | cons entry entries ih =>
    rw [List.foldl_cons, ih, concat, List.append_assoc, List.singleton_append]

/-! ### Lines -/

/-- A line with the beginning of a body line. -/
theorem BodyLine.of_head {line line' : Bytes} (h : BodyLine line) (hhead : line'.head? = line.head?)
    (hlast : ∀ b ∈ line'.getLast?, isSpace b = false) (hnewline : 10 ∉ line') : BodyLine line' := by
  refine ⟨⟨fun b hb => h.trimmed.1 b (hhead ▸ hb), hlast⟩, fun hnil => ?_,
    hhead ▸ h.noComment, hhead ▸ h.noHeader, hnewline⟩
  have hnone : line.head? = none := by rw [← hhead, hnil]; rfl
  exact h.nonempty (List.head?_eq_none_iff.1 hnone)

/-- A number at the end of a line. -/
theorem last_number {n : Int32} (h : 0 < n.toInt) (s : Bytes) :
    ∀ b ∈ (s ++ ascii (toString n)).getLast?, isSpace b = false := by
  rw [toString_of_pos h]
  intro b hb
  rw [List.getLast?_append, List.getLast?_eq_some_getLast (printed_ne_nil _)] at hb
  cases hb
  exact isSpace_of_isDigit (isDigit_of_mem_printed (List.getLast_mem _))

theorem notMem_number {c : UInt8} (hc : isDigit c = false) {n : Int32} (h : 0 < n.toInt) :
    c ∉ ascii (toString n) := by
  rw [toString_of_pos h]
  exact notMem_printed hc _

/-! ### Options -/

/-- The keys of the options. -/
def optionKeys : List Bytes :=
  [ascii "read_buffer_bytes", ascii "reconnect_min_sec", ascii "reconnect_max_sec",
    ascii "throughput_log_kb"]

/-- An option is set. -/
def setOption (options : Options) (entry : Bytes × Int32) : Options :=
  if entry.1 = ascii "read_buffer_bytes" then { options with readBufferBytes := entry.2 }
  else if entry.1 = ascii "reconnect_min_sec" then { options with reconnectMinSec := entry.2 }
  else if entry.1 = ascii "reconnect_max_sec" then { options with reconnectMaxSec := entry.2 }
  else { options with throughputLogEveryBytes := entry.2 * 1024 }

/-- The line that sets an option. -/
def optionLine (entry : Bytes × Int32) : Bytes := entry.1 ++ 61 :: ascii (toString entry.2)

/-- An option that can be set. -/
structure Settable (entry : Bytes × Int32) : Prop where
  key : entry.1 ∈ optionKeys
  number : 0 < entry.2.toInt

variable {entry : Bytes × Int32}

/-- An option is written as a line of a body, neither a header nor a comment. -/
theorem Settable.bodyLine (h : Settable entry) : BodyLine (optionLine entry) := by
  have hkeys : ∀ key ∈ optionKeys, BodyLine key := by
    intro key hkey
    simp only [optionKeys, List.mem_cons, List.not_mem_nil, or_false] at hkey
    rcases hkey with rfl | rfl | rfl | rfl
    all_goals
      exact ⟨⟨by decide +kernel, by decide +kernel⟩, by decide, by decide, by decide, by decide⟩
  have hkey := hkeys entry.1 h.key
  refine hkey.of_head ?_ ?_ ?_
  · rw [optionLine, List.head?_append_of_ne_nil _ hkey.nonempty]
  · rw [optionLine, ← List.singleton_append, ← List.append_assoc]
    exact last_number h.number _
  · rw [optionLine, List.mem_append, List.mem_cons, not_or, not_or]
    exact ⟨hkey.noNewline, by decide, notMem_number rfl h.number⟩

/-- Read back, it sets the value that was written. -/
theorem Settable.parseOptionsLine (h : Settable entry) (options : Options) :
    parseOptionsLine (optionLine entry) options =
      (none, setOption options entry) := by
  have hkeys : ∀ key ∈ optionKeys, key ≠ [] ∧ 61 ∉ key ∧ toLowerCopy (trimCopy key) = key := by
    decide
  obtain ⟨hne, hequals, hkey⟩ := hkeys entry.1 h.key
  -- The key has no `=` in it, so the line is cut behind it.
  have hfind : findFrom 61 (optionLine entry) 0 = some entry.1.length :=
    findFrom_eq_some_iff.2 ⟨_, _, List.drop_zero, hequals, (Nat.zero_add _).symm⟩
  have htake : (optionLine entry).take entry.1.length = entry.1 := List.take_left
  have hdrop : (optionLine entry).drop (entry.1.length + 1) = ascii (toString entry.2) := by
    rw [optionLine, ← List.drop_drop, List.drop_left]
    rfl
  have hvalue : ascii (toString entry.2) ≠ [] := by
    rw [toString_of_pos h.number]
    exact printed_ne_nil _
  have htrim : trimCopy (ascii (toString entry.2)) = ascii (toString entry.2) := by
    rw [toString_of_pos h.number]
    exact trimCopy_of_trimmed (trimmed_printed _)
  rw [ConfigurationFile.parseOptionsLine, hfind]
  dsimp only
  rw [htake, hdrop, hkey, htrim, if_neg (not_or.2 ⟨hne, hvalue⟩), setOption]
  simp only [parseOption, parsePositiveInt_toString h.number]
  split_ifs with h₁ h₂ h₃ h₄
  · rfl
  · rfl
  · rfl
  · rfl
  · have hmem := h.key
    simp only [optionKeys, List.mem_cons, List.not_mem_nil, or_false] at hmem
    exact (hmem.elim h₁ fun hmem => hmem.elim h₂ fun hmem => hmem.elim h₃ h₄).elim

/-- A positive factor that gives the size, if one does. -/
def kbOf (size : Int32) : Int32 :=
  .ofInt (if size = 0 then 2 ^ 22 else size.toInt % 2 ^ 32 / 1024)

/-- The options that a file can give. -/
structure WritableOptions (options : Options) : Prop where
  readBufferBytes : 0 < options.readBufferBytes.toInt
  reconnectMinSec : 0 < options.reconnectMinSec.toInt
  reconnectMaxSec : 0 < options.reconnectMaxSec.toInt
  ordered : options.reconnectMinSec ≤ options.reconnectMaxSec
  throughput : ∃ kb : Int32, 0 < kb.toInt ∧ options.throughputLogEveryBytes = kb * 1024

/-- A size in whole KiB is written without a remainder. -/
theorem kbOf_spec {size kb : Int32} (h : size = kb * 1024) :
    0 < (kbOf size).toInt ∧ kbOf size * 1024 = size := by
  have h1024 : (1024 : Int32).toInt = 1024 := rfl
  have hsize : size.toInt = (kb.toInt * 1024).bmod (2 ^ 32) := by rw [h, Int32.toInt_mul, h1024]
  by_cases hzero : size = 0
  · rw [hzero]
    decide
  · have hne : size.toInt ≠ 0 := fun h0 => hzero (Int32.toInt_inj.1 h0)
    have hlt := Int32.toInt_lt size
    have hle := Int32.le_toInt size
    -- The size without its sign is a multiple of 1024, too.
    have hmod : size.toInt % 2 ^ 32 % 1024 = 0 := by
      rw [hsize, Int.bmod_def]
      split_ifs <;> omega
    have hkb : (kbOf size).toInt = size.toInt % 2 ^ 32 / 1024 := by
      rw [kbOf, if_neg hzero, Int32.toInt_ofInt_of_le (by omega) (by omega)]
    refine ⟨by omega, Int32.toInt_inj.1 ?_⟩
    rw [Int32.toInt_mul, hkb, h1024, Int.bmod_def]
    split_ifs <;> omega

/-- The settings of the options. -/
def optionEntries (options : Options) : List (Bytes × Int32) :=
  [(ascii "read_buffer_bytes", options.readBufferBytes),
    (ascii "reconnect_min_sec", options.reconnectMinSec),
    (ascii "reconnect_max_sec", options.reconnectMaxSec),
    (ascii "throughput_log_kb", kbOf options.throughputLogEveryBytes)]

/-- Options within their ranges can all be set. -/
theorem settable_of_writable {options : Options} (h : WritableOptions options) :
    ∀ entry ∈ optionEntries options, Settable entry := by
  obtain ⟨kb, -, hkb⟩ := h.throughput
  intro entry hentry
  simp only [optionEntries, List.mem_cons, List.not_mem_nil, or_false] at hentry
  rcases hentry with rfl | rfl | rfl | rfl
  · exact ⟨by simp [optionKeys], h.readBufferBytes⟩
  · exact ⟨by simp [optionKeys], h.reconnectMinSec⟩
  · exact ⟨by simp [optionKeys], h.reconnectMaxSec⟩
  · exact ⟨by simp [optionKeys], (kbOf_spec hkb).1⟩

/-- Whatever the options were before, they are set. -/
theorem foldl_optionEntries {options : Options} (h : WritableOptions options) (before : Options) :
    (optionEntries options).foldl setOption before = options := by
  obtain ⟨kb, -, hkb⟩ := h.throughput
  have hsize := (kbOf_spec hkb).2
  simp +decide only [optionEntries, List.foldl_cons, List.foldl_nil, setOption, if_true, if_false,
    hsize]

/-- Options that have been read are within their ranges, but for the order of the delays. -/
theorem writableOptions_optionsOf {ls : List Bytes}
    (h : (optionsOf ls).reconnectMinSec ≤ (optionsOf ls).reconnectMaxSec) :
    WritableOptions (optionsOf ls) :=
  ⟨lastGiven_pos (by decide) _ ls, lastGiven_pos (by decide) _ ls, lastGiven_pos (by decide) _ ls,
    h, throughputLogKb ls, lastGiven_pos (by decide) _ ls, rfl⟩

section Store

variable {σ γ : Type} {body : σ → Bytes → γ → Parsed γ} {next : σ} {slot : Slot γ Options}

/-- The parser of the section sets the options, and nothing else. -/
theorem stores_option (hbody : ∀ line c, body next line c =
      ((parseOptionsLine line (slot.get c)).1, slot.put c (parseOptionsLine line (slot.get c)).2))
    {options : Options} (h : WritableOptions options) :
    ∀ entry ∈ optionEntries options, Stores body next slot optionLine setOption entry := by
  intro entry hentry
  have hset := settable_of_writable h entry hentry
  exact ⟨hset.bodyLine, fun c => by rw [hbody, hset.parseOptionsLine]⟩

end Store

/-! ### Servers -/

/-- A server that a file can give is its own line. -/
theorem exists_serverLine {servers : List NatsDestination} (h : ServersIn Checked servers)
    {entry : NatsDestination} (hentry : entry ∈ servers) :
    BodyLine entry.server ∧ ∃ l : ServerLine, entry.server = l.line ∧ entry.server = l.server := by
  obtain ⟨host, port, hserver, hchecked⟩ := h entry hentry
  have hport : 0 < port.toInt := hchecked.port.1
  have hscheme : BodyLine (ascii "nats://") :=
    ⟨⟨by decide +kernel, by decide +kernel⟩, by decide, by decide, by decide, by decide⟩
  refine ⟨hscheme.of_head ?_ ?_ ?_, ⟨host, ascii (toString port), port, hchecked.noColon,
    parsePositiveInt_toString hport⟩, ?_, hserver⟩
  · rw [hserver, List.append_assoc, List.append_assoc, List.head?_append_of_ne_nil _ (by decide)]
  · rw [hserver]
    exact last_number hport _
  · rw [hserver]
    simp only [List.mem_append, not_or]
    exact ⟨⟨⟨by decide, hchecked.noNewline⟩, by decide⟩, notMem_number rfl hport⟩
  · simp [hserver, ServerLine.line, ascii]

/-! ### Addresses with credentials -/

/-- An address with credentials, as a line begins. -/
def credentials (source : NtripSource) : Bytes :=
  source.user ++ 58 :: (source.pass ++ 32 :: (source.host ++ 58 :: ascii (toString source.port)))

/-- An address that has the parts of a line. -/
structure Addressed (source : NtripSource) : Prop where
  user : Part 58 source.user
  pass : Part 32 source.pass
  host : Part 58 source.host
  port : 0 < source.port.toInt

/-- A port that is written has no slash in it. -/
theorem Addressed.port_part {source : NtripSource} (h : Addressed source) :
    Part 47 (ascii (toString source.port)) := by
  refine ⟨?_, notMem_number rfl h.port⟩
  rw [toString_of_pos h.port]
  exact printed_ne_nil _

/-- The beginning of a line may be written anew. -/
theorem head?_append_cons {user rest rest' : Bytes} (h : user ≠ []) :
    (user ++ rest).head? = (user ++ rest').head? := by
  rw [List.head?_append_of_ne_nil _ h, List.head?_append_of_ne_nil _ h]

end ConfigurationFile

end RtcmBridge
