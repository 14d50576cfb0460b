import RtcmBridge.Digits
import RtcmBridge.Nats2Ntrip.Parser

/-!
# The grammar of the endpoint lines

A source of `ntrip2nats` is a line `user:pass host:port/name`
(`Ntrip2Nats.SourceLine`), the destination of `nats2ntrip` a line
`user:pass host:port` (`Nats2Ntrip.DestinationLine`), and a NATS server of either
program a line `nats://host:port` (`ConfigurationFile.ServerLine`). The parsers
accept just these lines, and each line has its parts in one way only: a part ends
at the first delimiter, however often the delimiter occurs behind it
(`Part.append_inj`).
-/

namespace RtcmBridge

namespace ConfigurationFile

/-- A part ends at the first delimiter. -/
theorem Part.append_inj {b : UInt8} {w w' m m' : Bytes} (hw : Part b w) (hw' : Part b w')
    (h : w ++ b :: m = w' ++ b :: m') : w = w' ∧ m = m' := by
  obtain ⟨hw, hm⟩ := append_inj_of_notMem hw.noDelimiter hw'.noDelimiter (.inr ⟨m, rfl⟩)
    (.inr ⟨m', rfl⟩) h
  exact ⟨hw, (List.cons.inj hm).2⟩

/-! ### Servers -/

/-- A line of a NATS server, in its parts. -/
structure ServerLine where
  host : Bytes
  port : Bytes
  number : Int32
  host_part : 58 ∉ host
  port_number : parsePositiveInt port = some number

namespace ServerLine

variable (l : ServerLine)

/-- The line with these parts. -/
def line : Bytes := ascii "nats://" ++ (l.host ++ 58 :: l.port)

/-- The server that the line gives, with the port written anew. -/
def server : Bytes := ascii "nats://" ++ l.host ++ ascii ":" ++ ascii (toString l.number)

end ServerLine

variable {what line server : Bytes}

/-- A line of a server is taken apart into its host and port. -/
theorem parseNatsLine_line (what : Bytes) (l : ServerLine) :
    parseNatsLine what l.line = .ok l.server := by
  have hdrop : l.line.drop (ascii "nats://").length = l.host ++ 58 :: l.port := List.drop_left
  have hscheme : l.line.take (ascii "nats://").length = ascii "nats://" := List.take_left
  have hfind : findFrom 58 l.line (ascii "nats://").length =
      some ((ascii "nats://").length + l.host.length) :=
    findFrom_eq_some_iff.2 ⟨l.host, l.port, hdrop, l.host_part, rfl⟩
  obtain ⟨hhost, hport⟩ := cut_of_drop hdrop
  rw [parseNatsLine]
  simp only [hfind, hport, l.port_number]
  rw [if_neg (not_not.2 hscheme), if_neg (Nat.ne_of_gt (Nat.add_pos_left (by decide) _)), hhost]
  rfl

/-- The servers accepted are those in two parts. -/
theorem parseNatsLine_eq_ok_iff :
    parseNatsLine what line = .ok server ↔ ∃ l : ServerLine, line = l.line ∧ server = l.server := by
  constructor
  · intro h
    rw [parseNatsLine] at h
    split_ifs at h with hscheme
    rcases hfind : findFrom 58 line (ascii "nats://").length with _ | hostLimit
    · simp [hfind] at h
    simp only [hfind] at h
    obtain ⟨host, port, hdrop, host_part, rfl⟩ := findFrom_eq_some_iff.1 hfind
    obtain ⟨hhost, hport⟩ := cut_of_drop hdrop
    rw [hport, hhost] at h
    split_ifs at h
    rcases hnumber : parsePositiveInt port with _ | number
    · simp [hnumber] at h
    simp only [hnumber] at h
    refine ⟨⟨host, port, number, host_part, hnumber⟩, ?_, (Except.ok.inj h).symm⟩
    rw [ServerLine.line, ← hdrop]
    conv_lhs => rw [← List.take_append_drop (ascii "nats://").length line, not_not.1 hscheme]
  · rintro ⟨l, rfl, rfl⟩
    exact parseNatsLine_line what l

/-- The position of the `:` is compared with 0, which it never is, so that the host
    may be empty. -/
example : parseNatsLine (ascii "source") (ascii "nats://:4222") = .ok (ascii "nats://:4222") :=
  rfl

end ConfigurationFile

open ConfigurationFile

/-! ### Sources -/

namespace Ntrip2Nats

/-- A line has the parts of a source in one way only. -/
theorem SourceLine.line_inj {l l' : SourceLine} (h : l.line = l'.line) : l = l' := by
  obtain ⟨hu, h⟩ := l.user_part.append_inj l'.user_part h
  obtain ⟨hp, h⟩ := l.pass_part.append_inj l'.pass_part h
  obtain ⟨hh, h⟩ := l.host_part.append_inj l'.host_part h
  obtain ⟨ht, hn⟩ := l.port_part.append_inj l'.port_part h
  have hnumber : l.number = l'.number :=
    Option.some.inj (by rw [← l.port_number, ht, l'.port_number])
  cases l
  cases l'
  cases hu
  cases hp
  cases hh
  cases ht
  cases hn
  cases hnumber
  rfl

/-- A line that is refused leaves the configuration as it is. -/
theorem snd_parseNtripSourcesBodyLine {line : Bytes} {configuration : Configuration}
    (h : (parseNtripSourcesBodyLine line configuration).1 ≠ none) :
    (parseNtripSourcesBodyLine line configuration).2 = configuration := by
  rw [parseNtripSourcesBodyLine] at h ⊢
  repeat' split
  all_goals first | rfl | simp_all

end Ntrip2Nats

/-! ### Destinations -/

namespace Nats2Ntrip

/-- A line of a destination, in its parts. -/
structure DestinationLine where
  user : Bytes
  pass : Bytes
  host : Bytes
  port : Bytes
  number : Int32
  user_part : Part 58 user
  pass_part : Part 32 pass
  host_part : Part 58 host
  port_part : Part 47 port
  port_number : parsePositiveInt port = some number

namespace DestinationLine

/-- The line with these parts. -/
def line (l : DestinationLine) : Bytes :=
  l.user ++ 58 :: (l.pass ++ 32 :: (l.host ++ 58 :: l.port))

/-- The destination that the line gives. -/
def destination (l : DestinationLine) : NtripSource :=
  { user := l.user, pass := l.pass, host := l.host, port := l.number }

/-- The line as that of a source without a name. -/
def sourceLine (l : DestinationLine) : Ntrip2Nats.SourceLine := { l with name := [] }

theorem line_sourceLine (l : DestinationLine) : l.sourceLine.line = l.line ++ [47] := by
  simp [Ntrip2Nats.SourceLine.line, sourceLine, line]

/-- A line has the parts of a destination in one way only. -/
theorem line_inj {l l' : DestinationLine} (h : l.line = l'.line) : l = l' := by
  have hsource : l.sourceLine = l'.sourceLine :=
    Ntrip2Nats.SourceLine.line_inj (by rw [line_sourceLine, line_sourceLine, h])
  obtain ⟨hu, hp, hh, ht, -, hn⟩ := Ntrip2Nats.SourceLine.mk.inj hsource
  cases l
  cases l'
  cases hu
  cases hp
  cases hh
  cases ht
  cases hn
  rfl

end DestinationLine

variable {line : Bytes} {configuration configuration' : Configuration}

/-- A line of a destination replaces the one before. -/
theorem parseNtripDestinationBodyLine_line (l : DestinationLine) (configuration : Configuration) :
    parseNtripDestinationBodyLine l.line configuration = (none, { configuration with
      ntripDestination := l.destination, hasNtripDestination := true }) := by
  rw [parseNtripDestinationBodyLine]
  have h₀ : l.line.drop 0 = l.line := List.drop_zero
  obtain ⟨huser, h₁⟩ := cut_of_drop h₀
  obtain ⟨hpass, h₂⟩ := cut_of_drop h₁
  obtain ⟨hhost, h₃⟩ := cut_of_drop h₂
  rw [List.drop_zero, Nat.sub_zero] at huser
  have hname := findFrom_eq_none_iff.2 (h₃ ▸ l.port_part.noDelimiter)
  simp only [delimiter_of_drop h₀ l.user_part, delimiter_of_drop h₁ l.pass_part,
    delimiter_of_drop h₂ l.host_part, hname, Nat.sub_sub, huser, hpass, hhost, h₃, l.port_number]
  rfl

/-- A line that is accepted is one in four parts, and stores its destination. -/
theorem exists_destinationLine
    (h : parseNtripDestinationBodyLine line configuration = (none, configuration')) :
    ∃ l : DestinationLine, line = l.line ∧ configuration' = { configuration with
      ntripDestination := l.destination, hasNtripDestination := true } := by
  rw [parseNtripDestinationBodyLine] at h
  rcases hu : delimiter 58 line 0 with _ | a
  · simp [hu] at h
  rcases hp : delimiter 32 line (a + 1) with _ | b
  · simp [hu, hp] at h
  rcases hh : delimiter 58 line (b + 1) with _ | c
  · simp [hu, hp, hh] at h
  rcases hs : findFrom 47 line (c + 1) with _ | d
  swap
  · simp [hu, hp, hh, hs] at h
  simp only [hu, hp, hh, hs] at h
  obtain ⟨user, pass, host, port, hline, user_part, pass_part, host_part, huser, hpass, hhost,
    hdrop⟩ := credentials_of_delimiters hu hp hh
  simp only [Nat.sub_sub] at h
  rw [huser, hpass, hhost, hdrop] at h
  rcases hn : parsePositiveInt port with _ | number
  · simp [hn] at h
  simp only [hn] at h
  have hport : Part 47 port := by
    refine ⟨?_, hdrop ▸ findFrom_eq_none_iff.1 hs⟩
    rintro rfl
    exact (Option.some_ne_none number (hn.symm.trans rfl)).elim
  exact ⟨⟨user, pass, host, port, number, user_part, pass_part, host_part, hport, hn⟩, hline,
    (Prod.mk.inj h).2.symm⟩

end Nats2Ntrip

open Ntrip2Nats Nats2Ntrip

/-- **The endpoint lines are accepted by their grammar.** A source line is accepted
    if and only if it is `user:pass host:port/name`, in just one way, and adds its
    source then; a line that is refused changes nothing. The line of a destination
    is accepted if and only if it is `user:pass host:port`, in just one way, and its
    destination is stored then. -/
theorem endpoint_lines_iff :
    (∀ line configuration,
      ((parseNtripSourcesBodyLine line configuration).1 = none ↔
        ∃! l : SourceLine, line = l.line) ∧
      ((parseNtripSourcesBodyLine line configuration).1 = none ∨
        (parseNtripSourcesBodyLine line configuration).2 = configuration)) ∧
    (∀ (l : SourceLine) configuration, parseNtripSourcesBodyLine l.line configuration =
      (none, { configuration with ntripSources := configuration.ntripSources ++ [l.source] })) ∧
    (∀ line configuration, (parseNtripDestinationBodyLine line configuration).1 = none ↔
      ∃! l : DestinationLine, line = l.line) ∧
    ∀ (l : DestinationLine) configuration, parseNtripDestinationBodyLine l.line configuration =
      (none, { configuration with
        ntripDestination := l.destination, hasNtripDestination := true }) := by
  refine ⟨fun line configuration => ⟨⟨fun h => ?_, ?_⟩, ?_⟩, parseNtripSourcesBodyLine_line,
    fun line configuration => ⟨fun h => ?_, ?_⟩, parseNtripDestinationBodyLine_line⟩
  · obtain ⟨l, rfl, -⟩ := exists_sourceLine (Prod.ext h rfl)
    exact ⟨l, rfl, fun l' hl' => SourceLine.line_inj hl'.symm⟩
  · rintro ⟨l, rfl, -⟩
    rw [parseNtripSourcesBodyLine_line]
  · by_cases h : (parseNtripSourcesBodyLine line configuration).1 = none
    · exact .inl h
    · exact .inr (snd_parseNtripSourcesBodyLine h)
  · obtain ⟨l, rfl, -⟩ := exists_destinationLine (Prod.ext h rfl)
    exact ⟨l, rfl, fun l' hl' => DestinationLine.line_inj hl'.symm⟩
  · rintro ⟨l, rfl, -⟩
    rw [parseNtripDestinationBodyLine_line]

end RtcmBridge
