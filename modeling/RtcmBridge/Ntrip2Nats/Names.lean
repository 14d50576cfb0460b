import RtcmBridge.Nats2Ntrip.Mountpoints
import RtcmBridge.NtripConnection.Basic

/-!
# The names of `ntrip2nats`

The name of a source is what is left of its line after four delimiters, whatever
this is: `ntrip2nats` does not check it as `nats2ntrip` does. The lines on whose
names the two programs agree are those whose rest is a plain name
(`shared_iff`).
-/

namespace RtcmBridge

open Nats2Ntrip

variable {n w : Bytes}

/-- The first line ends at the first line end. -/
theorem find_crlf (hw : 10 ∉ w) (m : Bytes) : find crlf (w ++ 13 :: 10 :: m) = some w.length := by
  induction w with
  | nil => rfl
  | cons b w ih =>
    rw [List.mem_cons, not_or] at hw
    have hno : crlf.isPrefixOf (b :: (w ++ 13 :: 10 :: m)) = false := by
      rcases w with _ | ⟨b', w⟩
      · simp [crlf, List.isPrefixOf]
      · have : 10 ≠ b' := fun h => hw.2 (h ▸ List.mem_cons_self)
        simp [crlf, List.isPrefixOf, this]
    rw [List.cons_append, find, hno, ih hw.2]
    rfl

/-- The request line for a name. -/
def requestLine (name : Bytes) : Bytes := ascii "GET /" ++ name ++ ascii " HTTP/1.1"

/-- The first line of the request names the mountpoint. -/
theorem firstLine_sendRequest {options : Options} {source : NtripSource}
    {evpEncodeBlock : Bytes → Option Bytes} {c : NtripConnection}
    (hn : 10 ∉ source.name)
    (hevp : base64 evpEncodeBlock (source.user ++ ascii ":" ++ source.pass) ≠ []) :
    firstLine (c.sendRequest options source evpEncodeBlock).request = requestLine source.name := by
  have hline : 10 ∉ requestLine source.name := by
    simp only [requestLine, List.mem_append, not_or]
    exact ⟨⟨by decide, hn⟩, by decide⟩
  have hrequest : ∃ m, (c.sendRequest options source evpEncodeBlock).request =
      requestLine source.name ++ 13 :: 10 :: m := by
    have hend : ascii " HTTP/1.1\r\n" = ascii " HTTP/1.1" ++ [13, 10] := rfl
    rw [NtripConnection.sendRequest, if_neg fun h => hevp h.2, hend, requestLine]
    simp only [List.append_assoc, List.cons_append, List.nil_append]
    exact ⟨_, rfl⟩
  obtain ⟨m, hm⟩ := hrequest
  rw [hm, firstLine, find_crlf hline]
  exact List.take_left

/-- A name without a blank is one part of it. -/
theorem splitOn_requestLine (hn : 32 ∉ n) :
    (requestLine n).splitOn 32 = [ascii "GET", ascii "/" ++ n, ascii "HTTP/1.1"] := by
  have hpath : 32 ∉ ascii "/" ++ n := by
    rw [List.mem_append, not_or]
    exact ⟨by decide, hn⟩
  have hsplit : requestLine n =
      ascii "GET" ++ 32 :: (ascii "/" ++ n ++ 32 :: ascii "HTTP/1.1") := by
    simp only [requestLine, List.append_assoc]
    rfl
  rw [hsplit, List.splitOn_append_cons_self_of_not_mem (by decide),
    List.splitOn_append_cons_self_of_not_mem hpath, List.splitOn_eq_singleton (by decide)]

/-- The tokens of a subject contain no byte that neither `NTRIP.` nor the name contains. -/
theorem not_mem_token {b : UInt8} {token : Bytes} (htoken : token ∈ tokens (subjectOf n))
    (hroot : b ∉ ascii "NTRIP.") (hn : b ∉ n) : b ∉ token := by
  intro hb
  rcases List.mem_append.1 ((infix_of_mem_tokens htoken).subset hb) with h | h
  · exact hroot h
  · exact hn ((List.takeWhile_prefix _).subset h)

theorem subjectOf_ne (hne : n ≠ []) (hhead : n.head? ≠ some 0) : subjectOf n ≠ ascii "NTRIP." := by
  intro hempty
  obtain ⟨b, n, rfl⟩ := List.exists_cons_of_ne_nil hne
  have hb : b ≠ 0 := fun h => hhead (congrArg some h)
  have hnil : cString (b :: n) = [] :=
    List.append_cancel_left (hempty.trans (List.append_nil _).symm)
  simp [cString, hb] at hnil

/-- The two programs agree on the name `n` of a source. -/
structure Shared (n : Bytes) : Prop where
  /-- The parser of `nats2ntrip` accepts it unchanged. -/
  accepted : ∀ configuration, parseNatsMountpointBodyLine n configuration =
    (none, { configuration with natsMountpoints := configuration.natsMountpoints ++ [n] })
  /-- The request line has three parts. -/
  request : ∀ options source evpEncodeBlock (c : NtripConnection), source.name = n →
    base64 evpEncodeBlock (source.user ++ ascii ":" ++ source.pass) ≠ [] →
      ((firstLine (c.sendRequest options source evpEncodeBlock).request).splitOn 32).length = 3
  /-- No token of the subject contains a blank. -/
  noBlank : ∀ token ∈ tokens (subjectOf n), 32 ∉ token ∧ 9 ∉ token
  /-- The subject goes on after the dot. -/
  noEmpty : subjectOf n ≠ ascii "NTRIP."
  /-- A file of `nats2ntrip` has it as a mountpoint. -/
  configured : ∃ path file configuration,
    parseConfiguration path file {} = (none, configuration) ∧ n ∈ configuration.natsMountpoints

/-- A name is shared exactly if it is plain and does not begin with a zero. -/
theorem shared_iff_plainName : Shared n ↔ PlainName n ∧ n.head? ≠ some 0 := by
  constructor
  · intro h
    obtain ⟨path, file, configuration, haccept, hmem⟩ := h.configured
    refine ⟨plainMountpoints_of_accepted haccept n hmem, fun hhead => h.noEmpty ?_⟩
    obtain ⟨n, rfl⟩ := List.head?_eq_some_iff.1 hhead
    rfl
  · rintro ⟨hplain, hhead⟩
    have htrim := trimCopy_of_trimmed hplain.bodyLine.trimmed
    have hblank {b : UInt8} (hb : b ∈ mountpointDelimiters) : b ∉ n :=
      fun h => hplain.plain b h hb
    refine ⟨fun configuration => ?_, ?_, fun token htoken => ⟨?_, ?_⟩,
      subjectOf_ne hplain.bodyLine.nonempty hhead, ?_⟩
    · rw [parseNatsMountpointBodyLine_eq_iff, htrim]
      exact ⟨hplain.bodyLine.nonempty, hplain.plain, rfl⟩
    · rintro options source evpEncodeBlock c rfl hevp
      rw [firstLine_sendRequest hplain.bodyLine.noNewline hevp,
        splitOn_requestLine (hblank (by decide))]
      rfl
    · exact not_mem_token htoken (by decide) (hblank (by decide))
    · exact not_mem_token htoken (by decide) (hblank (by decide))
    · exact ⟨[], some (fileOf n), configurationOf n, parseConfiguration_fileOf hplain,
        List.mem_singleton_self n⟩

/-- **The two programs agree on plain names only.** A line of `[ntrip_sources]` that
    is accepted adds a source with the name behind its last delimiter, and the
    programs agree on this name if and only if it is plain (not empty, without space,
    tab, slash, colon and line end, without white space around it, and not starting
    like a comment or a header) and does not start with a NUL byte. -/
theorem shared_iff (line : Bytes) (configuration configuration' : Ntrip2Nats.Configuration)
    (h : Ntrip2Nats.parseNtripSourcesBodyLine line configuration = (none, configuration')) :
    ∃ l : Ntrip2Nats.SourceLine, line = l.line ∧
      configuration'.ntripSources = configuration.ntripSources ++ [l.source] ∧
      (Shared l.source.name ↔ PlainName l.name ∧ l.name.head? ≠ some 0) := by
  obtain ⟨l, rfl, rfl⟩ := Ntrip2Nats.parseNtripSourcesBodyLine_eq_iff.1 h
  exact ⟨l, rfl, rfl, shared_iff_plainName⟩

/-- The line of a plain name. -/
theorem shared_iff_letter : ∃ l : Ntrip2Nats.SourceLine, ascii "u:p h:1/A" = l.line ∧
    (Ntrip2Nats.configurationOf (ascii "A")).ntripSources = [] ++ [l.source] ∧
    (Shared l.source.name ↔ PlainName l.name ∧ l.name.head? ≠ some 0) :=
  shared_iff _ { natsDestinations := [⟨ascii "nats://h:1"⟩] } _
    (Ntrip2Nats.parseNtripSourcesBodyLine_eq_iff.2 ⟨Ntrip2Nats.sourceOf (ascii "A"), rfl, rfl⟩)

/-- The name of a source may contain a space. -/
theorem blankName_not_shared : ∃ configuration,
    Ntrip2Nats.parseNtripSourcesBodyLine (ascii "u:p h:1/A B") {} = (none, configuration) ∧
      ∃ source ∈ configuration.ntripSources, ¬Shared source.name := by
  refine ⟨_, Ntrip2Nats.parseNtripSourcesBodyLine_eq_iff.2
    ⟨Ntrip2Nats.sourceOf (ascii "A B"), rfl, rfl⟩, _, List.mem_singleton_self _, fun h => ?_⟩
  have := congrArg Prod.fst (h.accepted {})
  exact absurd this (by decide)

end RtcmBridge
