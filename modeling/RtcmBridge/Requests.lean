import RtcmBridge.Canonical.Numbers
import RtcmBridge.Endpoints.Usable
import RtcmBridge.HeaderBlock
import RtcmBridge.Nats2Ntrip.Source
import RtcmBridge.Ntrip2Nats.Names

/-!
# The requests

Whatever a configuration file contains that is accepted, a request consists of the lines
intended, and ends with them (`ReadAs`): the parts of the file that get into it, the names
and the host, cannot add a line, or end the header block early. For what `EVP_EncodeBlock`
writes this is assumed.
-/

namespace RtcmBridge

open Asio ConfigurationFile

/-- A text is read as the header block of the lines `ls`, and so is any text that begins
    with it. -/
structure ReadAs (text : Bytes) (ls : List Bytes) : Prop where
  lines : ∀ ls', ((∀ l ∈ ls', HeaderLine l) ∧ headerBlock ls' = text) ↔ ls' = ls
  ends : ∀ m, find headersEndMark (text ++ m) = some (text.length - 4)

/-- A block of header lines is read as these lines. -/
theorem readAs_headerBlock {ls : List Bytes} (hne : ls ≠ []) (h : ∀ l ∈ ls, HeaderLine l) :
    ReadAs (headerBlock ls) ls := by
  refine ⟨fun ls' => ⟨fun h' => headerBlock_inj h'.1 h h'.2, ?_⟩, find_headerBlock hne h⟩
  rintro rfl
  exact ⟨h, rfl⟩

/-! ### Numbers -/

theorem noLineFeed_toString (n : Int32) : 10 ∉ ascii (toString n) := by
  change 10 ∉ ascii (Int.repr n.toInt)
  cases n.toInt with
  | ofNat m =>
    change 10 ∉ ascii (Nat.repr m)
    rw [ascii_repr]
    exact notMem_printed rfl m
  | negSucc m =>
    have hminus : ascii (Int.repr (.negSucc m)) = 45 :: ascii (Nat.repr (m + 1)) := by
      change ascii ("-" ++ Nat.repr (m + 1)) = _
      simp [ascii]
    rw [hminus, ascii_repr, List.mem_cons, not_or]
    exact ⟨by decide, notMem_printed rfl _⟩

/-- The credentials have no line feed in them, if what encodes them puts none there. -/
theorem noLineFeed_base64 {evpEncodeBlock : Bytes → Option Bytes}
    (hevp : ∀ s t, evpEncodeBlock s = some t → 10 ∉ t) (s : Bytes) :
    10 ∉ base64 evpEncodeBlock s := by
  rw [base64]
  split_ifs
  · exact List.not_mem_nil
  · cases h : evpEncodeBlock s with
    | none => exact List.not_mem_nil
    | some t => exact hevp s t h

variable {source : NtripSource} {evpEncodeBlock : Bytes → Option Bytes} {path : Bytes}
  {file : Option Bytes}

/-! ### `nats2ntrip` -/

namespace Nats2Ntrip

open SourceConnection

/-- The lines of the request of a source. -/
def sourceRequestLines (source : NtripSource) (evpEncodeBlock : Bytes → Option Bytes) :
    List Bytes :=
  [ascii "POST /" ++ source.name ++ ascii " HTTP/1.1",
    ascii "Host: " ++ source.host ++ ascii ":" ++ ascii (toString source.port),
    ascii "User-Agent: NTRIP-CppBridge",
    ascii "Ntrip-Version: Ntrip/2.0",
    ascii "Authorization: Basic " ++
      base64 evpEncodeBlock (source.user ++ ascii ":" ++ source.pass),
    ascii "Transfer-Encoding: chunked",
    ascii "Connection: keep-alive"]

/-- The request of an upload is such a block. -/
theorem sourceRequest_eq (source : NtripSource) (evpEncodeBlock : Bytes → Option Bytes) :
    sourceRequest source evpEncodeBlock =
      headerBlock (sourceRequestLines source evpEncodeBlock) := by
  simp [sourceRequest, sourceRequestLines, headerBlock, crlf, ascii]

theorem readAs_sourceRequest (hname : 10 ∉ source.name) (hhost : 10 ∉ source.host)
    (hevp : ∀ s t, evpEncodeBlock s = some t → 10 ∉ t) :
    ReadAs (sourceRequest source evpEncodeBlock) (sourceRequestLines source evpEncodeBlock) := by
  rw [sourceRequest_eq]
  refine readAs_headerBlock (by simp [sourceRequestLines]) fun l hl => ?_
  have hport := noLineFeed_toString source.port
  have hencoded := noLineFeed_base64 hevp (source.user ++ ascii ":" ++ source.pass)
  simp only [sourceRequestLines, List.mem_cons, List.not_mem_nil, or_false] at hl
  rcases hl with rfl | rfl | rfl | rfl | rfl | rfl | rfl
  · exact ⟨by simp [ascii], by simp [hname, ascii]⟩
  · refine ⟨by simp [ascii], ?_⟩
    simp only [List.mem_append, not_or]
    exact ⟨⟨⟨by decide, hhost⟩, by decide⟩, hport⟩
  · exact ⟨by decide, by decide⟩
  · exact ⟨by decide, by decide⟩
  · refine ⟨by simp [ascii], ?_⟩
    simp only [List.mem_append, not_or]
    exact ⟨by decide, by simpa using hencoded⟩
  · exact ⟨by decide, by decide⟩
  · exact ⟨by decide, by decide⟩

/-- **An upload is requested by the lines intended.** The request for any mountpoint of a file
    that is accepted is read as its lines, the first of which has three parts. -/
theorem uploadRequest_read {configuration : Configuration}
    (h : parseConfiguration path file {} = (none, configuration)) {m : Bytes}
    (hm : m ∈ configuration.natsMountpoints)
    (hevp : ∀ s t, evpEncodeBlock s = some t → 10 ∉ t) :
    ReadAs (sourceRequest { configuration.ntripDestination with name := m } evpEncodeBlock)
      (sourceRequestLines { configuration.ntripDestination with name := m } evpEncodeBlock) ∧
    (ascii "POST /" ++ m ++ ascii " HTTP/1.1").splitOn 32 =
      [ascii "POST", ascii "/" ++ m, ascii "HTTP/1.1"] := by
  have hplain := plainMountpoints_of_accepted h m hm
  obtain ⟨text, rfl, -⟩ := ConfigurationFile.parseConfiguration_eq_none_iff.1 h
  obtain ⟨-, hhost⟩ := (endpoints_of_accepted h).2
  refine ⟨readAs_sourceRequest hplain.bodyLine.noNewline hhost.noNewline hevp, ?_⟩
  have hblank : 32 ∉ m := fun hb => hplain.plain 32 hb (by decide)
  have hpath : 32 ∉ ascii "/" ++ m := by
    rw [List.mem_append, not_or]
    exact ⟨by decide, hblank⟩
  have hsplit : ascii "POST /" ++ m ++ ascii " HTTP/1.1" =
      ascii "POST" ++ 32 :: (ascii "/" ++ m ++ 32 :: ascii "HTTP/1.1") := by
    simp [ascii]
  rw [hsplit, List.splitOn_append_cons_self_of_not_mem (by decide),
    List.splitOn_append_cons_self_of_not_mem hpath, List.splitOn_eq_singleton (by decide)]

/-- What `EVP_EncodeBlock` writes for the credentials of the files below. -/
def encoded (_ : Bytes) : Option Bytes := some (ascii "dTpw")

theorem uploadRequest_read_letter : ∃ source, source.name = ascii "A" ∧
    ReadAs (sourceRequest source encoded) (sourceRequestLines source encoded) :=
  ⟨_, rfl, (uploadRequest_read
    (show parseConfiguration [] (some (fileOf (ascii "A"))) {} = _ from
      parseConfiguration_fileOf plainName_letter)
    (List.mem_singleton_self (ascii "A")) fun _ _ h => by cases h; decide).1⟩

end Nats2Ntrip

/-! ### `ntrip2nats` -/

namespace NtripConnection

/-- The lines of the request for a stream. -/
def requestLines (source : NtripSource) (evpEncodeBlock : Bytes → Option Bytes) : List Bytes :=
  [ascii "GET /" ++ source.name ++ ascii " HTTP/1.1",
    ascii "User-Agent: NTRIP-CppBridge",
    ascii "Authorization: Basic " ++
      base64 evpEncodeBlock (source.user ++ ascii ":" ++ source.pass),
    ascii "Connection: keep-alive"]

variable {options : Options} {c : NtripConnection}

theorem readAs_requestLines (hname : 10 ∉ source.name)
    (hevp : ∀ s t, evpEncodeBlock s = some t → 10 ∉ t) :
    ReadAs (headerBlock (requestLines source evpEncodeBlock))
      (requestLines source evpEncodeBlock) := by
  refine readAs_headerBlock (by simp [requestLines]) fun l hl => ?_
  have hencoded := noLineFeed_base64 hevp (source.user ++ ascii ":" ++ source.pass)
  simp only [requestLines, List.mem_cons, List.not_mem_nil, or_false] at hl
  rcases hl with rfl | rfl | rfl | rfl
  · exact ⟨by simp [ascii], by simp [hname, ascii]⟩
  · exact ⟨by decide, by decide⟩
  · refine ⟨by simp [ascii], ?_⟩
    simp only [List.mem_append, not_or]
    exact ⟨by decide, by simpa using hencoded⟩
  · exact ⟨by decide, by decide⟩

/-- Only `send_request` writes a request, and it is such a block. -/
theorem request_sendRequest (c : NtripConnection) :
    (c.sendRequest options source evpEncodeBlock).request = c.request ∨
      (c.sendRequest options source evpEncodeBlock).request =
        headerBlock (requestLines source evpEncodeBlock) := by
  rw [sendRequest]
  split_ifs
  · exact .inl rfl
  · exact .inr (by simp [requestLines, headerBlock, crlf, ascii])

theorem request_handleStreamBytes (c : NtripConnection) (data : Bytes) :
    (c.handleStreamBytes options data).request = c.request := by
  rw [handleStreamBytes]
  split_ifs
  · rfl
  · rfl
  · dsimp only
    cases find headersEndMark (c.responseBuffer ++ data) with
    | none => rfl
    | some headersEnd =>
      dsimp only
      split_ifs <;> rfl

/-- A handler sends the request, or leaves it as it is. -/
theorem request_handler (c : NtripConnection) (kind : Kind) (ec : Ec) (data : Bytes) :
    (c.handler options source evpEncodeBlock kind ec data).request = c.request ∨
      (c.handler options source evpEncodeBlock kind ec data).request =
        headerBlock (requestLines source evpEncodeBlock) := by
  rw [handler.eq_def]
  split_ifs
  · exact .inl rfl
  · cases kind with
    | connect => exact request_sendRequest c.establish
    | read => exact .inl (request_handleStreamBytes (c.receive data) data)
    | resolve | write | wait => exact .inl rfl
  · cases kind <;> exact .inl rfl

/-- **A stream is requested by the lines intended.** In every run of a connection to a source
    of a file that is accepted, whatever the caster does, the request is read as its lines,
    once there is one. -/
theorem streamRequest_read {configuration : Ntrip2Nats.Configuration}
    (hconf : Ntrip2Nats.parseConfiguration path file {} = (none, configuration))
    (hsource : source ∈ configuration.ntripSources)
    (hevp : ∀ s t, evpEncodeBlock s = some t → 10 ∉ t)
    (h : (automaton options source evpEncodeBlock).Reachable c) (hsent : c.request ≠ []) :
    ReadAs c.request (requestLines source evpEncodeBlock) := by
  -- Only one function writes a request.
  have hrequest : c.request = [] ∨
      c.request = headerBlock (requestLines source evpEncodeBlock) := by
    refine h.invariant (P := fun c => c.request = [] ∨
      c.request = headerBlock (requestLines source evpEncodeBlock)) (.inl rfl)
      fun c e c' hc hstep => ?_
    obtain ⟨⟨op, io⟩, -, rfl⟩ := Option.map_eq_some_iff.1 hstep
    rcases request_handler { c with io } op.kind e.ec e.data with heq | heq
    · rw [heq]
      exact hc
    · exact .inr heq
  -- The name comes from a line of the file.
  have hname : 10 ∉ source.name := by
    obtain ⟨text, rfl, hparse, -⟩ := ConfigurationFile.parseConfiguration_eq_none_iff.1 hconf
    obtain ⟨line, hline, l, rfl, rfl⟩ := exists_line_of_entry
      (Ntrip2Nats.addsEntries_ntripSources.entries_of_accepted rfl hparse) hsource
    have hbody := bodyLine_of_mem_sectionLines (fun _ => not_mem_of_mem_lines) hline
    intro h
    have hname : 10 ∈ l.name := h
    exact hbody.noNewline (by simp [Ntrip2Nats.SourceLine.line, hname])
  rw [hrequest.resolve_left hsent]
  exact readAs_requestLines hname hevp

/-- The connection is established, and the request sent. -/
def requestRun : List Completion := [⟨0, .ok, []⟩, ⟨0, .ok, []⟩]

theorem streamRequest_read_requestRun : ∃ source c,
    (automaton {} source Nats2Ntrip.encoded).exec requestRun = some c ∧ c.request ≠ [] ∧
      ReadAs c.request (requestLines source Nats2Ntrip.encoded) := by
  have hrun : ((automaton {} (Ntrip2Nats.sourceOf (ascii "A")).source Nats2Ntrip.encoded).exec
      requestRun).map (fun c => decide (c.request = [])) = some false := by decide +kernel
  obtain ⟨c, hc, hrequest⟩ := Option.map_eq_some_iff.1 hrun
  have hconf : Ntrip2Nats.parseConfiguration [] (some (Ntrip2Nats.fileOf (ascii "A"))) {} =
      (none, Ntrip2Nats.configurationOf (ascii "A")) := rfl
  refine ⟨_, c, hc, of_decide_eq_false hrequest, streamRequest_read hconf
    (List.mem_singleton_self _) (fun _ _ h => ?_) (Automaton.reachable_of_exec hc)
    (of_decide_eq_false hrequest)⟩
  cases h
  decide

end NtripConnection

end RtcmBridge
