import RtcmBridge.Bytes
import RtcmBridge.Search

/-!
# Responses of a caster

The two NTRIP clients decide on the header block of a response whether a
stream follows: `responseOk` of `ntripConnection` (used by `ntrip2nats` and
`nats2ntrip`) and `isOkResponse` of `NtripDecoderClient`.

`StreamStatus` says which status lines announce a stream: a protocol token, the
status code 200, and then the end of the line or a space. Neither function
accepts exactly these; `validators_agree_iff` gives the status lines on which
both do.
-/

namespace RtcmBridge

/-- The end of a line. -/
def crlf : Bytes := [13, 10]

/-- The end of a header block. -/
def headersEndMark : Bytes := [13, 10, 13, 10]

theorem find_mark_le {s : Bytes} {k : ℕ} (h : find headersEndMark s = some k) :
    k + 4 ≤ s.length := find_le (by decide) h

/-- `response_ok` of `ntripConnection`. -/
def responseOk (headers : Bytes) : Bool :=
  let statusLine :=
    match find crlf headers with
    | some lineEnd => headers.take lineEnd
    | none => headers
  (find (ascii " 200 ") statusLine).isSome || (ascii "ICY 200").isPrefixOf statusLine

/-- `is_ok_response` of `NtripDecoderClient`. -/
def isOkResponse (header : Bytes) : Bool :=
  if (ascii "ICY 200").isPrefixOf header then true
  else if (ascii "HTTP/1.0 200").isPrefixOf header then true
  else if (ascii "HTTP/1.1 200").isPrefixOf header then true
  else false

/-- `first_line` of `NtripDecoderClient`. -/
def firstLine (header : Bytes) : Bytes :=
  match find crlf header with
  | some p => header.take p
  | none => header

/-! ## Status lines -/

/-- The protocol tokens of a response that a stream follows. -/
def protocols : List Bytes := [ascii "ICY", ascii "HTTP/1.0", ascii "HTTP/1.1"]

/-- The status lines announcing a stream: a protocol token, one space, the
    status code 200, and then the end of the line or a space. -/
def StreamStatus (line : Bytes) : Prop :=
  ∃ tok ∈ protocols, ∃ rest, line = tok ++ ascii " 200" ++ rest ∧
    (rest = [] ∨ ascii " " <+: rest)

/-- The status lines that both functions judge as `StreamStatus` does: `ICY 200`
    alone, a protocol token with the status code 200 and a space, or neither a
    protocol token with a status starting with 200 nor a 200 between spaces. -/
def PlainStatus (line : Bytes) : Prop :=
  line = ascii "ICY 200" ∨
    (∃ tok ∈ protocols, tok ++ ascii " 200 " <+: line) ∨
    ((∀ tok ∈ protocols, ¬tok ++ ascii " 200" <+: line) ∧ ¬ascii " 200 " <:+: line)

/-! ## The validators -/

theorem responseOk_eq (headers : Bytes) : responseOk headers =
    ((find (ascii " 200 ") (firstLine headers)).isSome ||
      (ascii "ICY 200").isPrefixOf (firstLine headers)) := rfl

/-- The first line has the status 200 in it, or begins as an ICY response. -/
theorem responseOk_iff (headers : Bytes) : responseOk headers = true ↔
    ascii " 200 " <:+: firstLine headers ∨ ascii "ICY 200" <+: firstLine headers := by
  rw [responseOk_eq, Bool.or_eq_true, find_isSome_iff, List.isPrefixOf_iff_prefix]

/-- The header begins with one of the protocols and the status 200. -/
theorem isOkResponse_iff (header : Bytes) :
    isOkResponse header = true ↔ ∃ tok ∈ protocols, tok ++ ascii " 200" <+: header := by
  have h : isOkResponse header = true ↔ ascii "ICY 200" <+: header ∨
      ascii "HTTP/1.0 200" <+: header ∨ ascii "HTTP/1.1 200" <+: header := by
    rw [isOkResponse]
    split_ifs with h₁ h₂ h₃ <;> simp_all
  rw [h]
  simp only [protocols, List.mem_cons, List.not_mem_nil, or_false, exists_eq_or_imp,
    exists_eq_left]
  exact Iff.rfl

/-- A prefix without line ends of a header block is one of its first line. -/
theorem prefix_firstLine {p header : Bytes} (hp : 13 ∉ p) :
    p <+: firstLine header ↔ p <+: header := by
  rw [firstLine]
  split
  · next k hk =>
    refine ⟨fun h => h.trans (List.take_prefix _ _), fun h => ?_⟩
    obtain ⟨hcr, -⟩ := find_eq_some_iff.1 hk
    have hle := find_le (by decide) hk
    have hlen : p.length ≤ k := by
      -- Otherwise the line end found at `k` lies within `p`.
      by_contra hlt
      obtain ⟨t, rfl⟩ := h
      rw [List.drop_append_of_le_length (show k ≤ p.length by omega)] at hcr
      rcases hd : p.drop k with _ | ⟨a, r⟩
      · exact hlt (List.drop_eq_nil_iff.1 hd)
      · rw [hd, crlf, List.cons_append, List.cons_prefix_cons] at hcr
        exact hp (List.mem_of_mem_drop (i := k) (by rw [hd, hcr.1]; exact List.mem_cons_self))
    exact List.prefix_of_prefix_length_le h (List.take_prefix _ _)
      (by rw [List.length_take]; omega)
  · exact Iff.rfl

/-- Only the first line matters, as none of these has a line feed in it. -/
theorem isOkResponse_iff_firstLine (header : Bytes) : isOkResponse header = true ↔
    ∃ tok ∈ protocols, tok ++ ascii " 200" <+: firstLine header := by
  rw [isOkResponse_iff]
  refine exists_congr fun tok => and_congr_right fun htok => (prefix_firstLine ?_).symm
  revert tok
  decide

/-! ### Agreement -/

/-- No protocol token with the status 200 is a prefix of another. -/
theorem protocol_unique {tok tok' line : Bytes} (h : tok ∈ protocols) (h' : tok' ∈ protocols)
    (hp : tok ++ ascii " 200" <+: line) (hp' : tok' ++ ascii " 200" <+: line) : tok = tok' := by
  have key : ∀ t ∈ protocols, ∀ t' ∈ protocols,
      t ++ ascii " 200" <+: t' ++ ascii " 200" → t = t' := by decide
  rcases List.prefix_or_prefix_of_prefix hp hp' with hpp | hpp
  · exact key tok h tok' h' hpp
  · exact (key tok' h' tok h hpp).symm

/-- A status line starting with a token and the status 200 announces a stream
    exactly if the end of the line or a space follows. -/
theorem streamStatus_iff {tok rest : Bytes} (htok : tok ∈ protocols) :
    StreamStatus (tok ++ ascii " 200" ++ rest) ↔ rest = [] ∨ ascii " " <+: rest := by
  refine ⟨?_, fun h => ⟨tok, htok, rest, rfl, h⟩⟩
  rintro ⟨tok', htok', rest', heq, h⟩
  obtain rfl := protocol_unique htok htok' (List.prefix_append _ _) ⟨rest', heq.symm⟩
  exact List.append_cancel_left heq ▸ h

/-- Such a status line is plain if it is `ICY 200`, or if a space follows. -/
theorem plainStatus_iff {tok rest : Bytes} (htok : tok ∈ protocols) :
    PlainStatus (tok ++ ascii " 200" ++ rest) ↔
      (tok = ascii "ICY" ∧ rest = []) ∨ ascii " " <+: rest := by
  have hline : tok ++ ascii " 200" <+: tok ++ ascii " 200" ++ rest := List.prefix_append _ _
  have hicy : ascii "ICY" ∈ protocols := by decide
  constructor
  · rintro (heq | ⟨tok', htok', t, ht⟩ | ⟨hne, -⟩)
    · obtain rfl := protocol_unique htok hicy hline ⟨[], by rw [heq]; rfl⟩
      exact .inl ⟨rfl, List.append_right_eq_self.1 heq⟩
    · have hsplit : tok' ++ ascii " 200" ++ (ascii " " ++ t) = tok ++ ascii " 200" ++ rest := by
        rw [← ht, List.append_assoc, List.append_assoc]
        rfl
      obtain rfl := protocol_unique htok htok' hline ⟨_, hsplit⟩
      exact .inr ⟨t, List.append_cancel_left hsplit⟩
    · exact absurd hline (hne tok htok)
  · rintro (⟨rfl, rfl⟩ | ⟨t, rfl⟩)
    · exact .inl rfl
    · refine .inr (.inl ⟨tok, htok, t, ?_⟩)
      rw [List.append_assoc, List.append_assoc]
      rfl

/-- Both validators accept exactly the status lines that announce a stream, if
    and only if the status line is plain. -/
theorem validators_agree_iff (header : Bytes) :
    ((responseOk header = true ↔ StreamStatus (firstLine header)) ∧
      (isOkResponse header = true ↔ StreamStatus (firstLine header))) ↔
    PlainStatus (firstLine header) := by
  rw [responseOk_iff, isOkResponse_iff_firstLine]
  generalize firstLine header = line
  by_cases htok : ∃ tok ∈ protocols, tok ++ ascii " 200" <+: line
  -- `is_ok_response` accepts: the rest of the line decides.
  · have hok := htok
    obtain ⟨tok, hmem, rest, rfl⟩ := htok
    rw [plainStatus_iff hmem, streamStatus_iff hmem, iff_true_left hok]
    have hspace (h : ascii " " <+: rest) : ascii " 200 " <:+: tok ++ ascii " 200" ++ rest := by
      obtain ⟨t, rfl⟩ := h
      exact ⟨tok, t, by rw [List.append_assoc tok, List.append_assoc tok]; rfl⟩
    have hbare : ∀ tok ∈ protocols, ascii " 200 " <:+: tok ++ ascii " 200" ∨
        ascii "ICY 200" <+: tok ++ ascii " 200" → tok = ascii "ICY" := by decide
    constructor
    · rintro ⟨h, rfl | hsp⟩
      · rw [List.append_nil] at h
        exact .inl ⟨hbare tok hmem (h.2 (.inl rfl)), rfl⟩
      · exact .inr hsp
    · rintro (⟨rfl, rfl⟩ | hsp)
      · exact ⟨⟨fun _ => .inl rfl, fun _ => .inr (List.prefix_append _ _)⟩, .inl rfl⟩
      · exact ⟨⟨fun _ => .inr hsp, fun _ => .inl (hspace hsp)⟩, .inr hsp⟩
  -- It rejects, and rightly: only a 200 between spaces misleads `response_ok`.
  · have hstatus : ¬StreamStatus line := by
      rintro ⟨tok, hmem, rest, rfl, -⟩
      exact htok ⟨tok, hmem, List.prefix_append _ _⟩
    have hicy : ¬ascii "ICY 200" <+: line := fun h => htok ⟨ascii "ICY", by decide, h⟩
    rw [iff_false_right hstatus, iff_false_right hstatus, and_iff_left htok, or_iff_left hicy]
    refine ⟨fun h => .inr (.inr ⟨fun tok hmem h => htok ⟨tok, hmem, h⟩, h⟩), ?_⟩
    rintro (rfl | ⟨tok, hmem, t, rfl⟩ | h)
    · exact absurd ⟨ascii "ICY", by decide, List.prefix_rfl⟩ htok
    · refine absurd ⟨tok, hmem, ascii " " ++ t, ?_⟩ htok
      rw [List.append_assoc, List.append_assoc]
      rfl
    · exact h.2

/-- The answer with a sourcetable: only one of the validators rejects it. -/
theorem sourcetable_accepted :
    ¬∀ header : Bytes, headersEndMark <:+ header →
      ((responseOk header = true ↔ StreamStatus (firstLine header)) ∧
        (isOkResponse header = true ↔ StreamStatus (firstLine header))) := by
  intro h
  have h₁ := h (ascii "SOURCETABLE 200 OK" ++ headersEndMark) (by decide)
  have h₂ : isOkResponse (ascii "SOURCETABLE 200 OK" ++ headersEndMark) = true :=
    h₁.2.2 (h₁.1.1 (by decide))
  exact absurd h₂ (by decide)

end RtcmBridge
