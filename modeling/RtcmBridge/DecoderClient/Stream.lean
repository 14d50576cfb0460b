import RtcmBridge.DecoderClient.Basic
import RtcmBridge.Framer.Stream

/-!
# What `rtcm_decoder_ntrip` decodes

However a response that is accepted is cut into reads, the framer receives what
follows the header block: as long as this is incomplete, it is in the header
buffer (`Fed`).
-/

namespace RtcmBridge.NtripDecoderClient

open RtcmStreamFramer

variable {c : NtripDecoderClient} {before s : Bytes}

/-- The client has received `s` on its connection, the framer `before` on those
    before it. -/
def Fed (before : Bytes) (c : NtripDecoderClient) (s : Bytes) : Prop :=
  (find headersEndMark s = none ∧ c.headerDone = false ∧ c.responseHeader = s ∧
      c.framer = framed before) ∨
    ∃ k, find headersEndMark s = some k ∧ c.headerDone = true ∧
      c.framer = framed (before ++ s.drop (k + 4))

/-- The header block of the response, if it is complete, is accepted. -/
def Accepted (s : Bytes) : Prop :=
  ∀ k, find headersEndMark s = some k → isOkResponse (s.take (k + 4)) = true

/-- What is accepted of a longer response has been accepted of its beginning. -/
theorem Accepted.of_append {m : Bytes} (h : Accepted (s ++ m)) : Accepted s := by
  intro k hk
  have := h k (find_append hk m)
  rwa [List.take_append_of_le_length (find_mark_le hk)] at this

/-- A read feeds the framer with what it brings of the body. -/
theorem fed_onBytes (h : Fed before c s) {data : Bytes} (hacc : Accepted (s ++ data)) :
    Fed before (c.onBytes data) (s ++ data) := by
  rw [onBytes]
  rcases h with ⟨hnone, hd, hbuf, hf⟩ | ⟨k, hk, hd, hf⟩
  · rw [if_pos (by simp [hd])]
    simp only [hbuf]
    rcases hk : find headersEndMark (s ++ data) with _ | k
    · exact .inl ⟨hk, hd, rfl, hf⟩
    · dsimp only
      rw [if_neg (by simp [hacc k hk])]
      refine .inr ⟨k, hk, by split_ifs <;> rfl, ?_⟩
      split_ifs with hlt
      · change c.framer.push _ = _
        rw [hf, push_framed]
      · change c.framer = _
        rw [hf, List.drop_eq_nil_of_le (not_lt.1 hlt), List.append_nil]
  · rw [if_neg (by simp [hd])]
    refine .inr ⟨k, find_append hk data, hd, ?_⟩
    change c.framer.push data = _
    rw [hf, push_framed, List.drop_append_of_le_length (find_mark_le hk), List.append_assoc]

theorem fed_readLoop (h : Fed before c s) : Fed before c.readLoop s := by
  obtain ⟨loads, hl⟩ := load_snd c
  rw [readLoop_eq, hl]
  split_ifs <;> exact h

variable (target : NtripDecoderTarget)

/-- The reads of a connection, one after the other. -/
def onReads (c : NtripDecoderClient) (reads : List Bytes) : NtripDecoderClient :=
  reads.foldl (fun c data => handler target c .read .ok data) c

/-- Piece by piece, the framer is fed what the whole response is. -/
theorem fed_onReads (reads : List Bytes) (h : Fed before c s)
    (hacc : Accepted (s ++ reads.flatten)) :
    Fed before (c.onReads target reads) (s ++ reads.flatten) := by
  induction reads generalizing c s with
  | nil => simpa [onReads] using h
  | cons data reads ih =>
    rw [List.flatten_cons, ← List.append_assoc] at hacc ⊢
    exact ih (fed_readLoop (fed_onBytes h hacc.of_append)) hacc

end RtcmBridge.NtripDecoderClient
