import RtcmBridge.Nats2Ntrip.Order
import RtcmBridge.Nats2Ntrip.Parser
import RtcmBridge.Subject

/-!
# The mountpoints of `nats2ntrip`

The program starts a session for each line with a mountpoint, with a subscription
to the subject of this name. The parser calls for a plain name but lets the
wildcards of NATS pass, and does not look for repeated lines
(`apart_iff`).
-/

namespace RtcmBridge

/-- The subject of a `StreamSession` of either program: `kSubjectPrefix` and the
    name, as `ntripSource_GetText` returns it. -/
def subjectOf (name : Bytes) : Bytes := ascii "NTRIP." ++ cString name

/-- A subject of a mountpoint has the tokens of its name behind `NTRIP`. -/
theorem tokens_append_name (m : Bytes) :
    tokens (ascii "NTRIP." ++ m) = ascii "NTRIP" :: tokens m := by
  have hdot : 46 ∉ ascii "NTRIP" := by decide
  exact List.splitOn_append_cons_self_of_not_mem hdot m

namespace Nats2Ntrip

open ConfigurationFile

/-- A session of `main`, with the source of its connection. -/
structure Subscriber where
  source : NtripSource
  session : StreamSession

/-- The sources of the sessions that `main` starts: one for each mountpoint. -/
def sources (configuration : Configuration) : List NtripSource :=
  configuration.natsMountpoints.map fun mountpoint =>
    { configuration.ntripDestination with name := mountpoint }

/-- The sessions as `main` starts them. `hash` is the `std::hash` of their subjects. -/
def startSessions (hash : Bytes → UInt64) (configuration : Configuration) : List Subscriber :=
  (sources configuration).map fun source =>
    ⟨source, (StreamSession.automaton configuration.options (hash (subjectOf source.name))).init⟩

/-- A message of NATS. -/
structure Message where
  subject : Bytes
  data : Bytes

/-- The subscription matches the message, and its session enqueues it. -/
def Subscriber.enqueues (options : Options) (msg : Message) (s : Subscriber) : Bool :=
  matchesSubject (subjectOf s.source.name) msg.subject &&
    decide (s.session.arrivals < (s.session.onNatsMsg options msg.data).arrivals)

/-- The mountpoints of the sessions that enqueue a message. -/
def enqueuers (options : Options) (subscribers : List Subscriber) (msg : Message) : List Bytes :=
  (subscribers.filter (Subscriber.enqueues options msg)).map fun s => s.source.name

/-- A message published for a mountpoint of `ntrip2nats` is enqueued by sessions
    of this mountpoint only, and by exactly one if it is configured. -/
def Apart (configuration : Configuration) (data : Bytes) : Prop :=
  ∀ m, Ntrip2Nats.IsMountpoint m → ∀ subscribers : List Subscriber,
    subscribers.map Subscriber.source = sources configuration →
    let ms := enqueuers configuration.options subscribers ⟨ascii "NTRIP." ++ m, data⟩
    (∀ m' ∈ ms, m' = m) ∧ (m ∈ configuration.natsMountpoints → ms.count m = 1)

variable {options : Options} {configuration : Configuration} {msg : Message}
  {subscribers : List Subscriber} {m m' data : Bytes}

/-! ### Who enqueues -/

/-- Every message that is not empty arrives. -/
theorem arrivals_lt_onNatsMsg_iff (options : Options) (s : StreamSession) (data : Bytes) :
    s.arrivals < (s.onNatsMsg options data).arrivals ↔ data ≠ [] := by
  rw [StreamSession.onNatsMsg]
  split_ifs with hlen
  · obtain ⟨k, qb, db, u, t, l, heq⟩ := StreamSession.enqueue_eq options s data
    rw [heq]
    exact iff_of_true (Nat.lt_succ_self _) (List.ne_nil_of_length_pos hlen)
  · refine iff_of_false (lt_irrefl _) (not_not.2 (List.length_eq_zero_iff.1 (by omega)))

/-- A message reaches the sessions whose subscription matches, unless it is empty. -/
theorem enqueuers_eq (hsub : subscribers.map Subscriber.source = sources configuration) :
    enqueuers options subscribers msg = if msg.data = [] then [] else
      configuration.natsMountpoints.filter fun m => matchesSubject (subjectOf m) msg.subject := by
  have hnames : subscribers.map (fun s => s.source.name) = configuration.natsMountpoints := by
    have := congrArg (List.map NtripSource.name) hsub
    simpa [sources, List.map_map, Function.comp_def] using this
  have henq (s : Subscriber) : s.enqueues options msg =
      (matchesSubject (subjectOf s.source.name) msg.subject && decide (msg.data ≠ [])) := by
    rw [Subscriber.enqueues, decide_eq_decide.2 (arrivals_lt_onNatsMsg_iff options s.session _)]
  rw [← hnames, enqueuers, List.filter_map, funext henq]
  split_ifs with hdata
  · simp [hdata]
  · simp [hdata, Function.comp_def]

/-- There is a session per configured mountpoint, with its source. -/
theorem source_startSessions (hash : Bytes → UInt64) (configuration : Configuration) :
    (startSessions hash configuration).map Subscriber.source = sources configuration := by
  simp [startSessions, Function.comp_def]

/-! ### When they are apart -/

/-- The mountpoint of a configuration that is accepted. -/
theorem isMountpoint_of_plainName (h : PlainName m) : Ntrip2Nats.IsMountpoint m :=
  Ntrip2Nats.isMountpoint_of_last h.bodyLine.noNewline h.bodyLine.trimmed.2

/-- The subscription for `m'` matches the subject of `m`. -/
def matchesName (m m' : Bytes) : Bool := matchesSubject (subjectOf m') (ascii "NTRIP." ++ m)

/-- What `Apart` says about the subscriptions. -/
def SubscribedApart (configuration : Configuration) (m : Bytes) : Prop :=
  (∀ m' ∈ configuration.natsMountpoints,
      matchesName m m' = true → m' = m) ∧
    (m ∈ configuration.natsMountpoints →
      matchesName m m = true ∧ configuration.natsMountpoints.count m = 1)

/-- Sessions are apart exactly if their subscriptions are. -/
theorem apart_iff_subscribedApart (hdata : data ≠ []) : Apart configuration data ↔
    ∀ m, Ntrip2Nats.IsMountpoint m → SubscribedApart configuration m := by
  have hstart := source_startSessions (fun _ => 0) configuration
  refine ⟨fun h m hm => ?_, fun h m hm subscribers hsub => ?_⟩
  · obtain ⟨honly, hone⟩ := h m hm _ hstart
    rw [enqueuers_eq hstart, if_neg hdata] at honly hone
    refine ⟨fun m' hmem hmatch => honly m' (List.mem_filter.2 ⟨hmem, hmatch⟩), fun hmem => ?_⟩
    have hcount := hone hmem
    have hfilter := List.count_pos_iff.1 (hcount.symm ▸ Nat.one_pos)
    have hmatch := (List.mem_filter.1 hfilter).2
    exact ⟨hmatch, (List.count_filter (p := matchesName m) hmatch).symm.trans hcount⟩
  · obtain ⟨honly, hone⟩ := h m hm
    rw [enqueuers_eq hsub, if_neg hdata]
    refine ⟨fun m' hmem => honly m' (List.mem_filter.1 hmem).1 (List.mem_filter.1 hmem).2,
      fun hmem => ?_⟩
    obtain ⟨hmatch, hcount⟩ := hone hmem
    exact (List.count_filter (p := matchesName m) hmatch).trans hcount

/-- A mountpoint without NUL bytes and wildcards. -/
structure Distinct (m : Bytes) : Prop where
  noNul : 0 ∉ m
  literal : Literal m

theorem literal_append_name (h : Literal m) : Literal (ascii "NTRIP." ++ m) := by
  have hne : tokens m ≠ [] := List.splitOn_ne_nil _ _
  have hfirst : ascii "*" ≠ ascii "NTRIP" := by decide
  constructor
  · rw [tokens_append_name, List.mem_cons, not_or]
    exact ⟨hfirst, h.noStar⟩
  · rw [tokens_append_name, List.getLast?_cons_of_ne_nil hne]
    exact h.noTail

section Apart

variable (hplain : PlainName m') (hmem : m' ∈ configuration.natsMountpoints)
  (h : ∀ m, Ntrip2Nats.IsMountpoint m → SubscribedApart configuration m)

include hplain hmem h

/-- A NUL byte ends the subject of a subscription early. -/
theorem noNul_of_apart : 0 ∉ m' := by
  intro hnul
  have hsub : cString m' ⊆ m' := (List.takeWhile_prefix _).subset
  by_cases hlast : ∀ b ∈ (cString m').getLast?, isSpace b = false
  -- The subscription is the one for the name before the NUL byte.
  · have hm := Ntrip2Nats.isMountpoint_of_last (fun h => hplain.bodyLine.noNewline (hsub h)) hlast
    have heq := (h _ hm).1 m' hmem (matchTokens_self _)
    exact not_mem_cString m' (heq ▸ hnul)
  -- This name ends with white space, which is no wildcard: `m'` itself is not matched.
  · push Not at hlast
    obtain ⟨b, hb, hspace⟩ := hlast
    obtain ⟨w, hw⟩ := List.getLast?_eq_some_iff.1 hb
    have hmatch := ((h m' (isMountpoint_of_plainName hplain)).2 hmem).1
    have hne (c : UInt8) (hc : isSpace c = false) : b ≠ c := fun hbc => by
      rw [hbc, hc] at hspace
      exact hspace rfl
    rw [matchesName, subjectOf, hw, ← List.append_assoc] at hmatch
    have hend := getLast?_of_matchesSubject (hne 46 rfl) (hne 42 rfl) (hne 62 rfl) hmatch
    rw [List.getLast?_append_of_ne_nil _ hplain.bodyLine.nonempty] at hend
    exact hspace (hplain.bodyLine.trimmed.2 b hend)

/-- A wildcard matches other names. -/
theorem literal_of_apart : Literal m' := by
  have hnul := noNul_of_apart hplain hmem h
  by_contra hlit
  obtain ⟨ts₁, p, ts₂, htokens, hp⟩ := exists_of_not_literal hlit
  obtain ⟨l, r, rfl, hr, hreplace⟩ := exists_of_splitOn htokens
  have htokens' : tokens (l ++ ascii "x" ++ r) = ts₁ ++ ascii "x" :: ts₂ :=
    hreplace (ascii "x") (by decide)
  -- With an `x` for the wildcard, the name is that of a mountpoint, which the session matches.
  have hx : Ntrip2Nats.IsMountpoint (l ++ ascii "x" ++ r) := by
    have hnewline := hplain.bodyLine.noNewline
    have hlast := hplain.bodyLine.trimmed.2
    have hletter : ∀ b ∈ (l ++ ascii "x").getLast?, isSpace b = false := by
      intro b hb
      have hx : (l ++ ascii "x").getLast? = some 120 := List.getLast?_concat
      obtain rfl : 120 = b := Option.some.inj (hx.symm.trans hb)
      rfl
    refine Ntrip2Nats.isMountpoint_of_last ?_ (last_append_not_space hletter fun b hb =>
      hlast b (List.mem_getLast?_append_of_mem_getLast? hb))
    simp only [List.mem_append, not_or] at hnewline ⊢
    exact ⟨⟨hnewline.1.1, by decide⟩, hnewline.2⟩
  have hmatch : matchesName (l ++ ascii "x" ++ r) (l ++ p ++ r) = true := by
    rw [matchesName, subjectOf, cString_of_not_mem hnul, matchesSubject, tokens_append_name,
      tokens_append_name, htokens, htokens', ← List.cons_append, ← List.cons_append]
    exact matchTokens_replace hp _
  have heq := (h _ hx).1 _ hmem hmatch
  have hpx : p = ascii "x" := List.append_cancel_left (List.append_cancel_right heq)
  rcases hp with rfl | ⟨rfl, -⟩
  · exact absurd hpx (by decide)
  · exact absurd hpx (by decide)

end Apart

/-- **When mountpoints are apart.** For every configuration that is accepted, the
    messages published for a mountpoint of `ntrip2nats` are enqueued by sessions of
    this mountpoint only, and by exactly one of them if it is configured, if and only
    if the mountpoints of the configuration are all different, without NUL bytes and
    without wildcards (and the message is not empty). -/
theorem apart_iff (path : Bytes) (file : Option Bytes) (configuration : Configuration)
    (h : parseConfiguration path file {} = (none, configuration)) (data : Bytes) :
    Apart configuration data ↔ data ≠ [] ∧ configuration.natsMountpoints.Nodup ∧
      ∀ m ∈ configuration.natsMountpoints, Distinct m := by
  have hplain := plainMountpoints_of_accepted h
  by_cases hdata : data = []
  -- No session enqueues an empty message.
  · refine iff_of_false (fun hapart => ?_) (fun hcond => hcond.1 hdata)
    obtain ⟨text, -, -, hcheck⟩ := ConfigurationFile.parseConfiguration_eq_none_iff.1 h
    obtain ⟨-, -, hne, -⟩ := checkConfiguration_eq_none_iff.1 hcheck
    obtain ⟨m, hm⟩ := List.exists_mem_of_ne_nil _ hne
    have hone := (hapart m (isMountpoint_of_plainName (hplain m hm)) _
      (source_startSessions (fun _ => 0) configuration)).2 hm
    rw [enqueuers_eq (source_startSessions _ configuration), if_pos hdata] at hone
    exact absurd hone (by simp)
  · rw [apart_iff_subscribedApart hdata, and_iff_right hdata, List.nodup_iff_count_eq_one]
    refine ⟨fun hapart => ⟨fun m hm => ?_, fun m hm => ?_⟩, ?_⟩
    · exact ((hapart m (isMountpoint_of_plainName (hplain m hm))).2 hm).2
    · exact ⟨noNul_of_apart (hplain m hm) hm hapart, literal_of_apart (hplain m hm) hm hapart⟩
    · rintro ⟨hcount, hdistinct⟩ m -
      have hmatch {m'} (hm' : m' ∈ configuration.natsMountpoints) :
          matchesName m m' = true ↔ m' = m := by
        obtain ⟨hnul, hlit⟩ := hdistinct m' hm'
        rw [matchesName, subjectOf, cString_of_not_mem hnul,
          matchesSubject_iff (literal_append_name hlit), List.append_cancel_left_eq]
      exact ⟨fun m' hm' => (hmatch hm').1, fun hm => ⟨(hmatch hm).2 rfl, hcount m hm⟩⟩

/-- A name of one byte. The marks of a comment and of a section header are excluded. -/
theorem plainName_singleton {b : UInt8} (hspace : isSpace b = false)
    (hb : b ∉ [35, 91] ++ mountpointDelimiters) : PlainName [b] := by
  have hmark {c : UInt8} (hc : c ∈ [35, 91] ++ mountpointDelimiters) : [b].head? ≠ some c :=
    fun h => hb (Option.some.inj h ▸ hc)
  refine ⟨⟨trimmed_singleton hspace, List.cons_ne_nil _ _, hmark (by decide), hmark (by decide),
    fun h => ?_⟩, fun c hc h => ?_⟩
  · rw [← List.mem_singleton.1 h] at hspace
    exact absurd hspace (by decide)
  · exact hb (List.mem_append_right _ (List.mem_singleton.1 hc ▸ h))

theorem plainName_letter : PlainName (ascii "A") := plainName_singleton rfl (by decide)

/-- The configuration of a file with two mountpoints, one of which begins with the other. -/
def twoMountpoints : Configuration :=
  { configurationOf (ascii "A") with natsMountpoints := [ascii "A", ascii "A1"] }

theorem apart_iff_twoMountpoints :
    parseConfiguration [] (some (fileOf (ascii "A\nA1"))) {} = (none, twoMountpoints) ∧
      Apart twoMountpoints [0xD3] := by
  have haccept : parseConfiguration [] (some (fileOf (ascii "A\nA1"))) {} =
      (none, twoMountpoints) := rfl
  have hdistinct : ∀ m ∈ twoMountpoints.natsMountpoints, Distinct m := by
    intro m hm
    simp only [twoMountpoints, List.mem_cons, List.not_mem_nil, or_false] at hm
    rcases hm with rfl | rfl <;> exact ⟨by decide, by decide, by decide⟩
  exact ⟨haccept, (apart_iff _ _ _ haccept _).2 ⟨by decide, by decide, hdistinct⟩⟩

/-- The mountpoint `*` is accepted, and gets the messages of the others. -/
theorem star_not_apart : ∃ path file configuration,
    parseConfiguration path file {} = (none, configuration) ∧ ¬Apart configuration [0xD3] := by
  have hplain : PlainName (ascii "*") := plainName_singleton rfl (by decide)
  refine ⟨[], _, _, parseConfiguration_fileOf hplain, fun h => ?_⟩
  rw [apart_iff_subscribedApart (by decide)] at h
  have heq := (h _ (isMountpoint_of_plainName plainName_letter)).1 (ascii "*")
    List.mem_cons_self (by decide)
  exact absurd heq (by decide)

end Nats2Ntrip

end RtcmBridge
