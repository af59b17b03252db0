import Modall.McpAdapter.ResponseStream

/-!
# Leaked credentials

A response that contains the credential of its request, raw or spelled with JSON escapes, is marked
before the chunk that completes it leaves an event stream, and before any body leaves a buffered
response. What carries this through the chunks is what the two matchers have read: the raw bytes,
and the bytes with their escapes decoded.
-/
namespace Modall.McpAdapter

open Library Library.Matching

/-- A credential that `invoke` and `discover` accept. -/
structure Credential where
  bytes : ByteString
  length_ge : 16 ≤ bytes.length
  length_le : bytes.length ≤ 4096
  visible : ∀ c ∈ bytes, 33 ≤ c.toNat ∧ c.toNat ≤ 126

/-- The credential and `json.dumps(credential)[1:-1]`. -/
def Credential.forbiddenValues (c : Credential) : List ByteString :=
  [c.bytes, c.bytes.flatMap fun b => if b = quote ∨ b = backslash then [backslash, b] else [b]]

/-- The stream of a request that was made with the credential. -/
def Response.forbidding (r : Response) (c : Credential) : Response :=
  { r with forbiddenValues := c.forbiddenValues }

/-- The body contains the value, or spells it inside a string. -/
def Leaks (value body : ByteString) : Prop :=
  value <:+: body ∨
    ∃ before spelled after, body = before ++ spelled ++ after ∧ Spells value spelled ∧
      OutsideEscape before

lemma Leaks.decoded {value body : ByteString} (h : Leaks value body)
    (hvalue : ∀ c ∈ value, c.toNat ≤ 127) :
    value <:+: body ∨ value <:+: (decodeEscapes [] body).2 := by
  obtain hraw | ⟨before, spelled, after, rfl, hspells, hbefore⟩ := h
  · exact .inl hraw
  · exact .inr (infix_decodeEscapes hbefore hspells hvalue)

/-! ## What a stream watches -/

namespace Stream

/-- A match has been reported. -/
def Flagged (s : Stream) : Prop :=
  s.marks.sensitive = true ∧ s.pendingSensitiveResponse = true

/-- The stream has received `text` and searched all of it, unless it was flagged before. -/
structure Watches (s : Stream) (forbidden : List ByteString) (text : ByteString) : Prop where
  pending : s.pending = (decodeEscapes [] text).1
  raw : s.forbiddenMatcher.map Automaton.pattern = forbidden.filter (· ≠ [])
  decoded : s.decodedForbiddenMatcher.map Automaton.pattern = forbidden.filter (· ≠ [])
  searched : s.Flagged ∨ s.forbiddenMatcher.Read text ∧
    s.decodedForbiddenMatcher.Read (decodeEscapes [] text).2

/-- What screening events leaves as it is. -/
structure SameSearch (s s' : Stream) : Prop where
  pending : s'.pending = s.pending
  genericTail : s'.genericTail = s.genericTail
  forbiddenMatcher : s'.forbiddenMatcher = s.forbiddenMatcher
  decodedForbiddenMatcher : s'.decodedForbiddenMatcher = s.decodedForbiddenMatcher
  pendingSensitiveResponse : s'.pendingSensitiveResponse = s.pendingSensitiveResponse
  sensitive : s.marks.sensitive = true → s'.marks.sensitive = true

lemma SameSearch.refl (s : Stream) : s.SameSearch s := ⟨rfl, rfl, rfl, rfl, rfl, id⟩

lemma SameSearch.trans {s t u : Stream} (h : s.SameSearch t) (g : t.SameSearch u) :
    s.SameSearch u :=
  ⟨g.pending.trans h.pending, g.genericTail.trans h.genericTail,
    g.forbiddenMatcher.trans h.forbiddenMatcher,
    g.decodedForbiddenMatcher.trans h.decodedForbiddenMatcher,
    g.pendingSensitiveResponse.trans h.pendingSensitiveResponse, g.sensitive ∘ h.sensitive⟩

lemma sameSearch_markCompleteOnce (s : Stream) : s.SameSearch s.markCompleteOnce := by
  unfold markCompleteOnce
  split <;> exact ⟨rfl, rfl, rfl, rfl, rfl, id⟩

lemma sameSearch_markResponse (s : Stream) (response : Bool × Bool) :
    s.SameSearch (s.markResponse response) := by
  unfold markResponse
  split
  · split
    · exact s.sameSearch_markCompleteOnce.trans ⟨rfl, rfl, rfl, rfl, rfl, id⟩
    · exact s.sameSearch_markCompleteOnce
  · exact .refl s

lemma sameSearch_markSensitive (s : Stream) : s.SameSearch s.markSensitive :=
  ⟨rfl, rfl, rfl, rfl, rfl, fun _ => rfl⟩

end Stream

section screening
variable (r : Response)

lemma sameSearch_screenEvent (s : Stream) (event : ByteString) :
    s.SameSearch (r.screenEvent s event).1 := by
  unfold Response.screenEvent
  split
  · exact .refl s
  case h_2 response _ =>
    have hmarked : s.SameSearch { s.markResponse response with screened := s.screened ++ [event] } :=
      (s.sameSearch_markResponse response).trans ⟨rfl, rfl, rfl, rfl, rfl, id⟩
    dsimp only
    split
    · exact hmarked.trans (Stream.sameSearch_markSensitive _)
    · split
      · exact hmarked
      · exact hmarked.trans (Stream.sameSearch_markSensitive _)
      · exact hmarked

lemma sameSearch_screenEvents (fuel : Nat) (s : Stream) (consumed : Nat) :
    s.SameSearch (r.screenEvents s consumed fuel).1 := by
  induction fuel generalizing s consumed with
  | zero => exact .refl s
  | succ fuel ih =>
    simp only [Response.screenEvents]
    split
    · exact .refl s
    case h_2 event next _ =>
      have hmoved : s.SameSearch { s with sseScanFrom := next } := ⟨rfl, rfl, rfl, rfl, rfl, id⟩
      have hevent := hmoved.trans (sameSearch_screenEvent r _ event)
      match hscreen : r.screenEvent { s with sseScanFrom := next } event with
      | (s', some e) => rwa [hscreen] at hevent
      | (s', none) =>
        rw [hscreen] at hevent
        exact hevent.trans (ih s' next)

lemma sameSearch_screenCompletedSseEvents (s : Stream) :
    s.SameSearch (r.screenCompletedSseEvents s).1 := by
  have hevents := sameSearch_screenEvents r s.structuredBuffer.length s 0
  unfold Response.screenCompletedSseEvents
  match hscreen : r.screenEvents s 0 s.structuredBuffer.length with
  | (s', consumed, some e) => rwa [hscreen] at hevents
  | (s', consumed, none) =>
    rw [hscreen] at hevents
    exact hevents.trans ⟨rfl, rfl, rfl, rfl, rfl, id⟩

end screening

/-! ## One chunk -/

namespace Stream
variable {s t : Stream} {forbidden : List ByteString} {received : ByteString}

lemma Flagged.of_sameSearch (h : s.Flagged) (same : s.SameSearch t) : t.Flagged :=
  ⟨same.sensitive h.1, same.pendingSensitiveResponse.trans h.2⟩

lemma flagged_searchDecoded (h : s.Flagged) (decoded window : ByteString) :
    (s.searchDecoded decoded window).Flagged := by
  unfold searchDecoded
  dsimp only
  split
  · exact ⟨rfl, rfl⟩
  · exact h

lemma flagged_searchChunk (h : s.Flagged) (chunk decoded window : ByteString) :
    (s.searchChunk chunk decoded window).Flagged := by
  unfold searchChunk
  dsimp only
  split
  · exact ⟨rfl, rfl⟩
  · exact flagged_searchDecoded (by exact h) decoded window

/-- The decoded search flags the stream or has read what it was given. -/
lemma searchDecoded_read {read : ByteString} (h : s.decodedForbiddenMatcher.Read read)
    (decoded window : ByteString) :
    (s.searchDecoded decoded window).Flagged ∨
      (s.searchDecoded decoded window).decodedForbiddenMatcher.Read (read ++ decoded) := by
  unfold searchDecoded
  dsimp only
  split
  · exact .inl ⟨rfl, rfl⟩
  case isFalse hclean =>
    rw [Bool.or_eq_true, not_or, Bool.not_eq_true] at hclean
    exact .inr (Matcher.feed_read h decoded hclean.1)

lemma searchDecoded_fields (s : Stream) (decoded window : ByteString) :
    (s.searchDecoded decoded window).pending = s.pending ∧
      (s.searchDecoded decoded window).forbiddenMatcher = s.forbiddenMatcher ∧
      (s.searchDecoded decoded window).decodedForbiddenMatcher.map Automaton.pattern =
        s.decodedForbiddenMatcher.map Automaton.pattern := by
  unfold searchDecoded
  dsimp only
  split <;> exact ⟨rfl, rfl, Matcher.feed_patterns _ _⟩

lemma searchChunk_fields (s : Stream) (chunk decoded window : ByteString) :
    (s.searchChunk chunk decoded window).pending = s.pending ∧
      (s.searchChunk chunk decoded window).forbiddenMatcher.map Automaton.pattern =
        s.forbiddenMatcher.map Automaton.pattern ∧
      (s.searchChunk chunk decoded window).decodedForbiddenMatcher.map Automaton.pattern =
        s.decodedForbiddenMatcher.map Automaton.pattern := by
  unfold searchChunk
  dsimp only
  split
  · exact ⟨rfl, Matcher.feed_patterns _ _, rfl⟩
  · obtain ⟨hpending, hraw, hdecoded⟩ := searchDecoded_fields
      { s with forbiddenMatcher := (s.forbiddenMatcher.feed chunk).2 } decoded window
    exact ⟨hpending, by rw [hraw]; exact Matcher.feed_patterns _ _, hdecoded⟩

/-- What the searches leave as it is. -/
lemma searchDecoded_eq (s : Stream) (decoded window : ByteString) :
    ∃ sensitive pendingSensitive matcher, s.searchDecoded decoded window =
      { s with
        marks.sensitive := sensitive
        pendingSensitiveResponse := pendingSensitive
        decodedForbiddenMatcher := matcher } := by
  unfold searchDecoded markSensitive
  dsimp only
  split_ifs <;> exact ⟨_, _, _, rfl⟩

lemma searchChunk_eq (s : Stream) (chunk decoded window : ByteString) :
    ∃ sensitive pendingSensitive raw matcher, s.searchChunk chunk decoded window =
      { s with
        marks.sensitive := sensitive
        pendingSensitiveResponse := pendingSensitive
        forbiddenMatcher := raw
        decodedForbiddenMatcher := matcher } := by
  unfold searchChunk markSensitive
  dsimp only
  split_ifs
  · exact ⟨_, _, _, _, rfl⟩
  · obtain ⟨_, _, _, hsearch⟩ := searchDecoded_eq
      { s with forbiddenMatcher := (s.forbiddenMatcher.feed chunk).2 } decoded window
    exact ⟨_, _, _, _, hsearch⟩

/-- Both searches have read a chunk that did not flag the stream. The raw search comes first and
leaves the decoded one out only when it flags the stream. -/
lemma searchChunk_read {read : ByteString} (hraw : s.forbiddenMatcher.Read received)
    (hdecoded : s.decodedForbiddenMatcher.Read read) (chunk decoded window : ByteString) :
    (s.searchChunk chunk decoded window).Flagged ∨
      (s.searchChunk chunk decoded window).forbiddenMatcher.Read (received ++ chunk) ∧
        (s.searchChunk chunk decoded window).decodedForbiddenMatcher.Read (read ++ decoded) := by
  unfold searchChunk
  dsimp only
  split
  · exact .inl ⟨rfl, rfl⟩
  case isFalse hclean =>
    rw [Bool.not_eq_true] at hclean
    refine (searchDecoded_read (by exact hdecoded) decoded window).imp_right fun hread => ⟨?_, hread⟩
    rw [(searchDecoded_fields _ _ _).2.1]
    exact Matcher.feed_read hraw chunk hclean

/-- The searches in a chunk, after it went through the decoder. -/
lemma Watches.searchChunk (h : s.Watches forbidden received) {chunk : ByteString}
    (window : ByteString) (same : SameSearch ((s.charge chunk).keep chunk) t) :
    (t.searchChunk chunk (s.decoded chunk) window).Watches forbidden (received ++ chunk) := by
  obtain ⟨hpending, hraw, hdecoded⟩ := t.searchChunk_fields chunk (s.decoded chunk) window
  have hstep : decodeEscapes [] (received ++ chunk) =
      ((decodeEscapes s.pending chunk).1, (decodeEscapes [] received).2 ++ s.decoded chunk) := by
    rw [decodeEscapes_append, ← h.pending]
    rfl
  refine ⟨?_, ?_, ?_, ?_⟩
  · rw [hpending, same.pending, hstep]
    rfl
  · rw [hraw, same.forbiddenMatcher]
    exact h.raw
  · rw [hdecoded, same.decodedForbiddenMatcher]
    exact h.decoded
  · rw [hstep]
    obtain hflagged | ⟨hread, hreadDecoded⟩ := h.searched
    · exact .inl (flagged_searchChunk (Flagged.of_sameSearch (by exact hflagged) same) _ _ _)
    · refine searchChunk_read ?_ ?_ _ _ _
      · rw [same.forbiddenMatcher]
        exact hread
      · rw [same.decodedForbiddenMatcher]
        exact hreadDecoded

/-- A stream that has received a leaked credential is flagged. -/
lemma Watches.flagged (h : s.Watches forbidden received) {c : Credential}
    (hmem : c.bytes ∈ forbidden) (hleaks : Leaks c.bytes received) : s.Flagged := by
  have hne : c.bytes ∈ forbidden.filter (· ≠ []) := by
    refine List.mem_filter.mpr ⟨hmem, ?_⟩
    have := c.length_ge
    simpa using List.ne_nil_of_length_pos (by omega)
  obtain hflagged | ⟨hraw, hdecoded⟩ := h.searched
  · exact hflagged
  · obtain hfound | hfound := hleaks.decoded fun b hb => by have := c.visible b hb; omega
    · exact absurd hfound (hraw.absent (h.raw ▸ hne))
    · exact absurd hfound (hdecoded.absent (h.decoded ▸ hne))

end Stream

lemma Response.start_watches (r : Response) (budget : Int) :
    (r.start budget).Watches r.forbiddenValues [] := by
  have hpatterns : (Matcher.start r.forbiddenValues).map Automaton.pattern =
      r.forbiddenValues.filter (· ≠ []) := by
    simp [Matcher.start, Function.comp_def]
  exact ⟨rfl, hpatterns, hpatterns, .inr ⟨Matcher.start_read _, Matcher.start_read _⟩⟩

/-- Why screening an event stream stops: it marks the response, or something is not handled. -/
def Stream.Rejects (s : Stream) (e : Raised) : Prop :=
  e = .sensitiveResponseBody ∧ s.marks.sensitive = true ∨ ∃ u, e = .unhandled u

section steps
variable {r : Response} {s t : Stream} {forbidden : List ByteString} {received : ByteString}

lemma rejects_screenEvent {event : ByteString} {e : Raised}
    (h : r.screenEvent s event = (t, some e)) : t.Rejects e := by
  unfold Response.screenEvent at h
  split at h
  · cases h
    exact .inr ⟨_, rfl⟩
  · dsimp only at h
    split at h
    · cases h
      exact .inl ⟨rfl, rfl⟩
    · split at h
      · cases h
        exact .inr ⟨_, rfl⟩
      · cases h
        exact .inl ⟨rfl, rfl⟩
      · cases h

lemma rejects_screenEvents {fuel consumed consumed' : Nat} {e : Raised}
    (h : r.screenEvents s consumed fuel = (t, consumed', some e)) : t.Rejects e := by
  induction fuel generalizing s consumed with
  | zero => cases h
  | succ fuel ih =>
    simp only [Response.screenEvents] at h
    split at h
    · cases h
    · split at h
      case h_1 hscreen =>
        cases h
        exact rejects_screenEvent hscreen
      · exact ih h

lemma rejects_screenCompletedSseEvents {e : Raised}
    (h : r.screenCompletedSseEvents s = (t, some e)) : t.Rejects e := by
  unfold Response.screenCompletedSseEvents at h
  split at h
  case h_1 hscreen =>
    cases h
    exact rejects_screenEvents hscreen
  · cases h

/-- What receiving a chunk can do: exceed the budget, keep the chunk back, stop at an event, or
yield the chunk. -/
lemma Response.receive_cases (r : Response) (s : Stream) (chunk : ByteString) :
    r.receive s chunk = (s.charge chunk, .error .responseLimitExceeded) ∨
    (r.bufferJsonDocument = true ∧ r.receive s chunk =
      (((s.charge chunk).keep chunk).searchChunk chunk (s.decoded chunk) (s.genericWindow chunk),
        .ok none)) ∨
    (r.bufferJsonDocument = false ∧ ∃ t, ((s.charge chunk).keep chunk).SameSearch t ∧
      ((∃ e, r.receive s chunk = (t, .error e) ∧ t.Rejects e) ∨
        r.receive s chunk = (t.searchChunk chunk (s.decoded chunk) (s.genericWindow chunk),
          .ok (some chunk)))) := by
  have same := sameSearch_screenCompletedSseEvents r ((s.charge chunk).keep chunk)
  simp only [Response.receive]
  split
  · exact .inl rfl
  · split
    case isTrue hbuffer => exact .inr (.inl ⟨hbuffer, rfl⟩)
    case isFalse hbuffer =>
      refine .inr (.inr ⟨by simpa using hbuffer, ?_⟩)
      match hscreen : r.screenCompletedSseEvents ((s.charge chunk).keep chunk) with
      | (t, some e) =>
        rw [hscreen] at same
        exact ⟨t, same, .inl ⟨e, rfl, rejects_screenCompletedSseEvents hscreen⟩⟩
      | (t, none) =>
        rw [hscreen] at same
        exact ⟨t, same, .inr rfl⟩

/-! ## Whole iterations -/

lemma finish_events_yields (hbuffer : r.bufferJsonDocument = false) (y : ByteString) :
    (r.finish s).2 ≠ .ok (some y) := by
  simp only [Response.finish, hbuffer, Bool.false_eq_true, if_false, Response.finishEvents]
  split
  · nofun
  · split
    · nofun
    · split <;> nofun

lemma iterate_nil_yielded (hbuffer : r.bufferJsonDocument = false) :
    (r.iterate s []).yielded = [] := by
  have hyields := fun y => finish_events_yields (s := s) hbuffer y
  unfold Response.iterate Response.Transcript.before
  split
  · rfl
  · rfl
  case h_3 hfinish => exact absurd (congrArg Prod.snd hfinish) (hyields _)

/-- Every chunk of an event stream that is yielded comes with the mark if what has been received
with it leaks the credential. -/
lemma iterate_events_marked (hbuffer : r.bufferJsonDocument = false) {c : Credential}
    (hmem : c.bytes ∈ forbidden) (h : s.Watches forbidden received) {chunks : List ByteString}
    {n : Nat} {y : ByteString} {marks : Marks}
    (hyielded : (r.iterate s chunks).yielded[n]? = some (y, marks))
    (hleaks : Leaks c.bytes (received ++ (chunks.take (n + 1)).flatten)) :
    marks.sensitive = true := by
  induction chunks generalizing s received n with
  | nil =>
    rw [iterate_nil_yielded hbuffer] at hyielded
    cases hyielded
  | cons chunk chunks ih =>
    rw [Response.iterate] at hyielded
    obtain hlimit | ⟨hbuffered, -⟩ | ⟨-, t, same, ⟨e, hraised, -⟩ | hyields⟩ :=
      r.receive_cases s chunk
    · simp [hlimit, Response.Transcript.before] at hyielded
    · simp [hbuffer] at hbuffered
    · simp [hraised, Response.Transcript.before] at hyielded
    · have hwatches := h.searchChunk (s.genericWindow chunk) same
      simp only [hyields, Response.Transcript.before] at hyielded
      cases n with
      | zero =>
        obtain ⟨rfl, rfl⟩ : chunk = y ∧ _ = marks := by simpa using hyielded
        exact (hwatches.flagged hmem (by simpa using hleaks)).1
      | succ n => exact ih hwatches (by simpa using hyielded) (by simpa using hleaks)

lemma finishDocument_of_flagged (h : s.Flagged) :
    ∃ t e, r.finishDocument s = (t, .error e) ∧ t.marks.sensitive = true := by
  simp only [Response.finishDocument]
  cases r.interpreter.jsonrpcResponse r.expectedId s.structuredBuffer with
  | error e => exact ⟨_, _, rfl, h.1⟩
  | ok response =>
    simp only [(s.sameSearch_markResponse _).pendingSensitiveResponse, h.2, if_true]
    exact ⟨_, _, rfl, rfl⟩

lemma finishEvents_of_flagged (h : s.Flagged) :
    ∃ t e, r.finishEvents s = (t, .error e) ∧ t.marks.sensitive = true := by
  simp only [Response.finishEvents, h.2, if_true]
  exact ⟨_, _, rfl, rfl⟩

/-- A flagged stream ends with an exception, and stays marked. -/
lemma finish_of_flagged (h : s.Flagged) :
    ∃ t e, r.finish s = (t, .error e) ∧ t.marks.sensitive = true := by
  have hsearched := Stream.flagged_searchDecoded (s := { s with pending := [] }) h s.pending
    (s.genericTail ++ s.pending)
  simp only [Response.finish]
  split
  · exact finishDocument_of_flagged hsearched
  · exact finishEvents_of_flagged hsearched

/-- A buffered response that leaks the credential is never delivered. -/
lemma iterate_buffered_yielded (hbuffer : r.bufferJsonDocument = true) {c : Credential}
    (hmem : c.bytes ∈ forbidden) (h : s.Watches forbidden received) {chunks : List ByteString}
    (hleaks : Leaks c.bytes (received ++ chunks.flatten)) : (r.iterate s chunks).yielded = [] := by
  induction chunks generalizing s received with
  | nil =>
    obtain ⟨t, e, hfinish, -⟩ := finish_of_flagged (r := r)
      (h.flagged hmem (by simpa using hleaks))
    simp [Response.iterate, hfinish, Response.Transcript.before]
  | cons chunk chunks ih =>
    rw [Response.iterate]
    obtain hlimit | ⟨-, hkept⟩ | ⟨hevents, -⟩ := r.receive_cases s chunk
    · simp [hlimit, Response.Transcript.before]
    · rw [hkept]
      exact ih (h.searchChunk _ (.refl _)) (by simpa using hleaks)
    · simp [hbuffer] at hevents

/-- A response that leaks the credential ends with the mark, unless the budget or an exception in
the screen of an event stream comes first. -/
lemma iterate_marked {c : Credential} (hmem : c.bytes ∈ forbidden)
    (h : s.Watches forbidden received) {chunks : List ByteString}
    (hleaks : Leaks c.bytes (received ++ chunks.flatten)) :
    (r.iterate s chunks).final.marks.sensitive = true ∨
      (r.iterate s chunks).raised = some .responseLimitExceeded ∨
      r.bufferJsonDocument = false ∧ ∃ u, (r.iterate s chunks).raised = some (.unhandled u) := by
  induction chunks generalizing s received with
  | nil =>
    obtain ⟨t, e, hfinish, hsensitive⟩ := finish_of_flagged (r := r)
      (h.flagged hmem (by simpa using hleaks))
    left
    simp [Response.iterate, hfinish, Response.Transcript.before, hsensitive]
  | cons chunk chunks ih =>
    rw [Response.iterate]
    obtain hlimit | ⟨-, hkept⟩ | ⟨hevents, t, same, ⟨e, hraised, hrejects⟩ | hyields⟩ :=
      r.receive_cases s chunk
    · simp [hlimit, Response.Transcript.before]
    · rw [hkept]
      exact ih (h.searchChunk _ (.refl _)) (by simpa using hleaks)
    · rw [hraised]
      obtain ⟨rfl, hsensitive⟩ | ⟨u, rfl⟩ := hrejects
      · exact .inl hsensitive
      · exact .inr (.inr ⟨hevents, u, rfl⟩)
    · rw [hyields]
      exact ih (h.searchChunk _ same) (by simpa using hleaks)

end steps

end Modall.McpAdapter
