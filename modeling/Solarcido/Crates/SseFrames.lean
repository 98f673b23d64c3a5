import Solarcido.Crates.Sse

namespace Solarcido.Crates

open RustText ChunkedDecoder Emitter

namespace Sse

section occurrences

variable (buffer more : Bytes) (i : Nat)

def LfLfAt : Prop := buffer[i]? = some 10 ∧ buffer[i + 1]? = some 10

def CrLfCrLfAt : Prop :=
  buffer[i]? = some 13 ∧ buffer[i + 1]? = some 10 ∧ buffer[i + 2]? = some 13 ∧
    buffer[i + 3]? = some 10

/-- A blank line of one form or the other. -/
def BlankLineAt (len : Nat) : Prop :=
  (len = 2 ∧ LfLfAt buffer i) ∨ (len = 4 ∧ CrLfCrLfAt buffer i)

theorem lfLf_ne_nil : lfLf ≠ [] := by decide

theorem crLfCrLf_ne_nil : crLfCrLf ≠ [] := by decide

theorem lfLf_prefix_iff : lfLf <+: buffer.drop i ↔ LfLfAt buffer i := by
  simp [lfLf, LfLfAt, Search.cons_prefix_drop_iff]

theorem crLfCrLf_prefix_iff : crLfCrLf <+: buffer.drop i ↔ CrLfCrLfAt buffer i := by
  simp [crLfCrLf, CrLfCrLfAt, Search.cons_prefix_drop_iff, Nat.add_assoc]

theorem position_lfLf_iff :
    position lfLf buffer = some i ↔ LfLfAt buffer i ∧ ∀ j < i, ¬ LfLfAt buffer j := by
  simp only [position, Search.firstIndexOf_eq_some_iff lfLf_ne_nil, lfLf_prefix_iff]

theorem position_crLfCrLf_iff :
    position crLfCrLf buffer = some i ↔
      CrLfCrLfAt buffer i ∧ ∀ j < i, ¬ CrLfCrLfAt buffer j := by
  simp only [position, Search.firstIndexOf_eq_some_iff crLfCrLf_ne_nil,
    crLfCrLf_prefix_iff]

theorem position_lfLf_none_iff : position lfLf buffer = none ↔ ∀ j, ¬ LfLfAt buffer j := by
  simp only [position, Search.firstIndexOf_eq_none_iff lfLf_ne_nil, lfLf_prefix_iff]

theorem position_crLfCrLf_none_iff :
    position crLfCrLf buffer = none ↔ ∀ j, ¬ CrLfCrLfAt buffer j := by
  simp only [position, Search.firstIndexOf_eq_none_iff crLfCrLf_ne_nil,
    crLfCrLf_prefix_iff]

variable {buffer i}

theorem LfLfAt.fits (h : LfLfAt buffer i) : i + 2 ≤ buffer.length := by
  obtain ⟨hlt, -⟩ := List.getElem?_eq_some_iff.mp h.2
  omega

theorem CrLfCrLfAt.fits (h : CrLfCrLfAt buffer i) : i + 4 ≤ buffer.length := by
  obtain ⟨hlt, -⟩ := List.getElem?_eq_some_iff.mp h.2.2.2
  omega

theorem BlankLineAt.fits {len : Nat} (h : BlankLineAt buffer i len) :
    0 < len ∧ i + len ≤ buffer.length := by
  obtain ⟨rfl, h⟩ | ⟨rfl, h⟩ := h
  · exact ⟨by omega, h.fits⟩
  · exact ⟨by omega, h.fits⟩

theorem lfLfAt_append (h : i + 2 ≤ buffer.length) :
    LfLfAt (buffer ++ more) i ↔ LfLfAt buffer i := by
  simp only [LfLfAt, List.getElem?_append_left (show i < buffer.length by omega),
    List.getElem?_append_left (show i + 1 < buffer.length by omega)]

theorem crLfCrLfAt_append (h : i + 4 ≤ buffer.length) :
    CrLfCrLfAt (buffer ++ more) i ↔ CrLfCrLfAt buffer i := by
  simp only [CrLfCrLfAt, List.getElem?_append_left (show i < buffer.length by omega),
    List.getElem?_append_left (show i + 1 < buffer.length by omega),
    List.getElem?_append_left (show i + 2 < buffer.length by omega),
    List.getElem?_append_left (show i + 3 < buffer.length by omega)]

theorem lfLfAt_drop (n : Nat) : LfLfAt (buffer.drop n) i ↔ LfLfAt buffer (n + i) := by
  simp [LfLfAt, List.getElem?_drop, Nat.add_assoc]

theorem crLfCrLfAt_drop (n : Nat) : CrLfCrLfAt (buffer.drop n) i ↔ CrLfCrLfAt buffer (n + i) := by
  simp [CrLfCrLfAt, List.getElem?_drop, Nat.add_assoc]

/-- The two forms overlap at the end of CR LF CR LF only. -/
theorem LfLfAt.apart {j : Nat} (h : LfLfAt buffer i) (h' : CrLfCrLfAt buffer j) :
    j + 3 ≤ i ∨ i + 2 ≤ j := by
  by_contra hnot
  obtain ⟨h0, h1⟩ := h
  obtain ⟨g0, g1, g2, g3⟩ := h'
  have hcases : i = j ∨ i = j + 1 ∨ i = j + 2 ∨ i + 1 = j := by omega
  obtain rfl | rfl | rfl | rfl := hcases
  · rw [g0] at h0
    simp at h0
  · rw [g2] at h1
    simp at h1
  · rw [g2] at h0
    simp at h0
  · rw [g0] at h1
    simp at h1

end occurrences

/-- Where the first blank line is, of either form, and how long it is. -/
def blankLine (buffer : Bytes) : Option (Nat × Nat) :=
  match position lfLf buffer, position crLfCrLf buffer with
  | some lf, some crLf => if lf < crLf then some (lf, 2) else some (crLf, 4)
  | some lf, none => some (lf, 2)
  | none, some crLf => some (crLf, 4)
  | none, none => none

/-- The frame in front of the first blank line. -/
def nextBlankLine : Next UInt8 Bytes Empty := fun buffer =>
  .ok ((blankLine buffer).map fun (pos, len) => (buffer.take pos, pos + len))

/-- The frames of a body: what stands between its blank lines, the last one included. -/
def frames (body : Bytes) : List Bytes :=
  (drain nextBlankLine body).messages ++ [(drain nextBlankLine body).rest]

/-- A CR LF CR LF stands in front of a LF LF. -/
def Mixed (buffer : Bytes) : Prop := ∃ i j, i < j ∧ CrLfCrLfAt buffer i ∧ LfLfAt buffer j

section separators

variable (buffer : Bytes)

theorem blankLine_none_iff :
    blankLine buffer = none ↔ ∀ j, ¬ LfLfAt buffer j ∧ ¬ CrLfCrLfAt buffer j := by
  rw [forall_and, ← position_lfLf_none_iff, ← position_crLfCrLf_none_iff, blankLine]
  cases position lfLf buffer <;> cases position crLfCrLf buffer <;> simp
  split <;> simp

variable {buffer} in
theorem blankLine_some {pos len : Nat} (h : blankLine buffer = some (pos, len)) :
    BlankLineAt buffer pos len ∧ ∀ j < pos, ¬ LfLfAt buffer j ∧ ¬ CrLfCrLfAt buffer j := by
  rw [blankLine] at h
  cases hlf : position lfLf buffer with
  | none =>
    rw [position_lfLf_none_iff] at hlf
    cases hcr : position crLfCrLf buffer with
    | none => simp [(position_lfLf_none_iff buffer).mpr hlf, hcr] at h
    | some q =>
      simp only [(position_lfLf_none_iff buffer).mpr hlf, hcr, Option.some.injEq, Prod.mk.injEq] at h
      obtain ⟨rfl, rfl⟩ := h
      obtain ⟨hat, hfirst⟩ := (position_crLfCrLf_iff buffer q).mp hcr
      exact ⟨Or.inr ⟨rfl, hat⟩, fun j hj => ⟨hlf j, hfirst j hj⟩⟩
  | some p =>
    obtain ⟨hlfAt, hlfFirst⟩ := (position_lfLf_iff buffer p).mp hlf
    cases hcr : position crLfCrLf buffer with
    | none =>
      simp only [hlf, hcr, Option.some.injEq, Prod.mk.injEq] at h
      obtain ⟨rfl, rfl⟩ := h
      rw [position_crLfCrLf_none_iff] at hcr
      exact ⟨Or.inl ⟨rfl, hlfAt⟩, fun j hj => ⟨hlfFirst j hj, hcr j⟩⟩
    | some q =>
      obtain ⟨hcrAt, hcrFirst⟩ := (position_crLfCrLf_iff buffer q).mp hcr
      simp only [hlf, hcr] at h
      split at h
      · next hlt =>
        obtain ⟨rfl, rfl⟩ := Prod.mk.inj (Option.some.inj h)
        exact ⟨Or.inl ⟨rfl, hlfAt⟩, fun j hj => ⟨hlfFirst j hj, hcrFirst j (by omega)⟩⟩
      · next hle =>
        obtain ⟨rfl, rfl⟩ := Prod.mk.inj (Option.some.inj h)
        exact ⟨Or.inr ⟨rfl, hcrAt⟩, fun j hj => ⟨hlfFirst j (by omega), hcrFirst j hj⟩⟩

variable {buffer} in
/-- There is only one first blank line. -/
theorem blankLine_eq {pos len : Nat} (hat : BlankLineAt buffer pos len)
    (hfirst : ∀ j < pos, ¬ LfLfAt buffer j ∧ ¬ CrLfCrLfAt buffer j) :
    blankLine buffer = some (pos, len) := by
  cases h : blankLine buffer with
  | none =>
    have hnone := (blankLine_none_iff buffer).mp h pos
    obtain ⟨-, hat⟩ | ⟨-, hat⟩ := hat
    · exact absurd hat hnone.1
    · exact absurd hat hnone.2
  | some r =>
    obtain ⟨pos', len'⟩ := r
    obtain ⟨hat', hfirst'⟩ := blankLine_some h
    have hnot {p l q : Nat} (hp : BlankLineAt buffer p l)
        (hq : ∀ j < q, ¬ LfLfAt buffer j ∧ ¬ CrLfCrLfAt buffer j) : q ≤ p := by
      by_contra hlt
      obtain ⟨-, hp⟩ | ⟨-, hp⟩ := hp
      · exact (hq p (by omega)).1 hp
      · exact (hq p (by omega)).2 hp
    obtain rfl : pos = pos' := Nat.le_antisymm (hnot hat' hfirst) (hnot hat hfirst')
    obtain ⟨rfl, hat⟩ | ⟨rfl, hat⟩ := hat
    · obtain ⟨rfl, -⟩ | ⟨rfl, hat'⟩ := hat'
      · rfl
      · have := hat.apart hat'
        omega
    · obtain ⟨rfl, hat'⟩ | ⟨rfl, -⟩ := hat'
      · have := hat'.apart hat
        omega
      · rfl

theorem nextBlankLine_lawful : Lawful nextBlankLine where
  consumes := by
    intro buffer frame n h
    obtain ⟨⟨pos, len⟩, hline, hframe⟩ := Option.map_eq_some_iff.mp (Except.ok.inj h)
    obtain ⟨rfl, rfl⟩ := Prod.mk.inj hframe
    have := (blankLine_some hline).1.fits
    omega
  frame_append := by
    intro buffer more r h
    obtain ⟨⟨pos, len⟩, hline, rfl⟩ := Option.map_eq_some_iff.mp (Except.ok.inj h)
    obtain ⟨hat, hfirst⟩ := blankLine_some hline
    have hfits := hat.fits
    have hline' : blankLine (buffer ++ more) = some (pos, len) := by
      apply blankLine_eq
      · obtain ⟨rfl, hat⟩ | ⟨rfl, hat⟩ := hat
        · exact Or.inl ⟨rfl, (lfLfAt_append more hat.fits).mpr hat⟩
        · exact Or.inr ⟨rfl, (crLfCrLfAt_append more hat.fits).mpr hat⟩
      · intro j hj
        refine ⟨?_, ?_⟩
        · rw [lfLfAt_append more (by omega)]
          exact (hfirst j hj).1
        · intro hcr
          -- a CR LF CR LF in front would have to reach into the blank line itself
          by_cases hinside : j + 4 ≤ buffer.length
          · exact (hfirst j hj).2 ((crLfCrLfAt_append more hinside).mp hcr)
          · obtain ⟨rfl, hat⟩ | ⟨rfl, hat⟩ := hat
            · have := ((lfLfAt_append more hat.fits).mpr hat).apart hcr
              omega
            · omega
    have htake : (buffer ++ more).take pos = buffer.take pos :=
      List.take_append_of_le_length (by omega)
    simp only [nextBlankLine, hline', Option.map_some, htake]
  error_append := fun buffer more e => e.elim

variable {buffer} in
theorem separator_at {pos len : Nat} (h : separator buffer = some (pos, len)) :
    BlankLineAt buffer pos len := by
  rw [separator, Option.or_eq_some_iff] at h
  obtain h | ⟨-, h⟩ := h
  · obtain ⟨p, hp, hpos⟩ := Option.map_eq_some_iff.mp h
    obtain ⟨rfl, rfl⟩ := Prod.mk.inj hpos
    exact Or.inl ⟨rfl, ((position_lfLf_iff buffer p).mp hp).1⟩
  · obtain ⟨p, hp, hpos⟩ := Option.map_eq_some_iff.mp h
    obtain ⟨rfl, rfl⟩ := Prod.mk.inj hpos
    exact Or.inr ⟨rfl, ((position_crLfCrLf_iff buffer p).mp hp).1⟩

theorem nextSseFrame_eq : nextSseFrame buffer =
    .ok ((separator buffer).map fun (pos, len) => (buffer.take pos, pos + len)) := by
  rw [nextSseFrame]
  cases h : separator buffer with
  | none => rfl
  | some r =>
    obtain ⟨pos, len⟩ := r
    have hfits := (separator_at h).fits
    have htake : (buffer.take (pos + len)).take ((buffer.take (pos + len)).length - len) =
        buffer.take pos := by
      rw [List.take_take, List.length_take]
      congr 1
      omega
    simp only [Option.map_some, htake]

theorem nextSseFrame_advances : Advances nextSseFrame := by
  intro buffer frame n h
  rw [nextSseFrame_eq] at h
  obtain ⟨⟨pos, len⟩, hline, hframe⟩ := Option.map_eq_some_iff.mp (Except.ok.inj h)
  obtain ⟨rfl, rfl⟩ := Prod.mk.inj hframe
  have := (separator_at hline).fits
  omega

theorem Mixed.of_drop {buffer : Bytes} {n : Nat} (h : Mixed (buffer.drop n)) : Mixed buffer := by
  obtain ⟨i, j, hlt, hcr, hlf⟩ := h
  exact ⟨n + i, n + j, by omega, (crLfCrLfAt_drop n).mp hcr, (lfLfAt_drop n).mp hlf⟩

variable {buffer} in
theorem separator_eq_blankLine (h : ¬ Mixed buffer) : separator buffer = blankLine buffer := by
  rw [separator, blankLine]
  cases hlf : position lfLf buffer with
  | none => cases position crLfCrLf buffer <;> rfl
  | some p =>
    cases hcr : position crLfCrLf buffer with
    | none => rfl
    | some q =>
      have hlt : p < q := by
        have hlfAt := ((position_lfLf_iff buffer p).mp hlf).1
        have hcrAt := ((position_crLfCrLf_iff buffer q).mp hcr).1
        have hapart := hlfAt.apart hcrAt
        by_contra hle
        exact h ⟨q, p, by omega, hcrAt, hlfAt⟩
      simp [hlt]

theorem drain_eq_of_not_mixed (h : ¬ Mixed buffer) :
    drain nextSseFrame buffer = drain nextBlankLine buffer := by
  induction buffer using buffer_induction nextBlankLine_lawful.advances with
  | error buffer e => exact e.elim
  | wait buffer hwait =>
    have hline : blankLine buffer = none := by simpa [nextBlankLine] using hwait
    have hwait' : nextSseFrame buffer = .ok none := by
      rw [nextSseFrame_eq, separator_eq_blankLine h, hline]
      rfl
    rw [drain_wait hwait, drain_wait hwait']
  | frame buffer frame n hframe hle ih =>
    have hframe' : nextSseFrame buffer = .ok (some (frame, n)) := by
      rw [nextSseFrame_eq, separator_eq_blankLine h]
      exact hframe
    rw [drain_frame nextBlankLine_lawful.advances hframe, drain_frame nextSseFrame_advances hframe',
      ih fun hmixed => h hmixed.of_drop]

/-- The first CR LF CR LF in front of a LF LF stays inside a frame. -/
theorem diverge_of_mixed (h : Mixed buffer) :
    Diverge (drain nextSseFrame buffer).messages (drain nextBlankLine buffer).messages := by
  induction buffer using buffer_induction nextBlankLine_lawful.advances with
  | error buffer e => exact e.elim
  | wait buffer hwait =>
    have hline : blankLine buffer = none := by simpa [nextBlankLine] using hwait
    obtain ⟨i, j, -, hcr, -⟩ := h
    exact absurd hcr ((blankLine_none_iff buffer).mp hline i).2
  | frame buffer frame n hframe hle ih =>
    obtain ⟨i, j, hij, hcr, hlf⟩ := h
    obtain ⟨⟨pos, len⟩, hline, heq⟩ := Option.map_eq_some_iff.mp (Except.ok.inj hframe)
    obtain ⟨rfl, rfl⟩ := Prod.mk.inj heq
    obtain ⟨hat, hfirst⟩ := blankLine_some hline
    obtain ⟨p, hp⟩ : ∃ p, position lfLf buffer = some p := by
      cases hnone : position lfLf buffer with
      | none => exact absurd hlf ((position_lfLf_none_iff buffer).mp hnone j)
      | some p => exact ⟨p, rfl⟩
    obtain ⟨hpAt, hpFirst⟩ := (position_lfLf_iff buffer p).mp hp
    have hcode : nextSseFrame buffer = .ok (some (buffer.take p, p + 2)) := by
      rw [nextSseFrame_eq, separator, hp]
      rfl
    rw [drain_frame nextBlankLine_lawful.advances hframe, drain_frame nextSseFrame_advances hcode]
    obtain ⟨rfl, hat⟩ | ⟨rfl, hat⟩ := hat
    · -- the first blank line is a LF LF: the code cuts there too
      obtain rfl : p = pos := by
        by_contra hne
        obtain hlt | hlt := Nat.lt_or_gt_of_ne hne
        · exact (hfirst p hlt).1 hpAt
        · exact hpFirst pos hlt hat
      apply Diverge.cons
      apply ih
      have hapart := hat.apart hcr
      have hi : ¬ i < p := fun hlt => (hfirst i hlt).2 hcr
      refine ⟨i - (p + 2), j - (p + 2), by omega, ?_, ?_⟩
      · rw [crLfCrLfAt_drop]
        convert hcr using 1
        omega
      · rw [lfLfAt_drop]
        convert hlf using 1
        omega
    · -- it is a CR LF CR LF: the frame of the code goes beyond it
      have hapart := hpAt.apart hat
      have hlt : pos < p := by
        by_contra hle
        exact (hfirst p (by omega)).1 hpAt
      refine ⟨[], _, _, _, _, rfl, rfl, ?_⟩
      intro heq
      have hlen := congrArg List.length heq
      have := hpAt.fits
      simp only [List.length_take] at hlen
      omega

end separators

section payloads

def framePayload (frame : Bytes) : Option RustString := payloadOf (fromUtf8Lossy frame)

/-- The payloads of a body, whatever chunks it comes in. -/
def payloads (body : Bytes) : List RustString := (frames body).filterMap framePayload

/-- What has been cut, and what is left over, after some chunks. -/
def cut (chunks : List Bytes) : Reader UInt8 Bytes := feedAll nextSseFrame collect ⟨[], []⟩ chunks

/-- The payloads whose frames each chunk completes. -/
def arrivals (earlier : Bytes) : List Bytes → List (List RustString)
  | [] => []
  | chunk :: chunks =>
    (drain nextBlankLine ((drain nextBlankLine earlier).rest ++ chunk)).messages.filterMap
      framePayload :: arrivals (earlier ++ chunk) chunks

/-- The payload of an unterminated last frame. -/
def tailPayload (body : Bytes) : Option RustString := framePayload (drain nextBlankLine body).rest

theorem arrivals_flatten (earlier : Bytes) (chunks : List Bytes) :
    (arrivals earlier chunks).flatten =
      (drain nextBlankLine ((drain nextBlankLine earlier).rest ++ chunks.flatten)).messages.filterMap
        framePayload := by
  induction chunks generalizing earlier with
  | nil =>
    rw [List.flatten_nil, List.append_nil, drain_rest nextBlankLine_lawful]
    rfl
  | cons chunk chunks ih =>
    obtain ⟨-, hrest⟩ := drain_rest_append nextBlankLine_lawful earlier chunk
    obtain ⟨hmessages, -⟩ := drain_rest_append nextBlankLine_lawful
      ((drain nextBlankLine earlier).rest ++ chunk) chunks.flatten
    rw [arrivals, List.flatten_cons, ih, hrest, List.flatten_cons, ← List.append_assoc, hmessages,
      List.filterMap_append]

theorem drain_nil : drain nextBlankLine [] = ⟨[], [], none⟩ := drain_wait rfl

theorem payloads_eq (chunks : List Bytes) : payloads chunks.flatten =
    (arrivals [] chunks).flatten ++ (tailPayload chunks.flatten).toList := by
  rw [arrivals_flatten, drain_nil, List.nil_append, payloads, frames, List.filterMap_append,
    tailPayload, List.filterMap_cons]
  cases framePayload (drain nextBlankLine chunks.flatten).rest <;> rfl

theorem finish_eq (s : SseParser) : s.finish.1 = (framePayload s.buffer).toList := by
  rw [SseParser.finish]
  split
  · next h => rw [h]; rfl
  · have htrim (frame : RustString) : payloadOf (trim frame) = payloadOf frame := by
      rw [payloadOf, payloadOf, trim_trim]
    rw [extractDataPayload, htrim, framePayload]

/-- The parser of raw payloads lets out the payloads of the frames it cuts. -/
theorem parse_eq (buffer : Bytes) (chunks : List Bytes) :
    SseParser.parse ⟨buffer⟩ chunks =
      ((feedAll nextSseFrame collect ⟨buffer, []⟩ chunks).log ++
        [(feedAll nextSseFrame collect ⟨buffer, []⟩ chunks).buffer]).filterMap framePayload := by
  induction chunks generalizing buffer with
  | nil =>
    rw [SseParser.parse, finish_eq, feedAll, List.foldl_nil, List.nil_append, List.filterMap_cons]
    cases framePayload buffer <;> rfl
  | cons chunk chunks ih =>
    rw [SseParser.parse, SseParser.push, ih, feedAll_cons, feed_collect, feedAll_collect_eq _ ([] ++ _),
      List.nil_append]
    simp only [List.append_assoc, List.filterMap_append]
    rfl

variable (serde : SerdeJson) (model : RustString)

theorem parseSseFrame_eq (frame : Bytes) : parseSseFrame serde model (fromUtf8Lossy frame) =
    (framePayload frame).elim (.ok none) fun payload =>
      (decodePayload serde model payload).map some := by
  rw [parseSseFrame, framePayload]
  cases payloadOf (fromUtf8Lossy frame) <;> rfl

/-- A chunk of which no buffer is mixed is handed on payload by payload. -/
theorem push_eq (buffer chunk : Bytes) (h : ¬ Mixed (buffer ++ chunk)) :
    (OpenAiSseParser.push serde chunk ⟨buffer, model⟩).1 =
        (match parseAll (decodePayload serde model)
          ((drain nextBlankLine (buffer ++ chunk)).messages.filterMap framePayload) with
        | (received, none) => .ok received
        | (_, some error) => .error error) ∧
      ((parseAll (decodePayload serde model)
          ((drain nextBlankLine (buffer ++ chunk)).messages.filterMap framePayload)).2 = none →
        (OpenAiSseParser.push serde chunk ⟨buffer, model⟩).2 =
          ⟨(drain nextBlankLine (buffer ++ chunk)).rest, model⟩) := by
  obtain ⟨hmessages, hfailure, hrest⟩ :=
    drain_parsed (fun frame => parseSseFrame serde model (fromUtf8Lossy frame))
      nextSseFrame_advances (buffer ++ chunk)
  rw [drain_eq_of_not_mixed _ h] at hmessages hfailure hrest
  rw [parseAll_filterMap framePayload _ (parseSseFrame_eq serde model)]
  simp only [OpenAiSseParser.push, OpenAiSseParser.nextChunk, hmessages, hfailure]
  cases hnone : (parseAll (fun frame => parseSseFrame serde model (fromUtf8Lossy frame))
      (drain nextBlankLine (buffer ++ chunk)).messages).2 with
  | none => exact ⟨rfl, fun _ => by rw [hrest hnone]⟩
  | some error => exact ⟨rfl, fun h => by cases h⟩

theorem receive_eq (earlier : Bytes) (chunks : List Bytes)
    (h : ∀ before chunk after, chunks = before ++ chunk :: after →
      ¬ Mixed ((drain nextBlankLine (earlier ++ before.flatten)).rest ++ chunk)) :
    OpenAiSseParser.receive serde ⟨(drain nextBlankLine earlier).rest, model⟩ chunks =
      parseGroups (decodePayload serde model) (arrivals earlier chunks) := by
  induction chunks generalizing earlier with
  | nil => rfl
  | cons chunk chunks ih =>
    have hchunk : ¬ Mixed ((drain nextBlankLine earlier).rest ++ chunk) := by
      have := h [] chunk chunks rfl
      rwa [List.flatten_nil, List.append_nil] at this
    obtain ⟨hpush, hrest⟩ := push_eq serde model _ chunk hchunk
    have hafter := ih (earlier ++ chunk) fun before c after hsplit => by
      have := h (chunk :: before) c after (by rw [hsplit, List.cons_append])
      rwa [List.flatten_cons, ← List.append_assoc] at this
    rw [(drain_rest_append nextBlankLine_lawful earlier chunk).2] at hafter
    rw [OpenAiSseParser.receive, arrivals, parseGroups]
    cases hparse : parseAll (decodePayload serde model)
        ((drain nextBlankLine ((drain nextBlankLine earlier).rest ++ chunk)).messages.filterMap
          framePayload) with
    | mk received failure =>
      rw [hparse] at hpush hrest
      rw [← Prod.mk.eta (p := OpenAiSseParser.push serde chunk _), hpush]
      cases failure with
      | none =>
        simp only [hrest rfl, hafter]
      | some error => rfl

/-- Both parsers take a body apart at its blank lines, and hand on all its payloads. -/
structure Delivered (chunks : List Bytes) : Prop where
  frames : (cut chunks).log ++ [(cut chunks).buffer] = frames chunks.flatten
  parser : SseParser.new.parse chunks = payloads chunks.flatten
  client : (OpenAiSseParser.new model).receive serde chunks =
    parseAll (decodePayload serde model) (payloads chunks.flatten)

/-- The payloads are delivered just when in no buffer a CR LF CR LF stands in front of a LF LF, the
client is not left with an unterminated payload, and no payload stands in front of the first
undecodable one in the frames that its chunk completes. -/
theorem delivered_iff (chunks : List Bytes) : Delivered serde model chunks ↔
    (∀ before chunk after, chunks = before ++ chunk :: after →
      ¬ Mixed ((drain nextBlankLine before.flatten).rest ++ chunk)) ∧
    (tailPayload chunks.flatten = none ∨
      (parseAll (decodePayload serde model) (arrivals [] chunks).flatten).2 ≠ none) ∧
    FailureLeads (decodePayload serde model) (arrivals [] chunks) := by
  have hcut : (cut chunks).log ++ [(cut chunks).buffer] = Sse.frames chunks.flatten ↔
      ∀ before chunk after, chunks = before ++ chunk :: after →
        ¬ Mixed ((drain nextBlankLine before.flatten).rest ++ chunk) := by
    have h := collect_eq_iff nextBlankLine_lawful drain_eq_of_not_mixed diverge_of_mixed [] [] chunks
    simp only [drain_nil, List.nil_append] at h
    rw [← h, Sse.frames, cut]
    constructor
    · intro heq
      exact List.append_singleton_inj.mp heq
    · intro heq
      exact List.append_singleton_inj.mpr heq
  have hclient (hmixed : ∀ before chunk after, chunks = before ++ chunk :: after →
      ¬ Mixed ((drain nextBlankLine before.flatten).rest ++ chunk)) :
      (OpenAiSseParser.new model).receive serde chunks =
        parseAll (decodePayload serde model) (payloads chunks.flatten) ↔
      (tailPayload chunks.flatten = none ∨
        (parseAll (decodePayload serde model) (arrivals [] chunks).flatten).2 ≠ none) ∧
      FailureLeads (decodePayload serde model) (arrivals [] chunks) := by
    have hreceive := receive_eq serde model [] chunks hmixed
    rw [drain_nil] at hreceive
    rw [OpenAiSseParser.new, hreceive, payloads_eq, parseGroups_eq_iff, Option.toList_eq_nil_iff]
  constructor
  · intro h
    have hmixed := hcut.mp h.frames
    exact ⟨hmixed, (hclient hmixed).mp h.client⟩
  · rintro ⟨hmixed, hrest⟩
    have hframes := hcut.mpr hmixed
    refine ⟨hframes, ?_, (hclient hmixed).mpr hrest⟩
    rw [SseParser.new, parse_eq, payloads, ← hframes]
    rfl

/-- Two frames whose blank lines differ come out as one. -/
theorem merged_frames :
    SseParser.new.parse [Utf8.bufferFrom (Text.js "data: a\r\n\r\ndata: b\n\n")] = [str "a\nb"] ∧
      payloads (Utf8.bufferFrom (Text.js "data: a\r\n\r\ndata: b\n\n")) = [str "a", str "b"] := by
  decide +kernel

end payloads

end Sse

namespace SolarStream

/-- What calls of `next_event` return until the stream is over. -/
inductive Emits (serde : SerdeJson) :
    SolarStream → List (Except ApiError Bytes) → List StreamEvent → Option Failure → Prop where
  | ended {s t : SolarStream} {responses rest : List (Except ApiError Bytes)}
      (h : nextEvent serde s responses = (.ok none, t, rest)) : Emits serde s responses [] none
  | failed {s t : SolarStream} {responses rest : List (Except ApiError Bytes)} {failure : Failure}
      (h : nextEvent serde s responses = (.error failure, t, rest)) :
      Emits serde s responses [] (some failure)
  | event {s t : SolarStream} {responses rest : List (Except ApiError Bytes)} {event : StreamEvent}
      {events : List StreamEvent} {failure : Option Failure}
      (h : nextEvent serde s responses = (.ok (some event), t, rest))
      (more : Emits serde t rest events failure) : Emits serde s responses (event :: events) failure

section events

variable {serde : SerdeJson} {parser : OpenAiSseParser} {done : Bool} {state : StreamState}
  {responses : List (Except ApiError Bytes)} {events : List StreamEvent} {failure : Option Failure}

/-- Pending events are returned first. -/
theorem Emits.pending (pending : List StreamEvent)
    (h : Emits serde ⟨parser, [], done, state⟩ responses events failure) :
    Emits serde ⟨parser, pending, done, state⟩ responses (pending ++ events) failure := by
  induction pending with
  | nil => exact h
  | cons event pending ih =>
    cases responses with
    | nil => exact .event (t := ⟨parser, pending, done, state⟩) rfl ih
    | cons response responses => exact .event (t := ⟨parser, pending, done, state⟩) rfl ih

theorem Emits.of_nextEvent {s t : SolarStream} {more : List (Except ApiError Bytes)}
    (hstep : nextEvent serde s responses = nextEvent serde t more)
    (h : Emits serde t more events failure) : Emits serde s responses events failure := by
  cases h with
  | ended h => exact .ended (hstep.trans h)
  | failed h => exact .failed (hstep.trans h)
  | event h rest => exact .event (hstep.trans h) rest

theorem eachTool_finished {step : Step ToolCallState} {s t : StreamState}
    (hs : s.finished = true) (h : s.eachTool step = .ok (events, t)) : t.finished = true := by
  refine forEach_invariant (fun _ u => u.finished = true) hs ?_ h
  intro es u k fs v hu hstep
  rw [StreamState.updateTool] at hstep
  cases hget : u.toolCalls.get k with
  | none =>
    rw [hget] at hstep
    obtain ⟨-, rfl⟩ := Prod.mk.inj (Except.ok.inj hstep)
    exact hu
  | some tool =>
    rw [hget] at hstep
    cases hadvance : step tool with
    | error panic => simp [hadvance, Except.map] at hstep
    | ok r =>
      simp only [hadvance, Except.map, Except.ok.injEq, Prod.mk.injEq] at hstep
      obtain ⟨-, rfl⟩ := hstep
      exact hu

/-- Once finished, the state has nothing more to let out. -/
theorem finish_finished {s t : StreamState} (h : s.finish = .ok (events, t)) :
    t.finish = .ok ([], t) := by
  have hfinished : t.finished = true := by
    rw [StreamState.finish] at h
    split at h
    · next hs =>
      obtain ⟨-, rfl⟩ := Prod.mk.inj (Except.ok.inj h)
      exact hs
    · obtain ⟨es, u, fs, htext, hrest, -⟩ := (andThen_ok_iff _ _ _ _ _).mp h
      obtain ⟨gs, v, hs, htools, hmessage, -⟩ := (andThen_ok_iff _ _ _ _ _).mp hrest
      have hu : u.finished = true := by
        rw [StreamState.finishText] at htext
        split at htext
        · obtain ⟨-, rfl⟩ := Prod.mk.inj (Except.ok.inj htext)
          rfl
        · obtain ⟨-, rfl⟩ := Prod.mk.inj (Except.ok.inj htext)
          rfl
      have hv := eachTool_finished hu htools
      rw [StreamState.finishMessage] at hmessage
      split at hmessage
      · obtain ⟨-, rfl⟩ := Prod.mk.inj (Except.ok.inj hmessage)
        exact hv
      · obtain ⟨-, rfl⟩ := Prod.mk.inj (Except.ok.inj hmessage)
        exact hv
  rw [StreamState.finish, if_pos hfinished]

/-- The end of the body lets out what is left, and then there is nothing more. -/
theorem emits_finish {s t : StreamState} (h : s.finish = .ok (events, t)) :
    Emits serde ⟨parser, [], done, s⟩ [] events none := by
  have hafter : Emits serde ⟨parser, [], true, t⟩ [] [] none := by
    have hstep : nextEvent serde ⟨parser, [], true, t⟩ [] =
        (.ok none, ⟨parser, [], true, t⟩, []) := by
      simp only [nextEvent, finishing, finish_finished h]
      rfl
    exact .ended hstep
  cases events with
  | nil =>
    have hstep : nextEvent serde ⟨parser, [], done, s⟩ [] =
        (.ok none, ⟨parser, [], true, t⟩, []) := by
      simp only [nextEvent, finishing, h]
      rfl
    exact .ended hstep
  | cons event rest =>
    have hstep : nextEvent serde ⟨parser, [], done, s⟩ [] =
        (.ok (some event), ⟨parser, rest, true, t⟩, []) := by
      simp only [nextEvent, finishing, h]
      rfl
    exact .event hstep (by simpa using hafter.pending rest)

/-- The events returned are those of the chunks the parser hands on. -/
theorem emits_received {chunks : List Bytes} {last : StreamState}
    (h : forEach StreamState.ingestChunk (parser.receive serde chunks).1 state = .ok (events, last)) :
    match (parser.receive serde chunks).2 with
    | some error =>
      Emits serde ⟨parser, [], false, state⟩ (chunks.map .ok) events (some (.api error))
    | none => ∀ ends last', last.finish = .ok (ends, last') →
      Emits serde ⟨parser, [], false, state⟩ (chunks.map .ok) (events ++ ends) none := by
  induction chunks generalizing parser state events with
  | nil =>
    obtain ⟨rfl, rfl⟩ := Prod.mk.inj (Except.ok.inj h)
    intro ends last' hfinish
    exact emits_finish hfinish
  | cons chunk chunks ih =>
    rw [OpenAiSseParser.receive] at h ⊢
    cases hpush : parser.push serde chunk with
    | mk result parser' =>
      cases result with
      | error error =>
        rw [hpush] at h
        obtain ⟨rfl, rfl⟩ := Prod.mk.inj (Except.ok.inj h)
        have hstep : nextEvent serde ⟨parser, [], false, state⟩ ((chunk :: chunks).map .ok) =
            (.error (.api error), ⟨parser', [], false, state⟩, chunks.map .ok) := by
          simp only [List.map_cons, nextEvent, hpush]
          rfl
        exact .failed hstep
      | ok received =>
        rw [hpush] at h
        rw [forEach_append, andThen_ok_iff] at h
        obtain ⟨es, middle, fs, hreceived, hrest, rfl⟩ := h
        have hstep : nextEvent serde ⟨parser, [], false, state⟩ ((chunk :: chunks).map .ok) =
            nextEvent serde ⟨parser', es, false, middle⟩ (chunks.map .ok) := by
          rw [List.map_cons, nextEvent]
          simp only [hpush, hreceived]
          rfl
        have hmore := ih hrest
        simp only
        cases hfailure : (parser'.receive serde chunks).2 with
        | some error =>
          rw [hfailure] at hmore
          exact (hmore.pending es).of_nextEvent hstep
        | none =>
          rw [hfailure] at hmore
          intro ends last' hfinish
          rw [List.append_assoc]
          exact ((hmore ends last' hfinish).pending es).of_nextEvent hstep

end events

end SolarStream

end Solarcido.Crates
