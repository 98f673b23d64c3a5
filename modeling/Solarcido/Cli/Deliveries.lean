import Solarcido.Cli.ReadLine
import Solarcido.Js.Surrogates

namespace Solarcido.Cli

open Text Utf8 DroppingReader

section chunks

theorem onData_append (self : LineState) (text more : List Nat) :
    onData self (text ++ more) =
      match onData self text with
      | .inl self' => onData self' more
      | .inr outcome => .inr outcome := by
  induction text generalizing self with
  | nil => rfl
  | cons ch text ih =>
    rw [List.cons_append, onData, onData]
    cases self.onChar ch with
    | inl self' => exact ih self'
    | inr outcome => rfl

theorem step_eq (self : Listening) (b : UInt8) :
    prompt.step self b = match onData self.line (writeByte self.decoder b).1 with
      | .inl line => .inl ⟨line, (writeByte self.decoder b).2⟩
      | .inr outcome => .inr outcome := by
  cases hend : onData self.line (writeByte self.decoder b).1 with
  | inl line => simp only [prompt, Listening.onChunk, write_single, hend]
  | inr outcome => simp only [prompt, Listening.onChunk, write_single, hend]

/-- A chunk is read as its bytes up to the one that ends the call. -/
theorem onChunk_eq_readChunk (self : Listening) (chunk : Bytes) :
    self.onChunk chunk = prompt.readChunk self chunk := by
  induction chunk generalizing self with
  | nil => rfl
  | cons b chunk ih =>
    rw [Reader.readChunk, step_eq, Listening.onChunk, write_cons]
    dsimp only
    rw [onData_append]
    cases onData self.line (writeByte self.decoder b).1 with
    | inl line => exact ih ⟨line, (writeByte self.decoder b).2⟩
    | inr outcome => rfl

theorem readLines_eq (chunks : List Bytes) : readLines chunks = prompt.feedAll prompt.fresh chunks := by
  have hreceive : receive = prompt.feed := by
    funext t chunk
    rw [receive, Reader.feed]
    cases t.now with
    | none => rfl
    | some listening =>
      dsimp only
      rw [onChunk_eq_readChunk]
  rw [readLines, hreceive]
  rfl

end chunks

section ends

theorem onChar_resolved_iff (self : LineState) (ch : Nat) :
    (∃ line, self.onChar ch = .inr (.resolved line)) ↔
      self.escState = .none ∧ (ch = 13 ∨ ch = 10) := by
  unfold LineState.onChar
  cases self.escState with
  | paste => simp
  | esc => simp
  | csi => simp
  | none =>
    by_cases hesc : ch = ESC
    · simp [hesc, ESC]
    · rw [if_neg hesc]
      by_cases henter : ch = 13 ∨ ch = 10
      · simp [henter]
      · rw [if_neg henter]
        split_ifs <;> simp [henter]

/-- A line ends at an Enter that stands in no paste and in no escape sequence. -/
theorem onData_resolved_iff (self : LineState) (text : List Nat) :
    (∃ line, onData self text = .inr (.resolved line)) ↔
      ∃ before ch after self', text = before ++ ch :: after ∧ onData self before = .inl self' ∧
        self'.escState = .none ∧ (ch = 13 ∨ ch = 10) := by
  constructor
  · rintro ⟨line, hline⟩
    induction text generalizing self with
    | nil => cases hline
    | cons ch text ih =>
      rw [onData] at hline
      cases hch : self.onChar ch with
      | inl next =>
        rw [hch] at hline
        obtain ⟨before, enter, after, self', rfl, hbefore, hends⟩ := ih next hline
        refine ⟨ch :: before, enter, after, self', rfl, ?_, hends⟩
        rw [onData, hch]
        exact hbefore
      | inr outcome =>
        rw [hch] at hline
        obtain rfl : outcome = .resolved line := Sum.inr.inj hline
        exact ⟨[], ch, text, self, rfl, rfl, (onChar_resolved_iff self ch).mp ⟨line, hch⟩⟩
  · rintro ⟨before, ch, after, self', rfl, hbefore, hends⟩
    obtain ⟨line, hline⟩ := (onChar_resolved_iff self' ch).mpr hends
    refine ⟨line, ?_⟩
    rw [onData_append, hbefore]
    dsimp only
    rw [onData, hline]

/-- A byte completes an Enter that stands in no paste and in no escape sequence. -/
def EndsLine (self : Listening) (b : UInt8) : Prop :=
  ∃ before ch after line, (writeByte self.decoder b).1 = before ++ ch :: after ∧
    onData self.line before = .inl line ∧ line.escState = .none ∧ (ch = 13 ∨ ch = 10)

theorem step_last_iff (self : Listening) (b : UInt8) :
    (∃ outcome, prompt.step self b = .inr outcome ∧ prompt.last outcome = false) ↔
      EndsLine self b := by
  rw [EndsLine, ← onData_resolved_iff, step_eq]
  cases onData self.line (writeByte self.decoder b).1 with
  | inl line => simp
  | inr outcome => cases outcome <;> simp [prompt, Outcome.isLast]

theorem restarts_iff (t : Standing Listening Outcome) (front : Bytes) (b : UInt8) :
    prompt.Restarts t front b ↔ ∃ listening self, t.now = some listening ∧
      listening.onChunk front = .inl self ∧ EndsLine self b := by
  constructor
  · rintro ⟨listening, outcome, hnow, ⟨self, hfront, hstep⟩, hlast⟩
    rw [← onChunk_eq_readChunk] at hfront
    exact ⟨listening, self, hnow, hfront, (step_last_iff self b).mp ⟨outcome, hstep, hlast⟩⟩
  · rintro ⟨listening, self, hnow, hfront, hends⟩
    obtain ⟨outcome, hstep, hlast⟩ := (step_last_iff self b).mpr hends
    rw [onChunk_eq_readChunk] at hfront
    exact ⟨listening, outcome, hnow, ⟨self, hfront, hstep⟩, hlast⟩

end ends

section deliveries

/-- In no chunk a byte stands behind an Enter that ends a line. -/
def EnterLast (chunks : List Bytes) : Prop :=
  ∀ before front b rest after listening self, chunks = before ++ (front ++ b :: rest) :: after →
    (readLines before).now = some listening → listening.onChunk front = .inl self →
      EndsLine self b → rest = []

theorem readLines_enterLast {chunks : List Bytes} (h : EnterLast chunks) :
    readLines chunks = readLines (chunks.flatten.map fun b => [b]) := by
  rw [readLines_eq, readLines_eq]
  apply Reader.feedAll_whole
  rintro before chunk after rfl front b rest rfl hrestarts
  rw [← readLines_eq] at hrestarts
  obtain ⟨listening, self, hnow, hfront, hends⟩ := (restarts_iff _ front b).mp hrestarts
  exact h before front b rest after listening self rfl hnow hfront hends

/-- The lines do not depend on how what is typed is cut into chunks where every Enter that
ends a line is the last byte of its chunk. All ways to cut some bytes agree exactly when
what stands behind the first Enter leaves no trace, from wherever on it is typed. -/
theorem readLines_cut (keys : Bytes) :
    (∀ first second : List Bytes, first.flatten = keys → second.flatten = keys →
      EnterLast first → EnterLast second → readLines first = readLines second) ∧
    ((∀ first second : List Bytes, first.flatten = keys → second.flatten = keys →
        readLines first = readLines second) ↔
      ∀ front b rest self, keys = front ++ b :: rest →
        Listening.initial.onChunk front = .inl self → EndsLine self b →
          ∀ later, later <:+ rest → readLines (later.map fun b => [b]) = readLines []) := by
  constructor
  · intro first second hkeys hsame hfirst hsecond
    rw [readLines_enterLast hfirst, readLines_enterLast hsecond, hkeys, hsame]
  · simp only [readLines_eq]
    rw [Reader.feedAll_agree_iff, Reader.LosesNothing]
    constructor
    · intro h front b rest self hkeys hfront hends
      exact h front b rest hkeys ((restarts_iff _ front b).mpr ⟨_, self, rfl, hfront, hends⟩)
    · intro h front b rest hkeys hrestarts
      obtain ⟨listening, self, hnow, hfront, hends⟩ := (restarts_iff _ front b).mp hrestarts
      obtain rfl := Option.some.inj hnow
      exact h front b rest self hkeys hfront hends

/-- Two lines that come in one chunk. -/
def pasted : Bytes := [97, 13, 98, 13]

theorem second_line_lost : (readLines [pasted]).results = [.resolved (js "a")] ∧
    (readLines (pasted.map fun b => [b])).results = [.resolved (js "a"), .resolved (js "b")] ∧
    ¬ ∀ first second : List Bytes, first.flatten = second.flatten →
      (readLines first).results = (readLines second).results := by
  refine ⟨by decide, by decide, fun h => ?_⟩
  have hlines := h [pasted] (pasted.map fun b => [b]) rfl
  revert hlines
  decide

end deliveries

section typing

/-- A character that is put into the line as it is. -/
def IsPlain (c : Nat) : Prop := IsScalar c ∧ 32 ≤ c ∧ c ≠ 127

theorem onChar_plain {self : LineState} {c : Nat} (hstate : self.escState = .none)
    (hmenu : self.menuOpen = false) (hc : IsPlain c) (hslash : self.buf = [] → c ≠ 47) :
    self.onChar c = .inl { self with buf := self.buf ++ utf16 c } := by
  obtain ⟨hscalar, hspace, hdelete⟩ := hc
  have hcontrol : c ≠ ESC ∧ ¬ (c = 13 ∨ c = 10) ∧ ¬ (c = 127 ∨ c = 8) ∧ c ≠ 3 ∧ c ≠ 4 := by
    unfold ESC
    omega
  obtain ⟨hesc, henter, herase, hbreak, heof⟩ := hcontrol
  have hopens : ¬ (c = 47 ∧ self.buf ++ utf16 c = js "/") := by
    rintro ⟨rfl, htext⟩
    cases hbuf : self.buf with
    | nil => exact hslash hbuf rfl
    | cons u buf =>
      have hlength := congrArg List.length htext
      rw [hbuf] at hlength
      simp [utf16, js, fromCodePoints] at hlength
  unfold LineState.onChar LineState.onPrintable
  rw [hstate]
  simp [hesc, henter, herase, hbreak, heof, hspace, hmenu, hopens]

theorem onData_plain {self : LineState} {cs : List Nat} (hstate : self.escState = .none)
    (hmenu : self.menuOpen = false) (hcs : ∀ c ∈ cs, IsPlain c)
    (hslash : self.buf = [] → cs.head? ≠ some 47) :
    onData self cs = .inl { self with buf := self.buf ++ fromCodePoints cs } := by
  induction cs generalizing self with
  | nil => simp [onData, fromCodePoints]
  | cons c cs ih =>
    have hc : IsPlain c := hcs c (by simp)
    have hchar := onChar_plain hstate hmenu hc (by simpa using hslash)
    have hfull : self.buf ++ utf16 c ≠ [] := by
      obtain ⟨u, rest, hu, -⟩ := utf16_head hc.1
      simp [hu]
    have hrest : onData { self with buf := self.buf ++ utf16 c } cs =
        .inl { self with buf := self.buf ++ utf16 c ++ fromCodePoints cs } :=
      ih hstate hmenu (fun d hd => hcs d (by simp [hd])) (fun hnil => absurd hnil hfull)
    rw [onData, hchar]
    simp only [hrest]
    simp [fromCodePoints]

/-- A decoder that has been given whole characters waits for nothing. -/
theorem write_encoded (cs : List Nat) (hcs : ∀ c ∈ cs, IsScalar c) (hlast : cs.getLast? ≠ some replacement) :
    write none (bufferFrom (fromCodePoints cs)) = (cs, none) := by
  have hdecoded := decodeFrom_eq_write none (bufferFrom (fromCodePoints cs))
  rw [bufferFrom_fromCodePoints cs hcs, decodeFrom_encode cs hcs,
    ← bufferFrom_fromCodePoints cs hcs] at hdecoded
  generalize write none (bufferFrom (fromCodePoints cs)) = written at hdecoded
  obtain ⟨text, decoder⟩ := written
  cases decoder with
  | none => simp_all [flush]
  | some p =>
    refine absurd ?_ hlast
    rw [hdecoded]
    simp [flush]

/-- A text without control characters that begins with no slash is returned as it is typed. -/
theorem typed_returned (cs : List Nat) (hcs : ∀ c ∈ cs, IsPlain c) (hslash : cs.head? ≠ some 47) :
    readLines [bufferFrom (fromCodePoints (cs ++ [13]))] =
      ⟨[.resolved (fromCodePoints cs)], some .initial⟩ := by
  have hscalar : ∀ c ∈ cs ++ [13], IsScalar c := by
    intro c hc
    rcases List.mem_append.mp hc with h | h
    · exact (hcs c h).1
    · obtain rfl := List.mem_singleton.mp h
      exact .inl (by decide)
  have hdata : onData .initial (cs ++ [13]) = .inr (.resolved (fromCodePoints cs)) := by
    rw [onData_append, onData_plain rfl rfl hcs fun _ => hslash]
    rfl
  have hchunk : Listening.initial.onChunk (bufferFrom (fromCodePoints (cs ++ [13]))) =
      .inr (.resolved (fromCodePoints cs)) := by
    have hwrite : write Listening.initial.decoder (bufferFrom (fromCodePoints (cs ++ [13]))) =
        (cs ++ [13], none) := write_encoded _ hscalar (by simp [replacement])
    rw [Listening.onChunk, hwrite]
    change (match onData .initial (cs ++ [13]) with
      | .inl line => (.inl ⟨line, none⟩ : Listening ⊕ Outcome)
      | .inr outcome => .inr outcome) = _
    rw [hdata]
  change receive prompt.fresh _ = _
  rw [receive, Reader.fresh]
  dsimp only
  rw [show prompt.start = Listening.initial from rfl, hchunk]
  rfl

end typing

end Solarcido.Cli
