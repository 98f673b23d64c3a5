import Mathlib.Data.List.Basic

namespace Solarcido.ChunkedDecoder

variable {β α ε μ : Type}

/-- What draining a buffer yields: the messages decoded from its front, the
bytes left over, and the failure that stopped the loop, if one did. -/
structure Drained (β α ε : Type) where
  messages : List α
  rest : List β
  failure : Option ε

abbrev Next (β α ε : Type) := List β → Except ε (Option (α × Nat))

def drainFuel (next : Next β α ε) : Nat → List β → Drained β α ε
  | 0, buffer => ⟨[], buffer, none⟩
  | fuel + 1, buffer =>
    match next buffer with
    | .error e => ⟨[], buffer, some e⟩
    | .ok none => ⟨[], buffer, none⟩
    | .ok (some (a, n)) =>
      let d := drainFuel next fuel (buffer.drop n)
      { d with messages := a :: d.messages }

/-- Decode messages off the front of a buffer until one is incomplete or
malformed. Every message takes at least one byte, so the length bounds the loop. -/
def drain (next : Next β α ε) (buffer : List β) : Drained β α ε :=
  drainFuel next (buffer.length + 1) buffer

/-- Every message takes at least one byte, and none that is not there. -/
def Advances (next : Next β α ε) : Prop :=
  ∀ buffer a n, next buffer = .ok (some (a, n)) → 0 < n ∧ n ≤ buffer.length

/-- A decoder that moves forward and whose verdict later bytes do not change. -/
structure Lawful (next : Next β α ε) : Prop where
  consumes : ∀ buffer a n, next buffer = .ok (some (a, n)) → 0 < n ∧ n ≤ buffer.length
  frame_append : ∀ buffer more r, next buffer = .ok (some r) → next (buffer ++ more) = .ok (some r)
  error_append : ∀ buffer more e, next buffer = .error e → next (buffer ++ more) = .error e

section drain

variable {next : Next β α ε}

theorem Lawful.advances (hn : Lawful next) : Advances next := hn.consumes

theorem drainFuel_enough (hn : Advances next) (fuel : Nat) (buffer : List β)
    (h : buffer.length < fuel) : drainFuel next fuel buffer = drain next buffer := by
  suffices hs : ∀ k fuel buffer, buffer.length < k → buffer.length < fuel →
      drainFuel next fuel buffer = drainFuel next k buffer from
    hs (buffer.length + 1) fuel buffer (by omega) h
  intro k
  induction k with
  | zero => intro fuel buffer hk; omega
  | succ k ih =>
    intro fuel buffer hk hf
    cases fuel with
    | zero => omega
    | succ fuel =>
      rw [drainFuel, drainFuel]
      split
      · rfl
      · rfl
      · next a n hnext =>
        obtain ⟨hpos, hle⟩ := hn buffer a n hnext
        have hlen : (buffer.drop n).length < buffer.length := by
          rw [List.length_drop]; omega
        rw [ih fuel (buffer.drop n) (by omega) (by omega)]

theorem drain_error {buffer : List β} {e : ε} (h : next buffer = .error e) :
    drain next buffer = ⟨[], buffer, some e⟩ := by
  rw [drain, drainFuel, h]

theorem drain_wait {buffer : List β} (h : next buffer = .ok none) :
    drain next buffer = ⟨[], buffer, none⟩ := by
  rw [drain, drainFuel, h]

theorem drain_frame (hn : Advances next) {buffer : List β} {a : α} {n : Nat}
    (h : next buffer = .ok (some (a, n))) :
    drain next buffer =
      { drain next (buffer.drop n) with
        messages := a :: (drain next (buffer.drop n)).messages } := by
  obtain ⟨hpos, hle⟩ := hn buffer a n h
  have hlen : (buffer.drop n).length < buffer.length := by
    rw [List.length_drop]; omega
  rw [drain, drainFuel, h]
  simp only [drainFuel_enough hn buffer.length (buffer.drop n) hlen]

/-- Induction along the messages at the front of a buffer. -/
theorem buffer_induction (hn : Advances next) {P : List β → Prop}
    (error : ∀ buffer e, next buffer = .error e → P buffer)
    (wait : ∀ buffer, next buffer = .ok none → P buffer)
    (frame : ∀ buffer a n, next buffer = .ok (some (a, n)) → n ≤ buffer.length →
      P (buffer.drop n) → P buffer) (buffer : List β) : P buffer := by
  induction hlen : buffer.length using Nat.strongRecOn generalizing buffer with
  | ind len ih =>
    match hnext : next buffer with
    | .error e => exact error buffer e hnext
    | .ok none => exact wait buffer hnext
    | .ok (some (a, n)) =>
      obtain ⟨hpos, hle⟩ := hn buffer a n hnext
      have hshort : (buffer.drop n).length < len := by
        rw [List.length_drop]; omega
      exact frame buffer a n hnext hle (ih _ hshort (buffer.drop n) rfl)

/-- Draining a longer buffer is draining its front, then the left over bytes
together with the new ones. -/
theorem drain_append (hn : Lawful next) (buffer more : List β) :
    drain next (buffer ++ more) =
      { drain next ((drain next buffer).rest ++ more) with
        messages := (drain next buffer).messages ++
          (drain next ((drain next buffer).rest ++ more)).messages } := by
  induction buffer using buffer_induction hn.advances with
  | error buffer e h => simp [drain_error h]
  | wait buffer h => simp [drain_wait h]
  | frame buffer a n h hle ih =>
    rw [drain_frame hn.advances (hn.frame_append buffer more (a, n) h),
      List.drop_append_of_le_length hle, ih, drain_frame hn.advances h]
    simp

/-- Nothing can be decoded off the left over bytes: draining them again gives
no message and the failure as before. -/
theorem drain_rest (hn : Lawful next) (buffer : List β) :
    drain next (drain next buffer).rest =
      ⟨[], (drain next buffer).rest, (drain next buffer).failure⟩ := by
  induction buffer using buffer_induction hn.advances with
  | error buffer e h => simp [drain_error h]
  | wait buffer h => simp [drain_wait h]
  | frame buffer a n h hle ih =>
    rw [drain_frame hn.advances h]
    exact ih

/-- A failure leaves the malformed bytes at the front. -/
theorem next_of_failure (hn : Lawful next) (buffer : List β) (e : ε)
    (h : (drain next buffer).failure = some e) :
    next (drain next buffer).rest = .error e := by
  induction buffer using buffer_induction hn.advances with
  | error buffer e' herr =>
    rw [drain_error herr] at h ⊢
    rw [herr]
    simpa using h
  | wait buffer hwait => simp [drain_wait hwait] at h
  | frame buffer a n hframe hle ih =>
    rw [drain_frame hn.advances hframe] at h ⊢
    exact ih h

theorem drain_failure_append (hn : Lawful next) (buffer more : List β) (e : ε)
    (h : (drain next buffer).failure = some e) :
    drain next (buffer ++ more) =
      ⟨(drain next buffer).messages, (drain next buffer).rest ++ more, some e⟩ := by
  have herr := next_of_failure hn buffer e h
  rw [drain_append hn, drain_error (hn.error_append _ more e herr)]
  simp

/-- A prefix of a stream that drains without failure drains without failure. -/
theorem failure_of_append (hn : Lawful next) (buffer more : List β)
    (h : (drain next (buffer ++ more)).failure = none) :
    (drain next buffer).failure = none := by
  cases hf : (drain next buffer).failure with
  | none => rfl
  | some e => simp [drain_failure_append hn buffer more e hf] at h

/-- Encodings that decode to their message whatever follows drain in order. -/
theorem drain_encoded (hn : Lawful next) (encode : α → List β)
    (hencode : ∀ a more, next (encode a ++ more) = .ok (some (a, (encode a).length)))
    (as : List α) (more : List β) :
    drain next ((as.map encode).flatten ++ more) =
      { drain next more with messages := as ++ (drain next more).messages } := by
  induction as with
  | nil => rfl
  | cons a as ih =>
    have ha := hencode a ((as.map encode).flatten ++ more)
    simp only [List.map_cons, List.flatten_cons, List.append_assoc]
    rw [drain_frame hn.advances ha, List.drop_left, ih]
    simp

end drain

/-- What a reader does with a decoded message and with a failure: the entries
each adds to its log, and the bytes it keeps after a failure. -/
structure Policy (β α ε μ : Type) where
  accept : α → μ
  report : ε → μ
  keep : List β → List β

structure Reader (β μ : Type) where
  buffer : List β
  log : List μ

/-- One chunk: it joins the buffer, and the buffer is drained. -/
def feed (next : Next β α ε) (policy : Policy β α ε μ) (r : Reader β μ) (chunk : List β) :
    Reader β μ :=
  let d := drain next (r.buffer ++ chunk)
  match d.failure with
  | none => ⟨d.rest, r.log ++ d.messages.map policy.accept⟩
  | some e => ⟨policy.keep d.rest, r.log ++ d.messages.map policy.accept ++ [policy.report e]⟩

def feedAll (next : Next β α ε) (policy : Policy β α ε μ) (r : Reader β μ)
    (chunks : List (List β)) : Reader β μ :=
  chunks.foldl (feed next policy) r

section feed

variable {next : Next β α ε} (policy : Policy β α ε μ)

theorem feed_clean (r : Reader β μ) (chunk : List β)
    (h : (drain next (r.buffer ++ chunk)).failure = none) :
    feed next policy r chunk =
      ⟨(drain next (r.buffer ++ chunk)).rest,
        r.log ++ (drain next (r.buffer ++ chunk)).messages.map policy.accept⟩ := by
  simp only [feed, h]

theorem feed_failing (r : Reader β μ) (chunk : List β) (e : ε)
    (h : (drain next (r.buffer ++ chunk)).failure = some e) :
    feed next policy r chunk =
      ⟨policy.keep (drain next (r.buffer ++ chunk)).rest,
        r.log ++ (drain next (r.buffer ++ chunk)).messages.map policy.accept
          ++ [policy.report e]⟩ := by
  simp only [feed, h]

/-- A stream without failure gives the same log however it is cut. -/
theorem feedAll_clean (hn : Lawful next) (r : Reader β μ) (chunks : List (List β))
    (hr : drain next r.buffer = ⟨[], r.buffer, none⟩)
    (h : (drain next (r.buffer ++ chunks.flatten)).failure = none) :
    feedAll next policy r chunks =
      ⟨(drain next (r.buffer ++ chunks.flatten)).rest,
        r.log ++ (drain next (r.buffer ++ chunks.flatten)).messages.map policy.accept⟩ := by
  induction chunks generalizing r with
  | nil => simp [feedAll, hr]
  | cons c cs ih =>
    rw [List.flatten_cons, ← List.append_assoc] at h ⊢
    have hc := failure_of_append hn (r.buffer ++ c) cs.flatten h
    have hsplit := drain_append hn (r.buffer ++ c) cs.flatten
    have hrest := drain_rest hn (r.buffer ++ c)
    rw [hc] at hrest
    rw [hsplit] at h ⊢
    have hfeed := feed_clean policy r c hc
    have hstep := ih (feed next policy r c) (by rw [hfeed]; exact hrest) (by rw [hfeed]; exact h)
    rw [hfeed] at hstep
    simpa [feedAll, hfeed] using hstep

/-- Once the buffer starts with malformed bytes that are kept, every chunk
fails, an empty one too. -/
theorem feedAll_after_failure (hn : Lawful next) (hkeep : policy.keep = id) (e : ε)
    (r : Reader β μ) (chunks : List (List β)) (h : next r.buffer = .error e) :
    feedAll next policy r chunks =
      ⟨r.buffer ++ chunks.flatten, r.log ++ List.replicate chunks.length (policy.report e)⟩ := by
  induction chunks generalizing r with
  | nil => simp [feedAll]
  | cons c cs ih =>
    have hc := hn.error_append r.buffer c e h
    have hfeed : feed next policy r c = ⟨r.buffer ++ c, r.log ++ [policy.report e]⟩ := by
      rw [feed_failing policy r c e (by rw [drain_error hc]), drain_error hc]
      simp [hkeep]
    have hstep := ih (feed next policy r c) (by rw [hfeed]; exact hc)
    rw [hfeed] at hstep
    simpa [feedAll, hfeed, List.replicate_succ] using hstep

/-- A reader that keeps malformed bytes never gets past them: it logs what was
decoded before them and then one failure for each chunk from there on. -/
theorem feedAll_stuck (hn : Lawful next) (hkeep : policy.keep = id) (e : ε)
    (r : Reader β μ) (chunks : List (List β))
    (hr : drain next r.buffer = ⟨[], r.buffer, none⟩)
    (h : (drain next (r.buffer ++ chunks.flatten)).failure = some e) :
    ∃ k, feedAll next policy r chunks =
      ⟨(drain next (r.buffer ++ chunks.flatten)).rest,
        r.log ++ (drain next (r.buffer ++ chunks.flatten)).messages.map policy.accept
          ++ List.replicate (k + 1) (policy.report e)⟩ := by
  induction chunks generalizing r with
  | nil => simp [hr] at h
  | cons c cs ih =>
    rw [List.flatten_cons, ← List.append_assoc] at h ⊢
    cases hc : (drain next (r.buffer ++ c)).failure with
    | none =>
      have hrest := drain_rest hn (r.buffer ++ c)
      rw [hc] at hrest
      rw [drain_append hn (r.buffer ++ c) cs.flatten] at h ⊢
      have hfeed := feed_clean policy r c hc
      obtain ⟨k, hk⟩ := ih (feed next policy r c) (by rw [hfeed]; exact hrest)
        (by rw [hfeed]; exact h)
      refine ⟨k, ?_⟩
      rw [hfeed] at hk
      simpa [feedAll, hfeed] using hk
    | some e' =>
      rw [drain_failure_append hn (r.buffer ++ c) cs.flatten e' hc] at h ⊢
      have he : e' = e := by simpa using h
      subst he
      have hfeed := feed_failing policy r c e' hc
      have hnext := next_of_failure hn (r.buffer ++ c) e' hc
      rw [hkeep] at hfeed
      have hafter := feedAll_after_failure policy hn hkeep e' (feed next policy r c) cs
        (by rw [hfeed]; exact hnext)
      refine ⟨cs.length, ?_⟩
      rw [hfeed] at hafter
      simpa [feedAll, hfeed, List.replicate_succ] using hafter

end feed

section parsing

variable {γ : Type} (parse : α → Except ε γ)

/-- A decoder whose messages are parsed as soon as they are cut. -/
def parsed (next : Next β α Empty) : Next β γ ε := fun buffer =>
  match next buffer with
  | .error e => e.elim
  | .ok none => .ok none
  | .ok (some (a, n)) => (parse a).map fun c => some (c, n)

/-- Parse in order, up to the first failure. -/
def parseAll : List α → List γ × Option ε
  | [] => ([], none)
  | a :: as =>
    match parse a with
    | .error e => ([], some e)
    | .ok c => (c :: (parseAll as).1, (parseAll as).2)

theorem parseAll_append (as bs : List α) : parseAll parse (as ++ bs) =
    match (parseAll parse as).2 with
    | none => ((parseAll parse as).1 ++ (parseAll parse bs).1, (parseAll parse bs).2)
    | some e => ((parseAll parse as).1, some e) := by
  induction as with
  | nil => rfl
  | cons a as ih =>
    rw [List.cons_append, parseAll, parseAll]
    cases parse a with
    | error e => rfl
    | ok c =>
      simp only [ih]
      cases (parseAll parse as).2 <;> rfl

/-- Parsing what is picked out of the messages. -/
theorem parseAll_filterMap {δ : Type} (pick : α → Option δ) (decode : δ → Except ε γ)
    {read : α → Except ε (Option γ)}
    (hread : ∀ a, read a = (pick a).elim (.ok none) fun d => (decode d).map some) (as : List α) :
    parseAll decode (as.filterMap pick) =
      ((parseAll read as).1.filterMap id, (parseAll read as).2) := by
  induction as with
  | nil => rfl
  | cons a as ih =>
    rw [parseAll, hread]
    cases hpick : pick a with
    | none =>
      rw [List.filterMap_cons_none hpick, ih]
      rfl
    | some d =>
      rw [List.filterMap_cons_some hpick, parseAll, ih, Option.elim_some]
      cases decode d <;> rfl

theorem drain_parsed {next : Next β α Empty} (hn : Advances next) (buffer : List β) :
    (drain (parsed parse next) buffer).messages =
        (parseAll parse (drain next buffer).messages).1 ∧
      (drain (parsed parse next) buffer).failure =
        (parseAll parse (drain next buffer).messages).2 ∧
      ((parseAll parse (drain next buffer).messages).2 = none →
        (drain (parsed parse next) buffer).rest = (drain next buffer).rest) := by
  have hadvances : Advances (parsed parse next) := by
    intro buffer c n h
    rw [parsed] at h
    cases hnext : next buffer with
    | error e => exact e.elim
    | ok r =>
      cases r with
      | none =>
        rw [hnext] at h
        cases h
      | some r =>
        obtain ⟨a, m⟩ := r
        rw [hnext] at h
        cases hparse : parse a with
        | error e => simp [hparse, Except.map] at h
        | ok c' =>
          simp only [hparse, Except.map, Except.ok.injEq, Option.some.injEq, Prod.mk.injEq] at h
          obtain ⟨-, rfl⟩ := h
          exact hn buffer a m hnext
  induction buffer using buffer_induction hn with
  | error buffer e h => exact e.elim
  | wait buffer h =>
    have hwait : parsed parse next buffer = .ok none := by rw [parsed, h]
    rw [drain_wait h, drain_wait hwait]
    exact ⟨rfl, rfl, fun _ => rfl⟩
  | frame buffer a n h hle ih =>
    rw [drain_frame hn h, parseAll]
    cases hparse : parse a with
    | error e =>
      have herror : parsed parse next buffer = .error e := by
        simp [parsed, h, hparse, Except.map]
      rw [drain_error herror]
      exact ⟨rfl, rfl, fun hnone => by cases hnone⟩
    | ok c =>
      have hframe : parsed parse next buffer = .ok (some (c, n)) := by
        simp [parsed, h, hparse, Except.map]
      rw [drain_frame hadvances hframe]
      obtain ⟨hmessages, hfailure, hrest⟩ := ih
      exact ⟨congrArg (c :: ·) hmessages, hfailure, hrest⟩

/-- Messages that come in groups, where a failure takes its whole group with it. -/
def parseGroups : List (List α) → List γ × Option ε
  | [] => ([], none)
  | group :: groups =>
    match parseAll parse group with
    | (cs, none) => (cs ++ (parseGroups groups).1, (parseGroups groups).2)
    | (_, some e) => ([], some e)

/-- The first failure has no message in front of it in its group. -/
def FailureLeads (groups : List (List α)) : Prop :=
  ∀ before group after, groups = before ++ group :: after →
    (parseAll parse before.flatten).2 = none → (parseAll parse group).2 ≠ none →
      (parseAll parse group).1 = []

theorem failureLeads_cons (group : List α) (groups : List (List α)) :
    FailureLeads parse (group :: groups) ↔
      ((parseAll parse group).2 ≠ none → (parseAll parse group).1 = []) ∧
        ((parseAll parse group).2 = none → FailureLeads parse groups) := by
  constructor
  · intro h
    refine ⟨h [] group groups rfl rfl, ?_⟩
    intro hgroup before g after hsplit hbefore
    apply h (group :: before) g after (by rw [hsplit, List.cons_append])
    rw [List.flatten_cons, parseAll_append, hgroup]
    exact hbefore
  · rintro ⟨hfirst, hrest⟩ before g after hsplit hbefore
    cases before with
    | nil =>
      obtain ⟨rfl, -⟩ := List.cons.inj hsplit
      exact hfirst
    | cons first before =>
      obtain ⟨rfl, htail⟩ := List.cons.inj hsplit
      rw [List.flatten_cons, parseAll_append] at hbefore
      cases hgroup : (parseAll parse group).2 with
      | none =>
        rw [hgroup] at hbefore
        exact hrest hgroup before g after htail hbefore
      | some e =>
        rw [hgroup] at hbefore
        cases hbefore

/-- Parsing in groups, and leaving out what comes behind the last of them, gives the same as
parsing in order just when nothing parsed is left out. -/
theorem parseGroups_eq_iff (groups : List (List α)) (tail : List α) :
    parseGroups parse groups = parseAll parse (groups.flatten ++ tail) ↔
      (tail = [] ∨ (parseAll parse groups.flatten).2 ≠ none) ∧ FailureLeads parse groups := by
  induction groups with
  | nil =>
    have hleads : FailureLeads parse [] := by
      intro before group after hsplit
      simp at hsplit
    cases tail with
    | nil => simp [parseGroups, parseAll, hleads]
    | cons a tail =>
      simp only [parseGroups, List.flatten_nil, List.nil_append, parseAll]
      cases parse a <;> simp
  | cons group groups ih =>
    rw [failureLeads_cons, List.flatten_cons, List.append_assoc, parseGroups,
      parseAll_append parse group (groups.flatten ++ tail), parseAll_append parse group groups.flatten]
    cases hgroup : parseAll parse group with
    | mk cs failure =>
      cases failure with
      | none =>
        simp only [Prod.mk.injEq, List.append_cancel_left_eq, ne_eq, not_true_eq_false,
          false_implies, true_and, forall_const]
        rw [← ih, Prod.ext_iff]
      | some e => simp [eq_comm]

end parsing

section divergence

def Diverge (xs ys : List α) : Prop :=
  ∃ common x y xs' ys', xs = common ++ x :: xs' ∧ ys = common ++ y :: ys' ∧ x ≠ y

theorem Diverge.append_ne {xs ys : List α} (h : Diverge xs ys) (before xs' ys' : List α) :
    before ++ (xs ++ xs') ≠ before ++ (ys ++ ys') := by
  obtain ⟨common, x, y, xs, ys, rfl, rfl, hne⟩ := h
  intro heq
  simp only [List.append_assoc, List.append_cancel_left_eq, List.cons_append, List.cons.injEq] at heq
  exact hne heq.1

theorem Diverge.cons {xs ys : List α} (x : α) (h : Diverge xs ys) : Diverge (x :: xs) (x :: ys) := by
  obtain ⟨common, y, z, xs, ys, rfl, rfl, hne⟩ := h
  exact ⟨x :: common, y, z, xs, ys, rfl, rfl, hne⟩

/-- A reader that just collects what is cut. -/
def collect : Policy β α Empty α := ⟨id, Empty.elim, id⟩

variable {next other : Next β α Empty}

theorem feed_collect (r : Reader β α) (chunk : List β) : feed next collect r chunk =
    ⟨(drain next (r.buffer ++ chunk)).rest, r.log ++ (drain next (r.buffer ++ chunk)).messages⟩ := by
  cases h : (drain next (r.buffer ++ chunk)).failure with
  | none =>
    rw [feed_clean collect r chunk h]
    simp [collect]
  | some e => exact e.elim

theorem feedAll_cons (policy : Policy β α ε μ) (next : Next β α ε) (r : Reader β μ)
    (chunk : List β) (chunks : List (List β)) : feedAll next policy r (chunk :: chunks) =
      feedAll next policy (feed next policy r chunk) chunks := rfl

theorem feedAll_collect_eq (buffer : List β) (log : List α) (chunks : List (List β)) :
    feedAll next collect ⟨buffer, log⟩ chunks =
      ⟨(feedAll next collect ⟨buffer, []⟩ chunks).buffer,
        log ++ (feedAll next collect ⟨buffer, []⟩ chunks).log⟩ := by
  induction chunks generalizing buffer log with
  | nil => simp [feedAll]
  | cons chunk chunks ih =>
    rw [feedAll_cons, feedAll_cons, feed_collect, feed_collect, ih,
      ih _ ([] ++ (drain next (buffer ++ chunk)).messages)]
    simp

theorem drain_rest_append (hn : Lawful next) (buffer more : List β) :
    (drain next (buffer ++ more)).messages = (drain next buffer).messages ++
        (drain next ((drain next buffer).rest ++ more)).messages ∧
      (drain next (buffer ++ more)).rest = (drain next ((drain next buffer).rest ++ more)).rest := by
  rw [drain_append hn]
  exact ⟨rfl, rfl⟩

/-- A reader whose decoder agrees with a lawful one, except on buffers that clash, has cut the
stream as the lawful one does just when no buffer clashes. -/
theorem collect_eq_iff (hn : Lawful next) {Clash : List β → Prop}
    (hagree : ∀ buffer, ¬ Clash buffer → drain other buffer = drain next buffer)
    (hclash : ∀ buffer, Clash buffer →
      Diverge (drain other buffer).messages (drain next buffer).messages)
    (earlier : List β) (log : List α) (chunks : List (List β)) :
    (feedAll other collect ⟨(drain next earlier).rest, log⟩ chunks).log =
        log ++ (drain next ((drain next earlier).rest ++ chunks.flatten)).messages ∧
      (feedAll other collect ⟨(drain next earlier).rest, log⟩ chunks).buffer =
        (drain next (earlier ++ chunks.flatten)).rest ↔
    ∀ before chunk after, chunks = before ++ chunk :: after →
      ¬ Clash ((drain next (earlier ++ before.flatten)).rest ++ chunk) := by
  induction chunks generalizing earlier log with
  | nil =>
    have hrest := drain_rest hn earlier
    simp only [feedAll, List.foldl_nil, List.flatten_nil, List.append_nil, hrest, true_and, true_iff]
    intro before chunk after hsplit
    simp at hsplit
  | cons chunk chunks ih =>
    obtain ⟨-, hrest⟩ := drain_rest_append hn earlier chunk
    rw [feedAll_cons, feed_collect]
    by_cases hchunk : Clash ((drain next earlier).rest ++ chunk)
    · constructor
      · rintro ⟨hlog, -⟩
        obtain ⟨hmessages, -⟩ := drain_rest_append hn ((drain next earlier).rest ++ chunk) chunks.flatten
        rw [feedAll_collect_eq, List.flatten_cons, ← List.append_assoc, hmessages,
          List.append_assoc] at hlog
        exact absurd hlog ((hclash _ hchunk).append_ne log _ _)
      · intro h
        refine absurd ?_ (h [] chunk chunks rfl)
        rwa [List.flatten_nil, List.append_nil]
    · have hih := ih (earlier ++ chunk)
        (log ++ (drain next ((drain next earlier).rest ++ chunk)).messages)
      obtain ⟨hmessages, -⟩ := drain_rest_append hn ((drain next earlier).rest ++ chunk) chunks.flatten
      rw [hagree _ hchunk, ← hrest, List.flatten_cons, ← List.append_assoc, ← List.append_assoc,
        hmessages, ← hrest, ← List.append_assoc, hih]
      constructor
      · intro h before c after hsplit
        cases before with
        | nil =>
          obtain ⟨rfl, -⟩ := List.cons.inj hsplit
          rwa [List.flatten_nil, List.append_nil]
        | cons first before =>
          obtain ⟨rfl, htail⟩ := List.cons.inj hsplit
          have := h before c after htail
          rwa [List.append_assoc] at this
      · intro h before c after hsplit
        have := h (chunk :: before) c after (by rw [hsplit, List.cons_append])
        rwa [List.flatten_cons, ← List.append_assoc] at this

end divergence

section streams

variable {next : Next β α ε}

/-- The bytes are the encodings of some messages, one behind the other. -/
def Carries (next : Next β α ε) (stream : List β) (messages : List α) : Prop :=
  drain next stream = ⟨messages, [], none⟩

/-- Nothing more is to be had of the bytes without further ones. -/
def Waits (next : Next β α ε) (buffer : List β) : Prop := drain next buffer = ⟨[], buffer, none⟩

theorem carries_nil (h : next [] = .ok none) : Carries next [] [] := drain_wait h

/-- A frame that is written behind the others carries its message behind theirs. -/
theorem Carries.write (hn : Lawful next) {stream frame : List β} {messages : List α} {a : α}
    (h : Carries next stream messages) (hframe : next frame = .ok (some (a, frame.length))) :
    Carries next (stream ++ frame) (messages ++ [a]) := by
  have hnothing := drain_rest hn stream
  rw [h] at hnothing
  have hlast : drain next frame = ⟨[a], [], none⟩ := by
    rw [drain_frame hn.advances hframe, List.drop_length, hnothing]
  rw [Carries, drain_append hn, h, List.nil_append, hlast]

/-- What has been read of a stream gives the first of its messages, and what is left over carries
the others together with the bytes still to come. -/
theorem Carries.read (hn : Lawful next) {buffer more : List β} {messages : List α}
    (h : Carries next (buffer ++ more) messages) :
    (drain next buffer).failure = none ∧
      ∃ unread, messages = (drain next buffer).messages ++ unread ∧
        Carries next ((drain next buffer).rest ++ more) unread := by
  refine ⟨failure_of_append hn buffer more (by rw [h]), ?_⟩
  rw [Carries, drain_append hn] at h
  obtain ⟨hmessages, hrest, hfailure⟩ := Drained.mk.inj h
  refine ⟨(drain next ((drain next buffer).rest ++ more)).messages, hmessages.symm, ?_⟩
  rw [Carries, ← hrest, ← hfailure]

theorem waits_rest (hn : Lawful next) {buffer : List β} (h : (drain next buffer).failure = none) :
    Waits next (drain next buffer).rest := by
  rw [Waits, drain_rest hn, h]

theorem Waits.carries_nothing {buffer : List β} {messages : List α} (hwaits : Waits next buffer)
    (h : Carries next buffer messages) : messages = [] := by
  rw [Carries, hwaits] at h
  exact (Drained.mk.inj h).1.symm

end streams

end Solarcido.ChunkedDecoder
