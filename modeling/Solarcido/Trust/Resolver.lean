import Solarcido.Trust.Paths
import Solarcido.Workers.Registry

namespace Solarcido.Trust

open Text
open Workers (includesAny)

inductive TrustPolicy where
  | autoTrust
  | requireApproval
  | deny
  deriving DecidableEq

inductive TrustResolution where
  | autoAllowlisted
  | manualApproval
  deriving DecidableEq

inductive TrustEvent where
  | trustRequired (cwd : JsString) (repo worktree : Option JsString)
  | trustResolved (cwd : JsString) (policy : TrustPolicy) (resolution : TrustResolution)
  | trustDenied (cwd reason : JsString)
  deriving DecidableEq

structure TrustAllowlistEntry where
  pattern : JsString
  worktreePattern : Option JsString
  description : Option JsString

structure TrustConfig where
  allowlisted : List TrustAllowlistEntry
  denied : List JsString

section resolver

/-- The test of `isAllowlisted` on one entry. -/
def entryMatches (cwd : JsString) (worktree : Option JsString) (entry : TrustAllowlistEntry) :
    Bool :=
  if !patternMatches entry.pattern cwd then false
  else
    match entry.worktreePattern with
    | none => true
    | some worktreePattern =>
      match worktree with
      | none => false
      | some worktree => patternMatches worktreePattern worktree

def isAllowlisted (config : TrustConfig) (cwd : JsString) (worktree : Option JsString) :
    Option TrustAllowlistEntry :=
  config.allowlisted.find? (entryMatches cwd worktree)

def isDenied (config : TrustConfig) (cwd : JsString) : Option JsString :=
  config.denied.find? fun root =>
    let r := normPath root
    let c := normPath cwd
    c == r || startsWith c (r ++ js "/")

def TRUST_PROMPT_CUES : List JsString :=
  [js "do you trust the files in this folder", js "trust the files in this folder",
    js "trust this folder", js "allow and continue", js "yes, proceed"]

def MANUAL_APPROVAL_CUES : List JsString :=
  [js "yes, i trust", js "i trust this", js "trusted manually", js "approval granted"]

def detectTrustPrompt (screenText : JsString) : Bool :=
  includesAny (toLowerCase screenText) TRUST_PROMPT_CUES

def detectManualApproval (screenText : JsString) : Bool :=
  includesAny (toLowerCase screenText) MANUAL_APPROVAL_CUES

inductive TrustDecision where
  | notRequired
  | required (policy : TrustPolicy) (events : List TrustEvent)
  deriving DecidableEq

def trustDecisionPolicy : TrustDecision → Option TrustPolicy
  | .required policy _ => some policy
  | .notRequired => none

def extractRepoName (cwd : JsString) : Option JsString :=
  ((split (normPath cwd) (js "/")).filter fun part => !part.isEmpty).getLast?

def resolve (config : TrustConfig) (cwd : JsString) (worktree : Option JsString)
    (screenText : JsString) : TrustDecision :=
  if !detectTrustPrompt screenText then .notRequired
  else
    let repo := extractRepoName cwd
    let required := TrustEvent.trustRequired cwd repo worktree
    match isDenied config cwd with
    | some deniedRoot =>
      let reason := js "cwd matches denied trust root: " ++ deniedRoot
      .required .deny [required, .trustDenied cwd reason]
    | none =>
      if (isAllowlisted config cwd worktree).isSome then
        .required .autoTrust [required, .trustResolved cwd .autoTrust .autoAllowlisted]
      else if detectManualApproval screenText then
        .required .requireApproval [required, .trustResolved cwd .requireApproval .manualApproval]
      else .required .requireApproval [required]

def trusts (config : TrustConfig) (cwd : JsString) (worktree : Option JsString) : Bool :=
  if (isDenied config cwd).isSome then false else (isAllowlisted config cwd worktree).isSome

end resolver

section soundness

variable {config : TrustConfig} {cwd : JsString} {worktree : Option JsString}

/-- Trust is granted on a trust prompt exactly where it is granted without one. -/
theorem resolve_autoTrust_iff (screenText : JsString) :
    trustDecisionPolicy (resolve config cwd worktree screenText) = some .autoTrust ↔
      detectTrustPrompt screenText = true ∧ trusts config cwd worktree = true := by
  rw [resolve, trusts]
  cases detectTrustPrompt screenText with
  | false => simp [trustDecisionPolicy]
  | true =>
    cases isDenied config cwd with
    | some root => simp [trustDecisionPolicy]
    | none =>
      cases isAllowlisted config cwd worktree with
      | some entry => simp [trustDecisionPolicy]
      | none => cases detectManualApproval screenText <;> simp [trustDecisionPolicy]

/-- The patterns of a configuration are directories, written out. -/
structure IsPlain (config : TrustConfig) : Prop where
  allowlisted : ∀ entry ∈ config.allowlisted, IsPlainRoot entry.pattern
  denied : ∀ root ∈ config.denied, IsPlainRoot root

/-- The allowed patterns are not changed by trimming. -/
def IsTrimmed (config : TrustConfig) : Prop :=
  ∀ entry ∈ config.allowlisted, trim entry.pattern = entry.pattern

/-- The directory is trusted by the configuration, both read lexically. -/
def Trusted (config : TrustConfig) (cwd : JsString) : Prop :=
  (∃ entry ∈ config.allowlisted, LiesIn cwd entry.pattern) ∧
    ∀ root ∈ config.denied, ¬ LiesIn cwd root

/-- What the resolver grants of a configuration is trusted. -/
def ResolverSound (config : TrustConfig) (cwd : JsString) : Prop :=
  ∀ worktree, (trusts config cwd worktree = true → Trusted config cwd) ∧
    ∀ screenText, trustDecisionPolicy (resolve config cwd worktree screenText) = some .autoTrust →
      Trusted config cwd

theorem resolverSound_iff : ResolverSound config cwd ↔
    ∀ worktree, trusts config cwd worktree = true → Trusted config cwd := by
  constructor
  · exact fun h worktree => (h worktree).1
  · intro h worktree
    refine ⟨h worktree, ?_⟩
    intro screenText hpolicy
    exact h worktree ((resolve_autoTrust_iff screenText).mp hpolicy).2

theorem isDenied_isSome_iff (config : TrustConfig) (cwd : JsString) :
    (isDenied config cwd).isSome = true ↔
      ∃ root ∈ config.denied, Workers.pathMatchesAllowlist cwd root = true := by
  rw [isDenied, List.find?_isSome]
  rfl

theorem isAllowlisted_isSome_iff (config : TrustConfig) (cwd : JsString)
    (worktree : Option JsString) : (isAllowlisted config cwd worktree).isSome = true ↔
      ∃ entry ∈ config.allowlisted, entryMatches cwd worktree entry = true := by
  rw [isAllowlisted, List.find?_isSome]

theorem trusts_iff : trusts config cwd worktree = true ↔
    (¬ ∃ root ∈ config.denied, Workers.pathMatchesAllowlist cwd root = true) ∧
      ∃ entry ∈ config.allowlisted, entryMatches cwd worktree entry = true := by
  rw [← isDenied_isSome_iff, ← isAllowlisted_isSome_iff, trusts]
  cases (isDenied config cwd).isSome <;> simp

theorem patternMatches_of_entryMatches {entry : TrustAllowlistEntry}
    (h : entryMatches cwd worktree entry = true) : patternMatches entry.pattern cwd = true := by
  rw [entryMatches] at h
  split_ifs at h with hnot
  simpa using hnot

/-- The names that count in a directory are the ones it is spelled with: resolving its steps
keeps those before the first step or wildcard, and trimming it adds none. -/
def SpelledOut (cwd : JsString) : Prop :=
  plainPart (segments cwd) = plainPart (normalNames cwd) ∧
    settledPart (segments (trim cwd)) <+: normalNames cwd

instance (cwd : JsString) : Decidable (SpelledOut cwd) := inferInstanceAs (Decidable (_ ∧ _))

variable {rest : JsString}

theorem liesIn_of_prefix {root : JsString} (hroot : IsPlainRoot root)
    (h : segments root <+: normalNames cwd) : LiesIn cwd root := by
  rwa [LiesIn, hroot.normalNames]

theorem trusted_of_trusts (hconfig : IsPlain config) (htrim : IsTrimmed config)
    (hcwd : SpelledOut (47 :: rest)) (h : trusts config (47 :: rest) worktree = true) :
    Trusted config (47 :: rest) := by
  obtain ⟨hdenied, entry, hentry, hmatches⟩ := trusts_iff.mp h
  constructor
  · have hroot := hconfig.allowlisted entry hentry
    refine ⟨entry, hentry, liesIn_of_prefix hroot ?_⟩
    have hprefix := (patternMatches_plain_iff hroot (htrim entry hentry) rest).mp
      (patternMatches_of_entryMatches hmatches)
    refine (prefix_settledPart hroot.plain ?_ hprefix).trans hcwd.2
    rw [← trim_rootOf_iff (segments_isName _), rootOf, ← hroot.spelled]
    exact htrim entry hentry
  · intro root hmem hlies
    have hroot := hconfig.denied root hmem
    refine hdenied ⟨root, hmem, (pathMatchesAllowlist_iff hroot rest).mpr ?_⟩
    rw [LiesIn, hroot.normalNames, ← prefix_plainPart_iff hroot.plain, ← hcwd.1] at hlies
    exact (prefix_plainPart_iff hroot.plain).mp hlies

theorem liesIn_of_allowListed {roots : List JsString} (hroots : ∀ root ∈ roots, IsPlainRoot root)
    (hcwd : SpelledOut (47 :: rest))
    (h : Workers.WorkerRegistry.allowListed (47 :: rest) roots = true) :
    ∃ root ∈ roots, LiesIn (47 :: rest) root := by
  obtain ⟨root, hmem, hmatches⟩ := List.any_eq_true.mp h
  have hroot := hroots root hmem
  refine ⟨root, hmem, liesIn_of_prefix hroot ?_⟩
  have hprefix := (pathMatchesAllowlist_iff hroot rest).mp hmatches
  rw [← prefix_plainPart_iff hroot.plain, hcwd.1] at hprefix
  exact hprefix.trans (List.takeWhile_prefix _)

end soundness

section necessity

variable {rest : JsString}

/-- One allowed pattern, for every worktree. -/
def granting (pattern : JsString) (denied : List JsString) : TrustConfig :=
  ⟨[⟨pattern, none, none⟩], denied⟩

theorem trusts_granting_iff {pattern : JsString} {denied : List JsString} {cwd : JsString} :
    trusts (granting pattern denied) cwd none = true ↔
      (¬ ∃ root ∈ denied, Workers.pathMatchesAllowlist cwd root = true) ∧
        patternMatches pattern cwd = true := by
  rw [trusts_iff]
  apply and_congr_right'
  simp [granting, entryMatches]

theorem isPlain_granting {pattern : JsString} {denied : List JsString}
    (hpattern : IsPlainRoot pattern) (hdenied : ∀ root ∈ denied, IsPlainRoot root) :
    IsPlain (granting pattern denied) where
  allowlisted := by
    intro entry hentry
    rw [List.mem_singleton.mp hentry]
    exact hpattern
  denied := hdenied

theorem isTrimmed_granting {pattern : JsString} {denied : List JsString}
    (h : trim pattern = pattern) : IsTrimmed (granting pattern denied) := by
  intro entry hentry
  rw [List.mem_singleton.mp hentry]
  exact h

theorem Trusted.liesIn {pattern cwd : JsString} {denied : List JsString}
    (h : Trusted (granting pattern denied) cwd) : LiesIn cwd pattern := by
  obtain ⟨entry, hentry, hlies⟩ := h.1
  rwa [List.mem_singleton.mp hentry] at hlies

theorem liesIn_rootOf_iff {a : List JsString} {cwd : JsString} (ha : ∀ s ∈ a, IsName s)
    (hplain : ∀ s ∈ a, isPlainName s = true) : LiesIn cwd (rootOf a) ↔ a <+: normalNames cwd := by
  rw [LiesIn, (isPlainRoot_rootOf ha hplain).normalNames, segments_rootOf ha]

/-- The worker takes the plain part of the directory for a root of it. -/
theorem plainPart_prefix_of_sound
    (hworkers : ∀ roots, (∀ root ∈ roots, IsPlainRoot root) →
      Workers.WorkerRegistry.allowListed (47 :: rest) roots = true →
        ∃ root ∈ roots, LiesIn (47 :: rest) root) :
    plainPart (segments (47 :: rest)) <+: normalNames (47 :: rest) := by
  have ha : ∀ s ∈ plainPart (segments (47 :: rest)), IsName s :=
    fun s hs => segments_isName _ s ((List.takeWhile_prefix _).subset hs)
  have hroot := isPlainRoot_rootOf ha (plainPart_plain _)
  have hlisted : Workers.WorkerRegistry.allowListed (47 :: rest)
      [rootOf (plainPart (segments (47 :: rest)))] = true := by
    rw [Workers.WorkerRegistry.allowListed, List.any_cons, List.any_nil, Bool.or_false,
      pathMatchesAllowlist_iff hroot, segments_rootOf ha]
    exact List.takeWhile_prefix _
  obtain ⟨root, hmem, hlies⟩ := hworkers _ (by simpa using hroot) hlisted
  rw [List.mem_singleton.mp hmem] at hlies
  exact (liesIn_rootOf_iff ha (plainPart_plain _)).mp hlies

/-- A denied root that only the resolved directory lies in is not seen. -/
theorem plainPart_normal_of_sound
    (hresolver : ∀ config, IsPlain config → IsTrimmed config → ResolverSound config (47 :: rest)) :
    plainPart (normalNames (47 :: rest)) <+: segments (47 :: rest) := by
  have ha : ∀ s ∈ plainPart (normalNames (47 :: rest)), IsName s := fun s hs =>
    segments_isName _ s (resolveNames_subset _ ((List.takeWhile_prefix _).subset hs))
  have hroot := isPlainRoot_rootOf ha (plainPart_plain _)
  by_contra hnot
  have htop : IsPlainRoot (js "/") := ⟨by decide, by decide⟩
  have htrim : trim (js "/") = js "/" := by decide
  have htrusts : trusts (granting (js "/") [rootOf (plainPart (normalNames (47 :: rest)))])
      (47 :: rest) none = true := by
    refine trusts_granting_iff.mpr ⟨?_, ?_⟩
    · rintro ⟨root, hmem, hmatches⟩
      rw [List.mem_singleton.mp hmem, pathMatchesAllowlist_iff hroot, segments_rootOf ha]
        at hmatches
      exact hnot hmatches
    · exact (patternMatches_plain_iff htop htrim rest).mpr List.nil_prefix
  have htrusted := (hresolver _ (isPlain_granting htop (by simpa using hroot))
    (isTrimmed_granting htrim) none).1 htrusts
  exact htrusted.2 _ List.mem_cons_self
    ((liesIn_rootOf_iff ha (plainPart_plain _)).mpr (List.takeWhile_prefix _))

/-- The trimmed directory has no names of its own. -/
theorem settledPart_of_sound
    (hresolver : ∀ config, IsPlain config → IsTrimmed config → ResolverSound config (47 :: rest)) :
    settledPart (segments (trim (47 :: rest))) <+: normalNames (47 :: rest) := by
  have hfront := (settledPart_front (segments (trim (47 :: rest)))).trans
    (List.takeWhile_prefix _)
  have ha : ∀ s ∈ settledPart (segments (trim (47 :: rest))), IsName s :=
    fun s hs => segments_isName _ s (hfront.subset hs)
  have hplain : ∀ s ∈ settledPart (segments (trim (47 :: rest))), isPlainName s = true :=
    fun s hs => plainPart_plain _ s ((settledPart_front _).subset hs)
  have hroot := isPlainRoot_rootOf ha hplain
  have htrim := (trim_rootOf_iff ha).mpr (settledPart_last _)
  have htrusts : trusts (granting (rootOf (settledPart (segments (trim (47 :: rest))))) [])
      (47 :: rest) none = true := by
    refine trusts_granting_iff.mpr ⟨by simp, (patternMatches_plain_iff hroot htrim rest).mpr ?_⟩
    rwa [segments_rootOf ha]
  have htrusted := (hresolver _ (isPlain_granting hroot (by simp))
    (isTrimmed_granting htrim) none).1 htrusts
  exact (liesIn_rootOf_iff ha hplain).mp htrusted.liesIn

/-- A directory for which no grant is unsound is spelled out. -/
theorem spelledOut_of_sound
    (hresolver : ∀ config, IsPlain config → IsTrimmed config → ResolverSound config (47 :: rest))
    (hworkers : ∀ roots, (∀ root ∈ roots, IsPlainRoot root) →
      Workers.WorkerRegistry.allowListed (47 :: rest) roots = true →
        ∃ root ∈ roots, LiesIn (47 :: rest) root) : SpelledOut (47 :: rest) := by
  refine ⟨?_, settledPart_of_sound hresolver⟩
  have hleft := (prefix_plainPart_iff (plainPart_plain _)).mpr
    (plainPart_prefix_of_sound hworkers)
  have hright := (prefix_plainPart_iff (plainPart_plain _)).mpr
    (plainPart_normal_of_sound hresolver)
  exact hleft.eq_of_length_le hright.length_le

end necessity

section untrimmed

variable {a l : List JsString} {x : JsString}

theorem segments_slashEnd (hl : ∀ s ∈ l, IsName s) : segments (pathOf l ++ [47]) = l := by
  rw [segments_append, segments_pathOf hl]
  exact List.append_nil l

/-- A path that ends in a separator is trimmed as it stands. -/
theorem trim_slashEnd (l : List JsString) : trim (pathOf l ++ [47]) = pathOf l ++ [47] := by
  cases l with
  | nil => rfl
  | cons s l =>
    rw [pathOf_cons, List.cons_append, trim_absolute, trimEnd_slash]
    rfl

theorem spelledOut_slashEnd (hl : ∀ s ∈ l, IsName s)
    (hplain : plainPart l = plainPart (resolveNames l)) : SpelledOut (pathOf l ++ [47]) := by
  rw [SpelledOut, normalNames, trim_slashEnd, segments_slashEnd hl]
  refine ⟨hplain, ?_⟩
  refine (settledPart_front l).trans ?_
  rw [hplain]
  exact List.takeWhile_prefix _

theorem not_prefix_of_length {b : List JsString} (h : b.length < a.length) : ¬ a <+: b :=
  fun hprefix => absurd hprefix.length_le (by omega)

theorem isName_dots : IsName (js ".") ∧ IsName (js "..") :=
  ⟨⟨by decide, by decide, by decide⟩, ⟨by decide, by decide, by decide⟩⟩

theorem plainPart_append_dots (hplain : ∀ s ∈ a, isPlainName s = true) {s : JsString}
    (hs : isPlainName s = false) (rest : List JsString) : plainPart (a ++ s :: rest) = a := by
  rw [plainPart, List.takeWhile_append_of_pos hplain,
    List.takeWhile_cons_of_neg (by rw [hs]; exact Bool.false_ne_true), List.append_nil]

theorem resolveNames_append (hplain : ∀ s ∈ a, isPlainName s = true) (rest : List JsString) :
    resolveNames (a ++ rest) = rest.foldl resolveName a := by
  rw [resolveNames, List.foldl_append, foldl_resolveName_plain hplain, List.nil_append]

/-- Where a pattern that trimming changes grants what lies elsewhere. -/
theorem exists_misread (ha : ∀ s ∈ a, IsName s) (hx : IsName x)
    (hplain : ∀ s ∈ a, isPlainName s = true) (hspace : endsInSpace x = true) :
    ∃ l, (∀ s ∈ l, IsName s) ∧ a ++ segments (trimEnd x) <+: l ∧
      plainPart l = plainPart (resolveNames l) ∧ ¬ a ++ [x] <+: resolveNames l := by
  have hlonger : ¬ a ++ [x] <+: a := not_prefix_of_length (by simp)
  have hwhole : plainPart a = a := List.takeWhile_eq_self_iff.mpr hplain
  have hsub := trimEnd_prefix x
  have hnames : ∀ {s}, IsName s → ∀ r ∈ a ++ [s], IsName r := by
    intro s hs r hr
    rcases List.mem_append.mp hr with hr | hr
    · exact ha r hr
    · rwa [List.mem_singleton.mp hr]
  by_cases hnil : trimEnd x = []
  · refine ⟨a, ha, ?_, by rw [resolveNames_plain hplain], by rwa [resolveNames_plain hplain]⟩
    rw [hnil]
    exact (List.append_nil a).symm ▸ List.prefix_rfl
  have htrimmed : IsName (trimEnd x) :=
    ⟨hnil, fun h => hx.noSlash (hsub.subset h), fun h => hx.noBackslash (hsub.subset h)⟩
  rw [segments_name htrimmed]
  by_cases hdot : trimEnd x = js "."
  · rw [hdot]
    have hstay : resolveNames (a ++ [js "."]) = a := by
      rw [resolveNames_append hplain]
      rfl
    refine ⟨a ++ [js "."], hnames isName_dots.1, List.prefix_rfl, ?_, by rwa [hstay]⟩
    rw [hstay, hwhole, plainPart_append_dots hplain (by decide)]
  by_cases hdots : trimEnd x = js ".."
  · rw [hdots]
    -- the name that `..` takes away is entered again behind it
    have hback : resolveNames (a ++ js ".." :: a.getLast?.toList) = a := by
      rw [resolveNames_append hplain, List.foldl_cons, resolveName, if_neg (by decide),
        if_pos rfl]
      rcases List.eq_nil_or_concat a with rfl | ⟨b, y, rfl⟩
      · rfl
      · rw [List.concat_eq_append, List.getLast?_concat, List.dropLast_concat]
        exact resolveName_plain (hplain y (by simp)) b
    refine ⟨a ++ js ".." :: a.getLast?.toList, ?_, ⟨a.getLast?.toList, by simp⟩, ?_,
      by rwa [hback]⟩
    · intro s hs
      rcases List.mem_append.mp hs with hs | hs
      · exact ha s hs
      · rcases List.mem_cons.mp hs with rfl | hs
        · exact isName_dots.2
        · exact ha s (List.mem_of_getLast? (Option.mem_toList.mp hs))
    · rw [hback, hwhole, plainPart_append_dots hplain (by decide)]
  · have hown : resolveNames (a ++ [trimEnd x]) = a ++ [trimEnd x] := by
      rw [resolveNames_append hplain, List.foldl_cons, List.foldl_nil, resolveName, if_neg hdot,
        if_neg hdots]
    refine ⟨a ++ [trimEnd x], hnames htrimmed, List.prefix_rfl, by rw [hown], ?_⟩
    rw [hown]
    intro h
    have hsame := List.append_cancel_left (h.eq_of_length (by simp))
    rw [List.singleton_inj.mp hsame, (endsInSpace_eq_false_iff _).mpr (trimEnd_last x)] at hspace
    cases hspace

theorem noWildcard_trimEnd (hx : IsName x) (hplain : isPlainName x = true) :
    ∀ s ∈ segments (trimEnd x), hasWildcard s = false := by
  intro s hs
  have hsub := trimEnd_prefix x
  by_cases hnil : trimEnd x = []
  · rw [hnil] at hs
    cases hs
  · have htrimmed : IsName (trimEnd x) :=
      ⟨hnil, fun h => hx.noSlash (hsub.subset h), fun h => hx.noBackslash (hsub.subset h)⟩
    rw [segments_name htrimmed, List.mem_singleton] at hs
    have hnone := (hasWildcard_eq_false_iff x).mp (noWildcard_of_plain hplain)
    rw [hs, hasWildcard_eq_false_iff]
    exact ⟨fun h => hnone.1 (hsub.subset h), fun h => hnone.2 (hsub.subset h)⟩

theorem exists_untrimmed_grant {pattern : JsString} (hroot : IsPlainRoot pattern)
    (htrim : trim pattern ≠ pattern) : ∃ rest, SpelledOut (47 :: rest) ∧
      patternMatches pattern (47 :: rest) = true ∧ ¬ LiesIn (47 :: rest) pattern := by
  have hspelled : pattern = rootOf (segments pattern) := hroot.spelled
  have hnames := segments_isName pattern
  have hplain := hroot.plain
  rcases List.eq_nil_or_concat (segments pattern) with hnone | ⟨a, x, hshape⟩
  · rw [hspelled, hnone] at htrim
    exact absurd (by decide) htrim
  rw [List.concat_eq_append] at hshape
  rw [hshape] at hspelled hnames hplain
  have hx := hnames x (by simp)
  have ha : ∀ s ∈ a, IsName s := fun s hs => hnames s (List.mem_append_left _ hs)
  have haplain : ∀ s ∈ a, isPlainName s = true := fun s hs => hplain s (List.mem_append_left _ hs)
  have hspace : endsInSpace x = true := by
    rw [← Bool.not_eq_false]
    intro h
    have hkeeps := (trim_rootOf_iff hnames).mpr (by simpa using h)
    rw [← hspelled] at hkeeps
    exact htrim hkeeps
  have htext : pattern = pathOf a ++ 47 :: x := by
    rw [hspelled, rootOf, if_neg (by simp), pathOf_append, pathOf_cons]
    rw [show x ++ pathOf [] = x from List.append_nil x]
  obtain ⟨kept, hkept⟩ := hroot.absolute
  have hread : trim pattern = pathOf a ++ 47 :: trimEnd x := by
    rw [← trimEnd_slash, ← htext, hkept]
    rfl
  have hsegments : segments (trim pattern) = a ++ segments (trimEnd x) := by
    rw [hread, segments_append, segments_pathOf ha]
  have hstart : trim pattern = 47 :: trimEnd kept := by rw [hkept, trim_absolute]
  have hwild : hasWildcard (normPath (trim pattern)) = false := by
    rw [hstart, normPath, norm_absolute, ← hstart, hsegments]
    apply pathOf_plain
    intro s hs
    rcases List.mem_append.mp hs with hs | hs
    · exact noWildcard_of_plain (haplain s hs)
    · exact noWildcard_trimEnd hx (hplain x (by simp)) s hs
  obtain ⟨l, hl, hprefix, hsame, hnot⟩ := exists_misread ha hx haplain hspace
  obtain ⟨rest, hrest⟩ : ∃ rest, pathOf l ++ [47] = 47 :: rest := by
    cases l with
    | nil => exact ⟨[], rfl⟩
    | cons s l => exact ⟨s ++ pathOf l ++ [47], by rw [pathOf_cons]; rfl⟩
  refine ⟨rest, hrest ▸ spelledOut_slashEnd hl hsame, ?_, ?_⟩
  · rw [patternMatches_absolute_iff hstart hwild, ← hrest, trim_slashEnd, segments_slashEnd hl,
      hsegments]
    exact hprefix
  · rw [← hrest, LiesIn, hroot.normalNames, hshape, normalNames, segments_slashEnd hl]
    exact hnot

end untrimmed

section grants

open Workers

variable (clock : WorkerClock) (format : NumberFormat) (registry : WorkerRegistry)

/-- What a worker's creation grants lies in one of the roots. -/
def CreateSound (cwd : JsString) : Prop :=
  ∀ roots autoRecoverPromptMisdelivery worker after, (∀ root ∈ roots, IsPlainRoot root) →
    WorkerRegistry.create clock format cwd roots autoRecoverPromptMisdelivery registry =
      .ok worker after →
    worker.trustAutoResolve = true → ∃ root ∈ roots, LiesIn cwd root

theorem createSound_iff {cwd : JsString} : CreateSound clock format registry cwd ↔
    ∀ roots, (∀ root ∈ roots, IsPlainRoot root) →
      WorkerRegistry.allowListed cwd roots = true → ∃ root ∈ roots, LiesIn cwd root := by
  constructor
  · exact fun h roots hroots => h roots false _ _ hroots rfl
  · intro h roots auto worker after hroots hcreate hauto
    cases hcreate
    exact h roots hroots hauto

end grants

end Solarcido.Trust
