import Solarcido.Tools.FileOps

namespace Solarcido.Tools

open Text

section relative

theorem commonPrefix_append (root rest : Path) : commonPrefix root (root ++ rest) = root := by
  induction root with
  | nil => cases rest <;> rfl
  | cons name root ih => rw [List.cons_append, commonPrefix, if_pos rfl, ih]

theorem prefix_of_commonPrefix {root p : Path}
    (h : root.length ≤ (commonPrefix root p).length) : root <+: p := by
  induction root generalizing p with
  | nil => exact List.nil_prefix
  | cons name root ih =>
    cases p with
    | nil => simp [commonPrefix] at h
    | cons name' p =>
      rw [commonPrefix] at h
      split at h
      · next hname =>
        subst hname
        exact (List.prefix_cons_inj name).mpr (ih (by simpa using h))
      · simp at h

theorem join_cons (name : JsString) (rest : List JsString) :
    join (js "/") (name :: rest) = name ∨ ∃ t, join (js "/") (name :: rest) = name ++ 47 :: t := by
  cases rest with
  | nil => exact Or.inl (by simp [join])
  | cons second rest =>
    exact Or.inr ⟨join (js "/") (second :: rest), by simp [join, js, fromCodePoints, utf16]⟩

/-- A separator does not complete two dots. -/
theorem startsWith_dots_append (name t : JsString) :
    startsWith (name ++ 47 :: t) (js "..") = startsWith name (js "..") := by
  have hdots : js ".." = [46, 46] := rfl
  rw [hdots]
  match name with
  | [] => rfl
  | [u] => simp [startsWith, List.isPrefixOf]
  | u :: v :: name => simp [startsWith, List.isPrefixOf]

theorem startsWith_dots_join (name : JsString) (rest : List JsString) :
    startsWith (join (js "/") (name :: rest)) (js "..") = startsWith name (js "..") := by
  obtain h | ⟨t, h⟩ := join_cons name rest
  · rw [h]
  · rw [h, startsWith_dots_append]

theorem relative_below (root rest : Path) : relative root (root ++ rest) = join (js "/") rest := by
  rw [relative, commonPrefix_append, Nat.sub_self, List.drop_left]
  rfl

theorem relative_outside {root p : Path} (h : ¬ root <+: p) :
    startsWith (relative root p) (js "..") = true := by
  have hlen : ¬ root.length ≤ (commonPrefix root p).length := fun hle =>
    h (prefix_of_commonPrefix hle)
  obtain ⟨k, hk⟩ := Nat.exists_eq_succ_of_ne_zero
    (Nat.sub_ne_zero_of_lt (Nat.lt_of_not_le hlen))
  rw [relative, hk, List.replicate_succ, List.cons_append, startsWith_dots_join]
  rfl

end relative

variable {ε : Type} (host : Host ε) (root target : JsString)

/-- Where a target leads from the root, its dots resolved. -/
def leadsTo : Path := resolve (resolveRoot host root) target

/-- Exactly the targets at or below the root are let through, each as the path it leads to. -/
structure ConfinesExactly : Prop where
  accepts : (∃ p, resolveInsideRoot host root target = .ok p) ↔
    resolveRoot host root <+: leadsTo host root target
  returns : ∀ p, resolveInsideRoot host root target = .ok p → p = leadsTo host root target

theorem resolveInsideRoot_eq : resolveInsideRoot host root target =
    if startsWith (relative (resolveRoot host root) (leadsTo host root target)) (js "..") then
      .error (.error (js "Path escapes the working directory: " ++ target))
    else .ok (leadsTo host root target) := rfl

theorem confinesExactly_iff : ConfinesExactly host root target ↔
    ∀ name rest, leadsTo host root target = resolveRoot host root ++ name :: rest →
      startsWith name (js "..") = false := by
  have heq := resolveInsideRoot_eq host root target
  constructor
  · intro h name rest hbelow
    obtain ⟨p, hp⟩ := h.accepts.mpr ⟨name :: rest, hbelow.symm⟩
    rw [heq, hbelow, relative_below, startsWith_dots_join] at hp
    by_contra hdots
    rw [if_pos (by simpa using hdots)] at hp
    cases hp
  · intro hnames
    refine ⟨⟨?_, ?_⟩, ?_⟩
    · rintro ⟨p, hp⟩
      by_contra houtside
      rw [heq, if_pos (relative_outside houtside)] at hp
      cases hp
    · rintro ⟨rest, hrest⟩
      have hinside : startsWith (relative (resolveRoot host root) (leadsTo host root target))
          (js "..") = false := by
        rw [← hrest, relative_below]
        cases rest with
        | nil => rfl
        | cons name rest =>
          rw [startsWith_dots_join]
          exact hnames name rest hrest.symm
      exact ⟨_, by rw [heq, hinside, if_neg (by simp)]⟩
    · intro p hp
      rw [heq] at hp
      split at hp
      · cases hp
      · exact (Except.ok.inj hp).symm

theorem two_dots_name_refused :
    ¬ ConfinesExactly (.bare (ε := Unit) fun _ => .ok .null) (js "/w") (js "..notes") := by
  intro h
  obtain ⟨p, hp⟩ := h.accepts.mpr (by decide)
  cases hp

end Solarcido.Tools
