import BulkTransfer.Proofs.Path.Between

/-!
# Containment judged on texts

Whether a candidate lies inside a base is judged on what path functions of texts give: both are
resolved, and the text from one to the other is looked at.  This asks for a proper prefix of
components, for all spellings of both (`escape?_judges_components`).
-/

namespace BulkTransfer

namespace Path

open Text

/-- The components that stand in a text. -/
def components (t : Text) : Path := (split slash t).filter (· ≠ [])

theorem components_text {p : Path} (h : IsNormal p) : components (text p) = p := by
  unfold components
  rw [split_text]
  cases p with
  | nil => rfl
  | cons name rest =>
    rw [split_joinWith (List.cons_ne_nil _ _) fun other hother => (h other hother).no_slash,
      List.filter_cons_of_neg (by simp)]
    exact List.filter_eq_self.2 fun other hother => decide_eq_true (h other hother).ne_nil

/-- What stands after the text of a path leads on from it. -/
theorem resolve_text_append (cwd : Path) {p : Path} (h : IsNormal p) (t : Text) :
    resolve cwd (text p ++ slash :: t) = join p t := by
  have hstart := resolve_text cwd h
  unfold resolve at hstart ⊢
  rw [isAbsolute_text, if_pos rfl] at hstart
  have habsolute : isAbsolute (text p ++ slash :: t) = true := isAbsolute_text p
  rw [habsolute, if_pos rfl, Scan.join_append_slash, hstart]

/-- Units after the text of a path belong to its last component. -/
theorem text_concat_append (p : Path) (name more : Text) :
    text (p ++ [name]) ++ more = text (p ++ [name ++ more]) := by
  by_cases hp : p = []
  · subst hp
    rfl
  · show slash :: joinWith [slash] (p ++ [name]) ++ more = slash :: joinWith [slash] _
    rw [Scan.joinWith_concat hp, Scan.joinWith_concat hp]
    simp

theorem IsName.append {name more : Text} (h : IsName name) (hmore : more ≠ [])
    (hslash : slash ∉ more) : IsName (name ++ more) where
  ne_nil := by simp [h.ne_nil]
  ne_dot := fun e => by
    have hlength : (name ++ more).length = 1 := congrArg List.length e
    have hname := List.length_pos_iff.2 h.ne_nil
    have hpos := List.length_pos_iff.2 hmore
    rw [List.length_append] at hlength
    omega
  ne_dots := fun e => by
    have hlength : (name ++ more).length = 2 := congrArg List.length e
    have hname := List.length_pos_iff.2 h.ne_nil
    have hpos := List.length_pos_iff.2 hmore
    rw [List.length_append] at hlength
    -- The first of two dots is a dot, and a name is none.
    have hfirst : (name ++ more).take 1 = dot := congrArg (List.take 1) e
    have hone : name.length = 1 := by omega
    rw [← hone, List.take_left] at hfirst
    exact h.ne_dot hfirst
  no_slash := by simp [h.no_slash, hslash]

theorem isName_dots_append {rest : Text} (hne : rest ≠ []) (h : slash ∉ rest) :
    IsName (dots ++ rest) := by
  have hlength : (dots ++ rest).length = rest.length + 2 := by
    rw [List.length_append, Nat.add_comm]
    rfl
  have hpos := List.length_pos_iff.2 hne
  have hslash : slash ∉ dots := by decide
  refine ⟨by simp [hne], fun e => ?_, fun e => ?_, by simp [h, hslash]⟩
  · have hdot : (dots ++ rest).length = 1 := congrArg List.length e
    omega
  · have hdots : (dots ++ rest).length = 2 := congrArg List.length e
    omega

/-! ## Candidates that begin with the text of the base -/

variable {cwd : Path} (base : Text)

theorem escape?_of_not_inside (h : IsNormal cwd) {base candidate : Text}
    (hout : ¬ Inside (resolve cwd base) (resolve cwd candidate)) :
    escape? cwd base candidate = some ⟨base, candidate⟩ := by
  have hne : escape? cwd base candidate ≠ none := fun e => hout ((escape?_eq_none_iff h _ _).1 e)
  unfold escape? at hne ⊢
  split
  · rfl
  · next hin => exact absurd (if_neg hin) hne

/-- A name that begins with two dots and goes on is one like any other. -/
theorem escape?_append_dots (h : IsNormal cwd) {rest : Text} (hne : rest ≠ [])
    (hslash : slash ∉ rest) :
    escape? cwd base (text (resolve cwd base) ++ slash :: (dots ++ rest)) = none := by
  rw [escape?_eq_none_iff h, resolve_text_append cwd (isNormal_resolve h base),
    join_of_isName _ (isName_dots_append hne hslash)]
  exact ⟨List.prefix_append _ _, by simp⟩

/-- What goes on without a slash is another entry of the directory that holds the base. -/
theorem escape?_append (h : IsNormal cwd) {more : Text} (hne : more ≠ []) (hslash : slash ∉ more)
    (hroot : resolve cwd base ≠ []) :
    escape? cwd base (text (resolve cwd base) ++ more) =
      some ⟨base, text (resolve cwd base) ++ more⟩ := by
  refine escape?_of_not_inside h fun hinside => ?_
  have hp := isNormal_resolve h base
  obtain ⟨p, name, hconcat⟩ := (List.eq_nil_or_concat (resolve cwd base)).resolve_left hroot
  rw [List.concat_eq_append] at hconcat
  rw [hconcat] at hp hinside
  have hname := (hp name (by simp)).append hne hslash
  have hnormal : IsNormal (p ++ [name ++ more]) :=
    hp.of_append.append fun other hother => List.mem_singleton.1 hother ▸ hname
  rw [text_concat_append, resolve_text cwd hnormal] at hinside
  exact hinside.2 (hinside.1.eq_of_length (by simp))

/-- Read unit by unit from an absolute working directory, a base and a candidate are texts, and the
check asks whether the text from one to the other leads out.  The candidate passes exactly when the
components of the base are a proper prefix of its own.  So the base does not pass, however it is
spelled; an entry of it passes whose name begins with two dots and goes on; and what begins with the
text of the base, but goes on with no slash, does not pass. -/
theorem escape?_judges_components {w : Text} (hw : isAbsolute w = true) (base candidate : Text) :
    let cwd := resolve [] w
    let source := Scan.resolve w base
    let target := Scan.resolve w candidate
    escape? cwd base candidate =
        (if leadsOut (Scan.relative w source target) then some ⟨base, candidate⟩ else none) ∧
      (escape? cwd base candidate = none ↔
        components source <+: components target ∧ components source ≠ components target) ∧
      (source = target → escape? cwd base candidate = some ⟨base, candidate⟩) ∧
      (∀ rest, rest ≠ [] → slash ∉ rest →
        escape? cwd base (source ++ slash :: (dots ++ rest)) = none) ∧
      (∀ more, more ≠ [] → slash ∉ more → source ≠ [slash] →
        escape? cwd base (source ++ more) = some ⟨base, source ++ more⟩) := by
  intro cwd source target
  have hcwd : IsNormal cwd := isNormal_resolve isNormal_nil w
  have hp := isNormal_resolve hcwd base
  have hq := isNormal_resolve hcwd candidate
  have hsource : source = text (resolve cwd base) := Scan.resolve_eq_text hw base
  have htarget : target = text (resolve cwd candidate) := Scan.resolve_eq_text hw candidate
  have hrelative : Scan.relative w source target =
      relative (resolve cwd base) (resolve cwd candidate) := by
    rw [Scan.relative_eq hw, hsource, htarget]
    show relative (resolve cwd _) (resolve cwd _) = _
    rw [resolve_text cwd hp, resolve_text cwd hq]
  have hiff : escape? cwd base candidate = none ↔
      components source <+: components target ∧ components source ≠ components target := by
    rw [escape?_eq_none_iff hcwd, hsource, htarget, components_text hp, components_text hq]
    rfl
  refine ⟨?_, hiff, fun hsame => ?_, fun rest hne hslash => ?_, fun more hne hslash hroot => ?_⟩
  · rw [hrelative]
    rfl
  · refine escape?_of_not_inside hcwd fun hinside => ?_
    have hpass := hiff.1 ((escape?_eq_none_iff hcwd _ _).2 hinside)
    exact hpass.2 (congrArg components hsame)
  · rw [hsource]
    exact escape?_append_dots base hcwd hne hslash
  · rw [hsource] at hroot ⊢
    refine escape?_append base hcwd hne hslash fun hnil => hroot ?_
    rw [hnil]
    rfl

theorem escape?_judges_components_spellings :
    isAbsolute "/work" = true ∧
      escape? (resolve [] "/work") "./out/" "out/x/../..a//b" = none ∧
      escape? (resolve [] "/work") "./out/" "out/../out" = some ⟨"./out/", "out/../out"⟩ ∧
      escape? (resolve [] "/work") "./out/" "/work/out/..b" = none ∧
      escape? (resolve [] "/work") "./out/" "/work/output" = some ⟨"./out/", "/work/output"⟩ := by
  have hw : isAbsolute "/work" = true := by decide
  obtain ⟨-, hinside, -, hdots, hsibling⟩ :=
    escape?_judges_components hw "./out/" "out/x/../..a//b"
  have hbase := (escape?_judges_components hw "./out/" "out/../out").2.2.1
  refine ⟨hw, hinside.2 ?_, hbase ?_, ?_, ?_⟩
  · decide +kernel
  · decide +kernel
  · exact hdots "b" (by decide) (by decide)
  · exact hsibling "put" (by decide) (by decide) (by decide +kernel)

end Path

end BulkTransfer
