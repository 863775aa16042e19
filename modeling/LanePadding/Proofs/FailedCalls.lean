import LanePadding.Proofs.GraphInvariant

/-!
# What a failing call leaves behind

A builder that fails should leave its graph as it was, and all builders but one do: they check their
arguments and then add a node.  The exception is a placeholder with a declared padding value.  It is
added as an ordinary placeholder before the value is looked at, so that it stays, without its
declaration, if the value is missing or has another element type.

`BuilderCall.Misdeclares` says which calls these are, in terms of their arguments, and
`BuilderCall.failed_unchanged_iff` that they are the only ones: any other call that fails changes
nothing.

## What is here

* `Build.ends_placeholder_accepted` — when a placeholder is accepted.
* `Build.ends_placeholderWithPadding_declared` — the same for one with a declared padding value, and
  what is left if the declaration is refused.
* `BuilderCall.ends_failed` — **what every call leaves when it fails.**
-/

set_option autoImplicit false

namespace LanePadding

namespace Build

variable {α : Type} {b : Build α} {w : Workspace} {Q Q' : α → Workspace → Prop}
  {E E' : Workspace → Prop}

theorem Ends.and (h : b.Ends w Q E) (h' : b.Ends w Q' E') :
    b.Ends w (fun a w' => Q a w' ∧ Q' a w') fun w' => E w' ∧ E' w' := by
  rw [Ends] at h h' ⊢
  split <;> rename_i hon <;> rw [hon] at h h' <;> exact ⟨h, h'⟩

theorem Ends.of_error (h : b.Ends w Q E) {e : BuildError} {w' : Workspace}
    (hon : b.on w = (.error e, w')) : E w' := by
  rw [Ends, hon] at h
  exact h

/-- A builder that cannot end well fails. -/
theorem Ends.exists_error (h : b.Ends w Q E) (hQ : ∀ a w', ¬Q a w') :
    ∃ e w', b.on w = (.error e, w') ∧ E w' := by
  rw [Ends] at h
  split at h <;> rename_i hon
  · exact absurd h (hQ _ _)
  · exact ⟨_, _, hon, h⟩

end Build

/-- The node that was added was not there before. -/
theorem Workspace.Appends.ne {w w' : Workspace} {r : NodeRef} (h : w.Appends r w') : w' ≠ w := by
  rintro rfl
  have hsize := congrArg Array.size h.nodes
  rw [Array.size_push] at hsize
  omega

namespace BuilderCall

/-- The call declares a padding value that is missing or of another element type, for a placeholder
that is fine otherwise. -/
def Misdeclares : BuilderCall → Prop
  | .placeholderWithPadding _ _ padding d axes =>
    (d.isSupported = true ∧ ∀ a ∈ axes, a.Valid) ∧ Build.RefusesPadding d padding
  | _ => False

end BuilderCall

section Placeholders

variable {w : Workspace} {g : Nat}

/-- A placeholder is accepted if its element type is supported and its axes are valid. -/
theorem Build.ends_placeholder_accepted (g : Nat) (name : String) (d : DType) (axes : List Axis) :
    (placeholder g name d axes).Ends w
      (fun r _ => r = w.nextRef g ∧ d.isSupported = true ∧ ∀ a ∈ axes, a.Valid)
      fun _ => ¬(d.isSupported = true ∧ ∀ a ∈ axes, a.Valid) := by
  simp only [placeholder, checkDType, ends_bind]
  split
  · rename_i hd
    simp only [add, withName, ends_pure, ends_bind, ends_get, ends_lift, List.filterMap_nil,
      Workspace.owner]
    split
    · rename_i a ha
      have hinvalid : ¬a.Valid := by simpa using List.find?_some ha
      exact fun haccepted => hinvalid (haccepted.2 a (List.mem_of_find?_eq_some ha))
    · rename_i hnone
      have hvalid : ∀ a ∈ axes, a.Valid :=
        fun a ha => by simpa using List.find?_eq_none.1 hnone a ha
      exact ⟨rfl, hd, hvalid⟩
  · rename_i hd
    exact fun haccepted => hd haccepted.1

/-- A placeholder is left if its declaration is refused, and nothing if the placeholder itself
is. -/
theorem Build.ends_placeholderWithPadding_declared (hg : g < w.graphs.size) (name : String)
    (padding : Option PaddingValue) (d : DType) (axes : List Axis) :
    (placeholderWithPadding g name padding d axes).Ends w
      (fun _ _ => ¬(BuilderCall.placeholderWithPadding g name padding d axes).Misdeclares)
      fun w' =>
        ((BuilderCall.placeholderWithPadding g name padding d axes).Misdeclares ∧
          w.Appends (w.nextRef g) w' ∧
          w'.node (w.nextRef g) = ⟨name, .placeholder none, [], d, axes⟩) ∨
        (¬(BuilderCall.placeholderWithPadding g name padding d axes).Misdeclares ∧ w' = w) := by
  refine ends_placeholderWithPadding_of
    (((ends_placeholder_accepted g name d axes).and
      (ends_placeholder_appends hg name d axes)).mono ?_ ?_)
  · rintro r w' ⟨⟨rfl, haccepted⟩, hadded⟩
    refine ⟨fun hrefused => .inl ⟨⟨haccepted, hrefused⟩, hadded⟩, fun p hp hdtype hbad => ?_⟩
    obtain ⟨v, hv, hne⟩ := hbad.2 p hp
    exact hne (hdtype v hv)
  · rintro w' ⟨hrefused, hsame⟩
    exact .inr ⟨fun h => hrefused h.1, hsame⟩

end Placeholders

namespace BuilderCall

variable {w : Workspace} {b : BuilderCall}

/-- **What every call leaves when it fails**: its misdeclared placeholder, or nothing. -/
theorem ends_failed (hb : b.RefersTo w) :
    b.build.Ends w (fun _ _ => ¬b.Misdeclares) fun w' =>
      (b.Misdeclares ∧ ∃ g name padding d axes, b = .placeholderWithPadding g name padding d axes ∧
        w.Appends (w.nextRef g) w' ∧
        w'.node (w.nextRef g) = ⟨name, .placeholder none, [], d, axes⟩) ∨
      (¬b.Misdeclares ∧ w' = w) := by
  have hchecked (hfirst : b.checksFirst = true) : b.build.Ends w (fun _ _ => True) (· = w) :=
    ends_of_add hfirst rfl fun _ _ _ _ hmakes _ _ =>
      (Build.ends_add_appends hb.2 (mentions_of_makes? hmakes ▸ hb.1)).mono
        (fun _ _ _ => trivial) fun _ h => h
  cases b with
  | placeholder g name d axes =>
    exact (Build.ends_placeholder_appends (hb.2 g rfl) name d axes).mono (fun _ _ _ h => h)
      fun _ h => .inr ⟨id, h⟩
  | placeholderWithPadding g name padding d axes =>
    refine (Build.ends_placeholderWithPadding_declared (hb.2 g rfl) name padding d axes).mono
      (fun _ _ h => h) ?_
    exact fun _ h => h.imp_left fun hleft => ⟨hleft.1, g, name, padding, d, axes, rfl, hleft.2⟩
  | withName x label => exact fun h => h
  | _ => exact (hchecked rfl).mono (fun _ _ _ h => h) fun _ h => .inr ⟨id, h⟩

/-- **A failing call leaves everything as it was, unless it misdeclares a placeholder.**  Such a
call fails always, and the placeholder stays behind all other nodes of its graph, without the
declaration. -/
theorem failed_unchanged_iff (hb : b.RefersTo w) :
    (∀ e w', b.build.on w = (.error e, w') → (w' = w ↔ ¬b.Misdeclares)) ∧
      (b.Misdeclares → ∃ e w' g name padding d axes, b.build.on w = (.error e, w') ∧
        b = .placeholderWithPadding g name padding d axes ∧ w.Appends (w.nextRef g) w' ∧
        w'.node (w.nextRef g) = ⟨name, .placeholder none, [], d, axes⟩) := by
  have hends := ends_failed hb
  constructor
  · intro e w' hon
    rcases hends.of_error hon with ⟨hbad, g, name, padding, d, axes, -, hadded, -⟩ | ⟨hgood, hsame⟩
    · exact ⟨fun hsame => absurd hsame hadded.ne, fun hgood => absurd hbad hgood⟩
    · exact ⟨fun _ => hgood, fun _ => hsame⟩
  · intro hbad
    obtain ⟨e, w', hon, hleft⟩ := hends.exists_error fun _ _ hgood => hgood hbad
    rcases hleft with ⟨-, g, name, padding, d, axes, hcall, hadded⟩ | ⟨hgood, -⟩
    · exact ⟨e, w', g, name, padding, d, axes, hon, hcall, hadded⟩
    · exact absurd hbad hgood

end BuilderCall

/-- Two graphs with a vector each. -/
def Workspace.twoVectors : Workspace :=
  ((Workspace.empty.addGraph "g").addGraph "h").calls
    [.placeholder 0 "x" .float32 [⟨16, 15⟩], .placeholder 1 "y" .float32 [⟨16, 15⟩]]

/-- Vectors of different graphs cannot be added, which changes nothing.  A missing padding value is
noticed when its placeholder is there. -/
theorem BuilderCall.failed_unchanged_twoVectors :
    Workspace.twoVectors.Built ∧
      (BuilderCall.binary (.binary .add) (.node ⟨0, 0⟩) (.node ⟨1, 0⟩)).RefersTo .twoVectors ∧
      (BuilderCall.placeholderWithPadding 0 "t" none .float32 [⟨16, 15⟩]).RefersTo .twoVectors ∧
      (∃ e, (BuilderCall.binary (.binary .add) (.node ⟨0, 0⟩) (.node ⟨1, 0⟩)).build.on .twoVectors =
        (.error e, .twoVectors)) ∧
      ∃ e w', (BuilderCall.placeholderWithPadding 0 "t" none .float32 [⟨16, 15⟩]).build.on
        .twoVectors = (.error e, w') ∧ w' ≠ .twoVectors := by
  have hadd : (BuilderCall.binary (.binary .add) (.node ⟨0, 0⟩) (.node ⟨1, 0⟩)).RefersTo
      .twoVectors := by
    decide
  have hdeclare : (BuilderCall.placeholderWithPadding 0 "t" none .float32 [⟨16, 15⟩]).RefersTo
      .twoVectors := by
    decide
  have hbad : (BuilderCall.placeholderWithPadding 0 "t" none .float32 [⟨16, 15⟩]).Misdeclares :=
    ⟨by decide, by simp [Build.RefusesPadding]⟩
  have hanswer : ((BuilderCall.binary (.binary .add) (.node ⟨0, 0⟩) (.node ⟨1, 0⟩)).build.on
      .twoVectors).1 = .error (.foreignOperand (.binary .add) ⟨1, 0⟩) := by decide
  refine ⟨((Workspace.Built.empty.addGraph "g").addGraph "h").calls (by decide), hadd,
    hdeclare, ?_, ?_⟩
  · have hon := Prod.ext hanswer rfl
    have hsame := ((failed_unchanged_iff hadd).1 _ _ hon).2 id
    exact ⟨_, hon.trans (congrArg _ hsame)⟩
  · obtain ⟨e, w', _, _, _, _, _, hon, -⟩ := (failed_unchanged_iff hdeclare).2 hbad
    exact ⟨e, w', hon, fun hsame => ((failed_unchanged_iff hdeclare).1 e w' hon).1 hsame hbad⟩

/-- A refused declaration leaves a node in a graph that had none. -/
theorem BuilderCall.misdeclared_stays :
    (Workspace.empty.addGraph "g").Built ∧
      ((BuilderCall.placeholderWithPadding 0 "mismatch" (some (.exact ⟨.int32, .zero⟩)) .float32
        [⟨2, 2⟩]).build.on (Workspace.empty.addGraph "g")).1 =
          .error (.paddingMismatch "mismatch" (.exact ⟨.int32, .zero⟩) .float32) ∧
      ((Workspace.empty.addGraph "g").graph 0).nodes.size = 0 ∧
      (((BuilderCall.placeholderWithPadding 0 "mismatch" (some (.exact ⟨.int32, .zero⟩)) .float32
        [⟨2, 2⟩]).build.on (Workspace.empty.addGraph "g")).2.graph 0).nodes.size = 1 :=
  ⟨.addGraph "g" .empty, by decide, by decide, by decide⟩

end LanePadding
