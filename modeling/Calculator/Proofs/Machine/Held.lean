import Calculator.Machine

/-
  The values that a machine holds: its operands and the values of names in its frames.  Giving a
  name a value brings in that value only, and opening and closing frames brings in none; the number
  of open frames changes by one when a frame is opened or closed, and not when a name gets a value.
-/

namespace Calculator

/-! ## Frames -/

namespace Frame

variable {f : Frame} {name known : String} {v w : Value}

theorem mem_of_find? (h : f.find? name = some v) : ∃ known, (known, v) ∈ f := by
  induction f with
  | nil => cases h
  | cons entry others ih =>
    obtain ⟨known, value⟩ := entry
    unfold find? at h
    split at h
    · cases h
      exact ⟨known, List.mem_cons_self⟩
    · obtain ⟨known', hmem⟩ := ih h
      exact ⟨known', List.mem_cons_of_mem _ hmem⟩

theorem mem_put (h : (known, w) ∈ f.put name v) : w = v ∨ (known, w) ∈ f := by
  induction f with
  | nil =>
    rw [put, List.mem_singleton] at h
    exact .inl (Prod.mk.inj h).2
  | cons entry others ih =>
    obtain ⟨old, value⟩ := entry
    unfold put at h
    split at h
    · rcases List.mem_cons.1 h with heq | hmem
      · exact .inl (Prod.mk.inj heq).2
      · exact .inr (List.mem_cons_of_mem _ hmem)
    · rcases List.mem_cons.1 h with heq | hmem
      · exact .inr (heq ▸ List.mem_cons_self)
      · exact (ih hmem).imp_right (List.mem_cons_of_mem _)

end Frame

/-! ## Scopes -/

namespace Scopes

/-- A value that a name has in some frame. -/
def Holds (s : Scopes) (v : Value) : Prop := ∃ f ∈ s.frames, ∃ name, (name, v) ∈ f

variable {s s' : Scopes} {name : String} {v w : Value}

theorem holds_of_find? (h : s.find? name = some v) : s.Holds v := by
  obtain ⟨f, hf, hfind⟩ := List.exists_of_findSome?_eq_some h
  exact ⟨f, hf, Frame.mem_of_find? hfind⟩

theorem holds_of_frames (h : ∀ f ∈ s'.frames, f ∈ s.frames ∨ f = []) (hw : s'.Holds w) :
    s.Holds w := by
  obtain ⟨f, hf, known, hmem⟩ := hw
  rcases h f hf with hf | rfl
  · exact ⟨f, hf, known, hmem⟩
  · cases hmem

theorem holds_enter (h : s.enter.Holds w) : s.Holds w :=
  holds_of_frames (fun _ hf => (List.mem_cons.1 hf).symm) h

theorem holds_leave (hleave : s.leave? = some s') (h : s'.Holds w) : s.Holds w := by
  unfold leave? at hleave
  split at hleave
  · cases hleave
  · next f outer hinner =>
    cases hleave
    refine holds_of_frames (fun g hg => .inl ?_) h
    unfold frames at hg ⊢
    rw [hinner]
    exact List.mem_cons_of_mem _ hg

theorem holds_keep {depth : Nat} (h : (s.keep depth).Holds w) : s.Holds w := by
  refine holds_of_frames (fun g hg => .inl ?_) h
  unfold frames at hg ⊢
  rw [List.mem_append] at hg ⊢
  exact hg.imp_left List.mem_of_mem_drop

theorem holds_of_put (h : ∀ g ∈ s'.frames, g ∈ s.frames ∨ ∃ f ∈ s.frames, g = f.put name v)
    (hw : s'.Holds w) : w = v ∨ s.Holds w := by
  obtain ⟨g, hg, known, hmem⟩ := hw
  rcases h g hg with hg | ⟨f, hf, rfl⟩
  · exact .inr ⟨g, hg, known, hmem⟩
  · exact (Frame.mem_put hmem).imp_right fun hmem => ⟨f, hf, known, hmem⟩

theorem mem_bind (s : Scopes) (name : String) (v : Value) :
    ∀ g ∈ (s.bind name v).frames, g ∈ s.frames ∨ ∃ f ∈ s.frames, g = f.put name v := by
  intro g hg
  unfold bind at hg
  unfold frames at hg ⊢
  split at hg
  · next hinner =>
    rw [hinner] at hg ⊢
    exact .inr ⟨s.globals, List.mem_cons_self, List.mem_singleton.1 hg⟩
  · next f outer hinner =>
    rw [hinner]
    rcases List.mem_cons.1 hg with rfl | hg
    · exact .inr ⟨f, List.mem_cons_self, rfl⟩
    · exact .inl (List.mem_cons_of_mem _ hg)

theorem depth_bind (s : Scopes) (name : String) (v : Value) : (s.bind name v).depth = s.depth := by
  unfold bind depth
  split
  · rfl
  · next hinner => rw [hinner, List.length_cons, List.length_cons]

theorem mem_replace? {name : String} {v : Value} {fs fs' : List Frame}
    (h : replace? name v fs = some fs') : fs'.length = fs.length ∧
      ∀ g ∈ fs', g ∈ fs ∨ ∃ f ∈ fs, g = f.put name v := by
  induction fs generalizing fs' with
  | nil => cases h
  | cons f fs ih =>
    unfold replace? at h
    split at h
    · cases h
      refine ⟨rfl, fun g hg => ?_⟩
      rcases List.mem_cons.1 hg with rfl | hg
      · exact .inr ⟨f, List.mem_cons_self, rfl⟩
      · exact .inl (List.mem_cons_of_mem _ hg)
    · obtain ⟨outer, houter, rfl⟩ := Option.map_eq_some_iff.1 h
      obtain ⟨hlength, hmem⟩ := ih houter
      refine ⟨congrArg (· + 1) hlength, fun g hg => ?_⟩
      rcases List.mem_cons.1 hg with rfl | hg
      · exact .inl List.mem_cons_self
      · refine (hmem g hg).imp (List.mem_cons_of_mem _) ?_
        rintro ⟨f', hf', heq⟩
        exact ⟨f', List.mem_cons_of_mem _ hf', heq⟩

theorem mem_assign (s : Scopes) (name : String) (v : Value) :
    ∀ g ∈ (s.assign name v).frames, g ∈ s.frames ∨ ∃ f ∈ s.frames, g = f.put name v := by
  unfold assign
  split
  · next inner hinner =>
    intro g hg
    unfold frames at hg ⊢
    rw [List.mem_append] at hg ⊢
    rcases hg with hg | hg
    · refine ((mem_replace? hinner).2 g hg).imp .inl ?_
      rintro ⟨f, hf, heq⟩
      exact ⟨f, List.mem_append_left _ hf, heq⟩
    · exact .inl (.inr hg)
  · split
    · intro g hg
      unfold frames at hg ⊢
      rw [List.mem_append] at hg ⊢
      rcases hg with hg | hg
      · exact .inl (.inl hg)
      · exact .inr ⟨s.globals, List.mem_append_right _ List.mem_cons_self, List.mem_singleton.1 hg⟩
    · exact mem_bind s name v

theorem depth_assign (s : Scopes) (name : String) (v : Value) :
    (s.assign name v).depth = s.depth := by
  unfold assign
  split
  · next inner hinner => exact (mem_replace? hinner).1
  · split
    · rfl
    · exact depth_bind s name v

theorem depth_leave (h : s.leave? = some s') : s'.depth + 1 = s.depth := by
  unfold leave? at h
  split at h
  · cases h
  · next f outer hinner =>
    cases h
    unfold depth
    rw [hinner, List.length_cons]

theorem leave?_eq_none (h : s.leave? = none) : s.depth = 0 := by
  unfold leave? at h
  split at h
  · next hinner =>
    unfold depth
    rw [hinner, List.length_nil]
  · cases h

theorem depth_keep (n : Nat) (s : Scopes) : (s.keep n).depth = min s.depth n := by
  have hlength : (s.inner.drop (s.inner.length - n)).length = s.inner.length - (s.inner.length - n) :=
    List.length_drop
  unfold keep depth
  dsimp only
  omega

end Scopes

/-! ## Machines -/

namespace Machine

/-- A value that is an operand or that a name has. -/
def Holds (m : Machine) (v : Value) : Prop := v ∈ m.operands ∨ m.scopes.Holds v

/-- Whatever the values of a machine are, they satisfy something. -/
def All (p : Value → Prop) (m : Machine) : Prop := ∀ v, m.Holds v → p v

variable {p : Value → Prop} {m : Machine}

theorem All.operands (h : m.All p) {v : Value} {rest : List Value} (hv : m.operands = v :: rest) :
    p v ∧ ({ m with operands := rest } : Machine).All p := by
  constructor
  · apply h
    exact .inl (hv ▸ List.mem_cons_self)
  · intro w hw
    exact h w (hw.imp_left fun hmem => hv ▸ List.mem_cons_of_mem _ hmem)

theorem All.push (h : m.All p) {v : Value} (hv : p v) : (m.push v).All p := by
  rintro w (hmem | hheld)
  · rcases List.mem_cons.1 hmem with rfl | hmem
    · exact hv
    · exact h w (.inl hmem)
  · exact h w (.inr hheld)

theorem All.scopes (h : m.All p) {s : Scopes} (hs : ∀ v, s.Holds v → p v) :
    ({ m with scopes := s } : Machine).All p := by
  rintro w (hmem | hheld)
  · exact h w (.inl hmem)
  · exact hs w hheld

theorem All.bare (h : m.All p) : ({ m with operands := [] } : Machine).All p := by
  rintro w (hmem | hheld)
  · cases hmem
  · exact h w (.inr hheld)

theorem All.load (h : m.All p) (hzero : p (.number 0)) (name : String) : (m.load name).All p := by
  unfold Machine.load
  split
  · next v hfind => exact h.push (h v (.inr (Scopes.holds_of_find? hfind)))
  · exact All.push (m := m.note _) h hzero

theorem All.keep (h : m.All p) (depth : Nat) : (m.keep depth).All p :=
  h.scopes fun v hv => h v (.inr (Scopes.holds_keep hv))

theorem All.enter (h : m.All p) : ({ m with scopes := m.scopes.enter } : Machine).All p :=
  h.scopes fun v hv => h v (.inr (Scopes.holds_enter hv))

theorem All.leave (h : m.All p) {s : Scopes} (hs : m.scopes.leave? = some s) :
    ({ m with scopes := s } : Machine).All p :=
  h.scopes fun v hv => h v (.inr (Scopes.holds_leave hs hv))

theorem All.bind (h : m.All p) {v : Value} (hv : p v) (name : String) :
    ({ m with scopes := m.scopes.bind name v } : Machine).All p := by
  refine h.scopes fun w hw => ?_
  rcases Scopes.holds_of_put (Scopes.mem_bind m.scopes name v) hw with rfl | hheld
  · exact hv
  · exact h w (.inr hheld)

theorem All.assign (h : m.All p) {v : Value} (hv : p v) (name : String) :
    ({ m with scopes := m.scopes.assign name v } : Machine).All p := by
  refine h.scopes fun w hw => ?_
  rcases Scopes.holds_of_put (Scopes.mem_assign m.scopes name v) hw with rfl | hheld
  · exact hv
  · exact h w (.inr hheld)

end Machine

end Calculator
