import ThemeBuilder.Report

/-! Running one operation after another. -/
namespace ThemeBuilder.Action

variable {α β : Type} {t u : FileTree} {events : List Event}

theorem bind_of_ok {x : Action α} {a : α} (h : x t = ⟨.ok a, u, events⟩) (f : α → Action β) :
    (x >>= f) t = ⟨(f a u).outcome, (f a u).tree, events ++ (f a u).events⟩ := by
  change Action.bind x f t = _
  rw [Action.bind, h]

theorem bind_of_error {x : Action α} {e : Failure} (h : x t = ⟨.error e, u, events⟩)
    (f : α → Action β) : (x >>= f) t = ⟨.error e, u, events⟩ := by
  change Action.bind x f t = _
  rw [Action.bind, h]

/-! What the operations of one step do when others come after them. -/

@[simp]
theorem pure_apply (a : α) (t : FileTree) : (Pure.pure a : Action α) t = ⟨.ok a, t, []⟩ := rfl

@[simp]
theorem fail_apply (e : Failure) (t : FileTree) : (fail e : Action α) t = ⟨.error e, t, []⟩ := rfl

@[simp]
theorem log_apply (d : Diagnostic) (t : FileTree) : log d t = ⟨.ok (), t, [.diagnostic d]⟩ := rfl

@[simp]
theorem print_bind (n : Notice) (f : Unit → Action β) (t : FileTree) :
    (print n >>= f) t = ⟨(f () t).outcome, (f () t).tree, .notice n :: (f () t).events⟩ := rfl

@[simp]
theorem log_bind (d : Diagnostic) (f : Unit → Action β) (t : FileTree) :
    (log d >>= f) t = ⟨(f () t).outcome, (f () t).tree, .diagnostic d :: (f () t).events⟩ := rfl

@[simp]
theorem look_bind (f : FileTree → α) (g : α → Action β) (t : FileTree) :
    (look f >>= g) t = g (f t) t := rfl

@[simp]
theorem change_bind (f : FileTree → FileTree) (g : Unit → Action β) (t : FileTree) :
    (change f >>= g) t = g () (f t) := rfl

/-- An operation whose outcome is a value always comes to its end. -/
@[simp]
theorem attempt_bind (x : Action α) (f : Except Failure α → Action β) (t : FileTree) :
    (attempt x >>= f) t = ⟨(f (x t).outcome (x t).tree).outcome, (f (x t).outcome (x t).tree).tree,
      (x t).events ++ (f (x t).outcome (x t).tree).events⟩ := rfl

@[simp]
theorem discard_eq (x : Action α) (t : FileTree) :
    (discard x : Action Unit) t =
      ⟨(x t).outcome.map fun _ => (), (x t).tree, (x t).events⟩ := by
  change (x >>= fun _ => Pure.pure ()) t = _
  rcases h : x t with ⟨e | a, u, events⟩
  · rw [bind_of_error h]
    rfl
  · rw [bind_of_ok h]
    simp [Except.map]

theorem read_of_ok {p : Path} {f : File} (h : t.read p = .ok f) : read p t = ⟨.ok f, t, []⟩ := by
  rw [read, h]
  rfl

theorem read_of_error {p : Path} {e : FileError} (h : t.read p = .error e) :
    read p t = ⟨.error ⟨[.reading p], .file e⟩, t, []⟩ := by
  rw [read, h]
  rfl

theorem create_of_ok {activity : Activity} {p : Path} {loc : Location}
    (h : t.create p = .ok (loc, u)) : create activity p t = ⟨.ok loc, u, []⟩ := by
  rw [create, h]

theorem create_of_error {activity : Activity} {p : Path} {e : FileError}
    (h : t.create p = .error e) : create activity p t = ⟨.error ⟨[activity], .file e⟩, t, []⟩ := by
  rw [create, h]

/-- The operation comes to its end: it gives `a` and leaves the tree `u`. -/
def Ends (x : Action α) (t : FileTree) (a : α) (u : FileTree) : Prop :=
  ∃ events, x t = ⟨.ok a, u, events⟩

end ThemeBuilder.Action
