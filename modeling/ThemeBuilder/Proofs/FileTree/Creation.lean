import ThemeBuilder.Proofs.FileTree.Frame

/-! Making or emptying a file: its path leads to it, it is empty, and all else is as it was. -/
namespace ThemeBuilder.FileTree
open Bytes

/-- A path along which a file can be made leads to the same place when it is followed for use. -/
private theorem walkWith_use {t : FileTree} {trailing : Bool}
    {jump jump' : Location → Route → Except Errno Spot}
    (hjump : ∀ dir route s, jump dir route = .ok s → jump' dir route = .ok s) {dir : Location}
    {cs : List Bytes} {s : Spot} (h : walkWith t .create trailing jump dir cs = .ok s) :
    walkWith t .use trailing jump' dir cs = .ok s := by
  induction cs generalizing dir with
  | nil => cases h
  | cons c cs ih =>
    rw [walkWith] at h ⊢
    dsimp only at h ⊢
    rw [if_neg (by simp)]
    split at h
    · cases h
    split at h
    · rw [if_pos ‹_›]
      exact ih h
    rw [if_neg ‹_›]
    split at h
    · rw [if_pos ‹_›]
      exact ih h
    rw [if_neg ‹_›]
    split at h
    · rw [dif_pos ‹_›]
      split at h
      · exact h
      · rw [if_neg (by simp)] at h
        cases cs with
        | nil => cases h
        | cons d cs => exact ih h
      · exact hjump _ _ _ h
      · exact h
    · cases h

private theorem walk_use {t : FileTree} {links : Nat} {dir : Location} {route : Route} {s : Spot}
    (h : walk t .create links dir route = .ok s) : walk t .use links dir route = .ok s := by
  induction links generalizing dir route s with
  | zero =>
    refine walkWith_use (fun _ _ _ hj => ?_) h
    cases hj
  | succ n ih => exact walkWith_use (fun _ _ _ => ih) h

theorem spot_use {t : FileTree} {p : Path} {s : Spot} (h : t.spot .create p = .ok s) :
    t.spot .use p = .ok s := by
  obtain ⟨hp, hw⟩ := spot_eq_ok.mp h
  exact spot_eq_ok.mpr ⟨hp, walk_use hw⟩

/-- A vacant name is one that its directory lacks. What a file can be made over is there. -/
def Spot.Agrees (t : FileTree) (purpose : Purpose) : Spot → Prop
  | .vacant dir name => t.node? (name :: dir) = none
  | .occupied loc => purpose = .create → t.node? loc ≠ none

private theorem walkWith_agrees {t : FileTree} {purpose : Purpose} {trailing : Bool}
    {jump : Location → Route → Except Errno Spot} {s : Spot}
    (hjump : ∀ dir route, jump dir route = .ok s → s.Agrees t purpose)
    {dir : Location} {cs : List Bytes} (h : walkWith t purpose trailing jump dir cs = .ok s) :
    s.Agrees t purpose := by
  induction cs generalizing dir with
  | nil =>
    rw [walkWith] at h
    split at h
    · cases h
    · cases h
      exact fun hp => absurd hp ‹_›
  | cons c cs ih =>
    rw [walkWith] at h
    dsimp only at h
    split at h
    · cases h
    split at h
    · exact ih h
    split at h
    · exact ih h
    split at h
    · split at h
      · split at h
        · cases h
          assumption
        · cases h
      · rename_i hd
        split at h
        · cases h
          exact fun _ => by simp [hd]
        · exact ih h
      · exact hjump _ _ h
      · rename_i hn
        split at h
        · cases h
          exact fun _ => by simp [hn]
        · cases h
    · cases h

private theorem walk_agrees {t : FileTree} {purpose : Purpose} {links : Nat} {dir : Location}
    {route : Route} {s : Spot} (h : walk t purpose links dir route = .ok s) :
    s.Agrees t purpose := by
  induction links generalizing dir route with
  | zero =>
    refine walkWith_agrees (fun _ _ hj => ?_) h
    cases hj
  | succ n ih => exact walkWith_agrees (fun _ _ => ih) h

/-- No entry has the name that a path leads to as a vacant one. -/
theorem node?_of_spot_vacant {t : FileTree} {purpose : Purpose} {p : Path} {d : Location}
    {name : Name} (h : t.spot purpose p = .ok (.vacant d name)) : t.node? (name :: d) = none :=
  walk_agrees (spot_eq_ok.mp h).2

theorem node?_of_spot_occupied {t : FileTree} {p : Path} {loc : Location}
    (h : t.spot .create p = .ok (.occupied loc)) : t.node? loc ≠ none :=
  walk_agrees (spot_eq_ok.mp h).2 rfl

/-- What creating a file leaves behind. -/
structure Created (t u : FileTree) (p : Path) (loc : Location) : Prop where
  saved : Saved t u loc
  locate : u.locate p = .ok loc
  file : ∃ mode, u.file? loc = some ⟨[], t.clock, mode⟩

theorem created_of_create {t u : FileTree} {p : Path} {loc : Location}
    (h : t.create p = .ok (loc, u)) : Created t u p loc := by
  unfold create at h
  cases hs : t.spot .create p with
  | error e =>
    rw [hs] at h
    cases h
  | ok s =>
    rw [hs] at h
    cases s with
    | vacant dir name =>
      cases h
      have hn := node?_of_spot_vacant hs
      have hnode := node?_add (e := ⟨name :: dir, .file ⟨[], t.clock, madeMode⟩, true⟩)
        (List.cons_ne_nil _ _) hn
      have hself := (hnode (name :: dir)).trans (if_pos rfl)
      have hover : Overwritten (t.node? (name :: dir))
          ((t.add ⟨name :: dir, .file ⟨[], t.clock, madeMode⟩, true⟩).node? (name :: dir)) := by
        rw [hn, hself]
        exact .made ..
      have hsaved : Saved t (t.add ⟨name :: dir, .file ⟨[], t.clock, madeMode⟩, true⟩)
          (name :: dir) := by
        refine { node? := fun l => ?_, here := hover }
        by_cases hl : l = name :: dir
        · exact .inr ⟨hl, hl ▸ hover⟩
        · exact .inl ((hnode l).trans (if_neg hl))
      refine ⟨hsaved, locate_eq_ok.mpr ?_, ⟨madeMode, file?_eq_some.mpr hself⟩⟩
      obtain he | ⟨_, _, -, he, he'⟩ | ⟨-, he, -⟩ := hsaved.spot .use p
      · -- the path cannot still lead to a vacant name, as that is taken now
        have := node?_of_spot_vacant (he.trans (spot_use hs))
        rw [hself] at this
        cases this
      · rw [spot_use hs] at he
        cases he
        exact he'
      · rw [spot_use hs] at he
        cases he
    | occupied l =>
      simp only [bind, Except.bind] at h
      split at h
      · cases h
        rename_i f hf
        have hsaved := saved_write hf []
        exact ⟨hsaved, hsaved.locate (locate_eq_ok.mpr (spot_use hs)), ⟨_, file?_write hf []⟩⟩
      · cases h

/-- What is written to a file just created is all that its path leads to. -/
theorem Created.read_append {t u : FileTree} {p : Path} {loc : Location} (h : Created t u p loc)
    (bytes : Bytes) : ∃ f, (u.append loc bytes).read p = .ok f ∧ f.bytes = bytes := by
  obtain ⟨mode, hfile⟩ := h.file
  have hsaved := saved_append hfile bytes
  exact ⟨_, read_eq_ok.mpr ⟨loc, hsaved.locate h.locate, file?_append hfile bytes⟩, rfl⟩

end ThemeBuilder.FileTree
