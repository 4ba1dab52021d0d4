import ThemeBuilder.Proofs.FileTree.Children

/-! Several files saved one after the other, and the same ones saved once more: that leaves their
bytes as they are. -/
namespace ThemeBuilder.FileTree

variable {t u v : FileTree} {W : Location → Prop} {l : Location} {ws : List (Location × Bytes)}

namespace Overwritten
variable {a b c : Option Node}

/-- What two runs put at a place may replace each other. -/
theorem either (hb : Overwritten a b) (hc : Overwritten a c) : Overwritten b c := by
  cases hb with
  | made bytes modified =>
    cases hc with
    | made bytes' modified' => exact .changed ⟨bytes, modified, madeMode⟩ bytes' modified'
  | changed f bytes modified =>
    cases hc with
    | changed _ bytes' modified' =>
      exact .changed { f with bytes := bytes, modified := modified } bytes' modified'

/-- A file that was overwritten may get its old content back. -/
theorem restore {f : File} (h : Overwritten (some (.file f)) b) :
    Overwritten b (some (.file f)) :=
  h.either (.changed f f.bytes f.modified)

end Overwritten

/-- A tree in which files are at all the written places comes from every other one in which files
were written there. -/
theorem Grown.fill (h : Grown t v W) (hu : Grown t u W)
    (filled : ∀ l, W l → ∃ f, u.node? l = some (.file f)) : Grown v u W := by
  refine ⟨fun l => ?_⟩
  by_cases hl : W l
  · obtain ⟨f, hf⟩ := filled l hl
    obtain hv | ⟨-, hv⟩ := h.node? l
    · rw [hv]
      exact hu.node? l
    · obtain hsame | ⟨-, ho⟩ := hu.node? l
      · rw [← hsame, hf] at hv
        exact .inr ⟨hl, hf ▸ hv.restore⟩
      · exact .inr ⟨hl, hv.either ho⟩
  · exact .inl ((hu.elsewhere hl).trans (h.elsewhere hl).symm)

theorem Grown.writable (h : Grown t u W) (hl : t.Writable l) : u.Writable l := by
  obtain he | ⟨-, ho⟩ := h.node? l
  · rwa [Writable, he]
  · exact .inr ho.file

/-- The same file is saved in both trees. -/
theorem Grown.save (h : Grown t u W) (hloc : W l) (hw : t.Writable l) (a b : Bytes) :
    Grown (t.save l a) (u.save l b) W := by
  have hbefore := saved_save hw a
  have hafter := saved_save (h.writable hw) b
  refine ⟨fun m => ?_⟩
  by_cases hm : m = l
  · subst hm
    refine .inr ⟨hloc, hbefore.here.either ?_⟩
    obtain he | ⟨-, ho⟩ := h.node? m
    · exact he ▸ hafter.here
    · exact ho.trans hafter.here
  · rw [hbefore.elsewhere hm, hafter.elsewhere hm]
    exact h.node? m

@[simp]
theorem clock_save (t : FileTree) (l : Location) (bytes : Bytes) :
    (t.save l bytes).clock = t.clock := by
  unfold save
  split
  · rw [add]
    split <;> rfl
  · rfl

/-- Files saved one after the other, each given as its place and its bytes. -/
def saveAll (t : FileTree) (ws : List (Location × Bytes)) : FileTree :=
  ws.foldl (fun t w => t.save w.1 w.2) t

@[simp]
theorem saveAll_cons (t : FileTree) (w : Location × Bytes) (ws : List (Location × Bytes)) :
    t.saveAll (w :: ws) = (t.save w.1 w.2).saveAll ws := rfl

/-- Files may still be saved after one of them was. -/
private theorem writable_of_cons {w : Location × Bytes} (h : ∀ x ∈ w :: ws, t.Writable x.1) :
    ∀ x ∈ ws, (t.save w.1 w.2).Writable x.1 := fun x hx =>
  (saved_save (h w List.mem_cons_self) w.2).toGrown.writable (h x (List.mem_cons_of_mem w hx))

theorem later_saveAll (h : ∀ w ∈ ws, t.Writable w.1) :
    Later t (t.saveAll ws) (· ∈ ws.map Prod.fst) := by
  induction ws generalizing t with
  | nil => exact .refl ..
  | cons w ws ih =>
    have hfirst := (later_save (h w List.mem_cons_self) w.2).mono
      (V := (· ∈ (w :: ws).map Prod.fst)) fun l hl => hl ▸ List.mem_cons_self
    exact hfirst.trans ((ih (writable_of_cons h)).mono fun l hl => List.mem_cons_of_mem _ hl)

/-- The place of the last file is touched no more after it. -/
private theorem file?_saveAll_cons {w : Location × Bytes} (h : ∀ x ∈ w :: ws, t.Writable x.1)
    (hl : w.1 ∉ ws.map Prod.fst) :
    ∃ mode, (t.saveAll (w :: ws)).file? w.1 = some ⟨w.2, t.clock, mode⟩ := by
  rw [saveAll_cons, (later_saveAll (writable_of_cons h)).file?_ne hl]
  exact file?_save (h w List.mem_cons_self) w.2

/-- Each file has its bytes if all are at places of their own. -/
theorem file?_saveAll_of_nodup (h : ∀ w ∈ ws, t.Writable w.1) (apart : (ws.map Prod.fst).Nodup)
    {w : Location × Bytes} (hw : w ∈ ws) :
    ∃ mode, (t.saveAll ws).file? w.1 = some ⟨w.2, t.clock, mode⟩ := by
  induction ws generalizing t with
  | nil => cases hw
  | cons x ws ih =>
    rw [List.map_cons, List.nodup_cons] at apart
    obtain rfl | hw := List.mem_cons.mp hw
    · exact file?_saveAll_cons h apart.1
    · rw [saveAll_cons, ← clock_save t x.1 x.2]
      exact ih (writable_of_cons h) apart.2 hw

/-- Whatever two trees were before, they have the same bytes at the places of files that were saved
in both. -/
theorem file?_saveAll (ht : ∀ w ∈ ws, t.Writable w.1) (hu : ∀ w ∈ ws, u.Writable w.1)
    (hl : l ∈ ws.map Prod.fst) :
    ∃ bytes mode mode', (t.saveAll ws).file? l = some ⟨bytes, t.clock, mode⟩ ∧
      (u.saveAll ws).file? l = some ⟨bytes, u.clock, mode'⟩ := by
  induction ws generalizing t u with
  | nil => cases hl
  | cons w ws ih =>
    by_cases hrest : l ∈ ws.map Prod.fst
    · rw [saveAll_cons, saveAll_cons, ← clock_save t w.1 w.2, ← clock_save u w.1 w.2]
      exact ih (writable_of_cons ht) (writable_of_cons hu) hrest
    · rw [List.map_cons, List.mem_cons] at hl
      obtain rfl := hl.resolve_right hrest
      obtain ⟨mode, hfile⟩ := file?_saveAll_cons ht hrest
      obtain ⟨mode', hfile'⟩ := file?_saveAll_cons hu hrest
      exact ⟨w.2, mode, mode', hfile, hfile'⟩

theorem saveAll_append (t : FileTree) (ws xs : List (Location × Bytes)) :
    t.saveAll (ws ++ xs) = (t.saveAll ws).saveAll xs := List.foldl_append

/-- Saving the same files once more, at another time, changes nothing but when they were written. -/
theorem node?_saveAll_again (h : ∀ w ∈ ws, t.Writable w.1) (now : Int) (l : Location) :
    (((t.saveAll ws).atTime now).saveAll ws).node? l = (t.saveAll ws).node? l ∨
      ∃ f, (t.saveAll ws).node? l = some (.file f) ∧
        (((t.saveAll ws).atTime now).saveAll ws).node? l =
          some (.file { f with modified := now }) := by
  have hlater := later_saveAll h
  have hagain : ∀ w ∈ ws, ((t.saveAll ws).atTime now).Writable w.1 := fun w hw =>
    hlater.toGrown.writable (h w hw)
  obtain hsame | ⟨hl, ho⟩ := (later_saveAll hagain).node? l
  · exact .inl hsame
  · obtain ⟨bytes, mode, mode', hfile, hfile'⟩ := file?_saveAll h hagain hl
    rw [file?_eq_some] at hfile hfile'
    refine .inr ⟨_, hfile, ?_⟩
    change Overwritten ((t.saveAll ws).node? l) _ at ho
    rw [hfile, hfile'] at ho
    -- the permission bits are those of the file that was there
    cases ho
    exact hfile'

/-- `u` is `t` with files saved along some of these paths. -/
def SavedAlong (t u : FileTree) (paths : List Path) : Prop :=
  ∃ ws : List (Location × Bytes), (∀ w ∈ ws, ∃ p ∈ paths, t.target? p = some w.1) ∧
    u = t.saveAll ws

namespace SavedAlong
variable {p : Path} {ps qs : List Path}

theorem refl (t : FileTree) (ps : List Path) : SavedAlong t t ps :=
  ⟨[], fun _ hw => absurd hw List.not_mem_nil, rfl⟩

theorem save (h : t.target? p = some l) (bytes : Bytes) : SavedAlong t (t.save l bytes) [p] :=
  ⟨[(l, bytes)], fun _ hw => ⟨p, List.mem_singleton_self p, List.mem_singleton.mp hw ▸ h⟩, rfl⟩

theorem mono (h : SavedAlong t u ps) (hsub : ∀ p ∈ ps, p ∈ qs) : SavedAlong t u qs := by
  obtain ⟨ws, hws, hu⟩ := h
  refine ⟨ws, fun w hw => ?_, hu⟩
  obtain ⟨p, hp, ht⟩ := hws w hw
  exact ⟨p, hsub p hp, ht⟩

theorem later (h : SavedAlong t u ps) : Later t u fun l => ∃ p ∈ ps, t.target? p = some l := by
  obtain ⟨ws, hws, rfl⟩ := h
  have hwritable : ∀ w ∈ ws, t.Writable w.1 := by
    intro w hw
    obtain ⟨p, -, ht⟩ := hws w hw
    exact writable_of_target? ht
  refine (later_saveAll hwritable).mono fun l hl => ?_
  obtain ⟨w, hw, rfl⟩ := List.mem_map.mp hl
  exact hws w hw

theorem trans (h : SavedAlong t u ps) (h' : SavedAlong u v qs) : SavedAlong t v (ps ++ qs) := by
  have hlater := h.later
  obtain ⟨ws, hws, rfl⟩ := h
  obtain ⟨xs, hxs, rfl⟩ := h'
  refine ⟨ws ++ xs, fun w hw => ?_, (saveAll_append t ws xs).symm⟩
  obtain hw | hw := List.mem_append.mp hw
  · obtain ⟨p, hp, ht⟩ := hws w hw
    exact ⟨p, List.mem_append_left qs hp, ht⟩
  · obtain ⟨p, hp, ht⟩ := hxs w hw
    exact ⟨p, List.mem_append_right ps hp, hlater.target? p ▸ ht⟩

end SavedAlong

end ThemeBuilder.FileTree
